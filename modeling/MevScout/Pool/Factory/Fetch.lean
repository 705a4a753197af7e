import MevScout.Common.Run
import MevScout.Pool.Types

/-!
# Pool-state fetchers

Models of the fetchers of Balancer, Curve, Trader Joe LB and Pendle pools in
`core/src/pool/state/factory.rs`. The RPC node is a function from a contract and its call
data to the answer, at the block of the fetch. A `usize` is 64 bits wide; a slice out of
its range and a capacity above `isize::MAX` bytes panic.
-/

namespace MevScout.Pool.Factory

/-- The node at one block: `call_once`, and `call_latest`. -/
structure Rpc where
  call : Address → List UInt8 → Option (List UInt8)
  callLatest : Address → List UInt8 → Option (List UInt8)

/-- An answer of at least `len` bytes. -/
def Rpc.answer (rpc : Rpc) (len : ℕ) (pool : Address) (data : List UInt8) : Option (List UInt8) :=
  (rpc.call pool data).filter (len ≤ ·.length)

/-! ## Selectors (`pool/selectors.rs`) -/

def getPoolTokens : List UInt8 := [0xf9, 0x4d, 0x46, 0x68]
def getNormalizedWeights : List UInt8 := [0xf8, 0x9f, 0x27, 0xed]
def getSwapFeePercentage : List UInt8 := [0x55, 0xc6, 0x76, 0x28]
def getAmplificationParameter : List UInt8 := [0x6d, 0xac, 0xcf, 0xfa]
def getScalingFactors : List UInt8 := [0x1d, 0xd7, 0x46, 0xea]
def getRateProvider : List UInt8 := [0x48, 0xad, 0xe7, 0xb0]
def curveCoinsI128 : List UInt8 := [0x23, 0x74, 0x6e, 0xb8]
def curveCoinsU256 : List UInt8 := [0xc6, 0x61, 0x06, 0x57]
def curveBalancesI128 : List UInt8 := [0x06, 0x5a, 0x80, 0xd8]
def curveBalancesU256 : List UInt8 := [0x49, 0x03, 0xb0, 0xd1]
def curveA : List UInt8 := [0xf4, 0x46, 0xc1, 0xd0]
def curveGetA : List UInt8 := [0xe9, 0x1d, 0xf8, 0xb3]
def curveGamma : List UInt8 := [0xb1, 0x37, 0x39, 0x29]
def curvePriceScale : List UInt8 := [0xb9, 0xe8, 0xc9, 0xfd]
def curveBasePool : List UInt8 := [0x5d, 0x63, 0x62, 0xbb]
def curveFee : List UInt8 := [0xdd, 0xca, 0x3f, 0x43]
def lbGetBin : List UInt8 := [0xfc, 0x7c, 0x59, 0xeb]
def lbGetBinStep : List UInt8 := [0x17, 0xf1, 0x1e, 0xcc]
def lbGetActiveId : List UInt8 := [0xdb, 0xe6, 0x5e, 0xdc]
def pendleReadState : List UInt8 := [0x79, 0x40, 0x52, 0xf3]

/-! ## Reading words -/

/-- `as_limbs()[0]`: the low 64 bits of a `U256`. -/
def limb0 (n : ℕ) : ℕ := n % 2 ^ 64

/-- `U256::from_be_slice(&data[off..off + 32])`. -/
def readWord (data : List UInt8) (off : ℕ) : Except Panic ℕ :=
  if off + 32 > data.length then .error .slice else .ok (beVal (slice data off (off + 32)))

/-- The low limb of the first word of an answer that is long enough. -/
def firstLimb (data : List UInt8) : ℕ := limb0 (beVal (slice data 0 32))

/-- `Vec::with_capacity(n)` for elements of `size` bytes. -/
def withCapacity (size n : ℕ) : Except Panic Unit :=
  if size * n < 2 ^ 63 then .ok () else .error .capacity

/-- The byte offset of the entry `i` of an array that starts at `start`. -/
def entryOffset (start i : ℕ) : ℕ := wrappingAdd 64 start (wrappingMul 64 i 32)

/-- The decoding of a dynamic array that the weights, the scaling factors and the price
    scales share: an offset, a count, and the low limbs of the entries that are there. -/
def readArray (data : List UInt8) : Except Panic (List ℕ) := do
  let off := firstLimb data
  let count ← if wrappingAdd 64 off 32 ≤ data.length then limb0 <$> readWord data off else .ok 0
  let start := wrappingAdd 64 off 32
  withCapacity 16 count
  let entries ← (List.range count).mapM fun j =>
    let pos := entryOffset start j
    if wrappingAdd 64 pos 32 ≤ data.length then (some ∘ limb0) <$> readWord data pos else .ok none
  return entries.reduceOption

/-! ## Balancer -/

/-- Model of `BalancerInit` (`factory.rs`, lines 148–158). -/
structure BalancerInit where
  tokens : List Address
  balances : List ℕ
  weights : List ℕ
  feeBps : ℕ
  variant : BalancerPoolVariant
  amplification : Option ℕ
  scalingFactors : List ℕ
  bptIndex : Option ℕ
  rateProviders : List (Option Address)
  deriving DecidableEq

/-- The errors of `fetch_balancer_state`. -/
inductive FetchError where
  /-- The call itself failed. -/
  | rpc
  /-- "balancer getPoolTokens returned too short data" -/
  | tooShort
  /-- "balancer pool has fewer than 2 tokens" -/
  | fewTokens
  deriving DecidableEq, Repr

/-- The tokens and balances that `fetch_balancer_state` reads from the return value of
    `getPoolTokens`, with its token count (`factory.rs`, lines 1407–1437). -/
def decodePoolTokens (returnData : List UInt8) : Except Panic (List Address × List ℕ × ℕ) := do
  let tokensOffset ← readWord returnData 0
  let balancesOffset ← readWord returnData 32
  let tokensLenOffset := wrappingAdd 64 32 (limb0 tokensOffset)
  let tokenCount ← limb0 <$> readWord returnData tokensLenOffset
  let tokensStart := wrappingAdd 64 tokensLenOffset 32
  withCapacity 20 tokenCount
  let tokens := ((List.range tokenCount).map fun i =>
    abiDecodeAddress returnData (entryOffset tokensStart i)).reduceOption
  let balancesStart := wrappingAdd 64 (wrappingAdd 64 64 (limb0 balancesOffset)) 32
  withCapacity 16 tokenCount
  let balances ← (List.range tokenCount).mapM fun i =>
    limb0 <$> readWord returnData (entryOffset balancesStart i)
  return (tokens, balances, tokenCount)

/-- The weights of `fetch_balancer_state` (`factory.rs`, lines 1442–1467). -/
def fetchWeights (rpc : Rpc) (pool : Address) : Except Panic (List ℕ) :=
  (rpc.answer 32 pool getNormalizedWeights).elim (.ok []) readArray

/-- The scaling factors of `fetch_balancer_state` (`factory.rs`, lines 1481–1507). -/
def fetchScalingFactors (rpc : Rpc) (pool : Address) : Except Panic (List ℕ) :=
  (rpc.answer 64 pool getScalingFactors).elim (.ok []) readArray

/-- `BALANCER_FEE_ETHER_DIVISOR` (`math/consts.rs`, line 32). -/
def balancerFeeEtherDivisor : ℕ := 10 ^ 12

/-- The fee of `fetch_balancer_state` (`factory.rs`, lines 1468–1480). -/
def fetchSwapFee (rpc : Rpc) (pool : Address) : ℕ :=
  (rpc.answer 32 pool getSwapFeePercentage).elim 0 fun data =>
    firstLimb data / balancerFeeEtherDivisor % 2 ^ 32

/-- The rate provider of token `i` (`factory.rs`, lines 1511–1525). -/
def fetchRateProvider (rpc : Rpc) (pool : Address) (i : ℕ) : Option Address :=
  (rpc.call pool (getRateProvider ++ beBytes 32 i)).bind fun data =>
    let addr := (abiDecodeAddress data 0).getD 0
    if addr = 0 then none else some addr

/-- The variant, amplification and BPT index of `fetch_balancer_state` (`factory.rs`,
    lines 1529–1571). -/
def detectVariant (rpc : Rpc) (pool : Address) (poolTypeHint : Option ℕ) (tokens : List Address)
    (tokenCount : ℕ) (weights scalingFactors : List ℕ) :
    BalancerPoolVariant × Option ℕ × Option ℕ :=
  match poolTypeHint with
  | some 0 | some 1 => (.weighted, none, none)
  | some 3 => (.composableStable, none, tokens.findIdx? (· = pool))
  | some _ => (.other, none, none)
  | none =>
    if weights ≠ [] then (.weighted, none, none)
    else
      match rpc.answer 96 pool getAmplificationParameter with
      | none => (.other, none, none)
      | some data =>
        let value := firstLimb data
        let precision := limb0 (beVal (slice data 64 96))
        let effectiveA := if precision = 0 then value else value / precision
        let bptIdx :=
          if scalingFactors.length = tokenCount then tokens.findIdx? (· = pool) else none
        (if bptIdx.isSome then .composableStable else .stable, some effectiveA, bptIdx)

/-- Model of `fetch_balancer_state` (`factory.rs`, lines 1386–1583). -/
def fetchBalancerState (rpc : Rpc) (vault pool : Address) (poolId : B256)
    (poolTypeHint : Option ℕ) : Except Panic (Except FetchError BalancerInit) :=
  match rpc.call vault (getPoolTokens ++ beBytes 32 poolId.toNat) with
  | none => .ok (.error .rpc)
  | some returnData =>
    if returnData.length < 96 then .ok (.error .tooShort)
    else do
      let (tokens, balances, tokenCount) ← decodePoolTokens returnData
      if balances.length < 2 then return .error .fewTokens
      else
        let weights ← fetchWeights rpc pool
        let feeBps := fetchSwapFee rpc pool
        let scalingFactors ← fetchScalingFactors rpc pool
        let rateProviders := (List.range tokenCount).map (fetchRateProvider rpc pool)
        let (variant, amplification, bptIndex) :=
          detectVariant rpc pool poolTypeHint tokens tokenCount weights scalingFactors
        return .ok
          { tokens, balances, weights, feeBps, variant, amplification, scalingFactors, bptIndex,
            rateProviders }

/-! ## Trader Joe LB and Pendle -/

/-- `Uint::to::<u64>`, which panics on a value that does not fit, then `as u32`. -/
def toU32 (n : ℕ) : Except Panic ℕ := if n < 2 ^ 64 then .ok (n % 2 ^ 32) else .error .conversion

/-- Model of `PoolInitResult::LBState`. -/
structure LBInit where
  activeId : ℕ
  binStep : ℕ
  reserveX : ℕ
  reserveY : ℕ
  deriving DecidableEq, Repr

/-- Model of `fetch_lb_state` (`factory.rs`, lines 1803–1859). -/
def fetchLbState (rpc : Rpc) (pool : Address) : Except Panic (Option LBInit) :=
  match rpc.answer 32 pool lbGetActiveId with
  | none => .ok none
  | some data => do
    let activeId ← toU32 (beVal (slice data 0 32))
    let stepData := (rpc.callLatest pool lbGetBinStep).getD []
    let binStep ← if stepData.length ≥ 32 then toU32 (beVal (slice stepData 0 32)) else .ok 0
    let (reserveX, reserveY) :=
      (rpc.answer 64 pool (lbGetBin ++ beBytes 32 activeId)).elim (0, 0) fun data =>
        (firstLimb data, limb0 (beVal (slice data 32 64)))
    return some { activeId, binStep, reserveX, reserveY }

/-- Model of `PoolInitResult::PendleState`. -/
structure PendleInit where
  totalPt : ℕ
  totalSy : ℕ
  syAddress : Address
  deriving DecidableEq

/-- Model of `fetch_pendle_state` (`factory.rs`, lines 1863–1901). -/
def fetchPendleState (rpc : Rpc) (pool : Address) : PendleInit :=
  let (totalPt, totalSy) :=
    (rpc.answer 64 pool (pendleReadState ++ beBytes 32 0)).elim (0, 0) fun data =>
      (firstLimb data, limb0 (beVal (slice data 32 64)))
  { totalPt, totalSy, syAddress := 0 }

/-! ## Curve -/

/-- Model of `CurveInit` (`factory.rs`, lines 160–169). -/
structure CurveInit where
  tokens : List Address
  balances : List ℕ
  aCoeff : ℕ
  feeBps : ℕ
  variant : CurvePoolVariant
  gamma : Option ℕ
  priceScale : List ℕ
  basePool : Option Address
  deriving DecidableEq

/-- `coins(i)` by the `uint256` overload, else by the `int128` one; `none` ends the loop. -/
def fetchCoin (rpc : Rpc) (pool : Address) (i : ℕ) : Option Address :=
  match (rpc.call pool (curveCoinsU256 ++ beBytes 32 i)).bind (abiDecodeAddress · 0) with
  | some addr => if addr = 0 then none else some addr
  | none =>
    match (rpc.call pool (curveCoinsI128 ++ beBytes 32 i)).bind (abiDecodeAddress · 0) with
    | some addr => if addr = 0 then none else some addr
    | none => none

/-- The answer to `balances(i)` by the `uint256` overload, else by the `int128` one. -/
def balanceAnswer (rpc : Rpc) (pool : Address) (i : ℕ) : Option (List UInt8) :=
  (rpc.answer 32 pool (curveBalancesU256 ++ beBytes 32 i)).or
    (rpc.answer 32 pool (curveBalancesI128 ++ beBytes 32 i))

/-- `balances(i)`; `none` ends the loop. -/
def fetchBalance (rpc : Rpc) (pool : Address) (i : ℕ) : Option ℕ :=
  (balanceAnswer rpc pool i).map firstLimb

def curveMaxTokens : ℕ := 16

/-- The loop of `fetch_curve_state` over the indices from `i` on, `n` of them. -/
def curveLoop (rpc : Rpc) (pool : Address) : ℕ → ℕ → List (Address × ℕ)
  | 0, _ => []
  | n + 1, i =>
    match fetchCoin rpc pool i, fetchBalance rpc pool i with
    | some token, some balance => (token, balance) :: curveLoop rpc pool n (i + 1)
    | _, _ => []

/-- The loop of `fetch_curve_state` over tokens that are known in advance. -/
def cachedLoop (rpc : Rpc) (pool : Address) : List Address → ℕ → List (Address × ℕ)
  | [], _ => []
  | token :: cached, i =>
    if token = 0 ∨ i ≥ curveMaxTokens then []
    else
      match fetchBalance rpc pool i with
      | some balance => (token, balance) :: cachedLoop rpc pool cached (i + 1)
      | none => []

/-- The amplification coefficient of `fetch_curve_state` (`factory.rs`, lines 2024–2046). -/
def fetchA (rpc : Rpc) (pool : Address) : ℕ :=
  ((rpc.answer 32 pool curveGetA).or (rpc.answer 32 pool curveA)).elim 100 firstLimb

/-- The swap fee of `fetch_curve_state` (`factory.rs`, lines 2048–2059). -/
def fetchCurveFee (rpc : Rpc) (pool : Address) : ℕ :=
  (rpc.answer 32 pool curveFee).elim 0 fun data => firstLimb data / 10000 % 2 ^ 32

/-- `gamma()`, absent when it is zero (`factory.rs`, lines 2061–2071). -/
def fetchGamma (rpc : Rpc) (pool : Address) : Option ℕ :=
  ((rpc.answer 32 pool curveGamma).filter fun data =>
    ¬(slice data 0 32).all (· = 0)).map firstLimb

/-- The price scales of `fetch_curve_state` (`factory.rs`, lines 2087–2115). -/
def fetchPriceScale (rpc : Rpc) (pool : Address) : Except Panic (List ℕ) :=
  (rpc.answer 64 pool curvePriceScale).elim (.ok []) readArray

/-- Model of `fetch_curve_state` (`factory.rs`, lines 1909–2133). -/
def fetchCurveState (rpc : Rpc) (pool : Address) (preFetchedTokens : Option (List Address)) :
    Except Panic (Option CurveInit) := do
  let coins :=
    preFetchedTokens.elim (curveLoop rpc pool curveMaxTokens 0) fun cached =>
      cachedLoop rpc pool cached 0
  let tokens := coins.map Prod.fst
  let balances := coins.map Prod.snd
  if tokens.length < 2 then return none
  else
    let aCoeff := fetchA rpc pool
    let feeBps := fetchCurveFee rpc pool
    let gamma := fetchGamma rpc pool
    let basePool :=
      if gamma.isSome then none
      else
        ((rpc.call pool curveBasePool).bind (abiDecodeAddress · 0)).filter (· ≠ 0)
    if gamma.isSome then
      let priceScale ← fetchPriceScale rpc pool
      return some
        { tokens, balances, aCoeff, feeBps, variant := .crypto, gamma, priceScale, basePool }
    else
      let variant := if basePool.isSome then .metaPool else .plain
      return some
        { tokens, balances, aCoeff, feeBps, variant, gamma := none, priceScale := [], basePool }

end MevScout.Pool.Factory
