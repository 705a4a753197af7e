import MevScout.Common.Run
import MevScout.Pool.Types

/-!
# Event log decoders

Models of `core/src/pool/decoders.rs`. A decoder returns `none` for a log of
another event or with too little data. The Pendle decoder also panics, on amounts
that do not fit a `u128`.
-/

namespace MevScout.Pool

open MevScout.Chain

/-- Model of `V3SwapDecoded` (`decoders.rs`, lines 27–33). -/
structure V3SwapDecoded where
  sqrtPriceX96 : ℕ
  tick : ℤ
  liquidity : ℕ
  amount0 : ℤ
  amount1 : ℤ
  deriving DecidableEq, Repr

/-- Model of `V3MintBurnDecoded` (`decoders.rs`, lines 37–41). -/
structure V3MintBurnDecoded where
  tickLower : ℤ
  tickUpper : ℤ
  amount : ℤ
  deriving DecidableEq, Repr

/-- Model of `CurveSwapDecoded` (`decoders.rs`, lines 45–50). -/
structure CurveSwapDecoded where
  coinSold : ℕ
  amountSold : ℕ
  coinBought : ℕ
  amountBought : ℕ
  deriving DecidableEq, Repr

/-- Model of `BalancerSwapDecoded` (`decoders.rs`, lines 54–60). -/
structure BalancerSwapDecoded where
  poolId : B256
  tokenIn : Address
  tokenOut : Address
  amountIn : ℕ
  amountOut : ℕ
  deriving DecidableEq, Repr

/-- Model of `LBSwapDecoded` (`decoders.rs`, lines 229–236). -/
structure LBSwapDecoded where
  amountIn : ℕ
  amountOut : ℕ
  swapForY : Bool
  deriving DecidableEq, Repr

/-- Model of `PendleSwapDecoded` (`decoders.rs`, lines 264–272). -/
structure PendleSwapDecoded where
  isNetPtOut : Bool
  amountIn : ℕ
  amountOut : ℕ
  deriving DecidableEq, Repr

/-- Model of `FluidSwapDecoded` (`decoders.rs`, lines 312–317). -/
structure FluidSwapDecoded where
  swap0to1 : Bool
  amountIn : ℕ
  amountOut : ℕ
  deriving DecidableEq, Repr

/-- Model of `MetricSwapDecoded` (`decoders.rs`, lines 343–349). -/
structure MetricSwapDecoded where
  exactInput : Bool
  amount0Delta : ℤ
  amount1Delta : ℤ
  newTick : ℤ
  newPositionInBin : ℕ
  deriving DecidableEq, Repr

/-- Model of `decode_v3_swap` (`decoders.rs`, lines 63–135). -/
def decodeV3Swap (log : ExecutedLog) : Option V3SwapDecoded :=
  if log.topics.head? ≠ some v3SwapTopic then none
  else if log.data.length < 160 then none
  else some
    { amount0 := signedFromBeBytes (slice log.data 16 32)
      amount1 := signedFromBeBytes (slice log.data 48 64)
      sqrtPriceX96 := u256FromBeSlice (slice log.data 64 96)
      liquidity := u128FromBeBytes (slice log.data 96 128)
      tick := signedFromBeBytes (slice log.data 156 160) }

/-- Model of `decode_v3_mint_burn` (`decoders.rs`, lines 143–168). -/
def decodeV3MintBurn (log : ExecutedLog) : Option V3MintBurnDecoded :=
  match log.topics with
  | topic0 :: _ :: topic2 :: topic3 :: _ =>
    let isBurn : Bool := topic0 = v3BurnTopic
    if topic0 ≠ v3MintTopic ∧ ¬isBurn then none
    else
      let tickLower := i24FromTopic topic2
      let tickUpper := i24FromTopic topic3
      -- Mint carries a leading `sender` word, Burn does not.
      let (need, amountOff) := if isBurn then (96, 0) else (128, 32)
      if log.data.length < need then none
      else
        let raw := u128FromBeBytes (slice log.data amountOff (amountOff + 32))
        let amount := if isBurn then wrapSigned 128 (-asSigned 128 raw) else asSigned 128 raw
        some { tickLower, tickUpper, amount }
  | _ => none

/-- Model of `decode_curve_swap` (`decoders.rs`, lines 171–196). -/
def decodeCurveSwap (log : ExecutedLog) : Option CurveSwapDecoded :=
  if log.topics.head? ≠ some curveTokenExchangeTopic ∧
      log.topics.head? ≠ some curveV2TokenExchangeTopic then none
  else if log.data.length < 128 then none
  else some
    { coinSold := u128FromBeBytes (slice log.data 0 32)
      amountSold := u128FromBeBytes (slice log.data 32 64)
      coinBought := u128FromBeBytes (slice log.data 64 96)
      amountBought := u128FromBeBytes (slice log.data 96 128) }

/-- Model of `decode_balancer_swap` (`decoders.rs`, lines 199–225). -/
def decodeBalancerSwap (log : ExecutedLog) : Option BalancerSwapDecoded :=
  match log.topics with
  | topic0 :: topic1 :: topic2 :: topic3 :: _ =>
    if topic0 ≠ balancerSwapTopic then none
    else if log.data.length < 64 then none
    else some
      { poolId := topic1
        tokenIn := topicAddress topic2
        tokenOut := topicAddress topic3
        amountIn := u128FromBeBytes (slice log.data 0 32)
        amountOut := u128FromBeBytes (slice log.data 32 64) }
  | _ => none

/-- Model of `decode_lb_swap` (`decoders.rs`, lines 244–260). -/
def decodeLbSwap (log : ExecutedLog) : Option LBSwapDecoded :=
  if log.topics.head? ≠ some traderJoeLbSwapTopic then none
  else if log.data.length < 96 then none
  else some
    { swapForY := log.data.getD 31 0 ≠ 0
      amountIn := u128FromBeBytes (slice log.data 32 64)
      amountOut := u128FromBeBytes (slice log.data 64 96) }

/-- `Uint::to::<u128>`, which panics on a value that does not fit. -/
def toU128 (n : ℕ) : Except Panic ℕ := if n < 2 ^ 128 then .ok n else .error .conversion

/-- `I256::into_raw`. -/
def intoRaw (x : ℤ) : ℕ := asUnsigned 256 x

/-- `I256::wrapping_abs` followed by `into_raw`: the absolute value, which for the least
    `I256` is its own bit pattern. -/
def wrappingAbsRaw (x : ℤ) : ℕ := x.natAbs

/-- Model of `decode_pendle_swap` (`decoders.rs`, lines 282–308). -/
def decodePendleSwap (log : ExecutedLog) : Except Panic (Option PendleSwapDecoded) :=
  if log.topics.head? ≠ some pendleMarketSwapTopic then .ok none
  else if log.topics.length < 3 ∨ log.data.length < 64 then .ok none
  else
    let netPt := signedFromBeBytes (slice log.data 0 32)
    let netSy := signedFromBeBytes (slice log.data 32 64)
    let isNetPtOut : Bool := 0 < netPt
    if isNetPtOut then do
      let amountIn ← toU128 (wrappingAbsRaw netSy)
      let amountOut ← toU128 (intoRaw netPt)
      return some { isNetPtOut, amountIn, amountOut }
    else do
      let amountIn ← toU128 (wrappingAbsRaw netPt)
      let amountOut ← toU128 (intoRaw netSy)
      return some { isNetPtOut, amountIn, amountOut }

/-- Model of `decode_fluid_swap` (`decoders.rs`, lines 324–339). -/
def decodeFluidSwap (log : ExecutedLog) : Option FluidSwapDecoded :=
  if log.topics.head? ≠ some fluidSwapTopic then none
  else if log.data.length < 96 then none
  else some
    { swap0to1 := log.data.getD 31 0 ≠ 0
      amountIn := u128FromBeBytes (slice log.data 32 64)
      amountOut := u128FromBeBytes (slice log.data 64 96) }

/-- Model of `decode_metric_swap` (`decoders.rs`, lines 358–381). -/
def decodeMetricSwap (log : ExecutedLog) : Option MetricSwapDecoded :=
  if log.topics.head? ≠ some metricSwapTopic then none
  else if log.data.length < 160 then none
  else some
    { exactInput := log.data.getD 31 0 ≠ 0
      amount0Delta := signedFromBeBytes (slice log.data 48 64)
      amount1Delta := signedFromBeBytes (slice log.data 80 96)
      newTick := signedFromBeBytes (slice log.data 126 128)
      newPositionInBin := u128FromBeBytes (slice log.data 128 160) }

/-! ## What decoded values satisfy -/

/-- The V3 swaps are the logs with their topic and enough data. -/
theorem decodeV3Swap_eq_some_iff {log : ExecutedLog} {d : V3SwapDecoded} :
    decodeV3Swap log = some d ↔
      log.topics.head? = some v3SwapTopic ∧ 160 ≤ log.data.length ∧
      d = { amount0 := signedFromBeBytes (slice log.data 16 32)
            amount1 := signedFromBeBytes (slice log.data 48 64)
            sqrtPriceX96 := u256FromBeSlice (slice log.data 64 96)
            liquidity := u128FromBeBytes (slice log.data 96 128)
            tick := signedFromBeBytes (slice log.data 156 160) } := by
  unfold decodeV3Swap
  split_ifs with htopic hlen
  · exact iff_of_false (fun h => by cases h) fun h => htopic h.1
  · exact iff_of_false (fun h => by cases h) fun h => by omega
  · rw [Option.some_inj, eq_comm]
    exact ⟨fun h => ⟨not_not.mp htopic, not_lt.mp hlen, h⟩, fun h => h.2.2⟩

/-- A decoded liquidity amount is an `i128`. -/
theorem decodeV3MintBurn_amount {log : ExecutedLog} {d : V3MintBurnDecoded}
    (h : decodeV3MintBurn log = some d) : -2 ^ 127 ≤ d.amount ∧ d.amount < 2 ^ 127 := by
  unfold decodeV3MintBurn at h
  split at h
  · simp only at h
    split_ifs at h <;> cases h
    · dsimp only
      exact wrapSigned_mem 127 (-asSigned 128 _)
    · dsimp only
      exact asSigned_mem 127 (u128FromBeBytes _)
  · cases h

end MevScout.Pool
