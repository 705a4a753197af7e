import MevScout.Utils

/-!
# Pool states

Models of `core/src/dex_type.rs`, `core/src/pool/math/fee.rs` and
`core/src/pool/state/pool_types.rs`: what the manager stores for each pool.

A `HashMap` or `BTreeMap` with keys of type `κ` is a `Std.ExtTreeMap κ`, whose
elements are determined by their lookups.
-/

namespace MevScout.Pool

/-- Model of `DexType` (`dex_type.rs`, lines 20–60). -/
inductive DexType where
  | uniswapV2 | uniswapV3 | curve | balancer | solidly | camelot | uniswapV4 | traderJoeLB
  | pendle | pancakeInfinity | metric | fluid
  deriving DecidableEq, Repr

/-! ## Fees -/

def bpsFeeDenom : ℕ := 10000
def ppmFeeDenom : ℕ := 1000000

/-- Model of `FeeTier` (`fee.rs`, lines 22–32). -/
inductive FeeTier where
  | unset
  | free
  | bps (f : ℕ)
  | ppm (f : ℕ)
  deriving DecidableEq, Repr

/-- Model of `FeeTier::from_raw` (`fee.rs`, lines 39–61). -/
def FeeTier.fromRaw (dexType : DexType) (rawFee : ℕ) : FeeTier :=
  if rawFee = 0 then
    match dexType with
    | .pendle => .free
    | _ => .unset
  else
    match dexType with
    | .uniswapV2 | .solidly | .camelot | .traderJoeLB => .bps rawFee
    | .uniswapV3 | .uniswapV4 | .pancakeInfinity | .curve | .balancer => .ppm rawFee
    | .pendle => .free
    | .metric | .fluid => .unset

/-- Model of `FeeTier::fraction` (`fee.rs`, lines 64–70). -/
def FeeTier.fraction : FeeTier → ℕ × ℕ
  | .unset | .free => (0, bpsFeeDenom)
  | .bps f => (f, bpsFeeDenom)
  | .ppm f => (f, ppmFeeDenom)

/-- Model of `FeeTier::kept_fraction` (`fee.rs`, lines 74–77). -/
def FeeTier.keptFraction (t : FeeTier) : ℕ × ℕ :=
  let (num, den) := t.fraction
  (den - min num den, den)

/-- Model of `FeeTier::fee_on_amount` (`fee.rs`, lines 86–89). -/
def FeeTier.feeOnAmount (t : FeeTier) (amountIn : ℕ) : ℕ :=
  let (num, den) := t.fraction
  saturatingMul 128 amountIn num / den

/-! ## Static information -/

/-- Model of `PoolInfo` (`pool_types.rs`, lines 81–142): the fields that the state code
    reads. -/
structure PoolInfo where
  address : Address := 0
  token0 : Address := 0
  token1 : Address := 0
  fee : ℕ := 0
  dexType : DexType := .uniswapV2
  tickSpacing : Option ℕ := none
  poolId : Option B256 := none
  factory : Option Address := none
  isStable : Option Bool := none
  underlyingTokens : Option (List Address) := none
  balancerPoolType : Option ℕ := none
  binStep : Option ℕ := none
  deriving DecidableEq

/-- `DEFAULT_V3_TICK_SPACING` (`math/consts.rs`). -/
def defaultV3TickSpacing : ℕ := 60

/-- Model of `PoolInfo::tick_spacing_or_default` (`pool_types.rs`, lines 146–149). -/
def PoolInfo.tickSpacingOrDefault (info : PoolInfo) : ℤ :=
  asSigned 32 (info.tickSpacing.getD defaultV3TickSpacing)

/-- Model of `PoolInfo::fee_tier` (`pool_types.rs`, lines 187–189). -/
def PoolInfo.feeTier (info : PoolInfo) : FeeTier := FeeTier.fromRaw info.dexType info.fee

/-! ## Runtime states -/

/-- Model of `UniswapV2PoolState` (`pool_types.rs`, lines 197–201). -/
structure UniswapV2PoolState where
  info : PoolInfo
  reserve0 : ℕ
  reserve1 : ℕ
  deriving DecidableEq

/-- The net liquidity of each initialized tick: `BTreeMap<i32, i128>`. -/
abbrev TickMap := Std.ExtTreeMap ℤ ℤ compare

/-- Model of `UniswapV3PoolState` (`pool_types.rs`, lines 209–221), which V4 and Pancake
    Infinity pools share. -/
structure UniswapV3PoolState where
  info : PoolInfo
  sqrtPriceX96 : ℕ := 0
  tick : ℤ := 0
  liquidity : ℕ := 0
  ticks : TickMap := ∅
  feeGrowthGlobal0X128 : ℕ := 0
  feeGrowthGlobal1X128 : ℕ := 0
  deriving DecidableEq

/-- Model of `TraderJoeLBPoolState` (`pool_types.rs`, lines 249–259). -/
structure TraderJoeLBPoolState where
  info : PoolInfo
  activeId : ℕ
  binStep : ℕ
  reserveX : ℕ := 0
  reserveY : ℕ := 0
  deriving DecidableEq

/-- Model of `PendlePoolState` (`pool_types.rs`, lines 279–289). -/
structure PendlePoolState where
  info : PoolInfo
  ptAddress : Address := 0
  syAddress : Address := 0
  totalPt : ℕ := 0
  totalSy : ℕ := 0
  deriving DecidableEq

/-- Model of `CurvePoolVariant` (`pool_types.rs`, lines 305–315). -/
inductive CurvePoolVariant where
  | plain | metaPool | crypto | other
  deriving DecidableEq, Repr

/-- Indices of a pool's tokens: `HashMap<Address, usize>`. -/
abbrev TokenSlots := Std.ExtTreeMap Address ℕ compare

/-- Model of `CurvePoolState` (`pool_types.rs`, lines 319–333). -/
structure CurvePoolState where
  info : PoolInfo
  balances : List ℕ
  tokenIndex : TokenSlots := ∅
  aCoeff : ℕ := 100
  poolVariant : CurvePoolVariant := .plain
  gamma : Option ℕ := none
  priceScale : List ℕ := []
  basePool : Option Address := none
  deriving DecidableEq

/-- Model of `BalancerPoolVariant` (`pool_types.rs`, lines 337–345). -/
inductive BalancerPoolVariant where
  | weighted | stable | composableStable | other
  deriving DecidableEq, Repr

/-- Model of `BalancerPoolState` (`pool_types.rs`, lines 349–368). -/
structure BalancerPoolState where
  info : PoolInfo
  balances : List ℕ
  tokenIndex : TokenSlots := ∅
  poolId : Option B256 := none
  weights : List ℕ := []
  poolVariant : BalancerPoolVariant := .weighted
  amplification : Option ℕ := none
  scalingFactors : List ℕ := []
  bptIndex : Option ℕ := none
  rateProviders : List (Option Address) := []
  deriving DecidableEq

/-- Model of `FluidPoolState` (`pool_types.rs`, lines 378–386). -/
structure FluidPoolState where
  info : PoolInfo
  lastSwap0to1 : Bool := false
  lastAmountIn : ℕ := 0
  lastAmountOut : ℕ := 0
  deriving DecidableEq

/-- Model of `MetricPoolState` (`pool_types.rs`, lines 406–412). -/
structure MetricPoolState where
  info : PoolInfo
  tick : ℤ := 0
  positionInBin : ℕ := 0
  deriving DecidableEq

/-- Model of `PoolState` (`pool_types.rs`, lines 429–446). -/
inductive PoolState where
  | uniswapV2 (s : UniswapV2PoolState)
  | uniswapV3 (s : UniswapV3PoolState)
  | uniswapV4 (s : UniswapV3PoolState)
  | pancakeInfinity (s : UniswapV3PoolState)
  | curve (s : CurvePoolState)
  | balancer (s : BalancerPoolState)
  | traderJoeLB (s : TraderJoeLBPoolState)
  | pendle (s : PendlePoolState)
  | metric (s : MetricPoolState)
  | fluid (s : FluidPoolState)
  deriving DecidableEq

namespace PoolState

/-- Model of `PoolState::info` (`pool_types.rs`, lines 464–477). -/
def info : PoolState → PoolInfo
  | uniswapV2 s => s.info
  | uniswapV3 s | uniswapV4 s | pancakeInfinity s => s.info
  | curve s => s.info
  | balancer s => s.info
  | traderJoeLB s => s.info
  | pendle s => s.info
  | metric s => s.info
  | fluid s => s.info

/-- Model of `PoolState::address` (`pool_types.rs`, lines 449–462). -/
def address (p : PoolState) : Address := p.info.address

/-- The effect of an assignment through `PoolState::info_mut`. -/
def mapInfo (f : PoolInfo → PoolInfo) : PoolState → PoolState
  | uniswapV2 s => uniswapV2 { s with info := f s.info }
  | uniswapV3 s => uniswapV3 { s with info := f s.info }
  | uniswapV4 s => uniswapV4 { s with info := f s.info }
  | pancakeInfinity s => pancakeInfinity { s with info := f s.info }
  | curve s => curve { s with info := f s.info }
  | balancer s => balancer { s with info := f s.info }
  | traderJoeLB s => traderJoeLB { s with info := f s.info }
  | pendle s => pendle { s with info := f s.info }
  | metric s => metric { s with info := f s.info }
  | fluid s => fluid { s with info := f s.info }

@[simp] theorem info_mapInfo (f : PoolInfo → PoolInfo) (p : PoolState) :
    (p.mapInfo f).info = f p.info := by
  cases p <;> rfl

/-! ### Edits of one variant

The body of an `if let Some(PoolState::V(state)) = self.pool_mut(address)`: the state
is edited when the pool is of variant `V`. -/

def mapUniswapV2 (f : UniswapV2PoolState → UniswapV2PoolState) : PoolState → PoolState
  | uniswapV2 s => uniswapV2 (f s)
  | p => p

/-- The match arm that V3, V4 and Pancake Infinity share. -/
def mapConcentrated (f : UniswapV3PoolState → UniswapV3PoolState) : PoolState → PoolState
  | uniswapV3 s => uniswapV3 (f s)
  | uniswapV4 s => uniswapV4 (f s)
  | pancakeInfinity s => pancakeInfinity (f s)
  | p => p

def mapCurve (f : CurvePoolState → CurvePoolState) : PoolState → PoolState
  | curve s => curve (f s)
  | p => p

def mapBalancer (f : BalancerPoolState → BalancerPoolState) : PoolState → PoolState
  | balancer s => balancer (f s)
  | p => p

def mapTraderJoeLB (f : TraderJoeLBPoolState → TraderJoeLBPoolState) : PoolState → PoolState
  | traderJoeLB s => traderJoeLB (f s)
  | p => p

def mapPendle (f : PendlePoolState → PendlePoolState) : PoolState → PoolState
  | pendle s => pendle (f s)
  | p => p

def mapFluid (f : FluidPoolState → FluidPoolState) : PoolState → PoolState
  | fluid s => fluid (f s)
  | p => p

def mapMetric (f : MetricPoolState → MetricPoolState) : PoolState → PoolState
  | metric s => metric (f s)
  | p => p

/-- Model of `PoolState::is_unhealthy` (`pool_types.rs`, lines 520–532). -/
def isUnhealthy : PoolState → Bool
  | uniswapV2 s => s.reserve0 = 0 ∧ s.reserve1 = 0
  | uniswapV3 s | uniswapV4 s | pancakeInfinity s => s.sqrtPriceX96 = 0
  | balancer s => s.balances.all (· = 0)
  | curve s => s.balances.all (· = 0)
  | traderJoeLB s => s.reserveX = 0 ∧ s.reserveY = 0
  | pendle s => s.totalPt = 0 ∧ s.totalSy = 0
  | metric _ | fluid _ => false

/-- Model of `PoolState::tokens` (`pool_types.rs`, lines 534–547). -/
def tokens : PoolState → List Address
  | balancer s => s.info.underlyingTokens.getD []
  | curve s => s.info.underlyingTokens.getD []
  | p => [p.info.token0, p.info.token1]

end PoolState

end MevScout.Pool
