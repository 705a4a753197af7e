import MevScout.Pool.Types

/-!
# Discovered pools and their cached rows

Models of `DiscoveredPool` (`core/src/pool/discovery/mod.rs`), of the rows of `pool_info`
(`core/src/cache/store/pools.rs`) and of the conversions between them.

Results:
* `cachedToDiscovered_toRow`: a row reads back as the pool that was put;
* `mergeFrom_dexType_eq_iff`, `mergeFrom_fee_eq_iff`: when the merged pool has the type and the
  fee of the pool merged in.
-/

namespace MevScout.Pool

/-- An `f64` of a remote source, which is only copied: its bits. -/
abbrev Usd := BitVec 64

/-- Model of `DiscoveredPool` (`discovery/mod.rs`, lines 136–189). `tickSpacing` has the bits
    of an `i32`. -/
structure DiscoveredPool where
  address : Address
  token0 : Address
  token1 : Address
  fee : ℕ
  tickSpacing : Option (BitVec 32) := none
  dexType : DexType
  creationBlock : ℕ
  poolId : Option B256 := none
  factory : Option Address := none
  isStable : Option Bool := none
  balancerPoolType : Option ℕ := none
  hookAddress : Option Address := none
  binStep : Option ℕ := none
  maturityTimestamp : Option ℕ := none
  underlyingTokens : Option (List Address) := none
  dexName : Option String := none
  token0Symbol : Option String := none
  token1Symbol : Option String := none
  tvlUsd : Option Usd := none
  volumeUsd24h : Option Usd := none
  volumeUsd30d : Option Usd := none
  deriving DecidableEq

namespace DiscoveredPool

/-- The type that `merge_from` settles on (`discovery/mod.rs`, lines 310–325). -/
def mergedDexType (self other : DiscoveredPool) : DexType :=
  if other.dexType ≠ self.dexType then
    match self.dexType, other.dexType with
    | .uniswapV2, specific => if self.fee = 0 then specific else self.dexType
    | _, _ => self.dexType
  else self.dexType

/-- Symbols are positional: one is taken over for the same token only (`discovery/mod.rs`,
    lines 344–349). -/
def mergedSymbol (symbol other : Option String) (token otherToken : Address) : Option String :=
  if symbol = none ∧ otherToken = token ∧ token ≠ 0 then other else symbol

/-- Model of `merge_from` (`discovery/mod.rs`, lines 297–354). `merge_option!` is `Option.or`. -/
def mergeFrom (self other : DiscoveredPool) : DiscoveredPool where
  address := self.address
  token0 := self.token0
  token1 := self.token1
  fee := if self.fee = 0 ∧ other.fee ≠ 0 then other.fee else self.fee
  tickSpacing := self.tickSpacing.or other.tickSpacing
  dexType := self.mergedDexType other
  creationBlock :=
    if self.creationBlock = 0 ∧ other.creationBlock ≠ 0 then other.creationBlock
    else self.creationBlock
  poolId := self.poolId.or other.poolId
  factory := self.factory.or other.factory
  isStable := self.isStable.or other.isStable
  balancerPoolType := self.balancerPoolType.or other.balancerPoolType
  hookAddress := self.hookAddress.or other.hookAddress
  binStep := self.binStep.or other.binStep
  maturityTimestamp := self.maturityTimestamp.or other.maturityTimestamp
  underlyingTokens := self.underlyingTokens.or other.underlyingTokens
  dexName := self.dexName.or other.dexName
  token0Symbol := mergedSymbol self.token0Symbol other.token0Symbol self.token0 other.token0
  token1Symbol := mergedSymbol self.token1Symbol other.token1Symbol self.token1 other.token1
  tvlUsd := self.tvlUsd.or other.tvlUsd
  volumeUsd24h := self.volumeUsd24h.or other.volumeUsd24h
  volumeUsd30d := self.volumeUsd30d.or other.volumeUsd30d

variable {self other : DiscoveredPool}

theorem mergedDexType_eq :
    self.mergedDexType other =
      if self.dexType = .uniswapV2 ∧ self.fee = 0 then other.dexType else self.dexType := by
  unfold mergedDexType
  by_cases hsame : other.dexType = self.dexType
  · rw [if_neg (not_not.mpr hsame), hsame, ite_self]
  · rw [if_pos hsame]
    cases hself : self.dexType <;> simp

/-- The type merged in wins over the fallback label of a pool without a fee only. -/
theorem mergeFrom_dexType_eq_iff :
    (self.mergeFrom other).dexType = other.dexType ↔
      self.dexType = other.dexType ∨ (self.dexType = .uniswapV2 ∧ self.fee = 0) := by
  show self.mergedDexType other = other.dexType ↔ _
  rw [mergedDexType_eq]
  split_ifs with hfallback
  · simp [hfallback]
  · simp [hfallback]

/-- The fee merged in wins over no fee only. -/
theorem mergeFrom_fee_eq_iff :
    (self.mergeFrom other).fee = other.fee ↔ self.fee = 0 ∨ self.fee = other.fee := by
  show (if self.fee = 0 ∧ other.fee ≠ 0 then other.fee else self.fee) = other.fee ↔ _
  split_ifs with hunset
  · simp [hunset]
  · omega

end DiscoveredPool

/-! ## Rows -/

/-- A row of `pool_info`: the columns of `put_discovered_pool` (`pools.rs`, lines 6–50), each
    of which `row_to_pool_info` reads back as it was written. -/
structure PoolRow where
  address : Address
  token0 : Address
  token1 : Address
  fee : ℕ
  dexType : DexType
  tickSpacing : Option (BitVec 32) := none
  creationBlock : ℕ
  poolId : Option B256 := none
  factory : Option Address := none
  isStable : Option Bool := none
  underlyingTokens : Option (List Address) := none
  balancerPoolType : Option ℕ := none
  hookAddress : Option Address := none
  binStep : Option ℕ := none
  maturityTimestamp : Option ℕ := none
  dexName : Option String := none
  token0Symbol : Option String := none
  token1Symbol : Option String := none
  tvlUsd : Option Usd := none
  volumeUsd24h : Option Usd := none
  volumeUsd30d : Option Usd := none
  deriving DecidableEq

/-- Model of `From<DiscoveredPool> for PoolInfo` (`discovery/mod.rs`, lines 357–388) for the
    fields that are stored. -/
def DiscoveredPool.toRow (d : DiscoveredPool) : PoolRow where
  address := d.address
  token0 := d.token0
  token1 := d.token1
  fee := d.fee
  dexType := d.dexType
  tickSpacing := d.tickSpacing
  creationBlock := d.creationBlock
  poolId := d.poolId
  factory := d.factory
  isStable := d.isStable
  underlyingTokens := d.underlyingTokens
  balancerPoolType := d.balancerPoolType
  hookAddress := d.hookAddress
  binStep := d.binStep
  maturityTimestamp := d.maturityTimestamp
  dexName := d.dexName
  token0Symbol := d.token0Symbol
  token1Symbol := d.token1Symbol
  tvlUsd := d.tvlUsd
  volumeUsd24h := d.volumeUsd24h
  volumeUsd30d := d.volumeUsd30d

/-- Model of `cached_to_discovered` (`jobs/discover.rs`, lines 151–175). -/
def cachedToDiscovered (existing : PoolRow) : DiscoveredPool where
  address := existing.address
  token0 := existing.token0
  token1 := existing.token1
  fee := existing.fee
  dexType := existing.dexType
  creationBlock := existing.creationBlock
  tickSpacing := existing.tickSpacing
  poolId := existing.poolId
  factory := existing.factory
  isStable := existing.isStable
  balancerPoolType := existing.balancerPoolType
  hookAddress := existing.hookAddress
  binStep := existing.binStep
  maturityTimestamp := existing.maturityTimestamp
  underlyingTokens := existing.underlyingTokens
  dexName := existing.dexName
  token0Symbol := existing.token0Symbol
  token1Symbol := existing.token1Symbol
  tvlUsd := existing.tvlUsd
  volumeUsd24h := existing.volumeUsd24h
  volumeUsd30d := existing.volumeUsd30d

/-- A row reads back as the pool that was put. -/
theorem cachedToDiscovered_toRow (d : DiscoveredPool) : cachedToDiscovered d.toRow = d := rfl

/-- The table `pool_info`, by address. -/
abbrev PoolTable := Std.ExtTreeMap Address PoolRow compare

/-- Model of `put_discovered_pool` (`pools.rs`, lines 6–50). -/
def putDiscoveredPool (table : PoolTable) (pool : DiscoveredPool) : PoolTable :=
  table.insert pool.address pool.toRow

end MevScout.Pool
