import MevScout.Common.Firsts
import MevScout.Pool.Discovered
import MevScout.Pool.Discovery
import MevScout.Pool.Windows

/-!
# Discovery over windows and shards

Model of `discover_pools` (`core/src/pool/discovery/mod.rs`) on answered log queries: activity logs
are absorbed window by window, windows and factory scans are merged within a shard, the metadata
of a shard's pools is completed, and the shards are merged. A hash map is its lookups.

Results:
* `absorbActivityLogs_eq`: the hit that a window has of a pool;
* `shardHits_eq`, `shardFactory_eq`: what a shard has of a pool before its metadata is read.
-/

namespace MevScout.Pool.Discovery

open Firsts

/-! ## Logs -/

/-- Model of `PoolHit` (`discovery/mod.rs`, lines 33–40). -/
structure PoolHit where
  dexType : DexType
  poolId : Option B256
  tokens : Option (Address × Address)
  firstSeenBlock : ℕ
  deriving DecidableEq

/-- Model of `PoolHits` (`discovery/mod.rs`, line 43). -/
abbrev PoolHits := Address → Option PoolHit

/-- The pools of a scan, by address. -/
abbrev PoolMap := Address → Option DiscoveredPool

/-- A log that the activity filter returns: it has a first topic, and a block. -/
structure ActivityLog where
  log : ExecutedLog
  block : ℕ
  topics_ne : log.topics ≠ []

/-- The candidate that the log is classified as. -/
def ActivityLog.candidate (l : ActivityLog) : Option PoolHitCandidate :=
  match classifyDexEvent l.log with
  | .ok candidate => candidate
  | .error _ => none

/-- The pool that the log names (`discovery/mod.rs`, lines 400–403). -/
def ActivityLog.pool (l : ActivityLog) : Option Address :=
  l.candidate.map (·.addrOverride.getD l.log.address)

/-- The hit that a log opens for its pool. -/
def ActivityLog.hit (l : ActivityLog) (candidate : PoolHitCandidate) : PoolHit where
  dexType := candidate.dexType
  poolId := candidate.poolId
  tokens := candidate.tokens
  firstSeenBlock := l.block

/-- A creation log that a factory scanner decodes, with the pool that it makes of it: the pool
    has the log's block and its factory. The Balancer scanner also keeps the pool id. -/
structure CreationLog where
  pool : DiscoveredPool
  factory_ne : pool.factory ≠ none
  poolId_ne : pool.dexType = .balancer → pool.poolId ≠ none

/-- The block of a creation log. -/
def CreationLog.block (c : CreationLog) : ℕ := c.pool.creationBlock

/-- The Balancer, Curve and Trader Joe scanners also report a hit. -/
def CreationLog.hit (c : CreationLog) : Option PoolHit :=
  if c.pool.dexType ∈ [.balancer, .curve, .traderJoeLB] then
    some
      { dexType := c.pool.dexType
        poolId := c.pool.poolId
        tokens := none
        firstSeenBlock := c.block }
  else none

/-! ## Windows -/

/-- A hit after another log of its pool: the block is lowered (`discovery/mod.rs`, lines
    411–413). -/
def PoolHit.seenAt (hit : PoolHit) (block : ℕ) : PoolHit :=
  if block > 0 ∧ block < hit.firstSeenBlock then { hit with firstSeenBlock := block } else hit

/-- Model of `process_discovery_log` (`discovery/mod.rs`, lines 391–415) for the hits. -/
def processDiscoveryLog (hits : PoolHits) (l : ActivityLog) : PoolHits :=
  match l.candidate with
  | none => hits
  | some candidate =>
    let addr := candidate.addrOverride.getD l.log.address
    let entry := (hits addr).getD (l.hit candidate)
    Function.update hits addr (some (entry.seenAt l.block))

/-- Model of `absorb_activity_logs` (`discovery/mod.rs`, lines 1350–1354). -/
def absorbActivityLogs (logs : List ActivityLog) : PoolHits :=
  logs.foldl processDiscoveryLog fun _ => none

/-- Model of `ScanBatchResult` (`discovery/mod.rs`, lines 699–704) without the active blocks. -/
structure ScanBatchResult where
  poolHits : PoolHits := fun _ => none
  factoryPools : PoolMap := fun _ => none

/-- Model of `ScanBatchResult::merge` (`discovery/mod.rs`, lines 711–719). The loops that merge
    into the maps of a shard (lines 1518–1520 and 1549–1557) do the same. -/
def ScanBatchResult.merge (self other : ScanBatchResult) : ScanBatchResult where
  poolHits := firstWins self.poolHits other.poolHits
  factoryPools := firstWins self.factoryPools other.factoryPools

/-- What a scanner makes of one creation log, before the `or_insert` of its maps. -/
def CreationLog.result (c : CreationLog) : ScanBatchResult where
  poolHits := fun a => if c.pool.address = a then c.hit else none
  factoryPools := fun a => if c.pool.address = a then some c.pool else none

/-! ## Metadata -/

/-- What the node and the caches answer a scan, the same for all its shards. `cached` has the
    rows of the pool cache with both tokens, as pools. -/
structure DiscoveryReads where
  vault : Bool
  balancerPool : Address → Option (B256 × Option (List Address))
  curveTokens : Address → Option (List Address)
  cached : Address → Option DiscoveredPool
  token0 : Address → Option Address
  token1 : Address → Option Address
  tokenX : Address → Option Address
  tokenY : Address → Option Address
  fee : Address → Option ℕ
  tickSpacing : Address → Option (BitVec 32)
  pendleSy : Address → Option Address
  symbol : Address → Option String
  dexName : Option Address → DexType → String
  v2FeeOverride : Option ℕ

/-- Model of `PoolMetadataFetch` (`metadata.rs`, lines 44–52) without what it repeats of the hit. -/
structure PoolMetadata where
  token0 : Option Address
  token1 : Option Address
  fee : Option ℕ := none
  tickSpacing : Option (BitVec 32) := none

variable (reads : DiscoveryReads)

/-- Model of `fetch_pool_metadata` (`metadata.rs`, lines 65–240). -/
def fetchPoolMetadata (addr : Address) (dexType : DexType)
    (eventTokens factoryTokens : Option (Address × Address)) : Option PoolMetadata :=
  match dexType with
  | .uniswapV2 | .solidly | .camelot | .fluid =>
    some { token0 := reads.token0 addr, token1 := reads.token1 addr }
  | .traderJoeLB => some { token0 := reads.tokenX addr, token1 := reads.tokenY addr }
  | .uniswapV3 =>
    some
      { token0 := reads.token0 addr
        token1 := reads.token1 addr
        fee := reads.fee addr
        tickSpacing := reads.tickSpacing addr }
  | .uniswapV4 | .metric => none
  | .pancakeInfinity =>
    let (t0, t1) := factoryTokens.getD (0, 0)
    some { token0 := some t0, token1 := some t1 }
  | .curve | .balancer =>
    let (t0, t1) := eventTokens.getD (0, 0)
    some { token0 := some t0, token1 := some t1 }
  | .pendle =>
    let (t0, _) := eventTokens.getD (0, 0)
    some { token0 := some t0, token1 := if t0 ≠ 0 then reads.pendleSy t0 else none }

/-- Model of `default_fee` (`metadata.rs`, lines 17–40). -/
def defaultFee (dexType : DexType) (fee : Option ℕ) (v2FeeOverride : Option ℕ) : ℕ :=
  match dexType with
  | .uniswapV2 | .solidly => v2FeeOverride.getD 30
  | .camelot => v2FeeOverride.getD 0
  | .uniswapV3 | .uniswapV4 | .pancakeInfinity => fee.getD 3000
  | .curve | .balancer | .traderJoeLB | .pendle | .metric | .fluid => fee.getD 0

/-- `symbol_results.get`: no symbol is read for the zero address. -/
def symbolOf (token : Address) : Option String := if token = 0 then none else reads.symbol token

/-- A hit that `resolve_balancer_pool_ids` asks the vault about (lines 973–977). -/
def AsksVault (hit : PoolHit) : Prop := hit.dexType = .balancer ∧ hit.poolId = none

instance (hit : PoolHit) : Decidable (AsksVault hit) := inferInstanceAs (Decidable (_ ∧ _))

/-- The hit after `resolve_balancer_pool_ids` (lines 964–1006). -/
def resolvedHit (addr : Address) (hit : PoolHit) : PoolHit :=
  if reads.vault ∧ AsksVault hit then
    match reads.balancerPool addr with
    | some (poolId, _) => { hit with poolId := some poolId }
    | none => hit
  else hit

/-- The created pool after `resolve_balancer_pool_ids` (lines 964–1006) has asked for a hit. -/
def resolvedBalancer (addr : Address) (hit : Option PoolHit) (fp : DiscoveredPool) :
    DiscoveredPool :=
  match hit with
  | none => fp
  | some hit =>
    if reads.vault ∧ AsksVault hit then
      match reads.balancerPool addr with
      | some (poolId, tokens) =>
        { fp with poolId := some poolId, underlyingTokens := tokens.or fp.underlyingTokens }
      | none => fp
    else fp

/-- The created pool after `resolve_curve_underlying` (lines 1009–1043). -/
def resolvedCurve (addr : Address) (fp : DiscoveredPool) : DiscoveredPool :=
  if fp.dexType = .curve ∧ fp.underlyingTokens = none then
    { fp with underlyingTokens := reads.curveTokens addr }
  else fp

/-- The types of created pools whose metadata is not read (lines 1060–1071). -/
def FullyCreated (dexType : DexType) : Prop :=
  dexType ∈ [.uniswapV2, .uniswapV3, .uniswapV4, .pancakeInfinity, .traderJoeLB, .pendle, .metric]

instance (dexType : DexType) : Decidable (FullyCreated dexType) :=
  inferInstanceAs (Decidable (dexType ∈ _))

/-- A Fluid hit fills the missing tokens of a created pool (`discovery/mod.rs`, lines 1247–1259). -/
def fluidTokens (addr : Address) (hit : Option PoolHit) (fp : DiscoveredPool) : DiscoveredPool :=
  match hit with
  | none => fp
  | some hit =>
    if FullyCreated fp.dexType ∨ reads.cached addr ≠ none ∨ hit.dexType ≠ .fluid then fp
    else
      match fetchPoolMetadata reads addr hit.dexType hit.tokens (some (fp.token0, fp.token1)) with
      | some { token0 := some t0, token1 := some t1, .. } =>
        if fp.token0 = 0 ∧ fp.token1 = 0 then { fp with token0 := t0, token1 := t1 } else fp
      | _ => fp

/-- The name and the symbols that a pool goes out with (`discovery/mod.rs`, lines 1261–1269). -/
def named (fp : DiscoveredPool) : DiscoveredPool :=
  { fp with
    dexName := fp.dexName.or (some (reads.dexName fp.factory fp.dexType))
    token0Symbol := symbolOf reads fp.token0
    token1Symbol := symbolOf reads fp.token1 }

/-- What a shard makes of a pool with a creation log. -/
def finishCreated (addr : Address) (hit : Option PoolHit) (fp : DiscoveredPool) : DiscoveredPool :=
  named reads (fluidTokens reads addr hit (resolvedCurve reads addr
    (resolvedBalancer reads addr hit fp)))

/-- What a shard makes of a pool with activity alone (`discovery/mod.rs`, lines 1272–1316), unless
    the pool is cached (lines 1072–1102). -/
def finishHit (addr : Address) (hit : PoolHit) : Option DiscoveredPool :=
  let hit := resolvedHit reads addr hit
  match reads.cached addr with
  | some dp => some (named reads dp)
  | none =>
    (fetchPoolMetadata reads addr hit.dexType hit.tokens none).map fun r =>
      let token0 := r.token0.getD 0
      let token1 := r.token1.getD 0
      { address := addr
        token0
        token1
        fee := defaultFee hit.dexType r.fee reads.v2FeeOverride
        dexType := hit.dexType
        creationBlock := hit.firstSeenBlock
        tickSpacing := r.tickSpacing
        poolId := hit.poolId
        dexName := some (reads.dexName none hit.dexType)
        token0Symbol := symbolOf reads token0
        token1Symbol := symbolOf reads token1 }

/-- The metadata stages and `build_discovery_output` (`discovery/mod.rs`, lines 964–1329), for one
    address. -/
def finishPools (scan : ScanBatchResult) : PoolMap := fun addr =>
  match scan.factoryPools addr with
  | some fp => some (finishCreated reads addr (scan.poolHits addr) fp)
  | none => (scan.poolHits addr).bind (finishHit reads addr)

/-! ## Shards -/

/-- The logs of a block range: the activity in the order of the chain, and the creations in the
    order of the queries that find them. -/
structure DiscoveryLogs (start stop : ℕ) where
  activity : List ActivityLog
  creations : List CreationLog
  sorted : activity.Pairwise (·.block ≤ ·.block)
  activity_range : ∀ l ∈ activity, Holds (start, stop) l.block
  creations_range : ∀ c ∈ creations, Holds (start, stop) c.block

/-- How a discovery runs: its batch sizes, the providers that are alive with their shares, and the
    orders in which the shards, and the windows of a coarse window, complete. -/
structure Schedule (start stop : ℕ) where
  effectiveBatchSize : ℕ
  factoryBatchSize : ℕ
  alive : List (ℕ × ℕ)
  shards : List ProviderShard
  shards_perm : shards.Perm (distributeBlocks start stop alive)
  windows : ℕ × ℕ → List (ℕ × ℕ)
  windows_perm : ∀ coarse,
    (windows coarse).Perm (blockWindows coarse.1 coarse.2 effectiveBatchSize)

section

variable {start stop : ℕ} (logs : DiscoveryLogs start stop) (sched : Schedule start stop)

/-- What the activity query of a window returns. -/
def DiscoveryLogs.activityIn (w : ℕ × ℕ) : List ActivityLog :=
  logs.activity.filter fun l => Holds w l.block

/-- What the creation queries of a coarse window return. -/
def DiscoveryLogs.creationsIn (w : ℕ × ℕ) : List CreationLog :=
  logs.creations.filter fun c => Holds w c.block

/-- Model of `scan_activity_windows` (`discovery/mod.rs`, lines 1388–1417). -/
def scanActivityWindows (coarse : ℕ × ℕ) : ScanBatchResult :=
  ((sched.windows coarse).map fun w =>
    ({ poolHits := absorbActivityLogs (logs.activityIn w) } : ScanBatchResult)).foldl
      ScanBatchResult.merge {}

/-- One turn of the loop of `discover_pools_shard` (`discovery/mod.rs`, lines 1497–1568). -/
def scanCoarse (acc : ScanBatchResult) (coarse : ℕ × ℕ) : ScanBatchResult :=
  ((logs.creationsIn coarse).map (·.result)).foldl ScanBatchResult.merge
    (acc.merge (scanActivityWindows logs sched coarse))

/-- The coarse windows of a shard (lines 1493–1498). -/
def coarseWindows (r : ℕ × ℕ) : List (ℕ × ℕ) :=
  blockWindows r.1 r.2 (max (max sched.factoryBatchSize sched.effectiveBatchSize) 1)

/-- The scan of a shard. -/
def scanShard (r : ℕ × ℕ) : ScanBatchResult :=
  (coarseWindows sched r).foldl (scanCoarse logs sched) {}

/-- Model of `discover_pools_shard` (`discovery/mod.rs`, lines 1432–1591). -/
def discoverPoolsShard (r : ℕ × ℕ) : PoolMap := finishPools reads (scanShard logs sched r)

/-- Model of `discover_pools` (`discovery/mod.rs`, lines 839–961). -/
def discoverPools : PoolMap :=
  if (distributeBlocks start stop sched.alive).length ≤ 1 then
    discoverPoolsShard reads logs sched (start, stop)
  else
    (sched.shards.map fun shard =>
      discoverPoolsShard reads logs sched (shard.start, shard.stop)).foldl firstWins fun _ => none

end

/-! ## What a window has of a pool -/

/-- The hit that a log opens for pool `a`. -/
def ActivityLog.opens (a : Address) (l : ActivityLog) : Option PoolHit :=
  l.candidate.bind fun candidate =>
    if candidate.addrOverride.getD l.log.address = a then some (l.hit candidate) else none

theorem ActivityLog.firstSeenBlock_of_opens {a : Address} {l : ActivityLog} {hit : PoolHit}
    (h : l.opens a = some hit) : hit.firstSeenBlock = l.block := by
  obtain ⟨candidate, -, hif⟩ := Option.bind_eq_some_iff.mp h
  split_ifs at hif
  obtain rfl := Option.some.inj hif
  rfl

theorem PoolHit.seenAt_of_le {hit : PoolHit} {block : ℕ} (h : hit.firstSeenBlock ≤ block) :
    hit.seenAt block = hit := by
  rw [seenAt, if_neg fun hlt => absurd hlt.2 (not_lt.mpr h)]

/-- A log that is not earlier than the hits opens a hit for its pool, unless there is one. -/
theorem processDiscoveryLog_apply {hits : PoolHits} {l : ActivityLog}
    (hle : ∀ a hit, hits a = some hit → hit.firstSeenBlock ≤ l.block) (a : Address) :
    processDiscoveryLog hits l a = (hits a).or (l.opens a) := by
  unfold processDiscoveryLog ActivityLog.opens
  cases hc : l.candidate with
  | none => simp
  | some candidate =>
    simp only [Option.bind_some]
    by_cases haddr : candidate.addrOverride.getD l.log.address = a
    · rw [haddr, Function.update_self, if_pos rfl]
      cases hhit : hits a with
      | none =>
        show some ((l.hit candidate).seenAt l.block) = some (l.hit candidate)
        rw [PoolHit.seenAt_of_le (show (l.hit candidate).firstSeenBlock ≤ l.block from le_rfl)]
      | some hit =>
        show some (hit.seenAt l.block) = some hit
        rw [PoolHit.seenAt_of_le (hle a hit hhit)]
    · rw [Function.update_of_ne (Ne.symm haddr), if_neg haddr, Option.or_none]

/-- The logs of a window come in the order of the chain, so the first log of a pool opens its hit
    and no later one changes it. -/
theorem absorbActivityLogs_eq {l : List ActivityLog} (hsorted : l.Pairwise (·.block ≤ ·.block))
    (a : Address) : absorbActivityLogs l a = l.findSome? (·.opens a) := by
  suffices h : ∀ hits : PoolHits, (∀ a hit, hits a = some hit → ∀ x ∈ l,
      hit.firstSeenBlock ≤ x.block) →
      l.foldl processDiscoveryLog hits a = (hits a).or (l.findSome? (·.opens a)) by
    unfold absorbActivityLogs
    rw [h (fun _ => none) (fun _ _ h => by cases h)]
    rfl
  induction l with
  | nil => exact fun hits _ => by simp
  | cons x l ih =>
    intro hits hle
    obtain ⟨hx, hsorted⟩ := List.pairwise_cons.mp hsorted
    have hstep := processDiscoveryLog_apply fun a hit h => hle a hit h x (List.mem_cons_self ..)
    rw [List.foldl_cons, ih hsorted, hstep, Option.or_assoc, List.findSome?_cons]
    · cases x.opens a <;> rfl
    · intro a' hit hhit y hy
      rw [hstep] at hhit
      rcases Option.or_eq_some_iff.mp hhit with hold | ⟨-, hnew⟩
      · exact hle a' hit hold y (List.mem_cons_of_mem _ hy)
      · rw [ActivityLog.firstSeenBlock_of_opens hnew]
        exact hx y hy

/-! ## What a shard has of a pool -/

theorem foldl_merge (acc : ScanBatchResult) (parts : List ScanBatchResult) :
    parts.foldl ScanBatchResult.merge acc =
      { poolHits := (parts.map (·.poolHits)).foldl firstWins acc.poolHits
        factoryPools := (parts.map (·.factoryPools)).foldl firstWins acc.factoryPools } := by
  induction parts generalizing acc with
  | nil => rfl
  | cons part parts ih => exact ih (acc.merge part)

/-- The pool that a creation log makes at address `a`. -/
def CreationLog.creates (a : Address) (c : CreationLog) : Option DiscoveredPool :=
  if c.pool.address = a then some c.pool else none

/-- The hit that a creation log adds for address `a`. -/
def CreationLog.opens (a : Address) (c : CreationLog) : Option PoolHit :=
  if c.pool.address = a then c.hit else none

section

variable {start stop : ℕ} (logs : DiscoveryLogs start stop) (sched : Schedule start stop)

/-- The first hit of pool `a` in a window. -/
def DiscoveryLogs.windowHit (a : Address) (w : ℕ × ℕ) : Option PoolHit :=
  (logs.activityIn w).findSome? (·.opens a)

/-- The first creation of pool `a` in a window. -/
def DiscoveryLogs.created (a : Address) (w : ℕ × ℕ) : Option DiscoveredPool :=
  (logs.creationsIn w).findSome? (·.creates a)

/-- The hit of pool `a` in a coarse window: activity comes before the scanners' hits. -/
def coarseHit (a : Address) (coarse : ℕ × ℕ) : Option PoolHit :=
  ((sched.windows coarse).findSome? (logs.windowHit a)).or
    ((logs.creationsIn coarse).findSome? (·.opens a))

variable {logs sched}

theorem scanActivityWindows_poolHits (coarse : ℕ × ℕ) (a : Address) :
    (scanActivityWindows logs sched coarse).poolHits a =
      (sched.windows coarse).findSome? (logs.windowHit a) := by
  unfold scanActivityWindows
  rw [foldl_merge]
  dsimp only
  rw [foldl_firstWins, Option.none_or, List.map_map, List.findSome?_map]
  congr 1
  funext w
  exact absorbActivityLogs_eq (logs.sorted.filter _) a

theorem scanActivityWindows_factoryPools (coarse : ℕ × ℕ) (a : Address) :
    (scanActivityWindows logs sched coarse).factoryPools a = none := by
  unfold scanActivityWindows
  rw [foldl_merge]
  dsimp only
  rw [foldl_firstWins, Option.none_or, List.findSome?_eq_none_iff]
  intro part hpart
  obtain ⟨result, hresult, rfl⟩ := List.mem_map.mp hpart
  obtain ⟨w, -, rfl⟩ := List.mem_map.mp hresult
  rfl

theorem scanCoarse_poolHits (acc : ScanBatchResult) (coarse : ℕ × ℕ) (a : Address) :
    (scanCoarse logs sched acc coarse).poolHits a =
      (acc.poolHits a).or (coarseHit logs sched a coarse) := by
  unfold scanCoarse
  rw [foldl_merge]
  dsimp only
  rw [foldl_firstWins, List.map_map, List.findSome?_map]
  show ((acc.poolHits a).or ((scanActivityWindows logs sched coarse).poolHits a)).or _ = _
  rw [scanActivityWindows_poolHits, Option.or_assoc]
  rfl

theorem scanCoarse_factoryPools (acc : ScanBatchResult) (coarse : ℕ × ℕ) (a : Address) :
    (scanCoarse logs sched acc coarse).factoryPools a =
      (acc.factoryPools a).or (logs.created a coarse) := by
  unfold scanCoarse
  rw [foldl_merge]
  dsimp only
  rw [foldl_firstWins, List.map_map, List.findSome?_map]
  show ((acc.factoryPools a).or ((scanActivityWindows logs sched coarse).factoryPools a)).or _ = _
  rw [scanActivityWindows_factoryPools, Option.or_none]
  rfl

/-- The hit that a shard has of a pool is that of its first coarse window with one. -/
theorem shardHits_eq (r : ℕ × ℕ) (a : Address) :
    (scanShard logs sched r).poolHits a =
      (coarseWindows sched r).findSome? (coarseHit logs sched a) := by
  suffices h : ∀ (l : List (ℕ × ℕ)) acc, (l.foldl (scanCoarse logs sched) acc).poolHits a =
      (acc.poolHits a).or (l.findSome? (coarseHit logs sched a)) from
    (h _ {}).trans (Option.none_or ..)
  intro l
  induction l with
  | nil => exact fun acc => by simp
  | cons coarse l ih =>
    intro acc
    rw [List.foldl_cons, ih, scanCoarse_poolHits, Option.or_assoc, List.findSome?_cons]
    cases coarseHit logs sched a coarse <;> rfl

/-- The created pool that a shard has is that of its first coarse window with one. -/
theorem shardFactory_eq (r : ℕ × ℕ) (a : Address) :
    (scanShard logs sched r).factoryPools a =
      (coarseWindows sched r).findSome? (logs.created a) := by
  suffices h : ∀ (l : List (ℕ × ℕ)) acc, (l.foldl (scanCoarse logs sched) acc).factoryPools a =
      (acc.factoryPools a).or (l.findSome? (logs.created a)) from
    (h _ {}).trans (Option.none_or ..)
  intro l
  induction l with
  | nil => exact fun acc => by simp
  | cons coarse l ih =>
    intro acc
    rw [List.foldl_cons, ih, scanCoarse_factoryPools, Option.or_assoc, List.findSome?_cons]
    cases logs.created a coarse <;> rfl

end

end MevScout.Pool.Discovery
