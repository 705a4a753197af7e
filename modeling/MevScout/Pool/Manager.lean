import MevScout.Common.Map
import MevScout.Pool.Types

/-!
# The pool manager

Models of `core/src/pool/state/manager.rs`: the tracked pools, the token index, the
cached arbitrage pairs, the dirty set and the block-level undo log.

A mutating method is a function to the new manager. A `HashSet` is a `Finset`. The
iteration order of a `HashMap` shows nowhere here: `arbitrage_pairs` sorts the
tokens, and `undo` writes each key of a map once.
-/

namespace MevScout.Pool

/-- Model of `ArbPair` (`manager.rs`, lines 70–74). -/
structure ArbPair where
  poolA : Address
  poolB : Address
  sharedToken : Address
  deriving DecidableEq, Repr

/-- `HashMap<Address, PoolState>`. -/
abbrev PoolMap := Std.ExtTreeMap Address PoolState compare

/-- `HashMap<Address, Vec<Address>>`. -/
abbrev TokenIndex := Std.ExtTreeMap Address (List Address) compare

/-- Model of `UndoLog` (`manager.rs`, lines 121–133). -/
structure UndoLog where
  previous : PoolMap := ∅
  added : List Address := []
  dirtyBefore : Option (Finset Address) := none
  fotBefore : Option (Finset Address) := none
  tokenIndexBefore : Option TokenIndex := none
  deriving DecidableEq

/-- Model of `PoolManager` (`manager.rs`, lines 76–111), without the two RPC settings. -/
structure PoolManager where
  pools : PoolMap := ∅
  tokenIndex : TokenIndex := ∅
  pairsCache : Option (List ArbPair) := none
  dirtyPools : Finset Address := ∅
  dynamicFot : Finset Address := ∅
  wrappedNative : Option Address := none
  balancerVault : Option Address := none
  knownSet : Finset Address := ∅
  maxPairsPerToken : ℕ := 50
  tokenMaxPairs : Std.ExtTreeMap Address ℕ compare := ∅
  undoLog : Option UndoLog := none
  deriving DecidableEq

namespace PoolManager

/-! ## Undo log -/

/-- Model of `begin_undo` (`manager.rs`, lines 166–172). -/
def beginUndo (pm : PoolManager) : PoolManager :=
  { pm with
    undoLog := some { dirtyBefore := some pm.dirtyPools, fotBefore := some pm.dynamicFot } }

/-- Model of `end_undo` (`manager.rs`, lines 175–177). -/
def endUndo (pm : PoolManager) : PoolManager := { pm with undoLog := none }

/-- One turn of the loop of `undo` over `added`. -/
def removeAdded (pm : PoolManager) (addr : Address) : PoolManager :=
  { pm with
    pools := pm.pools.erase addr
    knownSet := pm.knownSet.erase addr
    tokenIndex := pm.tokenIndex.map fun _ poolList => poolList.filter (· ≠ addr) }

/-- Model of `undo` (`manager.rs`, lines 181–205). -/
def undo (pm : PoolManager) : PoolManager :=
  match pm.undoLog with
  | none => pm
  | some log =>
    let pm := { pm with undoLog := none, pools := pm.pools ∪ log.previous }
    let pm := log.added.foldl removeAdded pm
    { pm with
      tokenIndex := log.tokenIndexBefore.getD pm.tokenIndex
      dirtyPools := log.dirtyBefore.getD pm.dirtyPools
      dynamicFot := log.fotBefore.getD pm.dynamicFot
      pairsCache := none }

/-- Model of `undo_record_pool` (`manager.rs`, lines 209–219). -/
def undoRecordPool (pm : PoolManager) (addr : Address) : PoolManager :=
  match pm.undoLog with
  | none => pm
  | some log =>
    if addr ∈ log.added then pm
    else
      match pm.pools[addr]? with
      | none => pm
      | some state =>
        { pm with undoLog := some { log with previous := log.previous.insertIfNew addr state } }

/-- An edit of the pool at `address` through the reference that `pool_mut` hands out
    (`manager.rs`, lines 225–228). -/
def poolMut (pm : PoolManager) (address : Address) (edit : PoolState → PoolState) : PoolManager :=
  let pm := pm.undoRecordPool address
  { pm with pools := pm.pools.modify address edit }

/-- An edit of the pool at `address` through the reference that `get_mut` hands out
    (`manager.rs`, lines 321–323). -/
def getMut (pm : PoolManager) (address : Address) (edit : PoolState → PoolState) : PoolManager :=
  { pm with pools := pm.pools.modify address edit }

/-! ## Adding pools -/

/-- `token_index.entry(token).or_default().push(addr)`, skipped for the zero address. -/
def pushToken (ti : TokenIndex) (token addr : Address) : TokenIndex :=
  if token = 0 then ti else ti.insert token (ti[token]?.getD [] ++ [addr])

/-- The part of `add_pool` that writes the undo log. -/
def recordAdd (pm : PoolManager) (addr : Address) : PoolManager :=
  match pm.undoLog with
  | none => pm
  | some log =>
    match pm.pools[addr]? with
    | some prev =>
      { pm with
        undoLog := some { log with
          tokenIndexBefore := some (log.tokenIndexBefore.getD pm.tokenIndex)
          previous := log.previous.insertIfNew addr prev } }
    | none =>
      if addr ∈ log.added then pm
      else { pm with undoLog := some { log with added := log.added ++ [addr] } }

/-- Model of `add_pool` (`manager.rs`, lines 265–294). -/
def addPool (pm : PoolManager) (state : PoolState) : PoolManager :=
  let addr := state.address
  let info := state.info
  let pm := pm.recordAdd addr
  { pm with
    knownSet := insert addr pm.knownSet
    pools := pm.pools.insert addr state
    tokenIndex := pushToken (pushToken pm.tokenIndex info.token0 addr) info.token1 addr
    pairsCache := none }

/-! ## Arbitrage pairs -/

/-- Model of `effective_max_pairs` (`manager.rs`, lines 236–241). -/
def effectiveMaxPairs (pm : PoolManager) (token : Address) : ℕ :=
  pm.tokenMaxPairs[token]?.getD pm.maxPairsPerToken

/-- Model of `pool_liquidity_estimate` (`manager.rs`, lines 372–388). -/
def poolLiquidityEstimate (pm : PoolManager) (addr : Address) : ℕ :=
  match pm.pools[addr]? with
  | some (.uniswapV2 v2) => min v2.reserve0 v2.reserve1
  | some (.uniswapV3 v3) => v3.liquidity
  | some (.uniswapV4 v4) => v4.liquidity
  | some (.pancakeInfinity v4) => v4.liquidity
  | some (.curve c) => c.balances.foldl (wrappingAdd 128) 0
  | some (.balancer b) => b.balances.foldl (wrappingAdd 128) 0
  | some (.traderJoeLB lb) => min lb.reserveX lb.reserveY
  | some (.pendle p) => min p.totalPt p.totalSy
  | some (.metric _) | some (.fluid _) => 0
  | none => 0

/-- The pairs found so far and the keys already taken, in `arbitrage_pairs`. -/
structure PairAcc where
  seen : Finset (Address × Address) := ∅
  pairs : List ArbPair := []

/-- The body of the inner loop of `arbitrage_pairs`. -/
def pushPair (token : Address) (acc : PairAcc) (a b : Address) : PairAcc :=
  let key := if a < b then (a, b) else (b, a)
  if key ∈ acc.seen then acc
  else { seen := insert key acc.seen, pairs := acc.pairs ++ [⟨key.1, key.2, token⟩] }

/-- The two inner loops of `arbitrage_pairs`, over the positions `i < j` of a bucket. -/
def bucketPairs (token : Address) : List Address → PairAcc → PairAcc
  | [], acc => acc
  | a :: rest, acc => bucketPairs token rest (rest.foldl (fun acc b => pushPair token acc a b) acc)

/-- The pools of a token that `arbitrage_pairs` pairs up: by falling liquidity estimate,
    at most the token's limit of them. -/
def bucket (pm : PoolManager) (token : Address) : List Address :=
  let sorted := (pm.tokenIndex[token]?.getD []).insertionSort fun a b =>
    pm.poolLiquidityEstimate b ≤ pm.poolLiquidityEstimate a
  let tokenLimit := pm.effectiveMaxPairs token
  let limit := if tokenLimit = 0 then sorted.length else min tokenLimit sorted.length
  sorted.take limit

/-- The pairs that `arbitrage_pairs` computes when its cache is empty. The keys of the
    index come in ascending order. -/
def computePairs (pm : PoolManager) : List ArbPair :=
  (pm.tokenIndex.keys.foldl (fun acc token => bucketPairs token (pm.bucket token) acc) {}).pairs

/-- Model of `arbitrage_pairs` (`manager.rs`, lines 396–445): the list, and the manager
    with the list cached. -/
def arbitragePairs (pm : PoolManager) : List ArbPair × PoolManager :=
  match pm.pairsCache with
  | some cached => (cached, pm)
  | none => (pm.computePairs, { pm with pairsCache := some pm.computePairs })

/-! ## Dirty and taxed sets -/

/-- Model of `mark_dirty_pool` (`manager.rs`, lines 449–451). -/
def markDirtyPool (pm : PoolManager) (address : Address) : PoolManager :=
  { pm with dirtyPools := insert address pm.dirtyPools }

/-- Model of `take_dirty_pools` (`manager.rs`, lines 454–456). -/
def takeDirtyPools (pm : PoolManager) : Finset Address × PoolManager :=
  (pm.dirtyPools, { pm with dirtyPools := ∅ })

/-- Model of `flag_taxed_token` (`manager.rs`, lines 474–476). -/
def flagTaxedToken (pm : PoolManager) (token : Address) : PoolManager :=
  { pm with dynamicFot := insert token pm.dynamicFot }

/-! ## Editing a pool -/

variable (pm : PoolManager) (addr : Address) (edit : PoolState → PoolState)

/-- Recording writes nothing but the undo log. -/
theorem undoRecordPool_eq : ∃ log, pm.undoRecordPool addr = { pm with undoLog := log } := by
  unfold undoRecordPool
  split
  · exact ⟨pm.undoLog, rfl⟩
  · split_ifs
    · exact ⟨pm.undoLog, rfl⟩
    · split
      · exact ⟨pm.undoLog, rfl⟩
      · exact ⟨_, rfl⟩

@[simp] theorem undoRecordPool_pools : (pm.undoRecordPool addr).pools = pm.pools := by
  obtain ⟨log, h⟩ := pm.undoRecordPool_eq addr; rw [h]

/-- `pool_mut` changes the edited pool and the undo log, nothing else. -/
theorem poolMut_eq : ∃ log,
    pm.poolMut addr edit = { pm with pools := pm.pools.modify addr edit, undoLog := log } := by
  obtain ⟨log, h⟩ := pm.undoRecordPool_eq addr
  exact ⟨log, by rw [poolMut, h]⟩

@[simp] theorem poolMut_pools : (pm.poolMut addr edit).pools = pm.pools.modify addr edit := by
  obtain ⟨log, h⟩ := pm.poolMut_eq addr edit; rw [h]

@[simp] theorem poolMut_knownSet : (pm.poolMut addr edit).knownSet = pm.knownSet := by
  obtain ⟨log, h⟩ := pm.poolMut_eq addr edit; rw [h]

@[simp] theorem poolMut_dirtyPools : (pm.poolMut addr edit).dirtyPools = pm.dirtyPools := by
  obtain ⟨log, h⟩ := pm.poolMut_eq addr edit; rw [h]

@[simp] theorem poolMut_tokenIndex : (pm.poolMut addr edit).tokenIndex = pm.tokenIndex := by
  obtain ⟨log, h⟩ := pm.poolMut_eq addr edit; rw [h]

@[simp] theorem poolMut_dynamicFot : (pm.poolMut addr edit).dynamicFot = pm.dynamicFot := by
  obtain ⟨log, h⟩ := pm.poolMut_eq addr edit; rw [h]

/-- What `add_pool` writes to the undo log is nothing else. -/
theorem recordAdd_eq : ∃ log, pm.recordAdd addr = { pm with undoLog := log } := by
  unfold recordAdd
  split
  · exact ⟨pm.undoLog, rfl⟩
  · split
    · exact ⟨_, rfl⟩
    · split_ifs
      · exact ⟨pm.undoLog, rfl⟩
      · exact ⟨_, rfl⟩

@[simp] theorem addPool_pools (state : PoolState) :
    (pm.addPool state).pools = pm.pools.insert state.address state := by
  obtain ⟨log, h⟩ := pm.recordAdd_eq state.address; rw [addPool, h]

@[simp] theorem addPool_knownSet (state : PoolState) :
    (pm.addPool state).knownSet = insert state.address pm.knownSet := by
  obtain ⟨log, h⟩ := pm.recordAdd_eq state.address; rw [addPool, h]

@[simp] theorem addPool_tokenIndex (state : PoolState) :
    (pm.addPool state).tokenIndex = [state.info.token0, state.info.token1].foldl
      (fun ti t => pushToken ti t state.address) pm.tokenIndex := by
  obtain ⟨log, h⟩ := pm.recordAdd_eq state.address
  rw [addPool, h]
  rfl

end PoolManager

end MevScout.Pool
