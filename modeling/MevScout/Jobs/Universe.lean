import MevScout.Common.Run
import MevScout.Common.Map
import MevScout.Pool.Discovered

/-!
# The persisted pool universe

Model of `persist_universe` (`core/src/jobs/discover.rs`), which merges the cached row of each
pool into the fresh entry and puts the result.

Results:
* `persistCalls_eq_foldl`: calls one after another put what one pass over all entries puts;
* `mergeFrom_keepsRow_iff`: one entry keeps what a row knows exactly when it agrees with it;
* `keepsThrough_iff`: so do all entries of a sequence of calls.
-/

namespace MevScout.Jobs

open MevScout.Pool

/-! ## Model -/

/-- The entry that is put: the fresh entry, with its unknown fields filled from the cached row
    (lines 183–186). -/
def mergedEntry (table : PoolTable) (p : DiscoveredPool) : DiscoveredPool :=
  match table[p.address]? with
  | some existing => p.mergeFrom (cachedToDiscovered existing)
  | none => p

/-- One entry of `persist_universe` (lines 179–190): an entry without both tokens is skipped. -/
def persistEntry (table : PoolTable) (p : DiscoveredPool) : PoolTable :=
  if p.token0 = 0 ∨ p.token1 = 0 then table else putDiscoveredPool table (mergedEntry table p)

/-- Model of `persist_universe` (`jobs/discover.rs`, lines 177–194): the table and the number of
    entries put. -/
def persistUniverse (table : PoolTable) (pools : List DiscoveredPool) : PoolTable × ℕ :=
  pools.foldl (fun (table, persisted) p =>
    (persistEntry table p,
      if p.token0 = 0 ∨ p.token1 = 0 then persisted else persisted + 1)) (table, 0)

/-- The table after a sequence of calls. -/
def persistCalls (table : PoolTable) (calls : List (List DiscoveredPool)) : PoolTable :=
  calls.foldl (fun table pools => (persistUniverse table pools).1) table

/-- The entries that remote sources give: no creation block and no factory. -/
def RemoteSourced (p : DiscoveredPool) : Prop := p.creationBlock = 0 ∧ p.factory = none

/-- A row still has what `row` knows. What `row` does not know may be filled. The market figures
    are not compared: no row that is derived on-chain has them. -/
structure KeepsRow (row stored : PoolRow) : Prop where
  token0 : stored.token0 = row.token0
  token1 : stored.token1 = row.token1
  dexType : stored.dexType = row.dexType
  fee : stored.fee = row.fee
  creationBlock : stored.creationBlock = row.creationBlock
  factory : stored.factory = row.factory
  poolId : row.poolId ≠ none → stored.poolId = row.poolId
  tickSpacing : row.tickSpacing ≠ none → stored.tickSpacing = row.tickSpacing
  isStable : row.isStable ≠ none → stored.isStable = row.isStable
  balancerPoolType : row.balancerPoolType ≠ none → stored.balancerPoolType = row.balancerPoolType
  hookAddress : row.hookAddress ≠ none → stored.hookAddress = row.hookAddress
  binStep : row.binStep ≠ none → stored.binStep = row.binStep
  maturityTimestamp :
    row.maturityTimestamp ≠ none → stored.maturityTimestamp = row.maturityTimestamp
  underlyingTokens : row.underlyingTokens ≠ none → stored.underlyingTokens = row.underlyingTokens
  dexName : row.dexName ≠ none → stored.dexName = row.dexName
  token0Symbol : row.token0Symbol ≠ none → stored.token0Symbol = row.token0Symbol
  token1Symbol : row.token1Symbol ≠ none → stored.token1Symbol = row.token1Symbol

/-- A field of an entry that does not contradict the row: one of the two does not know it, or
    both know the same. -/
def Agrees {α : Type} (entry row : Option α) : Prop := row ≠ none → entry = none ∨ entry = row

/-- An entry contradicts nothing that the row knows. A V2 label without a fee is no statement
    about the type. -/
structure AgreesWithRow (row : PoolRow) (p : DiscoveredPool) : Prop where
  token0 : p.token0 = row.token0
  token1 : p.token1 = row.token1
  dexType : p.dexType = row.dexType ∨ (p.dexType = .uniswapV2 ∧ p.fee = 0)
  fee : p.fee = 0 ∨ p.fee = row.fee
  poolId : Agrees p.poolId row.poolId
  tickSpacing : Agrees p.tickSpacing row.tickSpacing
  isStable : Agrees p.isStable row.isStable
  balancerPoolType : Agrees p.balancerPoolType row.balancerPoolType
  hookAddress : Agrees p.hookAddress row.hookAddress
  binStep : Agrees p.binStep row.binStep
  maturityTimestamp : Agrees p.maturityTimestamp row.maturityTimestamp
  underlyingTokens : Agrees p.underlyingTokens row.underlyingTokens
  dexName : Agrees p.dexName row.dexName
  token0Symbol : Agrees p.token0Symbol row.token0Symbol
  token1Symbol : Agrees p.token1Symbol row.token1Symbol

/-! ## One entry -/

theorem or_keeps_iff {α : Type} {entry cur row : Option α} (hcur : row ≠ none → cur = row) :
    (row ≠ none → entry.or cur = row) ↔ Agrees entry row := by
  unfold Agrees
  refine forall_congr' fun hrow => ?_
  rw [hcur hrow]
  cases entry with
  | none => simp
  | some x => simp

theorem mergedSymbol_self {symbol other : Option String} {token : Address} (h : token ≠ 0) :
    DiscoveredPool.mergedSymbol symbol other token token = symbol.or other := by
  unfold DiscoveredPool.mergedSymbol
  cases symbol with
  | none => exact if_pos ⟨rfl, rfl, h⟩
  | some x => simp

section

variable {row cur : PoolRow} {p : DiscoveredPool}

/-- The merged entry keeps what the row knows exactly when the fresh entry agrees with the row:
    the fresh entry has priority in every field that it knows. -/
theorem mergeFrom_keepsRow_iff (hcur : KeepsRow row cur) (hremote : RemoteSourced p)
    (htoken0 : p.token0 ≠ 0) (htoken1 : p.token1 ≠ 0) :
    KeepsRow row (p.mergeFrom (cachedToDiscovered cur)).toRow ↔ AgreesWithRow row p := by
  have hdex : (p.mergeFrom (cachedToDiscovered cur)).dexType = row.dexType ↔
      p.dexType = row.dexType ∨ (p.dexType = .uniswapV2 ∧ p.fee = 0) := by
    rw [← hcur.dexType]
    exact DiscoveredPool.mergeFrom_dexType_eq_iff
  have hfee : (p.mergeFrom (cachedToDiscovered cur)).fee = row.fee ↔
      p.fee = 0 ∨ p.fee = row.fee := by
    rw [← hcur.fee]
    exact DiscoveredPool.mergeFrom_fee_eq_iff
  have hsymbol0 (htoken : p.token0 = row.token0) :
      (p.mergeFrom (cachedToDiscovered cur)).token0Symbol = p.token0Symbol.or cur.token0Symbol := by
    show DiscoveredPool.mergedSymbol _ _ p.token0 cur.token0 = _
    rw [hcur.token0, ← htoken, mergedSymbol_self htoken0]
    rfl
  have hsymbol1 (htoken : p.token1 = row.token1) :
      (p.mergeFrom (cachedToDiscovered cur)).token1Symbol = p.token1Symbol.or cur.token1Symbol := by
    show DiscoveredPool.mergedSymbol _ _ p.token1 cur.token1 = _
    rw [hcur.token1, ← htoken, mergedSymbol_self htoken1]
    rfl
  constructor
  · intro h
    refine ⟨h.token0, h.token1, hdex.mp h.dexType, hfee.mp h.fee,
      (or_keeps_iff hcur.poolId).mp h.poolId,
      (or_keeps_iff hcur.tickSpacing).mp h.tickSpacing,
      (or_keeps_iff hcur.isStable).mp h.isStable,
      (or_keeps_iff hcur.balancerPoolType).mp h.balancerPoolType,
      (or_keeps_iff hcur.hookAddress).mp h.hookAddress, (or_keeps_iff hcur.binStep).mp h.binStep,
      (or_keeps_iff hcur.maturityTimestamp).mp h.maturityTimestamp,
      (or_keeps_iff hcur.underlyingTokens).mp h.underlyingTokens,
      (or_keeps_iff hcur.dexName).mp h.dexName, ?_, ?_⟩
    · refine (or_keeps_iff hcur.token0Symbol).mp fun hrow => ?_
      rw [← hsymbol0 h.token0]
      exact h.token0Symbol hrow
    · refine (or_keeps_iff hcur.token1Symbol).mp fun hrow => ?_
      rw [← hsymbol1 h.token1]
      exact h.token1Symbol hrow
  · intro h
    have hblock : (p.mergeFrom (cachedToDiscovered cur)).creationBlock = cur.creationBlock := by
      show (if p.creationBlock = 0 ∧ cur.creationBlock ≠ 0 then cur.creationBlock
        else p.creationBlock) = _
      rw [hremote.1]
      split_ifs with hknown
      · rfl
      · omega
    have hfactory : (p.mergeFrom (cachedToDiscovered cur)).factory = cur.factory := by
      show p.factory.or cur.factory = _
      rw [hremote.2, Option.none_or]
    refine ⟨h.token0, h.token1, hdex.mpr h.dexType, hfee.mpr h.fee,
      hblock.trans hcur.creationBlock, hfactory.trans hcur.factory,
      (or_keeps_iff hcur.poolId).mpr h.poolId,
      (or_keeps_iff hcur.tickSpacing).mpr h.tickSpacing,
      (or_keeps_iff hcur.isStable).mpr h.isStable,
      (or_keeps_iff hcur.balancerPoolType).mpr h.balancerPoolType,
      (or_keeps_iff hcur.hookAddress).mpr h.hookAddress,
      (or_keeps_iff hcur.binStep).mpr h.binStep,
      (or_keeps_iff hcur.maturityTimestamp).mpr h.maturityTimestamp,
      (or_keeps_iff hcur.underlyingTokens).mpr h.underlyingTokens,
      (or_keeps_iff hcur.dexName).mpr h.dexName, fun hrow => ?_, fun hrow => ?_⟩
    · exact (hsymbol0 h.token0).trans ((or_keeps_iff hcur.token0Symbol).mpr h.token0Symbol hrow)
    · exact (hsymbol1 h.token1).trans ((or_keeps_iff hcur.token1Symbol).mpr h.token1Symbol hrow)

/-- The table keeps what the row of a pool knows. -/
def TableKeeps (a : Address) (row : PoolRow) (table : PoolTable) : Prop :=
  ∃ stored, table[a]? = some stored ∧ KeepsRow row stored

theorem getElem?_persistEntry (table : PoolTable) (p : DiscoveredPool) (a : Address) :
    (persistEntry table p)[a]? =
      if p.address = a ∧ p.token0 ≠ 0 ∧ p.token1 ≠ 0 then some (mergedEntry table p).toRow
      else table[a]? := by
  have haddr : (mergedEntry table p).address = p.address := by
    unfold mergedEntry
    split <;> rfl
  unfold persistEntry
  split_ifs with hzero hput hput
  · exact absurd hzero (not_or.mpr hput.2)
  · rfl
  · rw [putDiscoveredPool, Map.getElem?_insert_eq, haddr, if_pos hput.1]
  · rw [not_or] at hzero
    rw [putDiscoveredPool, Map.getElem?_insert_eq, haddr, if_neg fun h => hput ⟨h, hzero⟩]

/-- An entry of another pool, or one without both tokens, leaves the row alone. -/
theorem tableKeeps_persistEntry_iff {a : Address} {table : PoolTable}
    (hkeeps : TableKeeps a row table) (hremote : p.address = a → RemoteSourced p) :
    TableKeeps a row (persistEntry table p) ↔
      (p.address = a → p.token0 ≠ 0 → p.token1 ≠ 0 → AgreesWithRow row p) := by
  obtain ⟨cur, hget, hcur⟩ := hkeeps
  unfold TableKeeps
  rw [getElem?_persistEntry]
  split_ifs with hput
  · obtain ⟨rfl, htoken0, htoken1⟩ := hput
    have hmerged : mergedEntry table p = p.mergeFrom (cachedToDiscovered cur) := by
      rw [mergedEntry, hget]
    rw [hmerged]
    have hiff := mergeFrom_keepsRow_iff hcur (hremote rfl) htoken0 htoken1
    constructor
    · rintro ⟨stored, hstored, hkeeps⟩ - - -
      obtain rfl := Option.some.inj hstored
      exact hiff.mp hkeeps
    · exact fun h => ⟨_, rfl, hiff.mpr (h rfl htoken0 htoken1)⟩
  · exact ⟨fun _ haddr h0 h1 => absurd ⟨haddr, h0, h1⟩ hput, fun _ => ⟨cur, hget, hcur⟩⟩

end

/-! ## Sequences of calls -/

theorem persistUniverse_table (table : PoolTable) (pools : List DiscoveredPool) :
    (persistUniverse table pools).1 = pools.foldl persistEntry table := by
  suffices h : ∀ n, (pools.foldl (fun (table, persisted) p =>
      (persistEntry table p,
        if p.token0 = 0 ∨ p.token1 = 0 then persisted else persisted + 1)) (table, n)).1 =
      pools.foldl persistEntry table from h 0
  induction pools generalizing table with
  | nil => exact fun _ => rfl
  | cons p pools ih => exact fun n => ih (persistEntry table p) _

/-- Calls one after another put what one pass over all entries puts. -/
theorem persistCalls_eq_foldl (table : PoolTable) (calls : List (List DiscoveredPool)) :
    persistCalls table calls = calls.flatten.foldl persistEntry table := by
  unfold persistCalls
  simp only [persistUniverse_table]
  induction calls generalizing table with
  | nil => rfl
  | cons pools calls ih => rw [List.foldl_cons, List.flatten_cons, List.foldl_append, ih]

/-- After every entry of every call, the row of pool `a` keeps what it knew. -/
def KeepsThrough (a : Address) (row : PoolRow) (table : PoolTable)
    (calls : List (List DiscoveredPool)) : Prop :=
  ∀ entries, entries <+: calls.flatten → TableKeeps a row (entries.foldl persistEntry table)

theorem KeepsThrough.persistCalls {a : Address} {row : PoolRow} {table : PoolTable}
    {calls : List (List DiscoveredPool)} (h : KeepsThrough a row table calls) :
    TableKeeps a row (persistCalls table calls) := by
  rw [persistCalls_eq_foldl]
  exact h _ List.prefix_rfl

/-- **Main theorem.** Whatever the cached row of a pool, a sequence of calls with remote-sourced
    entries for the pool keeps what the row knows exactly when every entry of the pool with both
    tokens agrees with the row on all that both know. -/
theorem keepsThrough_iff {a : Address} {row : PoolRow} {table : PoolTable}
    {calls : List (List DiscoveredPool)} (hrow : table[a]? = some row)
    (hremote : ∀ pools ∈ calls, ∀ p ∈ pools, p.address = a → RemoteSourced p) :
    KeepsThrough a row table calls ↔
      ∀ pools ∈ calls, ∀ p ∈ pools, p.address = a → p.token0 ≠ 0 → p.token1 ≠ 0 →
        AgreesWithRow row p := by
  have hstart : TableKeeps a row table :=
    ⟨row, hrow, ⟨rfl, rfl, rfl, rfl, rfl, rfl, fun _ => rfl, fun _ => rfl, fun _ => rfl,
      fun _ => rfl, fun _ => rfl, fun _ => rfl, fun _ => rfl, fun _ => rfl, fun _ => rfl,
      fun _ => rfl, fun _ => rfl⟩⟩
  have hstep (t : PoolTable) (hkeeps : TableKeeps a row t) (p : DiscoveredPool)
      (hp : p ∈ calls.flatten) : TableKeeps a row (persistEntry t p) ↔
        (p.address = a → p.token0 ≠ 0 → p.token1 ≠ 0 → AgreesWithRow row p) := by
    obtain ⟨pools, hpools, hmem⟩ := List.mem_flatten.mp hp
    exact tableKeeps_persistEntry_iff hkeeps (hremote pools hpools p hmem)
  unfold KeepsThrough
  rw [foldl_prefix_iff hstart hstep]
  constructor
  · intro h pools hpools p hp
    obtain ⟨pre, post, heq⟩ := List.append_of_mem (List.mem_flatten_of_mem hpools hp)
    exact h pre p ⟨post, by simp [heq]⟩
  · intro h pre p hpre
    have hmem := hpre.subset (List.mem_append_right pre (List.mem_singleton_self p))
    obtain ⟨pools, hpools, hp⟩ := List.mem_flatten.mp hmem
    exact h pools hpools p hp

/-! ## Runs -/

/-- A V3 pool with its fee, creation block and factory, as on-chain discovery stores it. -/
def onchainRow : PoolRow where
  address := 5
  token0 := 0xa
  token1 := 0xb
  fee := 500
  dexType := .uniswapV3
  creationBlock := 100
  factory := some 7

/-- The same pool as a remote source lists it: base and quote the other way round, and another
    guess at its type. -/
def remoteEntry : DiscoveredPool where
  address := 5
  token0 := 0xb
  token1 := 0xa
  fee := 0
  dexType := .solidly
  creationBlock := 0

/-- The same pool with a bare V2 label. -/
def sparseEntry : DiscoveredPool :=
  { remoteEntry with token0 := 0xa, token1 := 0xb, dexType := .uniswapV2 }

/-- The table that holds only the on-chain row. -/
def onchainTable : PoolTable := (∅ : PoolTable).insert 5 onchainRow

theorem getElem?_onchainTable : onchainTable[(5 : Address)]? = some onchainRow := by
  rw [onchainTable, Map.getElem?_insert_eq, if_pos rfl]

/-- Two sparser runs leave the row as it is. -/
theorem keepsThrough_sparse :
    KeepsThrough 5 onchainRow onchainTable [[sparseEntry], [sparseEntry]] :=
  (keepsThrough_iff getElem?_onchainTable (by
    intro pools hpools p hp _
    simp only [List.mem_cons, List.not_mem_nil, or_false, or_self] at hpools
    obtain rfl := hpools
    obtain rfl := List.mem_singleton.mp hp
    exact ⟨rfl, rfl⟩)).mpr (by
    intro pools hpools p hp _ _ _
    simp only [List.mem_cons, List.not_mem_nil, or_false, or_self] at hpools
    obtain rfl := hpools
    obtain rfl := List.mem_singleton.mp hp
    exact ⟨rfl, rfl, .inr ⟨rfl, rfl⟩, .inl rfl, fun _ => .inl rfl, fun _ => .inl rfl,
      fun _ => .inl rfl, fun _ => .inl rfl, fun _ => .inl rfl, fun _ => .inl rfl,
      fun _ => .inl rfl, fun _ => .inl rfl, fun _ => .inl rfl, fun _ => .inl rfl,
      fun _ => .inl rfl⟩)

/-- One remote run flips the type of the pool and the order of its tokens. -/
theorem remote_flips_row :
    RemoteSourced remoteEntry ∧ onchainRow.fee ≠ 0 ∧ onchainRow.dexType ≠ .uniswapV2 ∧
    ((persistCalls onchainTable [[remoteEntry]])[(5 : Address)]?.map
      fun row => (row.dexType, row.token0, row.token1)) = some (.solidly, 0xb, 0xa) ∧
    ¬KeepsThrough 5 onchainRow onchainTable [[remoteEntry]] := by
  have hrow : (persistEntry onchainTable remoteEntry)[(5 : Address)]? =
      some (remoteEntry.mergeFrom (cachedToDiscovered onchainRow)).toRow := by
    rw [getElem?_persistEntry, if_pos ⟨rfl, by decide, by decide⟩]
    rw [mergedEntry, show remoteEntry.address = 5 from rfl, getElem?_onchainTable]
  refine ⟨⟨rfl, rfl⟩, by decide, by decide, ?_, fun h => ?_⟩
  · rw [persistCalls_eq_foldl]
    show (persistEntry onchainTable remoteEntry)[(5 : Address)]?.map _ = _
    rw [hrow]
    rfl
  · obtain ⟨stored, hstored, hkeeps⟩ := h [remoteEntry] List.prefix_rfl
    obtain rfl := Option.some.inj (hrow.symm.trans hstored)
    exact absurd hkeeps.dexType (by decide)

end MevScout.Jobs
