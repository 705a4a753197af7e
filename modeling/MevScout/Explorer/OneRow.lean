import MevScout.Explorer.Keys

/-!
# One row for every operation

When every surviving event of a chain has a row of its own in `mev_ops`.

Results:
* `distinct_iff`: the events of a chain have different keys;
* `mem_opKeys_store`, `opKeys_insertFacts`: which rows there are;
* `oneRowEach_iff`: every event of a chain has a row of its own;
* `second_liquidation_merged`: two liquidations of one borrower in one transaction.
-/

namespace MevScout.Explorer

open Distinct

/-! ## The keys of a chain -/

variable {c : IndexedChain}

theorem events_keys_nodup (c : IndexedChain) : (c.events.map opKey).Nodup ↔
    (c.blocks.flatMap fun b => stampedKeys b.input).Nodup := by
  unfold IndexedChain.events
  rw [List.map_flatMap]
  exact (List.Perm.flatMap_left c.blocks fun b _ => survivingEvents_keys_perm b.input).nodup_iff

/-- Events without a hash, over all blocks. -/
theorem upgraded_iff (c : IndexedChain) :
    ((c.blocks.flatMap fun b => stampedKeys b.input).filter (·.txHash = 0)).Nodup ↔
      (c.blocks.flatMap fun b => (upgradedPositions b.input).map jitRange).Nodup := by
  have hblocks : (c.blocks.flatMap fun b => (stampedKeys b.input).filter (·.txHash = 0)) =
      c.blocks.flatMap fun b => ((upgradedPositions b.input).map jitRange).map upgradedKey :=
    List.flatMap_congr fun b hb => upgraded_keys (c.wellFormed hb)
  rw [List.filter_flatMap, hblocks, ← List.map_flatMap,
    List.nodup_map_iff upgradedKey_injective]

/-- Events with a hash, over all blocks. -/
theorem hashed_iff (c : IndexedChain) :
    ((c.blocks.flatMap fun b => stampedKeys b.input).filter fun key =>
      !decide (key.txHash = 0)).Nodup ↔
      ∀ b ∈ c.blocks, ∀ tx ∈ b.input.txs, Separated b.input tx := by
  rw [List.filter_flatMap, List.nodup_flatMap]
  constructor
  · rintro ⟨h, -⟩ b hb
    exact (stampedKeys_nodup_iff (c.wellFormed hb)).mp (h b hb)
  · intro h
    refine ⟨fun b hb => (stampedKeys_nodup_iff (c.wellFormed hb)).mpr (h b hb), ?_⟩
    -- the hashes of different blocks are different
    have hdisjoint := (List.nodup_flatMap.mp c.hashes_nodup).2
    refine hdisjoint.imp_of_mem fun hb hb' hhashes key hkey hkey' => ?_
    obtain ⟨hmem, hne⟩ := List.mem_filter.mp hkey
    have hzero : key.txHash ≠ 0 := by simpa using hne
    obtain ⟨tx, htx, heq⟩ := (hash_of_mem_keys (c.wellFormed hb) hmem).resolve_left hzero
    obtain ⟨tx', htx', heq'⟩ := (hash_of_mem_keys (c.wellFormed hb')
      (List.mem_filter.mp hkey').1).resolve_left hzero
    exact hhashes (List.mem_map.mpr ⟨tx, htx, heq⟩) (List.mem_map.mpr ⟨tx', htx', heq'⟩)

theorem distinct_iff (c : IndexedChain) : (c.events.map opKey).Nodup ↔ Distinguishable c := by
  rw [events_keys_nodup, nodup_iff_filter fun key : OpKey => decide (key.txHash = 0),
    upgraded_iff, hashed_iff]
  exact ⟨fun h => ⟨h.2, h.1⟩, fun h => ⟨h.upgraded, h.separated⟩⟩

/-! ## The rows of a chain -/

section

variable {ρ : Type} (columns : BlockBundle → MevEvent → MevOpRow ρ)

theorem opKeys_insertFacts (s : Store ρ) (b : BlockFactsInput) :
    opKeys (insertFacts columns s b) =
      opKeys s ∪ {k | k ∈ (survivingEvents b.input).map opKey} := by
  have hkeys : (b.ops columns).map Prod.fst = (survivingEvents b.input).map opKey := by
    unfold BlockFactsInput.ops
    rw [List.map_map]
    rfl
  ext k
  show s.mevOps.upsert Store.revise (b.ops columns) k ≠ none ↔ _
  rw [Table.upsert_ne_none_iff, hkeys]
  rfl

theorem opKeys_foldl (blocks : List BlockFactsInput) (s : Store ρ) :
    opKeys (blocks.foldl (insertFacts columns) s) = opKeys s ∪
      {k | k ∈ (blocks.flatMap fun b => survivingEvents b.input).map opKey} := by
  induction blocks generalizing s with
  | nil => simp
  | cons b blocks ih =>
    rw [List.foldl_cons, ih, opKeys_insertFacts, Set.union_assoc, List.flatMap_cons,
      List.map_append]
    refine congrArg (opKeys s ∪ ·) (Set.ext fun k => ?_)
    exact List.mem_append.symm

/-- The rows are those of the events. -/
theorem mem_opKeys_store (c : IndexedChain) (k : OpKey) :
    k ∈ opKeys (c.store columns) ↔ k ∈ c.events.map opKey := by
  have hempty : opKeys ({} : Store ρ) = ∅ := Set.eq_empty_iff_forall_notMem.mpr fun k hk => hk rfl
  unfold IndexedChain.store
  rw [opKeys_foldl, hempty, Set.empty_union]
  rfl

theorem coe_opKeys_store (c : IndexedChain) :
    opKeys (c.store columns) = ↑(c.events.map opKey).toFinset :=
  Set.ext fun k => (mem_opKeys_store columns c k).trans List.mem_toFinset.symm

theorem ncard_opKeys_iff (c : IndexedChain) :
    (opKeys (c.store columns)).ncard = c.events.length ↔ (c.events.map opKey).Nodup := by
  rw [coe_opKeys_store, Set.ncard_coe_finset, ← nodup_iff_card, List.length_map]

/-- A block that comes again adds no row. -/
theorem opKeys_again (c : IndexedChain) {b : BlockFactsInput} (hb : b ∈ c.blocks) :
    opKeys (insertFacts columns (c.store columns) b) = opKeys (c.store columns) := by
  rw [opKeys_insertFacts]
  refine Set.union_eq_left.mpr fun k hk => (mem_opKeys_store columns c k).mpr ?_
  obtain ⟨e, he, rfl⟩ := List.mem_map.mp hk
  exact List.mem_map_of_mem (List.mem_flatMap.mpr ⟨b, hb, he⟩)

/-- **Main theorem.** Every surviving event has a row of its own exactly where the events of every
    transaction are told apart by what their kind puts into the id, and the positions that became
    part of an arbitrage have different pools or ranges over all blocks. -/
theorem oneRowEach_iff (c : IndexedChain) : OneRowEach columns c ↔ Distinguishable c := by
  rw [← distinct_iff]
  refine ⟨OneRowEach.distinct, fun h => ⟨h, (ncard_opKeys_iff columns c).mpr h, ?_⟩⟩
  exact fun b hb => opKeys_again columns c hb

end

/-! ## Two liquidations of one borrower -/

/-- The liquidator `23` seizes the collaterals `1` and `2` of the borrower `42`. -/
def seizeTwice : TxInput where
  txIndex := 0
  txHash := 7
  sender := 23
  liquidations := [
    { protocol := "aave", user := 42, liquidator := 23, collateralAsset := 1
      collateralAmount := 100 },
    { protocol := "aave", user := 42, liquidator := 23, collateralAsset := 2
      collateralAmount := 200 }]

/-- A block with this transaction. -/
def seizeBlock : BlockFactsInput where
  bundle := { blockNumber := 5, header := ⟨1, 60, 1⟩, txInputs := [seizeTwice] }
  input :=
    { ctx :=
        { wrappedNative := 99, priority := [1], v2LikePools := ∅, causalWindowTxs := 8
          price := ⟨fun _ _ => false, fun _ _ => false⟩ }
      txs := [seizeTwice] }
  txs_eq := rfl

def seizeChain : IndexedChain where
  blocks := [seizeBlock]
  hashes_nodup := by decide
  hashes_ne := by decide
  indexes_nodup := by decide

/-- The columns of an event, without its prices. -/
def plainRow (bundle : BlockBundle) (e : MevEvent) : MevOpRow Unit where
  blockNumber := bundle.blockNumber
  txIndex := e.txIndex
  kind := e.kind
  eoa := e.searcher
  contract := e.contract
  profitToken := e.profitToken
  profitAmount := e.profitAmount
  victimHashes := e.victimHashes
  priced := ()

/-- Both liquidations survive, with different collaterals, and share one row. -/
theorem second_liquidation_merged :
    seizeChain.events.map (fun e => (e.kind, e.profitToken, e.profitAmount)) =
        [(.liquidation, some 1, some 100), (.liquidation, some 2, some 200)] ∧
      (opKeys (seizeChain.store plainRow)).ncard = 1 ∧ ¬ OneRowEach plainRow seizeChain := by
  have hcard : (seizeChain.events.map opKey).toFinset.card = 1 := by decide +kernel
  have hrows : (opKeys (seizeChain.store plainRow)).ncard = 1 := by
    rw [coe_opKeys_store, Set.ncard_coe_finset, hcard]
  refine ⟨by decide +kernel, hrows, fun h => ?_⟩
  have hlength : seizeChain.events.length = 2 := by decide +kernel
  have hone := h.rows
  rw [hrows, hlength] at hone
  cases hone

end MevScout.Explorer
