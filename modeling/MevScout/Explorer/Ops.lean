import MevScout.Explorer.Anchors
import MevScout.Explorer.CanonicalId
import MevScout.Explorer.Store

/-!
# Operations in the store

Models of `stamp_jit_tx_hashes` (`core/src/explorer/classify/jit.rs`) and of the rows of `mev_ops`
that the events of the blocks of a chain become. A row is found by the canonical id of its event
and the hash of the transaction that it stands at.

Results:
* `stamped_eq_iff`, `stamped_eq_zero_iff`: the hashes that the events go out with.
-/

namespace MevScout.Explorer

open Distinct

/-! ## Stamping and inserting -/

/-- The map `jit_hashes` (`ingest.rs`, lines 393–395): the hashes of the transactions with a Mint
    or a Burn. -/
def jitHashes (txs : List TxInput) (txIndex : ℕ) : Option B256 :=
  (txs.reverse.find? fun t => t.txIndex = txIndex ∧ t.jit ≠ []).map (·.txHash)

/-- Model of `stamp_jit_tx_hashes` (`jit.rs`, lines 263–271) for one event. -/
def stampJitTxHash (txHashes : ℕ → Option B256) (e : MevEvent) : MevEvent :=
  if e.kind = .jit ∧ e.txHash = 0 then
    match txHashes e.txIndex with
    | some h => { e with txHash := h }
    | none => e
  else e

/-- The events that a block is inserted with. The filter in between (`ingest.rs`, line 553) drops
    operational executions without a subkind, of which there are none. -/
def survivingEvents (input : BlockInput) : List MevEvent :=
  (classifyBlock input).map (stampJitTxHash (jitHashes input.txs))

/-- The key of the row of an event (`store/schema.rs`, lines 121–156). -/
def opKey (e : MevEvent) : OpKey := ⟨explorerCanonicalId e, e.txHash⟩

/-- Model of `BlockFactsInput`, with what the classifier reads. -/
structure BlockFactsInput where
  bundle : BlockBundle
  input : BlockInput
  txs_eq : input.txs = bundle.txInputs

/-- The blocks of a chain: a hash stands for one transaction, and in a block so does an index. -/
structure IndexedChain where
  blocks : List BlockFactsInput
  hashes_nodup : (blocks.flatMap fun b => b.input.txs.map (·.txHash)).Nodup
  hashes_ne : ∀ b ∈ blocks, ∀ tx ∈ b.input.txs, tx.txHash ≠ 0
  indexes_nodup : ∀ b ∈ blocks, (b.input.txs.map (·.txIndex)).Nodup

/-- The surviving events of all blocks. -/
def IndexedChain.events (c : IndexedChain) : List MevEvent :=
  c.blocks.flatMap fun b => survivingEvents b.input

section

variable {ρ : Type} (columns : BlockBundle → MevEvent → MevOpRow ρ)

/-- The rows of a block; `columns` is what `annotate_event_with_volume` makes of an event. -/
def BlockFactsInput.ops (b : BlockFactsInput) : List (OpKey × MevOpRow ρ) :=
  (survivingEvents b.input).map fun e => (opKey e, columns b.bundle e)

/-- A block is inserted. -/
def insertFacts (s : Store ρ) (b : BlockFactsInput) : Store ρ :=
  s.insertBlockFacts b.bundle (b.ops columns)

/-- The store after all blocks of a chain. -/
def IndexedChain.store (c : IndexedChain) : Store ρ := c.blocks.foldl (insertFacts columns) {}

/-- The keys of the rows of `mev_ops`. -/
def opKeys (s : Store ρ) : Set OpKey := {k | s.mevOps k ≠ none}

/-- Every surviving event has a row of its own, and no block adds a row when it comes again. -/
structure OneRowEach (c : IndexedChain) : Prop where
  distinct : (c.events.map opKey).Nodup
  rows : (opKeys (c.store columns)).ncard = c.events.length
  again : ∀ b ∈ c.blocks,
    opKeys (insertFacts columns (c.store columns) b) = opKeys (c.store columns)

end

/-! ## What tells events apart -/

/-- The parties of the liquidations of a transaction; those of a discounted purchase have no
    borrower. -/
def txParties (tx : TxInput) : List (Address × Address) :=
  (tx.liquidations.map fun liq =>
    (liq.user, if liq.liquidator = 0 then tx.sender else liq.liquidator)) ++
    tx.buyCollaterals.map fun buy => (0, if buy.buyer = 0 then tx.sender else buy.buyer)

/-- The events of a transaction are told apart by what their kind puts into the id: its
    liquidations have different parties, its positions different pools or ranges, and there is
    one keeper or bundler execution at most. -/
def Separated (input : BlockInput) (tx : TxInput) : Prop :=
  match (txClaims input).winner tx.txIndex with
  | some .liquidation => (txParties tx).Nodup
  | some .jit => (((classifyJit input).filter (·.txIndex = tx.txIndex)).map jitRange).Nodup
  | some .utility => tx.keepers.length + (tx.userOps.filter (·.success)).length ≤ 1
  | _ => True

/-- The positions that became part of an arbitrage, which go out without a hash. -/
def upgradedPositions (input : BlockInput) : List MevEvent :=
  (classifyJit input).filter fun e => (txClaims input).winner e.txIndex = some .jitArb

/-- The events of every transaction are told apart, and so are the positions of all blocks that
    became part of an arbitrage. -/
structure Distinguishable (c : IndexedChain) : Prop where
  separated : ∀ b ∈ c.blocks, ∀ tx ∈ b.input.txs, Separated b.input tx
  upgraded : (c.blocks.flatMap fun b => (upgradedPositions b.input).map jitRange).Nodup

/-! ## Hashes -/

/-- The transactions of a block have different indexes and different hashes. -/
structure WellFormed (input : BlockInput) : Prop where
  indexes_nodup : (input.txs.map (·.txIndex)).Nodup
  hashes_nodup : (input.txs.map (·.txHash)).Nodup
  hashes_ne : ∀ tx ∈ input.txs, tx.txHash ≠ 0

theorem IndexedChain.wellFormed (c : IndexedChain) {b : BlockFactsInput} (hb : b ∈ c.blocks) :
    WellFormed b.input where
  indexes_nodup := c.indexes_nodup b hb
  hashes_nodup := (List.nodup_flatMap.mp c.hashes_nodup).1 b hb
  hashes_ne := c.hashes_ne b hb

/-- The key that an event goes out with. -/
def stampedKey (input : BlockInput) (e : MevEvent) : OpKey :=
  opKey (stampJitTxHash (jitHashes input.txs) e)

section

variable {input : BlockInput} {e : MevEvent} {tx : TxInput}

theorem canonicalId_stamp (txHashes : ℕ → Option B256) (e : MevEvent) :
    explorerCanonicalId (stampJitTxHash txHashes e) = explorerCanonicalId e := by
  unfold stampJitTxHash
  split_ifs
  · split <;> rfl
  · rfl

theorem stampedKey_normalize (input : BlockInput) (e : MevEvent) :
    stampedKey input (normalizeConfidence e) = stampedKey input e := by
  obtain ⟨confidence, hc⟩ := normalizeConfidence_eq e
  unfold stampedKey opKey
  rw [canonicalId_stamp, canonicalId_stamp, hc, OpKey.mk.injEq]
  refine ⟨rfl, ?_⟩
  unfold stampJitTxHash
  dsimp only
  split_ifs
  · split <;> rfl
  · rfl

/-- Every event stands at a transaction of its block. -/
theorem exists_tx_of_mem (he : e ∈ allEvents input) : ∃ tx ∈ input.txs, e.txIndex = tx.txIndex := by
  rcases exists_anchor he with ⟨⟨tx, htx, hindex, -⟩, -⟩ | ⟨⟨-, tx, htx, -, hindex⟩, -⟩
  · exact ⟨tx, htx, hindex⟩
  · exact ⟨tx, htx, hindex⟩

/-- An event goes out with the hash of its transaction, unless the upgrade renamed its kind before
    it was stamped. -/
theorem stamped_txHash (hw : WellFormed input) (he : e ∈ allEvents input) (htx : tx ∈ input.txs)
    (hindex : e.txIndex = tx.txIndex) :
    (stampedKey input e).txHash = if e.kind = .jitArb then 0 else tx.txHash := by
  have hunique : ∀ tx' ∈ input.txs, tx'.txIndex = e.txIndex → tx' = tx := fun tx' htx' h =>
    List.inj_on_of_nodup_map hw.indexes_nodup htx' htx (h.trans hindex)
  show (stampJitTxHash (jitHashes input.txs) e).txHash = _
  unfold stampJitTxHash
  rcases exists_anchor he with ⟨⟨tx', htx', hindex', hhash⟩, hjit, harb⟩ |
      ⟨⟨hzero, tx', htx', hfacts, hindex'⟩, hjit | harb⟩
  · rw [if_neg fun h => hjit h.1, if_neg harb, hhash, hunique tx' htx' hindex'.symm]
  · rw [if_pos ⟨hjit, hzero⟩, if_neg (by rw [hjit]; decide)]
    have hfind : jitHashes input.txs e.txIndex = some tx.txHash := by
      unfold jitHashes
      cases hfound : input.txs.reverse.find? fun t => t.txIndex = e.txIndex ∧ t.jit ≠ [] with
      | none =>
        have hnone := List.find?_eq_none.mp hfound tx' (List.mem_reverse.mpr htx')
        exact absurd (decide_eq_true ⟨hindex'.symm, hfacts⟩) hnone
      | some t =>
        have ht : t.txIndex = e.txIndex ∧ t.jit ≠ [] := by simpa using List.find?_some hfound
        have hmem := List.mem_reverse.mp (List.mem_of_find?_eq_some hfound)
        rw [Option.map_some, hunique t hmem ht.1]
    rw [hfind]
  · rw [if_neg fun h => absurd (h.1.symm.trans harb) (by decide), if_pos harb, hzero]

theorem stamped_eq_iff (hw : WellFormed input) (he : e ∈ allEvents input) (htx : tx ∈ input.txs) :
    (stampedKey input e).txHash = tx.txHash ↔ e.txIndex = tx.txIndex ∧ e.kind ≠ .jitArb := by
  obtain ⟨tx', htx', hindex⟩ := exists_tx_of_mem he
  rw [stamped_txHash hw he htx' hindex]
  constructor
  · intro h
    split_ifs at h with harb
    · exact absurd h.symm (hw.hashes_ne tx htx)
    · rw [List.inj_on_of_nodup_map hw.hashes_nodup htx' htx h] at hindex
      exact ⟨hindex, harb⟩
  · rintro ⟨hindex', harb⟩
    rw [if_neg harb, List.inj_on_of_nodup_map hw.indexes_nodup htx' htx
      (hindex.symm.trans hindex')]

theorem stamped_eq_zero_iff (hw : WellFormed input) (he : e ∈ allEvents input) :
    (stampedKey input e).txHash = 0 ↔ e.kind = .jitArb := by
  obtain ⟨tx, htx, hindex⟩ := exists_tx_of_mem he
  rw [stamped_txHash hw he htx hindex]
  refine ⟨fun h => ?_, fun h => if_pos h⟩
  by_contra harb
  rw [if_neg harb] at h
  exact hw.hashes_ne tx htx h

end

end MevScout.Explorer
