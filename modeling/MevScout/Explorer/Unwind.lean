import MevScout.Explorer.Store

/-!
# Unwinding a fork

What `unwind_from` (`core/src/explorer/store/sync.rs`) leaves of a store that was built by
indexing blocks in ascending order, against what indexing only the blocks below the fork leaves.

The unwind deletes the rows of the abandoned blocks. Rows of earlier blocks that an abandoned
block has deleted or revised do not come back: a position that it closed, replaced or pruned, and
an operation that it priced again.

Results:
* `unwind_persist`: what an abandoned block leaves of the open positions of earlier blocks;
* `unwind_iff`: when the unwind restores the store;
* `closed_position_lost`: a run it does not restore.
-/

namespace MevScout.Explorer

variable {ε π ρ : Type} {ix : Indexer ε π ρ} {s s' : Store ρ} {f : ℕ}

/-- The store after indexing some blocks, each at its prices. -/
def Indexer.indexAll (ix : Indexer ε π ρ) (s : Store ρ) (blocks : List (BlockBundle × π)) :
    Store ρ :=
  blocks.foldl (fun s b => (ix.indexBlock s b.1 b.2 none).1) s

/-- The operations that these blocks insert, in the order of the inserts. -/
def Indexer.opsAll (ix : Indexer ε π ρ) :
    Store ρ → List (BlockBundle × π) → List (OpKey × MevOpRow ρ)
  | _, [] => []
  | s, b :: blocks =>
    ix.ops s b.1 b.2 ++ ix.opsAll (ix.indexBlock s b.1 b.2 none).1 blocks

/-! ## Rows below a block -/

/-- Every row of the store is of a block below `f`. -/
structure Below (f : ℕ) (s : Store ρ) : Prop where
  blocks : ∀ k row, s.blocks k = some row → k < f
  txs : ∀ k row, s.txs k = some row → row.1 < f
  swaps : ∀ k row, s.swaps k = some row → k.1 < f
  transfers : ∀ k row, s.transfers k = some row → k.1 < f
  mevOps : ∀ k row, s.mevOps k = some row → row.blockNumber < f
  blocksClassified : ∀ k row, s.blocksClassified k = some row → k < f
  jitOpenPositions : ∀ k row, s.jitOpenPositions k = some row → row.openedBlock < f
  oracleAnswers : ∀ k row, s.oracleAnswers k = some row → k.1 < f
  reserveRates : ∀ k row, s.reserveRates k = some row → k.1 < f
  rejectedCandidates : ∀ k row, s.rejectedCandidates k = some row → k.1 < f

/-- Such a store has nothing to unwind. -/
theorem Below.unwindFrom_eq (h : Below f s) : s.unwindFrom f = s := by
  have hno : ∀ n, n < f → decide (f ≤ n) = false := fun n hn => by simp; omega
  unfold Store.unwindFrom
  rw [Table.deleteWhere_eq_self fun k row hk => hno _ (h.blocksClassified k row hk),
    Table.deleteWhere_eq_self fun k row hk => hno _ (h.mevOps k row hk),
    Table.deleteWhere_eq_self fun k row hk => hno _ (h.transfers k row hk),
    Table.deleteWhere_eq_self fun k row hk => hno _ (h.swaps k row hk),
    Table.deleteWhere_eq_self fun k row hk => hno _ (h.txs k row hk),
    Table.deleteWhere_eq_self fun k row hk => hno _ (h.blocks k row hk),
    Table.deleteWhere_eq_self fun k row hk => hno _ (h.jitOpenPositions k row hk),
    Table.deleteWhere_eq_self fun k row hk => hno _ (h.oracleAnswers k row hk),
    Table.deleteWhere_eq_self fun k row hk => hno _ (h.reserveRates k row hk),
    Table.deleteWhere_eq_self fun k row hk => hno _ (h.rejectedCandidates k row hk)]

/-- A block writes rows of its own number. -/
theorem ops_blockNumber {bundle : BlockBundle} {prices : π} :
    ∀ r ∈ ix.ops s bundle prices, r.2.blockNumber = bundle.blockNumber := by
  intro r hr
  obtain ⟨e, -, rfl⟩ := List.mem_map.mp hr
  rfl

/-- The open positions that a block writes are its own. -/
theorem persist_opened {t : PositionTable} {n window : ℕ} {txs : List TxInput} {k : PositionKey}
    {r : OpenRow} (h : persistJitPositions t n txs window k = some r) :
    r.openedBlock = n ∨ t k = some r := by
  unfold persistJitPositions at h
  split_ifs at h
  · exact .inr h
  · obtain ⟨h, -⟩ := Option.filter_eq_some_iff.mp h
    unfold PositionTable.closeJitPositions at h
    split_ifs at h
    rw [PositionTable.recordJitOpen, Table.orReplace_apply] at h
    rcases Option.or_eq_some_iff.mp h with h | ⟨-, h⟩
    · obtain ⟨p, hp, rfl⟩ := Option.map_eq_some_iff.mp h
      have hp := (List.mem_filter.mp (List.mem_of_getLast? hp)).1
      obtain ⟨t, -, hp⟩ := List.mem_flatMap.mp hp
      obtain ⟨j, -, rfl⟩ := List.mem_map.mp hp
      exact .inl rfl
    · exact .inr h

theorem below_indexBlock {bundle : BlockBundle} (h : Below f s) (hn : bundle.blockNumber < f)
    (prices : π) : Below f (ix.indexBlock s bundle prices none).1 := by
  unfold Indexer.indexBlock
  split_ifs
  · exact h
  refine ⟨?_, ?_, ?_, ?_, ?_, ?_, ?_, ?_, ?_, ?_⟩
  · exact Table.forall_orIgnore h.blocks (by simpa using hn)
  · refine Table.forall_orIgnore h.txs fun r hr => ?_
    obtain ⟨t, -, rfl⟩ := List.mem_map.mp hr
    exact hn
  · refine Table.forall_orIgnore h.swaps fun r hr => ?_
    obtain ⟨t, -, rfl⟩ := List.mem_map.mp hr
    exact hn
  · refine Table.forall_orIgnore h.transfers fun r hr => ?_
    obtain ⟨t, -, rfl⟩ := List.mem_map.mp hr
    exact hn
  · refine Table.forall_upsert h.mevOps (fun r hr => ?_) fun _ _ _ hold => hold
    rw [ops_blockNumber r hr]
    exact hn
  · exact Table.forall_orReplace h.blocksClassified (by simpa using hn)
  · intro k r hr
    rcases persist_opened hr with hr | hr
    · rw [hr]
      exact hn
    · exact h.jitOpenPositions k r hr
  · refine Table.forall_orReplace h.oracleAnswers fun r hr => ?_
    obtain ⟨t, -, hr⟩ := List.mem_flatMap.mp hr
    obtain ⟨o, -, rfl⟩ := List.mem_map.mp hr
    exact hn
  · refine Table.forall_orReplace h.reserveRates fun r hr => ?_
    obtain ⟨t, -, hr⟩ := List.mem_flatMap.mp hr
    obtain ⟨o, -, rfl⟩ := List.mem_map.mp hr
    exact hn
  · change ∀ k row, (if ix.recordRejections = true then _ else s.rejectedCandidates :
      Table (ℕ × RejectedCandidate) Unit) k = some row → _
    split_ifs
    · refine Table.forall_orIgnore h.rejectedCandidates fun r hr => ?_
      obtain ⟨t, -, rfl⟩ := List.mem_map.mp hr
      exact hn
    · exact h.rejectedCandidates

/-! ## Abandoned blocks -/

/-- The block neither burns nor mints the position, and does not prune it: a block without such
    facts does not write. -/
def keepsPosition (window : ℕ) (b : BlockBundle) (k : PositionKey) (r : OpenRow) : Bool :=
  let block : JitBlock := (b.blockNumber, b.txInputs)
  block.facts = [] || (block.factsOf k = [] && b.blockNumber - window ≤ r.openedBlock)

/-- What an abandoned block leaves of the open positions of earlier blocks. -/
theorem unwind_persist {t : PositionTable} {b : BlockBundle} {window : ℕ}
    (hf : f ≤ b.blockNumber) (k : PositionKey) :
    (persistJitPositions t b.blockNumber b.txInputs window).deleteWhere
        (fun _ r => f ≤ r.openedBlock) k =
      (t.deleteWhere (fun _ r => f ≤ r.openedBlock) k).filter fun r =>
        keepsPosition window b k r := by
  have happly := @persist_apply window t (b.blockNumber, b.txInputs) k
  rw [Table.deleteWhere, Table.deleteWhere, happly]
  unfold keepsPosition
  dsimp only
  split_ifs with hfacts hburn
  · simp [hfacts]
  · obtain ⟨j, hj, -⟩ := hburn
    have hne := List.ne_nil_of_mem hj
    simp [hfacts, hne]
  · cases hlast : (JitBlock.factsOf (b.blockNumber, b.txInputs) k).getLast? with
    | none =>
      have hnil := List.getLast?_eq_none_iff.mp hlast
      simp only [hnil, hfacts, decide_false, decide_true, Bool.false_or, Bool.true_and,
        Option.map_none, Option.none_or, Option.filter_filter]
      congr 1
      funext r
      rw [Bool.and_comm]
    | some j =>
      -- the last Mint is a row of the abandoned block
      have hne : JitBlock.factsOf (b.blockNumber, b.txInputs) k ≠ [] := fun hnil => by
        rw [hnil] at hlast
        cases hlast
      simp [hfacts, hne, hf, Option.filter_filter]

/-- What an insert leaves of an operation that is there. -/
theorem foldl_revise (row : MevOpRow ρ) (rows : List (MevOpRow ρ)) :
    rows.foldl Store.revise row =
      { row with priced := (rows.getLast?.map MevOpRow.priced).getD row.priced } := by
  induction rows using List.reverseRecOn with
  | nil => rfl
  | append_singleton rows r ih => simp [List.foldl_append, ih, Store.revise]

/-- What an abandoned block leaves after the unwind: the open positions that it keeps, the
    operations as it prices them, and the other tables as they were. -/
theorem unwind_indexBlock {b : BlockBundle} (hf : f ≤ b.blockNumber)
    (hnew : s.blocksClassified b.blockNumber = none) (prices : π) :
    (ix.indexBlock s b prices none).1.unwindFrom f =
      { s.unwindFrom f with
        jitOpenPositions := fun k => ((s.unwindFrom f).jitOpenPositions k).filter fun r =>
          keepsPosition ix.jitWindowBlocks b k r
        mevOps := fun k => ((s.unwindFrom f).mevOps k).map fun row =>
          (((ix.ops s b prices).filter fun r => r.1 = k).map Prod.snd).foldl
            Store.revise row } := by
  have hge : decide (f ≤ b.blockNumber) = true := by simpa using hf
  rw [Indexer.indexBlock, if_neg (by simp [hnew])]
  refine Store.ext ?_ ?_ ?_ ?_ ?_ ?_ ?_ ?_ ?_ ?_
  · exact Table.deleteWhere_orIgnore (by simpa using hge)
  · refine Table.deleteWhere_orIgnore fun r hr => ?_
    obtain ⟨t, -, rfl⟩ := List.mem_map.mp hr
    exact hge
  · refine Table.deleteWhere_orIgnore fun r hr => ?_
    obtain ⟨t, -, rfl⟩ := List.mem_map.mp hr
    exact hge
  · refine Table.deleteWhere_orIgnore fun r hr => ?_
    obtain ⟨t, -, rfl⟩ := List.mem_map.mp hr
    exact hge
  · refine Table.deleteWhere_upsert (fun r hr => ?_) fun _ _ _ => rfl
    rw [ops_blockNumber r hr]
    exact hge
  · exact Table.deleteWhere_orReplace fun r hr _ => by
      rw [List.mem_singleton.mp hr]
      exact hge
  · funext k
    exact unwind_persist hf k
  · refine Table.deleteWhere_orReplace fun r hr _ => ?_
    obtain ⟨t, -, hr⟩ := List.mem_flatMap.mp hr
    obtain ⟨o, -, rfl⟩ := List.mem_map.mp hr
    exact hge
  · refine Table.deleteWhere_orReplace fun r hr _ => ?_
    obtain ⟨t, -, hr⟩ := List.mem_flatMap.mp hr
    obtain ⟨o, -, rfl⟩ := List.mem_map.mp hr
    exact hge
  · change Table.deleteWhere (if ix.recordRejections = true then _ else s.rejectedCandidates :
      Table (ℕ × RejectedCandidate) Unit) _ = _
    split_ifs
    · refine Table.deleteWhere_orIgnore fun r hr => ?_
      obtain ⟨t, -, rfl⟩ := List.mem_map.mp hr
      exact hge
    · rfl

/-- A block classifies no other block. -/
theorem indexBlock_classified {b : BlockBundle} {n : ℕ} (hn : b.blockNumber ≠ n) (prices : π) :
    (ix.indexBlock s b prices none).1.blocksClassified n = s.blocksClassified n := by
  unfold Indexer.indexBlock
  split_ifs
  · rfl
  · change Table.orReplace s.blocksClassified [(b.blockNumber, _)] n = _
    rw [Table.orReplace_apply]
    simp [hn]

/-- What the abandoned blocks leave after the unwind. -/
theorem unwind_indexAll {blocks : List (BlockBundle × π)}
    (hf : ∀ b ∈ blocks, f ≤ b.1.blockNumber)
    (hsorted : blocks.Pairwise fun a b => a.1.blockNumber < b.1.blockNumber)
    (hnew : ∀ b ∈ blocks, s.blocksClassified b.1.blockNumber = none) :
    (ix.indexAll s blocks).unwindFrom f =
      { s.unwindFrom f with
        jitOpenPositions := fun k => ((s.unwindFrom f).jitOpenPositions k).filter fun r =>
          blocks.all fun b => keepsPosition ix.jitWindowBlocks b.1 k r
        mevOps := fun k => ((s.unwindFrom f).mevOps k).map fun row =>
          (((ix.opsAll s blocks).filter fun r => r.1 = k).map Prod.snd).foldl
            Store.revise row } := by
  induction blocks generalizing s with
  | nil =>
    refine Store.ext rfl rfl rfl rfl ?_ rfl ?_ rfl rfl rfl
    · funext k
      change (s.unwindFrom f).mevOps k = ((s.unwindFrom f).mevOps k).map fun row => row
      cases (s.unwindFrom f).mevOps k <;> rfl
    · funext k
      change (s.unwindFrom f).jitOpenPositions k =
        Option.filter (fun _ => true) ((s.unwindFrom f).jitOpenPositions k)
      cases (s.unwindFrom f).jitOpenPositions k <;> rfl
  | cons b blocks ih =>
    obtain ⟨hb, hsorted⟩ := List.pairwise_cons.mp hsorted
    have hrest : ∀ c ∈ blocks,
        (ix.indexBlock s b.1 b.2 none).1.blocksClassified c.1.blockNumber = none := fun c hc => by
      rw [indexBlock_classified (hb c hc).ne]
      exact hnew c (List.mem_cons_of_mem _ hc)
    rw [Indexer.indexAll, List.foldl_cons, ← Indexer.indexAll,
      ih (fun c hc => hf c (List.mem_cons_of_mem _ hc)) hsorted hrest,
      unwind_indexBlock (hf b (by simp)) (hnew b (by simp)) b.2]
    refine Store.ext rfl rfl rfl rfl ?_ rfl ?_ rfl rfl rfl
    · funext k
      dsimp only
      rw [Option.map_map, Indexer.opsAll, List.filter_append, List.map_append]
      congr 1
      funext row
      rw [List.foldl_append]
      rfl
    · funext k
      dsimp only
      rw [Option.filter_filter]
      rfl

/-! ## Restoring a store -/

/-- The unwound store `s` is the store `s₀` as the claim compares them: in what the classification
    of the fork block reads, and in the derived rows. -/
structure Restored (ix : Indexer ε π ρ) (f : ℕ) (s s₀ : Store ρ) : Prop where
  lookback : s.lookback ix f = s₀.lookback ix f
  mevOps : s.mevOps = s₀.mevOps
  swaps : s.swaps = s₀.swaps
  transfers : s.transfers = s₀.transfers
  txs : s.txs = s₀.txs
  blocks : s.blocks = s₀.blocks
  blocksClassified : s.blocksClassified = s₀.blocksClassified
  rejectedCandidates : s.rejectedCandidates = s₀.rejectedCandidates

/-- No abandoned block closes, replaces or prunes a position that is open inside the window of
    the fork block. -/
def PositionsKept (ix : Indexer ε π ρ) (f : ℕ) (s₀ : Store ρ)
    (abandoned : List (BlockBundle × π)) : Prop :=
  ∀ k r, s₀.jitOpenPositions k = some r → f - ix.jitWindowBlocks ≤ r.openedBlock →
    ∀ b ∈ abandoned, keepsPosition ix.jitWindowBlocks b.1 k r = true

/-- The last time that the abandoned blocks insert an operation of an earlier block again, they
    price it as it was. -/
def OpsKept (ix : Indexer ε π ρ) (s₀ : Store ρ) (abandoned : List (BlockBundle × π)) : Prop :=
  ∀ k row, s₀.mevOps k = some row →
    ∀ r, ((ix.opsAll s₀ abandoned).filter fun r => r.1 = k).getLast? = some r →
      r.2.priced = row.priced

theorem filter_append_filter {α : Type} {l : List α} {g : α → ℕ}
    (h : l.Pairwise fun a b => g a < g b) (f : ℕ) :
    (l.filter fun a => g a < f) ++ (l.filter fun a => f ≤ g a) = l := by
  induction l with
  | nil => rfl
  | cons a l ih =>
    obtain ⟨ha, hl⟩ := List.pairwise_cons.mp h
    by_cases hf : g a < f
    · rw [List.filter_cons_of_pos (by simpa using hf),
        List.filter_cons_of_neg (by simpa using hf), List.cons_append, ih hl]
    · have hnone : l.filter (fun b => g b < f) = [] :=
        List.filter_eq_nil_iff.mpr fun b hb => by
          have := ha b hb
          simp
          omega
      have hall : l.filter (fun b => f ≤ g b) = l :=
        List.filter_eq_self.mpr fun b hb => by
          have := ha b hb
          simp
          omega
      rw [List.filter_cons_of_neg (by simpa using hf),
        List.filter_cons_of_pos (by simpa using hf), hnone, hall, List.nil_append]

theorem below_indexAll {blocks : List (BlockBundle × π)} (h : Below f s)
    (hblocks : ∀ b ∈ blocks, b.1.blockNumber < f) : Below f (ix.indexAll s blocks) := by
  induction blocks generalizing s with
  | nil => exact h
  | cons b blocks ih =>
    exact ih (below_indexBlock h (hblocks b (by simp)) b.2)
      fun c hc => hblocks c (List.mem_cons_of_mem _ hc)

/-- What passes a second filter passes the first one. -/
theorem filter_filter_eq_iff {α : Type} {o : Option α} {p q : α → Bool} :
    (o.filter p).filter q = o.filter q ↔ ∀ a, o = some a → q a = true → p a = true := by
  cases o with
  | none => simp
  | some a => cases hp : p a <;> cases hq : q a <;> simp [Option.filter_some, hp, hq]

/-- The open positions inside a window are as they were exactly when those are kept. -/
theorem openPositions_filter_iff {t : PositionTable} {keep : PositionKey → OpenRow → Bool}
    {start : ℕ} :
    PositionTable.openPositions (fun k => (t k).filter (keep k)) start = t.openPositions start ↔
      ∀ k r, t k = some r → start ≤ r.openedBlock → keep k r = true := by
  rw [funext_iff]
  refine forall_congr' fun k => ?_
  unfold PositionTable.openPositions
  rw [filter_filter_eq_iff]
  simp only [decide_eq_true_eq]

/-- An operation is as it was exactly when the last insert prices it so. -/
theorem map_revise_eq_iff {o : Option (MevOpRow ρ)} {rows : List (MevOpRow ρ)} :
    (o.map fun row => rows.foldl Store.revise row) = o ↔
      ∀ row, o = some row → ∀ r, rows.getLast? = some r → r.priced = row.priced := by
  cases o with
  | none => simp
  | some row =>
    rw [Option.map_some, Option.some.injEq, foldl_revise]
    cases hlast : rows.getLast? with
    | none => simp
    | some r =>
      constructor
      · rintro h _ ⟨⟩ _ ⟨⟩
        have hpriced := congrArg MevOpRow.priced h
        exact hpriced
      · intro h
        have hpriced := h row rfl r rfl
        simp [hpriced]

/-- **Main theorem.** A store that was built by indexing blocks in ascending order is restored by
    an unwind from `f`, to what indexing the blocks below `f` leaves, exactly when the abandoned
    blocks keep the open positions and the operations of earlier blocks. -/
theorem unwind_iff (ix : Indexer ε π ρ) (f : ℕ) (blocks : List (BlockBundle × π))
    (h : blocks.Pairwise fun a b => a.1.blockNumber < b.1.blockNumber) :
    Restored ix f ((ix.indexAll {} blocks).unwindFrom f)
        (ix.indexAll {} (blocks.filter fun b => b.1.blockNumber < f)) ↔
      PositionsKept ix f (ix.indexAll {} (blocks.filter fun b => b.1.blockNumber < f))
          (blocks.filter fun b => f ≤ b.1.blockNumber) ∧
        OpsKept ix (ix.indexAll {} (blocks.filter fun b => b.1.blockNumber < f))
          (blocks.filter fun b => f ≤ b.1.blockNumber) := by
  have hsplit := filter_append_filter h f
  have hbelow : Below f (ix.indexAll {} (blocks.filter fun b => b.1.blockNumber < f)) :=
    below_indexAll ⟨by simp, by simp, by simp, by simp, by simp, by simp, by simp, by simp,
      by simp, by simp⟩ fun b hb => by simpa using (List.mem_filter.mp hb).2
  have hrun : ix.indexAll {} blocks =
      ix.indexAll (ix.indexAll {} (blocks.filter fun b => b.1.blockNumber < f))
        (blocks.filter fun b => f ≤ b.1.blockNumber) := by
    conv_lhs => rw [← hsplit]
    exact List.foldl_append
  generalize ix.indexAll {} (blocks.filter fun b => b.1.blockNumber < f) = s₀ at hbelow hrun ⊢
  have hge : ∀ b ∈ blocks.filter fun b => f ≤ b.1.blockNumber, f ≤ b.1.blockNumber :=
    fun b hb => by simpa using (List.mem_filter.mp hb).2
  have hnew : ∀ b ∈ blocks.filter fun b => f ≤ b.1.blockNumber,
      s₀.blocksClassified b.1.blockNumber = none := fun b hb => by
    by_contra hne
    obtain ⟨row, hrow⟩ := Option.ne_none_iff_exists'.mp hne
    have hlt := hbelow.blocksClassified _ _ hrow
    have := hge b hb
    omega
  rw [hrun, unwind_indexAll hge (h.filter _) hnew, hbelow.unwindFrom_eq]
  generalize blocks.filter (fun b => f ≤ b.1.blockNumber) = abandoned
  have hpositions : _ ↔ PositionsKept ix f s₀ abandoned :=
    openPositions_filter_iff.trans
      (forall₄_congr fun k r _ _ => List.all_eq_true)
  have hops : (fun k => (s₀.mevOps k).map fun row =>
      (((ix.opsAll s₀ abandoned).filter fun r => r.1 = k).map Prod.snd).foldl
        Store.revise row) = s₀.mevOps ↔ OpsKept ix s₀ abandoned := by
    rw [funext_iff]
    refine forall_congr' fun k => map_revise_eq_iff.trans ?_
    simp only [List.getLast?_map, Option.map_eq_some_iff, forall_exists_index, and_imp,
      forall_apply_eq_imp_iff₂]
  constructor
  · intro hrestored
    exact ⟨hpositions.mp (congrArg Lookback.openPositions hrestored.lookback),
      hops.mp hrestored.mevOps⟩
  · rintro ⟨hkept, hpriced⟩
    refine ⟨?_, hops.mpr hpriced, rfl, rfl, rfl, rfl, rfl, rfl⟩
    unfold Store.lookback
    congr 1
    exact hpositions.mpr hkept

/-- A block without transactions. -/
def emptyBundle (blockNumber : ℕ) : BlockBundle := { blockNumber, header := ⟨0, 0, 0⟩ }

theorem unwind_empty_block :
    Restored exampleIndexer 2
      ((exampleIndexer.indexAll {} [(positionBundle 1 true, ()), (emptyBundle 2, ())]).unwindFrom 2)
      (exampleIndexer.indexAll {}
        ([(positionBundle 1 true, ()), (emptyBundle 2, ())].filter fun b =>
          b.1.blockNumber < 2)) := by
  refine (unwind_iff exampleIndexer 2 [(positionBundle 1 true, ()), (emptyBundle 2, ())]
    (by decide)).mpr ⟨fun k r _ _ b hb => ?_, fun k row hrow => by cases hrow⟩
  obtain rfl : b = (emptyBundle 2, ()) := List.mem_singleton.mp hb
  rfl

/-- Block 2 burns the position of block 1, and the unwind of block 2 does not bring it back. -/
theorem closed_position_lost :
    ¬ Restored exampleIndexer 2
      ((exampleIndexer.indexAll {}
        [(positionBundle 1 true, ()), (positionBundle 2 false, ())]).unwindFrom 2)
      (exampleIndexer.indexAll {}
        ([(positionBundle 1 true, ()), (positionBundle 2 false, ())].filter fun b =>
          b.1.blockNumber < 2)) := by
  intro h
  have hrow := congrFun (congrArg Lookback.openPositions h.lookback) ⟨2, 3, -60, 60⟩
  revert hrow
  decide

end MevScout.Explorer
