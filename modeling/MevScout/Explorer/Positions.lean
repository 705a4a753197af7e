import MevScout.Common.Run
import MevScout.Common.Table
import MevScout.Explorer.Types

/-!
# Open positions

Models of `persist_jit_positions` (`core/src/explorer/ingest.rs`) and of the table
`jit_open_positions` behind it (`core/src/explorer/store/jit_positions.rs`): a Mint writes a
row, every Burn of the same position deletes it. A row is found by its position, so the table
is a function.

`replay` says what is open: it follows the facts in the order of their logs and keeps the
liquidity that is minted and not burned.

Results:
* `persist_apply`, `openPositions_persist`: what a block leaves of a row;
* `agrees_step_iff`: when a block keeps the rows inside the window equal to the replay;
* `rows_eq_replay`: the rows of a run whose blocks all do;
* `partial_burn_closes`: a run that forgets a position that is still open.
-/

namespace MevScout.Explorer

/-! ## The table -/

/-- The key of a position. -/
structure PositionKey where
  pool : Address
  owner : Address
  tickLower : ℤ
  tickUpper : ℤ
  deriving DecidableEq

/-- The other columns of a row of `jit_open_positions`. -/
structure OpenRow where
  openedBlock : ℕ
  liquidity : ℕ
  deriving DecidableEq

/-- The table `jit_open_positions` by its key. -/
abbrev PositionTable := Table PositionKey OpenRow

/-- The position of a fact. -/
def JitFact.key (j : JitFact) : PositionKey := ⟨j.pool, j.owner, j.tickLower, j.tickUpper⟩

namespace PositionTable

/-- Model of `record_jit_open` (`jit_positions.rs`, lines 199–222). -/
def recordJitOpen (t : PositionTable) (positions : List (PositionKey × OpenRow)) : PositionTable :=
  Table.orReplace t positions

/-- Model of `close_jit_positions` (`jit_positions.rs`, lines 225–249). -/
def closeJitPositions (t : PositionTable) (closes : List PositionKey) : PositionTable := fun k =>
  if k ∈ closes then none else t k

/-- Model of `prune_jit_positions` (`jit_positions.rs`, lines 319–325). -/
def pruneJitPositions (t : PositionTable) (beforeBlock : ℕ) : PositionTable := fun k =>
  (t k).filter fun r => beforeBlock ≤ r.openedBlock

/-- Model of `open_positions` (`jit_positions.rs`, lines 275–317). -/
def openPositions (t : PositionTable) (minBlock : ℕ) : PositionTable := fun k =>
  (t k).filter fun r => minBlock ≤ r.openedBlock

end PositionTable

/-! ## Persisting a block -/

/-- The positions that a transaction opens: its Mints, without those it burns itself
    (`ingest.rs`, lines 645–661). -/
def opensOf (blockNumber : ℕ) (t : TxInput) : List (PositionKey × OpenRow) :=
  let burned := (t.jit.filter fun j => !j.isMint).map JitFact.key
  ((t.jit.filter fun j => j.isMint).filter fun j => j.key ∉ burned).map fun j =>
    (j.key, { openedBlock := blockNumber, liquidity := j.liquidity })

/-- The positions that a transaction closes (`ingest.rs`, lines 662–664). -/
def closesOf (t : TxInput) : List PositionKey := (t.jit.filter fun j => !j.isMint).map JitFact.key

/-- Model of `persist_jit_positions` (`ingest.rs`, lines 635–677). -/
def persistJitPositions (table : PositionTable) (blockNumber : ℕ) (txs : List TxInput)
    (jitWindowBlocks : ℕ) : PositionTable :=
  let opens := txs.flatMap (opensOf blockNumber)
  let closes := txs.flatMap closesOf
  if opens = [] ∧ closes = [] then table
  else
    ((table.recordJitOpen opens).closeJitPositions closes).pruneJitPositions
      (blockNumber - jitWindowBlocks)

/-! ## Replay -/

/-- What a fact leaves of its position, which is `none` while it is not open. -/
def replayRow (blockNumber : ℕ) (row : Option OpenRow) (j : JitFact) : Option OpenRow :=
  match row, j.isMint with
  | none, true => if j.liquidity = 0 then none else some ⟨blockNumber, j.liquidity⟩
  | some r, true => some { r with liquidity := r.liquidity + j.liquidity }
  | none, false => none
  | some r, false =>
    if r.liquidity ≤ j.liquidity then none
    else some { r with liquidity := r.liquidity - j.liquidity }

/-- A fact moves its own position only. -/
def replayFact (blockNumber : ℕ) (s : PositionTable) (j : JitFact) : PositionTable :=
  Function.update s j.key (replayRow blockNumber (s j.key) j)

/-- A block as the run meets it: its number and its transactions. -/
abbrev JitBlock := ℕ × List TxInput

/-- The facts of a block in the order of their logs. -/
def JitBlock.facts (b : JitBlock) : List JitFact := b.2.flatMap TxInput.jit

/-- The facts of a block on one position. -/
def JitBlock.factsOf (b : JitBlock) (k : PositionKey) : List JitFact :=
  b.facts.filter fun j => j.key = k

/-- What the facts of a block leave open. -/
def replayBlock (s : PositionTable) (b : JitBlock) : PositionTable :=
  b.facts.foldl (replayFact b.1) s

/-- What a run leaves open. -/
def replay (blocks : List JitBlock) : PositionTable := blocks.foldl replayBlock fun _ => none

/-- The table after a run. -/
def persisted (window : ℕ) (blocks : List JitBlock) : PositionTable :=
  blocks.foldl (fun t b => persistJitPositions t b.1 b.2 window) fun _ => none

/-! ## What a block leaves of a row -/

variable {window : ℕ} {t s : PositionTable} {b : JitBlock} {k : PositionKey}

theorem mem_closes : k ∈ b.2.flatMap closesOf ↔ ∃ j ∈ b.factsOf k, j.isMint = false := by
  simp only [closesOf, List.mem_flatMap, List.mem_map, List.mem_filter, JitBlock.factsOf,
    JitBlock.facts, Bool.not_eq_true', decide_eq_true_eq]
  constructor
  · rintro ⟨x, hx, j, ⟨hj, hmint⟩, hk⟩
    exact ⟨j, ⟨⟨x, hx, hj⟩, hk⟩, hmint⟩
  · rintro ⟨j, ⟨⟨x, hx, hj⟩, hk⟩, hmint⟩
    exact ⟨x, hx, j, ⟨hj, hmint⟩, hk⟩

/-- Where no Burn meets a position, its Mints are the rows that are written. -/
theorem filter_opens (h : ∀ j ∈ b.factsOf k, j.isMint = true) :
    (b.2.flatMap (opensOf b.1)).filter (fun p => p.1 = k) =
      (b.factsOf k).map fun j => (k, ⟨b.1, j.liquidity⟩) := by
  have hstep : ∀ x ∈ b.2, (opensOf b.1 x).filter (fun p => p.1 = k) =
      (x.jit.filter fun j => j.key = k).map fun j => (k, ⟨b.1, j.liquidity⟩) := by
    intro x hx
    have hmem : ∀ j ∈ x.jit, j.key = k → j.isMint = true := fun j hj hk =>
      h j (List.mem_filter.mpr ⟨List.mem_flatMap.mpr ⟨x, hx, hj⟩, by simpa using hk⟩)
    rw [opensOf, List.filter_map, List.filter_filter, List.filter_filter]
    have hfilter : x.jit.filter (fun j => ((fun p : PositionKey × OpenRow => decide (p.1 = k)) ∘
        fun j => (j.key, ⟨b.1, j.liquidity⟩)) j &&
        decide (j.key ∉ (x.jit.filter fun j => !j.isMint).map JitFact.key) && j.isMint) =
        x.jit.filter fun j => j.key = k := by
      refine List.filter_congr fun j hj => ?_
      rw [Function.comp_apply]
      by_cases hk : j.key = k
      · have hburned : j.key ∉ (x.jit.filter fun j => !j.isMint).map JitFact.key := by
          rintro hb
          obtain ⟨j', hj', hk'⟩ := List.mem_map.mp hb
          obtain ⟨hj', hmint⟩ := List.mem_filter.mp hj'
          simp [hmem j' hj' (hk'.trans hk)] at hmint
        simp only [hk, hmem j hj hk, decide_true, Bool.true_and, Bool.and_true, decide_eq_true_eq]
        rwa [hk] at hburned
      · simp [hk]
    rw [hfilter]
    refine List.map_congr_left fun j hj => ?_
    rw [(by simpa using (List.mem_filter.mp hj).2 : j.key = k)]
  rw [JitBlock.factsOf, JitBlock.facts, List.filter_flatMap, List.filter_flatMap, List.map_flatMap]
  exact List.flatMap_congr hstep

/-- A block writes no row exactly when it has no fact. -/
theorem opens_closes_eq_nil :
    b.2.flatMap (opensOf b.1) = [] ∧ b.2.flatMap closesOf = [] ↔ b.facts = [] := by
  simp only [JitBlock.facts, List.flatMap_eq_nil_iff]
  constructor
  · rintro ⟨hopens, hcloses⟩ x hx
    refine List.eq_nil_iff_forall_not_mem.mpr fun j hj => ?_
    have hnone : (x.jit.filter fun j => !j.isMint).map JitFact.key = [] := hcloses x hx
    cases hmint : j.isMint with
    | false =>
      have hmem : j.key ∈ (x.jit.filter fun j => !j.isMint).map JitFact.key :=
        List.mem_map_of_mem (List.mem_filter.mpr ⟨hj, by simp [hmint]⟩)
      simp [hnone] at hmem
    | true =>
      have hopen := hopens x hx
      rw [opensOf, hnone, List.map_eq_nil_iff, List.filter_eq_nil_iff] at hopen
      exact hopen j (List.mem_filter.mpr ⟨hj, hmint⟩) (by simp)
  · intro h
    exact ⟨fun x hx => by simp [opensOf, h x hx], fun x hx => by simp [closesOf, h x hx]⟩

/-- What a block leaves of a row: what was there if it has no fact at all, and else nothing if it
    burns any of the position, the last Mint if it only mints, and what was there if it does
    neither, unless it is outside the window. -/
theorem persist_apply :
    persistJitPositions t b.1 b.2 window k =
      if b.facts = [] then t k
      else if ∃ j ∈ b.factsOf k, j.isMint = false then none
      else (((b.factsOf k).getLast?.map fun j => ⟨b.1, j.liquidity⟩).or (t k)).filter
        fun r => b.1 - window ≤ r.openedBlock := by
  unfold persistJitPositions
  by_cases hfacts : b.facts = []
  · rw [if_pos (opens_closes_eq_nil.mpr hfacts), if_pos hfacts]
  rw [if_neg (mt opens_closes_eq_nil.mp hfacts), if_neg hfacts,
    PositionTable.pruneJitPositions, PositionTable.closeJitPositions]
  by_cases hburn : ∃ j ∈ b.factsOf k, j.isMint = false
  · rw [if_pos hburn, if_pos (mem_closes.mpr hburn)]
    rfl
  · rw [if_neg hburn, if_neg (mt mem_closes.mp hburn), PositionTable.recordJitOpen,
      Table.orReplace_apply, filter_opens]
    · rw [List.getLast?_map, Option.map_map]
      rfl
    · push Not at hburn
      exact fun j hj => by simpa using hburn j hj

/-- What a block leaves of a row inside the window: nothing if it burns any of the position,
    the last Mint if it only mints, and else what was there. -/
theorem openPositions_persist :
    PositionTable.openPositions (persistJitPositions t b.1 b.2 window) (b.1 - window) k =
      if ∃ j ∈ b.factsOf k, j.isMint = false then none
      else (((b.factsOf k).getLast?.map fun j => ⟨b.1, j.liquidity⟩).or (t k)).filter
        fun r => b.1 - window ≤ r.openedBlock := by
  rw [PositionTable.openPositions, persist_apply]
  split_ifs with hfacts hburn hburn
  · obtain ⟨j, hj, -⟩ := hburn
    simp [JitBlock.factsOf, hfacts] at hj
  · simp [JitBlock.factsOf, hfacts]
  · rfl
  · simp [Option.filter_filter]

/-! ## What the replay leaves of a row -/

/-- The replay of the facts on a position is the replay of its row. -/
theorem replayBlock_apply :
    replayBlock s b k = (b.factsOf k).foldl (replayRow b.1) (s k) := by
  unfold replayBlock JitBlock.factsOf
  induction b.facts generalizing s with
  | nil => rfl
  | cons j l ih =>
    rw [List.foldl_cons, ih, replayFact]
    by_cases hk : j.key = k
    · subst hk
      simp
    · rw [Function.update_of_ne (Ne.symm hk), List.filter_cons_of_neg (by simpa using hk)]

/-- Mints of a position that is not open add up. -/
theorem foldl_replayRow_mints {l : List JitFact} (h : ∀ j ∈ l, j.isMint = true) (n : ℕ) :
    l.foldl (replayRow n) none =
      if (l.map JitFact.liquidity).sum = 0 then none
      else some ⟨n, (l.map JitFact.liquidity).sum⟩ := by
  induction l using List.reverseRecOn with
  | nil => rfl
  | append_singleton l j ih =>
    have hj : j.isMint = true := h j (by simp)
    rw [List.foldl_append, ih fun i hi => h i (List.mem_append_left _ hi), List.foldl_cons,
      List.foldl_nil, List.map_append, List.sum_append, List.map_singleton, List.sum_singleton]
    by_cases hsum : (l.map JitFact.liquidity).sum = 0
    · rw [if_pos hsum, hsum, Nat.zero_add]
      simp only [replayRow, hj]
    · rw [if_neg hsum, if_neg (by omega)]
      simp only [replayRow, hj]

/-- Mints leave a position that is open open since its block. -/
theorem foldl_replayRow_open {l : List JitFact} (h : ∀ j ∈ l, j.isMint = true) (n : ℕ)
    (r : OpenRow) : ∃ r', l.foldl (replayRow n) (some r) = some r' ∧
      r'.openedBlock = r.openedBlock := by
  induction l generalizing r with
  | nil => exact ⟨r, rfl, rfl⟩
  | cons j l ih =>
    have hj : j.isMint = true := h j (by simp)
    obtain ⟨r', hr', hopened⟩ := ih (fun i hi => h i (List.mem_cons_of_mem _ hi))
      { r with liquidity := r.liquidity + j.liquidity }
    refine ⟨r', ?_, hopened⟩
    rw [List.foldl_cons, ← hr']
    simp only [replayRow, hj]

/-! ## Blocks that keep the rows -/

/-- The rows inside the window of a block are the positions that the replay leaves open. -/
def Agrees (window : ℕ) (n : ℕ) (t s : PositionTable) : Prop :=
  PositionTable.openPositions t (n - window) = PositionTable.openPositions s (n - window)

/-- The block only mints the position, which is not open, and its last Mint is all it mints; or
    it burns of the position and leaves nothing of it open inside the window. -/
def TrackedAt (window : ℕ) (s : PositionTable) (b : JitBlock) (k : PositionKey) : Prop :=
  if ∃ j ∈ b.factsOf k, j.isMint = false then
    ∀ r, (b.factsOf k).foldl (replayRow b.1) (s k) = some r → r.openedBlock < b.1 - window
  else
    ∀ j, (b.factsOf k).getLast? = some j →
      s k = none ∧ 0 < j.liquidity ∧ ((b.factsOf k).map JitFact.liquidity).sum = j.liquidity

/-- The block meets the condition at every position. -/
def Tracked (window : ℕ) (s : PositionTable) (b : JitBlock) : Prop := ∀ k, TrackedAt window s b k

/-- A block keeps the rows inside the window equal to the replay exactly when it meets the
    condition, if the positions that the replay has open were opened before it. -/
theorem agrees_step_iff (h : Agrees window b.1 t s)
    (hopen : ∀ k r, s k = some r → r.openedBlock < b.1) :
    Agrees window b.1 (persistJitPositions t b.1 b.2 window) (replayBlock s b) ↔
      Tracked window s b := by
  unfold Agrees
  rw [funext_iff]
  refine forall_congr' fun k => ?_
  have hk : (t k).filter (fun r => b.1 - window ≤ r.openedBlock) =
      (s k).filter fun r => b.1 - window ≤ r.openedBlock := congrFun h k
  rw [openPositions_persist, PositionTable.openPositions, replayBlock_apply, TrackedAt]
  split_ifs with hburn
  · -- a Burn deletes the row
    rw [eq_comm, Option.filter_eq_none_iff]
    refine forall_congr' fun r => forall_congr' fun _ => ?_
    rw [decide_eq_true_eq, Nat.not_le]
  · push Not at hburn
    have hmint : ∀ j ∈ b.factsOf k, j.isMint = true := fun j hj => by simpa using hburn j hj
    cases hlast : (b.factsOf k).getLast? with
    | none =>
      rw [List.getLast?_eq_none_iff] at hlast
      rw [hlast]
      simpa using hk
    | some j =>
      rw [Option.map_some, Option.some_or, Option.filter_some_pos (by simp)]
      simp only [Option.some.injEq, forall_eq']
      cases hs : s k with
      | none =>
        rw [foldl_replayRow_mints hmint]
        split_ifs with hsum
        · rw [Option.filter_none]
          simp only [reduceCtorEq, true_and, false_iff]
          omega
        · rw [Option.filter_some_pos (by simp)]
          simp only [Option.some.injEq, OpenRow.mk.injEq, true_and]
          omega
      | some r =>
        -- the replay keeps the block that opened the position
        obtain ⟨r', hr', hopened⟩ := foldl_replayRow_open hmint b.1 r
        rw [hr']
        simp only [reduceCtorEq, false_and, iff_false]
        intro heq
        have hrow : r' = ⟨b.1, j.liquidity⟩ :=
          Option.some.inj (Option.filter_eq_some_iff.mp heq.symm).1
        have hlt : r.openedBlock < b.1 := hopen k r hs
        rw [← hopened, hrow] at hlt
        exact lt_irrefl _ hlt

/-! ## Runs -/

/-- A fact leaves a position open since its block or since before. -/
theorem replayRow_opened {n : ℕ} {row : Option OpenRow} {j : JitFact} {r : OpenRow}
    (h : replayRow n row j = some r) :
    r.openedBlock = n ∨ ∃ r₀, row = some r₀ ∧ r.openedBlock = r₀.openedBlock := by
  unfold replayRow at h
  split at h
  · split_ifs at h
    exact .inl (by rw [← Option.some.inj h])
  · exact .inr ⟨_, rfl, by rw [← Option.some.inj h]⟩
  · cases h
  · split_ifs at h
    exact .inr ⟨_, rfl, by rw [← Option.some.inj h]⟩

theorem foldl_replayRow_opened {n : ℕ} {l : List JitFact} {row : Option OpenRow} {r : OpenRow}
    (h : l.foldl (replayRow n) row = some r) :
    r.openedBlock = n ∨ ∃ r₀, row = some r₀ ∧ r.openedBlock = r₀.openedBlock := by
  induction l generalizing row with
  | nil => exact .inr ⟨r, h, rfl⟩
  | cons j l ih =>
    rcases ih h with hn | ⟨r₁, hr₁, hopened⟩
    · exact .inl hn
    · rw [hopened]
      exact replayRow_opened hr₁

/-- What a run leaves open was opened by one of its blocks. -/
theorem replay_opened {blocks : List JitBlock} {r : OpenRow} (h : replay blocks k = some r) :
    ∃ b ∈ blocks, r.openedBlock = b.1 := by
  induction blocks using List.reverseRecOn generalizing r with
  | nil => cases h
  | append_singleton blocks b ih =>
    have hblock : replayBlock (replay blocks) b k = some r := by
      rw [← h, replay, replay, List.foldl_append, List.foldl_cons, List.foldl_nil]
    rw [replayBlock_apply] at hblock
    rcases foldl_replayRow_opened hblock with hr | ⟨r₀, hr₀, hr⟩
    · exact ⟨b, by simp, hr⟩
    · obtain ⟨b', hb', hr'⟩ := ih hr₀
      exact ⟨b', List.mem_append_left _ hb', hr.trans hr'⟩

/-- Rows that agree inside a window agree inside a later one. -/
theorem Agrees.mono {m n : ℕ} (h : Agrees window m t s) (hmn : m ≤ n) : Agrees window n t s := by
  have hlater : ∀ u : PositionTable, u.openPositions (n - window) =
      (u.openPositions (m - window)).openPositions (n - window) := by
    intro u
    funext k
    have hsel : (fun r : OpenRow => decide (n - window ≤ r.openedBlock)) =
        fun r => decide (m - window ≤ r.openedBlock) && decide (n - window ≤ r.openedBlock) := by
      funext r
      rw [← Bool.decide_and]
      exact decide_eq_decide.mpr ⟨fun hr => ⟨by omega, hr⟩, And.right⟩
    simp only [PositionTable.openPositions, Option.filter_filter]
    rw [hsel]
  unfold Agrees at h ⊢
  rw [hlater t, hlater s, h]

/-- **Main theorem.** In a run of blocks in ascending order, the rows inside the window are after
    every block the positions that the replay leaves open, exactly when every block meets the
    condition. -/
theorem rows_eq_replay {blocks : List JitBlock} (h : blocks.Pairwise fun a b => a.1 < b.1) :
    (∀ pre b, pre ++ [b] <+: blocks →
      Agrees window b.1 (persisted window (pre ++ [b])) (replay (pre ++ [b]))) ↔
    ∀ pre b, pre ++ [b] <+: blocks → Tracked window (replay pre) b := by
  induction blocks using List.reverseRecOn with
  | nil => simp
  | append_singleton blocks b ih =>
    obtain ⟨hblocks, -, hlast⟩ := List.pairwise_append.mp h
    rw [forall_prefix_concat, forall_prefix_concat, ih hblocks]
    refine and_congr_right fun hmeets => ?_
    have hrun := (ih hblocks).mpr hmeets
    -- the rows before the block agree inside its window
    have hbefore : Agrees window b.1 (persisted window blocks) (replay blocks) := by
      cases blocks using List.reverseRecOn with
      | nil => rfl
      | append_singleton before c _ =>
        exact (hrun before c List.prefix_rfl).mono (hlast c (by simp) b (by simp)).le
    have hopen : ∀ k r, replay blocks k = some r → r.openedBlock < b.1 := by
      intro k r hr
      obtain ⟨c, hc, hopened⟩ := replay_opened hr
      rw [hopened]
      exact hlast c hc b (by simp)
    have hstep := agrees_step_iff hbefore hopen
    rwa [persisted, List.foldl_append, replay, List.foldl_append]

/-- A transaction whose only fact is a Mint or a Burn of one position. -/
def positionTx (isMint : Bool) (liquidity : ℕ) : TxInput :=
  { txIndex := 0, sender := 1,
    jit := [{ pool := 2, owner := 3, tickLower := -60, tickUpper := 60, isMint, liquidity }] }

theorem rows_eq_replay_mint_burn :
    (∀ pre b, pre ++ [b] <+: [(1, [positionTx true 10]), (2, [positionTx false 10])] →
      Agrees 100 b.1 (persisted 100 (pre ++ [b])) (replay (pre ++ [b]))) ↔
    ∀ pre b, pre ++ [b] <+: [(1, [positionTx true 10]), (2, [positionTx false 10])] →
      Tracked 100 (replay pre) b :=
  rows_eq_replay (by decide)

/-- A Burn of 4 out of 10 deletes the row, and the replay leaves 6. -/
theorem partial_burn_closes :
    ¬ Agrees 100 2 (persisted 100 [(1, [positionTx true 10]), (2, [positionTx false 4])])
      (replay [(1, [positionTx true 10]), (2, [positionTx false 4])]) := by
  intro h
  have hrow := congrFun h ⟨2, 3, -60, 60⟩
  revert hrow
  decide

end MevScout.Explorer
