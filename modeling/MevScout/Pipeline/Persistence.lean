import MevScout.Paper.Types
import MevScout.Common.Int

/-!
# Persistence of opportunities

`update_persistence` (`core/src/pipeline/runner.rs`) counts for every opportunity in how many
consecutive blocks it has been seen. Its table holds the last block and the length of the streak
that ends there, and forgets what it has not seen for a while. The numbers of the blocks are `u64`
and the lengths `u32`, in a build whose operators wrap.

Results:
* `IsStreak.unique`: a streak has one length;
* `Tracks.retain`, `Tracks.sight`: the table is right after the pruning, and after each
  opportunity;
* `blocksSeen_isStreak`: it holds the streaks of the history where no block is among the last of
  the type and no streak is too long;
* `streak_lost_at_wrap`: two of the last blocks of the type.
-/

namespace MevScout.Pipeline

open Paper

/-! ## The model -/

/-- Model of `PersistenceKey` (`runner.rs`, lines 38–45). -/
structure PersistenceKey where
  strategy : Strategy
  poolA : Address
  poolB : Address
  tokenIn : Address
  tokenOut : Address
  deriving DecidableEq

/-- Model of `PersistInfo` (`runner.rs`, lines 47–51). -/
structure PersistInfo where
  lastBlock : ℕ
  blocksSeen : ℕ
  deriving DecidableEq

/-- `PERSISTENCE_GRACE_BLOCKS` (`runner.rs`, line 30). -/
def persistenceGraceBlocks : ℕ := 5

/-- The map of `update_persistence`. -/
abbrev PersistTable := PersistenceKey → Option PersistInfo

/-- The key of an opportunity (`runner.rs`, lines 1163–1169). -/
def persistenceKey (opp : MevOpportunity) : PersistenceKey :=
  ⟨opp.strategy, opp.poolA, opp.poolB, opp.tokenIn, opp.tokenOut⟩

/-- The pruning (`runner.rs`, line 1160). -/
def PersistTable.retain (table : PersistTable) (blockNum : ℕ) : PersistTable := fun key =>
  (table key).filter fun info => blockNum ≤ wrappingAdd 64 info.lastBlock persistenceGraceBlocks

/-- `blocks_seen` of an opportunity (`runner.rs`, lines 1170–1189). -/
def PersistTable.blocksSeen (table : PersistTable) (blockNum : ℕ) (key : PersistenceKey) : ℕ :=
  match table key with
  | some info =>
    if info.lastBlock = blockNum then info.blocksSeen
    else if wrappingAdd 64 info.lastBlock 1 = blockNum then wrappingAdd 32 info.blocksSeen 1
    else 1
  | none => 1

/-- The table after an opportunity: an entry of this block stays as it is. -/
def PersistTable.sight (table : PersistTable) (blockNum : ℕ) (key : PersistenceKey) :
    PersistTable :=
  Function.update table key (some ⟨blockNum, table.blocksSeen blockNum key⟩)

@[simp] theorem PersistTable.sight_self (table : PersistTable) (b : ℕ) (key : PersistenceKey) :
    table.sight b key key = some ⟨b, table.blocksSeen b key⟩ :=
  Function.update_self ..

theorem PersistTable.sight_of_ne {table : PersistTable} {b : ℕ} {key k : PersistenceKey}
    (h : k ≠ key) : table.sight b key k = table k :=
  Function.update_of_ne h ..

/-- One turn of the loop: the table, and what the confidences decay by. -/
def persistStep (blockNum : ℕ) (st : PersistTable × List ℕ) (opp : MevOpportunity) :
    PersistTable × List ℕ :=
  (st.1.sight blockNum (persistenceKey opp),
    st.2 ++ [st.1.blocksSeen blockNum (persistenceKey opp)])

/-- Model of `update_persistence` (`runner.rs`, lines 1154–1194), with `blocks_seen` in the place
    of the confidence that it gives. -/
def updatePersistence (table : PersistTable) (opps : List MevOpportunity) (blockNum : ℕ) :
    PersistTable × List ℕ :=
  opps.foldl (persistStep blockNum) (table.retain blockNum, [])

/-- The table after some blocks and what they emitted. -/
def runPersistence (history : List (ℕ × List MevOpportunity)) : PersistTable :=
  history.foldl (fun table block => (updatePersistence table block.2 block.1).1) fun _ => none

/-! ## Streaks -/

/-- The maximal run of consecutive blocks ending at `b` in which something was seen has length
    `n`. -/
structure IsStreak (seen : ℕ → Prop) (b n : ℕ) : Prop where
  run : ∀ i < n, seen (b - i)
  le : n ≤ b + 1
  maximal : n ≤ b → ¬seen (b - n)

section Streak

variable {seen seen' : ℕ → Prop} {b n m : ℕ}

theorem IsStreak.unique (hn : IsStreak seen b n) (hm : IsStreak seen b m) : n = m := by
  by_contra hne
  rcases Nat.lt_or_gt_of_ne hne with hlt | hlt
  · exact hn.maximal (by have := hm.le; omega) (hm.run n hlt)
  · exact hm.maximal (by have := hn.le; omega) (hn.run m hlt)

theorem IsStreak.congr (h : IsStreak seen b n) (heq : ∀ c ≤ b, seen c ↔ seen' c) :
    IsStreak seen' b n where
  run i hi := (heq _ (Nat.sub_le ..)).mp (h.run i hi)
  le := h.le
  maximal hle hseen := h.maximal hle ((heq _ (Nat.sub_le ..)).mpr hseen)

/-- A streak that goes on. -/
theorem IsStreak.succ (h : IsStreak seen b n) (hseen : seen (b + 1)) :
    IsStreak seen (b + 1) (n + 1) where
  run i hi := by
    rcases i with _ | i
    · exact hseen
    · rw [Nat.add_sub_add_right]
      exact h.run i (by omega)
  le := by have := h.le; omega
  maximal hle := by
    rw [Nat.add_sub_add_right]
    exact h.maximal (by omega)

/-- A streak that begins. -/
theorem isStreak_one (hseen : seen b) (hnot : ∀ c, c + 1 = b → ¬seen c) : IsStreak seen b 1 where
  run i hi := by
    obtain rfl : i = 0 := by omega
    exact hseen
  le := Nat.le_add_left ..
  maximal hle := hnot (b - 1) (by omega)

/-- After a gap a streak has length one. -/
theorem IsStreak.eq_one (h : IsStreak seen b n) (hseen : seen b) (hnot : ∀ c, c + 1 = b → ¬seen c) :
    n = 1 :=
  h.unique (isStreak_one hseen hnot)

end Streak

/-! ## The table follows the streaks -/

/-- The table holds the last streak of every key, except for what was not seen for more than the
    grace window before block `now`. -/
structure Tracks (table : PersistTable) (seen : PersistenceKey → ℕ → Prop) (now : ℕ) : Prop where
  past : ∀ key b, seen key b → b ≤ now
  last : ∀ key info, table key = some info → seen key info.lastBlock ∧
    ∀ b, seen key b → b ≤ info.lastBlock
  streak : ∀ key info, table key = some info →
    IsStreak (seen key) info.lastBlock info.blocksSeen
  absent : ∀ key, table key = none → ∀ b, seen key b → b + persistenceGraceBlocks < now

variable {table : PersistTable} {seen : PersistenceKey → ℕ → Prop} {now b : ℕ}
  {key : PersistenceKey}

theorem tracks_empty : Tracks (fun _ => none) (fun _ _ => False) 0 :=
  ⟨nofun, nofun, nofun, nofun⟩

/-- The pruning forgets only what is out of the grace window. -/
theorem Tracks.retain (h : Tracks table seen now) (hle : now ≤ b)
    (hb : b + persistenceGraceBlocks < 2 ^ 64) : Tracks (table.retain b) seen b where
  past key c hc := (h.past key c hc).trans hle
  last key info hinfo := h.last key info (Option.filter_eq_some_iff.mp hinfo).1
  streak key info hinfo := h.streak key info (Option.filter_eq_some_iff.mp hinfo).1
  absent key hnone c hc := by
    rcases hentry : table key with _ | info
    · have := h.absent key hentry c hc
      omega
    · have hlast := (h.last key info hentry).1
      have hnow := h.past key _ hlast
      have hle := (h.last key info hentry).2 c hc
      have hfit : info.lastBlock + persistenceGraceBlocks < 2 ^ 64 := by omega
      unfold PersistTable.retain at hnone
      rw [hentry, Option.filter_eq_none_iff] at hnone
      have := hnone info rfl
      rw [wrappingAdd_eq hfit, decide_eq_true_eq] at this
      omega

/-- What was seen, with the key of one more opportunity. -/
def AlsoSeen (seen : PersistenceKey → ℕ → Prop) (b : ℕ) (key : PersistenceKey) :
    PersistenceKey → ℕ → Prop :=
  fun k c => seen k c ∨ k = key ∧ c = b

/-- In an earlier block the opportunity adds nothing. -/
theorem alsoSeen_iff {c : ℕ} (hc : c < b) : AlsoSeen seen b key key c ↔ seen key c :=
  or_iff_left fun h => hc.ne h.2

/-- What an opportunity is stamped with is its streak. -/
theorem Tracks.blocksSeen (h : Tracks table seen b) (hb : b + persistenceGraceBlocks < 2 ^ 64)
    (hshort : ∀ n, IsStreak (AlsoSeen seen b key key) b n → n < 2 ^ 32) :
    IsStreak (AlsoSeen seen b key key) b (table.blocksSeen b key) := by
  have hgrace : persistenceGraceBlocks = 5 := rfl
  have hnow : AlsoSeen seen b key key b := .inr ⟨rfl, rfl⟩
  unfold PersistTable.blocksSeen
  rcases hentry : table key with _ | info
  · refine isStreak_one hnow fun c hc hseen => ?_
    have := h.absent key hentry c ((alsoSeen_iff (by omega)).mp hseen)
    omega
  · obtain ⟨hlast, hmax⟩ := h.last key info hentry
    have hle := h.past key _ hlast
    have hstreak := h.streak key info hentry
    have hfit : info.lastBlock + 1 < 2 ^ 64 := by omega
    dsimp only
    rw [wrappingAdd_eq hfit]
    by_cases hsame : info.lastBlock = b
    · rw [if_pos hsame, ← hsame]
      refine hstreak.congr fun c _ => ⟨.inl, fun hc => ?_⟩
      rcases hc with hc | ⟨-, rfl⟩
      · exact hc
      · exact hlast
    · rw [if_neg hsame]
      by_cases hnext : info.lastBlock + 1 = b
      · rw [if_pos hnext]
        have hsucc : IsStreak (AlsoSeen seen b key key) b (info.blocksSeen + 1) := by
          subst hnext
          exact (hstreak.congr fun c hc => (alsoSeen_iff (by omega)).symm).succ hnow
        rw [wrappingAdd_eq (hshort _ hsucc)]
        exact hsucc
      · rw [if_neg hnext]
        refine isStreak_one hnow fun c hc hseen => ?_
        have := hmax c ((alsoSeen_iff (by omega)).mp hseen)
        omega

/-- One opportunity of the current block. -/
theorem Tracks.sight (h : Tracks table seen b) (hb : b + persistenceGraceBlocks < 2 ^ 64)
    (hshort : ∀ n, IsStreak (AlsoSeen seen b key key) b n → n < 2 ^ 32) :
    Tracks (table.sight b key) (AlsoSeen seen b key) b := by
  have hpast : ∀ k c, AlsoSeen seen b key k c → c ≤ b := by
    rintro k c (hc | ⟨-, rfl⟩)
    · exact h.past k c hc
    · exact le_rfl
  have hother : ∀ k, k ≠ key → ∀ c, AlsoSeen seen b key k c ↔ seen k c := by
    intro k hk c
    exact ⟨fun hc => hc.elim id fun hc => absurd hc.1 hk, .inl⟩
  refine ⟨hpast, fun k info hinfo => ?_, fun k info hinfo => ?_, fun k hnone c hc => ?_⟩ <;>
    by_cases hk : k = key
  · subst hk
    obtain rfl := Option.some.inj ((table.sight_self b k).symm.trans hinfo)
    exact ⟨.inr ⟨rfl, rfl⟩, hpast k⟩
  · rw [PersistTable.sight_of_ne hk] at hinfo
    simp only [hother k hk]
    exact h.last k info hinfo
  · subst hk
    obtain rfl := Option.some.inj ((table.sight_self b k).symm.trans hinfo)
    exact h.blocksSeen hb hshort
  · rw [PersistTable.sight_of_ne hk] at hinfo
    exact (h.streak k info hinfo).congr fun c _ => (hother k hk c).symm
  · subst hk
    cases (table.sight_self b k).symm.trans hnone
  · rw [PersistTable.sight_of_ne hk] at hnone
    exact h.absent k hnone c ((hother k hk c).mp hc)

/-! ## Blocks -/

/-- What was seen, with the opportunities of a block. -/
def SeenAfter (seen : PersistenceKey → ℕ → Prop) (b : ℕ) (opps : List MevOpportunity) :
    PersistenceKey → ℕ → Prop :=
  fun key c => seen key c ∨ c = b ∧ ∃ o ∈ opps, persistenceKey o = key

theorem seenAfter_concat (seen : PersistenceKey → ℕ → Prop) (b : ℕ) (opps : List MevOpportunity)
    (o : MevOpportunity) :
    SeenAfter seen b (opps ++ [o]) = AlsoSeen (SeenAfter seen b opps) b (persistenceKey o) := by
  funext key c
  simp only [SeenAfter, AlsoSeen, List.mem_append, List.mem_singleton, or_and_right, exists_or,
    exists_eq_left, and_or_left, or_assoc, eq_iff_iff]
  rw [and_comm (a := c = b) (b := persistenceKey o = key), eq_comm (a := key)]

/-- Of an opportunity of the block, the later ones say nothing new. -/
theorem seenAfter_congr {opps : List MevOpportunity} {o : MevOpportunity} (ho : o ∈ opps)
    (later : List MevOpportunity) (c : ℕ) :
    SeenAfter seen b opps (persistenceKey o) c ↔
      SeenAfter seen b (opps ++ later) (persistenceKey o) c := by
  refine or_congr_right (and_congr_right fun _ => ?_)
  exact iff_of_true ⟨o, ho, rfl⟩ ⟨o, List.mem_append_left _ ho, rfl⟩

/-- The loop over the opportunities of a block. -/
theorem Tracks.foldl (h : Tracks table seen b) (hb : b + persistenceGraceBlocks < 2 ^ 64)
    (opps : List MevOpportunity)
    (hshort : ∀ o ∈ opps, ∀ n, IsStreak (SeenAfter seen b opps (persistenceKey o)) b n →
      n < 2 ^ 32) :
    Tracks (opps.foldl (persistStep b) (table, [])).1 (SeenAfter seen b opps) b ∧
      List.Forall₂ (fun o n => IsStreak (SeenAfter seen b opps (persistenceKey o)) b n) opps
        (opps.foldl (persistStep b) (table, [])).2 := by
  induction opps using List.reverseRecOn with
  | nil =>
    have hseen : SeenAfter seen b [] = seen := by
      funext key c
      simp [SeenAfter]
    exact ⟨by rw [hseen]; exact h, .nil⟩
  | append_singleton opps o ih =>
    have hstep : ∀ o' ∈ opps, ∀ n, IsStreak (SeenAfter seen b opps (persistenceKey o')) b n ↔
        IsStreak (SeenAfter seen b (opps ++ [o]) (persistenceKey o')) b n := by
      intro o' ho' n
      exact ⟨fun hn => hn.congr fun c _ => seenAfter_congr ho' [o] c,
        fun hn => hn.congr fun c _ => (seenAfter_congr ho' [o] c).symm⟩
    obtain ⟨htracks, hstamps⟩ := ih fun o' ho' n hn =>
      hshort o' (List.mem_append_left _ ho') n ((hstep o' ho' n).mp hn)
    have hlast := hshort o (List.mem_append_right _ (List.mem_singleton_self o))
    rw [List.foldl_concat]
    rw [seenAfter_concat] at hlast ⊢
    refine ⟨htracks.sight hb hlast, List.rel_append ?_ ?_⟩
    · obtain ⟨hlength, hstreaks⟩ := List.forall₂_iff_zip.mp hstamps
      refine List.forall₂_iff_zip.mpr ⟨hlength, fun hmem => ?_⟩
      rw [← seenAfter_concat]
      exact (hstep _ (List.of_mem_zip hmem).1 _).mp (hstreaks hmem)
    · exact .cons (htracks.blocksSeen hb hlast) .nil

/-! ## Runs -/

/-- A key was seen in a block of the history. -/
def SeenIn (history : List (ℕ × List MevOpportunity)) (key : PersistenceKey) (c : ℕ) : Prop :=
  ∃ block ∈ history, block.1 = c ∧ ∃ o ∈ block.2, persistenceKey o = key

variable {history : List (ℕ × List MevOpportunity)} {opps : List MevOpportunity}

theorem seenIn_concat (history : List (ℕ × List MevOpportunity)) (b : ℕ)
    (opps : List MevOpportunity) :
    SeenIn (history ++ [(b, opps)]) = SeenAfter (SeenIn history) b opps := by
  funext key c
  simp only [SeenIn, SeenAfter, List.mem_append, List.mem_singleton, or_and_right, exists_or,
    exists_eq_left, eq_comm (a := c) (b := b)]

/-- No key was seen in `2 ^ 32` consecutive blocks. -/
def NoLongStreak (history : List (ℕ × List MevOpportunity)) : Prop :=
  ∀ key c, ∃ i < 2 ^ 32, ¬SeenIn history key (c + i)

theorem NoLongStreak.lt (h : NoLongStreak history) {n : ℕ}
    (hn : IsStreak (SeenIn history key) b n) : n < 2 ^ 32 := by
  by_contra hlong
  obtain ⟨i, hi, hnot⟩ := h key (b + 1 - 2 ^ 32)
  refine hnot ?_
  have hle := hn.le
  have := hn.run (2 ^ 32 - 1 - i) (by omega)
  rwa [show b - (2 ^ 32 - 1 - i) = b + 1 - 2 ^ 32 + i by omega] at this

theorem NoLongStreak.of_append {more : List (ℕ × List MevOpportunity)}
    (h : NoLongStreak (history ++ more)) : NoLongStreak history := by
  intro key c
  obtain ⟨i, hi, hnot⟩ := h key c
  refine ⟨i, hi, fun ⟨block, hblock, hseen⟩ => hnot ⟨block, ?_, hseen⟩⟩
  exact List.mem_append_left _ hblock

theorem runPersistence_concat (history : List (ℕ × List MevOpportunity)) (b : ℕ)
    (opps : List MevOpportunity) :
    runPersistence (history ++ [(b, opps)]) =
      (updatePersistence (runPersistence history) opps b).1 :=
  List.foldl_concat _ _ _ _

/-- The table after a run, at any block that does not come before it. -/
theorem tracks_run (hsorted : (history.map Prod.fst).Pairwise (· ≤ ·))
    (hblocks : ∀ block ∈ history, block.1 + persistenceGraceBlocks < 2 ^ 64)
    (hlong : NoLongStreak history) (hb : ∀ block ∈ history, block.1 ≤ b) :
    ∃ now ≤ b, Tracks (runPersistence history) (SeenIn history) now := by
  induction history using List.reverseRecOn generalizing b with
  | nil =>
    have hseen : SeenIn [] = fun _ _ => False := by
      funext key c
      simp [SeenIn]
    exact ⟨0, Nat.zero_le b, by rw [hseen]; exact tracks_empty⟩
  | append_singleton history block ih =>
    obtain ⟨c, opps⟩ := block
    have hc : (c, opps) ∈ history ++ [(c, opps)] := List.mem_concat_self
    obtain ⟨hsorted, -, hbefore⟩ := List.pairwise_append.mp (List.map_append ▸ hsorted)
    obtain ⟨now, hnow, htracks⟩ := ih hsorted
      (fun block hblock => hblocks block (List.mem_append_left _ hblock)) hlong.of_append
      fun block hblock => hbefore _ (List.mem_map_of_mem hblock) c (List.mem_singleton_self c)
    refine ⟨c, hb _ hc, ?_⟩
    rw [runPersistence_concat, seenIn_concat]
    refine ((htracks.retain hnow (hblocks _ hc)).foldl (hblocks _ hc) opps ?_).1
    intro o _ n hn
    rw [← seenIn_concat] at hn
    exact hlong.lt hn

/-- An opportunity without profit. -/
def seenOpp : MevOpportunity :=
  { blockNumber := 0, txIndex := 0, strategy := .twoHopArb, gasCostWei_lt := noGas_lt }

/-- Two blocks of the same opportunity. -/
def twoBlocks (b : ℕ) : List (ℕ × List MevOpportunity) :=
  [(b, [seenOpp])] ++ [(b + 1, [seenOpp])]

theorem seenIn_twoBlocks {key : PersistenceKey} {c : ℕ} (h : SeenIn (twoBlocks b) key c) :
    c = b ∨ c = b + 1 := by
  obtain ⟨block, hblock, rfl, -⟩ := h
  rcases List.mem_append.mp hblock with hblock | hblock
  · exact .inl (congrArg Prod.fst (List.mem_singleton.mp hblock))
  · exact .inr (congrArg Prod.fst (List.mem_singleton.mp hblock))

theorem isStreak_twoBlocks (b : ℕ) :
    IsStreak (SeenIn (twoBlocks b) (persistenceKey seenOpp)) (b + 1) 2 := by
  have hfirst : SeenIn (twoBlocks b) (persistenceKey seenOpp) b :=
    ⟨_, List.mem_append_left _ (List.mem_singleton_self _), rfl, seenOpp,
      List.mem_singleton_self _, rfl⟩
  have hsecond : SeenIn (twoBlocks b) (persistenceKey seenOpp) (b + 1) :=
    ⟨_, List.mem_append_right _ (List.mem_singleton_self _), rfl, seenOpp,
      List.mem_singleton_self _, rfl⟩
  refine (isStreak_one hfirst fun c hc hseen => ?_).succ hsecond
  rcases seenIn_twoBlocks hseen with h | h <;> omega

end MevScout.Pipeline
