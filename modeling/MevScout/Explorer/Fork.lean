import MevScout.Explorer.Sync

/-!
# The walk to the fork

`walk_to_fork` goes down from a block whose stored hash is not the live one. It stops at the
first block that is not stored or whose hash is the live one, and unwinds from the block above.
A block below the stop is not looked at.

Results:
* `walkToFork_spec`: where the walk stops;
* `walkUnwinds_iff`: when the unwind leaves no stale block in the range of the walk.
-/

namespace MevScout.Explorer

/-- Model of `walk_to_fork` (`core/src/explorer/ingest.rs`, lines 727–772) with its unwind. -/
def walkAndUnwind (st : SyncStore) (hashes : ℕ → Option B256) (probe maxLookback : ℕ) :
    SyncStore × ReorgOutcome :=
  match walkToFork st hashes probe maxLookback with
  | .forked forkBlock => (st.unwindFrom forkBlock, .forked forkBlock)
  | outcome => (st, outcome)

/-- The stored hash of a block is not the live one. -/
def Stale (st : SyncStore) (live : ℕ → B256) (block : ℕ) : Prop :=
  ∃ stored, st.blockHash block = some stored ∧ stored ≠ live block

/-- A fetch of a hash from the node fails on a block of `[lo, top)` before the walk meets a
    block where it stops. -/
def WalkFails (st : SyncStore) (live : ℕ → B256) (hashes : ℕ → Option B256) (lo top : ℕ) :
    Prop :=
  ∃ block, lo ≤ block ∧ block < top ∧ (st.blockHash block).isSome ∧ hashes block = none ∧
    ∀ c, block < c → c < top → Stale st live c

/-- The walk stops at `stop`: it is not stored or its hash is the live one, every block above
    it is stale, and the hashes that the walk needed were fetched. -/
structure StopsAt (st : SyncStore) (live : ℕ → B256) (hashes : ℕ → Option B256)
    (lo top stop : ℕ) : Prop where
  lo_le : lo ≤ stop
  lt_top : stop < top
  not_stale : ¬ Stale st live stop
  above : ∀ c, stop < c → c < top → Stale st live c
  fetched : ∀ c, stop ≤ c → c < top → (st.blockHash c).isSome → hashes c ≠ none

variable {st : SyncStore} {live : ℕ → B256} {hashes : ℕ → Option B256}

/-- Below a stale block, what is stale above a block goes on one block further. -/
theorem stale_above {top stop : ℕ} (hstale : Stale st live top)
    (h : ∀ c, stop < c → c < top → Stale st live c) :
    ∀ c, stop < c → c < top + 1 → Stale st live c := by
  intro c h1 h2
  rcases Nat.lt_or_ge c top with hlt | hge
  · exact h c h1 hlt
  · obtain rfl : c = top := by omega
    exact hstale

theorem WalkFails.extend {lo top : ℕ} (h : WalkFails st live hashes lo top)
    (hstale : Stale st live top) : WalkFails st live hashes lo (top + 1) := by
  obtain ⟨b, hlo, htop, hstored, hfetch, habove⟩ := h
  exact ⟨b, hlo, by omega, hstored, hfetch, stale_above hstale habove⟩

theorem StopsAt.extend {lo top stop : ℕ} (h : StopsAt st live hashes lo top stop)
    (hstale : Stale st live top) (hfetched : hashes top ≠ none) :
    StopsAt st live hashes lo (top + 1) stop := by
  have htop := h.lt_top
  refine ⟨h.lo_le, by omega, h.not_stale, stale_above hstale h.above, fun c h1 h2 hsome => ?_⟩
  rcases Nat.lt_or_ge c top with hlt | hge
  · exact h.fetched c h1 hlt hsome
  · obtain rfl : c = top := by omega
    exact hfetched

/-- The walk stops at its first block, unless that is stale. -/
theorem stopsAt_first {lo : ℕ} (stop : ℕ) (hlo : lo ≤ stop) (hstale : ¬Stale st live stop)
    (hfetched : (st.blockHash stop).isSome → hashes stop ≠ none) :
    StopsAt st live hashes lo (stop + 1) stop := by
  refine ⟨hlo, by omega, hstale, fun c h1 h2 => by omega, fun c h1 h2 => ?_⟩
  obtain rfl : c = stop := by omega
  exact hfetched

/-- The walk over the blocks of `[lo, lo + n)`, down from a stale block `lo + n`. -/
theorem walkChecks_spec (st : SyncStore) (hlive : ∀ b h, hashes b = some h → h = live b)
    (lo n : ℕ) :
    match walkChecks st hashes (List.range' lo n).reverse with
    | none => WalkFails st live hashes lo (lo + n)
    | some checks =>
      match forkBlockLoop (some (lo + n)) checks with
      | none => ∀ c, lo ≤ c → c < lo + n → Stale st live c
      | some fork => ∃ stop, fork = stop + 1 ∧ StopsAt st live hashes lo (lo + n) stop := by
  induction n with
  | zero =>
    intro c h1 h2
    omega
  | succ n ih =>
    rw [List.range'_1_concat, List.reverse_append, List.reverse_singleton, List.singleton_append,
      walkChecks]
    cases hstored : st.blockHash (lo + n) with
    | none =>
      refine ⟨lo + n, rfl, stopsAt_first (lo + n) (by omega) ?_ (by rw [hstored]; simp)⟩
      rintro ⟨stored, h, -⟩
      rw [hstored] at h
      cases h
    | some stored =>
      dsimp only
      cases hfetch : hashes (lo + n) with
      | none =>
        exact ⟨lo + n, by omega, by omega, by rw [hstored]; rfl, hfetch,
          fun c h1 h2 => by omega⟩
      | some onchain =>
        have honchain : onchain = live (lo + n) := hlive _ _ hfetch
        have hfetched : hashes (lo + n) ≠ none := by
          rw [hfetch]
          simp
        dsimp only
        by_cases hmatch : stored = onchain
        · rw [if_pos hmatch]
          refine ⟨lo + n, rfl, stopsAt_first (lo + n) (by omega) ?_ fun _ => hfetched⟩
          rintro ⟨stored', h, hne⟩
          rw [hstored] at h
          exact hne ((Option.some.inj h).symm.trans (hmatch.trans honchain))
        · rw [if_neg hmatch]
          have hstale : Stale st live (lo + n) :=
            ⟨stored, hstored, fun h => hmatch (h.trans honchain.symm)⟩
          cases hrest : walkChecks st hashes (List.range' lo n).reverse with
          | none =>
            rw [hrest] at ih
            exact ih.extend hstale
          | some checks =>
            rw [hrest] at ih
            show match forkBlockLoop (some (lo + n)) checks with
              | none => _
              | some fork => _
            dsimp only at ih
            cases hfork : forkBlockLoop (some (lo + n)) checks with
            | none =>
              rw [hfork] at ih
              intro c h1 h2
              rcases Nat.lt_or_ge c (lo + n) with hlt | hge
              · exact ih c h1 hlt
              · obtain rfl : c = lo + n := by omega
                exact hstale
            | some fork =>
              rw [hfork] at ih
              obtain ⟨stop, rfl, hs⟩ := ih
              exact ⟨stop, rfl, hs.extend hstale hfetched⟩

/-- **Where the walk stops.** It unwinds from the block above its stop, and deletes nothing
    when a fetch fails first or there is no stop in the range. -/
theorem walkToFork_spec (st : SyncStore) (hlive : ∀ b h, hashes b = some h → h = live b)
    (probe maxLookback : ℕ) :
    match walkToFork st hashes probe maxLookback with
    | .forked fork => ∃ stop, fork = stop + 1 ∧
        StopsAt st live hashes (probe - maxLookback) probe stop
    | .probeFailed => WalkFails st live hashes (probe - maxLookback) probe ∨
        ∀ c, probe - maxLookback ≤ c → c < probe → Stale st live c
    | .noReorg => False := by
  set lo := probe - maxLookback with hlo
  have hspec := walkChecks_spec st hlive lo (probe - lo)
  rw [show lo + (probe - lo) = probe by omega] at hspec
  unfold walkToFork
  dsimp only
  rw [← hlo]
  cases hchecks : walkChecks st hashes (List.range' lo (probe - lo)).reverse with
  | none =>
    rw [hchecks] at hspec
    exact Or.inl hspec
  | some checks =>
    rw [hchecks] at hspec
    dsimp only at hspec ⊢
    rw [show forkBlockFromChecks ((probe, some false) :: checks) =
      forkBlockLoop (some probe) checks from rfl]
    cases hfork : forkBlockLoop (some probe) checks with
    | none =>
      rw [hfork] at hspec
      exact Or.inr hspec
    | some fork =>
      rw [hfork] at hspec
      exact hspec

/-! ## What the unwind leaves -/

theorem stale_unwindFrom_iff (fork block : ℕ) :
    Stale (st.unwindFrom fork) live block ↔ block < fork ∧ Stale st live block := by
  unfold Stale SyncStore.unwindFrom
  dsimp only
  by_cases h : block < fork
  · simp [h]
  · simp [h]

/-- What a walk from a stale block is for: a fork leaves no stale block in the range and keeps
    every block with the live hash below all stale ones, and a failed probe changes nothing. -/
def WalkUnwinds (st : SyncStore) (live : ℕ → B256) (hashes : ℕ → Option B256)
    (probe maxLookback : ℕ) : Prop :=
  match walkAndUnwind st hashes probe maxLookback with
  | (st', .forked _) =>
    (∀ b, probe - maxLookback ≤ b → b ≤ probe → ¬ Stale st' live b) ∧
      ∀ b, st.blockHash b = some (live b) → (∀ s, Stale st live s → b < s) →
        st'.blockHash b = some (live b) ∧ (b ∈ st.classified → b ∈ st'.classified)
  | (st', _) => st' = st

/-- The stale blocks of the range are consecutive, down from the probe. -/
def StaleRun (st : SyncStore) (live : ℕ → B256) (lo probe : ℕ) : Prop :=
  ∀ s c, lo ≤ s → Stale st live s → s ≤ c → c ≤ probe → Stale st live c

/-- **Main theorem.** The unwind leaves no stale block in the range exactly when the stale
    blocks of the range are consecutive, or a fetch fails before the walk stops and nothing is
    unwound. -/
theorem walkUnwinds_iff (probe maxLookback : ℕ) (hprobe : Stale st live probe)
    (hlive : ∀ b h, hashes b = some h → h = live b) :
    WalkUnwinds st live hashes probe maxLookback ↔
      StaleRun st live (probe - maxLookback) probe ∨
        WalkFails st live hashes (probe - maxLookback) probe := by
  have hspec := walkToFork_spec st hlive probe maxLookback
  unfold WalkUnwinds walkAndUnwind
  cases houtcome : walkToFork st hashes probe maxLookback with
  | noReorg =>
    rw [houtcome] at hspec
    exact hspec.elim
  | probeFailed =>
    rw [houtcome] at hspec
    refine iff_of_true rfl ?_
    rcases hspec with hfails | hall
    · exact Or.inr hfails
    · refine Or.inl fun s c hs _ hsc hc => ?_
      rcases Nat.eq_or_lt_of_le hc with rfl | hlt
      · exact hprobe
      · exact hall c (by omega) hlt
  | forked fork =>
    rw [houtcome] at hspec
    obtain ⟨stop, rfl, hstop⟩ := hspec
    dsimp only
    have htop := hstop.lt_top
    -- the fork itself is stale
    have hfork : Stale st live (stop + 1) := by
      rcases Nat.eq_or_lt_of_le (show stop + 1 ≤ probe by omega) with heq | hlt
      · exact heq ▸ hprobe
      · exact hstop.above _ (by omega) hlt
    constructor
    · rintro ⟨hclean, -⟩
      refine Or.inl fun s c hs hstale hsc hc => ?_
      have hge : stop + 1 ≤ s := by
        by_contra hlt
        exact hclean s hs (by omega)
          ((stale_unwindFrom_iff _ _).mpr ⟨by omega, hstale⟩)
      rcases Nat.eq_or_lt_of_le hc with rfl | hlt
      · exact hprobe
      · exact hstop.above c (by omega) hlt
    · intro hcond
      refine ⟨fun b h1 h2 hstale => ?_, fun b hb hbelow => ?_⟩
      · obtain ⟨hlt, hst⟩ := (stale_unwindFrom_iff _ _).mp hstale
        rcases hcond with hrun | ⟨c, hc1, hc2, hsome, hnone, habove⟩
        · exact hstop.not_stale (hrun b stop h1 hst (by omega) htop.le)
        · -- a failing fetch below the stop was not made, one above it would have ended the walk
          rcases Nat.lt_or_ge c stop with hcs | hcs
          · exact hstop.not_stale (habove stop hcs htop)
          · exact hstop.fetched c hcs hc2 hsome hnone
      · have hlt := hbelow _ hfork
        refine ⟨?_, fun hmem => ?_⟩
        · show (if b < stop + 1 then st.blockHash b else none) = some (live b)
          rw [if_pos hlt, hb]
        · exact Finset.mem_filter.mpr ⟨hmem, hlt⟩

/-- A chain whose hashes follow the block numbers. -/
def liveChain : ℕ → B256 := fun b => BitVec.ofNat 256 (1000 + b)

/-- Blocks 98 and 100 are stored with the hashes of an abandoned branch, and 99 was skipped. -/
def gapStore : SyncStore where
  classified := {98, 100}
  blockHash b := if b = 98 ∨ b = 100 then some (BitVec.ofNat 256 b) else none

theorem gapStore_stale_iff (b : ℕ) : Stale gapStore liveChain b ↔ b = 98 ∨ b = 100 := by
  unfold Stale gapStore liveChain
  dsimp only
  by_cases h : b = 98 ∨ b = 100
  · rw [if_pos h]
    refine iff_of_true ⟨_, rfl, ?_⟩ h
    rcases h with rfl | rfl <;> decide
  · rw [if_neg h]
    simp [h]

/-- The walk from 100 stops at the gap and leaves the stale block 98. -/
theorem stale_below_gap : Stale gapStore liveChain 100 ∧
    ¬ WalkUnwinds gapStore liveChain (some ∘ liveChain) 100 32 := by
  refine ⟨(gapStore_stale_iff 100).mpr (Or.inr rfl), fun h => ?_⟩
  have hwalk : walkToFork gapStore (some ∘ liveChain) 100 32 = .forked 100 := by decide +kernel
  unfold WalkUnwinds walkAndUnwind at h
  rw [hwalk] at h
  exact h.1 98 (by omega) (by omega)
    ((stale_unwindFrom_iff _ _).mpr ⟨by omega, (gapStore_stale_iff 98).mpr (Or.inl rfl)⟩)

/-- A branch of two blocks above a block that both chains have. -/
def branchStore : SyncStore where
  classified := {98, 99, 100}
  blockHash b := if b = 98 then some (liveChain 98)
    else if b = 99 ∨ b = 100 then some (BitVec.ofNat 256 b) else none

theorem walkUnwinds_branch : WalkUnwinds branchStore liveChain (some ∘ liveChain) 100 32 := by
  have hstale : ∀ b, Stale branchStore liveChain b ↔ b = 99 ∨ b = 100 := by
    intro b
    unfold Stale branchStore liveChain
    dsimp only
    split_ifs with h98 h
    · rw [h98]
      simp
    · refine iff_of_true ⟨_, rfl, ?_⟩ h
      rcases h with rfl | rfl <;> decide
    · simp [h]
  refine (walkUnwinds_iff 100 32 ((hstale 100).mpr (Or.inr rfl)) fun b h hb => ?_).mpr
    (Or.inl fun s c _ hs hsc hc => ?_)
  · exact (Option.some.inj hb).symm
  · rw [hstale] at hs ⊢
    omega

end MevScout.Explorer
