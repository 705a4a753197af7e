import MevScout.Common.Int
import MevScout.Common.Run
import MevScout.Jobs.Scan

/-!
# The discovery watermark

Models of `note_discovery_scan` (`core/src/cache/store/pools.rs`), of `lookback_scan_ranges` and of
the scans of `job_discover` (`core/src/jobs/discover.rs`). One interval of blocks stands for all
the ranges that were scanned.

Results:
* `lookbackScanRanges_cover`: the lookback ranges and the watermark cover the desired window;
* `covered_note_iff`: noting a range keeps the watermark inside the scanned blocks exactly when
  the range touches it and the scan has read the blocks of the range that are new to it;
* `watermarkSound_iff`: the same for sequences of jobs.
-/

namespace MevScout.Jobs

open MevScout.Pool.Discovery

/-! ## Model -/

/-- Model of `note_discovery_scan` (`pools.rs`, lines 127–142). -/
def noteDiscoveryScan (watermark : Option (ℕ × ℕ)) (r : ℕ × ℕ) : Option (ℕ × ℕ) :=
  if r.1 > r.2 then watermark
  else
    match watermark with
    | some (low, high) => some (min low r.1, max high r.2)
    | none => some r

/-- Model of `lookback_scan_ranges` (`discover.rs`, lines 620–643). -/
def lookbackScanRanges (desired : ℕ × ℕ) (watermark : Option (ℕ × ℕ)) : List (ℕ × ℕ) :=
  if desired.1 > desired.2 then []
  else
    match watermark with
    | none => [desired]
    | some (low, high) =>
      let gapTo := min (low - 1) desired.2
      let tailFrom := max (saturatingAdd 64 high 1) desired.1
      (if desired.1 < low ∧ desired.1 ≤ gapTo then [(desired.1, gapTo)] else []) ++
        if tailFrom ≤ desired.2 then [(tailFrom, desired.2)] else []

/-- What a run of `job_discover` reads: its options, the resolved window, the largest creation
    block of the cache (`none` also where the query fails), and how a scan of each range goes. -/
structure DiscoverJob where
  remoteOnly : Bool
  incremental : Bool
  lookback : Bool
  start : ℕ
  stop : ℕ
  start_le : start ≤ stop
  maxCreationBlock : Option ℕ
  scan : ℕ × ℕ → Scan

/-- The stored watermark, and the scans that have completed, each with the ranges that its
    queries have fetched. No code reads the scans. -/
structure DiscoverState where
  watermark : Option (ℕ × ℕ) := none
  scans : List (List (List (ℕ × ℕ))) := []

/-- The ranges that the loop of `job_discover` scans (`discover.rs`, lines 308–381 and 397). There
    are none where the job returns early or skips the on-chain scan. -/
def scanRanges (job : DiscoverJob) (watermark : Option (ℕ × ℕ)) : List (ℕ × ℕ) :=
  if job.remoteOnly then []
  else if job.incremental ∧ job.lookback then lookbackScanRanges (job.start, job.stop) watermark
  else if job.incremental then
    match job.maxCreationBlock with
    | some maxBlock =>
      if maxBlock > 0 then
        let newFrom := maxBlock + 1
        if newFrom > job.stop then [] else [(newFrom, job.stop)]
      else [(job.start, job.stop)]
    | none => [(job.start, job.stop)]
  else [(job.start, job.stop)]

/-- A range is noted whatever its scan has found (lines 421–423). -/
def DiscoverState.note (s : DiscoverState) (r : ℕ × ℕ) (fetched : List (List (ℕ × ℕ))) :
    DiscoverState where
  watermark := noteDiscoveryScan s.watermark r
  scans := fetched :: s.scans

/-- One turn of the loop of `job_discover` (lines 416–425). The flag tells whether the job still
    runs. -/
def scanStep (job : DiscoverJob) (st : DiscoverState × Bool) (r : ℕ × ℕ) : DiscoverState × Bool :=
  if st.2 then
    match (job.scan r).scanOnchain r.1 r.2 with
    | some fetched => (st.1.note r fetched, true)
    | none => (st.1, false)
  else st

/-- The loop of `job_discover` over ranges. -/
def scanLoop (job : DiscoverJob) (s : DiscoverState) (ranges : List (ℕ × ℕ)) :
    DiscoverState × Bool :=
  ranges.foldl (scanStep job) (s, true)

/-- What a run of `job_discover` does to the watermark. -/
def jobDiscover (s : DiscoverState) (job : DiscoverJob) : DiscoverState :=
  (scanLoop job s (scanRanges job s.watermark)).1

/-! ## Soundness -/

/-- A block inside the stored watermark. -/
def DiscoverState.InMark (s : DiscoverState) (b : ℕ) : Prop := ∃ w, s.watermark = some w ∧ Holds w b

/-- A block that a completed scan has read. -/
def DiscoverState.Scanned (s : DiscoverState) (b : ℕ) : Prop := ∃ f ∈ s.scans, Obtained f b

/-- Every block inside the watermark was scanned. -/
def Covered (s : DiscoverState) : Prop := ∀ b, s.InMark b → s.Scanned b

/-- A job that scans the gaps of its lookback window. -/
def DiscoverJob.LooksBack (job : DiscoverJob) : Prop :=
  job.remoteOnly = false ∧ job.incremental = true ∧ job.lookback = true

/-- A job is sound: the watermark covers scanned blocks only after every range that it notes,
    and a lookback job that is not cancelled leaves no block of its window unscanned. -/
def JobSound (s : DiscoverState) (job : DiscoverJob) : Prop :=
  (∀ ranges, ranges <+: scanRanges job s.watermark → Covered (scanLoop job s ranges).1) ∧
    (job.LooksBack → (scanLoop job s (scanRanges job s.watermark)).2 = true →
      ∀ b, Holds (job.start, job.stop) b → (jobDiscover s job).Scanned b)

/-- Every job of a sequence is sound. -/
def WatermarkSound (jobs : List DiscoverJob) : Prop :=
  ∀ pre job, pre ++ [job] <+: jobs → JobSound (pre.foldl jobDiscover {}) job

/-- A range overlaps the watermark or is next to it. -/
def Touches (watermark : Option (ℕ × ℕ)) (r : ℕ × ℕ) : Prop :=
  ∀ w, watermark = some w → r.1 ≤ w.2 + 1 ∧ w.1 ≤ r.2 + 1

/-- A scan that leaves no gap: its range touches the watermark, and it has read every block of
    the range outside the watermark. -/
def LeavesNoGap (s : DiscoverState) (r : ℕ × ℕ) (fetched : List (List (ℕ × ℕ))) : Prop :=
  Touches s.watermark r ∧ ∀ b, Holds r b → ¬s.InMark b → Obtained fetched b

/-- Every scan of the job that completes leaves no gap. -/
def JobMeets (s : DiscoverState) (job : DiscoverJob) : Prop :=
  ∀ pre r, pre ++ [r] <+: scanRanges job s.watermark → (scanLoop job s pre).2 = true →
    ∀ fetched, (job.scan r).scanOnchain r.1 r.2 = some fetched →
      LeavesNoGap (scanLoop job s pre).1 r fetched

/-! ## The lookback ranges -/

/-- The lookback ranges and the watermark cover the desired window. -/
theorem lookbackScanRanges_cover {desired : ℕ × ℕ} {watermark : Option (ℕ × ℕ)} {b : ℕ}
    (hb : Holds desired b) :
    (∃ r ∈ lookbackScanRanges desired watermark, Holds r b) ∨
      ∃ w, watermark = some w ∧ Holds w b := by
  obtain ⟨hfrom, hto⟩ := hb
  unfold lookbackScanRanges
  rw [if_neg (by omega)]
  rcases watermark with _ | ⟨low, high⟩
  · exact .inl ⟨desired, List.mem_singleton_self _, hfrom, hto⟩
  · dsimp only
    have htail : saturatingAdd 64 high 1 ≤ high + 1 := min_le_left _ _
    by_cases hlow : b < low
    · left
      rw [if_pos (by omega)]
      refine ⟨_, List.mem_append_left _ (List.mem_singleton_self _), hfrom, ?_⟩
      show b ≤ min (low - 1) desired.2
      omega
    · by_cases hhigh : b ≤ high
      · exact .inr ⟨(low, high), rfl, not_lt.mp hlow, hhigh⟩
      · left
        refine ⟨(max (saturatingAdd 64 high 1) desired.1, desired.2),
          List.mem_append_right _ ?_, ?_, hto⟩
        · rw [if_pos (by omega)]
          exact List.mem_singleton_self _
        · show max (saturatingAdd 64 high 1) desired.1 ≤ b
          omega

theorem lookbackScanRanges_le {desired : ℕ × ℕ} {watermark : Option (ℕ × ℕ)} {r : ℕ × ℕ}
    (h : r ∈ lookbackScanRanges desired watermark) : r.1 ≤ r.2 := by
  unfold lookbackScanRanges at h
  split_ifs at h with hwindow
  · cases h
  · rcases watermark with _ | ⟨low, high⟩
    · obtain rfl := List.mem_singleton.mp h
      omega
    · rcases List.mem_append.mp h with h | h <;> split_ifs at h with hne
      · obtain rfl := List.mem_singleton.mp h
        exact hne.2
      · cases h
      · obtain rfl := List.mem_singleton.mp h
        exact hne
      · cases h

theorem scanRanges_le {job : DiscoverJob} {watermark : Option (ℕ × ℕ)} {r : ℕ × ℕ}
    (h : r ∈ scanRanges job watermark) : r.1 ≤ r.2 := by
  have hle := job.start_le
  unfold scanRanges at h
  split_ifs at h
  · cases h
  · exact lookbackScanRanges_le h
  · split at h
    · split_ifs at h with hpos
      · dsimp only at h
        split_ifs at h with hnew
        · cases h
        · obtain rfl := List.mem_singleton.mp h
          exact not_lt.mp hnew
      · obtain rfl := List.mem_singleton.mp h
        exact hle
    · obtain rfl := List.mem_singleton.mp h
      exact hle
  · obtain rfl := List.mem_singleton.mp h
    exact hle

/-! ## One note -/

/-- What the stored interval always is: not empty, and around every scanned block. -/
structure DiscoverState.Valid (s : DiscoverState) : Prop where
  ordered : ∀ w, s.watermark = some w → w.1 ≤ w.2
  encloses : ∀ b, s.Scanned b → s.InMark b

section

variable {s : DiscoverState} {r : ℕ × ℕ} {fetched : List (List (ℕ × ℕ))}

theorem inMark_note_iff (hle : r.1 ≤ r.2) {b : ℕ} :
    (s.note r fetched).InMark b ↔
      match s.watermark with
      | some w => min w.1 r.1 ≤ b ∧ b ≤ max w.2 r.2
      | none => Holds r b := by
  have hnote : (s.note r fetched).watermark = noteDiscoveryScan s.watermark r := rfl
  unfold DiscoverState.InMark
  rw [hnote]
  unfold noteDiscoveryScan
  rw [if_neg (not_lt.mpr hle)]
  cases s.watermark with
  | none => simp
  | some w => simp [Holds]

/-- A note never shrinks the watermark, and takes in its range. -/
theorem inMark_note (hle : r.1 ≤ r.2) {b : ℕ} (h : s.InMark b ∨ Holds r b) :
    (s.note r fetched).InMark b := by
  rw [inMark_note_iff hle]
  cases hmark : s.watermark with
  | none =>
    rcases h with ⟨w, hw, -⟩ | h
    · rw [hmark] at hw
      cases hw
    · exact h
  | some w =>
    dsimp only
    rcases h with ⟨w', hw, hlow, hhigh⟩ | ⟨hlow, hhigh⟩
    · obtain rfl := Option.some.inj (hmark.symm.trans hw)
      omega
    · omega

theorem scanned_note_iff {b : ℕ} :
    (s.note r fetched).Scanned b ↔ Obtained fetched b ∨ s.Scanned b := by
  unfold DiscoverState.Scanned
  show (∃ f ∈ fetched :: s.scans, Obtained f b) ↔ _
  simp

theorem valid_note (hvalid : s.Valid) (hle : r.1 ≤ r.2)
    (hinside : ∀ b, Obtained fetched b → Holds r b) : (s.note r fetched).Valid := by
  refine ⟨fun w hw => ?_, fun b hb => ?_⟩
  · change noteDiscoveryScan s.watermark r = some w at hw
    unfold noteDiscoveryScan at hw
    rw [if_neg (not_lt.mpr hle)] at hw
    cases hmark : s.watermark with
    | none =>
      rw [hmark] at hw
      obtain rfl := Option.some.inj hw
      exact hle
    | some w' =>
      rw [hmark] at hw
      obtain rfl := Option.some.inj hw
      show min w'.1 r.1 ≤ max w'.2 r.2
      omega
  · rcases scanned_note_iff.mp hb with hnew | hold
    · exact inMark_note hle (.inr (hinside b hnew))
    · exact inMark_note hle (.inl (hvalid.encloses b hold))

/-- A note keeps the watermark inside the scanned blocks exactly when its scan leaves no gap. -/
theorem covered_note_iff (hvalid : s.Valid) (hcovered : Covered s) (hle : r.1 ≤ r.2)
    (hinside : ∀ b, Obtained fetched b → Holds r b) :
    Covered (s.note r fetched) ↔ LeavesNoGap s r fetched := by
  -- a block that is new to the watermark can only have been read by this scan
  have hnew (h : Covered (s.note r fetched)) (b : ℕ) (hb : (s.note r fetched).InMark b)
      (hout : ¬s.InMark b) : Obtained fetched b :=
    (scanned_note_iff.mp (h b hb)).resolve_right fun hold => hout (hvalid.encloses b hold)
  constructor
  · intro h
    refine ⟨fun w hw => ?_, fun b hb hout => hnew h b (inMark_note hle (.inr hb)) hout⟩
    have hord := hvalid.ordered w hw
    have hmark (b : ℕ) (hlow : min w.1 r.1 ≤ b) (hhigh : b ≤ max w.2 r.2) :
        (s.note r fetched).InMark b := by
      rw [inMark_note_iff hle, hw]
      exact ⟨hlow, hhigh⟩
    have hout (b : ℕ) (hb : ¬Holds w b) : ¬s.InMark b := by
      rintro ⟨w', hw', hholds⟩
      obtain rfl := Option.some.inj (hw.symm.trans hw')
      exact hb hholds
    constructor
    · by_contra hgap
      obtain ⟨hstart, -⟩ := hinside _ (hnew h (w.2 + 1) (hmark _ (by omega) (by omega))
        (hout _ fun hb => absurd hb.2 (by omega)))
      omega
    · by_contra hgap
      obtain ⟨-, hstop⟩ := hinside _ (hnew h (r.2 + 1) (hmark _ (by omega) (by omega))
        (hout _ fun hb => absurd hb.1 (by omega)))
      omega
  · rintro ⟨htouch, hread⟩ b hb
    rw [scanned_note_iff]
    by_cases hold : s.InMark b
    · exact .inr (hcovered b hold)
    · refine .inl (hread b ?_ hold)
      rw [inMark_note_iff hle] at hb
      cases hmark : s.watermark with
      | none =>
        rw [hmark] at hb
        exact hb
      | some w =>
        rw [hmark] at hb
        obtain ⟨hlow, hhigh⟩ := hb
        obtain ⟨h1, h2⟩ := htouch w hmark
        have hout : ¬(w.1 ≤ b ∧ b ≤ w.2) := fun hin => hold ⟨w, hmark, hin⟩
        exact ⟨by omega, by omega⟩

/-- A scan whose calls are answered leaves no gap if its range touches the watermark. -/
theorem leavesNoGap_of_answered {scan : Scan} (h : scan.Answered)
    (htouch : Touches s.watermark r) (hscan : scan.scanOnchain r.1 r.2 = some fetched) :
    LeavesNoGap s r fetched := by
  obtain ⟨fetched', hfetched, hread⟩ := Scan.obtained_of_answered h r.1 r.2
  obtain rfl := Option.some.inj (hscan.symm.trans hfetched)
  exact ⟨htouch, fun b hb _ => hread b hb⟩

end

/-! ## Sequences of jobs -/

section

variable {s : DiscoverState} {job : DiscoverJob}

theorem scanStep_inside {r : ℕ × ℕ} (hle : r.1 ≤ r.2) {fetched : List (List (ℕ × ℕ))}
    (h : (job.scan r).scanOnchain r.1 r.2 = some fetched) (b : ℕ) (hb : Obtained fetched b) :
    Holds r b :=
  Scan.scanOnchain_inside hle h hb

theorem valid_scanStep {st : DiscoverState × Bool} (hvalid : st.1.Valid) {r : ℕ × ℕ}
    (hle : r.1 ≤ r.2) : (scanStep job st r).1.Valid := by
  unfold scanStep
  split_ifs
  · split
    · next fetched hfetched => exact valid_note hvalid hle (scanStep_inside hle hfetched)
    · exact hvalid
  · exact hvalid

theorem valid_scanLoop (hvalid : s.Valid) {ranges : List (ℕ × ℕ)} (hle : ∀ r ∈ ranges, r.1 ≤ r.2) :
    (scanLoop job s ranges).1.Valid := by
  unfold scanLoop
  induction ranges using List.reverseRecOn with
  | nil => exact hvalid
  | append_singleton ranges r ih =>
    rw [List.foldl_concat]
    exact valid_scanStep (ih fun r' hr' => hle r' (List.mem_append_left _ hr'))
      (hle r (List.mem_append_right _ (List.mem_singleton_self r)))

/-- The watermark covers scanned blocks all along a job exactly when the job's scans leave no
    gap. -/
theorem covered_scanLoop_iff (hvalid : s.Valid) (hcovered : Covered s) :
    (∀ ranges, ranges <+: scanRanges job s.watermark → Covered (scanLoop job s ranges).1) ↔
      JobMeets s job := by
  have hvalid' (ranges : List (ℕ × ℕ)) (hpre : ranges <+: scanRanges job s.watermark) :
      (scanLoop job s ranges).1.Valid :=
    valid_scanLoop hvalid fun r hr => scanRanges_le (hpre.subset hr)
  have hiff : (∀ ranges, ranges <+: scanRanges job s.watermark →
      (scanLoop job s ranges).1.Valid ∧ Covered (scanLoop job s ranges).1) ↔ JobMeets s job := by
    unfold JobMeets scanLoop
    refine foldl_prefix_iff (I := fun st : DiscoverState × Bool => st.1.Valid ∧ Covered st.1)
      (C := fun st r => st.2 = true → ∀ fetched, (job.scan r).scanOnchain r.1 r.2 = some fetched →
        LeavesNoGap st.1 r fetched) ⟨hvalid, hcovered⟩ ?_
    rintro st ⟨hvalid, hcovered⟩ r hr
    have hle := scanRanges_le hr
    rw [and_iff_right (valid_scanStep hvalid hle)]
    unfold scanStep
    by_cases hrun : st.2 = true
    · rw [if_pos hrun]
      cases hscan : (job.scan r).scanOnchain r.1 r.2 with
      | none => simp [hcovered]
      | some fetched =>
        show Covered (st.1.note r fetched) ↔ _
        rw [covered_note_iff hvalid hcovered hle (scanStep_inside hle hscan)]
        simp [hrun]
    · rw [if_neg hrun]
      simp [hcovered, hrun]
  exact Iff.trans ⟨fun h ranges hpre => ⟨hvalid' ranges hpre, h ranges hpre⟩,
    fun h ranges hpre => (h ranges hpre).2⟩ hiff

/-- A job that is not cancelled takes all its ranges into the watermark. -/
theorem inMark_scanLoop {ranges : List (ℕ × ℕ)} (hle : ∀ r ∈ ranges, r.1 ≤ r.2)
    (hrun : (scanLoop job s ranges).2 = true) {b : ℕ}
    (hb : s.InMark b ∨ ∃ r ∈ ranges, Holds r b) : (scanLoop job s ranges).1.InMark b := by
  unfold scanLoop at hrun ⊢
  induction ranges using List.reverseRecOn with
  | nil =>
    rcases hb with hb | ⟨r, hr, -⟩
    · exact hb
    · cases hr
  | append_singleton ranges r ih =>
    have hle' : ∀ r' ∈ ranges, r'.1 ≤ r'.2 := fun r' hr' => hle r' (List.mem_append_left _ hr')
    rw [List.foldl_concat] at hrun ⊢
    generalize hst : ranges.foldl (scanStep job) (s, true) = st at hrun ih ⊢
    unfold scanStep at hrun ⊢
    by_cases hst2 : st.2 = true
    · rw [if_pos hst2] at hrun ⊢
      cases hscan : (job.scan r).scanOnchain r.1 r.2 with
      | none =>
        rw [hscan] at hrun
        cases hrun
      | some fetched =>
        refine inMark_note (hle r (List.mem_append_right _ (List.mem_singleton_self r))) ?_
        rcases hb with hb | ⟨r', hr', hholds⟩
        · exact .inl (ih hle' hst2 (.inl hb))
        · rcases List.mem_append.mp hr' with hr' | hr'
          · exact .inl (ih hle' hst2 (.inr ⟨r', hr', hholds⟩))
          · obtain rfl := List.mem_singleton.mp hr'
            exact .inr hholds
    · rw [if_neg hst2] at hrun
      exact absurd hrun hst2

/-- Where the watermark holds scanned blocks only, a lookback job that ends leaves no block of its
    window unscanned. -/
theorem scanned_of_looksBack (hlook : job.LooksBack)
    (hrun : (scanLoop job s (scanRanges job s.watermark)).2 = true)
    (hcovered : Covered (jobDiscover s job)) {b : ℕ} (hb : Holds (job.start, job.stop) b) :
    (jobDiscover s job).Scanned b := by
  obtain ⟨hremote, hinc, hback⟩ := hlook
  have hranges : scanRanges job s.watermark =
      lookbackScanRanges (job.start, job.stop) s.watermark := by
    unfold scanRanges
    rw [hremote, if_neg Bool.false_ne_true, if_pos ⟨hinc, hback⟩]
  refine hcovered b (inMark_scanLoop (fun r hr => scanRanges_le hr) hrun ?_)
  rw [hranges]
  exact (lookbackScanRanges_cover hb).symm

theorem jobSound_iff (hvalid : s.Valid) (hcovered : Covered s) :
    JobSound s job ↔ JobMeets s job := by
  rw [← covered_scanLoop_iff hvalid hcovered]
  constructor
  · exact fun h => h.1
  · exact fun h => ⟨h, fun hlook hrun _ hb =>
      scanned_of_looksBack hlook hrun (h _ List.prefix_rfl) hb⟩

end

theorem covered_init : Covered {} := by
  rintro b ⟨w, hw, -⟩
  cases hw

theorem valid_init : DiscoverState.Valid {} := by
  constructor
  · intro w hw
    cases hw
  · rintro b ⟨f, hf, -⟩
    cases hf

/-- **Main theorem.** In every sequence of jobs, the watermark covers scanned blocks only, and
    lookback jobs leave no block of their windows unscanned, exactly when every scan that
    completes leaves no gap: its range touches the stored watermark, and its queries have fetched
    every block of the range that the watermark did not cover. -/
theorem watermarkSound_iff (jobs : List DiscoverJob) :
    WatermarkSound jobs ↔
      ∀ pre job, pre ++ [job] <+: jobs → JobMeets (pre.foldl jobDiscover {}) job := by
  unfold WatermarkSound
  refine foldl_steps_iff (I := fun s : DiscoverState => s.Valid ∧ Covered s)
    ⟨valid_init, covered_init⟩ ?_ ?_
  · rintro s ⟨hvalid, -⟩ job - hsound
    exact ⟨valid_scanLoop hvalid fun r hr => scanRanges_le hr, hsound.1 _ List.prefix_rfl⟩
  · rintro s ⟨hvalid, hcovered⟩ job -
    exact jobSound_iff hvalid hcovered

/-! ## Runs -/

/-- A scan with one provider and no queries for creations, whose calls all fail. -/
def failingScan : Scan where
  factories := []
  effectiveBatchSize := 100
  factoryBatchSize := 100
  alive := [(0, 0)]
  first := fun _ _ => .error
  retry := fun _ _ _ => .error
  split := fun _ _ _ => .error
  stopped := false
  cancelled := false

/-- A full job over five blocks, none of which it can read. -/
def failingJob : DiscoverJob where
  remoteOnly := false
  incremental := false
  lookback := true
  start := 1
  stop := 5
  start_le := by decide
  maxCreationBlock := none
  scan := fun _ => failingScan

/-- A lookback job over the same blocks. -/
def lookbackJob : DiscoverJob := { failingJob with incremental := true }

theorem failingScan_scanOnchain : failingScan.scanOnchain 1 5 = some [[]] := by
  have hwindows : blockWindows 1 5 100 = [(1, 5)] := by
    simp [blockWindows, windowsFrom]
  have hsplit : getLogsSplitRecursive (failingScan.split .activity) 1 5 = [] := by
    rw [getLogsSplitRecursive]
    rfl
  have hwindow : failingScan.scanActivityWindow (1, 5) = [] := hsplit
  have hfetch : failingScan.fetch 1 5 .activity = [] := by
    show failingScan.fetchShard false 1 5 .activity = []
    unfold Scan.fetchShard Scan.fetchCoarse
    show (blockWindows 1 5 100).flatMap (fun coarse =>
      (blockWindows coarse.1 coarse.2 100).flatMap failingScan.scanActivityWindow) = []
    rw [hwindows, List.flatMap_singleton, hwindows, List.flatMap_singleton, hwindow]
  show some [failingScan.fetch 1 5 .activity] = some [[]]
  rw [hfetch]

/-- The failed range is noted, and the lookback job after it scans nothing. -/
theorem failed_range_noted :
    (jobDiscover {} failingJob).watermark = some (1, 5) ∧
    scanRanges lookbackJob (jobDiscover {} failingJob).watermark = [] ∧
    ¬(jobDiscover (jobDiscover {} failingJob) lookbackJob).Scanned 3 ∧
    ¬WatermarkSound [failingJob, lookbackJob] := by
  have hfirst : jobDiscover {} failingJob = ⟨some (1, 5), [[[]]]⟩ := by
    show (scanStep failingJob ({}, true) (1, 5)).1 = _
    unfold scanStep
    rw [if_pos rfl]
    show (match failingScan.scanOnchain 1 5 with
      | some fetched => ((⟨none, []⟩ : DiscoverState).note (1, 5) fetched, true)
      | none => ((⟨none, []⟩ : DiscoverState), false)).1 = _
    rw [failingScan_scanOnchain]
    rfl
  have hnot : ¬(⟨some (1, 5), [[[]]]⟩ : DiscoverState).Scanned 3 := by
    rintro ⟨f, hf, hobtained⟩
    obtain rfl := List.mem_singleton.mp hf
    obtain ⟨r, hr, -⟩ := hobtained [] (List.mem_singleton_self [])
    cases hr
  rw [hfirst]
  refine ⟨rfl, by decide, ?_, fun h => ?_⟩
  · show ¬(scanLoop lookbackJob ⟨some (1, 5), [[[]]]⟩ []).1.Scanned 3
    exact hnot
  · have hsound := h [] failingJob ⟨[lookbackJob], rfl⟩
    have hcovered : Covered (jobDiscover {} failingJob) := hsound.1 _ List.prefix_rfl
    rw [hfirst] at hcovered
    exact hnot (hcovered 3 ⟨(1, 5), rfl, by decide, by decide⟩)

end MevScout.Jobs
