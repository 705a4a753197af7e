import MevScout.Pool.Windows

/-!
# What an on-chain scan fetches

Models of the `eth_getLogs` calls of a discovery scan (`core/src/pool/discovery/mod.rs`) and of
`scan_onchain` (`core/src/jobs/discover.rs`). In the place of logs, a call returns the block
range that they come from, so that a scan shows which blocks it has read.

Results:
* `getLogsSplitRecursive_inside`: a split fetches no block outside its range;
* `scanOnchain_inside`: nor does a scan;
* `obtained_of_answered`: when every first call is answered, a scan reads every block of its range.
-/

namespace MevScout.Jobs

open MevScout.Pool.Discovery

/-! ## Calls -/

/-- What `eth_getLogs` answers: logs, an error that `is_block_range_error` recognizes, or another
    error. -/
inductive Answer where
  | logs
  | rangeError
  | error
  deriving DecidableEq, Repr

/-- `MAX_RETRIES` (`discovery/mod.rs`, line 520). -/
def maxRetries : ℕ := 3

/-- `MIN_SPLIT_BATCH` (`discovery/mod.rs`, line 522). -/
def minSplitBatch : ℕ := 10

/-- The answer that ends a loop of attempts: logs, or a range error where the range may be
    halved. -/
def decisive (answer : ℕ → Answer) (halves : Bool) : Option Answer :=
  ((List.range maxRetries).map answer).find? fun a => a = .logs ∨ (a = .rangeError ∧ halves)

/-- Model of `get_logs_split_recursive` (`discovery/mod.rs`, lines 616–669), which never fails:
    after its attempts it skips a range. -/
def getLogsSplitRecursive (answer : ℕ × ℕ → ℕ → Answer) (start stop : ℕ) : List (ℕ × ℕ) :=
  if start > stop then []
  else
    let range := stop - start + 1
    let mid := start + range / 2 - 1
    if _ : range ≤ minSplitBatch then
      match decisive (answer (start, stop)) (1 < range) with
      | some .logs => [(start, stop)]
      | some _ =>
        if _ : 1 < range then
          getLogsSplitRecursive answer start mid ++ getLogsSplitRecursive answer (mid + 1) stop
        else []
      | none => []
    else getLogsSplitRecursive answer start mid ++ getLogsSplitRecursive answer (mid + 1) stop
  termination_by stop + 1 - start
  decreasing_by
    all_goals simp only [minSplitBatch] at *
    all_goals omega

/-- Model of `get_logs_with_retry` (`discovery/mod.rs`, lines 572–614). -/
def getLogsWithRetry (retry : ℕ → Answer) (split : ℕ × ℕ → ℕ → Answer) (w : ℕ × ℕ) :
    Option (List (ℕ × ℕ)) :=
  match decisive retry (w.2 - w.1 ≥ minSplitBatch) with
  | some .logs => some [w]
  | some _ => some (getLogsSplitRecursive split w.1 w.2)
  | none => none

/-! ## Queries -/

/-- A log query of a scan: the activity of all pools, or the `i`-th query for creations. Some of
    these go through `scan_factory_creation_events_pinned`, which retries when no provider is
    pinned; the others call once. -/
inductive Query where
  | activity
  | factory (i : ℕ) (retried : Bool)
  deriving DecidableEq

/-- A scan as its environment shapes it: the queries for creations, in the order of the scanners,
    each with whether it is retried, the batch sizes, the providers that are alive with their
    shares, their answers, whether `on_batch` stopped the scan, and whether the job is cancelled
    then. -/
structure Scan where
  factories : List Bool
  effectiveBatchSize : ℕ
  factoryBatchSize : ℕ
  alive : List (ℕ × ℕ)
  first : Query → ℕ × ℕ → Answer
  retry : Query → ℕ × ℕ → ℕ → Answer
  split : Query → ℕ × ℕ → ℕ → Answer
  stopped : Bool
  cancelled : Bool

namespace Scan

variable (scan : Scan)

/-- Model of `scan_activity_window` (`discovery/mod.rs`, lines 1356–1386). -/
def scanActivityWindow (w : ℕ × ℕ) : List (ℕ × ℕ) :=
  if scan.first .activity w = .logs then [w]
  else getLogsSplitRecursive (scan.split .activity) w.1 w.2

/-- A query for creations in a coarse window: `scan_factory_creation_events_pinned`
    (`discovery/mod.rs`, lines 735–775) or one call of `get_logs_pinned!`. A failure is logged. -/
def scanFactoryWindow (pinned : Bool) (i : ℕ) (retried : Bool) (w : ℕ × ℕ) : List (ℕ × ℕ) :=
  if retried ∧ !pinned then
    (getLogsWithRetry (scan.retry (.factory i retried) w) (scan.split (.factory i retried))
      w).getD []
  else if scan.first (.factory i retried) w = .logs then [w] else []

/-- The ranges that a query fetches in one coarse window (`discovery/mod.rs`, lines 1511–1560). -/
def fetchCoarse (pinned : Bool) (coarse : ℕ × ℕ) : Query → List (ℕ × ℕ)
  | .activity =>
    (blockWindows coarse.1 coarse.2 scan.effectiveBatchSize).flatMap scan.scanActivityWindow
  | .factory i retried => scan.scanFactoryWindow pinned i retried coarse

/-- The ranges that a query fetches in one shard, as `discover_pools_shard` runs it
    (`discovery/mod.rs`, lines 1432–1591). -/
def fetchShard (pinned : Bool) (start stop : ℕ) (q : Query) : List (ℕ × ℕ) :=
  let factoryStep := max (max scan.factoryBatchSize scan.effectiveBatchSize) 1
  (blockWindows start stop factoryStep).flatMap fun coarse => scan.fetchCoarse pinned coarse q

/-- The ranges that a query fetches in `discover_pools` (`discovery/mod.rs`, lines 839–961). -/
def fetch (start stop : ℕ) (q : Query) : List (ℕ × ℕ) :=
  let shards := distributeBlocks start stop scan.alive
  if shards.length ≤ 1 then scan.fetchShard false start stop q
  else shards.flatMap fun shard => scan.fetchShard true shard.start shard.stop q

/-- The queries of the scan. -/
def queries : List Query :=
  .activity :: scan.factories.zipIdx.map fun (retried, i) => .factory i retried

/-- Model of `scan_onchain` (`jobs/discover.rs`, lines 196–241): the ranges that each query has
    fetched, or `none` for the error of a cancelled job. A scan that fails otherwise returns as if
    it had found no pool. -/
def scanOnchain (start stop : ℕ) : Option (List (List (ℕ × ℕ))) :=
  if scan.stopped then
    if scan.cancelled then none else some (scan.queries.map fun _ => [])
  else some (scan.queries.map (scan.fetch start stop))

end Scan

/-- A completed scan has read a block: each of its queries has fetched it. -/
def Obtained (fetched : List (List (ℕ × ℕ))) (b : ℕ) : Prop :=
  ∀ ranges ∈ fetched, ∃ r ∈ ranges, Holds r b

instance (fetched : List (List (ℕ × ℕ))) (b : ℕ) : Decidable (Obtained fetched b) :=
  inferInstanceAs (Decidable (∀ ranges ∈ fetched, ∃ r ∈ ranges, Holds r b))

/-! ## What is fetched lies in the range -/

/-- Ranges with no block outside `w`. -/
def Inside (w : ℕ × ℕ) (ranges : List (ℕ × ℕ)) : Prop := ∀ r ∈ ranges, ∀ b, Holds r b → Holds w b

theorem Inside.mono {w w' : ℕ × ℕ} {ranges : List (ℕ × ℕ)} (h : Inside w ranges)
    (hsub : ∀ b, Holds w b → Holds w' b) : Inside w' ranges :=
  fun r hr b hb => hsub b (h r hr b hb)

theorem inside_nil (w : ℕ × ℕ) : Inside w [] := fun _ hr => by cases hr

theorem inside_singleton (w : ℕ × ℕ) : Inside w [w] := by
  intro r hr b hb
  obtain rfl := List.mem_singleton.mp hr
  exact hb

theorem holds_mono {w w' : ℕ × ℕ} (hstart : w'.1 ≤ w.1) (hstop : w.2 ≤ w'.2) (b : ℕ)
    (h : Holds w b) : Holds w' b :=
  ⟨hstart.trans h.1, h.2.trans hstop⟩

theorem inside_halves {start mid stop : ℕ} {l l' : List (ℕ × ℕ)} (hstart : start ≤ mid + 1)
    (hstop : mid ≤ stop) (hl : Inside (start, mid) l) (hl' : Inside (mid + 1, stop) l') :
    Inside (start, stop) (l ++ l') := by
  intro r hr b hb
  rcases List.mem_append.mp hr with hr | hr
  · obtain ⟨h1, h2⟩ := hl r hr b hb
    exact ⟨h1, h2.trans hstop⟩
  · obtain ⟨h1, h2⟩ := hl' r hr b hb
    exact ⟨hstart.trans h1, h2⟩

theorem inside_flatMap {α : Type} {w : ℕ × ℕ} {l : List α} {f : α → List (ℕ × ℕ)}
    (h : ∀ a ∈ l, Inside w (f a)) : Inside w (l.flatMap f) := by
  intro r hr
  obtain ⟨a, ha, hra⟩ := List.mem_flatMap.mp hr
  exact h a ha r hra

section

variable {answer : ℕ × ℕ → ℕ → Answer} {start stop : ℕ}

/-- A range that fits is fetched at the first answer. -/
theorem getLogsSplitRecursive_logs (hle : start ≤ stop) (hsmall : stop - start + 1 ≤ minSplitBatch)
    (h : decisive (answer (start, stop)) (1 < stop - start + 1) = some .logs) :
    getLogsSplitRecursive answer start stop = [(start, stop)] := by
  rw [getLogsSplitRecursive, if_neg (by omega)]
  dsimp only
  rw [dif_pos hsmall, h]

/-- A range is halved when it is large or when the provider finds it too large. -/
theorem getLogsSplitRecursive_halves (hle : start ≤ stop)
    (h : minSplitBatch < stop - start + 1 ∨ ∃ a, a ≠ .logs ∧ 1 < stop - start + 1 ∧
      decisive (answer (start, stop)) (1 < stop - start + 1) = some a) :
    getLogsSplitRecursive answer start stop =
      getLogsSplitRecursive answer start (start + (stop - start + 1) / 2 - 1) ++
        getLogsSplitRecursive answer (start + (stop - start + 1) / 2 - 1 + 1) stop := by
  rw [getLogsSplitRecursive, if_neg (by omega)]
  dsimp only
  by_cases hsmall : stop - start + 1 ≤ minSplitBatch
  · obtain ⟨a, ha, hrange, hdec⟩ := h.resolve_left (by omega)
    rw [dif_pos hsmall, hdec]
    cases a with
    | logs => exact absurd rfl ha
    | rangeError => exact dif_pos hrange
    | error => exact dif_pos hrange
  · rw [dif_neg hsmall]

end

theorem getLogsSplitRecursive_inside (answer : ℕ × ℕ → ℕ → Answer) (start stop : ℕ) :
    Inside (start, stop) (getLogsSplitRecursive answer start stop) := by
  induction start, stop using getLogsSplitRecursive.induct answer with
  | case1 start stop hgt =>
    rw [getLogsSplitRecursive, if_pos hgt]
    exact inside_nil _
  | case2 start stop hle range hsmall hlogs =>
    rw [getLogsSplitRecursive_logs (by omega) hsmall hlogs]
    exact inside_singleton (start, stop)
  | case3 start stop hle range mid hsmall a ha hdec hrange ihl ihr =>
    rw [getLogsSplitRecursive_halves (by omega) (.inr ⟨a, ha, hrange, hdec⟩)]
    exact inside_halves (by omega) (by omega) ihl ihr
  | case4 start stop hle range hsmall a ha hdec hrange =>
    rw [getLogsSplitRecursive, if_neg hle]
    dsimp only
    rw [dif_pos hsmall, hdec]
    cases a with
    | logs => exact absurd rfl ha
    | rangeError => exact (dif_neg hrange) ▸ inside_nil _
    | error => exact (dif_neg hrange) ▸ inside_nil _
  | case5 start stop hle range hsmall hdec =>
    rw [getLogsSplitRecursive, if_neg hle]
    dsimp only
    rw [dif_pos hsmall, hdec]
    exact inside_nil _
  | case6 start stop hle range mid hlarge ihl ihr =>
    rw [getLogsSplitRecursive_halves (by omega) (.inl (by omega))]
    exact inside_halves (by omega) (by omega) ihl ihr

namespace Scan

variable {scan : Scan}

theorem scanActivityWindow_inside (w : ℕ × ℕ) : Inside w (scan.scanActivityWindow w) := by
  unfold scanActivityWindow
  split_ifs
  · exact inside_singleton w
  · exact getLogsSplitRecursive_inside _ w.1 w.2

theorem scanFactoryWindow_inside (pinned : Bool) (i : ℕ) (retried : Bool) (w : ℕ × ℕ) :
    Inside w (scan.scanFactoryWindow pinned i retried w) := by
  unfold scanFactoryWindow
  split_ifs
  · unfold getLogsWithRetry
    split
    · exact inside_singleton w
    · exact getLogsSplitRecursive_inside _ w.1 w.2
    · exact inside_nil w
  · exact inside_singleton w
  · exact inside_nil w

theorem fetchShard_inside (pinned : Bool) (start stop : ℕ) (q : Query) :
    Inside (start, stop) (scan.fetchShard pinned start stop q) := by
  refine inside_flatMap fun coarse hcoarse => ?_
  obtain ⟨hstart, -, hstop⟩ := blockWindows_inside hcoarse
  cases q with
  | activity =>
    refine inside_flatMap fun w hw => ?_
    obtain ⟨hstart', -, hstop'⟩ := blockWindows_inside hw
    exact (scanActivityWindow_inside w).mono
      (holds_mono (hstart.trans hstart') (hstop'.trans hstop))
  | factory i retried =>
    exact (scanFactoryWindow_inside pinned i retried coarse).mono (holds_mono hstart hstop)

theorem fetch_inside {start stop : ℕ} (hle : start ≤ stop) (q : Query) :
    Inside (start, stop) (scan.fetch start stop q) := by
  unfold fetch
  dsimp only
  split_ifs
  · exact fetchShard_inside false start stop q
  · refine inside_flatMap fun shard hshard => ?_
    exact (fetchShard_inside true shard.start shard.stop q).mono
      fun _ => distributeBlocks_inside hle hshard

/-- A scan reads no block outside its range. -/
theorem scanOnchain_inside {start stop : ℕ} (hle : start ≤ stop) {fetched : List (List (ℕ × ℕ))}
    (h : scan.scanOnchain start stop = some fetched) {b : ℕ} (hb : Obtained fetched b) :
    Holds (start, stop) b := by
  unfold scanOnchain at h
  split_ifs at h
  · obtain rfl := Option.some.inj h
    obtain ⟨r, hr, -⟩ := hb [] (List.mem_map.mpr ⟨.activity, List.mem_cons_self .., rfl⟩)
    cases hr
  · obtain rfl := Option.some.inj h
    obtain ⟨r, hr, hholds⟩ := hb (scan.fetch start stop .activity)
      (List.mem_map.mpr ⟨.activity, List.mem_cons_self .., rfl⟩)
    exact fetch_inside hle .activity r hr b hholds

/-! ## A scan that is answered -/

/-- Every first call of the scan is answered, with or without a pinned provider. -/
def Answered (scan : Scan) : Prop :=
  scan.stopped = false ∧ (∀ q w, scan.first q w = .logs) ∧ ∀ q w, scan.retry q w 0 = .logs

theorem fetchShard_obtained (h : scan.Answered) (pinned : Bool) {start stop b : ℕ}
    (hb : Holds (start, stop) b) (q : Query) :
    ∃ r ∈ scan.fetchShard pinned start stop q, Holds r b := by
  obtain ⟨-, hfirst, hretry⟩ := h
  obtain ⟨coarse, hcoarse, hholds⟩ := blockWindows_cover
    (max (max scan.factoryBatchSize scan.effectiveBatchSize) 1) hb
  suffices hwin : ∃ r ∈ scan.fetchCoarse pinned coarse q, Holds r b by
    obtain ⟨r, hr, hrb⟩ := hwin
    exact ⟨r, List.mem_flatMap.mpr ⟨coarse, hcoarse, hr⟩, hrb⟩
  cases q with
  | activity =>
    obtain ⟨w, hw, hwb⟩ := blockWindows_cover scan.effectiveBatchSize hholds
    refine ⟨w, List.mem_flatMap.mpr ⟨w, hw, ?_⟩, hwb⟩
    rw [scanActivityWindow, if_pos (hfirst .activity w)]
    exact List.mem_singleton_self w
  | factory i retried =>
    refine ⟨coarse, ?_, hholds⟩
    have hdecisive (halves : Bool) :
        decisive (scan.retry (.factory i retried) coarse) halves = some .logs := by
      simp [decisive, maxRetries, List.range_succ_eq_map, hretry]
    show coarse ∈ scan.scanFactoryWindow pinned i retried coarse
    unfold scanFactoryWindow
    split_ifs with hkind hlogs
    · rw [getLogsWithRetry, hdecisive]
      exact List.mem_singleton_self coarse
    · exact List.mem_singleton_self coarse
    · exact absurd (hfirst _ _) hlogs

/-- When every first call is answered, a scan reads every block of its range. -/
theorem obtained_of_answered (h : scan.Answered) (start stop : ℕ) :
    ∃ fetched, scan.scanOnchain start stop = some fetched ∧
      ∀ b, Holds (start, stop) b → Obtained fetched b := by
  refine ⟨scan.queries.map (scan.fetch start stop), ?_, ?_⟩
  · rw [scanOnchain, h.1, if_neg Bool.false_ne_true]
  · intro b hb ranges hranges
    obtain ⟨q, -, rfl⟩ := List.mem_map.mp hranges
    unfold fetch
    dsimp only
    split_ifs with hone
    · exact fetchShard_obtained h false hb q
    · have halive : scan.alive ≠ [] := by
        rintro hnil
        rw [hnil] at hone
        exact hone (Nat.zero_le _)
      obtain ⟨shard, hshard, hholds⟩ := distributeBlocks_cover halive hb
      obtain ⟨r, hr, hrb⟩ := fetchShard_obtained h true hholds q
      exact ⟨r, List.mem_flatMap.mpr ⟨shard, hshard, hr⟩, hrb⟩

end Scan

end MevScout.Jobs
