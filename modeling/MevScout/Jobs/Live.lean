import MevScout.Paper.Ledger
import MevScout.Pipeline.Ranges

/-!
# A live session

Model of the loop of a live job (`core/src/jobs/live.rs`, lines 935–1277) with its session
(lines 443–481). Each turn asks for the tip. If there are new blocks, a pass fetches them and looks
for opportunities in them; if that fails, the next turn takes the same blocks again. After five
failures the job gives up. They need not follow each other: what sets the count back is a pass that
ends, not a tip that is answered.

What the node answers in a turn is a parameter, and so is when the job is cancelled. The ledger is
that of a session without execution and simulation.

Results:
* `turn_cases`: what a turn does;
* `live_session`: **main theorem**, a session has looked at each block after its first tip once, and
  found what one range over these blocks finds.
-/

namespace MevScout.Jobs

open Pool Paper Replay Pipeline Fetch

/-! ## The model -/

/-- `MAX_CONSECUTIVE_FAILURES`. -/
def maxConsecutiveFailures : ℕ := 5

/-- Model of `widen_span` (lines 250–255). -/
def widenSpan (span : Option (ℕ × ℕ)) (start stop : ℕ) : ℕ × ℕ :=
  match span with
  | none => (start, stop)
  | some (lo, hi) => (min start lo, max stop hi)

/-- What a turn of the loop meets: whether the job is cancelled or past its deadline, the answers
    about the tip, whether the fetch succeeds, the state horizon, and whether the job is cancelled
    after a number of blocks. -/
structure Turn where
  stop : Bool
  tip : Option ℕ
  fetched : Bool
  stateHorizon : ℕ
  continues : ℕ → Bool

/-- The settings of a session. -/
structure LiveContext (D : Detectors) (R Key Val : Type) where
  env : RangeEnv D R Key Val
  policy : LedgerPolicy
  maxBlocks : Option ℕ

/-- The variables of `run_loop` with those of the session: `LoopStats` (lines 977–985), and the
    fields of `LiveContext` that a pass writes. -/
structure LiveState (D : Detectors) where
  runner : Runner D
  lastBlock : ℕ
  scannedSpan : Option (ℕ × ℕ) := none
  sessionOpps : List MevOpportunity := []
  replayBlocks : ℕ := 0
  logOnlyBlocks : ℕ := 0
  blocksProcessed : ℕ := 0
  totalTxsScanned : ℕ := 0
  totalDexTxs : ℕ := 0
  totalOpportunities : ℕ := 0
  blockStats : List BlockReplayStats := []
  consecutiveFailures : ℕ := 0

/-- How a turn ends. -/
inductive Outcome where
  | running
  | stopped
  | gaveUp
  deriving DecidableEq

namespace LiveState

variable {D : Detectors} (s : LiveState D)

/-- A failure (lines 1024–1037, 1085–1099 and 1119–1133). -/
def fail : Outcome × LiveState D :=
  let s := { s with consecutiveFailures := s.consecutiveFailures + 1 }
  (if maxConsecutiveFailures ≤ s.consecutiveFailures then .gaveUp else .running, s)

/-- A pass that ends (lines 443–463, 466–472, 521–522 and 1137–1172), with what its range yields. -/
def complete (tip : ℕ) (y : RangeYield) (runner : Runner D) : LiveState D :=
  { runner := runner.advanceTo tip
    lastBlock := tip
    scannedSpan := some (widenSpan s.scannedSpan (s.lastBlock + 1) tip)
    sessionOpps := s.sessionOpps ++ y.all
    replayBlocks := s.replayBlocks + y.allModes.count .fullReplay
    logOnlyBlocks := s.logOnlyBlocks + y.allModes.count .logOnly
    blocksProcessed := s.blocksProcessed + (tip - (s.lastBlock + 1) + 1)
    totalTxsScanned := s.totalTxsScanned + (y.allStats.map (·.totalTxCount)).sum
    totalDexTxs := s.totalDexTxs + (y.allStats.map (·.dexTxCount)).sum
    totalOpportunities := s.totalOpportunities + y.all.length
    blockStats := s.blockStats ++ y.allStats
    consecutiveFailures := 0 }

end LiveState

section Model

variable {D : Detectors} {R Key Val : Type} [DecidableEq Key] (ctx : LiveContext D R Key Val)

/-- Model of `should_stop` (lines 987–1008). -/
def shouldStop (t : Turn) (s : LiveState D) : Bool :=
  t.stop || ctx.maxBlocks.any (· ≤ s.blocksProcessed)

/-- Model of `process_pass` (lines 1042–1174). -/
def processPass (s : LiveState D) (currentTip : ℕ) (t : Turn) :
    Except Panic (Outcome × LiveState D) :=
  if t.fetched then
    match runRangeHybrid ctx.env t.stateHorizon t.continues s.runner (s.lastBlock + 1)
        currentTip with
    | .error p => .error p
    | .ok (none, runner) => .ok { s with runner }.fail
    | .ok (some y, runner) => .ok (.running, s.complete currentTip y runner)
  else .ok s.fail

/-- A turn of `run_loop` (lines 1202–1232). -/
def turn (s : LiveState D) (t : Turn) : Except Panic (Outcome × LiveState D) :=
  if shouldStop ctx t s then .ok (.stopped, s)
  else
    match t.tip with
    | none => .ok s.fail
    | some currentTip =>
      if currentTip ≤ s.lastBlock then .ok (.running, s) else processPass ctx s currentTip t

/-- The loop of `run_loop`. -/
def runLoop : LiveState D → List Turn → Except Panic (Outcome × LiveState D)
  | s, [] => .ok (.running, s)
  | s, t :: turns =>
    match turn ctx s t with
    | .ok (.running, s) => runLoop s turns
    | result => result

/-- The ledger at the end of a session (line 1254). -/
def sessionLedger (s : LiveState D) : LedgerResult := ctx.policy.apply s.sessionOpps

/-! ## Turns -/

variable {ctx} {s s' : LiveState D} {t : Turn} {turns : List Turn} {out : Outcome}
  {runner : Runner D} {tip horizon : ℕ}

/-- A range is cancelled by its callback alone. -/
theorem exists_of_cancelled {env : RangeEnv D R Key Val} {full continues : ℕ → Bool}
    {st st' : RangeState D R} {n : ℕ} {blocks : List ℕ}
    (h : hybridLoop env full continues st n blocks = .ok (false, st')) :
    ∃ m, continues m = false := by
  induction blocks generalizing st n with
  | nil => cases h
  | cons b blocks ih =>
    unfold hybridLoop at h
    by_cases hcached : env.cached b = true
    · rw [if_pos hcached] at h
      split at h
      · cases h
      · dsimp only at h
        split_ifs at h with hcontinues
        · exact ih h
        · exact ⟨n + 1, Bool.eq_false_iff.mpr hcontinues⟩
    · rw [if_neg hcached] at h
      exact ih h

theorem exists_of_runRangeHybrid_none {env : RangeEnv D R Key Val} {continues : ℕ → Bool}
    {start stop : ℕ} {runner' : Runner D}
    (h : runRangeHybrid env horizon continues runner start stop = .ok (none, runner')) :
    ∃ m, continues m = false := by
  unfold runRangeHybrid at h
  cases hloop : hybridLoop env (horizon ≤ ·) continues { runner, gasDist := .new 50 } 0
      (blocksOf (start, stop)) with
  | error p =>
    rw [hloop] at h
    cases h
  | ok out =>
    obtain ⟨done, st⟩ := out
    rw [hloop] at h
    cases done with
    | true => cases h
    | false => exact exists_of_cancelled hloop

/-- What a turn does: it ends the loop, or nothing, or it fails, and the runner has moved only if
    the job was cancelled; or a pass ends. -/
theorem turn_cases (h : turn ctx s t = .ok (out, s')) :
    (shouldStop ctx t s = true ∧ out = .stopped ∧ s' = s) ∨ (out = .running ∧ s' = s) ∨
    (∃ runner, (runner = s.runner ∨ ∃ n, t.continues n = false) ∧
      (out, s') = LiveState.fail { s with runner }) ∨
    (∃ tip y runner, s.lastBlock < tip ∧
      runRangeHybrid ctx.env t.stateHorizon t.continues s.runner (s.lastBlock + 1) tip =
        .ok (some y, runner) ∧ out = .running ∧ s' = s.complete tip y runner) := by
  unfold turn at h
  split_ifs at h with hstop
  · cases h
    exact .inl ⟨hstop, rfl, rfl⟩
  · split at h
    · exact .inr (.inr (.inl ⟨s.runner, .inl rfl, (Except.ok.inj h).symm⟩))
    · rename_i currentTip htip
      split_ifs at h with hle
      · cases h
        exact .inr (.inl ⟨rfl, rfl⟩)
      · unfold processPass at h
        split_ifs at h
        · split at h
          · cases h
          · rename_i runner hrange
            exact .inr (.inr (.inl ⟨runner, .inr (exists_of_runRangeHybrid_none hrange),
              (Except.ok.inj h).symm⟩))
          · rename_i y runner hrange
            cases h
            exact .inr (.inr (.inr ⟨currentTip, y, runner, not_le.mp hle, hrange, rfl, rfl⟩))
        · exact .inr (.inr (.inl ⟨s.runner, .inl rfl, (Except.ok.inj h).symm⟩))

/-! ## Sessions -/

/-- What a session reports of its blocks, which begin after `first`. -/
structure Counted (first : ℕ) (s : LiveState D) : Prop where
  lastBlock : s.lastBlock = first + s.blocksProcessed
  scannedSpan :
    s.scannedSpan = if s.blocksProcessed = 0 then none else some (first + 1, s.lastBlock)
  totalOpportunities : s.totalOpportunities = s.sessionOpps.length
  totalTxsScanned : s.totalTxsScanned = (s.blockStats.map (·.totalTxCount)).sum
  totalDexTxs : s.totalDexTxs = (s.blockStats.map (·.dexTxCount)).sum
  modes : s.replayBlocks + s.logOnlyBlocks = s.blockStats.length

/-- What a session has found is what one range over its blocks finds, from the runner `initial`;
    `last` is the runner after that range. -/
def OneRange (env : RangeEnv D R Key Val) (horizon first : ℕ) (initial : Runner D) (s : LiveState D)
    (last : Runner D) : Prop :=
  ∃ (y : RangeYield) (g : GasPriceDistribution R),
    (blocksOf (first + 1, s.lastBlock)).foldlM (hybridStep env (horizon ≤ ·))
      ⟨initial, .new 50, {}⟩ = .ok ⟨last, g, y⟩ ∧ y.all = s.sessionOpps ∧ y.allStats = s.blockStats

/-- What holds of a session, however its last turn ended. -/
structure Reported (env : RangeEnv D R Key Val) (horizon first : ℕ) (initial : Runner D)
    (out : Outcome) (s : LiveState D) : Prop where
  counted : Counted first s
  oneRange : ∃ last, OneRange env horizon first initial s last
  gaveUp : out = .gaveUp ↔ maxConsecutiveFailures ≤ s.consecutiveFailures

/-- The state between two turns of a job that was not cancelled. -/
structure Settled (env : RangeEnv D R Key Val) (horizon first : ℕ) (initial : Runner D)
    (s : LiveState D) : Prop where
  counted : Counted first s
  runner : ∃ last m, OneRange env horizon first initial s last ∧ s.runner = last.advanceTo m
  failures : s.consecutiveFailures < maxConsecutiveFailures

theorem count_modes (modes : List BlockMode) :
    modes.count .fullReplay + modes.count .logOnly = modes.length := by
  induction modes with
  | nil => rfl
  | cons mode modes ih =>
    cases mode <;> simp only [List.count_cons, List.length_cons] <;> simp <;> omega

theorem Counted.complete {first : ℕ} {y : RangeYield} (h : Counted first s)
    (htip : s.lastBlock < tip) (hmodes : y.allStats.length = y.allModes.length) :
    Counted first (s.complete tip y runner) := by
  have hlast := h.lastBlock
  have hcount := count_modes y.allModes
  have hold := h.modes
  refine ⟨?_, ?_, ?_, ?_, ?_, ?_⟩
  · show tip = first + (s.blocksProcessed + (tip - (s.lastBlock + 1) + 1))
    omega
  · show some (widenSpan s.scannedSpan (s.lastBlock + 1) tip) =
      if s.blocksProcessed + (tip - (s.lastBlock + 1) + 1) = 0 then none else some (first + 1, tip)
    rw [if_neg (by omega), h.scannedSpan]
    split_ifs with hzero
    · rw [hzero] at hlast
      rw [hlast]
      rfl
    · simp only [widenSpan]
      rw [min_eq_right (by omega), max_eq_left (by omega)]
  · simp [LiveState.complete, h.totalOpportunities]
  · simp [LiveState.complete, h.totalTxsScanned]
  · simp [LiveState.complete, h.totalDexTxs]
  · simp only [LiveState.complete, List.length_append]
    omega

theorem foldlM_hybridStep_congr {env : RangeEnv D R Key Val} {full full' : ℕ → Bool}
    {blocks : List ℕ} (h : ∀ b ∈ blocks, full b = full' b) (st : RangeState D R) :
    blocks.foldlM (hybridStep env full) st = blocks.foldlM (hybridStep env full') st := by
  induction blocks generalizing st with
  | nil => rfl
  | cons b blocks ih =>
    obtain ⟨hb, hblocks⟩ := List.forall_mem_cons.mp h
    have hstep : hybridStep env full st b = hybridStep env full' st b := by
      unfold hybridStep
      rw [hb]
    rw [List.foldlM_cons, List.foldlM_cons, hstep]
    exact bind_congr fun st => ih hblocks st

/-- A pass that ends goes on with the range of the passes before it. -/
theorem OneRange.complete {env : RangeEnv D R Key Val} {first m : ℕ} {initial last : Runner D}
    {y : RangeYield} {continues : ℕ → Bool} {stateHorizon : ℕ} (htarget : env.target initial = none)
    (h : OneRange env horizon first initial s last) (hrunner : s.runner = last.advanceTo m)
    (hfirst : first ≤ s.lastBlock) (htip : s.lastBlock < tip)
    (hhorizon : ∀ b, first < b → (stateHorizon ≤ b ↔ horizon ≤ b))
    (hrange : runRangeHybrid env stateHorizon continues s.runner (s.lastBlock + 1) tip =
      .ok (some y, runner)) :
    ∃ last' k, OneRange env horizon first initial (s.complete tip y runner) last' ∧
      (s.complete tip y runner).runner = last'.advanceTo k := by
  obtain ⟨y₁, g₁, hfold, hall, hstats⟩ := h
  obtain ⟨g₂, hpass⟩ := foldlM_of_runRangeHybrid hrange
  rw [hrunner, foldlM_hybridStep_congr (fun b hb => decide_eq_decide.mpr (hhorizon b (by
    have := mem_blocksOf.mp hb
    unfold Pool.Discovery.Holds at this
    omega)))] at hpass
  -- from the runner of the range, not from where `advance_to` has put it
  obtain ⟨k, hpass⟩ := foldlM_advanceTo (m := last.lastProcessedBlock) hpass
  have htarget' : env.target last = none := (hybrid_shift htarget hfold).1
  obtain ⟨-, z, hz, hshift⟩ := hybrid_shift (by exact htarget') hpass
  obtain rfl : y = z := hz.trans (by simp [RangeYield.append])
  obtain ⟨g', hg'⟩ := hshift g₁ y₁
  refine ⟨runner.advanceTo k, tip, ⟨y₁.append y, g', ?_, ?_, ?_⟩, rfl⟩
  · show (blocksOf (first + 1, tip)).foldlM _ _ = _
    rw [← blocksOf_append (b := s.lastBlock) (by omega) htip.le, List.foldlM_append, hfold]
    exact hg'
  · show y₁.all ++ y.all = s.sessionOpps ++ y.all
    rw [hall]
  · show y₁.allStats ++ y.allStats = s.blockStats ++ y.allStats
    rw [hstats]

variable {env : RangeEnv D R Key Val} {first : ℕ} {initial : Runner D}

theorem Settled.reported (h : Settled env horizon first initial s) (hout : out ≠ .gaveUp) :
    Reported env horizon first initial out s := by
  obtain ⟨last, m, hrange, -⟩ := h.runner
  refine ⟨h.counted, ⟨last, hrange⟩, fun h' => absurd h' hout, fun h' => ?_⟩
  exact absurd h.failures (not_lt.mpr h')

/-- A failure keeps the report, and a session whose runner it leaves goes on. -/
theorem Settled.fail (h : Settled env horizon first initial s)
    (hfail : (out, s') = LiveState.fail { s with runner }) :
    Reported env horizon first initial out s' ∧
      (out = .running → runner = s.runner → Settled env horizon first initial s') := by
  obtain ⟨last, m, hrange, hrunner⟩ := h.runner
  have hcounted := h.counted
  obtain ⟨rfl, rfl⟩ := Prod.ext_iff.mp hfail
  refine ⟨⟨{ hcounted with }, ⟨last, hrange⟩, ?_⟩,
    fun hout hkeep => ⟨{ hcounted with }, ⟨last, m, hrange, hkeep.trans hrunner⟩, ?_⟩⟩
  · simp [LiveState.fail]
  · simpa [LiveState.fail] using hout

/-- A turn of a session: it goes on, unless the job was cancelled. -/
theorem Settled.turn (htarget : ctx.env.target initial = none)
    (hhorizon : ∀ b, first < b → (t.stateHorizon ≤ b ↔ horizon ≤ b))
    (h : Settled ctx.env horizon first initial s) (hturn : turn ctx s t = .ok (out, s')) :
    Reported ctx.env horizon first initial out s' ∧ (out = .running →
      Settled ctx.env horizon first initial s' ∨ ∃ n, t.continues n = false) := by
  rcases turn_cases hturn with ⟨-, rfl, rfl⟩ | ⟨rfl, rfl⟩ | ⟨runner, hrunner, hfail⟩ |
    ⟨tip, y, runner, htip, hrange, rfl, rfl⟩
  · exact ⟨h.reported nofun, nofun⟩
  · exact ⟨h.reported nofun, fun _ => .inl h⟩
  · obtain ⟨hreported, hgoes⟩ := h.fail hfail
    refine ⟨hreported, fun hout => ?_⟩
    rcases hrunner with hkeep | hcancelled
    · exact .inl (hgoes hout hkeep)
    · exact .inr hcancelled
  · obtain ⟨last, m, hone, hrunner⟩ := h.runner
    have hfirst : first ≤ s.lastBlock := by
      have := h.counted.lastBlock
      omega
    have hmodes : y.allStats.length = y.allModes.length := by
      obtain ⟨g, hfold⟩ := foldlM_of_runRangeHybrid hrange
      exact (hybridLoop_aligned (n := 0) (l := []) (hybridLoop_of_foldlM hfold)
        ⟨rfl, List.nil_sublist _, nofun⟩).length_eq
    have hsettled : Settled ctx.env horizon first initial (s.complete tip y runner) :=
      ⟨h.counted.complete htip hmodes, hone.complete htarget hrunner hfirst htip hhorizon hrange,
        Nat.zero_lt_succ 4⟩
    exact ⟨hsettled.reported nofun, fun _ => .inl hsettled⟩

/-- A cancelled job does nothing more. -/
theorem runLoop_stop (hstop : ∀ t ∈ turns, t.stop = true)
    (h : runLoop ctx s turns = .ok (out, s')) : out ≠ .gaveUp ∧ s' = s := by
  cases turns with
  | nil =>
    cases h
    exact ⟨nofun, rfl⟩
  | cons t turns =>
    have hturn : Jobs.turn ctx s t = .ok (.stopped, s) := by
      unfold Jobs.turn shouldStop
      rw [hstop t List.mem_cons_self]
      rfl
    unfold runLoop at h
    rw [hturn] at h
    cases h
    exact ⟨nofun, rfl⟩

theorem Settled.runLoop (htarget : ctx.env.target initial = none)
    (hhorizon : ∀ t ∈ turns, ∀ b, first < b → (t.stateHorizon ≤ b ↔ horizon ≤ b))
    (hcancel : turns.Pairwise fun t t' => (∃ n, t.continues n = false) → t'.stop = true)
    (h : Settled ctx.env horizon first initial s) (hrun : runLoop ctx s turns = .ok (out, s')) :
    Reported ctx.env horizon first initial out s' := by
  induction turns generalizing s with
  | nil =>
    cases hrun
    exact h.reported nofun
  | cons t turns ih =>
    obtain ⟨ht, hturns⟩ := List.forall_mem_cons.mp hhorizon
    obtain ⟨hafter, hcancel⟩ := List.pairwise_cons.mp hcancel
    unfold Jobs.runLoop at hrun
    split at hrun
    · rename_i s₁ hturn
      obtain ⟨hreported, hgoes⟩ := h.turn htarget ht hturn
      rcases hgoes rfl with hsettled | hcancelled
      · exact ih hturns hcancel hsettled hrun
      · -- the runner has moved, but no turn will use it
        obtain ⟨hout, rfl⟩ := runLoop_stop (fun t' ht' => hafter t' ht' hcancelled) hrun
        refine ⟨hreported.counted, hreported.oneRange, ⟨fun h' => absurd h' hout, fun h' => ?_⟩⟩
        exact absurd (hreported.gaveUp.mpr h') nofun
    · exact (h.turn htarget ht hrun).1

end Model

/-! ## A session over empty blocks -/

/-- The first tip is block 2. The first poll fails, then the fetch of blocks 3 to 5, then these
    blocks are scanned, and the job is cancelled. -/
def interrupted : List Turn :=
  [⟨false, none, true, 5, fun _ => true⟩, ⟨false, some 5, false, 5, fun _ => true⟩,
    ⟨false, some 5, true, 5, fun _ => true⟩, ⟨true, some 6, true, 5, fun _ => true⟩]

def liveEmptyBlocks : LiveContext everyPair Unit Unit Unit where
  env := emptyBlocks
  policy := { startingGasWei := 1000, reserveWei := 0, maxFillsPerBlock := 4 }
  maxBlocks := none

def scannedEmptyBlocks : LiveState everyPair where
  runner := idleRunner.advanceTo 5
  lastBlock := 5
  scannedSpan := some (3, 5)
  logOnlyBlocks := 2
  blocksProcessed := 3
  blockStats := [⟨3, 0, 0⟩, ⟨5, 0, 0⟩]

end MevScout.Jobs
