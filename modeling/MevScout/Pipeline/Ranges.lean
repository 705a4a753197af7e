import MevScout.Fetch.Runs
import MevScout.Pipeline.Fallback
import MevScout.Pipeline.Gas

/-!
# Ranges of blocks

Model of `run_range_hybrid` (`core/src/pipeline/runner.rs`, lines 1313–1455) over the blocks of
`Pipeline/Runner`. A block that is not in the cache is passed over. One below the state horizon is
read from its logs, another one is replayed, or read from its logs where the replay fails. The gas
prices of the replayed blocks set the percentile for the next ones. The capture of the pending
block is left out.

What the cache, the RPC and the EVM answer is a parameter.

Results:
* `hybridTryFullReplayBlock_eq`: the processing of a block is that of `Pipeline/Runner`;
* `hybrid_aligned`: the statistics and the modes of a range stand for the same blocks of it;
* `runRangeHybrid_append`: two ranges that follow each other are one.
-/

namespace MevScout.Pipeline

open Pool Paper Replay Fetch

/-! ## The gas model -/

/-- Model of `GasModel` (`core/src/types/strategy.rs`, lines 158–177). -/
inductive GasModel where
  | historicalExact
  | fixed
  | distribution (p : ℕ)
  | live
  deriving DecidableEq

/-- Model of `target_percentile` (`strategy.rs`, lines 226–232). -/
def GasModel.targetPercentile : GasModel → Option ℕ
  | .distribution p => some p
  | _ => none

/-- Model of `gas_model_target_percentile` (lines 593–599). -/
def gasModelTargetPercentile (m : GasModel) : Option ℕ :=
  match m.targetPercentile with
  | some p => some p
  | none => if m = .historicalExact then some 90 else none

/-- The two fields of `GasConfig` that the runner reads and writes, among the settings of the
    detectors. -/
structure GasSettings (D : Detectors) where
  gasModel : D.Settings → GasModel
  setPercentile : D.Settings → Option ℕ → D.Settings

/-! ## The model -/

/-- Model of `BlockMode` (`core/src/pipeline/mod.rs`). -/
inductive BlockMode where
  | fullReplay
  | logOnly
  deriving DecidableEq

/-- What the cache and the RPC answer for each block. The fallback reads them once more. -/
structure RangeEnv (D : Detectors) (R Key Val : Type) where
  rt : TaxRuntime
  gas : GasSettings D
  ratioOf : ℕ → ℕ → R
  half : R
  hasCachedBlock : ℕ → Except String Bool
  replayer : ℕ → BlockReplayer Key Val
  fallback : ℕ → BlockReplayer Key Val
  header : ℕ → Option GasHeader

/-- The three vectors that `run_range_hybrid` returns. -/
structure RangeYield where
  all : List MevOpportunity := []
  allStats : List BlockReplayStats := []
  allModes : List BlockMode := []

/-- The yield of one range, then that of another one. -/
def RangeYield.append (y z : RangeYield) : RangeYield :=
  ⟨y.all ++ z.all, y.allStats ++ z.allStats, y.allModes ++ z.allModes⟩

/-- The variables of the loop over a range. -/
structure RangeState (D : Detectors) (R : Type) where
  runner : Runner D
  gasDist : GasPriceDistribution R
  yield : RangeYield := {}

section Model

variable {D : Detectors} {R Key Val : Type} [DecidableEq Key]

namespace RangeEnv

variable (env : RangeEnv D R Key Val)

/-- Model of `hybrid_skip_uncached_block` (lines 628–637), negated. -/
def cached (b : ℕ) : Bool :=
  match env.hasCachedBlock b with
  | .ok cached => cached
  | .error _ => false

/-- The percentile that the gas model of a runner asks for. -/
def target (s : Runner D) : Option ℕ := gasModelTargetPercentile (env.gas.gasModel s.settings)

/-- Model of `apply_percentile_gas_price` (lines 601–605). -/
def applyPercentileGasPrice (s : Runner D) (g : GasPriceDistribution R) : Runner D :=
  match env.target s with
  | some p => { s with settings := env.gas.setPercentile s.settings (g.percentile p) }
  | none => s

/-- Model of `hybrid_try_full_replay_block` (lines 652–696) with the mode and the gas prices. -/
def fullReplayBlock (s : Runner D) (g : GasPriceDistribution R) (b : ℕ) :
    Except Panic (Option (List MevOpportunity × BlockReplayStats × BlockMode) ×
      Runner D × GasPriceDistribution R) :=
  match runBlock env.rt (env.replayer b) s b with
  | .error p => .error p
  | .ok (.ok (opps, stats, prices), s) =>
    .ok (some (opps, stats, .fullReplay), s.commit,
      feedGasDistribution env.ratioOf env.half g prices (env.header b))
  | .ok (.error _, s) =>
    (hybridTryLogOnlyBlock env.rt (env.fallback b) s.rollBack b).map fun (y, s) =>
      (y.map fun (opps, stats) => (opps, stats, .logOnly), s, g)

/-- A block of the cache (lines 1363–1397). -/
def processBlock (full : Bool) (s : Runner D) (g : GasPriceDistribution R) (b : ℕ) :
    Except Panic (Option (List MevOpportunity × BlockReplayStats × BlockMode) ×
      Runner D × GasPriceDistribution R) :=
  let s := env.applyPercentileGasPrice s g
  if full then env.fullReplayBlock s g b
  else (hybridTryLogOnlyBlock env.rt (env.replayer b) s b).map fun (y, s) =>
    (y.map fun (opps, stats) => (opps, stats, .logOnly), s, g)

end RangeEnv

/-- Model of `hybrid_commit_success` (lines 639–650). -/
def RangeYield.commit (y : RangeYield) :
    Option (List MevOpportunity × BlockReplayStats × BlockMode) → RangeYield
  | some (opps, stats, mode) => y.append ⟨opps, [stats], [mode]⟩
  | none => y

/-- The loop of `run_range_hybrid` (lines 1357–1405), which a callback may end. -/
def hybridLoop (env : RangeEnv D R Key Val) (full : ℕ → Bool) (continues : ℕ → Bool) :
    RangeState D R → ℕ → List ℕ → Except Panic (Bool × RangeState D R)
  | st, _, [] => .ok (true, st)
  | st, processed, b :: blocks =>
    if env.cached b then
      match env.processBlock (full b) st.runner st.gasDist b with
      | .error p => .error p
      | .ok (y, runner, gasDist) =>
        let st : RangeState D R := ⟨runner, gasDist, st.yield.commit y⟩
        if continues (processed + 1) then hybridLoop env full continues st (processed + 1) blocks
        else .ok (false, st)
    else hybridLoop env full continues st processed blocks

/-- Model of `run_range_hybrid` (lines 1313–1455): its result, `none` for `Cancelled`, and the
    runner that it leaves. -/
def runRangeHybrid (env : RangeEnv D R Key Val) (stateHorizon : ℕ) (continues : ℕ → Bool)
    (s : Runner D) (start stop : ℕ) : Except Panic (Option RangeYield × Runner D) :=
  (hybridLoop env (stateHorizon ≤ ·) continues { runner := s, gasDist := .new 50 } 0
    (blocksOf (start, stop))).map fun (done, st) =>
      (if done then some st.yield else none, st.runner)

/-! ## A block -/

variable {env : RangeEnv D R Key Val} {s s' : Runner D} {g g' : GasPriceDistribution R}
  {b : ℕ} {full : Bool} {rt : TaxRuntime} {r : BlockReplayer Key Val}
  {y : Option (List MevOpportunity × BlockReplayStats × BlockMode)}

/-- Up to the mode and the gas prices, a replayed block is that of the runner. -/
theorem hybridTryFullReplayBlock_eq : (env.fullReplayBlock s g b).map
    (fun (y, s, _) => (y.map fun (opps, stats, _) => (opps, stats), s)) =
      hybridTryFullReplayBlock env.rt (env.replayer b) (env.fallback b) s b := by
  unfold RangeEnv.fullReplayBlock hybridTryFullReplayBlock
  rcases runBlock env.rt (env.replayer b) s b with p | ⟨e | ⟨opps, stats, prices⟩, s'⟩
  · rfl
  · dsimp only
    rcases hybridTryLogOnlyBlock env.rt (env.fallback b) s'.rollBack b with
      p | ⟨_ | ⟨opps, stats⟩, s'⟩
    · rfl
    · rfl
    · rfl
  · rfl

theorem settings_pushRejections (rows : List (ℕ × MevOpportunity × ScanReject)) :
    (s.pushRejections rows).settings = s.settings := by
  unfold Runner.pushRejections
  split_ifs <;> rfl

theorem settings_finalize (opps : List MevOpportunity) (path : DetectionPath) :
    (s.finalizeBlockOpportunities opps b path).2.settings = s.settings := by
  have hcap (t : Runner D) (opps : List MevOpportunity) :
      (t.capCandidates opps b).2.settings = t.settings := by
    unfold Runner.capCandidates
    split_ifs
    · exact settings_pushRejections _
    · rfl
  unfold Runner.finalizeBlockOpportunities
  dsimp only
  split_ifs
  all_goals exact (hcap _ _).trans (settings_pushRejections _)

/-- What a block returns is about that block, and it leaves the settings. -/
theorem runBlock_spec {res : Except String BlockYield} (h : runBlock rt r s b = .ok (res, s')) :
    s'.settings = s.settings ∧ ∀ opps stats prices, res = .ok (opps, stats, prices) →
      stats.blockNumber = b := by
  unfold runBlock at h
  split at h
  · cases h
    exact ⟨rfl, nofun⟩
  · split_ifs at h
    · cases h
      refine ⟨rfl, ?_⟩
      rintro opps stats prices ⟨⟩
      rfl
    · dsimp only at h
      split at h
      · cases h
      · cases h
        exact ⟨rfl, nofun⟩
      · cases h
        refine ⟨settings_finalize _ _, ?_⟩
        rintro opps stats prices ⟨⟩
        rfl

omit [DecidableEq Key] in
theorem syncBlockFromLogs_spec {res : Except String BlockYield}
    (h : syncBlockFromLogs rt r s b = .ok (res, s')) :
    s'.settings = s.settings ∧ ∀ opps stats prices, res = .ok (opps, stats, prices) →
      stats.blockNumber = b := by
  unfold syncBlockFromLogs at h
  split at h
  · cases h
    exact ⟨rfl, nofun⟩
  · split at h
    · cases h
      exact ⟨rfl, nofun⟩
    · split_ifs at h
      · cases h
        refine ⟨rfl, ?_⟩
        rintro opps stats prices ⟨⟩
        rfl
      · obtain ⟨l, -, h⟩ := bind_eq_ok.mp h
        cases h
        refine ⟨settings_finalize _ _, ?_⟩
        rintro opps stats prices ⟨⟩
        rfl

omit [DecidableEq Key] in
theorem hybridTryLogOnlyBlock_spec {res : Option (List MevOpportunity × BlockReplayStats)}
    (h : hybridTryLogOnlyBlock rt r s b = .ok (res, s')) :
    s'.settings = s.settings ∧ ∀ opps stats, res = some (opps, stats) → stats.blockNumber = b := by
  unfold hybridTryLogOnlyBlock at h
  cases hsync : syncBlockFromLogs rt r s b with
  | error p =>
    rw [hsync] at h
    cases h
  | ok out =>
    obtain ⟨res, t⟩ := out
    obtain ⟨hsettings, hblock⟩ := syncBlockFromLogs_spec hsync
    rw [hsync] at h
    cases res with
    | error e =>
      cases h
      exact ⟨hsettings, nofun⟩
    | ok out =>
      obtain ⟨opps, stats, prices⟩ := out
      cases h
      refine ⟨hsettings, ?_⟩
      rintro opps stats ⟨⟩
      exact hblock _ _ _ rfl

/-- What a block returns is about that block; a replay is one that was asked for. -/
structure OfBlock (full : Bool) (b : ℕ)
    (y : Option (List MevOpportunity × BlockReplayStats × BlockMode)) : Prop where
  blockNumber : ∀ e ∈ y, e.2.1.blockNumber = b
  fullReplay : ∀ e ∈ y, e.2.2 = .fullReplay → full = true

theorem fullReplayBlock_spec (h : env.fullReplayBlock s g b = .ok (y, s', g')) :
    OfBlock true b y ∧ s'.settings = s.settings := by
  unfold RangeEnv.fullReplayBlock at h
  split at h
  · cases h
  · rename_i opps stats prices t hrun
    obtain ⟨hsettings, hblock⟩ := runBlock_spec hrun
    cases h
    refine ⟨⟨?_, fun _ _ _ => rfl⟩, hsettings⟩
    rintro _ ⟨⟩
    exact hblock _ _ _ rfl
  · rename_i e t hrun
    obtain ⟨hsettings, -⟩ := runBlock_spec hrun
    cases hlogs : hybridTryLogOnlyBlock env.rt (env.fallback b) t.rollBack b with
    | error p =>
      rw [hlogs] at h
      cases h
    | ok out =>
      obtain ⟨res, u⟩ := out
      obtain ⟨hsettings', hblock⟩ := hybridTryLogOnlyBlock_spec hlogs
      rw [hlogs] at h
      cases h
      refine ⟨⟨?_, fun _ _ _ => rfl⟩, hsettings'.trans hsettings⟩
      intro e he
      obtain ⟨⟨opps, stats⟩, hres, rfl⟩ := Option.map_eq_some_iff.mp he
      exact hblock opps stats hres

omit [DecidableEq Key] in
theorem settings_applyPercentile (h : env.target s = none) :
    env.applyPercentileGasPrice s g = s := by
  unfold RangeEnv.applyPercentileGasPrice
  rw [h]

theorem processBlock_spec (h : env.processBlock full s g b = .ok (y, s', g')) :
    OfBlock full b y ∧ s'.settings = (env.applyPercentileGasPrice s g).settings := by
  unfold RangeEnv.processBlock at h
  dsimp only at h
  split_ifs at h with hfull
  · rw [hfull]
    exact fullReplayBlock_spec h
  · cases hlogs : hybridTryLogOnlyBlock env.rt (env.replayer b)
        (env.applyPercentileGasPrice s g) b with
    | error p =>
      rw [hlogs] at h
      cases h
    | ok out =>
      obtain ⟨res, u⟩ := out
      obtain ⟨hsettings, hblock⟩ := hybridTryLogOnlyBlock_spec hlogs
      rw [hlogs] at h
      cases h
      refine ⟨⟨fun e he => ?_, fun e he hmode => ?_⟩, hsettings⟩
      · obtain ⟨⟨opps, stats⟩, hres, rfl⟩ := Option.map_eq_some_iff.mp he
        exact hblock opps stats hres
      · obtain ⟨⟨opps, stats⟩, hres, rfl⟩ := Option.map_eq_some_iff.mp he
        cases hmode

/-- Without a percentile, a block does not depend on the gas prices before it. -/
theorem processBlock_gasDist (htarget : env.target s = none)
    (h : env.processBlock full s g b = .ok (y, s', g')) (k : GasPriceDistribution R) :
    ∃ k', env.processBlock full s k b = .ok (y, s', k') := by
  unfold RangeEnv.processBlock at h ⊢
  rw [settings_applyPercentile htarget] at h ⊢
  dsimp only at h ⊢
  split_ifs at h ⊢
  · unfold RangeEnv.fullReplayBlock at h ⊢
    split at h
    · cases h
    · rename_i opps stats prices t hrun
      cases h
      exact ⟨_, rfl⟩
    · rename_i e t hrun
      cases hlogs : hybridTryLogOnlyBlock env.rt (env.fallback b) t.rollBack b with
      | error p =>
        rw [hlogs] at h
        cases h
      | ok out =>
        rw [hlogs] at h
        cases h
        exact ⟨k, rfl⟩
  · cases hlogs : hybridTryLogOnlyBlock env.rt (env.replayer b) s b with
    | error p =>
      rw [hlogs] at h
      cases h
    | ok out =>
      rw [hlogs] at h
      cases h
      exact ⟨k, rfl⟩

/-! ## The last block -/

/-- Model of `advance_to` (lines 408–410). -/
def Runner.advanceTo (s : Runner D) (b : ℕ) : Runner D := { s with lastProcessedBlock := b }

variable {m : ℕ}

theorem finalize_advanceTo (opps : List MevOpportunity) (path : DetectionPath) :
    (s.advanceTo m).finalizeBlockOpportunities opps b path =
      ((s.finalizeBlockOpportunities opps b path).1,
        (s.finalizeBlockOpportunities opps b path).2.advanceTo m) := by
  have hpush (t : Runner D) (rows : List (ℕ × MevOpportunity × ScanReject)) :
      (t.advanceTo m).pushRejections rows = (t.pushRejections rows).advanceTo m := by
    unfold Runner.pushRejections Runner.advanceTo
    dsimp only
    split_ifs <;> rfl
  have hretain : (s.advanceTo m).retainWithRejections (suppressSupersededArbs opps) b =
      ((s.retainWithRejections (suppressSupersededArbs opps) b).1,
        (s.retainWithRejections (suppressSupersededArbs opps) b).2.advanceTo m) :=
    Prod.ext rfl (hpush _ _)
  have hcap (t : Runner D) (opps : List MevOpportunity) : (t.advanceTo m).capCandidates opps b =
      ((t.capCandidates opps b).1, (t.capCandidates opps b).2.advanceTo m) := by
    unfold Runner.capCandidates
    rw [show (t.advanceTo m).maxCandidatesPerTx = t.maxCandidatesPerTx from rfl]
    split_ifs
    · exact Prod.ext rfl (hpush _ _)
    · rfl
  unfold Runner.finalizeBlockOpportunities
  rw [hretain]
  dsimp only
  rw [hcap]
  unfold Runner.advanceTo
  dsimp only
  split_ifs <;> rfl

theorem finish_advanceTo (l : BlockLoop D) (total : ℕ) (prices : List ℕ) (path : DetectionPath) :
    (s.advanceTo m).finish l b total prices path = s.finish l b total prices path := by
  unfold Runner.finish
  rw [show (s.advanceTo m).leave l = (s.leave l).advanceTo m from rfl, finalize_advanceTo]
  rfl

/-- The last block is not read by a block, and written at most at its end. -/
theorem runBlock_advanceTo {res : Except String BlockYield}
    (h : runBlock rt r s b = .ok (res, s')) :
    ∃ k, runBlock rt r (s.advanceTo m) b = .ok (res, s'.advanceTo k) := by
  unfold runBlock at h ⊢
  split at h
  · cases h
    exact ⟨m, rfl⟩
  · split_ifs at h ⊢
    · cases h
      exact ⟨m, rfl⟩
    · have hbegun : (s.advanceTo m).begun = s.begun.advanceTo m := rfl
      have hargs (block : BlockData) (txs : List TxData) :
          (s.advanceTo m).args b block txs = s.args b block txs := rfl
      have hloop : (s.begun.advanceTo m).loop b = s.begun.loop b := rfl
      have hview : view (s.advanceTo m).poolManager = view s.poolManager := rfl
      dsimp only at h ⊢
      rw [hbegun]
      simp only [hargs, hloop, hview, finish_advanceTo]
      split at h
      · cases h
      · rename_i e l hreplay
        cases h
        exact ⟨m, rfl⟩
      · rename_i l hreplay
        cases h
        exact ⟨b, rfl⟩

omit [DecidableEq Key] in
theorem syncBlockFromLogs_advanceTo {res : Except String BlockYield}
    (h : syncBlockFromLogs rt r s b = .ok (res, s')) :
    ∃ k, syncBlockFromLogs rt r (s.advanceTo m) b = .ok (res, s'.advanceTo k) := by
  unfold syncBlockFromLogs at h ⊢
  split at h
  · cases h
    exact ⟨m, rfl⟩
  · split at h
    · cases h
      exact ⟨m, rfl⟩
    · split_ifs at h ⊢
      · cases h
        exact ⟨m, rfl⟩
      · obtain ⟨l, hl, h⟩ := bind_eq_ok.mp h
        cases h
        exact ⟨b, bind_eq_ok.mpr ⟨l, hl, by rw [← finish_advanceTo]; rfl⟩⟩

omit [DecidableEq Key] in
theorem hybridTryLogOnlyBlock_advanceTo {res : Option (List MevOpportunity × BlockReplayStats)}
    (h : hybridTryLogOnlyBlock rt r s b = .ok (res, s')) :
    ∃ k, hybridTryLogOnlyBlock rt r (s.advanceTo m) b = .ok (res, s'.advanceTo k) := by
  unfold hybridTryLogOnlyBlock at h ⊢
  cases hsync : syncBlockFromLogs rt r s b with
  | error p =>
    rw [hsync] at h
    cases h
  | ok out =>
    obtain ⟨res, t⟩ := out
    obtain ⟨k, hk⟩ := syncBlockFromLogs_advanceTo (m := m) hsync
    rw [hsync] at h
    rw [hk]
    cases res with
    | error e =>
      cases h
      exact ⟨k, rfl⟩
    | ok out =>
      cases h
      exact ⟨k, rfl⟩

theorem processBlock_advanceTo (h : env.processBlock full s g b = .ok (y, s', g')) :
    ∃ k, env.processBlock full (s.advanceTo m) g b = .ok (y, s'.advanceTo k, g') := by
  have happly : env.applyPercentileGasPrice (s.advanceTo m) g =
      (env.applyPercentileGasPrice s g).advanceTo m := by
    unfold RangeEnv.applyPercentileGasPrice
    rw [show env.target (s.advanceTo m) = env.target s from rfl]
    cases env.target s <;> rfl
  unfold RangeEnv.processBlock at h ⊢
  rw [happly]
  dsimp only at h ⊢
  split_ifs at h ⊢
  · unfold RangeEnv.fullReplayBlock at h ⊢
    split at h
    · cases h
    · rename_i opps stats prices t hrun
      obtain ⟨k, hk⟩ := runBlock_advanceTo (m := m) hrun
      cases h
      rw [hk]
      exact ⟨k, rfl⟩
    · rename_i e t hrun
      obtain ⟨k, hk⟩ := runBlock_advanceTo (m := m) hrun
      rw [hk]
      cases hlogs : hybridTryLogOnlyBlock env.rt (env.fallback b) t.rollBack b with
      | error p =>
        rw [hlogs] at h
        cases h
      | ok out =>
        obtain ⟨res, u⟩ := out
        obtain ⟨j, hj⟩ := hybridTryLogOnlyBlock_advanceTo (m := k) hlogs
        rw [hlogs] at h
        cases h
        refine ⟨j, ?_⟩
        dsimp only
        rw [show (t.advanceTo k).rollBack = t.rollBack.advanceTo k from rfl, hj]
        rfl
  · cases hlogs : hybridTryLogOnlyBlock env.rt (env.replayer b)
        (env.applyPercentileGasPrice s g) b with
    | error p =>
      rw [hlogs] at h
      cases h
    | ok out =>
      obtain ⟨res, u⟩ := out
      obtain ⟨k, hk⟩ := hybridTryLogOnlyBlock_advanceTo (m := m) hlogs
      rw [hlogs] at h
      cases h
      rw [hk]
      exact ⟨k, rfl⟩

/-! ## A range -/

namespace RangeYield

variable (y z w : RangeYield)

theorem append_assoc : (y.append z).append w = y.append (z.append w) := by
  simp [append, List.append_assoc]

theorem append_nil : y.append {} = y := by
  simp [append]

theorem commit_append (out : Option (List MevOpportunity × BlockReplayStats × BlockMode)) :
    y.commit out = y.append (RangeYield.commit {} out) := by
  cases out with
  | none => exact y.append_nil.symm
  | some out => simp [commit, append]

end RangeYield

/-- The statistics of a yield are of blocks of a list, in order, each with its mode. -/
structure Aligned (full : ℕ → Bool) (blocks : List ℕ) (y : RangeYield) : Prop where
  length_eq : y.allStats.length = y.allModes.length
  blocks_sub : (y.allStats.map (·.blockNumber)).Sublist blocks
  fullReplay : ∀ e ∈ y.allStats.zip y.allModes, e.2 = .fullReplay → full e.1.blockNumber = true

theorem Aligned.append {full : ℕ → Bool} {l l' : List ℕ} {y z : RangeYield}
    (h : Aligned full l y) (h' : Aligned full l' z) : Aligned full (l ++ l') (y.append z) := by
  refine ⟨?_, ?_, ?_⟩
  · simp [RangeYield.append, h.length_eq, h'.length_eq]
  · simpa [RangeYield.append] using h.blocks_sub.append h'.blocks_sub
  · simp only [RangeYield.append, List.zip_append h.length_eq]
    exact List.forall_mem_append.mpr ⟨h.fullReplay, h'.fullReplay⟩

theorem aligned_commit {full : ℕ → Bool} (h : OfBlock (full b) b y) :
    Aligned full [b] (RangeYield.commit {} y) := by
  cases y with
  | none => exact ⟨rfl, List.nil_sublist _, nofun⟩
  | some e =>
    obtain ⟨opps, stats, mode⟩ := e
    have hnumber := h.blockNumber _ rfl
    refine ⟨rfl, ?_, ?_⟩
    · simp only [RangeYield.commit, RangeYield.append, List.nil_append, List.map_singleton]
      rw [hnumber]
    · intro e he hmode
      obtain rfl : e = (stats, mode) := by simpa [RangeYield.commit, RangeYield.append] using he
      rw [hnumber]
      exact h.fullReplay _ rfl hmode

theorem hybridLoop_aligned {full continues : ℕ → Bool} {st st' : RangeState D R} {n : ℕ}
    {blocks l : List ℕ} {done : Bool}
    (h : hybridLoop env full continues st n blocks = .ok (done, st'))
    (hst : Aligned full l st.yield) :
    Aligned full (l ++ blocks.filter env.cached) st'.yield := by
  induction blocks generalizing st n l with
  | nil =>
    cases h
    simpa using hst
  | cons b blocks ih =>
    unfold hybridLoop at h
    by_cases hcached : env.cached b = true
    · rw [if_pos hcached] at h
      split at h
      · cases h
      · rename_i y runner gasDist hblock
        have hstep : Aligned full (l ++ [b]) (st.yield.commit y) := by
          rw [RangeYield.commit_append]
          exact hst.append (aligned_commit (processBlock_spec hblock).1)
        rw [List.filter_cons_of_pos hcached, List.append_cons]
        dsimp only at h
        split_ifs at h
        · exact ih h hstep
        · cases h
          exact ⟨hstep.length_eq, hstep.blocks_sub.trans (List.sublist_append_left _ _),
            hstep.fullReplay⟩
    · rw [if_neg hcached] at h
      rw [List.filter_cons_of_neg hcached]
      exact ih h hst

/-! ## Passes -/

/-- A turn of the loop. -/
def hybridStep (env : RangeEnv D R Key Val) (full : ℕ → Bool) (st : RangeState D R) (b : ℕ) :
    Except Panic (RangeState D R) :=
  if env.cached b then
    (env.processBlock (full b) st.runner st.gasDist b).map fun (y, runner, gasDist) =>
      ⟨runner, gasDist, st.yield.commit y⟩
  else .ok st

variable {full continues : ℕ → Bool} {st st' : RangeState D R} {n : ℕ} {blocks : List ℕ}

/-- A loop that is not cancelled. -/
theorem foldlM_of_hybridLoop (h : hybridLoop env full continues st n blocks = .ok (true, st')) :
    blocks.foldlM (hybridStep env full) st = .ok st' := by
  induction blocks generalizing st n with
  | nil =>
    cases h
    rfl
  | cons b blocks ih =>
    rw [List.foldlM_cons, bind_eq_ok]
    unfold hybridLoop at h
    unfold hybridStep
    by_cases hcached : env.cached b = true
    · rw [if_pos hcached] at h
      rw [if_pos hcached]
      cases hblock : env.processBlock (full b) st.runner st.gasDist b with
      | error p =>
        rw [hblock] at h
        cases h
      | ok out =>
        obtain ⟨y, runner, gasDist⟩ := out
        rw [hblock] at h
        dsimp only at h
        split_ifs at h
        · exact ⟨_, rfl, ih h⟩
        · cases h
    · rw [if_neg hcached] at h
      rw [if_neg hcached]
      exact ⟨st, rfl, ih h⟩

theorem hybridLoop_of_foldlM (h : blocks.foldlM (hybridStep env full) st = .ok st') :
    hybridLoop env full (fun _ => true) st n blocks = .ok (true, st') := by
  induction blocks generalizing st n with
  | nil =>
    cases h
    rfl
  | cons b blocks ih =>
    rw [List.foldlM_cons, bind_eq_ok] at h
    obtain ⟨st₁, hstep, h⟩ := h
    unfold hybridStep at hstep
    unfold hybridLoop
    by_cases hcached : env.cached b = true
    · rw [if_pos hcached] at hstep ⊢
      cases hblock : env.processBlock (full b) st.runner st.gasDist b with
      | error p =>
        rw [hblock] at hstep
        cases hstep
      | ok out =>
        rw [hblock] at hstep
        cases hstep
        exact ih h
    · rw [if_neg hcached] at hstep ⊢
      cases hstep
      exact ih h

/-- Without a percentile, what the blocks yield depends on the runner alone. -/
theorem hybrid_shift (htarget : env.target st.runner = none)
    (h : blocks.foldlM (hybridStep env full) st = .ok st') :
    env.target st'.runner = none ∧ ∃ z : RangeYield, st'.yield = st.yield.append z ∧
      ∀ g y, ∃ g', blocks.foldlM (hybridStep env full) ⟨st.runner, g, y⟩ =
        .ok ⟨st'.runner, g', y.append z⟩ := by
  induction blocks generalizing st with
  | nil =>
    cases h
    exact ⟨htarget, {}, (RangeYield.append_nil _).symm, fun g y => ⟨g, by rw [y.append_nil]; rfl⟩⟩
  | cons b blocks ih =>
    rw [List.foldlM_cons, bind_eq_ok] at h
    obtain ⟨st₁, hstep, h⟩ := h
    unfold hybridStep at hstep
    by_cases hcached : env.cached b = true
    · rw [if_pos hcached] at hstep
      cases hblock : env.processBlock (full b) st.runner st.gasDist b with
      | error p =>
        rw [hblock] at hstep
        cases hstep
      | ok out =>
        obtain ⟨y₁, s₁, g₁⟩ := out
        rw [hblock] at hstep
        obtain rfl : ⟨s₁, g₁, st.yield.commit y₁⟩ = st₁ := Except.ok.inj hstep
        obtain ⟨-, hsettings⟩ := processBlock_spec hblock
        rw [settings_applyPercentile htarget] at hsettings
        have htarget₁ : env.target s₁ = none := by
          unfold RangeEnv.target at htarget ⊢
          rwa [hsettings]
        obtain ⟨htarget', z, hz, hshift⟩ := ih htarget₁ h
        refine ⟨htarget', (RangeYield.commit {} y₁).append z, ?_, fun g y => ?_⟩
        · rw [hz, RangeYield.commit_append, RangeYield.append_assoc]
        · obtain ⟨k, hk⟩ := processBlock_gasDist htarget hblock g
          obtain ⟨g', hg'⟩ := hshift k (y.commit y₁)
          refine ⟨g', ?_⟩
          rw [List.foldlM_cons, bind_eq_ok]
          refine ⟨⟨s₁, k, y.commit y₁⟩, ?_, ?_⟩
          · unfold hybridStep
            rw [if_pos hcached, hk]
            rfl
          · rw [hg', y.commit_append, RangeYield.append_assoc]
    · rw [if_neg hcached] at hstep
      cases hstep
      obtain ⟨htarget', z, hz, hshift⟩ := ih htarget h
      refine ⟨htarget', z, hz, fun g y => ?_⟩
      obtain ⟨g', hg'⟩ := hshift g y
      refine ⟨g', ?_⟩
      rw [List.foldlM_cons, bind_eq_ok]
      refine ⟨⟨st.runner, g, y⟩, ?_, hg'⟩
      unfold hybridStep
      rw [if_neg hcached]

/-- Where the runner begins a range is nothing to its blocks. -/
theorem foldlM_advanceTo (h : blocks.foldlM (hybridStep env full) st = .ok st') :
    ∃ k, blocks.foldlM (hybridStep env full) { st with runner := st.runner.advanceTo m } =
      .ok { st' with runner := st'.runner.advanceTo k } := by
  induction blocks generalizing st m with
  | nil =>
    cases h
    exact ⟨m, rfl⟩
  | cons b blocks ih =>
    rw [List.foldlM_cons, bind_eq_ok] at h
    obtain ⟨st₁, hstep, h⟩ := h
    suffices hsuff : ∃ j, hybridStep env full { st with runner := st.runner.advanceTo m } b =
        .ok { st₁ with runner := st₁.runner.advanceTo j } by
      obtain ⟨j, hj⟩ := hsuff
      obtain ⟨k, hk⟩ := ih (m := j) h
      exact ⟨k, by rw [List.foldlM_cons, bind_eq_ok]; exact ⟨_, hj, hk⟩⟩
    unfold hybridStep at hstep ⊢
    split_ifs at hstep ⊢
    · cases hblock : env.processBlock (full b) st.runner st.gasDist b with
      | error p =>
        rw [hblock] at hstep
        cases hstep
      | ok out =>
        obtain ⟨y, t, g⟩ := out
        obtain ⟨j, hj⟩ := processBlock_advanceTo (m := m) hblock
        rw [hblock] at hstep
        cases hstep
        exact ⟨j, by rw [hj]; rfl⟩
    · cases hstep
      exact ⟨m, rfl⟩

/-- A range that is not cancelled, as a loop over its blocks. -/
theorem foldlM_of_runRangeHybrid {horizon start stop : ℕ} {yield : RangeYield}
    (h : runRangeHybrid env horizon continues s start stop = .ok (some yield, s')) :
    ∃ g, (blocksOf (start, stop)).foldlM (hybridStep env (horizon ≤ ·)) ⟨s, .new 50, {}⟩ =
      .ok ⟨s', g, yield⟩ := by
  unfold runRangeHybrid at h
  cases hloop : hybridLoop env (horizon ≤ ·) continues { runner := s, gasDist := .new 50 } 0
      (blocksOf (start, stop)) with
  | error p =>
    rw [hloop] at h
    cases h
  | ok out =>
    obtain ⟨done, st⟩ := out
    rw [hloop] at h
    cases done with
    | false => cases h
    | true =>
      cases h
      exact ⟨st.gasDist, foldlM_of_hybridLoop hloop⟩

theorem runRangeHybrid_of_foldlM {horizon start stop : ℕ} {yield : RangeYield}
    (h : (blocksOf (start, stop)).foldlM (hybridStep env (horizon ≤ ·)) ⟨s, .new 50, {}⟩ =
      .ok ⟨s', g, yield⟩) :
    runRangeHybrid env horizon (fun _ => true) s start stop = .ok (some yield, s') := by
  unfold runRangeHybrid
  rw [hybridLoop_of_foldlM h]
  rfl

/-- **Main theorem.** The statistics and the modes of a range have the same length and stand for the
    same blocks: blocks of the range that the cache has, each at most once and in order, and a
    replay only from the horizon on. -/
theorem hybrid_aligned {horizon start stop : ℕ} {continues : ℕ → Bool} {yield : RangeYield}
    (h : runRangeHybrid env horizon continues s start stop = .ok (some yield, s')) :
    Aligned (horizon ≤ ·) ((blocksOf (start, stop)).filter env.cached) yield := by
  obtain ⟨g, h⟩ := foldlM_of_runRangeHybrid h
  exact hybridLoop_aligned (hybridLoop_of_foldlM (n := 0) h)
    (show Aligned (horizon ≤ ·) [] {} from ⟨rfl, List.nil_sublist _, nofun⟩)

end Model

/-! ## Empty blocks -/

/-- Blocks without transactions. Block 4 is not in the cache, and the replay of block 5 fails. -/
def emptyBlocks : RangeEnv everyPair Unit Unit Unit where
  rt := exactRuntime
  gas := ⟨fun _ => .fixed, fun settings _ => settings⟩
  ratioOf _ _ := ()
  half := ()
  hasCachedBlock b := .ok (b != 4)
  replayer b := blockReader Unit Unit (if b = 5 then .error "no state" else .ok []) (.ok [])
  fallback _ := blockReader Unit Unit (.ok []) (.ok [])
  header _ := none

def idleRunner : Runner everyPair := { settings := () }

theorem runRangeHybrid_emptyBlocks :
    runRangeHybrid emptyBlocks 5 (fun _ => true) idleRunner 3 5 =
      .ok (some ⟨[], [⟨3, 0, 0⟩, ⟨5, 0, 0⟩], [.logOnly, .logOnly]⟩, idleRunner) := rfl

theorem hybrid_aligned_emptyBlocks : Aligned (5 ≤ ·) ((blocksOf (3, 5)).filter emptyBlocks.cached)
    ⟨[], [⟨3, 0, 0⟩, ⟨5, 0, 0⟩], [.logOnly, .logOnly]⟩ :=
  hybrid_aligned runRangeHybrid_emptyBlocks

end MevScout.Pipeline
