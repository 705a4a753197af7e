import MevScout.Common.Map
import MevScout.Paper.Executed
import MevScout.Paper.Simulated

/-!
# Reconciliation

Models of `core/src/paper/recon.rs`: the fills of a simulated ledger are compared with the
outcomes of an executed one, which are found by `canonical_id`. The relative error is a
floating-point number; its test and its text are parameters.

Results:
* `getElem?_executedFrom`: the outcome that an id finds;
* `reconcile_pairs_iff`: when every simulated fill is compared with what its own block made of
  it;
* `route_hides_revert`: a fill in another block that hides a revert.
-/

namespace MevScout.Paper

/-! ## Verdicts -/

/-- Model of `ExecutedNet` (`replay/whatif.rs`, lines 80–86). -/
structure ExecutedNet where
  netWei : ℤ
  gasUsed : ℕ
  status : Bool
  deriving DecidableEq

/-- Model of `ExecutedNetMap` (`replay/whatif.rs`, line 100). -/
abbrev ExecutedNetMap := Std.ExtTreeMap String ExecutedNet compare

/-- Model of `ReconVerdict` (`recon.rs`, lines 29–40). -/
inductive ReconVerdict where
  | pass
  | fail (reason : String)
  | unverifiable (reason : String)
  deriving DecidableEq

/-- Model of `ReconFill` (`recon.rs`, lines 70–87), without the percentage. -/
structure ReconFill where
  canonicalId : Option String
  txIndex : Option ℕ
  blockNumber : ℕ
  strategy : String
  paperNetWei : Option ℤ
  executedNetWei : Option ℤ
  executedGasUsed : Option ℕ
  executedStatus : Option Bool
  verdict : ReconVerdict
  deriving DecidableEq

/-- Model of `ReconReport` (`recon.rs`, lines 89–97). -/
structure ReconReport where
  fills : List ReconFill := []
  pass : ℕ := 0
  fail : ℕ := 0
  unverifiable : ℕ := 0

/-- The tolerances of a comparison, of the paper net with the executed one. -/
structure Tolerance where
  /-- `pct.abs() <= tolerance_pct`. -/
  withinPct : ℤ → ℤ → Bool
  /-- The text of a percentage beyond the tolerance. -/
  pctReason : ℤ → ℤ → String
  absWei : ℤ

/-- `RECON_ABS_WEI_TOL`. -/
def reconAbsWeiTol : ℤ := 5000000000000000

/-- Model of `fill_verdict` (`recon.rs`, lines 149–204). -/
def fillVerdict (tol : Tolerance) (fill : PaperFill) (executed : Option ExecutedNet) :
    ReconVerdict :=
  match executed with
  | none =>
    .unverifiable "no executed counterpart for this fill — mempool-only or unanchored op"
  | some e =>
    if ¬e.status then
      .fail ("what-if execution reverted/halted (status=false, gas_used=" ++ toString e.gasUsed ++
        ") — paper booked a net of " ++ toString fill.netWei ++
        " wei that execution would not have produced")
    else if fill.netWei ≠ 0 then
      if tol.withinPct fill.netWei e.netWei then .pass
      else .fail (tol.pctReason fill.netWei e.netWei)
    else
      let diff := wrapSigned 128 |wrapSigned 128 (fill.netWei - e.netWei)|
      if diff ≤ tol.absWei then .pass
      else
        .fail ("paper ≈ 0 but |paper − executed| = " ++ toString diff ++ " wei > " ++
          toString tol.absWei ++ " wei absolute tolerance")

/-! ## Matching -/

/-- Model of `same_fill` (`recon.rs`, lines 244–251). -/
def sameFill (a b : PaperFill) : Bool :=
  match a.canonicalId, b.canonicalId with
  | some x, some y =>
    if x ≠ "" ∧ y ≠ "" then x = y
    else a.blockNumber = b.blockNumber ∧ a.txIndex = b.txIndex ∧ a.strategy = b.strategy
  | _, _ => a.blockNumber = b.blockNumber ∧ a.txIndex = b.txIndex ∧ a.strategy = b.strategy

/-- The outcome of an executed fill. -/
def fillNet (fill : PaperFill) : ExecutedNet :=
  { netWei := fill.execNetWei.getD fill.netWei
    gasUsed := fill.execGasUsed.getD 0
    status := true }

/-- The outcome of a revert. -/
def revertNet : ExecutedNet := { netWei := 0, gasUsed := 0, status := false }

/-- Model of `executed_from` (`recon.rs`, lines 253–284). -/
def executedFrom (exec : LedgerResult) : ExecutedNetMap :=
  let map := Map.insertAll (·.canonicalId) fillNet ∅ exec.fills
  Map.insertAllNew (·.canonicalId) (fun _ => revertNet) map
    (exec.skips.filter (·.reason = .execRevert))

/-- The body of the loop of `paper_vs_executed` (`recon.rs`, lines 300–329). -/
def reconStep (executed : ExecutedNetMap) (tol : Tolerance) (report : ReconReport)
    (fill : PaperFill) : ReconReport :=
  let executedSide := fill.canonicalId.bind (executed[·]?)
  let verdict := fillVerdict tol fill executedSide
  { fills := report.fills ++ [{
      canonicalId := fill.canonicalId
      txIndex := fill.txIndex
      blockNumber := fill.blockNumber
      strategy := fill.strategy
      paperNetWei := some fill.netWei
      executedNetWei := executedSide.map (·.netWei)
      executedGasUsed := executedSide.map (·.gasUsed)
      executedStatus := executedSide.map (·.status)
      verdict := verdict }]
    pass := report.pass + if verdict matches .pass then 1 else 0
    fail := report.fail + if verdict matches .fail _ then 1 else 0
    unverifiable := report.unverifiable + if verdict matches .unverifiable _ then 1 else 0 }

/-- Model of `paper_vs_executed` (`recon.rs`, lines 286–332). -/
def paperVsExecuted (ledger : LedgerResult) (executed : ExecutedNetMap) (tol : Tolerance) :
    ReconReport :=
  ledger.fills.foldl (reconStep executed tol) {}

/-- Copies the quote of the matching simulated fill (`recon.rs`, lines 213–223). -/
def stampFill (sim : LedgerResult) (fill : PaperFill) : PaperFill :=
  match sim.fills.find? (sameFill · fill) with
  | none => fill
  | some src =>
    { fill with
      simMode := .stateSim
      simGrossWei := src.simGrossWei
      simNetWei := src.simNetWei
      borrowedWei := src.borrowedWei
      repayOk := src.repayOk
      stateDrift := src.stateDrift }

section Reconcile

variable (withinPct : ℤ → ℤ → Bool) (pctReason : ℤ → ℤ → String)

/-- `RECON_TOLERANCE_PCT` and `RECON_ABS_WEI_TOL`. -/
def reconTolerance : Tolerance := { withinPct, pctReason, absWei := reconAbsWeiTol }

/-- Model of `reconcile_sim_vs_exec` (`recon.rs`, lines 206–233). -/
def reconcileSimVsExec (exec sim : LedgerResult) : LedgerResult :=
  let exec := { exec with fills := exec.fills.map (stampFill sim) }
  let report := paperVsExecuted sim (executedFrom exec) (reconTolerance withinPct pctReason)
  { exec with
    reconPass := some report.pass
    reconFail := some report.fail
    reconUnverifiable := some report.unverifiable }

end Reconcile

/-! ## The outcome of an id -/

/-- The last executed fill of an id. -/
def lastFill (exec : LedgerResult) (cid : String) : Option PaperFill :=
  (exec.fills.filter (·.canonicalId = some cid)).getLast?

/-- The id reverted. -/
def Reverted (exec : LedgerResult) (cid : String) : Prop :=
  ∃ skip ∈ exec.skips, skip.reason = .execRevert ∧ skip.canonicalId = some cid

instance instDecidableReverted (exec : LedgerResult) (cid : String) :
    Decidable (Reverted exec cid) :=
  inferInstanceAs (Decidable (∃ skip ∈ exec.skips, _))

/-- The outcome of an id is its last executed fill, or a revert if it has none. -/
theorem getElem?_executedFrom (exec : LedgerResult) (cid : String) :
    (executedFrom exec)[cid]? =
      ((lastFill exec cid).map fillNet).or
        (if Reverted exec cid then some revertNet else none) := by
  have hrevert : ((exec.skips.filter (·.reason = .execRevert)).find? (·.canonicalId = some cid)).map
      (fun _ => revertNet) = if Reverted exec cid then some revertNet else none := by
    by_cases h : Reverted exec cid
    · obtain ⟨skip, hskip, hreason, hcid⟩ := h
      have hfound : ((exec.skips.filter (·.reason = .execRevert)).find?
          (·.canonicalId = some cid)).isSome = true :=
        List.find?_isSome.mpr ⟨skip, List.mem_filter.mpr ⟨hskip, by simpa using hreason⟩,
          by simpa using hcid⟩
      obtain ⟨s, hs⟩ := Option.isSome_iff_exists.mp hfound
      rw [hs, if_pos ⟨skip, hskip, hreason, hcid⟩]
      rfl
    · have hnone : (exec.skips.filter (·.reason = .execRevert)).find?
          (·.canonicalId = some cid) = none := by
        refine List.find?_eq_none.mpr fun skip hskip hcid => h ?_
        obtain ⟨hmem, hreason⟩ := List.mem_filter.mp hskip
        exact ⟨skip, hmem, by simpa using hreason, by simpa using hcid⟩
      rw [hnone, if_neg h]
      rfl
  unfold executedFrom lastFill
  dsimp only
  rw [Map.getElem?_insertAllNew, Map.getElem?_insertAll, hrevert]
  simp

/-- Stamping keeps what the outcomes are made of. -/
theorem stampFill_keeps (sim : LedgerResult) (fill : PaperFill) :
    (stampFill sim fill).canonicalId = fill.canonicalId ∧
      fillNet (stampFill sim fill) = fillNet fill := by
  unfold stampFill
  cases sim.fills.find? (sameFill · fill) <;> exact ⟨rfl, rfl⟩

theorem executedFrom_stamp (exec sim : LedgerResult) :
    executedFrom { exec with fills := exec.fills.map (stampFill sim) } = executedFrom exec := by
  have hfold : Map.insertAll (·.canonicalId) fillNet (∅ : ExecutedNetMap)
      (exec.fills.map (stampFill sim)) = Map.insertAll (·.canonicalId) fillNet ∅ exec.fills := by
    unfold Map.insertAll
    rw [List.foldl_map]
    refine List.foldl_ext _ _ _ fun map fill _ => ?_
    obtain ⟨hcid, hnet⟩ := stampFill_keeps sim fill
    simp only [hcid, hnet]
  unfold executedFrom
  dsimp only
  rw [hfold]

/-! ## The verdicts of a ledger -/

/-- The outcome that a simulated fill is compared with. -/
def outcomeOf (exec : LedgerResult) (fill : PaperFill) : Option ExecutedNet :=
  fill.canonicalId.bind ((executedFrom exec)[·]?)

/-- The verdict on a simulated fill. -/
def verdictOf (exec : LedgerResult) (tol : Tolerance) (fill : PaperFill) : ReconVerdict :=
  fillVerdict tol fill (outcomeOf exec fill)

/-- Every fill has one verdict. -/
theorem paperVsExecuted_counts (exec ledger : LedgerResult) (tol : Tolerance) :
    let report := paperVsExecuted ledger (executedFrom exec) tol
    report.fills.map (·.verdict) = ledger.fills.map (verdictOf exec tol) ∧
      report.pass = ledger.fills.countP (verdictOf exec tol · = .pass) ∧
      report.pass + report.fail + report.unverifiable = ledger.fills.length := by
  unfold paperVsExecuted
  dsimp only
  induction ledger.fills using List.reverseRecOn with
  | nil => exact ⟨rfl, rfl, rfl⟩
  | append_singleton fills fill ih =>
    obtain ⟨hfills, hpass, hsum⟩ := ih
    rw [List.foldl_append, List.foldl_cons, List.foldl_nil, List.map_append, List.countP_append,
      List.length_append, ← hfills, ← hpass, ← hsum]
    have hverdict : fillVerdict tol fill (fill.canonicalId.bind ((executedFrom exec)[·]?)) =
        verdictOf exec tol fill := rfl
    unfold reconStep
    dsimp only
    rw [hverdict, List.map_append]
    refine ⟨by simp, ?_, ?_⟩
    · rw [List.countP_singleton]
      cases verdictOf exec tol fill <;> simp
    · cases verdictOf exec tol fill <;> simp <;> omega

/-! ## Blocks -/

/-- The entries of one block. -/
def LedgerResult.atBlock (ledger : LedgerResult) (block : ℕ) : LedgerResult :=
  { ledger with
    fills := ledger.fills.filter (·.blockNumber = block)
    skips := ledger.skips.filter (·.blockNumber = block) }

/-- The candidate of a simulated fill reverted in its block. -/
def RevertedAt (exec : LedgerResult) (fill : PaperFill) : Prop :=
  ∃ cid, fill.canonicalId = some cid ∧ Reverted (exec.atBlock fill.blockNumber) cid

/-- Simulated fills are compared with the outcomes of their own blocks. -/
structure PairsPerBlock (tol : Tolerance) (exec sim : LedgerResult) : Prop where
  /-- The outcomes of the other blocks do not matter. -/
  outcome : ∀ f ∈ sim.fills, outcomeOf exec f = outcomeOf (exec.atBlock f.blockNumber) f
  /-- A fill whose candidate reverted does not pass. -/
  revert : ∀ f ∈ sim.fills, RevertedAt exec f → verdictOf exec tol f ≠ .pass
  /-- An executed fill takes its quote from its own block. -/
  quote : ∀ g ∈ exec.fills, sim.fills.find? (sameFill · g) =
    (sim.atBlock g.blockNumber).fills.find? (sameFill · g)

/-- What the ids must satisfy. -/
structure IdsPerBlock (tol : Tolerance) (exec sim : LedgerResult) : Prop where
  /-- The last executed fill of an id is as the last one of the block, or there is none. -/
  fills : ∀ f ∈ sim.fills, ∀ cid, f.canonicalId = some cid →
    (lastFill exec cid).map fillNet = (lastFill (exec.atBlock f.blockNumber) cid).map fillNet
  /-- An id that only reverted did so in the block, too. -/
  reverts : ∀ f ∈ sim.fills, ∀ cid, f.canonicalId = some cid → lastFill exec cid = none →
    Reverted exec cid → Reverted (exec.atBlock f.blockNumber) cid
  /-- A fill that hides a revert of the block is out of tolerance. -/
  hidden : ∀ f ∈ sim.fills, ∀ cid, f.canonicalId = some cid →
    Reverted (exec.atBlock f.blockNumber) cid → ∀ g, lastFill exec cid = some g →
      fillVerdict tol f (some (fillNet g)) ≠ .pass
  /-- The first simulated fill that matches an executed one belongs to its block. -/
  quotes : ∀ g ∈ exec.fills, ∀ s, sim.fills.find? (sameFill · g) = some s →
    s.blockNumber = g.blockNumber

theorem reverted_of_atBlock {exec : LedgerResult} {block : ℕ} {cid : String}
    (h : Reverted (exec.atBlock block) cid) : Reverted exec cid := by
  obtain ⟨skip, hskip, h⟩ := h
  exact ⟨skip, List.mem_of_mem_filter hskip, h⟩

/-- Two outcomes of an id are equal exactly when the fills give the same nets and, without
    fills, both or neither reverted. -/
theorem outcome_eq_iff (o o' : Option PaperFill) (p p' : Prop) [Decidable p] [Decidable p'] :
    ((o.map fillNet).or (if p then some revertNet else none) =
        (o'.map fillNet).or (if p' then some revertNet else none)) ↔
      o.map fillNet = o'.map fillNet ∧ (o = none → (p ↔ p')) := by
  have hne : ∀ f, fillNet f ≠ revertNet := fun f h => by
    simpa [fillNet, revertNet] using congrArg ExecutedNet.status h
  have hne' : ∀ f, revertNet ≠ fillNet f := fun f h => hne f h.symm
  cases o with
  | none =>
    cases o' with
    | none => by_cases hp : p <;> by_cases hp' : p' <;> simp [hp, hp']
    | some g => by_cases hp : p <;> simp [hp, hne' g]
  | some f =>
    cases o' with
    | none => by_cases hp' : p' <;> simp [hp', hne f]
    | some g => simp

theorem find?_filter_eq_iff {α : Type*} (l : List α) (p q : α → Bool) :
    l.find? p = (l.filter q).find? p ↔ ∀ a, l.find? p = some a → q a = true := by
  constructor
  · intro h a ha
    rw [h] at ha
    exact (List.mem_filter.mp (List.mem_of_find?_eq_some ha)).2
  · intro h
    induction l with
    | nil => rfl
    | cons a l ih =>
      by_cases hp : p a = true
      · have hq : q a = true := h a (by rw [List.find?_cons_of_pos hp])
        rw [List.filter_cons_of_pos hq, List.find?_cons_of_pos hp, List.find?_cons_of_pos hp]
      · rw [List.find?_cons_of_neg hp] at h ⊢
        rw [ih h]
        by_cases hq : q a = true
        · rw [List.filter_cons_of_pos hq, List.find?_cons_of_neg hp]
        · rw [List.filter_cons_of_neg hq]

/-- **Main theorem.** Every simulated fill is counted once, as its verdict says. The fills are
    compared with the outcomes of their own blocks if and only if the ids satisfy
    `IdsPerBlock`. -/
theorem reconcile_pairs_iff (withinPct : ℤ → ℤ → Bool) (pctReason : ℤ → ℤ → String)
    (exec sim : LedgerResult) :
    (∃ pass fail unverifiable,
        (reconcileSimVsExec withinPct pctReason exec sim).reconPass = some pass ∧
        (reconcileSimVsExec withinPct pctReason exec sim).reconFail = some fail ∧
        (reconcileSimVsExec withinPct pctReason exec sim).reconUnverifiable = some unverifiable ∧
        pass = sim.fills.countP (verdictOf exec (reconTolerance withinPct pctReason) · = .pass) ∧
        pass + fail + unverifiable = sim.fills.length) ∧
      (PairsPerBlock (reconTolerance withinPct pctReason) exec sim ↔
        IdsPerBlock (reconTolerance withinPct pctReason) exec sim) := by
  constructor
  · obtain ⟨-, hpass, hsum⟩ :=
      paperVsExecuted_counts exec sim (reconTolerance withinPct pctReason)
    refine ⟨_, _, _, rfl, rfl, rfl, ?_, ?_⟩
    · rw [executedFrom_stamp]
      exact hpass
    · rw [executedFrom_stamp]
      exact hsum
  · generalize reconTolerance withinPct pctReason = tol
    have houtcome : ∀ f cid, f.canonicalId = some cid →
        ∀ ledger, outcomeOf ledger f = (executedFrom ledger)[cid]? := by
      intro f cid hcid ledger
      rw [outcomeOf, hcid, Option.bind_some]
    constructor
    · intro h
      constructor
      · intro f hf cid hcid
        have := h.outcome f hf
        rw [houtcome f cid hcid, houtcome f cid hcid, getElem?_executedFrom,
          getElem?_executedFrom, outcome_eq_iff] at this
        exact this.1
      · intro f hf cid hcid hnone hrev
        have := h.outcome f hf
        rw [houtcome f cid hcid, houtcome f cid hcid, getElem?_executedFrom,
          getElem?_executedFrom, outcome_eq_iff] at this
        exact (this.2 hnone).mp hrev
      · intro f hf cid hcid hrev g hg
        have := h.revert f hf ⟨cid, hcid, hrev⟩
        rwa [verdictOf, houtcome f cid hcid, getElem?_executedFrom, hg] at this
      · intro g hg s hs
        have := (find?_filter_eq_iff _ _ _).mp (h.quote g hg) s hs
        simpa using this
    · intro h
      constructor
      · intro f hf
        cases hcid : f.canonicalId with
        | none => simp [outcomeOf, hcid]
        | some cid =>
          rw [houtcome f cid hcid, houtcome f cid hcid, getElem?_executedFrom,
            getElem?_executedFrom, outcome_eq_iff]
          exact ⟨h.fills f hf cid hcid, fun hnone =>
            ⟨h.reverts f hf cid hcid hnone, reverted_of_atBlock⟩⟩
      · rintro f hf ⟨cid, hcid, hrev⟩
        rw [verdictOf, houtcome f cid hcid, getElem?_executedFrom]
        cases hlast : lastFill exec cid with
        | some g => exact h.hidden f hf cid hcid hrev g hlast
        | none =>
          rw [if_pos (reverted_of_atBlock hrev)]
          simp [fillVerdict, revertNet]
      · intro g hg
        refine (find?_filter_eq_iff _ _ _).mpr fun s hs => ?_
        simpa using h.quotes g hg s hs

/-- The error is at most a fifth of the paper net. -/
def withinFifth (paper executed : ℤ) : Bool := 5 * |paper - executed| ≤ |paper|

/-- A route is filled in block 7 and reverts in block 8. The fill hides the revert: both
    simulated fills pass. -/
theorem route_hides_revert :
    let opps := [7, 8].map fun block => { routeOpp "first" 1 5000 100 with blockNumber := block }
    let sim := (plainPolicy 10000 0).applySimulated routeSeeds {} opps
    let exec := ((plainPolicy 10000 0).applyExecuted .assumed "revm" answering
      [ran 387, burnt 20] opps).1
    let tol := reconTolerance withinFifth fun _ _ => ""
    (sim.fills.map fun f => (f.blockNumber, f.netWei)) = [(7, 387), (8, 387)] ∧
      (exec.skips.map fun s => (s.blockNumber, s.reason)) = [(8, .execRevert)] ∧
      (sim.fills.map (verdictOf exec tol)) = [.pass, .pass] ∧
      (reconcileSimVsExec withinFifth (fun _ _ => "") exec sim).reconPass = some 2 ∧
      ¬PairsPerBlock tol exec sim := by
  intro opps sim exec tol
  have hsim : (sim.fills.map fun f => (f.blockNumber, f.netWei)) = [(7, 387), (8, 387)] := by
    decide +kernel
  refine ⟨hsim, by decide +kernel, by decide +kernel, by decide +kernel, fun h => ?_⟩
  have hreverted : (sim.fills.all fun f =>
      decide (outcomeOf exec f = outcomeOf (exec.atBlock f.blockNumber) f)) = true :=
    List.all_eq_true.mpr fun f hf => by simpa using h.outcome f hf
  exact absurd hreverted (by decide +kernel)

end MevScout.Paper
