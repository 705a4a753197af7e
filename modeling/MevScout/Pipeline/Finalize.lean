import MevScout.Pipeline.Runner

/-!
# The end of a block

`finalize_block_opportunities` (`core/src/pipeline/runner.rs`) drops the arbitrages that a backrun
claims, filters the rest by profit, and caps what is left over. The models are those of
`Pipeline/Runner`. The superseded arbitrages leave no record. Of the others, each is kept or has a
record with the first filter that it did not pass.

The cap counts the candidates of the whole block.

Results:
* `finalize_partitions`: what is not superseded is kept or recorded, each once; and where one
  transaction has all that pass the filters, or the cap holds them, each transaction keeps its
  best;
* `superseded_and_crowded_out`: an arbitrage without a record, and a cap that leaves a transaction
  nothing.
-/

namespace MevScout.Pipeline

open Paper

variable {D : Detectors} {minProfitWei limit : ℕ} {opps : List MevOpportunity}

/-! ## The filters -/

/-- The dropped opportunities with their reasons. -/
def filtered (minProfitWei : ℕ) (opps : List MevOpportunity) :
    List (MevOpportunity × ScanReject) :=
  opps.filterMap fun opp => (scanReject minProfitWei opp).map (opp, ·)

/-- What passes the filters. -/
def survivors (minProfitWei : ℕ) (opps : List MevOpportunity) : List MevOpportunity :=
  opps.filter (scanReject minProfitWei · = none)

/-- The opportunities, the most profitable first. -/
def byProfit (opps : List MevOpportunity) : List MevOpportunity :=
  opps.insertionSort fun a b => b.expectedProfit ≤ a.expectedProfit

/-- What the cap keeps. -/
def capped (limit : ℕ) (opps : List MevOpportunity) : List MevOpportunity :=
  if 0 < limit ∧ limit < opps.length then (byProfit opps).take limit else opps

/-- What the cap drops. -/
def cutOff (limit : ℕ) (opps : List MevOpportunity) : List MevOpportunity :=
  if 0 < limit ∧ limit < opps.length then (byProfit opps).drop limit else []

/-- What is dropped of the opportunities that no backrun supersedes, with the reasons. -/
def rejected (minProfitWei limit : ℕ) (opps : List MevOpportunity) :
    List (MevOpportunity × ScanReject) :=
  filtered minProfitWei opps ++
    (cutOff limit (survivors minProfitWei opps)).map (·, .maxCandidates)

theorem survivors_perm (minProfitWei : ℕ) (opps : List MevOpportunity) :
    (survivors minProfitWei opps ++ (filtered minProfitWei opps).map Prod.fst).Perm opps := by
  have hfst : (filtered minProfitWei opps).map Prod.fst =
      opps.filter fun opp => ¬scanReject minProfitWei opp = none := by
    unfold filtered
    induction opps with
    | nil => rfl
    | cons opp opps ih =>
      cases h : scanReject minProfitWei opp <;> simpa [h] using ih
  rw [hfst, survivors]
  simpa only [decide_not] using
    List.filter_append_perm (fun opp => decide (scanReject minProfitWei opp = none)) opps

theorem capped_perm (limit : ℕ) (opps : List MevOpportunity) :
    (capped limit opps ++ cutOff limit opps).Perm opps := by
  unfold capped cutOff
  split_ifs
  · rw [List.take_append_drop]
    exact List.perm_insertionSort _ _
  · rw [List.append_nil]

theorem length_capped (hlimit : 0 < limit) (opps : List MevOpportunity) :
    (capped limit opps).length =
      min ((capped limit opps).length + (cutOff limit opps).length) limit := by
  rw [← List.length_append, (capped_perm limit opps).length_eq]
  unfold capped
  split_ifs with h
  · rw [List.length_take, byProfit, List.length_insertionSort, Nat.min_comm]
  · omega

/-- What the cap keeps is no less profitable than what it drops. -/
theorem cutOff_le {o r : MevOpportunity} (ho : o ∈ capped limit opps) (hr : r ∈ cutOff limit opps) :
    r.expectedProfit ≤ o.expectedProfit := by
  unfold capped at ho
  unfold cutOff at hr
  split_ifs at ho hr
  · have hsorted : (byProfit opps).Pairwise fun a b => b.expectedProfit ≤ a.expectedProfit :=
      List.pairwise_insertionSort _ _
    rw [← List.take_append_drop limit (byProfit opps)] at hsorted
    exact (List.pairwise_append.mp hsorted).2.2 o ho r hr
  · cases hr

/-- The filters give no reason of the cap. -/
theorem scanReject_ne_maxCandidates (opp : MevOpportunity) :
    scanReject minProfitWei opp ≠ some .maxCandidates := by
  unfold scanReject
  split_ifs <;> simp

/-! ## What becomes of an opportunity -/

/-- The reason is the first filter that the opportunity does not pass; the cap is the last one. -/
def FirstFailed (minProfitWei : ℕ) (r : MevOpportunity × ScanReject) : Prop :=
  scanReject minProfitWei r.1 = some r.2 ∨
    scanReject minProfitWei r.1 = none ∧ r.2 = .maxCandidates

/-- As many of the candidates as the limit allows are kept, and they are the most profitable. -/
structure KeepsTop (limit : ℕ) (kept dropped : List MevOpportunity) : Prop where
  length : kept.length = min (kept.length + dropped.length) limit
  top : ∀ o ∈ kept, ∀ r ∈ dropped, r.expectedProfit ≤ o.expectedProfit

/-- What the cap has dropped. -/
def cutFrom (rejected : List (MevOpportunity × ScanReject)) : List MevOpportunity :=
  (rejected.filter (·.2 = .maxCandidates)).map Prod.fst

/-- The opportunities are kept or recorded, each once, with the first filter that they do not
    pass. -/
structure Partitions (minProfitWei limit : ℕ) (kept : List MevOpportunity)
    (rejected : List (MevOpportunity × ScanReject)) (opps : List MevOpportunity) : Prop where
  perm : (kept ++ rejected.map Prod.fst).Perm opps
  passed : ∀ o ∈ kept, scanReject minProfitWei o = none
  reason : ∀ r ∈ rejected, FirstFailed minProfitWei r
  /-- Where one transaction has all that pass, or the limit is enough for them. -/
  eachTx : 0 < limit → ((∀ a ∈ kept ++ cutFrom rejected, ∀ b ∈ kept ++ cutFrom rejected,
      a.txIndex = b.txIndex) ∨ (kept ++ cutFrom rejected).length ≤ limit) →
    ∀ i, KeepsTop limit (kept.filter (·.txIndex = i)) ((cutFrom rejected).filter (·.txIndex = i))

theorem cutFrom_rejected : cutFrom (rejected minProfitWei limit opps) =
    cutOff limit (survivors minProfitWei opps) := by
  unfold cutFrom rejected
  rw [List.filter_append, List.filter_eq_nil_iff.mpr, List.nil_append, List.filter_eq_self.mpr,
    List.map_map]
  · exact List.map_id' _
  · rintro r hr
    obtain ⟨o, -, rfl⟩ := List.mem_map.mp hr
    exact decide_eq_true rfl
  · rintro ⟨o, reason⟩ hr
    obtain ⟨o', -, ho⟩ := List.mem_filterMap.mp hr
    obtain ⟨reason', hreason, heq⟩ := Option.map_eq_some_iff.mp ho
    obtain ⟨rfl, rfl⟩ := Prod.mk.inj heq
    intro hmax
    obtain rfl : reason' = .maxCandidates := of_decide_eq_true hmax
    exact scanReject_ne_maxCandidates _ hreason

theorem partitions (minProfitWei limit : ℕ) (opps : List MevOpportunity) :
    Partitions minProfitWei limit (capped limit (survivors minProfitWei opps))
      (rejected minProfitWei limit opps) opps := by
  have hpass {o : MevOpportunity} (ho : o ∈ survivors minProfitWei opps) :
      scanReject minProfitWei o = none := of_decide_eq_true (List.mem_filter.mp ho).2
  have hcap := capped_perm limit (survivors minProfitWei opps)
  refine ⟨?_, fun o ho => hpass (hcap.subset (List.mem_append_left _ ho)), fun r hr => ?_, ?_⟩
  · have hcut : (rejected minProfitWei limit opps).map Prod.fst =
        (filtered minProfitWei opps).map Prod.fst ++
          cutOff limit (survivors minProfitWei opps) := by
      rw [rejected, List.map_append, List.map_map]
      exact congrArg _ (List.map_id' _)
    rw [hcut]
    refine ((List.perm_append_comm.append_left _).trans ?_).trans (survivors_perm minProfitWei opps)
    rw [← List.append_assoc]
    exact hcap.append_right _
  · rcases List.mem_append.mp hr with hr | hr
    · obtain ⟨o, -, ho⟩ := List.mem_filterMap.mp hr
      obtain ⟨reason, hreason, rfl⟩ := Option.map_eq_some_iff.mp ho
      exact .inl hreason
    · obtain ⟨o, ho, rfl⟩ := List.mem_map.mp hr
      exact .inr ⟨hpass (hcap.subset (List.mem_append_right _ ho)), rfl⟩
  · rw [cutFrom_rejected]
    intro hlimit hone i
    refine ⟨?_, fun o ho r hr => cutOff_le (List.mem_of_mem_filter ho) (List.mem_of_mem_filter hr)⟩
    have hlen := length_capped hlimit (survivors minProfitWei opps)
    generalize capped limit (survivors minProfitWei opps) = kept at hlen hone ⊢
    generalize cutOff limit (survivors minProfitWei opps) = cut at hlen hone ⊢
    rcases hone with hone | hfew
    · by_cases hi : ∃ a ∈ kept ++ cut, a.txIndex = i
      · obtain ⟨a, ha, rfl⟩ := hi
        have hall (l : List MevOpportunity) (hl : l ⊆ kept ++ cut) :
            l.filter (·.txIndex = a.txIndex) = l :=
          List.filter_eq_self.mpr fun b hb => decide_eq_true (hone b (hl hb) a ha)
        rwa [hall kept (List.subset_append_left ..), hall cut (List.subset_append_right ..)]
      · have hnone (l : List MevOpportunity) (hl : l ⊆ kept ++ cut) :
            l.filter (·.txIndex = i) = [] :=
          List.filter_eq_nil_iff.mpr fun b hb h => hi ⟨b, hl hb, of_decide_eq_true h⟩
        rw [hnone kept (List.subset_append_left ..), hnone cut (List.subset_append_right ..)]
        exact (Nat.zero_min limit).symm
    · have hcut : cut = [] := by
        rw [List.length_append] at hfew
        exact List.length_eq_zero_iff.mp (by omega)
      have hle := List.length_filter_le (·.txIndex = i) kept
      rw [hcut, List.append_nil] at hfew
      rw [hcut, List.filter_nil, List.length_nil, Nat.add_zero, Nat.min_eq_left (hle.trans hfew)]

/-! ## The end of a block -/

/-- The records of what is dropped. -/
theorem pendingRejections_push (s : Runner D) (rows : List (ℕ × MevOpportunity × ScanReject)) :
    (s.pushRejections rows).pendingRejections =
      if s.recordRejections then s.pendingRejections ++ rows else s.pendingRejections := by
  unfold Runner.pushRejections
  split_ifs <;> rfl

theorem maxCandidatesPerTx_push (s : Runner D)
    (rows : List (ℕ × MevOpportunity × ScanReject)) :
    (s.pushRejections rows).maxCandidatesPerTx = s.maxCandidatesPerTx := by
  unfold Runner.pushRejections
  split_ifs <;> rfl

theorem pushRejections_append (s : Runner D)
    (rows rows' : List (ℕ × MevOpportunity × ScanReject)) :
    (s.pushRejections rows).pushRejections rows' = s.pushRejections (rows ++ rows') := by
  unfold Runner.pushRejections
  cases h : s.recordRejections <;> simp [h]

theorem retainWithRejections_eq (s : Runner D) (opps : List MevOpportunity) (blockNum : ℕ) :
    s.retainWithRejections opps blockNum = (survivors s.minProfitWei opps,
      s.pushRejections ((filtered s.minProfitWei opps).map fun r => (blockNum, r.1, r.2))) := by
  unfold Runner.retainWithRejections filtered
  rw [List.map_filterMap]
  simp only [Option.map_map]
  rfl

theorem capCandidates_eq (s : Runner D) (opps : List MevOpportunity) (blockNum : ℕ) :
    s.capCandidates opps blockNum = (capped s.maxCandidatesPerTx opps,
      s.pushRejections ((cutOff s.maxCandidatesPerTx opps).map fun opp =>
        (blockNum, opp, .maxCandidates))) := by
  unfold Runner.capCandidates capped cutOff
  split_ifs
  · rfl
  · rw [List.map_nil]
    unfold Runner.pushRejections
    split_ifs
    · rw [List.append_nil]
    · rfl

/-- **Main theorem.** The opportunities that no backrun supersedes are kept, with their stamps, or
    dropped with the first filter that they do not pass; what is dropped is recorded where the
    runner records. -/
theorem finalize_partitions (s : Runner D) (opps : List MevOpportunity) (blockNum : ℕ)
    (path : DetectionPath) : ∃ kept rejected,
      (s.finalizeBlockOpportunities opps blockNum path).1 = kept.map (stampOpportunity path) ∧
      (s.finalizeBlockOpportunities opps blockNum path).2.pendingRejections =
        (if s.recordRejections then
          s.pendingRejections ++ rejected.map fun r => (blockNum, r.1, r.2)
        else s.pendingRejections) ∧
      Partitions s.minProfitWei s.maxCandidatesPerTx kept rejected
        (suppressSupersededArbs opps) := by
  refine ⟨_, _, ?_, ?_, partitions _ _ _⟩
  · unfold Runner.finalizeBlockOpportunities
    rw [retainWithRejections_eq]
    dsimp only
    rw [capCandidates_eq, maxCandidatesPerTx_push]
    split_ifs <;> rfl
  · have hrows : (s.finalizeBlockOpportunities opps blockNum path).2.pendingRejections =
        (s.pushRejections ((rejected s.minProfitWei s.maxCandidatesPerTx
          (suppressSupersededArbs opps)).map fun r => (blockNum, r.1, r.2))).pendingRejections := by
      unfold Runner.finalizeBlockOpportunities rejected
      rw [retainWithRejections_eq]
      dsimp only
      rw [capCandidates_eq, maxCandidatesPerTx_push, pushRejections_append, List.map_append,
        List.map_map]
      split_ifs <;> rfl
    rw [hrows, pendingRejections_push]

/-! ## Two blocks -/

/-- Detectors that find nothing. -/
def noDetectors : Detectors where
  Settings := Unit
  TwoHop := Unit
  MultiHop := Unit
  Jit := Unit
  Backrun := Unit
  newTwoHop := ()
  checkDirection _ _ _ _ _ := none
  dedupArb s _ _ := (false, s)
  newMultiHop _ := ()
  detectMultiHop s _ := ([], s)
  newJit _ _ := ()
  processJit s _ _ _ _ := s
  detectJit s _ := ([], s)
  newBackrun _ := ()
  preDetect s _ := s
  postDetect s _ _ := ([], s)

/-- A runner that records, and caps its candidates at one. -/
def cappedRunner : Runner noDetectors :=
  { settings := (), maxCandidatesPerTx := 1, recordRejections := true }

/-- An opportunity of a transaction between the pools 1 and 2. -/
def txOpp (txIndex : ℕ) (strategy : Strategy) (tokenIn : Address) (expectedProfit : ℕ) :
    MevOpportunity :=
  { blockNumber := 1
    txIndex
    strategy
    poolA := 1
    poolB := 2
    tokenIn
    expectedProfit
    gasCostWei_lt := noGas_lt }

/-- An arbitrage that a backrun supersedes is neither kept nor recorded. Of two transactions with
    one candidate each, the cap of one leaves the second one nothing. -/
theorem superseded_and_crowded_out :
    ((cappedRunner.finalizeBlockOpportunities [txOpp 0 .twoHopArb 3 50, txOpp 0 .backrun 3 50] 1
        .replay).1.map (·.strategy) = [.backrun] ∧
      (cappedRunner.finalizeBlockOpportunities [txOpp 0 .twoHopArb 3 50, txOpp 0 .backrun 3 50] 1
        .replay).2.pendingRejections = []) ∧
    ((cappedRunner.finalizeBlockOpportunities [txOpp 0 .twoHopArb 3 50, txOpp 1 .twoHopArb 4 40] 1
        .replay).1.map (·.txIndex) = [0] ∧
      (cappedRunner.finalizeBlockOpportunities [txOpp 0 .twoHopArb 3 50, txOpp 1 .twoHopArb 4 40] 1
        .replay).2.pendingRejections = [(1, txOpp 1 .twoHopArb 4 40, .maxCandidates)]) := by
  refine ⟨⟨?_, ?_⟩, ?_, ?_⟩ <;> decide +kernel

end MevScout.Pipeline
