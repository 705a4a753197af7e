import MevScout.Common.Deletion
import MevScout.Paper.Sim

/-!
# The simulated ledger

Model of `LedgerPolicy::apply_simulated` (`core/src/paper/ledger.rs`) and what its results
depend on.

Results:
* `ledgers_congr`: rearranging the opportunities changes neither ledger when the sort keys
  of a block differ;
* `fills_taken`: deleting the skipped opportunities leaves the fills alone when no candidate
  meets a state that another one has left uncommitted;
* `failed_candidate_decides`: otherwise it can change them.
-/

namespace MevScout.Paper

open Pool

/-- The local variables of one block. -/
structure SimUse where
  overlay : PoolMap := ∅
  overlayTx : OverlayTx := ∅
  fills : ℕ := 0

/-- The fill that `apply_simulated` records (`ledger.rs`, lines 446–470). -/
def simulatedFill (block : ℕ) (opp : MevOpportunity) (outcome : SimOutcome)
    (walletBefore walletAfter : ℕ) : PaperFill :=
  { blockNumber := block
    txIndex := txIndexOf opp
    canonicalId := opp.canonicalId
    strategy := opp.strategy.toString
    grossWei := outcome.simGrossWei
    gasWei := opp.gasCostWei
    netWei := outcome.simNetWei
    walletBefore := walletBefore
    walletAfter := walletAfter
    pools := poolsOfOpp opp
    mempoolOnly := opp.mempoolOnly
    simMode := .stateSim
    simGrossWei := outcome.simGrossWei
    simNetWei := outcome.simNetWei
    borrowedWei := outcome.borrowedWei
    repayOk := outcome.repayOk
    stateDrift := outcome.stateDrift }

section Ledger

variable (policy : LedgerPolicy) (seeds : SimSeeds) (sim : SimPolicy)

/-- The body of the inner loop of `apply_simulated` (`ledger.rs`, lines 357–478). -/
def LedgerPolicy.applySimulatedStep (block : ℕ) (t : Book × SimUse) (opp : MevOpportunity) :
    Book × SimUse :=
  let (book, use) := t
  match policy.gate book.wallet use.fills opp with
  | some reason => (book.skip block opp reason, use)
  | none =>
    match simulateCandidate opp seeds use.overlay use.overlayTx sim with
    | (overlay, .error fail) => (book.skip block opp fail.toSkip, { use with overlay })
    | (overlay, .ok outcome) =>
      let after := book.applyWalletDelta outcome.simNetWei
      let (overlay, overlayTx) := commitOutcome overlay use.overlayTx outcome opp.txIndex
      (after.fill (simulatedFill block opp outcome book.wallet after.wallet),
        { overlay, overlayTx, fills := use.fills + 1 })

/-- Model of `LedgerPolicy::apply_simulated` (`ledger.rs`, lines 314–508). -/
def LedgerPolicy.applySimulated (opps : List MevOpportunity) : LedgerResult :=
  (Grouping.overGroups (·.blockNumber) Before {} (policy.applySimulatedStep seeds sim)
    policy.book opps).result policy opps .stateSim

end Ledger

/-! ## Rearranged opportunities -/

theorem overGroups_congr {σ τ : Type*} {start : τ} {step : ℕ → σ × τ → MevOpportunity → σ × τ}
    {s : σ} {opps opps' : List MevOpportunity} (hperm : opps.Perm opps')
    (hkeys : opps.Pairwise fun a b => a.blockNumber = b.blockNumber → sortKey a ≠ sortKey b) :
    Grouping.overGroups (·.blockNumber) Before start step s opps =
      Grouping.overGroups (·.blockNumber) Before start step s opps' := by
  have hanti : ∀ a ∈ opps, ∀ b ∈ opps, a.blockNumber = b.blockNumber → Before a b →
      Before b a → a = b := by
    intro a ha b hb hblock hab hba
    have hsymm : Std.Symm fun a b : MevOpportunity =>
        a.blockNumber = b.blockNumber → sortKey a ≠ sortKey b :=
      ⟨fun x y h hb he => h hb.symm he.symm⟩
    by_contra hne
    exact hkeys.forall ha hb hne hblock (before_antisymm hab hba)
  unfold Grouping.overGroups
  rw [Grouping.groups_congr hperm hanti]

theorem result_congr {opps opps' : List MevOpportunity} (hperm : opps.Perm opps') (book : Book)
    (policy : LedgerPolicy) (simMode : SimMode) :
    book.result policy opps simMode = book.result policy opps' simMode := by
  have hmem : ∀ b, b ∈ opps.map (·.blockNumber) ↔ b ∈ opps'.map (·.blockNumber) := fun b =>
    (hperm.map _).mem_iff
  have hmin : (opps.map (·.blockNumber)).min? = (opps'.map (·.blockNumber)).min? := by
    ext b
    rw [List.min?_eq_some_iff, List.min?_eq_some_iff]
    simp only [hmem]
  have hmax : (opps.map (·.blockNumber)).max? = (opps'.map (·.blockNumber)).max? := by
    ext b
    rw [List.max?_eq_some_iff, List.max?_eq_some_iff]
    simp only [hmem]
  unfold Book.result
  rw [hmin, hmax]

/-- **Main theorem.** Rearranging the opportunities changes neither ledger when no two
    opportunities of a block have the same sort key, in which an absent id counts as empty. -/
theorem ledgers_congr (policy : LedgerPolicy) {opps opps' : List MevOpportunity}
    (hperm : opps.Perm opps')
    (hkeys : opps.Pairwise fun a b => a.blockNumber = b.blockNumber → sortKey a ≠ sortKey b) :
    policy.apply opps = policy.apply opps' ∧
      ∀ seeds sim,
        policy.applySimulated seeds sim opps = policy.applySimulated seeds sim opps' := by
  constructor
  · unfold LedgerPolicy.apply
    rw [overGroups_congr hperm hkeys, result_congr hperm]
  · intro seeds sim
    unfold LedgerPolicy.applySimulated
    rw [overGroups_congr hperm hkeys, result_congr hperm]

/-- Two opportunities of different transactions in either order. -/
theorem ledgers_congr_pair :
    let a := plainOpp 1 500 100
    let b := { plainOpp 1 500 100 with txIndex := 1 }
    (plainPolicy 1000 0).apply [a, b] = (plainPolicy 1000 0).apply [b, a] ∧
      ∀ seeds sim, (plainPolicy 1000 0).applySimulated seeds sim [a, b] =
        (plainPolicy 1000 0).applySimulated seeds sim [b, a] :=
  ledgers_congr _ (List.Perm.swap ..) (by decide)

/-- An absent id and an empty one are different, but they compare as equal: the fill goes to
    the one that stands first. -/
theorem absent_id_ties :
    let a := { plainOpp 1 500 100 with poolA := 7, canonicalId := none }
    let b := { plainOpp 1 500 100 with poolA := 7, canonicalId := some "" }
    (netWei a, a.mempoolOnly, a.txIndex, a.canonicalId) ≠
        (netWei b, b.mempoolOnly, b.txIndex, b.canonicalId) ∧
      (plainPolicy 1000 0).apply [a, b] ≠ (plainPolicy 1000 0).apply [b, a] := by
  decide

/-! ## Deleting skipped opportunities -/

section Deletion

variable (policy : LedgerPolicy) (seeds : SimSeeds) (sim : SimPolicy)

/-- The step fills the opportunity. -/
def LedgerPolicy.filled (block : ℕ) (t : Book × SimUse) (opp : MevOpportunity) : Bool :=
  t.1.fills.length < (policy.applySimulatedStep seeds sim block t opp).1.fills.length

/-- The opportunities that `apply_simulated` fills, in the order of the input. -/
def LedgerPolicy.filledOpps (opps : List MevOpportunity) : List MevOpportunity :=
  Grouping.taken (·.blockNumber) Before {} (policy.applySimulatedStep seeds sim)
    (policy.filled seeds sim) policy.book opps

/-- A candidate that passes the gates finds no state of its pools in the overlay but those
    committed by a fill and those equal to its own snapshot. -/
def OwnStates (_block : ℕ) (t : Book × SimUse) (opp : MevOpportunity) : Prop :=
  policy.gate t.1.wallet t.2.fills opp = none → isSimulatable opp.strategy = true →
    ∀ snapshot, opp.canonicalId.bind (seeds[·]?) = some snapshot → ∀ p ∈ poolsOfOpp opp,
      p ∈ t.2.overlay → p ∉ t.2.overlayTx → snapshot.get p = t.2.overlay[p]?

variable {policy seeds sim}

/-- A candidate that passes the gates and is quoted is filled, and its states are
    committed. -/
theorem applySimulatedStep_of_ok {block : ℕ} {t : Book × SimUse} {opp : MevOpportunity}
    {outcome : SimOutcome} (hgate : policy.gate t.1.wallet t.2.fills opp = none)
    (hsim : (simulateCandidate opp seeds t.2.overlay t.2.overlayTx sim).2 = .ok outcome) :
    policy.applySimulatedStep seeds sim block t opp =
      ((t.1.applyWalletDelta outcome.simNetWei).fill
          (simulatedFill block opp outcome t.1.wallet
            (saturatingAddSigned 128 t.1.wallet outcome.simNetWei)),
        { overlay := (commitOutcome (simulateCandidate opp seeds t.2.overlay t.2.overlayTx sim).1
            t.2.overlayTx outcome opp.txIndex).1
          overlayTx := (commitOutcome (simulateCandidate opp seeds t.2.overlay t.2.overlayTx
            sim).1 t.2.overlayTx outcome opp.txIndex).2
          fills := t.2.fills + 1 }) := by
  unfold LedgerPolicy.applySimulatedStep
  cases hres : simulateCandidate opp seeds t.2.overlay t.2.overlayTx sim with
  | mk overlay res =>
    rw [hres] at hsim
    obtain rfl : res = .ok outcome := hsim
    simp only [hgate, hres, applyWalletDelta_wallet]

/-- An opportunity is skipped, which adds states to the overlay at most, or it passes the
    gates and is quoted. -/
theorem applySimulatedStep_cases (policy : LedgerPolicy) (seeds : SimSeeds) (sim : SimPolicy)
    (block : ℕ) (t : Book × SimUse) (opp : MevOpportunity) :
    (∃ reason overlay, (∀ p ∈ t.2.overlay, overlay[p]? = t.2.overlay[p]?) ∧
        policy.applySimulatedStep seeds sim block t opp =
          (t.1.skip block opp reason, { t.2 with overlay })) ∨
      ∃ outcome, policy.gate t.1.wallet t.2.fills opp = none ∧
        (simulateCandidate opp seeds t.2.overlay t.2.overlayTx sim).2 = .ok outcome := by
  unfold LedgerPolicy.applySimulatedStep
  cases hgate : policy.gate t.1.wallet t.2.fills opp with
  | some reason => exact .inl ⟨reason, t.2.overlay, fun p _ => rfl, by simp only [hgate]⟩
  | none =>
    have hkeep : ∀ p ∈ t.2.overlay,
        (simulateCandidate opp seeds t.2.overlay t.2.overlayTx sim).1[p]? = t.2.overlay[p]? :=
      fun p hp => simulateCandidate_getElem hp
    cases hsim : simulateCandidate opp seeds t.2.overlay t.2.overlayTx sim with
    | mk overlay res =>
      rw [hsim] at hkeep
      cases res with
      | error fail => exact .inl ⟨fail.toSkip, overlay, hkeep, by simp only [hgate, hsim]⟩
      | ok outcome => exact .inr ⟨outcome, rfl, rfl⟩

/-- The run without the skipped opportunities holds the committed states alone. -/
structure Reduced (t t' : Book × SimUse) : Prop where
  wallet : t'.1.wallet = t.1.wallet
  fills : t'.1.fills = t.1.fills
  count : t'.2.fills = t.2.fills
  tx : t'.2.overlayTx = t.2.overlayTx
  sub : ∀ p ∈ t.2.overlayTx, p ∈ t.2.overlay
  overlay : ∀ p, t'.2.overlay[p]? = if p ∈ t.2.overlayTx then t.2.overlay[p]? else none

theorem reduced_skip {block : ℕ} {t t' : Book × SimUse} {opp : MevOpportunity} (h : Reduced t t')
    (hfilled : policy.filled seeds sim block t opp = false) :
    Reduced (policy.applySimulatedStep seeds sim block t opp) t' := by
  obtain ⟨reason, overlay, hkeep, hstep⟩ | ⟨outcome, hgate, hsim⟩ :=
    applySimulatedStep_cases policy seeds sim block t opp
  · rw [hstep]
    refine ⟨h.wallet, h.fills, h.count, h.tx, fun p hp => ?_, fun p => ?_⟩
    · obtain ⟨state, hstate⟩ := Map.mem_iff_exists.mp (h.sub p hp)
      exact Map.mem_iff_exists.mpr ⟨state, (hkeep p (h.sub p hp)).trans hstate⟩
    · rw [h.overlay p]
      by_cases hp : p ∈ t.2.overlayTx
      · rw [if_pos hp, if_pos hp, hkeep p (h.sub p hp)]
      · rw [if_neg hp, if_neg hp]
  · unfold LedgerPolicy.filled at hfilled
    rw [applySimulatedStep_of_ok hgate hsim] at hfilled
    simp at hfilled

theorem reduced_fill {block : ℕ} {t t' : Book × SimUse} {opp : MevOpportunity} (h : Reduced t t')
    (hown : OwnStates policy seeds block t opp)
    (hfilled : policy.filled seeds sim block t opp = true) :
    Reduced (policy.applySimulatedStep seeds sim block t opp)
      (policy.applySimulatedStep seeds sim block t' opp) := by
  obtain ⟨reason, overlay, -, hstep⟩ | ⟨outcome, hgate, hsim⟩ :=
    applySimulatedStep_cases policy seeds sim block t opp
  · unfold LedgerPolicy.filled at hfilled
    rw [hstep] at hfilled
    simp at hfilled
  · have hgate' : policy.gate t'.1.wallet t'.2.fills opp = none := by rw [h.wallet, h.count, hgate]
    have hsim' : (simulateCandidate opp seeds t'.2.overlay t'.2.overlayTx sim).2 = .ok outcome := by
      rw [h.tx, ← hsim]
      refine (simulateCandidate_congr fun hstrategy snapshot hseed p hp => ?_).symm
      unfold SameOrOwn
      rw [h.overlay p]
      by_cases htx : p ∈ t.2.overlayTx
      · exact .inl (if_pos htx)
      · rw [if_neg htx]
        by_cases hmem : p ∈ t.2.overlay
        · exact .inr ⟨rfl, htx, hown hgate hstrategy snapshot hseed p hp hmem htx⟩
        · left
          simpa [Map.mem_iff_exists, eq_comm] using hmem
    obtain ⟨hframe, hpost⟩ := simulateCandidate_ok hsim
    obtain ⟨hframe', -⟩ := simulateCandidate_ok hsim'
    rw [applySimulatedStep_of_ok hgate hsim, applySimulatedStep_of_ok hgate' hsim', h.tx, h.wallet,
      h.count]
    rw [h.tx] at hframe'
    generalize (simulateCandidate opp seeds t.2.overlay t.2.overlayTx sim).1 = o at *
    generalize (simulateCandidate opp seeds t'.2.overlay t.2.overlayTx sim).1 = o' at *
    rw [← hpost] at hframe hframe'
    have hold : ∀ p ∉ outcome.postPools.map Prod.fst,
        (p ∈ (commitOutcome o t.2.overlayTx outcome opp.txIndex).2 ↔ p ∈ t.2.overlayTx) ∧
        (commitOutcome o t.2.overlayTx outcome opp.txIndex).1[p]? = t.2.overlay[p]? ∧
        (commitOutcome o' t.2.overlayTx outcome opp.txIndex).1[p]? = t'.2.overlay[p]? := by
      intro p hp
      obtain ⟨ho, htx⟩ := commitOutcome_getElem_of_not_mem o t.2.overlayTx opp.txIndex hp
      obtain ⟨ho', -⟩ := commitOutcome_getElem_of_not_mem o' t.2.overlayTx opp.txIndex hp
      rw [Map.mem_iff_exists, Map.mem_iff_exists, htx]
      exact ⟨Iff.rfl, ho.trans (hframe p hp), ho'.trans (hframe' p hp)⟩
    constructor
    · simp [h.wallet]
    · simp [h.fills]
    · rfl
    · exact commitOutcome_tx ..
    · intro p hp
      by_cases hpool : p ∈ outcome.postPools.map Prod.fst
      · exact (commitOutcome_mem (.inl hpool)).1
      · obtain ⟨hmem, hstate, -⟩ := hold p hpool
        obtain ⟨state, hsome⟩ := Map.mem_iff_exists.mp (h.sub p (hmem.mp hp))
        exact Map.mem_iff_exists.mpr ⟨state, hstate.trans hsome⟩
    · intro p
      show (commitOutcome o' t.2.overlayTx outcome opp.txIndex).1[p]? =
        if p ∈ (commitOutcome o t.2.overlayTx outcome opp.txIndex).2 then
          (commitOutcome o t.2.overlayTx outcome opp.txIndex).1[p]? else none
      by_cases hpool : p ∈ outcome.postPools.map Prod.fst
      · rw [if_pos (commitOutcome_mem (.inl hpool)).2]
        exact commitOutcome_getElem (.inl hpool)
      · obtain ⟨hmem, hstate, hstate'⟩ := hold p hpool
        rw [hstate', h.overlay p, hstate]
        by_cases htx : p ∈ t.2.overlayTx
        · rw [if_pos htx, if_pos (hmem.mpr htx)]
        · rw [if_neg htx, if_neg fun hp => htx (hmem.mp hp)]

/-- **Main theorem.** In a run in which every candidate that passes the gates finds no state
    but committed ones and its own, the fills are those of the filled opportunities alone. -/
theorem fills_taken (policy : LedgerPolicy) (seeds : SimSeeds) (sim : SimPolicy)
    (opps : List MevOpportunity)
    (hown : Grouping.GroupsMeet {} (policy.applySimulatedStep seeds sim) (OwnStates policy seeds)
      policy.book (Grouping.groups (·.blockNumber) Before opps)) :
    (policy.applySimulated seeds sim (policy.filledOpps seeds sim opps)).fills =
      (policy.applySimulated seeds sim opps).fills := by
  have hopen : ∀ s s' : Book, s'.wallet = s.wallet ∧ s'.fills = s.fills →
      Reduced (s, {}) (s', {}) := fun s s' h => ⟨h.1, h.2, rfl, rfl, by simp, by simp⟩
  have hclose : ∀ t t', Reduced t t' → t'.1.wallet = t.1.wallet ∧ t'.1.fills = t.1.fills :=
    fun t t' h => ⟨h.wallet, h.fills⟩
  have hfill : ∀ k t t' opp, Reduced t t' → OwnStates policy seeds k t opp →
      policy.filled seeds sim k t opp = true →
      Reduced (policy.applySimulatedStep seeds sim k t opp)
        (policy.applySimulatedStep seeds sim k t' opp) :=
    fun k t t' opp h hown hfilled => reduced_fill h hown hfilled
  have hskip : ∀ k t t' opp, Reduced t t' → OwnStates policy seeds k t opp →
      policy.filled seeds sim k t opp = false →
      Reduced (policy.applySimulatedStep seeds sim k t opp) t' :=
    fun k t t' opp h _ hfilled => reduced_skip h hfilled
  exact (Grouping.overGroups_taken hopen hclose hfill hskip hown ⟨rfl, rfl⟩).2

end Deletion

/-! ## Two candidates of one route -/

/-- A V2 pool of tokens 1 and 2 at `address`. -/
def routePool (address : Address) (reserve0 reserve1 : ℕ) : PoolState :=
  .uniswapV2
    { info := { address := address, token0 := 1, token1 := 2, fee := 30, dexType := .uniswapV2 }
      reserve0 := reserve0
      reserve1 := reserve1 }

/-- A candidate of transaction `txIndex` that trades 1000 of token 1 over the pools 10 and 11. -/
def routeOpp (id : String) (txIndex profit gas : ℕ) (hgas : gas < 2 ^ 128 := by decide) :
    MevOpportunity :=
  { canonicalId := some id
    blockNumber := 7
    txIndex := txIndex
    strategy := .backrun
    poolA := 10
    poolB := 11
    tokenIn := 1
    tokenOut := 1
    inputAmount := 1000
    expectedProfit := profit
    gasCostWei := gas
    gasCostWei_lt := hgas
    path := some [10, 11] }

/-- The pools 10 and 11 at a transaction. -/
def routeSnapshot (txIndex reserve1 : ℕ) : PoolSnapshot :=
  { blockNumber := 7
    txIndex := txIndex
    pools := [(10, routePool 10 1000000 reserve1), (11, routePool 11 1000000 1000000)] }

/-- The states that the candidates were quoted against: pool 10 has moved between them. -/
def routeSeeds : SimSeeds :=
  .ofList [("first", routeSnapshot 1 1500000), ("second", routeSnapshot 2 2000000)]

/-- The second candidate meets the pools that the first one has committed. -/
theorem fills_taken_committed :
    let opps := [routeOpp "first" 1 5000 100, routeOpp "second" 2 1000 100]
    ((plainPolicy 10000 0).applySimulated routeSeeds {}
        ((plainPolicy 10000 0).filledOpps routeSeeds {} opps)).fills =
      ((plainPolicy 10000 0).applySimulated routeSeeds {} opps).fills := by
  refine fills_taken _ _ _ _ ?_
  have hgroups : Grouping.groups (·.blockNumber) Before
      [routeOpp "first" 1 5000 100, routeOpp "second" 2 1000 100] =
        [(7, [routeOpp "first" 1 5000 100, routeOpp "second" 2 1000 100])] := by decide +kernel
  rw [hgroups]
  refine ⟨⟨?_, ?_, trivial⟩, trivial⟩
  · intro _ _ snapshot _ p _ hp
    simp at hp
  · intro _ _ snapshot _ p hp _ hnot
    have hcommitted : (poolsOfOpp (routeOpp "second" 2 1000 100)).all
        (· ∈ ((plainPolicy 10000 0).applySimulatedStep routeSeeds {} 7
          ((plainPolicy 10000 0).book, {}) (routeOpp "first" 1 5000 100)).2.overlayTx) = true := by
      decide +kernel
    exact absurd (of_decide_eq_true (List.all_eq_true.mp hcommitted p hp)) hnot

/-- The first candidate costs too much gas and is skipped, but its states stay in the overlay:
    the second one earns 387 instead of 882. -/
theorem failed_candidate_decides :
    let opps := [routeOpp "first" 1 5000 2000, routeOpp "second" 2 1000 100]
    (plainPolicy 10000 0).filledOpps routeSeeds {} opps = [routeOpp "second" 2 1000 100] ∧
      (((plainPolicy 10000 0).applySimulated routeSeeds {} opps).fills.map (·.netWei) = [387] ∧
      ((plainPolicy 10000 0).applySimulated routeSeeds {}
        ((plainPolicy 10000 0).filledOpps routeSeeds {} opps)).fills.map (·.netWei) = [882]) := by
  decide +kernel

end MevScout.Paper
