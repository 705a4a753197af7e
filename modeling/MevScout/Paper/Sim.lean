import MevScout.Paper.Ledger
import MevScout.Pool.Manager
import MevScout.Pool.Sim

/-!
# Simulating a candidate

Models of `core/src/paper/sim.rs`: the quote of one candidate against the overlay of its
block. A candidate that fails keeps what `ensure_pools_seeded` has already written.

Results:
* `simulateCandidate_cases`: where a candidate can fail without touching the overlay;
* `simulateCandidate_ok`: what a candidate that can be filled leaves and returns;
* `simulateCandidate_getElem`: a pool of the overlay keeps its state;
* `simulateCandidate_congr`: overlays that differ only in states equal to the candidate's
  own snapshot give the same outcome.
-/

namespace MevScout.Paper

open Pool Map

/-! ## Data -/

/-- Model of `SimPolicy` (`sim.rs`, lines 16–26): the fields that the quote reads. -/
structure SimPolicy where
  flashLoan : Bool := true
  feeBps : ℕ := 0

/-- Model of `SimPolicy::flash_loan_fee` (`sim.rs`, lines 40–45). -/
def SimPolicy.flashLoanFee (policy : SimPolicy) (borrowed : ℕ) : ℕ :=
  if ¬policy.flashLoan ∨ policy.feeBps = 0 then 0
  else saturatingMul 128 borrowed policy.feeBps / 10000

/-- Model of `PoolSnapshot` (`sim.rs`, lines 60–66). -/
structure PoolSnapshot where
  blockNumber : ℕ
  txIndex : ℕ
  pools : List (Address × PoolState)
  deriving DecidableEq

/-- Model of `PoolSnapshot::get` (`sim.rs`, lines 68–72). -/
def PoolSnapshot.get (snapshot : PoolSnapshot) (addr : Address) : Option PoolState :=
  (snapshot.pools.find? (·.1 = addr)).map Prod.snd

/-- Model of `SimSeeds` (`sim.rs`, lines 74–75): snapshots by `canonical_id`. -/
abbrev SimSeeds := Std.ExtTreeMap String PoolSnapshot compare

/-- Model of `SimOutcome` (`sim.rs`, lines 77–87). -/
structure SimOutcome where
  simGrossWei : ℕ
  simNetWei : ℤ
  borrowedWei : ℕ
  repayOk : Bool
  stateDrift : Bool
  postPools : List (Address × PoolState)

/-- Model of `SimFail` (`sim.rs`, lines 89–97). -/
inductive SimFail where
  | notQuotable | pathUnavailable | priceConsumed | repayShortfall | strategyUnsupported
  deriving DecidableEq, Repr

/-- Model of `SimFail::to_skip` (`sim.rs`, lines 99–109). -/
def SimFail.toSkip : SimFail → FillSkipReason
  | notQuotable => .simNotQuotable
  | pathUnavailable => .simPathUnavailable
  | priceConsumed => .simPriceConsumed
  | repayShortfall => .simRepayShortfall
  | strategyUnsupported => .simStrategyUnsupported

/-- Model of `pools_of_opp` (`sim.rs`, lines 111–130). -/
def poolsOfOpp (opp : MevOpportunity) : List Address :=
  let pools := (opp.path.getD []).foldl addPool []
  if pools = [] then addPool (addPool [] opp.poolA) opp.poolB else pools

/-! ## Quotes -/

/-- Model of `next_token` (`sim.rs`, lines 290–316). The keys of a token index ascend, so
    the first one is the least. -/
def nextToken (pool : PoolState) (tokenIn : Address) : Option Address :=
  match pool with
  | .curve c => (c.tokenIndex.keys.filter (· ≠ tokenIn)).head?
  | .balancer b => (b.tokenIndex.keys.filter (· ≠ tokenIn)).head?
  | pool =>
    if pool.info.token0 = tokenIn then some pool.info.token1
    else if pool.info.token1 = tokenIn then some pool.info.token0
    else none

/-- Model of `walk_quote_post` (`sim.rs`, lines 318–337). -/
def walkQuotePost : List Address → PoolMap → Address → ℕ → Option (ℕ × PoolMap)
  | [], overlay, _, current => some (current, overlay)
  | addr :: path, overlay, currentToken, current => do
    let pool ← overlay[addr]?
    let tokenOut ← nextToken pool currentToken
    let (out, post) ← quoteSwapPost pool currentToken current tokenOut
    walkQuotePost path (overlay.insert addr (applyPostState pool post)) tokenOut out

/-- The transaction of the last commit to each pool: `overlay_tx`. -/
abbrev OverlayTx := Std.ExtTreeMap Address ℕ compare

/-- Model of `ensure_pools_seeded` (`sim.rs`, lines 339–358). The overlay is what the loop has
    made of it, also where it fails. -/
def ensurePoolsSeeded (overlayTx : OverlayTx) (snapshot : PoolSnapshot) :
    List Address → PoolMap → Bool → PoolMap × Except SimFail Bool
  | [], overlay, drifted => (overlay, .ok drifted)
  | addr :: path, overlay, drifted =>
    if addr ∈ overlay then
      let written := overlayTx[addr]?.any (· ≠ snapshot.txIndex)
      ensurePoolsSeeded overlayTx snapshot path overlay (drifted || written)
    else
      match snapshot.get addr with
      | none => (overlay, .error .pathUnavailable)
      | some state => ensurePoolsSeeded overlayTx snapshot path (overlay.insert addr state) drifted

/-- The states of a path, as the scratch copy and `post_pools` collect them. -/
def pathStates (overlay : PoolMap) (path : List Address) : List (Address × PoolState) :=
  path.filterMap fun a => overlay[a]?.map (a, ·)

/-- `simulate_candidate` from the scratch copy on (`sim.rs`, lines 383–444). The manager that
    `normalize_profit` gets has no wrapped native token, so the profit stays in its token. -/
def quoteCandidate (opp : MevOpportunity) (overlay : PoolMap) (stateDrift : Bool)
    (policy : SimPolicy) : Except SimFail SimOutcome :=
  let path := poolsOfOpp opp
  let scratch : PoolMap := .ofList (pathStates overlay path)
  if scratch.size ≠ path.length then .error .pathUnavailable
  else
    let borrowed := u256ToU128 opp.inputAmount
    if borrowed = 0 then .error .pathUnavailable
    else
      match walkQuotePost path scratch opp.tokenIn borrowed with
      | none => .error .pathUnavailable
      | some (out, scratch) =>
        let fee := policy.flashLoanFee borrowed
        let repayOk := decide (saturatingAdd 128 borrowed fee ≤ out)
        if policy.flashLoan ∧ ¬repayOk then .error .repayShortfall
        else
          let tokenGross := out - borrowed - fee
          if tokenGross = 0 then .error .priceConsumed
          else
            let simNet := wrapSigned 128 (asSigned 128 tokenGross - asSigned 128 opp.gasCostWei)
            if simNet ≤ 0 then .error .priceConsumed
            else .ok
              { simGrossWei := tokenGross
                simNetWei := simNet
                borrowedWei := borrowed
                repayOk := repayOk
                stateDrift := stateDrift
                postPools := pathStates scratch path }

/-- Model of `simulate_candidate` (`sim.rs`, lines 360–445), with the overlay that it
    leaves. -/
def simulateCandidate (opp : MevOpportunity) (seeds : SimSeeds) (overlay : PoolMap)
    (overlayTx : OverlayTx) (policy : SimPolicy) : PoolMap × Except SimFail SimOutcome :=
  if ¬isSimulatable opp.strategy then (overlay, .error .strategyUnsupported)
  else
    match opp.canonicalId.bind (seeds[·]?) with
    | none => (overlay, .error .notQuotable)
    | some snapshot =>
      if poolsOfOpp opp = [] then (overlay, .error .pathUnavailable)
      else
        match ensurePoolsSeeded overlayTx snapshot (poolsOfOpp opp) overlay false with
        | (overlay, .error e) => (overlay, .error e)
        | (overlay, .ok stateDrift) => (overlay, quoteCandidate opp overlay stateDrift policy)

/-- Model of `commit_outcome` (`sim.rs`, lines 447–458). -/
def commitOutcome (overlay : PoolMap) (overlayTx : OverlayTx) (outcome : SimOutcome)
    (txIndex : ℕ) : PoolMap × OverlayTx :=
  outcome.postPools.foldl (fun t p => (t.1.insert p.1 p.2, t.2.insert p.1 txIndex))
    (overlay, overlayTx)

/-! ## Seeding -/

section Seeding

variable {overlayTx : OverlayTx} {snapshot : PoolSnapshot} {path : List Address}
  {overlay : PoolMap} {drifted : Bool} {p : Address}

theorem ensurePoolsSeeded_getElem (hp : p ∈ overlay) :
    (ensurePoolsSeeded overlayTx snapshot path overlay drifted).1[p]? = overlay[p]? := by
  induction path generalizing overlay drifted with
  | nil => rfl
  | cons addr path ih =>
    rw [ensurePoolsSeeded]
    by_cases haddr : addr ∈ overlay
    · rw [if_pos haddr]
      exact ih hp
    · rw [if_neg haddr]
      cases snapshot.get addr with
      | none => rfl
      | some state =>
        have hne : addr ≠ p := fun he => haddr (he ▸ hp)
        rw [ih (Std.ExtTreeMap.mem_insert.mpr (.inr hp)), getElem?_insert_eq, if_neg hne]

theorem ensurePoolsSeeded_getElem_of_not_mem (hp : p ∉ path) :
    (ensurePoolsSeeded overlayTx snapshot path overlay drifted).1[p]? = overlay[p]? := by
  induction path generalizing overlay drifted with
  | nil => rfl
  | cons addr path ih =>
    obtain ⟨hne, hp⟩ := List.ne_and_not_mem_of_not_mem_cons hp
    rw [ensurePoolsSeeded]
    split_ifs with haddr
    · exact ih hp
    · cases snapshot.get addr with
      | none => rfl
      | some state => rw [ih hp, getElem?_insert_eq, if_neg (Ne.symm hne)]

theorem mem_of_ensurePoolsSeeded_ok {b : Bool}
    (h : (ensurePoolsSeeded overlayTx snapshot path overlay drifted).2 = .ok b) :
    ∀ p ∈ path, p ∈ (ensurePoolsSeeded overlayTx snapshot path overlay drifted).1 := by
  induction path generalizing overlay drifted with
  | nil => simp
  | cons addr path ih =>
    have hkeep : ∀ {overlay : PoolMap} {drifted : Bool}, addr ∈ overlay →
        addr ∈ (ensurePoolsSeeded overlayTx snapshot path overlay drifted).1 := by
      intro overlay drifted hmem
      obtain ⟨state, hstate⟩ := mem_iff_exists.mp hmem
      exact mem_iff_exists.mpr ⟨state, (ensurePoolsSeeded_getElem hmem).trans hstate⟩
    rw [ensurePoolsSeeded] at h ⊢
    by_cases haddr : addr ∈ overlay
    · rw [if_pos haddr] at h ⊢
      intro p hp
      rcases List.mem_cons.mp hp with rfl | hp
      · exact hkeep haddr
      · exact ih h p hp
    · rw [if_neg haddr] at h ⊢
      cases hget : snapshot.get addr with
      | none => rw [hget] at h; cases h
      | some state =>
        rw [hget] at h
        intro p hp
        rcases List.mem_cons.mp hp with rfl | hp
        · exact hkeep (Std.ExtTreeMap.mem_insert.mpr (.inl Std.ReflCmp.compare_self))
        · exact ih h p hp

/-- The overlays agree on `p`, or only the first holds a state, uncommitted and equal to the
    snapshot's. -/
def SameOrOwn (overlayTx : OverlayTx) (snapshot : PoolSnapshot) (overlay overlay' : PoolMap)
    (p : Address) : Prop :=
  overlay'[p]? = overlay[p]? ∨
    (overlay'[p]? = none ∧ p ∉ overlayTx ∧ snapshot.get p = overlay[p]?)

section SameOrOwn

variable {o o' : PoolMap} {addr p : Address} {state : PoolState}

/-- It holds on when both overlays get the same state. -/
theorem SameOrOwn.insert (h : SameOrOwn overlayTx snapshot o o' p) (state : PoolState) :
    SameOrOwn overlayTx snapshot (o.insert addr state) (o'.insert addr state) p := by
  unfold SameOrOwn
  rw [getElem?_insert_eq, getElem?_insert_eq]
  by_cases hpa : addr = p
  · rw [if_pos hpa, if_pos hpa]
    exact .inl rfl
  · rw [if_neg hpa, if_neg hpa]
    exact h

/-- It holds on when the second overlay gets the state of the first one. -/
theorem SameOrOwn.insert_right (h : SameOrOwn overlayTx snapshot o o' p)
    (hstate : o[addr]? = some state) :
    SameOrOwn overlayTx snapshot o (o'.insert addr state) p := by
  by_cases hpa : addr = p
  · subst hpa
    exact .inl (by rw [getElem?_insert_eq, if_pos rfl, hstate])
  · unfold SameOrOwn
    rw [getElem?_insert_eq, if_neg hpa]
    exact h

end SameOrOwn

theorem ensurePoolsSeeded_congr {overlay' : PoolMap}
    (h : ∀ p ∈ path, SameOrOwn overlayTx snapshot overlay overlay' p) :
    (ensurePoolsSeeded overlayTx snapshot path overlay drifted).2 =
        (ensurePoolsSeeded overlayTx snapshot path overlay' drifted).2 ∧
      ∀ b, (ensurePoolsSeeded overlayTx snapshot path overlay drifted).2 = .ok b → ∀ p ∈ path,
        (ensurePoolsSeeded overlayTx snapshot path overlay drifted).1[p]? =
          (ensurePoolsSeeded overlayTx snapshot path overlay' drifted).1[p]? := by
  induction path generalizing overlay overlay' drifted with
  | nil => exact ⟨rfl, by simp⟩
  | cons addr path ih =>
    have hhead := h addr (List.mem_cons_self ..)
    have htail := fun p hp => h p (List.mem_cons_of_mem _ hp)
    -- once both overlays hold the same state of `addr`, the rest of the path decides
    have hnext : ∀ {o o' : PoolMap} {d : Bool}, addr ∈ o → o'[addr]? = o[addr]? →
        (∀ p ∈ path, SameOrOwn overlayTx snapshot o o' p) →
        (ensurePoolsSeeded overlayTx snapshot path o d).2 =
            (ensurePoolsSeeded overlayTx snapshot path o' d).2 ∧
          ∀ b, (ensurePoolsSeeded overlayTx snapshot path o d).2 = .ok b →
            ∀ p ∈ addr :: path, (ensurePoolsSeeded overlayTx snapshot path o d).1[p]? =
              (ensurePoolsSeeded overlayTx snapshot path o' d).1[p]? := by
      intro o o' d hmem hsame hpath
      have hmem' : addr ∈ o' := by
        obtain ⟨state, hstate⟩ := mem_iff_exists.mp hmem
        exact mem_iff_exists.mpr ⟨state, hsame.trans hstate⟩
      obtain ⟨hres, hagree⟩ := @ih o d o' hpath
      refine ⟨hres, fun b hb p hp => ?_⟩
      rcases List.mem_cons.mp hp with rfl | hp
      · rw [ensurePoolsSeeded_getElem hmem, ensurePoolsSeeded_getElem hmem', hsame]
      · exact hagree b hb p hp
    rw [ensurePoolsSeeded, ensurePoolsSeeded]
    by_cases hmem : addr ∈ overlay
    · rw [if_pos hmem]
      obtain ⟨state, hstate⟩ := mem_iff_exists.mp hmem
      obtain hsame | ⟨hnone, htx, hown⟩ := hhead
      · have hmem' : addr ∈ overlay' := mem_iff_exists.mpr ⟨state, hsame.trans hstate⟩
        rw [if_pos hmem']
        exact hnext hmem hsame htail
      · have hmem' : addr ∉ overlay' := by simpa [mem_iff_exists] using hnone
        have hwritten : overlayTx[addr]? = none := by simpa [mem_iff_exists] using htx
        rw [if_neg hmem', hown, hstate, hwritten]
        simp only [Option.any_none, Bool.or_false]
        refine hnext hmem ?_ fun p hp => (htail p hp).insert_right hstate
        rw [getElem?_insert_eq, if_pos rfl, hstate]
    · have habsent : overlay[addr]? = none := by simpa [mem_iff_exists] using hmem
      have habsent' : overlay'[addr]? = none := by
        obtain hsame | ⟨hnone, -, -⟩ := hhead
        · exact hsame.trans habsent
        · exact hnone
      have hmem' : addr ∉ overlay' := by simpa [mem_iff_exists] using habsent'
      rw [if_neg hmem, if_neg hmem']
      cases snapshot.get addr with
      | none => exact ⟨rfl, fun b hb => by cases hb⟩
      | some state =>
        refine hnext (Std.ExtTreeMap.mem_insert.mpr (.inl Std.ReflCmp.compare_self)) ?_
          fun p hp => (htail p hp).insert state
        rw [getElem?_insert_eq, getElem?_insert_eq, if_pos rfl, if_pos rfl]

end Seeding

/-! ## Candidates -/

theorem walkQuotePost_mem {path : List Address} {overlay overlay' : PoolMap} {token : Address}
    {current out : ℕ} (h : walkQuotePost path overlay token current = some (out, overlay'))
    {p : Address} (hp : p ∈ overlay) : p ∈ overlay' := by
  induction path generalizing overlay token current with
  | nil =>
    obtain ⟨-, rfl⟩ : current = out ∧ overlay = overlay' := by simpa [walkQuotePost] using h
    exact hp
  | cons addr path ih =>
    simp only [walkQuotePost, Option.bind_eq_bind, Option.bind_eq_some_iff] at h
    obtain ⟨pool, -, tokenOut, -, ⟨amount, post⟩, -, h⟩ := h
    exact ih h (Std.ExtTreeMap.mem_insert.mpr (.inr hp))

theorem pathStates_congr {overlay overlay' : PoolMap} {path : List Address}
    (h : ∀ p ∈ path, overlay[p]? = overlay'[p]?) :
    pathStates overlay path = pathStates overlay' path := by
  refine List.filterMap_congr fun p hp => ?_
  rw [h p hp]

theorem pathStates_fst {overlay : PoolMap} {path : List Address} (h : ∀ p ∈ path, p ∈ overlay) :
    (pathStates overlay path).map Prod.fst = path := by
  induction path with
  | nil => rfl
  | cons p path ih =>
    obtain ⟨state, hstate⟩ := mem_iff_exists.mp (h p (List.mem_cons_self ..))
    have := ih fun q hq => h q (List.mem_cons_of_mem _ hq)
    rw [pathStates, List.filterMap_cons_some (by rw [hstate]; rfl), List.map_cons]
    exact congrArg (p :: ·) this

theorem quoteCandidate_congr {opp : MevOpportunity} {overlay overlay' : PoolMap}
    (h : ∀ p ∈ poolsOfOpp opp, overlay[p]? = overlay'[p]?) (stateDrift : Bool)
    (policy : SimPolicy) :
    quoteCandidate opp overlay stateDrift policy =
      quoteCandidate opp overlay' stateDrift policy := by
  unfold quoteCandidate
  dsimp only
  rw [pathStates_congr h]

/-- The states that a filled candidate commits are those of the pools of its path. -/
theorem quoteCandidate_ok {opp : MevOpportunity} {overlay : PoolMap} {stateDrift : Bool}
    {policy : SimPolicy} {outcome : SimOutcome}
    (h : quoteCandidate opp overlay stateDrift policy = .ok outcome)
    (hmem : ∀ p ∈ poolsOfOpp opp, p ∈ overlay) :
    outcome.postPools.map Prod.fst = poolsOfOpp opp := by
  unfold quoteCandidate at h
  dsimp only at h
  split_ifs at h with hsize hzero
  split at h
  · cases h
  · next out scratch hwalk =>
    split_ifs at h
    obtain rfl := Except.ok.inj h
    refine pathStates_fst fun p hp => walkQuotePost_mem hwalk ?_
    rw [Std.ExtTreeMap.mem_ofList, pathStates_fst hmem]
    simpa using hp

/-- The net of a quote is its gross profit less the gas, in `i128`. -/
theorem quoteCandidate_net {opp : MevOpportunity} {overlay : PoolMap} {stateDrift : Bool}
    {policy : SimPolicy} {outcome : SimOutcome}
    (h : quoteCandidate opp overlay stateDrift policy = .ok outcome) :
    outcome.simNetWei =
      wrapSigned 128 (asSigned 128 outcome.simGrossWei - asSigned 128 opp.gasCostWei) := by
  unfold quoteCandidate at h
  dsimp only at h
  split_ifs at h
  split at h
  · cases h
  · split_ifs at h
    obtain rfl := Except.ok.inj h
    dsimp only

/-- A candidate fails before it touches the overlay, or it seeds its path and is quoted. -/
theorem simulateCandidate_cases (opp : MevOpportunity) (seeds : SimSeeds) (overlayTx : OverlayTx)
    (policy : SimPolicy) :
    (∃ e, ∀ overlay, simulateCandidate opp seeds overlay overlayTx policy = (overlay, .error e)) ∨
      (isSimulatable opp.strategy = true ∧
        ∃ snapshot, opp.canonicalId.bind (seeds[·]?) = some snapshot ∧ ∀ overlay,
          simulateCandidate opp seeds overlay overlayTx policy =
            ((ensurePoolsSeeded overlayTx snapshot (poolsOfOpp opp) overlay false).1,
              (ensurePoolsSeeded overlayTx snapshot (poolsOfOpp opp) overlay false).2.bind
                (quoteCandidate opp
                  (ensurePoolsSeeded overlayTx snapshot (poolsOfOpp opp) overlay false).1 ·
                  policy))) := by
  unfold simulateCandidate
  by_cases hsim : isSimulatable opp.strategy = true
  · cases opp.canonicalId.bind (seeds[·]?) with
    | none => exact .inl ⟨.notQuotable, fun overlay => by simp [hsim]⟩
    | some snapshot =>
      by_cases hpath : poolsOfOpp opp = []
      · exact .inl ⟨.pathUnavailable, fun overlay => by simp [hsim, hpath]⟩
      · refine .inr ⟨hsim, snapshot, rfl, fun overlay => ?_⟩
        simp only [hsim, hpath, not_true_eq_false, if_false]
        cases ensurePoolsSeeded overlayTx snapshot (poolsOfOpp opp) overlay false with
        | mk o res => cases res <;> rfl
  · exact .inl ⟨.strategyUnsupported, fun overlay => by simp [hsim]⟩

/-- What a candidate that can be filled leaves and returns. -/
theorem simulateCandidate_ok {opp : MevOpportunity} {seeds : SimSeeds} {overlay : PoolMap}
    {overlayTx : OverlayTx} {policy : SimPolicy} {outcome : SimOutcome}
    (h : (simulateCandidate opp seeds overlay overlayTx policy).2 = .ok outcome) :
    (∀ p ∉ poolsOfOpp opp,
        (simulateCandidate opp seeds overlay overlayTx policy).1[p]? = overlay[p]?) ∧
      outcome.postPools.map Prod.fst = poolsOfOpp opp := by
  obtain ⟨e, hsim⟩ | ⟨-, snapshot, -, hsim⟩ := simulateCandidate_cases opp seeds overlayTx policy
  · rw [hsim] at h
    cases h
  · rw [hsim] at h ⊢
    refine ⟨fun p hp => ensurePoolsSeeded_getElem_of_not_mem hp, ?_⟩
    cases hens : (ensurePoolsSeeded overlayTx snapshot (poolsOfOpp opp) overlay false).2 with
    | error e => rw [hens] at h; cases h
    | ok drift =>
      rw [hens] at h
      exact quoteCandidate_ok h (mem_of_ensurePoolsSeeded_ok hens)

theorem simulateCandidate_net {opp : MevOpportunity} {seeds : SimSeeds} {overlay : PoolMap}
    {overlayTx : OverlayTx} {policy : SimPolicy} {outcome : SimOutcome}
    (h : (simulateCandidate opp seeds overlay overlayTx policy).2 = .ok outcome) :
    outcome.simNetWei =
      wrapSigned 128 (asSigned 128 outcome.simGrossWei - asSigned 128 opp.gasCostWei) := by
  obtain ⟨e, hsim⟩ | ⟨-, snapshot, -, hsim⟩ := simulateCandidate_cases opp seeds overlayTx policy
  · rw [hsim] at h
    cases h
  · rw [hsim] at h
    cases hens : (ensurePoolsSeeded overlayTx snapshot (poolsOfOpp opp) overlay false).2 with
    | error e => rw [hens] at h; cases h
    | ok drift =>
      rw [hens] at h
      exact quoteCandidate_net h

/-- A pool that is in the overlay keeps its state, whatever comes of the candidate. -/
theorem simulateCandidate_getElem {opp : MevOpportunity} {seeds : SimSeeds} {overlay : PoolMap}
    {overlayTx : OverlayTx} {policy : SimPolicy} {p : Address} (hp : p ∈ overlay) :
    (simulateCandidate opp seeds overlay overlayTx policy).1[p]? = overlay[p]? := by
  obtain ⟨e, hsim⟩ | ⟨-, snapshot, -, hsim⟩ := simulateCandidate_cases opp seeds overlayTx policy
  · rw [hsim]
  · rw [hsim]
    exact ensurePoolsSeeded_getElem hp

/-- Overlays that differ only in states equal to the candidate's own snapshot give the same
    outcome. -/
theorem simulateCandidate_congr {opp : MevOpportunity} {seeds : SimSeeds}
    {overlay overlay' : PoolMap} {overlayTx : OverlayTx} {policy : SimPolicy}
    (h : isSimulatable opp.strategy = true →
      ∀ snapshot, opp.canonicalId.bind (seeds[·]?) = some snapshot → ∀ p ∈ poolsOfOpp opp,
        SameOrOwn overlayTx snapshot overlay overlay' p) :
    (simulateCandidate opp seeds overlay overlayTx policy).2 =
      (simulateCandidate opp seeds overlay' overlayTx policy).2 := by
  obtain ⟨e, hsim⟩ | ⟨hstrategy, snapshot, hseed, hsim⟩ :=
    simulateCandidate_cases opp seeds overlayTx policy
  · rw [hsim, hsim]
  · rw [hsim, hsim]
    obtain ⟨hres, hagree⟩ := ensurePoolsSeeded_congr (h hstrategy snapshot hseed)
    show Except.bind _ _ = Except.bind _ _
    rw [← hres]
    cases hens : (ensurePoolsSeeded overlayTx snapshot (poolsOfOpp opp) overlay false).2 with
    | error e => rfl
    | ok drift => exact quoteCandidate_congr (hagree drift hens) drift policy

/-! ## Commits -/

theorem commitOutcome_getElem {overlay overlay' : PoolMap} {overlayTx : OverlayTx}
    {outcome : SimOutcome} {txIndex : ℕ} {p : Address}
    (h : p ∈ outcome.postPools.map Prod.fst ∨ overlay[p]? = overlay'[p]?) :
    (commitOutcome overlay overlayTx outcome txIndex).1[p]? =
      (commitOutcome overlay' overlayTx outcome txIndex).1[p]? := by
  unfold commitOutcome
  generalize outcome.postPools = pairs at h
  induction pairs generalizing overlay overlay' overlayTx with
  | nil => simpa using h
  | cons pair pairs ih =>
    rw [List.foldl_cons, List.foldl_cons]
    refine ih ?_
    rw [getElem?_insert_eq, getElem?_insert_eq]
    by_cases hp : pair.1 = p
    · right
      rw [if_pos hp, if_pos hp]
    · rw [if_neg hp, if_neg hp]
      rw [List.map_cons, List.mem_cons, or_assoc] at h
      exact h.resolve_left (Ne.symm hp)

theorem commitOutcome_getElem_of_not_mem (overlay : PoolMap) (overlayTx : OverlayTx)
    {outcome : SimOutcome} (txIndex : ℕ) {p : Address} (h : p ∉ outcome.postPools.map Prod.fst) :
    (commitOutcome overlay overlayTx outcome txIndex).1[p]? = overlay[p]? ∧
      (commitOutcome overlay overlayTx outcome txIndex).2[p]? = overlayTx[p]? := by
  unfold commitOutcome
  generalize outcome.postPools = pairs at h
  induction pairs generalizing overlay overlayTx with
  | nil => exact ⟨rfl, rfl⟩
  | cons pair pairs ih =>
    obtain ⟨hne, hp⟩ := List.ne_and_not_mem_of_not_mem_cons h
    rw [List.foldl_cons]
    have := ih (overlay.insert pair.1 pair.2) (overlayTx.insert pair.1 txIndex) hp
    rwa [getElem?_insert_eq, getElem?_insert_eq, if_neg (Ne.symm hne), if_neg (Ne.symm hne)] at this

theorem commitOutcome_mem {overlay : PoolMap} {overlayTx : OverlayTx} {outcome : SimOutcome}
    {txIndex : ℕ} {p : Address}
    (h : p ∈ outcome.postPools.map Prod.fst ∨ p ∈ overlay ∧ p ∈ overlayTx) :
    p ∈ (commitOutcome overlay overlayTx outcome txIndex).1 ∧
      p ∈ (commitOutcome overlay overlayTx outcome txIndex).2 := by
  unfold commitOutcome
  generalize outcome.postPools = pairs at h
  induction pairs generalizing overlay overlayTx with
  | nil => simpa using h
  | cons pair pairs ih =>
    rw [List.foldl_cons]
    refine ih ?_
    rw [Std.ExtTreeMap.mem_insert, Std.ExtTreeMap.mem_insert]
    rw [List.map_cons, List.mem_cons, or_assoc] at h
    rcases h with rfl | h | h
    · exact .inr ⟨.inl Std.ReflCmp.compare_self, .inl Std.ReflCmp.compare_self⟩
    · exact .inl h
    · exact .inr ⟨.inr h.1, .inr h.2⟩

theorem commitOutcome_tx (overlay overlay' : PoolMap) (overlayTx : OverlayTx)
    (outcome : SimOutcome) (txIndex : ℕ) :
    (commitOutcome overlay overlayTx outcome txIndex).2 =
      (commitOutcome overlay' overlayTx outcome txIndex).2 := by
  unfold commitOutcome
  generalize outcome.postPools = pairs
  induction pairs generalizing overlay overlay' overlayTx with
  | nil => rfl
  | cons pair pairs ih => exact ih _ _ _

end MevScout.Paper
