import MevScout.Explorer.Arb

/-!
# The order of the legs

The search for a cycle goes over the swaps in their log order, and the start token of the first
cycle that it finds is the token in which the profit is measured. Another order of the same swaps
can start the cycle at another token.

Results:
* `findClosedCycle_of_first`: the trail whose swaps stand first is found;
* `bookCycle_perm`: what a cycle books at a start token does not depend on the order;
* `bookable_iff`: a cycle is booked exactly where it passes the gates;
* `reversed_legs_book_nothing`: a cycle in route order is booked, and in reverse order it is not;
* `orderFree_iff`: the order does not matter exactly when no cycle passes the gates at its start
  token or all of them start at one token.
-/

namespace MevScout.Explorer

open Trail

/-! ## A trail that stands first -/

section First

variable {edges : List SwapEdge} {startEdge curEdge : Fin edges.length} {fuel : ℕ}

theorem findSome?_finRange {β : Type*} {n : ℕ} {f : Fin n → Option β} {k : Fin n} {b : β}
    (hk : f k = some b) (hlt : ∀ j < k, f j = none) : (List.finRange n).findSome? f = some b := by
  have hlen : k.val < (List.finRange n).length := by rw [List.length_finRange]; exact k.isLt
  refine List.findSome?_eq_some_iff.mpr
    ⟨(List.finRange n).take k, k, (List.finRange n).drop (k + 1), ?_, hk, fun j hj => hlt j ?_⟩
  · have hdrop := List.drop_eq_getElem_cons hlen
    rw [List.getElem_finRange] at hdrop
    have hcut := List.take_append_drop k.val (List.finRange n)
    rw [hdrop] at hcut
    exact hcut.symm
  · obtain ⟨i, hi, rfl⟩ := List.mem_take_iff_getElem.mp hj
    rw [List.getElem_finRange]
    show i < k.val
    omega

/-- Before an element of the first positions stand all smaller ones. -/
theorem mem_of_take_finRange {n m : ℕ} {l₁ l₂ : List (Fin n)} {e : Fin n}
    (h : (List.finRange n).take m = l₁ ++ e :: l₂) : ∀ j < e, j ∈ l₁ := by
  have hget : ∀ (i : ℕ) (hi : i < (l₁ ++ e :: l₂).length), (l₁ ++ e :: l₂)[i].val = i := by
    intro i hi
    simp only [← h, List.getElem_take, List.getElem_finRange]
    rfl
  have he : e.val = l₁.length := by
    simpa using hget l₁.length (by simp)
  intro j hj
  have hlt : j.val < l₁.length := he ▸ hj
  have hj' := hget j.val (by rw [List.length_append]; omega)
  rw [List.getElem_append_left hlt] at hj'
  rw [← Fin.ext hj']
  exact List.getElem_mem hlt

/-- A branch follows a trail whose edges all stand before the edges that are not in it. -/
theorem dfsCycle_first (trail : List (Fin edges.length)) {rest : List (Fin edges.length)}
    (htrail : PoolTrail edges (edges.get startEdge).tokenIn (trail ++ curEdge :: rest))
    (hreturn : NoReturn (fun i => (edges.get i).tokenIn) (fun i => (edges.get i).tokenOut)
      (edges.get startEdge).tokenIn (trail ++ curEdge :: rest))
    (hfirst : ∀ l₁ e l₂, trail ++ curEdge :: rest = l₁ ++ e :: l₂ → ∀ j < e, j ∈ l₁)
    (hfuel : rest.length < fuel) :
    dfsCycle edges startEdge fuel curEdge trail.toFinset trail.length =
      some ((edges.get startEdge).tokenIn,
        usedTokens edges (trail ++ curEdge :: rest).toFinset) := by
  induction fuel generalizing curEdge trail rest with
  | zero => omega
  | succ fuel ih =>
    cases rest with
    | nil => exact dfsCycle_last trail htrail
    | cons e rest =>
      rw [List.append_cons] at htrail hreturn hfirst ⊢
      obtain ⟨hgoesOn, hnext⟩ := dfsCycle_inner fuel trail htrail hreturn
      rw [hgoesOn]
      refine findSome?_finRange (k := e) ?_ fun j hj => ?_
      · rw [if_pos hnext]
        exact ih (trail ++ [curEdge]) htrail hreturn hfirst
          (by rw [List.length_cons] at hfuel; omega)
      · -- the edges before `e` are used
        have hused : j ∈ (trail ++ [curEdge]).toFinset :=
          List.mem_toFinset.mpr (hfirst (trail ++ [curEdge]) e rest rfl j hj)
        rw [if_neg fun hfree => hfree.1 hused]

end First

/-! ## Trails of edges -/

/-- The tokens of some edges. -/
def trailTokens (trail : List SwapEdge) : Finset Address :=
  (trail.map (·.tokenIn)).toFinset ∪ (trail.map (·.tokenOut)).toFinset

/-- A cycle of some edges: each of them is used once, every edge starts where the one before ends,
    the last one ends at the start and no earlier one does but the first, and two pools are on
    it. -/
structure CycleTrail (edges : List SwapEdge) (start : Address) (trail : List SwapEdge) : Prop where
  subperm : trail.Subperm edges
  walk : Walk (·.tokenIn) (·.tokenOut) start trail start
  noReturn : NoReturn (·.tokenIn) (·.tokenOut) start trail
  mixed : Mixed (·.pool) trail

variable {edges edges' : List SwapEdge} {start : Address} {trail : List SwapEdge}

theorem CycleTrail.perm (h : CycleTrail edges start trail) (hperm : edges.Perm edges') :
    CycleTrail edges' start trail :=
  ⟨h.subperm.trans hperm.subperm, h.walk, h.noReturn, h.mixed⟩

theorem usedTokens_eq (l : List (Fin edges.length)) :
    usedTokens edges l.toFinset = trailTokens (l.map edges.get) := by
  ext t
  simp [usedTokens, trailTokens]

theorem mixed_map {l : List (Fin edges.length)} :
    Mixed (fun i => (edges.get i).pool) l ↔
      Mixed (fun e : SwapEdge => e.pool) (l.map edges.get) := by
  simp [Mixed]

/-- Positions whose edges are a rearrangement of some edges can be rearranged to give them. -/
theorem exists_map_eq {α β : Type*} [DecidableEq α] (f : α → β) {es : List β} {l : List α}
    (h : es.Perm (l.map f)) : ∃ l' : List α, l'.Perm l ∧ l'.map f = es := by
  induction es generalizing l with
  | nil => exact ⟨l, List.Perm.refl l, by rw [h.nil_eq]⟩
  | cons e es ih =>
    obtain ⟨a, ha, rfl⟩ := List.mem_map.mp (h.subset (List.mem_cons_self ..))
    have hl := List.perm_cons_erase ha
    obtain ⟨l', hperm, rfl⟩ := ih (List.perm_cons _ |>.mp (h.trans (hl.map f)))
    exact ⟨a :: l', (hperm.cons a).trans hl.symm, rfl⟩

/-- A cycle of edges is a trail of positions. -/
theorem CycleTrail.exists_positions (h : CycleTrail edges start trail) :
    ∃ l : List (Fin edges.length), PoolTrail edges start l ∧ l.map edges.get = trail := by
  obtain ⟨sub, hperm, hsub⟩ := h.subperm
  rw [← List.map_get_finRange edges] at hsub
  obtain ⟨l₀, hl₀, rfl⟩ := List.sublist_map_iff.mp hsub
  obtain ⟨l, hl, rfl⟩ := exists_map_eq edges.get hperm.symm
  have hnodup : l.Nodup := hl.nodup_iff.mpr ((List.nodup_finRange _).sublist hl₀)
  have hmixed := mixed_map.mpr h.mixed
  exact ⟨l, ⟨⟨hnodup, walk_map.mp h.walk⟩, two_le_of_mixed hmixed, usedPools_ge_of_mixed hmixed⟩,
    rfl⟩

/-- A trail of positions that comes back at its end only is a cycle of edges. -/
theorem cycleTrail_of_positions {l : List (Fin edges.length)} (h : SwapTrail edges start l)
    (hmixed : Mixed (fun i => (edges.get i).pool) l)
    (hreturn : NoReturn (fun i => (edges.get i).tokenIn) (fun i => (edges.get i).tokenOut)
      start l) : CycleTrail edges start (l.map edges.get) := by
  refine ⟨?_, walk_map.mpr h.walk, noReturn_map.mpr hreturn, mixed_map.mp hmixed⟩
  obtain ⟨l', hperm, hsub⟩ := List.subperm_of_subset h.nodup fun i _ => List.mem_finRange i
  have hsub' := hsub.map edges.get
  rw [List.map_get_finRange] at hsub'
  exact ⟨_, hperm.map edges.get, hsub'⟩

/-- The search returns the start and the tokens of a cycle. -/
theorem exists_cycleTrail {anchor : Address} {tokens : Finset Address}
    (h : findClosedCycle edges = some (anchor, tokens)) :
    ∃ trail, CycleTrail edges anchor trail ∧ tokens = trailTokens trail := by
  obtain ⟨l, htrail, hreturn, rfl⟩ := findClosedCycle_sound h
  exact ⟨_, cycleTrail_of_positions htrail.closed (mixed_of_usedPools_ge htrail.pools_ge) hreturn,
    usedTokens_eq l⟩

/-- The search succeeds where there is a cycle. -/
theorem CycleTrail.isSome (h : CycleTrail edges start trail) : (findClosedCycle edges).isSome := by
  obtain ⟨l, htrail, -⟩ := h.exists_positions
  exact findClosedCycle_isSome htrail

/-- The cycle whose edges stand first is found. -/
theorem findClosedCycle_of_first {rest : List SwapEdge}
    (h : CycleTrail (trail ++ rest) start trail) :
    findClosedCycle (trail ++ rest) = some (start, trailTokens trail) := by
  -- the positions of the trail
  generalize hedges : trail ++ rest = edges at h ⊢
  obtain ⟨l, hl⟩ : ∃ l, l = (List.finRange edges.length).take trail.length := ⟨_, rfl⟩
  have hmap : l.map edges.get = trail := by
    rw [hl, List.map_take, List.map_get_finRange, ← hedges, List.take_left]
  have hnodup : l.Nodup := by
    rw [hl]
    exact (List.nodup_finRange _).sublist (List.take_sublist ..)
  have hwalk := h.walk
  have hreturn := h.noReturn
  have hmixed := h.mixed
  rw [← hmap] at hwalk hreturn hmixed
  have hmixed' := mixed_map.mpr hmixed
  have hge := two_le_of_mixed hmixed'
  have hle : l.length ≤ edges.length := by
    have := hnodup.length_le_card
    rwa [Fintype.card_fin] at this
  have htrail : PoolTrail edges start l :=
    ⟨⟨hnodup, walk_map.mp hwalk⟩, hge, usedPools_ge_of_mixed hmixed'⟩
  have htokens : usedTokens edges l.toFinset = trailTokens trail := by rw [usedTokens_eq, hmap]
  have hfirst : ∀ l₁ e l₂, l = l₁ ++ e :: l₂ → ∀ j < e, j ∈ l₁ := fun l₁ e l₂ heq =>
    mem_of_take_finRange (hl ▸ heq)
  rw [← htokens]
  cases l with
  | nil => simp at hge
  | cons startEdge l =>
    obtain rfl : (edges.get startEdge).tokenIn = start := htrail.closed.walk.1
    unfold findClosedCycle
    rw [if_neg (by omega)]
    refine findSome?_finRange (k := startEdge) ?_ fun j hj =>
      absurd (hfirst [] startEdge l rfl j hj) List.not_mem_nil
    exact dfsCycle_first [] htrail (noReturn_map.mp hreturn) hfirst
      (by rw [List.length_cons] at hle; omega)

/-! ## Cycles that start at one token -/

/-- Where all cycles start at one token, they do not leave it. -/
theorem trailTokens_eq {a : Address}
    (hone : ∀ start trail, CycleTrail edges start trail → start = a)
    (h : CycleTrail edges start trail) : trailTokens trail = {a} := by
  obtain ⟨l, htrail, rfl⟩ := h.exists_positions
  obtain rfl := hone _ _ h
  have hin : ∀ i ∈ l, (edges.get i).tokenIn = start := by
    intro i hi
    by_contra hne
    obtain ⟨u, t, hu, hclosed, hmixed, hreturn⟩ :=
      exists_noReturn_ne htrail.closed (mixed_of_usedPools_ge htrail.pools_ge) ⟨i, hi, hne⟩
    exact hu (hone _ _ (cycleTrail_of_positions hclosed hmixed hreturn))
  have hout : ∀ i ∈ l, (edges.get i).tokenOut = start := by
    intro i hi
    rcases htrail.closed.walk.dst_eq hi with hend | ⟨j, hj, hsrc⟩
    · exact hend
    · exact hsrc.symm.trans (hin j hj)
  have hne : l ≠ [] := List.ne_nil_of_length_pos (by have := htrail.edges_ge; omega)
  obtain ⟨i, hi⟩ := List.exists_mem_of_ne_nil l hne
  rw [← usedTokens_eq]
  ext t
  simp only [usedTokens, Finset.mem_union, Finset.mem_image, List.mem_toFinset,
    Finset.mem_singleton]
  constructor
  · rintro (⟨j, hj, rfl⟩ | ⟨j, hj, rfl⟩)
    · exact hin j hj
    · exact hout j hj
  · rintro rfl
    exact .inl ⟨i, hi, hin i hi⟩

/-- Where all cycles start at one token, the order of the edges does not matter for the search. -/
theorem findClosedCycle_perm {a : Address}
    (hone : ∀ start trail, CycleTrail edges start trail → start = a)
    (hperm : edges'.Perm edges) : findClosedCycle edges' = findClosedCycle edges := by
  have hsome : ∀ es : List SwapEdge, es.Perm edges → ∀ cycle, findClosedCycle es = some cycle →
      cycle = (a, {a}) := by
    intro es hes cycle hcycle
    obtain ⟨trail, htrail, htokens⟩ := exists_cycleTrail hcycle
    have htrail' := htrail.perm hes
    obtain rfl := hone _ _ htrail'
    rw [← trailTokens_eq hone htrail', ← htokens]
  have htransfer : ∀ es es' : List SwapEdge, es.Perm es' → (findClosedCycle es).isSome →
      (findClosedCycle es').isSome := by
    intro es es' hes hsome
    obtain ⟨cycle, hcycle⟩ := Option.isSome_iff_exists.mp hsome
    obtain ⟨trail, htrail, -⟩ := exists_cycleTrail hcycle
    exact (htrail.perm hes).isSome
  cases hleft : findClosedCycle edges' with
  | none =>
    cases hright : findClosedCycle edges with
    | none => rfl
    | some cycle =>
      have := htransfer edges edges' hperm.symm (by rw [hright]; rfl)
      rw [hleft] at this
      cases this
  | some cycle =>
    obtain ⟨cycle', hright⟩ := Option.isSome_iff_exists.mp
      (htransfer edges' edges hperm (by rw [hleft]; rfl))
    rw [hright, hsome edges' hperm cycle hleft, hsome edges (List.Perm.refl _) cycle' hright]

/-! ## Booking in another order -/

/-- A transaction with other swaps. -/
def TxInput.withSwaps (tx : TxInput) (swaps : List SwapFact) : TxInput := { tx with swaps := swaps }

@[simp]
theorem TxInput.withSwaps_swaps (tx : TxInput) (swaps : List SwapFact) :
    (tx.withSwaps swaps).swaps = swaps := rfl

section Order

variable {input : BlockInput} {tx : TxInput} {swaps swaps' : List SwapFact}

theorem oneOwner_iff {candidates owners : List Address} :
    oneOwner candidates owners = true ↔ ∀ o ∈ owners, o ∈ candidates ∧ ∀ o' ∈ owners, o' = o := by
  cases owners with
  | nil => simp [oneOwner]
  | cons o owners =>
    simp only [oneOwner, Bool.and_eq_true, List.all_eq_true, decide_eq_true_eq]
    constructor
    · rintro ⟨hall, hmem⟩ x hx
      have hone : ∀ y ∈ o :: owners, y = o := by
        intro y hy
        rcases List.mem_cons.mp hy with rfl | hy
        · rfl
        · exact hall y hy
      exact ⟨hone x hx ▸ hmem, fun y hy => (hone y hy).trans (hone x hx).symm⟩
    · intro h
      obtain ⟨hmem, hall⟩ := h o (List.mem_cons_self ..)
      exact ⟨fun y hy => hall y (List.mem_cons_of_mem _ hy), hmem⟩

theorem flowAttributable_perm (h : swaps.Perm swaps') (candidates : List Address) :
    flowAttributable swaps candidates = flowAttributable swaps' candidates := by
  have hpools : ∀ a, a ∈ (routeSwaps swaps).map (·.pool) ↔ a ∈ (routeSwaps swaps').map (·.pool) :=
    fun a => ((h.filter _).map _).mem_iff
  have howners : (externalOwners swaps).Perm (externalOwners swaps') := by
    unfold externalOwners
    simp only [hpools]
    exact ((h.filter _).filterMap _).filter _
  unfold flowAttributable
  rw [Bool.eq_iff_iff, oneOwner_iff, oneOwner_iff]
  simp only [howners.mem_iff]

theorem hopMaxByToken_perm (h : swaps.Perm swaps') :
    hopMaxByToken swaps = hopMaxByToken swaps' := by
  funext token
  have hcomm : RightCommutative (hopMax token) := ⟨fun m s s' => by
    unfold hopMax
    dsimp only
    split_ifs <;> omega⟩
  exact (h.filter _).foldl_eq 0

theorem forwardedAnchorRecipient_perm (h : swaps.Perm tx.swaps) (ledger : DeltaLedger)
    (candidates : List Address) (tipSinks : Finset Address) (anchor : Address) :
    forwardedAnchorRecipient ledger (tx.withSwaps swaps) candidates tipSinks anchor =
      forwardedAnchorRecipient ledger tx candidates tipSinks anchor := by
  have hpools : ∀ a, a ∈ (swaps.filter fun s => !hasUnresolvedTokens s ∧
        s.amm ≠ .aggregator).map (·.pool) ↔
      a ∈ (tx.swaps.filter fun s => !hasUnresolvedTokens s ∧ s.amm ≠ .aggregator).map (·.pool) :=
    fun a => ((h.filter _).map _).mem_iff
  have hany : ∀ r : Address, (swaps.any fun s => s.owner = some r) =
      tx.swaps.any fun s => s.owner = some r := fun r => h.any_eq
  unfold forwardedAnchorRecipient
  simp only [TxInput.withSwaps_swaps, hpools, hany]
  rfl

theorem resolvedEdges_perm (h : swaps.Perm swaps') :
    (resolvedEdges swaps).Perm (resolvedEdges swaps') := (h.filter _).map _

theorem profitCandidates_perm (h : swaps.Perm tx.swaps) :
    profitCandidates (tx.withSwaps swaps) = profitCandidates tx := by
  have hpools : ∀ a, a ∈ (resolvedEdges swaps).map (·.pool) ↔
      a ∈ (resolvedEdges tx.swaps).map (·.pool) :=
    fun a => ((resolvedEdges_perm h).map _).mem_iff
  unfold profitCandidates
  simp only [TxInput.withSwaps_swaps, hpools]
  rfl

theorem forwardedProfit_perm (h : swaps.Perm tx.swaps) (anchor : Address) :
    forwardedProfit input (tx.withSwaps swaps) anchor = forwardedProfit input tx anchor := by
  unfold forwardedProfit
  rw [profitCandidates_perm h]
  exact forwardedAnchorRecipient_perm h ..

theorem profitHolder_perm (h : swaps.Perm tx.swaps) (anchor : Address) :
    profitHolder input (tx.withSwaps swaps) anchor = profitHolder input tx anchor := by
  unfold profitHolder
  rw [profitCandidates_perm h, forwardedProfit_perm h]
  rfl

/-- What a cycle books at a start token does not depend on the order of the swaps. -/
theorem bookCycle_perm (h : swaps.Perm tx.swaps) (anchor : Address) (walk : Finset Address) :
    bookCycle input (tx.withSwaps swaps) anchor walk = bookCycle input tx anchor walk := by
  have hledger : arbLedger input (tx.withSwaps swaps) = arbLedger input tx := rfl
  have hcandidates : searcherCandidates (tx.withSwaps swaps) = searcherCandidates tx := rfl
  unfold bookCycle
  simp only [TxInput.withSwaps_swaps, hledger, hcandidates, flowAttributable_perm h,
    hopMaxByToken_perm h, profitHolder_perm h, forwardedProfit_perm h]
  rfl

/-- The gates of the booking of a cycle: all outside owners of the swaps are one candidate, and
    the profit holder has a profit in the start token, no material deficit and no sender whose
    inventory is spent. -/
def Bookable (input : BlockInput) (tx : TxInput) (anchor : Address) (walk : Finset Address) :
    Prop :=
  flowAttributable tx.swaps (searcherCandidates tx) = true ∧
    ∃ holder, (profitHolder input tx anchor).map Prod.fst = some holder ∧
      anchorProfitAmount (arbLedger input tx) tx.sender holder anchor ≠ 0 ∧
      hasMaterialDeficit (arbLedger input tx) holder walk (hopMaxByToken tx.swaps) = false ∧
      initiatorBlocksCycle tx (arbLedger input tx) holder anchor walk
        (hopMaxByToken tx.swaps) = false

/-- A cycle is booked exactly where it passes the gates. -/
theorem bookable_iff {anchor : Address} {walk : Finset Address} :
    Bookable input tx anchor walk ↔ ∃ b, bookCycle input tx anchor walk = .ok b := by
  unfold Bookable bookCycle
  cases flowAttributable tx.swaps (searcherCandidates tx) with
  | false => simp
  | true =>
    cases profitHolder input tx anchor with
    | none => simp
    | some holder =>
      obtain ⟨holder, forwardedFrom⟩ := holder
      simp only [Option.map_some, Option.some.injEq, exists_eq_left', Bool.not_true,
        Bool.false_eq_true, if_false, true_and]
      split_ifs with hzero hdeficit hblock
      · simp [hzero]
      · simp [hdeficit]
      · simp [hblock]
      · simp [hzero, hdeficit, hblock]

/-- The searcher, the token and the amount that the pass books for a transaction, if any. -/
def arbVerdict (input : BlockInput) (tx : TxInput) :
    List (Address × Option Address × Option ℕ) :=
  (classifyAtomicArbs { input with txs := [tx] }).map fun e =>
    (e.searcher, e.profitToken, e.profitAmount)

/-- What the pass books where the search has found a cycle, or none. -/
def bookFound (input : BlockInput) (tx : TxInput) :
    Option (Address × Finset Address) → List (Address × Option Address × Option ℕ)
  | none => []
  | some (anchor, walk) =>
    match bookCycle input tx anchor walk with
    | .ok b => [(b.searcher, some anchor, some b.amount)]
    | .error _ => []

theorem bookFound_ok {anchor : Address} {walk : Finset Address} {b : Booking}
    (h : bookCycle input tx anchor walk = .ok b) :
    bookFound input tx (some (anchor, walk)) = [(b.searcher, some anchor, some b.amount)] := by
  simp only [bookFound, h]

theorem bookFound_error {anchor : Address} {walk : Finset Address} {reason : RejectReason}
    (h : bookCycle input tx anchor walk = .error reason) :
    bookFound input tx (some (anchor, walk)) = [] := by
  simp only [bookFound, h]

theorem arbVerdict_of_fail (h : tx.success = false) : arbVerdict input tx = [] := by
  have hnone : ∀ input : BlockInput, atomicArb input tx = none := fun input =>
    if_pos (.inl (by rw [h]; rfl))
  unfold arbVerdict classifyAtomicArbs
  rw [List.filterMap_cons, hnone]
  rfl

theorem arbVerdict_self (hsuccess : tx.success = true) :
    arbVerdict input tx = bookFound input tx (findClosedCycle (resolvedEdges tx.swaps)) := by
  have harb : ∀ txs, atomicArb { input with txs := txs } tx = atomicArb input tx := fun txs => rfl
  unfold arbVerdict classifyAtomicArbs
  rw [List.filterMap_cons, harb]
  unfold atomicArb
  by_cases hnil : tx.swaps = []
  · rw [if_pos (.inr hnil), hnil]
    rfl
  · rw [if_neg (by simpa [hsuccess] using hnil)]
    cases findClosedCycle (resolvedEdges tx.swaps) with
    | none =>
      dsimp only
      split_ifs <;> rfl
    | some cycle =>
      obtain ⟨anchor, walk⟩ := cycle
      dsimp only
      cases hbook : bookCycle input tx anchor walk with
      | error reason =>
        rw [bookFound_error hbook]
        rfl
      | ok b =>
        rw [bookFound_ok hbook]
        rfl

theorem arbVerdict_eq (h : swaps.Perm tx.swaps) (hsuccess : tx.success = true) :
    arbVerdict input (tx.withSwaps swaps) =
      bookFound input tx (findClosedCycle (resolvedEdges swaps)) := by
  have hself : arbVerdict input (tx.withSwaps swaps) =
      bookFound input (tx.withSwaps swaps) (findClosedCycle (resolvedEdges swaps)) :=
    arbVerdict_self hsuccess
  rw [hself]
  unfold bookFound
  simp only [bookCycle_perm h]

/-- Each cycle of the swaps is found in some order of them. -/
theorem exists_order (h : CycleTrail (resolvedEdges tx.swaps) start trail) :
    ∃ swaps, swaps.Perm tx.swaps ∧
      findClosedCycle (resolvedEdges swaps) = some (start, trailTokens trail) := by
  obtain ⟨sub, hperm, hsub⟩ := h.subperm
  obtain ⟨l₀, hl₀, rfl⟩ := List.sublist_map_iff.mp hsub
  obtain ⟨l, hl, rfl⟩ := exists_map_eq SwapFact.edge hperm.symm
  obtain ⟨rest, hrest⟩ := (hl₀.trans List.filter_sublist).exists_perm_append
  have hroute : routeSwaps l = l := List.filter_eq_self.mpr fun s hs =>
    (List.mem_filter.mp (hl₀.subset (hl.subset hs))).2
  have hedges : resolvedEdges (l ++ rest) = l.map SwapFact.edge ++ resolvedEdges rest := by
    unfold resolvedEdges
    rw [show routeSwaps (l ++ rest) = routeSwaps l ++ routeSwaps rest from List.filter_append ..,
      hroute, List.map_append]
  have horder : (l ++ rest).Perm tx.swaps := (hl.append_right rest).trans hrest.symm
  refine ⟨l ++ rest, horder, ?_⟩
  rw [hedges]
  apply findClosedCycle_of_first
  exact ⟨(List.sublist_append_left ..).subperm, h.walk, h.noReturn, h.mixed⟩

/-- **Main theorem.** The order of the swaps does not matter for a transaction exactly when the
    pass does not look at it, no cycle of its swaps passes the gates at its start token, or all
    its cycles start at one token. -/
theorem orderFree_iff (input : BlockInput) (tx : TxInput) :
    (∀ swaps, swaps.Perm tx.swaps →
      arbVerdict input (tx.withSwaps swaps) = arbVerdict input tx) ↔
    tx.success = false ∨
      (∀ start trail, CycleTrail (resolvedEdges tx.swaps) start trail →
        ¬ Bookable input tx start (trailTokens trail)) ∨
      ∃ a, ∀ start trail, CycleTrail (resolvedEdges tx.swaps) start trail → start = a := by
  constructor
  · intro h
    by_cases hsuccess : tx.success = true
    · right
      by_cases hbook : ∃ start trail b, CycleTrail (resolvedEdges tx.swaps) start trail ∧
          bookCycle input tx start (trailTokens trail) = .ok b
      · -- every cycle is found in some order, and they book the token that they start at
        obtain ⟨a, trail, b, htrail, hb⟩ := hbook
        obtain ⟨swaps, hperm, hfound⟩ := exists_order htrail
        have hverdict := h swaps hperm
        rw [arbVerdict_eq hperm hsuccess, hfound] at hverdict
        right
        refine ⟨a, fun start trail' htrail' => ?_⟩
        obtain ⟨swaps', hperm', hfound'⟩ := exists_order htrail'
        have hverdict' := h swaps' hperm'
        rw [arbVerdict_eq hperm' hsuccess, hfound', ← hverdict, bookFound_ok hb] at hverdict'
        cases hbook' : bookCycle input tx start (trailTokens trail') with
        | error reason =>
          rw [bookFound_error hbook'] at hverdict'
          cases hverdict'
        | ok b' =>
          rw [bookFound_ok hbook'] at hverdict'
          simp only [List.cons.injEq, Prod.mk.injEq, Option.some.injEq] at hverdict'
          exact hverdict'.1.2.1
      · left
        intro start trail htrail hgates
        obtain ⟨b, hb⟩ := bookable_iff.mp hgates
        exact hbook ⟨start, trail, b, htrail, hb⟩
    · left
      simpa using hsuccess
  · rintro (hfail | hnone | ⟨a, hone⟩) swaps hperm
    · rw [arbVerdict_of_fail hfail]
      exact arbVerdict_of_fail hfail
    · by_cases hsuccess : tx.success = true
      · -- no order books anything
        have hnil : ∀ swaps', swaps'.Perm tx.swaps →
            arbVerdict input (tx.withSwaps swaps') = [] := by
          intro swaps' hperm'
          rw [arbVerdict_eq hperm' hsuccess]
          cases hfound : findClosedCycle (resolvedEdges swaps') with
          | none => rfl
          | some cycle =>
            obtain ⟨start, walk⟩ := cycle
            obtain ⟨trail, htrail, rfl⟩ := exists_cycleTrail hfound
            cases hbook : bookCycle input tx start (trailTokens trail) with
            | error reason => exact bookFound_error hbook
            | ok b =>
              exact absurd (bookable_iff.mpr ⟨b, hbook⟩)
                (hnone start trail (htrail.perm (resolvedEdges_perm hperm')))
        rw [hnil swaps hperm]
        exact (hnil tx.swaps (List.Perm.refl _)).symm
      · rw [Bool.not_eq_true] at hsuccess
        rw [arbVerdict_of_fail hsuccess]
        exact arbVerdict_of_fail hsuccess
    · by_cases hsuccess : tx.success = true
      · rw [arbVerdict_eq hperm hsuccess,
          findClosedCycle_perm hone (resolvedEdges_perm hperm)]
        exact (arbVerdict_eq (List.Perm.refl _) hsuccess).symm
      · rw [Bool.not_eq_true] at hsuccess
        rw [arbVerdict_of_fail hsuccess]
        exact arbVerdict_of_fail hsuccess

end Order

/-! ## A cycle in reverse order -/

/-- The searcher `23` buys token `2` on pool `11`, sells it on pool `12`, and keeps `10` of
    token `1`. -/
def routeTx : TxInput where
  txIndex := 0
  sender := 23
  transfers := [⟨1, 23, 11, 100⟩, ⟨2, 11, 23, 200⟩, ⟨2, 23, 12, 200⟩, ⟨1, 12, 23, 110⟩]
  swaps :=
    [{ pool := 11, amm := .v2, tokenIn := 1, tokenOut := 2, amountIn := 100, amountOut := 200 },
      { pool := 12, amm := .v2, tokenIn := 2, tokenOut := 1, amountIn := 200, amountOut := 110 }]

def routeInput : BlockInput where
  ctx :=
    { wrappedNative := 99, priority := [1], v2LikePools := ∅, causalWindowTxs := 8
      price := ⟨fun _ _ => false, fun _ _ => false⟩ }
  txs := [routeTx]

/-- In route order the cycle starts at token `1` and is booked, in reverse order it starts at
    token `2`, of which the searcher keeps nothing. -/
theorem reversed_legs_book_nothing :
    routeTx.swaps.reverse.Perm routeTx.swaps ∧
      arbVerdict routeInput routeTx = [(23, some 1, some 10)] ∧
      arbVerdict routeInput (routeTx.withSwaps routeTx.swaps.reverse) = [] := by
  refine ⟨List.reverse_perm _, ?_, ?_⟩ <;> decide +kernel

end MevScout.Explorer
