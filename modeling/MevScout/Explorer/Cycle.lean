import MevScout.Chain.Events
import MevScout.Common.Trail

/-!
# Closed cycles of swaps

Models of the cycle search of `core/src/explorer/profit.rs`: a depth-first search over the swap
edges of a transaction, which goes from token to token and gives a branch up where it first
comes back to its start token.

Results:
* `dfsCycle_sound`: what the search returns is a closed trail over two pools;
* `dfsCycle_isSome`: the search finds a trail that does not come back too early;
* `findClosedCycle_iff`: the search succeeds exactly when there is a closed trail over two
  pools.
-/

namespace MevScout.Explorer

open Trail

/-! ## Search -/

/-- A swap edge `(token_in, token_out, pool)`. -/
structure SwapEdge where
  tokenIn : Address
  tokenOut : Address
  pool : Address
  deriving DecidableEq

section Search

variable (edges : List SwapEdge)

/-- The pools of the used edges. -/
def usedPools (used : Finset (Fin edges.length)) : Finset Address :=
  used.image fun i => (edges.get i).pool

/-- The tokens of the used edges. -/
def usedTokens (used : Finset (Fin edges.length)) : Finset Address :=
  (used.image fun i => (edges.get i).tokenIn) ∪ used.image fun i => (edges.get i).tokenOut

/-- Model of `dfs_cycle` (`profit.rs`, lines 259–302). A call uses an edge that is not used
    yet, so `edges.length` calls are as deep as it gets (`dfsCycle_fuel`). -/
def dfsCycle (startEdge : Fin edges.length) :
    ℕ → Fin edges.length → Finset (Fin edges.length) → ℕ → Option (Address × Finset Address)
  | 0, _, _, _ => none
  | fuel + 1, curEdge, used, depth =>
    let next := (edges.get curEdge).tokenOut
    let start := (edges.get startEdge).tokenIn
    let used := insert curEdge used
    if depth + 1 ≥ 2 ∧ next = start then
      if (usedPools edges used).card ≥ 2 then some (start, usedTokens edges used) else none
    else
      (List.finRange edges.length).findSome? fun e =>
        if e ∉ used ∧ (edges.get e).tokenIn = next then
          dfsCycle startEdge fuel e used (depth + 1)
        else none

/-- Model of `find_closed_cycle` (`profit.rs`, lines 215–233). -/
def findClosedCycle : Option (Address × Finset Address) :=
  if edges.length < 2 then none
  else
    (List.finRange edges.length).findSome? fun startEdge =>
      dfsCycle edges startEdge edges.length startEdge ∅ 0

/-- Model of `has_closed_cycle` (`profit.rs`, lines 207–209). -/
def hasClosedCycle : Bool := (findClosedCycle edges).isSome

/-! ## Trails -/

/-- A closed trail of swap edges that starts at a token. -/
abbrev SwapTrail (token : Address) (trail : List (Fin edges.length)) : Prop :=
  ClosedTrail (fun i => (edges.get i).tokenIn) (fun i => (edges.get i).tokenOut) token trail

/-- A closed trail of at least two edges over at least two pools. -/
structure PoolTrail (token : Address) (trail : List (Fin edges.length)) : Prop where
  closed : SwapTrail edges token trail
  edges_ge : 2 ≤ trail.length
  pools_ge : 2 ≤ (usedPools edges trail.toFinset).card

end Search

variable {edges : List SwapEdge} {startEdge curEdge : Fin edges.length} {fuel depth : ℕ}
  {used : Finset (Fin edges.length)}

/-! ## What a branch returns -/

theorem dfsCycle_succ : dfsCycle edges startEdge (fuel + 1) curEdge used depth =
    if depth + 1 ≥ 2 ∧ (edges.get curEdge).tokenOut = (edges.get startEdge).tokenIn then
      if (usedPools edges (insert curEdge used)).card ≥ 2 then
        some ((edges.get startEdge).tokenIn, usedTokens edges (insert curEdge used))
      else none
    else
      (List.finRange edges.length).findSome? fun e =>
        if e ∉ insert curEdge used ∧ (edges.get e).tokenIn = (edges.get curEdge).tokenOut then
          dfsCycle edges startEdge fuel e (insert curEdge used) (depth + 1)
        else none := rfl

/-- A call never runs out of fuel when there is more of it than unused edges. -/
theorem dfsCycle_fuel {fuel' : ℕ} (h : (insert curEdge used)ᶜ.card < fuel)
    (h' : (insert curEdge used)ᶜ.card < fuel') :
    dfsCycle edges startEdge fuel curEdge used depth =
      dfsCycle edges startEdge fuel' curEdge used depth := by
  induction fuel generalizing fuel' curEdge used depth with
  | zero => omega
  | succ fuel ih =>
    obtain ⟨fuel', rfl⟩ : ∃ k, fuel' = k + 1 := ⟨fuel' - 1, by omega⟩
    rw [dfsCycle_succ, dfsCycle_succ]
    congr 2
    funext e
    split_ifs with he
    · -- the next edge is one of the unused ones
      have hlt : (insert e (insert curEdge used))ᶜ.card < (insert curEdge used)ᶜ.card := by
        apply Finset.card_lt_card
        rw [Finset.compl_ssubset_compl]
        exact Finset.ssubset_insert he.1
      exact ih (by omega) (by omega)
    · rfl

theorem insert_toFinset {α : Type*} [DecidableEq α] (l : List α) (a : α) :
    insert a l.toFinset = (l ++ [a]).toFinset := by
  rw [List.toFinset_append, List.toFinset_cons, List.toFinset_nil, insert_empty_eq,
    Finset.union_comm]
  rfl

/-- What a branch returns is a closed trail that extends the trail to the branch and comes back
    to its start at its end only. -/
theorem dfsCycle_sound (trail : List (Fin edges.length)) {anchor : Address}
    {tokens : Finset Address}
    (hwalk : Walk (fun i => (edges.get i).tokenIn) (fun i => (edges.get i).tokenOut)
      (edges.get startEdge).tokenIn (trail ++ [curEdge]) (edges.get curEdge).tokenOut)
    (hnodup : (trail ++ [curEdge]).Nodup)
    (hreturn : NoReturn (fun i => (edges.get i).tokenIn) (fun i => (edges.get i).tokenOut)
      (edges.get startEdge).tokenIn (trail ++ [curEdge]))
    (h : dfsCycle edges startEdge fuel curEdge trail.toFinset trail.length =
      some (anchor, tokens)) :
    anchor = (edges.get startEdge).tokenIn ∧ ∃ rest,
      PoolTrail edges anchor (trail ++ curEdge :: rest) ∧
        NoReturn (fun i => (edges.get i).tokenIn) (fun i => (edges.get i).tokenOut) anchor
          (trail ++ curEdge :: rest) ∧
        tokens = usedTokens edges (trail ++ curEdge :: rest).toFinset := by
  induction fuel generalizing curEdge trail with
  | zero => cases h
  | succ fuel ih =>
    rw [dfsCycle_succ, insert_toFinset] at h
    have hlen : trail.length + 1 = (trail ++ [curEdge]).length := by
      rw [List.length_append, List.length_singleton]
    split_ifs at h with hclosed hpools
    · obtain ⟨rfl, rfl⟩ := Prod.mk.inj (Option.some_inj.mp h)
      refine ⟨rfl, [], ⟨⟨hnodup, ?_⟩, ?_, hpools⟩, hreturn, rfl⟩
      · rw [hclosed.2] at hwalk
        exact hwalk
      · rw [← hlen]
        exact hclosed.1
    · obtain ⟨e, -, he⟩ := List.exists_of_findSome?_eq_some h
      split_ifs at he with hnext
      rw [hlen] at he
      have hnotMem : e ∉ trail ++ [curEdge] := fun hmem => hnext.1 (List.mem_toFinset.mpr hmem)
      obtain ⟨hanchor, rest, htrail⟩ := ih (trail ++ [curEdge])
        (walk_append.mpr ⟨_, hwalk, hnext.2, rfl⟩)
        (List.nodup_append.mpr ⟨hnodup, List.nodup_singleton e, by
          rintro a ha b hb rfl
          exact hnotMem (List.mem_singleton.mp hb ▸ ha)⟩)
        (hreturn.concat fun ⟨hge, hback⟩ => hclosed ⟨by rwa [hlen], hwalk.target_eq hback⟩) he
      refine ⟨hanchor, e :: rest, ?_⟩
      have hassoc : trail ++ curEdge :: e :: rest = (trail ++ [curEdge]) ++ e :: rest := by
        rw [List.append_assoc]
        rfl
      rw [hassoc]
      exact htrail

/-! ## What a branch finds -/

/-- A branch at the last edge of a trail returns it. -/
theorem dfsCycle_last (trail : List (Fin edges.length))
    (htrail : PoolTrail edges (edges.get startEdge).tokenIn (trail ++ [curEdge])) :
    dfsCycle edges startEdge (fuel + 1) curEdge trail.toFinset trail.length =
      some ((edges.get startEdge).tokenIn, usedTokens edges (trail ++ [curEdge]).toFinset) := by
  obtain ⟨v, -, hsrc, hdst⟩ := walk_append.mp htrail.closed.walk
  have hstart : (edges.get curEdge).tokenOut = (edges.get startEdge).tokenIn := hdst
  have hge := htrail.edges_ge
  rw [List.length_append, List.length_singleton] at hge
  rw [dfsCycle_succ, insert_toFinset, if_pos ⟨hge, hstart⟩, if_pos htrail.pools_ge]

variable (fuel) in
/-- A branch before the last edge of a trail that comes back at its end only goes on; the next edge
    of the trail is one that it may take. -/
theorem dfsCycle_inner (trail : List (Fin edges.length)) {e : Fin edges.length}
    {rest : List (Fin edges.length)}
    (htrail : PoolTrail edges (edges.get startEdge).tokenIn (trail ++ [curEdge] ++ e :: rest))
    (hreturn : NoReturn (fun i => (edges.get i).tokenIn) (fun i => (edges.get i).tokenOut)
      (edges.get startEdge).tokenIn (trail ++ [curEdge] ++ e :: rest)) :
    dfsCycle edges startEdge (fuel + 1) curEdge trail.toFinset trail.length =
        ((List.finRange edges.length).findSome? fun e' =>
          if e' ∉ (trail ++ [curEdge]).toFinset ∧
              (edges.get e').tokenIn = (edges.get curEdge).tokenOut then
            dfsCycle edges startEdge fuel e' (trail ++ [curEdge]).toFinset
              (trail ++ [curEdge]).length
          else none) ∧
      e ∉ (trail ++ [curEdge]).toFinset ∧
        (edges.get e).tokenIn = (edges.get curEdge).tokenOut := by
  obtain ⟨v, hwalk, hrest⟩ := walk_append.mp htrail.closed.walk
  obtain ⟨w, -, -, hdst⟩ := walk_append.mp hwalk
  have hv : (edges.get curEdge).tokenOut = v := hdst
  have hlen : trail.length + 1 = (trail ++ [curEdge]).length := by
    rw [List.length_append, List.length_singleton]
  refine ⟨?_, fun hmem => ?_, hrest.1.trans hv.symm⟩
  · rw [dfsCycle_succ, insert_toFinset, hlen, if_neg ?_]
    rintro ⟨hdepth, hback⟩
    refine hreturn _ _ rfl hdepth (List.cons_ne_nil e rest) ?_
    rwa [← hv, hback] at hwalk
  · have hdisj := (List.nodup_append.mp htrail.closed.nodup).2.2
    exact hdisj e (List.mem_toFinset.mp hmem) e (List.mem_cons_self ..) rfl

/-- A branch finds a trail that comes back to its start at its end only. -/
theorem dfsCycle_isSome (trail : List (Fin edges.length)) {rest : List (Fin edges.length)}
    (htrail : PoolTrail edges (edges.get startEdge).tokenIn (trail ++ curEdge :: rest))
    (hreturn : NoReturn (fun i => (edges.get i).tokenIn) (fun i => (edges.get i).tokenOut)
      (edges.get startEdge).tokenIn (trail ++ curEdge :: rest))
    (hfuel : rest.length < fuel) :
    (dfsCycle edges startEdge fuel curEdge trail.toFinset trail.length).isSome := by
  induction fuel generalizing curEdge trail rest with
  | zero => omega
  | succ fuel ih =>
    cases rest with
    | nil =>
      rw [dfsCycle_last trail htrail]
      rfl
    | cons e rest =>
      rw [List.append_cons] at htrail hreturn
      obtain ⟨hgoesOn, hnext⟩ := dfsCycle_inner fuel trail htrail hreturn
      rw [hgoesOn, List.findSome?_isSome_iff]
      refine ⟨e, List.mem_finRange e, ?_⟩
      rw [if_pos hnext]
      exact ih (trail ++ [curEdge]) htrail hreturn (by rw [List.length_cons] at hfuel; omega)

/-! ## The search -/

theorem usedPools_ge_of_mixed {trail : List (Fin edges.length)}
    (h : Mixed (fun i => (edges.get i).pool) trail) :
    2 ≤ (usedPools edges trail.toFinset).card := by
  obtain ⟨a, ha, b, hb, hab⟩ := h
  refine Finset.one_lt_card.mpr ⟨_, Finset.mem_image_of_mem _ (List.mem_toFinset.mpr ha), _,
    Finset.mem_image_of_mem _ (List.mem_toFinset.mpr hb), hab⟩

theorem mixed_of_usedPools_ge {trail : List (Fin edges.length)}
    (h : 2 ≤ (usedPools edges trail.toFinset).card) :
    Mixed (fun i => (edges.get i).pool) trail := by
  obtain ⟨p, hp, q, hq, hpq⟩ := Finset.one_lt_card.mp h
  obtain ⟨a, ha, rfl⟩ := Finset.mem_image.mp hp
  obtain ⟨b, hb, rfl⟩ := Finset.mem_image.mp hq
  exact ⟨a, List.mem_toFinset.mp ha, b, List.mem_toFinset.mp hb, hpq⟩

/-- A trail over two pools has two edges. -/
theorem two_le_of_mixed {trail : List (Fin edges.length)}
    (h : Mixed (fun i => (edges.get i).pool) trail) : 2 ≤ trail.length := by
  obtain ⟨a, ha, b, hb, hab⟩ := h
  match trail, ha, hb with
  | [c], ha, hb =>
    rw [List.mem_singleton] at ha hb
    exact absurd (by rw [ha, hb]) hab
  | _ :: _ :: _, _, _ => simp

/-- What the search returns is the start and the tokens of a closed trail over two pools that
    comes back to its start at its end only. -/
theorem findClosedCycle_sound {anchor : Address} {tokens : Finset Address}
    (h : findClosedCycle edges = some (anchor, tokens)) :
    ∃ trail, PoolTrail edges anchor trail ∧
      NoReturn (fun i => (edges.get i).tokenIn) (fun i => (edges.get i).tokenOut) anchor trail ∧
      tokens = usedTokens edges trail.toFinset := by
  unfold findClosedCycle at h
  split_ifs at h
  obtain ⟨startEdge, -, hstart⟩ := List.exists_of_findSome?_eq_some h
  have hreturn : NoReturn (fun i => (edges.get i).tokenIn) (fun i => (edges.get i).tokenOut)
      (edges.get startEdge).tokenIn ([] ++ [startEdge]) := by
    intro l₁ l₂ heq hlen hne _
    have := congrArg List.length heq
    have hpos := List.length_pos_of_ne_nil hne
    simp only [List.length_append, List.length_cons, List.length_nil] at this
    omega
  obtain ⟨-, rest, htrail⟩ :=
    dfsCycle_sound [] ⟨rfl, rfl⟩ (List.nodup_singleton _) hreturn hstart
  exact ⟨_, htrail⟩

/-- The search succeeds where there is a closed trail over two pools. -/
theorem findClosedCycle_isSome {token : Address} {trail : List (Fin edges.length)}
    (htrail : PoolTrail edges token trail) : (findClosedCycle edges).isSome := by
  -- a trail that does not come back too early
  obtain ⟨start, trail, hclosed, hmixed, hreturn⟩ :=
    exists_noReturn htrail.closed (mixed_of_usedPools_ge htrail.pools_ge)
  have hle : trail.length ≤ edges.length := by
    have := hclosed.nodup.length_le_card
    rwa [Fintype.card_fin] at this
  have hge := two_le_of_mixed hmixed
  unfold findClosedCycle
  rw [if_neg (by omega), List.findSome?_isSome_iff]
  cases trail with
  | nil => simp at hge
  | cons startEdge rest =>
    obtain rfl : (edges.get startEdge).tokenIn = start := hclosed.walk.1
    refine ⟨startEdge, List.mem_finRange _, ?_⟩
    exact dfsCycle_isSome [] ⟨hclosed, hge, usedPools_ge_of_mixed hmixed⟩ hreturn
      (by rw [List.length_cons] at hle; omega)

/-- **Main theorem.** The search succeeds exactly when some closed trail spans two pools, and
    it returns the start and the tokens of such a trail. -/
theorem findClosedCycle_iff (edges : List SwapEdge) :
    ((findClosedCycle edges).isSome ↔ ∃ token trail, PoolTrail edges token trail) ∧
      ∀ anchor tokens, findClosedCycle edges = some (anchor, tokens) →
        ∃ trail, PoolTrail edges anchor trail ∧ tokens = usedTokens edges trail.toFinset := by
  refine ⟨⟨fun h => ?_, fun ⟨token, trail, htrail⟩ => findClosedCycle_isSome htrail⟩,
    fun anchor tokens h => ?_⟩
  · obtain ⟨⟨anchor, tokens⟩, hsome⟩ := Option.isSome_iff_exists.mp h
    obtain ⟨trail, htrail, -⟩ := findClosedCycle_sound hsome
    exact ⟨anchor, trail, htrail⟩
  · obtain ⟨trail, htrail, -, htokens⟩ := findClosedCycle_sound h
    exact ⟨trail, htrail, htokens⟩

end MevScout.Explorer
