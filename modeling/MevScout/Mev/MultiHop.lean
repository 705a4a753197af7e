import MevScout.Common.Trail
import MevScout.Mev.TokenGraph
import MevScout.Pipeline.Runner

/-!
# Cycles of the token graph

The search for cycles of `core/src/mev/detectors/multi_hop.rs`. `extract_cycle_from_pred` follows a
predecessor array until a node repeats, `is_valid` multiplies the rates around the cycle, and
`find_negative_cycle_paths` bans the pools of each candidate and searches again.

A candidate is a closed walk that enters no node twice. It can use a pool twice, where the array
names the pool between two pairs of nodes. The arrays of the relaxation do not, and there a pool
that is used twice is used there and back, which is no gain.

Results:
* `follow_cases`: the walk returns, with a closed walk or nothing, or stops at an index;
* `nodup_pools`: a valid candidate uses no pool twice;
* `exists_findNegativeCyclePaths`: the search returns;
* `emitted_of_findNegativeCyclePaths`: what it emits;
* `extractedCycles_closed`: **main theorem**, the walk, the arrays and the scope.
-/

namespace MevScout.Mev

open Pool Pipeline Trail F64

/-! ## Model -/

/-- Model of `CycleEdge` (lines 656–662). -/
structure CycleEdge where
  pool : Address
  fromNode : ℕ
  toNode : ℕ
  deriving DecidableEq

/-- Model of `CandidateCycle` (lines 664–666). -/
structure CandidateCycle where
  edges : List CycleEdge
  deriving DecidableEq

/-- Model of `CandidateCycle::pools` (lines 669–671). -/
def CandidateCycle.pools (c : CandidateCycle) : List Address := c.edges.map CycleEdge.pool

/-- `CYCLE_RATE_MARGIN`. -/
def cycleRateMargin : F64 := .round (1 / 10 ^ 9)

/-- The body of the loop of `is_valid` over the edges: `none` where it returns `false`. -/
def rateStep (pm : PoolManager) (graph : TokenGraph) (product : F64) (e : CycleEdge) :
    Option F64 := do
  let tin ← graph.tokens[e.fromNode]?
  let tout ← graph.tokens[e.toNode]?
  let pool ← pm.pools[e.pool]?
  let r ← marginalExchangeRate pool tin tout
  if r.isFinite ∧ r > .fin 0 then some (product * r) else none

/-- Model of `CandidateCycle::is_valid` (lines 673–704). -/
def CandidateCycle.isValid (c : CandidateCycle) (pm : PoolManager) (graph : TokenGraph)
    (maxDepth : ℕ) : Bool :=
  if c.edges.length < 2 ∨ c.edges.length > maxDepth then false
  else if (c.edges.zip c.edges.tail).any fun pair => pair.1.toNode ≠ pair.2.fromNode then false
  else if c.edges.getLast?.map CycleEdge.toNode ≠ c.edges.head?.map CycleEdge.fromNode then false
  else
    match c.edges.foldlM (rateStep pm graph) (.fin 1) with
    | none => false
    | some product => product > .fin 1 + cycleRateMargin

/-- The loop of `extract_cycle_from_pred`. -/
def follow (pred : Predecessors) (maxDepth : ℕ) :
    ℕ → ℕ → Std.ExtTreeMap ℕ ℕ compare → List CycleEdge → Except Panic (Option CandidateCycle)
  | 0, _, _, _ => .ok none
  | turns + 1, cur, seen, chain =>
    match seen[cur]? with
    | some pos =>
      if pos > chain.length then .error .slice
      else
        let cycleEdges := (chain.drop pos).reverse
        if cycleEdges.length ≥ 2 ∧ cycleEdges.length ≤ maxDepth then .ok (some ⟨cycleEdges⟩)
        else .ok none
    | none =>
      match pred[cur]? with
      | none => .error .slice
      | some none => .ok none
      | some (some (prevNode, pool)) =>
        follow pred maxDepth turns prevNode (seen.insert cur chain.length)
          (chain ++ [⟨pool, prevNode, cur⟩])

/-- Model of `extract_cycle_from_pred` (lines 816–848). -/
def extractCycleFromPred (checks : Bool) (pred : Predecessors) (start maxDepth : ℕ) :
    Except Panic (Option CandidateCycle) := do
  let last ← arithUnsigned checks 64 (maxDepth + 1)
  follow pred maxDepth (last + 1) start ∅ []

/-- The loop of `find_negative_cycle` over the nodes that the last round has relaxed. -/
def firstCycle (checks : Bool) (pred : Predecessors) (maxDepth : ℕ) :
    List ℕ → Except Panic (Option CandidateCycle)
  | [] => .ok none
  | start :: rest => do
    match ← extractCycleFromPred checks pred start maxDepth with
    | some cycle => .ok (some cycle)
    | none => firstCycle checks pred maxDepth rest

/-- Model of `find_negative_cycle` (lines 748–800). -/
def TokenGraph.findNegativeCycle (g : TokenGraph) (checks : Bool) (rounds maxDepth : ℕ)
    (banned : Finset Address) : Except Panic (Option CandidateCycle) := do
  let s ← g.relaxation rounds banned
  if !s.anyImprovement ∧ s.lastRelaxed = [] then .ok none
  else firstCycle checks s.pred maxDepth s.lastRelaxed

/-- Model of `normalize_rotation` (lines 485–497). -/
def normalizeRotation (path : List Address) : List Address :=
  if path.length < 2 then path else path.rotate ((path.minIdxOn? id).getD 0)

/-- The test of the scope in `find_negative_cycle_paths`. -/
def meetsScope (scope : ScanScope) (pools : List Address) : Bool :=
  match scope with
  | .full => true
  | .dirty dirty => pools.any (· ∈ dirty)

/-- `MAX_NEGATIVE_CYCLES`. -/
def maxNegativeCycles : ℕ := 16

/-- `MAX_CYCLE_ATTEMPTS`. -/
def maxCycleAttempts : ℕ := 64

/-- The variables of `find_negative_cycle_paths`. -/
structure CycleSearch where
  banned : Finset Address := ∅
  emitted : Finset (List Address) := ∅
  out : List (List Address) := []

/-- The rest of the body of the loop of `find_negative_cycle_paths`, for a candidate. -/
def CycleSearch.take (pm : PoolManager) (graph : TokenGraph) (maxDepth : ℕ) (scope : ScanScope)
    (s : CycleSearch) (candidate : CandidateCycle) : CycleSearch :=
  let s := { s with banned := s.banned ∪ candidate.pools.toFinset }
  if !candidate.isValid pm graph maxDepth then s
  else if !meetsScope scope candidate.pools then s
  else
    let path := normalizeRotation candidate.pools
    if path ∈ s.emitted then s
    else { s with emitted := insert path s.emitted, out := s.out ++ [path] }

/-- The loop of `find_negative_cycle_paths`. -/
def searchCycles (checks : Bool) (pm : PoolManager) (graph : TokenGraph) (maxDepth : ℕ)
    (scope : ScanScope) : ℕ → CycleSearch → Except Panic CycleSearch
  | 0, s => .ok s
  | attempts + 1, s =>
    if s.out.length ≥ maxNegativeCycles then .ok s
    else do
      match ← graph.findNegativeCycle checks (min maxDepth 8) maxDepth s.banned with
      | none => .ok s
      | some candidate =>
        searchCycles checks pm graph maxDepth scope attempts
          (s.take pm graph maxDepth scope candidate)

/-- Model of `find_negative_cycle_paths` (lines 99–161), for the pools in the order of the
    iteration. -/
def findNegativeCyclePaths (checks : Bool) (ln : F64 → F64) (pm : PoolManager)
    (pools : List PoolState) (maxDepth : ℕ) (scope : ScanScope) :
    Except Panic (List (List Address)) := do
  let graph := TokenGraph.build ln pools
  if graph.adj.isEmpty then return []
  let s ← searchCycles checks pm graph maxDepth scope maxCycleAttempts {}
  return s.out

variable {ln : F64 → F64} {pools : List PoolState} {pm : PoolManager} {checks : Bool}
  {pred : Predecessors} {maxDepth : ℕ}

/-! ## The walk along the predecessors -/

/-- A candidate of the array: a closed walk along entries of it that enters no node twice. -/
structure IsCycle (pred : Predecessors) (maxDepth : ℕ) (c : CandidateCycle) : Prop where
  closed : ∃ v, Walk CycleEdge.fromNode CycleEdge.toNode v c.edges v
  nodup : (c.edges.map CycleEdge.toNode).Nodup
  two_le : 2 ≤ c.edges.length
  le : c.edges.length ≤ maxDepth
  entries : ∀ e ∈ c.edges, pred[e.toNode]? = some (some (e.fromNode, e.pool))

/-- The start of a walk and the nodes that the array names are places of the array. -/
structure NodesInRange (pred : Predecessors) (start : ℕ) : Prop where
  start : start < pred.length
  entries : ∀ (v u : ℕ) (p : Address), pred[v]? = some (some (u, p)) → u < pred.length

/-- What the walk keeps: `seen` has the place in the chain of each node that was left, and the chain
    leads from the current node back to the start. -/
structure Chain (pred : Predecessors) (start cur : ℕ) (seen : Std.ExtTreeMap ℕ ℕ compare)
    (chain : List CycleEdge) : Prop where
  seen : ∀ v pos : ℕ, seen[v]? = some pos ↔ (chain.map CycleEdge.toNode)[pos]? = some v
  walk : Walk CycleEdge.fromNode CycleEdge.toNode cur chain.reverse start
  entries : ∀ e ∈ chain, pred[e.toNode]? = some (some (e.fromNode, e.pool))

variable {start cur turns : ℕ} {seen : Std.ExtTreeMap ℕ ℕ compare} {chain : List CycleEdge}

theorem Chain.nodup (h : Chain pred start cur seen chain) :
    (chain.map CycleEdge.toNode).Nodup := by
  rw [List.nodup_iff_getElem?_ne_getElem?]
  intro i j hij hj heq
  have hv := List.getElem?_eq_getElem hj
  have hi := (h.seen _ i).mpr (heq.trans hv)
  have hj := (h.seen _ j).mpr hv
  exact hij.ne (Option.some.inj (hi.symm.trans hj))

/-- One step back. -/
theorem Chain.step (h : Chain pred start cur seen chain) (hnew : seen[cur]? = none) {prevNode : ℕ}
    {pool : Address} (hentry : pred[cur]? = some (some (prevNode, pool))) :
    Chain pred start prevNode (seen.insert cur chain.length)
      (chain ++ [⟨pool, prevNode, cur⟩]) := by
  refine ⟨fun v pos => ?_, ?_, ?_⟩
  · rw [Map.getElem?_insert_eq, List.map_append, List.map_singleton, getElem?_concat_eq_some,
      ← h.seen v pos, List.length_map]
    split_ifs with hv
    · subst hv
      simp [hnew, eq_comm]
    · simp [hv]
  · rw [List.reverse_append]
    exact ⟨rfl, h.walk⟩
  · exact List.forall_mem_append.mpr ⟨h.entries, List.forall_mem_singleton.mpr hentry⟩

/-- Where the walk meets a node again, the part of the chain since then is closed. -/
theorem Chain.closed (h : Chain pred start cur seen chain) {pos : ℕ}
    (hpos : seen[cur]? = some pos) :
    pos < chain.length ∧
      Walk CycleEdge.fromNode CycleEdge.toNode cur (chain.drop pos).reverse cur := by
  have hget := (h.seen cur pos).mp hpos
  rw [List.getElem?_map, Option.map_eq_some_iff] at hget
  obtain ⟨e, he, hto⟩ := hget
  obtain ⟨hlt, rfl⟩ := List.getElem?_eq_some_iff.mp he
  refine ⟨hlt, ?_⟩
  have hwalk := h.walk
  rw [← List.take_append_drop pos chain, List.reverse_append, walk_append] at hwalk
  obtain ⟨w, hpart, -⟩ := hwalk
  -- the part ends with the edge that leads to the current node
  have hlast := hpart
  rw [List.drop_eq_getElem_cons hlt, List.reverse_cons, walk_append] at hlast
  obtain ⟨_, -, -, hw⟩ := hlast
  obtain rfl : cur = w := hto.symm.trans hw
  exact hpart

/-- **The walk.** It returns, with a closed walk or nothing, or it stops at an index that is outside
    the array. -/
theorem follow_cases (h : Chain pred start cur seen chain) :
    (∃ r, follow pred maxDepth turns cur seen chain = .ok r ∧
        ∀ c, r = some c → IsCycle pred maxDepth c) ∨
      follow pred maxDepth turns cur seen chain = .error .slice ∧ ¬NodesInRange pred cur := by
  induction turns generalizing cur seen chain with
  | zero => exact .inl ⟨none, rfl, nofun⟩
  | succ turns ih =>
    unfold follow
    cases hseen : seen[cur]? with
    | some pos =>
      obtain ⟨hlt, hwalk⟩ := h.closed hseen
      dsimp only
      rw [if_neg hlt.le.not_gt]
      split_ifs with hlen
      · refine .inl ⟨_, rfl, fun c hc => ?_⟩
        cases hc
        refine ⟨⟨cur, hwalk⟩, ?_, hlen.1, hlen.2, fun e he => ?_⟩
        · rw [List.map_reverse, List.nodup_reverse]
          exact h.nodup.sublist ((List.drop_sublist pos chain).map _)
        · exact h.entries e (List.mem_of_mem_drop (List.mem_reverse.mp he))
      · exact .inl ⟨none, rfl, nofun⟩
    | none =>
      dsimp only
      cases hentry : pred[cur]? with
      | none =>
        have hout := List.getElem?_eq_none_iff.mp hentry
        exact .inr ⟨rfl, fun hrange => by have := hrange.start; omega⟩
      | some entry =>
        cases entry with
        | none => exact .inl ⟨none, rfl, nofun⟩
        | some entry =>
          obtain ⟨prevNode, pool⟩ := entry
          rcases ih (h.step hseen hentry) with hok | ⟨herr, hout⟩
          · exact .inl hok
          · exact .inr ⟨herr, fun hrange =>
              hout ⟨hrange.entries cur prevNode pool hentry, hrange.entries⟩⟩

theorem chain_nil (pred : Predecessors) (start : ℕ) : Chain pred start start ∅ [] :=
  ⟨by simp, rfl, nofun⟩

/-- What `extract_cycle_from_pred` returns. -/
theorem extractCycleFromPred_cases (checks : Bool) (pred : Predecessors) (start maxDepth : ℕ) :
    (∃ r, extractCycleFromPred checks pred start maxDepth = .ok r ∧
        ∀ c, r = some c → IsCycle pred maxDepth c) ∨
      extractCycleFromPred checks pred start maxDepth = .error .slice ∧ ¬NodesInRange pred start ∨
      extractCycleFromPred checks pred start maxDepth = .error .overflow ∧ checks = true ∧
        2 ^ 64 ≤ maxDepth + 1 := by
  unfold extractCycleFromPred
  rcases Nat.lt_or_ge (maxDepth + 1) (2 ^ 64) with hlt | hge
  · rw [arithUnsigned_eq hlt, ok_bind]
    rcases follow_cases (chain_nil pred start) with hok | herr
    · exact .inl hok
    · exact .inr (.inl herr)
  · rw [arithUnsigned_of_le hge]
    split_ifs with hchecks
    · exact .inr (.inr ⟨rfl, hchecks, hge⟩)
    · rw [ok_bind]
      rcases follow_cases (chain_nil pred start) with hok | herr
      · exact .inl hok
      · exact .inr (.inl herr)

/-! ## Valid candidates -/

variable {c : CandidateCycle} {e f : CycleEdge} {graph : TokenGraph} {x y : F64}

theorem rateStep_eq_some (h : rateStep pm graph x e = some y) :
    ∃ tin tout pool r, graph.tokens[e.fromNode]? = some tin ∧ graph.tokens[e.toNode]? = some tout ∧
      pm.pools[e.pool]? = some pool ∧ marginalExchangeRate pool tin tout = some (.fin r) ∧ 0 < r ∧
      x * .fin r = y := by
  obtain ⟨tin, htin, h⟩ := Option.bind_eq_some_iff.mp h
  obtain ⟨tout, htout, h⟩ := Option.bind_eq_some_iff.mp h
  obtain ⟨pool, hpool, h⟩ := Option.bind_eq_some_iff.mp h
  obtain ⟨rate, hrate, h⟩ := Option.bind_eq_some_iff.mp h
  split_ifs at h with hr
  obtain ⟨r, rfl⟩ := isFinite_iff.mp hr.1
  exact ⟨tin, tout, pool, r, htin, htout, hpool, hrate, fin_lt_fin.mp hr.2, Option.some.inj h⟩

/-- What `is_valid` asks of the rates. -/
theorem product_of_isValid (h : c.isValid pm graph maxDepth = true) :
    ∃ product, c.edges.foldlM (rateStep pm graph) (.fin 1) = some product ∧
      .fin 1 + cycleRateMargin < product := by
  unfold CandidateCycle.isValid at h
  split_ifs at h
  cases hfold : c.edges.foldlM (rateStep pm graph) (.fin 1) with
  | none =>
    rw [hfold] at h
    cases h
  | some product =>
    rw [hfold] at h
    exact ⟨product, rfl, of_decide_eq_true h⟩

theorem margin_lt : F64.fin (1 + 1 / 2 ^ 31) < .fin 1 + cycleRateMargin := by decide +kernel

/-- A product of two rates that is at most 1, but for the roundings, does not pass. -/
theorem not_margin_lt {r s : ℚ} (hr : 0 < r) (hs : 0 < s) (hround : F64.round r = .fin r)
    (hrs : r * s ≤ 1 + 1 / 2 ^ 40) :
    ¬ .fin 1 + cycleRateMargin < F64.fin 1 * .fin r * .fin s := by
  have hsmall : nearest (r * s) ≤ 1 + 1 / 2 ^ 31 := by
    have heta := eta_le_epsilon
    have hle := nearest_le (mul_pos hr hs).le
    rw [epsilon_eq] at heta hle
    linarith
  have hfin : |nearest (r * s)| < huge := by
    rw [abs_of_nonneg (nearest_nonneg (mul_pos hr hs).le)]
    calc nearest (r * s) ≤ 1 + 1 / 2 ^ 31 := hsmall
      _ < 2 ^ 200 * 2 ^ 200 * 2 ^ 200 := by norm_num
      _ ≤ huge := cube_le_huge
  rw [fin_mul_fin, one_mul, hround, fin_mul_fin, round_of_lt hfin]
  have hmargin := margin_lt
  cases hthreshold : F64.fin 1 + cycleRateMargin with
  | fin q =>
    rw [hthreshold, fin_lt_fin] at hmargin
    rw [fin_lt_fin]
    exact (hsmall.trans hmargin.le).not_gt
  | inf negative =>
    cases negative with
    | false => exact Bool.false_ne_true
    | true =>
      rw [hthreshold] at hmargin
      exact absurd hmargin Bool.false_ne_true
  | nan => exact Bool.false_ne_true

/-- There and back through one pool is no gain. -/
theorem not_isValid_pair (hpm : WellStored pm) (hpool : e.pool = f.pool)
    (hne : e.fromNode ≠ e.toNode) (hthere : f.fromNode = e.toNode) (hback : f.toNode = e.fromNode) :
    (⟨[e, f]⟩ : CandidateCycle).isValid pm (TokenGraph.build ln pools) maxDepth ≠ true := by
  intro hvalid
  obtain ⟨product, hproduct, hmargin⟩ := product_of_isValid hvalid
  rw [List.foldlM_cons] at hproduct
  obtain ⟨x, hx, hproduct⟩ := Option.bind_eq_some_iff.mp hproduct
  rw [List.foldlM_cons] at hproduct
  obtain ⟨y, hy, hproduct⟩ := Option.bind_eq_some_iff.mp hproduct
  obtain rfl : y = product := Option.some.inj hproduct
  obtain ⟨tin, tout, pool, r, htin, htout, hget, hrate, hr, rfl⟩ := rateStep_eq_some hx
  obtain ⟨tin', tout', pool', s, htin', htout', hget', hrate', hs, rfl⟩ := rateStep_eq_some hy
  rw [hthere] at htin'
  rw [hback] at htout'
  rw [← hpool] at hget'
  obtain rfl := Option.some.inj (hget.symm.trans hget')
  obtain rfl := Option.some.inj (htout.symm.trans htin')
  obtain rfl := Option.some.inj (htin.symm.trans htout')
  have htokens : tin ≠ tout := fun heq => hne (tokens_inj htin (heq ▸ htout))
  have hrs := marginalExchangeRate_there_and_back (hpm.fits _ _ hget) htokens hr hs hrate hrate'
  exact not_margin_lt hr hs (round_of_marginalExchangeRate_eq hrate) hrs hmargin

/-- **No pool twice.** A valid candidate uses no pool twice, where the array names each pool between
    one pair of nodes. -/
theorem nodup_pools (hpm : WellStored pm) (hone : OnePair pred) (hc : IsCycle pred maxDepth c)
    (hvalid : c.isValid pm (TokenGraph.build ln pools) maxDepth = true) : c.pools.Nodup := by
  unfold CandidateCycle.pools
  rw [List.nodup_map_iff_inj_on hc.nodup.of_map]
  intro e he f hf hpool
  by_contra hne
  have hto : e.toNode ≠ f.toNode := fun heq => hne (eq_of_dst_eq hc.nodup he hf heq)
  have hentry' := hc.entries f hf
  rw [← hpool] at hentry'
  obtain ⟨-, heq⟩ | ⟨hback, hthere⟩ := hone _ _ _ _ _ (hc.entries e he) hentry'
  · exact hto heq
  · -- the pool is used there and back, so the candidate has no other edges
    obtain ⟨v, hwalk⟩ := hc.closed
    have hloop : e.fromNode ≠ e.toNode := fun heq => hto (heq.symm.trans hback)
    obtain ⟨edges⟩ := c
    rcases eq_pair_of_there_and_back hwalk hc.nodup he hf hne hthere.symm hback.symm with
      rfl | rfl
    · exact not_isValid_pair hpm hpool hloop hthere.symm hback.symm hvalid
    · refine not_isValid_pair hpm hpool.symm ?_ hback hthere hvalid
      rw [← hthere, ← hback]
      exact hloop.symm

/-! ## The search -/

theorem isCycle_of_extract (h : extractCycleFromPred checks pred start maxDepth = .ok (some c)) :
    IsCycle pred maxDepth c := by
  rcases extractCycleFromPred_cases checks pred start maxDepth with
    ⟨r, hr, hcycle⟩ | ⟨herr, -⟩ | ⟨herr, -⟩
  · exact hcycle c (Except.ok.inj (hr.symm.trans h))
  · cases herr.symm.trans h
  · cases herr.symm.trans h

theorem exists_extract (hdepth : checks = true → maxDepth + 1 < 2 ^ 64)
    (h : NodesInRange pred start) :
    ∃ r, extractCycleFromPred checks pred start maxDepth = .ok r := by
  rcases extractCycleFromPred_cases checks pred start maxDepth with
    ⟨r, hr, -⟩ | ⟨-, hout⟩ | ⟨-, hchecks, hge⟩
  · exact ⟨r, hr⟩
  · exact absurd h hout
  · exact absurd (hdepth hchecks) hge.not_gt

theorem isCycle_of_firstCycle {starts : List ℕ}
    (h : firstCycle checks pred maxDepth starts = .ok (some c)) : IsCycle pred maxDepth c := by
  induction starts with
  | nil => cases h
  | cons start rest ih =>
    obtain ⟨r, hr, h⟩ := bind_eq_ok.mp h
    cases r with
    | none => exact ih h
    | some cycle =>
      cases h
      exact isCycle_of_extract hr

theorem exists_firstCycle (hdepth : checks = true → maxDepth + 1 < 2 ^ 64) {starts : List ℕ}
    (h : ∀ start ∈ starts, NodesInRange pred start) :
    ∃ r, firstCycle checks pred maxDepth starts = .ok r := by
  induction starts with
  | nil => exact ⟨none, rfl⟩
  | cons start rest ih =>
    obtain ⟨hstart, hrest⟩ := List.forall_mem_cons.mp h
    obtain ⟨r, hr⟩ := exists_extract hdepth hstart
    unfold firstCycle
    rw [hr, ok_bind]
    cases r with
    | none => exact ih hrest
    | some cycle => exact ⟨some cycle, rfl⟩

variable {rounds : ℕ} {banned : Finset Address} {scope : ScanScope} {path : List Address}

/-- A candidate of the search is one of an array of the relaxation. -/
theorem isCycle_of_findNegativeCycle
    (h : graph.findNegativeCycle checks rounds maxDepth banned = .ok (some c)) :
    ∃ s, graph.relaxation rounds banned = .ok s ∧ IsCycle s.pred maxDepth c := by
  obtain ⟨s, hs, h⟩ := bind_eq_ok.mp h
  split_ifs at h
  · cases h
  · exact ⟨s, hs, isCycle_of_firstCycle h⟩

theorem exists_findNegativeCycle (hdepth : checks = true → maxDepth + 1 < 2 ^ 64)
    (hgraph : graph.Closed) :
    ∃ r, graph.findNegativeCycle checks rounds maxDepth banned = .ok r := by
  obtain ⟨s, hs, hsound⟩ := exists_relaxation hgraph rounds banned
  unfold TokenGraph.findNegativeCycle
  rw [hs, ok_bind]
  split_ifs
  · exact ⟨none, rfl⟩
  · refine exists_firstCycle hdepth fun start hstart => ⟨?_, fun v u p hentry => ?_⟩
    · exact (hsound.relaxed start hstart).trans_eq hsound.pred.symm
    · obtain ⟨es, hes, -⟩ := hsound.entries v u p hentry
      exact (List.getElem?_eq_some_iff.mp hes).1.trans_eq hsound.pred.symm

theorem normalizeRotation_perm (path : List Address) : (normalizeRotation path).Perm path := by
  unfold normalizeRotation
  split_ifs
  · exact .refl path
  · exact List.rotate_perm path _

theorem meetsScope_perm {path' : List Address} (h : path.Perm path') :
    meetsScope scope path = meetsScope scope path' := by
  cases scope with
  | full => rfl
  | dirty dirty => exact h.any_eq

/-- What an emitted path is: between two and `maxDepth` different pools that meet the scope. -/
structure Emitted (maxDepth : ℕ) (scope : ScanScope) (path : List Address) : Prop where
  two_le : 2 ≤ path.length
  le : path.length ≤ maxDepth
  nodup : path.Nodup
  scope : meetsScope scope path = true

theorem Emitted.perm {path' : List Address} (h : Emitted maxDepth scope path)
    (hperm : path.Perm path') : Emitted maxDepth scope path' :=
  ⟨h.two_le.trans_eq hperm.length_eq, hperm.length_eq.symm.trans_le h.le,
    hperm.nodup_iff.mp h.nodup, (meetsScope_perm hperm).symm.trans h.scope⟩

/-- What a candidate adds to the paths. -/
theorem emitted_take {s : CycleSearch} (hpm : WellStored pm) (hone : OnePair pred)
    (hc : IsCycle pred maxDepth c) (hs : ∀ path ∈ s.out, Emitted maxDepth scope path) :
    ∀ path ∈ (s.take pm (TokenGraph.build ln pools) maxDepth scope c).out,
      Emitted maxDepth scope path := by
  unfold CycleSearch.take
  dsimp only
  split_ifs with hvalid hscope
  · exact hs
  · exact hs
  · exact hs
  · rw [Bool.not_eq_true', Bool.not_eq_false] at hvalid hscope
    have hpools : Emitted maxDepth scope c.pools := by
      refine ⟨?_, ?_, nodup_pools hpm hone hc hvalid, hscope⟩
      · exact hc.two_le.trans_eq (List.length_map ..).symm
      · exact (List.length_map ..).trans_le hc.le
    refine List.forall_mem_append.mpr ⟨hs, List.forall_mem_singleton.mpr ?_⟩
    exact hpools.perm (normalizeRotation_perm c.pools).symm

theorem emitted_searchCycles {attempts : ℕ} {s t : CycleSearch} (hpm : WellStored pm)
    (hpools : pools.Perm (allPools pm))
    (h : searchCycles checks pm (TokenGraph.build ln pools) maxDepth scope attempts s = .ok t)
    (hs : ∀ path ∈ s.out, Emitted maxDepth scope path) :
    ∀ path ∈ t.out, Emitted maxDepth scope path := by
  induction attempts generalizing s with
  | zero =>
    cases h
    exact hs
  | succ attempts ih =>
    unfold searchCycles at h
    split_ifs at h
    · cases h
      exact hs
    · obtain ⟨r, hr, h⟩ := bind_eq_ok.mp h
      cases r with
      | none =>
        cases h
        exact hs
      | some c =>
        obtain ⟨array, harray, hc⟩ := isCycle_of_findNegativeCycle hr
        exact ih h (emitted_take hpm (onePair_of_relaxation hpm hpools harray) hc hs)

/-- **What the search emits.** -/
theorem emitted_of_findNegativeCyclePaths {paths : List (List Address)} (hpm : WellStored pm)
    (hpools : pools.Perm (allPools pm))
    (h : findNegativeCyclePaths checks ln pm pools maxDepth scope = .ok paths) :
    ∀ path ∈ paths, Emitted maxDepth scope path := by
  unfold findNegativeCyclePaths at h
  dsimp only at h
  split_ifs at h
  · cases h
    exact nofun
  · obtain ⟨s, hs, h⟩ := bind_eq_ok.mp h
    cases h
    exact emitted_searchCycles hpm hpools hs nofun

theorem exists_searchCycles {attempts : ℕ} {s : CycleSearch}
    (hdepth : checks = true → maxDepth + 1 < 2 ^ 64) (hgraph : graph.Closed) :
    ∃ t, searchCycles checks pm graph maxDepth scope attempts s = .ok t := by
  induction attempts generalizing s with
  | zero => exact ⟨s, rfl⟩
  | succ attempts ih =>
    unfold searchCycles
    split_ifs
    · exact ⟨s, rfl⟩
    · obtain ⟨r, hr⟩ := exists_findNegativeCycle hdepth hgraph
      rw [hr, ok_bind]
      cases r with
      | none => exact ⟨s, rfl⟩
      | some c => exact ih

/-- The search returns. -/
theorem exists_findNegativeCyclePaths (ln : F64 → F64) (pm : PoolManager) (pools : List PoolState)
    (scope : ScanScope) (hdepth : checks = true → maxDepth + 1 < 2 ^ 64) :
    ∃ paths, findNegativeCyclePaths checks ln pm pools maxDepth scope = .ok paths := by
  unfold findNegativeCyclePaths
  dsimp only
  split_ifs
  · exact ⟨[], rfl⟩
  · obtain ⟨t, ht⟩ := exists_searchCycles hdepth (closed_build ln pools)
    exact ⟨t.out, by rw [ht]; rfl⟩

/-! ## The walk, the arrays and the scope -/

/-- **Candidates of a predecessor array.** The walk along the array returns, unless it meets an
    index outside the array, or the bound overflows in a checked build. What it returns and
    `is_valid` passes is a closed walk of two to `maxDepth` edges, and uses no pool twice where the
    array names each pool between one pair of nodes. The arrays of the relaxation do so. A path that
    is emitted for a set of dirty pools has one of them. -/
theorem extractedCycles_closed (checks : Bool) (ln : F64 → F64) (maxDepth : ℕ)
    (hpm : WellStored pm) (hpools : pools.Perm (allPools pm)) :
    (∀ pred start,
      ((∃ r, extractCycleFromPred checks pred start maxDepth = .ok r) ∨
        extractCycleFromPred checks pred start maxDepth = .error .slice ∧ ¬NodesInRange pred start ∨
        extractCycleFromPred checks pred start maxDepth = .error .overflow ∧ checks = true ∧
          2 ^ 64 ≤ maxDepth + 1) ∧
      ∀ c, extractCycleFromPred checks pred start maxDepth = .ok (some c) →
        c.isValid pm (TokenGraph.build ln pools) maxDepth = true →
        (∃ v, Walk CycleEdge.fromNode CycleEdge.toNode v c.edges v) ∧ 2 ≤ c.edges.length ∧
          c.edges.length ≤ maxDepth ∧ (OnePair pred → c.pools.Nodup)) ∧
    (∀ rounds banned s, (TokenGraph.build ln pools).relaxation rounds banned = .ok s →
      OnePair s.pred) ∧
    ∀ dirty paths, findNegativeCyclePaths checks ln pm pools maxDepth (.dirty dirty) = .ok paths →
      ∀ path ∈ paths, ∃ p ∈ path, p ∈ dirty := by
  refine ⟨fun pred start => ⟨?_, fun c hc hvalid => ?_⟩, ?_, ?_⟩
  · rcases extractCycleFromPred_cases checks pred start maxDepth with ⟨r, hr, -⟩ | hor
    · exact .inl ⟨r, hr⟩
    · exact .inr hor
  · have hcycle := isCycle_of_extract hc
    exact ⟨hcycle.closed, hcycle.two_le, hcycle.le, fun hone => nodup_pools hpm hone hcycle hvalid⟩
  · exact fun rounds banned s hs => onePair_of_relaxation hpm hpools hs
  · intro dirty paths hpaths path hpath
    have hscope := (emitted_of_findNegativeCyclePaths hpm hpools hpaths path hpath).scope
    obtain ⟨p, hp, hdirty⟩ := List.any_eq_true.mp hscope
    exact ⟨p, hp, of_decide_eq_true hdirty⟩

/-- The logarithm to first order. The tokens of the graph do not depend on it. -/
def firstOrderLn (x : F64) : F64 := x - .fin 1

/-- A pool without fee that gives two of the second token for one of the first. -/
def doublingPool (address token0 token1 : Address) : PoolState :=
  .uniswapV2 ⟨{ address, token0, token1 }, 10 ^ 18, 2 * 10 ^ 18⟩

/-- A weighted pool of four tokens. -/
def fourTokens : PoolState :=
  .balancer
    { info := { address := 10, token0 := 1, token1 := 2 }
      balances := List.replicate 4 (10 ^ 18)
      weights := List.replicate 4 (25 * 10 ^ 16)
      tokenIndex := .ofList [((1 : Address), 0), (2, 1), (3, 2), (4, 3)] }

def crossedManager : PoolManager :=
  ((({} : PoolManager).addPool fourTokens).addPool (doublingPool 11 2 3)).addPool
    (doublingPool 12 4 1)

theorem wellStored_crossedManager : WellStored crossedManager := by
  have hempty : WellStored {} := ⟨by simp, by simp⟩
  have hfour : FitsU128 fourTokens := by
    unfold fourTokens FitsU128
    decide
  have hdoubling (address token0 token1 : Address) :
      FitsU128 (doublingPool address token0 token1) := trivial
  exact ((hempty.addPool hfour).addPool (hdoubling ..)).addPool (hdoubling ..)

def crossedCycle : CandidateCycle :=
  ⟨[⟨10, 0, 1⟩, ⟨11, 1, 2⟩, ⟨10, 2, 3⟩, ⟨12, 3, 0⟩]⟩

/-- An array that names the weighted pool between two pairs of its tokens gives a valid candidate
    that uses it twice. -/
theorem crossed_repeats_pool :
    extractCycleFromPred true [some (3, 12), some (0, 10), some (1, 11), some (2, 10)] 0 4 =
        .ok (some crossedCycle) ∧
      crossedCycle.isValid crossedManager
        (TokenGraph.build firstOrderLn (allPools crossedManager)) 4 = true ∧
      ¬crossedCycle.pools.Nodup := by decide +kernel

/-- An array that names the weighted pool between its second and third token only. -/
def straightArray : Predecessors := [none, some (2, 10), some (1, 11), none]

theorem onePair_straightArray : OnePair straightArray := by
  have hentry {v u : ℕ} {p : Address} (h : straightArray[v]? = some (some (u, p))) :
      v = 1 ∧ u = 2 ∧ p = 10 ∨ v = 2 ∧ u = 1 ∧ p = 11 := by
    rcases v with _ | _ | _ | _ | v
    · cases h
    · cases h
      exact .inl ⟨rfl, rfl, rfl⟩
    · cases h
      exact .inr ⟨rfl, rfl, rfl⟩
    · cases h
    · cases h
  intro v v' u u' p h h'
  rcases hentry h with ⟨rfl, rfl, rfl⟩ | ⟨rfl, rfl, rfl⟩ <;>
    rcases hentry h' with ⟨rfl, rfl, hp⟩ | ⟨rfl, rfl, hp⟩ <;> simp_all

theorem extractedCycles_closed_straight :
    WellStored crossedManager ∧ OnePair straightArray ∧
      (∃ v, Walk CycleEdge.fromNode CycleEdge.toNode v [⟨11, 1, 2⟩, ⟨10, 2, 1⟩] v) ∧
      [(11 : Address), 10].Nodup := by
  have hextract : extractCycleFromPred true straightArray 1 4 =
      .ok (some ⟨[⟨11, 1, 2⟩, ⟨10, 2, 1⟩]⟩) := by decide +kernel
  have hvalid : (⟨[⟨11, 1, 2⟩, ⟨10, 2, 1⟩]⟩ : CandidateCycle).isValid crossedManager
      (TokenGraph.build firstOrderLn (allPools crossedManager)) 4 = true := by decide +kernel
  obtain ⟨hwalk, -, -, hnodup⟩ :=
    ((extractedCycles_closed true firstOrderLn 4 wellStored_crossedManager (.refl _)).1
      straightArray 1).2 _ hextract hvalid
  exact ⟨wellStored_crossedManager, onePair_straightArray, hwalk, hnodup onePair_straightArray⟩

end MevScout.Mev
