import MevScout.Common.Checked
import MevScout.Mev.MarginalRate
import MevScout.Pool.Manager

/-!
# The token graph of the search for cycles

`TokenGraph::build` and the relaxation of `find_negative_cycle`
(`core/src/mev/detectors/multi_hop.rs`). The nodes are the tokens of the pools, in the order in
which they are met. A pool has an edge each way between its first two tokens, also where it holds
more. So a predecessor array that the relaxation fills names each pool between one pair of nodes
only.

The logarithm `ln` is a parameter.

Results:
* `sound_build`: what the edges of the graph are;
* `onePair_of_relaxation`: **main theorem**, the arrays of the relaxation;
* `exists_relaxation`: the relaxation never stops at an index.
-/

namespace MevScout.Mev

open Pool

variable {ln : F64 → F64} {pools : List PoolState} {pm : PoolManager}

/-! ## Model of the graph -/

/-- Model of `Edge` (lines 643–648). -/
structure Edge where
  toNode : ℕ
  pool : Address
  weight : F64
  deriving DecidableEq

/-- Model of `TokenGraph` (lines 650–654). -/
structure TokenGraph where
  tokens : List Address := []
  adj : List (List Edge) := []
  deriving DecidableEq

/-- The variables of `TokenGraph::build`. -/
structure GraphBuild extends TokenGraph where
  tokenIds : TokenSlots := ∅

/-- Model of `intern_token` (lines 803–814). -/
def GraphBuild.internToken (b : GraphBuild) (t : Address) : ℕ × GraphBuild :=
  match b.tokenIds[t]? with
  | some id => (id, b)
  | none =>
    let tokens := b.tokens ++ [t]
    let adj := b.adj ++ [[]]
    (adj.length - 1, { tokens, adj, tokenIds := b.tokenIds.insert t (adj.length - 1) })

/-- Model of `neg_log` (lines 850–856). -/
def negLog (ln : F64 → F64) (rate : F64) : Option F64 :=
  if !rate.isFinite ∨ rate ≤ .fin 0 then none
  else
    let w := -(ln rate)
    if w.isFinite then some w else none

/-- The edge of a pool from `u` to `v`, in `TokenGraph::build`. -/
def GraphBuild.pushRate (ln : F64 → F64) (pool : PoolState) (tokenIn tokenOut : Address) (u v : ℕ)
    (b : GraphBuild) : GraphBuild :=
  match (marginalExchangeRate pool tokenIn tokenOut).bind (negLog ln) with
  | some w => { b with adj := b.adj.modify u (· ++ [⟨v, pool.info.address, w⟩]) }
  | none => b

/-- The body of the loop of `TokenGraph::build`. -/
def GraphBuild.addPool (ln : F64 → F64) (b : GraphBuild) (pool : PoolState) : GraphBuild :=
  let info := pool.info
  if info.token0 = 0 ∨ info.token1 = 0 ∨ info.token0 = info.token1 then b
  else
    let (u, b) := b.internToken info.token0
    let (v, b) := b.internToken info.token1
    (b.pushRate ln pool info.token0 info.token1 u v).pushRate ln pool info.token1 info.token0 v u

/-- Model of `TokenGraph::build` (lines 712–746), from the pools in the order of the iteration. -/
def TokenGraph.build (ln : F64 → F64) (pools : List PoolState) : TokenGraph :=
  (pools.foldl (GraphBuild.addPool ln) {}).toTokenGraph

/-- Model of `all_pools` (`manager.rs`, lines 326–328), in one order. -/
def allPools (pm : PoolManager) : List PoolState := pm.pools.toList.map Prod.snd

/-! ## Model of the relaxation -/

/-- `RELAX_EPS`. -/
def relaxEps : F64 := .round (1 / 10 ^ 12)

/-- A predecessor array: for each node the node before it and the pool between them. -/
abbrev Predecessors := List (Option (ℕ × Address))

/-- The variables of the relaxation: the nodes that the last round has relaxed, and the arrays. -/
structure Relaxation where
  dist : List F64
  pred : Predecessors
  lastRelaxed : List ℕ := []
  anyImprovement : Bool := false

/-- The body of the loop over the edges of a node. -/
def relaxEdge (banned : Finset Address) (u : ℕ) (du : F64) (s : Relaxation) (edge : Edge) :
    Except Panic Relaxation :=
  if edge.pool ∈ banned then .ok s
  else
    let nd := du + edge.weight
    match s.dist[edge.toNode]? with
    | none => .error .slice
    | some d =>
      if nd < d - relaxEps then
        .ok
          { dist := s.dist.set edge.toNode nd
            pred := s.pred.set edge.toNode (some (u, edge.pool))
            lastRelaxed := s.lastRelaxed ++ [edge.toNode]
            anyImprovement := true }
      else .ok s

/-- The body of the loop over the nodes. -/
def TokenGraph.relaxNode (g : TokenGraph) (banned : Finset Address) (s : Relaxation) (u : ℕ) :
    Except Panic Relaxation :=
  match s.dist[u]?, g.adj[u]? with
  | some du, some edges => edges.foldlM (relaxEdge banned u du) s
  | _, _ => .error .slice

/-- The loop over the rounds. -/
def TokenGraph.relaxRounds (g : TokenGraph) (banned : Finset Address) :
    ℕ → Relaxation → Except Panic Relaxation
  | 0, s => .ok s
  | k + 1, s => do
    let s ← (List.range g.adj.length).foldlM (g.relaxNode banned)
      { s with lastRelaxed := [], anyImprovement := false }
    if s.anyImprovement then g.relaxRounds banned k s else .ok s

/-- The relaxation of `find_negative_cycle` (lines 752–787). -/
def TokenGraph.relaxation (g : TokenGraph) (rounds : ℕ) (banned : Finset Address) :
    Except Panic Relaxation :=
  let n := g.adj.length
  g.relaxRounds banned rounds { dist := .replicate n (.fin 0), pred := .replicate n none }

/-! ## The graph -/

/-- The nodes `u` and `v` are the first two tokens of a pool. -/
def Joins (tokens : List Address) (info : PoolInfo) (u v : ℕ) : Prop :=
  tokens[u]? = some info.token0 ∧ tokens[v]? = some info.token1 ∨
    tokens[u]? = some info.token1 ∧ tokens[v]? = some info.token0

/-- What `build` keeps: the map of the tokens is the inverse of their list, and an edge of a node
    joins it to the other token of a pool. -/
structure GraphBuild.Sound (pools : List PoolState) (b : GraphBuild) : Prop where
  ids : ∀ (t : Address) (i : ℕ), b.tokenIds[t]? = some i ↔ b.tokens[i]? = some t
  length : b.adj.length = b.tokens.length
  edges : ∀ (u : ℕ) (es : List Edge), b.adj[u]? = some es → ∀ e ∈ es, ∃ pool ∈ pools,
    e.pool = pool.address ∧ Joins b.tokens pool.info u e.toNode

theorem getElem?_concat_eq_some {α : Type*} {l : List α} {a b : α} {i : ℕ} :
    (l ++ [a])[i]? = some b ↔ l[i]? = some b ∨ i = l.length ∧ a = b := by
  rcases Nat.lt_trichotomy i l.length with h | rfl | h
  · rw [List.getElem?_append_left h]
    exact ⟨.inl, fun hor => hor.resolve_right fun hi => h.ne hi.1⟩
  · rw [List.getElem?_concat_length, List.getElem?_eq_none le_rfl]
    simp
  · rw [List.getElem?_eq_none (by simpa using h), List.getElem?_eq_none h.le]
    exact iff_of_false nofun fun hor => hor.elim nofun fun hi => h.ne' hi.1

theorem Joins.concat {tokens : List Address} {info : PoolInfo} {u v : ℕ} (t : Address)
    (h : Joins tokens info u v) : Joins (tokens ++ [t]) info u v := by
  unfold Joins at h ⊢
  simp only [getElem?_concat_eq_some]
  tauto

/-- What `intern_token` returns. -/
theorem sound_internToken {b : GraphBuild} (hb : b.Sound pools) (t : Address) :
    (b.internToken t).2.Sound pools ∧
      (b.internToken t).2.tokens[(b.internToken t).1]? = some t ∧
      ∀ (i : ℕ) (t' : Address), b.tokens[i]? = some t' →
        (b.internToken t).2.tokens[i]? = some t' := by
  unfold GraphBuild.internToken
  cases hid : b.tokenIds[t]? with
  | some id => exact ⟨hb, (hb.ids t id).mp hid, fun _ _ h => h⟩
  | none =>
    simp only [List.length_append, List.length_singleton, Nat.add_sub_cancel, hb.length]
    refine ⟨⟨fun t' i => ?_, ?_, fun u es hes e he => ?_⟩, List.getElem?_concat_length,
      fun i t' h => getElem?_concat_eq_some.mpr (.inl h)⟩
    · rw [Map.getElem?_insert_eq, getElem?_concat_eq_some, ← hb.ids t' i]
      split_ifs with ht
      · subst ht
        simp [hid, eq_comm]
      · simp [ht]
    · simp [hb.length]
    · rcases getElem?_concat_eq_some.mp hes with hes | ⟨-, rfl⟩
      · obtain ⟨pool, hpool, haddr, hjoins⟩ := hb.edges u es hes e he
        exact ⟨pool, hpool, haddr, hjoins.concat t⟩
      · cases he

/-- An edge between the two tokens of a pool. -/
theorem sound_pushRate {b : GraphBuild} (hb : b.Sound pools) {pool : PoolState}
    (hpool : pool ∈ pools) (ln : F64 → F64) (tokenIn tokenOut : Address) {u v : ℕ}
    (hjoins : Joins b.tokens pool.info u v) :
    (b.pushRate ln pool tokenIn tokenOut u v).Sound pools ∧
      (b.pushRate ln pool tokenIn tokenOut u v).tokens = b.tokens := by
  unfold GraphBuild.pushRate
  cases (marginalExchangeRate pool tokenIn tokenOut).bind (negLog ln) with
  | none => exact ⟨hb, rfl⟩
  | some w =>
    refine ⟨⟨hb.ids, by simpa using hb.length, fun u' es hes e he => ?_⟩, rfl⟩
    rw [List.getElem?_modify, Option.map_eq_map, Option.map_eq_some_iff] at hes
    obtain ⟨es', hes', rfl⟩ := hes
    split_ifs at he with hu
    · subst hu
      rcases List.mem_append.mp he with he | he
      · exact hb.edges u es' hes' e he
      · obtain rfl := List.mem_singleton.mp he
        exact ⟨pool, hpool, rfl, hjoins⟩
    · exact hb.edges u' es' hes' e he

theorem sound_addPool {b : GraphBuild} (hb : b.Sound pools) {pool : PoolState}
    (hpool : pool ∈ pools) : (b.addPool ln pool).Sound pools := by
  unfold GraphBuild.addPool
  dsimp only
  split_ifs with hskip
  · exact hb
  obtain ⟨h₁, hu, -⟩ := sound_internToken hb pool.info.token0
  obtain ⟨h₂, hv, hkeep⟩ := sound_internToken h₁ pool.info.token1
  have hjoins := And.intro (hkeep _ _ hu) hv
  obtain ⟨h₃, htokens⟩ :=
    sound_pushRate h₂ hpool ln pool.info.token0 pool.info.token1 (.inl hjoins)
  refine (sound_pushRate h₃ hpool ln _ _ (.inr ?_)).1
  rw [htokens]
  exact hjoins.symm

/-- What the edges of the graph are. -/
theorem sound_build (ln : F64 → F64) (pools : List PoolState) :
    (pools.foldl (GraphBuild.addPool ln) {}).Sound pools := by
  refine List.foldlRecOn pools (GraphBuild.addPool ln) ⟨?_, rfl, ?_⟩
    fun b hb pool hpool => sound_addPool hb hpool
  · simp
  · simp

/-- The edges of a graph lead to nodes of it. -/
def TokenGraph.Closed (g : TokenGraph) : Prop :=
  ∀ (u : ℕ) (es : List Edge), g.adj[u]? = some es → ∀ e ∈ es, e.toNode < g.adj.length

theorem closed_build (ln : F64 → F64) (pools : List PoolState) :
    (TokenGraph.build ln pools).Closed := by
  intro u es hes e he
  have hsound := sound_build ln pools
  obtain ⟨pool, -, -, hjoins⟩ := hsound.edges u es hes e he
  change e.toNode < (pools.foldl (GraphBuild.addPool ln) {}).adj.length
  rw [hsound.length]
  rcases hjoins with ⟨-, hv⟩ | ⟨-, hv⟩ <;> exact (List.getElem?_eq_some_iff.mp hv).1

/-- The tokens of the graph are different. -/
theorem tokens_inj {u v : ℕ} {t : Address} (hu : (TokenGraph.build ln pools).tokens[u]? = some t)
    (hv : (TokenGraph.build ln pools).tokens[v]? = some t) : u = v := by
  have hsound := sound_build ln pools
  exact Option.some.inj (((hsound.ids t u).mpr hu).symm.trans ((hsound.ids t v).mpr hv))

/-! ## The relaxation -/

/-- What the relaxation keeps: an entry of the array is an edge of the graph. -/
structure Relaxation.Sound (g : TokenGraph) (s : Relaxation) : Prop where
  dist : s.dist.length = g.adj.length
  pred : s.pred.length = g.adj.length
  entries : ∀ (v u : ℕ) (p : Address), s.pred[v]? = some (some (u, p)) →
    ∃ es, g.adj[u]? = some es ∧ ∃ e ∈ es, e.toNode = v ∧ e.pool = p
  relaxed : ∀ v ∈ s.lastRelaxed, v < g.adj.length

variable {g : TokenGraph} {banned : Finset Address} {s : Relaxation}

theorem exists_relaxEdge (hg : g.Closed) {u : ℕ} {es : List Edge} (hes : g.adj[u]? = some es)
    {e : Edge} (he : e ∈ es) (du : F64) (hs : s.Sound g) :
    ∃ t, relaxEdge banned u du s e = .ok t ∧ t.Sound g := by
  have hto : e.toNode < g.adj.length := hg u es hes e he
  unfold relaxEdge
  by_cases hban : e.pool ∈ banned
  case pos => exact ⟨s, if_pos hban, hs⟩
  rw [if_neg hban, List.getElem?_eq_getElem (hto.trans_eq hs.dist.symm)]
  dsimp only
  split_ifs
  · refine ⟨_, rfl, ?_, ?_, fun v w p hentry => ?_, ?_⟩
    · exact (List.length_set ..).trans hs.dist
    · exact (List.length_set ..).trans hs.pred
    · dsimp only at hentry
      rw [List.getElem?_set] at hentry
      split_ifs at hentry with hv hlt
      · cases hentry
        exact ⟨es, hes, e, he, hv, rfl⟩
      · exact hs.entries v w p hentry
    · exact List.forall_mem_append.mpr ⟨hs.relaxed, List.forall_mem_singleton.mpr hto⟩
  · exact ⟨s, rfl, hs⟩

theorem exists_relaxNode (hg : g.Closed) {u : ℕ} (hu : u < g.adj.length) (hs : s.Sound g) :
    ∃ t, g.relaxNode banned s u = .ok t ∧ t.Sound g := by
  have hes : g.adj[u]? = some g.adj[u] := List.getElem?_eq_getElem hu
  unfold TokenGraph.relaxNode
  rw [List.getElem?_eq_getElem (hu.trans_eq hs.dist.symm), hes]
  exact exists_run (fun e he t ht => exists_relaxEdge hg hes he _ ht) hs

theorem exists_relaxRounds (hg : g.Closed) {k : ℕ} (hs : s.Sound g) :
    ∃ t, g.relaxRounds banned k s = .ok t ∧ t.Sound g := by
  induction k generalizing s with
  | zero => exact ⟨s, rfl, hs⟩
  | succ k ih =>
    have hstart : Relaxation.Sound g { s with lastRelaxed := [], anyImprovement := false } :=
      ⟨hs.dist, hs.pred, hs.entries, nofun⟩
    obtain ⟨t, ht, hround⟩ : ∃ t, (List.range g.adj.length).foldlM (g.relaxNode banned)
        { s with lastRelaxed := [], anyImprovement := false } = .ok t ∧ t.Sound g :=
      exists_run (fun u hu t ht => exists_relaxNode hg (List.mem_range.mp hu) ht) hstart
    unfold TokenGraph.relaxRounds
    rw [ht, ok_bind]
    split_ifs
    · exact ih hround
    · exact ⟨t, rfl, hround⟩

/-- The relaxation never stops at an index. -/
theorem exists_relaxation (hg : g.Closed) (rounds : ℕ) (banned : Finset Address) :
    ∃ s, g.relaxation rounds banned = .ok s ∧ s.Sound g := by
  refine exists_relaxRounds hg ⟨List.length_replicate, List.length_replicate, ?_, nofun⟩
  intro v u p hentry
  cases List.eq_of_mem_replicate (List.mem_of_getElem? hentry)

/-! ## The pools of the manager -/

/-- What the manager keeps of its pools: a pool is stored under its own address, and its amounts are
    of their types. -/
structure WellStored (pm : PoolManager) : Prop where
  own : ∀ (addr : Address) (pool : PoolState), pm.pools[addr]? = some pool → pool.address = addr
  fits : ∀ (addr : Address) (pool : PoolState), pm.pools[addr]? = some pool → FitsU128 pool

theorem WellStored.addPool (h : WellStored pm) {pool : PoolState} (hpool : FitsU128 pool) :
    WellStored (pm.addPool pool) := by
  have hget (addr : Address) : (pm.addPool pool).pools[addr]? =
      if pool.address = addr then some pool else pm.pools[addr]? := by
    obtain ⟨log, hlog⟩ := pm.recordAdd_eq pool.address
    rw [PoolManager.addPool, hlog, ← Map.getElem?_insert_eq]
  constructor <;> intro addr state hstate <;> rw [hget] at hstate <;>
    split_ifs at hstate with haddr
  · cases hstate
    exact haddr
  · exact h.own addr state hstate
  · cases hstate
    exact hpool
  · exact h.fits addr state hstate

theorem getElem?_of_mem_allPools (h : WellStored pm) {pool : PoolState}
    (hpool : pool ∈ allPools pm) : pm.pools[pool.address]? = some pool := by
  obtain ⟨⟨addr, _⟩, hmem, rfl⟩ := List.mem_map.mp hpool
  have hget := Std.ExtTreeMap.mem_toList_iff_getElem?_eq_some.mp hmem
  rwa [h.own addr _ hget]

/-! ## The arrays of the relaxation -/

/-- No pool is named by two entries that connect different pairs of nodes. -/
def OnePair (pred : Predecessors) : Prop :=
  ∀ (v v' u u' : ℕ) (p : Address), pred[v]? = some (some (u, p)) → pred[v']? = some (some (u', p)) →
    u = u' ∧ v = v' ∨ u = v' ∧ v = u'

/-- Two pairs of nodes that the same pool joins. -/
theorem Joins.pair_eq {info : PoolInfo} {u v u' v' : ℕ}
    (h : Joins (TokenGraph.build ln pools).tokens info u v)
    (h' : Joins (TokenGraph.build ln pools).tokens info u' v') :
    u = u' ∧ v = v' ∨ u = v' ∧ v = u' := by
  rcases h with ⟨hu, hv⟩ | ⟨hu, hv⟩ <;> rcases h' with ⟨hu', hv'⟩ | ⟨hu', hv'⟩
  · exact .inl ⟨tokens_inj hu hu', tokens_inj hv hv'⟩
  · exact .inr ⟨tokens_inj hu hv', tokens_inj hv hu'⟩
  · exact .inr ⟨tokens_inj hu hv', tokens_inj hv hu'⟩
  · exact .inl ⟨tokens_inj hu hu', tokens_inj hv hv'⟩

/-- **One pair for each pool.** The arrays that the relaxation fills name each pool between the same
    two nodes. -/
theorem onePair_of_relaxation (hpm : WellStored pm) (hpools : pools.Perm (allPools pm))
    {rounds : ℕ} (h : (TokenGraph.build ln pools).relaxation rounds banned = .ok s) :
    OnePair s.pred := by
  obtain ⟨t, ht, hsound⟩ := exists_relaxation (closed_build ln pools) rounds banned
  obtain rfl := Except.ok.inj (h.symm.trans ht)
  have hedge : ∀ (v u : ℕ) (p : Address), s.pred[v]? = some (some (u, p)) →
      ∃ pool, pm.pools[p]? = some pool ∧
        Joins (TokenGraph.build ln pools).tokens pool.info u v := by
    intro v u p hentry
    obtain ⟨es, hes, e, he, rfl, rfl⟩ := hsound.entries v u p hentry
    obtain ⟨pool, hpool, haddr, hjoins⟩ := (sound_build ln pools).edges u es hes e he
    have hget := getElem?_of_mem_allPools hpm (hpools.subset hpool)
    exact ⟨pool, haddr ▸ hget, hjoins⟩
  intro v v' u u' p hentry hentry'
  obtain ⟨pool, hpool, hjoins⟩ := hedge v u p hentry
  obtain ⟨pool', hpool', hjoins'⟩ := hedge v' u' p hentry'
  obtain rfl := Option.some.inj (hpool.symm.trans hpool')
  exact hjoins.pair_eq hjoins'

end MevScout.Mev
