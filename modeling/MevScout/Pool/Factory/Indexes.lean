import MevScout.Pool.Factory.Init

/-!
# The indexes of the manager

The set of known pools, the token index and the cached pairs against the tracked pools, over
runs of additions, reads of the pairs and initializations. An initialization removes pools
from the tracked ones only, and it keeps the pairs that were cached before it; an addition
indexes the first two tokens of a pool.

Results:
* `consistent_iff`: which runs keep the three indexes consistent;
* `removed_pool_known`: runs that break each of them.
-/

namespace MevScout.Pool.Factory

/-! ## Consistency -/

/-- The known pools are the tracked ones. -/
def KnownMatches (pm : PoolManager) : Prop := ∀ addr, addr ∈ pm.knownSet ↔ addr ∈ pm.pools

/-- Under every token the index lists the tracked pools that trade it, each once. -/
def IndexMatches (pm : PoolManager) : Prop :=
  ∀ token ≠ 0, ∀ addr, listed pm.tokenIndex token addr =
    if token ∈ tokensOf pm.pools addr then 1 else 0

/-- Both pools of a pair are tracked and trade its token. -/
def Trades (tokens : Address → List Address) (pair : ArbPair) : Prop :=
  pair.sharedToken ∈ tokens pair.poolA ∧ pair.sharedToken ∈ tokens pair.poolB

/-- The pairs of the manager are pairs of tracked pools that trade the shared token. -/
def PairsMatch (pm : PoolManager) : Prop :=
  ∀ pair ∈ pm.arbitragePairs.1, Trades (tokensOf pm.pools) pair

/-- The three indexes agree with the tracked pools. -/
structure Consistent (pm : PoolManager) : Prop where
  known : KnownMatches pm
  index : IndexMatches pm
  pairs : PairsMatch pm

/-! ## Runs -/

/-- What is done to the manager. -/
inductive Step where
  | addPool (state : PoolState)
  | arbitragePairs
  | initFromRpc (ans : InitRpc)

/-- One step. -/
def Step.run (pm : PoolManager) : Step → PoolManager
  | .addPool state => pm.addPool state
  | .arbitragePairs => pm.arbitragePairs.2
  | .initFromRpc ans => Factory.initFromRpc pm ans

/-- A manager without pools, with the settings of `settings`. -/
def start (settings : PoolManager) : PoolManager :=
  { settings with pools := ∅, tokenIndex := ∅, pairsCache := none, knownSet := ∅ }

/-- The manager after a list of steps. -/
def runSteps (settings : PoolManager) (l : List Step) : PoolManager :=
  l.foldl Step.run (start settings)

/-- An initialization is among the steps. -/
def Initialized (l : List Step) : Prop := ∃ ans, Step.initFromRpc ans ∈ l

/-- The tokens of a pool after an initialization. -/
def settledTokens (pm : PoolManager) (ans : InitRpc) (addr : Address) : List Address :=
  ((pm.pools[addr]?.bind (settle ans addr)).map PoolState.tokens).getD []

/-- The condition on an addition: under every token, what the index lists of the pool already
    and the two tokens that are added come to the tokens of the pool. -/
def AddCond (pm : PoolManager) (state : PoolState) : Prop :=
  ∀ token ≠ 0, (if token ∈ tokensOf pm.pools state.address then 1 else 0) +
    [state.info.token0, state.info.token1].count token = if token ∈ state.tokens then 1 else 0

/-- The condition on an initialization: no pool is removed, no pool has a token twice, and the
    pools of the cached pairs still trade the shared tokens. -/
def InitCond (pm : PoolManager) (ans : InitRpc) : Prop :=
  (∀ addr p, pm.pools[addr]? = some p →
    ∃ p', settle ans addr p = some p' ∧ ∀ token ≠ 0, p'.tokens.count token ≤ 1) ∧
  ∀ pairs, pm.pairsCache = some pairs → ∀ pair ∈ pairs, Trades (settledTokens pm ans) pair

/-- The condition on a step. Additions before the first initialization are free. -/
def StepCond (pm : PoolManager) (initialized : Prop) : Step → Prop
  | .addPool state => initialized → AddCond pm state
  | .arbitragePairs => True
  | .initFromRpc ans => InitCond pm ans

/-! ## The zero token -/

theorem pushToken_zero {ti : TokenIndex} (h : ti[(0 : Address)]? = none) (t a : Address) :
    (PoolManager.pushToken ti t a)[(0 : Address)]? = none := by
  unfold PoolManager.pushToken
  by_cases ht : t = 0
  · rw [if_pos ht, h]
  · rw [if_neg ht, Map.getElem?_insert_eq, if_neg ht, h]

theorem rebuildTokenIndex_zero (pools : PoolMap) :
    (rebuildTokenIndex pools)[(0 : Address)]? = none := by
  have hinner : ∀ (tokens : List Address) (ti : TokenIndex) (a : Address),
      ti[(0 : Address)]? = none →
      (tokens.foldl (fun ti t => PoolManager.pushToken ti t a) ti)[(0 : Address)]? = none := by
    intro tokens ti a h
    induction tokens generalizing ti with
    | nil => exact h
    | cons t tokens ih => exact ih _ (pushToken_zero h t a)
  have houter : ∀ (l : List (Address × PoolState)) (ti : TokenIndex),
      ti[(0 : Address)]? = none →
      (l.foldl (fun ti e => e.2.tokens.foldl (fun ti t => PoolManager.pushToken ti t e.1) ti)
        ti)[(0 : Address)]? = none := by
    intro l ti h
    induction l generalizing ti with
    | nil => exact h
    | cons e l ih => exact ih _ (hinner e.2.tokens ti e.1 h)
  exact houter pools.toList ∅ (by simp)

/-! ## Computed pairs -/

/-- The pairs found so far are of pools that `f` lists under the shared token. -/
def PairsFrom (f : Address → List Address) (acc : PoolManager.PairAcc) : Prop :=
  ∀ pair ∈ acc.pairs, Trades f pair

theorem pairsFrom_pushPair {f : Address → List Address} {acc : PoolManager.PairAcc}
    (h : PairsFrom f acc) {token a b : Address}
    (ha : token ∈ f a) (hb : token ∈ f b) :
    PairsFrom f (PoolManager.pushPair token acc a b) := by
  unfold PoolManager.pushPair
  dsimp only
  split_ifs with hlt hseen hseen
  · exact h
  · intro pair hpair
    rcases List.mem_append.mp hpair with hold | hnew
    · exact h pair hold
    · rw [List.mem_singleton.mp hnew]
      exact ⟨ha, hb⟩
  · exact h
  · intro pair hpair
    rcases List.mem_append.mp hpair with hold | hnew
    · exact h pair hold
    · rw [List.mem_singleton.mp hnew]
      exact ⟨hb, ha⟩

theorem pairsFrom_bucketPairs {f : Address → List Address} {token : Address}
    {bucket : List Address} (hbucket : ∀ a ∈ bucket, token ∈ f a)
    {acc : PoolManager.PairAcc} (h : PairsFrom f acc) :
    PairsFrom f (PoolManager.bucketPairs token bucket acc) := by
  induction bucket generalizing acc with
  | nil => exact h
  | cons a rest ih =>
    refine ih (fun b hb => hbucket b (List.mem_cons_of_mem _ hb)) ?_
    have ha := hbucket a (List.mem_cons_self ..)
    have hrest : ∀ b ∈ rest, token ∈ f b := fun b hb => hbucket b (List.mem_cons_of_mem _ hb)
    clear ih hbucket
    induction rest generalizing acc with
    | nil => exact h
    | cons b rest ih =>
      exact ih (pairsFrom_pushPair h ha (hrest b (List.mem_cons_self ..)))
        fun c hc => hrest c (List.mem_cons_of_mem _ hc)

/-- With a matching index the computed pairs are right. -/
theorem trades_of_mem_computePairs {pm : PoolManager} (hindex : IndexMatches pm)
    (hzero : pm.tokenIndex[(0 : Address)]? = none) :
    ∀ pair ∈ pm.computePairs, Trades (tokensOf pm.pools) pair := by
  have hbucket : ∀ token, ∀ a ∈ pm.bucket token, token ∈ tokensOf pm.pools a := by
    intro token a ha
    have hmem : a ∈ pm.tokenIndex[token]?.getD [] := by
      have := List.mem_of_mem_take ha
      rwa [List.mem_insertionSort] at this
    have hne : token ≠ 0 := by
      rintro rfl
      rw [hzero] at hmem
      exact absurd hmem List.not_mem_nil
    have hcount : 0 < listed pm.tokenIndex token a := List.count_pos_iff.mpr hmem
    rw [hindex token hne a] at hcount
    by_contra hnot
    simp [hnot] at hcount
  have hfold : ∀ (tokens : List Address) (acc : PoolManager.PairAcc),
      PairsFrom (tokensOf pm.pools) acc →
      PairsFrom (tokensOf pm.pools) (tokens.foldl
        (fun acc token => PoolManager.bucketPairs token (pm.bucket token) acc) acc) := by
    intro tokens acc h
    induction tokens generalizing acc with
    | nil => exact h
    | cons token tokens ih => exact ih _ (pairsFrom_bucketPairs (hbucket token) h)
  exact hfold pm.tokenIndex.keys {} (by intro pair hpair; simp at hpair)

/-! ## Steps -/

variable {pm : PoolManager}

theorem arbitragePairs_of_none (h : pm.pairsCache = none) :
    pm.arbitragePairs.1 = pm.computePairs := by
  unfold PoolManager.arbitragePairs
  rw [h]

theorem knownMatches_addPool (h : KnownMatches pm) (state : PoolState) :
    KnownMatches (pm.addPool state) := by
  intro addr
  rw [PoolManager.addPool_knownSet, PoolManager.addPool_pools, Finset.mem_insert,
    Std.ExtTreeMap.mem_insert, h addr, Std.LawfulEqCmp.compare_eq_iff_eq]
  exact or_congr_left eq_comm

theorem tokensOf_insert (pools : PoolMap) (state : PoolState) (addr : Address) :
    tokensOf (pools.insert state.address state) addr =
      if state.address = addr then state.tokens else tokensOf pools addr := by
  unfold tokensOf
  rw [Map.getElem?_insert_eq]
  split_ifs <;> rfl

/-- An addition keeps a matching index under its condition, and only then. -/
theorem indexMatches_addPool_iff (h : IndexMatches pm) (state : PoolState) :
    IndexMatches (pm.addPool state) ↔ AddCond pm state := by
  have hlisted : ∀ token ≠ 0, ∀ addr, listed (pm.addPool state).tokenIndex token addr =
      (if token ∈ tokensOf pm.pools addr then 1 else 0) +
        if state.address = addr then [state.info.token0, state.info.token1].count token else 0 := by
    intro token ht addr
    rw [PoolManager.addPool_tokenIndex, listed_pushTokens _ _ _ ht, h token ht addr]
  constructor
  · intro hadd token ht
    have := hadd token ht state.address
    rwa [hlisted token ht, if_pos rfl, PoolManager.addPool_pools, tokensOf_insert,
      if_pos rfl] at this
  · intro hcond token ht addr
    rw [hlisted token ht, PoolManager.addPool_pools, tokensOf_insert]
    by_cases haddr : state.address = addr
    · rw [if_pos haddr, if_pos haddr, ← haddr]
      exact hcond token ht
    · rw [if_neg haddr, if_neg haddr, add_zero]

theorem consistent_addPool_iff (h : Consistent pm)
    (hzero : pm.tokenIndex[(0 : Address)]? = none) (state : PoolState) :
    Consistent (pm.addPool state) ↔ AddCond pm state := by
  rw [← indexMatches_addPool_iff h.index]
  refine ⟨fun hadd => hadd.index, fun hindex => ?_⟩
  refine ⟨knownMatches_addPool h.known state, hindex, ?_⟩
  have hcache : (pm.addPool state).pairsCache = none := rfl
  rw [PairsMatch, arbitragePairs_of_none hcache]
  refine trades_of_mem_computePairs hindex ?_
  rw [PoolManager.addPool_tokenIndex]
  exact pushToken_zero (pushToken_zero hzero _ _) _ _

theorem consistent_arbitragePairs (h : Consistent pm) : Consistent pm.arbitragePairs.2 := by
  cases hcache : pm.pairsCache with
  | some pairs =>
    have hsame : pm.arbitragePairs.2 = pm := by
      unfold PoolManager.arbitragePairs
      rw [hcache]
    rwa [hsame]
  | none =>
    have hread : pm.arbitragePairs.2 = { pm with pairsCache := some pm.computePairs } := by
      unfold PoolManager.arbitragePairs
      rw [hcache]
    have hpairs := h.pairs
    rw [PairsMatch, arbitragePairs_of_none hcache] at hpairs
    rw [hread]
    exact ⟨h.known, h.index, hpairs⟩

theorem tokensOf_initFromRpc (pm : PoolManager) (ans : InitRpc) (addr : Address) :
    tokensOf (initFromRpc pm ans).pools addr = settledTokens pm ans addr := by
  rw [tokensOf, getElem?_initFromRpc, settledTokens]

/-- An initialization leaves the manager consistent under its condition, and only then. -/
theorem consistent_initFromRpc_iff (hknown : KnownMatches pm) (ans : InitRpc) :
    Consistent (initFromRpc pm ans) ↔ InitCond pm ans := by
  have hget := getElem?_initFromRpc pm ans
  have hlisted : ∀ token ≠ 0, ∀ addr, listed (initFromRpc pm ans).tokenIndex token addr =
      (settledTokens pm ans addr).count token := by
    intro token ht addr
    rw [← tokensOf_initFromRpc]
    exact listed_rebuildTokenIndex _ ht addr
  constructor
  · intro h
    refine ⟨fun addr p hp => ?_, fun pairs hpairs pair hpair => ?_⟩
    · have hmem : addr ∈ (initFromRpc pm ans).pools := by
        rw [← h.known addr]
        exact (hknown addr).mpr (Map.mem_iff_exists.mpr ⟨p, hp⟩)
      obtain ⟨p', hp'⟩ := Map.mem_iff_exists.mp hmem
      have hsettle := hp'
      rw [hget, hp, Option.bind_some] at hsettle
      refine ⟨p', hsettle, fun token ht => ?_⟩
      have hindex := h.index token ht addr
      rw [hlisted token ht, ← tokensOf_initFromRpc] at hindex
      have htokens : tokensOf (initFromRpc pm ans).pools addr = p'.tokens := by
        rw [tokensOf, hp', Option.map_some, Option.getD_some]
      rw [htokens] at hindex
      rw [hindex]
      split_ifs <;> omega
    · have hcache : (initFromRpc pm ans).pairsCache = some pairs := hpairs
      have hall := h.pairs
      rw [PairsMatch, PoolManager.arbitragePairs, hcache] at hall
      have := hall pair hpair
      rwa [Trades, tokensOf_initFromRpc, tokensOf_initFromRpc] at this
  · rintro ⟨hkept, hcached⟩
    have hindex : IndexMatches (initFromRpc pm ans) := by
      intro token ht addr
      rw [hlisted token ht, tokensOf_initFromRpc]
      by_cases hmem : token ∈ settledTokens pm ans addr
      · have hle : (settledTokens pm ans addr).count token ≤ 1 := by
          unfold settledTokens
          cases hp : pm.pools[addr]? with
          | none => simp
          | some p =>
            obtain ⟨p', hp', hcount⟩ := hkept addr p hp
            rw [Option.bind_some, hp', Option.map_some, Option.getD_some]
            exact hcount token ht
        have hpos : 0 < (settledTokens pm ans addr).count token := List.count_pos_iff.mpr hmem
        rw [if_pos hmem]
        omega
      · rw [if_neg hmem, List.count_eq_zero.mpr hmem]
    refine ⟨fun addr => ?_, hindex, ?_⟩
    · have hset : (initFromRpc pm ans).knownSet = pm.knownSet := rfl
      rw [hset, hknown addr, Map.mem_iff_exists, Map.mem_iff_exists]
      constructor
      · rintro ⟨p, hp⟩
        obtain ⟨p', hp', -⟩ := hkept addr p hp
        exact ⟨p', by rw [hget, hp, Option.bind_some, hp']⟩
      · rintro ⟨p', hp'⟩
        rw [hget] at hp'
        obtain ⟨p, hp, -⟩ := Option.bind_eq_some_iff.mp hp'
        exact ⟨p, hp⟩
    · cases hcache : pm.pairsCache with
      | none =>
        have hnone : (initFromRpc pm ans).pairsCache = none := hcache
        rw [PairsMatch, arbitragePairs_of_none hnone]
        exact trades_of_mem_computePairs hindex (rebuildTokenIndex_zero _)
      | some pairs =>
        have hsome : (initFromRpc pm ans).pairsCache = some pairs := hcache
        rw [PairsMatch, PoolManager.arbitragePairs, hsome]
        intro pair hpair
        rw [Trades, tokensOf_initFromRpc, tokensOf_initFromRpc]
        exact hcached pairs hcache pair hpair

/-! ## Runs -/

theorem runSteps_concat (settings : PoolManager) (l : List Step) (s : Step) :
    runSteps settings (l ++ [s]) = s.run (runSteps settings l) := by
  simp [runSteps]

theorem zero_runSteps (settings : PoolManager) (l : List Step) :
    (runSteps settings l).tokenIndex[(0 : Address)]? = none := by
  induction l using List.reverseRecOn with
  | nil => simp [runSteps, start]
  | append_singleton l s ih =>
    rw [runSteps_concat]
    cases s with
    | addPool state =>
      rw [Step.run, PoolManager.addPool_tokenIndex]
      exact pushToken_zero (pushToken_zero ih _ _) _ _
    | arbitragePairs =>
      rw [Step.run, PoolManager.arbitragePairs]
      split <;> exact ih
    | initFromRpc ans => exact rebuildTokenIndex_zero _

/-- Before the first initialization the known pools are the tracked ones. -/
theorem knownMatches_runSteps (settings : PoolManager) (l : List Step) (h : ¬ Initialized l) :
    KnownMatches (runSteps settings l) := by
  induction l using List.reverseRecOn with
  | nil => intro addr; simp [runSteps, start]
  | append_singleton l s ih =>
    have hl : KnownMatches (runSteps settings l) :=
      ih fun ⟨ans, hans⟩ => h ⟨ans, List.mem_append_left _ hans⟩
    rw [runSteps_concat]
    cases s with
    | addPool state => exact knownMatches_addPool hl state
    | arbitragePairs =>
      rw [Step.run, PoolManager.arbitragePairs]
      split <;> exact hl
    | initFromRpc ans => exact absurd ⟨ans, by simp⟩ h

/-- One step from a state that is consistent, or that no initialization has reached yet. -/
theorem consistent_step_iff (settings : PoolManager) (l : List Step) (s : Step)
    (h : Initialized l → Consistent (runSteps settings l)) :
    (Initialized (l ++ [s]) → Consistent (runSteps settings (l ++ [s]))) ↔
      StepCond (runSteps settings l) (Initialized l) s := by
  have hinit : Initialized (l ++ [s]) ↔ Initialized l ∨ ∃ ans, s = .initFromRpc ans := by
    unfold Initialized
    simp only [List.mem_append, List.mem_singleton, exists_or]
    exact or_congr_right (exists_congr fun ans => eq_comm)
  rw [hinit, runSteps_concat]
  cases s with
  | addPool state =>
    have hnot : ¬ ∃ ans, Step.addPool state = .initFromRpc ans := by rintro ⟨ans, hans⟩; cases hans
    rw [or_iff_left hnot]
    refine forall_congr' fun hl => ?_
    exact consistent_addPool_iff (h hl) (zero_runSteps settings l) state
  | arbitragePairs =>
    have hnot : ¬ ∃ ans, Step.arbitragePairs = .initFromRpc ans := by rintro ⟨ans, hans⟩; cases hans
    rw [or_iff_left hnot]
    exact iff_of_true (fun hl => consistent_arbitragePairs (h hl)) trivial
  | initFromRpc ans =>
    have hknown : KnownMatches (runSteps settings l) := by
      by_cases hl : Initialized l
      · exact (h hl).known
      · exact knownMatches_runSteps settings l hl
    have hyes : ∃ ans', Step.initFromRpc ans = .initFromRpc ans' := ⟨ans, rfl⟩
    exact Iff.trans ⟨fun hall => hall (Or.inr hyes), fun hc _ => hc⟩
      (consistent_initFromRpc_iff hknown ans)

/-! ## Main results -/

/-- **Main theorem.** From the first initialization on every state of a run is consistent if
    and only if every step of the run meets its condition. -/
theorem consistent_iff (settings : PoolManager) (l : List Step) :
    (∀ l₁, l₁ <+: l → Initialized l₁ → Consistent (runSteps settings l₁)) ↔
      ∀ l₁ s, l₁ ++ [s] <+: l → StepCond (runSteps settings l₁) (Initialized l₁) s := by
  induction l using List.reverseRecOn with
  | nil =>
    constructor
    · intro _ l₁ s hs
      simp at hs
    · rintro _ l₁ hl₁ ⟨ans, hans⟩
      rw [List.prefix_nil.mp hl₁] at hans
      exact absurd hans List.not_mem_nil
  | append_singleton l s ih =>
    constructor
    · intro hall l₁ s' hs'
      have hl : ∀ l₁, l₁ <+: l → Initialized l₁ → Consistent (runSteps settings l₁) :=
        fun l₁ hl₁ => hall l₁ (hl₁.trans (List.prefix_append l [s]))
      rcases List.prefix_concat_iff.mp hs' with heq | hpre
      · obtain ⟨rfl, hss⟩ := List.append_inj' heq rfl
        obtain rfl : s' = s := by simpa using hss
        exact (consistent_step_iff settings l₁ s' (hl l₁ (List.prefix_refl l₁))).mp
          (hall _ (List.prefix_refl _))
      · exact ih.mp hl l₁ s' hpre
    · intro hall
      have hl := ih.mpr fun l₁ s' hs' => hall l₁ s' (hs'.trans (List.prefix_append l [s]))
      intro l₁ hl₁
      rcases List.prefix_concat_iff.mp hl₁ with rfl | hpre
      · exact (consistent_step_iff settings l s (hl l (List.prefix_refl l))).mpr
          (hall l s (List.prefix_refl _))
      · exact hl l₁ hpre

/-! ## Runs that break an index -/

/-- A pair with reserves of its tokens 1 and `token1`. -/
def samplePair (address token1 : Address) : PoolState :=
  .uniswapV2 { info := { address, token0 := 1, token1 }, reserve0 := 5, reserve1 := 5 }

/-- A pool of three tokens. -/
def sampleTripool : PoolState :=
  .curve
    { info :=
        { address := 30, token0 := 1, token1 := 2, dexType := .curve
          underlyingTokens := some [1, 2, 3] }
      balances := [5, 5, 5] }

/-- A node that answers with empty reserves. -/
def sampleAnswers : InitRpc :=
  { rpc := { call := fun _ _ => none, callLatest := fun _ _ => none }
    fetch := fun _ _ => some (.v2Reserves 0 0) }

/-- A removed pool stays known; a pair that is cached outlives its pools; an added pool is not
    listed under its third token. -/
theorem removed_pool_known :
    let pair := samplePair 10 2
    let pairs := [.addPool pair, .addPool (samplePair 20 2), .arbitragePairs,
      .initFromRpc sampleAnswers]
    let removed := runSteps {} [.addPool pair, .initFromRpc sampleAnswers]
    let stale := runSteps {} pairs
    let unlisted := runSteps {} [.initFromRpc sampleAnswers, .addPool sampleTripool]
    (10 ∈ removed.knownSet ∧ removed.pools[(10 : Address)]? = none ∧ ¬ Consistent removed) ∧
      (stale.arbitragePairs.1 = [⟨10, 20, 1⟩] ∧ stale.pools[(10 : Address)]? = none ∧
        ¬ PairsMatch stale) ∧
      (unlisted.pools[(30 : Address)]? = some sampleTripool ∧
        listed unlisted.tokenIndex 3 30 = 0 ∧ ¬ IndexMatches unlisted) := by
  intro pair pairs removed stale unlisted
  have hknown : 10 ∈ removed.knownSet := by decide +kernel
  have hremoved : removed.pools[(10 : Address)]? = none := by decide +kernel
  have hpairs : stale.arbitragePairs.1 = [⟨10, 20, 1⟩] := by decide +kernel
  have hstale : stale.pools[(10 : Address)]? = none := by decide +kernel
  have hadded : unlisted.pools[(30 : Address)]? = some sampleTripool := by decide +kernel
  have hlisted : listed unlisted.tokenIndex 3 30 = 0 := by decide +kernel
  refine ⟨⟨hknown, hremoved, fun h => ?_⟩, ⟨hpairs, hstale, fun h => ?_⟩,
    ⟨hadded, hlisted, fun h => ?_⟩⟩
  · obtain ⟨p, hp⟩ := Map.mem_iff_exists.mp ((h.known 10).mp hknown)
    rw [hremoved] at hp
    cases hp
  · have hmem : (⟨10, 20, 1⟩ : ArbPair) ∈ stale.arbitragePairs.1 := by rw [hpairs]; simp
    have htokens := (h _ hmem).1
    rw [tokensOf, hstale] at htokens
    exact absurd htokens List.not_mem_nil
  · have hindex := h 3 (by decide) 30
    rw [hlisted, tokensOf, hadded] at hindex
    exact absurd hindex (by decide)

end MevScout.Pool.Factory
