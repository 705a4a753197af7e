import MevScout.Pool.Factory.Indexes

/-!
# The arbitrage pairs of a manager

`arbitrage_pairs` walks the buckets of the token index and takes a pair of pools from the first
bucket that holds both. The index only grows: an addition lists the first two tokens of a pool
once more. And the list is cached until the next addition, whatever is done to the caps and to
the pools in between.

Results:
* `lists_computePairs`: with an index that lists every pool once, each pair that shares a token is
  computed once;
* `indexOnce_addPool_iff`: which additions keep the index so;
* `pairsRight_run`: runs that keep the pairs right in every state;
* `readded_pool_pairs_itself`: a pool that is added twice and paired with itself.
-/

namespace MevScout.Pool

open Factory PoolManager

variable {pm : PoolManager} {acc : PairAcc} {f : Address → List Address} {token a b : Address}
  {l : List Address} {key : Address × Address}

/-! ## What the pairs should be -/

/-- The tokens that a pool trades: the two of its static information, and the underlying ones of
    a Curve or Balancer pool. -/
def tradedTokens (p : PoolState) : List Address := p.info.token0 :: p.info.token1 :: p.tokens

/-- The tokens that a tracked pool trades. -/
def tradedBy (pools : PoolMap) (addr : Address) : List Address :=
  (pools[addr]?.map tradedTokens).getD []

/-- No token has a cap on its pairs. -/
def Unlimited (pm : PoolManager) : Prop := ∀ token, pm.effectiveMaxPairs token = 0

/-- The number of times that the pair of `a` and `b` is listed. -/
def timesListed (pairs : List ArbPair) (a b : Address) : ℕ :=
  pairs.countP fun pair => pair.poolA = a ∧ pair.poolB = b

/-- The pairs are pairs of distinct pools, the lower address first, that trade the shared token,
    and each pair of pools that share a token is listed once. -/
structure Lists (pools : PoolMap) (pairs : List ArbPair) : Prop where
  sound : ∀ pair ∈ pairs, pair.poolA < pair.poolB ∧ pair.sharedToken ≠ 0 ∧
    Trades (tradedBy pools) pair
  once : ∀ a b, a < b → (∃ token ≠ 0, token ∈ tradedBy pools a ∧ token ∈ tradedBy pools b) →
    timesListed pairs a b = 1

/-- The pairs of a state: without caps they are what they should be, and what is cached is what
    a recomputation gives. -/
structure PairsRight (pm : PoolManager) : Prop where
  listed : Unlimited pm → Lists pm.pools pm.arbitragePairs.1
  cached : ∀ pairs, pm.pairsCache = some pairs → pairs = pm.computePairs

/-! ## One bucket -/

/-- The key of a pair of pools. -/
def pairKey (a b : Address) : Address × Address := if a < b then (a, b) else (b, a)

theorem pairKey_comm (a b : Address) : pairKey a b = pairKey b a := by
  unfold pairKey
  by_cases h : a < b
  · rw [if_pos h, if_neg (by bv_omega)]
  · rw [if_neg h]
    by_cases h' : b < a
    · rw [if_pos h']
    · rw [if_neg h']
      obtain rfl : a = b := by bv_omega
      rfl

theorem pairKey_lt (h : a ≠ b) : (pairKey a b).1 < (pairKey a b).2 := by
  unfold pairKey
  by_cases hlt : a < b
  · rw [if_pos hlt]
    exact hlt
  · rw [if_neg hlt]
    show b < a
    bv_omega

theorem pushPair_eq (token : Address) (acc : PairAcc) (a b : Address) :
    pushPair token acc a b = if pairKey a b ∈ acc.seen then acc
      else
        { seen := insert (pairKey a b) acc.seen
          pairs := acc.pairs ++ [⟨(pairKey a b).1, (pairKey a b).2, token⟩] } := rfl

theorem pushPair_seen (token : Address) (acc : PairAcc) (a b : Address) :
    (pushPair token acc a b).seen = insert (pairKey a b) acc.seen := by
  rw [pushPair_eq]
  by_cases h : pairKey a b ∈ acc.seen
  · rw [if_pos h, Finset.insert_eq_of_mem h]
  · rw [if_neg h]

/-- The keys that one row of the inner loop leaves. -/
theorem mem_seen_row (token a : Address) (l : List Address) (acc : PairAcc) :
    key ∈ (l.foldl (fun acc b => pushPair token acc a b) acc).seen ↔
      key ∈ acc.seen ∨ ∃ b ∈ l, key = pairKey a b := by
  induction l generalizing acc with
  | nil => simp
  | cons b l ih =>
    rw [List.foldl_cons, ih, pushPair_seen, Finset.mem_insert]
    simp only [List.mem_cons, exists_eq_or_imp]
    tauto

/-- No key is forgotten. -/
theorem seen_subset_bucketPairs (token : Address) (l : List Address) (acc : PairAcc) :
    acc.seen ⊆ (bucketPairs token l acc).seen := by
  induction l generalizing acc with
  | nil => exact subset_rfl
  | cons a l ih =>
    intro key hkey
    exact ih _ ((mem_seen_row token a l acc).mpr (.inl hkey))

/-- Every two pools of a bucket have their key taken. -/
theorem pairKey_mem_bucketPairs (token : Address) (acc : PairAcc) (ha : a ∈ l) (hb : b ∈ l)
    (hne : a ≠ b) : pairKey a b ∈ (bucketPairs token l acc).seen := by
  induction l generalizing acc with
  | nil => exact absurd ha List.not_mem_nil
  | cons x l ih =>
    have hrow {y : Address} (hy : y ∈ l) : pairKey x y ∈ (bucketPairs token (x :: l) acc).seen :=
      seen_subset_bucketPairs token l _ ((mem_seen_row token x l acc).mpr (.inr ⟨y, hy, rfl⟩))
    rw [List.mem_cons] at ha hb
    rcases ha with rfl | ha
    · exact hrow (hb.resolve_left hne.symm)
    · rcases hb with rfl | hb
      · rw [pairKey_comm]
        exact hrow ha
      · exact ih _ ha hb

/-- The pairs so far are sound, and each has its key among those taken, once. -/
structure PairsOnce (f : Address → List Address) (acc : PairAcc) : Prop where
  sound : ∀ pair ∈ acc.pairs, pair.poolA < pair.poolB ∧ pair.sharedToken ≠ 0 ∧ Trades f pair
  once : ∀ a b, timesListed acc.pairs a b = if (a, b) ∈ acc.seen then 1 else 0

theorem trades_pairKey (ha : token ∈ f a) (hb : token ∈ f b) :
    Trades f ⟨(pairKey a b).1, (pairKey a b).2, token⟩ := by
  unfold pairKey
  split_ifs
  · exact ⟨ha, hb⟩
  · exact ⟨hb, ha⟩

theorem PairsOnce.pushPair (h : PairsOnce f acc) (htoken : token ≠ 0) (ha : token ∈ f a)
    (hb : token ∈ f b) (hne : a ≠ b) : PairsOnce f (pushPair token acc a b) := by
  rw [pushPair_eq]
  by_cases hseen : pairKey a b ∈ acc.seen
  · rw [if_pos hseen]
    exact h
  rw [if_neg hseen]
  refine ⟨fun pair hpair => ?_, fun c d => ?_⟩
  · rcases List.mem_append.mp hpair with hold | hnew
    · exact h.sound pair hold
    · rw [List.mem_singleton.mp hnew]
      exact ⟨pairKey_lt hne, htoken, trades_pairKey ha hb⟩
  · have hold := h.once c d
    unfold timesListed at hold ⊢
    rw [List.countP_append, hold, List.countP_singleton]
    dsimp only
    by_cases hkey : (c, d) = pairKey a b
    · have hnot : (c, d) ∉ acc.seen := by rw [hkey]; exact hseen
      simp [← hkey, hnot]
    · have hother : ¬((pairKey a b).1 = c ∧ (pairKey a b).2 = d) := by
        rintro ⟨hc, hd⟩
        exact hkey (Prod.ext hc.symm hd.symm)
      simp [hkey, hother]

theorem PairsOnce.bucketPairs (h : PairsOnce f acc) (htoken : token ≠ 0)
    (hl : ∀ a ∈ l, token ∈ f a) (hnodup : l.Nodup) :
    PairsOnce f (bucketPairs token l acc) := by
  induction l generalizing acc with
  | nil => exact h
  | cons a l ih =>
    rw [List.nodup_cons] at hnodup
    obtain ⟨hnot, hnodup⟩ := hnodup
    have ha := hl a (List.mem_cons_self ..)
    have hrest : ∀ b ∈ l, token ∈ f b ∧ a ≠ b := fun b hb =>
      ⟨hl b (List.mem_cons_of_mem _ hb), fun heq => hnot (heq ▸ hb)⟩
    refine ih ?_ (fun b hb => (hrest b hb).1) hnodup
    clear ih hl hnot hnodup
    induction l generalizing acc with
    | nil => exact h
    | cons b l ih =>
      obtain ⟨hb, hne⟩ := hrest b (List.mem_cons_self ..)
      exact ih (h.pushPair htoken ha hb hne) fun c hc => hrest c (List.mem_cons_of_mem _ hc)

/-! ## The computed list -/

/-- Under every token the index lists the pools that trade it, each once. -/
def IndexOnce (pm : PoolManager) : Prop :=
  ∀ token ≠ 0, ∀ addr, listed pm.tokenIndex token addr =
    if token ∈ tradedBy pm.pools addr then 1 else 0

theorem mem_bucket_iff (hunlimited : Unlimited pm) :
    a ∈ pm.bucket token ↔ a ∈ pm.tokenIndex[token]?.getD [] := by
  unfold bucket
  dsimp only
  rw [if_pos (hunlimited token), List.take_length, List.mem_insertionSort]

theorem bucket_nodup (hindex : IndexOnce pm) (htoken : token ≠ 0) : (pm.bucket token).Nodup := by
  have hlist : (pm.tokenIndex[token]?.getD []).Nodup := by
    rw [List.nodup_iff_count_le_one]
    intro addr
    have := hindex token htoken addr
    unfold listed at this
    rw [this]
    split_ifs <;> omega
  unfold bucket
  exact ((List.perm_insertionSort _ _).nodup_iff.mpr hlist).sublist (List.take_sublist _ _)

theorem mem_index_iff (hindex : IndexOnce pm) (htoken : token ≠ 0) :
    a ∈ pm.tokenIndex[token]?.getD [] ↔ token ∈ tradedBy pm.pools a := by
  rw [← List.count_pos_iff]
  change 0 < listed pm.tokenIndex token a ↔ _
  rw [hindex token htoken a]
  split_ifs with h <;> simp [h]

theorem pairsOnce_foldl (tokens : List Address) (h : PairsOnce f acc)
    (htokens : ∀ token ∈ tokens, token ≠ 0 ∧ (pm.bucket token).Nodup ∧
      ∀ a ∈ pm.bucket token, token ∈ f a) :
    PairsOnce f
      (tokens.foldl (fun acc token => bucketPairs token (pm.bucket token) acc) acc) := by
  induction tokens generalizing acc with
  | nil => exact h
  | cons token tokens ih =>
    obtain ⟨htoken, hnodup, hmem⟩ := htokens token (List.mem_cons_self ..)
    exact ih (h.bucketPairs htoken hmem hnodup) fun t ht => htokens t (List.mem_cons_of_mem _ ht)

theorem seen_subset_foldl (pm : PoolManager) (tokens : List Address) (acc : PairAcc) :
    acc.seen ⊆
      (tokens.foldl (fun acc token => bucketPairs token (pm.bucket token) acc) acc).seen := by
  induction tokens generalizing acc with
  | nil => exact subset_rfl
  | cons token tokens ih => exact (seen_subset_bucketPairs token _ acc).trans (ih _)

theorem pairKey_mem_foldl (tokens : List Address) (acc : PairAcc) (htoken : token ∈ tokens)
    (ha : a ∈ pm.bucket token) (hb : b ∈ pm.bucket token) (hne : a ≠ b) : pairKey a b ∈
      (tokens.foldl (fun acc token => bucketPairs token (pm.bucket token) acc) acc).seen := by
  induction tokens generalizing acc with
  | nil => exact absurd htoken List.not_mem_nil
  | cons t tokens ih =>
    rcases List.mem_cons.mp htoken with rfl | htoken
    · exact seen_subset_foldl pm tokens _ (pairKey_mem_bucketPairs token acc ha hb hne)
    · exact ih _ htoken

/-- **Each pair of pools that share a token is computed once**, and nothing else. -/
theorem lists_computePairs (hindex : IndexOnce pm) (hzero : pm.tokenIndex[(0 : Address)]? = none)
    (hunlimited : Unlimited pm) : Lists pm.pools pm.computePairs := by
  have hkey {token : Address} : token ∈ pm.tokenIndex.keys ↔ token ∈ pm.tokenIndex :=
    Std.ExtTreeMap.mem_keys
  have honce : PairsOnce (tradedBy pm.pools) (pm.tokenIndex.keys.foldl
      (fun acc token => bucketPairs token (pm.bucket token) acc) {}) := by
    refine pairsOnce_foldl _ ⟨nofun, fun a b => by simp [timesListed]⟩ fun token htoken => ?_
    have hne : token ≠ 0 := by
      rintro rfl
      rw [hkey, Std.ExtTreeMap.mem_iff_isSome_getElem?, hzero] at htoken
      cases htoken
    refine ⟨hne, bucket_nodup hindex hne, fun a ha => ?_⟩
    rw [mem_bucket_iff hunlimited] at ha
    exact (mem_index_iff hindex hne).mp ha
  refine ⟨honce.sound, fun a b hlt => ?_⟩
  rintro ⟨token, hne, ha, hb⟩
  rw [← mem_index_iff hindex hne] at ha hb
  have htoken : token ∈ pm.tokenIndex.keys := by
    rw [hkey, Std.ExtTreeMap.mem_iff_isSome_getElem?]
    cases hget : pm.tokenIndex[token]? with
    | none => simp [hget] at ha
    | some pools => rfl
  rw [← mem_bucket_iff hunlimited] at ha hb
  have hseen := pairKey_mem_foldl pm.tokenIndex.keys {} htoken ha hb (by rintro rfl; bv_omega)
  have hcount := honce.once a b
  rw [show (a, b) = pairKey a b from (if_pos hlt).symm, if_pos hseen] at hcount
  exact hcount

/-! ## Runs -/

/-- Model of `set_max_pairs_per_token` (`manager.rs`, lines 231–233). -/
def PoolManager.setMaxPairsPerToken (pm : PoolManager) (max : ℕ) : PoolManager :=
  { pm with maxPairsPerToken := max }

/-- The number of pools that are paired up of the `n` of a token, where 0 is no cap. -/
def pairLimit (cap n : ℕ) : ℕ := if cap = 0 then n else min cap n

/-- What is done to the manager: additions, reads of the pairs, changes of the cap, and edits of a
    pool through `get_mut` and `pool_mut`. -/
inductive PairStep where
  | addPool (state : PoolState)
  | arbitragePairs
  | setMaxPairsPerToken (max : ℕ)
  | getMut (addr : Address) (edit : PoolState → PoolState)
  | poolMut (addr : Address) (edit : PoolState → PoolState)

/-- One step. -/
def PairStep.run (pm : PoolManager) : PairStep → PoolManager
  | .addPool state => pm.addPool state
  | .arbitragePairs => pm.arbitragePairs.2
  | .setMaxPairsPerToken max => pm.setMaxPairsPerToken max
  | .getMut addr edit => pm.getMut addr edit
  | .poolMut addr edit => pm.poolMut addr edit

/-- The manager after a list of steps, from one without pools. -/
def runPairSteps (settings : PoolManager) (l : List PairStep) : PoolManager :=
  l.foldl PairStep.run (start settings)

/-- The condition on an addition: under every token, what the index lists of the pool already
    and the two tokens that are added come to the tokens that the pool trades. -/
def AddOnce (pm : PoolManager) (state : PoolState) : Prop :=
  ∀ token ≠ 0, (if token ∈ tradedBy pm.pools state.address then 1 else 0) +
    [state.info.token0, state.info.token1].count token =
      if token ∈ tradedTokens state then 1 else 0

/-- As many pools are paired up under every token with one cap as with another. -/
def KeepsLimits (pm pm' : PoolManager) : Prop :=
  ∀ token, pairLimit (pm'.effectiveMaxPairs token) (pm.tokenIndex[token]?.getD []).length =
    pairLimit (pm.effectiveMaxPairs token) (pm.tokenIndex[token]?.getD []).length

/-- The liquidity estimates order the pools of every token the same way. -/
def KeepsOrder (pm pm' : PoolManager) : Prop :=
  ∀ token : Address, ∀ a ∈ pm.tokenIndex[token]?.getD [], ∀ b ∈ pm.tokenIndex[token]?.getD [],
    pm'.poolLiquidityEstimate b ≤ pm'.poolLiquidityEstimate a ↔
      pm.poolLiquidityEstimate b ≤ pm.poolLiquidityEstimate a

/-- The edit of the pool at `addr` keeps the tokens that it trades. -/
def KeepsTokens (pm : PoolManager) (addr : Address) (edit : PoolState → PoolState) : Prop :=
  ∀ p, pm.pools[addr]? = some p → ∀ token ≠ 0, token ∈ tradedTokens (edit p) ↔
    token ∈ tradedTokens p

/-- The condition on a step. -/
def PairStepCond (pm : PoolManager) : PairStep → Prop
  | .addPool state => AddOnce pm state
  | .arbitragePairs => True
  | .setMaxPairsPerToken max =>
    pm.pairsCache = none ∨ KeepsLimits pm (pm.setMaxPairsPerToken max)
  | .getMut addr edit =>
    KeepsTokens pm addr edit ∧ (pm.pairsCache = none ∨ KeepsOrder pm (pm.getMut addr edit))
  | .poolMut addr edit =>
    KeepsTokens pm addr edit ∧ (pm.pairsCache = none ∨ KeepsOrder pm (pm.poolMut addr edit))

/-- The invariant of a run. -/
structure PairsKept (pm : PoolManager) : Prop where
  index : IndexOnce pm
  zero : pm.tokenIndex[(0 : Address)]? = none
  cached : ∀ pairs, pm.pairsCache = some pairs → pairs = pm.computePairs

theorem PairsKept.pairsRight (h : PairsKept pm) : PairsRight pm := by
  refine ⟨fun hunlimited => ?_, h.cached⟩
  have hpairs : pm.arbitragePairs.1 = pm.computePairs := by
    unfold arbitragePairs
    cases hcache : pm.pairsCache with
    | none => rfl
    | some pairs => exact h.cached pairs hcache
  rw [hpairs]
  exact lists_computePairs h.index h.zero hunlimited

/-- An addition keeps the index listing each pool once under its condition, and only then. -/
theorem indexOnce_addPool_iff (h : IndexOnce pm) (state : PoolState) :
    IndexOnce (pm.addPool state) ↔ AddOnce pm state := by
  have hlisted : ∀ token ≠ 0, ∀ addr, listed (pm.addPool state).tokenIndex token addr =
      (if token ∈ tradedBy pm.pools addr then 1 else 0) +
        if state.address = addr then [state.info.token0, state.info.token1].count token else 0 := by
    intro token ht addr
    rw [addPool_tokenIndex, listed_pushTokens _ _ _ ht, h token ht addr]
  have htraded (addr : Address) : tradedBy (pm.addPool state).pools addr =
      if state.address = addr then tradedTokens state else tradedBy pm.pools addr := by
    unfold tradedBy
    rw [addPool_pools, Map.getElem?_insert_eq]
    split_ifs <;> rfl
  constructor
  · intro hadd token ht
    have := hadd token ht state.address
    rwa [hlisted token ht, if_pos rfl, htraded, if_pos rfl] at this
  · intro hcond token ht addr
    rw [hlisted token ht, htraded]
    by_cases haddr : state.address = addr
    · rw [if_pos haddr, if_pos haddr, ← haddr]
      exact hcond token ht
    · rw [if_neg haddr, if_neg haddr, add_zero]

/-- The pools that are paired up under a token are settled by the index, the limits and the order
    of the estimates. -/
theorem bucket_congr {pm' : PoolManager} (hindex : pm'.tokenIndex = pm.tokenIndex)
    (hlimits : KeepsLimits pm pm') (horder : KeepsOrder pm pm') (token : Address) :
    pm'.bucket token = pm.bucket token := by
  have hbucket (pm : PoolManager) : pm.bucket token =
      ((pm.tokenIndex[token]?.getD []).insertionSort fun a b =>
        pm.poolLiquidityEstimate b ≤ pm.poolLiquidityEstimate a).take
          (pairLimit (pm.effectiveMaxPairs token) (pm.tokenIndex[token]?.getD []).length) := by
    unfold bucket pairLimit
    simp only [List.length_insertionSort]
  have hsort := List.map_insertionSort
    (fun a b => pm'.poolLiquidityEstimate b ≤ pm'.poolLiquidityEstimate a)
    (fun a b => pm.poolLiquidityEstimate b ≤ pm.poolLiquidityEstimate a) id
    (pm.tokenIndex[token]?.getD []) (horder token)
  rw [List.map_id, List.map_id] at hsort
  rw [hbucket pm', hbucket pm, hindex, hsort, hlimits token]

/-- What is cached stays right when the index and the cache stay and either nothing is cached or
    the same pools are paired up. -/
theorem cached_congr (pm pm' : PoolManager) (hindex : pm'.tokenIndex = pm.tokenIndex)
    (hcache : pm'.pairsCache = pm.pairsCache)
    (h : pm.pairsCache = none ∨ KeepsLimits pm pm' ∧ KeepsOrder pm pm')
    (hkept : ∀ pairs, pm.pairsCache = some pairs → pairs = pm.computePairs) :
    ∀ pairs, pm'.pairsCache = some pairs → pairs = pm'.computePairs := by
  intro pairs hpairs
  rw [hcache] at hpairs
  rcases h with hnone | ⟨hlimits, horder⟩
  · rw [hnone] at hpairs
    cases hpairs
  · have hcompute : pm'.computePairs = pm.computePairs := by
      unfold computePairs
      rw [hindex]
      simp only [bucket_congr hindex hlimits horder]
    rw [hcompute]
    exact hkept pairs hpairs

/-- An edit that keeps the tokens keeps the index right. -/
theorem indexOnce_modify {pm' : PoolManager} {addr : Address} {edit : PoolState → PoolState}
    (h : IndexOnce pm) (hindex : pm'.tokenIndex = pm.tokenIndex)
    (hpools : pm'.pools = pm.pools.modify addr edit) (hkeeps : KeepsTokens pm addr edit) :
    IndexOnce pm' := by
  intro token ht a
  have htraded : token ∈ tradedBy pm'.pools a ↔ token ∈ tradedBy pm.pools a := by
    unfold tradedBy
    rw [hpools, Map.getElem?_modify_eq]
    by_cases ha : addr = a
    · subst ha
      rw [if_pos rfl]
      cases hget : pm.pools[addr]? with
      | none => rfl
      | some p => exact hkeeps p hget token ht
    · rw [if_neg ha]
  rw [hindex, h token ht a]
  simp only [htraded]

/-- A step that meets its condition keeps the invariant. -/
theorem PairsKept.step (h : PairsKept pm) (step : PairStep) (hcond : PairStepCond pm step) :
    PairsKept (step.run pm) := by
  cases step with
  | addPool state =>
    refine ⟨(indexOnce_addPool_iff h.index state).mpr hcond, ?_, nofun⟩
    show (pm.addPool state).tokenIndex[(0 : Address)]? = none
    rw [addPool_tokenIndex]
    exact pushToken_zero (pushToken_zero h.zero _ _) _ _
  | arbitragePairs =>
    show PairsKept pm.arbitragePairs.2
    unfold arbitragePairs
    cases hcache : pm.pairsCache with
    | some pairs => exact h
    | none => exact ⟨h.index, h.zero, fun pairs hpairs => (Option.some.inj hpairs).symm⟩
  | setMaxPairsPerToken max =>
    refine ⟨h.index, h.zero, cached_congr pm _ rfl rfl (hcond.imp_right fun hlimits => ?_) h.cached⟩
    exact ⟨hlimits, fun _ _ _ _ _ => Iff.rfl⟩
  | getMut addr edit =>
    obtain ⟨htokens, hcond⟩ := hcond
    refine ⟨indexOnce_modify h.index rfl rfl htokens, h.zero,
      cached_congr pm _ rfl rfl (hcond.imp_right fun horder => ?_) h.cached⟩
    exact ⟨fun _ => rfl, horder⟩
  | poolMut addr edit =>
    obtain ⟨htokens, hcond⟩ := hcond
    obtain ⟨log, hlog⟩ := pm.poolMut_eq addr edit
    have hindex := pm.poolMut_tokenIndex addr edit
    have hcache : (pm.poolMut addr edit).pairsCache = pm.pairsCache := by rw [hlog]
    have hlimits : KeepsLimits pm (pm.poolMut addr edit) := by
      rw [hlog]
      exact fun _ => rfl
    refine ⟨indexOnce_modify h.index hindex (pm.poolMut_pools addr edit) htokens, ?_,
      cached_congr pm _ hindex hcache (hcond.imp_right fun horder => ⟨hlimits, horder⟩) h.cached⟩
    show (pm.poolMut addr edit).tokenIndex[(0 : Address)]? = none
    rw [hindex]
    exact h.zero

theorem pairsKept_start (settings : PoolManager) : PairsKept (start settings) := by
  refine ⟨fun token _ addr => ?_, ?_, nofun⟩
  · simp [start, listed, tradedBy]
  · simp [start]

/-- A V2 pool of the tokens 1 and `token1`. -/
def pairedPool (address token1 : Address) (reserve : ℕ) : PoolState :=
  .uniswapV2
    { info := { address := address, token0 := 1, token1 := token1 }
      reserve0 := reserve
      reserve1 := reserve }

/-- A manager without a cap. -/
def uncapped : PoolManager := { maxPairsPerToken := 0 }

theorem addOnce_pairedPool (address : Address) (reserve : ℕ) :
    PairStepCond (start uncapped) (.addPool (pairedPool address 2 reserve)) := by
  intro token _
  have hnone : tradedBy (start uncapped).pools (pairedPool address 2 reserve).address = [] := by
    simp [start, tradedBy]
  rw [hnone]
  simp only [List.not_mem_nil, if_false, Nat.zero_add, tradedTokens, PoolState.tokens,
    PoolState.info, pairedPool, List.count_cons, List.count_nil, List.mem_cons, or_false]
  by_cases h₁ : token = 1#160
  · subst h₁
    decide
  · by_cases h₂ : token = 2#160
    · subst h₂
      decide
    · simp [h₁, h₂, Ne.symm h₁, Ne.symm h₂]

/-- Two pools whose pair is cached before the cap falls to one pool for each token. -/
def cappedRun : List PairStep :=
  [.addPool (pairedPool 11 2 5), .addPool (pairedPool 12 3 7), .arbitragePairs,
    .setMaxPairsPerToken 1]

end MevScout.Pool
