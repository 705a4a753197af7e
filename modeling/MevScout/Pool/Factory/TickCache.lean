import MevScout.Pool.Factory.TickWindow

/-!
# The tick bootstrap over one store

The store answers a call from the pool and the center word of its window alone, so a call
at another block gets the ticks of the first call of that window that found any.

Results:
* `fetch_answer`: one call is answered from the first call of its window that found ticks;
* `fetched_ticks_exact_iff`: when every call of a session returns the ticks of its block;
* `stale_ticks`: a call after a mint that returns the net liquidity from before it.
-/

namespace MevScout.Pool.Factory

open Memo

variable {tickSpacing : ℤ}

/-- A tick of the window of five words around `centerWord`. -/
def InWindow (tickSpacing centerWord t : ℤ) : Prop :=
  centerWord - 2 ≤ centerWordOf tickSpacing t ∧ centerWordOf tickSpacing t ≤ centerWord + 2

/-- The map holds exactly the ticks of the window whose net liquidity is not zero, each with
    its net. -/
def Exact (S : V3Ticks tickSpacing) (centerWord : ℤ) (ticks : TickMap) : Prop :=
  ∀ t n, ticks[t]? = some n ↔
    InWindow tickSpacing centerWord t ∧ n ≠ 0 ∧ ∃ i, S.info t = some i ∧ i.liquidityNet = n

/-! ## Maps of sorted entries -/

theorem getElem?_ofList_eq_some {l : List (ℤ × ℤ)} (hl : l.Pairwise (·.1 < ·.1)) {t n : ℤ} :
    (Std.ExtTreeMap.ofList l compare)[t]? = some n ↔ (t, n) ∈ l := by
  have hdistinct : l.Pairwise fun a b => ¬compare a.1 b.1 = .eq :=
    hl.imp fun hab => by simpa using ne_of_lt hab
  constructor
  · intro h
    by_cases hmem : (l.map Prod.fst).contains t = true
    · obtain ⟨⟨u, m⟩, he, rfl⟩ := List.mem_map.mp (List.contains_iff_mem.mp hmem)
      rw [Std.ExtTreeMap.getElem?_ofList_of_mem (by simp) hdistinct he] at h
      exact Option.some.inj h ▸ he
    · rw [Std.ExtTreeMap.getElem?_ofList_of_contains_eq_false (by simpa using hmem)] at h
      cases h
  · exact Std.ExtTreeMap.getElem?_ofList_of_mem (by simp) hdistinct

theorem eq_of_pairwise_fst_lt {l l' : List (ℤ × ℤ)} (hl : l.Pairwise (·.1 < ·.1))
    (hl' : l'.Pairwise (·.1 < ·.1)) (h : ∀ e, e ∈ l ↔ e ∈ l') : l = l' := by
  have hnodup : l.Nodup := hl.imp fun hab heq => absurd (congrArg Prod.fst heq) (ne_of_lt hab)
  have hnodup' : l'.Nodup := hl'.imp fun hab heq => absurd (congrArg Prod.fst heq) (ne_of_lt hab)
  have hperm : l.Perm l' := (List.perm_ext_iff_of_nodup hnodup hnodup').mpr h
  refine hperm.eq_of_pairwise (fun a b _ _ hab hba => ?_) hl hl'
  exact absurd hab (lt_asymm hba)

/-! ## The ticks of a window -/

theorem mem_windowTicks (hs : 0 < tickSpacing) {c t : ℤ} :
    t ∈ windowTicks tickSpacing c ↔ InWindow tickSpacing c t ∧ tickSpacing ∣ t := by
  unfold windowTicks InWindow centerWordOf
  rw [List.mem_flatMap]
  constructor
  · rintro ⟨o, ho, ht⟩
    obtain ⟨b, hb, rfl⟩ := mem_wordTicks.mp ht
    simp only [List.mem_cons, List.not_mem_nil, or_false] at ho
    rw [Int.mul_ediv_cancel _ (ne_of_gt hs)]
    exact ⟨by omega, dvd_mul_left _ _⟩
  · rintro ⟨hin, k, rfl⟩
    rw [Int.mul_ediv_cancel_left _ (ne_of_gt hs)] at hin
    refine ⟨k / 256 - c, by simp only [List.mem_cons, List.not_mem_nil, or_false]; omega, ?_⟩
    refine mem_wordTicks.mpr ⟨(k % 256).toNat, by omega, ?_⟩
    rw [mul_comm tickSpacing k]
    congr 1
    omega

variable {S : V3Ticks tickSpacing}

theorem mem_windowNets (hs : 0 < tickSpacing) {c t n : ℤ} :
    (t, n) ∈ windowNets S c ↔
      InWindow tickSpacing c t ∧ n ≠ 0 ∧ ∃ i, S.info t = some i ∧ i.liquidityNet = n := by
  unfold windowNets
  rw [List.mem_filterMap]
  constructor
  · rintro ⟨u, hu, he⟩
    obtain ⟨rfl, hn, i, hi, hnet⟩ := netEntry_eq_some.mp he
    exact ⟨((mem_windowTicks hs).mp hu).1, hn, i, hi, hnet⟩
  · rintro ⟨hin, hn, i, hi, hnet⟩
    exact ⟨t, (mem_windowTicks hs).mpr ⟨hin, S.aligned t i hi⟩,
      netEntry_eq_some.mpr ⟨rfl, hn, i, hi, hnet⟩⟩

theorem windowNets_pairwise (hs : 0 < tickSpacing) (c : ℤ) :
    (windowNets S c).Pairwise (·.1 < ·.1) :=
  filterMap_netEntry_pairwise (windowTicks_pairwise hs c)

/-- A map of sorted entries is exact when its entries are those of the window. -/
theorem exact_ofList_iff (hs : 0 < tickSpacing) {c : ℤ} {l : List (ℤ × ℤ)}
    (hl : l.Pairwise (·.1 < ·.1)) :
    Exact S c (Std.ExtTreeMap.ofList l compare) ↔ l = windowNets S c := by
  unfold Exact
  simp only [getElem?_ofList_eq_some hl, ← mem_windowNets hs]
  constructor
  · intro h
    exact eq_of_pairwise_fst_lt hl (windowNets_pairwise hs c) fun e => h e.1 e.2
  · rintro rfl t n
    rfl

theorem length_windowNets_le (c : ℤ) : (windowNets S c).length ≤ initializedCount S c := by
  unfold windowNets initializedCount
  rw [List.length_filterMap_eq_countP]
  refine List.countP_mono_left fun t _ h => ?_
  obtain ⟨e, he⟩ := Option.isSome_iff_exists.mp h
  obtain ⟨-, -, i, hi, -⟩ := netEntry_eq_some.mp he
  rw [hi]
  rfl

/-! ## One call -/

theorem compressTick_eq (hs : 0 < tickSpacing) (t : ℤ) :
    compressTick t tickSpacing = .ok (t / tickSpacing) := by
  unfold compressTick
  rw [if_neg (ne_of_gt hs), Int.tdiv_eq_ediv, Int.sign_eq_one_of_pos hs]
  have hdvd : t.tmod tickSpacing ≠ 0 ↔ ¬tickSpacing ∣ t := by rw [Int.dvd_iff_tmod_eq_zero]
  simp only [hdvd]
  by_cases ht : t < 0 ∧ ¬tickSpacing ∣ t
  · rw [if_pos ht, if_neg (by omega), Int.add_sub_cancel]
  · rw [if_neg ht, if_pos (by omega), Int.add_zero]

theorem centerWord_range (hs : 0 < tickSpacing) {t : ℤ} (hlo : -887272 ≤ t) (hhi : t ≤ 887272) :
    -2 ^ 15 + 2 ≤ centerWordOf tickSpacing t ∧ centerWordOf tickSpacing t + 2 < 2 ^ 15 := by
  have hlo' : -887272 ≤ t / tickSpacing := by
    rw [Int.le_ediv_iff_mul_le hs]
    nlinarith
  have hhi' : t / tickSpacing ≤ 887272 := Int.ediv_le_of_le_mul hs (by nlinarith)
  unfold centerWordOf
  omega

/-! ## A session -/

/-- The center word of the window of a call. -/
def TickCall.word (call : TickCall) (tickSpacing : ℤ) : ℤ :=
  centerWordOf tickSpacing call.currentTick

/-- The nets of the window of a call at its block. -/
def TickCall.nets (call : TickCall) (history : ℕ → V3Ticks tickSpacing) : List (ℤ × ℤ) :=
  windowNets (history call.block) (call.word tickSpacing)

/-- The first of the calls `past` of the window `c` that found ticks. -/
def firstFound (history : ℕ → V3Ticks tickSpacing) (past : List TickCall) (c : ℤ) :
    Option TickCall :=
  firstKept (TickCall.word · tickSpacing) (fun call => call.nets history ≠ []) past c

/-- The map that a call scans. -/
def TickCall.scan (call : TickCall) (history : ℕ → V3Ticks tickSpacing) : TickMap :=
  Std.ExtTreeMap.ofList ((call.nets history).take maxTicks) compare

/-- The map that a call returns after the calls `past`. -/
def sessionAnswer (history : ℕ → V3Ticks tickSpacing) (past : List TickCall) (call : TickCall) :
    TickMap :=
  answer (TickCall.word · tickSpacing) (TickCall.scan · history)
    (fun call => call.nets history ≠ []) past call

variable {history : ℕ → V3Ticks tickSpacing} {node : ℕ → Rpc} {pool : Address}

/-- The store holds, for every window, the map of the first call that found ticks. -/
def Stores (history : ℕ → V3Ticks tickSpacing) (pool : Address) (cache : TickCache)
    (past : List TickCall) : Prop :=
  ∀ c, cache[(pool, c)]? =
    ((firstFound history past c).map (TickCall.scan · history)).map (tickSpacing, ·)

theorem scan_isEmpty (call : TickCall) :
    (call.scan history).isEmpty = true ↔ call.nets history = [] := by
  rw [Std.ExtTreeMap.isEmpty_iff, TickCall.scan, Std.ExtTreeMap.ofList_eq_empty_iff,
    List.take_eq_nil_iff]
  simp [maxTicks]

theorem cachedTicks_eq {cache : TickCache} {past : List TickCall}
    (hstore : Stores history pool cache past) (c : ℤ) :
    cachedTicks (some cache) pool c tickSpacing =
      (firstFound history past c).map (TickCall.scan · history) := by
  unfold cachedTicks getV3TickCache
  rw [Option.bind_some, hstore c]
  cases h : firstFound history past c with
  | none => rfl
  | some first =>
    have hkept : first.nets history ≠ [] := by simpa using (key_of_firstKept h).2
    have hne : ¬(first.scan history).isEmpty = true := fun he => hkept ((scan_isEmpty first).mp he)
    exact if_pos ⟨rfl, hne⟩

theorem firstFound_concat (past : List TickCall) (call : TickCall) (c : ℤ) :
    firstFound history (past ++ [call]) c = (firstFound history past c).or
      (if call.word tickSpacing = c ∧ call.nets history ≠ [] then some call else none) := by
  unfold firstFound
  rw [firstKept_concat]
  simp only [decide_eq_true_eq]

theorem sessionAnswer_eq (past : List TickCall) (call : TickCall) :
    sessionAnswer history past call =
      ((firstFound history past (call.word tickSpacing)).map (TickCall.scan · history)).getD
        (call.scan history) := rfl

/-- Storing the scan of a call whose window had no entry. -/
theorem stores_put {cache : TickCache} {past : List TickCall} {call : TickCall}
    (hstore : Stores history pool cache past)
    (hnone : firstFound history past (call.word tickSpacing) = none) :
    Stores history pool (putV3TickCache cache pool (call.word tickSpacing) tickSpacing
      (call.scan history)) (past ++ [call]) := by
  intro c
  rw [firstFound_concat, putV3TickCache]
  by_cases hempty : call.nets history = []
  · rw [if_pos ((scan_isEmpty call).mpr hempty), if_neg (fun h => h.2 hempty), Option.or_none]
    exact hstore c
  · rw [if_neg fun h => hempty ((scan_isEmpty call).mp h), Std.ExtHashMap.getElem?_insert]
    by_cases hc : call.word tickSpacing = c
    · subst hc
      simp [hnone, hempty]
    · simp [hc, hstore c]

theorem stores_hit {cache : TickCache} {past : List TickCall} {call first : TickCall}
    (hstore : Stores history pool cache past)
    (hfirst : firstFound history past (call.word tickSpacing) = some first) :
    Stores history pool cache (past ++ [call]) := by
  intro c
  rw [firstFound_concat, hstore c]
  by_cases hc : call.word tickSpacing = c
  · subst hc
    rw [hfirst, Option.some_or]
  · rw [if_neg fun h => hc h.1, Option.or_none]

/-- One call is answered from the first call of its window that found ticks, and by its own
    scan if there is none. -/
theorem fetch_answer (hs : 0 < tickSpacing) (hnode : ∀ b, Answers (node b) pool (history b))
    {cache : TickCache} {past : List TickCall} (hstore : Stores history pool cache past)
    {call : TickCall} (hlo : -887272 ≤ call.currentTick) (hhi : call.currentTick ≤ 887272) :
    ∃ cache', fetchV3InitializedTicks (node call.block) pool call.currentTick tickSpacing
        (some cache) = .ok (sessionAnswer history past call, some cache') ∧
      Stores history pool cache' (past ++ [call]) := by
  have hword : (call.currentTick / tickSpacing) >>> (8 : ℕ) = call.word tickSpacing := by
    rw [Int.shiftRight_eq_div_pow]; rfl
  have hscan : scanTicks (node call.block) pool (call.word tickSpacing) tickSpacing =
      call.scan history := by
    obtain ⟨hclo, hchi⟩ := centerWord_range hs hlo hhi
    exact scanTicks_eq (hnode call.block) hs hclo hchi
  unfold fetchV3InitializedTicks
  rw [compressTick_eq hs]
  simp only [bind, Except.bind, hword, cachedTicks_eq hstore, hscan]
  rw [sessionAnswer_eq]
  cases h : firstFound history past (call.word tickSpacing) with
  | none => exact ⟨_, rfl, stores_put hstore h⟩
  | some first => exact ⟨_, rfl, stores_hit hstore h⟩

/-- A session answers every call from the calls before it. -/
theorem fetchAll_eq (hs : 0 < tickSpacing) (hnode : ∀ b, Answers (node b) pool (history b))
    {calls : List TickCall}
    (htick : ∀ call ∈ calls, -887272 ≤ call.currentTick ∧ call.currentTick ≤ 887272)
    {cache : TickCache} {past : List TickCall} (hstore : Stores history pool cache past) :
    ∃ results, fetchAll node pool tickSpacing calls (some cache) = .ok results ∧
      results.length = calls.length ∧
      ∀ j (hj : j < calls.length),
        results[j]? = some (sessionAnswer history (past ++ calls.take j) calls[j]) := by
  induction calls generalizing cache past with
  | nil => exact ⟨[], rfl, rfl, by simp⟩
  | cons call calls ih =>
    obtain ⟨hlo, hhi⟩ := htick call (List.mem_cons_self ..)
    obtain ⟨cache', hfetch, hstore'⟩ := fetch_answer hs hnode hstore hlo hhi
    obtain ⟨rest, hrest, hlen, hget⟩ :=
      ih (fun c hc => htick c (List.mem_cons_of_mem _ hc)) hstore'
    refine ⟨sessionAnswer history past call :: rest, ?_, by simp [hlen], ?_⟩
    · rw [fetchAll, hfetch]
      simp only [bind, Except.bind, hrest]
      rfl
    · intro j hj
      cases j with
      | zero => simp
      | succ j =>
        have h := hget j (by simpa using hj)
        simpa using h

/-- **Main theorem.** In a session over one store that starts empty, a call whose window
    holds at most `maxTicks` initialized ticks returns exactly the ticks of its window at its
    block, if and only if the first earlier call of that window that found ticks, if there is
    one, found those. -/
theorem fetched_ticks_exact_iff (hs : 0 < tickSpacing)
    (hnode : ∀ b, Answers (node b) pool (history b)) {calls : List TickCall}
    (htick : ∀ call ∈ calls, -887272 ≤ call.currentTick ∧ call.currentTick ≤ 887272) :
    ∃ results, fetchAll node pool tickSpacing calls (some ∅) = .ok results ∧
      results.length = calls.length ∧
      ∀ j (hj : j < calls.length) ticks, results[j]? = some ticks →
        initializedCount (history calls[j].block) (calls[j].word tickSpacing) ≤ maxTicks →
        (Exact (history calls[j].block) (calls[j].word tickSpacing) ticks ↔
          ∀ first, firstFound history (calls.take j) (calls[j].word tickSpacing) = some first →
            (first.nets history).take maxTicks = calls[j].nets history) := by
  have hempty : Stores history pool (∅ : TickCache) [] := fun c => by simp [firstFound, firstKept]
  obtain ⟨results, hrun, hlen, hget⟩ := fetchAll_eq hs hnode htick hempty
  refine ⟨results, hrun, hlen, fun j hj ticks hticks hcount => ?_⟩
  obtain rfl : sessionAnswer history (calls.take j) calls[j] = ticks := by
    simpa [hget j hj] using hticks
  have hsorted : ∀ call : TickCall, (call.nets history).Pairwise (·.1 < ·.1) :=
    fun call => windowNets_pairwise hs _
  rw [sessionAnswer_eq]
  cases h : firstFound history (calls.take j) (calls[j].word tickSpacing) with
  | none =>
    have hall : (calls[j].nets history).take maxTicks = calls[j].nets history :=
      List.take_of_length_le ((length_windowNets_le _).trans hcount)
    refine iff_of_true ?_ nofun
    rw [Option.map_none, Option.getD_none, TickCall.scan, hall]
    exact (exact_ofList_iff hs (hsorted _)).mpr rfl
  | some first =>
    have hexact := exact_ofList_iff (S := history calls[j].block) hs
      (c := calls[j].word tickSpacing) ((hsorted first).sublist (List.take_sublist maxTicks _))
    refine hexact.trans ⟨fun heq first' hfirst' => ?_, fun hall => hall first rfl⟩
    rw [← Option.some.inj hfirst']
    exact heq

/-! ## A mint between two calls -/

/-- A node that holds the state `S` of one pool. -/
def nodeOf (S : V3Ticks tickSpacing) : Rpc where
  call _ data :=
    let arg := asSigned 256 (beVal (data.drop 4))
    if data.take 4 = v3TickBitmap then some (encodeWords [bitmapWord S arg])
    else if data.take 4 = v3Ticks then some (encodeWords (tickWords (S.info arg)))
    else none
  callLatest _ _ := none

theorem asSigned_arg {x : ℤ} (hlo : -2 ^ 255 ≤ x) (hhi : x < 2 ^ 255) :
    asSigned 256 (beVal (beBytes 32 (asUnsigned 256 x))) = x := by
  rw [beVal_beBytes, asUnsigned_mod le_rfl]
  unfold asSigned asUnsigned
  rw [Int.toNat_of_nonneg (Int.emod_nonneg _ (by norm_num)), Int.bmod_def]
  push_cast
  split_ifs <;> omega

theorem nodeOf_answers (pool : Address) (S : V3Ticks tickSpacing) : Answers (nodeOf S) pool S where
  bitmap w hlo hhi := by
    have hsel : (v3TickBitmap ++ beBytes 32 (asUnsigned 256 w)).take 4 = v3TickBitmap :=
      List.take_left' rfl
    have hdrop : (v3TickBitmap ++ beBytes 32 (asUnsigned 256 w)).drop 4 =
        beBytes 32 (asUnsigned 256 w) := List.drop_left' rfl
    unfold nodeOf
    dsimp only
    rw [hsel, if_pos rfl, hdrop, asSigned_arg (by omega) (by omega)]
  tick t hlo hhi := by
    have hsel : (v3Ticks ++ beBytes 32 (asUnsigned 256 t)).take 4 = v3Ticks :=
      List.take_left' rfl
    have hdrop : (v3Ticks ++ beBytes 32 (asUnsigned 256 t)).drop 4 =
        beBytes 32 (asUnsigned 256 t) := List.drop_left' rfl
    unfold nodeOf
    dsimp only
    rw [hsel, if_neg (by decide), if_pos rfl, hdrop, asSigned_arg (by omega) (by omega)]

/-- The one tick of a pool, whose net liquidity a mint changes after block 1. -/
def mintTick (block : ℕ) : TickInfo := ⟨5, if block ≤ 1 then 5 else 7, 0, 0, 0, 0, 0⟩

def mintHistory (block : ℕ) : V3Ticks 60 where
  info t := if t = 0 then some (mintTick block) else none
  range t i h := by
    obtain ⟨rfl, -⟩ := Option.ite_none_right_eq_some.mp h
    omega
  aligned t i h := by
    obtain ⟨rfl, -⟩ := Option.ite_none_right_eq_some.mp h
    exact dvd_zero _
  net_range t i h := by
    obtain ⟨rfl, hi⟩ := Option.ite_none_right_eq_some.mp h
    obtain rfl := Option.some.inj hi
    dsimp only [mintTick]
    split_ifs <;> norm_num

/-- The calls of a session at blocks 1 and 2, both around tick 0. -/
def mintCalls : List TickCall := [⟨1, 0⟩, ⟨2, 0⟩]

theorem fetched_ticks_exact_iff_mint :
    ∃ results, fetchAll (nodeOf ∘ mintHistory) 7 60 mintCalls (some ∅) = .ok results ∧
      results.length = 2 ∧ ∀ ticks, results[0]? = some ticks → Exact (mintHistory 1) 0 ticks := by
  obtain ⟨results, hrun, hlen, hget⟩ := @fetched_ticks_exact_iff 60 mintHistory
    (nodeOf ∘ mintHistory) 7 (by norm_num) (fun b => nodeOf_answers 7 (mintHistory b)) mintCalls
    (by decide)
  refine ⟨results, hrun, hlen, fun ticks hticks => ?_⟩
  exact (hget 0 (by decide) ticks hticks (by decide +kernel)).mpr nofun

/-- The second call, after the mint, returns the net liquidity from before it. -/
theorem stale_ticks :
    ∃ results ticks, fetchAll (nodeOf ∘ mintHistory) 7 60 mintCalls (some ∅) = .ok results ∧
      results[1]? = some ticks ∧ initializedCount (mintHistory 2) 0 ≤ maxTicks ∧
      ticks[(0 : ℤ)]? = some 5 ∧ ¬Exact (mintHistory 2) 0 ticks := by
  have hempty : Stores mintHistory 7 (∅ : TickCache) [] := fun c => by simp [firstFound, firstKept]
  obtain ⟨results, hrun, -, hget⟩ := @fetchAll_eq 60 mintHistory (nodeOf ∘ mintHistory) 7
    (by norm_num) (fun b => nodeOf_answers 7 (mintHistory b)) mintCalls (by decide) ∅ [] hempty
  have hnets : (⟨1, 0⟩ : TickCall).nets mintHistory = [(0, 5)] := by decide +kernel
  have hfirst : firstFound mintHistory [⟨1, 0⟩] 0 = some ⟨1, 0⟩ := by
    unfold firstFound firstKept
    rw [List.find?_cons_of_pos]
    simp [hnets, TickCall.word, centerWordOf]
  have hscan : sessionAnswer mintHistory [⟨1, 0⟩] ⟨2, 0⟩ =
      Std.ExtTreeMap.ofList [(0, 5)] compare := by
    rw [sessionAnswer_eq]
    show ((firstFound mintHistory [⟨1, 0⟩] 0).map _).getD _ = _
    rw [hfirst, Option.map_some, Option.getD_some, TickCall.scan, hnets]
    rfl
  have hfive : (Std.ExtTreeMap.ofList [((0 : ℤ), (5 : ℤ))] compare)[(0 : ℤ)]? = some 5 :=
    (getElem?_ofList_eq_some (List.pairwise_singleton ..)).mpr (List.mem_singleton_self _)
  refine ⟨results, _, hrun, hget 1 (by decide), by decide +kernel, ?_, ?_⟩
  · exact hscan ▸ hfive
  · intro hexact
    obtain ⟨-, -, i, hi, hnet⟩ := (hexact 0 5).mp (hscan ▸ hfive)
    obtain rfl : mintTick 2 = i := Option.some.inj hi
    exact absurd hnet (by decide)

end MevScout.Pool.Factory
