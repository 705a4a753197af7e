import MevScout.Pool.Factory.Fetch

/-!
# What the fetchers read from standard encodings

The fetchers keep the low limb of each word, so an encoded number is read back exactly
when it is below `2 ^ 64`. `fetch_balancer_state` takes the arrays of `getPoolTokens` one
word too far, the tokens at `32 + offset` and the balances at `96 + offset`, so that it
never reads the encoded lists.

Results:
* `readArray_encodeArray`: an encoded array is read entry by entry modulo `2 ^ 64`;
* `decodePoolTokens_length`: the balances that `fetch_balancer_state` reads are fewer than
  the encoded ones;
* `fetched_values_exact_iff`: which encoded values the fetchers read back.
-/

namespace MevScout.Pool.Factory

/-- The standard encoding of one dynamic array of numbers. -/
def encodeArray (xs : List ℕ) : List UInt8 := encodeWords (32 :: xs.length :: xs)

/-- The words of the standard encoding of `(address[], uint256[], uint256)`. -/
def poolTokensWords (tokens : List Address) (balances : List ℕ) (lastChangeBlock : ℕ) : List ℕ :=
  [96, 128 + 32 * tokens.length, lastChangeBlock, tokens.length] ++ tokens.map BitVec.toNat ++
    balances.length :: balances

/-- The standard encoding of the return value of `getPoolTokens`. -/
def encodePoolTokens (tokens : List Address) (balances : List ℕ) (lastChangeBlock : ℕ) :
    List UInt8 :=
  encodeWords (poolTokensWords tokens balances lastChangeBlock)

/-! ## Reading one word -/

theorem limb0_of_mod (n : ℕ) : limb0 (n % 2 ^ 256) = limb0 n :=
  Nat.mod_mod_of_dvd _ (pow_dvd_pow 2 (by norm_num))

theorem limb0_eq {n : ℕ} (h : n < 2 ^ 64) : limb0 n = n := Nat.mod_eq_of_lt h

theorem limb0_eq_iff {n : ℕ} : limb0 n = n ↔ n < 2 ^ 64 := by
  unfold limb0; omega

theorem map_limb0_eq_iff {xs : List ℕ} : xs.map limb0 = xs ↔ ∀ x ∈ xs, x < 2 ^ 64 := by
  rw [List.map_eq_iff]
  constructor
  · intro h x hx
    obtain ⟨i, hi, rfl⟩ := List.getElem_of_mem hx
    have := h i
    rw [List.getElem?_eq_getElem hi] at this
    exact limb0_eq_iff.mp (by simpa using this.symm)
  · intro h i
    rcases lt_or_ge i xs.length with hi | hi
    · rw [List.getElem?_eq_getElem hi]
      exact congrArg some (limb0_eq (h _ (List.getElem_mem hi))).symm
    · rw [List.getElem?_eq_none hi]; rfl

theorem readWord_encodeWords {ws : List ℕ} {i : ℕ} (hi : i < ws.length) :
    readWord (encodeWords ws) (32 * i) = .ok (ws[i] % 2 ^ 256) := by
  rw [readWord, if_neg (by rw [length_encodeWords]; omega), beVal_slice_encodeWords hi]

/-- The low limb of the word at byte `32 * i`. -/
theorem limb0_readWord_encodeWords {ws : List ℕ} {i : ℕ} (hi : i < ws.length) :
    limb0 <$> readWord (encodeWords ws) (32 * i) = .ok (limb0 ws[i]) := by
  rw [readWord_encodeWords hi]
  exact congrArg Except.ok (limb0_of_mod _)

theorem readWord_error {ws : List ℕ} {i : ℕ} (hi : ws.length ≤ i) :
    readWord (encodeWords ws) (32 * i) = .error .slice := by
  rw [readWord, if_pos (by rw [length_encodeWords]; omega)]

theorem beVal_first_encodeWords (w : ℕ) (ws : List ℕ) :
    beVal (slice (encodeWords (w :: ws)) 0 32) = w % 2 ^ 256 := by
  have h : beVal (slice (encodeWords (w :: ws)) (32 * 0) (32 * 0 + 32)) = w % 2 ^ 256 :=
    beVal_slice_encodeWords (by simp)
  exact h

theorem firstLimb_encodeWords (w : ℕ) (ws : List ℕ) :
    firstLimb (encodeWords (w :: ws)) = limb0 w := by
  rw [firstLimb, beVal_first_encodeWords, limb0_of_mod]

theorem secondLimb_encodeWords (w₀ w₁ : ℕ) (ws : List ℕ) :
    limb0 (beVal (slice (encodeWords (w₀ :: w₁ :: ws)) 32 64)) = limb0 w₁ := by
  have h : beVal (slice (encodeWords (w₀ :: w₁ :: ws)) (32 * 1) (32 * 1 + 32)) = w₁ % 2 ^ 256 :=
    beVal_slice_encodeWords (by simp)
  rw [h, limb0_of_mod]

theorem entryOffset_eq {start i : ℕ} (h : start + 32 * i < 2 ^ 64) :
    entryOffset start i = start + 32 * i := by
  have hmul : wrappingMul 64 i 32 = i * 32 := wrappingMul_eq (by omega)
  rw [entryOffset, hmul, wrappingAdd_eq (by omega)]
  omega

/-! ## Arrays -/

/-- An encoded array that fits in memory is read entry by entry, each modulo `2 ^ 64`. -/
theorem readArray_encodeArray {xs : List ℕ} (hlen : (encodeArray xs).length < 2 ^ 63) :
    readArray (encodeArray xs) = .ok (xs.map limb0) := by
  have hbytes : (encodeArray xs).length = 64 + 32 * xs.length := by
    simp [encodeArray]; ring
  rw [hbytes] at hlen
  have hoff : firstLimb (encodeArray xs) = 32 := by
    rw [encodeArray, firstLimb_encodeWords, limb0_eq (by norm_num)]
  have hcount : limb0 <$> readWord (encodeArray xs) 32 = .ok xs.length := by
    have h : limb0 <$> readWord (encodeArray xs) (32 * 1) = .ok (limb0 xs.length) :=
      limb0_readWord_encodeWords (by simp)
    rw [← Nat.mul_one 32, h]
    exact congrArg Except.ok (limb0_eq (show xs.length < 2 ^ 64 by omega))
  have hentry : ∀ j ∈ List.range xs.length,
      (if wrappingAdd 64 (entryOffset 64 j) 32 ≤ (encodeArray xs).length then
        (some ∘ limb0) <$> readWord (encodeArray xs) (entryOffset 64 j) else .ok none) =
      .ok (some (limb0 (xs.getD j 0))) := by
    intro j hj
    have hj : j < xs.length := List.mem_range.mp hj
    have hpos : entryOffset 64 j = 32 * (j + 2) := by rw [entryOffset_eq (by omega)]; ring
    rw [hpos, wrappingAdd_eq (by omega), if_pos (by omega), encodeArray,
      readWord_encodeWords (by simp; omega)]
    simp only [List.getElem_cons_succ]
    rw [List.getD_eq_getElem _ _ hj]
    exact congrArg (Except.ok ∘ some) (limb0_of_mod _)
  have hcap : withCapacity 16 xs.length = .ok () := if_pos (by omega)
  have hloop := mapM_eq_ok hentry
  have hmap : (List.range xs.length).map (fun j => limb0 (xs.getD j 0)) = xs.map limb0 :=
    List.ext_getElem (by simp) fun i h₁ h₂ => by simp at h₁ ⊢; simp [h₁]
  have hsome : ((List.range xs.length).map fun j => some (limb0 (xs.getD j 0))).reduceOption =
      xs.map limb0 := by
    rw [← hmap, List.reduceOption, List.filterMap_map]
    exact congrFun List.filterMap_eq_map _
  unfold readArray
  simp only [hoff]
  rw [show wrappingAdd 64 32 32 = 64 from rfl, if_pos (by omega), hcount]
  simp only [bind, Except.bind, hcap, hloop, hsome, pure, Except.pure]

/-! ## `getPoolTokens` -/

theorem length_poolTokensWords (tokens : List Address) (balances : List ℕ) (block : ℕ) :
    (poolTokensWords tokens balances block).length = tokens.length + balances.length + 5 := by
  simp [poolTokensWords]; ring

/-- The balances that `fetch_balancer_state` reads are fewer than the encoded ones: it
    starts two words after the first balance, and panics at the end of the data. -/
theorem decodePoolTokens_length {tokens : List Address} {balances : List ℕ} {block c : ℕ}
    {toks : List Address} {bals : List ℕ} (hlen : balances.length = tokens.length)
    (hpos : 0 < tokens.length)
    (hmem : (encodePoolTokens tokens balances block).length < 2 ^ 63)
    (h : decodePoolTokens (encodePoolTokens tokens balances block) = .ok (toks, bals, c)) :
    bals.length < balances.length := by
  set n := tokens.length with hn
  have hwords := length_poolTokensWords tokens balances block
  rw [encodePoolTokens, length_encodeWords, hwords] at hmem
  unfold decodePoolTokens encodePoolTokens at h
  simp only [bind_eq_ok] at h
  obtain ⟨tokensOffset, -, balancesOffset, hbo, count, -, ⟨⟩, -, ⟨⟩, -, bals', hloop, hres⟩ := h
  have hoff : limb0 balancesOffset = 128 + 32 * n := by
    have hword : readWord (encodeWords (poolTokensWords tokens balances block)) (32 * 1) =
        .ok ((128 + 32 * n) % 2 ^ 256) := readWord_encodeWords (by omega)
    rw [Nat.mul_one, hbo] at hword
    rw [Except.ok.inj hword, limb0_of_mod]
    exact limb0_eq (show 128 + 32 * n < 2 ^ 64 by omega)
  rw [hoff, wrappingAdd_eq (a := 64) (by omega), wrappingAdd_eq (by omega)] at hloop
  obtain ⟨hcount, hread⟩ := ok_of_mapM_eq_ok hloop
  rw [List.length_range] at hcount
  obtain rfl : bals' = bals := by cases hres; rfl
  by_contra hge
  obtain ⟨b, hb⟩ := hread (n - 1) (List.mem_range.mpr (by omega))
  have hlast : entryOffset (64 + (128 + 32 * n) + 32) (n - 1) = 32 * (2 * n + 6) := by
    rw [entryOffset_eq (by omega)]; omega
  rw [hlast, readWord_error (by omega)] at hb
  cases hb

/-- `fetch_balancer_state` never reads the lists that `getPoolTokens` returns. -/
theorem fetchBalancerState_balances_ne {rpc : Rpc} {vault pool : Address} {poolId : B256}
    {hint : Option ℕ} {tokens : List Address} {balances : List ℕ} {block : ℕ}
    {init : BalancerInit} (hlen : balances.length = tokens.length) (hpos : 0 < tokens.length)
    (hmem : (encodePoolTokens tokens balances block).length < 2 ^ 63)
    (hcall : rpc.call vault (getPoolTokens ++ beBytes 32 poolId.toNat) =
      some (encodePoolTokens tokens balances block))
    (h : fetchBalancerState rpc vault pool poolId hint = .ok (.ok init)) :
    init.balances ≠ balances := by
  have hshort : ¬(encodePoolTokens tokens balances block).length < 96 := by
    rw [encodePoolTokens, length_encodeWords, length_poolTokensWords]; omega
  unfold fetchBalancerState at h
  rw [hcall] at h
  simp only [hshort, if_false, bind_eq_ok] at h
  obtain ⟨⟨toks, bals, c⟩, hdec, h⟩ := h
  have hlt := decodePoolTokens_length hlen hpos hmem hdec
  simp only at h
  split_ifs at h with hfew
  · cases h
  · simp only [bind_eq_ok] at h
    obtain ⟨weights, -, scalingFactors, -, h⟩ := h
    intro heq
    have : init.balances = bals := by cases h; rfl
    rw [this] at heq
    rw [heq] at hlt
    exact lt_irrefl _ hlt

/-! ## The other values -/

theorem answer_eq {rpc : Rpc} {len : ℕ} {pool : Address} {data answer : List UInt8}
    (hcall : rpc.call pool data = some answer) (hlen : len ≤ answer.length) :
    rpc.answer len pool data = some answer := by
  rw [Rpc.answer, hcall, Option.filter_some, if_pos (by simpa using hlen)]

theorem le_length_encodeArray (xs : List ℕ) : 64 ≤ (encodeArray xs).length := by
  rw [encodeArray, length_encodeWords]; simp only [List.length_cons]; omega

theorem fetchScalingFactors_eq {rpc : Rpc} {pool : Address} {xs : List ℕ}
    (hmem : (encodeArray xs).length < 2 ^ 63)
    (hcall : rpc.call pool getScalingFactors = some (encodeArray xs)) :
    fetchScalingFactors rpc pool = .ok (xs.map limb0) := by
  rw [fetchScalingFactors, answer_eq hcall (le_length_encodeArray xs)]
  exact readArray_encodeArray hmem

theorem fetchPriceScale_eq {rpc : Rpc} {pool : Address} {xs : List ℕ}
    (hmem : (encodeArray xs).length < 2 ^ 63)
    (hcall : rpc.call pool curvePriceScale = some (encodeArray xs)) :
    fetchPriceScale rpc pool = .ok (xs.map limb0) := by
  rw [fetchPriceScale, answer_eq hcall (le_length_encodeArray xs)]
  exact readArray_encodeArray hmem

theorem fetchBalance_eq {rpc : Rpc} {pool : Address} {i b : ℕ}
    (h : balanceAnswer rpc pool i = some (encodeWords [b])) :
    fetchBalance rpc pool i = some (limb0 b) := by
  rw [fetchBalance, h, Option.map_some, firstLimb_encodeWords]

/-- Entry `k` of the loop holds the balance read for index `i + k`. -/
theorem curveLoop_balance {rpc : Rpc} {pool : Address} {n i k : ℕ} {p : Address × ℕ}
    (h : (curveLoop rpc pool n i)[k]? = some p) : fetchBalance rpc pool (i + k) = some p.2 := by
  induction n generalizing i k with
  | zero => simp [curveLoop] at h
  | succ n ih =>
    unfold curveLoop at h
    split at h
    · rename_i token balance _ hbal
      cases k with
      | zero =>
        obtain rfl : (token, balance) = p := by simpa using h
        exact hbal
      | succ k =>
        rw [List.getElem?_cons_succ] at h
        rw [show i + (k + 1) = i + 1 + k by ring]
        exact ih h
    · simp at h

theorem cachedLoop_balance {rpc : Rpc} {pool : Address} {cached : List Address} {i k : ℕ}
    {p : Address × ℕ} (h : (cachedLoop rpc pool cached i)[k]? = some p) :
    fetchBalance rpc pool (i + k) = some p.2 := by
  induction cached generalizing i k with
  | nil => simp [cachedLoop] at h
  | cons token cached ih =>
    unfold cachedLoop at h
    split_ifs at h with hstop
    · simp at h
    · split at h
      · rename_i balance hbal
        cases k with
        | zero =>
          obtain rfl : (token, balance) = p := by simpa using h
          exact hbal
        | succ k =>
          rw [List.getElem?_cons_succ] at h
          rw [show i + (k + 1) = i + 1 + k by ring]
          exact ih h
      · simp at h

/-- The balances of a Curve pool are the ones read for the indices of its tokens. -/
theorem fetchCurveState_balance {rpc : Rpc} {pool : Address} {cached : Option (List Address)}
    {init : CurveInit} (h : fetchCurveState rpc pool cached = .ok (some init)) :
    init.balances.length = init.tokens.length ∧
      ∀ k b, init.balances[k]? = some b → fetchBalance rpc pool k = some b := by
  set coins := cached.elim (curveLoop rpc pool curveMaxTokens 0) fun cached =>
    cachedLoop rpc pool cached 0 with hcoins
  have hread : ∀ k p, coins[k]? = some p → fetchBalance rpc pool k = some p.2 := by
    intro k p hp
    cases cached with
    | none => simpa using curveLoop_balance hp
    | some cached => simpa using cachedLoop_balance hp
  have hinit : init.tokens = coins.map Prod.fst ∧ init.balances = coins.map Prod.snd := by
    unfold fetchCurveState at h
    rw [← hcoins] at h
    simp only at h
    split_ifs at h
    · cases h
    · rw [bind_eq_ok] at h
      obtain ⟨priceScale, -, h⟩ := h
      cases h
      exact ⟨rfl, rfl⟩
    all_goals
      cases h
      exact ⟨rfl, rfl⟩
  obtain ⟨htok, hbal⟩ := hinit
  rw [htok, hbal]
  refine ⟨by simp, fun k b hb => ?_⟩
  rw [List.getElem?_map, Option.map_eq_some_iff] at hb
  obtain ⟨p, hp, rfl⟩ := hb
  exact hread k p hp

theorem fetchCurveState_balances_eq {rpc : Rpc} {pool : Address}
    {cached : Option (List Address)} {init : CurveInit} {b : ℕ → ℕ}
    (hans : ∀ i < init.tokens.length, balanceAnswer rpc pool i = some (encodeWords [b i]))
    (h : fetchCurveState rpc pool cached = .ok (some init)) :
    init.balances = (List.range init.tokens.length).map (limb0 ∘ b) := by
  obtain ⟨hlen, hread⟩ := fetchCurveState_balance h
  refine List.ext_getElem (by simp [hlen]) fun k hk _ => ?_
  have hk' := hread k _ (List.getElem?_eq_getElem hk)
  rw [fetchBalance_eq (hans k (hlen ▸ hk))] at hk'
  simpa using (Option.some.inj hk').symm

theorem fetchLbState_reserves {rpc : Rpc} {pool : Address} {init : LBInit} {x y : ℕ}
    (hcall : rpc.call pool (lbGetBin ++ beBytes 32 init.activeId) = some (encodeWords [x, y]))
    (h : fetchLbState rpc pool = .ok (some init)) :
    init.reserveX = limb0 x ∧ init.reserveY = limb0 y := by
  unfold fetchLbState at h
  split at h
  · cases h
  · obtain ⟨activeId, -, h⟩ := bind_eq_ok.mp h
    have hinit : ∃ binStep, init = LBInit.mk activeId binStep
        ((rpc.answer 64 pool (lbGetBin ++ beBytes 32 activeId)).elim (0, 0) fun data =>
          (firstLimb data, limb0 (beVal (slice data 32 64)))).1
        ((rpc.answer 64 pool (lbGetBin ++ beBytes 32 activeId)).elim (0, 0) fun data =>
          (firstLimb data, limb0 (beVal (slice data 32 64)))).2 := by
      simp only at h
      split_ifs at h <;> obtain ⟨binStep, -, h⟩ := bind_eq_ok.mp h <;> cases h <;>
        exact ⟨binStep, rfl⟩
    obtain ⟨binStep, rfl⟩ := hinit
    rw [answer_eq hcall (by simp)]
    exact ⟨firstLimb_encodeWords .., secondLimb_encodeWords ..⟩

theorem fetchPendleState_totals {rpc : Rpc} {pool : Address} {pt sy : ℕ} {rest : List ℕ}
    (hcall : rpc.call pool (pendleReadState ++ beBytes 32 0) =
      some (encodeWords (pt :: sy :: rest))) :
    (fetchPendleState rpc pool).totalPt = limb0 pt ∧
      (fetchPendleState rpc pool).totalSy = limb0 sy := by
  unfold fetchPendleState
  rw [answer_eq hcall (by rw [length_encodeWords]; simp only [List.length_cons]; omega)]
  simp only [Option.elim]
  exact ⟨firstLimb_encodeWords .., secondLimb_encodeWords ..⟩

/-! ## Which values are read back -/

/-- **Main theorem.** The two lists of `getPoolTokens` are never read back. Scaling factors,
    Curve balances, price scales, LB reserves and Pendle totals are read back exactly when
    they are all below `2 ^ 64`. -/
theorem fetched_values_exact_iff (rpc : Rpc) (pool : Address) :
    (∀ vault poolId hint tokens balances block, 2 ≤ tokens.length →
      balances.length = tokens.length → (∀ b ∈ balances, b < 2 ^ 128) →
      (encodePoolTokens tokens balances block).length < 2 ^ 63 →
      rpc.call vault (getPoolTokens ++ beBytes 32 (BitVec.toNat poolId)) =
        some (encodePoolTokens tokens balances block) →
      ¬∃ init, fetchBalancerState rpc vault pool poolId hint = .ok (.ok init) ∧
        init.tokens = tokens ∧ init.balances = balances) ∧
    (∀ xs : List ℕ, (∀ x ∈ xs, x < 2 ^ 128) → (encodeArray xs).length < 2 ^ 63 →
      rpc.call pool getScalingFactors = some (encodeArray xs) →
      (fetchScalingFactors rpc pool = .ok xs ↔ ∀ x ∈ xs, x < 2 ^ 64)) ∧
    (∀ cached init (b : ℕ → ℕ), (∀ i < init.tokens.length, b i < 2 ^ 128) →
      (∀ i < init.tokens.length, balanceAnswer rpc pool i = some (encodeWords [b i])) →
      fetchCurveState rpc pool cached = .ok (some init) →
      (init.balances = (List.range init.tokens.length).map b ↔
        ∀ i < init.tokens.length, b i < 2 ^ 64)) ∧
    (∀ xs : List ℕ, (∀ x ∈ xs, x < 2 ^ 128) → (encodeArray xs).length < 2 ^ 63 →
      rpc.call pool curvePriceScale = some (encodeArray xs) →
      (fetchPriceScale rpc pool = .ok xs ↔ ∀ x ∈ xs, x < 2 ^ 64)) ∧
    (∀ init x y, x < 2 ^ 128 → y < 2 ^ 128 →
      rpc.call pool (lbGetBin ++ beBytes 32 init.activeId) = some (encodeWords [x, y]) →
      fetchLbState rpc pool = .ok (some init) →
      (init.reserveX = x ∧ init.reserveY = y ↔ x < 2 ^ 64 ∧ y < 2 ^ 64)) ∧
    (∀ pt sy rest, pt < 2 ^ 128 → sy < 2 ^ 128 →
      rpc.call pool (pendleReadState ++ beBytes 32 0) = some (encodeWords (pt :: sy :: rest)) →
      ((fetchPendleState rpc pool).totalPt = pt ∧ (fetchPendleState rpc pool).totalSy = sy ↔
        pt < 2 ^ 64 ∧ sy < 2 ^ 64)) := by
  refine ⟨?_, ?_, ?_, ?_, ?_, ?_⟩
  · rintro vault poolId hint tokens balances block hn hlen - hmem hcall ⟨init, h, -, hbal⟩
    exact fetchBalancerState_balances_ne hlen (by omega) hmem hcall h hbal
  · intro xs _ hmem hcall
    rw [fetchScalingFactors_eq hmem hcall, Except.ok.injEq]
    exact map_limb0_eq_iff
  · intro cached init b _ hans h
    rw [fetchCurveState_balances_eq hans h, ← List.map_map]
    exact map_limb0_eq_iff.trans List.forall_mem_map |>.trans (by simp)
  · intro xs _ hmem hcall
    rw [fetchPriceScale_eq hmem hcall, Except.ok.injEq]
    exact map_limb0_eq_iff
  · intro init x y _ _ hcall h
    obtain ⟨hx, hy⟩ := fetchLbState_reserves hcall h
    rw [hx, hy, limb0_eq_iff, limb0_eq_iff]
  · intro pt sy rest _ _ hcall
    obtain ⟨hpt, hsy⟩ := fetchPendleState_totals hcall
    rw [hpt, hsy, limb0_eq_iff, limb0_eq_iff]

/-- A node that gives one answer to every call. -/
def constRpc (answer : List UInt8) : Rpc where
  call _ _ := some answer
  callLatest _ _ := some answer

/-- A Pendle pool with 100 and 5 whole tokens: the first total is read short. -/
theorem fetched_values_exact_iff_pendle :
    ¬((fetchPendleState (constRpc (encodeWords [100 * 10 ^ 18, 5 * 10 ^ 18])) 7).totalPt =
        100 * 10 ^ 18 ∧
      (fetchPendleState (constRpc (encodeWords [100 * 10 ^ 18, 5 * 10 ^ 18])) 7).totalSy =
        5 * 10 ^ 18) := by
  have h := (fetched_values_exact_iff (constRpc (encodeWords [100 * 10 ^ 18, 5 * 10 ^ 18]))
    7).2.2.2.2.2 (100 * 10 ^ 18) (5 * 10 ^ 18) [] (by norm_num) (by norm_num) rfl
  intro heq
  exact absurd (h.mp heq).1 (by norm_num)

/-- The vault's answer for a pool of WETH and WBTC makes the fetch panic: the low limb of
    the WETH address is taken for the number of tokens. -/
theorem poolTokens_answer_panics :
    fetchBalancerState
      (constRpc (encodePoolTokens
        [0xC02aaA39b223FE8D0A0e5C4F27eAD9083C756Cc2, 0x2260FAC5E5542a773Aa44fBCfeDf7C193bc2C599]
        [10 ^ 18, 10 ^ 8] 19000000)) 1 2 3 none = .error .capacity ∧
    (fetchPendleState (constRpc (encodeWords [100 * 10 ^ 18, 5 * 10 ^ 18])) 7).totalPt =
      100 * 10 ^ 18 - 5 * 2 ^ 64 := by
  constructor
  · decide +kernel
  · rfl

end MevScout.Pool.Factory
