import MevScout.Pool.Sim

/-!
# Swaps of constant-product pools

`constant_product_output_amount` computes the floor of
`dx * k * reserveOut / (reserveIn * d + dx * k)` in `u128`, with a check on every product. The
check refuses inputs whose quotient is small, but whose numerator is not: most pools of tokens
with 18 decimals.

A sequence of requests is quoted with `quote_swap_post`, and every quote is written back with
`apply_post_state`. A quote exists only where the new reserve fits, so the saturating
updates of the post-state never saturate.

Results:
* `constantProductOutputAmount_eq_floor_iff`: when the quotient is the output;
* `deep_reserves_refused`: a pool with a million tokens on each side that has no quote;
* `requestSwaps_never_gain`: over any sequence of requests, the product of the reserves does not
  fall and no trader gains.
-/

namespace MevScout.Pool

open Math

variable {amountIn reserveIn reserveOut out : ℕ} {fee : FeeTier}

/-! ## The output over the natural numbers -/

/-- The output of a constant product after the fee, rounded down. -/
def outputFloor (amountIn reserveIn reserveOut : ℕ) (fee : FeeTier) : ℕ :=
  amountIn * fee.keptFraction.1 * reserveOut /
    (reserveIn * fee.keptFraction.2 + amountIn * fee.keptFraction.1)

theorem checkedU128_eq_some {n m : ℕ} : checkedU128 n = some m ↔ n < 2 ^ 128 ∧ n = m := by
  unfold checkedU128
  split_ifs with h
  · rw [Option.some.injEq]
    exact ⟨fun hm => ⟨h, hm⟩, fun hm => hm.2⟩
  · exact ⟨nofun, fun hm => absurd hm.1 h⟩

theorem keptFraction_le (fee : FeeTier) : fee.keptFraction.1 ≤ fee.keptFraction.2 :=
  Nat.sub_le _ _

theorem keptFraction_den_pos (fee : FeeTier) : 0 < fee.keptFraction.2 := by
  cases fee <;> exact Nat.succ_pos _

/-- The output is the quotient, where it is not zero and no intermediate value leaves `u128`. -/
theorem constantProductOutputAmount_eq_some_iff :
    constantProductOutputAmount amountIn reserveIn reserveOut fee = some out ↔
      (amountIn ≠ 0 ∧ reserveIn ≠ 0 ∧ reserveOut ≠ 0) ∧
        amountIn * fee.keptFraction.1 * reserveOut < 2 ^ 128 ∧
        reserveIn * fee.keptFraction.2 + amountIn * fee.keptFraction.1 < 2 ^ 128 ∧
        outputFloor amountIn reserveIn reserveOut fee = out ∧ out ≠ 0 := by
  unfold constantProductOutputAmount outputFloor
  generalize fee.keptFraction = kept
  obtain ⟨k, d⟩ := kept
  split_ifs with h₀
  · simp only [false_iff]
    rintro ⟨⟨ha, hi, ho⟩, -⟩
    exact h₀.elim ha fun h => h.elim hi ho
  · obtain ⟨ha, hi, ho⟩ : amountIn ≠ 0 ∧ reserveIn ≠ 0 ∧ reserveOut ≠ 0 := by omega
    simp only [Option.bind_eq_bind, Option.bind_eq_some_iff, checkedU128_eq_some]
    constructor
    · rintro ⟨a, ⟨-, rfl⟩, n, ⟨hn, rfl⟩, s, ⟨-, rfl⟩, e, ⟨he, rfl⟩, hout⟩
      split_ifs at hout with hzero
      obtain rfl := Option.some.inj hout
      exact ⟨⟨ha, hi, ho⟩, hn, he, rfl, hzero⟩
    · rintro ⟨-, hn, he, rfl, hzero⟩
      have hpos : 0 < reserveOut := by omega
      have hfee : amountIn * k < 2 ^ 128 := lt_of_le_of_lt (Nat.le_mul_of_pos_right _ hpos) hn
      exact ⟨_, ⟨hfee, rfl⟩, _, ⟨hn, rfl⟩, _, ⟨by omega, rfl⟩, _, ⟨he, rfl⟩, if_neg hzero⟩

/-- The arguments of a quote that should exist: a `u128` input, reserves that a V2 pair can
    hold, and an output that does not round to zero. -/
structure Quotable (amountIn reserveIn reserveOut : ℕ) (fee : FeeTier) : Prop where
  amountIn_pos : 0 < amountIn
  amountIn_lt : amountIn < 2 ^ 128
  reserveIn_pos : 0 < reserveIn
  reserveIn_lt : reserveIn < 2 ^ 112
  reserveOut_pos : 0 < reserveOut
  reserveOut_lt : reserveOut < 2 ^ 112
  output : outputFloor amountIn reserveIn reserveOut fee ≠ 0

/-- **Main theorem.** The output is the quotient exactly when the numerator and the denominator
    are below `2 ^ 128`. -/
theorem constantProductOutputAmount_eq_floor_iff
    (h : Quotable amountIn reserveIn reserveOut fee) :
    constantProductOutputAmount amountIn reserveIn reserveOut fee =
        some (outputFloor amountIn reserveIn reserveOut fee) ↔
      amountIn * fee.keptFraction.1 * reserveOut < 2 ^ 128 ∧
        reserveIn * fee.keptFraction.2 + amountIn * fee.keptFraction.1 < 2 ^ 128 := by
  rw [constantProductOutputAmount_eq_some_iff]
  have ha := h.amountIn_pos
  have hi := h.reserveIn_pos
  have ho := h.reserveOut_pos
  constructor
  · rintro ⟨-, hn, he, -⟩
    exact ⟨hn, he⟩
  · rintro ⟨hn, he⟩
    exact ⟨⟨by omega, by omega, by omega⟩, hn, he, rfl, h.output⟩

/-- A quote for 1000 units of a pool with 10 ^ 9 units on each side. -/
theorem constantProductOutputAmount_shallow :
    constantProductOutputAmount 1000 (10 ^ 9) (10 ^ 9) (.bps 30) = some 996 :=
  (constantProductOutputAmount_eq_floor_iff
    ⟨by decide, by decide, by decide, by decide, by decide, by decide, by decide⟩).mpr
      ⟨by decide, by decide⟩

/-- Ten thousand tokens of 18 decimals, in a pool with a million of each token: the output is
    about 9871 tokens, and the numerator has 167 bits. -/
theorem deep_reserves_refused :
    Quotable (10 ^ 22) (10 ^ 24) (10 ^ 24) (.bps 30) ∧
      outputFloor (10 ^ 22) (10 ^ 24) (10 ^ 24) (.bps 30) = 9871580343970612988504 ∧
      constantProductOutputAmount (10 ^ 22) (10 ^ 24) (10 ^ 24) (.bps 30) = none := by
  refine ⟨⟨?_, ?_, ?_, ?_, ?_, ?_, ?_⟩, ?_, ?_⟩ <;> decide

/-! ## One swap -/

/-- What a quote pays out is at most the share of the input in the new reserve, so the product
    of the reserves does not fall; and the new reserve fits `u128`. -/
theorem constantProductOutputAmount_spec
    (h : constantProductOutputAmount amountIn reserveIn reserveOut fee = some out) :
    out < reserveOut ∧ reserveIn + amountIn < 2 ^ 128 ∧
      reserveIn * reserveOut ≤ (reserveIn + amountIn) * (reserveOut - out) := by
  obtain ⟨⟨-, hi, ho⟩, -, hden, hout, hpos⟩ := constantProductOutputAmount_eq_some_iff.mp h
  have hkd := keptFraction_le fee
  have hd := keptFraction_den_pos fee
  unfold outputFloor at hout
  generalize fee.keptFraction.1 = k at *
  generalize fee.keptFraction.2 = d at *
  have hk : 0 < k := by
    rcases Nat.eq_zero_or_pos k with rfl | hk
    · simp at hout
      omega
    · exact hk
  have hfloor : out * (reserveIn * d + amountIn * k) ≤ amountIn * k * reserveOut := by
    rw [← hout]
    exact Nat.div_mul_le_self _ _
  have hshare : out * (reserveIn + amountIn) ≤ amountIn * reserveOut := by
    refine Nat.le_of_mul_le_mul_left ?_ hk
    calc k * (out * (reserveIn + amountIn)) = out * (reserveIn * k + amountIn * k) := by ring
      _ ≤ out * (reserveIn * d + amountIn * k) := by gcongr
      _ ≤ amountIn * k * reserveOut := hfloor
      _ = k * (amountIn * reserveOut) := by ring
  have hlt : out < reserveOut := by
    by_contra hge
    have : reserveOut * (reserveIn + amountIn) ≤ out * (reserveIn + amountIn) :=
      Nat.mul_le_mul_right _ (by omega)
    have hprod : 0 < reserveOut * reserveIn := Nat.mul_pos (by omega) (by omega)
    rw [Nat.mul_add, Nat.mul_comm reserveOut amountIn] at this
    omega
  refine ⟨hlt, ?_, ?_⟩
  · have hri : reserveIn ≤ reserveIn * d := Nat.le_mul_of_pos_right _ hd
    have hai : amountIn ≤ amountIn * k := Nat.le_mul_of_pos_right _ hk
    omega
  · rw [Nat.mul_sub, Nat.add_mul, Nat.mul_comm _ out]
    omega

/-! ## Sequences of swaps -/

/-- The arguments of one call of `quote_swap_post`. -/
structure SwapRequest where
  tokenIn : Address
  amountIn : ℕ
  tokenOut : Address
  deriving DecidableEq

/-- A pool, and what swaps have paid into its two sides and received from them. -/
structure SwapRun where
  pool : PoolState
  paid0 : ℕ := 0
  paid1 : ℕ := 0
  received0 : ℕ := 0
  received1 : ℕ := 0

/-- One swap: the quote, applied. Without a quote nothing changes. -/
def requestSwap (t : SwapRun) (r : SwapRequest) : SwapRun :=
  match quoteSwapPost t.pool r.tokenIn r.amountIn r.tokenOut with
  | none => t
  | some (amountOut, post) =>
    let pool := applyPostState t.pool post
    if t.pool.info.token0 = r.tokenIn ∧ t.pool.info.token1 = r.tokenOut then
      { t with pool, paid0 := t.paid0 + r.amountIn, received1 := t.received1 + amountOut }
    else
      { t with pool, paid1 := t.paid1 + r.amountIn, received0 := t.received0 + amountOut }

/-- A sequence of swaps on a V2 pool. -/
def requestSwaps (v2 : UniswapV2PoolState) (requests : List SwapRequest) : SwapRun :=
  requests.foldl requestSwap { pool := .uniswapV2 v2 }

/-- The product of the reserves of a V2 pool. -/
def reserveProduct : PoolState → ℕ
  | .uniswapV2 s => s.reserve0 * s.reserve1
  | _ => 0

/-- The run `t'` goes on from `t`: both hold the same V2 pool, the product of its reserves has
    not fallen, and each reserve has moved by what was paid and received. -/
structure GoesOn (t t' : SwapRun) (s s' : UniswapV2PoolState) : Prop where
  pool : t.pool = .uniswapV2 s
  pool' : t'.pool = .uniswapV2 s'
  product : s.reserve0 * s.reserve1 ≤ s'.reserve0 * s'.reserve1
  side0 : s'.reserve0 + t'.received0 + t.paid0 = s.reserve0 + t'.paid0 + t.received0
  side1 : s'.reserve1 + t'.received1 + t.paid1 = s.reserve1 + t'.paid1 + t.received1

variable {t : SwapRun} {s : UniswapV2PoolState}

theorem GoesOn.refl (hpool : t.pool = .uniswapV2 s) : GoesOn t t s s :=
  ⟨hpool, hpool, le_rfl, by omega, by omega⟩

theorem GoesOn.trans {t' t'' : SwapRun} {s' s'' : UniswapV2PoolState} (h : GoesOn t t' s s')
    (h' : GoesOn t' t'' s' s'') : GoesOn t t'' s s'' := by
  have h0 := h.side0
  have h0' := h'.side0
  have h1 := h.side1
  have h1' := h'.side1
  exact ⟨h.pool, h'.pool', h.product.trans h'.product, by omega, by omega⟩

/-- A quote of a V2 pool, in either direction. -/
theorem quoteV2Post_cases {tokenIn tokenOut : Address} {post : PoolPostState}
    (h : quoteV2Post s tokenIn amountIn tokenOut = some (out, post)) :
    ((s.info.token0 = tokenIn ∧ s.info.token1 = tokenOut) ∧
      constantProductOutputAmount amountIn s.reserve0 s.reserve1 s.info.feeTier = some out ∧
      post = .v2 (saturatingAdd 128 s.reserve0 amountIn) (s.reserve1 - out)) ∨
    (¬(s.info.token0 = tokenIn ∧ s.info.token1 = tokenOut) ∧
      constantProductOutputAmount amountIn s.reserve1 s.reserve0 s.info.feeTier = some out ∧
      post = .v2 (s.reserve0 - out) (saturatingAdd 128 s.reserve1 amountIn)) := by
  unfold quoteV2Post at h
  split_ifs at h with hdir hdir'
  · change Option.bind (constantProductOutputAmount _ s.reserve0 _ _) _ = _ at h
    obtain ⟨out', hout, hpost⟩ := Option.bind_eq_some_iff.mp h
    obtain ⟨rfl, rfl⟩ := Prod.mk.inj (Option.some.inj hpost)
    exact .inl ⟨hdir, hout, rfl⟩
  · change Option.bind (constantProductOutputAmount _ s.reserve1 _ _) _ = _ at h
    obtain ⟨out', hout, hpost⟩ := Option.bind_eq_some_iff.mp h
    obtain ⟨rfl, rfl⟩ := Prod.mk.inj (Option.some.inj hpost)
    exact .inr ⟨hdir, hout, rfl⟩
  · cases h

/-- One swap of a V2 pool goes on from the run before it. -/
theorem requestSwap_goesOn (hpool : t.pool = .uniswapV2 s) (r : SwapRequest) :
    ∃ s', GoesOn t (requestSwap t r) s s' := by
  unfold requestSwap
  rw [hpool]
  cases hquote : quoteSwapPost (.uniswapV2 s) r.tokenIn r.amountIn r.tokenOut with
  | none => exact ⟨s, GoesOn.refl hpool⟩
  | some q =>
    obtain ⟨amountOut, post⟩ := q
    unfold quoteSwapPost at hquote
    split_ifs at hquote with hzero
    dsimp only
    have hinfo : (PoolState.uniswapV2 s).info = s.info := rfl
    rcases quoteV2Post_cases hquote with ⟨hdir, hout, rfl⟩ | ⟨hdir, hout, rfl⟩
    · obtain ⟨hlt, hfit, hprod⟩ := constantProductOutputAmount_spec hout
      rw [hinfo, if_pos hdir, saturatingAdd_eq hfit]
      refine ⟨{ s with reserve0 := s.reserve0 + r.amountIn, reserve1 := s.reserve1 - amountOut },
        hpool, rfl, hprod, ?_, ?_⟩
      · show s.reserve0 + r.amountIn + t.received0 + t.paid0 = _ + (t.paid0 + r.amountIn) + _
        omega
      · show s.reserve1 - amountOut + (t.received1 + amountOut) + t.paid1 = _ + t.paid1 + _
        omega
    · obtain ⟨hlt, hfit, hprod⟩ := constantProductOutputAmount_spec hout
      rw [hinfo, if_neg hdir, saturatingAdd_eq hfit]
      refine ⟨{ s with reserve0 := s.reserve0 - amountOut, reserve1 := s.reserve1 + r.amountIn },
        hpool, rfl, ?_, ?_, ?_⟩
      · rw [Nat.mul_comm s.reserve0, Nat.mul_comm (s.reserve0 - amountOut)]
        exact hprod
      · show s.reserve0 - amountOut + (t.received0 + amountOut) + t.paid0 = _ + t.paid0 + _
        omega
      · show s.reserve1 + r.amountIn + t.received1 + t.paid1 = _ + (t.paid1 + r.amountIn) + _
        omega

theorem foldl_goesOn (hpool : t.pool = .uniswapV2 s) (requests : List SwapRequest) :
    ∃ s', GoesOn t (requests.foldl requestSwap t) s s' := by
  induction requests generalizing t s with
  | nil => exact ⟨s, GoesOn.refl hpool⟩
  | cons r requests ih =>
    obtain ⟨s', hstep⟩ := requestSwap_goesOn hpool r
    obtain ⟨s'', hrest⟩ := ih hstep.pool'
    exact ⟨s'', hstep.trans hrest⟩

/-- Where the product does not fall and one reserve does not grow, the other does not fall. -/
theorem le_of_product_le {a b a' b' : ℕ} (hpos : 0 < a * b) (hprod : a * b ≤ a' * b')
    (hb : b' ≤ b) : a ≤ a' := by
  refine Nat.le_of_mul_le_mul_right ?_ (Nat.pos_of_mul_pos_left hpos : 0 < b)
  exact hprod.trans (Nat.mul_le_mul_left a' hb)

/-- **Main theorem.** Over any sequence of requests, between any two of its states, the product
    of the reserves does not fall, both reserves stay positive, and no more of a token is received
    than the pool had and was paid. Where the swaps pay in no more of one token than they
    received of it, they receive no more of the other than they paid. -/
theorem requestSwaps_never_gain (v2 : UniswapV2PoolState) (h : 0 < v2.reserve0 * v2.reserve1)
    (before after : List SwapRequest) :
    reserveProduct (requestSwaps v2 before).pool ≤
        reserveProduct (requestSwaps v2 (before ++ after)).pool ∧
      (∃ s, (requestSwaps v2 (before ++ after)).pool = .uniswapV2 s ∧
        0 < s.reserve0 ∧ 0 < s.reserve1) ∧
      (requestSwaps v2 (before ++ after)).received0 ≤
        v2.reserve0 + (requestSwaps v2 (before ++ after)).paid0 ∧
      (requestSwaps v2 (before ++ after)).received1 ≤
        v2.reserve1 + (requestSwaps v2 (before ++ after)).paid1 ∧
      ((requestSwaps v2 (before ++ after)).paid1 ≤
          (requestSwaps v2 (before ++ after)).received1 →
        (requestSwaps v2 (before ++ after)).received0 ≤
          (requestSwaps v2 (before ++ after)).paid0) ∧
      ((requestSwaps v2 (before ++ after)).paid0 ≤
          (requestSwaps v2 (before ++ after)).received0 →
        (requestSwaps v2 (before ++ after)).received1 ≤
          (requestSwaps v2 (before ++ after)).paid1) := by
  obtain ⟨s, hbefore⟩ := foldl_goesOn (t := { pool := .uniswapV2 v2 }) rfl before
  obtain ⟨s', hafter⟩ := foldl_goesOn hbefore.pool' after
  have hall := hbefore.trans hafter
  rw [← List.foldl_append] at hafter hall
  change GoesOn _ (requestSwaps v2 (before ++ after)) _ _ at hall hafter
  change GoesOn (requestSwaps v2 before) _ _ _ at hafter
  have h0 := hall.side0
  have h1 := hall.side1
  have hprod := hall.product
  have hpos : 0 < s'.reserve0 * s'.reserve1 := lt_of_lt_of_le h hprod
  dsimp only at h0 h1
  refine ⟨?_, ⟨s', hall.pool', ?_, ?_⟩, by omega, by omega, ?_, ?_⟩
  · rw [hafter.pool, hafter.pool']
    exact hafter.product
  · exact Nat.pos_of_mul_pos_right hpos
  · exact Nat.pos_of_mul_pos_left hpos
  · intro hspend
    have := le_of_product_le h hprod (by omega)
    omega
  · intro hspend
    rw [Nat.mul_comm] at h
    rw [Nat.mul_comm v2.reserve0, Nat.mul_comm s'.reserve0] at hprod
    have := le_of_product_le h hprod (by omega)
    omega

/-- The pool of `constantProductOutputAmount_shallow`. -/
def shallowPair : UniswapV2PoolState :=
  { info := { token0 := 1, token1 := 2, fee := 30 }, reserve0 := 10 ^ 9, reserve1 := 10 ^ 9 }

/-- A round trip that spends all it received of token1. -/
theorem shallow_round_trip :
    (requestSwaps shallowPair [⟨1, 1000, 2⟩, ⟨2, 996, 1⟩]).paid1 = 996 ∧
      (requestSwaps shallowPair [⟨1, 1000, 2⟩, ⟨2, 996, 1⟩]).received1 = 996 ∧
      (requestSwaps shallowPair [⟨1, 1000, 2⟩, ⟨2, 996, 1⟩]).received0 ≤
        (requestSwaps shallowPair [⟨1, 1000, 2⟩, ⟨2, 996, 1⟩]).paid0 := by
  have h := requestSwaps_never_gain shallowPair (by decide) [⟨1, 1000, 2⟩] [⟨2, 996, 1⟩]
  exact ⟨by decide, by decide, h.2.2.2.2.1 (by decide)⟩

end MevScout.Pool
