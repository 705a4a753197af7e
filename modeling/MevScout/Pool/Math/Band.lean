import MevScout.Pool.Math.V3

/-!
# Swaps inside one liquidity band

While a swap crosses no tick, the pool is a constant product of liquidity `L`. Its price
moves from `p` to `q`, and it owes at most `L * (p - q) / 2 ^ 96` of token1 when the price
falls and `L * 2 ^ 96 * (1 / p - 1 / q)` of token0 when it rises. The amounts that the
code pays out respect these bounds. The input that it asks for does not always: for token0
the new price is rounded down.

Results:
* `nextPrice_zeroForOne`, `nextPrice_oneForZero`: where the price goes;
* `amountOut_zeroForOne`, `amountOut_oneForZero`: bounds on what is paid out;
* `quoteV3ExactInPost_inBand`: a swap that stays in its band only moves the price.
-/

namespace MevScout.Pool.Math

theorem mulDiv_getD_le (a b d : ℕ) : (mulDiv a b d).getD 0 ≤ a * b / d := by
  unfold mulDiv u512ToU256Checked
  split_ifs <;> simp

theorem mulDiv_eq {a b d : ℕ} (hd : d ≠ 0) (h : a * b / d < 2 ^ 256) :
    mulDiv a b d = some (a * b / d) := by
  rw [mulDiv, if_neg hd, u512ToU256Checked, if_pos h]

theorem liquidity_mul_q96 {L : ℕ} (hL : L < 2 ^ 128) : wrappingMul 256 L q96 = L * q96 := by
  refine wrappingMul_eq ?_
  unfold q96
  omega

/-! ## The new price -/

/-- The price that `a` of token0 leads to, rounded down. -/
def priceAfter0 (p L a : ℕ) : ℕ := L * q96 * p / (L * q96 + a * p)

/-- The price that `a` of token1 leads to, rounded down. -/
def priceAfter1 (p L a : ℕ) : ℕ := p + a * q96 / L

/-- Token0 in moves the price down, at most to the price of a constant product. -/
theorem nextPrice_zeroForOne {p L a : ℕ} (hL : L < 2 ^ 128) (hp : p < 2 ^ 160) :
    priceAfter0 p L a ≤ (getNextSqrtPriceFromInput p L a .zeroForOne).getD p ∧
      (getNextSqrtPriceFromInput p L a .zeroForOne).getD p ≤ p := by
  have hself : priceAfter0 p L a ≤ p := by
    unfold priceAfter0
    refine Nat.div_le_of_le_mul ?_
    rw [Nat.add_mul]
    exact Nat.le_add_right _ _
  unfold getNextSqrtPriceFromInput
  dsimp only
  rw [liquidity_mul_q96 hL]
  split_ifs with h₀ hden
  · exact ⟨hself, le_rfl⟩
  · exact ⟨hself, le_rfl⟩
  · set N := L * q96
    set d := wrappingAdd 256 N (wrappingMul 256 a p) with hd
    have hdpos : N < d := by omega
    have hle : d ≤ N + a * p :=
      (wrappingAdd_le _ _ _).trans (Nat.add_le_add_left (wrappingMul_le _ _ _) N)
    have hq : N * p / d ≤ p := by
      refine Nat.div_le_of_le_mul ?_
      exact Nat.mul_le_mul_right p hdpos.le
    rw [mulDiv_eq (by omega) (hq.trans_lt (hp.trans (by norm_num))), Option.getD_some]
    exact ⟨Nat.div_le_div_left hle (by omega), hq⟩

/-- Token1 in moves the price up, to the price of a constant product or not at all. -/
theorem nextPrice_oneForZero {p L a : ℕ} (hlt : priceAfter1 p L a < 2 ^ 160) :
    p ≤ (getNextSqrtPriceFromInput p L a .oneForZero).getD p ∧
      (getNextSqrtPriceFromInput p L a .oneForZero).getD p ≤ priceAfter1 p L a := by
  unfold priceAfter1 at hlt ⊢
  unfold getNextSqrtPriceFromInput
  dsimp only
  split_ifs with h₀
  · exact ⟨le_rfl, Nat.le_add_right _ _⟩
  · have hL : L ≠ 0 := fun h => h₀ (.inl h)
    rw [mulDiv_eq hL (by omega), Option.bind_some]
    split_ifs with hr
    · exact ⟨le_rfl, Nat.le_add_right _ _⟩
    · rw [Option.getD_some, wrappingAdd_eq (by omega)]
      exact ⟨Nat.le_add_right _ _, le_rfl⟩

/-! ## The amount paid out -/

/-- While the price falls from `p` to `q`, at most `L * (p - q) / 2 ^ 96` is paid out. -/
theorem amountOut_zeroForOne {p q L : ℕ} (hq : q ≤ p) :
    amountOut true p q L * q96 ≤ L * (p - q) := by
  unfold amountOut getAmount1Delta
  dsimp only
  rw [if_pos rfl, if_neg (show ¬q > p by omega)]
  dsimp only
  rw [if_neg Bool.false_ne_true]
  calc (mulDiv (wrappingMul 256 L (p - q)) 1 q96).getD 0 * q96
      ≤ wrappingMul 256 L (p - q) * 1 / q96 * q96 := Nat.mul_le_mul_right _ (mulDiv_getD_le _ _ _)
    _ ≤ wrappingMul 256 L (p - q) * 1 := Nat.div_mul_le_self _ _
    _ ≤ L * (p - q) := by rw [Nat.mul_one]; exact wrappingMul_le _ _ _

/-- While the price rises from `p` to `q`, at most `L * 2 ^ 96 * (1 / p - 1 / q)` is paid
    out. -/
theorem amountOut_oneForZero {p q L : ℕ} (hL : L < 2 ^ 128) (hq : p ≤ q) :
    amountOut false p q L * (p * q) ≤ L * q96 * (q - p) := by
  rcases Nat.eq_zero_or_pos p with rfl | hp
  · simp
  have hdelta : amountOut false p q L = ((mulDiv (L * q96) (q - p) q).map (· / p)).getD 0 := by
    unfold amountOut getAmount0Delta
    rw [if_neg Bool.false_ne_true, if_neg (show ¬p > q by omega), ← liquidity_mul_q96 hL]
    dsimp only
    rw [if_neg hp.ne']
    rfl
  rw [hdelta]
  cases hm : mulDiv (L * q96) (q - p) q with
  | none => simp
  | some m =>
    have hm' : m ≤ L * q96 * (q - p) / q := by
      have := mulDiv_getD_le (L * q96) (q - p) q
      rw [hm] at this
      exact this
    rw [Option.map_some, Option.getD_some]
    calc m / p * (p * q) = m / p * p * q := (Nat.mul_assoc _ _ _).symm
      _ ≤ m * q := Nat.mul_le_mul_right q (Nat.div_mul_le_self _ _)
      _ ≤ L * q96 * (q - p) / q * q := Nat.mul_le_mul_right q hm'
      _ ≤ L * q96 * (q - p) := Nat.div_mul_le_self _ _

/-! ## A swap that stays in its band -/

/-- The price that the first step of a swap aims at. -/
def swapTarget (s : UniswapV3PoolState) (direction : V3Direction) : ℕ :=
  (getSwapTargetForTick s.ticks s.tick s.sqrtPriceX96 direction).1

/-- The input does not take the price to the next initialized tick, or to the end of the
    price range. -/
structure InBand (s : UniswapV3PoolState) (direction : V3Direction) (amountIn : ℕ) : Prop where
  cost : amountIn <
    totalMaxCost s.sqrtPriceX96 (swapTarget s direction) s.liquidity s.info.feeTier
  price :
    match direction with
    | .zeroForOne => swapTarget s .zeroForOne <
        priceAfter0 s.sqrtPriceX96 s.liquidity (amountAfterFee s.info.feeTier amountIn)
    | .oneForZero => priceAfter1 s.sqrtPriceX96 s.liquidity
        (amountAfterFee s.info.feeTier amountIn) < swapTarget s .oneForZero

instance (s : UniswapV3PoolState) (amountIn : ℕ) :
    (direction : V3Direction) → Decidable (InBand s direction amountIn)
  | .zeroForOne => decidable_of_iff
      (amountIn < totalMaxCost s.sqrtPriceX96 (swapTarget s .zeroForOne) s.liquidity
        s.info.feeTier ∧ swapTarget s .zeroForOne < priceAfter0 s.sqrtPriceX96 s.liquidity
          (amountAfterFee s.info.feeTier amountIn))
      ⟨fun h => ⟨h.1, h.2⟩, fun h => ⟨h.cost, h.price⟩⟩
  | .oneForZero => decidable_of_iff
      (amountIn < totalMaxCost s.sqrtPriceX96 (swapTarget s .oneForZero) s.liquidity
        s.info.feeTier ∧ priceAfter1 s.sqrtPriceX96 s.liquidity
          (amountAfterFee s.info.feeTier amountIn) < swapTarget s .oneForZero)
      ⟨fun h => ⟨h.1, h.2⟩, fun h => ⟨h.cost, h.price⟩⟩

/-- The price after a swap that stays in its band. -/
def bandPrice (s : UniswapV3PoolState) (direction : V3Direction) (amountIn : ℕ) : ℕ :=
  (getNextSqrtPriceFromInput s.sqrtPriceX96 s.liquidity
    (amountAfterFee s.info.feeTier amountIn) direction).getD s.sqrtPriceX96

theorem maxSqrtRatio_lt : maxSqrtRatio < 2 ^ 160 := by decide

theorem swapTarget_oneForZero_lt {s : UniswapV3PoolState} (hp : s.sqrtPriceX96 < 2 ^ 160) :
    swapTarget s .oneForZero < 2 ^ 160 := by
  have hmax := maxSqrtRatio_lt
  unfold swapTarget getSwapTargetForTick
  split
  · exact max_lt (lt_of_le_of_lt (min_le_right _ _) hmax) hp
  · exact hmax

/-- In the band, the price lies strictly on the near side of the target. -/
theorem bandPrice_zeroForOne {s : UniswapV3PoolState} {amountIn : ℕ} (hL : s.liquidity < 2 ^ 128)
    (hp : s.sqrtPriceX96 < 2 ^ 160) (h : InBand s .zeroForOne amountIn) :
    swapTarget s .zeroForOne < bandPrice s .zeroForOne amountIn ∧
      bandPrice s .zeroForOne amountIn ≤ s.sqrtPriceX96 := by
  obtain ⟨hlo, hhi⟩ := nextPrice_zeroForOne (a := amountAfterFee s.info.feeTier amountIn) hL hp
  exact ⟨lt_of_lt_of_le h.price hlo, hhi⟩

theorem bandPrice_oneForZero {s : UniswapV3PoolState} {amountIn : ℕ}
    (hp : s.sqrtPriceX96 < 2 ^ 160) (h : InBand s .oneForZero amountIn) :
    s.sqrtPriceX96 ≤ bandPrice s .oneForZero amountIn ∧
      bandPrice s .oneForZero amountIn < swapTarget s .oneForZero := by
  have hprice : priceAfter1 s.sqrtPriceX96 s.liquidity (amountAfterFee s.info.feeTier amountIn) <
      swapTarget s .oneForZero := h.price
  obtain ⟨hlo, hhi⟩ := nextPrice_oneForZero (hprice.trans (swapTarget_oneForZero_lt hp))
  exact ⟨hlo, lt_of_le_of_lt hhi hprice⟩

/-- The direction that `compute_swap_step` reads off the target is that of the swap. -/
theorem swapTarget_lt_iff {s : UniswapV3PoolState} {direction : V3Direction} {amountIn : ℕ}
    (hL : s.liquidity < 2 ^ 128) (hp : s.sqrtPriceX96 < 2 ^ 160)
    (h : InBand s direction amountIn) : swapTarget s direction ≠ s.sqrtPriceX96 ∧
      bandPrice s direction amountIn ≠ swapTarget s direction ∧
      decide (swapTarget s direction < s.sqrtPriceX96) = direction.isZeroForOne := by
  cases direction with
  | zeroForOne =>
    obtain ⟨hlo, hhi⟩ := bandPrice_zeroForOne hL hp h
    have : swapTarget s .zeroForOne < s.sqrtPriceX96 := by omega
    exact ⟨by omega, by omega, decide_eq_true this⟩
  | oneForZero =>
    obtain ⟨hlo, hhi⟩ := bandPrice_oneForZero hp h
    have : ¬swapTarget s .oneForZero < s.sqrtPriceX96 := by omega
    exact ⟨by omega, by omega, decide_eq_false this⟩

/-- A swap that stays in its band is one partial step. -/
theorem quoteLoop_inBand {s : UniswapV3PoolState} {direction : V3Direction} {amountIn : ℕ}
    (hL : s.liquidity < 2 ^ 128) (hp : s.sqrtPriceX96 < 2 ^ 160) (hx : 0 < amountIn)
    (hlt : amountIn < 2 ^ 128) (h : InBand s direction amountIn) :
    quoteLoop s direction (s.ticks.size + 2)
      ⟨s.sqrtPriceX96, s.tick, s.liquidity, amountIn, 0⟩ =
    some ⟨bandPrice s direction amountIn, s.tick, s.liquidity, 0,
      wrappingAdd 256 0 (amountOut direction.isZeroForOne s.sqrtPriceX96
        (bandPrice s direction amountIn) s.liquidity)⟩ := by
  obtain ⟨hne, hstop, hdir⟩ := swapTarget_lt_iff hL hp h
  have hstep : computeSwapStep s.sqrtPriceX96 (swapTarget s direction) s.liquidity amountIn
      s.info.feeTier = ⟨bandPrice s direction amountIn, amountAfterFee s.info.feeTier amountIn,
        amountOut direction.isZeroForOne s.sqrtPriceX96 (bandPrice s direction amountIn)
          s.liquidity, feeRoundUp s.info.feeTier amountIn⟩ := by
    rw [computeSwapStep_below h.cost, hdir]
    cases direction <;> rfl
  have hrem := le_amountAfterFee_add s.info.feeTier
    (hlt.trans (by norm_num : (2 : ℕ) ^ 128 < 2 ^ 256))
  have hturn : quoteTurn s direction ⟨s.sqrtPriceX96, s.tick, s.liquidity, amountIn, 0⟩ =
      (⟨bandPrice s direction amountIn, s.tick, s.liquidity, 0,
        wrappingAdd 256 0 (amountOut direction.isZeroForOne s.sqrtPriceX96
          (bandPrice s direction amountIn) s.liquidity)⟩, true) := by
    unfold quoteTurn
    dsimp only
    generalize htarget : getSwapTargetForTick s.ticks s.tick s.sqrtPriceX96 direction = target
    have hfst : target.1 = swapTarget s direction := (congrArg Prod.fst htarget).symm
    rw [hfst, if_neg hne, hstep]
    dsimp only
    rw [if_neg fun h => hstop h.1, if_neg hstop, Nat.sub_eq_zero_of_le hrem]
  rw [quoteLoop, if_neg hx.ne', hturn]
  dsimp only
  rw [quoteLoop, if_pos rfl]

/-- **A swap in its band.** A quote for a swap that stays in its band moves the price to
    `bandPrice` and leaves the tick and the liquidity alone. -/
theorem quoteV3ExactInPost_inBand {s : UniswapV3PoolState} {direction : V3Direction}
    {amountIn : ℕ} {post : V3QuotePostState} (hL : s.liquidity < 2 ^ 128)
    (hp : s.sqrtPriceX96 < 2 ^ 160) (hlt : amountIn < 2 ^ 128) (h : InBand s direction amountIn)
    (hquote : quoteV3ExactInPost s amountIn direction = some post) :
    post.sqrtPriceX96 = bandPrice s direction amountIn ∧ post.tick = s.tick ∧
      post.liquidity = s.liquidity ∧
      post.amountOut ≤ amountOut direction.isZeroForOne s.sqrtPriceX96
        (bandPrice s direction amountIn) s.liquidity := by
  unfold quoteV3ExactInPost at hquote
  split_ifs at hquote with h₀
  have hx : 0 < amountIn := Nat.pos_of_ne_zero fun hx => h₀ (.inl hx)
  rw [quoteLoop_inBand hL hp hx hlt h, Option.bind_eq_bind, Option.bind_some] at hquote
  split_ifs at hquote
  obtain rfl := Option.some.inj hquote
  refine ⟨rfl, rfl, rfl, ?_⟩
  exact (wrappingAdd_le _ _ _).trans_eq (Nat.zero_add _)

end MevScout.Pool.Math
