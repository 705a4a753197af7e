import MevScout.Common.Rate
import MevScout.Pool.Math.Monotone

/-!
# A quote against the spot price

Along a walk the price only gets worse, so a quote pays out no more than its input at the price of
the pool, less the fee. What is left of the input after the fee is at most `d / (d + f)` of it: a
band that is passed as a whole is charged the rate `f / d` on what it takes in, and not on the fee.

Two roundings go the other way. The new price of a falling band is rounded down, which can add
`L / 2 ^ 96` to the output of the last band. And the input of a rising band is computed modulo
`2 ^ 256`, so that a band with much liquidity can be had for next to nothing.

Results:
* `amountOut_whole_down`, `amountOut_whole_up`, `amountOut_part_down`, `amountOut_part_up`: the
  output of one step, at the price that the step starts from;
* `quoteV3ExactInPost_within`: a quote keeps to the spot price, less the fee.
-/

namespace MevScout.Pool.Math

open Ladder Rate

variable {pool : UniswapV3PoolState} {direction : V3Direction} {b : Band}
  {p q t s L a x : ℕ}

/-! ## What is left after the fee -/

/-- The part of an amount that is left after the fee, where that is computed on what is left. -/
def leftRate (fee : FeeTier) : ℚ :=
  (fee.fraction.2 : ℚ) / (fee.fraction.2 + fee.fraction.1 : ℕ)

/-- The fee on an amount leaves no more than a fee on what is left would. -/
theorem amountAfterFee_rate (hs : Sized pool) (hx : x ≤ 2 ^ 224) :
    amountAfterFee pool.info.feeTier x *
        (pool.info.feeTier.fraction.2 + pool.info.feeTier.fraction.1) ≤
      x * pool.info.feeTier.fraction.2 := by
  obtain ⟨hrate, -, -⟩ := feeRoundUp_spec hs hx
  rw [amountAfterFee_eq]
  generalize feeRoundUp pool.info.feeTier x = c at *
  generalize pool.info.feeTier.fraction.1 = f at *
  generalize pool.info.feeTier.fraction.2 = d at *
  rcases le_total x c with hle | hle
  · rw [Nat.sub_eq_zero_of_le hle, Nat.zero_mul]
    exact Nat.zero_le _
  · obtain ⟨g, rfl⟩ := Nat.exists_eq_add_of_le hle
    rw [Nat.add_sub_cancel_left]
    have hg : f * g ≤ c * d := (Nat.mul_le_mul_left f (Nat.le_add_left g c)).trans hrate
    calc g * (d + f) = g * d + f * g := by ring
      _ ≤ g * d + c * d := Nat.add_le_add_left hg _
      _ = (c + g) * d := by ring

/-- A whole band takes in what is left of its cost after a fee on what is left. -/
theorem maxIn_rate (hs : Sized pool) (hb : Stretch pool direction b) :
    maxIn b.start b.target b.liquidity *
        (pool.info.feeTier.fraction.2 + pool.info.feeTier.fraction.1) ≤
      bandCost pool b * pool.info.feeTier.fraction.2 := by
  obtain ⟨hpos, htarget⟩ := hb.target
  obtain ⟨hrate, -, -⟩ := feeRoundUp_spec hs (maxIn_le (p := b.start) hpos htarget hb.liquidity_lt)
  rw [bandCost_eq hs hb]
  generalize maxIn b.start b.target b.liquidity = k at *
  calc k * (pool.info.feeTier.fraction.2 + pool.info.feeTier.fraction.1)
      = k * pool.info.feeTier.fraction.2 + pool.info.feeTier.fraction.1 * k := by ring
    _ ≤ k * pool.info.feeTier.fraction.2 +
          feeRoundUp pool.info.feeTier k * pool.info.feeTier.fraction.2 :=
      Nat.add_le_add_left hrate _
    _ = (k + feeRoundUp pool.info.feeTier k) * pool.info.feeTier.fraction.2 := by ring

/-! ## The output of one step -/

/-- A whole falling band pays out no more than its input at the price it starts from. -/
theorem amountOut_whole_down (ht : 0 < t) (htp : t < p) (hp : p < 2 ^ 128) (hL : L < 2 ^ 128) :
    amountOut true p t L * (q96 * q96) ≤ maxIn p t L * (p * p) := by
  have hout := amountOut_zeroForOne (L := L) htp.le
  rw [maxIn_down ht htp (by omega) hL]
  have hn := Nat.lt_mul_div_succ (L * q96 * (p - t)) (show 0 < p by omega)
  have hk := le_mul_ceilDiv (n := L * q96 * (p - t) / p) ht
  generalize L * q96 * (p - t) / p = n at *
  generalize n ⌈/⌉ t = k at *
  have hlt : amountOut true p t L * (q96 * q96) < p * (t * k + 1) := by
    calc amountOut true p t L * (q96 * q96) = amountOut true p t L * q96 * q96 := by ring
      _ ≤ L * (p - t) * q96 := Nat.mul_le_mul_right _ hout
      _ = L * q96 * (p - t) := by ring
      _ < p * (n + 1) := hn
      _ ≤ p * (t * k + 1) := Nat.mul_le_mul_left p (by omega)
  rcases Nat.eq_zero_or_pos k with rfl | hk₀
  · -- an input that rounds to nothing pays out nothing
    have hzero : amountOut true p t L = 0 := by
      by_contra hne
      have hle := Nat.mul_le_mul_right (q96 * q96) (Nat.one_le_iff_ne_zero.mpr hne)
      unfold q96 at hlt hle
      omega
    rw [hzero]
    omega
  · calc amountOut true p t L * (q96 * q96) ≤ p * (t * k + 1) := hlt.le
      _ ≤ p * (t * k + k) := Nat.mul_le_mul_left p (by omega)
      _ = k * (p * (t + 1)) := by ring
      _ ≤ k * (p * p) := Nat.mul_le_mul_left k (Nat.mul_le_mul_left p htp)

/-- A whole rising band pays out no more than its input at the price it starts from, if its input
    is not wrapped. -/
theorem amountOut_whole_up (hpt : p ≤ t) (hL : L < 2 ^ 128) (hfit : L * (t - p) < 2 ^ 256) :
    amountOut false p t L * (p * p) ≤ maxIn p t L * (q96 * q96) := by
  have hout := amountOut_oneForZero hL hpt
  have hk := le_mul_ceilDiv (n := L * (t - p)) (show 0 < q96 by unfold q96; norm_num)
  rw [maxIn_up hpt, wrappingMul_eq hfit]
  generalize L * (t - p) ⌈/⌉ q96 = k at *
  calc amountOut false p t L * (p * p) ≤ amountOut false p t L * (p * t) :=
        Nat.mul_le_mul_left _ (Nat.mul_le_mul_left p hpt)
    _ ≤ L * q96 * (t - p) := hout
    _ = L * (t - p) * q96 := by ring
    _ ≤ q96 * k * q96 := Nat.mul_le_mul_right _ hk
    _ = k * (q96 * q96) := by ring

/-- A falling band that is stopped in pays out no more than the input at the price it starts from,
    and what the rounding of the new price adds. -/
theorem amountOut_part_down (hL : 0 < L) (hlo : priceAfter0 p L a ≤ q) (hq : q ≤ p) :
    amountOut true p q L * (q96 * q96) ≤ a * (p * p) + L * q96 := by
  have hout := amountOut_zeroForOne (L := L) hq
  have hN : 0 < L * q96 := Nat.mul_pos hL (by unfold q96; norm_num)
  have hm := Nat.lt_mul_div_succ (L * q96 * p) (show 0 < L * q96 + a * p by omega)
  change L * q96 * p < (L * q96 + a * p) * (priceAfter0 p L a + 1) at hm
  generalize priceAfter0 p L a = m at *
  obtain ⟨g, rfl⟩ := Nat.exists_eq_add_of_le (hlo.trans hq)
  have hfall : L * q96 * g ≤ a * ((m + g) * (m + g)) + L * q96 := by
    rcases Nat.eq_zero_or_pos g with rfl | hg
    · omega
    · have hnext : a * (m + g) * (m + 1) ≤ a * (m + g) * (m + g) :=
        Nat.mul_le_mul_left _ (by omega)
      have hsplit : L * q96 * m + L * q96 * g < L * q96 * m + L * q96 + a * (m + g) * (m + 1) := by
        calc L * q96 * m + L * q96 * g = L * q96 * (m + g) := by ring
          _ < (L * q96 + a * (m + g)) * (m + 1) := hm
          _ = L * q96 * m + L * q96 + a * (m + g) * (m + 1) := by ring
      rw [Nat.mul_assoc a] at hnext hsplit
      rw [Nat.mul_assoc a] at hnext
      omega
  calc amountOut true (m + g) q L * (q96 * q96) = amountOut true (m + g) q L * q96 * q96 := by ring
    _ ≤ L * (m + g - q) * q96 := Nat.mul_le_mul_right _ hout
    _ ≤ L * g * q96 := Nat.mul_le_mul_right _ (Nat.mul_le_mul_left L (by omega))
    _ = L * q96 * g := by ring
    _ ≤ _ := hfall

/-- A rising band that is stopped in pays out no more than the input at the price it starts
    from. -/
theorem amountOut_part_up (hL : L < 2 ^ 128) (hq : p ≤ q) (hhi : q ≤ priceAfter1 p L a) :
    amountOut false p q L * (p * p) ≤ a * (q96 * q96) := by
  have hout := amountOut_oneForZero hL hq
  have hrise : L * (q - p) ≤ a * q96 := by
    unfold priceAfter1 at hhi
    calc L * (q - p) ≤ L * (a * q96 / L) := Nat.mul_le_mul_left L (by omega)
      _ ≤ a * q96 := Nat.mul_div_le _ _
  calc amountOut false p q L * (p * p) ≤ amountOut false p q L * (p * q) :=
        Nat.mul_le_mul_left _ (Nat.mul_le_mul_left p hq)
    _ ≤ L * q96 * (q - p) := hout
    _ = L * (q - p) * q96 := by ring
    _ ≤ a * q96 * q96 := Nat.mul_le_mul_right _ hrise
    _ = a * (q96 * q96) := by ring

/-! ## A rung at the price of the pool -/

/-- The price of what comes in, in what goes out. -/
def spotPrice (s : ℕ) : V3Direction → ℚ
  | .zeroForOne => (s * s : ℕ) / (q96 * q96 : ℕ)
  | .oneForZero => (q96 * q96 : ℕ) / (s * s : ℕ)

/-- What a unit of the input pays out at the price of the pool, after the fee. -/
def spotRate (pool : UniswapV3PoolState) (direction : V3Direction) : ℚ :=
  leftRate pool.info.feeTier * spotPrice pool.sqrtPriceX96 direction

theorem spotRate_nonneg (pool : UniswapV3PoolState) (direction : V3Direction) :
    0 ≤ spotRate pool direction := by
  unfold spotRate leftRate spotPrice
  cases direction <;> positivity

/-- An output that is at most `k` of the input at the price `u / v`, up to `w / v`. -/
theorem le_rate_of_mul_le {out k c d e u v w : ℕ} (hv : 0 < v) (he : 0 < e)
    (hout : out * v ≤ k * u + w) (hk : k * e ≤ c * d) :
    (out : ℚ) ≤ (d : ℚ) / e * (u / v) * c + w / v := by
  have hv' : (0 : ℚ) < v := by exact_mod_cast hv
  have he' : (0 : ℚ) < e := by exact_mod_cast he
  have hout' : (out : ℚ) * v ≤ k * u + w := by exact_mod_cast hout
  have hk' : (k : ℚ) * e ≤ c * d := by exact_mod_cast hk
  calc (out : ℚ) ≤ (k * u + w) / v := (le_div_iff₀ hv').mpr hout'
    _ ≤ (c * d / e * u + w) / v := by
      have : (k : ℚ) ≤ c * d / e := (le_div_iff₀ he').mpr hk'
      gcongr
    _ = (d : ℚ) / e * (u / v) * c + w / v := by ring

theorem le_rate_of_mul_le' {out k c d e u v : ℕ} (hv : 0 < v) (he : 0 < e)
    (hout : out * v ≤ k * u) (hk : k * e ≤ c * d) : (out : ℚ) ≤ (d : ℚ) / e * (u / v) * c := by
  have hrate := le_rate_of_mul_le (w := 0) hv he (show out * v ≤ k * u + 0 from hout) hk
  rwa [Nat.cast_zero, zero_div, add_zero] at hrate

/-- The most liquidity that a walk can come to. -/
def liquidityReach (pool : UniswapV3PoolState) (direction : V3Direction) : ℕ :=
  ((bands pool direction).map Band.liquidity).foldr max 0

theorem le_liquidityReach (hb : b ∈ bands pool direction) :
    b.liquidity ≤ liquidityReach pool direction :=
  List.le_max_of_le (List.mem_map_of_mem hb) le_rfl

/-- What the rounding of the new price can add to a quote. -/
def roundingSlack (pool : UniswapV3PoolState) : V3Direction → ℚ
  | .zeroForOne => liquidityReach pool .zeroForOne / q96
  | .oneForZero => 0

theorem roundingSlack_nonneg (pool : UniswapV3PoolState) (direction : V3Direction) :
    0 ≤ roundingSlack pool direction := by
  cases direction with
  | zeroForOne => exact div_nonneg (Nat.cast_nonneg _) (Nat.cast_nonneg _)
  | oneForZero => exact le_rfl

/-- The inputs of the rising bands of a walk are computed without wrapping. -/
def CostsFit (pool : UniswapV3PoolState) : V3Direction → Prop
  | .zeroForOne => True
  | .oneForZero => ∀ b ∈ bands pool .oneForZero, b.liquidity * (b.target - b.start) < 2 ^ 256

theorem left_den_pos (fee : FeeTier) : 0 < fee.fraction.2 + fee.fraction.1 :=
  Nat.add_pos_left (fraction_den_pos fee) _

theorem q96_sq_pos : 0 < q96 * q96 := by
  unfold q96
  norm_num

/-- A whole falling band keeps to the price of the pool. -/
theorem rungOut_whole_down (hs : Sized pool) (hlo : minSqrtRatio ≤ pool.sqrtPriceX96)
    (hhi : pool.sqrtPriceX96 < 2 ^ 128) (hb : b ∈ bands pool .zeroForOne) :
    (rungOut pool (b, none) : ℚ) ≤ spotRate pool .zeroForOne * bandCost pool b := by
  have hstretch := stretch_of_mem_bandsFrom hs.liquidity_lt hb
  obtain ⟨hfall, -, hstart⟩ := bandsFrom_down hlo hb
  have hout := amountOut_whole_down hstretch.target.1 hfall (by omega) hstretch.liquidity_lt
  have hspot : maxIn b.start b.target b.liquidity * (b.start * b.start) ≤
      maxIn b.start b.target b.liquidity * (pool.sqrtPriceX96 * pool.sqrtPriceX96) :=
    Nat.mul_le_mul_left _ (Nat.mul_le_mul hstart hstart)
  unfold rungOut
  rw [rungStep_whole, decide_eq_true hfall]
  exact le_rate_of_mul_le' q96_sq_pos (left_den_pos _) (hout.trans hspot) (maxIn_rate hs hstretch)

/-- A whole rising band keeps to the price of the pool, if its input is not wrapped. -/
theorem rungOut_whole_up (hs : Sized pool) (hlo : minSqrtRatio ≤ pool.sqrtPriceX96)
    (hhi : pool.sqrtPriceX96 < 2 ^ 128) (hb : b ∈ bands pool .oneForZero)
    (hfit : b.liquidity * (b.target - b.start) < 2 ^ 256) :
    (rungOut pool (b, none) : ℚ) ≤ spotRate pool .oneForZero * bandCost pool b := by
  have hstretch := stretch_of_mem_bandsFrom hs.liquidity_lt hb
  have hmin := minSqrtRatio_pos
  have hmax := two_pow_le_maxSqrtRatio
  obtain ⟨hrise, -, hstart⟩ := bandsFrom_up (by omega) hb
  have hout := amountOut_whole_up hrise.le hstretch.liquidity_lt hfit
  have hspot : amountOut false b.start b.target b.liquidity *
        (pool.sqrtPriceX96 * pool.sqrtPriceX96) ≤
      amountOut false b.start b.target b.liquidity * (b.start * b.start) :=
    Nat.mul_le_mul_left _ (Nat.mul_le_mul hstart hstart)
  unfold rungOut
  rw [rungStep_whole, decide_eq_false (show ¬b.target < b.start by omega)]
  exact le_rate_of_mul_le' (Nat.mul_pos (by omega) (by omega)) (left_den_pos _)
    (hspot.trans hout) (maxIn_rate hs hstretch)

/-- A falling band that is stopped in keeps to the price of the pool, up to the rounding. -/
theorem rungOut_part_down (hs : Sized pool) (hlo : minSqrtRatio ≤ pool.sqrtPriceX96)
    (hhi : pool.sqrtPriceX96 < 2 ^ 128) (hb : b ∈ bands pool .zeroForOne)
    (hcost : x < bandCost pool b) (hx : x < 2 ^ 128) :
    (rungOut pool (b, some x) : ℚ) ≤
      spotRate pool .zeroForOne * x + roundingSlack pool .zeroForOne := by
  have hstretch := stretch_of_mem_bandsFrom hs.liquidity_lt hb
  obtain ⟨hfall, -, hstart⟩ := bandsFrom_down hlo hb
  have hL := liquidity_pos_of_lt_bandCost hs hstretch hcost (by omega)
  obtain ⟨hlow, hhigh⟩ := nextPrice_zeroForOne (p := b.start)
    (a := amountAfterFee pool.info.feeTier x) hstretch.liquidity_lt (by omega)
  have hout := amountOut_part_down hL hlow hhigh
  have hspot : amountAfterFee pool.info.feeTier x * (b.start * b.start) + b.liquidity * q96 ≤
      amountAfterFee pool.info.feeTier x * (pool.sqrtPriceX96 * pool.sqrtPriceX96) +
        liquidityReach pool .zeroForOne * q96 :=
    Nat.add_le_add (Nat.mul_le_mul_left _ (Nat.mul_le_mul hstart hstart))
      (Nat.mul_le_mul_right _ (le_liquidityReach hb))
  have hrate := le_rate_of_mul_le q96_sq_pos (left_den_pos _) (hout.trans hspot)
    (amountAfterFee_rate hs (x := x) (by omega))
  have hslack : ((liquidityReach pool .zeroForOne * q96 : ℕ) : ℚ) / (q96 * q96 : ℕ) =
      roundingSlack pool .zeroForOne := by
    have hQ : (q96 : ℚ) ≠ 0 := by unfold q96; norm_num
    unfold roundingSlack
    push_cast
    field_simp
  rw [hslack] at hrate
  unfold rungOut
  rw [rungStep_part hcost]
  unfold partPrice
  rw [if_pos hfall, decide_eq_true hfall]
  exact hrate

/-- A rising band that is stopped in keeps to the price of the pool. -/
theorem rungOut_part_up (hs : Sized pool) (hlo : minSqrtRatio ≤ pool.sqrtPriceX96)
    (hhi : pool.sqrtPriceX96 < 2 ^ 128) (hb : b ∈ bands pool .oneForZero)
    (hcost : x < bandCost pool b) (hx : x < 2 ^ 128) :
    (rungOut pool (b, some x) : ℚ) ≤ spotRate pool .oneForZero * x := by
  have hstretch := stretch_of_mem_bandsFrom hs.liquidity_lt hb
  have hmin := minSqrtRatio_pos
  have hmax := two_pow_le_maxSqrtRatio
  obtain ⟨hrise, -, hstart⟩ := bandsFrom_up (by omega) hb
  have hafter := amountAfterFee_lt_maxIn hs hstretch hcost (by omega)
  obtain ⟨hlow, hhigh⟩ := nextPrice_oneForZero
    ((priceAfter1_lt_target hrise.le hafter).trans hstretch.target.2)
  have hout := amountOut_part_up hstretch.liquidity_lt hlow hhigh
  have hspot := (Nat.mul_le_mul_left
    (amountOut false b.start ((getNextSqrtPriceFromInput b.start b.liquidity
      (amountAfterFee pool.info.feeTier x) .oneForZero).getD b.start) b.liquidity)
    (Nat.mul_le_mul hstart hstart)).trans hout
  unfold rungOut
  rw [rungStep_part hcost]
  unfold partPrice
  rw [if_neg (show ¬b.target < b.start by omega),
    decide_eq_false (show ¬b.target < b.start by omega)]
  exact le_rate_of_mul_le' (Nat.mul_pos (by omega) (by omega)) (left_den_pos _) hspot
    (amountAfterFee_rate hs (x := x) (by omega))

theorem rungOut_whole_rate (hs : Sized pool) (hlo : minSqrtRatio ≤ pool.sqrtPriceX96)
    (hhi : pool.sqrtPriceX96 < 2 ^ 128) (hfit : CostsFit pool direction)
    (hb : b ∈ bands pool direction) :
    (rungOut pool (b, none) : ℚ) ≤ spotRate pool direction * bandCost pool b := by
  cases direction with
  | zeroForOne => exact rungOut_whole_down hs hlo hhi hb
  | oneForZero => exact rungOut_whole_up hs hlo hhi hb (hfit b hb)

theorem rungOut_part_rate (hs : Sized pool) (hlo : minSqrtRatio ≤ pool.sqrtPriceX96)
    (hhi : pool.sqrtPriceX96 < 2 ^ 128) (hb : b ∈ bands pool direction)
    (hcost : x < bandCost pool b) (hx : x < 2 ^ 128) :
    (rungOut pool (b, some x) : ℚ) ≤
      spotRate pool direction * x + roundingSlack pool direction := by
  cases direction with
  | zeroForOne => exact rungOut_part_down hs hlo hhi hb hcost hx
  | oneForZero =>
    rw [show roundingSlack pool .oneForZero = 0 from rfl, add_zero]
    exact rungOut_part_up hs hlo hhi hb hcost hx

/-! ## The quote -/

/-- **Main theorem.** A quote keeps to the spot price less the fee, up to the rounding of the new
    price, where no input of a band wraps. -/
theorem quoteV3ExactInPost_within (hs : Sized pool) (hlo : minSqrtRatio ≤ pool.sqrtPriceX96)
    (hhi : pool.sqrtPriceX96 < 2 ^ 128) (hfit : CostsFit pool direction) :
    WithinRate (2 ^ 128) (spotRate pool direction) (roundingSlack pool direction)
      fun x => (quoteV3ExactInPost pool x direction).map V3QuotePostState.amountOut := by
  constructor
  · intro x hx y hy
    obtain ⟨post, hpost, rfl⟩ := Option.map_eq_some_iff.mp hy
    rw [quoteV3ExactInPost_eq hx] at hpost
    split_ifs at hpost
    obtain rfl := Option.some.inj hpost
    dsimp only
    omega
  · intro x hx y hy
    obtain ⟨post, hpost, rfl⟩ := Option.map_eq_some_iff.mp hy
    rw [(quoteV3ExactInPost_amountOut hx hpost).1]
    have hsum := sum_taken_le_rate (bandCost pool) (rungOut pool) (x := x)
      (spotRate_nonneg pool direction) (roundingSlack_nonneg pool direction)
      (fun b hb => rungOut_whole_rate hs hlo hhi hfit hb)
      fun b hb y hcost hle => rungOut_part_rate hs hlo hhi hb hcost (by omega)
    refine le_trans ?_ hsum
    exact_mod_cast Nat.mod_le _ _

end MevScout.Pool.Math
