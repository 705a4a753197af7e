import MevScout.Pool.Math.Fees

/-!
# Where a step leads

A step that is paid for in part stays inside its band: what is left after the fee is less than
the input of the whole band, and the new price, rounded, does not go beyond the target. All
roundings are against the swap here, whatever wraps.

Results:
* `amountAfterFee_lt_maxIn`: what is left after the fee is less than the input of the band;
* `partPrice_down`, `partPrice_up`: the new price is between the start and the target;
* `bandAhead_down`, `bandAhead_up`: which way the bands of a walk go.
-/

namespace MevScout.Pool.Math

open Ladder

variable {pool : UniswapV3PoolState} {direction : V3Direction} {b : Band} {p q t L a x y : ℕ}

theorem lt_ceilDiv_iff {n d c : ℕ} (hd : 0 < d) : c < n ⌈/⌉ d ↔ d * c < n := by
  rw [← Nat.not_le, ceilDiv_le_iff_le_mul hd, Nat.not_le]

/-! ## What is left after the fee -/

theorem amountAfterFee_eq (fee : FeeTier) (x : ℕ) :
    amountAfterFee fee x = x - feeRoundUp fee x := by
  unfold amountAfterFee
  omega

/-- A larger amount bears a larger fee. -/
theorem feeRoundUp_mono (hs : Sized pool) (hxy : x ≤ y) (hy : y ≤ 2 ^ 224) :
    feeRoundUp pool.info.feeTier x ≤ feeRoundUp pool.info.feeTier y := by
  have hnum := fraction_num_lt hs
  have hden := fraction_den_pos pool.info.feeTier
  have hfit {z : ℕ} (hz : z ≤ 2 ^ 224) : z * pool.info.feeTier.fraction.1 < 2 ^ 256 := by
    calc z * pool.info.feeTier.fraction.1 ≤ 2 ^ 224 * (2 ^ 32 - 1) :=
          Nat.mul_le_mul hz (by omega)
      _ < 2 ^ 256 := by norm_num
  rw [feeRoundUp_eq (hfit (hxy.trans hy)), feeRoundUp_eq (hfit hy), ceilDiv_le_iff_le_mul hden]
  exact (Nat.mul_le_mul_right _ hxy).trans (le_mul_ceilDiv hden)

/-- Less than the cost of a band leaves less than its input after the fee. -/
theorem amountAfterFee_lt_maxIn (hs : Sized pool) (hb : Stretch pool direction b)
    (hx : x < bandCost pool b) (hlt : x ≤ 2 ^ 224) :
    amountAfterFee pool.info.feeTier x < maxIn b.start b.target b.liquidity := by
  have hsum := bandCost_eq hs hb
  rw [amountAfterFee_eq]
  by_contra hge
  rcases Nat.eq_zero_or_pos (maxIn b.start b.target b.liquidity) with hzero | hpos
  · -- a band that takes no input costs nothing
    have hfee0 := (feeRoundUp_spec hs (Nat.zero_le (2 ^ 224))).2.2.mpr (by simp)
    rw [hzero] at hsum
    omega
  · have hmono := feeRoundUp_mono hs (show maxIn b.start b.target b.liquidity ≤ x by omega) hlt
    omega

/-! ## The new price -/

/-- Less than the input of a falling band leads to a price at the target or above it. -/
theorem target_le_priceAfter0 (ht : 0 < t) (htp : t < p) (hle : t ≤ 2 ^ 224) (hL : L < 2 ^ 128)
    (ha : a < maxIn p t L) : t ≤ priceAfter0 p L a := by
  rw [maxIn_down ht htp hle hL, lt_ceilDiv_iff ht] at ha
  have hp : 0 < p := by omega
  have hmul : (t * a + 1) * p ≤ L * q96 * (p - t) := by
    calc (t * a + 1) * p ≤ L * q96 * (p - t) / p * p := Nat.mul_le_mul_right p ha
      _ ≤ L * q96 * (p - t) := Nat.div_mul_le_self _ _
  have hN : 0 < L * q96 + a * p := by
    by_contra h
    have hzero : L * q96 = 0 := by omega
    rw [hzero, Nat.zero_mul] at hmul
    have : 0 < (t * a + 1) * p := Nat.mul_pos (Nat.succ_pos _) hp
    omega
  unfold priceAfter0
  rw [Nat.le_div_iff_mul_le hN]
  obtain ⟨g, rfl⟩ : ∃ g, p = t + g := ⟨p - t, by omega⟩
  rw [Nat.add_sub_cancel_left] at hmul
  calc t * (L * q96 + a * (t + g)) = L * q96 * t + t * a * (t + g) := by ring
    _ ≤ L * q96 * t + (t * a + 1) * (t + g) := by gcongr; omega
    _ ≤ L * q96 * t + L * q96 * g := by gcongr
    _ = L * q96 * (t + g) := by ring

/-- Less than the input of a rising band leads to a price below the target. -/
theorem priceAfter1_lt_target (hpt : p ≤ t) (ha : a < maxIn p t L) : priceAfter1 p L a < t := by
  rw [maxIn_up hpt, lt_ceilDiv_iff (by unfold q96; norm_num)] at ha
  have hW : q96 * a < L * (t - p) := lt_of_lt_of_le ha (wrappingMul_le _ _ _)
  have hL : 0 < L := by
    rcases Nat.eq_zero_or_pos L with rfl | hL
    · rw [Nat.zero_mul] at hW
      omega
    · exact hL
  have hdiv : a * q96 / L < t - p := by
    rw [Nat.div_lt_iff_lt_mul hL, Nat.mul_comm a, Nat.mul_comm (t - p)]
    exact hW
  unfold priceAfter1
  omega

/-- In a falling band, the price stays between the target and the start. -/
theorem partPrice_down (hs : Sized pool) (hb : Stretch pool direction b)
    (hfall : b.target < b.start) (hstart : b.start < 2 ^ 160) (hx : x < bandCost pool b)
    (hlt : x < 2 ^ 128) : b.target ≤ partPrice pool b x ∧ partPrice pool b x ≤ b.start := by
  obtain ⟨hpos, htarget⟩ := hb.target
  have hafter := amountAfterFee_lt_maxIn hs hb hx (by omega)
  obtain ⟨hlo, hhi⟩ := nextPrice_zeroForOne (a := amountAfterFee pool.info.feeTier x)
    hb.liquidity_lt hstart
  unfold partPrice
  rw [if_pos hfall]
  exact ⟨(target_le_priceAfter0 hpos hfall (by omega) hb.liquidity_lt hafter).trans hlo, hhi⟩

/-- In a rising band, the price stays between the start and the target, which it does not
    reach. -/
theorem partPrice_up (hs : Sized pool) (hb : Stretch pool direction b)
    (hrise : b.start < b.target) (hx : x < bandCost pool b) (hlt : x < 2 ^ 128) :
    b.start ≤ partPrice pool b x ∧ partPrice pool b x < b.target := by
  obtain ⟨hpos, htarget⟩ := hb.target
  have hafter := amountAfterFee_lt_maxIn hs hb hx (by omega)
  have hprice := priceAfter1_lt_target hrise.le hafter
  obtain ⟨hlo, hhi⟩ := nextPrice_oneForZero (hprice.trans htarget)
  unfold partPrice
  rw [if_neg (by omega)]
  exact ⟨hlo, lt_of_le_of_lt hhi hprice⟩

/-! ## Which way the bands go -/

variable {price : ℕ} {tick : ℤ}

/-- From a price in the range, the bands for token0 fall. -/
theorem bandAhead_down (hprice : minSqrtRatio ≤ price)
    (h : (bandAhead pool .zeroForOne price tick L).target ≠ price) :
    minSqrtRatio ≤ (bandAhead pool .zeroForOne price tick L).target ∧
      (bandAhead pool .zeroForOne price tick L).target < price := by
  unfold bandAhead getSwapTargetForTick at h ⊢
  dsimp only at h ⊢
  generalize findNextInitializedTick pool.ticks tick .zeroForOne = next at *
  rcases next with - | t <;> dsimp only at h ⊢ <;> omega

/-- From a price in the range, the bands for token1 rise. -/
theorem bandAhead_up (hprice : price ≤ maxSqrtRatio)
    (h : (bandAhead pool .oneForZero price tick L).target ≠ price) :
    price < (bandAhead pool .oneForZero price tick L).target ∧
      (bandAhead pool .oneForZero price tick L).target ≤ maxSqrtRatio := by
  unfold bandAhead getSwapTargetForTick at h ⊢
  dsimp only at h ⊢
  generalize findNextInitializedTick pool.ticks tick .oneForZero = next at *
  rcases next with - | t <;> dsimp only at h ⊢ <;> omega

/-- From a price below the range, the only band for token0 rises to its lower end. -/
theorem bandAhead_below (hprice : price < minSqrtRatio)
    (h : (bandAhead pool .zeroForOne price tick L).target ≠ price) :
    (bandAhead pool .zeroForOne price tick L).target = minSqrtRatio ∧
      (bandAhead pool .zeroForOne price tick L).next = none := by
  unfold bandAhead getSwapTargetForTick at h ⊢
  dsimp only at h ⊢
  generalize findNextInitializedTick pool.ticks tick .zeroForOne = next at *
  rcases next with - | t
  · exact ⟨rfl, rfl⟩
  · dsimp only at h
    omega

end MevScout.Pool.Math
