import MevScout.Common.BitPower
import MevScout.Pool.Math.V3

/-!
# The prices of the ticks

`compute_sqrt_ratio_at_tick` multiplies entries of a table, one for each bit of the tick, and
rounds every product down; a positive tick is inverted, and the result is rounded up to
the 96 fractional bits of a price. The prices are strictly increasing all the same: the
relative gap between neighbours is above `2 ^ -15`, and the smallest product has 53 bits.

Results:
* `getSqrtRatioAtTick_strictMonoOn`: the prices are strictly increasing;
* `getSqrtRatioAtTick_lt`, `getSqrtRatioAtTick_pos`: their range.
-/

namespace MevScout.Pool.Math

open BitPower

/-- The table of `compute_sqrt_ratio_at_tick`: the entry of the lowest bit and
    `tickMathConstants`. -/
def tickTable : List ℕ := 0xfffcb933bd6fad37aa2d162d1a594001 :: tickMathConstants.map Prod.snd

/-- The product of `compute_sqrt_ratio_at_tick` for the absolute tick `n`. -/
def tickPower (n : ℕ) : ℕ := power (2 ^ 128) tickTable (2 ^ 128) n

/-- A 128.128 price, rounded up to 96 fractional bits. -/
def ceilPrice (r : ℕ) : ℕ := if r % 2 ^ 32 = 0 then r / 2 ^ 32 else r / 2 ^ 32 + 1

theorem tickTable_le : ∀ c ∈ tickTable, c ≤ 2 ^ 128 := by decide

theorem tickTable_separated : Separated (2 ^ 128) (2 ^ 15) tickTable (2 ^ 128) := by
  decide

theorem two_pow_le_tickPower (n : ℕ) : 2 ^ 52 ≤ tickPower n := by
  have hleast : 2 ^ 52 ≤ least (2 ^ 128) tickTable (2 ^ 128) := by decide
  exact hleast.trans (least_le_power tickTable_le _ n)

theorem tickPower_le (n : ℕ) : tickPower n ≤ 2 ^ 128 := power_le tickTable_le _ n

/-- The gap between the products of neighbouring ticks. -/
theorem tickPower_succ_gap {n : ℕ} (hn : n < maxTick.natAbs) :
    tickPower (n + 1) * (2 ^ 15 + 1) ≤ tickPower n * 2 ^ 15 + 20 * 2 ^ 15 :=
  power_succ_gap tickTable_le (by norm_num) tickTable_separated
    (lt_of_lt_of_le (Nat.succ_lt_succ hn) (by decide))

theorem getSqrtRatioAtTick_eq {t : ℤ} (ht : t.natAbs ≤ maxTick.natAbs) :
    getSqrtRatioAtTick t =
      ceilPrice (if t > 0 then (2 ^ 256 - 1) / tickPower t.natAbs else tickPower t.natAbs) := by
  have hmask : tickMathConstants.map Prod.fst =
      (List.range' 1 tickMathConstants.length).map (2 ^ ·) := by decide
  have hfold := foldl_mask_eq (D := 2 ^ 128) hmask t.natAbs
    (if t.natAbs &&& 1 ≠ 0 then 0xfffcb933bd6fad37aa2d162d1a594001 else 2 ^ 128)
  have hpower : tickPower t.natAbs = power (2 ^ 128) (tickMathConstants.map Prod.snd)
      (if t.natAbs &&& 1 ≠ 0 then 0xfffcb933bd6fad37aa2d162d1a594001 else 2 ^ 128)
      (t.natAbs / 2 ^ 1) := by
    have hbit := and_two_pow_ne_zero t.natAbs 0
    rw [pow_zero, Nat.div_one] at hbit
    show power (2 ^ 128) (tickMathConstants.map Prod.snd)
      (if t.natAbs % 2 = 1 then 2 ^ 128 * _ / 2 ^ 128 else 2 ^ 128) (t.natAbs / 2) = _
    rw [Nat.mul_div_cancel_left _ (show 0 < 2 ^ 128 by norm_num), pow_one]
    simp only [hbit]
  unfold getSqrtRatioAtTick
  dsimp only
  rw [if_neg (by omega), hfold, ← hpower]
  rfl

theorem ceilPrice_lt {r r' : ℕ} (h : r + 2 ^ 32 ≤ r') : ceilPrice r < ceilPrice r' := by
  unfold ceilPrice
  split_ifs <;> omega

/-- One tick up is a higher price. -/
theorem getSqrtRatioAtTick_lt_succ {t : ℤ} (hlo : minTick ≤ t) (hhi : t < maxTick) :
    getSqrtRatioAtTick t < getSqrtRatioAtTick (t + 1) := by
  unfold minTick at hlo
  unfold maxTick at hhi
  have hmax : maxTick.natAbs = 887272 := rfl
  rw [getSqrtRatioAtTick_eq (by omega), getSqrtRatioAtTick_eq (by omega)]
  refine ceilPrice_lt ?_
  rcases lt_trichotomy t 0 with hneg | rfl | hpos
  · -- falling products below zero
    obtain ⟨n, hn⟩ : ∃ n : ℕ, (t + 1).natAbs = n := ⟨_, rfl⟩
    have ht : t.natAbs = n + 1 := by omega
    rw [if_neg (by omega), if_neg (by omega), hn, ht]
    have hgap := tickPower_succ_gap (n := n) (by omega)
    have hlow := two_pow_le_tickPower (n + 1)
    omega
  · decide
  · -- inverted products above zero
    obtain ⟨n, rfl⟩ : ∃ n : ℕ, t = n := ⟨t.toNat, by omega⟩
    rw [if_pos hpos, if_pos (by omega), show ((n : ℤ) + 1).natAbs = n + 1 by omega,
      Int.natAbs_natCast]
    have hgap := tickPower_succ_gap (n := n) (by omega)
    have hlow := two_pow_le_tickPower (n + 1)
    have hhigh := tickPower_le n
    generalize tickPower (n + 1) = b at *
    generalize tickPower n = a at *
    have hq : 2 ^ 127 ≤ (2 ^ 256 - 1) / a := by
      rw [Nat.le_div_iff_mul_le (by omega)]
      omega
    rw [Nat.le_div_iff_mul_le (by omega)]
    have hqa : (2 ^ 256 - 1) / a * a ≤ 2 ^ 256 - 1 := Nat.div_mul_le_self _ _
    generalize (2 ^ 256 - 1) / a = c at *
    obtain ⟨g, rfl⟩ : ∃ g, a = b + g := ⟨a - b, by omega⟩
    have hg : b ≤ 2 ^ 16 * g := by omega
    have hcg : 2 ^ 127 * g ≤ c * g := Nat.mul_le_mul_right g hq
    rw [Nat.mul_add] at hqa
    rw [Nat.add_mul]
    omega

/-- **The prices are strictly increasing** from `MIN_TICK` to `MAX_TICK`. -/
theorem getSqrtRatioAtTick_strictMonoOn :
    StrictMonoOn getSqrtRatioAtTick (Set.Icc minTick maxTick) := by
  intro a ha b hb hab
  induction b, (show a + 1 ≤ b from hab) using Int.leInduction with
  | base => exact getSqrtRatioAtTick_lt_succ ha.1 (by have := hb.2; omega)
  | succ b hab ih =>
    have hb' : b ∈ Set.Icc minTick maxTick := ⟨by have := ha.1; omega, by have := hb.2; omega⟩
    exact (ih hb' (by omega)).trans (getSqrtRatioAtTick_lt_succ hb'.1 (by have := hb.2; omega))

theorem getSqrtRatioAtTick_of_outside {t : ℤ} (h : t ∉ Set.Icc minTick maxTick) :
    getSqrtRatioAtTick t = 0 := by
  have hmax : maxTick.natAbs = 887272 := rfl
  unfold getSqrtRatioAtTick
  refine if_pos ?_
  rw [Set.mem_Icc] at h
  unfold minTick maxTick at h
  omega

/-- Every tick has a price below `2 ^ 160`. -/
theorem getSqrtRatioAtTick_lt (t : ℤ) : getSqrtRatioAtTick t < 2 ^ 160 := by
  have hmax : getSqrtRatioAtTick maxTick < 2 ^ 160 := by decide
  by_cases h : t ∈ Set.Icc minTick maxTick
  · have hmem : maxTick ∈ Set.Icc minTick maxTick := by decide
    exact lt_of_le_of_lt ((getSqrtRatioAtTick_strictMonoOn.le_iff_le h hmem).mpr h.2) hmax
  · rw [getSqrtRatioAtTick_of_outside h]
    norm_num

theorem getSqrtRatioAtTick_pos {t : ℤ} (h : t ∈ Set.Icc minTick maxTick) :
    0 < getSqrtRatioAtTick t := by
  have hmin : 0 < getSqrtRatioAtTick minTick := by decide
  have hmem : minTick ∈ Set.Icc minTick maxTick := by decide
  exact lt_of_lt_of_le hmin ((getSqrtRatioAtTick_strictMonoOn.le_iff_le hmem h).mpr h.1)

theorem minSqrtRatio_pos : 0 < minSqrtRatio := getSqrtRatioAtTick_pos (by decide)

theorem minSqrtRatio_lt_maxSqrtRatio : minSqrtRatio < maxSqrtRatio :=
  getSqrtRatioAtTick_strictMonoOn (by decide) (by decide) (by decide)

end MevScout.Pool.Math
