import MevScout.Pool.Math.Steps

/-!
# A larger input pays out no less

Inside a band, a larger input moves the price further and pays out no less, and the whole band
pays out most. So the output does not fall along the ladder of bands. The sum over the bands
does not wrap: it telescopes to the value of the start price.

A price from `2 ^ 128 - 2 ^ 96` on needs care: there the denominator of the new price can wrap,
and such a step pays out nothing. No tick has such a price below `2 ^ 128`, so it can only be
the start of the first band, and then there is no quote.

Results:
* `rungOut_part_mono_up`, `rungOut_part_mono_down`: the output inside a band;
* `sum_rungOut_down`, `sum_rungOut_up`: bounds on the output of a walk;
* `quoteV3ExactInPost_mono`: a quote for a larger input pays out no less.
-/

namespace MevScout.Pool.Math

open Ladder

variable {pool : UniswapV3PoolState} {direction : V3Direction} {b : Band} {p q q' L a a' x y : ℕ}

/-! ## Prices and amounts without wrapping -/

theorem nextPrice_eq_priceAfter0 (hL0 : 0 < L) (hL : L < 2 ^ 128) (hp : p < 2 ^ 160)
    (hfit : L * q96 + a * p < 2 ^ 256) :
    (getNextSqrtPriceFromInput p L a .zeroForOne).getD p = priceAfter0 p L a := by
  have hN : 0 < L * q96 := Nat.mul_pos hL0 (by unfold q96; norm_num)
  have hle : priceAfter0 p L a ≤ p := by
    refine Nat.div_le_of_le_mul ?_
    exact Nat.mul_le_mul_right p (Nat.le_add_right _ _)
  have hself : a * p = 0 → priceAfter0 p L a = p := by
    intro h
    unfold priceAfter0
    rw [h, Nat.add_zero, Nat.mul_div_cancel_left _ hN]
  unfold getNextSqrtPriceFromInput
  split_ifs with h₀
  · rcases h₀ with hL | ha
    · omega
    · rw [hself (by rw [ha, Nat.zero_mul]), Option.getD_none]
  dsimp only
  rw [liquidity_mul_q96 hL, wrappingMul_eq (show a * p < 2 ^ 256 by omega), wrappingAdd_eq hfit]
  split_ifs with hden
  · rw [hself (by omega), Option.getD_none]
  · unfold priceAfter0 at hle ⊢
    rw [mulDiv_eq (by omega) (by omega), Option.getD_some]

/-- A denominator that wraps gives no new price. -/
theorem nextPrice_of_wrap (hL : L < 2 ^ 128) (ha : a < 2 ^ 128) (hp : p < 2 ^ 128)
    (hwrap : 2 ^ 256 ≤ L * q96 + a * p) :
    getNextSqrtPriceFromInput p L a .zeroForOne = none := by
  have hap : a * p < 2 ^ 128 * 2 ^ 128 := Nat.mul_lt_mul'' ha hp
  have hN : L * q96 < 2 ^ 224 := by
    unfold q96
    omega
  have hsum : wrappingAdd 256 (L * q96) (a * p) = L * q96 + a * p - 2 ^ 256 := by
    unfold wrappingAdd
    rw [Nat.mod_eq_sub_mod hwrap, Nat.mod_eq_of_lt (by omega)]
  unfold getNextSqrtPriceFromInput
  split_ifs
  · rfl
  · dsimp only
    rw [liquidity_mul_q96 hL, wrappingMul_eq (by omega), hsum, if_pos (by omega)]

theorem nextPrice_eq_priceAfter1 (hL0 : 0 < L) (hlt : priceAfter1 p L a < 2 ^ 256) :
    (getNextSqrtPriceFromInput p L a .oneForZero).getD p = priceAfter1 p L a := by
  unfold priceAfter1 at hlt ⊢
  unfold getNextSqrtPriceFromInput
  rcases Nat.eq_zero_or_pos a with rfl | ha
  · rw [if_pos (.inr rfl), Nat.zero_mul, Nat.zero_div]
    rfl
  rw [if_neg (by omega)]
  dsimp only
  rw [mulDiv_eq hL0.ne' (by omega), Option.bind_some]
  split_ifs with h
  · rw [h]
    rfl
  · rw [Option.getD_some, wrappingAdd_eq (by omega)]

theorem amountOut_down (hL : L < 2 ^ 128) (hp : p < 2 ^ 128) (hq : q ≤ p) :
    amountOut true p q L = L * (p - q) / q96 := by
  have hmul : L * (p - q) < 2 ^ 128 * 2 ^ 128 :=
    Nat.mul_lt_mul'' hL (lt_of_le_of_lt (Nat.sub_le _ _) hp)
  have hdiv : L * (p - q) * 1 / q96 < 2 ^ 256 := by
    rw [Nat.mul_one]
    exact lt_of_le_of_lt (Nat.div_le_self _ _) (by omega)
  unfold amountOut getAmount1Delta
  rw [if_pos rfl, if_neg (show ¬q > p by omega)]
  dsimp only
  rw [if_neg Bool.false_ne_true, wrappingMul_eq (by omega),
    mulDiv_eq (by unfold q96; norm_num) hdiv, Nat.mul_one]
  rfl

theorem amountOut_up (hL : L < 2 ^ 128) (hp : 0 < p) (hq : p ≤ q) :
    amountOut false p q L = L * q96 * (q - p) / q / p := by
  have hN : L * q96 < 2 ^ 224 := by
    unfold q96
    omega
  have hdiv : L * q96 * (q - p) / q ≤ L * q96 :=
    Nat.div_le_of_le_mul (by rw [Nat.mul_comm q]; exact Nat.mul_le_mul_left _ (Nat.sub_le _ _))
  unfold amountOut getAmount0Delta
  rw [if_neg Bool.false_ne_true, if_neg (show ¬p > q by omega)]
  dsimp only
  rw [if_neg hp.ne', liquidity_mul_q96 hL, mulDiv_eq (by omega) (by omega), Option.map_some,
    if_neg Bool.false_ne_true]
  rfl

theorem amountOut_down_mono (hL : L < 2 ^ 128) (hp : p < 2 ^ 128) (hqq : q ≤ q') (hq : q' ≤ p) :
    amountOut true p q' L ≤ amountOut true p q L := by
  rw [amountOut_down hL hp hq, amountOut_down hL hp (hqq.trans hq)]
  exact Nat.div_le_div_right (Nat.mul_le_mul_left L (Nat.sub_le_sub_left hqq p))

theorem amountOut_up_mono (hL : L < 2 ^ 128) (hp : 0 < p) (hq : p ≤ q) (hqq : q ≤ q') :
    amountOut false p q L ≤ amountOut false p q' L := by
  rw [amountOut_up hL hp hq, amountOut_up hL hp (hq.trans hqq)]
  refine Nat.div_le_div_right ?_
  generalize L * q96 = N
  -- `N * (1 - p / q)` grows with `q`
  have hk : N * (q - p) / q * q ≤ N * (q - p) := Nat.div_mul_le_self _ _
  have hle : N * (q - p) / q ≤ N :=
    Nat.div_le_of_le_mul (by rw [Nat.mul_comm q]; exact Nat.mul_le_mul_left _ (Nat.sub_le _ _))
  rw [Nat.le_div_iff_mul_le (by omega)]
  generalize N * (q - p) / q = k at *
  obtain ⟨g, rfl⟩ : ∃ g, N = k + g := ⟨N - k, by omega⟩
  obtain ⟨h, rfl⟩ : ∃ h, q = p + h := ⟨q - p, by omega⟩
  obtain ⟨h', rfl⟩ : ∃ h', q' = p + h' := ⟨q' - p, by omega⟩
  rw [Nat.add_sub_cancel_left] at hk ⊢
  have hgh : k * p ≤ g * h := by
    rw [Nat.mul_add, Nat.add_mul] at hk
    omega
  calc k * (p + h') = k * h' + k * p := by ring
    _ ≤ k * h' + g * h := Nat.add_le_add_left hgh _
    _ ≤ k * h' + g * h' := by gcongr; omega
    _ = (k + g) * h' := by ring

theorem priceAfter0_anti (hL0 : 0 < L) (haa : a ≤ a') : priceAfter0 p L a' ≤ priceAfter0 p L a := by
  have hN : 0 < L * q96 := Nat.mul_pos hL0 (by unfold q96; norm_num)
  unfold priceAfter0
  exact Nat.div_le_div_left (by gcongr) (by omega)

theorem priceAfter1_mono (haa : a ≤ a') : priceAfter1 p L a ≤ priceAfter1 p L a' := by
  unfold priceAfter1
  gcongr

/-! ## Inside a band -/

/-- What a rung pays out. -/
def rungOut (pool : UniswapV3PoolState) (r : Band × Option ℕ) : ℕ := (rungStep pool r).amountOut

theorem amountAfterFee_mono (hs : Sized pool) (hxy : x ≤ y) (hy : y ≤ 2 ^ 224) :
    amountAfterFee pool.info.feeTier x ≤ amountAfterFee pool.info.feeTier y := by
  have hnum := fraction_num_lt hs
  have hden := fraction_den_pos pool.info.feeTier
  rw [amountAfterFee_eq, amountAfterFee_eq]
  rcases le_or_gt pool.info.feeTier.fraction.1 pool.info.feeTier.fraction.2 with hfee | hfee
  · -- the fee grows no faster than the amount
    have hgrow : feeRoundUp pool.info.feeTier y ≤ feeRoundUp pool.info.feeTier x + (y - x) := by
      have hfit {z : ℕ} (hz : z ≤ 2 ^ 224) : z * pool.info.feeTier.fraction.1 < 2 ^ 256 := by
        calc z * pool.info.feeTier.fraction.1 ≤ 2 ^ 224 * (2 ^ 32 - 1) :=
              Nat.mul_le_mul hz (by omega)
          _ < 2 ^ 256 := by norm_num
      rw [feeRoundUp_eq (hfit (hxy.trans hy)), feeRoundUp_eq (hfit hy),
        ceilDiv_le_iff_le_mul hden]
      have hx := le_mul_ceilDiv (n := x * pool.info.feeTier.fraction.1) hden
      obtain ⟨g, rfl⟩ : ∃ g, y = x + g := ⟨y - x, by omega⟩
      rw [Nat.add_sub_cancel_left, Nat.add_mul, Nat.mul_add]
      refine Nat.add_le_add hx ?_
      rw [Nat.mul_comm]
      exact Nat.mul_le_mul_right g hfee
    omega
  · -- a fee above the amount leaves nothing
    have hzero := (feeRoundUp_spec hs (hxy.trans hy)).2.2
    have hover : x - feeRoundUp pool.info.feeTier x = 0 := by
      rcases Nat.eq_zero_or_pos x with rfl | hx
      · exact Nat.zero_sub _
      · by_contra h
        have hle := hzero.mp (by omega)
        rw [Nat.mul_comm] at hle
        have := Nat.le_of_mul_le_mul_right hle hx
        omega
    omega

/-- The liquidity of a band that can be paid for in part. -/
theorem liquidity_pos_of_lt_bandCost (hs : Sized pool) (hb : Stretch pool direction b)
    (hx : x < bandCost pool b) (hlt : x ≤ 2 ^ 224) : 0 < b.liquidity := by
  obtain ⟨hpos, htarget⟩ := hb.target
  have hmax := amountAfterFee_lt_maxIn hs hb hx hlt
  rcases Nat.eq_zero_or_pos b.liquidity with hzero | hL
  · rw [hzero, maxIn_zero hpos (by omega)] at hmax
    exact absurd hmax (Nat.not_lt_zero _)
  · exact hL

/-- The whole of a rising band pays out most. -/
theorem rungOut_part_le_up (hs : Sized pool) (hb : Stretch pool direction b)
    (hrise : b.start < b.target) (hstart : 0 < b.start) (hx : x < bandCost pool b)
    (hlt : x < 2 ^ 128) : rungOut pool (b, some x) ≤ rungOut pool (b, none) := by
  obtain ⟨hlo, hhi⟩ := partPrice_up hs hb hrise hx hlt
  unfold rungOut
  rw [rungStep_part hx, rungStep_whole, decide_eq_false (by omega : ¬b.target < b.start)]
  exact amountOut_up_mono hb.liquidity_lt hstart hlo hhi.le

/-- The whole of a falling band pays out most. -/
theorem rungOut_part_le_down (hs : Sized pool) (hb : Stretch pool direction b)
    (hfall : b.target < b.start) (hstart : b.start < 2 ^ 128) (hx : x < bandCost pool b)
    (hlt : x < 2 ^ 128) : rungOut pool (b, some x) ≤ rungOut pool (b, none) := by
  obtain ⟨hlo, hhi⟩ := partPrice_down hs hb hfall (by omega) hx hlt
  unfold rungOut
  rw [rungStep_part hx, rungStep_whole, decide_eq_true hfall]
  exact amountOut_down_mono hb.liquidity_lt hstart hlo hhi

/-- Inside a rising band, a larger input pays out no less. -/
theorem rungOut_part_mono_up (hs : Sized pool) (hb : Stretch pool direction b)
    (hrise : b.start < b.target) (hstart : 0 < b.start) (hxy : x ≤ y) (hy : y < bandCost pool b)
    (hlt : y < 2 ^ 128) : rungOut pool (b, some x) ≤ rungOut pool (b, some y) := by
  have hL := liquidity_pos_of_lt_bandCost hs hb hy (by omega)
  have htarget := hb.target.2
  have hprice {z : ℕ} (hz : z < bandCost pool b) (hzlt : z < 2 ^ 128) :
      partPrice pool b z =
        priceAfter1 b.start b.liquidity (amountAfterFee pool.info.feeTier z) := by
    have hafter := amountAfterFee_lt_maxIn hs hb hz (by omega)
    unfold partPrice
    rw [if_neg (by omega),
      nextPrice_eq_priceAfter1 hL (by
        have := priceAfter1_lt_target hrise.le hafter
        omega)]
  obtain ⟨hlo, -⟩ := partPrice_up hs hb hrise (lt_of_le_of_lt hxy hy) (lt_of_le_of_lt hxy hlt)
  unfold rungOut
  rw [rungStep_part (lt_of_le_of_lt hxy hy), rungStep_part hy,
    decide_eq_false (by omega : ¬b.target < b.start)]
  refine amountOut_up_mono hb.liquidity_lt hstart hlo ?_
  rw [hprice (lt_of_le_of_lt hxy hy) (lt_of_le_of_lt hxy hlt), hprice hy hlt]
  exact priceAfter1_mono (amountAfterFee_mono hs hxy (by omega))

/-- Inside a falling band, a larger input pays out no less, unless its denominator wraps. -/
theorem rungOut_part_mono_down (hs : Sized pool) (hb : Stretch pool direction b)
    (hfall : b.target < b.start) (hstart : b.start < 2 ^ 128) (hxy : x ≤ y)
    (hy : y < bandCost pool b) (hlt : y < 2 ^ 128)
    (hfit : b.liquidity * q96 + amountAfterFee pool.info.feeTier y * b.start < 2 ^ 256) :
    rungOut pool (b, some x) ≤ rungOut pool (b, some y) := by
  have hL := liquidity_pos_of_lt_bandCost hs hb hy (by omega)
  have hafter := amountAfterFee_mono hs hxy (by omega)
  have hfit' : b.liquidity * q96 + amountAfterFee pool.info.feeTier x * b.start < 2 ^ 256 :=
    lt_of_le_of_lt (Nat.add_le_add_left (Nat.mul_le_mul_right _ hafter) _) hfit
  obtain ⟨-, hhi⟩ := partPrice_down hs hb hfall (by omega) (lt_of_le_of_lt hxy hy)
    (lt_of_le_of_lt hxy hlt)
  unfold rungOut
  rw [rungStep_part (lt_of_le_of_lt hxy hy), rungStep_part hy, decide_eq_true hfall]
  refine amountOut_down_mono hb.liquidity_lt hstart ?_ hhi
  unfold partPrice
  rw [if_pos hfall, nextPrice_eq_priceAfter0 hL hb.liquidity_lt (by omega) hfit,
    nextPrice_eq_priceAfter0 hL hb.liquidity_lt (by omega) hfit']
  exact priceAfter0_anti hL hafter

/-- A denominator that wraps pays out nothing. -/
theorem rungOut_of_wrap (hb : Stretch pool direction b) (hfall : b.target < b.start)
    (hstart : b.start < 2 ^ 128) (hx : x < bandCost pool b) (hlt : x < 2 ^ 128)
    (hwrap : 2 ^ 256 ≤ b.liquidity * q96 + amountAfterFee pool.info.feeTier x * b.start) :
    rungOut pool (b, some x) = 0 := by
  have hafter : amountAfterFee pool.info.feeTier x < 2 ^ 128 :=
    lt_of_le_of_lt (Nat.sub_le _ _) hlt
  unfold rungOut
  rw [rungStep_part hx, decide_eq_true hfall]
  unfold partPrice
  rw [if_pos hfall, nextPrice_of_wrap hb.liquidity_lt hafter hstart hwrap]
  show amountOut true b.start b.start b.liquidity = 0
  rw [amountOut_down hb.liquidity_lt hstart le_rfl, Nat.sub_self]
  simp

/-! ## Along the ladder -/

variable {fuel price : ℕ} {tick : ℤ}

/-- The bands follow one another. -/
theorem bandsFrom_isChain (pool : UniswapV3PoolState) (direction : V3Direction)
    (fuel price : ℕ) (tick : ℤ) (L : ℕ) :
    ((bandsFrom pool direction fuel price tick L).IsChain fun b c => b.target = c.start) ∧
      ∀ b ∈ (bandsFrom pool direction fuel price tick L).head?, b.start = price := by
  induction fuel generalizing price tick L with
  | zero => exact ⟨.nil, nofun⟩
  | succ fuel ih =>
    generalize hb : bandAhead pool direction price tick L = b
    have hstart : b.start = price := by rw [← hb]; rfl
    rcases bandsFrom_cases fuel hb with ⟨-, hcons⟩ | ⟨-, -, hcons⟩ |
      ⟨-, t, -, -, hcons⟩ | ⟨-, t, -, -, hcons⟩
    · rw [hcons]
      exact ⟨.nil, nofun⟩
    · rw [hcons]
      exact ⟨.singleton b, by simp [hstart]⟩
    · rw [hcons]
      exact ⟨.singleton b, by simp [hstart]⟩
    · rw [hcons]
      obtain ⟨hchain, hhead⟩ := ih b.target t (liquidityBeyond pool direction L t)
      exact ⟨hchain.cons fun c hc => (hhead c hc).symm, by simp [hstart]⟩

/-- From a price in the range, every band for token0 falls, from that price or below it. -/
theorem bandsFrom_down (hprice : minSqrtRatio ≤ price)
    (hb : b ∈ bandsFrom pool .zeroForOne fuel price tick L) :
    b.target < b.start ∧ minSqrtRatio ≤ b.target ∧ b.start ≤ price := by
  induction fuel generalizing price tick L with
  | zero => cases hb
  | succ fuel ih =>
    generalize hahead : bandAhead pool .zeroForOne price tick L = c
    have hstart : c.start = price := by rw [← hahead]; rfl
    have hdown := @bandAhead_down pool L price tick hprice
    rw [hahead] at hdown
    rcases bandsFrom_cases fuel hahead with ⟨-, hcons⟩ | ⟨hmoves, -, hcons⟩ |
      ⟨hmoves, t, -, -, hcons⟩ | ⟨hmoves, t, -, -, hcons⟩
    · rw [hcons] at hb
      cases hb
    · rw [hcons] at hb
      obtain rfl := List.mem_singleton.mp hb
      have := hdown hmoves
      omega
    · rw [hcons] at hb
      obtain rfl := List.mem_singleton.mp hb
      have := hdown hmoves
      omega
    · obtain ⟨hlo, hhi⟩ := hdown hmoves
      rw [hcons] at hb
      rcases List.mem_cons.mp hb with rfl | hb
      · omega
      · obtain ⟨hfall, hmin, hle⟩ := ih hlo hb
        exact ⟨hfall, hmin, by omega⟩

/-- From a price in the range, every band for token1 rises, from that price or above it. -/
theorem bandsFrom_up (hprice : price ≤ maxSqrtRatio)
    (hb : b ∈ bandsFrom pool .oneForZero fuel price tick L) :
    b.start < b.target ∧ b.target ≤ maxSqrtRatio ∧ price ≤ b.start := by
  induction fuel generalizing price tick L with
  | zero => cases hb
  | succ fuel ih =>
    generalize hahead : bandAhead pool .oneForZero price tick L = c
    have hstart : c.start = price := by rw [← hahead]; rfl
    have hup := @bandAhead_up pool L price tick hprice
    rw [hahead] at hup
    rcases bandsFrom_cases fuel hahead with ⟨-, hcons⟩ | ⟨hmoves, -, hcons⟩ |
      ⟨hmoves, t, -, -, hcons⟩ | ⟨hmoves, t, -, -, hcons⟩
    · rw [hcons] at hb
      cases hb
    · rw [hcons] at hb
      obtain rfl := List.mem_singleton.mp hb
      have := hup hmoves
      omega
    · rw [hcons] at hb
      obtain rfl := List.mem_singleton.mp hb
      have := hup hmoves
      omega
    · obtain ⟨hlo, hhi⟩ := hup hmoves
      rw [hcons] at hb
      rcases List.mem_cons.mp hb with rfl | hb
      · omega
      · obtain ⟨hrise, hmax, hle⟩ := ih hhi hb
        exact ⟨hrise, hmax, by omega⟩

/-- From a price below the range, there is at most one band for token0, and it rises. -/
theorem bandsFrom_below (hprice : price < minSqrtRatio)
    (hb : b ∈ bandsFrom pool .zeroForOne fuel price tick L) :
    b.start < b.target ∧ price ≤ b.start := by
  cases fuel with
  | zero => cases hb
  | succ fuel =>
    generalize hahead : bandAhead pool .zeroForOne price tick L = c
    have hstart : c.start = price := by rw [← hahead]; rfl
    have hbelow := @bandAhead_below pool L price tick hprice
    rw [hahead] at hbelow
    rcases bandsFrom_cases fuel hahead with ⟨-, hcons⟩ | ⟨hmoves, -, hcons⟩ |
      ⟨hmoves, t, hnext, -, hcons⟩ | ⟨hmoves, t, hnext, -, hcons⟩
    · rw [hcons] at hb
      cases hb
    · rw [hcons] at hb
      obtain rfl := List.mem_singleton.mp hb
      have := (hbelow hmoves).1
      omega
    · rw [(hbelow hmoves).2] at hnext
      cases hnext
    · rw [(hbelow hmoves).2] at hnext
      cases hnext

/-- The value of a price in token1, for the most liquidity there can be. -/
def valueDown (p : ℕ) : ℚ := 2 ^ 128 * p / q96

/-- The value of a price in token0, for the most liquidity there can be. -/
def valueUp (p : ℕ) : ℚ := 2 ^ 128 * q96 / p

/-- A fall from `p` to `q` pays out at most what the value falls by. -/
theorem amountOut_le_valueDown (hL : L < 2 ^ 128) (hq : q ≤ p) :
    (amountOut true p q L : ℚ) ≤ valueDown p - valueDown q := by
  have hout := amountOut_zeroForOne (L := L) hq
  have hQ : (0 : ℚ) < q96 := by unfold q96; norm_num
  have hbound : (amountOut true p q L * q96 : ℚ) ≤ 2 ^ 128 * p - 2 ^ 128 * q := by
    have hle : L * (p - q) ≤ 2 ^ 128 * (p - q) := Nat.mul_le_mul_right _ hL.le
    have hnat : amountOut true p q L * q96 + 2 ^ 128 * q ≤ 2 ^ 128 * p := by
      rw [Nat.mul_sub (2 ^ 128)] at hle
      have := Nat.mul_le_mul_left (2 ^ 128) hq
      omega
    have hcast : ((amountOut true p q L * q96 + 2 ^ 128 * q : ℕ) : ℚ) ≤ ((2 ^ 128 * p : ℕ) : ℚ) :=
      by exact_mod_cast hnat
    push_cast at hcast
    linarith
  unfold valueDown
  rw [← sub_div, le_div_iff₀ hQ]
  exact hbound

/-- A rise from `p` to `q` pays out at most what the value falls by. -/
theorem amountOut_le_valueUp (hL : L < 2 ^ 128) (hp : 0 < p) (hq : p ≤ q) :
    (amountOut false p q L : ℚ) ≤ valueUp p - valueUp q := by
  have hout := amountOut_oneForZero hL hq
  have hp' : (0 : ℚ) < p := by exact_mod_cast hp
  have hq' : (0 : ℚ) < q := by exact_mod_cast lt_of_lt_of_le hp hq
  have hnat : amountOut false p q L * (p * q) ≤ 2 ^ 128 * q96 * (q - p) :=
    hout.trans (Nat.mul_le_mul_right _ (Nat.mul_le_mul_right _ hL.le))
  have hcast : ((amountOut false p q L * (p * q) : ℕ) : ℚ) ≤
      ((2 ^ 128 * q96 * (q - p) : ℕ) : ℚ) := by exact_mod_cast hnat
  rw [Nat.cast_mul, Nat.cast_mul, Nat.cast_mul, Nat.cast_sub hq] at hcast
  push_cast at hcast
  unfold valueUp
  rw [div_sub_div _ _ hp'.ne' hq'.ne', le_div_iff₀ (by positivity)]
  linarith

/-- The output of a walk whose bands all fall does not wrap. -/
theorem sum_rungOut_down (hs : Sized pool)
    (hfall : ∀ b ∈ bands pool direction, b.target < b.start ∧ b.start < 2 ^ 128)
    (hp : pool.sqrtPriceX96 < 2 ^ 128) (hx : x < 2 ^ 128) :
    ((rungs pool direction x).map (rungOut pool)).sum < 2 ^ 256 := by
  obtain ⟨hchain, hhead⟩ := bandsFrom_isChain pool direction (pool.ticks.size + 2)
    pool.sqrtPriceX96 pool.tick pool.liquidity
  have hV : ∀ p, 0 ≤ valueDown p := fun p => by unfold valueDown q96; positivity
  have hsum := sum_taken_le (bandCost pool) x (rungOut pool) hV (fun b hb => ?_)
    (fun b hb r hr hrx => ?_) hchain hhead
  · have hbound : valueDown pool.sqrtPriceX96 < 2 ^ 256 := by
      have hcast : (pool.sqrtPriceX96 : ℚ) < 2 ^ 128 := by exact_mod_cast hp
      unfold valueDown q96
      rw [div_lt_iff₀ (by norm_num)]
      push_cast
      linarith
    exact_mod_cast lt_of_le_of_lt hsum hbound
  · have hstretch := stretch_of_mem_bandsFrom hs.liquidity_lt hb
    obtain ⟨hdown, -⟩ := hfall b hb
    unfold rungOut
    rw [rungStep_whole, decide_eq_true hdown]
    exact amountOut_le_valueDown hstretch.liquidity_lt hdown.le
  · have hstretch := stretch_of_mem_bandsFrom hs.liquidity_lt hb
    obtain ⟨hdown, hstart⟩ := hfall b hb
    have hprice := partPrice_down hs hstretch hdown (by omega) hr (by omega)
    unfold rungOut
    rw [rungStep_part hr, decide_eq_true hdown]
    have := amountOut_le_valueDown hstretch.liquidity_lt hprice.2
    have := hV (partPrice pool b r)
    dsimp only
    linarith

/-- The output of a walk whose bands all rise does not wrap. -/
theorem sum_rungOut_up (hs : Sized pool)
    (hrise : ∀ b ∈ bands pool direction, b.start < b.target ∧ 0 < b.start)
    (hp : 0 < pool.sqrtPriceX96) (hx : x < 2 ^ 128) :
    ((rungs pool direction x).map (rungOut pool)).sum < 2 ^ 256 := by
  obtain ⟨hchain, hhead⟩ := bandsFrom_isChain pool direction (pool.ticks.size + 2)
    pool.sqrtPriceX96 pool.tick pool.liquidity
  have hV : ∀ p, 0 ≤ valueUp p := fun p => by unfold valueUp q96; positivity
  have hsum := sum_taken_le (bandCost pool) x (rungOut pool) hV (fun b hb => ?_)
    (fun b hb r hr hrx => ?_) hchain hhead
  · have hbound : valueUp pool.sqrtPriceX96 < 2 ^ 256 := by
      have hcast : (1 : ℚ) ≤ pool.sqrtPriceX96 := by exact_mod_cast hp
      unfold valueUp q96
      rw [div_lt_iff₀ (by linarith)]
      push_cast
      linarith
    exact_mod_cast lt_of_le_of_lt hsum hbound
  · have hstretch := stretch_of_mem_bandsFrom hs.liquidity_lt hb
    obtain ⟨hup, hstart⟩ := hrise b hb
    unfold rungOut
    rw [rungStep_whole, decide_eq_false (by omega : ¬b.target < b.start)]
    exact amountOut_le_valueUp hstretch.liquidity_lt hstart hup.le
  · have hstretch := stretch_of_mem_bandsFrom hs.liquidity_lt hb
    obtain ⟨hup, hstart⟩ := hrise b hb
    have hprice := partPrice_up hs hstretch hup hr (by omega)
    unfold rungOut
    rw [rungStep_part hr, decide_eq_false (by omega : ¬b.target < b.start)]
    have := amountOut_le_valueUp hstretch.liquidity_lt hstart hprice.1
    have := hV (partPrice pool b r)
    dsimp only
    linarith

/-! ## The quote -/

/-- The target of a band for token0 is the price of a tick. -/
theorem exists_tick_of_target (hprice : minSqrtRatio ≤ price)
    (h : (bandAhead pool .zeroForOne price tick L).target ≠ price) :
    ∃ t ∈ Set.Icc minTick maxTick,
      (bandAhead pool .zeroForOne price tick L).target = getSqrtRatioAtTick t := by
  have hmem : minTick + 1 ∈ Set.Icc minTick maxTick := by decide
  unfold bandAhead getSwapTargetForTick at h ⊢
  dsimp only at h ⊢
  generalize findNextInitializedTick pool.ticks tick .zeroForOne = next at *
  rcases next with - | t
  · exact ⟨_, hmem, rfl⟩
  · dsimp only at h ⊢
    rcases le_total (getSqrtRatioAtTick t) minSqrtRatio with hle | hle
    · exact ⟨_, hmem, by rw [max_eq_right hle, min_eq_left hprice]; rfl⟩
    · rw [max_eq_left hle] at h ⊢
      have ht : t ∈ Set.Icc minTick maxTick := by
        by_contra ht
        rw [getSqrtRatioAtTick_of_outside ht] at hle
        have := minSqrtRatio_pos
        omega
      exact ⟨t, ht, by omega⟩

/-- No tick has a price just below `2 ^ 128`. -/
theorem getSqrtRatioAtTick_le_of_lt {t : ℤ} (ht : t ∈ Set.Icc minTick maxTick)
    (hlt : getSqrtRatioAtTick t < 2 ^ 128) : getSqrtRatioAtTick t ≤ 2 ^ 128 - 2 ^ 96 := by
  have hlo : getSqrtRatioAtTick 443636 ≤ 2 ^ 128 - 2 ^ 96 := by decide
  have hhi : 2 ^ 128 ≤ getSqrtRatioAtTick 443637 := by decide
  have hmem : (443636 : ℤ) ∈ Set.Icc minTick maxTick := by decide
  have hmem' : (443637 : ℤ) ∈ Set.Icc minTick maxTick := by decide
  rcases le_or_gt t 443636 with hle | hgt
  · exact ((getSqrtRatioAtTick_strictMonoOn.le_iff_le ht hmem).mpr hle).trans hlo
  · have := (getSqrtRatioAtTick_strictMonoOn.le_iff_le hmem' ht).mpr (by omega)
    omega

theorem two_pow_le_maxSqrtRatio : 2 ^ 128 ≤ maxSqrtRatio := by decide

/-- Below these prices no denominator wraps. -/
theorem denominator_fits (hL : L < 2 ^ 128) (ha : a < 2 ^ 128) (hp : p ≤ 2 ^ 128 - 2 ^ 96) :
    L * q96 + a * p < 2 ^ 256 := by
  unfold q96
  have h1 : L * 2 ^ 96 ≤ (2 ^ 128 - 1) * 2 ^ 96 := Nat.mul_le_mul_right _ (by omega)
  have h2 : a * p ≤ (2 ^ 128 - 1) * (2 ^ 128 - 2 ^ 96) := Nat.mul_le_mul (by omega) hp
  calc L * 2 ^ 96 + a * p ≤ (2 ^ 128 - 1) * 2 ^ 96 + (2 ^ 128 - 1) * (2 ^ 128 - 2 ^ 96) :=
        Nat.add_le_add h1 h2
    _ < 2 ^ 256 := by norm_num

/-- Along rising bands, a larger input pays out no less. -/
theorem sum_rungOut_mono_up (hs : Sized pool) {bs : List Band}
    (hbs : ∀ b ∈ bs, Stretch pool direction b)
    (hrise : ∀ b ∈ bs, b.start < b.target ∧ 0 < b.start) (hxy : x ≤ y) (hy : y < 2 ^ 128) :
    ((taken (bandCost pool) bs x).map (rungOut pool)).sum ≤
      ((taken (bandCost pool) bs y).map (rungOut pool)).sum := by
  refine sum_taken_mono (fun b hb r r' hr hcost hle => ?_) (fun b hb r hcost hle => ?_) hxy
  · exact rungOut_part_mono_up hs (hbs b hb) (hrise b hb).1 (hrise b hb).2 hr hcost (by omega)
  · exact rungOut_part_le_up hs (hbs b hb) (hrise b hb).1 (hrise b hb).2 hcost (by omega)

/-- Along falling bands below the prices that may wrap, a larger input pays out no less. -/
theorem sum_rungOut_mono_down (hs : Sized pool) {bs : List Band}
    (hbs : ∀ b ∈ bs, Stretch pool direction b)
    (hfall : ∀ b ∈ bs, b.target < b.start ∧ b.start ≤ 2 ^ 128 - 2 ^ 96) (hxy : x ≤ y)
    (hy : y < 2 ^ 128) : ((taken (bandCost pool) bs x).map (rungOut pool)).sum ≤
      ((taken (bandCost pool) bs y).map (rungOut pool)).sum := by
  refine sum_taken_mono (fun b hb r r' hr hcost hle => ?_) (fun b hb r hcost hle => ?_) hxy
  · obtain ⟨hdown, hstart⟩ := hfall b hb
    have hafter : amountAfterFee pool.info.feeTier r' < 2 ^ 128 :=
      lt_of_le_of_lt (Nat.sub_le _ _) (by omega)
    exact rungOut_part_mono_down hs (hbs b hb) hdown (by omega) hr hcost (by omega)
      (denominator_fits (hbs b hb).liquidity_lt hafter hstart)
  · exact rungOut_part_le_down hs (hbs b hb) (hfall b hb).1 (by have := (hfall b hb).2; omega)
      hcost (by omega)

/-- The first band may start at a price that wraps; then the larger input pays out nothing there. -/
theorem sum_rungOut_mono_first (hs : Sized pool) {bs : List Band}
    (hb : Stretch pool direction b) (hfall : b.target < b.start) (hstart : b.start < 2 ^ 128)
    (hbs : ∀ c ∈ bs, Stretch pool direction c)
    (hrest : ∀ c ∈ bs, c.target < c.start ∧ c.start ≤ 2 ^ 128 - 2 ^ 96)
    (hxy : x ≤ y) (hy : y < 2 ^ 128)
    (hpos : ((taken (bandCost pool) (b :: bs) y).map (rungOut pool)).sum ≠ 0) :
    ((taken (bandCost pool) (b :: bs) x).map (rungOut pool)).sum ≤
      ((taken (bandCost pool) (b :: bs) y).map (rungOut pool)).sum := by
  rcases Nat.eq_zero_or_pos x with rfl | hx
  · simp
  rcases Nat.lt_or_ge y (bandCost pool b) with hcost | hcost
  · rw [taken_part (by omega) hcost, List.map_singleton, List.sum_singleton] at hpos ⊢
    rw [taken_part hx.ne' (by omega), List.map_singleton, List.sum_singleton]
    refine rungOut_part_mono_down hs hb hfall hstart hxy hcost hy ?_
    by_contra hwrap
    exact hpos (rungOut_of_wrap hb hfall hstart hcost hy (by omega))
  · rw [taken_whole (by omega) hcost, List.map_cons, List.sum_cons]
    rcases Nat.lt_or_ge x (bandCost pool b) with hcost' | hcost'
    · rw [taken_part hx.ne' hcost', List.map_singleton, List.sum_singleton]
      exact (rungOut_part_le_down hs hb hfall hstart hcost' (by omega)).trans
        (Nat.le_add_right _ _)
    · rw [taken_whole hx.ne' hcost', List.map_cons, List.sum_cons]
      exact Nat.add_le_add_left (sum_rungOut_mono_down hs hbs hrest
        (Nat.sub_le_sub_right hxy _) (by omega)) _

theorem quoteV3ExactInPost_amountOut {post : V3QuotePostState} (hx : x < 2 ^ 128)
    (h : quoteV3ExactInPost pool x direction = some post) :
    post.amountOut = paidOut pool direction x ∧ paidOut pool direction x ≠ 0 ∧
      pool.sqrtPriceX96 ≠ 0 := by
  rw [quoteV3ExactInPost_eq hx] at h
  split_ifs at h with h₀ h₁
  obtain rfl := Option.some.inj h
  exact ⟨rfl, by omega, by omega⟩

/-- The bands for token0, from a price in the range that is below `2 ^ 128`: they all fall, and all
    but the first start below the prices that may wrap. -/
theorem bands_down (hs : Sized pool) (hmin : minSqrtRatio ≤ pool.sqrtPriceX96)
    (hp : pool.sqrtPriceX96 < 2 ^ 128) : bands pool .zeroForOne = [] ∨
      ∃ b rest, bands pool .zeroForOne = b :: rest ∧ Stretch pool .zeroForOne b ∧
        (b.target < b.start ∧ b.start < 2 ^ 128) ∧
        (∀ c ∈ rest, Stretch pool .zeroForOne c) ∧
        ∀ c ∈ rest, c.target < c.start ∧ c.start ≤ 2 ^ 128 - 2 ^ 96 := by
  have hstretch : ∀ b ∈ bands pool .zeroForOne, Stretch pool .zeroForOne b := fun b hb =>
    stretch_of_mem_bandsFrom hs.liquidity_lt hb
  have hfall : ∀ b ∈ bands pool .zeroForOne, b.target < b.start ∧ minSqrtRatio ≤ b.target ∧
      b.start ≤ pool.sqrtPriceX96 := fun b hb => bandsFrom_down hmin hb
  generalize hb : bandAhead pool .zeroForOne pool.sqrtPriceX96 pool.tick pool.liquidity = b
  rcases bandsFrom_cases (pool.ticks.size + 1) hb with ⟨-, hcons⟩ | ⟨-, -, hcons⟩ |
    ⟨-, t, -, -, hcons⟩ | ⟨hmoves, t, -, -, hcons⟩
  · exact .inl hcons
  all_goals
    change bands pool .zeroForOne = _ at hcons
    have hmem : b ∈ bands pool .zeroForOne := by
      rw [hcons]
      exact List.mem_cons_self ..
    obtain ⟨hdown, hlo, hstart⟩ := hfall b hmem
    refine .inr ⟨b, _, hcons, hstretch b hmem, ⟨hdown, by omega⟩, ?_, ?_⟩
  · exact nofun
  · exact nofun
  · exact nofun
  · exact nofun
  · exact fun c hc => hstretch c (by rw [hcons]; exact List.mem_cons_of_mem _ hc)
  · intro c hc
    obtain ⟨t, ht, htarget⟩ := exists_tick_of_target hmin (by rw [hb]; exact hmoves)
    rw [hb] at htarget
    have hle := getSqrtRatioAtTick_le_of_lt ht (by omega)
    obtain ⟨hdown', -, hstart'⟩ := bandsFrom_down hlo hc
    exact ⟨hdown', by omega⟩

/-- What the rungs of a quote pay out, where that does not wrap. -/
theorem paidOut_eq (h : ((rungs pool direction x).map (rungOut pool)).sum < 2 ^ 256) :
    paidOut pool direction x = ((rungs pool direction x).map (rungOut pool)).sum :=
  Nat.mod_eq_of_lt h

/-- **Main theorem.** A quote for a larger input pays out no less. -/
theorem quoteV3ExactInPost_mono (hs : Sized pool) (hp : pool.sqrtPriceX96 < 2 ^ 128)
    (hxy : x ≤ y) (hy : y < 2 ^ 128) {px py : V3QuotePostState}
    (hpx : quoteV3ExactInPost pool x direction = some px)
    (hpy : quoteV3ExactInPost pool y direction = some py) : px.amountOut ≤ py.amountOut := by
  have hx : x < 2 ^ 128 := lt_of_le_of_lt hxy hy
  obtain ⟨hout, -, hprice⟩ := quoteV3ExactInPost_amountOut hx hpx
  obtain ⟨hout', hne, -⟩ := quoteV3ExactInPost_amountOut hy hpy
  have hstretch : ∀ b ∈ bands pool direction, Stretch pool direction b := fun b hb =>
    stretch_of_mem_bandsFrom hs.liquidity_lt hb
  rw [hout, hout']
  have hrising (hrise : ∀ b ∈ bands pool direction, b.start < b.target ∧ 0 < b.start) :
      paidOut pool direction x ≤ paidOut pool direction y := by
    rw [paidOut_eq (sum_rungOut_up hs hrise (by omega) hx),
      paidOut_eq (sum_rungOut_up hs hrise (by omega) hy)]
    exact sum_rungOut_mono_up hs hstretch hrise hxy hy
  cases direction with
  | oneForZero =>
    have hmax := two_pow_le_maxSqrtRatio
    refine hrising fun b hb => ?_
    obtain ⟨hup, -, hstart⟩ := bandsFrom_up (by omega) hb
    omega
  | zeroForOne =>
    rcases Nat.lt_or_ge pool.sqrtPriceX96 minSqrtRatio with hbelow | hmin
    · refine hrising fun b hb => ?_
      obtain ⟨hup, hstart⟩ := bandsFrom_below hbelow hb
      omega
    have hfall : ∀ b ∈ bands pool .zeroForOne, b.target < b.start ∧ b.start < 2 ^ 128 :=
      fun b hb => by
        obtain ⟨hdown, -, hstart⟩ := bandsFrom_down hmin hb
        omega
    have hsumx := paidOut_eq (sum_rungOut_down hs hfall hp hx)
    have hsumy := paidOut_eq (sum_rungOut_down hs hfall hp hy)
    rw [hsumx, hsumy]
    rw [hsumy] at hne
    unfold rungs at hne ⊢
    rcases bands_down hs hmin hp with hnil | ⟨b, rest, hcons, hb, hdown, hrest, hbelow⟩
    · rw [hnil]
      exact le_rfl
    · rw [hcons] at hne ⊢
      exact sum_rungOut_mono_first hs hb hdown.1 hdown.2 hrest hbelow hxy hy hne

/-- Two quotes of `rangePool`, the larger one across the tick -60. -/
theorem rangePool_mono :
    ∃ px py, quoteV3ExactInPost rangePool (10 ^ 6) .zeroForOne = some px ∧
      quoteV3ExactInPost rangePool (10 ^ 10) .zeroForOne = some py ∧
      px.amountOut ≤ py.amountOut := by
  obtain ⟨px, hpx⟩ : ∃ px, quoteV3ExactInPost rangePool (10 ^ 6) .zeroForOne = some px :=
    Option.isSome_iff_exists.mp (by decide +kernel)
  obtain ⟨py, hpy⟩ : ∃ py, quoteV3ExactInPost rangePool (10 ^ 10) .zeroForOne = some py :=
    Option.isSome_iff_exists.mp (by decide +kernel)
  exact ⟨px, py, hpx, hpy,
    quoteV3ExactInPost_mono (by decide) (by decide) (by decide) (by decide) hpx hpy⟩

end MevScout.Pool.Math
