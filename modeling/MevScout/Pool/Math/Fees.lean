import MevScout.Pool.Math.Band
import MevScout.Pool.Math.Bands
import MevScout.Pool.Math.TickPrice

/-!
# Fees along a walk

`compute_swap_step` charges a band that it passes the fee rate on `max_in`, on top of it, and a
band that it stops in the fee rate on all that was left. The first is less than the rate on
what the band takes in, fee included: `c` on top of `M` covers the rate `f / d` of `M + c` only
where the rounding of `c` makes up for the fee on the fee.

Results:
* `maxIn_le`, `feeRoundUp_spec`: no value of a step leaves `U256`;
* `rung_balance`: what a rung is short of its fee, or over it;
* `coversFee_iff`: when the fees of a walk cover the rate and nothing is consumed beyond the input;
* `boundary_undercharged`: an input that ends on a tick and is charged too little.
-/

namespace MevScout.Pool.Math

open Ladder

variable {pool : UniswapV3PoolState} {direction : V3Direction} {fee : FeeTier}
  {p q t L amount amountIn : ℕ}

/-! ## The widths of the values -/

/-- The fields of a pool have the widths of the source: `U256`, `u128` and `u32`. -/
structure Sized (pool : UniswapV3PoolState) : Prop where
  price_lt : pool.sqrtPriceX96 < 2 ^ 256
  liquidity_lt : pool.liquidity < 2 ^ 128
  fee_lt : pool.info.fee < 2 ^ 32

instance (pool : UniswapV3PoolState) : Decidable (Sized pool) :=
  decidable_of_iff (pool.sqrtPriceX96 < 2 ^ 256 ∧ pool.liquidity < 2 ^ 128 ∧
      pool.info.fee < 2 ^ 32)
    ⟨fun h => ⟨h.1, h.2.1, h.2.2⟩, fun h => ⟨h.1, h.2, h.3⟩⟩

/-- A target that is not the current price is a price of 160 bits. -/
theorem bandAhead_target {price : ℕ} {tick : ℤ}
    (h : (bandAhead pool direction price tick L).target ≠ price) :
    0 < (bandAhead pool direction price tick L).target ∧
      (bandAhead pool direction price tick L).target < 2 ^ 160 := by
  have hmin := minSqrtRatio_pos
  have hmax := maxSqrtRatio_lt
  have hlt := minSqrtRatio_lt_maxSqrtRatio
  unfold bandAhead getSwapTargetForTick at h ⊢
  dsimp only at h ⊢
  generalize findNextInitializedTick pool.ticks tick direction = next at *
  rcases next with - | t
  · cases direction <;> dsimp only <;> omega
  · have hr := getSqrtRatioAtTick_lt t
    cases direction <;> dsimp only at h ⊢ <;> omega

/-! ## Rounding up -/

theorem ceilDiv_eq_ite {n d : ℕ} (hd : 0 < d) :
    n ⌈/⌉ d = if n % d = 0 then n / d else n / d + 1 := by
  refine eq_of_forall_ge_iff fun c => ?_
  rw [ceilDiv_le_iff_le_mul hd]
  have hdiv := Nat.div_add_mod n d
  have hmod := Nat.mod_lt n hd
  split_ifs with h
  · constructor
    · intro hle
      exact Nat.div_le_of_le_mul hle
    · intro hle
      have := Nat.mul_le_mul_left d hle
      omega
  · constructor
    · intro hle
      by_contra hlt
      have := Nat.mul_le_mul_left d (show c ≤ n / d by omega)
      omega
    · intro hle
      have := Nat.mul_le_mul_left d hle
      rw [Nat.mul_add] at this
      omega

theorem ceilDiv_le_self {n d : ℕ} (hd : 0 < d) : n ⌈/⌉ d ≤ n :=
  (ceilDiv_le_iff_le_mul hd).mpr (Nat.le_mul_of_pos_left n hd)

theorem le_mul_ceilDiv {n d : ℕ} (hd : 0 < d) : n ≤ d * (n ⌈/⌉ d) :=
  (ceilDiv_le_iff_le_mul hd).mp le_rfl

theorem mulDivRoundUp_eq {a b d : ℕ} (hd : 0 < d) (h : a * b < 2 ^ 256) :
    mulDivRoundUp a b d = some (a * b ⌈/⌉ d) := by
  unfold mulDivRoundUp u512ToU256Checked
  rw [if_neg hd.ne']
  dsimp only
  rw [← ceilDiv_eq_ite hd, if_pos ((ceilDiv_le_self hd).trans_lt h)]

theorem two_le_fraction_den (fee : FeeTier) : 2 ≤ fee.fraction.2 := by
  cases fee <;> simp [FeeTier.fraction, bpsFeeDenom, ppmFeeDenom]

theorem fraction_den_le (fee : FeeTier) : fee.fraction.2 ≤ 2 ^ 20 := by
  cases fee <;> simp [FeeTier.fraction, bpsFeeDenom, ppmFeeDenom]

theorem fraction_den_pos (fee : FeeTier) : 0 < fee.fraction.2 :=
  lt_of_lt_of_le (by norm_num) (two_le_fraction_den fee)

theorem feeRoundUp_eq (h : amount * fee.fraction.1 < 2 ^ 256) :
    feeRoundUp fee amount = amount * fee.fraction.1 ⌈/⌉ fee.fraction.2 := by
  unfold feeRoundUp
  rw [mulDivRoundUp_eq (fraction_den_pos fee) h]
  rfl

/-- The input of a whole band whose price falls. -/
theorem maxIn_down (ht : 0 < t) (htp : t < p) (hp : t ≤ 2 ^ 224) (hL : L < 2 ^ 128) :
    maxIn p t L = L * q96 * (p - t) / p ⌈/⌉ t := by
  have hN : L * q96 < 2 ^ 224 := by
    unfold q96
    omega
  have hle : L * q96 * (p - t) / p ≤ L * q96 :=
    Nat.div_le_of_le_mul (by rw [Nat.mul_comm p]; exact Nat.mul_le_mul_left _ (Nat.sub_le _ _))
  unfold maxIn getAmount0Delta
  rw [if_pos htp, if_neg (show ¬t > p by omega)]
  dsimp only
  rw [if_neg ht.ne', liquidity_mul_q96 hL, mulDiv_eq (by omega) (by omega), Option.map_some,
    if_pos rfl, Option.getD_some]
  generalize L * q96 * (p - t) / p = i at *
  rw [wrappingAdd_eq (by omega), wrappingSub_eq (by omega) (by omega)]
  rfl

/-- The input of a whole band whose price rises. -/
theorem maxIn_up (hpt : p ≤ t) : maxIn p t L = wrappingMul 256 L (t - p) ⌈/⌉ q96 := by
  have hlt : wrappingMul 256 L (t - p) < 2 ^ 256 := Nat.mod_lt _ (Nat.two_pow_pos 256)
  unfold maxIn getAmount1Delta
  rw [if_neg (show ¬t < p by omega), if_neg (show ¬p > t by omega)]
  dsimp only
  rw [if_pos rfl, mulDivRoundUp_eq (by unfold q96; norm_num) (by omega), Option.getD_some,
    Nat.mul_one]

/-- A band without liquidity takes in nothing. -/
theorem maxIn_zero (ht : 0 < t) (htlt : t ≤ 2 ^ 224) : maxIn p t 0 = 0 := by
  rcases Nat.lt_or_ge t p with hdown | hup
  · rw [maxIn_down ht hdown htlt (by norm_num)]
    simp
  · rw [maxIn_up hup, wrappingMul, Nat.zero_mul, Nat.zero_mod]
    exact zero_ceilDiv _

/-- The input of a whole band has at most 225 bits. -/
theorem maxIn_le (ht : 0 < t) (htlt : t < 2 ^ 160) (hL : L < 2 ^ 128) :
    maxIn p t L ≤ 2 ^ 224 := by
  rcases Nat.lt_or_ge t p with htp | hpt
  · rw [maxIn_down ht htp (by omega) hL]
    refine (ceilDiv_le_self ht).trans ?_
    refine Nat.div_le_of_le_mul ?_
    have hN : L * q96 ≤ 2 ^ 224 := by
      unfold q96
      omega
    calc L * q96 * (p - t) ≤ 2 ^ 224 * p := Nat.mul_le_mul hN (Nat.sub_le _ _)
      _ = p * 2 ^ 224 := Nat.mul_comm _ _
  · rw [maxIn_up hpt, ceilDiv_le_iff_le_mul (by unfold q96; norm_num)]
    have hlt : wrappingMul 256 L (t - p) < 2 ^ 256 := Nat.mod_lt _ (Nat.two_pow_pos 256)
    unfold q96
    omega

theorem liquidityBeyond_lt (hL : L < 2 ^ 128) (t : ℤ) :
    liquidityBeyond pool direction L t < 2 ^ 128 := by
  unfold liquidityBeyond crossTick
  dsimp only
  split
  · exact hL
  · unfold saturatingAdd
    dsimp only
    split_ifs <;> omega

/-- A band of a walk is the stretch ahead of its start, and its target is a price. -/
structure Stretch (pool : UniswapV3PoolState) (direction : V3Direction) (b : Band) : Prop where
  ahead : b = bandAhead pool direction b.start b.tick b.liquidity
  moves : b.target ≠ b.start
  liquidity_lt : b.liquidity < 2 ^ 128

theorem Stretch.target {b : Band} (h : Stretch pool direction b) :
    0 < b.target ∧ b.target < 2 ^ 160 := by
  have hmoves := h.moves
  rw [h.ahead] at hmoves ⊢
  exact bandAhead_target hmoves

theorem stretch_of_mem_bandsFrom {fuel price : ℕ} {tick : ℤ} {b : Band} (hL : L < 2 ^ 128)
    (h : b ∈ bandsFrom pool direction fuel price tick L) : Stretch pool direction b := by
  induction fuel generalizing price tick L with
  | zero => cases h
  | succ fuel ih =>
    rcases bandsFrom_cases (L := L) fuel rfl with ⟨-, hcons⟩ | ⟨hmoves, -, hcons⟩ |
      ⟨hmoves, t, -, -, hcons⟩ | ⟨hmoves, t, -, -, hcons⟩
    · rw [hcons] at h
      cases h
    · rw [hcons] at h
      obtain rfl := List.mem_singleton.mp h
      exact ⟨rfl, hmoves, hL⟩
    · rw [hcons] at h
      obtain rfl := List.mem_singleton.mp h
      exact ⟨rfl, hmoves, hL⟩
    · rw [hcons] at h
      rcases List.mem_cons.mp h with rfl | h
      · exact ⟨rfl, hmoves, hL⟩
      · exact ih (liquidityBeyond_lt hL t) h

theorem stretch_of_mem_rungs {r : Band × Option ℕ} (hs : Sized pool)
    (h : r ∈ rungs pool direction amountIn) : Stretch pool direction r.1 :=
  stretch_of_mem_bandsFrom hs.liquidity_lt (mem_of_mem_taken h)

/-! ## The fee of a rung -/

theorem fraction_num_lt (hs : Sized pool) : pool.info.feeTier.fraction.1 < 2 ^ 32 := by
  have hfee := hs.fee_lt
  unfold PoolInfo.feeTier FeeTier.fromRaw
  split_ifs
  · cases pool.info.dexType <;> exact Nat.two_pow_pos 32
  · cases pool.info.dexType <;> first | exact hfee | exact Nat.two_pow_pos 32

/-- The amount that the fee of a rung is computed on: what a whole band takes in, or all that is
    left for a band that is not passed. -/
def feeBase (r : Band × Option ℕ) : ℕ := r.2.getD (maxIn r.1.start r.1.target r.1.liquidity)

/-- What the rounding adds to the fee of a rung, in units of one over the denominator. -/
def roundingGain (pool : UniswapV3PoolState) (r : Band × Option ℕ) : ℕ :=
  feeRoundUp pool.info.feeTier (feeBase r) * pool.info.feeTier.fraction.2 -
    pool.info.feeTier.fraction.1 * feeBase r

/-- The fee of a whole rung, which is charged on top of `maxIn` and not charged for. -/
def feeOnTop (pool : UniswapV3PoolState) (r : Band × Option ℕ) : ℕ :=
  if r.2 = none then feeRoundUp pool.info.feeTier (feeBase r) else 0

/-- What a step consumes of the input. -/
def consumed (step : SwapStep) : ℕ := step.amountIn + step.feeAmount

/-- The fee on an amount that fits is the fee rate on it, rounded up, and fits. -/
theorem feeRoundUp_spec (hs : Sized pool) (h : amount ≤ 2 ^ 224) :
    pool.info.feeTier.fraction.1 * amount ≤
        feeRoundUp pool.info.feeTier amount * pool.info.feeTier.fraction.2 ∧
      feeRoundUp pool.info.feeTier amount ≤ 2 ^ 255 ∧
      (feeRoundUp pool.info.feeTier amount ≤ amount ↔
        amount * pool.info.feeTier.fraction.1 ≤ pool.info.feeTier.fraction.2 * amount) := by
  have hnum := fraction_num_lt hs
  have hden := two_le_fraction_den pool.info.feeTier
  have hpos : 0 < pool.info.feeTier.fraction.2 := by omega
  generalize hn : pool.info.feeTier.fraction.1 = num at *
  generalize hd : pool.info.feeTier.fraction.2 = den at *
  have hmul : amount * num < 2 ^ 256 := by
    calc amount * num ≤ 2 ^ 224 * (2 ^ 32 - 1) := Nat.mul_le_mul h (by omega)
      _ < 2 ^ 256 := by norm_num
  rw [feeRoundUp_eq (by rw [hn]; exact hmul), hn, hd]
  refine ⟨?_, ?_, ceilDiv_le_iff_le_mul hpos⟩
  · rw [Nat.mul_comm num, Nat.mul_comm _ den]
    exact le_mul_ceilDiv hpos
  · rw [ceilDiv_le_iff_le_mul hpos]
    calc amount * num ≤ 2 * 2 ^ 255 := by omega
      _ ≤ den * 2 ^ 255 := Nat.mul_le_mul_right _ hden

/-- The cost of a band, without wrapping. -/
theorem bandCost_eq (hs : Sized pool) {b : Band} (hb : Stretch pool direction b) :
    bandCost pool b = maxIn b.start b.target b.liquidity +
      feeRoundUp pool.info.feeTier (maxIn b.start b.target b.liquidity) := by
  obtain ⟨hpos, hlt⟩ := hb.target
  have hmax : maxIn b.start b.target b.liquidity ≤ 2 ^ 224 := maxIn_le hpos hlt hb.liquidity_lt
  obtain ⟨-, hfee, -⟩ := feeRoundUp_spec hs hmax
  exact wrappingAdd_eq (by omega)

/-- What a rung that is paid for as a whole consumes is its cost. -/
theorem whole_spec (hs : Sized pool) {b : Band} (hb : Stretch pool direction b) :
    (rungStep pool (b, none)).amountIn = maxIn b.start b.target b.liquidity ∧
      (rungStep pool (b, none)).feeAmount =
        feeRoundUp pool.info.feeTier (maxIn b.start b.target b.liquidity) ∧
      consumed (rungStep pool (b, none)) = bandCost pool b := by
  rw [rungStep_whole]
  exact ⟨rfl, rfl, (bandCost_eq hs hb).symm⟩

/-- What a rung that is paid for in part consumes: what is left, or the whole fee where that is
    more. -/
theorem part_spec {b : Band} {x : ℕ} (h : x < bandCost pool b) :
    (rungStep pool (b, some x)).amountIn = amountAfterFee pool.info.feeTier x ∧
      (rungStep pool (b, some x)).feeAmount = feeRoundUp pool.info.feeTier x ∧
      consumed (rungStep pool (b, some x)) = max x (feeRoundUp pool.info.feeTier x) := by
  rw [rungStep_part h]
  refine ⟨rfl, rfl, ?_⟩
  show amountAfterFee _ _ + feeRoundUp _ _ = _
  unfold amountAfterFee
  omega

/-- The rate on what a rung consumes, with the rounding, is its fee with the fee on the fee. -/
theorem rung_balance (hs : Sized pool) {r : Band × Option ℕ} (hlt : amountIn < 2 ^ 128)
    (hr : r ∈ rungs pool direction amountIn)
    (hpart : r.2 ≠ none → pool.info.feeTier.fraction.1 ≤ pool.info.feeTier.fraction.2) :
    pool.info.feeTier.fraction.1 * consumed (rungStep pool r) + roundingGain pool r =
      (rungStep pool r).feeAmount * pool.info.feeTier.fraction.2 +
        pool.info.feeTier.fraction.1 * feeOnTop pool r := by
  have hb := stretch_of_mem_rungs hs hr
  obtain ⟨b, paidFor⟩ := r
  rcases paidFor with - | x
  · obtain ⟨hpos, htarget⟩ := hb.target
    have hmax : maxIn b.start b.target b.liquidity ≤ 2 ^ 224 :=
      maxIn_le hpos htarget hb.liquidity_lt
    obtain ⟨hin, hfee, -⟩ := whole_spec hs hb
    obtain ⟨hrate, -, -⟩ := feeRoundUp_spec hs hmax
    unfold consumed roundingGain feeOnTop feeBase
    rw [if_pos rfl, hin, hfee, Option.getD_none, Nat.mul_add]
    dsimp only
    omega
  · obtain ⟨-, hcost, hxle⟩ := part_lt hr
    obtain ⟨hrate, -, hle⟩ := feeRoundUp_spec hs (show x ≤ 2 ^ 224 by omega)
    obtain ⟨-, hfee, hconsumed⟩ := part_spec hcost
    have hfit : feeRoundUp pool.info.feeTier x ≤ x := by
      rw [hle, Nat.mul_comm]
      exact Nat.mul_le_mul_right x (hpart nofun)
    unfold roundingGain feeOnTop feeBase
    rw [if_neg nofun, hconsumed, hfee, Option.getD_some, max_eq_left hfit]
    omega

/-! ## The fees of a walk -/

/-- The fees of a walk cover the fee rate on all that it consumes, and it consumes no more than
    the input. -/
structure CoversFee (pool : UniswapV3PoolState) (direction : V3Direction) (amountIn : ℕ) : Prop
    where
  rate : pool.info.feeTier.fraction.1 *
      ((quoteTurns pool direction amountIn).map fun t => consumed (stepAt pool direction t.1)).sum ≤
    ((quoteTurns pool direction amountIn).map fun t =>
      (stepAt pool direction t.1).feeAmount * pool.info.feeTier.fraction.2).sum
  consumed :
    ((quoteTurns pool direction amountIn).map fun t => consumed (stepAt pool direction t.1)).sum ≤
      amountIn

/-- The fees on top of the whole bands bear no more of the rate than the rounding adds; and where
    a band is paid for in part, the fee is at most the input. -/
structure FeeMargin (pool : UniswapV3PoolState) (direction : V3Direction) (amountIn : ℕ) : Prop
    where
  part : ∀ r ∈ rungs pool direction amountIn, r.2 ≠ none →
    pool.info.feeTier.fraction.1 ≤ pool.info.feeTier.fraction.2
  margin : pool.info.feeTier.fraction.1 *
      ((rungs pool direction amountIn).map (feeOnTop pool)).sum ≤
    ((rungs pool direction amountIn).map (roundingGain pool)).sum

/-- A sum over the steps of a quote is a sum over its rungs. -/
theorem sum_quoteTurns (pool : UniswapV3PoolState) (direction : V3Direction)
    (hlt : amountIn < 2 ^ 128) (f : SwapStep → ℕ) :
    ((quoteTurns pool direction amountIn).map fun t => f (stepAt pool direction t.1)).sum =
      ((rungs pool direction amountIn).map fun r => f (rungStep pool r)).sum := by
  have hsteps := congrArg (fun l => (List.map f l).sum)
    (map_stepAt_quoteTurns pool direction hlt)
  simp only [List.map_map] at hsteps
  exact hsteps

theorem sum_balance {α : Type*} {l : List α} {f g h k : α → ℕ} {n : ℕ}
    (hl : ∀ a ∈ l, n * f a + g a = h a + n * k a) :
    n * (l.map f).sum + (l.map g).sum = (l.map h).sum + n * (l.map k).sum := by
  induction l with
  | nil => rfl
  | cons a l ih =>
    have ha := hl a (List.mem_cons_self ..)
    have hrest := ih fun b hb => hl b (List.mem_cons_of_mem _ hb)
    simp only [List.map_cons, List.sum_cons, Nat.mul_add]
    omega

/-- Where no fee is above its input, every rung consumes what is paid for it. -/
theorem consumed_eq_paid (hs : Sized pool) (hlt : amountIn < 2 ^ 128) {r : Band × Option ℕ}
    (hr : r ∈ rungs pool direction amountIn)
    (hpart : r.2 ≠ none → pool.info.feeTier.fraction.1 ≤ pool.info.feeTier.fraction.2) :
    consumed (rungStep pool r) = paid (bandCost pool) r := by
  have hb := stretch_of_mem_rungs hs hr
  obtain ⟨b, paidFor⟩ := r
  rcases paidFor with - | x
  · exact (whole_spec hs hb).2.2
  · obtain ⟨-, hcost, hxle⟩ := part_lt hr
    obtain ⟨-, -, hle⟩ := feeRoundUp_spec hs (show x ≤ 2 ^ 224 by omega)
    have hfit : feeRoundUp pool.info.feeTier x ≤ x := by
      rw [hle, Nat.mul_comm]
      exact Nat.mul_le_mul_right x (hpart nofun)
    rw [(part_spec hcost).2.2, max_eq_left hfit]
    rfl

/-- A fee above its input consumes more than the input. -/
theorem lt_sum_consumed (hs : Sized pool) (hlt : amountIn < 2 ^ 128) {b : Band} {x : ℕ}
    (hr : (b, some x) ∈ rungs pool direction amountIn)
    (hfee : pool.info.feeTier.fraction.2 < pool.info.feeTier.fraction.1) :
    amountIn < ((rungs pool direction amountIn).map fun r => consumed (rungStep pool r)).sum := by
  obtain ⟨hx, hcost, hxle⟩ := part_lt hr
  have hpaid := taken_paid (bandCost pool) (bands pool direction) amountIn
  have hfull := le_sum_of_part hr
  have hsum : ((rungs pool direction amountIn).map (paid (bandCost pool))).sum <
      ((rungs pool direction amountIn).map fun r => consumed (rungStep pool r)).sum := by
    refine List.sum_lt_sum _ _ ?_ ⟨_, hr, ?_⟩
    · rintro ⟨b', paidFor⟩ hr'
      rcases paidFor with - | x'
      · exact (whole_spec hs (stretch_of_mem_rungs hs hr')).2.2.ge
      · rw [(part_spec (part_lt hr').2.1).2.2]
        exact le_max_left _ _
    · obtain ⟨-, -, hle⟩ := feeRoundUp_spec hs (show x ≤ 2 ^ 224 by omega)
      have hover : x < feeRoundUp pool.info.feeTier x := by
        rw [← Nat.not_le, hle, Nat.mul_comm, Nat.not_le]
        exact Nat.mul_lt_mul_of_pos_right hfee hx
      rw [(part_spec hcost).2.2]
      exact lt_max_of_lt_right hover
  unfold rungs at hsum ⊢
  omega

/-- **Main theorem.** The fees of a walk cover the rate, and it consumes no more than the input,
    exactly when the walk has the margin for the fees on top of its whole bands. -/
theorem coversFee_iff (hs : Sized pool) (hlt : amountIn < 2 ^ 128) :
    CoversFee pool direction amountIn ↔ FeeMargin pool direction amountIn := by
  have hrate := sum_quoteTurns pool direction hlt
    fun step => step.feeAmount * pool.info.feeTier.fraction.2
  have hconsumed := sum_quoteTurns pool direction hlt consumed
  by_cases hpart : ∀ r ∈ rungs pool direction amountIn, r.2 ≠ none →
      pool.info.feeTier.fraction.1 ≤ pool.info.feeTier.fraction.2
  · have hbalance := sum_balance (f := fun r => consumed (rungStep pool r))
      (g := roundingGain pool) (k := feeOnTop pool) fun r hr => rung_balance hs hlt hr (hpart r hr)
    have hpaid := taken_paid (bandCost pool) (bands pool direction) amountIn
    have hsum : ((rungs pool direction amountIn).map fun r => consumed (rungStep pool r)).sum =
        ((rungs pool direction amountIn).map (paid (bandCost pool))).sum :=
      congrArg List.sum (List.map_congr_left fun r hr => consumed_eq_paid hs hlt hr (hpart r hr))
    constructor
    · rintro ⟨h, -⟩
      rw [hrate, hconsumed] at h
      exact ⟨hpart, by omega⟩
    · rintro ⟨-, h⟩
      refine ⟨?_, ?_⟩
      · rw [hrate, hconsumed]
        omega
      · rw [hconsumed, hsum]
        unfold rungs
        omega
  · constructor
    · rintro ⟨-, h⟩
      push Not at hpart
      obtain ⟨⟨b, paidFor⟩, hr, hsome, hfee⟩ := hpart
      obtain ⟨x, rfl⟩ := Option.ne_none_iff_exists'.mp hsome
      have := lt_sum_consumed hs hlt hr hfee
      omega
    · exact fun h => absurd h.part hpart

/-- A pool at the price 1 with one position around it, from the tick -60 to the tick 60. -/
def rangePool : UniswapV3PoolState where
  info := { token0 := 1, token1 := 2, fee := 3000, dexType := .uniswapV3 }
  sqrtPriceX96 := q96
  liquidity := 10 ^ 12
  ticks := {(-60, 10 ^ 12), (60, -10 ^ 12)}

theorem feeMargin_inRange : FeeMargin rangePool .zeroForOne (10 ^ 6) :=
  ⟨fun _ _ _ => by decide, by decide⟩

/-- A swap inside the range of `rangePool` covers its fee. -/
theorem coversFee_inRange : CoversFee rangePool .zeroForOne (10 ^ 6) :=
  (coversFee_iff (by decide) (by decide)).mpr feeMargin_inRange

/-- The input that takes `rangePool` to the tick -60 pays a fee of 9013063, where 0.3 % of the
    input is 9040102. -/
theorem boundary_undercharged :
    (quoteTurns rangePool .zeroForOne 3013367126).map
        (fun t => (stepAt rangePool .zeroForOne t.1).feeAmount) = [9013063] ∧
      ¬CoversFee rangePool .zeroForOne 3013367126 := by
  refine ⟨by decide +kernel, ?_⟩
  rintro ⟨h, -⟩
  revert h
  decide +kernel

end MevScout.Pool.Math
