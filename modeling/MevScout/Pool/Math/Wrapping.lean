import MevScout.Common.NoOverflow
import MevScout.Common.Rounding
import MevScout.Pool.Math.Monotone

/-!
# Where the arithmetic of a step wraps

The amounts, the new price and the step of `v3.rs`, in a build that checks the 256-bit operators
(`checks`) and in one where they wrap. A computation wraps nowhere exactly when it returns in a
build that checks. Token1 is where it wraps: a liquidity of 128 bits times a difference of prices
of 160 bits, and an amount of 128 bits times a price.

Results:
* `getAmount0DeltaIn_eq`: the amounts of token0 never wrap;
* `guarded_getAmount1DeltaIn`, `guarded_getNextSqrtPriceFromInputIn`,
  `guarded_computeSwapStepIn`: what has to fit;
* `amount0_rounds`, `amount1_rounds`, `nextPrice_rounds`, `step_rounds`: a result that does not
  wrap is the rational that it stands for, rounded;
* `stepArithmetic_exact_iff`: **main theorem**, both at once.
-/

namespace MevScout.Pool.Math

variable {checks roundUp : Bool} {direction : V3Direction} {fee : FeeTier} {a b p q t L x : ℕ}

/-! ## The functions, with checks -/

/-- Model of `get_amount_0_delta` (`v3.rs`, lines 170–192). -/
def getAmount0DeltaIn (checks : Bool) (sqrtRatioA sqrtRatioB liquidity : ℕ) (roundUp : Bool) :
    Except Panic (Option ℕ) :=
  let (low, high) :=
    if sqrtRatioA > sqrtRatioB then (sqrtRatioB, sqrtRatioA) else (sqrtRatioA, sqrtRatioB)
  if low = 0 then .ok none
  else do
    let numerator1 ← arithUnsigned checks 256 (liquidity * q96)
    let numerator2 ← subUnsigned checks 256 high low
    match mulDiv numerator1 numerator2 high with
    | none => .ok none
    | some intermediate =>
      if roundUp then do
        let sum ← arithUnsigned checks 256 (intermediate + low)
        let sum ← subUnsigned checks 256 sum 1
        .ok (some (sum / low))
      else .ok (some (intermediate / low))

/-- Model of `get_amount_1_delta` (lines 194–212). -/
def getAmount1DeltaIn (checks : Bool) (sqrtRatioA sqrtRatioB liquidity : ℕ) (roundUp : Bool) :
    Except Panic (Option ℕ) :=
  let (low, high) :=
    if sqrtRatioA > sqrtRatioB then (sqrtRatioB, sqrtRatioA) else (sqrtRatioA, sqrtRatioB)
  do
    let difference ← subUnsigned checks 256 high low
    let numerator ← arithUnsigned checks 256 (liquidity * difference)
    .ok (if roundUp then mulDivRoundUp numerator 1 q96 else mulDiv numerator 1 q96)

/-- Model of `get_next_sqrt_price_from_input` (lines 214–243). -/
def getNextSqrtPriceFromInputIn (checks : Bool) (sqrtPrice liquidity amountIn : ℕ)
    (direction : V3Direction) : Except Panic (Option ℕ) :=
  if liquidity = 0 ∨ amountIn = 0 then .ok none
  else
    match direction with
    | .zeroForOne => do
      let numerator1 ← arithUnsigned checks 256 (liquidity * q96)
      let numerator2 ← arithUnsigned checks 256 (amountIn * sqrtPrice)
      let denominator ← arithUnsigned checks 256 (numerator1 + numerator2)
      .ok (if denominator ≤ numerator1 then none else mulDiv numerator1 sqrtPrice denominator)
    | .oneForZero =>
      match mulDiv amountIn q96 liquidity with
      | none => .ok none
      | some amountInRatio =>
        if amountInRatio = 0 then .ok none
        else (arithUnsigned checks 256 (sqrtPrice + amountInRatio)).map some

/-- `max_in` of `compute_swap_step`. -/
def maxInIn (checks : Bool) (current target liquidity : ℕ) : Except Panic ℕ :=
  (if target < current then getAmount0DeltaIn checks target current liquidity true
    else getAmount1DeltaIn checks current target liquidity true).map (·.getD 0)

/-- The output of `compute_swap_step` for a price move in the direction `zeroForOne`. -/
def amountOutIn (checks zeroForOne : Bool) (current next liquidity : ℕ) : Except Panic ℕ :=
  (if zeroForOne then getAmount1DeltaIn checks next current liquidity false
    else getAmount0DeltaIn checks current next liquidity false).map (·.getD 0)

/-- The rest of `compute_swap_step`, after `max_in` (lines 276–330). -/
def finishStep (checks : Bool) (current target liquidity amountRemaining : ℕ) (fee : FeeTier)
    (maxIn : ℕ) : Except Panic SwapStep := do
  let zeroForOne : Bool := target < current
  let direction : V3Direction := if zeroForOne then .zeroForOne else .oneForZero
  let feeOnMax := feeRoundUp fee maxIn
  let totalMaxCost ← arithUnsigned checks 256 (maxIn + feeOnMax)
  if amountRemaining ≥ totalMaxCost then
    (amountOutIn checks zeroForOne current target liquidity).map fun amountOut =>
      ⟨target, maxIn, amountOut, feeOnMax⟩
  else
    let feeAmount := feeRoundUp fee amountRemaining
    let afterFee ← subUnsigned checks 256 amountRemaining (min feeAmount amountRemaining)
    let nextSqrt ← (getNextSqrtPriceFromInputIn checks current liquidity afterFee direction).map
      (·.getD current)
    (amountOutIn checks zeroForOne current nextSqrt liquidity).map fun amountOut =>
      ⟨nextSqrt, afterFee, amountOut, feeAmount⟩

/-- Model of `compute_swap_step` (lines 245–331). -/
def computeSwapStepIn (checks : Bool) (current target liquidity amountRemaining : ℕ)
    (fee : FeeTier) : Except Panic SwapStep := do
  let maxIn ← maxInIn checks current target liquidity
  finishStep checks current target liquidity amountRemaining fee maxIn

/-! ## What has to fit -/

/-- The distance of two prices. -/
def spread (a b : ℕ) : ℕ := max a b - min a b

theorem ordered_eq (a b : ℕ) : (if a > b then (b, a) else (a, b)) = (min a b, max a b) := by
  split_ifs with h
  · rw [min_eq_right h.le, max_eq_left h.le]
  · rw [min_eq_left (not_lt.mp h), max_eq_right (not_lt.mp h)]

theorem liquidity_mul_q96_lt (hL : L < 2 ^ 128) : L * q96 < 2 ^ 224 := by
  unfold q96
  omega

/-- The amounts of token0 never wrap: the product with the difference of the prices has 512 bits. -/
theorem getAmount0DeltaIn_eq (hL : L < 2 ^ 128) (ha : a < 2 ^ 255) (hb : b < 2 ^ 255) :
    getAmount0DeltaIn checks a b L roundUp = .ok (getAmount0Delta a b L roundUp) := by
  have hN := liquidity_mul_q96_lt hL
  unfold getAmount0DeltaIn getAmount0Delta
  rw [ordered_eq]
  dsimp only
  by_cases hlow : min a b = 0
  · rw [if_pos hlow, if_pos hlow]
  rw [if_neg hlow, if_neg hlow, arithUnsigned_eq (by omega), ok_bind,
    subUnsigned_eq (by omega) (by omega), ok_bind, liquidity_mul_q96 hL]
  have hle : L * q96 * (max a b - min a b) / max a b ≤ L * q96 :=
    Nat.div_le_of_le_mul (by
      rw [Nat.mul_comm (max a b)]
      exact Nat.mul_le_mul_left _ (Nat.sub_le _ _))
  rw [mulDiv_eq (by omega) (by omega)]
  generalize L * q96 * (max a b - min a b) / max a b = i at *
  dsimp only
  rw [Option.map_some]
  cases roundUp
  · rfl
  · rw [if_pos rfl, if_pos rfl, arithUnsigned_eq (by omega), ok_bind,
      subUnsigned_eq (by omega) (by omega), ok_bind, wrappingAdd_eq (by omega),
      wrappingSub_eq (by omega) (by omega)]

/-- The amount of token1 wraps where the liquidity times the distance of the prices does. -/
theorem guarded_getAmount1DeltaIn (ha : a < 2 ^ 256) (hb : b < 2 ^ 256) :
    Guarded checks (L * spread a b < 2 ^ 256) (getAmount1DeltaIn checks a b L roundUp)
      (.ok (getAmount1Delta a b L roundUp)) := by
  unfold getAmount1DeltaIn getAmount1Delta
  rw [ordered_eq]
  dsimp only
  rw [subUnsigned_eq (by omega) (by omega), ok_bind]
  exact (guarded_arithUnsigned checks 256 _).map _

/-- The denominator of the new price fits, if the code computes it. -/
def NextPriceFits (p L x : ℕ) (direction : V3Direction) : Prop :=
  direction = .zeroForOne → L = 0 ∨ L * q96 + x * p < 2 ^ 256

theorem guarded_getNextSqrtPriceFromInputIn (checks : Bool) (direction : V3Direction)
    (hL : L < 2 ^ 128) (hp : p < 2 ^ 160) (hx : x < 2 ^ 128) :
    Guarded checks (NextPriceFits p L x direction)
      (getNextSqrtPriceFromInputIn checks p L x direction)
      (.ok (getNextSqrtPriceFromInput p L x direction)) := by
  have hN := liquidity_mul_q96_lt hL
  unfold getNextSqrtPriceFromInputIn getNextSqrtPriceFromInput NextPriceFits
  split_ifs with h0
  · refine (guarded_self _).congr (iff_of_true trivial fun _ => ?_) rfl
    rcases h0 with rfl | rfl
    · exact .inl rfl
    · right
      omega
  cases direction with
  | zeroForOne =>
    dsimp only
    rw [arithUnsigned_eq (by omega), ok_bind, liquidity_mul_q96 hL]
    refine Guarded.congr (((guarded_arithUnsigned checks 256 (x * p)).bind_ok
      ((guarded_arithUnsigned checks 256 _).bind_ok (guarded_self _)))) ?_ rfl
    constructor
    · rintro ⟨hmul, hadd, -⟩ -
      rw [Nat.mod_eq_of_lt hmul] at hadd
      exact .inr hadd
    · intro h
      have hfits : L * q96 + x * p < 2 ^ 256 := (h rfl).resolve_left fun hL0 => h0 (.inl hL0)
      have hmul : x * p < 2 ^ 256 := by omega
      rw [Nat.mod_eq_of_lt hmul]
      exact ⟨hmul, hfits, trivial⟩
  | oneForZero =>
    dsimp only
    have hratio : x * q96 / L < 2 ^ 224 := by
      refine (Nat.div_le_self _ _).trans_lt ?_
      unfold q96
      omega
    rw [mulDiv_eq (fun hL0 => h0 (.inl hL0)) (by omega), Option.bind_some]
    dsimp only
    split_ifs
    · exact (guarded_self _).congr (iff_of_true trivial nofun) rfl
    · rw [arithUnsigned_eq (by omega), wrappingAdd_eq (by omega)]
      exact (guarded_self _).congr (iff_of_true trivial nofun) rfl

/-! ## The step -/

/-- The fee on an amount, rounded up. -/
def feeOn (fee : FeeTier) (x : ℕ) : ℕ := x * fee.fraction.1 ⌈/⌉ fee.fraction.2

/-- What a step that takes the price down to `t` takes in, with the fee. -/
def costDown (p t L : ℕ) (fee : FeeTier) : ℕ :=
  L * q96 * (p - t) / p ⌈/⌉ t + feeOn fee (L * q96 * (p - t) / p ⌈/⌉ t)

/-- How far `x` of token0 takes the price down: `x * p ^ 2 / (L * 2 ^ 96 + x * p)`, rounded up. -/
def priceDrop (p L x : ℕ) : ℕ := x * p * p ⌈/⌉ (L * q96 + x * p)

/-- What has to fit in a step from the price `p` to the price `t` with the input `x`. -/
def StepFits (p t L x : ℕ) (fee : FeeTier) : Prop :=
  if t < p then
    if costDown p t L fee ≤ x then L * (p - t) < 2 ^ 256
    else L * q96 + (x - feeOn fee x) * p < 2 ^ 256 ∧ L * priceDrop p L (x - feeOn fee x) < 2 ^ 256
  else L * (t - p) < 2 ^ 256

instance (p t L x : ℕ) (fee : FeeTier) : Decidable (StepFits p t L x fee) := by
  unfold StepFits
  infer_instance

/-- The prices, the liquidity, the amount and the fee of a step. -/
structure StepInput (p t L x : ℕ) (fee : FeeTier) : Prop where
  current : p ∈ Set.Icc minSqrtRatio maxSqrtRatio
  target : t ∈ Set.Icc minSqrtRatio maxSqrtRatio
  liquidity : L < 2 ^ 128
  amount : x < 2 ^ 128
  fee : fee.fraction.1 < 2 ^ 32

theorem price_bounds (h : p ∈ Set.Icc minSqrtRatio maxSqrtRatio) : 0 < p ∧ p < 2 ^ 160 :=
  ⟨minSqrtRatio_pos.trans_le h.1, h.2.trans_lt maxSqrtRatio_lt⟩

theorem feeRoundUp_eq_feeOn (hfee : fee.fraction.1 < 2 ^ 32) (hx : x ≤ 2 ^ 224) :
    feeRoundUp fee x = feeOn fee x := by
  refine feeRoundUp_eq ?_
  calc x * fee.fraction.1 ≤ 2 ^ 224 * (2 ^ 32 - 1) := Nat.mul_le_mul hx (by omega)
    _ < 2 ^ 256 := by norm_num

theorem feeOn_le (hfee : fee.fraction.1 < 2 ^ 32) (hx : x ≤ 2 ^ 224) : feeOn fee x ≤ 2 ^ 255 := by
  have hden := two_le_fraction_den fee
  refine (ceilDiv_le_iff_le_mul (fraction_den_pos fee)).mpr ?_
  calc x * fee.fraction.1 ≤ 2 ^ 224 * 2 ^ 32 := Nat.mul_le_mul hx hfee.le
    _ = 2 * 2 ^ 255 := by norm_num
    _ ≤ fee.fraction.2 * 2 ^ 255 := Nat.mul_le_mul_right _ hden

/-- The price falls by the drop. -/
theorem sub_priceAfter0 (hpos : 0 < L * q96 + x * p) :
    p - priceAfter0 p L x = priceDrop p L x := by
  unfold priceAfter0 priceDrop
  generalize L * q96 = N at *
  refine eq_of_forall_ge_iff fun k => ?_
  rw [ceilDiv_le_iff_le_mul hpos, Nat.sub_le_iff_le_add, Nat.add_comm k, ← Nat.sub_le_iff_le_add,
    Nat.le_div_iff_mul_le hpos]
  rcases le_total p k with hpk | hkp
  · rw [Nat.sub_eq_zero_of_le hpk, Nat.zero_mul]
    refine iff_of_true (Nat.zero_le _) ?_
    calc x * p * p ≤ (N + x * p) * p := Nat.mul_le_mul_right p (Nat.le_add_left _ _)
      _ ≤ (N + x * p) * k := Nat.mul_le_mul_left _ hpk
  · obtain ⟨d, rfl⟩ : ∃ d, p = d + k := ⟨p - k, by omega⟩
    rw [Nat.add_sub_cancel]
    constructor <;> intro h <;> nlinarith

theorem guarded_maxInIn (checks : Bool) (hL : L < 2 ^ 128) (hp : p < 2 ^ 160) (ht : t < 2 ^ 160) :
    Guarded checks (t < p ∨ L * (t - p) < 2 ^ 256) (maxInIn checks p t L) (.ok (maxIn p t L)) := by
  unfold maxInIn maxIn
  split_ifs with h
  · rw [getAmount0DeltaIn_eq hL (by omega) (by omega)]
    exact (guarded_self _).congr (iff_of_true trivial (.inl h)) rfl
  · refine ((guarded_getAmount1DeltaIn (by omega) (by omega)).map _).congr ?_ rfl
    rw [spread, max_eq_right (not_lt.mp h), min_eq_left (not_lt.mp h), or_iff_right h]

theorem guarded_amountOutIn_down (hp : p < 2 ^ 160) (hq : q ≤ p) :
    Guarded checks (L * (p - q) < 2 ^ 256) (amountOutIn checks true p q L)
      (.ok (amountOut true p q L)) := by
  refine ((guarded_getAmount1DeltaIn (by omega) (by omega)).map _).congr ?_ rfl
  rw [spread, max_eq_right hq, min_eq_left hq]

theorem amountOutIn_up_eq (hL : L < 2 ^ 128) (hp : p < 2 ^ 255) (hq : q < 2 ^ 255) :
    amountOutIn checks false p q L = .ok (amountOut false p q L) := by
  unfold amountOutIn amountOut
  rw [if_neg Bool.false_ne_true, getAmount0DeltaIn_eq hL hp hq]
  rfl

theorem priceAfter1_lt (hp : p < 2 ^ 160) (hx : x < 2 ^ 128) : priceAfter1 p L x < 2 ^ 255 := by
  have hdiv : x * q96 / L ≤ x * q96 := Nat.div_le_self _ _
  unfold q96 at hdiv
  unfold priceAfter1 q96
  omega

/-- The cost of the step, with the input that the code computes. -/
theorem totalMaxCost_fits (h : StepInput p t L x fee) :
    maxIn p t L + feeRoundUp fee (maxIn p t L) < 2 ^ 256 := by
  obtain ⟨ht0, ht⟩ := price_bounds h.target
  have hmax : maxIn p t L ≤ 2 ^ 224 := maxIn_le ht0 ht h.liquidity
  have hfee := feeOn_le h.fee hmax
  rw [feeRoundUp_eq_feeOn h.fee hmax]
  omega

theorem totalMaxCost_eq_sum (h : StepInput p t L x fee) :
    totalMaxCost p t L fee = maxIn p t L + feeRoundUp fee (maxIn p t L) :=
  wrappingAdd_eq (totalMaxCost_fits h)

theorem totalMaxCost_eq_costDown (h : StepInput p t L x fee) (hdown : t < p) :
    totalMaxCost p t L fee = costDown p t L fee := by
  obtain ⟨ht0, ht⟩ := price_bounds h.target
  have hmax : maxIn p t L ≤ 2 ^ 224 := maxIn_le ht0 ht h.liquidity
  rw [totalMaxCost_eq_sum h, feeRoundUp_eq_feeOn h.fee hmax, maxIn_down ht0 hdown (by omega)
    h.liquidity]
  rfl

/-- Without liquidity, a step costs nothing. -/
theorem liquidity_pos_of_lt (h : StepInput p t L x fee) (hx : x < totalMaxCost p t L fee) :
    0 < L := by
  obtain ⟨ht0, ht⟩ := price_bounds h.target
  rcases Nat.eq_zero_or_pos L with rfl | hL
  · rw [totalMaxCost_eq_sum h, maxIn_zero ht0 (by omega), feeRoundUp_eq_feeOn h.fee (by omega),
      feeOn, Nat.zero_mul, zero_ceilDiv] at hx
    omega
  · exact hL

/-- The cost and the net input fit, so that a step goes on as if they were exact. -/
theorem finishStep_eq (h : StepInput p t L x fee) :
    finishStep checks p t L x fee (maxIn p t L) =
      if x ≥ totalMaxCost p t L fee then
        (amountOutIn checks (t < p) p t L).map fun amountOut =>
          ⟨t, maxIn p t L, amountOut, feeRoundUp fee (maxIn p t L)⟩
      else (do
        let nextSqrt ← (getNextSqrtPriceFromInputIn checks p L (amountAfterFee fee x)
          (if decide (t < p) then .zeroForOne else .oneForZero)).map (·.getD p)
        (amountOutIn checks (t < p) p nextSqrt L).map fun amountOut =>
          ⟨nextSqrt, amountAfterFee fee x, amountOut, feeRoundUp fee x⟩) := by
  have hx := h.amount
  unfold finishStep
  dsimp only
  rw [arithUnsigned_eq (totalMaxCost_fits h), ok_bind, ← totalMaxCost_eq_sum h,
    subUnsigned_eq (min_le_right _ _) (by omega), ok_bind]
  rfl

/-- What has to fit where the price goes only part of the way down. -/
theorem part_down_iff (hL0 : 0 < L) (hL : L < 2 ^ 128) (hp : p < 2 ^ 160) :
    (NextPriceFits p L x .zeroForOne ∧
      L * (p - (getNextSqrtPriceFromInput p L x .zeroForOne).getD p) < 2 ^ 256) ↔
    L * q96 + x * p < 2 ^ 256 ∧ L * priceDrop p L x < 2 ^ 256 := by
  have hN : 0 < L * q96 := Nat.mul_pos hL0 (by unfold q96; norm_num)
  have hiff : NextPriceFits p L x .zeroForOne ↔ L * q96 + x * p < 2 ^ 256 :=
    ⟨fun h => (h rfl).resolve_left hL0.ne', fun h _ => .inr h⟩
  rw [hiff]
  refine and_congr_right fun hfits => ?_
  rw [nextPrice_eq_priceAfter0 hL0 hL hp hfits, sub_priceAfter0 (Nat.add_pos_left hN _)]

theorem amountAfterFee_eq_sub (h : StepInput p t L x fee) :
    amountAfterFee fee x = x - feeOn fee x := by
  have hx := h.amount
  rw [amountAfterFee_eq, feeRoundUp_eq_feeOn h.fee (by omega)]

/-- A step that takes the price down. -/
theorem guarded_finishStep_down (h : StepInput p t L x fee) (hdown : t < p) :
    Guarded checks (StepFits p t L x fee) (finishStep checks p t L x fee (maxIn p t L))
      (.ok (computeSwapStep p t L x fee)) := by
  obtain ⟨hp0, hp⟩ := price_bounds h.current
  have hx := h.amount
  have hcost := totalMaxCost_eq_costDown h hdown
  have hafter := amountAfterFee_eq_sub h
  rw [finishStep_eq h]
  unfold StepFits computeSwapStep
  rw [if_pos hdown, decide_eq_true hdown, ← hcost]
  dsimp only
  by_cases hfull : x ≥ totalMaxCost p t L fee
  · rw [if_pos hfull, if_pos hfull, if_pos hfull]
    exact (guarded_amountOutIn_down hp hdown.le).map _
  · rw [if_neg hfull, if_neg hfull, if_neg hfull]
    have hL := liquidity_pos_of_lt h (not_le.mp hfull)
    have hle := (nextPrice_zeroForOne (a := amountAfterFee fee x) h.liquidity hp).2
    have hlt : amountAfterFee fee x < 2 ^ 128 := by omega
    have hnext := guarded_getNextSqrtPriceFromInputIn checks .zeroForOne h.liquidity hp hlt
    refine ((hnext.map (·.getD p)).bind_ok
      ((guarded_amountOutIn_down hp hle).map _)).congr ?_ rfl
    rw [← hafter]
    exact part_down_iff hL h.liquidity hp

/-- A step that takes the price up wraps nowhere after its input is known. -/
theorem finishStep_up (checks : Bool) (h : StepInput p t L x fee) (hup : ¬t < p) :
    finishStep checks p t L x fee (maxIn p t L) = .ok (computeSwapStep p t L x fee) := by
  obtain ⟨hp0, hp⟩ := price_bounds h.current
  obtain ⟨ht0, ht⟩ := price_bounds h.target
  have hx := h.amount
  rw [finishStep_eq h]
  unfold computeSwapStep
  rw [decide_eq_false hup]
  dsimp only
  by_cases hfull : x ≥ totalMaxCost p t L fee
  · rw [if_pos hfull, if_pos hfull, amountOutIn_up_eq h.liquidity (by omega) (by omega)]
    rfl
  · rw [if_neg hfull, if_neg hfull]
    have hL := liquidity_pos_of_lt h (not_le.mp hfull)
    have hafter : amountAfterFee fee x < 2 ^ 128 := lt_of_le_of_lt (Nat.sub_le _ _) hx
    have hnext := (guarded_getNextSqrtPriceFromInputIn checks .oneForZero h.liquidity hp hafter
      _).mpr ⟨fun _ => nofun, rfl⟩
    have hprice : priceAfter1 p L (amountAfterFee fee x) < 2 ^ 255 := priceAfter1_lt hp hafter
    have hq : (getNextSqrtPriceFromInput p L (amountAfterFee fee x) .oneForZero).getD p <
        2 ^ 255 := by
      rwa [nextPrice_eq_priceAfter1 hL (by omega)]
    rw [if_neg Bool.false_ne_true, hnext]
    show (amountOutIn checks false p _ L).map _ = _
    rw [amountOutIn_up_eq h.liquidity (by omega) hq]
    rfl

/-- A step wraps nowhere exactly where `StepFits`. -/
theorem guarded_computeSwapStepIn (h : StepInput p t L x fee) :
    Guarded checks (StepFits p t L x fee) (computeSwapStepIn checks p t L x fee)
      (.ok (computeSwapStep p t L x fee)) := by
  have hmax := guarded_maxInIn checks h.liquidity (price_bounds h.current).2
    (price_bounds h.target).2
  unfold computeSwapStepIn
  by_cases hdown : t < p
  · refine (hmax.bind_ok (guarded_finishStep_down h hdown)).congr ?_ rfl
    exact and_iff_right (.inl hdown)
  · rw [← finishStep_up checks h hdown]
    refine (hmax.bind_ok (guarded_self _)).congr ?_ rfl
    unfold StepFits
    rw [if_neg hdown, and_true, or_iff_right hdown]

/-! ## The rationals -/

/-- The amount of token0 between two prices. -/
def exactAmount0 (a b L : ℕ) : ℚ := L * 2 ^ 96 * |(a : ℚ) - b| / (a * b)

/-- The amount of token1 between two prices. -/
def exactAmount1 (a b L : ℕ) : ℚ := L * |(a : ℚ) - b| / 2 ^ 96

/-- The price after an input. -/
def exactNextPrice (p L x : ℕ) : V3Direction → ℚ
  | .zeroForOne => L * 2 ^ 96 * p / (L * 2 ^ 96 + x * p)
  | .oneForZero => p + x * 2 ^ 96 / L

/-- The fee on an amount. -/
def exactFee (fee : FeeTier) (x : ℕ) : ℚ := x * fee.fraction.1 / fee.fraction.2

theorem cast_spread (a b : ℕ) : (spread a b : ℚ) = |(a : ℚ) - b| := by
  unfold spread
  rcases le_total a b with h | h
  · have hcast : (a : ℚ) ≤ b := by exact_mod_cast h
    rw [max_eq_right h, min_eq_left h, Nat.cast_sub h, abs_sub_comm, abs_of_nonneg (by linarith)]
  · have hcast : (b : ℚ) ≤ a := by exact_mod_cast h
    rw [max_eq_left h, min_eq_right h, Nat.cast_sub h, abs_of_nonneg (by linarith)]

theorem cast_q96 : (q96 : ℚ) = 2 ^ 96 := by
  unfold q96
  push_cast
  rfl

theorem amount0_rounds (roundUp : Bool) (hL : L < 2 ^ 128) (ha0 : 0 < a) (hb0 : 0 < b)
    (ha : a < 2 ^ 255) (hb : b < 2 ^ 255) :
    ∃ r, getAmount0Delta a b L roundUp = some r ∧ Rounds (exactAmount0 a b L) r := by
  have hN := liquidity_mul_q96_lt hL
  have hmin : 0 < min a b := lt_min ha0 hb0
  have hmax : 0 < max a b := lt_max_of_lt_left ha0
  have hle : L * q96 * (max a b - min a b) / max a b ≤ L * q96 :=
    Nat.div_le_of_le_mul (by
      rw [Nat.mul_comm (max a b)]
      exact Nat.mul_le_mul_left _ (Nat.sub_le _ _))
  have hexact : exactAmount0 a b L = (L * q96 * (max a b - min a b) : ℕ) /
      ((max a b : ℕ) * (min a b : ℕ)) := by
    have hprod : ((max a b : ℕ) : ℚ) * (min a b : ℕ) = a * b := by
      exact_mod_cast max_mul_min a b
    rw [hprod, exactAmount0, ← cast_spread, spread, ← cast_q96]
    push_cast
    rfl
  unfold getAmount0Delta
  rw [ordered_eq]
  dsimp only
  rw [if_neg hmin.ne', liquidity_mul_q96 hL, mulDiv_eq hmax.ne' (by omega), Option.map_some, hexact]
  refine ⟨_, rfl, ?_⟩
  cases roundUp
  · rw [if_neg Bool.false_ne_true, Nat.div_div_eq_div_mul]
    have h := rounds_div (L * q96 * (max a b - min a b)) (max a b * min a b)
    rwa [Nat.cast_mul (max a b)] at h
  · have hround := rounds_ceilDiv_div (n := L * q96 * (max a b - min a b)) hmax hmin
    generalize L * q96 * (max a b - min a b) / max a b = i at *
    rw [if_pos rfl, wrappingAdd_eq (by omega), wrappingSub_eq (by omega) (by omega)]
    exact hround

theorem amount1_rounds (roundUp : Bool) (hfits : L * spread a b < 2 ^ 256) :
    ∃ r, getAmount1Delta a b L roundUp = some r ∧ Rounds (exactAmount1 a b L) r := by
  have hq : 0 < q96 := by unfold q96; norm_num
  have hexact : exactAmount1 a b L = (L * spread a b : ℕ) / (q96 : ℕ) := by
    rw [exactAmount1, ← cast_spread, cast_q96]
    push_cast
    rfl
  unfold getAmount1Delta
  rw [ordered_eq]
  dsimp only
  rw [show max a b - min a b = spread a b from rfl, wrappingMul_eq hfits, hexact]
  cases roundUp
  · rw [if_neg Bool.false_ne_true, mulDiv_eq hq.ne' (by
      rw [Nat.mul_one]
      exact (Nat.div_le_self _ _).trans_lt hfits), Nat.mul_one]
    exact ⟨_, rfl, rounds_div _ _⟩
  · rw [if_pos rfl, mulDivRoundUp_eq hq (by rwa [Nat.mul_one]), Nat.mul_one]
    exact ⟨_, rfl, rounds_ceilDiv hq⟩

theorem nextPrice_rounds (direction : V3Direction) (hL0 : L ≠ 0) (hL : L < 2 ^ 128)
    (hp : p < 2 ^ 160) (hx : x < 2 ^ 128) (hfits : NextPriceFits p L x direction) :
    Rounds (exactNextPrice p L x direction)
      ((getNextSqrtPriceFromInput p L x direction).getD p) := by
  have hpos := Nat.pos_of_ne_zero hL0
  cases direction with
  | zeroForOne =>
    rw [nextPrice_eq_priceAfter0 hpos hL hp ((hfits rfl).resolve_left hL0)]
    have h := rounds_div (L * q96 * p) (L * q96 + x * p)
    push_cast at h
    rwa [cast_q96] at h
  | oneForZero =>
    have hlt : priceAfter1 p L x < 2 ^ 255 := priceAfter1_lt hp hx
    rw [nextPrice_eq_priceAfter1 hpos (by omega)]
    have h := (rounds_div (x * q96) L).natCast_add p
    push_cast at h
    rwa [cast_q96] at h

theorem fee_rounds (hfee : fee.fraction.1 < 2 ^ 32) (hx : x ≤ 2 ^ 224) :
    Rounds (exactFee fee x) (feeRoundUp fee x) := by
  rw [feeRoundUp_eq_feeOn hfee hx]
  have h := rounds_ceilDiv (n := x * fee.fraction.1) (fraction_den_pos fee)
  push_cast at h
  exact h

/-! ## Exact results -/

/-- `get_amount_0_delta` wraps nowhere, and returns the amount of token0, rounded. -/
def Amount0Exact (a b L : ℕ) (roundUp : Bool) : Prop :=
  (∃ r, getAmount0DeltaIn true a b L roundUp = .ok r) ∧
    ∃ r, getAmount0Delta a b L roundUp = some r ∧ Rounds (exactAmount0 a b L) r

/-- `get_amount_1_delta` wraps nowhere, and returns the amount of token1, rounded. -/
def Amount1Exact (a b L : ℕ) (roundUp : Bool) : Prop :=
  (∃ r, getAmount1DeltaIn true a b L roundUp = .ok r) ∧
    ∃ r, getAmount1Delta a b L roundUp = some r ∧ Rounds (exactAmount1 a b L) r

/-- `get_next_sqrt_price_from_input` wraps nowhere, and returns the new price, rounded. Without
    liquidity there is no new price, and where the price does not move, the code returns none. -/
def NextPriceExact (p L x : ℕ) (direction : V3Direction) : Prop :=
  (∃ r, getNextSqrtPriceFromInputIn true p L x direction = .ok r) ∧
    (L ≠ 0 → Rounds (exactNextPrice p L x direction)
      ((getNextSqrtPriceFromInput p L x direction).getD p)) ∧
    (L = 0 → getNextSqrtPriceFromInput p L x direction = none)

/-- The values of a step from the price `p` to the price `t` with the input `x`: what is paid out
    for the move, and what the whole step takes in with the fee on it, or the price that the input
    leads to after the fee. -/
structure StepRounds (p t L x : ℕ) (fee : FeeTier) (step : SwapStep) : Prop where
  out : Rounds (if t < p then exactAmount1 p step.sqrtPrice L
    else exactAmount0 p step.sqrtPrice L) step.amountOut
  move :
    (step.sqrtPrice = t ∧
      Rounds (if t < p then exactAmount0 p t L else exactAmount1 p t L) step.amountIn ∧
      Rounds (exactFee fee step.amountIn) step.feeAmount) ∨
    (Rounds (exactNextPrice p L step.amountIn (if t < p then .zeroForOne else .oneForZero))
        step.sqrtPrice ∧
      step.amountIn = x - step.feeAmount ∧ Rounds (exactFee fee x) step.feeAmount)

/-- `compute_swap_step` wraps nowhere, and its values are exact up to rounding. -/
def StepExact (p t L x : ℕ) (fee : FeeTier) : Prop :=
  (∃ step, computeSwapStepIn true p t L x fee = .ok step) ∧
    StepRounds p t L x fee (computeSwapStep p t L x fee)

theorem spread_comm (a b : ℕ) : spread a b = spread b a := by
  rw [spread, spread, max_comm, min_comm]

theorem spread_of_le (h : a ≤ b) : spread a b = b - a := by
  rw [spread, max_eq_right h, min_eq_left h]

theorem exactAmount0_comm (a b L : ℕ) : exactAmount0 a b L = exactAmount0 b a L := by
  rw [exactAmount0, exactAmount0, abs_sub_comm, mul_comm (a : ℚ)]

theorem exactAmount1_comm (a b L : ℕ) : exactAmount1 a b L = exactAmount1 b a L := by
  rw [exactAmount1, exactAmount1, abs_sub_comm]

/-- The input of a whole step is the exact one, rounded. -/
theorem maxIn_rounds (h : StepInput p t L x fee) (hfits : t < p ∨ L * (t - p) < 2 ^ 256) :
    Rounds (if t < p then exactAmount0 p t L else exactAmount1 p t L) (maxIn p t L) := by
  obtain ⟨hp0, hp⟩ := price_bounds h.current
  obtain ⟨ht0, ht⟩ := price_bounds h.target
  unfold maxIn
  split_ifs with hdown
  · obtain ⟨r, hr, hround⟩ := amount0_rounds true h.liquidity ht0 hp0
      (show t < 2 ^ 255 by omega) (show p < 2 ^ 255 by omega)
    rw [hr, exactAmount0_comm]
    exact hround
  · obtain ⟨r, hr, hround⟩ := amount1_rounds true
      (show L * spread p t < 2 ^ 256 by
        rw [spread_of_le (not_lt.mp hdown)]
        exact hfits.resolve_left hdown)
    rw [hr]
    exact hround

/-- What a falling price pays out is the exact amount, rounded. -/
theorem amountOut_down_rounds (hq : q ≤ p) (hfits : L * (p - q) < 2 ^ 256) :
    Rounds (exactAmount1 p q L) (amountOut true p q L) := by
  obtain ⟨r, hr, hround⟩ := amount1_rounds false
    (show L * spread q p < 2 ^ 256 by rwa [spread_of_le hq])
  unfold amountOut
  rw [if_pos rfl, hr, exactAmount1_comm]
  exact hround

/-- What a rising price pays out is the exact amount, rounded. -/
theorem amountOut_up_rounds (hL : L < 2 ^ 128) (hp0 : 0 < p) (hpq : p ≤ q) (hq : q < 2 ^ 255) :
    Rounds (exactAmount0 p q L) (amountOut false p q L) := by
  obtain ⟨r, hr, hround⟩ := amount0_rounds false hL hp0 (hp0.trans_le hpq)
    (hpq.trans_lt hq) hq
  unfold amountOut
  rw [if_neg Bool.false_ne_true, hr]
  exact hround

/-- **A step that does not wrap is exact.** -/
theorem step_rounds (h : StepInput p t L x fee) (hfits : StepFits p t L x fee) :
    StepRounds p t L x fee (computeSwapStep p t L x fee) := by
  obtain ⟨hp0, hp⟩ := price_bounds h.current
  obtain ⟨ht0, ht⟩ := price_bounds h.target
  have hx := h.amount
  have hmax : maxIn p t L ≤ 2 ^ 224 := maxIn_le ht0 ht h.liquidity
  have hafter : amountAfterFee fee x < 2 ^ 128 := lt_of_le_of_lt (Nat.sub_le _ _) hx
  unfold StepFits at hfits
  unfold computeSwapStep
  by_cases hdown : t < p
  · rw [if_pos hdown, ← totalMaxCost_eq_costDown h hdown] at hfits
    rw [decide_eq_true hdown]
    dsimp only
    by_cases hfull : x ≥ totalMaxCost p t L fee
    · rw [if_pos hfull] at hfits ⊢
      refine ⟨?_, .inl ⟨rfl, maxIn_rounds h (.inl hdown), fee_rounds h.fee hmax⟩⟩
      rw [if_pos hdown]
      exact amountOut_down_rounds hdown.le hfits
    · rw [if_neg hfull, ← amountAfterFee_eq_sub h] at hfits
      rw [if_neg hfull]
      have hL := liquidity_pos_of_lt h (not_le.mp hfull)
      obtain ⟨hnext, hout⟩ := (part_down_iff hL h.liquidity hp).mpr hfits
      have hround := nextPrice_rounds .zeroForOne hL.ne' h.liquidity hp hafter hnext
      refine ⟨?_, .inr ⟨?_, amountAfterFee_eq fee x, fee_rounds h.fee (by omega)⟩⟩
      · rw [if_pos hdown]
        exact amountOut_down_rounds (nextPrice_zeroForOne h.liquidity hp).2 hout
      · rw [if_pos hdown]
        exact hround
  · rw [if_neg hdown] at hfits
    rw [decide_eq_false hdown]
    dsimp only
    by_cases hfull : x ≥ totalMaxCost p t L fee
    · rw [if_pos hfull]
      refine ⟨?_, .inl ⟨rfl, maxIn_rounds h (.inr hfits), fee_rounds h.fee hmax⟩⟩
      rw [if_neg hdown]
      exact amountOut_up_rounds h.liquidity hp0 (not_lt.mp hdown) (show t < 2 ^ 255 by omega)
    · rw [if_neg hfull]
      have hL := liquidity_pos_of_lt h (not_le.mp hfull)
      have hprice : priceAfter1 p L (amountAfterFee fee x) < 2 ^ 255 := priceAfter1_lt hp hafter
      have hround := nextPrice_rounds .oneForZero hL.ne' h.liquidity hp hafter nofun
      refine ⟨?_, .inr ⟨?_, amountAfterFee_eq fee x, fee_rounds h.fee (by omega)⟩⟩
      · rw [if_neg hdown]
        dsimp only
        rw [if_neg Bool.false_ne_true, nextPrice_eq_priceAfter1 hL (by omega)]
        exact amountOut_up_rounds h.liquidity hp0 (Nat.le_add_right _ _) hprice
      · rw [if_neg hdown]
        exact hround

/-- **Where the arithmetic of a step is exact.** For two prices in the range, a liquidity, an
    amount and a fee: the amounts of token0 always are, those of token1 where the liquidity times
    the distance of the prices fits in 256 bits, the new price where its denominator does, and the
    step where all that it computes does. -/
theorem stepArithmetic_exact_iff (h : StepInput p t L x fee) :
    (∀ roundUp, Amount0Exact p t L roundUp) ∧
    (∀ roundUp, Amount1Exact p t L roundUp ↔ L * spread p t < 2 ^ 256) ∧
    (∀ direction, NextPriceExact p L x direction ↔
      (direction = .zeroForOne → L = 0 ∨ L * q96 + x * p < 2 ^ 256)) ∧
    (StepExact p t L x fee ↔ StepFits p t L x fee) := by
  obtain ⟨hp0, hp⟩ := price_bounds h.current
  obtain ⟨ht0, ht⟩ := price_bounds h.target
  have hnext (direction : V3Direction) :=
    guarded_getNextSqrtPriceFromInputIn true direction h.liquidity hp h.amount
  refine ⟨fun roundUp => ⟨?_, ?_⟩, fun roundUp => ⟨fun hexact => ?_, fun hfits => ⟨?_, ?_⟩⟩,
    fun direction => ⟨fun hexact => ?_, fun hfits => ⟨?_, fun hL0 => ?_, fun hL0 => ?_⟩⟩,
    fun hexact => ?_, fun hfits => ⟨?_, step_rounds h hfits⟩⟩
  · exact ⟨_, getAmount0DeltaIn_eq h.liquidity (by omega) (by omega)⟩
  · exact amount0_rounds roundUp h.liquidity hp0 ht0 (by omega) (by omega)
  · obtain ⟨r, hr⟩ := hexact.1
    exact ((guarded_getAmount1DeltaIn (by omega) (by omega) r).mp hr).1 rfl
  · exact ⟨_, (guarded_getAmount1DeltaIn (by omega) (by omega) _).mpr ⟨fun _ => hfits, rfl⟩⟩
  · exact amount1_rounds roundUp hfits
  · obtain ⟨r, hr⟩ := hexact.1
    exact ((hnext direction r).mp hr).1 rfl
  · exact ⟨_, (hnext direction _).mpr ⟨fun _ => hfits, rfl⟩⟩
  · exact nextPrice_rounds direction hL0 h.liquidity hp h.amount hfits
  · exact if_pos (.inl hL0)
  · obtain ⟨step, hstep⟩ := hexact.1
    exact ((guarded_computeSwapStepIn h step).mp hstep).1 rfl
  · exact ⟨_, (guarded_computeSwapStepIn h _).mpr ⟨fun _ => hfits, rfl⟩⟩

/-- A small step from the price 1 is exact. -/
theorem stepArithmetic_exact_small :
    StepExact (2 ^ 96) (2 ^ 96 + 2 ^ 90) (10 ^ 12) (10 ^ 6) (.ppm 3000) := by
  have h : StepInput (2 ^ 96) (2 ^ 96 + 2 ^ 90) (10 ^ 12) (10 ^ 6) (.ppm 3000) :=
    ⟨by decide +kernel, by decide +kernel, by norm_num, by norm_num, by decide⟩
  exact (stepArithmetic_exact_iff h).2.2.2.mpr (by decide)

/-- With a liquidity of `2 ^ 127`, the move from the price `2 ^ 96` to `2 ^ 96 + 2 ^ 129` takes in
    `2 ^ 160` of token1. The product wraps to zero, and the step takes in nothing. With a
    liquidity of 1, `2 ^ 127` of token0 do not move the price `2 ^ 159`. -/
theorem free_move_wraps :
    StepInput (2 ^ 96) (2 ^ 96 + 2 ^ 129) (2 ^ 127) 1 (.ppm 3000) ∧
      (computeSwapStep (2 ^ 96) (2 ^ 96 + 2 ^ 129) (2 ^ 127) 1 (.ppm 3000)).amountIn = 0 ∧
      2 ^ 126 ≤
        (computeSwapStep (2 ^ 96) (2 ^ 96 + 2 ^ 129) (2 ^ 127) 1 (.ppm 3000)).amountOut ∧
      ¬StepExact (2 ^ 96) (2 ^ 96 + 2 ^ 129) (2 ^ 127) 1 (.ppm 3000) ∧
      ¬Amount1Exact (2 ^ 96) (2 ^ 96 + 2 ^ 129) (2 ^ 127) true ∧
      2 ^ 159 ∈ Set.Icc minSqrtRatio maxSqrtRatio ∧
      ¬NextPriceExact (2 ^ 159) 1 (2 ^ 127) .zeroForOne := by
  have h : StepInput (2 ^ 96) (2 ^ 96 + 2 ^ 129) (2 ^ 127) 1 (.ppm 3000) :=
    ⟨by decide +kernel, by decide +kernel, by norm_num, by norm_num, by decide⟩
  refine ⟨h, by decide +kernel, by decide +kernel, ?_, ?_, by decide +kernel, ?_⟩
  · rintro ⟨⟨step, hstep⟩, -⟩
    exact absurd (((guarded_computeSwapStepIn h step).mp hstep).1 rfl) (by decide)
  · rintro ⟨⟨r, hr⟩, -⟩
    exact absurd (((guarded_getAmount1DeltaIn (by norm_num) (by norm_num) r).mp hr).1 rfl)
      (by decide)
  · rintro ⟨⟨r, hr⟩, -⟩
    have hfits := ((guarded_getNextSqrtPriceFromInputIn true .zeroForOne (by norm_num)
      (by norm_num) (by norm_num) r).mp hr).1 rfl
    exact absurd (hfits rfl) (by decide)

end MevScout.Pool.Math
