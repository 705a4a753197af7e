import MevScout.Pool.Types

/-!
# Exact-input quotes of concentrated-liquidity pools

Models of `core/src/pool/math/v3.rs`: the tick-to-price table, the step inside one
liquidity band and the loop that walks the initialized ticks.

A `U256` is a natural number below `2 ^ 256`; its `+`, `-`, `*` and `<<` wrap. The
loop of `quote_v3_exact_in_post` is `quoteLoop`, bounded by a number of turns.

Result:
* `quoteLoop_isSome`: with one more turn than there are initialized ticks ahead, and a
  last one to leave the loop, `quoteLoop` reaches the end of the loop of the code.
-/

namespace MevScout.Pool.Math

/-- `MIN_TICK` and `MAX_TICK` (`v3.rs`, lines 10–11). -/
def minTick : ℤ := -887272
def maxTick : ℤ := 887272

/-- `Q96_SHIFT` as a factor (`consts.rs`, line 30). -/
def q96 : ℕ := 2 ^ 96

/-- Model of `V3Direction` (`v3.rs`, lines 17–22). -/
inductive V3Direction where
  | zeroForOne
  | oneForZero
  deriving DecidableEq, Repr

/-- Model of `V3Direction::for_input_token` (`v3.rs`, lines 26–35). -/
def V3Direction.forInputToken (tokenIn token0 : Address) : V3Direction :=
  if tokenIn = token0 then .zeroForOne else .oneForZero

/-- Model of `V3Direction::is_zero_for_one` (`v3.rs`, lines 37–39). -/
def V3Direction.isZeroForOne (d : V3Direction) : Bool := d = .zeroForOne

/-! ## Fixed-point arithmetic -/

/-- Model of `u512_to_u256_checked` (`v3.rs`, lines 54–60). -/
def u512ToU256Checked (v : ℕ) : Option ℕ := if v < 2 ^ 256 then some v else none

/-- Model of `mul_div` (`v3.rs`, lines 62–72). -/
def mulDiv (a b d : ℕ) : Option ℕ := if d = 0 then none else u512ToU256Checked (a * b / d)

/-- Model of `mul_div_round_up` (`v3.rs`, lines 74–90). -/
def mulDivRoundUp (a b d : ℕ) : Option ℕ :=
  if d = 0 then none
  else
    let quotient := a * b / d
    let remainder := a * b % d
    u512ToU256Checked (if remainder = 0 then quotient else quotient + 1)

/-- `TICK_MATH_CONSTANTS` of `compute_sqrt_ratio_at_tick`, and the last multiplier. -/
def tickMathConstants : List (ℕ × ℕ) :=
  [(0x2, 0xfff97272373d413259a46990580e213a),
    (0x4, 0xfff2e50f5f656932ef12357cf3c7fdcc),
    (0x8, 0xffe5caca7e10e4e61c3624eaa0941cd0),
    (0x10, 0xffcb9843d60f6159c9db58835c926644),
    (0x20, 0xff973b41fa98c081472e6896dfb254c0),
    (0x40, 0xff2ea16466c96a3843ec78b326b52861),
    (0x80, 0xfe5dee046a99a2a811c461f1969c3053),
    (0x100, 0xfcbe86c7900a88aedcffc83b479aa3a4),
    (0x200, 0xf987a7253ac413176f2b074cf7815e54),
    (0x400, 0xf3392b0822b70005940c7a398e4b70f3),
    (0x800, 0xe7159475a2c29b7443b29c7fa6e889d9),
    (0x1000, 0xd097f3bdfd2022b8845ad8f792aa5825),
    (0x2000, 0xa9f746462d870fdf8a65dc1f90e061e5),
    (0x4000, 0x70d869a156d2a1b890bb3df62baf32f7),
    (0x8000, 0x31be135f97d08fd981231505542fcfa6),
    (0x10000, 0x9aa508b5b7a84e1c677de54f3e99bc9),
    (0x20000, 0x5d6af8dedb81196699c329225ee604),
    (0x40000, 0x2216e584f5fa1ea926041bedfe98),
    (0x80000, 0x48a170391f7dc42444e8fa2)]

/-- Model of `compute_sqrt_ratio_at_tick` (`v3.rs`, lines 107–168), which
    `get_sqrt_ratio_at_tick` (lines 92–105) caches. The products stay below `2 ^ 256`, so
    the `expect` of the code does not fail. -/
def getSqrtRatioAtTick (tick : ℤ) : ℕ :=
  let absTick := tick.natAbs
  if absTick > maxTick.natAbs then 0
  else
    let start : ℕ := if absTick &&& 1 ≠ 0 then 0xfffcb933bd6fad37aa2d162d1a594001 else 2 ^ 128
    let ratio : ℕ := tickMathConstants.foldl
      (fun ratio c => if absTick &&& c.1 ≠ 0 then ratio * c.2 / 2 ^ 128 else ratio) start
    let ratio := if tick > 0 then (2 ^ 256 - 1) / ratio else ratio
    let shifted := ratio / 2 ^ 32
    if ratio % 2 ^ 32 = 0 then shifted else shifted + 1

/-- `MIN_SQRT_RATIO` and `MAX_SQRT_RATIO` (`v3.rs`, lines 42–45). -/
def minSqrtRatio : ℕ := getSqrtRatioAtTick (minTick + 1)
def maxSqrtRatio : ℕ := getSqrtRatioAtTick (maxTick - 1)

/-- Model of `get_amount_0_delta` (`v3.rs`, lines 170–192). -/
def getAmount0Delta (sqrtRatioA sqrtRatioB liquidity : ℕ) (roundUp : Bool) : Option ℕ :=
  let (low, high) :=
    if sqrtRatioA > sqrtRatioB then (sqrtRatioB, sqrtRatioA) else (sqrtRatioA, sqrtRatioB)
  if low = 0 then none
  else
    let numerator1 := wrappingMul 256 liquidity q96
    let numerator2 := high - low
    (mulDiv numerator1 numerator2 high).map fun intermediate =>
      if roundUp then wrappingSub 256 (wrappingAdd 256 intermediate low) 1 / low
      else intermediate / low

/-- Model of `get_amount_1_delta` (`v3.rs`, lines 194–212). -/
def getAmount1Delta (sqrtRatioA sqrtRatioB liquidity : ℕ) (roundUp : Bool) : Option ℕ :=
  let (low, high) :=
    if sqrtRatioA > sqrtRatioB then (sqrtRatioB, sqrtRatioA) else (sqrtRatioA, sqrtRatioB)
  let numerator := wrappingMul 256 liquidity (high - low)
  if roundUp then mulDivRoundUp numerator 1 q96 else mulDiv numerator 1 q96

/-- Model of `get_next_sqrt_price_from_input` (`v3.rs`, lines 214–243). -/
def getNextSqrtPriceFromInput (sqrtPrice liquidity amountIn : ℕ) (direction : V3Direction) :
    Option ℕ :=
  if liquidity = 0 ∨ amountIn = 0 then none
  else
    match direction with
    | .zeroForOne =>
      let numerator1 := wrappingMul 256 liquidity q96
      let numerator2 := wrappingMul 256 amountIn sqrtPrice
      let denominator := wrappingAdd 256 numerator1 numerator2
      if denominator ≤ numerator1 then none else mulDiv numerator1 sqrtPrice denominator
    | .oneForZero =>
      (mulDiv amountIn q96 liquidity).bind fun amountInRatio =>
        if amountInRatio = 0 then none else some (wrappingAdd 256 sqrtPrice amountInRatio)

/-! ## One step -/

/-- The tuple that `compute_swap_step` returns. -/
structure SwapStep where
  sqrtPrice : ℕ
  amountIn : ℕ
  amountOut : ℕ
  feeAmount : ℕ
  deriving DecidableEq, Repr

/-- `max_in` of `compute_swap_step`: the input that moves the price to the target. -/
def maxIn (current target liquidity : ℕ) : ℕ :=
  (if target < current then getAmount0Delta target current liquidity true
    else getAmount1Delta current target liquidity true).getD 0

/-- The fee on an amount, rounded up, in `compute_swap_step`. -/
def feeRoundUp (fee : FeeTier) (amount : ℕ) : ℕ :=
  (mulDivRoundUp amount fee.fraction.1 fee.fraction.2).getD 0

/-- `total_max_cost` of `compute_swap_step`: `max_in` and the fee on it. -/
def totalMaxCost (current target liquidity : ℕ) (fee : FeeTier) : ℕ :=
  wrappingAdd 256 (maxIn current target liquidity) (feeRoundUp fee (maxIn current target liquidity))

/-- `amount_after_fee` of `compute_swap_step`. -/
def amountAfterFee (fee : FeeTier) (amount : ℕ) : ℕ := amount - min (feeRoundUp fee amount) amount

/-- The output of `compute_swap_step` for a price move in the direction `zeroForOne`. -/
def amountOut (zeroForOne : Bool) (current next liquidity : ℕ) : ℕ :=
  (if zeroForOne then getAmount1Delta next current liquidity false
    else getAmount0Delta current next liquidity false).getD 0

/-- Model of `compute_swap_step` (`v3.rs`, lines 245–331). -/
def computeSwapStep (current target liquidity amountRemaining : ℕ) (fee : FeeTier) : SwapStep :=
  let zeroForOne : Bool := target < current
  let direction : V3Direction := if zeroForOne then .zeroForOne else .oneForZero
  let maxIn := maxIn current target liquidity
  if amountRemaining ≥ totalMaxCost current target liquidity fee then
    ⟨target, maxIn, amountOut zeroForOne current target liquidity, feeRoundUp fee maxIn⟩
  else
    let afterFee := amountAfterFee fee amountRemaining
    let nextSqrt := (getNextSqrtPriceFromInput current liquidity afterFee direction).getD current
    ⟨nextSqrt, afterFee, amountOut zeroForOne current nextSqrt liquidity,
      feeRoundUp fee amountRemaining⟩

/-! ## The walk over the ticks -/

/-- `liq != 0` and `t` strictly ahead of `current_tick`, in `find_next_initialized_tick`. -/
def IsAhead (currentTick : ℤ) (direction : V3Direction) (entry : ℤ × ℤ) : Prop :=
  entry.2 ≠ 0 ∧
    match direction with
    | .zeroForOne => entry.1 < currentTick
    | .oneForZero => entry.1 > currentTick

instance (currentTick : ℤ) (direction : V3Direction) (entry : ℤ × ℤ) :
    Decidable (IsAhead currentTick direction entry) := by
  unfold IsAhead; cases direction <;> infer_instance

/-- The tick to keep of `best` and `t`. -/
def nearer (direction : V3Direction) (best : Option ℤ) (t : ℤ) : Option ℤ :=
  match direction, best with
  | _, none => some t
  | .zeroForOne, some b => if t > b then some t else some b
  | .oneForZero, some b => if t < b then some t else some b

/-- Model of `find_next_initialized_tick` (`v3.rs`, lines 333–368). -/
def findNextInitializedTick (ticks : TickMap) (currentTick : ℤ) (direction : V3Direction) :
    Option ℤ :=
  ticks.toList.foldl
    (fun best entry =>
      if IsAhead currentTick direction entry then nearer direction best entry.1 else best) none

/-- Model of `get_swap_target_for_tick` (`v3.rs`, lines 700–727), without the spacing that it
    ignores. -/
def getSwapTargetForTick (ticks : TickMap) (currentTick : ℤ) (sqrtPrice : ℕ)
    (direction : V3Direction) : ℕ × Bool :=
  match findNextInitializedTick ticks currentTick direction with
  | some t =>
    let r := getSqrtRatioAtTick t
    match direction with
    | .zeroForOne => (min (max r minSqrtRatio) sqrtPrice, true)
    | .oneForZero => (max (min r maxSqrtRatio) sqrtPrice, true)
  | none =>
    match direction with
    | .zeroForOne => (minSqrtRatio, false)
    | .oneForZero => (maxSqrtRatio, false)

/-- Model of `cross_tick` (`v3.rs`, lines 565–595): the new tick and liquidity. The caller
    leaves the loop when the liquidity is zero. -/
def crossTick (ticks : TickMap) (liquidity : ℕ) (nextTick : Option ℤ) (direction : V3Direction) :
    ℤ × ℕ :=
  let zeroForOne := direction.isZeroForOne
  let currentTick := nextTick.getD (if zeroForOne then minTick else maxTick)
  match nextTick.bind (ticks[·]?) with
  | none => (currentTick, liquidity)
  | some delta =>
    let down := liquidity - asUnsigned 128 delta
    let up := saturatingAdd 128 liquidity (asUnsigned 128 delta)
    let downNeg := liquidity - asUnsigned 128 (wrapSigned 128 (-delta))
    let upNeg := saturatingAdd 128 liquidity (asUnsigned 128 (wrapSigned 128 (-delta)))
    (currentTick,
      if zeroForOne then (if delta > 0 then down else upNeg)
      else if delta > 0 then up else downNeg)

/-- The mutable variables of the loop of `quote_v3_exact_in_post`. -/
structure QuoteState where
  sqrtPrice : ℕ
  currentTick : ℤ
  liquidity : ℕ
  amountRemaining : ℕ
  totalAmountOut : ℕ
  deriving DecidableEq, Repr

/-- One turn of the loop: the new variables, and whether the loop goes on. -/
def quoteTurn (pool : UniswapV3PoolState) (direction : V3Direction) (s : QuoteState) :
    QuoteState × Bool :=
  let (target, hasRealTick) := getSwapTargetForTick pool.ticks s.currentTick s.sqrtPrice direction
  if target = s.sqrtPrice then (s, false)
  else
    let step := computeSwapStep s.sqrtPrice target s.liquidity s.amountRemaining pool.info.feeTier
    let consumed := wrappingAdd 256 step.amountIn step.feeAmount
    let s := { s with
      totalAmountOut := wrappingAdd 256 s.totalAmountOut step.amountOut
      amountRemaining := s.amountRemaining - consumed }
    if step.sqrtPrice = target ∧ hasRealTick then
      let next := findNextInitializedTick pool.ticks s.currentTick direction
      let (currentTick, liquidity) := crossTick pool.ticks s.liquidity next direction
      if liquidity = 0 then ({ s with currentTick, liquidity }, false)
      else ({ s with currentTick, liquidity, sqrtPrice := step.sqrtPrice }, true)
    else if step.sqrtPrice = target then (s, false)
    else ({ s with sqrtPrice := step.sqrtPrice }, true)

/-- The loop of `quote_v3_exact_in_post`, for at most `fuel` tests of its condition. -/
def quoteLoop (pool : UniswapV3PoolState) (direction : V3Direction) :
    ℕ → QuoteState → Option QuoteState
  | 0, _ => none
  | fuel + 1, s =>
    if s.amountRemaining = 0 then some s
    else
      match quoteTurn pool direction s with
      | (s, true) => quoteLoop pool direction fuel s
      | (s, false) => some s

/-- Model of `V3QuotePostState` (`v3.rs`, lines 599–604). -/
structure V3QuotePostState where
  amountOut : ℕ
  sqrtPriceX96 : ℕ
  tick : ℤ
  liquidity : ℕ
  deriving DecidableEq, Repr

/-- Model of `quote_v3_exact_in_post` (`v3.rs`, lines 607–683). -/
def quoteV3ExactInPost (pool : UniswapV3PoolState) (amountIn : ℕ) (direction : V3Direction) :
    Option V3QuotePostState :=
  if amountIn = 0 ∨ pool.liquidity = 0 ∨ pool.sqrtPriceX96 = 0 then none
  else do
    let s ← quoteLoop pool direction (pool.ticks.size + 2)
      { sqrtPrice := pool.sqrtPriceX96
        currentTick := pool.tick
        liquidity := pool.liquidity
        amountRemaining := amountIn
        totalAmountOut := 0 }
    if s.totalAmountOut = 0 then none
    -- `limbs[1..]` are zero: the output is one 64-bit limb.
    else if s.totalAmountOut < 2 ^ 64 then
      some
        { amountOut := s.totalAmountOut
          sqrtPriceX96 := s.sqrtPrice
          tick := s.currentTick
          liquidity := s.liquidity }
    else none

/-! ## The loop ends -/

variable {pool : UniswapV3PoolState} {ticks : TickMap} {direction : V3Direction}
  {currentTick t : ℤ} {s s' : QuoteState}

theorem u512ToU256Checked_getD_lt (v : ℕ) : (u512ToU256Checked v).getD 0 < 2 ^ 256 := by
  unfold u512ToU256Checked
  split_ifs with h
  · exact h
  · exact Nat.two_pow_pos 256

theorem feeRoundUp_lt (fee : FeeTier) (amount : ℕ) : feeRoundUp fee amount < 2 ^ 256 := by
  unfold feeRoundUp mulDivRoundUp
  split_ifs with h
  · exact Nat.two_pow_pos 256
  · exact u512ToU256Checked_getD_lt _

/-- What is left after the fee, and the fee, make up the amount at least. -/
theorem le_amountAfterFee_add (fee : FeeTier) {amount : ℕ} (hlt : amount < 2 ^ 256) :
    amount ≤ wrappingAdd 256 (amountAfterFee fee amount) (feeRoundUp fee amount) := by
  have hfee := feeRoundUp_lt fee amount
  unfold amountAfterFee
  rcases le_total (feeRoundUp fee amount) amount with hle | hle
  · rw [min_eq_left hle, wrappingAdd_eq (by omega)]
    omega
  · rw [min_eq_right hle, wrappingAdd_eq (by omega)]
    omega

/-- A step with less than the cost of its target stops where the input is used up. -/
theorem computeSwapStep_below {current target liquidity amountRemaining : ℕ} {fee : FeeTier}
    (h : amountRemaining < totalMaxCost current target liquidity fee) :
    computeSwapStep current target liquidity amountRemaining fee =
      let zeroForOne : Bool := target < current
      let nextSqrt := (getNextSqrtPriceFromInput current liquidity
        (amountAfterFee fee amountRemaining)
        (if zeroForOne then .zeroForOne else .oneForZero)).getD current
      ⟨nextSqrt, amountAfterFee fee amountRemaining,
        amountOut zeroForOne current nextSqrt liquidity, feeRoundUp fee amountRemaining⟩ :=
  if_neg (by omega)

/-- A step that stops short of its target uses up the remaining input. -/
theorem computeSwapStep_consumes {current target liquidity amountRemaining : ℕ} {fee : FeeTier}
    (h : (computeSwapStep current target liquidity amountRemaining fee).sqrtPrice ≠ target)
    (hlt : amountRemaining < 2 ^ 256) :
    amountRemaining ≤ wrappingAdd 256
      (computeSwapStep current target liquidity amountRemaining fee).amountIn
      (computeSwapStep current target liquidity amountRemaining fee).feeAmount := by
  rcases Nat.lt_or_ge amountRemaining (totalMaxCost current target liquidity fee) with hmax | hmax
  · rw [computeSwapStep_below hmax]
    exact le_amountAfterFee_add fee hlt
  · rw [computeSwapStep, if_pos hmax] at h
    exact absurd rfl h

/-- The number of initialized ticks ahead of a tick. -/
def ticksAhead (ticks : TickMap) (direction : V3Direction) (currentTick : ℤ) : ℕ :=
  ticks.toList.countP (IsAhead currentTick direction ·)

theorem ticksAhead_le_size : ticksAhead ticks direction currentTick ≤ ticks.size := by
  rw [← Std.ExtTreeMap.length_toList]
  exact List.countP_le_length

theorem nearer_eq (best : Option ℤ) (t : ℤ) :
    nearer direction best t = some t ∨ nearer direction best t = best := by
  unfold nearer
  split
  · exact .inl rfl
  all_goals split_ifs <;> simp

/-- The tick that the search finds is an initialized tick ahead. -/
theorem findNextInitializedTick_ahead
    (h : findNextInitializedTick ticks currentTick direction = some t) :
    ∃ entry ∈ ticks.toList, IsAhead currentTick direction entry ∧ entry.1 = t := by
  have hinv : ∀ (l : List (ℤ × ℤ)) (best : Option ℤ),
      (∀ b ∈ best, ∃ entry ∈ ticks.toList, IsAhead currentTick direction entry ∧ entry.1 = b) →
      (∀ entry ∈ l, entry ∈ ticks.toList) →
      ∀ b ∈ l.foldl (fun best entry =>
        if IsAhead currentTick direction entry then nearer direction best entry.1 else best) best,
        ∃ entry ∈ ticks.toList, IsAhead currentTick direction entry ∧ entry.1 = b := by
    intro l
    induction l with
    | nil => exact fun best hbest _ => hbest
    | cons entry l ih =>
      intro best hbest hl
      refine ih _ ?_ fun e he => hl e (List.mem_cons_of_mem _ he)
      dsimp only
      split_ifs with ha
      · intro b hb
        have hnearer : nearer direction best entry.1 = some entry.1 ∨
            nearer direction best entry.1 = best := nearer_eq best entry.1
        rcases hnearer with hn | hn
        · rw [hn] at hb
          exact ⟨entry, hl entry (List.mem_cons_self ..), ha, Option.some.inj hb⟩
        · rw [hn] at hb
          exact hbest b hb
      · exact hbest
  exact hinv ticks.toList none nofun (fun _ he => he) t h

theorem IsAhead.trans {entry entry' : ℤ × ℤ} (h : IsAhead currentTick direction entry)
    (h' : IsAhead entry.1 direction entry') : IsAhead currentTick direction entry' := by
  refine ⟨h'.1, ?_⟩
  have hlt := h.2
  have hlt' := h'.2
  cases direction <;> dsimp only at hlt hlt' ⊢ <;> omega

theorem not_isAhead_self (entry : ℤ × ℤ) : ¬IsAhead entry.1 direction entry := by
  rintro ⟨-, h⟩
  cases direction <;> dsimp only at h <;> omega

/-- A tick that is ahead is not ahead of itself, so that fewer ticks are ahead of it. -/
theorem ticksAhead_lt_of_isAhead {entry : ℤ × ℤ} (hmem : entry ∈ ticks.toList)
    (ha : IsAhead currentTick direction entry) :
    ticksAhead ticks direction entry.1 < ticksAhead ticks direction currentTick := by
  obtain ⟨l₁, l₂, hl⟩ := List.append_of_mem hmem
  have hmono : ∀ l : List (ℤ × ℤ), l.countP (IsAhead entry.1 direction ·) ≤
      l.countP (IsAhead currentTick direction ·) := fun l =>
    List.countP_mono_left fun e _ he => by simpa using ha.trans (by simpa using he)
  have h₁ := hmono l₁
  have h₂ := hmono l₂
  unfold ticksAhead
  rw [hl, List.countP_append, List.countP_append,
    List.countP_cons_of_neg (by simpa using not_isAhead_self entry),
    List.countP_cons_of_pos (by simpa using ha)]
  omega

/-- Crossing the next tick leaves fewer ticks ahead. -/
theorem ticksAhead_lt (h : findNextInitializedTick ticks currentTick direction = some t) :
    ticksAhead ticks direction t < ticksAhead ticks direction currentTick := by
  obtain ⟨entry, hmem, ha, rfl⟩ := findNextInitializedTick_ahead h
  exact ticksAhead_lt_of_isAhead hmem ha

/-- A turn after which the loop goes on has used up the input or crossed a tick. -/
theorem quoteTurn_progress (h : quoteTurn pool direction s = (s', true))
    (hlt : s.amountRemaining < 2 ^ 256) : s'.amountRemaining ≤ s.amountRemaining ∧
      (s'.amountRemaining = 0 ∨
        ticksAhead pool.ticks direction s'.currentTick <
          ticksAhead pool.ticks direction s.currentTick) := by
  unfold quoteTurn at h
  generalize htarget : getSwapTargetForTick pool.ticks s.currentTick s.sqrtPrice direction = target
    at h
  dsimp only at h
  have hstep := fun h => @computeSwapStep_consumes s.sqrtPrice target.1 s.liquidity
    s.amountRemaining pool.info.feeTier h hlt
  generalize computeSwapStep s.sqrtPrice target.1 s.liquidity s.amountRemaining
    pool.info.feeTier = step at h hstep
  split_ifs at h with h₁ h₂ h₃ h₄
  · cases h
  · cases h
  · obtain rfl := congrArg Prod.fst h
    refine ⟨Nat.sub_le _ _, .inr ?_⟩
    cases hnext : findNextInitializedTick pool.ticks s.currentTick direction with
    | none =>
      have hreal : target.2 = false := by
        rw [← htarget]
        unfold getSwapTargetForTick
        rw [hnext]
        cases direction <;> rfl
      rw [hreal] at h₂
      exact absurd h₂.2 (by simp)
    | some t =>
      have htick : (crossTick pool.ticks s.liquidity (some t) direction).1 = t := by
        unfold crossTick
        dsimp only
        split <;> rfl
      show ticksAhead pool.ticks direction (crossTick _ _ _ _).1 < _
      rw [htick]
      exact ticksAhead_lt hnext
  · cases h
  · obtain rfl := congrArg Prod.fst h
    refine ⟨Nat.sub_le _ _, .inl ?_⟩
    exact Nat.sub_eq_zero_of_le (hstep h₄)

/-- **The loop ends.** The loop leaves through its condition or a `break` within one turn
    for each initialized tick ahead, one more, and the last test. -/
theorem quoteLoop_isSome {fuel : ℕ} (hlt : s.amountRemaining < 2 ^ 256)
    (hfuel : ticksAhead pool.ticks direction s.currentTick + 1 < fuel) :
    (quoteLoop pool direction fuel s).isSome := by
  induction fuel generalizing s with
  | zero => omega
  | succ fuel ih =>
    unfold quoteLoop
    split_ifs with h₀
    · rfl
    · split
      · rename_i s' hturn
        obtain ⟨hle, hzero | hahead⟩ := quoteTurn_progress hturn hlt
        · obtain ⟨fuel, rfl⟩ : ∃ k, fuel = k + 1 := ⟨fuel - 1, by omega⟩
          rw [quoteLoop, if_pos hzero]
          rfl
        · exact ih (by omega) (by omega)
      · rfl

/-- The turns that `quoteV3ExactInPost` allows are enough for every `u128` input. -/
theorem quoteLoop_size_isSome (hlt : s.amountRemaining < 2 ^ 128) :
    (quoteLoop pool direction (pool.ticks.size + 2) s).isSome := by
  have hsize : ticksAhead pool.ticks direction s.currentTick ≤ pool.ticks.size :=
    ticksAhead_le_size
  exact quoteLoop_isSome (lt_trans hlt (by norm_num)) (by omega)

end MevScout.Pool.Math
