import MevScout.Pool.Math.Monotone

/-!
# The input that reaches the next tick

Models of `max_v3_tradeable_amount` and `v3_breakpoints`: the input that takes a pool to its
nearest initialized tick, computed once as `maxIn * d / (d - f)` of which the low 64 bits are
kept, and once as the cost of the first band.

Results:
* `head_breakpointLoop`: the first threshold is the cost of the first band;
* `endsAt_part_iff`, `endsAt_whole_iff`: which inputs up to that cost end at the tick;
* `boundaryAgrees_iff`: when the two amounts and the least input agree;
* `boundary_truncated`: a pool whose bound is cut to its low 64 bits.
-/

namespace MevScout.Pool.Math

open Ladder

variable {pool : UniswapV3PoolState} {direction : V3Direction} {b : Band} {t : ℤ} {x : ℕ}

/-- `LIQUIDITY_FRACTION_DENOM` (`consts.rs`, line 7). -/
def liquidityFractionDenom : ℕ := 100

/-- Model of `get_swap_target` (`v3.rs`, lines 376–404): `get_swap_target_for_tick` at the tick
    and the price of the pool. -/
def getSwapTarget (pool : UniswapV3PoolState) (direction : V3Direction) : ℕ × Bool :=
  getSwapTargetForTick pool.ticks pool.tick pool.sqrtPriceX96 direction

/-- Model of `max_v3_tradeable_amount` (`v3.rs`, lines 443–476). -/
def maxV3TradeableAmount (pool : UniswapV3PoolState) (direction : V3Direction) : ℕ :=
  if pool.liquidity = 0 ∨ pool.sqrtPriceX96 = 0 then 0
  else
    let targetSqrt := (getSwapTarget pool direction).1
    if targetSqrt = pool.sqrtPriceX96 then pool.liquidity / liquidityFractionDenom
    else
      let maxIn := (if direction.isZeroForOne then
        getAmount0Delta targetSqrt pool.sqrtPriceX96 pool.liquidity true
        else getAmount1Delta pool.sqrtPriceX96 targetSqrt pool.liquidity true).getD 0
      if maxIn = 0 then pool.liquidity / liquidityFractionDenom
      else
        let (feeNum, feeDen) := pool.info.feeTier.fraction
        let maxInputWithFee := wrappingMul 256 maxIn feeDen / (feeDen - min feeNum (feeDen - 1))
        -- `limbs[0]` only
        let result := maxInputWithFee % 2 ^ 64
        if result = 0 then pool.liquidity / liquidityFractionDenom else result

/-- The loop of `v3_breakpoints`, for `points` more thresholds. -/
def breakpointLoop (pool : UniswapV3PoolState) (direction : V3Direction) (maxInput : ℕ) :
    ℕ → ℕ → ℤ → ℕ → ℕ → List ℕ
  | 0, _, _, _, _ => []
  | points + 1, sqrtPrice, currentTick, liquidity, cumulative =>
    let (target, hasRealTick) := getSwapTargetForTick pool.ticks currentTick sqrtPrice direction
    if target = sqrtPrice then []
    else
      let step := computeSwapStep sqrtPrice target liquidity (2 ^ 256 - 1) pool.info.feeTier
      if 2 ^ 256 ≤ step.amountIn + step.feeAmount then []
      else
        let consumed := min (step.amountIn + step.feeAmount) (2 ^ 128 - 1)
        let nextCumulative := saturatingAdd 128 cumulative consumed
        if nextCumulative ≥ maxInput ∨ nextCumulative = cumulative then []
        else
          nextCumulative ::
            if !hasRealTick then []
            else
              let nextTick := findNextInitializedTick pool.ticks currentTick direction
              let (currentTick, liquidity) := crossTick pool.ticks liquidity nextTick direction
              if liquidity = 0 then []
              else breakpointLoop pool direction maxInput points target currentTick liquidity
                nextCumulative

/-- Model of `v3_breakpoints` (`v3.rs`, lines 486–550). -/
def v3Breakpoints (pool : UniswapV3PoolState) (direction : V3Direction)
    (maxInput maxPoints : ℕ) : List ℕ :=
  if maxInput = 0 ∨ pool.liquidity = 0 ∨ pool.sqrtPriceX96 = 0 then []
  else breakpointLoop pool direction maxInput maxPoints pool.sqrtPriceX96 pool.tick pool.liquidity 0

/-! ## The first band -/

/-- The first band of a walk. -/
def firstBand (pool : UniswapV3PoolState) (direction : V3Direction) : Band :=
  bandAhead pool direction pool.sqrtPriceX96 pool.tick pool.liquidity

/-- The input that the first band takes in, without the fee. -/
def firstIn (pool : UniswapV3PoolState) (direction : V3Direction) : ℕ :=
  maxIn (firstBand pool direction).start (firstBand pool direction).target
    (firstBand pool direction).liquidity

/-- The nearest initialized tick is `t`, and it is not at the current price. -/
structure TickAhead (pool : UniswapV3PoolState) (direction : V3Direction) (t : ℤ) : Prop where
  next : findNextInitializedTick pool.ticks pool.tick direction = some t
  moves : (getSwapTarget pool direction).1 ≠ pool.sqrtPriceX96

theorem TickAhead.stretch (h : TickAhead pool direction t) (hs : Sized pool) :
    Stretch pool direction (firstBand pool direction) :=
  ⟨rfl, h.moves, hs.liquidity_lt⟩

/-- Towards an initialized tick, the price moves in the direction of the swap. -/
theorem TickAhead.target_lt_iff (h : TickAhead pool direction t) :
    (firstBand pool direction).target < (firstBand pool direction).start ↔
      direction = .zeroForOne := by
  have hmoves := h.moves
  unfold firstBand bandAhead
  unfold getSwapTarget getSwapTargetForTick at *
  rw [h.next] at hmoves ⊢
  cases direction
  · dsimp only at hmoves ⊢
    simp only [iff_true]
    omega
  · dsimp only at hmoves ⊢
    simp only [reduceCtorEq, iff_false]
    omega

/-- Towards a tick, the input of `max_v3_tradeable_amount` is that of the first band. -/
theorem maxV3TradeableAmount_eq (h : TickAhead pool direction t) (hs : Sized pool)
    (hL : pool.liquidity ≠ 0) (hp : pool.sqrtPriceX96 ≠ 0) :
    maxV3TradeableAmount pool direction =
      if firstIn pool direction = 0 then pool.liquidity / liquidityFractionDenom
      else
        let result := firstIn pool direction * pool.info.feeTier.fraction.2 /
          (pool.info.feeTier.fraction.2 -
            min pool.info.feeTier.fraction.1 (pool.info.feeTier.fraction.2 - 1)) % 2 ^ 64
        if result = 0 then pool.liquidity / liquidityFractionDenom else result := by
  have hdir := h.target_lt_iff
  have hb := h.stretch hs
  obtain ⟨hpos, hlt⟩ := hb.target
  have hmax : firstIn pool direction ≤ 2 ^ 224 := maxIn_le hpos hlt hb.liquidity_lt
  have hden := fraction_den_le pool.info.feeTier
  have hmul : firstIn pool direction * pool.info.feeTier.fraction.2 < 2 ^ 256 := by
    calc firstIn pool direction * pool.info.feeTier.fraction.2 ≤ 2 ^ 224 * 2 ^ 20 :=
          Nat.mul_le_mul hmax hden
      _ < 2 ^ 256 := by norm_num
  have hin : (if direction.isZeroForOne then
      getAmount0Delta (getSwapTarget pool direction).1 pool.sqrtPriceX96 pool.liquidity true
      else getAmount1Delta pool.sqrtPriceX96 (getSwapTarget pool direction).1 pool.liquidity
        true).getD 0 = firstIn pool direction := by
    unfold firstIn maxIn
    unfold V3Direction.isZeroForOne
    simp only [hdir, decide_eq_true_eq]
    rfl
  unfold maxV3TradeableAmount
  rw [if_neg (by omega)]
  dsimp only
  rw [if_neg h.moves, hin, wrappingMul_eq hmul]

/-- The first threshold is the cost of the first band, where that is not zero and below the
    greatest input. -/
theorem head_breakpointLoop (h : TickAhead pool direction t) (hs : Sized pool)
    (maxInput points : ℕ) :
    (breakpointLoop pool direction maxInput (points + 1) pool.sqrtPriceX96 pool.tick
      pool.liquidity 0).head? =
      if maxInput ≤ min (bandCost pool (firstBand pool direction)) (2 ^ 128 - 1) ∨
        bandCost pool (firstBand pool direction) = 0 then none
      else some (min (bandCost pool (firstBand pool direction)) (2 ^ 128 - 1)) := by
  have hmoves := h.moves
  have hwhole := (whole_spec hs (h.stretch hs)).2.2
  have hcost : bandCost pool (firstBand pool direction) < 2 ^ 256 :=
    Nat.mod_lt _ (Nat.two_pow_pos 256)
  have hstep : bandStep pool (firstBand pool direction) (2 ^ 256 - 1) =
      rungStep pool (firstBand pool direction, none) := bandStep_whole (by omega)
  generalize hrung : rungStep pool (firstBand pool direction, none) = step at *
  generalize bandCost pool (firstBand pool direction) = cost at *
  unfold consumed at hwhole
  unfold bandStep firstBand bandAhead at hstep
  unfold getSwapTarget at hmoves
  unfold breakpointLoop
  generalize getSwapTargetForTick pool.ticks pool.tick pool.sqrtPriceX96 direction = target at *
  obtain ⟨target, real⟩ := target
  dsimp only at hstep hmoves ⊢
  have hadd : saturatingAdd 128 0 (min cost (2 ^ 128 - 1)) = min cost (2 ^ 128 - 1) := by
    unfold saturatingAdd
    omega
  rw [if_neg hmoves, hstep, hwhole, if_neg (by omega), hadd]
  by_cases hstop : maxInput ≤ min cost (2 ^ 128 - 1) ∨ cost = 0
  · rw [if_pos hstop, if_pos (by omega)]
    rfl
  · rw [if_neg hstop, if_neg (by omega)]
    rfl

/-! ## Inputs up to the cost of the first band -/

theorem mulDiv_getD_lt (a c d : ℕ) : (mulDiv a c d).getD 0 < 2 ^ 256 := by
  unfold mulDiv
  split_ifs
  · exact Nat.two_pow_pos 256
  · exact u512ToU256Checked_getD_lt _

theorem amountOut_lt (zeroForOne : Bool) (p q L : ℕ) : amountOut zeroForOne p q L < 2 ^ 256 := by
  have hdelta0 (low high : ℕ) : ((if low = 0 then none
      else (mulDiv (wrappingMul 256 L q96) (high - low) high).map (· / low)).getD 0) < 2 ^ 256 := by
    have hlt := mulDiv_getD_lt (wrappingMul 256 L q96) (high - low) high
    split_ifs
    · exact Nat.two_pow_pos 256
    · cases hm : mulDiv (wrappingMul 256 L q96) (high - low) high with
      | none => exact Nat.two_pow_pos 256
      | some m =>
        rw [hm] at hlt
        exact lt_of_le_of_lt (Nat.div_le_self m low) hlt
  unfold amountOut
  cases zeroForOne
  · rw [if_neg Bool.false_ne_true]
    exact hdelta0 _ _
  · unfold getAmount1Delta
    rw [if_pos rfl]
    split
    dsimp only
    rw [if_neg Bool.false_ne_true]
    exact mulDiv_getD_lt _ _ _

theorem rungOut_lt (r : Band × Option ℕ) : rungOut pool r < 2 ^ 256 := by
  unfold rungOut rungStep bandStep computeSwapStep
  dsimp only
  split_ifs <;> exact amountOut_lt _ _ _ _

/-- The tick is `t`, or beyond it in the direction of the swap. -/
def AtOrBeyond (direction : V3Direction) (tick t : ℤ) : Prop :=
  match direction with
  | .zeroForOne => tick ≤ t
  | .oneForZero => t ≤ tick

/-- A quote for `x` exists, and ends at the tick `t` or beyond it. -/
def EndsAt (pool : UniswapV3PoolState) (direction : V3Direction) (t : ℤ) (x : ℕ) : Prop :=
  ∃ post, quoteV3ExactInPost pool x direction = some post ∧ AtOrBeyond direction post.tick t

theorem endsAt_iff (hx : 0 < x) (hlt : x < 2 ^ 128) (hL : pool.liquidity ≠ 0)
    (hp : pool.sqrtPriceX96 ≠ 0) : EndsAt pool direction t x ↔
      (0 < paidOut pool direction x ∧ paidOut pool direction x < 2 ^ 64) ∧
        AtOrBeyond direction (quoteEnd pool direction x).currentTick t := by
  unfold EndsAt
  rw [quoteV3ExactInPost_eq hlt, if_neg (by omega)]
  by_cases hout : paidOut pool direction x = 0 ∨ 2 ^ 64 ≤ paidOut pool direction x
  · rw [if_pos hout]
    constructor
    · rintro ⟨post, hpost, -⟩
      cases hpost
    · rintro ⟨h, -⟩
      omega
  · rw [if_neg hout]
    constructor
    · rintro ⟨post, hpost, h⟩
      obtain rfl := Option.some.inj hpost
      exact ⟨by omega, h⟩
    · rintro ⟨-, h⟩
      exact ⟨_, rfl, h⟩

theorem atOrBeyond_self (direction : V3Direction) (t : ℤ) : AtOrBeyond direction t t := by
  cases direction <;> exact le_rfl

/-- The tick of the pool is short of the tick ahead. -/
theorem TickAhead.not_atOrBeyond (h : TickAhead pool direction t) :
    ¬AtOrBeyond direction pool.tick t := by
  obtain ⟨entry, -, ⟨-, hahead⟩, rfl⟩ := findNextInitializedTick_ahead h.next
  cases direction <;> dsimp only [AtOrBeyond] at hahead ⊢ <;> omega

theorem TickAhead.bands_eq (h : TickAhead pool direction t) :
    ∃ rest, bands pool direction = firstBand pool direction :: rest := by
  have hb : bandAhead pool direction pool.sqrtPriceX96 pool.tick pool.liquidity =
      firstBand pool direction := rfl
  rcases bandsFrom_cases (pool.ticks.size + 1) hb with ⟨hstuck, -⟩ | ⟨-, -, hcons⟩ |
    ⟨-, t, -, -, hcons⟩ | ⟨-, t, -, -, hcons⟩
  · exact absurd hstuck h.moves
  · exact ⟨_, hcons⟩
  · exact ⟨_, hcons⟩
  · exact ⟨_, hcons⟩

/-- Less than the cost of the first band takes one step inside it, which ends at the tick where
    the rounded price is the target. -/
theorem quoteEnd_part (h : TickAhead pool direction t) (hx : 0 < x)
    (hcost : x < bandCost pool (firstBand pool direction)) (hlt : x < 2 ^ 128) :
    paidOut pool direction x = rungOut pool (firstBand pool direction, some x) ∧
      (quoteEnd pool direction x).currentTick =
        if partPrice pool (firstBand pool direction) x = (firstBand pool direction).target then t
        else pool.tick := by
  obtain ⟨rest, hbands⟩ := h.bands_eq
  constructor
  · unfold paidOut rungs
    rw [hbands, taken_part hx.ne' hcost, List.map_singleton, List.sum_singleton]
    exact Nat.mod_eq_of_lt (rungOut_lt _)
  · have hb : bandAt pool direction (quoteStart pool x) = firstBand pool direction := rfl
    have hnext : (firstBand pool direction).next = some t := h.next
    have hprice : (bandStep pool (firstBand pool direction) x).sqrtPrice =
        partPrice pool (firstBand pool direction) x := by
      have := congrArg SwapStep.sqrtPrice (rungStep_part hcost)
      exact this
    rcases turns_cases (pool.ticks.size + 1) hb hx.ne' h.moves
      (show x < 2 ^ 256 by omega) with ⟨-, -, hturns⟩ | ⟨hwhole, -⟩ | ⟨hwhole, -⟩ | ⟨hwhole, -⟩
    · unfold quoteEnd walkEnd
      rw [hturns]
      show (advance pool direction _ _ (bandStep pool _ x).sqrtPrice).1.currentTick = _
      unfold advance
      rw [hprice, hnext]
      dsimp only
      split_ifs <;> rfl
    · exact absurd hcost (Nat.not_lt.mpr hwhole)
    · exact absurd hcost (Nat.not_lt.mpr hwhole)
    · exact absurd hcost (Nat.not_lt.mpr hwhole)

/-- The cost of the first band ends at the tick. -/
theorem quoteEnd_whole (h : TickAhead pool direction t)
    (hx : x = bandCost pool (firstBand pool direction)) (hpos : 0 < x) (hlt : x < 2 ^ 128) :
    paidOut pool direction x = rungOut pool (firstBand pool direction, none) ∧
      (quoteEnd pool direction x).currentTick = t := by
  obtain ⟨rest, hbands⟩ := h.bands_eq
  constructor
  · unfold paidOut rungs
    rw [hbands, taken_whole hpos.ne' hx.ge, ← hx, Nat.sub_self, taken_zero, List.map_singleton,
      List.sum_singleton]
    exact Nat.mod_eq_of_lt (rungOut_lt _)
  · have hb : bandAt pool direction (quoteStart pool x) = firstBand pool direction := rfl
    have hnext : (firstBand pool direction).next = some t := h.next
    rcases turns_cases (pool.ticks.size + 1) hb hpos.ne' h.moves
      (show x < 2 ^ 256 by omega) with ⟨hpart, -⟩ | ⟨-, hnone, -⟩ | ⟨-, t', hnext', -, hturns⟩ |
        ⟨hwhole, t', hnext', -, hturns⟩
    · have : x < bandCost pool (firstBand pool direction) := hpart
      omega
    · rw [hnext] at hnone
      cases hnone
    · rw [hnext] at hnext'
      obtain rfl := Option.some.inj hnext'
      unfold quoteEnd walkEnd
      rw [hturns]
      rfl
    · rw [hnext] at hnext'
      obtain rfl := Option.some.inj hnext'
      have hrem : (passed pool direction (firstBand pool direction) (quoteStart pool x)
          t).amountRemaining = 0 := by
        have : (passed pool direction (firstBand pool direction) (quoteStart pool x)
          t).amountRemaining = x - bandCost pool (firstBand pool direction) :=
          spend_amountRemaining_whole hwhole
        omega
      unfold quoteEnd walkEnd
      rw [hturns, turns_of_amountRemaining_eq_zero hrem]
      rfl

/-- Of the inputs up to the cost of the first band, those end at the tick that have a quote for the
    whole band, and whose rounded price is its target. -/
theorem endsAt_part_iff (h : TickAhead pool direction t) (hL : pool.liquidity ≠ 0)
    (hp : pool.sqrtPriceX96 ≠ 0) (hx : 0 < x)
    (hcost : x < bandCost pool (firstBand pool direction)) (hlt : x < 2 ^ 128) :
    EndsAt pool direction t x ↔
      (0 < rungOut pool (firstBand pool direction, none) ∧
        rungOut pool (firstBand pool direction, none) < 2 ^ 64) ∧
      partPrice pool (firstBand pool direction) x = (firstBand pool direction).target := by
  obtain ⟨hout, htick⟩ := quoteEnd_part h hx hcost hlt
  rw [endsAt_iff hx hlt hL hp, hout, htick]
  by_cases hprice : partPrice pool (firstBand pool direction) x =
      (firstBand pool direction).target
  · have hsame : rungOut pool (firstBand pool direction, some x) =
        rungOut pool (firstBand pool direction, none) := by
      unfold rungOut
      rw [rungStep_part hcost, rungStep_whole, hprice]
    rw [if_pos hprice, hsame]
    exact ⟨fun hq => ⟨hq.1, hprice⟩, fun hq => ⟨hq.1, atOrBeyond_self direction t⟩⟩
  · rw [if_neg hprice]
    exact ⟨fun hq => absurd hq.2 h.not_atOrBeyond, fun hq => absurd hq.2 hprice⟩

theorem endsAt_whole_iff (h : TickAhead pool direction t) (hL : pool.liquidity ≠ 0)
    (hp : pool.sqrtPriceX96 ≠ 0) (hx : x = bandCost pool (firstBand pool direction)) (hpos : 0 < x)
    (hlt : x < 2 ^ 128) : EndsAt pool direction t x ↔
      0 < rungOut pool (firstBand pool direction, none) ∧
        rungOut pool (firstBand pool direction, none) < 2 ^ 64 := by
  obtain ⟨hout, htick⟩ := quoteEnd_whole h hx hpos hlt
  rw [endsAt_iff hpos hlt hL hp, hout, htick]
  exact and_iff_left (atOrBeyond_self direction t)

/-! ## The three amounts -/

/-- `max_v3_tradeable_amount` is the first threshold of `v3_breakpoints`, for every input from some
    one on, and the least input whose quote ends at the tick. -/
structure BoundaryAgrees (pool : UniswapV3PoolState) (direction : V3Direction) (t : ℤ) : Prop where
  threshold : ∃ N < 2 ^ 128, ∀ maxInput maxPoints, N ≤ maxInput → maxInput < 2 ^ 128 →
    0 < maxPoints → (v3Breakpoints pool direction maxInput maxPoints).head? =
      some (maxV3TradeableAmount pool direction)
  least : IsLeast {x | x < 2 ^ 128 ∧ EndsAt pool direction t x}
    (maxV3TradeableAmount pool direction)

/-- The input of the first band with the fee on top of it, as `max_v3_tradeable_amount` narrows it:
    the low 64 bits, or a hundredth of the liquidity where these are zero. -/
def narrowed (pool : UniswapV3PoolState) (direction : V3Direction) : ℕ :=
  let result := firstIn pool direction * pool.info.feeTier.fraction.2 /
    (pool.info.feeTier.fraction.2 -
      min pool.info.feeTier.fraction.1 (pool.info.feeTier.fraction.2 - 1)) % 2 ^ 64
  if result = 0 then pool.liquidity / liquidityFractionDenom else result

/-- The narrowed amount is the input of the first band and the fee rate on it, rounded up, below
    the greatest input; the whole band has a quote; and no smaller input has a rounded price at its
    target. -/
structure BoundaryExact (pool : UniswapV3PoolState) (direction : V3Direction) : Prop where
  liquidity_pos : pool.liquidity ≠ 0
  price_pos : pool.sqrtPriceX96 ≠ 0
  input_pos : 0 < firstIn pool direction
  narrowed_eq : narrowed pool direction =
    firstIn pool direction + feeRoundUp pool.info.feeTier (firstIn pool direction)
  narrowed_lt : narrowed pool direction + 1 < 2 ^ 128
  output_pos : 0 < rungOut pool (firstBand pool direction, none)
  output_lt : rungOut pool (firstBand pool direction, none) < 2 ^ 64
  rounded : ∀ x < narrowed pool direction,
    partPrice pool (firstBand pool direction) x ≠ (firstBand pool direction).target

theorem v3Breakpoints_succ {maxInput : ℕ} (hmax : 0 < maxInput) (hL : pool.liquidity ≠ 0)
    (hp : pool.sqrtPriceX96 ≠ 0) (points : ℕ) :
    v3Breakpoints pool direction maxInput (points + 1) =
      breakpointLoop pool direction maxInput (points + 1) pool.sqrtPriceX96 pool.tick
        pool.liquidity 0 := by
  unfold v3Breakpoints
  exact if_neg (by omega)

/-- No input does not move the price. -/
theorem partPrice_zero (pool : UniswapV3PoolState) (b : Band) : partPrice pool b 0 = b.start := by
  unfold partPrice amountAfterFee
  rw [Nat.zero_sub]
  unfold getNextSqrtPriceFromInput
  rw [if_pos (.inr rfl)]
  rfl

theorem EndsAt.pos (h : EndsAt pool direction t x) : 0 < x := by
  rcases Nat.eq_zero_or_pos x with rfl | hx
  · obtain ⟨post, hpost, -⟩ := h
    have hnone : quoteV3ExactInPost pool 0 direction = none := if_pos (.inl rfl)
    rw [hnone] at hpost
    cases hpost
  · exact hx

theorem maxV3TradeableAmount_eq_narrowed (h : TickAhead pool direction t) (hs : Sized pool)
    (hL : pool.liquidity ≠ 0) (hp : pool.sqrtPriceX96 ≠ 0) (hin : 0 < firstIn pool direction) :
    maxV3TradeableAmount pool direction = narrowed pool direction := by
  rw [maxV3TradeableAmount_eq h hs hL hp, if_neg hin.ne']
  rfl

/-- The first threshold is the cost of the first band, which is in range. -/
theorem BoundaryAgrees.cost (h : TickAhead pool direction t) (hs : Sized pool)
    (hagrees : BoundaryAgrees pool direction t) :
    (pool.liquidity ≠ 0 ∧ pool.sqrtPriceX96 ≠ 0) ∧
      (0 < bandCost pool (firstBand pool direction) ∧
        bandCost pool (firstBand pool direction) + 1 < 2 ^ 128) ∧
      maxV3TradeableAmount pool direction = bandCost pool (firstBand pool direction) := by
  obtain ⟨N, hN, hthreshold⟩ := hagrees.threshold
  have hfirst := hthreshold (2 ^ 128 - 1) 1 (by omega) (by omega) (by omega)
  have hLp : pool.liquidity ≠ 0 ∧ pool.sqrtPriceX96 ≠ 0 := by
    by_contra hzero
    have hnil : v3Breakpoints pool direction (2 ^ 128 - 1) 1 = [] := if_pos (by omega)
    rw [hnil] at hfirst
    cases hfirst
  obtain ⟨hL, hp⟩ := hLp
  rw [v3Breakpoints_succ (by omega) hL hp, head_breakpointLoop h hs] at hfirst
  split_ifs at hfirst with hstop
  have hmax := Option.some.inj hfirst
  exact ⟨⟨hL, hp⟩, by omega, by omega⟩

theorem BoundaryAgrees.exact (h : TickAhead pool direction t) (hs : Sized pool)
    (hagrees : BoundaryAgrees pool direction t) : BoundaryExact pool direction := by
  obtain ⟨⟨hL, hp⟩, ⟨hpos, hcost⟩, hmax⟩ := hagrees.cost h hs
  have hcosteq : bandCost pool (firstBand pool direction) =
      firstIn pool direction + feeRoundUp pool.info.feeTier (firstIn pool direction) :=
    bandCost_eq hs (h.stretch hs)
  have hin : 0 < firstIn pool direction := by
    rcases Nat.eq_zero_or_pos (firstIn pool direction) with hzero | hin
    · have := (feeRoundUp_spec hs (Nat.zero_le (2 ^ 224))).2.2.mpr (by simp)
      rw [hzero] at hcosteq
      omega
    · exact hin
  have hnarrow : narrowed pool direction = bandCost pool (firstBand pool direction) := by
    rw [← maxV3TradeableAmount_eq_narrowed h hs hL hp hin, hmax]
  have hleast := hagrees.least
  rw [hmax] at hleast
  obtain ⟨⟨-, hends⟩, hlower⟩ := hleast
  obtain ⟨hout, hfit⟩ := (endsAt_whole_iff h hL hp rfl hpos (by omega)).mp hends
  refine ⟨hL, hp, hin, by omega, by omega, hout, hfit, fun x hx hprice => ?_⟩
  rcases Nat.eq_zero_or_pos x with rfl | hx0
  · rw [partPrice_zero] at hprice
    exact h.moves hprice.symm
  · have hle := hlower ⟨by omega, (endsAt_part_iff h hL hp hx0 (by omega) (by omega)).mpr
      ⟨⟨hout, hfit⟩, hprice⟩⟩
    omega

theorem BoundaryExact.agrees (h : TickAhead pool direction t) (hs : Sized pool)
    (hexact : BoundaryExact pool direction) : BoundaryAgrees pool direction t := by
  obtain ⟨hL, hp, hin, hnarrow, hlt, hout, hfit, hrounded⟩ := hexact
  have hcosteq : bandCost pool (firstBand pool direction) =
      firstIn pool direction + feeRoundUp pool.info.feeTier (firstIn pool direction) :=
    bandCost_eq hs (h.stretch hs)
  have hmax := maxV3TradeableAmount_eq_narrowed h hs hL hp hin
  have hpos : 0 < bandCost pool (firstBand pool direction) := by omega
  refine ⟨⟨2 ^ 128 - 1, by omega, fun maxInput maxPoints hlo hhi hpoints => ?_⟩, ?_⟩
  · obtain ⟨points, rfl⟩ : ∃ n, maxPoints = n + 1 := ⟨maxPoints - 1, by omega⟩
    rw [v3Breakpoints_succ (by omega) hL hp, head_breakpointLoop h hs, if_neg (by omega), hmax]
    congr 1
    omega
  · rw [hmax]
    constructor
    · exact ⟨by omega, (endsAt_whole_iff h hL hp (by omega) (by omega) (by omega)).mpr
        ⟨hout, hfit⟩⟩
    · rintro x ⟨hx, hends⟩
      by_contra hlower
      have hpart := (endsAt_part_iff h hL hp hends.pos (by omega) hx).mp hends
      exact hrounded x (by omega) hpart.2

/-- **Main theorem.** The three amounts agree exactly where the narrowing loses nothing, the fee on
    top of the band is the fee out of the whole, and the tick is reached no sooner. -/
theorem boundaryAgrees_iff (h : TickAhead pool direction t) (hs : Sized pool) :
    BoundaryAgrees pool direction t ↔ BoundaryExact pool direction :=
  ⟨BoundaryAgrees.exact h hs, BoundaryExact.agrees h hs⟩

/-- `rangePool` without a fee. -/
def freePool : UniswapV3PoolState :=
  { rangePool with info := { rangePool.info with fee := 0 } }

/-- Without a fee, the bound of `freePool` for token1 is the input that reaches the tick 60. -/
theorem boundary_free : BoundaryAgrees freePool .oneForZero 60 := by
  have hahead : TickAhead freePool .oneForZero 60 := ⟨by decide +kernel, by decide +kernel⟩
  have hs : Sized freePool := by decide
  refine (boundaryAgrees_iff hahead hs).mpr ⟨by decide, by decide, by decide +kernel,
    by decide +kernel, by decide +kernel, by decide +kernel, by decide +kernel, fun x hx => ?_⟩
  have hnarrow : narrowed freePool .oneForZero =
      bandCost freePool (firstBand freePool .oneForZero) := by decide +kernel
  have hcost : narrowed freePool .oneForZero < 2 ^ 128 := by decide +kernel
  have hrise : (firstBand freePool .oneForZero).start <
      (firstBand freePool .oneForZero).target := by decide +kernel
  exact (partPrice_up hs (hahead.stretch hs) hrise (by omega) (by omega)).2.ne

/-- `rangePool` with the liquidity of tokens with 18 decimals. -/
def deepRangePool : UniswapV3PoolState :=
  { rangePool with liquidity := 10 ^ 24, ticks := {(-60, 10 ^ 24), (60, -10 ^ 24)} }

/-- The tick -60 is about 3013 tokens away; the bound says 6.6. -/
theorem boundary_truncated :
    TickAhead deepRangePool .zeroForOne (-60) ∧
      maxV3TradeableAmount deepRangePool .zeroForOne = 6574961463703822779 ∧
      v3Breakpoints deepRangePool .zeroForOne (2 ^ 128 - 1) 1 = [3013367124930151430941] ∧
      ¬BoundaryAgrees deepRangePool .zeroForOne (-60) := by
  have hmax : maxV3TradeableAmount deepRangePool .zeroForOne = 6574961463703822779 := by
    decide +kernel
  have hfirst : v3Breakpoints deepRangePool .zeroForOne (2 ^ 128 - 1) 1 =
      [3013367124930151430941] := by decide +kernel
  refine ⟨⟨by decide +kernel, by decide +kernel⟩, hmax, hfirst, ?_⟩
  rintro ⟨⟨N, hN, h⟩, -⟩
  have hhead := h (2 ^ 128 - 1) 1 (by omega) (by omega) (by omega)
  rw [hfirst, hmax] at hhead
  revert hhead
  decide

end MevScout.Pool.Math
