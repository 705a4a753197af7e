import MevScout.Common.Loop
import MevScout.Pool.Math.Breakpoints

/-!
# The loops over the ticks end

`quote_v3_exact_in_post` loops while some of the input is left, and a step may consume nothing of
it; `v3_breakpoints` loops until it has enough thresholds. Both end because of the ticks: a turn
after which a loop goes on has used up the input, or has moved the current tick to an initialized
tick ahead of it, and the ticks ahead become fewer.

Results:
* `quoteTurn_progresses`, `breakpointTurn_progresses`: what one turn does;
* `quoteLoop_of_loopRun`, `breakpointLoop_of_loopRun`: the bounded loops of the quote and of the
  thresholds are these loops;
* `tickLoops_end`: **main theorem**, how many turns the loops take.
-/

namespace MevScout.Pool.Math

variable {pool : UniswapV3PoolState} {direction : V3Direction} {maxInput maxPoints : ℕ}

/-! ## Progress -/

/-- The number of initialized ticks. -/
def initializedTicks (ticks : TickMap) : ℕ := ticks.toList.countP (·.2 ≠ 0)

/-- The current tick is moved to an initialized tick that is strictly ahead of it. -/
def AdvancesPast (ticks : TickMap) (direction : V3Direction) (currentTick newTick : ℤ) : Prop :=
  ∃ entry ∈ ticks.toList, IsAhead currentTick direction entry ∧ entry.1 = newTick

theorem ticksAhead_le_initializedTicks (ticks : TickMap) (direction : V3Direction)
    (currentTick : ℤ) :
    ticksAhead ticks direction currentTick ≤ initializedTicks ticks :=
  List.countP_mono_left fun entry _ h => by
    have hahead : IsAhead currentTick direction entry := by simpa using h
    simpa using hahead.1

theorem AdvancesPast.ticksAhead_lt {ticks : TickMap} {currentTick newTick : ℤ}
    (h : AdvancesPast ticks direction currentTick newTick) :
    ticksAhead ticks direction newTick < ticksAhead ticks direction currentTick := by
  obtain ⟨entry, hmem, hahead, rfl⟩ := h
  exact ticksAhead_lt_of_isAhead hmem hahead

/-! ## The quote -/

/-- A turn of the quote leaves the loop, uses up the input, or moves past an initialized tick. -/
theorem quoteTurn_progresses (pool : UniswapV3PoolState) (direction : V3Direction)
    {s : QuoteState} (hlt : s.amountRemaining < 2 ^ 256) :
    (quoteTurn pool direction s).1.amountRemaining ≤ s.amountRemaining ∧
      ((quoteTurn pool direction s).2 = false ∨
        (quoteTurn pool direction s).1.amountRemaining = 0 ∨
        AdvancesPast pool.ticks direction s.currentTick
          (quoteTurn pool direction s).1.currentTick) := by
  by_cases hstuck : (bandAt pool direction s).target = s.sqrtPrice
  · rw [quoteTurn_stuck hstuck]
    exact ⟨le_rfl, .inl rfl⟩
  rw [quoteTurn_eq hstuck]
  constructor
  · rw [(advance_fields ..).1]
    exact Nat.sub_le _ _
  unfold advance
  split_ifs with hprice
  · split
    · rename_i t hnext
      split_ifs with hL
      · exact .inl rfl
      · exact .inr (.inr (findNextInitializedTick_ahead hnext))
    · exact .inl rfl
  · -- the step stops short of its target
    refine .inr (.inl (Nat.sub_eq_zero_of_le ?_))
    exact computeSwapStep_consumes hprice hlt

/-- The loop of the quote, from any of its states. -/
abbrev QuoteRun (pool : UniswapV3PoolState) (direction : V3Direction) :
    QuoteState → List QuoteState → QuoteState → Prop :=
  LoopRun (fun s => 0 < s.amountRemaining) (quoteTurn pool direction)

/-- A run that has enough fuel is the bounded loop. -/
theorem quoteLoop_of_loopRun {s t : QuoteState} {xs : List QuoteState} {fuel : ℕ}
    (hrun : QuoteRun pool direction s xs t) (hfuel : xs.length < fuel) :
    quoteLoop pool direction fuel s = some t := by
  induction hrun generalizing fuel with
  | stop hzero =>
    obtain ⟨fuel, rfl⟩ : ∃ k, fuel = k + 1 := ⟨fuel - 1, by omega⟩
    exact if_pos (by omega)
  | leave hpos hbody =>
    obtain ⟨fuel, rfl⟩ : ∃ k, fuel = k + 1 := ⟨fuel - 1, by omega⟩
    rw [quoteLoop, if_neg (by omega), hbody]
  | next hpos hbody _ ih =>
    obtain ⟨fuel, rfl⟩ : ∃ k, fuel = k + 1 := ⟨fuel - 1, by omega⟩
    rw [quoteLoop, if_neg (by omega), hbody]
    exact ih (by rw [List.length_cons] at hfuel; omega)

/-! ## The thresholds -/

/-- The mutable variables of the loop of `v3_breakpoints`. -/
structure BreakpointState where
  sqrtPrice : ℕ
  currentTick : ℤ
  liquidity : ℕ
  cumulative : ℕ
  res : List ℕ
  deriving DecidableEq, Repr

/-- One turn of the loop of `v3_breakpoints` (`v3.rs`, lines 502–546): the new variables, and
    whether the loop goes on. -/
def breakpointTurn (pool : UniswapV3PoolState) (direction : V3Direction) (maxInput : ℕ)
    (s : BreakpointState) : BreakpointState × Bool :=
  let (target, hasRealTick) := getSwapTargetForTick pool.ticks s.currentTick s.sqrtPrice direction
  if target = s.sqrtPrice then (s, false)
  else
    let step := computeSwapStep s.sqrtPrice target s.liquidity (2 ^ 256 - 1) pool.info.feeTier
    if 2 ^ 256 ≤ step.amountIn + step.feeAmount then (s, false)
    else
      let consumed := min (step.amountIn + step.feeAmount) (2 ^ 128 - 1)
      let nextCumulative := saturatingAdd 128 s.cumulative consumed
      if nextCumulative ≥ maxInput ∨ nextCumulative = s.cumulative then (s, false)
      else
        let s := { s with cumulative := nextCumulative, res := s.res ++ [nextCumulative] }
        if !hasRealTick then (s, false)
        else
          let nextTick := findNextInitializedTick pool.ticks s.currentTick direction
          let (currentTick, liquidity) := crossTick pool.ticks s.liquidity nextTick direction
          if liquidity = 0 then ({ s with currentTick, liquidity }, false)
          else ({ s with currentTick, liquidity, sqrtPrice := target }, true)

/-- The variables before the loop. -/
def breakpointStart (pool : UniswapV3PoolState) : BreakpointState where
  sqrtPrice := pool.sqrtPriceX96
  currentTick := pool.tick
  liquidity := pool.liquidity
  cumulative := 0
  res := []

/-- The loop of the thresholds, from any of its states. -/
abbrev BreakpointRun (pool : UniswapV3PoolState) (direction : V3Direction)
    (maxInput maxPoints : ℕ) : BreakpointState → List BreakpointState → BreakpointState → Prop :=
  LoopRun (fun s => s.res.length < maxPoints) (breakpointTurn pool direction maxInput)

/-- A turn of the thresholds leaves the loop or moves past an initialized tick. -/
theorem breakpointTurn_progresses (pool : UniswapV3PoolState) (direction : V3Direction)
    (maxInput : ℕ) (s : BreakpointState) :
    (breakpointTurn pool direction maxInput s).2 = false ∨
      AdvancesPast pool.ticks direction s.currentTick
        (breakpointTurn pool direction maxInput s).1.currentTick := by
  have hreal := hasRealTick_eq pool.ticks s.currentTick s.sqrtPrice direction
  unfold breakpointTurn
  generalize getSwapTargetForTick pool.ticks s.currentTick s.sqrtPrice direction = target at *
  obtain ⟨target, real⟩ := target
  dsimp only at hreal ⊢
  generalize computeSwapStep s.sqrtPrice target s.liquidity (2 ^ 256 - 1) pool.info.feeTier = step
  rw [hreal]
  split_ifs with _ _ _ hnone
  · exact .inl rfl
  · exact .inl rfl
  · exact .inl rfl
  · exact .inl rfl
  · exact .inl rfl
  · -- the tick is crossed
    obtain ⟨t, hnext⟩ := Option.ne_none_iff_exists'.mp (show findNextInitializedTick pool.ticks
      s.currentTick direction ≠ none by simpa using hnone)
    rw [hnext]
    refine .inr ?_
    show AdvancesPast pool.ticks direction s.currentTick (crossTick _ _ (some t) direction).1
    rw [crossTick_some]
    exact findNextInitializedTick_ahead hnext

/-- The thresholds so far, and those of the bounded loop from here on. -/
def breakpointsFrom (pool : UniswapV3PoolState) (direction : V3Direction) (maxInput points : ℕ)
    (s : BreakpointState) : List ℕ :=
  s.res ++ breakpointLoop pool direction maxInput points s.sqrtPrice s.currentTick s.liquidity
    s.cumulative

/-- The bounded loop takes the same turns. -/
theorem breakpointsFrom_succ (pool : UniswapV3PoolState) (direction : V3Direction)
    (maxInput points : ℕ) (s : BreakpointState) :
    breakpointsFrom pool direction maxInput (points + 1) s =
      if (breakpointTurn pool direction maxInput s).2 then
        breakpointsFrom pool direction maxInput points (breakpointTurn pool direction maxInput s).1
      else (breakpointTurn pool direction maxInput s).1.res := by
  rw [breakpointsFrom, breakpointLoop]
  unfold breakpointTurn
  rcases getSwapTargetForTick pool.ticks s.currentTick s.sqrtPrice direction with ⟨target, real⟩
  dsimp only
  split_ifs with h₁ h₂ h₃ h₄ h₅ <;> simp_all [breakpointsFrom]

theorem length_res_breakpointTurn {s : BreakpointState}
    (h : (breakpointTurn pool direction maxInput s).2 = true) :
    (breakpointTurn pool direction maxInput s).1.res.length = s.res.length + 1 := by
  revert h
  unfold breakpointTurn
  dsimp only
  split_ifs <;> simp

/-- The run of the loop collects the thresholds of the bounded loop. -/
theorem breakpointLoop_of_loopRun {s t : BreakpointState} {xs : List BreakpointState} {points : ℕ}
    (hrun : BreakpointRun pool direction maxInput maxPoints s xs t)
    (hpoints : maxPoints - s.res.length = points) :
    t.res = breakpointsFrom pool direction maxInput points s := by
  induction hrun generalizing points with
  | @stop s hfull =>
    obtain rfl : points = 0 := by omega
    exact (List.append_nil s.res).symm
  | @leave s t hmore hbody =>
    obtain ⟨points, rfl⟩ : ∃ k, points = k + 1 := ⟨points - 1, by omega⟩
    rw [breakpointsFrom_succ, hbody, if_neg Bool.false_ne_true]
  | @next s t u xs hmore hbody _ ih =>
    obtain ⟨points, rfl⟩ : ∃ k, points = k + 1 := ⟨points - 1, by omega⟩
    have hlen := length_res_breakpointTurn (s := s) (congrArg Prod.snd hbody)
    rw [hbody] at hlen
    rw [breakpointsFrom_succ, hbody, if_pos rfl]
    dsimp only at hlen
    exact ih (by omega)

/-! ## Both loops -/

/-- The loop of the quote ends, within one more turn than there are ticks ahead. -/
theorem exists_quoteRun (pool : UniswapV3PoolState) (direction : V3Direction) {s : QuoteState}
    (hlt : s.amountRemaining < 2 ^ 256) :
    ∃ xs t, QuoteRun pool direction s xs t ∧
      xs.length ≤ ticksAhead pool.ticks direction s.currentTick + 1 :=
  exists_loopRun (I := fun s : QuoteState => s.amountRemaining < 2 ^ 256)
    (μ := fun s => ticksAhead pool.ticks direction s.currentTick) hlt
    fun s s' hlt _ (hbody : quoteTurn pool direction s = (s', true)) => by
      obtain ⟨hle, hzero | hahead⟩ := quoteTurn_progress hbody hlt
      · exact ⟨lt_of_le_of_lt hle hlt, .inl (by omega)⟩
      · exact ⟨lt_of_le_of_lt hle hlt, .inr hahead⟩

/-- The loop of the thresholds ends, within one more turn than there are ticks ahead. -/
theorem exists_breakpointRun (pool : UniswapV3PoolState) (direction : V3Direction)
    (maxInput maxPoints : ℕ) (s : BreakpointState) :
    ∃ xs t, BreakpointRun pool direction maxInput maxPoints s xs t ∧
      xs.length ≤ ticksAhead pool.ticks direction s.currentTick + 1 :=
  exists_loopRun (I := fun _ : BreakpointState => True)
    (μ := fun s => ticksAhead pool.ticks direction s.currentTick) trivial
    fun s s' _ _ (hbody : breakpointTurn pool direction maxInput s = (s', true)) => by
      have hturn := breakpointTurn_progresses pool direction maxInput s
      rw [hbody] at hturn
      obtain hleave | hahead := hturn
      · cases hleave
      · exact ⟨trivial, .inr hahead.ticksAhead_lt⟩

/-- **The loops end.** For every pool, direction and amount, the loop of the quote and the loop of
    the thresholds have a run, of at most one more turn than there are initialized ticks. Every
    turn leaves the loop, uses up the input, or moves past an initialized tick. The run ends where
    the bounded loop of the model does. -/
theorem tickLoops_end (pool : UniswapV3PoolState) (direction : V3Direction)
    (amountIn maxInput maxPoints : ℕ) (hin : amountIn < 2 ^ 128) :
    (∃ xs t, QuoteRun pool direction (quoteStart pool amountIn) xs t ∧
      xs.length ≤ initializedTicks pool.ticks + 1 ∧
      (∀ s ∈ xs, (quoteTurn pool direction s).2 = false ∨
        (quoteTurn pool direction s).1.amountRemaining = 0 ∨
        AdvancesPast pool.ticks direction s.currentTick
          (quoteTurn pool direction s).1.currentTick) ∧
      quoteLoop pool direction (pool.ticks.size + 2) (quoteStart pool amountIn) = some t) ∧
    (∃ xs t, BreakpointRun pool direction maxInput maxPoints (breakpointStart pool) xs t ∧
      xs.length ≤ initializedTicks pool.ticks + 1 ∧
      (∀ s ∈ xs, (breakpointTurn pool direction maxInput s).2 = false ∨
        AdvancesPast pool.ticks direction s.currentTick
          (breakpointTurn pool direction maxInput s).1.currentTick) ∧
      v3Breakpoints pool direction maxInput maxPoints =
        if maxInput = 0 ∨ pool.liquidity = 0 ∨ pool.sqrtPriceX96 = 0 then [] else t.res) := by
  have hahead := ticksAhead_le_initializedTicks pool.ticks direction pool.tick
  constructor
  · have hlt : (quoteStart pool amountIn).amountRemaining < 2 ^ 256 :=
      lt_trans hin (by norm_num)
    obtain ⟨xs, t, hrun, hlen⟩ := exists_quoteRun pool direction hlt
    have hsize : ticksAhead pool.ticks direction (quoteStart pool amountIn).currentTick ≤
        pool.ticks.size := ticksAhead_le_size
    refine ⟨xs, t, hrun, hlen.trans (Nat.succ_le_succ hahead), fun s hs => ?_,
      quoteLoop_of_loopRun hrun (by omega)⟩
    have hkept := hrun.invariant hlt fun s s' hlt _ hbody =>
      lt_of_le_of_lt (quoteTurn_progress hbody hlt).1 hlt
    exact (quoteTurn_progresses pool direction (hkept s hs).1).2
  · obtain ⟨xs, t, hrun, hlen⟩ := exists_breakpointRun pool direction maxInput maxPoints
      (breakpointStart pool)
    refine ⟨xs, t, hrun, hlen.trans (Nat.succ_le_succ hahead),
      fun s _ => breakpointTurn_progresses pool direction maxInput s, ?_⟩
    rw [breakpointLoop_of_loopRun hrun rfl]
    rfl

/-- In `rangePool`, which has two initialized ticks, neither loop takes more than three turns. -/
theorem tickLoops_end_inRange :
    (∃ xs t, QuoteRun rangePool .oneForZero (quoteStart rangePool (10 ^ 10)) xs t ∧
      xs.length ≤ 3) ∧
    (∃ xs t, BreakpointRun rangePool .oneForZero (2 ^ 128 - 1) 8 (breakpointStart rangePool) xs t ∧
      xs.length ≤ 3) := by
  have hticks : initializedTicks rangePool.ticks = 2 := by decide +kernel
  obtain ⟨⟨xs, t, hrun, hlen, -⟩, ys, u, hrun', hlen', -⟩ :=
    tickLoops_end rangePool .oneForZero (10 ^ 10) (2 ^ 128 - 1) 8 (by norm_num)
  rw [hticks] at hlen hlen'
  exact ⟨⟨xs, t, hrun, hlen⟩, ys, u, hrun', hlen'⟩

end MevScout.Pool.Math
