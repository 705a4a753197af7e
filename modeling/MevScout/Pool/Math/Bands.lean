import MevScout.Common.Ladder
import MevScout.Pool.Math.V3

/-!
# The bands of a walk

The loop of `quote_v3_exact_in_post` crosses the initialized ticks ahead one by one. How far it
comes depends on the input; the bands it passes do not. A band is a stretch between two prices
with one liquidity; the bands of a pool form a ladder, the cost of a band is
`total_max_cost`, and the steps of the loop are the rungs that the input pays for.

The code returns the accumulated output only where it fits 64 bits.

Results:
* `map_view_turns`: the steps of the loop are the rungs that the input pays for;
* `quoteEnd_totalAmountOut`: the accumulated output is the sum over these rungs;
* `quoteV3ExactInPost_total_iff`: when the quote is the accumulated output;
* `deep_quote_refused`: a quote of 100 tokens that is refused.
-/

namespace MevScout.Pool.Math

open Ladder

variable {pool : UniswapV3PoolState} {direction : V3Direction} {s s' : QuoteState}

/-! ## The turns of the loop -/

/-- A stretch of the walk: from `start` to `target` with one liquidity, after the tick `tick` and
    up to the initialized tick `next`, if there is one. -/
structure Band where
  start : ℕ
  target : ℕ
  liquidity : ℕ
  tick : ℤ
  next : Option ℤ
  deriving DecidableEq, Repr

/-- The stretch ahead of a price, a tick and a liquidity. -/
def bandAhead (pool : UniswapV3PoolState) (direction : V3Direction) (price : ℕ) (tick : ℤ)
    (liquidity : ℕ) : Band where
  start := price
  target := (getSwapTargetForTick pool.ticks tick price direction).1
  liquidity := liquidity
  tick := tick
  next := findNextInitializedTick pool.ticks tick direction

/-- The stretch that a turn of the loop is in. -/
def bandAt (pool : UniswapV3PoolState) (direction : V3Direction) (s : QuoteState) : Band :=
  bandAhead pool direction s.sqrtPrice s.currentTick s.liquidity

/-- What it takes to pass a band. -/
def bandCost (pool : UniswapV3PoolState) (b : Band) : ℕ :=
  totalMaxCost b.start b.target b.liquidity pool.info.feeTier

/-- The step of the loop in a band, with `amount` left of the input. -/
def bandStep (pool : UniswapV3PoolState) (b : Band) (amount : ℕ) : SwapStep :=
  computeSwapStep b.start b.target b.liquidity amount pool.info.feeTier

/-- The step of a turn. -/
def stepAt (pool : UniswapV3PoolState) (direction : V3Direction) (s : QuoteState) : SwapStep :=
  bandStep pool (bandAt pool direction s) s.amountRemaining

/-- The liquidity beyond a tick, as `cross_tick` computes it. -/
def liquidityBeyond (pool : UniswapV3PoolState) (direction : V3Direction) (liquidity : ℕ) (t : ℤ) :
    ℕ :=
  (crossTick pool.ticks liquidity (some t) direction).2

theorem crossTick_some (ticks : TickMap) (liquidity : ℕ) (t : ℤ) (direction : V3Direction) :
    (crossTick ticks liquidity (some t) direction).1 = t := by
  unfold crossTick
  dsimp only
  split <;> rfl

theorem hasRealTick_eq (ticks : TickMap) (currentTick : ℤ) (sqrtPrice : ℕ)
    (direction : V3Direction) : (getSwapTargetForTick ticks currentTick sqrtPrice direction).2 =
      (findNextInitializedTick ticks currentTick direction).isSome := by
  unfold getSwapTargetForTick
  cases findNextInitializedTick ticks currentTick direction <;> cases direction <;> rfl

/-- What a turn does with the input and the output, in the band `b`. -/
def spend (pool : UniswapV3PoolState) (b : Band) (s : QuoteState) : QuoteState :=
  { s with
    totalAmountOut := wrappingAdd 256 s.totalAmountOut (bandStep pool b s.amountRemaining).amountOut
    amountRemaining := s.amountRemaining - wrappingAdd 256
      (bandStep pool b s.amountRemaining).amountIn (bandStep pool b s.amountRemaining).feeAmount }

/-- What a turn does with the price, the tick and the liquidity, in the band `b`. -/
def advance (pool : UniswapV3PoolState) (direction : V3Direction) (b : Band) (s : QuoteState)
    (price : ℕ) : QuoteState × Bool :=
  if price = b.target then
    match b.next with
    | some t =>
      if liquidityBeyond pool direction s.liquidity t = 0 then
        ({ s with currentTick := t, liquidity := 0 }, false)
      else
        ({ s with
            sqrtPrice := price
            currentTick := t
            liquidity := liquidityBeyond pool direction s.liquidity t }, true)
    | none => (s, false)
  else ({ s with sqrtPrice := price }, true)

/-- A turn that takes a step spends on it, and then moves on. -/
theorem quoteTurn_eq (h : (bandAt pool direction s).target ≠ s.sqrtPrice) :
    quoteTurn pool direction s =
      advance pool direction (bandAt pool direction s) (spend pool (bandAt pool direction s) s)
        (bandStep pool (bandAt pool direction s) s.amountRemaining).sqrtPrice := by
  have hreal := hasRealTick_eq pool.ticks s.currentTick s.sqrtPrice direction
  unfold quoteTurn advance spend bandStep liquidityBeyond
  unfold bandAt bandAhead at h ⊢
  dsimp only at h ⊢
  generalize getSwapTargetForTick pool.ticks s.currentTick s.sqrtPrice direction = target at *
  obtain ⟨target, real⟩ := target
  dsimp only at h hreal ⊢
  rw [if_neg h, hreal]
  generalize computeSwapStep s.sqrtPrice target s.liquidity s.amountRemaining
    pool.info.feeTier = step
  cases hnext : findNextInitializedTick pool.ticks s.currentTick direction with
  | none =>
    by_cases hp : step.sqrtPrice = target
    · simp [hp]
    · simp [hp]
  | some t =>
    have htick := crossTick_some pool.ticks s.liquidity t direction
    by_cases hp : step.sqrtPrice = target
    · simp only [hp, Option.isSome_some, and_self, if_true, htick]
      by_cases hL : (crossTick pool.ticks s.liquidity (some t) direction).2 = 0
      · simp [hL]
      · simp [hL]
    · simp [hp]

theorem quoteTurn_stuck (h : (bandAt pool direction s).target = s.sqrtPrice) :
    quoteTurn pool direction s = (s, false) := by
  unfold bandAt bandAhead at h
  unfold quoteTurn
  generalize getSwapTargetForTick pool.ticks s.currentTick s.sqrtPrice direction = target at *
  exact if_pos h

/-- The turns of the loop that take a step, each with the variables before and after it. -/
def turns (pool : UniswapV3PoolState) (direction : V3Direction) :
    ℕ → QuoteState → List (QuoteState × QuoteState)
  | 0, _ => []
  | fuel + 1, s =>
    if s.amountRemaining = 0 ∨ (bandAt pool direction s).target = s.sqrtPrice then []
    else
      match quoteTurn pool direction s with
      | (s', true) => (s, s') :: turns pool direction fuel s'
      | (s', false) => [(s, s')]

/-! ## The ladder -/

/-- The bands ahead, at most `fuel` of them. -/
def bandsFrom (pool : UniswapV3PoolState) (direction : V3Direction) :
    ℕ → ℕ → ℤ → ℕ → List Band
  | 0, _, _, _ => []
  | fuel + 1, price, tick, liquidity =>
    let b := bandAhead pool direction price tick liquidity
    if b.target = price then []
    else
      b :: match b.next with
        | some t =>
          if liquidityBeyond pool direction liquidity t = 0 then []
          else bandsFrom pool direction fuel b.target t (liquidityBeyond pool direction liquidity t)
        | none => []

/-- The ladder ends where the price is, after one band, or goes on beyond the tick that the
    first band ends at. -/
theorem bandsFrom_cases {b : Band} {price : ℕ} {tick : ℤ} {L : ℕ} (fuel : ℕ)
    (hb : bandAhead pool direction price tick L = b) :
    (b.target = price ∧ bandsFrom pool direction (fuel + 1) price tick L = []) ∨
    (b.target ≠ price ∧ b.next = none ∧ bandsFrom pool direction (fuel + 1) price tick L = [b]) ∨
    (b.target ≠ price ∧ ∃ t, b.next = some t ∧ liquidityBeyond pool direction L t = 0 ∧
      bandsFrom pool direction (fuel + 1) price tick L = [b]) ∨
    (b.target ≠ price ∧ ∃ t, b.next = some t ∧ liquidityBeyond pool direction L t ≠ 0 ∧
      bandsFrom pool direction (fuel + 1) price tick L =
        b :: bandsFrom pool direction fuel b.target t (liquidityBeyond pool direction L t)) := by
  subst hb
  by_cases hmoves : (bandAhead pool direction price tick L).target = price
  · exact .inl ⟨hmoves, if_pos hmoves⟩
  have hcons : bandsFrom pool direction (fuel + 1) price tick L = _ := if_neg hmoves
  cases hnext : (bandAhead pool direction price tick L).next with
  | none =>
    rw [hnext] at hcons
    exact .inr (.inl ⟨hmoves, rfl, hcons⟩)
  | some t =>
    rw [hnext] at hcons
    dsimp only at hcons
    by_cases hL : liquidityBeyond pool direction L t = 0
    · rw [if_pos hL] at hcons
      exact .inr (.inr (.inl ⟨hmoves, t, rfl, hL, hcons⟩))
    · rw [if_neg hL] at hcons
      exact .inr (.inr (.inr ⟨hmoves, t, rfl, hL, hcons⟩))

/-- The bands of a pool. -/
def bands (pool : UniswapV3PoolState) (direction : V3Direction) : List Band :=
  bandsFrom pool direction (pool.ticks.size + 2) pool.sqrtPriceX96 pool.tick pool.liquidity

/-- The step of the loop on a rung. -/
def rungStep (pool : UniswapV3PoolState) (r : Band × Option ℕ) : SwapStep :=
  bandStep pool r.1 (paid (bandCost pool) r)

/-- The price that `x` of the input leads to in a band that it does not pass. -/
def partPrice (pool : UniswapV3PoolState) (b : Band) (x : ℕ) : ℕ :=
  (getNextSqrtPriceFromInput b.start b.liquidity (amountAfterFee pool.info.feeTier x)
    (if b.target < b.start then .zeroForOne else .oneForZero)).getD b.start

theorem rungStep_whole (b : Band) : rungStep pool (b, none) =
    ⟨b.target, maxIn b.start b.target b.liquidity,
      amountOut (b.target < b.start) b.start b.target b.liquidity,
      feeRoundUp pool.info.feeTier (maxIn b.start b.target b.liquidity)⟩ :=
  if_pos (le_refl (bandCost pool b))

theorem rungStep_part {b : Band} {x : ℕ} (h : x < bandCost pool b) : rungStep pool (b, some x) =
    ⟨partPrice pool b x, amountAfterFee pool.info.feeTier x,
      amountOut (b.target < b.start) b.start (partPrice pool b x) b.liquidity,
      feeRoundUp pool.info.feeTier x⟩ := by
  show computeSwapStep _ _ _ x _ = _
  rw [computeSwapStep_below h]
  unfold partPrice
  simp only [decide_eq_true_eq]

/-- The rung that a turn is on. -/
def view (pool : UniswapV3PoolState) (direction : V3Direction) (s : QuoteState) :
    Band × Option ℕ :=
  (bandAt pool direction s,
    if s.amountRemaining < bandCost pool (bandAt pool direction s) then some s.amountRemaining
    else none)

/-- With the cost of a band left or more, the step is the same. -/
theorem bandStep_whole {b : Band} {amount : ℕ} (h : bandCost pool b ≤ amount) :
    bandStep pool b amount = bandStep pool b (bandCost pool b) := by
  unfold bandStep computeSwapStep
  rw [if_pos (show amount ≥ totalMaxCost _ _ _ _ from h),
    if_pos (show bandCost pool b ≥ totalMaxCost _ _ _ _ from le_rfl)]

theorem bandStep_whole_fields {b : Band} {amount : ℕ} (h : bandCost pool b ≤ amount) :
    (bandStep pool b amount).sqrtPrice = b.target ∧
      wrappingAdd 256 (bandStep pool b amount).amountIn (bandStep pool b amount).feeAmount =
        bandCost pool b := by
  unfold bandStep computeSwapStep
  rw [if_pos (show amount ≥ totalMaxCost _ _ _ _ from h)]
  exact ⟨rfl, rfl⟩

/-- The step of a turn is the step on its rung. -/
theorem rungStep_view (s : QuoteState) :
    rungStep pool (view pool direction s) = stepAt pool direction s := by
  unfold rungStep view paid stepAt
  dsimp only
  split_ifs with h
  · rfl
  · exact (bandStep_whole (by omega)).symm

/-- A band that is not paid for in full uses up the input. -/
theorem le_consumed {b : Band} {amount : ℕ} (h : amount < bandCost pool b)
    (hlt : amount < 2 ^ 256) : amount ≤ wrappingAdd 256 (bandStep pool b amount).amountIn
      (bandStep pool b amount).feeAmount := by
  unfold bandStep
  rw [computeSwapStep_below h]
  exact le_amountAfterFee_add _ hlt

@[simp] theorem spend_amountRemaining_whole {b : Band}
    (h : bandCost pool b ≤ s.amountRemaining) :
    (spend pool b s).amountRemaining = s.amountRemaining - bandCost pool b := by
  show s.amountRemaining - wrappingAdd 256 _ _ = _
  rw [(bandStep_whole_fields h).2]

theorem spend_amountRemaining_part {b : Band} (h : s.amountRemaining < bandCost pool b)
    (hlt : s.amountRemaining < 2 ^ 256) : (spend pool b s).amountRemaining = 0 :=
  Nat.sub_eq_zero_of_le (le_consumed h hlt)

/-- Moving on keeps what is left of the input and what is paid out. -/
theorem advance_fields (pool : UniswapV3PoolState) (direction : V3Direction) (b : Band)
    (s : QuoteState) (price : ℕ) :
    (advance pool direction b s price).1.amountRemaining = s.amountRemaining ∧
      (advance pool direction b s price).1.totalAmountOut = s.totalAmountOut := by
  unfold advance
  split_ifs
  · split
    · split_ifs <;> exact ⟨rfl, rfl⟩
    · exact ⟨rfl, rfl⟩
  · exact ⟨rfl, rfl⟩

/-! ## Turn by turn -/

theorem turns_of_amountRemaining_eq_zero (h : s.amountRemaining = 0) (fuel : ℕ) :
    turns pool direction fuel s = [] := by
  cases fuel with
  | zero => rfl
  | succ fuel => exact if_pos (.inl h)

theorem turns_stuck (h : (bandAt pool direction s).target = s.sqrtPrice) (fuel : ℕ) :
    turns pool direction fuel s = [] := by
  cases fuel with
  | zero => rfl
  | succ fuel => exact if_pos (.inr h)

theorem turns_succ (fuel : ℕ) (h₀ : s.amountRemaining ≠ 0)
    (h₁ : (bandAt pool direction s).target ≠ s.sqrtPrice) :
    turns pool direction (fuel + 1) s = match quoteTurn pool direction s with
      | (s', true) => (s, s') :: turns pool direction fuel s'
      | (s', false) => [(s, s')] :=
  if_neg (not_or.mpr ⟨h₀, h₁⟩)

/-- The variables after a turn that passes the band `b` and crosses the tick `t`. -/
def passed (pool : UniswapV3PoolState) (direction : V3Direction) (b : Band) (s : QuoteState)
    (t : ℤ) : QuoteState :=
  { spend pool b s with
    sqrtPrice := b.target
    currentTick := t
    liquidity := liquidityBeyond pool direction s.liquidity t }

/-- The four ways that a step of the loop goes: it stops inside its band with the input used up,
    it reaches the end of the price range, it crosses a tick beyond which there is no liquidity,
    or it crosses a tick and the loop goes on. -/
theorem turns_cases {b : Band} (fuel : ℕ) (hb : bandAt pool direction s = b)
    (h₀ : s.amountRemaining ≠ 0) (h₁ : b.target ≠ s.sqrtPrice) (hlt : s.amountRemaining < 2 ^ 256) :
    (s.amountRemaining < bandCost pool b ∧
      (advance pool direction b (spend pool b s)
        (bandStep pool b s.amountRemaining).sqrtPrice).1.amountRemaining = 0 ∧
      turns pool direction (fuel + 1) s = [(s, (advance pool direction b (spend pool b s)
        (bandStep pool b s.amountRemaining).sqrtPrice).1)]) ∨
    (bandCost pool b ≤ s.amountRemaining ∧ b.next = none ∧
      turns pool direction (fuel + 1) s = [(s, spend pool b s)]) ∨
    (bandCost pool b ≤ s.amountRemaining ∧ ∃ t, b.next = some t ∧
      liquidityBeyond pool direction s.liquidity t = 0 ∧
      turns pool direction (fuel + 1) s =
        [(s, { spend pool b s with currentTick := t, liquidity := 0 })]) ∨
    (bandCost pool b ≤ s.amountRemaining ∧ ∃ t, b.next = some t ∧
      liquidityBeyond pool direction s.liquidity t ≠ 0 ∧
      turns pool direction (fuel + 1) s =
        (s, passed pool direction b s t) ::
          turns pool direction fuel (passed pool direction b s t)) := by
  subst hb
  rw [turns_succ fuel h₀ h₁, quoteTurn_eq h₁]
  generalize bandAt pool direction s = b at *
  rcases Nat.lt_or_ge s.amountRemaining (bandCost pool b) with hpart | hwhole
  · left
    have hzero := (advance_fields pool direction b (spend pool b s)
      (bandStep pool b s.amountRemaining).sqrtPrice).1.trans
        (spend_amountRemaining_part hpart hlt)
    refine ⟨hpart, hzero, ?_⟩
    generalize advance pool direction b (spend pool b s)
      (bandStep pool b s.amountRemaining).sqrtPrice = next at *
    obtain ⟨s', goesOn⟩ := next
    cases goesOn with
    | false => rfl
    | true =>
      show (s, s') :: turns pool direction fuel s' = _
      rw [turns_of_amountRemaining_eq_zero hzero]
  · right
    unfold advance
    rw [(bandStep_whole_fields hwhole).1, if_pos rfl]
    cases hnext : b.next with
    | none => exact .inl ⟨hwhole, rfl, rfl⟩
    | some t =>
      right
      by_cases hL : liquidityBeyond pool direction s.liquidity t = 0
      · left
        refine ⟨hwhole, t, rfl, hL, ?_⟩
        dsimp only
        rw [if_pos (show liquidityBeyond pool direction (spend pool b s).liquidity t = 0 from hL)]
      · right
        refine ⟨hwhole, t, rfl, hL, ?_⟩
        dsimp only
        rw [if_neg (show liquidityBeyond pool direction (spend pool b s).liquidity t ≠ 0 from hL)]
        rfl

/-- The variables at the end of the loop. -/
def walkEnd (pool : UniswapV3PoolState) (direction : V3Direction) (fuel : ℕ) (s : QuoteState) :
    QuoteState :=
  ((turns pool direction fuel s).getLast?.map Prod.snd).getD s

theorem walkEnd_cons {fuel : ℕ} {s₁ : QuoteState}
    (h : turns pool direction (fuel + 1) s = (s, s₁) :: turns pool direction fuel s₁) :
    walkEnd pool direction (fuel + 1) s = walkEnd pool direction fuel s₁ := by
  unfold walkEnd
  rw [h, List.getLast?_cons]
  cases (turns pool direction fuel s₁).getLast? <;> rfl

/-- The loop ends with the variables after its last step. -/
theorem quoteLoop_eq_walkEnd {fuel : ℕ} (h : quoteLoop pool direction fuel s = some s') :
    s' = walkEnd pool direction fuel s := by
  induction fuel generalizing s with
  | zero => cases h
  | succ fuel ih =>
    unfold quoteLoop at h
    by_cases h₀ : s.amountRemaining = 0
    · rw [if_pos h₀] at h
      unfold walkEnd
      rw [turns_of_amountRemaining_eq_zero h₀]
      exact (Option.some.inj h).symm
    rw [if_neg h₀] at h
    by_cases h₁ : (bandAt pool direction s).target = s.sqrtPrice
    · rw [quoteTurn_stuck h₁] at h
      unfold walkEnd
      rw [turns_stuck h₁]
      exact (Option.some.inj h).symm
    have hturns := turns_succ fuel h₀ h₁
    generalize quoteTurn pool direction s = next at *
    obtain ⟨s₁, goesOn⟩ := next
    cases goesOn with
    | false =>
      unfold walkEnd
      rw [hturns]
      exact (Option.some.inj h).symm
    | true =>
      rw [walkEnd_cons hturns]
      exact ih h

/-! ## The loop climbs the ladder -/

theorem bandsFrom_succ {b : Band} (fuel : ℕ) (hb : bandAt pool direction s = b) :
    bandsFrom pool direction (fuel + 1) s.sqrtPrice s.currentTick s.liquidity =
      if b.target = s.sqrtPrice then []
      else b :: match b.next with
        | some t =>
          if liquidityBeyond pool direction s.liquidity t = 0 then []
          else bandsFrom pool direction fuel b.target t
            (liquidityBeyond pool direction s.liquidity t)
        | none => [] := by
  rw [← hb]
  rfl

/-- **The loop climbs the ladder.** The steps of the loop are the rungs of the bands ahead that the
    input pays for. -/
theorem map_view_turns {fuel : ℕ} (hlt : s.amountRemaining < 2 ^ 256) :
    (turns pool direction fuel s).map (fun t => view pool direction t.1) =
      taken (bandCost pool) (bandsFrom pool direction fuel s.sqrtPrice s.currentTick s.liquidity)
        s.amountRemaining := by
  induction fuel generalizing s with
  | zero => rfl
  | succ fuel ih =>
    by_cases h₀ : s.amountRemaining = 0
    · rw [turns_of_amountRemaining_eq_zero h₀, h₀, taken_zero]
      rfl
    generalize hb : bandAt pool direction s = b
    have hbands := bandsFrom_succ fuel hb
    by_cases h₁ : b.target = s.sqrtPrice
    · rw [turns_stuck (by rw [hb]; exact h₁), hbands, if_pos h₁]
      rfl
    rw [hbands, if_neg h₁]
    have hview : view pool direction s = (b,
        if s.amountRemaining < bandCost pool b then some s.amountRemaining else none) := by
      unfold view
      rw [hb]
    rcases turns_cases fuel hb h₀ h₁ hlt with ⟨hpart, -, hturns⟩ |
      ⟨hwhole, hnext, hturns⟩ | ⟨hwhole, t, hnext, hL, hturns⟩ | ⟨hwhole, t, hnext, hL, hturns⟩
    · rw [hturns, taken_part h₀ hpart, List.map_singleton, hview, if_pos hpart]
    · rw [hturns, taken_whole h₀ hwhole, List.map_singleton, hview, if_neg (by omega), hnext]
      rfl
    · rw [hturns, taken_whole h₀ hwhole, List.map_singleton, hview, if_neg (by omega), hnext]
      dsimp only
      rw [if_pos hL]
      rfl
    · have hrem : (passed pool direction b s t).amountRemaining =
          s.amountRemaining - bandCost pool b := spend_amountRemaining_whole hwhole
      rw [hturns, taken_whole h₀ hwhole, List.map_cons, hview, if_neg (by omega), hnext]
      dsimp only
      rw [if_neg hL, ih (by omega), hrem]
      rfl

theorem mod_add_mod_sum (a b : ℕ) (l : List ℕ) (m : ℕ) :
    ((a + b) % m + l.sum) % m = (a + (b :: l).sum) % m := by
  rw [Nat.mod_add_mod, List.sum_cons, Nat.add_assoc]

/-- What the loop pays out is the sum of what its steps pay out. -/
theorem walkEnd_totalAmountOut {fuel : ℕ} (hlt : s.amountRemaining < 2 ^ 256)
    (hout : s.totalAmountOut < 2 ^ 256) :
    (walkEnd pool direction fuel s).totalAmountOut = (s.totalAmountOut +
      ((turns pool direction fuel s).map fun t =>
        (stepAt pool direction t.1).amountOut).sum) % 2 ^ 256 := by
  induction fuel generalizing s with
  | zero => exact (Nat.mod_eq_of_lt hout).symm
  | succ fuel ih =>
    by_cases h₀ : s.amountRemaining = 0
    · unfold walkEnd
      rw [turns_of_amountRemaining_eq_zero h₀]
      exact (Nat.mod_eq_of_lt hout).symm
    generalize hb : bandAt pool direction s = b
    by_cases h₁ : b.target = s.sqrtPrice
    · unfold walkEnd
      rw [turns_stuck (by rw [hb]; exact h₁)]
      exact (Nat.mod_eq_of_lt hout).symm
    have hstep : stepAt pool direction s = bandStep pool b s.amountRemaining := by
      unfold stepAt
      rw [hb]
    have hone {s₁ : QuoteState} (hturns : turns pool direction (fuel + 1) s = [(s, s₁)])
        (htotal : s₁.totalAmountOut = (spend pool b s).totalAmountOut) :
        (walkEnd pool direction (fuel + 1) s).totalAmountOut = (s.totalAmountOut +
          ((turns pool direction (fuel + 1) s).map fun t =>
            (stepAt pool direction t.1).amountOut).sum) % 2 ^ 256 := by
      unfold walkEnd
      rw [hturns, List.map_singleton, List.sum_singleton, hstep]
      exact htotal
    rcases turns_cases fuel hb h₀ h₁ hlt with ⟨-, -, hturns⟩ |
      ⟨-, -, hturns⟩ | ⟨-, t, -, -, hturns⟩ | ⟨hwhole, t, -, -, hturns⟩
    · exact hone hturns (advance_fields pool direction b _ _).2
    · exact hone hturns rfl
    · exact hone hturns rfl
    · have hrem : (passed pool direction b s t).amountRemaining =
          s.amountRemaining - bandCost pool b := spend_amountRemaining_whole hwhole
      rw [walkEnd_cons hturns, ih (by omega) (Nat.mod_lt _ (Nat.two_pow_pos 256)), hturns,
        List.map_cons, ← mod_add_mod_sum, hstep]
      rfl

/-! ## The quote -/

variable {amountIn : ℕ}

/-- The variables at the start of the loop. -/
def quoteStart (pool : UniswapV3PoolState) (amountIn : ℕ) : QuoteState where
  sqrtPrice := pool.sqrtPriceX96
  currentTick := pool.tick
  liquidity := pool.liquidity
  amountRemaining := amountIn
  totalAmountOut := 0

/-- The variables at the end of the loop of a quote. -/
def quoteEnd (pool : UniswapV3PoolState) (direction : V3Direction) (amountIn : ℕ) : QuoteState :=
  walkEnd pool direction (pool.ticks.size + 2) (quoteStart pool amountIn)

/-- The rungs that the input of a quote pays for. -/
def rungs (pool : UniswapV3PoolState) (direction : V3Direction) (amountIn : ℕ) :
    List (Band × Option ℕ) :=
  taken (bandCost pool) (bands pool direction) amountIn

/-- What these rungs pay out, in `U256`. -/
def paidOut (pool : UniswapV3PoolState) (direction : V3Direction) (amountIn : ℕ) : ℕ :=
  ((rungs pool direction amountIn).map fun r => (rungStep pool r).amountOut).sum % 2 ^ 256

/-- The steps of the loop of a quote, each with the variables before and after it. -/
def quoteTurns (pool : UniswapV3PoolState) (direction : V3Direction) (amountIn : ℕ) :
    List (QuoteState × QuoteState) :=
  turns pool direction (pool.ticks.size + 2) (quoteStart pool amountIn)

theorem map_view_quoteTurns (pool : UniswapV3PoolState) (direction : V3Direction)
    (hlt : amountIn < 2 ^ 128) :
    (quoteTurns pool direction amountIn).map (fun t => view pool direction t.1) =
      rungs pool direction amountIn :=
  map_view_turns (s := quoteStart pool amountIn) (hlt.trans (by norm_num))

/-- The steps of a quote are the steps on the rungs that its input pays for. -/
theorem map_stepAt_quoteTurns (pool : UniswapV3PoolState) (direction : V3Direction)
    (hlt : amountIn < 2 ^ 128) :
    (quoteTurns pool direction amountIn).map (fun t => stepAt pool direction t.1) =
      (rungs pool direction amountIn).map (rungStep pool) := by
  rw [← map_view_quoteTurns _ _ hlt, List.map_map]
  exact List.map_congr_left fun t _ => (rungStep_view t.1).symm

theorem quoteLoop_eq_quoteEnd (pool : UniswapV3PoolState) (direction : V3Direction)
    (hlt : amountIn < 2 ^ 128) :
    quoteLoop pool direction (pool.ticks.size + 2) (quoteStart pool amountIn) =
      some (quoteEnd pool direction amountIn) := by
  obtain ⟨s, hs⟩ := Option.isSome_iff_exists.mp
    (@quoteLoop_size_isSome pool direction (quoteStart pool amountIn) hlt)
  rw [hs, quoteLoop_eq_walkEnd hs]
  rfl

theorem quoteEnd_totalAmountOut (pool : UniswapV3PoolState) (direction : V3Direction)
    (hlt : amountIn < 2 ^ 128) :
    (quoteEnd pool direction amountIn).totalAmountOut = paidOut pool direction amountIn := by
  have hsteps := map_stepAt_quoteTurns pool direction hlt
  have hout := congrArg (List.map SwapStep.amountOut) hsteps
  rw [List.map_map, List.map_map] at hout
  unfold quoteEnd paidOut
  rw [walkEnd_totalAmountOut (s := quoteStart pool amountIn) (hlt.trans (by norm_num))
    (Nat.two_pow_pos 256)]
  show (0 + ((quoteTurns pool direction amountIn).map
    (SwapStep.amountOut ∘ fun t => stepAt pool direction t.1)).sum) % 2 ^ 256 = _
  rw [hout, Nat.zero_add]
  rfl

/-- A quote is what the loop ends with, where it has paid out something that fits 64 bits. -/
theorem quoteV3ExactInPost_eq (hlt : amountIn < 2 ^ 128) :
    quoteV3ExactInPost pool amountIn direction =
      if amountIn = 0 ∨ pool.liquidity = 0 ∨ pool.sqrtPriceX96 = 0 then none
      else if paidOut pool direction amountIn = 0 ∨ 2 ^ 64 ≤ paidOut pool direction amountIn then
        none
      else some
        { amountOut := paidOut pool direction amountIn
          sqrtPriceX96 := (quoteEnd pool direction amountIn).sqrtPrice
          tick := (quoteEnd pool direction amountIn).currentTick
          liquidity := (quoteEnd pool direction amountIn).liquidity } := by
  have hloop := quoteLoop_eq_quoteEnd pool direction hlt
  have htotal := quoteEnd_totalAmountOut pool direction hlt
  unfold quoteStart at hloop
  unfold quoteV3ExactInPost
  rw [hloop, Option.bind_eq_bind, Option.bind_some, htotal]
  by_cases h₀ : amountIn = 0 ∨ pool.liquidity = 0 ∨ pool.sqrtPriceX96 = 0
  · rw [if_pos h₀, if_pos h₀]
  rw [if_neg h₀, if_neg h₀]
  by_cases hzero : paidOut pool direction amountIn = 0
  · rw [if_pos hzero, if_pos (.inl hzero)]
  rw [if_neg hzero]
  by_cases hfit : paidOut pool direction amountIn < 2 ^ 64
  · rw [if_pos hfit, if_neg (by omega)]
  · rw [if_neg hfit, if_pos (by omega)]

/-- **Main theorem.** A quote returns the accumulated output, where that is not zero and fits
    `u128`, exactly when it does not need a second limb. -/
theorem quoteV3ExactInPost_total_iff (hx : 0 < amountIn) (hlt : amountIn < 2 ^ 128)
    (hL : pool.liquidity ≠ 0) (hp : pool.sqrtPriceX96 ≠ 0) :
    (∀ s, quoteLoop pool direction (pool.ticks.size + 2) (quoteStart pool amountIn) = some s →
        s.totalAmountOut ≠ 0 → s.totalAmountOut < 2 ^ 128 →
        ∃ post, quoteV3ExactInPost pool amountIn direction = some post ∧
          post.amountOut = s.totalAmountOut) ↔
      ¬(2 ^ 64 ≤ paidOut pool direction amountIn ∧ paidOut pool direction amountIn < 2 ^ 128) := by
  rw [quoteLoop_eq_quoteEnd pool direction hlt, quoteV3ExactInPost_eq hlt, if_neg (by omega)]
  have htotal := quoteEnd_totalAmountOut pool direction hlt
  constructor
  · rintro h ⟨hlo, hhi⟩
    obtain ⟨post, hpost, -⟩ := h _ rfl (by omega) (by omega)
    rw [if_pos (.inr hlo)] at hpost
    cases hpost
  · rintro h s hs hne hfit
    obtain rfl := Option.some.inj hs
    rw [if_neg (by omega)]
    exact ⟨_, rfl, htotal.symm⟩

/-- A pool of 18-decimal tokens at the price 1, without initialized ticks. -/
def deepPool : UniswapV3PoolState where
  info := { token0 := 1, token1 := 2, fee := 3000, dexType := .uniswapV3 }
  sqrtPriceX96 := q96
  liquidity := 10 ^ 24

/-- The quote of a small swap of `deepPool`. -/
theorem shallow_quote_total :
    (∀ s, quoteLoop deepPool .zeroForOne (deepPool.ticks.size + 2) (quoteStart deepPool 1000) =
          some s →
        s.totalAmountOut ≠ 0 → s.totalAmountOut < 2 ^ 128 →
        ∃ post, quoteV3ExactInPost deepPool 1000 .zeroForOne = some post ∧
          post.amountOut = s.totalAmountOut) ↔
      ¬(2 ^ 64 ≤ paidOut deepPool .zeroForOne 1000 ∧ paidOut deepPool .zeroForOne 1000 < 2 ^ 128) :=
  quoteV3ExactInPost_total_iff (by decide) (by decide) (by decide) (by decide)

/-- A swap of 100 tokens of `deepPool` pays out about 99.69 tokens, which take 67 bits. -/
theorem deep_quote_refused :
    (quoteLoop deepPool .zeroForOne (deepPool.ticks.size + 2) (quoteStart deepPool (10 ^ 20))).map
        QuoteState.totalAmountOut = some 99690060900928177460 ∧
      99690060900928177460 < 2 ^ 128 ∧
      quoteV3ExactInPost deepPool (10 ^ 20) .zeroForOne = none := by
  refine ⟨?_, ?_, ?_⟩ <;> decide +kernel

end MevScout.Pool.Math
