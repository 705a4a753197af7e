import MevScout.Pool.Math.Breakpoints
import MevScout.Pool.Math.NextTick

/-!
# The active liquidity along a walk

The bands of a walk lie between neighbouring initialized ticks, and the liquidity of a band should
be the sum of the net liquidity of the ticks at or below it. The loop keeps this as long as it
starts from it: upwards, the ticks at or below the current tick count; downwards, those below
it, since the search for the next tick leaves the current one out.

Three things go wrong. A pool on an initialized tick takes that tick's liquidity along when it
goes down; and the loop leaves, with input left, before a tick whose price it is at, and beyond
a tick without liquidity.

Results:
* `OnLadder.clear`: the liquidity of a band is active at every price of it;
* `onLadder_of_mem_turns`: every turn starts on the ladder;
* `count_crossings`: the ticks that a walk passes are crossed once;
* `walkEnd_rest`: what is left of the input at the end, and the tick;
* `walksRight_iff`: when a walk prices its segments and crosses the ticks as it should.
-/

namespace MevScout.Pool.Math

open Ladder

variable {pool : UniswapV3PoolState} {direction : V3Direction} {s s' : QuoteState} {b : Band}
  {price L q x amountIn : ℕ} {tick t τ : ℤ}

/-! ## Coherent pools -/

/-- A well-formed pool whose price is in the range of its tick, and whose ticks, net liquidities
    and sums are those of positions between `MIN_TICK` and `MAX_TICK`. -/
structure Coherent (pool : UniswapV3PoolState) : Prop extends WellFormed pool where
  tick_lo : minTick ≤ pool.tick
  tick_hi : pool.tick < maxTick
  price_lo : getSqrtRatioAtTick pool.tick ≤ pool.sqrtPriceX96
  price_hi : pool.sqrtPriceX96 ≤ getSqrtRatioAtTick (pool.tick + 1)
  mem_Icc : ∀ t, Initialized pool.ticks t → t ∈ Set.Icc minTick maxTick
  net : ∀ t, -2 ^ 127 ≤ netAt pool.ticks t ∧ netAt pool.ticks t < 2 ^ 127
  sum : ∀ t, 0 ≤ netAtOrBelow pool.ticks t ∧ netAtOrBelow pool.ticks t < 2 ^ 128
  fee_lt : pool.info.fee < 2 ^ 32

theorem ratio_le_iff (ht : t ∈ Set.Icc minTick maxTick) (hτ : τ ∈ Set.Icc minTick maxTick) :
    getSqrtRatioAtTick t ≤ getSqrtRatioAtTick τ ↔ t ≤ τ :=
  getSqrtRatioAtTick_strictMonoOn.le_iff_le ht hτ

theorem Coherent.tick_mem (hs : Coherent pool) : pool.tick ∈ Set.Icc minTick maxTick :=
  ⟨hs.tick_lo, hs.tick_hi.le⟩

theorem Coherent.tick_succ_mem (hs : Coherent pool) :
    pool.tick + 1 ∈ Set.Icc minTick maxTick := by
  have hlo := hs.tick_lo
  have hhi := hs.tick_hi
  exact ⟨by omega, by omega⟩

theorem Coherent.price_lt (hs : Coherent pool) : pool.sqrtPriceX96 < 2 ^ 160 :=
  lt_of_le_of_lt hs.price_hi (getSqrtRatioAtTick_lt _)

theorem Coherent.sized (hs : Coherent pool) : Sized pool := by
  have hactive := hs.active
  have hsum := hs.sum pool.tick
  have hprice := hs.price_lt
  exact ⟨by omega, by omega, hs.fee_lt⟩

/-- The price of an initialized tick is at `q` or below it exactly where the tick is, for `q` in
    the range of the tick of the pool. -/
theorem Coherent.ratio_le_iff_le_tick (hs : Coherent pool) (hτ : Initialized pool.ticks τ)
    (hlo : getSqrtRatioAtTick pool.tick ≤ q) (hhi : q < getSqrtRatioAtTick (pool.tick + 1)) :
    getSqrtRatioAtTick τ ≤ q ↔ τ ≤ pool.tick := by
  have hmem := hs.mem_Icc τ hτ
  constructor
  · intro hle
    by_contra hgt
    have := (ratio_le_iff hs.tick_succ_mem hmem).mpr (by omega)
    omega
  · intro hle
    exact ((ratio_le_iff hmem hs.tick_mem).mpr hle).trans hlo

/-! ## On the ladder -/

/-- The ticks that make up the liquidity ahead of a tick. -/
def Counted (direction : V3Direction) (tick t : ℤ) : Prop :=
  match direction with
  | .zeroForOne => t < tick
  | .oneForZero => t ≤ tick

instance (direction : V3Direction) (tick : ℤ) : DecidablePred (Counted direction tick) :=
  fun t => match direction with
    | .zeroForOne => inferInstanceAs (Decidable (t < tick))
    | .oneForZero => inferInstanceAs (Decidable (t ≤ tick))

/-- The liquidity `L` is that of the counted ticks, which are those at the price or below it. -/
structure OnLadder (pool : UniswapV3PoolState) (direction : V3Direction) (price : ℕ) (tick : ℤ)
    (L : ℕ) : Prop where
  active : (L : ℤ) = netWhere pool.ticks (Counted direction tick)
  counted : ∀ τ, Initialized pool.ticks τ → Counted direction tick τ →
    getSqrtRatioAtTick τ ≤ min price maxSqrtRatio
  uncounted : ∀ τ, Initialized pool.ticks τ → ¬Counted direction tick τ →
    max price minSqrtRatio ≤ getSqrtRatioAtTick τ
  price_lt : price < 2 ^ 160

/-- A coherent pool is on the ladder, unless it goes down from an initialized tick. -/
theorem Coherent.onLadder (hs : Coherent pool)
    (h : direction = .zeroForOne → ¬Initialized pool.ticks pool.tick) :
    OnLadder pool direction pool.sqrtPriceX96 pool.tick pool.liquidity := by
  have hlo := hs.price_lo
  have hhi := hs.price_hi
  have htick := hs.tick_hi
  have htick' := hs.tick_lo
  have hmax : maxTick - 1 ∈ Set.Icc minTick maxTick := by decide
  have hmin : minTick + 1 ∈ Set.Icc minTick maxTick := by decide
  have hcounted : ∀ τ, Initialized pool.ticks τ →
      (Counted direction pool.tick τ ↔ τ ≤ pool.tick) := by
    intro τ hτ
    cases direction with
    | zeroForOne =>
      show τ < pool.tick ↔ _
      have : τ ≠ pool.tick := fun heq => h rfl (heq ▸ hτ)
      omega
    | oneForZero => exact Iff.rfl
  refine ⟨?_, ?_, ?_, hs.price_lt⟩
  · rw [hs.active, netAtOrBelow_eq_netWhere]
    exact netWhere_congr fun τ hτ => (hcounted τ hτ).symm
  · intro τ hτ hle
    rw [hcounted τ hτ] at hle
    refine le_min ?_ ?_
    · exact ((ratio_le_iff (hs.mem_Icc τ hτ) hs.tick_mem).mpr hle).trans hlo
    · exact (ratio_le_iff (hs.mem_Icc τ hτ) hmax).mpr (by omega)
  · intro τ hτ hgt
    rw [hcounted τ hτ] at hgt
    refine max_le ?_ ?_
    · exact hhi.trans ((ratio_le_iff hs.tick_succ_mem (hs.mem_Icc τ hτ)).mpr (by omega))
    · exact (ratio_le_iff hmin (hs.mem_Icc τ hτ)).mpr (by omega)

/-! ## One band -/

theorem target_down (hnext : findNextInitializedTick pool.ticks tick .zeroForOne = some t)
    (hmoves : (bandAhead pool .zeroForOne price tick L).target ≠ price) :
    (bandAhead pool .zeroForOne price tick L).target = max (getSqrtRatioAtTick t) minSqrtRatio ∧
      (bandAhead pool .zeroForOne price tick L).target < price := by
  unfold bandAhead getSwapTargetForTick at *
  rw [hnext] at hmoves ⊢
  dsimp only at hmoves ⊢
  omega

theorem target_up (hnext : findNextInitializedTick pool.ticks tick .oneForZero = some t)
    (hmoves : (bandAhead pool .oneForZero price tick L).target ≠ price) :
    (bandAhead pool .oneForZero price tick L).target = min (getSqrtRatioAtTick t) maxSqrtRatio ∧
      price < (bandAhead pool .oneForZero price tick L).target := by
  unfold bandAhead getSwapTargetForTick at *
  rw [hnext] at hmoves ⊢
  dsimp only at hmoves ⊢
  omega

theorem target_none (price L : ℕ)
    (hnext : findNextInitializedTick pool.ticks tick direction = none) :
    (bandAhead pool direction price tick L).target =
      match direction with
      | .zeroForOne => minSqrtRatio
      | .oneForZero => maxSqrtRatio := by
  unfold bandAhead getSwapTargetForTick
  rw [hnext]
  cases direction <;> rfl

/-- The nearest initialized tick, and what is known of it. -/
theorem nearest_spec (hnext : findNextInitializedTick pool.ticks tick direction = some t) :
    Initialized pool.ticks t ∧ Ahead direction tick t ∧
      ∀ τ, Initialized pool.ticks τ → Ahead direction tick τ → AsNear direction t τ := by
  obtain ⟨hinit, hahead⟩ := findNextInitializedTick_spec hnext
  refine ⟨hinit, hahead, fun τ hτ hτahead => ?_⟩
  obtain ⟨t', ht', hnear⟩ := findNextInitializedTick_nearest hτ hτahead
  rw [hnext] at ht'
  obtain rfl := Option.some.inj ht'
  exact hnear

/-- On the ladder, the counted ticks are those whose price is at any price of the band or
    below it. -/
theorem OnLadder.counted_iff (hs : Coherent pool) (h : OnLadder pool direction price tick L)
    (hb : bandAhead pool direction price tick L = b) (hmoves : b.target ≠ price)
    (hlo : min price b.target ≤ q) (hhi : q < max price b.target)
    (hτ : Initialized pool.ticks τ) :
    Counted direction tick τ ↔ getSqrtRatioAtTick τ ≤ q := by
  subst hb
  have hmem := hs.mem_Icc τ hτ
  have hcounted := h.counted τ hτ
  have huncounted := h.uncounted τ hτ
  cases hnext : findNextInitializedTick pool.ticks tick direction with
  | none =>
    have hahead := not_ahead_of_none hnext hτ
    have htarget := target_none price L hnext
    cases direction with
    | zeroForOne =>
      dsimp only [Ahead, Counted] at *
      rw [htarget] at hlo hhi
      exact ⟨fun hlt => absurd hlt hahead, fun hle => by have := huncounted hahead; omega⟩
    | oneForZero =>
      dsimp only [Ahead, Counted] at *
      rw [htarget] at hlo hhi
      exact ⟨fun hle => (hcounted hle).trans hlo, fun _ => not_lt.mp hahead⟩
  | some t =>
    obtain ⟨hinit, -, hnear⟩ := nearest_spec hnext
    have hnear := hnear τ hτ
    have hle := ratio_le_iff (hs.mem_Icc t hinit) hmem
    have hle' := ratio_le_iff hmem (hs.mem_Icc t hinit)
    cases direction with
    | zeroForOne =>
      obtain ⟨htarget, hfall⟩ := target_down hnext hmoves
      dsimp only [Ahead, AsNear, Counted] at *
      constructor
      · intro hlt
        have := hle'.mpr (hnear hlt)
        omega
      · intro hq
        by_contra hge
        have := huncounted hge
        omega
    | oneForZero =>
      obtain ⟨htarget, hrise⟩ := target_up hnext hmoves
      dsimp only [Ahead, AsNear, Counted] at *
      constructor
      · intro hτle
        have := hcounted hτle
        omega
      · intro hq
        by_contra hgt
        have := hle.mpr (hnear (not_le.mp hgt))
        omega

/-- **The liquidity of a band is active** at every price of it. -/
theorem OnLadder.clear (hs : Coherent pool) (h : OnLadder pool direction price tick L)
    (hb : bandAhead pool direction price tick L = b) (hmoves : b.target ≠ price)
    (hlo : min price b.target ≤ q) (hhi : q < max price b.target) :
    (L : ℤ) = netWhere pool.ticks (getSqrtRatioAtTick · ≤ q) := by
  rw [h.active]
  exact netWhere_congr fun τ hτ => h.counted_iff hs hb hmoves hlo hhi hτ

/-- The last tick that there is in the direction of a swap. -/
def extremeTick (direction : V3Direction) : ℤ :=
  match direction with
  | .zeroForOne => minTick
  | .oneForZero => maxTick

/-- Beyond the next tick, the sum of the counted ticks is what `cross_tick` makes of it. -/
theorem OnLadder.active_beyond (hs : Coherent pool) (h : OnLadder pool direction price tick L)
    (hnext : findNextInitializedTick pool.ticks tick direction = some t) :
    (liquidityBeyond pool direction L t : ℤ) = netWhere pool.ticks (Counted direction t) := by
  obtain ⟨hinit, hahead, hnear⟩ := nearest_spec hnext
  obtain ⟨hnlo, hnhi⟩ := hs.net t
  have hactive := h.active
  cases direction with
  | zeroForOne =>
    have hadd : netWhere pool.ticks (Counted .zeroForOne tick) =
        netWhere pool.ticks (Counted .zeroForOne t) + netAt pool.ticks t := by
      refine netWhere_add (fun τ hτ => ?_) (lt_irrefl t)
      have hτnear := hnear τ hτ
      dsimp only [Ahead, AsNear, Counted] at hahead hτnear ⊢
      constructor
      · intro hlt
        have := hτnear hlt
        omega
      · omega
    have hsum := hs.sum (t - 1)
    have hbelow : netAtOrBelow pool.ticks (t - 1) =
        netWhere pool.ticks (Counted .zeroForOne t) := by
      rw [netAtOrBelow_eq_netWhere]
      exact netWhere_congr fun τ _ => by dsimp only [Counted]; omega
    rw [liquidityBeyond_down hinit hnlo hnhi]
    split_ifs <;> omega
  | oneForZero =>
    have hadd : netWhere pool.ticks (Counted .oneForZero t) =
        netWhere pool.ticks (Counted .oneForZero tick) + netAt pool.ticks t := by
      refine netWhere_add (fun τ hτ => ?_) (not_le.mpr hahead)
      have hτnear := hnear τ hτ
      dsimp only [Ahead, AsNear, Counted] at hahead hτnear ⊢
      constructor
      · intro hle
        rcases lt_or_ge tick τ with hgt | hτle
        · have := hτnear hgt
          omega
        · exact .inl hτle
      · omega
    have hsum := hs.sum t
    have hbelow : netAtOrBelow pool.ticks t = netWhere pool.ticks (Counted .oneForZero t) := rfl
    rw [liquidityBeyond_up hinit hnlo hnhi]
    split_ifs <;> omega

/-- Crossing the next tick stays on the ladder. -/
theorem OnLadder.pass (hs : Coherent pool) (h : OnLadder pool direction price tick L)
    (hb : bandAhead pool direction price tick L = b) (hmoves : b.target ≠ price)
    (hnext : b.next = some t) (ht : t ≠ extremeTick direction) :
    OnLadder pool direction b.target t (liquidityBeyond pool direction L t) := by
  subst hb
  have hfind : findNextInitializedTick pool.ticks tick direction = some t := hnext
  obtain ⟨hinit, hahead, hnear⟩ := nearest_spec hfind
  have hmem := hs.mem_Icc t hinit
  refine ⟨h.active_beyond hs hfind, ?_, ?_, (bandAhead_target hmoves).2⟩
  · intro τ hτ hτc
    have hle' := ratio_le_iff (hs.mem_Icc τ hτ) hmem
    have hc := h.counted τ hτ
    cases direction with
    | zeroForOne =>
      obtain ⟨htarget, hfall⟩ := target_down hfind hmoves
      dsimp only [Ahead, Counted] at *
      have := hle'.mpr hτc.le
      have := hc (by omega)
      omega
    | oneForZero =>
      obtain ⟨htarget, hrise⟩ := target_up hfind hmoves
      have hmax : maxTick - 1 ∈ Set.Icc minTick maxTick := by decide
      have hlt := (ratio_le_iff hmem hmax).mpr (by have := hmem.2; change t ≠ maxTick at ht; omega)
      have := hle'.mpr hτc
      unfold maxSqrtRatio at *
      omega
  · intro τ hτ hτc
    have hle := ratio_le_iff hmem (hs.mem_Icc τ hτ)
    have huc := h.uncounted τ hτ
    cases direction with
    | zeroForOne =>
      obtain ⟨htarget, hfall⟩ := target_down hfind hmoves
      have hmin : minTick + 1 ∈ Set.Icc minTick maxTick := by decide
      have hlt := (ratio_le_iff hmin hmem).mpr (by have := hmem.1; change t ≠ minTick at ht; omega)
      dsimp only [Ahead, Counted] at *
      have := hle.mpr (not_lt.mp hτc)
      unfold minSqrtRatio at *
      omega
    | oneForZero =>
      obtain ⟨htarget, hrise⟩ := target_up hfind hmoves
      dsimp only [Ahead, Counted] at *
      have := hle.mpr (not_le.mp hτc).le
      have := huc (by omega)
      omega

/-- Beyond the last tick of a direction there is no band. -/
theorem stuck_beyond_extreme (hs : Coherent pool)
    (hb : bandAhead pool direction price tick L = b) (hmoves : b.target ≠ price)
    (hnext : b.next = some (extremeTick direction)) (L' : ℕ) :
    (bandAhead pool direction b.target (extremeTick direction) L').target = b.target := by
  subst hb
  have hnone : findNextInitializedTick pool.ticks (extremeTick direction) direction = none := by
    cases hfind : findNextInitializedTick pool.ticks (extremeTick direction) direction with
    | none => rfl
    | some t =>
      obtain ⟨hinit, hahead⟩ := findNextInitializedTick_spec hfind
      have hmem := hs.mem_Icc t hinit
      cases direction with
      | zeroForOne => exact absurd hmem.1 (not_le.mpr hahead)
      | oneForZero => exact absurd hmem.2 (not_le.mpr hahead)
  have htarget := target_none (bandAhead pool direction price tick L).target L' hnone
  rw [htarget]
  cases direction with
  | zeroForOne =>
    have hlt : getSqrtRatioAtTick minTick < minSqrtRatio :=
      getSqrtRatioAtTick_strictMonoOn (by decide) (by decide) (by decide)
    exact ((target_down hnext hmoves).1.trans (max_eq_right hlt.le)).symm
  | oneForZero =>
    have hlt : maxSqrtRatio < getSqrtRatioAtTick maxTick :=
      getSqrtRatioAtTick_strictMonoOn (by decide) (by decide) (by decide)
    exact ((target_up hnext hmoves).1.trans (min_eq_right hlt.le)).symm

/-- A step ends between the start and the target of its band. -/
theorem bandStep_mem (hs : Sized pool) (hb : Stretch pool direction b) (hstart : b.start < 2 ^ 160)
    (hx : x < 2 ^ 128) : (bandStep pool b x).sqrtPrice ∈ Set.uIcc b.start b.target := by
  rcases Nat.lt_or_ge x (bandCost pool b) with hpart | hwhole
  · have hprice : (bandStep pool b x).sqrtPrice = partPrice pool b x :=
      congrArg SwapStep.sqrtPrice (rungStep_part hpart)
    rw [hprice, Set.mem_uIcc]
    rcases lt_or_gt_of_ne hb.moves with hfall | hrise
    · exact .inr (partPrice_down hs hb hfall hstart hpart hx)
    · obtain ⟨hlo, hhi⟩ := partPrice_up hs hb hrise hpart hx
      exact .inl ⟨hlo, hhi.le⟩
  · rw [(bandStep_whole_fields hwhole).1]
    exact Set.right_mem_uIcc

theorem netWhere_counted (ticks : TickMap) (direction : V3Direction) (tick : ℤ) :
    netWhere ticks (Counted direction tick) = netAtOrBelow ticks
      (match direction with
        | .zeroForOne => tick - 1
        | .oneForZero => tick) := by
  rw [netAtOrBelow_eq_netWhere]
  refine netWhere_congr fun τ _ => ?_
  cases direction <;> dsimp only [Counted] <;> omega

/-- A step from the ladder ends between the start and the target of its band. -/
theorem OnLadder.step_mem (hs : Coherent pool) (h : OnLadder pool direction price tick L)
    (hb : bandAhead pool direction price tick L = b) (hmoves : b.target ≠ price)
    (hx : x < 2 ^ 128) : (bandStep pool b x).sqrtPrice ∈ Set.uIcc price b.target := by
  have hL : L < 2 ^ 128 := by
    have hactive := h.active
    rw [netWhere_counted] at hactive
    cases direction with
    | zeroForOne =>
      have hsum := hs.sum (tick - 1)
      dsimp only at hactive
      omega
    | oneForZero =>
      have hsum := hs.sum tick
      dsimp only at hactive
      omega
  subst hb
  exact bandStep_mem hs.sized ⟨rfl, hmoves, hL⟩ h.price_lt hx

/-! ## The turns -/

/-- What holds at the start of a walk, and of the variables after a tick as long as a further
    band is ahead, holds at the start of every turn. -/
theorem turns_induction {P : QuoteState → Prop} {fuel : ℕ}
    (hpass : ∀ s b t, P s → bandAt pool direction s = b → b.target ≠ s.sqrtPrice →
      b.next = some t → liquidityBeyond pool direction s.liquidity t ≠ 0 →
      (bandAt pool direction (passed pool direction b s t)).target ≠ b.target →
      P (passed pool direction b s t))
    (h : P s) (hlt : s.amountRemaining < 2 ^ 128) :
    ∀ turn ∈ turns pool direction fuel s, P turn.1 ∧ turn.1.amountRemaining < 2 ^ 128 ∧
      (bandAt pool direction turn.1).target ≠ turn.1.sqrtPrice := by
  induction fuel generalizing s with
  | zero => exact nofun
  | succ fuel ih =>
    by_cases h₀ : s.amountRemaining = 0
    · rw [turns_of_amountRemaining_eq_zero h₀]
      exact nofun
    generalize hb : bandAt pool direction s = b
    by_cases h₁ : b.target = s.sqrtPrice
    · rw [turns_stuck (by rw [hb]; exact h₁)]
      exact nofun
    have hhead {s' : QuoteState} : P (s, s').1 ∧ (s, s').1.amountRemaining < 2 ^ 128 ∧
        (bandAt pool direction (s, s').1).target ≠ (s, s').1.sqrtPrice :=
      ⟨h, hlt, by rw [hb]; exact h₁⟩
    have hsingle {s' : QuoteState} (hturns : turns pool direction (fuel + 1) s = [(s, s')]) :
        ∀ turn ∈ turns pool direction (fuel + 1) s, P turn.1 ∧ turn.1.amountRemaining < 2 ^ 128 ∧
          (bandAt pool direction turn.1).target ≠ turn.1.sqrtPrice := by
      rw [hturns]
      intro turn hturn
      rw [List.mem_singleton.mp hturn]
      exact hhead
    rcases turns_cases fuel hb h₀ h₁ (by omega) with ⟨-, -, hturns⟩ | ⟨-, -, hturns⟩ |
      ⟨-, t, -, -, hturns⟩ | ⟨hwhole, t, hnext, hL, hturns⟩
    · exact hsingle hturns
    · exact hsingle hturns
    · exact hsingle hturns
    · rw [hturns]
      intro turn hturn
      rcases List.mem_cons.mp hturn with rfl | hturn
      · exact hhead
      by_cases hstuck : (bandAt pool direction (passed pool direction b s t)).target = b.target
      · rw [turns_stuck hstuck] at hturn
        exact absurd hturn List.not_mem_nil
      · have hrem : (passed pool direction b s t).amountRemaining =
            s.amountRemaining - bandCost pool b := spend_amountRemaining_whole hwhole
        exact ih (hpass s b t h hb h₁ hnext hL hstuck) (by omega) turn hturn

/-- **Every turn starts on the ladder**, if the first one does. -/
theorem onLadder_of_mem_turns (hs : Coherent pool) {fuel : ℕ}
    (h : OnLadder pool direction s.sqrtPrice s.currentTick s.liquidity)
    (hlt : s.amountRemaining < 2 ^ 128) :
    ∀ turn ∈ turns pool direction fuel s,
      OnLadder pool direction turn.1.sqrtPrice turn.1.currentTick turn.1.liquidity ∧
        turn.1.amountRemaining < 2 ^ 128 ∧
        (bandAt pool direction turn.1).target ≠ turn.1.sqrtPrice := by
  refine turns_induction (P := fun s => OnLadder pool direction s.sqrtPrice s.currentTick
    s.liquidity) ?_ h hlt
  intro s b t h hb hmoves hnext hL hstuck
  refine OnLadder.pass hs h hb hmoves hnext ?_
  rintro rfl
  exact hstuck (stuck_beyond_extreme hs hb hmoves hnext _)

/-- The only turn of a walk, or the first one of several: it ends in its band, without crossing
    another tick than the next one; or it crosses that tick. -/
theorem turns_first (fuel : ℕ) (hb : bandAt pool direction s = b) (h₀ : s.amountRemaining ≠ 0)
    (h₁ : b.target ≠ s.sqrtPrice) (hlt : s.amountRemaining < 2 ^ 128) :
    (∃ s', turns pool direction (fuel + 1) s = [(s, s')] ∧
      (s'.sqrtPrice = s.sqrtPrice ∨ s'.sqrtPrice = (bandStep pool b s.amountRemaining).sqrtPrice) ∧
      (s'.currentTick = s.currentTick ∨ b.next = some s'.currentTick)) ∨
    (∃ t, b.next = some t ∧ (bandStep pool b s.amountRemaining).sqrtPrice = b.target ∧
      turns pool direction (fuel + 1) s =
        (s, passed pool direction b s t) ::
          turns pool direction fuel (passed pool direction b s t)) := by
  rcases turns_cases fuel hb h₀ h₁ (by omega) with ⟨-, -, hturns⟩ | ⟨-, -, hturns⟩ |
    ⟨-, t, hnext, -, hturns⟩ | ⟨hwhole, t, hnext, -, hturns⟩
  · refine .inl ⟨_, hturns, ?_⟩
    unfold advance
    split_ifs
    · split
      · rename_i t ht
        split_ifs
        · exact ⟨.inl rfl, .inr ht⟩
        · exact ⟨.inr rfl, .inr ht⟩
      · exact ⟨.inl rfl, .inl rfl⟩
    · exact ⟨.inr rfl, .inl rfl⟩
  · exact .inl ⟨_, hturns, .inl rfl, .inl rfl⟩
  · exact .inl ⟨_, hturns, .inl rfl, .inr hnext⟩
  · exact .inr ⟨t, hnext, (bandStep_whole_fields hwhole).1, hturns⟩

/-! ## The ticks that a walk crosses -/

/-- The ticks that the turns cross, one after the other. -/
def crossings (l : List (QuoteState × QuoteState)) : List ℤ :=
  l.filterMap fun turn =>
    if turn.2.currentTick = turn.1.currentTick then none else some turn.2.currentTick

theorem crossings_single (h : s'.currentTick = s.currentTick ∨ b.next = some s'.currentTick)
    (hτ : τ ∈ crossings [(s, s')]) : b.next = some τ := by
  unfold crossings at hτ
  rw [List.filterMap_cons, List.filterMap_nil] at hτ
  rcases h with heq | hnext
  · rw [if_pos heq] at hτ
    exact absurd hτ List.not_mem_nil
  · by_cases heq : s'.currentTick = s.currentTick
    · rw [if_pos heq] at hτ
      exact absurd hτ List.not_mem_nil
    · rw [if_neg heq] at hτ
      rw [hnext, List.mem_singleton.mp hτ]

theorem Ahead.ne (h : Ahead direction tick t) : t ≠ tick := by
  rintro rfl
  cases direction <;> exact absurd h (lt_irrefl t)

theorem Ahead.trans (h : Ahead direction tick t) (h' : Ahead direction t τ) :
    Ahead direction tick τ := by
  cases direction
  · exact lt_trans h' h
  · exact lt_trans h h'

theorem crossings_passed (hahead : Ahead direction s.currentTick t)
    (l : List (QuoteState × QuoteState)) :
    crossings ((s, passed pool direction b s t) :: l) = t :: crossings l :=
  List.filterMap_cons_some (if_neg hahead.ne)

/-- The walk crosses ticks ahead only. -/
theorem ahead_of_mem_crossings {fuel : ℕ} (hlt : s.amountRemaining < 2 ^ 128)
    (hτ : τ ∈ crossings (turns pool direction fuel s)) : Ahead direction s.currentTick τ := by
  induction fuel generalizing s with
  | zero => exact absurd hτ List.not_mem_nil
  | succ fuel ih =>
    by_cases h₀ : s.amountRemaining = 0
    · rw [turns_of_amountRemaining_eq_zero h₀] at hτ
      exact absurd hτ List.not_mem_nil
    generalize hb : bandAt pool direction s = b
    by_cases h₁ : b.target = s.sqrtPrice
    · rw [turns_stuck (by rw [hb]; exact h₁)] at hτ
      exact absurd hτ List.not_mem_nil
    have hahead {t : ℤ} (hnext : b.next = some t) : Ahead direction s.currentTick t := by
      subst hb
      exact (findNextInitializedTick_spec hnext).2
    rcases turns_first fuel hb h₀ h₁ hlt with ⟨s', hturns, -, htick⟩ |
      ⟨t, hnext, -, hturns⟩
    · rw [hturns] at hτ
      exact hahead (crossings_single htick hτ)
    · rw [hturns, crossings_passed (hahead hnext)] at hτ
      rcases List.mem_cons.mp hτ with rfl | hτ
      · exact hahead hnext
      · exact (hahead hnext).trans (ih (lt_of_le_of_lt (Nat.sub_le _ _) hlt) hτ)

/-- `q` is beyond `p` in the direction of a swap. -/
def Beyond (direction : V3Direction) (p q : ℕ) : Prop :=
  match direction with
  | .zeroForOne => q < p
  | .oneForZero => p < q

/-- No price of a band is beyond the price of a tick ahead. -/
theorem OnLadder.not_beyond (hs : Coherent pool) (h : OnLadder pool direction price tick L)
    (hb : bandAhead pool direction price tick L = b) (hτ : Initialized pool.ticks τ)
    (hahead : Ahead direction tick τ) (hq : q ∈ Set.uIcc price b.target) :
    ¬Beyond direction (getSqrtRatioAtTick τ) q := by
  subst hb
  obtain ⟨t, hnext, hnear⟩ := findNextInitializedTick_nearest hτ hahead
  have hmem := hs.mem_Icc t (findNextInitializedTick_spec hnext).1
  have hcounted := h.counted τ hτ
  have huncounted := h.uncounted τ hτ
  rw [Set.mem_uIcc] at hq
  by_cases hmoves : (bandAhead pool direction price tick L).target = price
  · rw [hmoves] at hq
    obtain rfl : q = price := by omega
    cases direction with
    | zeroForOne => exact not_lt.mpr ((hcounted hahead).trans (min_le_left _ _))
    | oneForZero => exact not_lt.mpr ((le_max_left _ _).trans (huncounted (not_le.mpr hahead)))
  cases direction with
  | zeroForOne =>
    obtain ⟨htarget, hfall⟩ := target_down hnext hmoves
    have := (ratio_le_iff (hs.mem_Icc τ hτ) hmem).mpr hnear
    dsimp only [Beyond]
    omega
  | oneForZero =>
    obtain ⟨htarget, hrise⟩ := target_up hnext hmoves
    have := (ratio_le_iff hmem (hs.mem_Icc τ hτ)).mpr hnear
    dsimp only [Beyond]
    omega

theorem walkEnd_single {fuel : ℕ} (h : turns pool direction fuel s = [(s, s')]) :
    walkEnd pool direction fuel s = s' := by
  unfold walkEnd
  rw [h]
  rfl

theorem walkEnd_nil {fuel : ℕ} (h : turns pool direction fuel s = []) :
    walkEnd pool direction fuel s = s := by
  unfold walkEnd
  rw [h]
  rfl

/-- **The ticks that a walk passes are crossed once.** -/
theorem count_crossings (hs : Coherent pool) {fuel : ℕ}
    (h : OnLadder pool direction s.sqrtPrice s.currentTick s.liquidity)
    (hlt : s.amountRemaining < 2 ^ 128) (hτ : Initialized pool.ticks τ)
    (hahead : Ahead direction s.currentTick τ)
    (hbeyond : Beyond direction (getSqrtRatioAtTick τ) (walkEnd pool direction fuel s).sqrtPrice) :
    (crossings (turns pool direction fuel s)).count τ = 1 := by
  induction fuel generalizing s with
  | zero =>
    exact absurd hbeyond (h.not_beyond hs rfl hτ hahead Set.left_mem_uIcc)
  | succ fuel ih =>
    have hnil (hturns : turns pool direction (fuel + 1) s = []) :
        (crossings (turns pool direction (fuel + 1) s)).count τ = 1 := by
      rw [walkEnd_nil hturns] at hbeyond
      exact absurd hbeyond (h.not_beyond hs rfl hτ hahead Set.left_mem_uIcc)
    by_cases h₀ : s.amountRemaining = 0
    · exact hnil (turns_of_amountRemaining_eq_zero h₀ _)
    generalize hb : bandAt pool direction s = b
    by_cases h₁ : b.target = s.sqrtPrice
    · exact hnil (turns_stuck (by rw [hb]; exact h₁) _)
    rcases turns_first fuel hb h₀ h₁ hlt with ⟨s', hturns, hprice, -⟩ |
      ⟨t, hnext, -, hturns⟩
    · rw [walkEnd_single hturns] at hbeyond
      refine absurd hbeyond (h.not_beyond hs hb hτ hahead ?_)
      rcases hprice with hprice | hprice
      · rw [hprice]
        exact Set.left_mem_uIcc
      · rw [hprice]
        exact h.step_mem hs hb h₁ hlt
    · have htahead : Ahead direction s.currentTick t := by
        subst hb
        exact (findNextInitializedTick_spec hnext).2
      have hrem : (passed pool direction b s t).amountRemaining < 2 ^ 128 :=
        lt_of_le_of_lt (Nat.sub_le _ _) hlt
      rw [hturns, crossings_passed htahead]
      rcases eq_or_ne t τ with rfl | hne
      · rw [List.count_cons_self, List.count_eq_zero.mpr]
        intro hmem
        exact (ahead_of_mem_crossings hrem hmem).ne rfl
      · rw [List.count_cons_of_ne hne]
        have hτahead : Ahead direction t τ := by
          subst hb
          have hnear := (@nearest_spec pool direction s.currentTick t hnext).2.2 τ hτ hahead
          cases direction
          · exact lt_of_le_of_ne hnear hne.symm
          · exact lt_of_le_of_ne hnear hne
        refine ih (OnLadder.pass hs h hb h₁ hnext ?_) hrem hτahead ?_
        · rintro rfl
          have hmem := hs.mem_Icc τ hτ
          cases direction
          · exact absurd hmem.1 (not_le.mpr hτahead)
          · exact absurd hmem.2 (not_le.mpr hτahead)
        · rw [← walkEnd_cons hturns]
          exact hbeyond

/-! ## The end of the walk -/

/-- The tick that the bands lead to. -/
def lastTick (l : List Band) (tick : ℤ) : ℤ :=
  (l.getLast?.map fun b => b.next.getD b.tick).getD tick

theorem lastTick_cons (b : Band) (l : List Band) (tick : ℤ) :
    lastTick (b :: l) tick = lastTick l (b.next.getD b.tick) := by
  unfold lastTick
  rw [List.getLast?_cons]
  cases l.getLast? <;> rfl

/-- What the walk leaves of its input, and the tick where it leaves some. -/
theorem walkEnd_rest {fuel : ℕ} (hlt : s.amountRemaining < 2 ^ 256) :
    (walkEnd pool direction fuel s).amountRemaining = s.amountRemaining -
        ((bandsFrom pool direction fuel s.sqrtPrice s.currentTick s.liquidity).map
          (bandCost pool)).sum ∧
      (0 < (walkEnd pool direction fuel s).amountRemaining →
        (walkEnd pool direction fuel s).currentTick = lastTick
          (bandsFrom pool direction fuel s.sqrtPrice s.currentTick s.liquidity) s.currentTick) := by
  induction fuel generalizing s with
  | zero => exact ⟨rfl, fun _ => rfl⟩
  | succ fuel ih =>
    by_cases h₀ : s.amountRemaining = 0
    · rw [walkEnd_nil (turns_of_amountRemaining_eq_zero h₀ _), h₀]
      exact ⟨(Nat.zero_sub _).symm, fun h => absurd h (lt_irrefl 0)⟩
    generalize hb : bandAt pool direction s = b
    have hbands := bandsFrom_succ fuel hb
    by_cases h₁ : b.target = s.sqrtPrice
    · rw [walkEnd_nil (turns_stuck (by rw [hb]; exact h₁) _), hbands, if_pos h₁]
      exact ⟨rfl, fun _ => rfl⟩
    rw [hbands, if_neg h₁, List.map_cons, List.sum_cons, lastTick_cons]
    rcases turns_cases fuel hb h₀ h₁ hlt with ⟨hpart, hzero, hturns⟩ |
      ⟨hwhole, hnext, hturns⟩ | ⟨hwhole, t, hnext, hL, hturns⟩ | ⟨hwhole, t, hnext, hL, hturns⟩
    · rw [walkEnd_single hturns, hzero]
      exact ⟨by omega, fun h => absurd h (lt_irrefl 0)⟩
    · rw [walkEnd_single hturns, hnext, spend_amountRemaining_whole hwhole]
      subst hb
      exact ⟨rfl, fun _ => rfl⟩
    · rw [walkEnd_single hturns, hnext]
      dsimp only
      rw [if_pos hL]
      exact ⟨spend_amountRemaining_whole hwhole, fun _ => rfl⟩
    · have hrem : (passed pool direction b s t).amountRemaining =
          s.amountRemaining - bandCost pool b := spend_amountRemaining_whole hwhole
      obtain ⟨hrest, htick⟩ := ih (s := passed pool direction b s t) (by omega)
      rw [walkEnd_cons hturns, hnext]
      dsimp only
      rw [if_neg hL]
      refine ⟨?_, htick⟩
      rw [hrest, hrem, Nat.sub_sub]
      rfl

/-- The limit of the price in the direction of a swap. -/
def limitPrice (direction : V3Direction) : ℕ :=
  match direction with
  | .zeroForOne => minSqrtRatio
  | .oneForZero => maxSqrtRatio

theorem target_mem (pool : UniswapV3PoolState) (direction : V3Direction) (price : ℕ) (tick : ℤ)
    (L : ℕ) : (bandAhead pool direction price tick L).target ∈
      Set.uIcc price (limitPrice direction) := by
  unfold bandAhead getSwapTargetForTick limitPrice
  rw [Set.mem_uIcc]
  dsimp only
  generalize findNextInitializedTick pool.ticks tick direction = next
  rcases next with - | t <;> cases direction <;> dsimp only <;> omega

/-- The price stays between where it was and the limit. -/
theorem walkEnd_price_mem (hs : Sized pool) (direction : V3Direction) (fuel : ℕ)
    (hprice : s.sqrtPrice < 2 ^ 160)
    (hL : s.liquidity < 2 ^ 128) (hlt : s.amountRemaining < 2 ^ 128) :
    (walkEnd pool direction fuel s).sqrtPrice ∈
      Set.uIcc s.sqrtPrice (limitPrice direction) := by
  induction fuel generalizing s with
  | zero => exact Set.left_mem_uIcc
  | succ fuel ih =>
    by_cases h₀ : s.amountRemaining = 0
    · rw [walkEnd_nil (turns_of_amountRemaining_eq_zero h₀ _)]
      exact Set.left_mem_uIcc
    generalize hb : bandAt pool direction s = b
    by_cases h₁ : b.target = s.sqrtPrice
    · rw [walkEnd_nil (turns_stuck (by rw [hb]; exact h₁) _)]
      exact Set.left_mem_uIcc
    have htarget : b.target ∈ Set.uIcc s.sqrtPrice (limitPrice direction) := by
      subst hb
      exact target_mem _ _ _ _ _
    rcases turns_first fuel hb h₀ h₁ hlt with ⟨s', hturns, hend, -⟩ |
      ⟨t, hnext, -, hturns⟩
    · have hstep : (bandStep pool b s.amountRemaining).sqrtPrice ∈
          Set.uIcc s.sqrtPrice b.target := by
        subst hb
        exact bandStep_mem hs ⟨rfl, h₁, hL⟩ hprice hlt
      rw [walkEnd_single hturns]
      rcases hend with hend | hend
      · rw [hend]
        exact Set.left_mem_uIcc
      · rw [hend]
        exact Set.uIcc_subset_uIcc Set.left_mem_uIcc htarget hstep
    · rw [walkEnd_cons hturns]
      have hrest := ih (s := passed pool direction b s t)
        (by subst hb; exact (bandAhead_target h₁).2) (liquidityBeyond_lt hL t)
        (lt_of_le_of_lt (Nat.sub_le _ _) hlt)
      exact Set.uIcc_subset_uIcc htarget Set.right_mem_uIcc hrest

/-! ## Walks that go right -/

/-- The quote is refused before its walk. -/
def Refused (pool : UniswapV3PoolState) (amountIn : ℕ) : Prop :=
  amountIn = 0 ∨ pool.liquidity = 0 ∨ pool.sqrtPriceX96 = 0

instance (pool : UniswapV3PoolState) (amountIn : ℕ) : Decidable (Refused pool amountIn) :=
  inferInstanceAs (Decidable (_ ∨ _ ∨ _))

/-- The steps of the walk of a quote, each with the variables before and after it. -/
def walk (pool : UniswapV3PoolState) (direction : V3Direction) (amountIn : ℕ) :
    List (QuoteState × QuoteState) :=
  if Refused pool amountIn then [] else quoteTurns pool direction amountIn

/-- The variables where the walk of a quote ends. -/
def walkedTo (pool : UniswapV3PoolState) (direction : V3Direction) (amountIn : ℕ) : QuoteState :=
  ((walk pool direction amountIn).getLast?.map Prod.snd).getD (quoteStart pool amountIn)

/-- Each step of the walk prices its segment with the liquidity that is active at every price of
    it; each initialized tick between the first price and the last one is crossed once; and the
    walk goes on as long as input remains and an initialized tick is ahead. -/
structure WalksRight (pool : UniswapV3PoolState) (direction : V3Direction) (amountIn : ℕ) :
    Prop where
  active : ∀ turn ∈ walk pool direction amountIn, ∀ q,
    min turn.1.sqrtPrice (stepAt pool direction turn.1).sqrtPrice ≤ q →
    q < max turn.1.sqrtPrice (stepAt pool direction turn.1).sqrtPrice →
    (turn.1.liquidity : ℤ) = netWhere pool.ticks (getSqrtRatioAtTick · ≤ q)
  crossed : ∀ τ, Initialized pool.ticks τ →
    min pool.sqrtPriceX96 (walkedTo pool direction amountIn).sqrtPrice < getSqrtRatioAtTick τ →
    getSqrtRatioAtTick τ < max pool.sqrtPriceX96 (walkedTo pool direction amountIn).sqrtPrice →
    (crossings (walk pool direction amountIn)).count τ = 1
  goesOn : (walkedTo pool direction amountIn).amountRemaining = 0 ∨
    ∀ τ, Initialized pool.ticks τ →
      ¬Ahead direction (walkedTo pool direction amountIn).currentTick τ

/-- The bands of the walks of a pool: none where no liquidity is active. -/
def ladder (pool : UniswapV3PoolState) (direction : V3Direction) : List Band :=
  if pool.liquidity = 0 then [] else bands pool direction

/-- The input is more than the bands cost, and an initialized tick lies beyond them. -/
structure LeavesInput (pool : UniswapV3PoolState) (direction : V3Direction) (amountIn : ℕ) :
    Prop where
  input : ((ladder pool direction).map (bandCost pool)).sum < amountIn
  ahead : ∃ τ, Initialized pool.ticks τ ∧
    Ahead direction (lastTick (ladder pool direction) pool.tick) τ

/-- The pool is on an initialized tick, and the input takes the price down beyond it. -/
structure SkipsTick (pool : UniswapV3PoolState) (direction : V3Direction) (amountIn : ℕ) :
    Prop where
  down : direction = .zeroForOne
  initialized : Initialized pool.ticks pool.tick
  quoted : ¬Refused pool amountIn
  beyond : (bandStep pool (firstBand pool direction) amountIn).sqrtPrice <
    getSqrtRatioAtTick pool.tick

theorem walk_of_quoted (direction : V3Direction) (h : ¬Refused pool amountIn) :
    walk pool direction amountIn = quoteTurns pool direction amountIn ∧
      walkedTo pool direction amountIn = quoteEnd pool direction amountIn := by
  have hwalk : walk pool direction amountIn = quoteTurns pool direction amountIn := if_neg h
  refine ⟨hwalk, ?_⟩
  unfold walkedTo
  rw [hwalk]
  rfl

theorem walk_of_refused (direction : V3Direction) (h : Refused pool amountIn) :
    walk pool direction amountIn = [] ∧
      walkedTo pool direction amountIn = quoteStart pool amountIn := by
  have hwalk : walk pool direction amountIn = [] := if_pos h
  refine ⟨hwalk, ?_⟩
  unfold walkedTo
  rw [hwalk]
  rfl

theorem Coherent.price_pos (hs : Coherent pool) : 0 < pool.sqrtPriceX96 :=
  lt_of_lt_of_le (getSqrtRatioAtTick_pos hs.tick_mem) hs.price_lo

/-- The walk goes on to the end of its input or of the ticks, unless input is left. -/
theorem goesOn_iff (hs : Coherent pool) (hx : amountIn < 2 ^ 128) :
    ((walkedTo pool direction amountIn).amountRemaining = 0 ∨
      ∀ τ, Initialized pool.ticks τ →
        ¬Ahead direction (walkedTo pool direction amountIn).currentTick τ) ↔
      ¬LeavesInput pool direction amountIn := by
  have hiff : (walkedTo pool direction amountIn).amountRemaining =
        amountIn - ((ladder pool direction).map (bandCost pool)).sum ∧
      (0 < (walkedTo pool direction amountIn).amountRemaining →
        (walkedTo pool direction amountIn).currentTick =
          lastTick (ladder pool direction) pool.tick) := by
    have hpos := hs.price_pos
    by_cases href : Refused pool amountIn
    · rw [(walk_of_refused direction href).2]
      rcases href with rfl | hL | hp
      · exact ⟨(Nat.zero_sub _).symm, fun h => absurd h (lt_irrefl 0)⟩
      · unfold ladder
        rw [if_pos hL]
        exact ⟨rfl, fun _ => rfl⟩
      · omega
    · rw [(walk_of_quoted direction href).2]
      unfold ladder
      rw [if_neg fun hL => href (.inr (.inl hL))]
      exact walkEnd_rest (s := quoteStart pool amountIn) (hx.trans (by norm_num))
  obtain ⟨hrest, htick⟩ := hiff
  constructor
  · rintro h ⟨hinput, τ, hτ, hahead⟩
    rcases h with hzero | hnone
    · omega
    · exact hnone τ hτ (by rw [htick (by omega)]; exact hahead)
  · intro h
    rw [or_iff_not_imp_left]
    intro hne τ hτ hahead
    rw [htick (by omega)] at hahead
    exact h ⟨by omega, τ, hτ, hahead⟩

/-- Off the initialized ticks, and upwards, the walk crosses what it passes. -/
theorem walksRight_of_onLadder (hs : Coherent pool) (hx : amountIn < 2 ^ 128)
    (h : OnLadder pool direction pool.sqrtPriceX96 pool.tick pool.liquidity)
    (hleaves : ¬LeavesInput pool direction amountIn) : WalksRight pool direction amountIn := by
  refine ⟨?_, ?_, (goesOn_iff hs hx).mpr hleaves⟩
  · intro turn hturn q hlo hhi
    by_cases href : Refused pool amountIn
    · rw [(walk_of_refused direction href).1] at hturn
      exact absurd hturn List.not_mem_nil
    rw [(walk_of_quoted direction href).1] at hturn
    obtain ⟨hon, hlt, hmoves⟩ :=
      onLadder_of_mem_turns hs (s := quoteStart pool amountIn) h hx turn hturn
    have hstep := hon.step_mem hs rfl hmoves hlt
    rw [Set.mem_uIcc] at hstep
    refine hon.clear hs rfl hmoves ?_ ?_ <;> unfold stepAt bandAt at * <;> omega
  · intro τ hτ hlo hhi
    by_cases href : Refused pool amountIn
    · rw [(walk_of_refused direction href).2] at hlo hhi
      dsimp only [quoteStart] at hlo hhi
      omega
    rw [(walk_of_quoted direction href).2] at hlo hhi
    rw [(walk_of_quoted direction href).1]
    have hend := walkEnd_price_mem (s := quoteStart pool amountIn) hs.sized direction
      (pool.ticks.size + 2) hs.price_lt hs.sized.liquidity_lt hx
    change (quoteEnd pool direction amountIn).sqrtPrice ∈ Set.uIcc pool.sqrtPriceX96 _ at hend
    rw [Set.mem_uIcc] at hend
    have hcounted := h.counted τ hτ
    have huncounted := h.uncounted τ hτ
    have hside : Ahead direction pool.tick τ ∧ Beyond direction (getSqrtRatioAtTick τ)
        (quoteEnd pool direction amountIn).sqrtPrice := by
      cases direction with
      | zeroForOne =>
        dsimp only [Ahead, Beyond, Counted, limitPrice] at *
        by_cases hahead : τ < pool.tick
        · have := hcounted hahead
          omega
        · have := huncounted hahead
          omega
      | oneForZero =>
        dsimp only [Ahead, Beyond, Counted, limitPrice] at *
        by_cases hahead : pool.tick < τ
        · have := huncounted (by omega)
          omega
        · have := hcounted (by omega)
          omega
    exact count_crossings hs (s := quoteStart pool amountIn) h hx hτ hside.1 hside.2

/-- Down from an initialized tick, but not beyond it, there is one turn at most, and it does not
    leave the range of the tick. -/
theorem quoteTurns_on_tick (hs : Coherent pool) (hx : amountIn < 2 ^ 128)
    (href : ¬Refused pool amountIn)
    (hge : getSqrtRatioAtTick pool.tick ≤
      (bandStep pool (firstBand pool .zeroForOne) amountIn).sqrtPrice) :
    quoteTurns pool .zeroForOne amountIn = [] ∨
      ∃ s', quoteTurns pool .zeroForOne amountIn = [(quoteStart pool amountIn, s')] ∧
        (s'.sqrtPrice = pool.sqrtPriceX96 ∨
          s'.sqrtPrice = (bandStep pool (firstBand pool .zeroForOne) amountIn).sqrtPrice) := by
  have hb : bandAt pool .zeroForOne (quoteStart pool amountIn) = firstBand pool .zeroForOne := rfl
  by_cases h₁ : (firstBand pool .zeroForOne).target = pool.sqrtPriceX96
  · exact .inl (turns_stuck (s := quoteStart pool amountIn) h₁ _)
  rcases turns_first (pool.ticks.size + 1) hb (fun h => href (.inl h)) h₁ hx with
    ⟨s', hturns, hprice, -⟩ | ⟨t, hnext, hstep, hturns⟩
  · exact .inr ⟨s', hturns, hprice⟩
  · change (bandStep pool (firstBand pool .zeroForOne) amountIn).sqrtPrice = _ at hstep
    have hfind : findNextInitializedTick pool.ticks pool.tick .zeroForOne = some t := hnext
    obtain ⟨hinit, hahead⟩ := findNextInitializedTick_spec hfind
    have hmem := hs.mem_Icc t hinit
    have htarget := (target_down hfind h₁).1
    have hmin : minTick + 1 ∈ Set.Icc minTick maxTick := by decide
    have hlt : getSqrtRatioAtTick t < getSqrtRatioAtTick pool.tick :=
      getSqrtRatioAtTick_strictMonoOn hmem hs.tick_mem hahead
    -- only the price of `minTick` is below the least target
    have htick : t = extremeTick .zeroForOne := by
      have hle := (ratio_le_iff (t := pool.tick) hs.tick_mem hmin).mp (by
        rw [hstep] at hge
        unfold minSqrtRatio firstBand at *
        omega)
      have := hmem.1
      dsimp only [Ahead] at hahead
      show t = minTick
      omega
    subst htick
    have hstuck := stuck_beyond_extreme (b := firstBand pool .zeroForOne) hs rfl h₁ hnext
      (liquidityBeyond pool .zeroForOne pool.liquidity (extremeTick .zeroForOne))
    have hrest : turns pool .zeroForOne (pool.ticks.size + 1) (passed pool .zeroForOne
        (firstBand pool .zeroForOne) (quoteStart pool amountIn) (extremeTick .zeroForOne)) = [] :=
      turns_stuck (s := passed pool .zeroForOne (firstBand pool .zeroForOne)
        (quoteStart pool amountIn) (extremeTick .zeroForOne)) hstuck _
    rw [hrest] at hturns
    exact .inr ⟨_, hturns, .inr hstep.symm⟩

/-- Down from an initialized tick, but not beyond it, the walk goes right. -/
theorem walksRight_on_tick (hs : Coherent pool) (hx : amountIn < 2 ^ 128)
    (hge : ¬Refused pool amountIn → getSqrtRatioAtTick pool.tick ≤
      (bandStep pool (firstBand pool .zeroForOne) amountIn).sqrtPrice)
    (hleaves : ¬LeavesInput pool .zeroForOne amountIn) :
    WalksRight pool .zeroForOne amountIn := by
  have hgoes := (goesOn_iff hs hx).mpr hleaves
  by_cases href : Refused pool amountIn
  · refine ⟨?_, ?_, hgoes⟩
    · rw [(walk_of_refused .zeroForOne href).1]
      exact nofun
    · intro τ hτ hlo hhi
      rw [(walk_of_refused .zeroForOne href).2] at hlo hhi
      dsimp only [quoteStart] at hlo hhi
      omega
  obtain ⟨hwalk, hend⟩ := walk_of_quoted .zeroForOne href
  have hge := hge href
  have hlow := hs.price_lo
  have hhigh := hs.price_hi
  rcases quoteTurns_on_tick hs hx href hge with hturns | ⟨s', hturns, hprice⟩
  · refine ⟨?_, ?_, hgoes⟩
    · rw [hwalk, hturns]
      exact nofun
    · intro τ hτ hlo hhi
      rw [hend, quoteEnd, walkEnd_nil hturns] at hlo hhi
      dsimp only [quoteStart] at hlo hhi
      omega
  · have hmoves : (firstBand pool .zeroForOne).target ≠ pool.sqrtPriceX96 := by
      intro hstuck
      rw [quoteTurns, turns_stuck (s := quoteStart pool amountIn) hstuck] at hturns
      cases hturns
    have hstep := bandStep_mem (x := amountIn) hs.sized
      ⟨rfl, hmoves, hs.sized.liquidity_lt⟩ hs.price_lt hx
    have htarget := target_mem pool .zeroForOne pool.sqrtPriceX96 pool.tick pool.liquidity
    have hmin : minSqrtRatio ≤ getSqrtRatioAtTick (pool.tick + 1) :=
      (ratio_le_iff (t := minTick + 1) (by decide) hs.tick_succ_mem).mpr (by
        have := hs.tick_lo
        omega)
    have hle : (bandStep pool (firstBand pool .zeroForOne) amountIn).sqrtPrice ≤
        getSqrtRatioAtTick (pool.tick + 1) := by
      change _ ∈ Set.uIcc pool.sqrtPriceX96 _ at hstep
      rw [Set.mem_uIcc] at hstep htarget
      dsimp only [limitPrice] at htarget
      unfold firstBand at *
      omega
    refine ⟨?_, ?_, hgoes⟩
    · intro turn hturn q hlo hhi
      rw [hwalk, hturns] at hturn
      rw [List.mem_singleton.mp hturn] at hlo hhi ⊢
      change min pool.sqrtPriceX96
        (bandStep pool (firstBand pool .zeroForOne) amountIn).sqrtPrice ≤ q at hlo
      change q < max pool.sqrtPriceX96
        (bandStep pool (firstBand pool .zeroForOne) amountIn).sqrtPrice at hhi
      show (pool.liquidity : ℤ) = _
      rw [hs.active, netAtOrBelow_eq_netWhere]
      exact netWhere_congr fun τ hτ =>
        (hs.ratio_le_iff_le_tick hτ (by omega) (by omega)).symm
    · intro τ hτ hlo hhi
      rw [hend, quoteEnd, walkEnd_single hturns] at hlo hhi
      have hle := (hs.ratio_le_iff_le_tick (q := getSqrtRatioAtTick τ) hτ (by omega)
        (by omega)).mp le_rfl
      have := (ratio_le_iff (hs.mem_Icc τ hτ) hs.tick_mem).mpr hle
      omega

theorem bandStep_stuck (h : b.target = b.start) : (bandStep pool b x).sqrtPrice = b.target := by
  have hcost : bandCost pool b = 0 := by
    have hin : maxIn b.start b.start b.liquidity = 0 := by
      unfold maxIn getAmount1Delta mulDivRoundUp
      simp [q96, wrappingMul, u512ToU256Checked]
    unfold bandCost totalMaxCost
    rw [h, hin]
    unfold feeRoundUp mulDivRoundUp
    split_ifs <;> simp [wrappingAdd, u512ToU256Checked]
  exact (bandStep_whole_fields (by omega)).1

/-- Down beyond an initialized tick, the first segment is priced with the net liquidity of that
    tick, below its price too. -/
theorem not_walksRight_of_skipsTick (hs : Coherent pool)
    (hskips : SkipsTick pool direction amountIn) : ¬WalksRight pool direction amountIn := by
  obtain ⟨rfl, hinit, href, hbeyond⟩ := hskips
  intro hright
  have hlow := hs.price_lo
  have hmoves : (firstBand pool .zeroForOne).target ≠ pool.sqrtPriceX96 := by
    intro hstuck
    rw [bandStep_stuck hstuck, hstuck] at hbeyond
    omega
  have hmem : ∃ s', (quoteStart pool amountIn, s') ∈ walk pool .zeroForOne amountIn := by
    rw [(walk_of_quoted .zeroForOne href).1, quoteTurns,
      turns_succ (s := quoteStart pool amountIn) (pool.ticks.size + 1) (fun h => href (.inl h))
        hmoves]
    generalize quoteTurn pool .zeroForOne (quoteStart pool amountIn) = next
    obtain ⟨s', goesOn⟩ := next
    cases goesOn with
    | false => exact ⟨s', List.mem_singleton.mpr rfl⟩
    | true => exact ⟨s', List.mem_cons_self ..⟩
  obtain ⟨s', hmem⟩ := hmem
  have hpos := getSqrtRatioAtTick_pos hs.tick_mem
  have hactive := hright.active _ hmem (getSqrtRatioAtTick pool.tick - 1)
    (show min pool.sqrtPriceX96 (bandStep pool (firstBand pool .zeroForOne) amountIn).sqrtPrice ≤ _
      by omega)
    (show _ < max pool.sqrtPriceX96
      (bandStep pool (firstBand pool .zeroForOne) amountIn).sqrtPrice by omega)
  change (pool.liquidity : ℤ) = _ at hactive
  have hadd : netWhere pool.ticks (· ≤ pool.tick) =
      netWhere pool.ticks (getSqrtRatioAtTick · ≤ getSqrtRatioAtTick pool.tick - 1) +
        netAt pool.ticks pool.tick := by
    refine netWhere_add (fun τ hτ => ?_) (by omega)
    have hle := ratio_le_iff hs.tick_mem (hs.mem_Icc τ hτ)
    omega
  rw [hs.active, netAtOrBelow_eq_netWhere, hadd] at hactive
  unfold Initialized at hinit
  omega

/-- **Main theorem.** A walk prices its segments with the active liquidity, crosses the ticks
    that it passes once, and goes on as long as there is input and a tick ahead, exactly when it
    does not go down beyond an initialized tick that the pool is on, and does not leave input at
    a tick whose price it is at or beyond which there is no liquidity. -/
theorem walksRight_iff (hs : Coherent pool) (hx : amountIn < 2 ^ 128) :
    WalksRight pool direction amountIn ↔
      ¬SkipsTick pool direction amountIn ∧ ¬LeavesInput pool direction amountIn := by
  constructor
  · intro hright
    exact ⟨fun hskips => not_walksRight_of_skipsTick hs hskips hright,
      (goesOn_iff hs hx).mp hright.goesOn⟩
  · rintro ⟨hskips, hleaves⟩
    by_cases hon : direction = .zeroForOne ∧ Initialized pool.ticks pool.tick
    · obtain ⟨rfl, hinit⟩ := hon
      refine walksRight_on_tick hs hx (fun href => ?_) hleaves
      by_contra hlt
      exact hskips ⟨rfl, hinit, href, not_le.mp hlt⟩
    · exact walksRight_of_onLadder hs hx (hs.onLadder fun hdown hinit => hon ⟨hdown, hinit⟩) hleaves

/-! ## A pool on both sides of a gap -/

theorem netAt_eq_zero_or_mem (ticks : TickMap) (t : ℤ) :
    netAt ticks t = 0 ∨ (t, netAt ticks t) ∈ ticks.toList := by
  by_cases h : Initialized ticks t
  · exact .inr (Std.ExtTreeMap.mem_toList_iff_getElem?_eq_some.mpr (getElem?_of_initialized h))
  · exact .inl (not_not.mp h)

/-- Two positions with the same liquidity, from -60 to 60 and from 120 to 180, at the price 1. -/
def gapPool : UniswapV3PoolState where
  info := { token0 := 1, token1 := 2, fee := 3000, dexType := .uniswapV3 }
  sqrtPriceX96 := q96
  liquidity := 10 ^ 12
  ticks := {(-60, 10 ^ 12), (60, -10 ^ 12), (120, 10 ^ 12), (180, -10 ^ 12)}

theorem gapPool_toList : gapPool.ticks.toList =
    [(-60, 10 ^ 12), (60, -10 ^ 12), (120, 10 ^ 12), (180, -10 ^ 12)] := by decide

theorem gapPool_coherent : Coherent gapPool := by
  have hmem {t : ℤ} (ht : (t, netAt gapPool.ticks t) ∈ gapPool.ticks.toList) :
      t ∈ Set.Icc minTick maxTick ∧
        -2 ^ 127 ≤ netAt gapPool.ticks t ∧ netAt gapPool.ticks t < 2 ^ 127 := by
    rw [gapPool_toList] at ht
    simp only [List.mem_cons, Prod.mk.injEq, List.not_mem_nil, or_false] at ht
    unfold minTick maxTick
    rw [Set.mem_Icc]
    omega
  have hsum (t : ℤ) : netAtOrBelow gapPool.ticks t =
      (if -60 ≤ t then 10 ^ 12 else 0) + ((if 60 ≤ t then -10 ^ 12 else 0) +
        ((if 120 ≤ t then 10 ^ 12 else 0) + (if 180 ≤ t then -10 ^ 12 else 0))) := by
    unfold netAtOrBelow Map.sumBy shareAtOrBelow
    rw [gapPool_toList]
    simp
  refine ⟨⟨?_, ?_⟩, by decide, by decide, by decide +kernel, by decide +kernel, ?_, ?_, ?_,
    by decide⟩
  · rw [hsum]
    decide
  · unfold netTotal Map.sumBy
    rw [gapPool_toList]
    decide
  · intro t ht
    exact (hmem ((netAt_eq_zero_or_mem _ t).resolve_left ht)).1
  · intro t
    rcases netAt_eq_zero_or_mem gapPool.ticks t with hzero | ht
    · rw [hzero]
      decide
    · exact (hmem ht).2
  · intro t
    rw [hsum]
    split_ifs <;> omega

/-- A small swap of `gapPool` stays in its first position. -/
theorem gap_short_walksRight : WalksRight gapPool .oneForZero 1000 ↔
    ¬SkipsTick gapPool .oneForZero 1000 ∧ ¬LeavesInput gapPool .oneForZero 1000 :=
  walksRight_iff gapPool_coherent (by decide)

/-- A swap of `10 ^ 18` stops at the tick 60, before the second position. -/
theorem gap_not_crossed : Coherent gapPool ∧ ¬WalksRight gapPool .oneForZero (10 ^ 18) := by
  have htick : (walkedTo gapPool .oneForZero (10 ^ 18)).currentTick = 60 := by decide +kernel
  have hrest : (walkedTo gapPool .oneForZero (10 ^ 18)).amountRemaining ≠ 0 := by decide +kernel
  have hinit : Initialized gapPool.ticks 120 := by decide +kernel
  refine ⟨gapPool_coherent, fun hright => ?_⟩
  rcases hright.goesOn with hzero | hnone
  · exact hrest hzero
  · refine hnone 120 hinit ?_
    rw [htick]
    show (60 : ℤ) < 120
    decide

end MevScout.Pool.Math
