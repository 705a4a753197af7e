import MevScout.Pool.Math.Walk
import MevScout.Pool.Sim

/-!
# The pool after a quoted swap

The loop of `quote_v3_exact_in_post` sets the tick where it crosses one, to the tick that it
crosses, and leaves it where it stops inside a band; and it leaves the price at the start of the
last band where that band ends beyond all liquidity. The state that a quote returns is coherent
only where this happens to agree: a swap that stays in the range of its tick, or goes up to an
initialized tick and not beyond the range of it.

Results:
* `coherent_settle_iff`: what is to show of the price, the tick and the liquidity;
* `quoteEnd_eq_landing`: where the walk ends, from its last rung;
* `countsTick_iff`: where the liquidity is the sum at or below the tick;
* `settlesRight_iff`: when a quote returns a coherent pool.
-/

namespace MevScout.Pool.Math

open Ladder

variable {pool : UniswapV3PoolState} {direction : V3Direction} {s s' s₀ : QuoteState} {b : Band}
  {price L amountIn : ℕ} {tick t : ℤ} {post : V3QuotePostState}

/-! ## The settled pool -/

/-- A pool with the price, the tick and the liquidity of a quote. -/
def settle (pool : UniswapV3PoolState) (post : V3QuotePostState) : UniswapV3PoolState :=
  { pool with sqrtPriceX96 := post.sqrtPriceX96, tick := post.tick, liquidity := post.liquidity }

/-- The post-state of a quote, as `apply_post_state` takes it. -/
def V3QuotePostState.toPostState (post : V3QuotePostState) : PoolPostState :=
  .v3Family post.sqrtPriceX96 post.tick post.liquidity

theorem concentrated_applyPostState (p : PoolState) (post : V3QuotePostState) :
    concentrated (applyPostState p post.toPostState) = (concentrated p).map (settle · post) := by
  cases p <;> rfl

/-- The price is in the range of the tick. -/
structure PriceAt (tick : ℤ) (price : ℕ) : Prop where
  tick_lo : minTick ≤ tick
  tick_hi : tick < maxTick
  price_lo : getSqrtRatioAtTick tick ≤ price
  price_hi : price ≤ getSqrtRatioAtTick (tick + 1)

theorem Coherent.priceAt (hs : Coherent pool) : PriceAt pool.tick pool.sqrtPriceX96 :=
  ⟨hs.tick_lo, hs.tick_hi, hs.price_lo, hs.price_hi⟩

/-- A settled pool is coherent with the right liquidity and the price in the range of the tick. -/
theorem coherent_settle_iff (hs : Coherent pool) : Coherent (settle pool post) ↔
    (post.liquidity : ℤ) = netAtOrBelow pool.ticks post.tick ∧
      PriceAt post.tick post.sqrtPriceX96 := by
  constructor
  · intro h
    exact ⟨h.active, h.priceAt⟩
  · rintro ⟨hactive, hprice⟩
    exact
      { active := hactive
        balanced := hs.balanced
        tick_lo := hprice.tick_lo
        tick_hi := hprice.tick_hi
        price_lo := hprice.price_lo
        price_hi := hprice.price_hi
        mem_Icc := hs.mem_Icc
        net := hs.net
        sum := hs.sum
        fee_lt := hs.fee_lt }

/-- The pool that a quote's state is applied to is coherent again, and its price is between the
    old one and the limit of the direction. -/
structure SettlesRight (pool : UniswapV3PoolState) (direction : V3Direction)
    (post : V3QuotePostState) : Prop where
  coherent : ∀ p, concentrated p = some pool →
    ∃ pool', concentrated (applyPostState p post.toPostState) = some pool' ∧ Coherent pool'
  between : post.sqrtPriceX96 ∈ Set.uIcc pool.sqrtPriceX96 (limitPrice direction)

/-! ## Where the walk ends -/

/-- The price, the tick and the liquidity after a rung. -/
def landing (pool : UniswapV3PoolState) (direction : V3Direction) (r : Band × Option ℕ) :
    ℕ × ℤ × ℕ :=
  if (rungStep pool r).sqrtPrice = r.1.target then
    match r.1.next with
    | some t =>
      if liquidityBeyond pool direction r.1.liquidity t = 0 then (r.1.start, t, 0)
      else (r.1.target, t, liquidityBeyond pool direction r.1.liquidity t)
    | none => (r.1.start, r.1.tick, r.1.liquidity)
  else ((rungStep pool r).sqrtPrice, r.1.tick, r.1.liquidity)

theorem turn_of_mem_turns {fuel : ℕ} (h : (s, s') ∈ turns pool direction fuel s₀) :
    (bandAt pool direction s).target ≠ s.sqrtPrice ∧ s' = (quoteTurn pool direction s).1 := by
  induction fuel generalizing s₀ with
  | zero => exact absurd h List.not_mem_nil
  | succ fuel ih =>
    by_cases h₀ : s₀.amountRemaining = 0
    · rw [turns_of_amountRemaining_eq_zero h₀] at h
      exact absurd h List.not_mem_nil
    by_cases h₁ : (bandAt pool direction s₀).target = s₀.sqrtPrice
    · rw [turns_stuck h₁] at h
      exact absurd h List.not_mem_nil
    rw [turns_succ fuel h₀ h₁] at h
    generalize hturn : quoteTurn pool direction s₀ = next at h
    obtain ⟨s₁, goesOn⟩ := next
    cases goesOn with
    | false =>
      obtain ⟨rfl, rfl⟩ := Prod.mk.inj (List.mem_singleton.mp h)
      exact ⟨h₁, by rw [hturn]⟩
    | true =>
      rcases List.mem_cons.mp h with heq | h
      · obtain ⟨rfl, rfl⟩ := Prod.mk.inj heq
        exact ⟨h₁, by rw [hturn]⟩
      · exact ih h

/-- A turn ends where its rung lands. -/
theorem quoteTurn_landing (h : (bandAt pool direction s).target ≠ s.sqrtPrice)
    (hs' : s' = (quoteTurn pool direction s).1) :
    (s'.sqrtPrice, s'.currentTick, s'.liquidity) =
      landing pool direction (view pool direction s) := by
  rw [hs', quoteTurn_eq h]
  unfold landing advance
  rw [rungStep_view]
  show _ = if (stepAt pool direction s).sqrtPrice = (bandAt pool direction s).target then
    (match (bandAt pool direction s).next with
      | some t =>
        if liquidityBeyond pool direction s.liquidity t = 0 then (s.sqrtPrice, t, 0)
        else ((bandAt pool direction s).target, t, liquidityBeyond pool direction s.liquidity t)
      | none => (s.sqrtPrice, s.currentTick, s.liquidity))
    else ((stepAt pool direction s).sqrtPrice, s.currentTick, s.liquidity)
  unfold stepAt spend
  generalize bandAt pool direction s = b
  generalize (bandStep pool b s.amountRemaining).sqrtPrice = p
  dsimp only
  by_cases hp : p = b.target
  · rw [if_pos hp, if_pos hp, hp]
    cases b.next with
    | none => rfl
    | some t =>
      dsimp only
      split_ifs <;> rfl
  · rw [if_neg hp, if_neg hp]

/-- The walk of a quote ends where its last rung lands. -/
theorem quoteEnd_eq_landing (hx : amountIn < 2 ^ 128)
    (h : (quoteTurns pool direction amountIn).getLast? = some (s, s')) :
    (rungs pool direction amountIn).getLast? = some (view pool direction s) ∧
      quoteEnd pool direction amountIn = s' ∧
      (s'.sqrtPrice, s'.currentTick, s'.liquidity) =
        landing pool direction (view pool direction s) := by
  obtain ⟨hmoves, hs'⟩ := turn_of_mem_turns (List.mem_of_getLast? h)
  refine ⟨?_, ?_, quoteTurn_landing hmoves hs'⟩
  · rw [← map_view_quoteTurns _ _ hx, List.getLast?_map, h]
    rfl
  · unfold quoteEnd walkEnd
    change ((quoteTurns pool direction amountIn).getLast?.map Prod.snd).getD _ = _
    rw [h]
    rfl

/-! ## Where it lands right -/

/-- The liquidity counts the ticks at or below `tick`: upwards; downwards, before the first tick
    is crossed; or by chance, in a pool that skips the initialized tick it is on. -/
def CountsTick (pool : UniswapV3PoolState) (direction : V3Direction) (tick : ℤ) (L : ℕ) : Prop :=
  direction = .oneForZero ∨ tick = pool.tick ∨
    (Initialized pool.ticks pool.tick ∧ (L : ℤ) = netAtOrBelow pool.ticks tick)

/-- A rung that lands in the range of its tick: it ends inside its band, in the range of the tick
    it started from; or at the end of the price range; or on a tick with liquidity beyond. -/
def LandsRight (pool : UniswapV3PoolState) (direction : V3Direction) (r : Band × Option ℕ) :
    Prop :=
  if (rungStep pool r).sqrtPrice = r.1.target then
    match r.1.next with
    | some t =>
      CountsTick pool direction t (liquidityBeyond pool direction r.1.liquidity t) ∧
        (liquidityBeyond pool direction r.1.liquidity t = 0 →
          direction = .zeroForOne ∧ r.1.start ≤ getSqrtRatioAtTick (t + 1))
    | none => CountsTick pool direction r.1.tick r.1.liquidity
  else
    CountsTick pool direction r.1.tick r.1.liquidity ∧
      PriceAt r.1.tick (rungStep pool r).sqrtPrice

/-- Which liquidities are the sum at or below the tick. -/
theorem countsTick_iff (hfirst : tick = pool.tick → (L : ℤ) = netAtOrBelow pool.ticks tick)
    (hup : direction = .oneForZero → (L : ℤ) = netAtOrBelow pool.ticks tick)
    (hdown : direction = .zeroForOne → tick ≠ pool.tick → ¬Initialized pool.ticks pool.tick →
      (L : ℤ) ≠ netAtOrBelow pool.ticks tick) :
    (L : ℤ) = netAtOrBelow pool.ticks tick ↔ CountsTick pool direction tick L := by
  constructor
  · intro heq
    cases hdir : direction with
    | oneForZero => exact .inl rfl
    | zeroForOne =>
      by_cases htick : tick = pool.tick
      · exact .inr (.inl htick)
      · refine .inr (.inr ⟨?_, heq⟩)
        by_contra hinit
        exact hdown hdir htick hinit heq
  · rintro (hdir | htick | ⟨-, heq⟩)
    · exact hup hdir
    · exact hfirst htick
    · exact heq

/-- On the ladder downwards, an initialized tick is left out of the liquidity ahead of it. -/
theorem active_down_ne (h : (L : ℤ) = netWhere pool.ticks (Counted .zeroForOne tick))
    (hinit : Initialized pool.ticks tick) : (L : ℤ) ≠ netAtOrBelow pool.ticks tick := by
  have hadd : netAtOrBelow pool.ticks tick =
      netWhere pool.ticks (Counted .zeroForOne tick) + netAt pool.ticks tick := by
    rw [netAtOrBelow_eq_netWhere]
    refine netWhere_add (fun τ _ => ?_) (lt_irrefl tick)
    dsimp only [Counted]
    omega
  unfold Initialized at hinit
  omega

/-- What holds at the start of a turn: the price is in the range of the tick, and the tick is
    that of the pool, or one that the walk has crossed. -/
structure Settled (pool : UniswapV3PoolState) (direction : V3Direction) (s : QuoteState) : Prop
    where
  priceAt : PriceAt s.currentTick s.sqrtPrice
  tick : (s.currentTick = pool.tick ∧ s.liquidity = pool.liquidity) ∨
    (Initialized pool.ticks s.currentTick ∧ Ahead direction pool.tick s.currentTick)

/-- At the end of a band that moves the price, the price is in the range of its tick. -/
theorem priceAt_target (hs : Coherent pool) (hb : bandAhead pool direction price tick L = b)
    (hmoves : b.target ≠ price) (hnext : b.next = some t)
    (ht : direction = .oneForZero → t ≠ maxTick) (htick : tick < maxTick) :
    PriceAt t b.target := by
  subst hb
  have hfind : findNextInitializedTick pool.ticks tick direction = some t := hnext
  obtain ⟨hinit, hahead⟩ := findNextInitializedTick_spec hfind
  have hmem := hs.mem_Icc t hinit
  have hlo := hmem.1
  have hhi := hmem.2
  have hlt : t < maxTick := by
    cases direction with
    | zeroForOne => exact lt_trans hahead htick
    | oneForZero => exact lt_of_le_of_ne hhi (ht rfl)
  have hsucc : t + 1 ∈ Set.Icc minTick maxTick := ⟨by omega, by omega⟩
  have hstep := (ratio_le_iff hmem hsucc).mpr (by omega)
  cases direction with
  | zeroForOne =>
    have hmin := (ratio_le_iff (t := minTick + 1) (by decide) hsucc).mpr (by omega)
    have htarget := (target_down hfind hmoves).1
    unfold minSqrtRatio at htarget
    exact ⟨hlo, hlt, by omega, by omega⟩
  | oneForZero =>
    have hmax := (ratio_le_iff (τ := maxTick - 1) hmem (by decide)).mpr (by omega)
    have htarget := (target_up hfind hmoves).1
    unfold maxSqrtRatio at htarget
    exact ⟨hlo, hlt, by omega, by omega⟩

theorem settled_of_mem_turns (hs : Coherent pool) (hx : amountIn < 2 ^ 128) :
    ∀ turn ∈ quoteTurns pool direction amountIn, Settled pool direction turn.1 ∧
      turn.1.amountRemaining < 2 ^ 128 ∧
      (bandAt pool direction turn.1).target ≠ turn.1.sqrtPrice := by
  refine turns_induction (P := Settled pool direction) ?_
    (s := quoteStart pool amountIn) ⟨hs.priceAt, .inl ⟨rfl, rfl⟩⟩ hx
  intro s b t h hb hmoves hnext hL hstuck
  have hfind : findNextInitializedTick pool.ticks s.currentTick direction = some t := by
    subst hb
    exact hnext
  obtain ⟨hinit, hahead⟩ := findNextInitializedTick_spec hfind
  refine ⟨priceAt_target hs hb hmoves hnext ?_ h.priceAt.tick_hi, .inr ⟨hinit, ?_⟩⟩
  · rintro rfl rfl
    exact hstuck (stuck_beyond_extreme hs hb hmoves hnext _)
  · rcases h.tick with ⟨htick, -⟩ | ⟨-, hcrossed⟩
    · rw [← htick]
      exact hahead
    · exact hcrossed.trans hahead

/-- The liquidity at the start of a turn, and beyond the next tick, counts the ticks as it
    should where `CountsTick` says so. -/
theorem Settled.countsTick (hs : Coherent pool) (h : Settled pool direction s)
    (hon : ¬(direction = .zeroForOne ∧ Initialized pool.ticks pool.tick) →
      OnLadder pool direction s.sqrtPrice s.currentTick s.liquidity) :
    ((s.liquidity : ℤ) = netAtOrBelow pool.ticks s.currentTick ↔
        CountsTick pool direction s.currentTick s.liquidity) ∧
      ∀ t, findNextInitializedTick pool.ticks s.currentTick direction = some t →
        ((liquidityBeyond pool direction s.liquidity t : ℤ) = netAtOrBelow pool.ticks t ↔
          CountsTick pool direction t (liquidityBeyond pool direction s.liquidity t)) := by
  refine ⟨countsTick_iff ?_ ?_ ?_, fun t hfind => countsTick_iff ?_ ?_ ?_⟩
  · intro htick
    rcases h.tick with ⟨-, hL⟩ | ⟨-, hahead⟩
    · rw [hL, htick]
      exact hs.active
    · exact absurd htick hahead.ne
  · rintro rfl
    exact (hon fun hdown => nomatch hdown.1).active
  · rintro rfl hne hinit
    rcases h.tick with ⟨htick, -⟩ | ⟨hcrossed, -⟩
    · exact absurd htick hne
    · exact active_down_ne (hon fun hdown => hinit hdown.2).active hcrossed
  · rintro rfl
    obtain ⟨-, hahead⟩ := findNextInitializedTick_spec hfind
    rcases h.tick with ⟨htick, -⟩ | ⟨-, hcrossed⟩
    · rw [htick] at hahead
      exact absurd rfl hahead.ne
    · exact absurd rfl (hcrossed.trans hahead).ne
  · rintro rfl
    exact (hon fun hdown => nomatch hdown.1).active_beyond hs hfind
  · rintro rfl - hinit
    exact active_down_ne ((hon fun hdown => hinit hdown.2).active_beyond hs hfind)
      (findNextInitializedTick_spec hfind).1

/-- All net liquidity is at or below the last tick. -/
theorem Coherent.netAtOrBelow_maxTick (hs : Coherent pool) :
    netAtOrBelow pool.ticks maxTick = 0 := by
  have htotal : netTotal pool.ticks = netWhere pool.ticks fun _ => True := by
    unfold netTotal netWhere
    simp only [if_true]
  rw [netAtOrBelow_eq_netWhere, ← hs.balanced, htotal]
  exact netWhere_congr fun τ hτ => iff_true_intro (hs.mem_Icc τ hτ).2

/-- The price before a tick without liquidity beyond is in the range of that tick only downwards,
    from one tick above at most. -/
theorem priceAt_emptied (hs : Coherent pool) (h : Settled pool direction s)
    (hmoves : (bandAt pool direction s).target ≠ s.sqrtPrice)
    (hfind : findNextInitializedTick pool.ticks s.currentTick direction = some t) :
    PriceAt t s.sqrtPrice ↔
      direction = .zeroForOne ∧ s.sqrtPrice ≤ getSqrtRatioAtTick (t + 1) := by
  obtain ⟨hinit, hahead⟩ := findNextInitializedTick_spec hfind
  cases direction with
  | zeroForOne =>
    obtain ⟨htarget, hfall⟩ := target_down hfind hmoves
    change (bandAt pool .zeroForOne s).target = _ at htarget
    change (bandAt pool .zeroForOne s).target < _ at hfall
    constructor
    · exact fun hprice => ⟨rfl, hprice.price_hi⟩
    · rintro ⟨-, hhi⟩
      exact ⟨(hs.mem_Icc t hinit).1, lt_trans hahead h.priceAt.tick_hi, by omega, hhi⟩
  | oneForZero =>
    obtain ⟨htarget, hrise⟩ := target_up hfind hmoves
    change (bandAt pool .oneForZero s).target = _ at htarget
    change _ < (bandAt pool .oneForZero s).target at hrise
    constructor
    · intro hprice
      have := hprice.price_lo
      omega
    · rintro ⟨hdown, -⟩
      cases hdown

/-- The state that a rung lands on is right exactly where `LandsRight` says so. -/
theorem landing_right_iff (hs : Coherent pool) (h : Settled pool direction s)
    (hon : ¬(direction = .zeroForOne ∧ Initialized pool.ticks pool.tick) →
      OnLadder pool direction s.sqrtPrice s.currentTick s.liquidity)
    (hmoves : (bandAt pool direction s).target ≠ s.sqrtPrice)
    (hland : (s'.sqrtPrice, s'.currentTick, s'.liquidity) =
      landing pool direction (view pool direction s)) :
    ((s'.liquidity : ℤ) = netAtOrBelow pool.ticks s'.currentTick ∧
        PriceAt s'.currentTick s'.sqrtPrice) ↔
      LandsRight pool direction (view pool direction s) := by
  obtain ⟨hcounts, hbeyond⟩ := h.countsTick hs hon
  have hstart : (view pool direction s).1.start = s.sqrtPrice := rfl
  have htick : (view pool direction s).1.tick = s.currentTick := rfl
  have hL : (view pool direction s).1.liquidity = s.liquidity := rfl
  have htarget : (view pool direction s).1.target = (bandAt pool direction s).target := rfl
  have hnext : (view pool direction s).1.next =
      findNextInitializedTick pool.ticks s.currentTick direction := rfl
  unfold landing at hland
  unfold LandsRight
  rw [hstart, htick, hL, htarget, hnext] at hland
  rw [hstart, htick, hL, htarget, hnext]
  by_cases hprice : (rungStep pool (view pool direction s)).sqrtPrice =
      (bandAt pool direction s).target
  · rw [if_pos hprice] at hland ⊢
    cases hfind : findNextInitializedTick pool.ticks s.currentTick direction with
    | none =>
      rw [hfind] at hland
      obtain ⟨hp, ht, hl⟩ : s'.sqrtPrice = s.sqrtPrice ∧ s'.currentTick = s.currentTick ∧
          s'.liquidity = s.liquidity := by simpa using hland
      rw [hp, ht, hl, hcounts]
      exact and_iff_left h.priceAt
    | some t =>
      rw [hfind] at hland
      dsimp only at hland ⊢
      by_cases hzero : liquidityBeyond pool direction s.liquidity t = 0
      · rw [if_pos hzero] at hland
        obtain ⟨hp, ht, hl⟩ : s'.sqrtPrice = s.sqrtPrice ∧ s'.currentTick = t ∧
            s'.liquidity = 0 := by simpa using hland
        have hcount := hbeyond t hfind
        rw [hzero] at hcount
        rw [hp, ht, hl, hzero, hcount, priceAt_emptied hs h hmoves hfind]
        exact and_congr_right fun _ => ⟨fun hdown _ => hdown, fun hdown => hdown rfl⟩
      · rw [if_neg hzero] at hland
        obtain ⟨hp, ht, hl⟩ : s'.sqrtPrice = (bandAt pool direction s).target ∧
            s'.currentTick = t ∧ s'.liquidity = liquidityBeyond pool direction s.liquidity t := by
          simpa using hland
        rw [hp, ht, hl, hbeyond t hfind]
        have hprice : PriceAt t (bandAt pool direction s).target := by
          refine priceAt_target hs rfl hmoves hfind ?_ h.priceAt.tick_hi
          rintro rfl rfl
          have hactive := (hon fun hdown => nomatch hdown.1).active_beyond hs hfind
          rw [netWhere_counted, hs.netAtOrBelow_maxTick] at hactive
          exact hzero (by exact_mod_cast hactive)
        exact and_congr_right fun _ => ⟨fun _ h => absurd h hzero, fun _ => hprice⟩
  · rw [if_neg hprice] at hland ⊢
    obtain ⟨hp, ht, hl⟩ : s'.sqrtPrice = (rungStep pool (view pool direction s)).sqrtPrice ∧
        s'.currentTick = s.currentTick ∧ s'.liquidity = s.liquidity := by simpa using hland
    rw [hp, ht, hl, hcounts]

/-- **Main theorem.** A quote returns the state of a coherent pool exactly when its last rung
    lands in the range of its tick. -/
theorem settlesRight_iff (hs : Coherent pool) (hx : amountIn < 2 ^ 128)
    (h : quoteV3ExactInPost pool amountIn direction = some post) :
    SettlesRight pool direction post ↔
      ∃ r ∈ (rungs pool direction amountIn).getLast?, LandsRight pool direction r := by
  rw [quoteV3ExactInPost_eq hx] at h
  split_ifs at h with href hout
  have hpost := Option.some.inj h
  have hne : quoteTurns pool direction amountIn ≠ [] := by
    intro hnil
    have hrungs := map_view_quoteTurns pool direction hx
    rw [hnil, List.map_nil] at hrungs
    refine hout (.inl ?_)
    unfold paidOut
    rw [← hrungs]
    rfl
  obtain ⟨⟨s, s'⟩, hlast⟩ : ∃ turn, (quoteTurns pool direction amountIn).getLast? = some turn :=
    ⟨_, List.getLast?_eq_some_getLast hne⟩
  obtain ⟨hrung, hend, hland⟩ := quoteEnd_eq_landing hx hlast
  have hmem := List.mem_of_getLast? hlast
  obtain ⟨hsettled, -, hmoves⟩ := settled_of_mem_turns hs hx _ hmem
  have hon (hside : ¬(direction = .zeroForOne ∧ Initialized pool.ticks pool.tick)) :
      OnLadder pool direction s.sqrtPrice s.currentTick s.liquidity :=
    (onLadder_of_mem_turns (s := quoteStart pool amountIn) hs
      (hs.onLadder fun hdown hinit => hside ⟨hdown, hinit⟩) hx _ hmem).1
  have hiff := landing_right_iff hs hsettled hon hmoves hland
  have hbetween := walkEnd_price_mem (s := quoteStart pool amountIn) hs.sized direction
    (pool.ticks.size + 2) hs.price_lt hs.sized.liquidity_lt hx
  change (quoteEnd pool direction amountIn).sqrtPrice ∈ Set.uIcc pool.sqrtPriceX96 _ at hbetween
  rw [hend] at hbetween hpost
  rw [hrung]
  simp only [Option.mem_def, Option.some.injEq, exists_eq_left']
  subst hpost
  rw [← hiff]
  constructor
  · rintro ⟨hcoherent, -⟩
    obtain ⟨pool', hpool', hcoherent⟩ := hcoherent (.uniswapV3 pool) rfl
    rw [concentrated_applyPostState] at hpool'
    obtain rfl := Option.some.inj hpool'
    exact (coherent_settle_iff hs).mp hcoherent
  · intro hright
    refine ⟨fun p hp => ?_, hbetween⟩
    rw [concentrated_applyPostState, hp]
    exact ⟨_, rfl, (coherent_settle_iff hs).mpr hright⟩

/-- A small swap of `gapPool` upwards, which stays in the range of the tick 0. -/
theorem gap_up_settlesRight :
    SettlesRight gapPool .oneForZero ⟨996999, 79228241504742364315088531099, 0, 10 ^ 12⟩ ↔
      ∃ r ∈ (rungs gapPool .oneForZero (10 ^ 6)).getLast?, LandsRight gapPool .oneForZero r :=
  settlesRight_iff gapPool_coherent (by decide) (by decide +kernel)

/-- The same swap downwards takes the price below the range of the tick 0, which the quote
    returns. -/
theorem gap_down_not_settled : Coherent gapPool ∧
    quoteV3ExactInPost gapPool (10 ^ 6) .zeroForOne =
      some ⟨996999, 79228083523865064300074843161, 0, 10 ^ 12⟩ ∧
    ¬SettlesRight gapPool .zeroForOne ⟨996999, 79228083523865064300074843161, 0, 10 ^ 12⟩ := by
  refine ⟨gapPool_coherent, by decide +kernel, fun h => ?_⟩
  obtain ⟨pool', hpool', hcoherent⟩ := h.coherent (.uniswapV3 gapPool) rfl
  rw [concentrated_applyPostState] at hpool'
  obtain rfl := Option.some.inj hpool'
  have hlo := ((coherent_settle_iff gapPool_coherent).mp hcoherent).2.price_lo
  revert hlo
  decide +kernel

end MevScout.Pool.Math
