import MevScout.Common.Potential
import MevScout.Pool.Liquidity
import MevScout.Pool.Math.Band
import MevScout.Pool.Sim

/-!
# Sequences of paper swaps on one pool

A paper swap quotes a concentrated-liquidity pool with `quote_swap_post` and writes the
post-state back with `apply_post_state`. A swap that stays in its liquidity band, and whose
fee covers the rounding of the new price, is covered by the two potentials of a constant
product; a sequence of such swaps creates no value.

A swap that crosses a tick leaves `tick` at the crossed tick. The search for the next tick
compares strictly, so a swap the other way does not find that tick again, and trades with
the liquidity of its far side.

Results:
* `covered_paperSwap`: one swap that meets the condition is covered;
* `covered_run`: a run of such swaps is covered;
* `no_value_created`: no such run gives value for nothing, and no round trip made of two
  such swaps returns more than it took in;
* `crossed_tick_creates_value`: a round trip across an initialized tick that does.
-/

namespace MevScout.Pool

open Math

/-- A swap of `amountIn` of one token of the pool for the other. -/
structure PaperSwap where
  direction : V3Direction
  amountIn : ℕ
  deriving DecidableEq

/-- The tokens that a swap takes in and gives out. -/
def tokenIn (info : PoolInfo) : V3Direction → Address
  | .zeroForOne => info.token0
  | .oneForZero => info.token1

def tokenOut (info : PoolInfo) : V3Direction → Address
  | .zeroForOne => info.token1
  | .oneForZero => info.token0

/-- The amounts of token0 and token1 that a swap gives the trader. -/
def exchanged (direction : V3Direction) (amountIn amountOut : ℤ) : ℤ × ℤ :=
  match direction with
  | .zeroForOne => (-amountIn, amountOut)
  | .oneForZero => (amountOut, -amountIn)

/-- A pool, and what a trader has got out of it so far. -/
structure Desk where
  pool : PoolState
  gain : ℤ × ℤ := 0

/-- One paper swap. A swap without a quote is not made. -/
def paperSwap (d : Desk) (sw : PaperSwap) : Except Panic Desk :=
  match quoteSwapPost d.pool (tokenIn d.pool.info sw.direction) sw.amountIn
    (tokenOut d.pool.info sw.direction) with
  | none => .ok d
  | some (amountOut, post) => .ok
      { pool := applyPostState d.pool post
        gain := d.gain + exchanged sw.direction sw.amountIn amountOut }

/-- The fields of a pool that trades: a price of 160 bits and a liquidity of 128 bits, for
    two tokens. -/
structure Trading (s : UniswapV3PoolState) : Prop where
  price_pos : 0 < s.sqrtPriceX96
  price_lt : s.sqrtPriceX96 < 2 ^ 160
  liquidity_lt : s.liquidity < 2 ^ 128
  tokens : s.info.token0 ≠ s.info.token1

/-- The fee on a token0 input covers what the rounding of the new price gives away: the
    price, rounded down, is no lower than the whole input would make it without rounding. -/
def FeeCoversRounding (s : UniswapV3PoolState) (amountIn : ℕ) : Prop :=
  s.liquidity * q96 * s.sqrtPriceX96 ≤
    priceAfter0 s.sqrtPriceX96 s.liquidity (amountAfterFee s.info.feeTier amountIn) *
      (s.liquidity * q96 + amountIn * s.sqrtPriceX96)

instance (s : UniswapV3PoolState) (amountIn : ℕ) : Decidable (FeeCoversRounding s amountIn) :=
  inferInstanceAs (Decidable (_ ≤ _))

/-- The condition on a swap and the pool before it. -/
def SafeSwap (d : Desk) (sw : PaperSwap) : Prop :=
  ∀ s, concentrated d.pool = some s → InBand s sw.direction sw.amountIn ∧
    (sw.direction = .zeroForOne → FeeCoversRounding s sw.amountIn)

/-! ## The potentials of a band -/

/-- What the pool owes of token0 at a price, up to a constant. -/
def potential0 (L p : ℕ) : ℚ := L * q96 / p

/-- What the pool owes of token1 at a price. -/
def potential1 (L p : ℕ) : ℚ := L * p / q96

theorem potential0_strictAntiOn {L : ℕ} (hL : 0 < L) :
    StrictAntiOn (potential0 L) {p | 0 < p} := by
  intro p hp q _ hlt
  have hp' : (0 : ℚ) < p := by exact_mod_cast hp
  have hlt' : (p : ℚ) < q := by exact_mod_cast hlt
  have hN : (0 : ℚ) < L * q96 := by unfold q96; positivity
  exact div_lt_div_of_pos_left hN hp' hlt'

theorem potential1_strictMonoOn {L : ℕ} (hL : 0 < L) :
    StrictMonoOn (potential1 L) {p | 0 < p} := by
  intro p _ q _ hlt
  have hlt' : (p : ℚ) < q := by exact_mod_cast hlt
  have hL' : (0 : ℚ) < L := by exact_mod_cast hL
  unfold potential1 q96
  gcongr

variable {s : UniswapV3PoolState} {amountIn : ℕ}

/-- Token0 in, at a price that the fee keeps high enough. -/
theorem covered_zeroForOne (hs : Trading s) (h : InBand s .zeroForOne amountIn)
    (hfee : FeeCoversRounding s amountIn) {y : ℕ}
    (hy : y ≤ amountOut true s.sqrtPriceX96 (bandPrice s .zeroForOne amountIn) s.liquidity) :
    Covered (potential0 s.liquidity) (potential1 s.liquidity) s.sqrtPriceX96
      (-(amountIn : ℚ), (y : ℚ)) (bandPrice s .zeroForOne amountIn) := by
  obtain ⟨hlo, hhi⟩ := bandPrice_zeroForOne hs.liquidity_lt hs.price_lt h
  have hround : s.liquidity * q96 * s.sqrtPriceX96 ≤ bandPrice s .zeroForOne amountIn *
      (s.liquidity * q96 + amountIn * s.sqrtPriceX96) :=
    hfee.trans (Nat.mul_le_mul_right _ (nextPrice_zeroForOne hs.liquidity_lt hs.price_lt).1)
  have hout : y * q96 ≤ s.liquidity * (s.sqrtPriceX96 - bandPrice s .zeroForOne amountIn) :=
    (Nat.mul_le_mul_right _ hy).trans (amountOut_zeroForOne hhi)
  have hp := hs.price_pos
  generalize bandPrice s .zeroForOne amountIn = q at *
  have hq : 0 < q := by omega
  have hround' : (s.liquidity * q96 * s.sqrtPriceX96 : ℚ) ≤
      q * (s.liquidity * q96 + amountIn * s.sqrtPriceX96) := by exact_mod_cast hround
  have hout' : (y * q96 : ℚ) ≤ s.liquidity * (s.sqrtPriceX96 - q) := by
    rw [← Nat.cast_sub hhi]; exact_mod_cast hout
  have hp' : (0 : ℚ) < s.sqrtPriceX96 := by exact_mod_cast hp
  have hq' : (0 : ℚ) < q := by exact_mod_cast hq
  have hQ : (0 : ℚ) < q96 := by unfold q96; positivity
  constructor
  · show -(amountIn : ℚ) ≤ potential0 _ _ - potential0 _ _
    have : (s.liquidity * q96 / q : ℚ) ≤ s.liquidity * q96 / s.sqrtPriceX96 + amountIn := by
      rw [div_add' _ _ _ hp'.ne', div_le_div_iff₀ hq' hp']
      linarith
    unfold potential0
    linarith
  · show (y : ℚ) ≤ potential1 _ _ - potential1 _ _
    unfold potential1
    rw [← sub_div, le_div_iff₀ hQ]
    linarith

/-- Token1 in. -/
theorem covered_oneForZero (hs : Trading s) (h : InBand s .oneForZero amountIn) {y : ℕ}
    (hy : y ≤ amountOut false s.sqrtPriceX96 (bandPrice s .oneForZero amountIn) s.liquidity) :
    Covered (potential0 s.liquidity) (potential1 s.liquidity) s.sqrtPriceX96
      ((y : ℚ), -(amountIn : ℚ)) (bandPrice s .oneForZero amountIn) := by
  obtain ⟨hlo, hhi⟩ := bandPrice_oneForZero hs.price_lt h
  have htarget := swapTarget_oneForZero_lt hs.price_lt
  have hprice : priceAfter1 s.sqrtPriceX96 s.liquidity (amountAfterFee s.info.feeTier amountIn) <
      2 ^ 160 := lt_trans h.price htarget
  have hmove : s.liquidity * (bandPrice s .oneForZero amountIn - s.sqrtPriceX96) ≤
      amountIn * q96 := by
    have hle : bandPrice s .oneForZero amountIn - s.sqrtPriceX96 ≤
        amountAfterFee s.info.feeTier amountIn * q96 / s.liquidity := by
      have := (nextPrice_oneForZero hprice).2
      unfold priceAfter1 at this
      exact Nat.sub_le_of_le_add (by rw [Nat.add_comm]; exact this)
    calc s.liquidity * (bandPrice s .oneForZero amountIn - s.sqrtPriceX96)
        ≤ s.liquidity * (amountAfterFee s.info.feeTier amountIn * q96 / s.liquidity) :=
          Nat.mul_le_mul_left _ hle
      _ ≤ amountAfterFee s.info.feeTier amountIn * q96 := Nat.mul_div_le _ _
      _ ≤ amountIn * q96 := Nat.mul_le_mul_right _ (Nat.sub_le _ _)
  have hout : y * (s.sqrtPriceX96 * bandPrice s .oneForZero amountIn) ≤
      s.liquidity * q96 * (bandPrice s .oneForZero amountIn - s.sqrtPriceX96) :=
    (Nat.mul_le_mul_right _ hy).trans (amountOut_oneForZero hs.liquidity_lt hlo)
  have hp := hs.price_pos
  generalize bandPrice s .oneForZero amountIn = q at *
  have hmove' : (s.liquidity * (q - s.sqrtPriceX96) : ℚ) ≤ amountIn * q96 := by
    rw [← Nat.cast_sub hlo]; exact_mod_cast hmove
  have hout' : (y * (s.sqrtPriceX96 * q) : ℚ) ≤ s.liquidity * q96 * (q - s.sqrtPriceX96) := by
    rw [← Nat.cast_sub hlo]; exact_mod_cast hout
  have hp' : (0 : ℚ) < s.sqrtPriceX96 := by exact_mod_cast hp
  have hq' : (0 : ℚ) < q := by exact_mod_cast lt_of_lt_of_le hp hlo
  have hQ : (0 : ℚ) < q96 := by unfold q96; positivity
  constructor
  · show (y : ℚ) ≤ potential0 _ _ - potential0 _ _
    unfold potential0
    rw [div_sub_div _ _ hp'.ne' hq'.ne', le_div_iff₀ (mul_pos hp' hq')]
    linarith
  · show -(amountIn : ℚ) ≤ potential1 _ _ - potential1 _ _
    have : (s.liquidity * q / q96 - s.liquidity * s.sqrtPriceX96 / q96 : ℚ) ≤ amountIn := by
      rw [← sub_div, div_le_iff₀ hQ]
      linarith
    unfold potential1
    linarith

/-! ## Runs of swaps -/

variable {p : PoolState} {d d' : Desk} {sw : PaperSwap}

theorem info_of_concentrated (h : concentrated p = some s) : p.info = s.info := by
  cases p <;> cases h <;> rfl

theorem forInputToken_tokenIn {info : PoolInfo} (htok : info.token0 ≠ info.token1)
    (direction : V3Direction) :
    V3Direction.forInputToken (tokenIn info direction) info.token0 = direction := by
  unfold V3Direction.forInputToken
  cases direction with
  | zeroForOne => exact if_pos rfl
  | oneForZero => exact if_neg htok.symm

/-- A quote for a concentrated-liquidity pool is one of `quoteV3ExactInPost`. -/
theorem quoteSwapPost_eq_some {direction : V3Direction} {y : ℕ} {post : PoolPostState}
    (hs : concentrated p = some s) (htok : s.info.token0 ≠ s.info.token1)
    (h : quoteSwapPost p (tokenIn p.info direction) amountIn (tokenOut p.info direction) =
      some (y, post)) :
    ∃ q, quoteV3ExactInPost s amountIn direction = some q ∧ y = q.amountOut ∧
      post = .v3Family q.sqrtPriceX96 q.tick q.liquidity := by
  have hv3 : quoteV3Post s (tokenIn s.info direction) amountIn (tokenOut s.info direction) =
      some (y, post) := by
    rw [info_of_concentrated hs] at h
    unfold quoteSwapPost at h
    split_ifs at h
    cases p <;> cases hs <;> exact h
  unfold quoteV3Post at hv3
  rw [forInputToken_tokenIn htok] at hv3
  dsimp only at hv3
  have hmap : (quoteV3ExactInPost s amountIn direction).map (fun post =>
      (post.amountOut, PoolPostState.v3Family post.sqrtPriceX96 post.tick post.liquidity)) =
      some (y, post) := by
    split_ifs at hv3 <;> exact hv3
  obtain ⟨q, hq, hpair⟩ := Option.map_eq_some_iff.mp hmap
  cases hpair
  exact ⟨q, hq, rfl, rfl⟩

/-- A trader's gain, as rational amounts. -/
def ratGain (g : ℤ × ℤ) : ℚ × ℚ := (g.1, g.2)

theorem ratGain_add (g h : ℤ × ℤ) : ratGain (g + h) = ratGain g + ratGain h := by
  simp [ratGain]

theorem gain_ratGain_iff (g : ℤ × ℤ) : Gain (ratGain g) ↔ Gain g := by
  simp [Gain, ratGain]

/-- The pool of a desk trades with liquidity `L`, and the gain is covered by the fall of the
    potentials since the price `p₀`. -/
def CoveredSince (p₀ L : ℕ) (d : Desk) : Prop :=
  ∃ s, concentrated d.pool = some s ∧ Trading s ∧ s.liquidity = L ∧
    Covered (potential0 L) (potential1 L) p₀ (ratGain d.gain) s.sqrtPriceX96

/-- **One swap.** A swap that meets the condition is covered. -/
theorem covered_paperSwap {p₀ L : ℕ} (hd : CoveredSince p₀ L d) (hsafe : SafeSwap d sw)
    (hlt : sw.amountIn < 2 ^ 128) (h : paperSwap d sw = .ok d') : CoveredSince p₀ L d' := by
  obtain ⟨s, hs, htrade, rfl, hcov⟩ := hd
  obtain ⟨hband, hfee⟩ := hsafe s hs
  unfold paperSwap at h
  split at h
  · obtain rfl := Except.ok.inj h
    exact ⟨s, hs, htrade, rfl, hcov⟩
  · rename_i y post hquote
    obtain rfl := Except.ok.inj h
    obtain ⟨q, hq, rfl, rfl⟩ := quoteSwapPost_eq_some hs htrade.tokens hquote
    obtain ⟨hprice, htick, hliq, hout⟩ :=
      quoteV3ExactInPost_inBand htrade.liquidity_lt htrade.price_lt hlt hband hq
    refine ⟨{ s with sqrtPriceX96 := q.sqrtPriceX96, tick := q.tick, liquidity := q.liquidity },
      ?_, ?_, hliq, ?_⟩
    · show concentrated (d.pool.mapConcentrated _) = _
      rw [concentrated_mapConcentrated, hs]
      rfl
    · -- The price stays positive and below 160 bits on either side.
      refine ⟨?_, ?_, by rw [hliq]; exact htrade.liquidity_lt, htrade.tokens⟩ <;>
        dsimp only <;> rw [hprice]
      · cases hdir : sw.direction with
        | zeroForOne =>
          have := bandPrice_zeroForOne htrade.liquidity_lt htrade.price_lt (hdir ▸ hband)
          omega
        | oneForZero =>
          have := bandPrice_oneForZero htrade.price_lt (hdir ▸ hband)
          exact lt_of_lt_of_le htrade.price_pos this.1
      · cases hdir : sw.direction with
        | zeroForOne =>
          have := bandPrice_zeroForOne htrade.liquidity_lt htrade.price_lt (hdir ▸ hband)
          exact lt_of_le_of_lt this.2 htrade.price_lt
        | oneForZero =>
          have := bandPrice_oneForZero htrade.price_lt (hdir ▸ hband)
          exact this.2.trans (swapTarget_oneForZero_lt htrade.price_lt)
    · dsimp only
      rw [ratGain_add, hprice]
      refine hcov.trans ?_
      cases hdir : sw.direction with
      | zeroForOne =>
        rw [hdir] at hband hout
        have := covered_zeroForOne htrade hband (hfee hdir) hout
        simpa [ratGain, exchanged] using this
      | oneForZero =>
        rw [hdir] at hband hout
        have := covered_oneForZero htrade hband hout
        simpa [ratGain, exchanged] using this

/-- **The run lemma.** A run of swaps that meet the condition is covered. -/
theorem covered_run {p₀ L : ℕ} {swaps : List PaperSwap} (hd : CoveredSince p₀ L d)
    (hlt : ∀ sw ∈ swaps, sw.amountIn < 2 ^ 128) (hC : Meets paperSwap SafeSwap d swaps)
    (h : swaps.foldlM paperSwap d = .ok d') : CoveredSince p₀ L d' := by
  refine run_induct_of_meets (I := CoveredSince p₀ L) ?_ hC h hd
  intro sw hsw d d' hd hsafe hstep
  exact covered_paperSwap hd hsafe (hlt sw hsw) hstep

/-- A covered desk has gained nothing for nothing. -/
theorem not_gain_of_coveredSince {p₀ L : ℕ} (hp₀ : 0 < p₀) (hd : CoveredSince p₀ L d) :
    ¬Gain d.gain := by
  obtain ⟨s, -, htrade, -, hcov⟩ := hd
  rw [← gain_ratGain_iff]
  rcases Nat.eq_zero_or_pos L with rfl | hL
  · rintro ⟨-, -, hpos⟩
    have h₀ := hcov.fst
    have h₁ := hcov.snd
    simp only [potential0, potential1, Nat.cast_zero, zero_mul, zero_div, sub_zero] at h₀ h₁
    rcases hpos with hpos | hpos
    · exact absurd hpos (not_lt.mpr h₀)
    · exact absurd hpos (not_lt.mpr h₁)
  · exact hcov.not_gain (potential0_strictAntiOn hL) (potential1_strictMonoOn hL) hp₀
      htrade.price_pos

theorem paperSwap_total (d : Desk) (swaps : List PaperSwap) :
    ∃ d', swaps.foldlM paperSwap d = .ok d' := by
  induction swaps generalizing d with
  | nil => exact ⟨d, rfl⟩
  | cons sw swaps ih =>
    obtain ⟨d₁, h₁⟩ : ∃ d₁, paperSwap d sw = .ok d₁ := by
      unfold paperSwap
      split <;> exact ⟨_, rfl⟩
    obtain ⟨d', h⟩ := ih d₁
    exact ⟨d', by rw [List.foldlM_cons, h₁]; exact h⟩

theorem amountOut_lt {direction : V3Direction} {post : V3QuotePostState}
    (h : quoteV3ExactInPost s amountIn direction = some post) : post.amountOut < 2 ^ 64 := by
  unfold quoteV3ExactInPost at h
  split_ifs at h
  obtain ⟨t, -, ht⟩ := Option.bind_eq_some_iff.mp h
  split_ifs at ht with _ hlt
  obtain rfl := Option.some.inj ht
  exact hlt

/-- The other direction. -/
def reverse : V3Direction → V3Direction
  | .zeroForOne => .oneForZero
  | .oneForZero => .zeroForOne

theorem tokenIn_reverse (info : PoolInfo) (direction : V3Direction) :
    tokenIn info (reverse direction) = tokenOut info direction := by
  cases direction <;> rfl

theorem tokenOut_reverse (info : PoolInfo) (direction : V3Direction) :
    tokenOut info (reverse direction) = tokenIn info direction := by
  cases direction <;> rfl

theorem info_applyPostState (p : PoolState) (post : PoolPostState) :
    (applyPostState p post).info = p.info := by
  cases post <;> cases p <;> rfl

/-- A run of swaps that meet the condition gives the trader nothing for nothing. -/
theorem not_gain_of_meets {swaps : List PaperSwap} (hs : concentrated p = some s)
    (htrade : Trading s) (hlt : ∀ sw ∈ swaps, sw.amountIn < 2 ^ 128)
    (hC : Meets paperSwap SafeSwap { pool := p } swaps)
    (h : swaps.foldlM paperSwap { pool := p } = .ok d') : ¬Gain d'.gain := by
  have hstart : CoveredSince s.sqrtPriceX96 s.liquidity { pool := p } := by
    refine ⟨s, hs, htrade, rfl, ?_⟩
    have hzero : ratGain 0 = 0 := by simp [ratGain]
    rw [show (Desk.mk p 0).gain = 0 from rfl, hzero]
    exact Covered.refl _ _ _
  exact not_gain_of_coveredSince htrade.price_pos (covered_run hstart hlt hC h)

/-- A round trip made of two swaps that meet the condition returns no more than it took. -/
theorem round_trip_le {direction : V3Direction} {x y z : ℕ} {post post' : PoolPostState}
    (hs : concentrated p = some s) (htrade : Trading s) (hx : x < 2 ^ 128)
    (hsafe : SafeSwap { pool := p } ⟨direction, x⟩)
    (h : quoteSwapPost p (tokenIn p.info direction) x (tokenOut p.info direction) =
      some (y, post))
    (hsafe' : SafeSwap { pool := applyPostState p post } ⟨reverse direction, y⟩)
    (h' : quoteSwapPost (applyPostState p post) (tokenOut p.info direction) y
      (tokenIn p.info direction) = some (z, post')) : z ≤ x := by
  obtain ⟨q, hq, rfl, -⟩ := quoteSwapPost_eq_some hs htrade.tokens h
  have hy := amountOut_lt hq
  have hstep : paperSwap { pool := p } ⟨direction, x⟩ =
      .ok ⟨applyPostState p post, 0 + exchanged direction x q.amountOut⟩ := by
    unfold paperSwap
    dsimp only
    rw [h]
  have hstep' : paperSwap ⟨applyPostState p post, 0 + exchanged direction x q.amountOut⟩
      ⟨reverse direction, q.amountOut⟩ = .ok ⟨applyPostState (applyPostState p post) post',
        0 + exchanged direction x q.amountOut +
          exchanged (reverse direction) q.amountOut z⟩ := by
    unfold paperSwap
    dsimp only
    rw [info_applyPostState, tokenIn_reverse, tokenOut_reverse, h']
  have hC : Meets paperSwap SafeSwap { pool := p }
      [⟨direction, x⟩, ⟨reverse direction, q.amountOut⟩] := by
    refine ⟨hsafe, fun d₁ h₁ => ⟨?_, fun _ _ => trivial⟩⟩
    rw [hstep] at h₁
    obtain rfl := Except.ok.inj h₁
    exact hsafe'
  have hrun : [⟨direction, x⟩, ⟨reverse direction, q.amountOut⟩].foldlM paperSwap { pool := p } =
      .ok ⟨applyPostState (applyPostState p post) post', 0 + exchanged direction x q.amountOut +
        exchanged (reverse direction) q.amountOut z⟩ := by
    rw [List.foldlM_cons, hstep]
    change (paperSwap _ _ >>= fun _ => _) = _
    rw [hstep']
    rfl
  have hlt : ∀ sw ∈ [PaperSwap.mk direction x, ⟨reverse direction, q.amountOut⟩],
      sw.amountIn < 2 ^ 128 := by
    intro sw hsw
    simp only [List.mem_cons, List.not_mem_nil, or_false] at hsw
    rcases hsw with rfl | rfl
    · exact hx
    · exact hy.trans (by norm_num)
  have hno := not_gain_of_meets hs htrade hlt hC hrun
  by_contra hzx
  apply hno
  cases direction with
  | zeroForOne => simp only [Gain, reverse, exchanged, Prod.fst_add, Prod.snd_add]; simp; omega
  | oneForZero => simp only [Gain, reverse, exchanged, Prod.fst_add, Prod.snd_add]; simp; omega

/-- **Main theorem.** On a trading pool, a sequence of paper swaps that all meet the
    condition gives the trader nothing for nothing after any number of swaps, and two such
    swaps, there and back, return no more than they took in. -/
theorem no_value_created (hs : concentrated p = some s) (htrade : Trading s) :
    (∀ swaps : List PaperSwap, (∀ sw ∈ swaps, sw.amountIn < 2 ^ 128) →
      Meets paperSwap SafeSwap { pool := p } swaps → ∀ pre, pre <+: swaps →
      ∃ d', pre.foldlM paperSwap { pool := p } = .ok d' ∧ ¬Gain d'.gain) ∧
    ∀ (direction : V3Direction) (x y z : ℕ) (post post' : PoolPostState), x < 2 ^ 128 →
      SafeSwap { pool := p } ⟨direction, x⟩ →
      quoteSwapPost p (tokenIn p.info direction) x (tokenOut p.info direction) =
        some (y, post) →
      SafeSwap { pool := applyPostState p post } ⟨reverse direction, y⟩ →
      quoteSwapPost (applyPostState p post) (tokenOut p.info direction) y
        (tokenIn p.info direction) = some (z, post') → z ≤ x := by
  refine ⟨?_, fun direction x y z post post' hx hsafe h hsafe' h' =>
    round_trip_le hs htrade hx hsafe h hsafe' h'⟩
  intro swaps hlt hC pre hpre
  obtain ⟨d', h⟩ := paperSwap_total { pool := p } pre
  exact ⟨d', h, not_gain_of_meets hs htrade (fun sw hsw => hlt sw (hpre.subset hsw))
    (hC.of_prefix hpre) h⟩

/-! ## Round trips -/

/-- A pool at price 1 with one position of liquidity `10 ^ 12` over `[-600, 600)`. -/
def bandPool : UniswapV3PoolState :=
  { info := { address := 1, token0 := 2, token1 := 3, fee := 3000, dexType := .uniswapV3 }
    sqrtPriceX96 := 2 ^ 96
    liquidity := 10 ^ 12
    ticks := ((∅ : TickMap).insert (-600) (10 ^ 12)).insert 600 (-10 ^ 12) }

/-- The post-state of a swap of `10 ^ 6` of token0 in `bandPool`. -/
def bandPost : PoolPostState := .v3Family 79228083523865064300074843161 0 (10 ^ 12)

theorem safeSwap_bandPool : SafeSwap { pool := .uniswapV3 bandPool } ⟨.zeroForOne, 10 ^ 6⟩ := by
  intro s hs
  obtain rfl := Option.some.inj hs
  exact ⟨by decide, fun _ => by decide⟩

theorem safeSwap_bandPool_back :
    SafeSwap { pool := applyPostState (.uniswapV3 bandPool) bandPost } ⟨.oneForZero, 996999⟩ := by
  intro s hs
  obtain rfl := Option.some.inj hs
  exact ⟨by decide, fun h => by cases h⟩

/-- A swap of `10 ^ 6` of token0 inside the position, and back: 994008 return. -/
theorem no_value_created_bandPool :
    (∃ d', [⟨.zeroForOne, 10 ^ 6⟩].foldlM paperSwap { pool := .uniswapV3 bandPool } = .ok d' ∧
      ¬Gain d'.gain) ∧
    quoteSwapPost (.uniswapV3 bandPool) 2 (10 ^ 6) 3 = some (996999, bandPost) ∧
    (quoteSwapPost (applyPostState (.uniswapV3 bandPool) bandPost) 3 996999 2).map Prod.fst =
      some 994008 ∧ 994008 ≤ 10 ^ 6 := by
  have htrade : Trading bandPool := ⟨by decide, by decide, by decide, by decide⟩
  have hall := no_value_created (p := .uniswapV3 bandPool) rfl htrade
  have hquote : quoteSwapPost (.uniswapV3 bandPool) 2 (10 ^ 6) 3 = some (996999, bandPost) := by
    decide +kernel
  have hback : (quoteSwapPost (applyPostState (.uniswapV3 bandPool) bandPost) 3 996999 2).map
      Prod.fst = some 994008 := by decide +kernel
  obtain ⟨⟨z, post'⟩, h', hz⟩ := Option.map_eq_some_iff.mp hback
  obtain rfl : z = 994008 := hz
  refine ⟨?_, hquote, hback, ?_⟩
  · refine hall.1 [⟨.zeroForOne, 10 ^ 6⟩] ?_ ⟨safeSwap_bandPool, fun _ _ => trivial⟩ _
      (List.prefix_refl _)
    intro sw hsw
    obtain rfl := List.mem_singleton.mp hsw
    norm_num
  · exact hall.2 .zeroForOne (10 ^ 6) 996999 994008 bandPost post' (by norm_num) safeSwap_bandPool
      hquote safeSwap_bandPool_back h'

/-- A pool at tick 300 whose liquidity is `10 ^ 9` there and 1001 times as much below the
    initialized tick 0. -/
def steepPool : UniswapV3PoolState :=
  { info := { address := 1, token0 := 2, token1 := 3, fee := 3000, dexType := .uniswapV3 }
    sqrtPriceX96 := 80425482538613550732120052346
    tick := 300
    liquidity := 10 ^ 9
    ticks :=
      (((∅ : TickMap).insert (-600) (1001 * 10 ^ 9)).insert 0 (-10 ^ 12)).insert 600 (-10 ^ 9) }

/-- The post-state of a swap of `2 * 10 ^ 7` of token0 in `steepPool`. -/
def steepPost : PoolPostState := .v3Family 79227762591276998339876359218 0 (1001 * 10 ^ 9)

/-- A swap down across tick 0 leaves the pool at tick 0. The swap back starts there, does
    not find tick 0 again, and goes on with the liquidity below it: 20104391 come back for
    20000000. -/
theorem crossed_tick_creates_value :
    WellFormed steepPool ∧ Trading steepPool ∧
    getSqrtRatioAtTick 300 ≤ steepPool.sqrtPriceX96 ∧
    steepPool.sqrtPriceX96 < getSqrtRatioAtTick 301 ∧
    quoteSwapPost (.uniswapV3 steepPool) 2 20000000 3 = some (20165088, steepPost) ∧
    (quoteSwapPost (applyPostState (.uniswapV3 steepPool) steepPost) 3 20165088 2).map Prod.fst =
      some 20104391 ∧ 20000000 < 20104391 := by
  refine ⟨by decide +kernel, ⟨by decide, by decide, by decide, by decide⟩, by decide +kernel,
    by decide +kernel, by decide +kernel, by decide +kernel, by decide⟩

/-- A pool without a fee at price 1, with liquidity `2 ^ 100` over `[-600, 600)`. -/
def feelessPool : UniswapV3PoolState :=
  { info := { address := 1, token0 := 2, token1 := 3, dexType := .uniswapV3 }
    sqrtPriceX96 := 2 ^ 96
    liquidity := 2 ^ 100
    ticks := ((∅ : TickMap).insert (-600) (2 ^ 100)).insert 600 (-2 ^ 100) }

/-- Without a fee to cover the rounding, a swap of 1 takes the price down by one unit, which
    is worth 16, and the swap back returns 16. -/
theorem rounding_creates_value :
    WellFormed feelessPool ∧
    quoteSwapPost (.uniswapV3 feelessPool) 2 1 3 =
      some (16, .v3Family (2 ^ 96 - 1) 0 (2 ^ 100)) ∧
    (quoteSwapPost (applyPostState (.uniswapV3 feelessPool) (.v3Family (2 ^ 96 - 1) 0 (2 ^ 100)))
      3 16 2).map Prod.fst = some 16 := by
  refine ⟨by decide, by decide, by decide⟩

end MevScout.Pool
