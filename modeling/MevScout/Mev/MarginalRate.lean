import MevScout.Common.Float64
import MevScout.Pool.Types

/-!
# Marginal exchange rates in floating point

`marginal_exchange_rate` (`core/src/mev/detectors/multi_hop.rs`) is what the search for cycles
multiplies around a cycle: the output for an input of size zero, as an `f64`. Every rate of a pool
is a quotient of two of its amounts, less the fee. So a pool gives the two directions of a pair
rates whose product is at most 1, but for the roundings.

Results:
* `keptFactor_le`, `spotRatio_bounds`: the fee factor and the quotient of two amounts;
* `marginalExchangeRate_there_and_back`: **main theorem**, there and back through one pool;
* `round_of_marginalExchangeRate_eq`: a finite rate is a number of the format.
-/

namespace MevScout.Mev

open Pool F64

variable {fee : FeeTier} {pool : PoolState} {info : PoolInfo} {tokenIn tokenOut : Address}
  {a b : ℕ} {r s x y κ δ A B X Y : ℚ}

/-! ## Model -/

/-- Model of `FeeTier::kept_factor_f64` (`fee.rs`, lines 80–83). -/
def keptFactorF64 (fee : FeeTier) : F64 :=
  let (num, den) := fee.fraction
  .fin 1 - ofNat num / ofNat den

/-- The closure `ratio` of `marginal_exchange_rate`. -/
def spotRatio (reserveIn reserveOut : ℕ) : Option F64 :=
  if reserveIn = 0 ∨ reserveOut = 0 then none else some (ofNat reserveOut / ofNat reserveIn)

/-- The sides of a pool in the direction of a swap. -/
def directional (info : PoolInfo) (tokenIn tokenOut : Address) (side0 side1 : ℕ) :
    Option (ℕ × ℕ) :=
  if info.token0 = tokenIn ∧ info.token1 = tokenOut then some (side0, side1)
  else if info.token1 = tokenIn ∧ info.token0 = tokenOut then some (side1, side0)
  else none

/-- Model of `v2_directional_reserves` (lines 610–622). -/
def v2DirectionalReserves (v2 : UniswapV2PoolState) (tokenIn tokenOut : Address) :
    Option (ℕ × ℕ) :=
  directional v2.info tokenIn tokenOut v2.reserve0 v2.reserve1

/-- Model of `sqrt_price_ratio_f64` (lines 625–641). -/
def sqrtPriceRatioF64 (sqrtPriceX96 : ℕ) : Option F64 :=
  let limb (i : ℕ) : F64 := ofNat (sqrtPriceX96 / 2 ^ (64 * i) % 2 ^ 64)
  let s := limb 0 + limb 1 * .fin (2 ^ 64) + limb 2 * .fin (2 ^ 128) + limb 3 * .fin (2 ^ 192)
  if !s.isFinite ∨ s ≤ .fin 0 then none
  else
    let scaled := s / .fin (2 ^ 96)
    let price := scaled * scaled
    if price.isFinite ∧ price > .fin 0 then some price else none

/-- The arm of `marginal_exchange_rate` for the pools with a square-root price. -/
def sqrtPriceRate (p : UniswapV3PoolState) (tokenIn tokenOut : Address) : Option F64 :=
  if p.sqrtPriceX96 = 0 ∨ p.sqrtPriceX96 ≥ 2 ^ 200 then none
  else
    (sqrtPriceRatioF64 p.sqrtPriceX96).bind fun price01 =>
      let feeFactor := keptFactorF64 p.info.feeTier
      if p.info.token0 = tokenIn ∧ p.info.token1 = tokenOut then some (feeFactor * price01)
      else if p.info.token1 = tokenIn ∧ p.info.token0 = tokenOut then
        let inv := .fin 1 / price01
        if inv.isFinite ∧ inv > .fin 0 then some (feeFactor * inv) else none
      else none

/-- Model of `marginal_exchange_rate` (lines 510–608). -/
def marginalExchangeRate (pool : PoolState) (tokenIn tokenOut : Address) : Option F64 :=
  match pool with
  | .uniswapV2 v2 =>
    (v2DirectionalReserves v2 tokenIn tokenOut).bind fun (ri, ro) =>
      (spotRatio ri ro).map (keptFactorF64 v2.info.feeTier * ·)
  | .traderJoeLB lb =>
    (directional lb.info tokenIn tokenOut lb.reserveX lb.reserveY).bind fun (ri, ro) =>
      (spotRatio ri ro).map (keptFactorF64 lb.info.feeTier * ·)
  | .pendle p =>
    (directional p.info tokenIn tokenOut p.totalPt p.totalSy).bind fun (ti, tOut) =>
      spotRatio ti tOut
  | .uniswapV3 p | .uniswapV4 p | .pancakeInfinity p => sqrtPriceRate p tokenIn tokenOut
  | .curve c => do
    let i ← c.tokenIndex[tokenIn]?
    let j ← c.tokenIndex[tokenOut]?
    let bi ← c.balances[i]?
    let bj ← c.balances[j]?
    spotRatio bi bj
  | .balancer p => do
    let i ← p.tokenIndex[tokenIn]?
    let j ← p.tokenIndex[tokenOut]?
    let bi ← p.balances[i]?
    let bj ← p.balances[j]?
    let wi ← p.weights[i]?
    let wj ← p.weights[j]?
    if bi = 0 ∨ bj = 0 ∨ wi = 0 ∨ wj = 0 then none
    else
      let r := ofNat bj / ofNat bi * (ofNat wi / ofNat wj)
      if r.isFinite ∧ r > .fin 0 then some r else none
  | .metric _ | .fluid _ => none

/-! ## Roundings -/

theorem eta_mul_huge : eta * huge = 1 / 2 ^ 50 := by
  unfold eta huge
  rw [← zpow_add₀ two_ne_zero]
  norm_num

theorem epsilon_eq : epsilon = 1 / 2 ^ 52 := by
  unfold epsilon
  norm_num

/-- Two rates whose exact values are inverse to each other. -/
theorem mul_le_of_within (hs : 0 ≤ s) (hX : 0 ≤ X) (hXY : X * Y ≤ 1)
    (hδ : 0 ≤ δ) (hδle : δ ≤ 1 / 2 ^ 44) (hδXY : δ * (X + Y) ≤ 1 / 2 ^ 44)
    (hrX : r ≤ X * (1 + 8 * epsilon) + δ) (hsY : s ≤ Y * (1 + 8 * epsilon) + δ) :
    r * s ≤ 1 + 1 / 2 ^ 40 := by
  rw [epsilon_eq] at hrX hsY
  calc r * s ≤ (X * (1 + 8 * (1 / 2 ^ 52)) + δ) * (Y * (1 + 8 * (1 / 2 ^ 52)) + δ) := by gcongr
    _ = X * Y * (1 + 8 * (1 / 2 ^ 52)) ^ 2 + δ * (X + Y) * (1 + 8 * (1 / 2 ^ 52)) + δ * δ := by
      ring
    _ ≤ 1 * (1 + 8 * (1 / 2 ^ 52)) ^ 2 + 1 / 2 ^ 44 * (1 + 8 * (1 / 2 ^ 52)) +
        1 / 2 ^ 44 * (1 / 2 ^ 44) := by gcongr
    _ ≤ 1 + 1 / 2 ^ 40 := by norm_num

/-- What a factor of at most 1 leaves of a rounded value. -/
theorem within_of_kept (hκ : κ ≤ 1 + 2 * epsilon) (hy0 : 0 ≤ y) (hX : 0 ≤ X)
    (hy : y ≤ X * (1 + epsilon) + eta) (hr : nearest (κ * y) = r) :
    r ≤ X * (1 + 8 * epsilon) + 4 * eta := by
  have heta := eta_pos
  have heps := epsilon_pos
  rcases le_total κ 0 with hneg | hpos
  · have hle : nearest (κ * y) ≤ 0 := nearest_nonpos (mul_nonpos_of_nonpos_of_nonneg hneg hy0)
    have hpos : 0 ≤ X * (1 + 8 * epsilon) := by positivity
    linarith
  · rw [← hr]
    calc nearest (κ * y) ≤ κ * y * (1 + epsilon) + eta := nearest_le (mul_nonneg hpos hy0)
      _ ≤ (1 + 2 * epsilon) * (X * (1 + epsilon) + eta) * (1 + epsilon) + eta := by gcongr
      _ = X * ((1 + 2 * epsilon) * (1 + epsilon) ^ 2) +
          ((1 + 2 * epsilon) * (1 + epsilon) + 1) * eta := by ring
      _ ≤ X * (1 + 8 * epsilon) + 4 * eta := by
        rw [epsilon_eq]
        gcongr <;> norm_num

/-- The fee factor is at most 1. -/
theorem keptFactor_le (h : keptFactorF64 fee = .fin κ) : κ ≤ 1 + 2 * epsilon := by
  have heps := epsilon_pos
  have heta := eta_le_epsilon
  obtain ⟨one, x, hone, hx, hround⟩ := sub_eq_fin h
  cases hone
  obtain ⟨rfl, -⟩ := round_eq_fin.mp hround
  have hx0 : 0 ≤ x := by
    obtain ⟨c, d, hc, hd, -, hq⟩ | rfl := div_eq_fin hx
    · obtain ⟨rfl, -⟩ := round_eq_fin.mp hc
      obtain ⟨rfl, -⟩ := round_eq_fin.mp hd
      obtain ⟨rfl, -⟩ := round_eq_fin.mp hq
      refine nearest_nonneg (div_nonneg ?_ ?_) <;> exact nearest_nonneg (Nat.cast_nonneg _)
    · exact le_rfl
  rcases le_total (1 + -x) 0 with hneg | hpos
  · have := nearest_nonpos hneg
    linarith
  · have := nearest_le hpos
    have : (1 + -x) * (1 + epsilon) ≤ 1 * (1 + epsilon) := by
      gcongr
      linarith
    linarith

/-- A positive integer is rounded to a positive number. -/
theorem nearest_natCast (ha : a ≠ 0) : 1 / 2 ≤ nearest a := by
  have hone : (1 : ℚ) ≤ a := by exact_mod_cast Nat.one_le_iff_ne_zero.mpr ha
  have hle := le_nearest (zero_le_one.trans hone)
  have hetale := eta_le_epsilon
  have hprod : (1 : ℚ) * (1 - epsilon) ≤ a * (1 - epsilon) := by
    refine mul_le_mul_of_nonneg_right hone ?_
    rw [epsilon_eq]
    norm_num
  have heps : epsilon ≤ 1 / 8 := by
    rw [epsilon_eq]
    norm_num
  linarith

/-! ## Quotients of two amounts -/

/-- A rate is at most the quotient of two converted amounts, but for the roundings. -/
structure QuotientRate (A B r : ℚ) : Prop where
  input : 1 / 2 ≤ A ∧ A < huge
  output : 1 / 2 ≤ B ∧ B < huge
  le : r ≤ B / A * (1 + 8 * epsilon) + 4 * eta

/-- A quotient and its inverse. -/
theorem QuotientRate.there_and_back (h : QuotientRate A B r) (h' : QuotientRate B A s)
    (hs : 0 ≤ s) : r * s ≤ 1 + 1 / 2 ^ 40 := by
  obtain ⟨hA, hAlt⟩ := h.input
  obtain ⟨hB, hBlt⟩ := h.output
  have hA0 : 0 < A := by linarith
  have hB0 : 0 < B := by linarith
  have heta := eta_pos
  have hle {C D : ℚ} (hC : 1 / 2 ≤ C) (hD : D < huge) (hD0 : 0 < D) : D / C ≤ 2 * huge := by
    rw [div_le_iff₀ (by linarith)]
    nlinarith
  have hsum : 4 * eta * (B / A + A / B) ≤ 1 / 2 ^ 44 := by
    calc 4 * eta * (B / A + A / B) ≤ 4 * eta * (2 * huge + 2 * huge) := by
          gcongr
          · exact hle hA hBlt hB0
          · exact hle hB hAlt hA0
      _ = 16 * (eta * huge) := by ring
      _ ≤ 1 / 2 ^ 44 := by
        rw [eta_mul_huge]
        norm_num
  have hδ : 4 * eta ≤ 1 / 2 ^ 44 := by
    have := eta_le_epsilon
    rw [epsilon_eq] at this
    linarith
  refine mul_le_of_within hs (by positivity) ?_ (by positivity) hδ hsum h.le h'.le
  rw [div_mul_div_comm, mul_comm A B, div_self (by positivity)]

/-- The quotient of two amounts is a rate. -/
theorem spotRatio_bounds (h : spotRatio a b = some (.fin y)) : 0 ≤ y ∧
    (0 < y → 1 / 2 ≤ nearest a ∧ nearest a < huge ∧ 1 / 2 ≤ nearest b ∧ nearest b < huge ∧
      y ≤ nearest b / nearest a * (1 + epsilon) + eta) := by
  unfold spotRatio at h
  split_ifs at h with h0
  obtain ⟨ha, hb⟩ := not_or.mp h0
  have hA := nearest_natCast ha
  have hB := nearest_natCast hb
  have hA0 : 0 < nearest a := by linarith
  have hB0 : 0 < nearest b := by linarith
  obtain ⟨c, d, hc, hd, -, hq⟩ | rfl := div_eq_fin (Option.some.inj h)
  · obtain ⟨rfl, hBlt⟩ := round_eq_fin.mp hc
    obtain ⟨rfl, hAlt⟩ := round_eq_fin.mp hd
    obtain ⟨rfl, -⟩ := round_eq_fin.mp hq
    rw [abs_of_pos hA0] at hAlt
    rw [abs_of_pos hB0] at hBlt
    have hquot : 0 ≤ nearest b / nearest a := by positivity
    exact ⟨nearest_nonneg hquot, fun _ => ⟨hA, hAlt, hB, hBlt, nearest_le hquot⟩⟩
  · exact ⟨le_rfl, fun hlt => absurd hlt (lt_irrefl 0)⟩

theorem quotientRate_of_spotRatio (h : spotRatio a b = some (.fin r)) (hr : 0 < r) :
    QuotientRate (nearest a) (nearest b) r := by
  obtain ⟨hA, hAlt, hB, hBlt, hle⟩ := (spotRatio_bounds h).2 hr
  refine ⟨⟨hA, hAlt⟩, ⟨hB, hBlt⟩, hle.trans ?_⟩
  have heta := eta_pos
  have hquot : 0 ≤ nearest b / nearest a := div_nonneg (by linarith) (by linarith)
  have heps := epsilon_pos
  gcongr <;> linarith

/-- The quotient of two amounts, less the fee. -/
theorem quotientRate_of_kept
    (h : (spotRatio a b).map (keptFactorF64 fee * ·) = some (.fin r)) (hr : 0 < r) :
    QuotientRate (nearest a) (nearest b) r := by
  obtain ⟨x, hx, hprod⟩ := Option.map_eq_some_iff.mp h
  obtain ⟨κ, y, hκ, rfl, hround⟩ := mul_eq_fin hprod
  obtain ⟨hr', -⟩ := round_eq_fin.mp hround
  obtain ⟨hy0, hy⟩ := spotRatio_bounds hx
  have hypos : 0 < y := by
    rcases hy0.eq_or_lt with rfl | hlt
    · rw [mul_zero, nearest_zero] at hr'
      linarith
    · exact hlt
  obtain ⟨hA, hAlt, hB, hBlt, hle⟩ := hy hypos
  exact ⟨⟨hA, hAlt⟩, ⟨hB, hBlt⟩, within_of_kept (keptFactor_le hκ) hy0
    (div_nonneg (by linarith) (by linarith)) hle hr'⟩

/-- The sides of a pool change places with the tokens. -/
theorem directional_swap {side0 side1 : ℕ} (hne : tokenIn ≠ tokenOut)
    (h : directional info tokenIn tokenOut side0 side1 = some (a, b)) :
    directional info tokenOut tokenIn side0 side1 = some (b, a) := by
  unfold directional at h ⊢
  split_ifs at h with h1 h2
  · cases h
    rw [if_neg fun h' => hne (h1.1.symm.trans h'.1), if_pos ⟨h1.2, h1.1⟩]
  · cases h
    rw [if_pos ⟨h2.2, h2.1⟩]

/-- The two rates of a pool with two sides, where a rate is a quotient of the sides. -/
theorem directional_there_and_back {side0 side1 : ℕ} {rate : ℕ → ℕ → Option F64}
    (hrate : ∀ a b q, rate a b = some (.fin q) → 0 < q → QuotientRate (nearest a) (nearest b) q)
    (hne : tokenIn ≠ tokenOut) (hr : 0 < r) (hs : 0 < s)
    (h : ((directional info tokenIn tokenOut side0 side1).bind fun (a, b) => rate a b) =
      some (.fin r))
    (h' : ((directional info tokenOut tokenIn side0 side1).bind fun (a, b) => rate a b) =
      some (.fin s)) : r * s ≤ 1 + 1 / 2 ^ 40 := by
  obtain ⟨⟨a, b⟩, hsides, h⟩ := Option.bind_eq_some_iff.mp h
  rw [directional_swap hne hsides] at h'
  exact (hrate a b r h hr).there_and_back (hrate b a s h' hs) hs.le

/-! ## Square-root prices -/

/-- The price of a pool is positive and finite. -/
theorem sqrtPriceRatioF64_bounds {n : ℕ} {price : F64} (h : sqrtPriceRatioF64 n = some price) :
    ∃ π, price = .fin π ∧ 0 < π ∧ π < huge := by
  unfold sqrtPriceRatioF64 at h
  dsimp only at h
  split_ifs at h with h0 hprice
  cases h
  obtain ⟨hfin, hpos⟩ := hprice
  obtain ⟨π, hπ⟩ := isFinite_iff.mp hfin
  rw [hπ] at hpos
  obtain ⟨_, _, -, -, hround⟩ := mul_eq_fin hπ
  have hpos' : 0 < π := fin_lt_fin.mp hpos
  have hlt := (round_eq_fin.mp hround).2
  rw [abs_of_pos hpos'] at hlt
  exact ⟨π, hπ, hpos', hlt⟩

/-- A rate of a pool with a square-root price is the fee factor times the price, or times its
    inverse. -/
theorem sqrtPriceRate_cases {p : UniswapV3PoolState} {rate : F64}
    (h : sqrtPriceRate p tokenIn tokenOut = some rate) :
    ∃ π, sqrtPriceRatioF64 p.sqrtPriceX96 = some (.fin π) ∧ 0 < π ∧ π < huge ∧
      ((p.info.token0 = tokenIn ∧ p.info.token1 = tokenOut ∧
          rate = keptFactorF64 p.info.feeTier * .fin π) ∨
        (p.info.token1 = tokenIn ∧ p.info.token0 = tokenOut ∧
          ∃ ι, .fin 1 / .fin π = F64.fin ι ∧ rate = keptFactorF64 p.info.feeTier * .fin ι)) := by
  unfold sqrtPriceRate at h
  by_cases h0 : p.sqrtPriceX96 = 0 ∨ p.sqrtPriceX96 ≥ 2 ^ 200
  · rw [if_pos h0] at h
    cases h
  rw [if_neg h0] at h
  obtain ⟨price, hprice, h⟩ := Option.bind_eq_some_iff.mp h
  obtain ⟨π, rfl, hπ0, hπlt⟩ := sqrtPriceRatioF64_bounds hprice
  refine ⟨π, hprice, hπ0, hπlt, ?_⟩
  dsimp only at h
  split_ifs at h with h1 h2 hinv
  · exact .inl ⟨h1.1, h1.2, (Option.some.inj h).symm⟩
  · obtain ⟨ι, hι⟩ := isFinite_iff.mp hinv.1
    rw [hι] at h
    exact .inr ⟨h2.1, h2.2, ι, hι, (Option.some.inj h).symm⟩

/-- The fee factor times a price, and times the inverse of the price. -/
theorem price_there_and_back {π ι : ℚ} {kept : F64} (hs : 0 ≤ s) (hπ0 : 0 < π) (hπlt : π < huge)
    (hkept : ∀ κ, kept = .fin κ → κ ≤ 1 + 2 * epsilon) (hι : .fin 1 / .fin π = F64.fin ι)
    (hr : kept * .fin π = .fin r) (hs' : kept * .fin ι = .fin s) : r * s ≤ 1 + 1 / 2 ^ 40 := by
  have heta := eta_pos
  have heps := epsilon_pos
  have hsmall := eta_le_epsilon
  rw [fin_div_fin hπ0.ne'] at hι
  obtain ⟨rfl, hιlt⟩ := round_eq_fin.mp hι
  have hinv : 0 ≤ 1 / π := by positivity
  have hι0 := nearest_nonneg hinv
  have hιle := nearest_le hinv
  obtain ⟨κ, _, rfl, hπ', hround⟩ := mul_eq_fin hr
  obtain ⟨_, _, hκ', hι', hround'⟩ := mul_eq_fin hs'
  cases hπ'
  cases hκ'
  cases hι'
  have hκ := hkept κ rfl
  have hX : r ≤ π * (1 + 8 * epsilon) + 4 * eta :=
    within_of_kept hκ hπ0.le hπ0.le (by nlinarith) (round_eq_fin.mp hround).1
  have hY : s ≤ 1 / π * (1 + 8 * epsilon) + 4 * eta :=
    within_of_kept hκ hι0 hinv hιle (round_eq_fin.mp hround').1
  -- the inverse is not beyond the range, as its rounding is not
  have hback : 1 / π ≤ 2 * huge + 2 * eta := by
    have hge := le_nearest hinv
    rw [abs_of_nonneg hι0] at hιlt
    rw [epsilon_eq] at hge
    linarith
  have hsum : 4 * eta * (π + 1 / π) ≤ 1 / 2 ^ 44 := by
    calc 4 * eta * (π + 1 / π) ≤ 4 * eta * (huge + (2 * huge + 2 * eta)) := by gcongr
      _ = 12 * (eta * huge) + 8 * eta * eta := by ring
      _ ≤ 12 * (1 / 2 ^ 50) + 8 * epsilon * epsilon := by
        rw [eta_mul_huge]
        gcongr
      _ ≤ 1 / 2 ^ 44 := by
        rw [epsilon_eq]
        norm_num
  have hδ : 4 * eta ≤ 1 / 2 ^ 44 := by
    rw [epsilon_eq] at hsmall
    linarith
  refine mul_le_of_within hs hπ0.le ?_ (by positivity) hδ hsum hX hY
  rw [mul_one_div_cancel hπ0.ne']

theorem sqrtPriceRate_there_and_back {p : UniswapV3PoolState} (hne : tokenIn ≠ tokenOut)
    (hr : 0 ≤ r) (hs : 0 ≤ s) (h : sqrtPriceRate p tokenIn tokenOut = some (.fin r))
    (h' : sqrtPriceRate p tokenOut tokenIn = some (.fin s)) : r * s ≤ 1 + 1 / 2 ^ 40 := by
  have hkept : ∀ κ, keptFactorF64 p.info.feeTier = .fin κ → κ ≤ 1 + 2 * epsilon :=
    fun _ => keptFactor_le
  obtain ⟨π, hπ, hπ0, hπlt, hcase⟩ := sqrtPriceRate_cases h
  obtain ⟨π', hπ', -, -, hcase'⟩ := sqrtPriceRate_cases h'
  obtain rfl : π = π' := F64.fin.inj (Option.some.inj (hπ.symm.trans hπ'))
  rcases hcase with ⟨h0, h1, hrate⟩ | ⟨h1, h0, ι, hι, hrate⟩ <;>
    rcases hcase' with ⟨h0', h1', hrate'⟩ | ⟨h1', h0', ι', hι', hrate'⟩
  · exact absurd (h0.symm.trans h0') hne
  · exact price_there_and_back hs hπ0 hπlt hkept hι' hrate.symm hrate'.symm
  · rw [mul_comm]
    exact price_there_and_back hr hπ0 hπlt hkept hι hrate'.symm hrate.symm
  · exact absurd (h1.symm.trans h1') hne

/-! ## Weighted pools -/

theorem cube_le_huge : (2 : ℚ) ^ 200 * 2 ^ 200 * 2 ^ 200 ≤ huge := by
  unfold huge
  calc (2 : ℚ) ^ 200 * 2 ^ 200 * 2 ^ 200 = 2 ^ (200 + 200 + 200 : ℤ) := by
        rw [zpow_add₀ two_ne_zero, zpow_add₀ two_ne_zero]
        rfl
    _ ≤ 2 ^ (1024 : ℤ) := zpow_le_zpow_right₀ one_le_two (by decide)

/-- A converted `u128` has at most 129 bits. -/
theorem nearest_natCast_le (ha : a < 2 ^ 128) : nearest a ≤ 2 ^ 129 := by
  have hcast : (a : ℚ) ≤ 2 ^ 128 := by exact_mod_cast ha.le
  have hle := nearest_le (Nat.cast_nonneg (α := ℚ) a)
  have hsmall := eta_le_epsilon
  rw [epsilon_eq] at hle hsmall
  linarith

/-- The quotient of two converted amounts that are not zero. -/
theorem quotient_bounds (ha0 : a ≠ 0) (hb0 : b ≠ 0) (hb : b < 2 ^ 128) :
    0 < nearest b / nearest a ∧ nearest b / nearest a ≤ 2 ^ 130 := by
  have hA := nearest_natCast ha0
  have hB := nearest_natCast hb0
  have hBle := nearest_natCast_le hb
  refine ⟨div_pos (by linarith) (by linarith), ?_⟩
  rw [div_le_iff₀ (by linarith)]
  linarith

/-- The product of two rounded quotients. -/
theorem nearest_mul_le (hX0 : 0 ≤ X) (hX : X ≤ 2 ^ 130) (hY0 : 0 ≤ Y) (hY : Y ≤ 2 ^ 130) :
    nearest (nearest X * nearest Y) ≤ X * Y * (1 + 8 * epsilon) + 2 ^ 140 * eta := by
  have heta := eta_pos
  have hsmall := eta_le_epsilon
  have hNX := nearest_nonneg hX0
  have hNY := nearest_nonneg hY0
  have heps := epsilon_pos
  calc nearest (nearest X * nearest Y)
      ≤ nearest X * nearest Y * (1 + epsilon) + eta := nearest_le (mul_nonneg hNX hNY)
    _ ≤ (X * (1 + epsilon) + eta) * (Y * (1 + epsilon) + eta) * (1 + epsilon) + eta := by
      gcongr
      · exact nearest_le hX0
      · exact nearest_le hY0
    _ = X * Y * (1 + epsilon) ^ 3 +
        ((X + Y) * (1 + epsilon) ^ 2 + eta * (1 + epsilon) + 1) * eta := by ring
    _ ≤ X * Y * (1 + epsilon) ^ 3 +
        ((2 ^ 130 + 2 ^ 130) * (1 + epsilon) ^ 2 + epsilon * (1 + epsilon) + 1) * eta := by gcongr
    _ ≤ X * Y * (1 + 8 * epsilon) + 2 ^ 140 * eta := by
      rw [epsilon_eq]
      gcongr <;> norm_num

/-- The conversion of a `u128` is finite. -/
theorem ofNat_eq (ha : a < 2 ^ 128) : ofNat a = .fin (nearest a) := by
  refine round_of_lt ?_
  rw [abs_of_nonneg (nearest_nonneg (Nat.cast_nonneg a))]
  calc nearest a ≤ 2 ^ 129 := nearest_natCast_le ha
    _ < 2 ^ 200 * 2 ^ 200 * 2 ^ 200 := by norm_num
    _ ≤ huge := cube_le_huge

/-- The rate of a weighted pool. -/
theorem weightedRate_le {bi bj wi wj : ℕ} (hbi0 : bi ≠ 0) (hbj0 : bj ≠ 0) (hwi0 : wi ≠ 0)
    (hwj0 : wj ≠ 0) (hbi : bi < 2 ^ 128) (hbj : bj < 2 ^ 128) (hwi : wi < 2 ^ 128)
    (hwj : wj < 2 ^ 128) (hr : ofNat bj / ofNat bi * (ofNat wi / ofNat wj) = .fin r) :
    r ≤ nearest bj / nearest bi * (nearest wi / nearest wj) * (1 + 8 * epsilon) +
      2 ^ 140 * eta := by
  obtain ⟨hU0, hU⟩ := quotient_bounds hbi0 hbj0 hbj
  obtain ⟨hV0, hV⟩ := quotient_bounds hwj0 hwi0 hwi
  have hbi1 := nearest_natCast hbi0
  have hwj1 := nearest_natCast hwj0
  rw [ofNat_eq hbi, ofNat_eq hbj, ofNat_eq hwi, ofNat_eq hwj, fin_div_fin (by linarith),
    fin_div_fin (by linarith)] at hr
  obtain ⟨y, z, hy, hz, hround⟩ := mul_eq_fin hr
  obtain ⟨rfl, -⟩ := round_eq_fin.mp hy
  obtain ⟨rfl, -⟩ := round_eq_fin.mp hz
  obtain ⟨rfl, -⟩ := round_eq_fin.mp hround
  exact nearest_mul_le hU0.le hU hV0.le hV

/-- The two rates of a weighted pool. -/
theorem weighted_there_and_back {bi bj wi wj : ℕ} (hs : 0 ≤ s) (hbi0 : bi ≠ 0) (hbj0 : bj ≠ 0)
    (hwi0 : wi ≠ 0) (hwj0 : wj ≠ 0) (hbi : bi < 2 ^ 128) (hbj : bj < 2 ^ 128) (hwi : wi < 2 ^ 128)
    (hwj : wj < 2 ^ 128) (hr : ofNat bj / ofNat bi * (ofNat wi / ofNat wj) = .fin r)
    (hs' : ofNat bi / ofNat bj * (ofNat wj / ofNat wi) = .fin s) : r * s ≤ 1 + 1 / 2 ^ 40 := by
  have heta := eta_pos
  have hX := weightedRate_le hbi0 hbj0 hwi0 hwj0 hbi hbj hwi hwj hr
  have hY := weightedRate_le hbj0 hbi0 hwj0 hwi0 hbj hbi hwj hwi hs'
  obtain ⟨hU0, hU⟩ := quotient_bounds hbi0 hbj0 hbj
  obtain ⟨hV0, hV⟩ := quotient_bounds hwj0 hwi0 hwi
  obtain ⟨hU0', hU'⟩ := quotient_bounds hbj0 hbi0 hbi
  obtain ⟨hV0', hV'⟩ := quotient_bounds hwi0 hwj0 hwj
  have hslack : (2 : ℚ) ^ 140 * eta * (2 ^ 130 * 2 ^ 130 + 2 ^ 130 * 2 ^ 130) ≤ 1 / 2 ^ 50 := by
    rw [← eta_mul_huge]
    calc (2 : ℚ) ^ 140 * eta * (2 ^ 130 * 2 ^ 130 + 2 ^ 130 * 2 ^ 130)
        = eta * (2 ^ 140 * (2 ^ 130 * 2 ^ 130 + 2 ^ 130 * 2 ^ 130)) := by ring
      _ ≤ eta * (2 ^ 200 * 2 ^ 200 * 2 ^ 200) :=
        mul_le_mul_of_nonneg_left (by norm_num) heta.le
      _ ≤ eta * huge := by
        gcongr
        exact cube_le_huge
  have hδ : (2 : ℚ) ^ 140 * eta ≤ 1 / 2 ^ 44 := by nlinarith
  refine mul_le_of_within hs (mul_nonneg hU0.le hV0.le) ?_ (by positivity) hδ ?_ hX hY
  · have hbi1 := nearest_natCast hbi0
    have hbj1 := nearest_natCast hbj0
    have hwi1 := nearest_natCast hwi0
    have hwj1 := nearest_natCast hwj0
    have : nearest bi ≠ 0 := by linarith
    have : nearest bj ≠ 0 := by linarith
    have : nearest wi ≠ 0 := by linarith
    have : nearest wj ≠ 0 := by linarith
    refine le_of_eq ?_
    field_simp
  · calc (2 : ℚ) ^ 140 * eta * (nearest bj / nearest bi * (nearest wi / nearest wj) +
          nearest bi / nearest bj * (nearest wj / nearest wi))
        ≤ 2 ^ 140 * eta * (2 ^ 130 * 2 ^ 130 + 2 ^ 130 * 2 ^ 130) := by gcongr
      _ ≤ 1 / 2 ^ 50 := hslack
      _ ≤ 1 / 2 ^ 44 := by norm_num

/-! ## There and back -/

/-- The amounts that the rate of a weighted pool reads are `u128`. -/
def FitsU128 : PoolState → Prop
  | .balancer p => ∀ n ∈ p.balances ++ p.weights, n < 2 ^ 128
  | _ => True

/-- A guarded rate is the rate. -/
theorem eq_of_guarded {rate : F64}
    (h : (if rate.isFinite ∧ rate > .fin 0 then some rate else none) = some (.fin r)) :
    rate = .fin r := by
  split_ifs at h
  exact Option.some.inj h

/-- **There and back through one pool.** The two rates of a pool between two tokens have a product
    of at most 1, but for the roundings. -/
theorem marginalExchangeRate_there_and_back (hfits : FitsU128 pool) (hne : tokenIn ≠ tokenOut)
    (hr : 0 < r) (hs : 0 < s) (h : marginalExchangeRate pool tokenIn tokenOut = some (.fin r))
    (h' : marginalExchangeRate pool tokenOut tokenIn = some (.fin s)) :
    r * s ≤ 1 + 1 / 2 ^ 40 := by
  cases pool with
  | uniswapV2 v2 =>
    exact directional_there_and_back (fun _ _ _ => quotientRate_of_kept) hne hr hs h h'
  | traderJoeLB lb =>
    exact directional_there_and_back (fun _ _ _ => quotientRate_of_kept) hne hr hs h h'
  | pendle p =>
    exact directional_there_and_back (fun _ _ _ => quotientRate_of_spotRatio) hne hr hs h h'
  | uniswapV3 p => exact sqrtPriceRate_there_and_back hne hr.le hs.le h h'
  | uniswapV4 p => exact sqrtPriceRate_there_and_back hne hr.le hs.le h h'
  | pancakeInfinity p => exact sqrtPriceRate_there_and_back hne hr.le hs.le h h'
  | curve c =>
    obtain ⟨i, hi, h⟩ := Option.bind_eq_some_iff.mp h
    obtain ⟨j, hj, h⟩ := Option.bind_eq_some_iff.mp h
    obtain ⟨bi, hbi, h⟩ := Option.bind_eq_some_iff.mp h
    obtain ⟨bj, hbj, h⟩ := Option.bind_eq_some_iff.mp h
    unfold marginalExchangeRate at h'
    simp only [Option.bind_eq_bind, hi, hj, hbi, hbj, Option.bind_some] at h'
    exact (quotientRate_of_spotRatio h hr).there_and_back (quotientRate_of_spotRatio h' hs) hs.le
  | balancer p =>
    obtain ⟨i, hi, h⟩ := Option.bind_eq_some_iff.mp h
    obtain ⟨j, hj, h⟩ := Option.bind_eq_some_iff.mp h
    obtain ⟨bi, hbi, h⟩ := Option.bind_eq_some_iff.mp h
    obtain ⟨bj, hbj, h⟩ := Option.bind_eq_some_iff.mp h
    obtain ⟨wi, hwi, h⟩ := Option.bind_eq_some_iff.mp h
    obtain ⟨wj, hwj, h⟩ := Option.bind_eq_some_iff.mp h
    unfold marginalExchangeRate at h'
    simp only [Option.bind_eq_bind, hi, hj, hbi, hbj, hwi, hwj, Option.bind_some] at h'
    have h0 : ¬(bi = 0 ∨ bj = 0 ∨ wi = 0 ∨ wj = 0) := fun hz => by
      rw [if_pos hz] at h
      cases h
    have h0' : ¬(bj = 0 ∨ bi = 0 ∨ wj = 0 ∨ wi = 0) := by tauto
    rw [if_neg h0] at h
    rw [if_neg h0'] at h'
    simp only [not_or] at h0
    obtain ⟨hbi0, hbj0, hwi0, hwj0⟩ := h0
    have hbalance {k n : ℕ} (hn : p.balances[k]? = some n) : n < 2 ^ 128 :=
      hfits n (List.mem_append_left _ (List.mem_of_getElem? hn))
    have hweight {k n : ℕ} (hn : p.weights[k]? = some n) : n < 2 ^ 128 :=
      hfits n (List.mem_append_right _ (List.mem_of_getElem? hn))
    exact weighted_there_and_back hs.le hbi0 hbj0 hwi0 hwj0 (hbalance hbi) (hbalance hbj)
      (hweight hwi) (hweight hwj) (eq_of_guarded h) (eq_of_guarded h')
  | metric p => cases h
  | fluid p => cases h

/-! ## The numbers themselves -/

theorem round_of_mul_eq {u v : F64} (h : u * v = .fin r) : F64.round r = .fin r := by
  obtain ⟨_, _, -, -, hround⟩ := mul_eq_fin h
  exact round_of_round_eq hround

theorem round_of_spotRatio_eq (h : spotRatio a b = some (.fin r)) : F64.round r = .fin r := by
  unfold spotRatio at h
  split_ifs at h
  rcases div_eq_fin (Option.some.inj h) with ⟨_, _, -, -, -, hround⟩ | rfl
  · exact round_of_round_eq hround
  · refine round_eq_fin.mpr ⟨nearest_zero, ?_⟩
    rw [abs_zero]
    exact lt_of_lt_of_le (by norm_num) cube_le_huge

theorem round_of_sqrtPriceRate_eq {p : UniswapV3PoolState}
    (h : sqrtPriceRate p tokenIn tokenOut = some (.fin r)) : F64.round r = .fin r := by
  obtain ⟨_, -, -, -, ⟨-, -, hrate⟩ | ⟨-, -, _, -, hrate⟩⟩ := sqrtPriceRate_cases h
  · exact round_of_mul_eq hrate.symm
  · exact round_of_mul_eq hrate.symm

/-- A finite rate is a number of the format. -/
theorem round_of_marginalExchangeRate_eq
    (h : marginalExchangeRate pool tokenIn tokenOut = some (.fin r)) : F64.round r = .fin r := by
  cases pool with
  | uniswapV2 v2 =>
    obtain ⟨_, -, hrate⟩ := Option.bind_eq_some_iff.mp h
    obtain ⟨_, -, hprod⟩ := Option.map_eq_some_iff.mp hrate
    exact round_of_mul_eq hprod
  | traderJoeLB lb =>
    obtain ⟨_, -, hrate⟩ := Option.bind_eq_some_iff.mp h
    obtain ⟨_, -, hprod⟩ := Option.map_eq_some_iff.mp hrate
    exact round_of_mul_eq hprod
  | pendle p =>
    obtain ⟨_, -, hrate⟩ := Option.bind_eq_some_iff.mp h
    exact round_of_spotRatio_eq hrate
  | uniswapV3 p => exact round_of_sqrtPriceRate_eq h
  | uniswapV4 p => exact round_of_sqrtPriceRate_eq h
  | pancakeInfinity p => exact round_of_sqrtPriceRate_eq h
  | curve c =>
    obtain ⟨_, -, h⟩ := Option.bind_eq_some_iff.mp h
    obtain ⟨_, -, h⟩ := Option.bind_eq_some_iff.mp h
    obtain ⟨_, -, h⟩ := Option.bind_eq_some_iff.mp h
    obtain ⟨_, -, h⟩ := Option.bind_eq_some_iff.mp h
    exact round_of_spotRatio_eq h
  | balancer p =>
    obtain ⟨_, -, h⟩ := Option.bind_eq_some_iff.mp h
    obtain ⟨_, -, h⟩ := Option.bind_eq_some_iff.mp h
    obtain ⟨bi, -, h⟩ := Option.bind_eq_some_iff.mp h
    obtain ⟨bj, -, h⟩ := Option.bind_eq_some_iff.mp h
    obtain ⟨wi, -, h⟩ := Option.bind_eq_some_iff.mp h
    obtain ⟨wj, -, h⟩ := Option.bind_eq_some_iff.mp h
    by_cases h0 : bi = 0 ∨ bj = 0 ∨ wi = 0 ∨ wj = 0
    · rw [if_pos h0] at h
      cases h
    · rw [if_neg h0] at h
      exact round_of_mul_eq (eq_of_guarded h)
  | metric p => cases h
  | fluid p => cases h

end MevScout.Mev
