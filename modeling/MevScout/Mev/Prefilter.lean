import MevScout.Paper.Walk
import MevScout.Pool.ConstantProduct
import MevScout.Pool.Math.SpotBound
import MevScout.Pool.Math.TwoHop

/-!
# The spot-price filter

`passes_spot_prefilter` (`core/src/mev/detectors/arb_common.rs`) compares the marginal prices of two
pools, less their fees, before the two-hop optimizer is run, to skip a pair that is profitable at no
size. The safety margin is on the wrong side: a pair passes only where its rate is *above*
the break-even by two parts in 100,000, so that a pair that gains less than that is skipped.

Where a rejected pair is at the break-even or below it, it has no profitable size. The rate is here
the one of the quotes: the fee of a V3 pool as `compute_swap_step` charges it, its price before the
filter cuts it off after 64 bits, and no fee at all for a Pendle pool.

Results:
* `netRate_within`: the quotes of a pool keep to its rate;
* `rejected_noProfit`: a rejected pair that is not above the break-even has no profitable size;
* `rejected_iff_netRate`: which pairs of V2 pools are rejected;
* `thinGap_rejected`: a profitable pair that is rejected.
-/

namespace MevScout.Mev

open Pool Pool.Math Paper Rate

variable {Q : FloatQuotes} {pool a b : PoolState} {shared tokenIn tokenOut : Address} {x : ℕ}

/-! ## Model -/

/-- `PREFILTER_SAFETY_NUM` and `PREFILTER_SAFETY_DEN` (`arb_common.rs`, lines 227–228). -/
def prefilterSafetyNum : ℕ := 100002
def prefilterSafetyDen : ℕ := 100000

/-- Model of `v3_style_sqrt_price_x96` (`arb_common.rs`, lines 349–356). -/
def v3StyleSqrtPriceX96 : PoolState → Option ℕ
  | .uniswapV3 p | .uniswapV4 p | .pancakeInfinity p => some p.sqrtPriceX96
  | _ => none

/-- The price of `shared` in the other token of a pool with these sides. The arms of
    `marginal_price_fraction` all end so. -/
def sideFraction (info : PoolInfo) (shared : Address) (side0 side1 : ℕ) : Option (ℕ × ℕ) :=
  if side0 = 0 ∨ side1 = 0 then none
  else if info.token0 = shared then some (side1, side0)
  else if info.token1 = shared then some (side0, side1)
  else none

/-- Model of `marginal_price_fraction` (`arb_common.rs`, lines 282–345). -/
def marginalPriceFraction (pool : PoolState) (shared : Address) : Option (ℕ × ℕ) :=
  match pool with
  | .uniswapV2 v2 => sideFraction v2.info shared v2.reserve0 v2.reserve1
  | .traderJoeLB lb => sideFraction lb.info shared lb.reserveX lb.reserveY
  | .pendle p => sideFraction p.info shared p.totalPt p.totalSy
  | .uniswapV3 _ | .uniswapV4 _ =>
    (v3StyleSqrtPriceX96 pool).bind fun s =>
      if s = 0 ∨ s ≥ 2 ^ 128 then none
      else sideFraction pool.info shared (2 ^ 64) (s * s / 2 ^ 128)
  | _ => none

/-- Model of `fee_fraction` (`arb_common.rs`, lines 361–373). -/
def feeFraction (pool : PoolState) : Option (ℕ × ℕ) :=
  match pool with
  | .uniswapV2 _ | .traderJoeLB _ | .uniswapV3 _ | .uniswapV4 _ | .pendle _ =>
    some pool.info.feeTier.fraction
  | _ => none

/-- Model of `passes_spot_prefilter` (`arb_common.rs`, lines 240–272). The products stay below
    `2 ^ 320`, so no `U512` overflows. -/
def passesSpotPrefilter (a b : PoolState) (shared : Address) : Bool :=
  match marginalPriceFraction a shared, marginalPriceFraction b shared, feeFraction a,
      feeFraction b with
  | some (costN, costD), some (yieldN, yieldD), some (faN, faD), some (fbN, fbD) =>
    yieldN * costD * (faD - min faN faD) * (fbD - min fbN fbD) * prefilterSafetyDen >
      yieldD * costN * faD * fbD * prefilterSafetyNum
  | _, _, _, _ => true

/-- `token_in_fast` and `token_out_fast` of `arb_tokens` (`two_hop.rs`, lines 284–298): the other
    token of a pool whose canonical pair has `shared`. -/
def otherToken (info : PoolInfo) (shared : Address) : Option Address :=
  if info.token0 = shared then some info.token1
  else if info.token1 = shared then some info.token0
  else none

/-- The fast path of `arb_tokens` (`two_hop.rs`, lines 300–303), which a rejected pair always
    takes. -/
def arbTokensFast (a b : PoolState) (shared : Address) : Option (Address × Address) := do
  let tokenIn ← otherToken a.info shared
  let tokenOut ← otherToken b.info shared
  some (tokenIn, tokenOut)

/-- Model of `two_hop_profit_at` (`two_hop.rs`, lines 255–267), on the fast path. -/
def twoHopProfitAt (Q : FloatQuotes) (a b : PoolState) (shared : Address) (inputAmount : ℕ) :
    Option ℕ := do
  let (tokenIn, tokenOut) ← arbTokensFast a b shared
  let intermediate ← quoteDir Q a inputAmount tokenIn shared
  let output ← quoteDir Q b intermediate shared tokenOut
  if output > inputAmount then some (output - inputAmount) else none

/-! ## Rejected pairs -/

theorem sideFraction_isSome {info : PoolInfo} {side0 side1 : ℕ}
    (h : (sideFraction info shared side0 side1).isSome) :
    (side0 ≠ 0 ∧ side1 ≠ 0) ∧ (otherToken info shared).isSome := by
  unfold sideFraction at h
  unfold otherToken
  split_ifs at h ⊢ <;> simp_all

/-- A pool has a marginal price only where its canonical pair has the shared token. -/
theorem otherToken_isSome (h : (marginalPriceFraction pool shared).isSome) :
    (otherToken pool.info shared).isSome := by
  unfold marginalPriceFraction at h
  cases pool with
  | uniswapV2 v2 => exact (sideFraction_isSome h).2
  | traderJoeLB lb => exact (sideFraction_isSome h).2
  | pendle p => exact (sideFraction_isSome h).2
  | uniswapV3 v3 =>
    simp only [v3StyleSqrtPriceX96, Option.bind_some] at h
    split_ifs at h
    · cases h
    · exact (sideFraction_isSome h).2
  | uniswapV4 v3 =>
    simp only [v3StyleSqrtPriceX96, Option.bind_some] at h
    split_ifs at h
    · cases h
    · exact (sideFraction_isSome h).2
  | _ => cases h

/-- A rejected pair has a marginal price on both sides. -/
theorem prices_of_rejected (h : passesSpotPrefilter a b shared = false) :
    (marginalPriceFraction a shared).isSome ∧ (marginalPriceFraction b shared).isSome := by
  unfold passesSpotPrefilter at h
  cases ha : marginalPriceFraction a shared with
  | none =>
    rw [ha] at h
    cases h
  | some cost =>
    cases hb : marginalPriceFraction b shared with
    | none =>
      rw [ha, hb] at h
      cases h
    | some yield => exact ⟨rfl, rfl⟩

/-- A rejected pair takes the fast path of `arb_tokens`. -/
theorem exists_arbTokensFast_of_rejected (h : passesSpotPrefilter a b shared = false) :
    ∃ tokens, arbTokensFast a b shared = some tokens := by
  obtain ⟨ha, hb⟩ := prices_of_rejected h
  obtain ⟨tokenIn, hin⟩ := Option.isSome_iff_exists.mp (otherToken_isSome ha)
  obtain ⟨tokenOut, hout⟩ := Option.isSome_iff_exists.mp (otherToken_isSome hb)
  refine ⟨(tokenIn, tokenOut), ?_⟩
  unfold arbTokensFast
  rw [hin, hout]
  rfl

/-! ## The rates of the quotes -/

/-- The price of what comes in, in what goes out, for the two sides of a swap. -/
def sideRate (sides : Option (ℕ × ℕ)) : ℚ := sides.elim 0 fun s => (s.2 : ℚ) / s.1

/-- What is left of an amount after the fee. -/
def keptRate (fee : FeeTier) : ℚ := (fee.keptFraction.1 : ℚ) / fee.keptFraction.2

/-- What a unit of `tokenIn` pays out at most: the price of the pool, less the fee as its quote
    charges it. -/
def netRate (pool : PoolState) (tokenIn : Address) : ℚ :=
  match pool with
  | .uniswapV2 v2 =>
    keptRate v2.info.feeTier * sideRate (orient v2.info tokenIn v2.reserve0 v2.reserve1)
  | .traderJoeLB lb =>
    keptRate lb.info.feeTier * sideRate (orient lb.info tokenIn lb.reserveX lb.reserveY)
  | .pendle p => sideRate (orient p.info tokenIn p.totalPt p.totalSy)
  | .uniswapV3 v3 | .uniswapV4 v3 | .pancakeInfinity v3 =>
    spotRate v3 (V3Direction.forInputToken tokenIn v3.info.token0)
  | _ => 0

/-- What the roundings of a quote can add. -/
def netSlack (pool : PoolState) (tokenIn : Address) : ℚ :=
  match pool with
  | .uniswapV3 v3 | .uniswapV4 v3 | .pancakeInfinity v3 =>
    roundingSlack v3 (V3Direction.forInputToken tokenIn v3.info.token0)
  | _ => 0

/-- What is required of the state of a concentrated-liquidity pool. -/
def OnConcentrated (P : UniswapV3PoolState → Prop) : PoolState → Prop
  | .uniswapV3 v3 | .uniswapV4 v3 | .pancakeInfinity v3 => P v3
  | _ => True

/-- No input of a band of liquidity wraps, in the direction of `tokenIn`. -/
def InputsFit (pool : PoolState) (tokenIn : Address) : Prop :=
  OnConcentrated (fun v3 => CostsFit v3 (V3Direction.forInputToken tokenIn v3.info.token0)) pool

theorem sideRate_nonneg (sides : Option (ℕ × ℕ)) : 0 ≤ sideRate sides := by
  unfold sideRate
  cases sides with
  | none => exact le_rfl
  | some s => exact div_nonneg (Nat.cast_nonneg _) (Nat.cast_nonneg _)

theorem keptRate_nonneg (fee : FeeTier) : 0 ≤ keptRate fee :=
  div_nonneg (Nat.cast_nonneg _) (Nat.cast_nonneg _)

theorem netRate_nonneg (pool : PoolState) (tokenIn : Address) : 0 ≤ netRate pool tokenIn := by
  cases pool with
  | uniswapV2 v2 => exact mul_nonneg (keptRate_nonneg _) (sideRate_nonneg _)
  | traderJoeLB lb => exact mul_nonneg (keptRate_nonneg _) (sideRate_nonneg _)
  | pendle p => exact sideRate_nonneg _
  | uniswapV3 v3 => exact spotRate_nonneg _ _
  | uniswapV4 v3 => exact spotRate_nonneg _ _
  | pancakeInfinity v3 => exact spotRate_nonneg _ _
  | _ => exact le_rfl

/-- A constant product pays out no more than its input at the ratio of its reserves, less the
    fee. -/
theorem constantProduct_within (sides : Option (ℕ × ℕ)) (fee : FeeTier) :
    WithinRate (2 ^ 128) (keptRate fee * sideRate sides) 0 fun x =>
      sides.bind fun s => constantProductOutputAmount x s.1 s.2 fee := by
  have key : ∀ x < 2 ^ 128, ∀ y ∈ sides.bind fun s => constantProductOutputAmount x s.1 s.2 fee,
      y < 2 ^ 128 ∧ (y : ℚ) ≤ keptRate fee * sideRate sides * x + 0 := by
    intro x hx y hy
    obtain ⟨⟨reserveIn, reserveOut⟩, rfl, hy⟩ := Option.bind_eq_some_iff.mp hy
    obtain ⟨⟨-, hin, -⟩, hnum, -, rfl, -⟩ := constantProductOutputAmount_eq_some_iff.mp hy
    dsimp only at hin hnum
    unfold outputFloor
    refine ⟨(Nat.div_le_self _ _).trans_lt hnum, ?_⟩
    have hden := keptFraction_den_pos fee
    have hpos : 0 < reserveIn * fee.keptFraction.2 := Nat.mul_pos (by omega) hden
    have hdiv : x * fee.keptFraction.1 * reserveOut /
          (reserveIn * fee.keptFraction.2 + x * fee.keptFraction.1) ≤
        x * fee.keptFraction.1 * reserveOut / (reserveIn * fee.keptFraction.2) :=
      Nat.div_le_div_left (Nat.le_add_right _ _) hpos
    have hcast := (Nat.cast_le (α := ℚ).mpr hdiv).trans Nat.cast_div_le
    refine hcast.trans_eq ?_
    unfold keptRate sideRate
    rw [Option.elim_some]
    push_cast
    ring
  exact ⟨fun x hx y hy => (key x hx y hy).1, fun x hx y hy => (key x hx y hy).2⟩

/-- The damping of a Pendle quote only takes away. -/
theorem pendleOutputAmount_le {totalIn totalOut y : ℕ}
    (h : pendleOutputAmount x totalIn totalOut = some y) :
    totalIn ≠ 0 ∧ x * totalOut < 2 ^ 128 ∧ y ≤ x * totalOut / (totalIn + x) := by
  unfold pendleOutputAmount at h
  split_ifs at h with h₀
  simp only [Option.bind_eq_bind, Option.bind_eq_some_iff, checkedU128_eq_some] at h
  obtain ⟨-, ⟨hnum, rfl⟩, -, ⟨-, rfl⟩, -, ⟨-, rfl⟩, hout⟩ := h
  refine ⟨by omega, hnum, ?_⟩
  generalize x * totalOut / (totalIn + x) = cpOutput at *
  split_ifs at hout with h₁ h₂
  · exact (Option.some.inj hout).ge
  · simp only [Option.bind_eq_some_iff, checkedU128_eq_some] at hout
    obtain ⟨-, ⟨-, rfl⟩, hout⟩ := hout
    split_ifs at hout
    obtain rfl := Option.some.inj hout
    refine Nat.div_le_of_le_mul ?_
    rw [Nat.mul_comm]
    refine Nat.mul_le_mul_right cpOutput (max_le (Nat.sub_le _ _) ?_)
    decide

theorem pendle_within (sides : Option (ℕ × ℕ)) :
    WithinRate (2 ^ 128) (sideRate sides) 0 fun x =>
      sides.bind fun s => pendleOutputAmount x s.1 s.2 := by
  have key : ∀ x < 2 ^ 128, ∀ y ∈ sides.bind fun s => pendleOutputAmount x s.1 s.2,
      y < 2 ^ 128 ∧ (y : ℚ) ≤ sideRate sides * x + 0 := by
    intro x hx y hy
    obtain ⟨⟨totalIn, totalOut⟩, rfl, hy⟩ := Option.bind_eq_some_iff.mp hy
    obtain ⟨hin, hnum, hle⟩ := pendleOutputAmount_le hy
    dsimp only at hin hnum hle
    refine ⟨(hle.trans (Nat.div_le_self _ _)).trans_lt hnum, ?_⟩
    have hdiv : x * totalOut / (totalIn + x) ≤ x * totalOut / totalIn :=
      Nat.div_le_div_left (Nat.le_add_right _ _) (by omega)
    have hcast := (Nat.cast_le (α := ℚ).mpr (hle.trans hdiv)).trans Nat.cast_div_le
    refine hcast.trans_eq ?_
    unfold sideRate
    rw [Option.elim_some]
    push_cast
    ring
  exact ⟨fun x hx y hy => (key x hx y hy).1, fun x hx y hy => (key x hx y hy).2⟩

/-- The price of a V3 pool with a marginal price is in the range of the walk. -/
theorem sqrtPrice_of_marginal {v3 : UniswapV3PoolState} {info : PoolInfo}
    (h : ((some v3.sqrtPriceX96).bind fun s =>
      if s = 0 ∨ s ≥ 2 ^ 128 then none
      else sideFraction info shared (2 ^ 64) (s * s / 2 ^ 128)).isSome) :
    minSqrtRatio ≤ v3.sqrtPriceX96 ∧ v3.sqrtPriceX96 < 2 ^ 128 := by
  have hmin : minSqrtRatio ≤ 2 ^ 64 := by decide +kernel
  rw [Option.bind_some] at h
  split_ifs at h with h₀
  · cases h
  · obtain ⟨⟨-, hsq⟩, -⟩ := sideFraction_isSome h
    refine ⟨hmin.trans ?_, by omega⟩
    by_contra hlt
    refine hsq (Nat.div_eq_of_lt ?_)
    have hmul := Nat.mul_lt_mul'' (Nat.not_le.mp hlt) (Nat.not_le.mp hlt)
    omega

/-- The quote of a concentrated-liquidity pool, with the test of the token that comes in. -/
theorem concentrated_within {v3 : UniswapV3PoolState} {f : ℕ → Option ℕ} (hs : Sized v3)
    (hprice : minSqrtRatio ≤ v3.sqrtPriceX96 ∧ v3.sqrtPriceX96 < 2 ^ 128)
    (hfit : CostsFit v3 (V3Direction.forInputToken tokenIn v3.info.token0))
    (hf : ∀ x, f x = if x = 0 then none
      else if V3Direction.forInputToken tokenIn v3.info.token0 = .oneForZero ∧
        v3.info.token1 ≠ tokenIn then none
      else quoteV3ExactIn v3 x (V3Direction.forInputToken tokenIn v3.info.token0)) :
    WithinRate (2 ^ 128) (spotRate v3 (V3Direction.forInputToken tokenIn v3.info.token0))
      (roundingSlack v3 (V3Direction.forInputToken tokenIn v3.info.token0)) f := by
  refine (quoteV3ExactInPost_within hs hprice.1 hprice.2 hfit).of_pays fun x y hy => ?_
  rw [hf] at hy
  split_ifs at hy
  exact hy

/-- **The rate of a pool.** The quotes of a pool with a marginal price keep to its net rate. -/
theorem netRate_within (tokenOut : Address) (hprice : (marginalPriceFraction pool shared).isSome)
    (hs : OnConcentrated Sized pool) (hfit : InputsFit pool tokenIn) :
    WithinRate (2 ^ 128) (netRate pool tokenIn) (netSlack pool tokenIn) fun x =>
      quoteExactIn Q pool tokenIn tokenOut x := by
  unfold marginalPriceFraction at hprice
  cases pool with
  | uniswapV2 v2 =>
    refine (constantProduct_within _ _).of_pays fun x y hy => ?_
    unfold quoteExactIn at hy
    split_ifs at hy
    exact hy
  | traderJoeLB lb =>
    refine (constantProduct_within _ _).of_pays fun x y hy => ?_
    unfold quoteExactIn at hy
    split_ifs at hy
    exact hy
  | pendle p =>
    refine (pendle_within _).of_pays fun x y hy => ?_
    unfold quoteExactIn at hy
    split_ifs at hy
    exact hy
  | uniswapV3 v3 => exact concentrated_within hs (sqrtPrice_of_marginal hprice) hfit fun x => rfl
  | uniswapV4 v3 => exact concentrated_within hs (sqrtPrice_of_marginal hprice) hfit fun x => rfl
  | _ => cases hprice

/-! ## Pairs at the break-even or below it -/

/-- The cycle from `tokenIn` through `a` to the shared token and on through `b` is not above the
    break-even: at the rates of the quotes it brings in no more than it takes, what the roundings
    can add is less than one unit, and no input of a band of liquidity wraps. -/
structure NotAboveBreakEven (a b : PoolState) (shared tokenIn : Address) : Prop where
  rate : netRate a tokenIn * netRate b shared ≤ 1
  slack : netRate b shared * netSlack a tokenIn + netSlack b shared < 1
  fits : InputsFit a tokenIn ∧ InputsFit b shared

/-- **Main theorem.** A rejected pair that is not above the break-even has no profitable size. -/
theorem rejected_noProfit (ha : OnConcentrated Sized a) (hb : OnConcentrated Sized b)
    (htokens : arbTokensFast a b shared = some (tokenIn, tokenOut))
    (hcond : NotAboveBreakEven a b shared tokenIn)
    (hreject : passesSpotPrefilter a b shared = false) :
    ∀ x, 1 ≤ x → x < 2 ^ 128 → twoHopProfitAt Q a b shared x = none := by
  intro x _ hx
  obtain ⟨hpriceA, hpriceB⟩ := prices_of_rejected hreject
  have hcycle := (netRate_within (Q := Q) shared hpriceA ha hcond.fits.1).bind
    (netRate_within (Q := Q) tokenOut hpriceB hb hcond.fits.2) (netRate_nonneg b shared)
  unfold twoHopProfitAt
  rw [htokens]
  simp only [Option.bind_eq_bind, Option.bind_some]
  by_contra hne
  obtain ⟨profit, hprofit⟩ := Option.ne_none_iff_exists'.mp hne
  obtain ⟨mid, hmid, hprofit⟩ := Option.bind_eq_some_iff.mp hprofit
  obtain ⟨out, hout, hprofit⟩ := Option.bind_eq_some_iff.mp hprofit
  have hle := hcycle.le_input hcond.rate hcond.slack hx
    (Option.bind_eq_some_iff.mpr ⟨mid, hmid, hout⟩)
  split_ifs at hprofit with hgain
  omega

/-- A V2 pool at the price 1. -/
def parityPool : UniswapV2PoolState where
  info := { token0 := 1, token1 := 2, fee := 30 }
  reserve0 := 10 ^ 15
  reserve1 := 10 ^ 15

/-- At the same price in both pools, a cycle of a million units has no profit. -/
theorem parity_noProfit :
    twoHopProfitAt silentQuotes (.uniswapV3 rangePool) (.uniswapV2 parityPool) 2 (10 ^ 6) =
      none := by
  have hrange : OnConcentrated Sized (.uniswapV3 rangePool) := show Sized rangePool by decide
  have hparity : OnConcentrated Sized (.uniswapV2 parityPool) := trivial
  have htokens : arbTokensFast (.uniswapV3 rangePool) (.uniswapV2 parityPool) 2 = some (1, 1) := by
    decide
  exact rejected_noProfit hrange hparity htokens
    ⟨by decide +kernel, by decide +kernel, trivial, trivial⟩ (by decide +kernel) (10 ^ 6)
    (by decide) (by decide)

/-! ## The margin -/

/-- The sides of a pool of two tokens, as the filter and as a quote take them. -/
theorem orient_of_sideFraction {info : PoolInfo} {side0 side1 : ℕ} {price : ℕ × ℕ}
    (hne : info.token0 ≠ info.token1) (hprice : sideFraction info shared side0 side1 = some price)
    (htoken : otherToken info shared = some tokenIn) :
    (price.1 ≠ 0 ∧ price.2 ≠ 0) ∧ orient info tokenIn side0 side1 = some price ∧
      orient info shared side0 side1 = some price.swap := by
  unfold sideFraction at hprice
  unfold otherToken at htoken
  unfold orient
  split_ifs at hprice htoken with h₀ h₁ h₂
  · obtain rfl := Option.some.inj hprice
    obtain rfl := Option.some.inj htoken
    rw [if_neg hne, if_pos rfl, if_pos h₁]
    exact ⟨⟨by dsimp only; omega, by dsimp only; omega⟩, rfl, rfl⟩
  · obtain rfl := Option.some.inj hprice
    obtain rfl := Option.some.inj htoken
    rw [if_pos rfl, if_neg h₁, if_pos h₂]
    exact ⟨⟨by dsimp only; omega, by dsimp only; omega⟩, rfl, rfl⟩

/-- **The margin.** A pair of V2 pools is rejected where its net rate is at most two parts in
    100,000 above the break-even. -/
theorem rejected_iff_netRate {v w : UniswapV2PoolState} (hv : v.info.token0 ≠ v.info.token1)
    (hw : w.info.token0 ≠ w.info.token1)
    (hpriceV : (marginalPriceFraction (.uniswapV2 v) shared).isSome)
    (hpriceW : (marginalPriceFraction (.uniswapV2 w) shared).isSome)
    (htoken : otherToken v.info shared = some tokenIn) :
    passesSpotPrefilter (.uniswapV2 v) (.uniswapV2 w) shared = false ↔
      netRate (.uniswapV2 v) tokenIn * netRate (.uniswapV2 w) shared ≤
        (prefilterSafetyNum : ℚ) / prefilterSafetyDen := by
  obtain ⟨cost, hcost⟩ := Option.isSome_iff_exists.mp hpriceV
  obtain ⟨yield, hyield⟩ := Option.isSome_iff_exists.mp hpriceW
  obtain ⟨tokenOut, htoken'⟩ := Option.isSome_iff_exists.mp (otherToken_isSome hpriceW)
  obtain ⟨hcost₀, horient, -⟩ := orient_of_sideFraction hv hcost htoken
  obtain ⟨hyield₀, -, horient'⟩ := orient_of_sideFraction hw hyield htoken'
  have hpass : passesSpotPrefilter (.uniswapV2 v) (.uniswapV2 w) shared =
      decide (yield.1 * cost.2 * v.info.feeTier.keptFraction.1 * w.info.feeTier.keptFraction.1 *
          prefilterSafetyDen >
        yield.2 * cost.1 * v.info.feeTier.keptFraction.2 * w.info.feeTier.keptFraction.2 *
          prefilterSafetyNum) := by
    unfold passesSpotPrefilter
    rw [hcost, hyield]
    rfl
  have hrate : netRate (.uniswapV2 v) tokenIn * netRate (.uniswapV2 w) shared =
      (v.info.feeTier.keptFraction.1 * cost.2 *
          (w.info.feeTier.keptFraction.1 * yield.1) : ℕ) /
        (v.info.feeTier.keptFraction.2 * cost.1 *
          (w.info.feeTier.keptFraction.2 * yield.2) : ℕ) := by
    unfold netRate
    dsimp only
    rw [horient, horient']
    unfold sideRate keptRate
    rw [Option.elim_some, Option.elim_some, div_mul_div_comm, div_mul_div_comm, div_mul_div_comm]
    push_cast
    rfl
  have hden : 0 < v.info.feeTier.keptFraction.2 * cost.1 *
      (w.info.feeTier.keptFraction.2 * yield.2) :=
    Nat.mul_pos (Nat.mul_pos (keptFraction_den_pos _) (Nat.pos_of_ne_zero hcost₀.1))
      (Nat.mul_pos (keptFraction_den_pos _) (Nat.pos_of_ne_zero hyield₀.2))
  rw [hpass, hrate, div_le_div_iff₀ (by exact_mod_cast hden) (by norm_num [prefilterSafetyDen]),
    decide_eq_false_iff_not, gt_iff_lt, Nat.not_lt, ← Nat.cast_mul, ← Nat.cast_mul, Nat.cast_le]
  constructor
  · intro h
    linarith
  · intro h
    linarith

/-- Two V2 pools with a fee of 0.3 % whose prices differ by as much as both fees, and one part in
    100,000 more. -/
def thinGapA : UniswapV2PoolState where
  info := { token0 := 1, token1 := 2, fee := 30 }
  reserve0 := 10 ^ 18
  reserve1 := 10 ^ 18

def thinGapB : UniswapV2PoolState where
  info := { token0 := 1, token1 := 2, fee := 30 }
  reserve0 := 1000010 * 10 ^ 12
  reserve1 := 994009 * 10 ^ 12

/-- The pair is rejected, although an input within both reserves has a profit. -/
theorem thinGap_rejected :
    passesSpotPrefilter (.uniswapV2 thinGapA) (.uniswapV2 thinGapB) 2 = false ∧
      1 ≤ 10 ^ 12 ∧ 10 ^ 12 ≤ maxInput ⟨10 ^ 18, 10 ^ 18, .bps 30⟩
        ⟨994009 * 10 ^ 12, 1000010 * 10 ^ 12, .bps 30⟩ ∧
      twoHopProfitAt silentQuotes (.uniswapV2 thinGapA) (.uniswapV2 thinGapB) 2 (10 ^ 12) =
        some 8002983 := by
  decide +kernel

end MevScout.Mev
