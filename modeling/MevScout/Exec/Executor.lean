import MevScout.Exec.Plan
import MevScout.Pool.ConstantProduct
import MevScout.Pool.QuotePost

/-!
# V2 legs on the executor contract

Models of `_v2` and `_amountOut` of `contracts/src/FlashArbExecutor.sol`, against the quote that
the detectors make on the same reserves. The formula is the same. The quote takes an unset fee for
none, where a plan writes 30 basis points; and it multiplies in `u128`, where the contract has 256
bits.

Results:
* `pricedAlike_iff`: when the contract pays what the detector quotes, and pays nothing where it
  quotes nothing;
* `not_agreeing_unset`: every pool without a fee has an input that the two price differently;
* `unset_and_deep_differ`: a pool without a fee, and one with deep reserves.
-/

namespace MevScout.Exec

open Paper Pool Math

/-! ## The model -/

/-- A `uint256` of checked arithmetic; it reverts where it does not fit. -/
def checkedUint256 (n : ℕ) : Option ℕ := if n < 2 ^ 256 then some n else none

/-- Model of `_amountOut` (`FlashArbExecutor.sol`, lines 222–231). -/
def executorAmountOut (amountIn reserveIn reserveOut feeBps : ℕ) : Option ℕ := do
  let kept ← if feeBps ≤ 10000 then some (10000 - feeBps) else none
  let amountInWithFee ← checkedUint256 (amountIn * kept)
  let numerator ← checkedUint256 (amountInWithFee * reserveOut)
  let scaled ← checkedUint256 (reserveIn * 10000)
  let denominator ← checkedUint256 (scaled + amountInWithFee)
  if denominator = 0 then none else some (numerator / denominator)

/-- The reserves of `_v2` on the side of the input and on the other one. -/
def legReserves (token0 : Address) (r0 r1 : ℕ) (leg : ExecLeg) : ℕ × ℕ :=
  if leg.tokenIn = token0 then (r0, r1) else (r1, r0)

/-- Model of `_v2` (`FlashArbExecutor.sol`, lines 192–205): what it asks of the pair. -/
def executorV2 (token0 : Address) (r0 r1 : ℕ) (leg : ExecLeg) (amountIn : ℕ) : Option ℕ :=
  let (reserveIn, reserveOut) := legReserves token0 r0 r1 leg
  let feeBps := if leg.fee = 0 then 30 else leg.fee
  executorAmountOut amountIn reserveIn reserveOut feeBps

/-! ## Agreement -/

/-- The detector quotes what the contract asks of the pair, where that is not zero. -/
def PricedAlike (Q : FloatQuotes) (v2 : UniswapV2PoolState) (leg : ExecLeg) (amountIn : ℕ) :
    Prop :=
  ∀ out, quoteExactIn Q (.uniswapV2 v2) leg.tokenIn leg.tokenOut amountIn = some out ↔
    out ≠ 0 ∧ executorV2 v2.info.token0 v2.reserve0 v2.reserve1 leg amountIn = some out

/-- The products of the quote fit `u128`. -/
structure FitsQuote (fee : FeeTier) (amountIn reserveIn reserveOut : ℕ) : Prop where
  reserveIn_ne : reserveIn ≠ 0
  numerator : amountIn * fee.keptFraction.1 * reserveOut < 2 ^ 128
  denominator : reserveIn * fee.keptFraction.2 + amountIn * fee.keptFraction.1 < 2 ^ 128

/-- Where the products of the quote fit, the fee is set, or 30 basis points are less than the
    rounding takes. Where they do not fit, the contract rounds down to nothing. -/
structure Agreeing (info : PoolInfo) (legFee amountIn reserveIn reserveOut : ℕ) : Prop where
  fee : FitsQuote info.feeTier amountIn reserveIn reserveOut → info.fee = 0 →
    3 * (amountIn * reserveOut / (reserveIn + amountIn)) * reserveIn ≤
      997 * (amountIn * reserveOut % (reserveIn + amountIn))
  width : ¬FitsQuote info.feeTier amountIn reserveIn reserveOut →
    amountIn * (10000 - legFee) * reserveOut <
      max 1 (reserveIn * 10000 + amountIn * (10000 - legFee))

variable {pools : PoolMap} {path : List Address} {legs : List ExecLeg} {leg : ExecLeg}
  {v2 : UniswapV2PoolState} {opp : MevOpportunity} {plan : ExecPlan}
  {amountIn reserveIn reserveOut out : ℕ}

/-! ## The legs of a plan -/

/-- A leg is what `classify_leg` makes of its pool and its input token. -/
theorem classifyLeg_of_mem {a : Address} (h : planLegs pools path a = some legs)
    (hleg : leg ∈ legs) : ∃ state, pools[leg.pool]? = some state ∧
      classifyLeg state leg.tokenIn = some (leg.kind, leg.fee, leg.tokenOut) := by
  induction path generalizing a legs with
  | nil =>
    obtain rfl := Option.some.inj h
    cases hleg
  | cons pool path ih =>
    obtain ⟨state, hstate, h⟩ := Option.bind_eq_some_iff.mp h
    obtain ⟨⟨kind, fee, tokenOut⟩, hclass, h⟩ := Option.bind_eq_some_iff.mp h
    obtain ⟨rest, hrest, h⟩ := Option.bind_eq_some_iff.mp h
    obtain rfl := Option.some.inj h
    rcases List.mem_cons.mp hleg with rfl | hleg
    · exact ⟨state, hstate, hclass⟩
    · exact ih hrest hleg

/-- What the leg of a V2 pool is made of. -/
structure V2Leg (v2 : UniswapV2PoolState) (leg : ExecLeg) : Prop where
  token : v2.info.token0 = leg.tokenIn ∨ v2.info.token1 = leg.tokenIn
  fee : (v2.info.fee = 0 ∧ v2.info.feeTier = .unset ∧ leg.fee = 30) ∨
    (v2.info.fee ≠ 0 ∧ v2.info.feeTier = .bps leg.fee ∧ 1 ≤ leg.fee ∧ leg.fee < 10000)

theorem v2Leg_of_classifyLeg
    (h : classifyLeg (.uniswapV2 v2) leg.tokenIn = some (leg.kind, leg.fee, leg.tokenOut)) :
    V2Leg v2 leg := by
  have hother := classifyLeg_tokenOut h
  obtain ⟨-, h⟩ := Option.ite_none_left_eq_some.mp h
  obtain ⟨tokenOut, -, h⟩ := Option.bind_eq_some_iff.mp h
  obtain ⟨hdex, h⟩ := Option.ite_none_right_eq_some.mp h
  obtain ⟨fee, hfee, heq⟩ := Option.map_eq_some_iff.mp h
  obtain rfl : fee = leg.fee := by
    simp only [Prod.mk.injEq] at heq
    exact heq.2.1
  constructor
  · unfold otherToken at hother
    split_ifs at hother with h₀ h₁
    · exact .inl h₀
    · exact .inr h₁
  · by_cases hzero : v2.info.fee = 0
    · have htier : v2.info.feeTier = .unset := by
        unfold PoolInfo.feeTier FeeTier.fromRaw
        rw [if_pos hzero]
        rcases hdex with hdex | hdex | hdex <;> rw [hdex]
      rw [htier] at hfee
      exact .inl ⟨hzero, htier, (Option.some.inj hfee).symm⟩
    · have htier : v2.info.feeTier = .bps v2.info.fee := by
        unfold PoolInfo.feeTier FeeTier.fromRaw
        rw [if_neg hzero]
        rcases hdex with hdex | hdex | hdex <;> rw [hdex]
      rw [htier] at hfee
      obtain ⟨hrange, hsome⟩ := Option.ite_none_right_eq_some.mp hfee
      rw [Option.some.inj hsome] at htier hrange
      exact .inr ⟨hzero, htier, hrange⟩

/-! ## The two formulas -/

theorem keptFraction_bps {feeBps : ℕ} (hfee : feeBps ≤ 10000) :
    (FeeTier.bps feeBps).keptFraction = (10000 - feeBps, 10000) := by
  show (10000 - min feeBps 10000, 10000) = _
  rw [Nat.min_eq_left hfee]

/-- The contract computes the quotient: nothing that it multiplies exceeds 256 bits. -/
theorem executorAmountOut_eq_some_iff {feeBps : ℕ} (hfee : feeBps ≤ 10000)
    (hx : amountIn < 2 ^ 128) (hi : reserveIn < 2 ^ 112) (ho : reserveOut < 2 ^ 112) :
    (out ≠ 0 ∧ executorAmountOut amountIn reserveIn reserveOut feeBps = some out) ↔
      out ≠ 0 ∧ outputFloor amountIn reserveIn reserveOut (.bps feeBps) = out := by
  unfold executorAmountOut outputFloor
  rw [keptFraction_bps hfee, if_pos hfee]
  generalize hk : 10000 - feeBps = k
  have hk' : k ≤ 2 ^ 14 := by omega
  have hwith : amountIn * k ≤ 2 ^ 128 * 2 ^ 14 := Nat.mul_le_mul hx.le hk'
  have hnum : amountIn * k * reserveOut ≤ 2 ^ 128 * 2 ^ 14 * 2 ^ 112 :=
    Nat.mul_le_mul hwith ho.le
  have hfits {n : ℕ} (hn : n < 2 ^ 256) : checkedUint256 n = some n := if_pos hn
  simp only [Option.bind_eq_bind, Option.bind_some]
  rw [hfits (by omega), Option.bind_some, hfits (by omega), Option.bind_some, hfits (by omega),
    Option.bind_some, hfits (by omega), Option.bind_some]
  refine and_congr_right fun hout => ?_
  by_cases hden : reserveIn * 10000 + amountIn * k = 0
  · rw [if_pos hden, hden, Nat.div_zero]
    exact ⟨nofun, fun h => absurd h.symm hout⟩
  · rw [if_neg hden, Option.some.injEq]

/-- The detector quotes the quotient where its products fit. -/
theorem quote_eq_some_iff {fee : FeeTier} :
    constantProductOutputAmount amountIn reserveIn reserveOut fee = some out ↔
      out ≠ 0 ∧ FitsQuote fee amountIn reserveIn reserveOut ∧
        outputFloor amountIn reserveIn reserveOut fee = out := by
  rw [constantProductOutputAmount_eq_some_iff]
  constructor
  · rintro ⟨⟨-, hi, -⟩, hn, hd, hout, hpos⟩
    exact ⟨hpos, ⟨hi, hn, hd⟩, hout⟩
  · rintro ⟨hpos, hfits, hout⟩
    refine ⟨⟨?_, hfits.reserveIn_ne, ?_⟩, hfits.numerator, hfits.denominator, hout, hpos⟩
    · rintro rfl
      exact hpos (by rw [← hout, outputFloor, Nat.zero_mul, Nat.zero_mul, Nat.zero_div])
    · rintro rfl
      exact hpos (by rw [← hout, outputFloor, Nat.mul_zero, Nat.zero_div])

/-- Thirty basis points leave the quotient as it is exactly when the remainder pays for them. -/
theorem outputFloor_unset_eq_iff (hi : reserveIn ≠ 0) :
    outputFloor amountIn reserveIn reserveOut .unset =
        outputFloor amountIn reserveIn reserveOut (.bps 30) ↔
      3 * (amountIn * reserveOut / (reserveIn + amountIn)) * reserveIn ≤
        997 * (amountIn * reserveOut % (reserveIn + amountIn)) := by
  have hfree : outputFloor amountIn reserveIn reserveOut .unset =
      amountIn * reserveOut / (reserveIn + amountIn) := by
    show amountIn * 10000 * reserveOut / (reserveIn * 10000 + amountIn * 10000) = _
    rw [← Nat.add_mul, Nat.mul_right_comm, Nat.mul_div_mul_right _ _ (by omega)]
  have hpaid : outputFloor amountIn reserveIn reserveOut (.bps 30) =
      amountIn * 9970 * reserveOut / (reserveIn * 10000 + amountIn * 9970) := rfl
  rw [hfree, hpaid, eq_comm, Nat.div_eq_iff (by omega)]
  have hdiv := Nat.div_add_mod (amountIn * reserveOut) (reserveIn + amountIn)
  have hmod := Nat.mod_lt (amountIn * reserveOut) (show 0 < reserveIn + amountIn by omega)
  generalize amountIn * reserveOut / (reserveIn + amountIn) = q at hdiv ⊢
  generalize amountIn * reserveOut % (reserveIn + amountIn) = r at hdiv hmod ⊢
  have hnum : amountIn * 9970 * reserveOut = 9970 * (amountIn * reserveOut) := by ring
  rw [hnum, ← hdiv]
  constructor
  · rintro ⟨hle, -⟩
    nlinarith
  · intro hle
    have hlt : 9970 * ((reserveIn + amountIn) * q + r) <
        q * (reserveIn * 10000 + amountIn * 9970) + (reserveIn * 10000 + amountIn * 9970) := by
      nlinarith [Nat.zero_le (q * reserveIn)]
    exact ⟨by nlinarith, Nat.le_sub_one_of_lt hlt⟩

theorem outputFloor_eq_zero_iff {feeBps : ℕ} (hfee : feeBps ≤ 10000) :
    outputFloor amountIn reserveIn reserveOut (.bps feeBps) = 0 ↔
      amountIn * (10000 - feeBps) * reserveOut <
        max 1 (reserveIn * 10000 + amountIn * (10000 - feeBps)) := by
  unfold outputFloor
  rw [keptFraction_bps hfee, Nat.div_eq_zero_iff, lt_max_iff]
  dsimp only
  constructor
  · rintro (hden | hlt)
    · rw [(Nat.add_eq_zero_iff.mp hden).2, Nat.zero_mul]
      exact .inl one_pos
    · exact .inr hlt
  · rintro (hzero | hlt)
    · rcases Nat.eq_zero_or_pos (reserveIn * 10000 + amountIn * (10000 - feeBps)) with hden | hden
      · exact .inl hden
      · exact .inr (lt_of_lt_of_le hzero hden)
    · exact .inr hlt

/-! ## Main result -/

theorem V2Leg.quote_iff (h : V2Leg v2 leg) (Q : FloatQuotes) :
    quoteExactIn Q (.uniswapV2 v2) leg.tokenIn leg.tokenOut amountIn = some out ↔
      constantProductOutputAmount amountIn
        (legReserves v2.info.token0 v2.reserve0 v2.reserve1 leg).1
        (legReserves v2.info.token0 v2.reserve0 v2.reserve1 leg).2 v2.info.feeTier = some out := by
  have horient : orient v2.info leg.tokenIn v2.reserve0 v2.reserve1 =
      some (legReserves v2.info.token0 v2.reserve0 v2.reserve1 leg) := by
    unfold orient legReserves
    by_cases h₀ : v2.info.token0 = leg.tokenIn
    · rw [if_pos h₀, if_pos h₀.symm]
    · rw [if_neg h₀, if_neg (Ne.symm h₀), if_pos (h.token.resolve_left h₀)]
  by_cases hx : amountIn = 0
  · subst hx
    rw [quoteExactIn_zero, constantProductOutputAmount, if_pos (.inl rfl)]
  · rw [quoteExactIn, if_neg hx]
    show (orient v2.info leg.tokenIn v2.reserve0 v2.reserve1).bind _ = _ ↔ _
    rw [horient, Option.bind_some]

theorem V2Leg.fee_mem (h : V2Leg v2 leg) : leg.fee ∈ Set.Icc 1 10000 := by
  rw [Set.mem_Icc]
  rcases h.fee with ⟨-, -, hthirty⟩ | ⟨-, -, hlo, hhi⟩ <;> omega

theorem legReserves_lt {token0 : Address} {reserve0 reserve1 : ℕ} (h₀ : reserve0 < 2 ^ 112)
    (h₁ : reserve1 < 2 ^ 112) : (legReserves token0 reserve0 reserve1 leg).1 < 2 ^ 112 ∧
      (legReserves token0 reserve0 reserve1 leg).2 < 2 ^ 112 := by
  unfold legReserves
  split_ifs
  · exact ⟨h₀, h₁⟩
  · exact ⟨h₁, h₀⟩

/-- An unset fee is priced apart from 30 basis points; a set one is the fee of the leg. -/
theorem V2Leg.outputFloor_eq_iff (h : V2Leg v2 leg) (hi : reserveIn ≠ 0) :
    outputFloor amountIn reserveIn reserveOut v2.info.feeTier =
        outputFloor amountIn reserveIn reserveOut (.bps leg.fee) ↔
      (v2.info.fee = 0 → 3 * (amountIn * reserveOut / (reserveIn + amountIn)) * reserveIn ≤
        997 * (amountIn * reserveOut % (reserveIn + amountIn))) := by
  rcases h.fee with ⟨hzero, htier, hthirty⟩ | ⟨hne, htier, -, -⟩
  · rw [htier, hthirty, outputFloor_unset_eq_iff hi]
    exact ⟨fun h _ => h, fun h => h hzero⟩
  · rw [htier]
    exact ⟨fun _ h => absurd h hne, fun _ => rfl⟩

/-- Without a fee, the input that takes all but one unit of the reserve is priced differently. -/
theorem not_agreeing_unset {info : PoolInfo} {legFee : ℕ} (hfee : info.fee = 0)
    (hi : 0 < reserveIn) (ho : 1 < reserveOut)
    (hfits : FitsQuote info.feeTier ((reserveOut - 1) * reserveIn) reserveIn reserveOut) :
    ¬Agreeing info legFee ((reserveOut - 1) * reserveIn) reserveIn reserveOut := by
  intro h
  have hrem := h.fee hfits hfee
  obtain ⟨n, rfl⟩ : ∃ n, reserveOut = n + 1 := ⟨reserveOut - 1, by omega⟩
  have hprod : (n + 1 - 1) * reserveIn * (n + 1) =
      (reserveIn + (n + 1 - 1) * reserveIn) * n := by
    rw [Nat.add_sub_cancel]
    ring
  rw [hprod, Nat.mul_mod_right, Nat.mul_div_cancel_left _ (by omega), mul_zero] at hrem
  have hpos : 0 < 3 * n * reserveIn := by
    have : 0 < n := by omega
    positivity
  omega

/-- **Main theorem.** The V2 legs of an accepted plan are priced alike exactly where the fee is
    set, or does not show, and the products of the quote fit, or nothing is paid. -/
theorem pricedAlike_iff (Q : FloatQuotes) {vault : Address} {provider : FlashLoanProvider}
    {minProfit deadline : ℕ}
    (hplan : planFromOpportunity opp pools vault provider minProfit deadline = .ok plan)
    (hleg : leg ∈ plan.legs) (hpool : pools[leg.pool]? = some (.uniswapV2 v2))
    (h₀ : v2.reserve0 < 2 ^ 112) (h₁ : v2.reserve1 < 2 ^ 112) (hx : amountIn < 2 ^ 128) :
    PricedAlike Q v2 leg amountIn ↔
      Agreeing v2.info leg.fee amountIn
        (legReserves v2.info.token0 v2.reserve0 v2.reserve1 leg).1
        (legReserves v2.info.token0 v2.reserve0 v2.reserve1 leg).2 := by
  obtain ⟨-, hlegs, -⟩ := planFromOpportunity_ok hplan
  obtain ⟨state, hstate, hclass⟩ := classifyLeg_of_mem hlegs hleg
  rw [hpool] at hstate
  obtain rfl := Option.some.inj hstate
  have hv2 := v2Leg_of_classifyLeg hclass
  obtain ⟨hset, hle⟩ := hv2.fee_mem
  have hfee : (if leg.fee = 0 then 30 else leg.fee) = leg.fee := if_neg (by omega)
  obtain ⟨hi, ho⟩ : (legReserves v2.info.token0 v2.reserve0 v2.reserve1 leg).1 < 2 ^ 112 ∧
      (legReserves v2.info.token0 v2.reserve0 v2.reserve1 leg).2 < 2 ^ 112 := legReserves_lt h₀ h₁
  unfold PricedAlike executorV2
  simp only [hv2.quote_iff, hfee, executorAmountOut_eq_some_iff hle hx hi ho, quote_eq_some_iff]
  generalize (legReserves v2.info.token0 v2.reserve0 v2.reserve1 leg).1 = rI at hi ⊢
  generalize (legReserves v2.info.token0 v2.reserve0 v2.reserve1 leg).2 = rO at ho ⊢
  have hsame (hfits : FitsQuote v2.info.feeTier amountIn rI rO) :
      outputFloor amountIn rI rO v2.info.feeTier = outputFloor amountIn rI rO (.bps leg.fee) ↔
        (v2.info.fee = 0 → 3 * (amountIn * rO / (rI + amountIn)) * rI ≤
          997 * (amountIn * rO % (rI + amountIn))) := hv2.outputFloor_eq_iff hfits.reserveIn_ne
  constructor
  · intro h
    refine ⟨fun hfits => (hsame hfits).mp ?_, fun hfits => (outputFloor_eq_zero_iff hle).mp ?_⟩
    · by_cases hzero : outputFloor amountIn rI rO v2.info.feeTier = 0
      · by_contra hne
        have hpaid := (h _).mpr ⟨fun hpaid => hne (hzero.trans hpaid.symm), rfl⟩
        exact hne hpaid.2.2
      · exact ((h _).mp ⟨hzero, hfits, rfl⟩).2.symm
    · by_contra hne
      exact hfits ((h _).mpr ⟨hne, rfl⟩).2.1
  · rintro ⟨hfee, hwidth⟩ out
    by_cases hfits : FitsQuote v2.info.feeTier amountIn rI rO
    · rw [(hsame hfits).mpr (hfee hfits)]
      exact and_congr_right fun _ => and_iff_right hfits
    · have hzero := (outputFloor_eq_zero_iff hle).mpr (hwidth hfits)
      constructor
      · rintro ⟨-, hfits', -⟩
        exact absurd hfits' hfits
      · rintro ⟨hne, rfl⟩
        exact absurd hzero hne

/-- A V2 pool of the tokens 1 and 2 with equal reserves. -/
def evenPool (fee reserve : ℕ) : UniswapV2PoolState where
  info := { address := 11, token0 := 1, token1 := 2, fee }
  reserve0 := reserve
  reserve1 := reserve

/-- The leg out of two pools, whose fee is set and whose reserves are shallow. -/
theorem two_pools_pricedAlike :
    PricedAlike silentQuotes (evenPool 30 (10 ^ 6)) (pairLeg 11 1 2) 1000 := by
  have hplan : planFromOpportunity (borrowOpp [11, 12]) twoPools 9 .auto 1 12 =
      .ok (borrowPlan [pairLeg 11 1 2, pairLeg 12 2 1]) := by decide +kernel
  refine (pricedAlike_iff silentQuotes hplan (List.mem_cons_self ..) (by decide +kernel)
    (by decide) (by decide) (by decide)).mpr ⟨fun _ h => absurd h (by decide), fun h => ?_⟩
  exact absurd ⟨by decide, by decide, by decide⟩ h

/-- A pool without a fee is quoted 999 for 1000, and pays 996. A pool with a million tokens of 18
    decimals on each side pays 9871 tokens for ten thousand, and has no quote. -/
theorem unset_and_deep_differ :
    planFromOpportunity (borrowOpp [11]) {(11, .uniswapV2 (evenPool 0 (10 ^ 6)))} 9 .auto 1 12 =
        .ok (borrowPlan [pairLeg 11 1 2]) ∧
      quoteExactIn silentQuotes (.uniswapV2 (evenPool 0 (10 ^ 6))) 1 2 1000 = some 999 ∧
      executorV2 1 (10 ^ 6) (10 ^ 6) (pairLeg 11 1 2) 1000 = some 996 ∧
      ¬PricedAlike silentQuotes (evenPool 0 (10 ^ 6)) (pairLeg 11 1 2) 1000 ∧
      planFromOpportunity (borrowOpp [11]) {(11, .uniswapV2 (evenPool 30 (10 ^ 24)))} 9 .auto 1 12 =
        .ok (borrowPlan [pairLeg 11 1 2]) ∧
      quoteExactIn silentQuotes (.uniswapV2 (evenPool 30 (10 ^ 24))) 1 2 (10 ^ 22) = none ∧
      ¬PricedAlike silentQuotes (evenPool 30 (10 ^ 24)) (pairLeg 11 1 2) (10 ^ 22) := by
  have hfree : quoteExactIn silentQuotes (.uniswapV2 (evenPool 0 (10 ^ 6))) 1 2 1000 =
      some 999 := by decide
  have hpaid : executorV2 1 (10 ^ 6) (10 ^ 6) (pairLeg 11 1 2) 1000 = some 996 := by decide
  have hdeep : quoteExactIn silentQuotes (.uniswapV2 (evenPool 30 (10 ^ 24))) 1 2 (10 ^ 22) =
      none := by decide
  refine ⟨by decide +kernel, hfree, hpaid, fun h => ?_, by decide +kernel, hdeep, fun h => ?_⟩
  · have hboth := ((h 999).mp hfree).2
    exact absurd (hpaid.symm.trans hboth) (by decide)
  · have hboth := (h 9871580343970612988504).mpr ⟨by decide, by decide⟩
    exact absurd (hdeep.symm.trans hboth) nofun

end MevScout.Exec
