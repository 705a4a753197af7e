import MevScout.Pool.Sim

/-!
# Exact-input quotes

Models of `quote_exact_in` (`core/src/pool/math/core.rs`) and of the quotes of Liquidity Book and
Pendle pools. The quotes of Curve and Balancer pools are computed in floating point; they are the
two fields of `FloatQuotes`, and can be anything.

Results:
* `lbOutputAmount_eq`: within a bin, Liquidity Book pools quote as V2 pools do;
* `quoteExactIn_zero`: nothing is quoted for nothing.
-/

namespace MevScout.Pool

open Math

/-- `curve_output_amount` (`math/curve.rs`) and `balancer_quote_exact_in` (`math/balancer.rs`). -/
structure FloatQuotes where
  curveOutputAmount : ℕ → CurvePoolState → Address → Address → Option ℕ
  balancerQuoteExactIn : ℕ → BalancerPoolState → Address → Address → Option ℕ

/-- Model of `lb_output_amount` (`math/lb.rs`, lines 18–38). -/
def lbOutputAmount (amountIn reserveIn reserveOut : ℕ) (fee : FeeTier) : Option ℕ :=
  if amountIn = 0 ∨ reserveIn = 0 ∨ reserveOut = 0 then none
  else do
    let (feeFactor, feeDen) := fee.keptFraction
    let amountInEff ← checkedU128 (amountIn * feeFactor)
    let numerator ← checkedU128 (amountInEff * reserveOut)
    let scaled ← checkedU128 (reserveIn * feeDen)
    let denominator ← checkedU128 (scaled + amountInEff)
    let output := numerator / denominator
    if output = 0 then none else some output

/-- `PERMILLE_DENOMINATOR` and `MIN_DAMPING_PERMILLE` (`math/consts.rs`, lines 3 and 31). -/
def permilleDenominator : ℕ := 1000
def minDampingPermille : ℕ := 200

/-- Model of `pendle_output_amount` (`math/pendle.rs`, lines 30–73). -/
def pendleOutputAmount (amountIn totalIn totalOut : ℕ) : Option ℕ :=
  if amountIn = 0 ∨ totalIn = 0 ∨ totalOut = 0 then none
  else do
    let numerator ← checkedU128 (amountIn * totalOut)
    let denominator ← checkedU128 (totalIn + amountIn)
    let cpOutput := numerator / denominator
    let scaled ← checkedU128 (amountIn * permilleDenominator)
    let swapRatio1000 := scaled / totalIn
    if swapRatio1000 ≤ minDampingPermille then
      if cpOutput ≠ 0 then some cpOutput else none
    else
      let dampingPermille := max (permilleDenominator - swapRatio1000) minDampingPermille
      let damped ← checkedU128 (cpOutput * dampingPermille)
      let dampedOutput := damped / permilleDenominator
      if dampedOutput = 0 then none else some dampedOutput

/-- The sides of a pool with two tokens in the direction of a swap. -/
def orient (info : PoolInfo) (tokenIn : Address) (side0 side1 : ℕ) : Option (ℕ × ℕ) :=
  if info.token0 = tokenIn then some (side0, side1)
  else if info.token1 = tokenIn then some (side1, side0)
  else none

/-- Model of `quote_v3_exact_in` (`math/v3.rs`, lines 685–691). -/
def quoteV3ExactIn (pool : UniswapV3PoolState) (amountIn : ℕ) (direction : V3Direction) :
    Option ℕ :=
  (quoteV3ExactInPost pool amountIn direction).map V3QuotePostState.amountOut

/-- Model of `quote_exact_in` (`math/core.rs`, lines 53–119). -/
def quoteExactIn (Q : FloatQuotes) (pool : PoolState) (tokenIn tokenOut : Address)
    (amountIn : ℕ) : Option ℕ :=
  if amountIn = 0 then none
  else
    match pool with
    | .uniswapV2 v2 =>
      (orient v2.info tokenIn v2.reserve0 v2.reserve1).bind fun (reserveIn, reserveOut) =>
        constantProductOutputAmount amountIn reserveIn reserveOut v2.info.feeTier
    | .uniswapV3 v3 | .uniswapV4 v3 | .pancakeInfinity v3 =>
      let direction := V3Direction.forInputToken tokenIn v3.info.token0
      if direction = .oneForZero ∧ v3.info.token1 ≠ tokenIn then none
      else quoteV3ExactIn v3 amountIn direction
    | .curve curve =>
      if tokenIn ∉ curve.tokenIndex ∨ tokenOut ∉ curve.tokenIndex then none
      else Q.curveOutputAmount amountIn curve tokenIn tokenOut
    | .balancer bal =>
      if tokenIn ∉ bal.tokenIndex ∨ tokenOut ∉ bal.tokenIndex then none
      else Q.balancerQuoteExactIn amountIn bal tokenIn tokenOut
    | .traderJoeLB lb =>
      (orient lb.info tokenIn lb.reserveX lb.reserveY).bind fun (reserveIn, reserveOut) =>
        lbOutputAmount amountIn reserveIn reserveOut lb.info.feeTier
    | .pendle p =>
      (orient p.info tokenIn p.totalPt p.totalSy).bind fun (totalIn, totalOut) =>
        pendleOutputAmount amountIn totalIn totalOut
    | .metric _ | .fluid _ => none

/-- Within a bin, Liquidity Book pools quote as V2 pools do. -/
theorem lbOutputAmount_eq : lbOutputAmount = constantProductOutputAmount := rfl

@[simp] theorem quoteExactIn_zero (Q : FloatQuotes) (pool : PoolState)
    (tokenIn tokenOut : Address) : quoteExactIn Q pool tokenIn tokenOut 0 = none :=
  if_pos rfl

end MevScout.Pool
