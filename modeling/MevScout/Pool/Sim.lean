import MevScout.Pool.Math.V3

/-!
# Post-swap states

Models of `core/src/pool/state/sim.rs`: quotes that also give the state of the pool after
the swap, for paper simulation.
-/

namespace MevScout.Pool

open Math

/-- `u128::checked_mul` and `u128::checked_add`. -/
def checkedU128 (n : ℕ) : Option ℕ := if n < 2 ^ 128 then some n else none

/-- Model of `constant_product_output_amount` (`math/core.rs`, lines 139–159). -/
def constantProductOutputAmount (amountIn reserveIn reserveOut : ℕ) (fee : FeeTier) : Option ℕ :=
  if amountIn = 0 ∨ reserveIn = 0 ∨ reserveOut = 0 then none
  else do
    let (feeFactor, feeDen) := fee.keptFraction
    let amountInWithFee ← checkedU128 (amountIn * feeFactor)
    let numerator ← checkedU128 (amountInWithFee * reserveOut)
    let scaled ← checkedU128 (reserveIn * feeDen)
    let denominator ← checkedU128 (scaled + amountInWithFee)
    let output := numerator / denominator
    if output = 0 then none else some output

/-- Model of `PoolPostState` (`sim.rs`, lines 15–26). -/
inductive PoolPostState where
  | v2 (reserve0 reserve1 : ℕ)
  | v3Family (sqrtPriceX96 : ℕ) (tick : ℤ) (liquidity : ℕ)
  deriving DecidableEq, Repr

/-- The arm of `quote_swap_post` for V2 pools (`sim.rs`, lines 42–76). -/
def quoteV2Post (v2 : UniswapV2PoolState) (tokenIn : Address) (amountIn : ℕ)
    (tokenOut : Address) : Option (ℕ × PoolPostState) := do
  let zeroForOne ←
    if v2.info.token0 = tokenIn ∧ v2.info.token1 = tokenOut then some true
    else if v2.info.token1 = tokenIn ∧ v2.info.token0 = tokenOut then some false
    else none
  let (reserveIn, reserveOut) :=
    if zeroForOne then (v2.reserve0, v2.reserve1) else (v2.reserve1, v2.reserve0)
  let amountOut ← constantProductOutputAmount amountIn reserveIn reserveOut v2.info.feeTier
  if zeroForOne then
    some (amountOut, .v2 (saturatingAdd 128 v2.reserve0 amountIn) (v2.reserve1 - amountOut))
  else
    some (amountOut, .v2 (v2.reserve0 - amountOut) (saturatingAdd 128 v2.reserve1 amountIn))

/-- The arm of `quote_swap_post` for V3, V4 and Pancake Infinity pools (`sim.rs`,
    lines 77–97). -/
def quoteV3Post (v3 : UniswapV3PoolState) (tokenIn : Address) (amountIn : ℕ)
    (tokenOut : Address) : Option (ℕ × PoolPostState) :=
  let direction := V3Direction.forInputToken tokenIn v3.info.token0
  if direction = .oneForZero ∧ v3.info.token1 ≠ tokenIn then none
  else
    let expectedOut := if direction = .zeroForOne then v3.info.token1 else v3.info.token0
    if expectedOut ≠ tokenOut then none
    else
      (quoteV3ExactInPost v3 amountIn direction).map fun post =>
        (post.amountOut, .v3Family post.sqrtPriceX96 post.tick post.liquidity)

/-- Model of `quote_swap_post` (`sim.rs`, lines 32–105). -/
def quoteSwapPost (pool : PoolState) (tokenIn : Address) (amountIn : ℕ) (tokenOut : Address) :
    Option (ℕ × PoolPostState) :=
  if amountIn = 0 then none
  else
    match pool with
    | .uniswapV2 v2 => quoteV2Post v2 tokenIn amountIn tokenOut
    | .uniswapV3 v3 | .uniswapV4 v3 | .pancakeInfinity v3 =>
      quoteV3Post v3 tokenIn amountIn tokenOut
    | .curve _ | .balancer _ | .traderJoeLB _ | .pendle _ | .metric _ | .fluid _ => none

/-- Model of `apply_post_state` (`sim.rs`, lines 108–128). -/
def applyPostState (pool : PoolState) (post : PoolPostState) : PoolState :=
  match post with
  | .v2 reserve0 reserve1 => pool.mapUniswapV2 fun v2 => { v2 with reserve0, reserve1 }
  | .v3Family sqrtPriceX96 tick liquidity =>
    pool.mapConcentrated fun v3 => { v3 with sqrtPriceX96, tick, liquidity }

end MevScout.Pool
