import MevScout.Pool.Quote

/-!
# The quote of the detectors and the quote of the simulation

`quote_exact_in` prices for the detectors, `quote_swap_post` for the simulation. Each decides by
itself which tokens a pool trades. The first looks at the output token of a Curve or Balancer pool
only, and never asks for two different tokens.

Results:
* `quoteSwapPost_eq_some_iff`: the simulation prices what the detectors price, in the direction of
  the two tokens;
* `quotesAlike_iff`: when the two agree, and a price is for two distinct tokens of the pool;
* `foreign_token_quoted`: a pool that prices a token which it does not trade.
-/

namespace MevScout.Pool

open Math

variable {Q : FloatQuotes} {pool : PoolState} {tokenIn tokenOut : Address} {amountIn out : ℕ}

/-- The tokens that the quotes of a pool know: those of the index for Curve and Balancer pools, and
    the two of its information otherwise. -/
def HasToken (pool : PoolState) (token : Address) : Prop :=
  match pool with
  | .curve c => token ∈ c.tokenIndex
  | .balancer b => token ∈ b.tokenIndex
  | pool => token = pool.info.token0 ∨ token = pool.info.token1

/-- Two distinct tokens of a pool. -/
structure TradesPair (pool : PoolState) (tokenIn tokenOut : Address) : Prop where
  tokenIn_mem : HasToken pool tokenIn
  tokenOut_mem : HasToken pool tokenOut
  ne : tokenIn ≠ tokenOut

/-- The pools that `quote_swap_post` simulates. -/
def Simulated : PoolState → Prop
  | .uniswapV2 _ | .uniswapV3 _ | .uniswapV4 _ | .pancakeInfinity _ => True
  | .curve _ | .balancer _ | .traderJoeLB _ | .pendle _ | .metric _ | .fluid _ => False

/-- A price is for two distinct tokens of the pool, and the pools that are simulated have the same
    price in the simulation. -/
structure QuotesAlike (Q : FloatQuotes) (pool : PoolState) (tokenIn tokenOut : Address)
    (amountIn : ℕ) : Prop where
  tokens : ∀ out, quoteExactIn Q pool tokenIn tokenOut amountIn = some out →
    TradesPair pool tokenIn tokenOut
  simulated : Simulated pool → ∀ out,
    (∃ post, quoteSwapPost pool tokenIn amountIn tokenOut = some (out, post)) ↔
      quoteExactIn Q pool tokenIn tokenOut amountIn = some out

/-- The formula of the pool has an output for the amount, in the direction of the token that comes
    in. Metric and Fluid pools have no formula. -/
def Priced (Q : FloatQuotes) (pool : PoolState) (tokenIn tokenOut : Address) (amountIn : ℕ) :
    Prop :=
  amountIn ≠ 0 ∧
    match pool with
    | .uniswapV2 v2 => ∃ r ∈ orient v2.info tokenIn v2.reserve0 v2.reserve1,
      (constantProductOutputAmount amountIn r.1 r.2 v2.info.feeTier).isSome
    | .uniswapV3 v3 | .uniswapV4 v3 | .pancakeInfinity v3 =>
      (tokenIn = v3.info.token0 ∨ tokenIn = v3.info.token1) ∧
        (quoteV3ExactIn v3 amountIn (.forInputToken tokenIn v3.info.token0)).isSome
    | .curve c => tokenIn ∈ c.tokenIndex ∧ tokenOut ∈ c.tokenIndex ∧
      (Q.curveOutputAmount amountIn c tokenIn tokenOut).isSome
    | .balancer b => tokenIn ∈ b.tokenIndex ∧ tokenOut ∈ b.tokenIndex ∧
      (Q.balancerQuoteExactIn amountIn b tokenIn tokenOut).isSome
    | .traderJoeLB lb => ∃ r ∈ orient lb.info tokenIn lb.reserveX lb.reserveY,
      (lbOutputAmount amountIn r.1 r.2 lb.info.feeTier).isSome
    | .pendle p => ∃ r ∈ orient p.info tokenIn p.totalPt p.totalSy,
      (pendleOutputAmount amountIn r.1 r.2).isSome
    | .metric _ | .fluid _ => False

/-! ## The two functions -/

/-- The tokens are the two of the pool's information, in either order. -/
def Opposite (info : PoolInfo) (tokenIn tokenOut : Address) : Prop :=
  (info.token0 = tokenIn ∧ info.token1 = tokenOut) ∨
    (info.token1 = tokenIn ∧ info.token0 = tokenOut)

theorem priced_iff : Priced Q pool tokenIn tokenOut amountIn ↔
    ∃ out, quoteExactIn Q pool tokenIn tokenOut amountIn = some out := by
  unfold Priced quoteExactIn
  by_cases hx : amountIn = 0
  · rw [if_pos hx]
    exact ⟨fun h => absurd hx h.1, fun ⟨_, h⟩ => nomatch h⟩
  rw [if_neg hx, and_iff_right hx]
  have hsides {o : Option (ℕ × ℕ)} {f : ℕ × ℕ → Option ℕ} :
      (∃ r ∈ o, (f r).isSome) ↔ ∃ out, o.bind f = some out := by
    cases o <;> simp [Option.isSome_iff_exists]
  have hslots {tokens : TokenSlots} {o : Option ℕ} :
      (tokenIn ∈ tokens ∧ tokenOut ∈ tokens ∧ o.isSome) ↔
        ∃ out, (if tokenIn ∉ tokens ∨ tokenOut ∉ tokens then none else o) = some out := by
    split_ifs with h
    · simp only [exists_false, iff_false]
      tauto
    · simp only [Option.isSome_iff_exists]
      tauto
  have hrange (v3 : UniswapV3PoolState) :
      ((tokenIn = v3.info.token0 ∨ tokenIn = v3.info.token1) ∧
        (quoteV3ExactIn v3 amountIn (.forInputToken tokenIn v3.info.token0)).isSome) ↔
        ∃ out, (if V3Direction.forInputToken tokenIn v3.info.token0 = .oneForZero ∧
          v3.info.token1 ≠ tokenIn then none
          else quoteV3ExactIn v3 amountIn (.forInputToken tokenIn v3.info.token0)) = some out := by
    unfold V3Direction.forInputToken
    by_cases h₀ : tokenIn = v3.info.token0
    · simp [h₀, Option.isSome_iff_exists]
    · by_cases h₁ : tokenIn = v3.info.token1
      · simp [h₁, Option.isSome_iff_exists]
      · simp [h₀, h₁, Ne.symm h₁]
  cases pool with
  | uniswapV2 v2 => exact hsides
  | uniswapV3 v3 | uniswapV4 v3 | pancakeInfinity v3 => exact hrange v3
  | curve c => exact hslots
  | balancer b => exact hslots
  | traderJoeLB lb => exact hsides
  | pendle p => exact hsides
  | metric m | fluid f => exact ⟨False.elim, fun ⟨_, h⟩ => nomatch h⟩

theorem quoteV2Post_eq_some_iff (v2 : UniswapV2PoolState) :
    (∃ post, quoteV2Post v2 tokenIn amountIn tokenOut = some (out, post)) ↔
      (orient v2.info tokenIn v2.reserve0 v2.reserve1).bind (fun r =>
        constantProductOutputAmount amountIn r.1 r.2 v2.info.feeTier) = some out ∧
      Opposite v2.info tokenIn tokenOut := by
  unfold quoteV2Post orient Opposite
  by_cases h₀ : v2.info.token0 = tokenIn ∧ v2.info.token1 = tokenOut
  · rw [if_pos h₀, if_pos h₀.1]
    cases hq : constantProductOutputAmount amountIn v2.reserve0 v2.reserve1 v2.info.feeTier <;>
      simp [hq, h₀]
  · rw [if_neg h₀]
    by_cases h₁ : v2.info.token1 = tokenIn ∧ v2.info.token0 = tokenOut
    · have hne : v2.info.token0 ≠ tokenIn := by
        rintro h
        exact h₀ ⟨h, h₁.1.trans (h.symm.trans h₁.2)⟩
      rw [if_pos h₁, if_neg hne, if_pos h₁.1]
      cases hq : constantProductOutputAmount amountIn v2.reserve1 v2.reserve0 v2.info.feeTier <;>
        simp [hq, h₁]
    · rw [if_neg h₁]
      simp [h₀, h₁]

theorem quoteV3Post_eq_some_iff (v3 : UniswapV3PoolState) :
    (∃ post, quoteV3Post v3 tokenIn amountIn tokenOut = some (out, post)) ↔
      (if V3Direction.forInputToken tokenIn v3.info.token0 = .oneForZero ∧
        v3.info.token1 ≠ tokenIn then none
        else quoteV3ExactIn v3 amountIn (.forInputToken tokenIn v3.info.token0)) = some out ∧
      Opposite v3.info tokenIn tokenOut := by
  unfold quoteV3Post quoteV3ExactIn Opposite V3Direction.forInputToken
  by_cases h₀ : tokenIn = v3.info.token0
  · simp only [h₀, if_true, reduceCtorEq, false_and, if_false]
    by_cases h₁ : v3.info.token1 = tokenOut
    · cases quoteV3ExactInPost v3 amountIn .zeroForOne <;> simp [h₁]
    · have hnot : ¬(v3.info.token1 = v3.info.token0 ∧ v3.info.token0 = tokenOut) :=
        fun h => h₁ (h.1.trans h.2)
      simp [h₁, hnot]
  · have hne : v3.info.token0 ≠ tokenIn := Ne.symm h₀
    simp only [h₀, if_false, true_and, reduceCtorEq, hne, false_and, false_or]
    by_cases h₁ : v3.info.token1 = tokenIn
    · by_cases h₂ : v3.info.token0 = tokenOut
      · cases quoteV3ExactInPost v3 amountIn .oneForZero <;> simp [h₁, h₂]
      · simp [h₁, h₂]
    · simp [h₁]

/-- The simulation prices what the detectors price, where the output token is the other one. -/
theorem quoteSwapPost_eq_some_iff (Q : FloatQuotes) (h : Simulated pool) :
    (∃ post, quoteSwapPost pool tokenIn amountIn tokenOut = some (out, post)) ↔
      quoteExactIn Q pool tokenIn tokenOut amountIn = some out ∧
        Opposite pool.info tokenIn tokenOut := by
  unfold quoteSwapPost quoteExactIn
  by_cases hx : amountIn = 0
  · simp [hx]
  rw [if_neg hx, if_neg hx]
  cases pool with
  | uniswapV2 v2 => exact quoteV2Post_eq_some_iff v2
  | uniswapV3 v3 | uniswapV4 v3 | pancakeInfinity v3 => exact quoteV3Post_eq_some_iff v3
  | curve _ | balancer _ | traderJoeLB _ | pendle _ | metric _ | fluid _ => exact h.elim

theorem TradesPair.opposite (h : TradesPair pool tokenIn tokenOut) (hsim : Simulated pool) :
    Opposite pool.info tokenIn tokenOut := by
  have hmem (token : Address) (htoken : HasToken pool token) :
      token = pool.info.token0 ∨ token = pool.info.token1 := by
    cases pool with
    | uniswapV2 _ | uniswapV3 _ | uniswapV4 _ | pancakeInfinity _ => exact htoken
    | curve _ | balancer _ | traderJoeLB _ | pendle _ | metric _ | fluid _ => exact hsim.elim
  have hne := h.ne
  rcases hmem _ h.tokenIn_mem with hin | hin <;> rcases hmem _ h.tokenOut_mem with hout | hout
  · exact absurd (hin.trans hout.symm) hne
  · exact .inl ⟨hin.symm, hout.symm⟩
  · exact .inr ⟨hin.symm, hout.symm⟩
  · exact absurd (hin.trans hout.symm) hne

/-- **Main theorem.** The two quotes agree exactly where the call does not reach the formula of a
    pool, or is for two distinct tokens of it. -/
theorem quotesAlike_iff (Q : FloatQuotes) (pool : PoolState) (tokenIn tokenOut : Address)
    (amountIn : ℕ) : QuotesAlike Q pool tokenIn tokenOut amountIn ↔
      (Priced Q pool tokenIn tokenOut amountIn → TradesPair pool tokenIn tokenOut) := by
  rw [priced_iff]
  constructor
  · rintro h ⟨out, hout⟩
    exact h.tokens out hout
  · intro h
    refine ⟨fun out hout => h ⟨out, hout⟩, fun hsim out => ?_⟩
    rw [quoteSwapPost_eq_some_iff Q hsim]
    exact and_iff_left_of_imp fun hout => (h ⟨out, hout⟩).opposite hsim

/-- A V2 pool of the tokens 1 and 2. -/
def twoTokenPool : PoolState :=
  .uniswapV2
    { info := { address := 10, token0 := 1, token1 := 2, fee := 30 }
      reserve0 := 1000000
      reserve1 := 2000000 }

/-- No quotes of Curve and Balancer pools. -/
def silentQuotes : FloatQuotes := ⟨fun _ _ _ _ => none, fun _ _ _ _ => none⟩

/-- The pool of the tokens 1 and 2 prices 1000 of the token 1 for the token 3, which it does not
    trade and the simulation refuses, and for the token 1 itself. -/
theorem foreign_token_quoted :
    ¬QuotesAlike silentQuotes twoTokenPool 1 3 1000 ∧
      ¬QuotesAlike silentQuotes twoTokenPool 1 1 1000 ∧
      (quoteExactIn silentQuotes twoTokenPool 1 3 1000 = some 1992 ∧
        quoteSwapPost twoTokenPool 1 1000 3 = none) := by
  refine ⟨fun h => ?_, fun h => ?_, by decide, by decide⟩
  · have hmem : (3 : Address) = 1 ∨ (3 : Address) = 2 := (h.tokens 1992 (by decide)).tokenOut_mem
    exact absurd hmem (by decide)
  · exact (h.tokens 1992 (by decide)).ne rfl

end MevScout.Pool
