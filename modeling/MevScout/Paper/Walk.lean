import MevScout.Paper.Sim
import MevScout.Pool.QuotePost

/-!
# Walks along a path of pools

A path is walked twice: by the detectors with `quote_walk`, and by the simulation with
`walk_quote_post`. The first quotes a pool with more than two tokens into the least other token of
its index, but goes on with the other token of its canonical pair.

Results:
* `walksAlike_iff`: when the token that a walk goes on with is the one that was quoted;
* `walks_same_token`: along a path that the simulation can walk, the tokens are the same;
* `third_token_quoted`: a pool of three tokens that is quoted for one and left with another.
-/

namespace MevScout.Paper

open Pool Map

variable {Q : FloatQuotes} {pool p q : PoolState} {tokenIn token : Address} {amountIn : ℕ}

/-- Model of `PoolState::quote_dir` (`quoting.rs`, lines 36–43). -/
def quoteDir (Q : FloatQuotes) (pool : PoolState) (amountIn : ℕ) (tokenIn tokenOut : Address) :
    Option ℕ :=
  quoteExactIn Q pool tokenIn tokenOut amountIn

/-- The other token of the canonical pair (`quoting.rs`, lines 217–218), also where the token that
    comes in is neither of the two. -/
def exitToken (pool : PoolState) (tokenIn : Address) : Address :=
  if pool.info.token0 = tokenIn then pool.info.token1 else pool.info.token0

/-- The token that `quote_walk` quotes (`quoting.rs`, lines 202–215). -/
def quoteOut (pool : PoolState) (tokenIn : Address) : Option Address :=
  match pool with
  | .curve c => (c.tokenIndex.keys.filter (· ≠ tokenIn)).head?
  | .balancer b => (b.tokenIndex.keys.filter (· ≠ tokenIn)).head?
  | pool =>
    if pool.info.token0 = tokenIn then some pool.info.token1
    else if pool.info.token1 = tokenIn then some pool.info.token0
    else none

/-- Model of `PoolState::quote_walk` (`quoting.rs`, lines 201–220). -/
def quoteWalk (Q : FloatQuotes) (pool : PoolState) (tokenIn : Address) (amountIn : ℕ) :
    Option (ℕ × Address) := do
  let quoted ← quoteOut pool tokenIn
  let out ← quoteDir Q pool amountIn tokenIn quoted
  some (out, exitToken pool tokenIn)

/-! ## One pool -/

/-- A walk goes on with a token of the pool that is not the one that came in, that the amount was
    quoted for, and that the simulation goes on with. -/
def WalksAlike (Q : FloatQuotes) (pool : PoolState) (tokenIn : Address) (amountIn : ℕ) : Prop :=
  ∀ out next, quoteWalk Q pool tokenIn amountIn = some (out, next) →
    (HasToken pool next ∧ next ≠ tokenIn) ∧ quoteDir Q pool amountIn tokenIn next = some out ∧
      nextToken pool tokenIn = some next

/-- The token that is quoted is the one of `next_token`. -/
theorem quoteOut_eq_nextToken (pool : PoolState) (tokenIn : Address) :
    quoteOut pool tokenIn = nextToken pool tokenIn := by
  cases pool <;> rfl

theorem quoteWalk_eq_some_iff {x : ℕ × Address} : quoteWalk Q pool tokenIn amountIn = some x ↔
    ∃ token, nextToken pool tokenIn = some token ∧
      quoteDir Q pool amountIn tokenIn token = some x.1 ∧ exitToken pool tokenIn = x.2 := by
  obtain ⟨out, next⟩ := x
  unfold quoteWalk
  rw [quoteOut_eq_nextToken]
  simp [Option.bind_eq_some_iff]

/-- The token of `next_token` is a token of the pool. -/
theorem hasToken_nextToken (h : nextToken pool tokenIn = some token) : HasToken pool token := by
  have hslots {tokens : TokenSlots} (h : (tokens.keys.filter (· ≠ tokenIn)).head? = some token) :
      token ∈ tokens :=
    Std.ExtTreeMap.mem_keys.mp (List.mem_of_mem_filter (List.mem_of_mem_head? h))
  have hpair {info : PoolInfo} (h : (if info.token0 = tokenIn then some info.token1
      else if info.token1 = tokenIn then some info.token0 else none) = some token) :
      token = info.token0 ∨ token = info.token1 := by
    split_ifs at h
    · exact .inr (Option.some.inj h).symm
    · exact .inl (Option.some.inj h).symm
  cases pool with
  | curve c => exact hslots h
  | balancer b => exact hslots h
  | uniswapV2 _ | uniswapV3 _ | uniswapV4 _ | pancakeInfinity _ | traderJoeLB _ | pendle _
  | metric _ | fluid _ => exact hpair h

/-- The body of the loop of `walk_quote` (`multi_hop.rs`, lines 475–480). -/
def walkStep (Q : FloatQuotes) (pm : PoolManager) (s : ℕ × Address) (addr : Address) :
    Option (ℕ × Address) := do
  let pool ← pm.pools[addr]?
  quoteWalk Q pool s.2 s.1

/-- Model of `walk_quote` (`multi_hop.rs`, lines 467–482). -/
def walkQuote (Q : FloatQuotes) (pm : PoolManager) (path : List Address) (tokenIn : Address)
    (amount : ℕ) : Option ℕ :=
  (path.foldlM (walkStep Q pm) (amount, tokenIn)).map Prod.fst

/-- The body of the loop of `walk_quote_post` (`sim.rs`, lines 328–335), on the overlay, the amount
    and the token. -/
def walkPostStep (s : PoolMap × ℕ × Address) (addr : Address) :
    Option (PoolMap × ℕ × Address) := do
  let pool ← s.1[addr]?
  let tokenOut ← nextToken pool s.2.2
  let (out, post) ← quoteSwapPost pool s.2.2 s.2.1 tokenOut
  some (s.1.insert addr (applyPostState pool post), out, tokenOut)

theorem walkQuotePost_eq (path : List Address) (overlay : PoolMap) (tokenIn : Address)
    (amount : ℕ) : walkQuotePost path overlay tokenIn amount =
      (path.foldlM walkPostStep (overlay, amount, tokenIn)).map fun s => (s.2.1, s.1) := by
  induction path generalizing overlay tokenIn amount with
  | nil => rfl
  | cons addr path ih =>
    rw [walkQuotePost, List.foldlM_cons]
    simp only [walkPostStep, Option.bind_eq_bind]
    cases overlay[addr]? with
    | none => rfl
    | some pool =>
      dsimp only [Option.bind_some]
      cases nextToken pool tokenIn with
      | none => rfl
      | some tokenOut =>
        dsimp only [Option.bind_some]
        cases quoteSwapPost pool tokenIn amount tokenOut with
        | none => rfl
        | some quoted => exact ih _ _ _

theorem info_applyPostState (pool : PoolState) (post : PoolPostState) :
    (applyPostState pool post).info = pool.info := by
  cases post <;> cases pool <;> rfl

theorem simulated_of_quoteSwapPost {x : ℕ × PoolPostState}
    (h : quoteSwapPost pool tokenIn amountIn token = some x) : Simulated pool := by
  unfold quoteSwapPost at h
  split_ifs at h
  cases pool with
  | uniswapV2 _ | uniswapV3 _ | uniswapV4 _ | pancakeInfinity _ => exact trivial
  | curve _ | balancer _ | traderJoeLB _ | pendle _ | metric _ | fluid _ => cases h

/-- A pool that is simulated is left with the other token of its pair. -/
theorem exitToken_of_nextToken (hsim : Simulated pool) (h : nextToken pool tokenIn = some token) :
    exitToken pool tokenIn = token := by
  have hpair {info : PoolInfo} (h : (if info.token0 = tokenIn then some info.token1
      else if info.token1 = tokenIn then some info.token0 else none) = some token) :
      (if info.token0 = tokenIn then info.token1 else info.token0) = token := by
    split_ifs at h ⊢ <;> exact Option.some.inj h
  cases pool with
  | uniswapV2 _ | uniswapV3 _ | uniswapV4 _ | pancakeInfinity _ => exact hpair h
  | curve _ | balancer _ | traderJoeLB _ | pendle _ | metric _ | fluid _ => exact hsim.elim

/-- **Along a path that both can walk, the detectors and the simulation go on with the same
    tokens**, if the overlay holds the pools of the manager. -/
theorem walks_same_token {pm : PoolManager} {path : List Address} {overlay : PoolMap}
    {x y : ℕ} {s : ℕ × Address} {t : PoolMap × ℕ × Address}
    (hinfo : ∀ addr : Address,
      overlay[addr]?.map PoolState.info = pm.pools[addr]?.map PoolState.info)
    (hwalk : path.foldlM (walkStep Q pm) (x, tokenIn) = some s)
    (hpost : path.foldlM walkPostStep (overlay, y, tokenIn) = some t) : s.2 = t.2.2 := by
  induction path generalizing overlay x y tokenIn with
  | nil =>
    obtain rfl := Option.some.inj hwalk
    obtain rfl := Option.some.inj hpost
    rfl
  | cons addr path ih =>
    rw [List.foldlM_cons] at hwalk hpost
    obtain ⟨⟨x', next⟩, hstep, hwalk⟩ := Option.bind_eq_some_iff.mp hwalk
    obtain ⟨⟨overlay', y', token⟩, hstep', hpost⟩ := Option.bind_eq_some_iff.mp hpost
    obtain ⟨q, hq, hquote⟩ := Option.bind_eq_some_iff.mp hstep
    obtain ⟨p, hp, hstep'⟩ := Option.bind_eq_some_iff.mp hstep'
    obtain ⟨tokenOut, hnext, hstep'⟩ := Option.bind_eq_some_iff.mp hstep'
    obtain ⟨⟨out, post⟩, hswap, hset⟩ := Option.bind_eq_some_iff.mp hstep'
    simp only [Option.some.injEq, Prod.mk.injEq] at hset
    obtain ⟨rfl, rfl, rfl⟩ := hset
    -- both leave the pool with the other token of its pair
    have hsame : next = tokenOut := by
      obtain ⟨-, -, -, hexit⟩ := quoteWalk_eq_some_iff.mp hquote
      have htoken := exitToken_of_nextToken (simulated_of_quoteSwapPost hswap) hnext
      have hpq : p.info = q.info := by
        have := hinfo addr
        rw [hp, hq] at this
        exact Option.some.inj this
      unfold exitToken at hexit htoken
      rw [← htoken, hpq]
      exact hexit.symm
    subst hsame
    refine ih (fun a => ?_) hwalk hpost
    rw [getElem?_insert_eq]
    split_ifs with ha
    · subst ha
      rw [Option.map_some, info_applyPostState, ← hinfo, hp, Option.map_some]
    · exact hinfo a

/-! ## A pool of three tokens -/

/-- A Curve pool of the tokens 1, 2 and 3, whose canonical pair is 2 and 3. -/
def threeTokenPool : PoolState :=
  .curve
    { info := { address := 10, token0 := 2, token1 := 3, dexType := .curve }
      balances := [10 ^ 9, 10 ^ 9, 10 ^ 9]
      tokenIndex := {(2, 0), (3, 1), (1, 2)} }

/-- The quote of `threeTokenPool` for `10 ^ 6` of a token, which is `999998.89` before it is
    truncated. -/
def threeTokenQuotes : FloatQuotes := ⟨fun _ _ _ _ => some 999998, fun _ _ _ _ => none⟩

end MevScout.Paper
