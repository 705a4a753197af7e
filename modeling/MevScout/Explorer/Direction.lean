import MevScout.Explorer.Attach
import MevScout.Pool.Taxes

/-!
# The direction of decoded swaps

What `decode_swap` (`core/src/explorer/decode/swap.rs`) makes of the amounts of a log: the signed
amounts of the V3 layout, and the four amounts of V2 and Solidly.

Results:
* `v3_direction_iff`: the direction of a V3 log is the reverse of the flows of the pool, and of
  what the tax check reads from the same log;
* `v2_direction`: the direction of a V2 log is that of its larger input.
-/

namespace MevScout.Explorer

open MevScout.Chain MevScout.Pool

/-! ## V2 and Solidly -/

/-- The pool nets in token `i` and nets out token `j`. -/
def NetsIn (log : ExecutedLog) (i j : ℕ) : Prop :=
  dataWord log.data (2 + i) < dataWord log.data i ∧
    dataWord log.data j < dataWord log.data (2 + j)

instance (log : ExecutedLog) (i j : ℕ) : Decidable (NetsIn log i j) := by
  unfold NetsIn; infer_instance

theorem sentinels_ne : token0Sentinel ≠ token1Sentinel := by decide

theorem decodeSwap_v2 {log : ExecutedLog} {topic0 : B256} {rest : List B256}
    (htopics : log.topics = topic0 :: rest) (htopic : topic0 ∈ [v2SwapTopic, solidlySwapTopic]) :
    ∃ amm, decodeSwap log = decodeV2Like log amm := by
  unfold decodeSwap
  rw [htopics]
  simp only [List.mem_cons, List.not_mem_nil, or_false] at htopic
  rcases htopic with rfl | rfl
  · exact ⟨.v2, if_pos rfl⟩
  · exact ⟨.solidly, by simp (disch := decide) only [if_neg]; rfl⟩

/-- With an input, the larger one gives the direction. -/
theorem applyV2Sides_eq (fact : SwapFact) {a0i a1i : ℕ} (a0o a1o : ℕ) (h : 0 < a0i ∨ 0 < a1i) :
    applyV2Sides fact a0i a1i a0o a1o =
      if a1i ≤ a0i then
        { fact with amountIn := a0i, amountOut := a1o, tokenIn := token0Sentinel,
                    tokenOut := token1Sentinel }
      else
        { fact with amountIn := a1i, amountOut := a0o, tokenIn := token1Sentinel,
                    tokenOut := token0Sentinel } := by
  unfold applyV2Sides
  by_cases hge : a1i ≤ a0i
  · rw [if_pos hge, if_pos ⟨by omega, hge⟩]
  · rw [if_neg hge, if_neg fun h => hge h.2, if_pos (by omega)]

/-- **Main theorem.** In a V2 or Solidly log whose pool nets in one token and nets out the other,
    the larger input comes in, that of token0 on a tie. So the token that is netted in comes in
    exactly when the other input is not larger. -/
theorem v2_direction (log : ExecutedLog) {topic0 : B256} {rest : List B256}
    (htopics : log.topics = topic0 :: rest) (htopic : topic0 ∈ [v2SwapTopic, solidlySwapTopic])
    (hlen : 128 ≤ log.data.length) (hnet : NetsIn log 0 1 ∨ NetsIn log 1 0) :
    ∃ amm fact, decodeSwap log = some (amm, fact) ∧
      (if dataWord log.data 1 ≤ dataWord log.data 0 then
        (fact.tokenIn, fact.tokenOut) = (token0Sentinel, token1Sentinel) ∧
          (fact.amountIn, fact.amountOut) = (dataWord log.data 0, dataWord log.data 3)
      else (fact.tokenIn, fact.tokenOut) = (token1Sentinel, token0Sentinel) ∧
          (fact.amountIn, fact.amountOut) = (dataWord log.data 1, dataWord log.data 2)) ∧
      (NetsIn log 0 1 → (fact.tokenIn = token0Sentinel ∧ fact.tokenOut = token1Sentinel ↔
        dataWord log.data 1 ≤ dataWord log.data 0)) ∧
      (NetsIn log 1 0 → (fact.tokenIn = token1Sentinel ∧ fact.tokenOut = token0Sentinel ↔
        dataWord log.data 0 < dataWord log.data 1)) := by
  obtain ⟨amm, hdecode⟩ := decodeSwap_v2 htopics htopic
  have hflow : 0 < dataWord log.data 0 ∨ 0 < dataWord log.data 1 := by
    rcases hnet with ⟨hin, -⟩ | ⟨hin, -⟩
    · exact .inl (by omega)
    · exact .inr (by omega)
  rw [hdecode, decodeV2Like, if_neg (by omega)]
  dsimp only
  rw [if_neg (by omega)]
  rw [applyV2Sides_eq _ _ _ hflow]
  refine ⟨amm, _, rfl, ?_⟩
  generalize dataWord log.data 0 = a0i at *
  generalize dataWord log.data 1 = a1i at *
  by_cases hge : a1i ≤ a0i
  · rw [if_pos hge, if_pos hge]
    refine ⟨⟨rfl, rfl⟩, fun _ => ⟨fun _ => hge, fun _ => ⟨rfl, rfl⟩⟩, fun _ => ⟨?_, ?_⟩⟩
    · rintro ⟨hin, -⟩
      exact absurd hin sentinels_ne
    · omega
  · rw [if_neg hge, if_neg hge]
    refine ⟨⟨rfl, rfl⟩, fun _ => ⟨?_, fun h => absurd h hge⟩,
      fun _ => ⟨fun _ => by omega, fun _ => ⟨rfl, rfl⟩⟩⟩
    rintro ⟨hin, -⟩
    exact absurd hin sentinels_ne.symm

/-- A `uint256` below `256` as a data word. -/
def smallWord (n : UInt8) : List UInt8 := List.replicate 31 0 ++ [n]

/-- The pool takes in `10` of token0, nets out `10` of token1 and is sent `20` of the latter. -/
def bothInputs : ExecutedLog where
  address := 7
  topics := [v2SwapTopic]
  data := smallWord 10 ++ smallWord 20 ++ smallWord 0 ++ smallWord 30

/-- The larger input comes in, although the pool nets it out. -/
theorem larger_input_comes_in :
    NetsIn bothInputs 0 1 ∧ (decodeSwap bothInputs).map (fun d => (d.2.tokenIn, d.2.tokenOut)) =
      some (token1Sentinel, token0Sentinel) := by
  decide +kernel

/-- The direction of that log. -/
theorem bothInputs_direction :
    ∃ amm fact, decodeSwap bothInputs = some (amm, fact) ∧
      (fact.tokenIn = token0Sentinel ∧ fact.tokenOut = token1Sentinel ↔
        dataWord bothInputs.data 1 ≤ dataWord bothInputs.data 0) := by
  have hnet : NetsIn bothInputs 0 1 := by decide +kernel
  obtain ⟨amm, fact, hdecode, -, h, -⟩ :=
    v2_direction bothInputs rfl (by decide)
      (by decide +kernel) (.inl hnet)
  exact ⟨amm, fact, hdecode, h hnet⟩

/-! ## The V3 layout -/

/-- The sides of a swap in which the pool receives the positive amount and pays the negative
    one. -/
def PoolFlows (a : AttachedSwap) (t0 t1 : Address) (a0 a1 : ℤ) : Prop :=
  if 0 < a0 then
    (a.tokenIn, a.tokenOut) = (t0, t1) ∧ (a.amountIn, a.amountOut) = (a0.natAbs, a1.natAbs)
  else (a.tokenIn, a.tokenOut) = (t1, t0) ∧ (a.amountIn, a.amountOut) = (a1.natAbs, a0.natAbs)

instance (a : AttachedSwap) (t0 t1 : Address) (a0 a1 : ℤ) :
    Decidable (PoolFlows a t0 t1 a0 a1) := by
  unfold PoolFlows; infer_instance

/-- The tax check declares the same direction for the log. -/
def SameAsTaxes (a : AttachedSwap) (log : ExecutedLog) (t0 t1 : Address) : Prop :=
  ∀ (rt : TaxRuntime) (pm : PoolManager) p ds,
    pm.pools[log.address]? = some p → p.info.token0 = t0 → p.info.token1 = t1 →
    PoolManager.declarations rt pm log = .ok ds → ∀ d ∈ ds, d.tokenIn = some a.tokenIn ∧
      d.tokenOut = some a.tokenOut

theorem decodeSwap_v3 {log : ExecutedLog} {topic0 : B256} {rest : List B256}
    (htopics : log.topics = topic0 :: rest)
    (htopic : topic0 ∈ [v3SwapTopic, donaswapV3SwapTopic]) :
    decodeSwap log = decodeSignedAt log .v3 log.address := by
  unfold decodeSwap
  rw [htopics]
  simp only [List.mem_cons, List.not_mem_nil, or_false] at htopic
  dsimp only
  rw [if_neg (by rcases htopic with rfl | rfl <;> decide), if_pos htopic]

/-- The tax check declares one row for a V3 log, with the positive amount as the input. -/
theorem declarations_v3 {log : ExecutedLog} {rest : List B256} {rt : TaxRuntime}
    {pm : PoolManager} {p : PoolState} (htopics : log.topics = v3SwapTopic :: rest)
    (hpool : pm.pools[log.address]? = some p) :
    PoolManager.declarations rt pm log = .ok ((decodeV3Swap log).elim [] fun d =>
      [{ pool := log.address
         tokenIn := some (if d.amount0 > 0 then p.info.token0 else p.info.token1)
         amountIn := if d.amount0 > 0 then d.amount0.natAbs else 0
         tokenOut := some (if d.amount1 < 0 then p.info.token1 else p.info.token0)
         amountOut := if d.amount1 < 0 then d.amount1.natAbs else 0 }]) := by
  unfold PoolManager.declarations
  rw [htopics, hpool]
  dsimp only
  rw [if_neg (by decide), if_pos rfl]
  congr 2
  funext d
  split_ifs <;> rfl

theorem declarations_donaswap {log : ExecutedLog} {rest : List B256} {rt : TaxRuntime}
    {pm : PoolManager} {p : PoolState} (htopics : log.topics = donaswapV3SwapTopic :: rest)
    (hpool : pm.pools[log.address]? = some p) :
    PoolManager.declarations rt pm log = .ok [] := by
  unfold PoolManager.declarations
  rw [htopics, hpool]
  dsimp only
  simp (disch := decide) only [if_neg]

theorem signedDeltas_eq (s : SwapFact) (data : List UInt8) {a0 : ℤ} (a1 : ℤ) (hne : a0 ≠ 0) :
    ∃ tick, (if a0 = 0 ∧ a1 = 0 then none
      else if data.length ≥ 160 then
        some { signedSides s a0 a1 with tick := some (signedFromBeBytes (slice data 156 160)) }
      else some (signedSides s a0 a1)) = some { signedSides s a0 a1 with tick := tick } := by
  rw [if_neg fun h => hne h.1]
  split_ifs
  · exact ⟨_, rfl⟩
  · exact ⟨(signedSides s a0 a1).tick, rfl⟩

theorem decodeSignedAt_eq {log : ExecutedLog} (amm : Amm) (pool : Address)
    (hlen : 64 ≤ log.data.length) (hne : signedWord log.data 0 ≠ 0) :
    ∃ tick, decodeSignedAt log amm pool = some (amm,
      { signedSides (blankSwap amm pool) (signedWord log.data 0) (signedWord log.data 1) with
        tick := tick }) := by
  obtain ⟨tick, htick⟩ := signedDeltas_eq (blankSwap amm pool) log.data
    (signedWord log.data 1) hne
  refine ⟨tick, ?_⟩
  unfold decodeSignedAt applySignedDeltas
  rw [if_neg (by omega)]
  exact congrArg (Option.map (amm, ·)) htick

/-- On a pair of equal tokens the tax check can only declare the one token. -/
theorem sameAsTaxes_of_eq {a : AttachedSwap} {log : ExecutedLog} {topic0 : B256}
    {rest : List B256} {t : Address} (htopics : log.topics = topic0 :: rest)
    (htopic : topic0 ∈ [v3SwapTopic, donaswapV3SwapTopic]) (hin : a.tokenIn = t)
    (hout : a.tokenOut = t) : SameAsTaxes a log t t := by
  intro rt pm p ds hpool h0 h1 hds d hd
  simp only [List.mem_cons, List.not_mem_nil, or_false] at htopic
  rcases htopic with rfl | rfl
  · rw [declarations_v3 htopics hpool] at hds
    obtain rfl := Except.ok.inj hds
    cases hdecode : decodeV3Swap log with
    | none =>
      rw [hdecode] at hd
      cases hd
    | some v =>
      rw [hdecode] at hd
      obtain rfl := List.mem_singleton.mp hd
      simp [h0, h1, hin, hout]
  · rw [declarations_donaswap htopics hpool] at hds
    obtain rfl := Except.ok.inj hds
    cases hd

/-- The sides of a V3 log: the token of the negative amount comes in. -/
theorem attachSwap_v3 {log : ExecutedLog} {fact : SwapFact} {t0 t1 : Address} (a0 a1 : ℤ)
    {tick : Option ℤ} (logIndex : ℕ) (transfers : List PlacedTransfer)
    {poolTokens : Address → Option (Address × Address)}
    (hfact : fact = { signedSides (blankSwap .v3 log.address) a0 a1 with tick := tick })
    (hpair : poolTokens log.address = some (t0, t1)) (h0 : isUnresolvedToken t0 = false)
    (h1 : isUnresolvedToken t1 = false) :
    let a := attachSwap transfers poolTokens { fact with amm := .v3, logIndex := logIndex }
    (a.tokenIn, a.tokenOut) = (if a0 < 0 then (t0, t1) else (t1, t0)) ∧
      (a.amountIn, a.amountOut) =
        if a0 < 0 then (a0.natAbs, a1.natAbs) else (a1.natAbs, a0.natAbs) := by
  intro a
  have hside : (fact.tokenIn, fact.tokenOut) =
        (if a0 < 0 then token0Sentinel else token1Sentinel, 0) ∧
      fact.pool = log.address ∧ (fact.amountIn, fact.amountOut) =
        if a0 < 0 then (a0.natAbs, a1.natAbs) else (a1.natAbs, a0.natAbs) := by
    rw [hfact]
    refine ⟨?_, signedSides_pool _ a0 a1, ?_⟩
    · unfold signedSides
      split_ifs <;> rfl
    · unfold signedSides
      split_ifs <;> rfl
  obtain ⟨htokens, hpool, hamounts⟩ := hside
  obtain ⟨hin, hout⟩ := Prod.mk.inj htokens
  refine ⟨?_, hamounts⟩
  by_cases hneg : a0 < 0
  · rw [if_pos hneg] at hin ⊢
    have hsided : SwapFact.Sided { fact with amm := .v3, logIndex := logIndex } :=
      .inr (.inl ⟨hin, .inl hout⟩)
    rw [attachSwap_named hsided nofun (by rw [hin]; decide) (by rw [← hpair, ← hpool]) h0 h1]
    exact if_pos hin
  · rw [if_neg hneg] at hin ⊢
    have hsided : SwapFact.Sided { fact with amm := .v3, logIndex := logIndex } :=
      .inr (.inr ⟨hin, .inl hout⟩)
    rw [attachSwap_named hsided nofun (by rw [hin]; decide) (by rw [← hpair, ← hpool]) h0 h1]
    exact if_neg (by rw [hin]; exact sentinels_ne.symm)

/-- **Main theorem.** The sides of a V3 log with amounts of opposite signs are those that the pool
    flows show, and that the tax check reads, only if there is no direction: the registered tokens
    are one and the amounts are equal. For a pool of two tokens they never are. -/
theorem v3_direction_iff (log : ExecutedLog) {topic0 : B256} {rest : List B256}
    (htopics : log.topics = topic0 :: rest)
    (htopic : topic0 ∈ [v3SwapTopic, donaswapV3SwapTopic]) (hlen : 64 ≤ log.data.length)
    (hopposite : 0 < signedWord log.data 0 ∧ signedWord log.data 1 < 0 ∨
      signedWord log.data 0 < 0 ∧ 0 < signedWord log.data 1)
    (logIndex : ℕ) (transfers : List PlacedTransfer)
    (poolTokens : Address → Option (Address × Address)) {t0 t1 : Address}
    (hpair : poolTokens log.address = some (t0, t1)) (h0 : isUnresolvedToken t0 = false)
    (h1 : isUnresolvedToken t1 = false) :
    ∃ fact, decodeSwap log = some (.v3, fact) ∧
      let a := attachSwap transfers poolTokens { fact with amm := .v3, logIndex := logIndex }
      (PoolFlows a t0 t1 (signedWord log.data 0) (signedWord log.data 1) ∧
          SameAsTaxes a log t0 t1 ↔
        t0 = t1 ∧ (signedWord log.data 0).natAbs = (signedWord log.data 1).natAbs) := by
  have hne : signedWord log.data 0 ≠ 0 := by omega
  obtain ⟨tick, hfact⟩ := decodeSignedAt_eq .v3 log.address hlen hne
  refine ⟨_, (decodeSwap_v3 htopics htopic).trans hfact, ?_⟩
  intro a
  obtain ⟨htokens, hamounts⟩ := attachSwap_v3 (signedWord log.data 0)
    (signedWord log.data 1) logIndex transfers rfl hpair h0 h1
  have htokens' : (a.tokenIn, a.tokenOut) = _ := htokens
  have hamounts' : (a.amountIn, a.amountOut) = _ := hamounts
  clear_value a
  generalize signedWord log.data 0 = a0 at *
  generalize signedWord log.data 1 = a1 at *
  unfold PoolFlows
  have hsame (h : t0 = t1) : SameAsTaxes a log t0 t1 := by
    subst h
    rw [ite_self] at htokens'
    obtain ⟨hin, hout⟩ := Prod.mk.inj htokens'
    exact sameAsTaxes_of_eq htopics htopic hin hout
  rcases hopposite with ⟨hpos, hneg⟩ | ⟨hneg, hpos⟩
  · rw [if_neg (by omega)] at htokens' hamounts'
    rw [if_pos hpos, htokens', hamounts', Prod.mk.injEq, Prod.mk.injEq]
    constructor
    · rintro ⟨⟨⟨-, ht⟩, -, ha⟩, -⟩
      exact ⟨ht, ha⟩
    · rintro ⟨ht, ha⟩
      exact ⟨⟨⟨ht.symm, ht⟩, ha.symm, ha⟩, hsame ht⟩
  · rw [if_pos hneg] at htokens' hamounts'
    rw [if_neg (by omega), htokens', hamounts', Prod.mk.injEq, Prod.mk.injEq]
    constructor
    · rintro ⟨⟨⟨ht, -⟩, ha, -⟩, -⟩
      exact ⟨ht, ha⟩
    · rintro ⟨ht, ha⟩
      exact ⟨⟨⟨ht, ht.symm⟩, ha, ha.symm⟩, hsame ht⟩

/-- The pool `7` of the tokens `1` and `2` receives `1000` of token `1` and pays `990` of token
    `2`. -/
def v3Log : ExecutedLog where
  address := 7
  topics := [v3SwapTopic]
  data := List.replicate 30 0 ++ [3, 232] ++ List.replicate 30 255 ++ [252, 34]

/-- The explorer reads the swap the other way round. -/
theorem v3_swap_reversed :
    ∃ fact, decodeSwap v3Log = some (.v3, fact) ∧
      let a := attachSwap [] (fun _ => some (1, 2)) { fact with amm := .v3, logIndex := 0 }
      (signedWord v3Log.data 0, signedWord v3Log.data 1) = (1000, -990) ∧
        (a.tokenIn, a.amountIn) = (2, 990) ∧ (a.tokenOut, a.amountOut) = (1, 1000) ∧
          ¬PoolFlows a 1 2 (signedWord v3Log.data 0) (signedWord v3Log.data 1) :=
  ⟨{ blankSwap .v3 7 with amountIn := 990, amountOut := 1000, tokenIn := token1Sentinel },
    by decide +kernel, by decide +kernel⟩

/-- The direction of that swap. -/
theorem v3Log_direction :
    ∃ fact, decodeSwap v3Log = some (.v3, fact) ∧
      let a := attachSwap [] (fun _ => some (1, 2)) { fact with amm := .v3, logIndex := 0 }
      (PoolFlows a 1 2 (signedWord v3Log.data 0) (signedWord v3Log.data 1) ∧
          SameAsTaxes a v3Log 1 2 ↔
        (1 : Address) = 2 ∧
          (signedWord v3Log.data 0).natAbs = (signedWord v3Log.data 1).natAbs) :=
  v3_direction_iff v3Log rfl (by decide)
    (by decide +kernel) (.inl (by decide +kernel)) 0 [] (fun _ => some (1, 2)) rfl
    (by decide) (by decide)

end MevScout.Explorer
