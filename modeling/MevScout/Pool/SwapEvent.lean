import MevScout.Pool.Apply

/-!
# Swap events and their logs

The swap events of the venues that the manager quotes, as values, with the log in which a
contract emits each of them (its ABI encoding) and the effect a swap has on the pool it
trades in. This is a specification: `Attribution` compares the manager with it.

Result:
* `logEffect_dispatched`: when the manager dispatches the topic of an event, the log of
  the event gives its emitter the state after the swap.
-/

namespace MevScout.Pool

open MevScout.Chain

/-- The price, tick and liquidity after a swap in a concentrated-liquidity pool, and the
    signed amounts. -/
structure ConcentratedSwap where
  amount0 : ℤ
  amount1 : ℤ
  sqrtPriceX96 : ℕ
  liquidity : ℕ
  tick : ℤ
  deriving DecidableEq

/-- The swap events of the families, with the fields that their logs carry. -/
inductive SwapEvent where
  | v2 (amount0In amount1In amount0Out amount1Out : ℕ)
  | solidly (amount0In amount1In amount0Out amount1Out : ℕ)
  | v3 (s : ConcentratedSwap)
  | v4 (poolId : B256) (s : ConcentratedSwap) (fee : ℕ)
  | infinity (poolId : B256) (s : ConcentratedSwap) (fee protocolFee : ℕ)
  | curve (soldId amountSold boughtId amountBought : ℕ)
  | curveCrypto (soldId amountSold boughtId amountBought fee : ℕ)
  | balancer (poolId : B256) (tokenIn tokenOut : Address) (amountIn amountOut : ℕ)
  | lb (id : ℕ) (swapForY : Bool) (amountIn amountOut volatilityAccumulated fees : ℕ)
  | lbLegacy (id inX inY outX outY volatilityAccumulator totalFees protocolFees : ℕ)
  deriving DecidableEq

/-! ## Encoding -/

/-- The word of a signed value: its two's complement. -/
def encodeInt (x : ℤ) : ℕ := asUnsigned 256 x

/-- The topic of an address: its bytes, right-aligned. -/
def addressTopic (a : Address) : B256 := a.setWidth 256

/-- The words that the three concentrated-liquidity events share. -/
def ConcentratedSwap.words (s : ConcentratedSwap) : List ℕ :=
  [encodeInt s.amount0, encodeInt s.amount1, s.sqrtPriceX96, s.liquidity, encodeInt s.tick]

/-- Two `uint128` packed in one word, X in the low half. -/
def packXY (x y : ℕ) : ℕ := y * 2 ^ 128 + x

namespace SwapEvent

/-- The first topic of an event's log. -/
def topic0 : SwapEvent → B256
  | v2 .. => v2SwapTopic
  | solidly .. => solidlySwapTopic
  | v3 .. => v3SwapTopic
  | v4 .. => v4SwapTopic
  | infinity .. => infClSwapTopic
  | curve .. => curveTokenExchangeTopic
  | curveCrypto .. => curveV2TokenExchangeTopic
  | balancer .. => balancerSwapTopic
  | lb .. => traderJoeLbSwapTopic
  | lbLegacy .. => traderJoeLbSwapLegacyTopic

/-- The indexed fields of an event's log, where `sender` and `recipient` are the parties. -/
def indexed (sender recipient : B256) : SwapEvent → List B256
  | v4 poolId _ _ => [poolId, sender]
  | infinity poolId _ _ _ => [poolId, sender]
  | curve .. => [sender]
  | curveCrypto .. => [sender]
  | balancer poolId tokenIn tokenOut _ _ => [poolId, addressTopic tokenIn, addressTopic tokenOut]
  | lb id _ _ _ _ _ => [sender, recipient, BitVec.ofNat 256 id]
  | _ => [sender, recipient]

/-- The data words of an event's log. -/
def words : SwapEvent → List ℕ
  | v2 i0 i1 o0 o1 => [i0, i1, o0, o1]
  | solidly i0 i1 o0 o1 => [i0, i1, o0, o1]
  | v3 s => s.words
  | v4 _ s fee => s.words ++ [fee]
  | infinity _ s fee protocolFee => s.words ++ [fee, protocolFee]
  | curve soldId amountSold boughtId amountBought => [soldId, amountSold, boughtId, amountBought]
  | curveCrypto soldId amountSold boughtId amountBought fee =>
    [soldId, amountSold, boughtId, amountBought, fee]
  | balancer _ _ _ amountIn amountOut => [amountIn, amountOut]
  | lb _ swapForY amountIn amountOut volatility fees =>
    [swapForY.toNat, amountIn, amountOut, volatility, fees]
  | lbLegacy id inX inY outX outY volatility totalFees protocolFees =>
    [id, packXY inX inY, packXY outX outY, volatility, totalFees, protocolFees]

/-- The log in which `emitter` emits the event. -/
def log (ev : SwapEvent) (emitter : Address) (sender recipient : B256) : ExecutedLog :=
  { address := emitter
    topics := ev.topic0 :: ev.indexed sender recipient
    data := encodeWords ev.words }

/-- The amounts of an event fit `u128`, and its other fields their types. -/
def WellFormed : SwapEvent → Prop
  | v2 i0 i1 o0 o1 | solidly i0 i1 o0 o1 =>
    i0 < 2 ^ 128 ∧ i1 < 2 ^ 128 ∧ o0 < 2 ^ 128 ∧ o1 < 2 ^ 128
  | v3 s | v4 _ s _ | infinity _ s _ _ =>
    s.sqrtPriceX96 < 2 ^ 160 ∧ s.liquidity < 2 ^ 128 ∧ -2 ^ 23 ≤ s.tick ∧ s.tick < 2 ^ 23
  | curve soldId amountSold boughtId amountBought
  | curveCrypto soldId amountSold boughtId amountBought _ =>
    soldId < 2 ^ 64 ∧ amountSold < 2 ^ 128 ∧ boughtId < 2 ^ 64 ∧ amountBought < 2 ^ 128
  | balancer _ _ _ amountIn amountOut => amountIn < 2 ^ 128 ∧ amountOut < 2 ^ 128
  | lb _ _ amountIn amountOut _ _ => amountIn < 2 ^ 128 ∧ amountOut < 2 ^ 128
  | lbLegacy _ inX inY outX outY _ _ _ =>
    inX < 2 ^ 128 ∧ inY < 2 ^ 128 ∧ outX < 2 ^ 128 ∧ outY < 2 ^ 128

/-! ## Effect on the pool -/

/-- The slots of a Balancer pool's two tokens. -/
def balancerSlots (tokenIn tokenOut : Address) (s : BalancerPoolState) : Option (ℕ × ℕ) :=
  s.tokenIndex[tokenIn]?.bind fun iIn => s.tokenIndex[tokenOut]?.map fun iOut => (iIn, iOut)

/-- `p` is a pool of the event's kind, with the coins that the event trades. -/
def Matches : SwapEvent → PoolState → Prop
  | v2 .., .uniswapV2 _ | solidly .., .uniswapV2 _ => True
  | v2 .., .curve s | solidly .., .curve s => 2 ≤ s.balances.length
  | v3 .., .uniswapV3 _ | v4 .., .uniswapV4 _ | infinity .., .pancakeInfinity _ => True
  | curve soldId _ boughtId _, .curve s | curveCrypto soldId _ boughtId _ _, .curve s =>
    soldId < s.balances.length ∧ boughtId < s.balances.length
  | balancer _ tokenIn tokenOut _ _, .balancer s =>
    ∃ iIn iOut, balancerSlots tokenIn tokenOut s = some (iIn, iOut) ∧
      iIn < s.balances.length ∧ iOut < s.balances.length
  | lb .., .traderJoeLB s | lbLegacy .., .traderJoeLB s => s.info.token0 ≠ s.info.token1
  | _, _ => False

/-- Balances after `amountIn` enters slot `iIn` and `amountOut` leaves slot `iOut`. -/
def moveBalances (iIn amountIn iOut amountOut : ℕ) (balances : List ℕ) : List ℕ :=
  subBalance (addBalance balances iIn amountIn) iOut amountOut

/-- The pool after the swap. Amounts are added and taken off in 128 bits: wrapping where
    the manager wraps, saturating where it saturates. -/
def apply : SwapEvent → PoolState → PoolState
  | v2 i0 i1 o0 o1, .uniswapV2 s | solidly i0 i1 o0 o1, .uniswapV2 s =>
    .uniswapV2 { s with reserve0 := v2Move s.reserve0 i0 o0, reserve1 := v2Move s.reserve1 i1 o1 }
  | v2 i0 i1 o0 o1, .curve s | solidly i0 i1 o0 o1, .curve s =>
    .curve { s with balances := balancesSwap i0 i1 o0 o1 s.balances }
  | v3 c, p | v4 _ c _, p | infinity _ c _ _, p =>
    p.mapConcentrated fun s =>
      { s with sqrtPriceX96 := c.sqrtPriceX96, tick := c.tick, liquidity := c.liquidity }
  | curve soldId amountSold boughtId amountBought, .curve s
  | curveCrypto soldId amountSold boughtId amountBought _, .curve s =>
    .curve { s with balances := moveBalances soldId amountSold boughtId amountBought s.balances }
  | balancer _ tokenIn tokenOut amountIn amountOut, .balancer s =>
    match balancerSlots tokenIn tokenOut s with
    | some (iIn, iOut) =>
      .balancer { s with balances := moveBalances iIn amountIn iOut amountOut s.balances }
    | none => .balancer s
  | lb _ swapForY amountIn amountOut _ _, .traderJoeLB s =>
    if swapForY then
      .traderJoeLB { s with
        reserveX := saturatingAdd 128 s.reserveX amountIn, reserveY := s.reserveY - amountOut }
    else
      .traderJoeLB { s with
        reserveX := s.reserveX - amountOut, reserveY := saturatingAdd 128 s.reserveY amountIn }
  | lbLegacy _ inX inY outX outY _ _ _, .traderJoeLB s =>
    .traderJoeLB { s with
      reserveX := saturatingAdd 128 s.reserveX inX - outX
      reserveY := saturatingAdd 128 s.reserveY inY - outY }
  | _, p => p

/-- A state without its fee growth, on which an event says nothing. -/
def quoted (p : PoolState) : PoolState :=
  p.mapConcentrated fun s => { s with feeGrowthGlobal0X128 := 0, feeGrowthGlobal1X128 := 0 }

/-! ## Reading the log back -/

theorem readWord {ws : List ℕ} {a b n : ℕ} (i : ℕ) (hi : i < ws.length) (hn : ws[i] = n)
    (ha : a = 32 * i) (hb : b = 32 * i + 32) (hlt : n < 2 ^ 128) :
    u128FromBeBytes (slice (encodeWords ws) a b) = n := by
  subst ha hb
  rw [u128FromBeBytes_encodeWords hi, hn, Nat.mod_eq_of_lt hlt]

@[simp] theorem topicAddress_addressTopic (a : Address) : topicAddress (addressTopic a) = a := by
  unfold topicAddress addressTopic
  exact BitVec.setWidth_setWidth_of_le a (by norm_num)

variable {p : PoolState} {emitter : Address} {sender recipient : B256}

/-- The handlers of the manager, by event: V4, Infinity and the packed LB event have none. -/
def handlerOf : SwapEvent → Option Handler
  | v2 .. | solidly .. => some .v2Swap
  | v3 .. => some .v3Swap
  | curve .. | curveCrypto .. => some .curveSwap
  | balancer .. => some .balancerSwap
  | lb .. => some .lbSwap
  | v4 .. | infinity .. | lbLegacy .. => none

theorem logHandler_log (ev : SwapEvent) :
    logHandler (ev.log emitter sender recipient) = ev.handlerOf := by
  cases ev <;> rfl

/-- The V2 handler reads the four amounts of a V2 or Solidly event. -/
theorem logEffect_fourAmounts {log : ExecutedLog} {i0 i1 o0 o1 : ℕ}
    (hh : logHandler log = some .v2Swap) (hdata : log.data = encodeWords [i0, i1, o0, o1])
    (hwf : i0 < 2 ^ 128 ∧ i1 < 2 ^ 128 ∧ o0 < 2 ^ 128 ∧ o1 < 2 ^ 128) :
    logEffect p log = .ok ((p.mapUniswapV2 (·.swap i0 i1 o0 o1)).mapCurve
      (·.updateBalances (balancesSwap i0 i1 o0 o1))) := by
  obtain ⟨h0, h1, h2, h3⟩ := hwf
  have hlen : ¬(encodeWords [i0, i1, o0, o1]).length < 128 := by simp
  rw [PoolManager.logEffect_of_handler hh]
  dsimp only [Handler.edits]
  rw [hdata, if_neg hlen, readWord 0 (by simp) rfl rfl rfl h0, readWord 1 (by simp) rfl rfl rfl h1,
    readWord 2 (by simp) rfl rfl rfl h2, readWord 3 (by simp) rfl rfl rfl h3]
  rfl

/-- The Curve handler reads the four fields that both exchange events start with. -/
theorem logEffect_exchange {log : ExecutedLog} {i a j b : ℕ} {rest : List ℕ}
    (hh : logHandler log = some .curveSwap) (hdata : log.data = encodeWords ([i, a, j, b] ++ rest))
    (hwf : i < 2 ^ 64 ∧ a < 2 ^ 128 ∧ j < 2 ^ 64 ∧ b < 2 ^ 128) :
    logEffect p log = .ok (p.mapCurve (·.exchange ⟨i, a, j, b⟩)) := by
  obtain ⟨h0, h1, h2, h3⟩ := hwf
  have hdec : decodeCurveSwap log = some ⟨i, a, j, b⟩ := by
    obtain ⟨t, ht, hhead⟩ := PoolManager.logHandler_eq_some_iff.mp hh
    have htopic : ¬(log.topics.head? ≠ some curveTokenExchangeTopic ∧
        log.topics.head? ≠ some curveV2TokenExchangeTopic) := by
      rw [hhead]
      simp only [Handler.topics, List.mem_cons, List.not_mem_nil, or_false] at ht
      rcases ht with rfl | rfl <;> simp
    have hlen : ¬(encodeWords ([i, a, j, b] ++ rest)).length < 128 := by
      rw [length_encodeWords, List.length_append]
      simp only [List.length_cons, List.length_nil]
      omega
    rw [decodeCurveSwap, if_neg htopic, hdata, if_neg hlen,
      readWord 0 (by simp) rfl rfl rfl (h0.trans (by norm_num)),
      readWord 1 (by simp) rfl rfl rfl h1,
      readWord 2 (by simp) rfl rfl rfl (h2.trans (by norm_num)),
      readWord 3 (by simp) rfl rfl rfl h3]
    rfl
  rw [PoolManager.logEffect_of_handler hh]
  dsimp only [Handler.edits]
  rw [hdec]
  rfl

theorem exchange_eq {i a j b : ℕ} {s : CurvePoolState} (hi : i < s.balances.length)
    (hj : j < s.balances.length) (hi' : i < 2 ^ 64) (hj' : j < 2 ^ 64) :
    s.exchange ⟨i, a, j, b⟩ = { s with balances := moveBalances i a j b s.balances } := by
  unfold CurvePoolState.exchange
  dsimp only
  rw [Nat.mod_eq_of_lt hi', Nat.mod_eq_of_lt hj', if_pos ⟨hi, hj⟩]
  rfl

/-- An `int24` is read back from the last four bytes of its word. -/
theorem signedFromBeBytes_encodeInt {ws : List ℕ} {i : ℕ} {t : ℤ} (hi : i < ws.length)
    (ht : ws[i] = encodeInt t) (hlo : -2 ^ 23 ≤ t) (hhi : t < 2 ^ 23) :
    signedFromBeBytes (slice (encodeWords ws) (32 * i + 28) (32 * i + 32)) = t := by
  have hlen : (slice (encodeWords ws) (32 * i + 28) (32 * i + 32)).length = 4 := by
    rw [length_slice (by omega) (by rw [length_encodeWords]; omega)]
    omega
  have hval := beVal_slice_encodeWords_last hi (show 4 ≤ 32 by norm_num)
  rw [show 32 * i + 32 - 4 = 32 * i + 28 by omega] at hval
  rw [signedFromBeBytes, hlen, hval, ht, encodeInt, asUnsigned]
  show Int.bmod _ (2 ^ 32) = t
  rw [Int.bmod_def]
  push_cast
  rw [Int.toNat_of_nonneg (Int.emod_nonneg _ (by norm_num))]
  split_ifs <;> omega

/-- The V3 decoder reads price, tick and liquidity back. -/
theorem decodeV3Swap_log {s : ConcentratedSwap} (hwf : (v3 s).WellFormed) :
    ∃ a0 a1, decodeV3Swap ((v3 s).log emitter sender recipient) =
      some ⟨s.sqrtPriceX96, s.tick, s.liquidity, a0, a1⟩ := by
  obtain ⟨hprice, hliq, hlo, hhi⟩ := hwf
  have hlen : ¬(encodeWords s.words).length < 160 := by simp [ConcentratedSwap.words]
  have hp : u256FromBeSlice (slice (encodeWords s.words) 64 96) = s.sqrtPriceX96 := by
    have h : beVal (slice (encodeWords s.words) (32 * 2) (32 * 2 + 32)) =
        s.sqrtPriceX96 % 2 ^ 256 := beVal_slice_encodeWords (by simp [ConcentratedSwap.words])
    exact h.trans (Nat.mod_eq_of_lt (lt_trans hprice (by norm_num)))
  have hl : u128FromBeBytes (slice (encodeWords s.words) 96 128) = s.liquidity :=
    readWord 3 (by simp [ConcentratedSwap.words]) rfl rfl rfl hliq
  have ht : signedFromBeBytes (slice (encodeWords s.words) 156 160) = s.tick :=
    signedFromBeBytes_encodeInt (i := 4) (by simp [ConcentratedSwap.words]) rfl hlo hhi
  refine ⟨signedFromBeBytes (slice (encodeWords s.words) 16 32),
    signedFromBeBytes (slice (encodeWords s.words) 48 64), ?_⟩
  rw [← hp, ← hl, ← ht]
  show (if some v3SwapTopic ≠ some v3SwapTopic then none
    else if (encodeWords s.words).length < 160 then none else some _) = _
  rw [if_neg (by simp), if_neg hlen]
  rfl

theorem decodeBalancerSwap_log {poolId : B256} {tokenIn tokenOut : Address} {a b : ℕ}
    (ha : a < 2 ^ 128) (hb : b < 2 ^ 128) :
    decodeBalancerSwap ((balancer poolId tokenIn tokenOut a b).log emitter sender recipient) =
      some ⟨poolId, tokenIn, tokenOut, a, b⟩ := by
  have hlen : ¬(encodeWords [a, b]).length < 64 := by simp
  show (if balancerSwapTopic ≠ balancerSwapTopic then none
    else if (encodeWords [a, b]).length < 64 then none else some _) = _
  rw [if_neg (by simp), if_neg hlen]
  simp only [log, words, topicAddress_addressTopic, Option.some.injEq,
    BalancerSwapDecoded.mk.injEq, true_and]
  exact ⟨readWord 0 (by simp) rfl rfl rfl ha, readWord 1 (by simp) rfl rfl rfl hb⟩

theorem decodeLbSwap_log {id a b v f : ℕ} {y : Bool} (ha : a < 2 ^ 128) (hb : b < 2 ^ 128) :
    decodeLbSwap ((lb id y a b v f).log emitter sender recipient) = some ⟨a, b, y⟩ := by
  have hlen : ¬(encodeWords [y.toNat, a, b, v, f]).length < 96 := by simp
  have hflag : decide ((encodeWords [y.toNat, a, b, v, f]).getD 31 0 ≠ 0) = y := by
    rw [encodeWords_cons, List.getD_append _ _ _ _ (by simp)]
    cases y <;> decide
  show (if some traderJoeLbSwapTopic ≠ some traderJoeLbSwapTopic then none
    else if (encodeWords [y.toNat, a, b, v, f]).length < 96 then none else some _) = _
  rw [if_neg (by simp), if_neg hlen]
  simp only [log, words, Option.some.injEq, LBSwapDecoded.mk.injEq]
  exact ⟨readWord 1 (by simp) rfl rfl rfl ha, readWord 2 (by simp) rfl rfl rfl hb, hflag⟩

theorem balancerSwap_eq {poolId : B256} {tokenIn tokenOut : Address} {a b iIn iOut : ℕ}
    {s : BalancerPoolState} (hslots : balancerSlots tokenIn tokenOut s = some (iIn, iOut))
    (hIn : iIn < s.balances.length) (hOut : iOut < s.balances.length) :
    s.swap ⟨poolId, tokenIn, tokenOut, a, b⟩ =
      { s with balances := moveBalances iIn a iOut b s.balances } := by
  obtain ⟨jIn, hjIn, hmap⟩ := Option.bind_eq_some_iff.mp hslots
  obtain ⟨jOut, hjOut, hpair⟩ := Option.map_eq_some_iff.mp hmap
  cases hpair
  unfold BalancerPoolState.swap
  dsimp only
  rw [hjIn, hjOut]
  exact if_pos ⟨hIn, hOut⟩

/-- A Balancer swap of tokens that the pool does not hold changes nothing. -/
theorem balancerSwap_eq_self {poolId : B256} {tokenIn tokenOut : Address} {a b : ℕ}
    {s : BalancerPoolState}
    (hm : ¬(balancer poolId tokenIn tokenOut a b).Matches (.balancer s)) :
    s.swap ⟨poolId, tokenIn, tokenOut, a, b⟩ = s := by
  unfold BalancerPoolState.swap
  dsimp only
  split
  · rename_i iIn iOut hIn hOut
    have hslots : balancerSlots tokenIn tokenOut s = some (iIn, iOut) := by
      rw [balancerSlots, hIn, Option.bind_some, hOut, Option.map_some]
    exact if_neg fun h => hm ⟨iIn, iOut, hslots, h⟩
  · rfl

/-- **Dispatched events.** The log of a dispatched event gives its emitter, if it is a pool
    of the event's kind, the state after the swap. -/
theorem logEffect_dispatched {ev : SwapEvent} (hwf : ev.WellFormed) (hm : ev.Matches p)
    (hd : ev.handlerOf.isSome) : ∃ p', logEffect p (ev.log emitter sender recipient) = .ok p' ∧
      quoted p' = quoted (ev.apply p) := by
  have hh : logHandler (ev.log emitter sender recipient) = ev.handlerOf := logHandler_log ev
  cases ev with
  | v2 i0 i1 o0 o1 | solidly i0 i1 o0 o1 =>
    refine ⟨_, logEffect_fourAmounts hh rfl hwf, ?_⟩
    cases p with
    | uniswapV2 s => rfl
    | curve s =>
      have hlen : s.balances.length ≥ 2 := hm
      show quoted (.curve (s.updateBalances _)) = _
      rw [CurvePoolState.updateBalances, if_pos hlen]
      rfl
    | _ => exact hm.elim
  | v3 c =>
    obtain ⟨a0, a1, hdec⟩ := @decodeV3Swap_log emitter sender recipient c hwf
    refine ⟨p.mapConcentrated (·.swap c.sqrtPriceX96 c.tick c.liquidity a0 a1), ?_, ?_⟩
    · rw [PoolManager.logEffect_of_handler hh]
      dsimp only [Handler.edits]
      rw [hdec]
      rfl
    · cases p with
      | uniswapV3 s => rfl
      | _ => exact hm.elim
  | curve i a j b =>
    refine ⟨_, @logEffect_exchange p _ i a j b [] hh rfl hwf, ?_⟩
    cases p with
    | curve s => exact congrArg (quoted ∘ PoolState.curve) (exchange_eq hm.1 hm.2 hwf.1 hwf.2.2.1)
    | _ => exact hm.elim
  | curveCrypto i a j b fee =>
    refine ⟨_, @logEffect_exchange p _ i a j b [fee] hh rfl hwf, ?_⟩
    cases p with
    | curve s => exact congrArg (quoted ∘ PoolState.curve) (exchange_eq hm.1 hm.2 hwf.1 hwf.2.2.1)
    | _ => exact hm.elim
  | balancer poolId tokenIn tokenOut a b =>
    refine ⟨p.mapBalancer (·.swap ⟨poolId, tokenIn, tokenOut, a, b⟩), ?_, ?_⟩
    · rw [PoolManager.logEffect_of_handler hh]
      dsimp only [Handler.edits]
      rw [decodeBalancerSwap_log hwf.1 hwf.2]
      rfl
    · cases p with
      | balancer s =>
        obtain ⟨iIn, iOut, hslots, hIn, hOut⟩ := hm
        show quoted (.balancer (s.swap _)) = quoted (match balancerSlots tokenIn tokenOut s with
          | some (iIn, iOut) => _
          | none => _)
        rw [balancerSwap_eq hslots hIn hOut, hslots]
      | _ => exact hm.elim
  | lb id y a b v f =>
    cases p with
    | traderJoeLB s =>
      have hne : s.info.token1 ≠ s.info.token0 := Ne.symm hm
      refine ⟨.traderJoeLB (s.swap (if y then s.info.token0 else s.info.token1) a b), ?_, ?_⟩
      · rw [PoolManager.logEffect_of_handler hh]
        dsimp only [Handler.edits]
        rw [decodeLbSwap_log hwf.1 hwf.2]
        rfl
      · cases y with
        | true => exact congrArg (quoted ∘ PoolState.traderJoeLB) (if_pos rfl)
        | false =>
          exact congrArg (quoted ∘ PoolState.traderJoeLB) ((if_neg hne).trans (if_pos rfl))
    | _ => exact hm.elim
  | v4 | infinity | lbLegacy => cases hd

end SwapEvent

end MevScout.Pool
