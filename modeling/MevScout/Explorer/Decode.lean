import MevScout.Explorer.Legs
import MevScout.Pool.Discovery

/-!
# Swaps decoded from logs

Models of `decode_swap` and of the decoders that it dispatches to
(`core/src/explorer/decode/swap.rs` and `aggregator.rs`), which turn a log into a swap of a
pool. Discovery names the pools of the same logs by itself (`Discovery`).

Results:
* `decodeSwap_pool`: the pool that every decoder names;
* `namesSamePool_iff`: discovery names the same pool except for a Balancer pool id whose first
  20 bytes are not its last 20 bytes.
-/

namespace MevScout.Explorer

open MevScout.Chain MevScout.Pool MevScout.Pool.Discovery

/-! ## Topics that only the explorer reads -/

/-- `Swap(address,address,int256,int256,uint160,uint128,int24,uint128,uint128)`
    (`chain/events.rs`, lines 69–71). -/
def donaswapV3SwapTopic : B256 :=
  0x19b47279256b2a23a1665c810c8d55a1758940ee09377d4f8d26497a3577dc83

/-- Model of `ONEINCH_SWAPPED_TOPIC` (`aggregator.rs`, lines 259–260). -/
def oneinchSwappedTopic : B256 :=
  0xd6d4f5681c246c9f42c203e287975af1601f8df8035a9251f79aab5c8f09e2f8

/-- Model of `PARASWAP_SWAPPED_TOPIC` (`aggregator.rs`, lines 266–267). -/
def paraswapSwappedTopic : B256 :=
  0x9cc2048b8af5eadff75759a3169b369efc538fb79c760fd396a4b355410b41b7

/-- Model of `PARASWAP_SWAPPED_V3_TOPIC` (`aggregator.rs`, lines 273–274). -/
def paraswapSwappedV3Topic : B256 :=
  0xe00361d207b252a464323eb23d45d42583e391f2031acdd2e9fa36efddd43cb0

/-- Model of `ZRX_FILL_TOPIC` (`aggregator.rs`, lines 282–283). -/
def zrxFillTopic : B256 := 0x6869791f0a34781b29882982cc39e882768cf2c96995c2a110c577c53bc932d5

/-- Model of `ODOS_SWAP_TOPIC` (`aggregator.rs`, lines 287–288). -/
def odosSwapTopic : B256 := 0x823eaf01002d7353fbcadb2ea3305cc46fa35d799cb0914846d185ac06f8ad05

/-! ## Readers -/

/-- `U256::from_be_slice(&data[32 * i..32 * i + 32])`. -/
def dataWord (data : List UInt8) (i : ℕ) : ℕ :=
  u256FromBeSlice (slice data (32 * i) (32 * i + 32))

/-- `I256::from_raw` of a data word. -/
def signedWord (data : List UInt8) (i : ℕ) : ℤ := asSigned 256 (dataWord data i)

/-- Model of `abi_word_address` (`utils.rs`, lines 33–37). -/
def abiWordAddress (data : List UInt8) (i : ℕ) : Address :=
  addressFromSlice (slice data (32 * i + 12) (32 * i + 32))

/-- Model of `blank_swap` (`swap.rs`, lines 100–114). -/
def blankSwap (amm : Amm) (pool : Address) : SwapFact where
  pool := pool
  amm := amm
  tokenIn := 0
  tokenOut := 0
  amountIn := 0
  amountOut := 0

/-- The amounts and the sentinel of two signed amounts: a negative one comes in (`swap.rs`,
    lines 28–36 and 267–275). `wrapping_abs().into_raw()` is the absolute value. -/
def signedSides (fact : SwapFact) (a0 a1 : ℤ) : SwapFact :=
  if a0 < 0 then
    { fact with amountIn := a0.natAbs, amountOut := a1.natAbs, tokenIn := token0Sentinel }
  else { fact with amountIn := a1.natAbs, amountOut := a0.natAbs, tokenIn := token1Sentinel }

/-- Model of `apply_signed_deltas` (`swap.rs`, lines 19–43), `none` where it returns `false`. -/
def applySignedDeltas (fact : SwapFact) (data : List UInt8) : Option SwapFact :=
  if data.length < 64 then none
  else
    let a0 := signedWord data 0
    let a1 := signedWord data 1
    if a0 = 0 ∧ a1 = 0 then none
    else
      let fact := signedSides fact a0 a1
      if data.length ≥ 160 then
        some { fact with tick := some (signedFromBeBytes (slice data 156 160)) }
      else some fact

/-- Model of `apply_v2_sides` (`swap.rs`, lines 48–62). -/
def applyV2Sides (fact : SwapFact) (a0i a1i a0o a1o : ℕ) : SwapFact :=
  if a0i ≠ 0 ∧ a0i ≥ a1i then
    { fact with amountIn := a0i, amountOut := a1o, tokenIn := token0Sentinel,
                tokenOut := token1Sentinel }
  else if a1i ≠ 0 then
    { fact with amountIn := a1i, amountOut := a0o, tokenIn := token1Sentinel,
                tokenOut := token0Sentinel }
  else { fact with amountOut := max a0o a1o }

/-- Model of `unpack_lb_amounts_xy` (`swap.rs`, lines 280–285) on data word `i`. -/
def unpackLbAmountsXy (data : List UInt8) (i : ℕ) : ℕ × ℕ :=
  (u256FromBeSlice (slice data (32 * i + 16) (32 * i + 32)),
    u256FromBeSlice (slice data (32 * i) (32 * i + 16)))

/-- The sentinels of a swap of token0 for token1, or the other way (`swap.rs`, lines 182–191
    and 244–253). -/
def sentinelSides (fact : SwapFact) (zeroForOne : Bool) : SwapFact :=
  if zeroForOne then { fact with tokenIn := token0Sentinel, tokenOut := token1Sentinel }
  else { fact with tokenIn := token1Sentinel, tokenOut := token0Sentinel }

/-! ## Decoders -/

/-- Model of `decode_v2_like` (`swap.rs`, lines 118–132). -/
def decodeV2Like (log : ExecutedLog) (amm : Amm) : Option (Amm × SwapFact) :=
  if log.data.length < 128 then none
  else
    let a0i := dataWord log.data 0
    let a1i := dataWord log.data 1
    let a0o := dataWord log.data 2
    let a1o := dataWord log.data 3
    if a0i = 0 ∧ a1i = 0 ∧ a0o = 0 ∧ a1o = 0 then none
    else some (amm, applyV2Sides (blankSwap amm log.address) a0i a1i a0o a1o)

/-- Model of `decode_signed_at` (`swap.rs`, lines 134–140). -/
def decodeSignedAt (log : ExecutedLog) (amm : Amm) (pool : Address) : Option (Amm × SwapFact) :=
  (applySignedDeltas (blankSwap amm pool) log.data).map (amm, ·)

/-- Model of `decode_pool_id_signed` (`swap.rs`, lines 143–149). -/
def decodePoolIdSigned (log : ExecutedLog) (amm : Amm) : Option (Amm × SwapFact) :=
  match log.topics with
  | _ :: poolId :: _ => decodeSignedAt log amm (topicAddress poolId)
  | _ => none

/-- Model of `decode_curve` (`swap.rs`, lines 151–159). -/
def decodeCurve (log : ExecutedLog) : Option (Amm × SwapFact) :=
  if log.data.length < 128 then none
  else some (.curve, { blankSwap .curve log.address with
    amountIn := dataWord log.data 1, amountOut := dataWord log.data 3 })

/-- Model of `decode_balancer` (`swap.rs`, lines 161–172). -/
def decodeBalancer (log : ExecutedLog) : Option (Amm × SwapFact) :=
  match log.topics with
  | _ :: poolId :: tokenIn :: tokenOut :: _ =>
    if log.data.length < 64 then none
    else some (.balancer, { blankSwap .balancer (topicAddress poolId) with
      tokenIn := topicAddress tokenIn
      tokenOut := topicAddress tokenOut
      amountIn := dataWord log.data 0
      amountOut := dataWord log.data 1 })
  | _ => none

/-- Model of `decode_lb` (`swap.rs`, lines 174–193). -/
def decodeLb (log : ExecutedLog) : Option (Amm × SwapFact) :=
  if log.topics.length < 3 ∨ log.data.length < 96 then none
  else
    let swapForY := log.data.getD 31 0 ≠ 0
    some (.lb, sentinelSides { blankSwap .lb log.address with
      amountIn := dataWord log.data 1, amountOut := dataWord log.data 2 } swapForY)

/-- Model of `decode_lb_legacy` (`swap.rs`, lines 195–219). -/
def decodeLbLegacy (log : ExecutedLog) : Option (Amm × SwapFact) :=
  if log.topics.length < 3 ∨ log.data.length < 96 then none
  else
    let (inX, inY) := unpackLbAmountsXy log.data 1
    let (outX, outY) := unpackLbAmountsXy log.data 2
    let fact := blankSwap .lb log.address
    let fact :=
      if inX ≠ 0 then some (sentinelSides { fact with amountIn := inX, amountOut := outY } true)
      else if inY ≠ 0 then
        some (sentinelSides { fact with amountIn := inY, amountOut := outX } false)
      else none
    match fact with
    | none => none
    | some fact => if fact.amountIn = 0 ∨ fact.amountOut = 0 then none else some (.lb, fact)

/-- Model of `decode_pendle` (`swap.rs`, lines 221–234). -/
def decodePendle (log : ExecutedLog) : Option (Amm × SwapFact) :=
  if log.topics.length < 3 ∨ log.data.length < 64 then none
  else
    let pt := signedWord log.data 0
    let sy := signedWord log.data 1
    if pt = 0 ∧ sy = 0 then none
    else some (.pendle, { blankSwap .pendle log.address with
      amountIn := pt.natAbs, amountOut := sy.natAbs })

/-- Model of `decode_fluid` (`swap.rs`, lines 236–255). -/
def decodeFluid (log : ExecutedLog) : Option (Amm × SwapFact) :=
  if log.data.length < 128 then none
  else
    let swap0to1 := log.data.getD 31 0 ≠ 0
    some (.fluid, sentinelSides { blankSwap .fluid log.address with
      amountIn := dataWord log.data 1, amountOut := dataWord log.data 2 } swap0to1)

/-- Model of `decode_metric` (`swap.rs`, lines 257–277). -/
def decodeMetric (log : ExecutedLog) : Option (Amm × SwapFact) :=
  if log.data.length < 160 then none
  else
    let a0 := signedWord log.data 1
    let a1 := signedWord log.data 2
    if a0 = 0 ∧ a1 = 0 then none
    else some (.metric, signedSides (blankSwap .metric log.address) a0 a1)

/-- Model of `decode_aggregator_swap` (`aggregator.rs`, lines 16–18 and 34–130), without the
    brand, which the swap does not keep. -/
def decodeAggregatorSwap (log : ExecutedLog) : Option (Amm × SwapFact) :=
  let base := blankSwap .aggregator log.address
  match log.topics with
  | [] => none
  | topic0 :: indexed =>
    if topic0 = oneinchSwappedTopic then
      if log.data.length < 192 then none
      else some (.aggregator, { base with
        tokenIn := abiWordAddress log.data 1
        tokenOut := abiWordAddress log.data 2
        amountIn := dataWord log.data 4
        amountOut := dataWord log.data 5 })
    else if topic0 = paraswapSwappedTopic then
      match indexed with
      | _ :: tokenIn :: tokenOut :: _ =>
        if log.data.length < 160 then none
        else some (.aggregator, { base with
          tokenIn := topicAddress tokenIn
          tokenOut := topicAddress tokenOut
          amountIn := dataWord log.data 1
          amountOut := dataWord log.data 2 })
      | _ => none
    else if topic0 = paraswapSwappedV3Topic then
      match indexed with
      | _ :: tokenIn :: tokenOut :: _ =>
        if log.data.length < 224 then none
        else some (.aggregator, { base with
          tokenIn := topicAddress tokenIn
          tokenOut := topicAddress tokenOut
          amountIn := dataWord log.data 4
          amountOut := dataWord log.data 5 })
      | _ => none
    else if topic0 = zrxFillTopic then
      if indexed.length < 3 ∨ log.data.length < 352 then none
      else some (.aggregator, { base with
        amountIn := dataWord log.data 7
        amountOut := dataWord log.data 6 })
    else if topic0 = odosSwapTopic then
      if log.data.length < 224 then none
      else some (.aggregator, { base with
        tokenIn := abiWordAddress log.data 2
        tokenOut := abiWordAddress log.data 4
        amountIn := dataWord log.data 1
        amountOut := dataWord log.data 3 })
    else none

/-- Model of `decode_swap` (`swap.rs`, lines 75–98). -/
def decodeSwap (log : ExecutedLog) : Option (Amm × SwapFact) :=
  match log.topics with
  | [] => none
  | topic0 :: _ =>
    if topic0 = v2SwapTopic then decodeV2Like log .v2
    else if topic0 = v3SwapTopic ∨ topic0 = donaswapV3SwapTopic then
      decodeSignedAt log .v3 log.address
    else if topic0 = v4SwapTopic then decodePoolIdSigned log .v4
    else if topic0 = infClSwapTopic then decodePoolIdSigned log .infinity
    else if topic0 = curveTokenExchangeTopic ∨ topic0 = curveV2TokenExchangeTopic then
      decodeCurve log
    else if topic0 = balancerSwapTopic then decodeBalancer log
    else if topic0 = traderJoeLbSwapTopic then decodeLb log
    else if topic0 = traderJoeLbSwapLegacyTopic then decodeLbLegacy log
    else if topic0 = pendleMarketSwapTopic then decodePendle log
    else if topic0 = fluidSwapTopic then decodeFluid log
    else if topic0 = metricSwapTopic then decodeMetric log
    else if topic0 = solidlySwapTopic then decodeV2Like log .solidly
    else decodeAggregatorSwap log

/-! ## The pool of a swap -/

@[simp]
theorem signedSides_pool (fact : SwapFact) (a0 a1 : ℤ) :
    (signedSides fact a0 a1).pool = fact.pool := by
  unfold signedSides
  split_ifs <;> rfl

@[simp]
theorem applyV2Sides_pool (fact : SwapFact) (a0i a1i a0o a1o : ℕ) :
    (applyV2Sides fact a0i a1i a0o a1o).pool = fact.pool := by
  unfold applyV2Sides
  split_ifs <;> rfl

@[simp]
theorem sentinelSides_pool (fact : SwapFact) (zeroForOne : Bool) :
    (sentinelSides fact zeroForOne).pool = fact.pool := by
  unfold sentinelSides
  split_ifs <;> rfl

section

variable {log : ExecutedLog} {amm amm' : Amm} {fact : SwapFact} {pool : Address}

theorem decodeV2Like_pool (h : decodeV2Like log amm = some (amm', fact)) :
    fact.pool = log.address := by
  unfold decodeV2Like at h
  dsimp only at h
  split_ifs at h
  obtain ⟨-, rfl⟩ := Prod.mk.inj (Option.some.inj h)
  simp [blankSwap]

/-- Stated for any two amounts: with the data words in their place, the case splits below
    would evaluate them. -/
theorem signedDeltas_pool {fact' : SwapFact} {data : List UInt8} {a0 a1 : ℤ}
    (h : (if a0 = 0 ∧ a1 = 0 then none
      else if data.length ≥ 160 then
        some { signedSides fact a0 a1 with
          tick := some (signedFromBeBytes (slice data 156 160)) }
      else some (signedSides fact a0 a1)) = some fact') : fact'.pool = fact.pool := by
  split_ifs at h
  · obtain rfl := Option.some.inj h
    exact signedSides_pool fact a0 a1
  · obtain rfl := Option.some.inj h
    exact signedSides_pool fact a0 a1

theorem applySignedDeltas_pool {fact' : SwapFact} {data : List UInt8}
    (h : applySignedDeltas fact data = some fact') : fact'.pool = fact.pool := by
  unfold applySignedDeltas at h
  by_cases hlen : data.length < 64
  · rw [if_pos hlen] at h
    cases h
  · rw [if_neg hlen] at h
    exact signedDeltas_pool h

theorem decodeSignedAt_pool (h : decodeSignedAt log amm pool = some (amm', fact)) :
    fact.pool = pool := by
  obtain ⟨fact', hfact, heq⟩ := Option.map_eq_some_iff.mp h
  obtain ⟨-, rfl⟩ := Prod.mk.inj heq
  exact applySignedDeltas_pool hfact

theorem decodeCurve_pool (h : decodeCurve log = some (amm', fact)) : fact.pool = log.address := by
  unfold decodeCurve at h
  split_ifs at h
  have hfact := (Prod.mk.inj (Option.some.inj h)).2
  rw [← hfact]
  rfl

theorem decodeLb_pool (h : decodeLb log = some (amm', fact)) : fact.pool = log.address := by
  unfold decodeLb at h
  dsimp only at h
  split_ifs at h
  obtain ⟨-, rfl⟩ := Prod.mk.inj (Option.some.inj h)
  simp [blankSwap]

theorem decodeLbLegacy_pool (h : decodeLbLegacy log = some (amm', fact)) :
    fact.pool = log.address := by
  unfold decodeLbLegacy at h
  dsimp only at h
  split_ifs at h <;> dsimp only at h <;> split_ifs at h <;>
    obtain ⟨-, rfl⟩ := Prod.mk.inj (Option.some.inj h) <;> simp [blankSwap]

theorem decodePendle_pool (h : decodePendle log = some (amm', fact)) :
    fact.pool = log.address := by
  unfold decodePendle at h
  dsimp only at h
  split_ifs at h
  obtain ⟨-, rfl⟩ := Prod.mk.inj (Option.some.inj h)
  rfl

theorem decodeFluid_pool (h : decodeFluid log = some (amm', fact)) : fact.pool = log.address := by
  unfold decodeFluid at h
  dsimp only at h
  split_ifs at h
  obtain ⟨-, rfl⟩ := Prod.mk.inj (Option.some.inj h)
  simp [blankSwap]

theorem decodeMetric_pool (h : decodeMetric log = some (amm', fact)) :
    fact.pool = log.address := by
  unfold decodeMetric at h
  dsimp only at h
  split_ifs at h
  obtain ⟨-, rfl⟩ := Prod.mk.inj (Option.some.inj h)
  simp [blankSwap]

theorem decodePoolIdSigned_pool (h : decodePoolIdSigned log amm = some (amm', fact)) :
    ∃ topic0 poolId rest, log.topics = topic0 :: poolId :: rest ∧
      fact.pool = topicAddress poolId := by
  unfold decodePoolIdSigned at h
  split at h
  · next topic0 poolId rest htopics =>
    exact ⟨topic0, poolId, rest, htopics, decodeSignedAt_pool h⟩
  · cases h

theorem decodeBalancer_pool (h : decodeBalancer log = some (amm', fact)) :
    ∃ topic0 poolId tokenIn tokenOut rest,
      log.topics = topic0 :: poolId :: tokenIn :: tokenOut :: rest ∧ 64 ≤ log.data.length ∧
      fact.pool = topicAddress poolId := by
  unfold decodeBalancer at h
  split at h
  · next topic0 poolId tokenIn tokenOut rest htopics =>
    split_ifs at h with hlen
    have hfact := (Prod.mk.inj (Option.some.inj h)).2
    refine ⟨topic0, poolId, tokenIn, tokenOut, rest, htopics, by omega, ?_⟩
    rw [← hfact]
    rfl
  · cases h

/-- The topics whose swaps are attributed to the emitter. -/
def emitterTopics : List B256 :=
  [v2SwapTopic, v3SwapTopic, donaswapV3SwapTopic, curveTokenExchangeTopic,
    curveV2TokenExchangeTopic, traderJoeLbSwapTopic, traderJoeLbSwapLegacyTopic,
    pendleMarketSwapTopic, fluidSwapTopic, metricSwapTopic, solidlySwapTopic]

/-- The first topics of the logs that an aggregator decodes. -/
def aggregatorTopics : List B256 :=
  [oneinchSwappedTopic, paraswapSwappedTopic, paraswapSwappedV3Topic, zrxFillTopic, odosSwapTopic]

theorem decodeAggregatorSwap_topic (h : decodeAggregatorSwap log = some (amm', fact)) :
    ∃ topic0, log.topics.head? = some topic0 ∧ topic0 ∈ aggregatorTopics := by
  unfold decodeAggregatorSwap at h
  cases htopics : log.topics with
  | nil =>
    rw [htopics] at h
    cases h
  | cons topic0 indexed =>
    rw [htopics] at h
    refine ⟨topic0, rfl, ?_⟩
    by_contra hnot
    simp only [aggregatorTopics, List.mem_cons, List.not_mem_nil, or_false, not_or] at hnot
    obtain ⟨h1, h2, h3, h4, h5⟩ := hnot
    dsimp only at h
    rw [if_neg h1, if_neg h2, if_neg h3, if_neg h4, if_neg h5] at h
    cases h

/-- The pool that a decoded log names, by the family of its first topic. -/
inductive DecodedPool (log : ExecutedLog) : List B256 → Address → Prop
  | emitter {topic0 : B256} {rest : List B256} (h : topic0 ∈ emitterTopics) :
      DecodedPool log (topic0 :: rest) log.address
  | poolId {topic0 poolId : B256} {rest : List B256}
      (h : topic0 ∈ [v4SwapTopic, infClSwapTopic]) :
      DecodedPool log (topic0 :: poolId :: rest) (topicAddress poolId)
  | balancer {poolId tokenIn tokenOut : B256} {rest : List B256} (h : 64 ≤ log.data.length) :
      DecodedPool log (balancerSwapTopic :: poolId :: tokenIn :: tokenOut :: rest)
        (topicAddress poolId)
  | aggregator {topic0 : B256} {rest : List B256} {pool : Address}
      (h : topic0 ∈ aggregatorTopics) : DecodedPool log (topic0 :: rest) pool

theorem decodedPool_emitter {topic0 : B256} {rest : List B256} (hmem : topic0 ∈ emitterTopics)
    (hpool : fact.pool = log.address) : DecodedPool log (topic0 :: rest) fact.pool := by
  rw [hpool]
  exact .emitter hmem

theorem decodedPool_poolId {topic0 : B256} {rest : List B256}
    (hmem : topic0 ∈ [v4SwapTopic, infClSwapTopic]) (htopics : log.topics = topic0 :: rest)
    (h : decodePoolIdSigned log amm = some (amm', fact)) :
    DecodedPool log (topic0 :: rest) fact.pool := by
  obtain ⟨topic0', poolId, rest', htopics', hpool⟩ := decodePoolIdSigned_pool h
  obtain ⟨rfl, rfl⟩ := List.cons.inj (htopics.symm.trans htopics')
  rw [hpool]
  exact .poolId hmem

theorem decodedPool_balancer {rest : List B256} (htopics : log.topics = balancerSwapTopic :: rest)
    (h : decodeBalancer log = some (amm', fact)) :
    DecodedPool log (balancerSwapTopic :: rest) fact.pool := by
  obtain ⟨topic0', poolId, tokenIn, tokenOut, rest', htopics', hlen, hpool⟩ :=
    decodeBalancer_pool h
  obtain ⟨rfl, rfl⟩ := List.cons.inj (htopics.symm.trans htopics')
  rw [hpool]
  exact .balancer hlen

/-- The decoder that a log with this first topic is given to. -/
inductive DecodedBy (log : ExecutedLog) (topic0 : B256) : Option (Amm × SwapFact) → Prop
  | v2Like {amm : Amm} (ha : amm ≠ .balancer ∧ amm ≠ .aggregator)
      (h : topic0 ∈ [v2SwapTopic, solidlySwapTopic]) :
      DecodedBy log topic0 (decodeV2Like log amm)
  | signed (h : topic0 ∈ [v3SwapTopic, donaswapV3SwapTopic]) :
      DecodedBy log topic0 (decodeSignedAt log .v3 log.address)
  | poolId {amm : Amm} (ha : amm ≠ .balancer ∧ amm ≠ .aggregator)
      (h : topic0 ∈ [v4SwapTopic, infClSwapTopic]) :
      DecodedBy log topic0 (decodePoolIdSigned log amm)
  | curve (h : topic0 ∈ [curveTokenExchangeTopic, curveV2TokenExchangeTopic]) :
      DecodedBy log topic0 (decodeCurve log)
  | balancer (h : topic0 = balancerSwapTopic) : DecodedBy log topic0 (decodeBalancer log)
  | lb (h : topic0 = traderJoeLbSwapTopic) : DecodedBy log topic0 (decodeLb log)
  | lbLegacy (h : topic0 = traderJoeLbSwapLegacyTopic) : DecodedBy log topic0 (decodeLbLegacy log)
  | pendle (h : topic0 = pendleMarketSwapTopic) : DecodedBy log topic0 (decodePendle log)
  | fluid (h : topic0 = fluidSwapTopic) : DecodedBy log topic0 (decodeFluid log)
  | metric (h : topic0 = metricSwapTopic) : DecodedBy log topic0 (decodeMetric log)
  | aggregator : DecodedBy log topic0 (decodeAggregatorSwap log)

theorem decodedBy_decodeSwap {topic0 : B256} {rest : List B256}
    (htopics : log.topics = topic0 :: rest) : DecodedBy log topic0 (decodeSwap log) := by
  unfold decodeSwap
  rw [htopics]
  dsimp only
  by_cases h1 : topic0 = v2SwapTopic
  · rw [if_pos h1]
    exact .v2Like ⟨nofun, nofun⟩ (by simp [h1])
  rw [if_neg h1]
  by_cases h2 : topic0 = v3SwapTopic ∨ topic0 = donaswapV3SwapTopic
  · rw [if_pos h2]
    exact .signed (by simpa using h2)
  rw [if_neg h2]
  by_cases h3 : topic0 = v4SwapTopic
  · rw [if_pos h3]
    exact .poolId ⟨nofun, nofun⟩ (by simp [h3])
  rw [if_neg h3]
  by_cases h4 : topic0 = infClSwapTopic
  · rw [if_pos h4]
    exact .poolId ⟨nofun, nofun⟩ (by simp [h4])
  rw [if_neg h4]
  by_cases h5 : topic0 = curveTokenExchangeTopic ∨ topic0 = curveV2TokenExchangeTopic
  · rw [if_pos h5]
    exact .curve (by simpa using h5)
  rw [if_neg h5]
  by_cases h6 : topic0 = balancerSwapTopic
  · rw [if_pos h6]
    exact .balancer h6
  rw [if_neg h6]
  by_cases h7 : topic0 = traderJoeLbSwapTopic
  · rw [if_pos h7]
    exact .lb h7
  rw [if_neg h7]
  by_cases h8 : topic0 = traderJoeLbSwapLegacyTopic
  · rw [if_pos h8]
    exact .lbLegacy h8
  rw [if_neg h8]
  by_cases h9 : topic0 = pendleMarketSwapTopic
  · rw [if_pos h9]
    exact .pendle h9
  rw [if_neg h9]
  by_cases h10 : topic0 = fluidSwapTopic
  · rw [if_pos h10]
    exact .fluid h10
  rw [if_neg h10]
  by_cases h11 : topic0 = metricSwapTopic
  · rw [if_pos h11]
    exact .metric h11
  rw [if_neg h11]
  by_cases h12 : topic0 = solidlySwapTopic
  · rw [if_pos h12]
    exact .v2Like ⟨nofun, nofun⟩ (by simp [h12])
  rw [if_neg h12]
  exact .aggregator

/-- The pool that every decoder names. -/
theorem decodeSwap_pool (h : decodeSwap log = some (amm, fact)) :
    DecodedPool log log.topics fact.pool := by
  cases htopics : log.topics with
  | nil =>
    unfold decodeSwap at h
    rw [htopics] at h
    cases h
  | cons topic0 rest =>
    have hby := decodedBy_decodeSwap htopics
    have hemitter {l : List B256} (hmem : topic0 ∈ l) (hsub : l ⊆ emitterTopics)
        (hpool : fact.pool = log.address) : DecodedPool log (topic0 :: rest) fact.pool :=
      decodedPool_emitter (hsub hmem) hpool
    rw [h] at hby
    generalize hd : some (amm, fact) = d at hby
    cases hby with
    | v2Like ha hmem =>
      exact hemitter hmem (by simp [emitterTopics]) (decodeV2Like_pool hd.symm)
    | signed hmem => exact hemitter hmem (by simp [emitterTopics]) (decodeSignedAt_pool hd.symm)
    | poolId ha hmem => exact decodedPool_poolId hmem htopics hd.symm
    | curve hmem => exact hemitter hmem (by simp [emitterTopics]) (decodeCurve_pool hd.symm)
    | balancer htopic =>
      subst htopic
      exact decodedPool_balancer htopics hd.symm
    | lb htopic =>
      exact decodedPool_emitter (by simp [htopic, emitterTopics]) (decodeLb_pool hd.symm)
    | lbLegacy htopic =>
      exact decodedPool_emitter (by simp [htopic, emitterTopics]) (decodeLbLegacy_pool hd.symm)
    | pendle htopic =>
      exact decodedPool_emitter (by simp [htopic, emitterTopics]) (decodePendle_pool hd.symm)
    | fluid htopic =>
      exact decodedPool_emitter (by simp [htopic, emitterTopics]) (decodeFluid_pool hd.symm)
    | metric htopic =>
      exact decodedPool_emitter (by simp [htopic, emitterTopics]) (decodeMetric_pool hd.symm)
    | aggregator =>
      obtain ⟨topic0', htopic, hmem⟩ := decodeAggregatorSwap_topic hd.symm
      rw [htopics] at htopic
      obtain rfl := Option.some.inj htopic
      exact .aggregator hmem

end

/-! ## The pool of a candidate -/

/-- The topics whose classifiers may override the emitter. -/
def overrideTopics : List B256 :=
  [balancerSwapTopic, pendleSwapPtAndSyTopic, pendleSwapYtAndSyTopic, pendleSwapPtAndTokenTopic,
    pendleSwapYtAndTokenTopic, v4SwapTopic, infClSwapTopic]

/-- A classification that leaves the pool to the emitter. -/
def KeepsEmitter (o : Option PoolHitCandidate) : Prop :=
  ∀ c, o = some c → c.addrOverride = none

theorem KeepsEmitter.or {o o' : Option PoolHitCandidate} (h : KeepsEmitter o)
    (h' : KeepsEmitter o') : KeepsEmitter (o.or o') := by
  intro c hc
  rcases Option.or_eq_some_iff.mp hc with hc | ⟨-, hc⟩
  · exact h c hc
  · exact h' c hc

theorem keepsEmitter_none : KeepsEmitter none := by
  intro c hc
  cases hc

theorem keepsEmitter_simple (dexType : DexType) : KeepsEmitter (some (.simple dexType)) := by
  intro c hc
  obtain rfl := Option.some.inj hc
  rfl

theorem keepsEmitter_classifyByTopic (dexType : DexType) (known : List B256) (topic0 : B256) :
    KeepsEmitter (classifyByTopic dexType known topic0) := by
  unfold classifyByTopic
  split_ifs
  · exact keepsEmitter_simple dexType
  · exact keepsEmitter_none

section

variable {topic0 : B256} {rest : List B256}

theorem keepsEmitter_classifyByPoolId {dexType : DexType} {topic : B256} (h : topic0 ≠ topic) :
    KeepsEmitter (classifyByPoolId dexType topic topic0 rest) := by
  unfold classifyByPoolId
  rw [if_pos h]
  exact keepsEmitter_none

theorem keepsEmitter_balancer (h : topic0 ≠ balancerSwapTopic) :
    KeepsEmitter (Balancer.classifyActivity topic0 rest) := by
  unfold Balancer.classifyActivity
  rw [if_pos h]
  exact keepsEmitter_none

theorem keepsEmitter_pendle (h : topic0 ∉ overrideTopics) :
    KeepsEmitter (Pendle.classifyActivity topic0 rest) := by
  unfold Pendle.classifyActivity
  split_ifs with h1 h2
  · exact keepsEmitter_simple .pendle
  · refine absurd ?_ h
    simp only [List.mem_cons, List.not_mem_nil, or_false] at h2
    rcases h2 with rfl | rfl | rfl | rfl <;> simp [overrideTopics]
  · exact keepsEmitter_none

/-- Discovery names the emitter of every log outside the singleton and router families. -/
theorem classifyDexEvent_keepsEmitter {log : ExecutedLog} {c : PoolHitCandidate}
    (htopics : log.topics = topic0 :: rest) (hmem : topic0 ∉ overrideTopics)
    (h : classifyDexEvent log = .ok (some c)) : c.addrOverride = none := by
  have hne (t : B256) (ht : t ∈ overrideTopics) : topic0 ≠ t := by
    rintro rfl
    exact hmem ht
  have hv2 : KeepsEmitter (V2.classifyActivity topic0 rest) := keepsEmitter_classifyByTopic _ _ _
  have hv3 : KeepsEmitter (V3.classifyActivity topic0 rest) := keepsEmitter_classifyByTopic _ _ _
  have hbalancer : KeepsEmitter (Balancer.classifyActivity topic0 rest) :=
    keepsEmitter_balancer (hne _ (by simp [overrideTopics]))
  have hcurve : KeepsEmitter (Curve.classifyActivity topic0 rest) :=
    keepsEmitter_classifyByTopic _ _ _
  have hjoe : KeepsEmitter (TraderJoe.classifyActivity topic0 rest) :=
    keepsEmitter_classifyByTopic _ _ _
  have hpendle : KeepsEmitter (Pendle.classifyActivity topic0 rest) := keepsEmitter_pendle hmem
  have hv4 : KeepsEmitter (V4.classifyActivity topic0 rest) :=
    keepsEmitter_classifyByPoolId (hne _ (by simp [overrideTopics]))
  have hinfinity : KeepsEmitter (Infinity.classifyActivity topic0 rest) :=
    keepsEmitter_classifyByPoolId (hne _ (by simp [overrideTopics]))
  have hfluid : KeepsEmitter (Fluid.classifyActivity topic0 rest) :=
    keepsEmitter_classifyByTopic _ _ _
  have hmetric : KeepsEmitter (Metric.classifyActivity topic0 rest) :=
    keepsEmitter_classifyByTopic _ _ _
  unfold classifyDexEvent at h
  rw [htopics] at h
  exact (hv2.or hv3 |>.or hbalancer |>.or hcurve |>.or hjoe |>.or hpendle |>.or hv4
    |>.or hinfinity |>.or hfluid |>.or hmetric) c (Except.ok.inj h)

/-- Discovery names a V4 or Infinity pool by the last 20 bytes of its id. -/
theorem classifyDexEvent_poolId {log : ExecutedLog} {poolId : B256} {c : PoolHitCandidate}
    (htopics : log.topics = topic0 :: poolId :: rest)
    (hmem : topic0 ∈ [v4SwapTopic, infClSwapTopic])
    (h : classifyDexEvent log = .ok (some c)) : c.addrOverride = some (topicAddress poolId) := by
  unfold classifyDexEvent at h
  rw [htopics] at h
  simp only [List.mem_cons, List.not_mem_nil, or_false] at hmem
  have hc := Except.ok.inj h
  rcases hmem with rfl | rfl <;> obtain rfl := Option.some.inj hc <;> rfl

/-- Discovery names a Balancer pool by the first 20 bytes of its id. -/
theorem classifyDexEvent_balancer {log : ExecutedLog} {poolId tokenIn tokenOut : B256}
    (htopics : log.topics = balancerSwapTopic :: poolId :: tokenIn :: tokenOut :: rest) :
    ∃ c, classifyDexEvent log = .ok (some c) ∧
      c.addrOverride = some (Balancer.poolIdAddress poolId) := by
  unfold classifyDexEvent
  rw [htopics]
  exact ⟨_, rfl, rfl⟩

end

/-! ## One pool, two names -/

/-- Both readers of a log name one pool: discovery by the override of its candidate or else by
    the emitter (`process_discovery_log`), the explorer by the pool of its swap. -/
def NamesSamePool (log : ExecutedLog) : Prop :=
  ∀ amm fact c, decodeSwap log = some (amm, fact) → classifyDexEvent log = .ok (some c) →
    fact.pool = c.addrOverride.getD log.address

/-- The pool id of a Balancer swap reads the same from both of its ends. -/
def BalancerIdAgrees (log : ExecutedLog) : Prop :=
  ∀ poolId tokenIn tokenOut rest,
    log.topics = balancerSwapTopic :: poolId :: tokenIn :: tokenOut :: rest →
    64 ≤ log.data.length → Balancer.poolIdAddress poolId = topicAddress poolId

section

variable {log : ExecutedLog} {topic0 : B256} {rest : List B256}

theorem emitterTopics_disjoint (h : topic0 ∈ emitterTopics) : topic0 ∉ overrideTopics := by
  have hdisjoint : ∀ t ∈ emitterTopics, t ∉ overrideTopics := by
    simp [emitterTopics, overrideTopics, v2SwapTopic, v3SwapTopic, donaswapV3SwapTopic,
      curveTokenExchangeTopic, curveV2TokenExchangeTopic, traderJoeLbSwapTopic,
      traderJoeLbSwapLegacyTopic, pendleMarketSwapTopic, fluidSwapTopic, metricSwapTopic,
      solidlySwapTopic, balancerSwapTopic, pendleSwapPtAndSyTopic, pendleSwapYtAndSyTopic,
      pendleSwapPtAndTokenTopic, pendleSwapYtAndTokenTopic, v4SwapTopic, infClSwapTopic]
  exact hdisjoint topic0 h

/-- Discovery takes no log of an aggregator. -/
theorem classifyDexEvent_aggregator (htopics : log.topics = topic0 :: rest)
    (hmem : topic0 ∈ aggregatorTopics) : classifyDexEvent log = .ok none := by
  unfold classifyDexEvent
  rw [htopics]
  simp only [aggregatorTopics, List.mem_cons, List.not_mem_nil, or_false] at hmem
  rcases hmem with rfl | rfl | rfl | rfl | rfl <;> rfl

theorem decodeSwap_balancer {poolId tokenIn tokenOut : B256}
    (htopics : log.topics = balancerSwapTopic :: poolId :: tokenIn :: tokenOut :: rest)
    (hlen : 64 ≤ log.data.length) :
    ∃ fact, decodeSwap log = some (.balancer, fact) ∧ fact.pool = topicAddress poolId := by
  have hdecode : decodeSwap log = decodeBalancer log := by
    unfold decodeSwap
    rw [htopics]
    rfl
  rw [hdecode, decodeBalancer, htopics]
  dsimp only
  rw [if_neg (by omega)]
  exact ⟨_, rfl, rfl⟩

end

/-- **Main theorem.** Discovery and the explorer name the same pool of a log exactly when the log
    is no decodable Balancer swap whose pool id differs at its two ends: discovery reads the
    first 20 bytes of the id and the explorer the last 20. Every other family agrees, for every
    emitter and every pool id. -/
theorem namesSamePool_iff (log : ExecutedLog) : NamesSamePool log ↔ BalancerIdAgrees log := by
  constructor
  · intro h poolId tokenIn tokenOut rest htopics hlen
    obtain ⟨fact, hdecode, hpool⟩ := decodeSwap_balancer htopics hlen
    obtain ⟨c, hclass, hover⟩ := classifyDexEvent_balancer htopics
    have hsame := h _ fact c hdecode hclass
    rw [hpool, hover] at hsame
    exact hsame.symm
  · intro h amm fact c hdecode hclass
    have hnamed := decodeSwap_pool hdecode
    generalize htopics : log.topics = topics at hnamed
    generalize fact.pool = pool at hnamed ⊢
    cases hnamed with
    | emitter hmem =>
      rw [classifyDexEvent_keepsEmitter htopics (emitterTopics_disjoint hmem) hclass]
      rfl
    | poolId hmem =>
      rw [classifyDexEvent_poolId htopics hmem hclass]
      rfl
    | balancer hlen =>
      obtain ⟨c', hclass', hover⟩ := classifyDexEvent_balancer htopics
      obtain rfl := Option.some.inj (Except.ok.inj (hclass.symm.trans hclass'))
      rw [hover]
      exact (h _ _ _ _ htopics hlen).symm
    | aggregator hmem =>
      rw [classifyDexEvent_aggregator htopics hmem] at hclass
      cases hclass

/-- A swap of the Vault in a pool whose id ends in a nonce, as ids of the Vault do. -/
def vaultSwap : ExecutedLog where
  address := 0xba12222222228d8ba445958a75a0704d566bf2c8
  topics := [balancerSwapTopic,
    0x5c6ee304399dbdb9c8ef030ab642b10820db8f56000200000000000000000014, 1, 2]
  data := List.replicate 64 1

/-- Discovery stores the pool under one address and the explorer looks it up under another. -/
theorem vault_pool_unknown :
    attributedPool vaultSwap = .ok (some 0x5c6ee304399dbdb9c8ef030ab642b10820db8f56) ∧
    (decodeSwap vaultSwap).map (·.2.pool) = some 0xb642b10820db8f56000200000000000000000014 ∧
    ¬NamesSamePool vaultSwap := by
  have htopics : vaultSwap.topics = balancerSwapTopic ::
      0x5c6ee304399dbdb9c8ef030ab642b10820db8f56000200000000000000000014 :: 1 :: 2 :: [] := rfl
  obtain ⟨fact, hdecode, hpool⟩ := decodeSwap_balancer htopics (by decide)
  obtain ⟨c, hclass, hover⟩ := classifyDexEvent_balancer htopics
  refine ⟨rfl, ?_, ?_⟩
  · rw [hdecode]
    exact congrArg some hpool
  · intro h
    have hsame := h _ fact c hdecode hclass
    rw [hpool, hover] at hsame
    exact absurd hsame (by decide)

end MevScout.Explorer
