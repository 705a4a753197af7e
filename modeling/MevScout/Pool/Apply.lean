import MevScout.Pool.Decoders
import MevScout.Pool.Manager

/-!
# Applying event logs

Models of `core/src/pool/state/apply.rs`: how `update_from_logs` turns the logs of a
transaction into edits of the tracked pools.

A handler edits its pool through `pool_mut`, a fixed number of times. `logEdits` lists
these edits, and `processLog_eq` says once what a log does: every later result about
logs is derived from it.

Results:
* `processLog_eq`: a log of a tracked pool marks it dirty and performs its edits;
* `updateFromLogs_pool`: the state of a pool after a list of logs is the fold of
  `logEffect` over the logs that the pool emitted, and of no others.
-/

namespace MevScout.Pool

open MevScout.Chain

/-! ## Edits of single states -/

/-- `x.wrapping_add(amount_in).wrapping_sub(amount_out)`. -/
def v2Move (x amountIn amountOut : ℕ) : ℕ := wrappingSub 128 (wrappingAdd 128 x amountIn) amountOut

/-- The reserve update of `apply_v2_swap`. -/
def UniswapV2PoolState.swap (amount0In amount1In amount0Out amount1Out : ℕ)
    (s : UniswapV2PoolState) : UniswapV2PoolState :=
  { s with
    reserve0 := v2Move s.reserve0 amount0In amount0Out
    reserve1 := v2Move s.reserve1 amount1In amount1Out }

/-- The reserve update of `apply_v2_sync`. -/
def UniswapV2PoolState.sync (reserve0 reserve1 : ℕ) (s : UniswapV2PoolState) :
    UniswapV2PoolState :=
  { s with reserve0, reserve1 }

/-- The closure that `apply_v2_swap` hands to `try_apply_v2_to_curve`. -/
def balancesSwap (amount0In amount1In amount0Out amount1Out : ℕ) : List ℕ → List ℕ
  | b0 :: b1 :: rest => v2Move b0 amount0In amount0Out :: v2Move b1 amount1In amount1Out :: rest
  | b => b

/-- The closure that `apply_v2_sync` hands to `try_apply_v2_to_curve`. -/
def balancesSync (reserve0 reserve1 : ℕ) : List ℕ → List ℕ
  | _ :: _ :: rest => reserve0 :: reserve1 :: rest
  | b => b

/-- The body of `try_apply_v2_to_curve` (`apply.rs`, lines 123–129). -/
def CurvePoolState.updateBalances (update : List ℕ → List ℕ) (s : CurvePoolState) :
    CurvePoolState :=
  if s.balances.length ≥ 2 then { s with balances := update s.balances } else s

/-- `state.fee_growth_global_*`, after a swap that reports the amount `amount` of the
    token (`apply.rs`, lines 74–91). -/
def feeGrowth (feeTier : FeeTier) (liquidity : ℕ) (growth : ℕ) (amount : ℤ) : ℕ :=
  if amount < 0 then
    let fee := feeTier.feeOnAmount amount.natAbs
    if 0 < fee ∧ 0 < liquidity then saturatingAdd 256 growth (fee * 2 ^ 128 / liquidity)
    else growth
  else growth

/-- The update of `apply_v3_swap` (`apply.rs`, lines 69–91). -/
def UniswapV3PoolState.swap (sqrtPriceX96 : ℕ) (tick : ℤ) (liquidity : ℕ) (amount0 amount1 : ℤ)
    (s : UniswapV3PoolState) : UniswapV3PoolState :=
  { s with
    sqrtPriceX96, tick, liquidity
    feeGrowthGlobal0X128 := feeGrowth s.info.feeTier liquidity s.feeGrowthGlobal0X128 amount0
    feeGrowthGlobal1X128 := feeGrowth s.info.feeTier liquidity s.feeGrowthGlobal1X128 amount1 }

/-- `*state.ticks.entry(tick).or_insert(0) += delta`. -/
def addNet (ticks : TickMap) (tick delta : ℤ) : TickMap :=
  ticks.insert tick (wrapSigned 128 (ticks[tick]?.getD 0 + delta))

/-- `*state.ticks.entry(tick).or_insert(0) -= delta`. -/
def subNet (ticks : TickMap) (tick delta : ℤ) : TickMap :=
  ticks.insert tick (wrapSigned 128 (ticks[tick]?.getD 0 - delta))

/-- The update of `apply_v3_mint_burn` (`apply.rs`, lines 109–115). -/
def UniswapV3PoolState.mintBurn (tickLower tickUpper amount : ℤ) (s : UniswapV3PoolState) :
    UniswapV3PoolState :=
  { s with
    ticks := subNet (addNet s.ticks tickLower amount) tickUpper amount
    liquidity :=
      if amount > 0 then saturatingAdd 128 s.liquidity (asUnsigned 128 amount)
      else s.liquidity - asUnsigned 128 (wrapSigned 128 (-amount)) }

/-- `balances[i] = balances[i].saturating_add(amount)`. -/
def addBalance (balances : List ℕ) (i amount : ℕ) : List ℕ :=
  balances.modify i (saturatingAdd 128 · amount)

/-- `balances[i] = balances[i].saturating_sub(amount)`. -/
def subBalance (balances : List ℕ) (i amount : ℕ) : List ℕ := balances.modify i (· - amount)

/-- The update of `process_curve_swap_log` (`apply.rs`, lines 267–275). -/
def CurvePoolState.exchange (d : CurveSwapDecoded) (s : CurvePoolState) : CurvePoolState :=
  -- `decoded.coin_sold as usize` keeps the low 64 bits.
  let coinSold := d.coinSold % 2 ^ 64
  let coinBought := d.coinBought % 2 ^ 64
  if coinSold < s.balances.length ∧ coinBought < s.balances.length then
    { s with
      balances :=
        subBalance (addBalance s.balances coinSold d.amountSold) coinBought d.amountBought }
  else s

/-- The update of `process_balancer_swap_log` (`apply.rs`, lines 285–296). -/
def BalancerPoolState.swap (d : BalancerSwapDecoded) (s : BalancerPoolState) : BalancerPoolState :=
  match s.tokenIndex[d.tokenIn]?, s.tokenIndex[d.tokenOut]? with
  | some iIn, some iOut =>
    if iIn < s.balances.length ∧ iOut < s.balances.length then
      { s with balances := subBalance (addBalance s.balances iIn d.amountIn) iOut d.amountOut }
    else s
  | _, _ => s

/-- The update of `apply_lb_swap` (`apply.rs`, lines 309–318). -/
def TraderJoeLBPoolState.swap (tokenIn : Address) (amountIn amountOut : ℕ)
    (s : TraderJoeLBPoolState) : TraderJoeLBPoolState :=
  if tokenIn = s.info.token0 then
    { s with
      reserveX := saturatingAdd 128 s.reserveX amountIn
      reserveY := s.reserveY - amountOut }
  else if tokenIn = s.info.token1 then
    { s with
      reserveY := saturatingAdd 128 s.reserveY amountIn
      reserveX := s.reserveX - amountOut }
  else s

/-- The update of `apply_pendle_swap` (`apply.rs`, lines 330–342). -/
def PendlePoolState.swap (isNetPtOut : Bool) (amountIn amountOut : ℕ) (s : PendlePoolState) :
    PendlePoolState :=
  if isNetPtOut then
    { s with
      totalSy := saturatingAdd 128 s.totalSy amountIn
      totalPt := s.totalPt - amountOut }
  else
    { s with
      totalPt := saturatingAdd 128 s.totalPt amountIn
      totalSy := s.totalSy - amountOut }

/-- The update of `apply_fluid_swap` (`apply.rs`, lines 412–416). -/
def FluidPoolState.swap (swap0to1 : Bool) (amountIn amountOut : ℕ) (s : FluidPoolState) :
    FluidPoolState :=
  { s with lastSwap0to1 := swap0to1, lastAmountIn := amountIn, lastAmountOut := amountOut }

/-- The update of `apply_metric_swap` (`apply.rs`, lines 421–424). -/
def MetricPoolState.swap (newTick : ℤ) (positionInBin : ℕ) (s : MetricPoolState) :
    MetricPoolState :=
  { s with tick := newTick, positionInBin }

namespace PoolManager

/-! ## The handlers -/

/-- Model of `try_apply_v2_to_curve` (`apply.rs`, lines 123–129). -/
def tryApplyV2ToCurve (pm : PoolManager) (address : Address) (update : List ℕ → List ℕ) :
    PoolManager :=
  pm.poolMut address (PoolState.mapCurve (·.updateBalances update))

/-- Model of `apply_v2_swap` (`apply.rs`, lines 16–39). -/
def applyV2Swap (pm : PoolManager) (address : Address)
    (amount0In amount1In amount0Out amount1Out : ℕ) : PoolManager :=
  let pm := pm.poolMut address
    (PoolState.mapUniswapV2 (·.swap amount0In amount1In amount0Out amount1Out))
  pm.tryApplyV2ToCurve address (balancesSwap amount0In amount1In amount0Out amount1Out)

/-- Model of `apply_v2_sync` (`apply.rs`, lines 42–52). -/
def applyV2Sync (pm : PoolManager) (address : Address) (reserve0 reserve1 : ℕ) : PoolManager :=
  let pm := pm.poolMut address (PoolState.mapUniswapV2 (·.sync reserve0 reserve1))
  pm.tryApplyV2ToCurve address (balancesSync reserve0 reserve1)

/-- Model of `apply_v3_swap` (`apply.rs`, lines 55–95). -/
def applyV3Swap (pm : PoolManager) (address : Address) (sqrtPriceX96 : ℕ) (tick : ℤ)
    (liquidity : ℕ) (amount0 amount1 : ℤ) : PoolManager :=
  pm.poolMut address
    (PoolState.mapConcentrated (·.swap sqrtPriceX96 tick liquidity amount0 amount1))

/-- Model of `apply_v3_mint_burn` (`apply.rs`, lines 98–119). -/
def applyV3MintBurn (pm : PoolManager) (address : Address) (tickLower tickUpper amount : ℤ) :
    PoolManager :=
  pm.poolMut address (PoolState.mapConcentrated (·.mintBurn tickLower tickUpper amount))

/-- Model of `apply_lb_swap` (`apply.rs`, lines 301–320). -/
def applyLbSwap (pm : PoolManager) (address tokenIn _tokenOut : Address)
    (amountIn amountOut : ℕ) : PoolManager :=
  pm.poolMut address (PoolState.mapTraderJoeLB (·.swap tokenIn amountIn amountOut))

/-- Model of `apply_pendle_swap` (`apply.rs`, lines 323–343). -/
def applyPendleSwap (pm : PoolManager) (address : Address) (isNetPtOut : Bool)
    (amountIn amountOut : ℕ) : PoolManager :=
  pm.poolMut address (PoolState.mapPendle (·.swap isNetPtOut amountIn amountOut))

/-- Model of `apply_fluid_swap` (`apply.rs`, lines 405–417). -/
def applyFluidSwap (pm : PoolManager) (address : Address) (swap0to1 : Bool)
    (amountIn amountOut : ℕ) : PoolManager :=
  pm.poolMut address (PoolState.mapFluid (·.swap swap0to1 amountIn amountOut))

/-- Model of `apply_metric_swap` (`apply.rs`, lines 420–425). -/
def applyMetricSwap (pm : PoolManager) (address : Address) (newTick : ℤ) (positionInBin : ℕ) :
    PoolManager :=
  pm.poolMut address (PoolState.mapMetric (·.swap newTick positionInBin))

/-- Model of `process_v2_swap_log` (`apply.rs`, lines 206–218). -/
def processV2SwapLog (pm : PoolManager) (log : ExecutedLog) : PoolManager :=
  if log.address ∉ pm.pools then pm
  else if log.data.length < 128 then pm
  else
    let amt0In := u128FromBeBytes (slice log.data 0 32)
    let amt1In := u128FromBeBytes (slice log.data 32 64)
    let amt0Out := u128FromBeBytes (slice log.data 64 96)
    let amt1Out := u128FromBeBytes (slice log.data 96 128)
    pm.applyV2Swap log.address amt0In amt1In amt0Out amt1Out

/-- Model of `process_v2_sync_log` (`apply.rs`, lines 220–230). -/
def processV2SyncLog (pm : PoolManager) (log : ExecutedLog) : PoolManager :=
  if log.address ∉ pm.pools then pm
  else if log.data.length < 64 then pm
  else
    let r0 := u128FromBeBytes (slice log.data 0 32)
    let r1 := u128FromBeBytes (slice log.data 32 64)
    pm.applyV2Sync log.address r0 r1

/-- Model of `process_v3_swap_log` (`apply.rs`, lines 232–246). -/
def processV3SwapLog (pm : PoolManager) (log : ExecutedLog) : PoolManager :=
  if log.address ∉ pm.pools then pm
  else
    match decodeV3Swap log with
    | none => pm
    | some d => pm.applyV3Swap log.address d.sqrtPriceX96 d.tick d.liquidity d.amount0 d.amount1

/-- Model of `process_v3_mint_burn_log` (`apply.rs`, lines 248–260). -/
def processV3MintBurnLog (pm : PoolManager) (log : ExecutedLog) : PoolManager :=
  if log.address ∉ pm.pools then pm
  else
    match decodeV3MintBurn log with
    | none => pm
    | some d => pm.applyV3MintBurn log.address d.tickLower d.tickUpper d.amount

/-- Model of `process_curve_swap_log` (`apply.rs`, lines 262–278). -/
def processCurveSwapLog (pm : PoolManager) (log : ExecutedLog) : PoolManager :=
  if log.address ∉ pm.pools then pm
  else
    match decodeCurveSwap log with
    | none => pm
    | some d => pm.poolMut log.address (PoolState.mapCurve (·.exchange d))

/-- Model of `process_balancer_swap_log` (`apply.rs`, lines 280–298). -/
def processBalancerSwapLog (pm : PoolManager) (log : ExecutedLog) : PoolManager :=
  if log.address ∉ pm.pools then pm
  else
    match decodeBalancerSwap log with
    | none => pm
    | some d => pm.poolMut log.address (PoolState.mapBalancer (·.swap d))

/-- Model of `process_lb_swap_log` (`apply.rs`, lines 345–365). -/
def processLbSwapLog (pm : PoolManager) (log : ExecutedLog) : PoolManager :=
  if log.address ∉ pm.pools then pm
  else
    match decodeLbSwap log with
    | none => pm
    | some d =>
      match pm.pools[log.address]? with
      | some (.traderJoeLB state) =>
        let (tokenIn, tokenOut) :=
          if d.swapForY then (state.info.token0, state.info.token1)
          else (state.info.token1, state.info.token0)
        pm.applyLbSwap log.address tokenIn tokenOut d.amountIn d.amountOut
      | _ => pm

/-- Model of `process_pendle_swap_log` (`apply.rs`, lines 367–379). -/
def processPendleSwapLog (pm : PoolManager) (log : ExecutedLog) : Except Panic PoolManager :=
  if log.address ∉ pm.pools then .ok pm
  else do
    match ← decodePendleSwap log with
    | none => return pm
    | some d => return pm.applyPendleSwap log.address d.isNetPtOut d.amountIn d.amountOut

/-- Model of `process_fluid_swap_log` (`apply.rs`, lines 381–393). -/
def processFluidSwapLog (pm : PoolManager) (log : ExecutedLog) : PoolManager :=
  if log.address ∉ pm.pools then pm
  else
    match decodeFluidSwap log with
    | none => pm
    | some d => pm.applyFluidSwap log.address d.swap0to1 d.amountIn d.amountOut

/-- Model of `process_metric_swap_log` (`apply.rs`, lines 395–402). -/
def processMetricSwapLog (pm : PoolManager) (log : ExecutedLog) : PoolManager :=
  if log.address ∉ pm.pools then pm
  else
    match decodeMetricSwap log with
    | none => pm
    | some d => pm.applyMetricSwap log.address d.newTick d.newPositionInBin

/-- One turn of the loop of `update_from_logs` (`apply.rs`, lines 138–203). -/
def processLog (pm : PoolManager) (log : ExecutedLog) : Except Panic PoolManager :=
  match log.topics with
  | [] => .ok pm
  | topic0 :: _ =>
    if log.address ∉ pm.knownSet then .ok pm
    else
      -- Marked dirty before decoding, whatever the event.
      let pm := pm.markDirtyPool log.address
      if topic0 = v2SwapTopic ∨ topic0 = solidlySwapTopic then .ok (pm.processV2SwapLog log)
      else if topic0 = v2SyncTopic then .ok (pm.processV2SyncLog log)
      else if topic0 = v3SwapTopic then .ok (pm.processV3SwapLog log)
      else if topic0 = v3MintTopic ∨ topic0 = v3BurnTopic then .ok (pm.processV3MintBurnLog log)
      else if topic0 = curveTokenExchangeTopic ∨ topic0 = curveV2TokenExchangeTopic then
        .ok (pm.processCurveSwapLog log)
      else if topic0 = balancerSwapTopic then .ok (pm.processBalancerSwapLog log)
      else if topic0 = traderJoeLbSwapTopic then .ok (pm.processLbSwapLog log)
      else if topic0 = pendleMarketSwapTopic then pm.processPendleSwapLog log
      else if topic0 = fluidSwapTopic then .ok (pm.processFluidSwapLog log)
      else if topic0 = metricSwapTopic then .ok (pm.processMetricSwapLog log)
      else .ok pm

/-- Model of `update_from_logs` (`apply.rs`, lines 137–204). -/
def updateFromLogs (pm : PoolManager) (logs : List ExecutedLog) : Except Panic PoolManager :=
  logs.foldlM processLog pm

/-! ## What one log does -/

/-- Consecutive edits of one pool through `pool_mut`. -/
def performEdits (pm : PoolManager) (addr : Address) (edits : List (PoolState → PoolState)) :
    PoolManager :=
  edits.foldl (fun pm edit => pm.poolMut addr edit) pm

end PoolManager

/-- The branches of the dispatch in `update_from_logs`. -/
inductive Handler where
  | v2Swap | v2Sync | v3Swap | v3MintBurn | curveSwap | balancerSwap | lbSwap | pendleSwap
  | fluidSwap | metricSwap
  deriving DecidableEq

/-- The topics that a branch of the dispatch tests for. -/
def Handler.topics : Handler → List B256
  | v2Swap => [v2SwapTopic, solidlySwapTopic]
  | v2Sync => [v2SyncTopic]
  | v3Swap => [v3SwapTopic]
  | v3MintBurn => [v3MintTopic, v3BurnTopic]
  | curveSwap => [curveTokenExchangeTopic, curveV2TokenExchangeTopic]
  | balancerSwap => [balancerSwapTopic]
  | lbSwap => [traderJoeLbSwapTopic]
  | pendleSwap => [pendleMarketSwapTopic]
  | fluidSwap => [fluidSwapTopic]
  | metricSwap => [metricSwapTopic]

/-- The branch taken for a first topic. -/
def handler (topic0 : B256) : Option Handler :=
  if topic0 = v2SwapTopic ∨ topic0 = solidlySwapTopic then some .v2Swap
  else if topic0 = v2SyncTopic then some .v2Sync
  else if topic0 = v3SwapTopic then some .v3Swap
  else if topic0 = v3MintTopic ∨ topic0 = v3BurnTopic then some .v3MintBurn
  else if topic0 = curveTokenExchangeTopic ∨ topic0 = curveV2TokenExchangeTopic then
    some .curveSwap
  else if topic0 = balancerSwapTopic then some .balancerSwap
  else if topic0 = traderJoeLbSwapTopic then some .lbSwap
  else if topic0 = pendleMarketSwapTopic then some .pendleSwap
  else if topic0 = fluidSwapTopic then some .fluidSwap
  else if topic0 = metricSwapTopic then some .metricSwap
  else none

/-- The edits that a branch makes to the pool `p` that emitted `log`. -/
def Handler.edits (p : PoolState) (log : ExecutedLog) :
    Handler → Except Panic (List (PoolState → PoolState))
  | v2Swap => .ok (if log.data.length < 128 then [] else
      let amt0In := u128FromBeBytes (slice log.data 0 32)
      let amt1In := u128FromBeBytes (slice log.data 32 64)
      let amt0Out := u128FromBeBytes (slice log.data 64 96)
      let amt1Out := u128FromBeBytes (slice log.data 96 128)
      [PoolState.mapUniswapV2 (·.swap amt0In amt1In amt0Out amt1Out),
        PoolState.mapCurve (·.updateBalances (balancesSwap amt0In amt1In amt0Out amt1Out))])
  | v2Sync => .ok (if log.data.length < 64 then [] else
      let r0 := u128FromBeBytes (slice log.data 0 32)
      let r1 := u128FromBeBytes (slice log.data 32 64)
      [PoolState.mapUniswapV2 (·.sync r0 r1),
        PoolState.mapCurve (·.updateBalances (balancesSync r0 r1))])
  | v3Swap => .ok ((decodeV3Swap log).elim [] fun d =>
      [PoolState.mapConcentrated (·.swap d.sqrtPriceX96 d.tick d.liquidity d.amount0 d.amount1)])
  | v3MintBurn => .ok ((decodeV3MintBurn log).elim [] fun d =>
      [PoolState.mapConcentrated (·.mintBurn d.tickLower d.tickUpper d.amount)])
  | curveSwap => .ok ((decodeCurveSwap log).elim [] fun d => [PoolState.mapCurve (·.exchange d)])
  | balancerSwap => .ok ((decodeBalancerSwap log).elim [] fun d =>
      [PoolState.mapBalancer (·.swap d)])
  | lbSwap => .ok ((decodeLbSwap log).elim [] fun d =>
      match p with
      | .traderJoeLB state =>
        let tokenIn := if d.swapForY then state.info.token0 else state.info.token1
        [PoolState.mapTraderJoeLB (·.swap tokenIn d.amountIn d.amountOut)]
      | _ => [])
  | pendleSwap => (decodePendleSwap log).map (·.elim [] fun d =>
      [PoolState.mapPendle (·.swap d.isNetPtOut d.amountIn d.amountOut)])
  | fluidSwap => .ok ((decodeFluidSwap log).elim [] fun d =>
      [PoolState.mapFluid (·.swap d.swap0to1 d.amountIn d.amountOut)])
  | metricSwap => .ok ((decodeMetricSwap log).elim [] fun d =>
      [PoolState.mapMetric (·.swap d.newTick d.newPositionInBin)])

/-- Whether a branch edits the states of the variant of `p`. -/
def Handler.editsVariant : Handler → PoolState → Bool
  | v2Swap, .uniswapV2 _ | v2Swap, .curve _ | v2Sync, .uniswapV2 _ | v2Sync, .curve _ => true
  | v3Swap, .uniswapV3 _ | v3Swap, .uniswapV4 _ | v3Swap, .pancakeInfinity _ => true
  | v3MintBurn, .uniswapV3 _ | v3MintBurn, .uniswapV4 _ | v3MintBurn, .pancakeInfinity _ => true
  | curveSwap, .curve _ | balancerSwap, .balancer _ | lbSwap, .traderJoeLB _ => true
  | pendleSwap, .pendle _ | fluidSwap, .fluid _ | metricSwap, .metric _ => true
  | _, _ => false

/-- The branch taken for a log. -/
def logHandler (log : ExecutedLog) : Option Handler := log.topics.head?.bind handler

/-- The edits that a log makes to the pool `p` that emitted it. -/
def logEdits (p : PoolState) (log : ExecutedLog) : Except Panic (List (PoolState → PoolState)) :=
  (logHandler log).elim (.ok []) (Handler.edits p log)

/-- The state that the pool `p` is left in by a log it emitted. -/
def logEffect (p : PoolState) (log : ExecutedLog) : Except Panic PoolState :=
  (logEdits p log).map fun edits => edits.foldl (fun p edit => edit p) p

namespace PoolManager

theorem processLog_of_no_topic {pm : PoolManager} {log : ExecutedLog} (h : log.topics = []) :
    pm.processLog log = .ok pm := by
  unfold processLog; rw [h]

theorem processLog_of_unknown {pm : PoolManager} {log : ExecutedLog}
    (h : log.address ∉ pm.knownSet) : pm.processLog log = .ok pm := by
  unfold processLog
  split
  · rfl
  · rw [if_pos h]

theorem markDirtyPool_pools (pm : PoolManager) (a : Address) :
    (pm.markDirtyPool a).pools = pm.pools := rfl

/-- A known address that is no longer tracked is only marked dirty. -/
theorem processLog_of_untracked {pm : PoolManager} {log : ExecutedLog} (ht : log.topics ≠ [])
    (hk : log.address ∈ pm.knownSet) (hp : log.address ∉ pm.pools) :
    pm.processLog log = .ok (pm.markDirtyPool log.address) := by
  have hp' : log.address ∉ (pm.markDirtyPool log.address).pools := hp
  obtain ⟨topic0, rest, hl⟩ := List.exists_cons_of_ne_nil ht
  unfold processLog
  rw [hl]
  dsimp only
  rw [if_neg (not_not_intro hk)]
  repeat' first
    | rfl
    | exact congrArg Except.ok (if_pos hp')
    | exact if_pos hp'
    | refine (ite_eq_iff').mpr ⟨fun _ => ?_, fun _ => ?_⟩

/-- The branch is the one whose topics contain the first topic of the log: no topic is
    tested for twice. -/
theorem handler_eq_some_iff {topic0 : B256} {h : Handler} :
    handler topic0 = some h ↔ topic0 ∈ h.topics := by
  constructor
  · intro hf
    unfold handler at hf
    repeat' split at hf
    all_goals cases hf
    all_goals simpa [Handler.topics]
  · intro hm
    cases h <;> simp only [Handler.topics, List.mem_cons, List.not_mem_nil, or_false] at hm
    case v2Swap => rcases hm with rfl | rfl <;> rfl
    case v3MintBurn => rcases hm with rfl | rfl <;> rfl
    case curveSwap => rcases hm with rfl | rfl <;> rfl
    all_goals subst hm; rfl

/-- Two dispatches on one condition that agree up to `g` in both branches. -/
theorem ite_eq_apply_ite {α β : Type*} {c : Prop} [Decidable c] {g : α → β} {x y : β} {x' y' : α}
    (ht : x = g x') (he : y = g y') : (if c then x else y) = g (if c then x' else y') := by
  split_ifs <;> assumption

/-- **What one log does.** A log of a known and tracked pool marks it dirty and performs
    its edits through `pool_mut`, or panics. -/
theorem processLog_eq {pm : PoolManager} {log : ExecutedLog} {p : PoolState}
    (ht : log.topics ≠ []) (hk : log.address ∈ pm.knownSet)
    (hp : pm.pools[log.address]? = some p) :
    pm.processLog log = (logEdits p log).map fun edits =>
      (pm.markDirtyPool log.address).performEdits log.address edits := by
  have hmem : log.address ∈ (pm.markDirtyPool log.address).pools := by
    rw [markDirtyPool_pools, Std.ExtTreeMap.mem_iff_isSome_getElem?, hp]; rfl
  have hget : (pm.markDirtyPool log.address).pools[log.address]? = some p := hp
  obtain ⟨topic0, rest, hl⟩ := List.exists_cons_of_ne_nil ht
  have hh : logHandler log = handler topic0 := by rw [logHandler, hl]; rfl
  rw [logEdits, hh]
  unfold processLog handler
  rw [hl]
  dsimp only
  rw [if_neg (not_not_intro hk)]
  let g : Option Handler → Except Panic PoolManager := fun o =>
    (o.elim (.ok []) (Handler.edits p log)).map fun edits =>
      (pm.markDirtyPool log.address).performEdits log.address edits
  change _ = g _
  -- One goal for each handler, in the order of the dispatch.
  refine ite_eq_apply_ite ?_ <| ite_eq_apply_ite ?_ <| ite_eq_apply_ite ?_ <|
    ite_eq_apply_ite ?_ <| ite_eq_apply_ite ?_ <| ite_eq_apply_ite ?_ <| ite_eq_apply_ite ?_ <|
    ite_eq_apply_ite ?_ <| ite_eq_apply_ite ?_ <| ite_eq_apply_ite ?_ rfl <;>
    dsimp only [g, Option.elim, Handler.edits]
  · rw [processV2SwapLog, if_neg (not_not_intro hmem)]
    split_ifs <;> rfl
  · rw [processV2SyncLog, if_neg (not_not_intro hmem)]
    split_ifs <;> rfl
  · rw [processV3SwapLog, if_neg (not_not_intro hmem)]
    cases decodeV3Swap log <;> rfl
  · rw [processV3MintBurnLog, if_neg (not_not_intro hmem)]
    cases decodeV3MintBurn log <;> rfl
  · rw [processCurveSwapLog, if_neg (not_not_intro hmem)]
    cases decodeCurveSwap log <;> rfl
  · rw [processBalancerSwapLog, if_neg (not_not_intro hmem)]
    cases decodeBalancerSwap log <;> rfl
  · rw [processLbSwapLog, if_neg (not_not_intro hmem), hget]
    cases decodeLbSwap log with
    | none => rfl
    | some d =>
      cases p <;> try rfl
      cases d with
      | mk amountIn amountOut swapForY => cases swapForY <;> rfl
  · rw [processPendleSwapLog, if_neg (not_not_intro hmem)]
    cases decodePendleSwap log with
    | error e => rfl
    | ok decoded => cases decoded <;> rfl
  · rw [processFluidSwapLog, if_neg (not_not_intro hmem)]
    cases decodeFluidSwap log <;> rfl
  · rw [processMetricSwapLog, if_neg (not_not_intro hmem)]
    cases decodeMetricSwap log <;> rfl

/-! ## Runs of logs -/

variable {pm pm' : PoolManager} {log : ExecutedLog} {logs : List ExecutedLog} {a : Address}
  {p : PoolState}

theorem performEdits_eq (pm : PoolManager) (a : Address) (edits : List (PoolState → PoolState)) :
    ∃ undoLog, pm.performEdits a edits =
      { pm with
        pools := pm.pools.modify a fun p => edits.foldl (fun p edit => edit p) p, undoLog } := by
  induction edits generalizing pm with
  | nil =>
    refine ⟨pm.undoLog, ?_⟩
    have h : (pm.pools.modify a fun p => p) = pm.pools := Map.modify_eq_self fun _ _ => rfl
    simp only [performEdits, List.foldl_nil]
    rw [h]
  | cons edit edits ih =>
    obtain ⟨log₁, h₁⟩ := ih (pm.poolMut a edit)
    obtain ⟨log₂, h₂⟩ := pm.poolMut_eq a edit
    refine ⟨log₁, ?_⟩
    rw [performEdits, List.foldl_cons, ← performEdits, h₁, h₂]
    congr 1
    apply Std.ExtTreeMap.ext_getElem?
    intro k
    simp only [Map.getElem?_modify_eq, List.foldl_cons]
    split_ifs <;> simp [Function.comp_def]

/-- Everything that one log can do to the manager. -/
theorem processLog_cases (h : pm.processLog log = .ok pm') :
    (log.topics = [] ∨ log.address ∉ pm.knownSet) ∧ pm' = pm ∨
    log.topics ≠ [] ∧ log.address ∈ pm.knownSet ∧ log.address ∉ pm.pools ∧
      pm' = pm.markDirtyPool log.address ∨
    log.topics ≠ [] ∧ log.address ∈ pm.knownSet ∧ ∃ p edits, pm.pools[log.address]? = some p ∧
      logEdits p log = .ok edits ∧
      pm' = (pm.markDirtyPool log.address).performEdits log.address edits := by
  by_cases ht : log.topics = []
  · rw [processLog_of_no_topic ht] at h
    cases h
    exact .inl ⟨.inl ht, rfl⟩
  by_cases hk : log.address ∈ pm.knownSet
  · by_cases hp : log.address ∈ pm.pools
    · obtain ⟨p, hp⟩ := Option.isSome_iff_exists.mp (Std.ExtTreeMap.mem_iff_isSome_getElem?.mp hp)
      rw [processLog_eq ht hk hp] at h
      cases he : logEdits p log with
      | error e => rw [he] at h; cases h
      | ok edits =>
        rw [he] at h
        cases h
        exact .inr (.inr ⟨ht, hk, p, edits, hp, he, rfl⟩)
    · rw [processLog_of_untracked ht hk hp] at h
      cases h
      exact .inr (.inl ⟨ht, hk, hp, rfl⟩)
  · rw [processLog_of_unknown hk] at h
    cases h
    exact .inl ⟨.inr hk, rfl⟩

/-- A log changes the pools, the dirty set and the undo log, nothing else. -/
theorem processLog_frame (h : pm.processLog log = .ok pm') : ∃ pools dirtyPools undoLog,
    pm' = { pm with pools, dirtyPools, undoLog } ∧ ∀ k, k ∈ pools ↔ k ∈ pm.pools := by
  rcases processLog_cases h with ⟨-, rfl⟩ | ⟨-, -, -, rfl⟩ | ⟨-, -, p, edits, -, -, rfl⟩
  · exact ⟨_, _, _, rfl, fun _ => Iff.rfl⟩
  · exact ⟨_, _, _, rfl, fun _ => Iff.rfl⟩
  · obtain ⟨undoLog, h⟩ := (pm.markDirtyPool log.address).performEdits_eq log.address edits
    exact ⟨_, _, _, h, fun k => Std.ExtTreeMap.mem_modify⟩

theorem processLog_knownSet (h : pm.processLog log = .ok pm') : pm'.knownSet = pm.knownSet := by
  obtain ⟨_, _, _, rfl, -⟩ := processLog_frame h; rfl

/-- A log with a topic marks its emitter dirty, if the emitter is known. -/
theorem processLog_dirtyPools (h : pm.processLog log = .ok pm') (ht : log.topics ≠ []) :
    pm'.dirtyPools =
      if log.address ∈ pm.knownSet then insert log.address pm.dirtyPools else pm.dirtyPools := by
  rcases processLog_cases h with ⟨h | hk, rfl⟩ | ⟨-, hk, -, rfl⟩ | ⟨-, hk, p, edits, -, -, rfl⟩
  · contradiction
  · rw [if_neg hk]
  · rw [if_pos hk]; rfl
  · obtain ⟨undoLog, h⟩ := (pm.markDirtyPool log.address).performEdits_eq log.address edits
    rw [if_pos hk, h]
    rfl

theorem processLog_mem_pools (h : pm.processLog log = .ok pm') : a ∈ pm'.pools ↔ a ∈ pm.pools := by
  obtain ⟨_, _, _, rfl, hmem⟩ := processLog_frame h; exact hmem a

/-- A log leaves every pool but its emitter alone. -/
theorem processLog_pool_of_ne (h : pm.processLog log = .ok pm') (ha : log.address ≠ a) :
    pm'.pools[a]? = pm.pools[a]? := by
  rcases processLog_cases h with ⟨-, rfl⟩ | ⟨-, -, -, rfl⟩ | ⟨-, -, p, edits, -, -, rfl⟩
  · rfl
  · rfl
  · obtain ⟨undoLog, h⟩ := (pm.markDirtyPool log.address).performEdits_eq log.address edits
    rw [h]
    exact Map.getElem?_modify_of_ne _ ha

theorem logEffect_of_no_handler (h : logHandler log = none) : logEffect p log = .ok p := by
  rw [logEffect, logEdits, h]; rfl

theorem logEffect_of_handler {h : Handler} (hh : logHandler log = some h) :
    logEffect p log = (h.edits p log).map fun edits => edits.foldl (fun p edit => edit p) p := by
  rw [logEffect, logEdits, hh]; rfl

/-- A branch that makes no edit, or one that fixes `p`, leaves `p` as it is. -/
theorem eq_of_elim_edit {δ : Type*} {o : Option δ} {edits : δ → List (PoolState → PoolState)}
    {p' : PoolState} (hp : ∀ d, (edits d).foldl (fun p edit => edit p) p = p)
    (h : (Except.ok (o.elim [] edits) : Except Panic _).map
      (fun edits => edits.foldl (fun p edit => edit p) p) = .ok p') : p' = p := by
  cases o with
  | none => cases h; rfl
  | some d =>
    cases h
    exact hp d

/-- A branch leaves the pools of the other variants as they are. -/
theorem logEffect_of_not_edits {h : Handler} {p' : PoolState} (hh : logHandler log = some h)
    (hp : h.editsVariant p = false) (he : logEffect p log = .ok p') : p' = p := by
  rw [logEffect_of_handler hh] at he
  cases h with
  | v2Swap =>
    dsimp only [Handler.edits] at he
    split_ifs at he <;> cases he
    · rfl
    · cases p <;> first | rfl | cases hp
  | v2Sync =>
    dsimp only [Handler.edits] at he
    split_ifs at he <;> cases he
    · rfl
    · cases p <;> first | rfl | cases hp
  | pendleSwap =>
    dsimp only [Handler.edits] at he
    cases hd : decodePendleSwap log with
    | error e => rw [hd] at he; cases he
    | ok d =>
      rw [hd] at he
      exact eq_of_elim_edit (fun d => by cases p <;> first | rfl | cases hp) he
  | _ => exact eq_of_elim_edit (fun d => by cases p <;> first | rfl | cases hp) he

theorem logHandler_of_no_topic (h : log.topics = []) : logHandler log = none := by
  rw [logHandler, h]; rfl

theorem logHandler_eq_some_iff {h : Handler} :
    logHandler log = some h ↔ ∃ t ∈ h.topics, log.topics.head? = some t := by
  unfold logHandler
  cases log.topics.head? with
  | none => simp
  | some t => simp [handler_eq_some_iff]

/-- A log gives its emitter the state that `logEffect` computes. -/
theorem processLog_pool (h : pm.processLog log = .ok pm') (hk : log.address ∈ pm.knownSet)
    (hp : pm.pools[log.address]? = some p) :
    ∃ p', logEffect p log = .ok p' ∧ pm'.pools[log.address]? = some p' := by
  rcases processLog_cases h with ⟨ht | hk', rfl⟩ | ⟨-, -, hp', rfl⟩ | ⟨-, -, q, edits, hq, he, rfl⟩
  · exact ⟨p, logEffect_of_no_handler (logHandler_of_no_topic ht), hp⟩
  · contradiction
  · rw [Std.ExtTreeMap.mem_iff_isSome_getElem?, hp] at hp'
    simp at hp'
  · obtain rfl : p = q := by rw [hp] at hq; cases hq; rfl
    obtain ⟨undoLog, h⟩ := (pm.markDirtyPool log.address).performEdits_eq log.address edits
    refine ⟨edits.foldl (fun p edit => edit p) p, by rw [logEffect, he]; rfl, ?_⟩
    rw [h, markDirtyPool_pools]
    simp [hp]

theorem updateFromLogs_cons (pm : PoolManager) (log : ExecutedLog) (logs : List ExecutedLog) :
    pm.updateFromLogs (log :: logs) = pm.processLog log >>= (updateFromLogs · logs) := by
  rw [updateFromLogs, List.foldlM_cons]; rfl

@[simp] theorem updateFromLogs_singleton (pm : PoolManager) (log : ExecutedLog) :
    pm.updateFromLogs [log] = pm.processLog log := by
  rw [updateFromLogs, List.foldlM_cons]
  exact bind_pure _

theorem updateFromLogs_knownSet (h : pm.updateFromLogs logs = .ok pm') :
    pm'.knownSet = pm.knownSet := by
  refine run_induct (I := fun q => q.knownSet = pm.knownSet) ?_ h rfl
  intro log _ q q' hq hstep
  rw [processLog_knownSet hstep, hq]

/-- **The run lemma.** After a list of logs, a known and tracked pool is in the state
    that its own logs produce, in order; the logs of other emitters do not count. -/
theorem updateFromLogs_pool (h : pm.updateFromLogs logs = .ok pm') (hk : a ∈ pm.knownSet)
    (hp : pm.pools[a]? = some p) :
    ∃ p', (logs.filter (·.address = a)).foldlM logEffect p = .ok p' ∧
      pm'.pools[a]? = some p' := by
  induction logs generalizing pm p with
  | nil =>
    cases h
    exact ⟨p, rfl, hp⟩
  | cons log logs ih =>
    rw [updateFromLogs_cons, bind_eq_ok] at h
    obtain ⟨q, hq, hrest⟩ := h
    have hk' : a ∈ q.knownSet := by rw [processLog_knownSet hq]; exact hk
    by_cases ha : log.address = a
    · subst ha
      obtain ⟨p₁, he, hp₁⟩ := processLog_pool hq hk hp
      obtain ⟨p', hf, hp'⟩ := ih hrest hk' hp₁
      refine ⟨p', ?_, hp'⟩
      rw [List.filter_cons_of_pos (by simp), List.foldlM_cons, he]
      exact hf
    · rw [List.filter_cons_of_neg (by simpa using ha)]
      exact ih hrest hk' (by rw [processLog_pool_of_ne hq ha]; exact hp)

/-- A pool whose address is not known never changes. -/
theorem updateFromLogs_pool_of_unknown (h : pm.updateFromLogs logs = .ok pm')
    (hk : a ∉ pm.knownSet) : pm'.pools[a]? = pm.pools[a]? := by
  refine (run_induct
    (I := fun q => q.knownSet = pm.knownSet ∧ q.pools[a]? = pm.pools[a]?) ?_ h ⟨rfl, rfl⟩).2
  intro log _ q q' hq hstep
  refine ⟨by rw [processLog_knownSet hstep, hq.1], ?_⟩
  by_cases ha : log.address = a
  · have : log.address ∉ q.knownSet := by rw [ha, hq.1]; exact hk
    rw [processLog_of_unknown this] at hstep
    cases hstep
    exact hq.2
  · rw [processLog_pool_of_ne hstep ha]; exact hq.2

/-! ## When a run panics -/

/-- The Pendle decoder returns at once on a log of another event. -/
theorem decodePendleSwap_of_ne (h : logHandler log ≠ some .pendleSwap) :
    decodePendleSwap log = .ok none := by
  rw [decodePendleSwap, if_pos]
  intro ht
  exact h (logHandler_eq_some_iff.mpr ⟨_, List.mem_singleton.mpr rfl, ht⟩)

/-- A handler panics exactly when the Pendle decoder does. -/
theorem logEdits_ok_iff : (∃ edits, logEdits p log = .ok edits) ↔
    ∃ d, decodePendleSwap log = .ok d := by
  by_cases hp : logHandler log = some .pendleSwap
  · rw [logEdits, hp]
    dsimp only [Option.elim, Handler.edits]
    cases decodePendleSwap log with
    | error e => refine iff_of_false ?_ ?_ <;> rintro ⟨_, h⟩ <;> cases h
    | ok d => exact iff_of_true ⟨_, rfl⟩ ⟨d, rfl⟩
  · refine iff_of_true ?_ ⟨none, decodePendleSwap_of_ne hp⟩
    rw [logEdits]
    cases hh : logHandler log with
    | none => exact ⟨[], rfl⟩
    | some h =>
      cases h with
      | pendleSwap => contradiction
      | _ => exact ⟨_, rfl⟩

/-- A run returns exactly when no log of a known and tracked pool makes the Pendle
    decoder panic. -/
theorem updateFromLogs_ok_iff : (∃ pm', pm.updateFromLogs logs = .ok pm') ↔
    ∀ log ∈ logs, log.address ∈ pm.knownSet → log.address ∈ pm.pools →
      ∃ d, decodePendleSwap log = .ok d := by
  induction logs generalizing pm with
  | nil => exact iff_of_true ⟨pm, rfl⟩ (by simp)
  | cons log logs ih =>
    rw [List.forall_mem_cons]
    constructor
    · rintro ⟨pm', h⟩
      rw [updateFromLogs_cons, bind_eq_ok] at h
      obtain ⟨q, hq, hrest⟩ := h
      refine ⟨fun hk hp => ?_, ?_⟩
      · rcases processLog_cases hq with ⟨ht | hk', -⟩ | ⟨-, -, hp', -⟩ | ⟨-, -, r, edits, -, he, -⟩
        · exact ⟨none, by rw [decodePendleSwap, ht]; rfl⟩
        · contradiction
        · contradiction
        · exact logEdits_ok_iff.mp ⟨edits, he⟩
      · intro l hl hk hp
        exact ih.mp ⟨pm', hrest⟩ l hl (by rw [processLog_knownSet hq]; exact hk)
          ((processLog_mem_pools hq).mpr hp)
    · rintro ⟨hlog, hrest⟩
      obtain ⟨q, hq⟩ : ∃ q, pm.processLog log = .ok q := by
        by_cases ht : log.topics = []
        · exact ⟨pm, processLog_of_no_topic ht⟩
        by_cases hk : log.address ∈ pm.knownSet
        · by_cases hp : log.address ∈ pm.pools
          · obtain ⟨edits, he⟩ := (logEdits_ok_iff (p := pm.pools[log.address])).mpr (hlog hk hp)
            have hget : pm.pools[log.address]? = some pm.pools[log.address] :=
              Std.ExtTreeMap.getElem?_eq_some_getElem hp
            rw [processLog_eq ht hk hget, he]
            exact ⟨_, rfl⟩
          · exact ⟨_, processLog_of_untracked ht hk hp⟩
        · exact ⟨pm, processLog_of_unknown hk⟩
      have hlogs : ∀ l ∈ logs, l.address ∈ q.knownSet → l.address ∈ q.pools →
          ∃ d, decodePendleSwap l = .ok d := fun l hl hk hp =>
        hrest l hl (by rw [← processLog_knownSet hq]; exact hk) ((processLog_mem_pools hq).mp hp)
      obtain ⟨pm', h⟩ := ih.mpr hlogs
      exact ⟨pm', by rw [updateFromLogs_cons, hq]; exact h⟩

end PoolManager

end MevScout.Pool
