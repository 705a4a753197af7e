import MevScout.Common.Run
import MevScout.Pool.Types

/-!
# Classification of activity logs

Models of the `classify_activity` functions of `core/src/pool/discovery/` and of
`classify_dex_event`, which attributes a log to a pool: the emitter, unless the
candidate overrides it. All of them read `topics()[0]`, so a log without topics panics.
-/

namespace MevScout.Pool.Discovery

open MevScout.Chain

/-- Model of `PoolHitCandidate` (`discovery/mod.rs`, lines 48–53). -/
structure PoolHitCandidate where
  dexType : DexType
  poolId : Option B256 := none
  tokens : Option (Address × Address) := none
  addrOverride : Option Address := none
  deriving DecidableEq

/-- Model of `PoolHitCandidate::simple` (`discovery/mod.rs`, lines 57–64). -/
def PoolHitCandidate.simple (dexType : DexType) : PoolHitCandidate := { dexType }

/-- The classifiers that test the first topic against a list and carry no payload. -/
def classifyByTopic (dexType : DexType) (known : List B256) (topic0 : B256) :
    Option PoolHitCandidate :=
  if topic0 ∈ known then some (.simple dexType) else none

namespace V2

/-- Model of `classify_activity` (`discovery/v2.rs`, lines 8–14). -/
def classifyActivity (topic0 : B256) (_rest : List B256) : Option PoolHitCandidate :=
  classifyByTopic .uniswapV2 [v2SwapTopic, v2SyncTopic] topic0

end V2

namespace V3

/-- Model of `classify_activity` (`discovery/v3.rs`, lines 9–16). -/
def classifyActivity (topic0 : B256) (_rest : List B256) : Option PoolHitCandidate :=
  classifyByTopic .uniswapV3 [v3SwapTopic, v3MintTopic, v3BurnTopic] topic0

end V3

/-- The two singleton classifiers: the pool key is the last 20 bytes of the pool id. -/
def classifyByPoolId (dexType : DexType) (topic topic0 : B256) (rest : List B256) :
    Option PoolHitCandidate :=
  if topic0 ≠ topic then none
  else
    match rest with
    | poolId :: _ =>
      some { dexType, poolId := some poolId, addrOverride := some (topicAddress poolId) }
    | [] => some (.simple dexType)

namespace V4

/-- Model of `classify_activity` (`discovery/v4.rs`, lines 11–28). -/
def classifyActivity (topic0 : B256) (rest : List B256) : Option PoolHitCandidate :=
  classifyByPoolId .uniswapV4 v4SwapTopic topic0 rest

end V4

namespace Infinity

/-- Model of `classify_activity` (`discovery/infinity.rs`, lines 11–28). -/
def classifyActivity (topic0 : B256) (rest : List B256) : Option PoolHitCandidate :=
  classifyByPoolId .pancakeInfinity infClSwapTopic topic0 rest

end Infinity

namespace Curve

/-- Model of `classify_activity` (`discovery/curve.rs`, lines 14–25). -/
def classifyActivity (topic0 : B256) (_rest : List B256) : Option PoolHitCandidate :=
  classifyByTopic .curve [curveTokenExchangeTopic, curveV2TokenExchangeTopic,
    curveTokenExchangeUnderlyingTopic, curveV2TokenExchangeUnderlyingTopic] topic0

end Curve

namespace Balancer

/-- `Address::from_slice(&pool_id[..20])`: the first 20 bytes of a pool id. -/
def poolIdAddress (poolId : B256) : Address := poolId.extractLsb' 96 160

/-- Model of `classify_activity` (`discovery/balancer.rs`, lines 14–34). -/
def classifyActivity (topic0 : B256) (rest : List B256) : Option PoolHitCandidate :=
  if topic0 ≠ balancerSwapTopic then none
  else
    match rest with
    | poolId :: tokenIn :: tokenOut :: _ =>
      some
        { dexType := .balancer
          poolId := some poolId
          tokens := some (topicAddress tokenIn, topicAddress tokenOut)
          addrOverride := some (poolIdAddress poolId) }
    | _ => some (.simple .balancer)

end Balancer

namespace TraderJoe

/-- Model of `classify_activity` (`discovery/trader_joe.rs`, lines 12–19). -/
def classifyActivity (topic0 : B256) (_rest : List B256) : Option PoolHitCandidate :=
  classifyByTopic .traderJoeLB [traderJoeLbSwapTopic, traderJoeLbSwapLegacyTopic] topic0

end TraderJoe

namespace Pendle

/-- Model of `classify_activity` (`discovery/pendle.rs`, lines 12–33). -/
def classifyActivity (topic0 : B256) (rest : List B256) : Option PoolHitCandidate :=
  if topic0 = pendleMarketSwapTopic then some (.simple .pendle)
  else if topic0 ∈ [pendleSwapPtAndSyTopic, pendleSwapYtAndSyTopic, pendleSwapPtAndTokenTopic,
      pendleSwapYtAndTokenTopic] then
    match rest with
    | _ :: market :: _ => some { dexType := .pendle, addrOverride := some (topicAddress market) }
    | _ => some (.simple .pendle)
  else none

end Pendle

namespace Fluid

/-- Model of `classify_activity` (`discovery/fluid.rs`, lines 11–17). -/
def classifyActivity (topic0 : B256) (_rest : List B256) : Option PoolHitCandidate :=
  classifyByTopic .fluid [fluidSwapTopic] topic0

end Fluid

namespace Metric

/-- Model of `classify_activity` (`discovery/metric.rs`, lines 9–15). -/
def classifyActivity (topic0 : B256) (_rest : List B256) : Option PoolHitCandidate :=
  classifyByTopic .metric [metricSwapTopic] topic0

end Metric

/-- Model of `classify_dex_event` (`discovery/mod.rs`, lines 679–690). -/
def classifyDexEvent (log : ExecutedLog) : Except Panic (Option PoolHitCandidate) :=
  match log.topics with
  | [] => .error .slice
  | topic0 :: rest => .ok <|
    (V2.classifyActivity topic0 rest)
      |>.or (V3.classifyActivity topic0 rest)
      |>.or (Balancer.classifyActivity topic0 rest)
      |>.or (Curve.classifyActivity topic0 rest)
      |>.or (TraderJoe.classifyActivity topic0 rest)
      |>.or (Pendle.classifyActivity topic0 rest)
      |>.or (V4.classifyActivity topic0 rest)
      |>.or (Infinity.classifyActivity topic0 rest)
      |>.or (Fluid.classifyActivity topic0 rest)
      |>.or (Metric.classifyActivity topic0 rest)

/-- The pool that `process_discovery_log` (`discovery/mod.rs`, lines 392–415) attributes a
    log to. -/
def attributedPool (log : ExecutedLog) : Except Panic (Option Address) :=
  (classifyDexEvent log).map (·.map (·.addrOverride.getD log.address))

end MevScout.Pool.Discovery
