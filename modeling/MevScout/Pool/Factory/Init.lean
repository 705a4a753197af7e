import MevScout.Pool.Factory.Fetch
import MevScout.Pool.Manager

/-!
# Initialization from the node

Models of `init_from_rpc` and its parts (`core/src/pool/state/factory.rs`). The repair of the
metadata and the fetched states concern one pool each and run on the states before them, so
that their loops are maps over the pools. `fetch_pool_state` is a parameter: a pool may get
any result.

Results:
* `getElem?_initFromRpc`: what an initialization leaves of a pool;
* `listed_rebuildTokenIndex`: how often the rebuilt index lists a pool under a token.
-/

namespace MevScout.Pool.Factory

/-! ## Repair of the metadata -/

def token0Selector : List UInt8 := [0x0d, 0xfe, 0x16, 0x81]
def token1Selector : List UInt8 := [0xd2, 0x12, 0x20, 0xa7]
def tickSpacingSelector : List UInt8 := [0xd0, 0xc9, 0x3a, 0x7c]
def pendleReadTokens : List UInt8 := [0x2c, 0x8c, 0xe6, 0xbc]
def pendleSy : List UInt8 := [0xaf, 0xd2, 0x7b, 0xf5]

/-- Model of `abi_word_u32` (`core/src/utils.rs`, lines 41–53), at the index 0. -/
def abiWordU32 (data : List UInt8) : Option ℕ :=
  if data.length < 32 then none else some (beVal (slice data 28 32))

/-- Model of `RepairJob` (`factory.rs`, lines 322–330), without the address and the type. -/
structure RepairJob where
  pendleTokens : Bool
  tokens : Bool
  fee : Bool
  tickSpacing : Bool
  binStep : Bool
  deriving DecidableEq

/-- What is missing in the metadata of a pool (`factory.rs`, lines 333–364). -/
def repairJob (p : PoolState) : Option RepairJob :=
  let info := p.info
  let dt := info.dexType
  let missing : Bool := info.token0 = 0 ∨ info.token1 = 0
  let concentrated : Bool := dt = .uniswapV3 ∨ dt = .uniswapV4
  let job : RepairJob :=
    { pendleTokens := dt = .pendle ∧ missing
      tokens := dt ≠ .pendle ∧ missing
      fee := concentrated ∧ info.fee = 0
      tickSpacing := concentrated ∧ info.tickSpacing = none
      binStep := dt = .traderJoeLB ∧ info.binStep = none }
  let needed := job.pendleTokens || job.tokens || job.fee || job.tickSpacing || job.binStep
  match p with
  | .balancer _ => none
  | .curve _ => if dt ≠ .curve ∧ needed then some job else none
  | _ => if needed then some job else none

/-- The tokens that a repair reads (`factory.rs`, lines 391–412). -/
def fetchRepairTokens (rpc : Rpc) (addr : Address) (job : RepairJob) :
    Option Address × Option Address :=
  if job.pendleTokens then
    match rpc.answer 96 addr pendleReadTokens with
    | some res => (abiDecodeAddress res 32, abiDecodeAddress res 0)
    | none => (none, none)
  else if job.tokens then
    ((rpc.call addr token0Selector).bind (abiDecodeAddress · 0),
      (rpc.call addr token1Selector).bind (abiDecodeAddress · 0))
  else (none, none)

/-- A number that a repair reads when it is missing (`factory.rs`, lines 413–430). -/
def fetchRepairWord (rpc : Rpc) (addr : Address) (missing : Bool) (selector : List UInt8) :
    Option ℕ :=
  if missing then (rpc.call addr selector).bind abiWordU32 else none

/-- The repair of a pool; a pool whose tokens stay unknown is dropped (`factory.rs`, lines
    436–477). -/
def repairPool (rpc : Rpc) (addr : Address) (p : PoolState) : Option PoolState :=
  match repairJob p with
  | none => some p
  | some job =>
    let tokens := fetchRepairTokens rpc addr job
    let fee := fetchRepairWord rpc addr job.fee curveFee
    let ts := fetchRepairWord rpc addr job.tickSpacing tickSpacingSelector
    let binStep := fetchRepairWord rpc addr job.binStep lbGetBinStep
    let p' := p.mapInfo fun info => { info with
      token0 := if info.token0 = 0 then tokens.1.getD 0 else info.token0
      token1 := if info.token1 = 0 then tokens.2.getD 0 else info.token1
      fee := if info.fee = 0 then fee.getD 0 else info.fee
      tickSpacing := info.tickSpacing.or ts
      binStep := info.binStep.or binStep }
    let dt := p.info.dexType
    if dt ≠ .curve ∧ dt ≠ .balancer ∧ (p'.info.token0 = 0 ∨ p'.info.token1 = 0) then none
    else some p'

/-! ## Fetched states -/

/-- Model of `PoolMeta` (`factory.rs`, lines 30–39). -/
structure PoolMeta where
  address : Address
  dexType : DexType
  poolId : Option B256 := none
  tickSpacing : ℤ := 0
  factory : Option Address := none
  needsInit : Bool := true
  balancerPoolType : Option ℕ := none
  deriving DecidableEq

/-- Model of `PoolMeta::from_state` (`factory.rs`, lines 64–146). -/
def PoolMeta.fromState (addr : Address) (p : PoolState) : PoolMeta :=
  let info := p.info
  match p with
  | .uniswapV2 _ => { address := addr, dexType := .uniswapV2, factory := info.factory }
  | .uniswapV3 _ =>
    { address := addr, dexType := .uniswapV3, tickSpacing := info.tickSpacingOrDefault }
  | .uniswapV4 _ =>
    { address := addr, dexType := .uniswapV4, tickSpacing := info.tickSpacingOrDefault }
  | .pancakeInfinity _ =>
    { address := addr, dexType := .pancakeInfinity, poolId := info.poolId
      tickSpacing := info.tickSpacingOrDefault, factory := info.factory }
  | .curve _ =>
    if info.dexType = .solidly ∨ info.dexType = .camelot then
      { address := addr, dexType := info.dexType, factory := info.factory }
    else { address := addr, dexType := .curve }
  | .balancer _ =>
    { address := addr, dexType := .balancer, balancerPoolType := info.balancerPoolType }
  | .traderJoeLB _ => { address := addr, dexType := .traderJoeLB, factory := info.factory }
  | .pendle _ => { address := addr, dexType := .pendle, factory := info.factory }
  | .metric _ =>
    { address := addr, dexType := .metric, factory := info.factory, needsInit := false }
  | .fluid _ =>
    { address := addr, dexType := .fluid, factory := info.factory, needsInit := false }

/-- Model of `PoolInitResult` (`factory.rs`, lines 171–202). -/
inductive PoolInitResult where
  | v2Reserves (reserve0 reserve1 : ℕ)
  | v3State (sqrtPriceX96 : ℕ) (tick : ℤ) (liquidity : ℕ) (initializedTicks : TickMap)
  | v4State (sqrtPriceX96 : ℕ) (tick : ℤ) (liquidity : ℕ) (initializedTicks : TickMap)
  | balancerState (init : BalancerInit)
  | curveState (init : CurveInit)
  | lbState (activeId binStep reserveX reserveY : ℕ)
  | pendleState (totalPt totalSy : ℕ) (syAddress : Address)

/-- The node, with the result of `fetch_pool_state` for a pool and its known tokens. -/
structure InitRpc where
  rpc : Rpc
  fetch : PoolMeta → Option (List Address) → Option PoolInitResult

/-- Model of `set_concentrated_state` (`factory.rs`, lines 215–226). -/
def setConcentratedState (sqrt : ℕ) (tick : ℤ) (liq : ℕ) (ticks : TickMap)
    (s : UniswapV3PoolState) : UniswapV3PoolState :=
  { s with sqrtPriceX96 := sqrt, tick := tick, liquidity := liq, ticks := ticks }

/-- The slots of the tokens of a pool. -/
def tokenSlots (tokens : List Address) : TokenSlots :=
  tokens.zipIdx.foldl (fun m e => m.insert e.1 e.2) ∅

/-- Model of `apply_v2_reserves` (`factory.rs`, lines 598–612). -/
def applyV2Reserves (r0 r1 : ℕ) : PoolState → PoolState
  | .uniswapV2 s => .uniswapV2 { s with reserve0 := r0, reserve1 := r1 }
  | .curve s =>
    if (s.info.dexType = .solidly ∨ s.info.dexType = .camelot) ∧ 2 ≤ s.balances.length then
      .curve { s with balances := (s.balances.set 0 r0).set 1 r1 }
    else .curve s
  | p => p

/-- Model of `apply_balancer_state` (`factory.rs`, lines 614–645). -/
def applyBalancerState (init : BalancerInit) : PoolState → PoolState :=
  PoolState.mapBalancer fun s => { s with
    balances := init.balances
    weights := init.weights
    poolVariant := init.variant
    amplification := init.amplification
    scalingFactors := init.scalingFactors
    bptIndex := init.bptIndex
    rateProviders := init.rateProviders
    info := { s.info with
      fee := init.feeBps
      token0 := if 2 ≤ init.tokens.length then init.tokens.getD 0 0 else s.info.token0
      token1 := if 2 ≤ init.tokens.length then init.tokens.getD 1 0 else s.info.token1
      underlyingTokens := some init.tokens }
    tokenIndex := tokenSlots init.tokens }

/-- Model of `apply_curve_state` (`factory.rs`, lines 647–677). -/
def applyCurveState (init : CurveInit) : PoolState → PoolState :=
  PoolState.mapCurve fun s => { s with
    balances := init.balances
    aCoeff := init.aCoeff
    poolVariant := init.variant
    gamma := init.gamma
    priceScale := init.priceScale
    basePool := init.basePool
    info := { s.info with
      fee := init.feeBps
      token0 := init.tokens.getD 0 s.info.token0
      token1 := init.tokens.getD 1 s.info.token1
      underlyingTokens := some init.tokens }
    tokenIndex := tokenSlots init.tokens }

/-- Model of `apply_lb_state` (`factory.rs`, lines 679–703). -/
def applyLbState (activeId binStep reserveX reserveY : ℕ) : PoolState → PoolState :=
  PoolState.mapTraderJoeLB fun s => { s with
    activeId := activeId
    binStep := binStep
    reserveX := reserveX
    reserveY := reserveY
    info := { s.info with binStep := some binStep } }

/-- Model of `apply_pendle_state` (`factory.rs`, lines 705–745). -/
def applyPendleState (rpc : Rpc) (addr : Address) (totalPt totalSy : ℕ) (syAddr : Address) :
    PoolState → PoolState :=
  PoolState.mapPendle fun s =>
    let s := { s with totalPt := totalPt, totalSy := totalSy, ptAddress := s.info.token0 }
    if s.info.token1 = 0 ∧ s.info.token0 ≠ 0 then
      match ((rpc.call addr pendleSy).bind (abiDecodeAddress · 0)).filter (· ≠ 0) with
      | some sy => { s with info := { s.info with token1 := sy }, syAddress := sy }
      | none => s
    else if syAddr ≠ 0 then { s with syAddress := syAddr }
    else { s with syAddress := s.info.token1 }

/-- Model of `apply_init_result` (`factory.rs`, lines 518–596). -/
def applyInitResult (rpc : Rpc) (addr : Address) (result : Option PoolInitResult)
    (p : PoolState) : PoolState :=
  match result, p with
  | some (.v2Reserves r0 r1), p => applyV2Reserves r0 r1 p
  | some (.v3State sqrt tick liq ticks), .uniswapV3 s =>
    .uniswapV3 (setConcentratedState sqrt tick liq ticks s)
  | some (.v4State sqrt tick liq ticks), .uniswapV4 s =>
    .uniswapV4 (setConcentratedState sqrt tick liq ticks s)
  | some (.v4State sqrt tick liq ticks), .pancakeInfinity s =>
    .pancakeInfinity (setConcentratedState sqrt tick liq ticks s)
  | some (.balancerState init), p => applyBalancerState init p
  | some (.curveState init), p => applyCurveState init p
  | some (.lbState activeId binStep reserveX reserveY), p =>
    applyLbState activeId binStep reserveX reserveY p
  | some (.pendleState totalPt totalSy syAddr), p =>
    applyPendleState rpc addr totalPt totalSy syAddr p
  | _, p => p

/-- The tokens that the fetch of a pool starts from (`factory.rs`, lines 268–272). -/
def preFetched : PoolState → Option (List Address)
  | .curve s => s.info.underlyingTokens
  | .balancer s => s.info.underlyingTokens
  | _ => none

/-- The state of a pool after its fetch. -/
def initPool (ans : InitRpc) (addr : Address) (p : PoolState) : PoolState :=
  let info := PoolMeta.fromState addr p
  if info.needsInit then applyInitResult ans.rpc addr (ans.fetch info (preFetched p)) p else p

/-! ## The manager -/

/-- Model of `rebuild_token_index` (`factory.rs`, lines 760–769). -/
def rebuildTokenIndex (pools : PoolMap) : TokenIndex :=
  pools.toList.foldl
    (fun ti e => e.2.tokens.foldl (fun ti token => PoolManager.pushToken ti token e.1) ti) ∅

/-- Model of `init_from_rpc` (`factory.rs`, lines 230–311), with `repair_pool_metadata` and
    `remove_unhealthy_pools`. -/
def initFromRpc (pm : PoolManager) (ans : InitRpc) : PoolManager :=
  let pools := pm.pools.filterMap (repairPool ans.rpc)
  let pools := pools.map (initPool ans)
  let pools := pools.filter fun _ p => !p.isUnhealthy
  { pm with pools, tokenIndex := rebuildTokenIndex pools }

/-- What an initialization makes of one pool, unless it removes the pool. -/
def settle (ans : InitRpc) (addr : Address) (p : PoolState) : Option PoolState :=
  (repairPool ans.rpc addr p).bind fun p =>
    let p := initPool ans addr p
    if p.isUnhealthy then none else some p

theorem getElem?_initFromRpc (pm : PoolManager) (ans : InitRpc) (addr : Address) :
    (initFromRpc pm ans).pools[addr]? = pm.pools[addr]?.bind (settle ans addr) := by
  unfold initFromRpc
  dsimp only
  rw [Std.ExtTreeMap.getElem?_filter', Std.ExtTreeMap.getElem?_map,
    Std.ExtTreeMap.getElem?_filterMap']
  cases pm.pools[addr]? with
  | none => rfl
  | some p =>
    rw [Option.bind_some, Option.bind_some, settle]
    cases repairPool ans.rpc addr p with
    | none => rfl
    | some p' =>
      rw [Option.map_some, Option.bind_some]
      dsimp only
      by_cases h : (initPool ans addr p').isUnhealthy
      · rw [if_pos h, Option.filter_some, h]
        rfl
      · rw [if_neg h, Option.filter_some, eq_false_of_ne_true h]
        rfl

/-! ## The token index -/

/-- How often the index lists a pool under a token. -/
def listed (ti : TokenIndex) (token addr : Address) : ℕ := (ti[token]?.getD []).count addr

/-- The tokens of a tracked pool. -/
def tokensOf (pools : PoolMap) (addr : Address) : List Address :=
  (pools[addr]?.map PoolState.tokens).getD []

theorem listed_pushToken (ti : TokenIndex) (t a : Address) {token : Address} (h : token ≠ 0)
    (addr : Address) :
    listed (PoolManager.pushToken ti t a) token addr =
      listed ti token addr + if a = addr then [t].count token else 0 := by
  unfold listed PoolManager.pushToken
  by_cases ht : t = 0
  · have hcount : [t].count token = 0 := List.count_eq_zero.mpr (by simpa [ht] using h)
    rw [if_pos ht, hcount, ite_self, add_zero]
  · rw [if_neg ht, Map.getElem?_insert_eq]
    by_cases htoken : t = token
    · subst htoken
      rw [if_pos rfl, Option.getD_some, List.count_append, List.count_singleton,
        List.count_singleton_self]
      simp only [beq_iff_eq]
    · have hcount : [t].count token = 0 :=
        List.count_eq_zero.mpr (by simpa using Ne.symm htoken)
      rw [if_neg htoken, hcount, ite_self, add_zero]

theorem listed_pushTokens (tokens : List Address) (ti : TokenIndex) (a : Address)
    {token : Address} (h : token ≠ 0) (addr : Address) :
    listed (tokens.foldl (fun ti t => PoolManager.pushToken ti t a) ti) token addr =
      listed ti token addr + if a = addr then tokens.count token else 0 := by
  induction tokens generalizing ti with
  | nil => simp
  | cons t tokens ih =>
    rw [List.foldl_cons, ih, listed_pushToken ti t a h, add_assoc]
    congr 1
    by_cases ha : a = addr
    · rw [if_pos ha, if_pos ha, if_pos ha, ← List.count_append, List.singleton_append]
    · rw [if_neg ha, if_neg ha, if_neg ha]

theorem listed_foldl (l : List (Address × PoolState)) (hl : (l.map (·.1)).Nodup)
    (ti : TokenIndex) {token : Address} (h : token ≠ 0) (addr : Address) :
    listed (l.foldl
        (fun ti e => e.2.tokens.foldl (fun ti t => PoolManager.pushToken ti t e.1) ti) ti)
      token addr = listed ti token addr +
        ((l.find? (·.1 = addr)).map fun e => e.2.tokens.count token).getD 0 := by
  induction l generalizing ti with
  | nil => rfl
  | cons e l ih =>
    obtain ⟨hnot, hl⟩ := List.nodup_cons.mp hl
    rw [List.foldl_cons, ih hl, listed_pushTokens _ _ _ h, add_assoc]
    congr 1
    by_cases he : e.1 = addr
    · have hnone : l.find? (·.1 = addr) = none := by
        refine List.find?_eq_none.mpr fun x hx hxa => hnot ?_
        have hkey : x.1 = addr := of_decide_eq_true hxa
        exact List.mem_map.mpr ⟨x, hx, hkey.trans he.symm⟩
      simp [he, hnone]
    · simp [he]

/-- The rebuilt index lists a pool as often under a token as the pool does. -/
theorem listed_rebuildTokenIndex (pools : PoolMap) {token : Address} (h : token ≠ 0)
    (addr : Address) :
    listed (rebuildTokenIndex pools) token addr = (tokensOf pools addr).count token := by
  have hnodup : (pools.toList.map (·.1)).Nodup := by
    rw [Std.ExtTreeMap.map_fst_toList_eq_keys]
    exact Std.ExtTreeMap.nodup_keys
  rw [rebuildTokenIndex, listed_foldl _ hnodup _ h]
  have hempty : listed ∅ token addr = 0 := by simp [listed]
  rw [hempty, zero_add]
  cases hfind : pools.toList.find? (·.1 = addr) with
  | none =>
    have hnone : pools[addr]? = none := by
      by_contra hne
      obtain ⟨p, hp⟩ := Option.ne_none_iff_exists'.mp hne
      have := List.find?_eq_none.mp hfind _
        (Std.ExtTreeMap.mem_toList_iff_getElem?_eq_some.mpr hp)
      simp at this
    simp [tokensOf, hnone]
  | some e =>
    have hmem := List.mem_of_find?_eq_some hfind
    have hkey : e.1 = addr := by simpa using List.find?_some hfind
    have hget := Std.ExtTreeMap.mem_toList_iff_getElem?_eq_some.mp hmem
    rw [hkey] at hget
    simp [tokensOf, hget]

end MevScout.Pool.Factory
