import MevScout.Paper.Seeds
import MevScout.Pipeline.Persistence
import MevScout.Pool.Apply
import MevScout.Pool.Taxes
import MevScout.Replay.Replayer

/-!
# The block runner

Models of `core/src/pipeline/runner.rs`: a block is replayed through the EVM, and where that
fails it is rolled back and its logs are read alone. The detectors are parameters, which read the
pools of the manager and its arbitrage pairs. The confidence of an opportunity, its sender and
its hash are left out.

Results:
* `replayEachFiltered_eq`: the replay that keeps the state of its callbacks;
* `runBlock_error`: a block that fails has at most begun to be recorded.
-/

namespace MevScout.Pipeline

open Pool Paper Replay

/-! ## Gas calibration -/

/-- Model of `Bucket` (`types/gas.rs`, lines 36–40). -/
structure GasBucket where
  samples : ℕ := 0
  totalGas : ℕ := 0

/-- Model of `GasCalibration` (`types/gas.rs`, lines 31–34), empty for an absent bucket. It is
    its own snapshot. -/
abbrev GasCalibration := DexType × ℕ → GasBucket

/-- Model of `record` (`types/gas.rs`, lines 47–55). -/
def GasCalibration.record (c : GasCalibration) (dex : DexType) (poolsTouched gasUsed : ℕ) :
    GasCalibration :=
  if gasUsed = 0 then c
  else
    let key := (dex, min poolsTouched 255)
    Function.update c key
      ⟨saturatingAdd 32 (c key).samples 1, saturatingAdd 64 (c key).totalGas gasUsed⟩

/-- Model of `record_gas_observation` (`runner.rs`, lines 230–251). -/
def recordGasObservation (pm : PoolManager) (poolAddrs : Finset Address)
    (logs : List ExecutedLog) (gasUsed : ℕ) (c : GasCalibration) : GasCalibration :=
  let hits : List (DexType × Address) := logs.filterMap fun log =>
    if log.address ∈ poolAddrs then
      pm.pools[log.address]?.map fun p => (p.info.dexType, log.address)
    else none
  (hits.map Prod.fst).dedup.foldl (fun c dex =>
    c.record dex ((hits.filter (·.1 = dex)).map Prod.snd).toFinset.card gasUsed) c

/-! ## Detectors -/

/-- Model of `ScanScope` (`manager.rs`, lines 40–45). -/
inductive ScanScope where
  | full
  | dirty (pools : Finset Address)

/-- Model of `contains_pair` (`manager.rs`, lines 49–54). -/
def ScanScope.containsPair (scope : ScanScope) (a b : Address) : Bool :=
  match scope with
  | .full => true
  | .dirty pools => a ∈ pools || b ∈ pools

/-- What a detector can see of a manager: all but the undo log and the cache. -/
def view (pm : PoolManager) : PoolManager := { pm with pairsCache := none, undoLog := none }

/-- Model of `DetectCtx` (`detectors/ctx.rs`, lines 9–16); `pairs` is what `arbitrage_pairs`
    answers, and `calibration` is a field of `gas_config`. -/
structure DetectCtx (Settings : Type) where
  poolManager : PoolManager
  pairs : List ArbPair
  txIndex : ℕ
  timestamp : ℕ
  baseFeePerGas : ℕ
  settings : Settings
  calibration : GasCalibration
  scope : ScanScope

/-- The detectors with what they keep within a block, and the settings of `GasConfig`.
    `checkDirection` and `dedupArb` are those of `two_hop.rs` and `arb_common.rs`. -/
structure Detectors where
  Settings : Type
  TwoHop : Type
  MultiHop : Type
  Jit : Type
  Backrun : Type
  newTwoHop : TwoHop
  checkDirection : DetectCtx Settings → ℕ → Address → Address → Address → Option MevOpportunity
  dedupArb : TwoHop → PoolManager → MevOpportunity → Bool × TwoHop
  newMultiHop : ℕ → MultiHop
  detectMultiHop : MultiHop → DetectCtx Settings → List MevOpportunity × MultiHop
  newJit : ℕ → PoolManager → Jit
  processJit : Jit → ℕ → List ExecutedLog → Option Address → PoolManager → Jit
  detectJit : Jit → DetectCtx Settings → List MevOpportunity × Jit
  newBackrun : ℕ → Backrun
  preDetect : Backrun → DetectCtx Settings → Backrun
  postDetect : Backrun → DetectCtx Settings → List TxData → List MevOpportunity × Backrun

/-- Model of `TwoHopArbDetector::detect` (`two_hop.rs`, lines 51–75). -/
def Detectors.detectTwoHop (D : Detectors) (blockNum : ℕ) (seen : D.TwoHop)
    (ctx : DetectCtx D.Settings) : List MevOpportunity × D.TwoHop :=
  let directions := (ctx.pairs.filter fun p => ctx.scope.containsPair p.poolA p.poolB).flatMap
    fun p => [(p.poolA, p.poolB, p.sharedToken), (p.poolB, p.poolA, p.sharedToken)]
  directions.foldl (fun (opps, seen) (buyPool, sellPool, sharedToken) =>
    match D.checkDirection ctx blockNum buyPool sellPool sharedToken with
    | none => (opps, seen)
    | some opp =>
      let (emit, seen) := D.dedupArb seen ctx.poolManager opp
      (if emit then opps ++ [opp] else opps, seen)) ([], seen)

/-! ## The runner -/

/-- The reasons for which the scanner drops an opportunity. -/
inductive ScanReject where
  | quoteNonpositive | gasDominates | belowMinProfit | maxCandidates
  deriving DecidableEq

/-- Model of `BacktestRunner` (`runner.rs`, lines 264–297): `settings` and `calibration` are its
    `gas_config`, and a dropped candidate is kept as its block, opportunity and reason. -/
structure Runner (D : Detectors) where
  poolManager : PoolManager := {}
  settings : D.Settings
  calibration : GasCalibration := fun _ => {}
  minProfitWei : ℕ := 0
  maxCandidatesPerTx : ℕ := 0
  oppPersistence : PersistTable := fun _ => none
  persistenceScoring : Bool := true
  gasCalibration : GasCalibration := fun _ => {}
  recordRejections : Bool := false
  pendingRejections : List (ℕ × MevOpportunity × ScanReject) := []
  lastProcessedBlock : ℕ := 0
  simSeedsEnabled : Bool := false
  simMaxCandidatesPerBlock : ℕ := 32
  simSeeds : SimSeeds := ∅
  pendingSeeds : List PendingSeed := []
  seedsCapped : ℕ := 0

/-- Model of `BlockReplayStats` (`pipeline/mod.rs`, lines 19–25), whose last two counters a block
    leaves at zero. -/
structure BlockReplayStats where
  blockNumber : ℕ
  totalTxCount : ℕ
  dexTxCount : ℕ

/-- What the processing of a block returns: its opportunities, its counters and its gas
    prices. -/
abbrev BlockYield := List MevOpportunity × BlockReplayStats × List ℕ

/-- The result of a block without transactions. -/
def emptyYield (blockNum : ℕ) : BlockYield := ([], ⟨blockNum, 0, 0⟩, [])

variable {D : Detectors}

/-! ## The end of a block -/

/-- Model of `to_check_key` of a `BackrunKey` (`backrun.rs`, lines 32–48). -/
def checkKey (opp : MevOpportunity) : Address × Address × Address × Address :=
  if opp.poolA < opp.poolB then (opp.poolA, opp.poolB, opp.tokenIn, opp.tokenOut)
  else (opp.poolB, opp.poolA, opp.tokenIn, opp.tokenOut)

/-- Model of `suppress_superseded_arbs` (`backrun.rs`, lines 61–74). -/
def suppressSupersededArbs (opps : List MevOpportunity) : List MevOpportunity :=
  let backrunKeys := (opps.filter (·.strategy = .backrun)).map checkKey
  opps.filter fun o =>
    ¬((o.strategy = .twoHopArb ∨ o.strategy = .multiHopArb) ∧ checkKey o ∈ backrunKeys)

/-- The first filter of `retain_with_rejections` (`runner.rs`, lines 416–455) that an opportunity
    does not pass. -/
def scanReject (minProfitWei : ℕ) (opp : MevOpportunity) : Option ScanReject :=
  if opp.expectedProfit = 0 then some .quoteNonpositive
  else if opp.expectedProfit ≤ opp.gasCostWei then some .gasDominates
  else if 0 < minProfitWei ∧ opp.expectedProfit ≤ minProfitWei then some .belowMinProfit
  else none

/-- Model of `record_rejection` (`runner.rs`, lines 469–503) on a list of opportunities. -/
def Runner.pushRejections (s : Runner D) (rows : List (ℕ × MevOpportunity × ScanReject)) :
    Runner D :=
  if s.recordRejections then { s with pendingRejections := s.pendingRejections ++ rows } else s

/-- Model of `retain_with_rejections` (`runner.rs`, lines 416–455). -/
def Runner.retainWithRejections (s : Runner D) (opps : List MevOpportunity) (blockNum : ℕ) :
    List MevOpportunity × Runner D :=
  (opps.filter (scanReject s.minProfitWei · = none),
    s.pushRejections (opps.filterMap fun opp =>
      (scanReject s.minProfitWei opp).map fun reason => (blockNum, opp, reason)))

/-- The cap on the candidates (`runner.rs`, lines 515–524). -/
def Runner.capCandidates (s : Runner D) (opps : List MevOpportunity) (blockNum : ℕ) :
    List MevOpportunity × Runner D :=
  if 0 < s.maxCandidatesPerTx ∧ s.maxCandidatesPerTx < opps.length then
    let sorted := opps.insertionSort fun a b => b.expectedProfit ≤ a.expectedProfit
    (sorted.take s.maxCandidatesPerTx,
      s.pushRejections ((sorted.drop s.maxCandidatesPerTx).map
        fun opp => (blockNum, opp, .maxCandidates)))
  else (opps, s)

/-- The stamps of an opportunity (`runner.rs`, lines 526–545). -/
def stampOpportunity (path : DetectionPath) (opp : MevOpportunity) : MevOpportunity :=
  { opp with
    canonicalId := if opp.strategy ≠ .backrun then
        some (computeCanonicalId opp.strategy opp.poolA opp.poolB opp.tokenIn opp.tokenOut)
      else opp.canonicalId
    detectionPath := some path }

/-- Model of `finalize_block_opportunities` (`runner.rs`, lines 505–564). -/
def Runner.finalizeBlockOpportunities (s : Runner D) (opps : List MevOpportunity)
    (blockNum : ℕ) (path : DetectionPath) : List MevOpportunity × Runner D :=
  let (opps, s) := s.retainWithRejections (suppressSupersededArbs opps) blockNum
  let (opps, s) := s.capCandidates opps blockNum
  let opps := opps.map (stampOpportunity path)
  let s := if s.persistenceScoring then
      { s with oppPersistence := (updatePersistence s.oppPersistence opps blockNum).1 }
    else s
  if s.simSeedsEnabled then
    let seeds := promotePendingSeeds s.simSeeds s.pendingSeeds opps s.simMaxCandidatesPerBlock
    (opps, { s with simSeeds := seeds.seeds, pendingSeeds := [],
                    seedsCapped := s.seedsCapped + seeds.capped })
  else (opps, { s with pendingSeeds := [] })

/-! ## A transaction -/

/-- What the loops over the transactions of a block read. -/
structure BlockArgs (D : Detectors) where
  blockNum : ℕ
  txs : List TxData
  poolAddrs : Finset Address
  tokenAddrs : Finset Address
  timestamp : ℕ
  baseFeePerGas : ℕ
  settings : D.Settings
  calibration : GasCalibration
  seedsEnabled : Bool

/-- The variables of the loops over the transactions of a block. -/
structure BlockLoop (D : Detectors) where
  pm : PoolManager
  twoHop : D.TwoHop
  multiHop : D.MultiHop
  backrun : D.Backrun
  dirty : Option (Finset Address) := none
  calibration : GasCalibration
  opportunities : List MevOpportunity := []
  pending : List PendingSeed
  dexTxCount : ℕ := 0

/-- The context of a detection on a manager. -/
def BlockArgs.ctx (a : BlockArgs D) (pm : PoolManager) (txIndex : ℕ) (scope : ScanScope) :
    DetectCtx D.Settings :=
  { poolManager := view pm
    pairs := pm.arbitragePairs.1
    txIndex
    timestamp := a.timestamp
    baseFeePerGas := a.baseFeePerGas
    settings := a.settings
    calibration := a.calibration
    scope }

/-- Whether a transaction or a log of it touches a tracked pool or token. -/
def BlockArgs.matched (a : BlockArgs D) (tx : TxData) (emitters : List Address) : Bool :=
  (tx.recipient.toList ++ emitters).any fun addr => addr ∈ a.poolAddrs || addr ∈ a.tokenAddrs

namespace BlockLoop

variable (a : BlockArgs D) (txIndex : ℕ) (l : BlockLoop D)

/-- The scope of the scan: all pairs until a pool is dirty. -/
def scope : ScanScope :=
  match l.dirty with
  | some pools => .dirty pools
  | none => .full

/-- Opportunities are recorded, with their seeds. -/
def book (opps : List MevOpportunity) : BlockLoop D :=
  { l with
    pending := if a.seedsEnabled then pushPendingSeeds l.pending l.pm.pools opps else l.pending
    opportunities := l.opportunities ++ opps }

/-- The two searches for arbitrage before the logs are applied. The first one asks for the pairs,
    which the manager then keeps. -/
def detectArbs : BlockLoop D :=
  let l := { l with pm := l.pm.arbitragePairs.2 }
  let ctx := a.ctx l.pm txIndex l.scope
  let (opps, twoHop) := D.detectTwoHop a.blockNum l.twoHop ctx
  let l := { l with twoHop }.book a opps
  let (opps, multiHop) := D.detectMultiHop l.multiHop ctx
  { l with multiHop }.book a opps

/-- The detection of the state before a backrun. -/
def preDetect (logs : List ExecutedLog) : BlockLoop D :=
  let willTouch := ((logs.map (·.address)).filter (· ∈ a.poolAddrs)).toFinset
  if willTouch = ∅ then l
  else { l with backrun := D.preDetect l.backrun (a.ctx l.pm txIndex (.dirty willTouch)) }

/-- The logs are applied, and the detection after them. -/
def applyLogs (rt : TaxRuntime) (logs : List ExecutedLog) : Except Panic (BlockLoop D) := do
  let pm ← l.pm.learnTaxesFromTx rt logs
  let pm ← pm.updateFromLogs logs
  let (newlyDirty, pm) := pm.takeDirtyPools
  let l := { l with pm }
  if newlyDirty = ∅ then return l
  let (opps, backrun) := D.postDetect l.backrun (a.ctx pm txIndex (.dirty newlyDirty)) a.txs
  let l := { l with backrun }.book a opps
  return { l with dirty := some (l.dirty.getD ∅ ∪ newlyDirty) }

/-- A gas observation. -/
def observe (logs : List ExecutedLog) (gasUsed : ℕ) : BlockLoop D :=
  { l with calibration := recordGasObservation l.pm a.poolAddrs logs gasUsed l.calibration }

end BlockLoop

/-- The variables of the loop of `run_block`. -/
structure ReplayLoop (D : Detectors) extends BlockLoop D where
  jit : D.Jit
  gasPrices : List ℕ := []

/-- Model of `detect_tx` (`runner.rs`, lines 92–226). -/
def ReplayLoop.detectTx (rt : TaxRuntime) (a : BlockArgs D) (txIndex : ℕ) (tx : ExecutedTx)
    (sender : Option Address) (l : ReplayLoop D) : Except Panic (ReplayLoop D) := do
  let inner := l.toBlockLoop.detectArbs a txIndex
  let jit := D.processJit l.jit txIndex tx.logs sender (view inner.pm)
  let (opps, jit) := D.detectJit jit (a.ctx inner.pm txIndex inner.scope)
  let inner := { inner with opportunities := inner.opportunities ++ opps }
  let inner := if tx.status then inner.observe a tx.logs tx.gasUsed else inner
  let inner ← (inner.preDetect a txIndex tx.logs).applyLogs a txIndex rt tx.logs
  return { inner with jit, gasPrices := l.gasPrices ++ [tx.gasEffective] }

/-- The body of the loop of `sync_block_from_logs` (`runner.rs`, lines 995–1123). -/
def BlockLoop.syncTx (rt : TaxRuntime) (a : BlockArgs D) (receipts : List ReceiptData)
    (l : BlockLoop D) (p : TxData × ℕ) : Except Panic (BlockLoop D) := do
  let receipt := receipts[p.2]?
  let logs := (receipt.map fun r => r.logs.map LogData.toExecuted).getD []
  let matched := a.matched p.1 (logs.map (·.address))
  let l := { l with dexTxCount := if matched then l.dexTxCount + 1 else l.dexTxCount }
  let l ← ((l.detectArbs a p.2).preDetect a p.2 logs).applyLogs a p.2 rt logs
  return match receipt with
    | some r => if r.status ∧ 0 < r.gasUsed then l.observe a logs r.gasUsed else l
    | none => l

/-! ## A replay that keeps its state -/

section Replay

variable {Key Val : Type} [DecidableEq Key] {σ : Type}

/-- The loop of `replay_each_filtered` (`replayer.rs`, lines 843–871), with the state that the
    callback leaves also where it fails. What the filter of the runner writes is written by the
    callback, which gets the transaction and the verdict of the filter. -/
def replayWith (b : LoadedBlock Key Val) (filter : Filter)
    (onTx : ℕ → TxData → Bool → ExecutedTx → σ → Except String Unit × σ) (db : Db Key Val)
    (s : σ) : List (TxData × ℕ) → Except String Unit × σ
  | [] => (.ok (), s)
  | p :: l =>
    let (executed, db) := b.replayTx filter db p
    match onTx p.2 p.1 (filter p.1 (b.receiptLogs p.2)) executed s with
    | (.error e, s) => (.error e, s)
    | (.ok (), s) => replayWith b filter onTx db s l

/-- Model of `replay_each_filtered` (`replayer.rs`, lines 832–874) with that state. -/
def replayEachWith (r : BlockReplayer Key Val) (blockNum : ℕ) (filter : Filter)
    (onTx : ℕ → TxData → Bool → ExecutedTx → σ → Except String Unit × σ) (s : σ) :
    Except String Unit × σ :=
  match r.loadBlockData blockNum with
  | .error e => (.error e, s)
  | .ok (block, txs) =>
    match r.loadReceipts blockNum with
    | .error e => (.error e, s)
    | .ok receipts =>
      match r.createDbForBlock blockNum with
      | .error e => (.error e, s)
      | .ok db =>
        let b : LoadedBlock Key Val :=
          { chainId := r.chainId, evm := r.evm block, txs, receipts, db }
        replayWith b filter onTx db s txs.zipIdx

/-- The state of a run, if it does not fail. -/
def kept : Except String Unit × σ → Except String σ
  | (.ok (), s) => .ok s
  | (.error e, _) => .error e

theorem replayLoop_eq_kept (b : LoadedBlock Key Val) (filter : Filter)
    (onTx : ℕ → ExecutedTx → σ → Except String Unit × σ) (db : Db Key Val) (s : σ)
    (l : List (TxData × ℕ)) :
    b.replayLoop filter (fun i tx _ s => kept (onTx i tx s)) db s l =
      kept (replayWith b filter (fun i _ _ tx s => onTx i tx s) db s l) := by
  induction l generalizing db s with
  | nil => rfl
  | cons p l ih =>
    simp only [LoadedBlock.replayLoop, replayWith]
    cases hp : onTx p.2 (b.replayTx filter db p).1 s with
    | mk res s' =>
      cases res with
      | error e => rfl
      | ok => exact ih _ s'

/-- The replay is the one of the replayer. -/
theorem replayEachFiltered_eq (r : BlockReplayer Key Val) (blockNum : ℕ) (filter : Filter)
    (onTx : ℕ → ExecutedTx → σ → Except String Unit × σ) (s : σ) :
    r.replayEachFiltered blockNum filter (fun i tx _ s => kept (onTx i tx s)) s =
      kept (replayEachWith r blockNum filter (fun i _ _ tx s => onTx i tx s) s) := by
  unfold BlockReplayer.replayEachFiltered replayEachWith
  cases r.loadBlockData blockNum with
  | error e => rfl
  | ok data =>
    dsimp only
    cases r.loadReceipts blockNum with
    | error e => rfl
    | ok receipts =>
      dsimp only
      cases r.createDbForBlock blockNum with
      | error e => rfl
      | ok db => exact replayLoop_eq_kept ..

/-- A callback that does not fail lets the loop end. -/
theorem replayWith_ok {b : LoadedBlock Key Val} {filter : Filter}
    {onTx : ℕ → TxData → Bool → ExecutedTx → σ → Except String Unit × σ}
    (hok : ∀ i tx matched executed s, (onTx i tx matched executed s).1 = .ok ())
    (db : Db Key Val) (s : σ) (l : List (TxData × ℕ)) :
    (replayWith b filter onTx db s l).1 = .ok () := by
  induction l generalizing db s with
  | nil => rfl
  | cons p l ih =>
    unfold replayWith
    have hp := hok p.2 p.1 (filter p.1 (b.receiptLogs p.2)) (b.replayTx filter db p).1 s
    cases hon : onTx p.2 p.1 (filter p.1 (b.receiptLogs p.2)) (b.replayTx filter db p).1 s with
    | mk res s' =>
      rw [hon] at hp
      obtain rfl : res = .ok () := hp
      simp only [hon]
      exact ih _ s'

/-- A replay whose callback does not fail can only fail before the first transaction. -/
theorem replayEachWith_error {r : BlockReplayer Key Val} {blockNum : ℕ} {filter : Filter}
    {onTx : ℕ → TxData → Bool → ExecutedTx → σ → Except String Unit × σ}
    (hok : ∀ i tx matched executed s, (onTx i tx matched executed s).1 = .ok ()) {s s' : σ}
    {e : String} (h : replayEachWith r blockNum filter onTx s = (.error e, s')) : s' = s := by
  unfold replayEachWith at h
  split at h
  · exact (Prod.mk.inj h).2.symm
  · split at h
    · exact (Prod.mk.inj h).2.symm
    · split at h
      · exact (Prod.mk.inj h).2.symm
      · have hloop := congrArg Prod.fst h
        dsimp only at hloop
        rw [replayWith_ok hok] at hloop
        cases hloop

end Replay

/-! ## A block -/

section Block

variable {Key Val : Type} [DecidableEq Key]

/-- Model of `pool_addresses` (`manager.rs`, lines 336–338). -/
def poolAddresses (pm : PoolManager) : Finset Address := pm.pools.keys.toFinset

/-- Model of `token_addresses` (`manager.rs`, lines 344–346). -/
def tokenAddresses (pm : PoolManager) : Finset Address := pm.tokenIndex.keys.toFinset

/-- The state in which the transactions of a block are met. -/
def Runner.begun (s : Runner D) : Runner D :=
  { s with poolManager := s.poolManager.beginUndo, calibration := s.gasCalibration }

/-- What the loops of a block read. -/
def Runner.args (s : Runner D) (blockNum : ℕ) (block : BlockData) (txs : List TxData) :
    BlockArgs D :=
  { blockNum, txs
    poolAddrs := poolAddresses s.poolManager
    tokenAddrs := tokenAddresses s.poolManager
    timestamp := block.timestamp
    baseFeePerGas := block.baseFeePerGas.getD 0
    settings := s.settings
    calibration := s.gasCalibration
    seedsEnabled := s.simSeedsEnabled }

/-- The variables of the loops of a block before its first transaction. -/
def Runner.loop (s : Runner D) (blockNum : ℕ) : BlockLoop D :=
  { pm := s.poolManager
    twoHop := D.newTwoHop
    multiHop := D.newMultiHop blockNum
    backrun := D.newBackrun blockNum
    calibration := s.gasCalibration
    pending := s.pendingSeeds }

/-- The runner takes the variables of a loop back. -/
def Runner.leave (s : Runner D) (l : BlockLoop D) : Runner D :=
  { s with poolManager := l.pm, gasCalibration := l.calibration, pendingSeeds := l.pending }

/-- The end of a block whose transactions are all processed. -/
def Runner.finish (s : Runner D) (l : BlockLoop D) (blockNum total : ℕ) (gasPrices : List ℕ)
    (path : DetectionPath) : BlockYield × Runner D :=
  let (opps, s) := (s.leave l).finalizeBlockOpportunities l.opportunities blockNum path
  ((opps, ⟨blockNum, total, l.dexTxCount⟩, gasPrices), { s with lastProcessedBlock := blockNum })

/-- The callback of `run_block`: it never fails, and nothing is done after a panic. -/
def replayOnTx (rt : TaxRuntime) (a : BlockArgs D) (txIndex : ℕ) (tx : TxData) (matched : Bool)
    (executed : ExecutedTx) (l : Except Panic (ReplayLoop D)) :
    Except String Unit × Except Panic (ReplayLoop D) :=
  (.ok (), l >>= fun l =>
    ReplayLoop.detectTx rt a txIndex executed (some tx.sender)
      { l with dexTxCount := if matched then l.dexTxCount + 1 else l.dexTxCount })

/-- Model of `run_block` (`runner.rs`, lines 821–939): what it returns and the runner that it
    leaves, unless a callback panics. -/
def runBlock (rt : TaxRuntime) (r : BlockReplayer Key Val) (s : Runner D) (blockNum : ℕ) :
    Except Panic (Except String BlockYield × Runner D) :=
  match r.loadBlockData blockNum with
  | .error e => .ok (.error e, s)
  | .ok (block, txs) =>
    if txs = [] then .ok (.ok (emptyYield blockNum), s)
    else
      let a := s.args blockNum block txs
      let filter : Filter := fun tx logs => a.matched tx (logs.map (·.address))
      let jit := D.newJit blockNum (view s.poolManager)
      let s := s.begun
      let l : ReplayLoop D := { s.loop blockNum with jit }
      match replayEachWith r blockNum filter (replayOnTx rt a) (.ok l) with
      | (_, .error p) => .error p
      | (.error e, .ok l) => .ok (.error e, s.leave l.toBlockLoop)
      | (.ok (), .ok l) =>
        let (result, s) := s.finish l.toBlockLoop blockNum txs.length l.gasPrices .replay
        .ok (.ok result, s)

/-- A block that fails has at most begun to be recorded. -/
theorem runBlock_error {rt : TaxRuntime} {r : BlockReplayer Key Val} {s s' : Runner D}
    {blockNum : ℕ} {e : String} (h : runBlock rt r s blockNum = .ok (.error e, s')) :
    s' = s ∨ s' = s.begun := by
  unfold runBlock at h
  split at h
  · cases h
    exact .inl rfl
  · split_ifs at h
    · cases h
    · dsimp only at h
      split at h
      · cases h
      · rename_i l hreplay
        have hkept := replayEachWith_error (fun _ _ _ _ _ => rfl) hreplay
        cases h
        cases hkept
        exact .inr rfl
      · cases h

/-- Model of `sync_block_from_logs` (`runner.rs`, lines 953–1145). -/
def syncBlockFromLogs (rt : TaxRuntime) (r : BlockReplayer Key Val) (s : Runner D)
    (blockNum : ℕ) : Except Panic (Except String BlockYield × Runner D) :=
  match r.loadBlockData blockNum with
  | .error e => .ok (.error e, s)
  | .ok (block, txs) =>
    match r.loadReceipts blockNum with
    | .error e => .ok (.error e, s)
    | .ok receipts =>
      if txs = [] then .ok (.ok (emptyYield blockNum), s)
      else do
        let a := s.args blockNum block txs
        let s := s.begun
        let l ← txs.zipIdx.foldlM (BlockLoop.syncTx rt a receipts) (s.loop blockNum)
        let (result, s) := s.finish l blockNum txs.length [] .logOnly
        return (.ok result, s)

/-- `self.pool_manager.undo()`. -/
def Runner.rollBack (s : Runner D) : Runner D := { s with poolManager := s.poolManager.undo }

/-- `self.pool_manager.end_undo()`. -/
def Runner.commit (s : Runner D) : Runner D := { s with poolManager := s.poolManager.endUndo }

/-- Model of `hybrid_try_log_only_block` (`runner.rs`, lines 698–718). -/
def hybridTryLogOnlyBlock (rt : TaxRuntime) (r : BlockReplayer Key Val) (s : Runner D)
    (blockNum : ℕ) : Except Panic (Option (List MevOpportunity × BlockReplayStats) × Runner D) :=
  (syncBlockFromLogs rt r s blockNum).map fun
    | (.ok (opps, stats, _), s) => (some (opps, stats), s.commit)
    | (.error _, s) => (none, s.rollBack)

/-- Model of `hybrid_try_full_replay_block` (`runner.rs`, lines 652–696). The cache and the RPC
    that the replayer reads may answer the fallback, as `r'`, unlike the attempt. -/
def hybridTryFullReplayBlock (rt : TaxRuntime) (r r' : BlockReplayer Key Val) (s : Runner D)
    (blockNum : ℕ) : Except Panic (Option (List MevOpportunity × BlockReplayStats) × Runner D) :=
  match runBlock rt r s blockNum with
  | .error p => .error p
  | .ok (.ok (opps, stats, _), s) => .ok (some (opps, stats), s.commit)
  | .ok (.error _, s) => hybridTryLogOnlyBlock rt r' s.rollBack blockNum

end Block

end MevScout.Pipeline
