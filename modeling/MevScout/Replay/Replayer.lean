import MevScout.Chain.Data
import MevScout.Utils

/-!
# Block replay

Models of `core/src/replay/replayer.rs`: the replay of a cached block that skips the execution
of the transactions that a filter rejects. The EVM is a parameter: it rejects a transaction
whose nonce is not the nonce of its sender, and what else it does is decided by the cells that
it reads, the balances, the code and the storage. The environment of the block is a part of
the parameter.

Results:
* `replayLoop_eq`: the loop calls `on_tx` with the report of every transaction;
* `getElem?_calls`: the report of a transaction is made in the state that the transactions
  before it leave.
-/

namespace MevScout.Replay

/-! ## Transactions -/

/-- Model of `TxEnv` as `tx_data_to_tx_env` fills it. -/
structure TxEnv where
  txType : ℕ
  caller : Address
  kind : Option Address
  value : ℕ
  data : List UInt8
  gasLimit : ℕ
  gasPrice : ℕ
  gasPriorityFee : Option ℕ
  nonce : ℕ
  accessList : List AccessListItem
  chainId : Option ℕ
  authorizationList : List AuthorizationData
  deriving DecidableEq

/-- Model of `tx_data_to_tx_env` (`replayer.rs`, lines 525–569). -/
def txDataToTxEnv (chainId : ℕ) (tx : TxData) : TxEnv :=
  { txType := tx.txType
    caller := tx.sender
    kind := tx.recipient
    value := tx.value
    data := tx.input
    gasLimit := tx.gasLimit
    gasPrice := tx.gasPrice.getD tx.maxFeePerGas
    gasPriorityFee := tx.maxPriorityFeePerGas.or tx.gasPrice
    nonce := tx.nonce
    accessList := tx.accessList
    chainId := some chainId
    authorizationList := tx.authorizationList }

/-- What the replay reads of an `ExecutionResult`. -/
structure ExecutionResult where
  isSuccess : Bool
  txGasUsed : ℕ
  logs : List ExecutedLog
  output : Option (List UInt8)
  deriving DecidableEq

/-- `EVMError`: the state could not be loaded, or the transaction is rejected. -/
inductive EvmError where
  | database (message : String)
  | transaction (message : String)
  deriving DecidableEq

/-! ## The EVM -/

/-- Model of `CfgEnv` as `build_cfg_env` fills it; the fork is a part of the EVM. -/
structure CfgEnv where
  chainId : ℕ
  limitContractCodeSize : Option ℕ
  disableNonceCheck : Bool

/-- Model of `build_cfg_env` (`replayer.rs`, lines 472–478). -/
def buildCfgEnv (chainId : ℕ) : CfgEnv :=
  { chainId, limitContractCodeSize := some 0x6000, disableNonceCheck := false }

/-- The state: the nonces of the senders, and the cells. -/
structure Db (Key Val : Type) where
  nonces : Address → ℕ
  cells : Key → Val

/-- The EVM behind the check of the nonce: the result of a transaction with the cells it
    writes, and the cells it reads. The cells it reads decide what it does. -/
structure Evm (Key Val : Type) where
  run : TxEnv → (Key → Val) → Except EvmError (ExecutionResult × List (Key × Val))
  reads : TxEnv → (Key → Val) → Set Key
  run_congr : ∀ env cells cells', (∀ key ∈ reads env cells, cells' key = cells key) →
    run env cells' = run env cells

section Evm

variable {Key Val : Type} [DecidableEq Key]

/-- The cells after a list of writes. -/
def writeAll (cells : Key → Val) (writes : List (Key × Val)) : Key → Val :=
  writes.foldl (fun cells w => Function.update cells w.1 w.2) cells

/-- What a transaction does to a state. -/
def Evm.effect (evm : Evm Key Val) (cfg : CfgEnv) (db : Db Key Val) (env : TxEnv) :
    Except EvmError (ExecutionResult × List (Key × Val)) :=
  if cfg.disableNonceCheck = false ∧ env.nonce ≠ db.nonces env.caller then
    .error (.transaction "nonce")
  else evm.run env db.cells

/-- `transact_commit`: a transaction that is executed increments the nonce of its sender. -/
def Evm.transactCommit (evm : Evm Key Val) (cfg : CfgEnv) (db : Db Key Val) (env : TxEnv) :
    Except EvmError ExecutionResult × Db Key Val :=
  match evm.effect cfg db env with
  | .error e => (.error e, db)
  | .ok (result, writes) =>
    (.ok result,
      { nonces := Function.update db.nonces env.caller (db.nonces env.caller + 1)
        cells := writeAll db.cells writes })

end Evm

/-! ## Reports -/

/-- A difference that `verify_receipt` finds. -/
inductive Mismatch where
  | status (exec receipt : Bool)
  | gasUsed (exec receipt : ℕ)
  | logCount (exec receipt : ℕ)
  | logAddress (i : ℕ) (exec receipt : Address)
  | logData (i : ℕ)
  | topicCount (i exec receipt : ℕ)
  | topic (i t : ℕ)
  deriving DecidableEq

/-- What the text of the field `error` says. -/
inductive TxError where
  | receiptNotFound
  | mismatches (found : List Mismatch)
  | message (text : String)
  deriving DecidableEq

/-- Model of `ExecutedTx` (`core/src/data/types.rs`, lines 112–123). -/
structure ExecutedTx where
  txHash : B256
  index : ℕ
  status : Bool
  gasUsed : ℕ
  gasEffective : ℕ
  logs : List ExecutedLog
  output : List UInt8
  error : Option TxError
  deriving DecidableEq

/-- The log of a receipt as the log of a report. -/
def LogData.toExecuted (l : LogData) : ExecutedLog :=
  { address := l.address, topics := l.topics, data := l.data }

/-- `SYSTEM_ADDRS`: the state receiver and the native token of Polygon. -/
def systemAddrs : List Address := [0x1001, 0x1010]

/-- The differences of the logs with the index `i` (`replayer.rs`, lines 658–686). -/
def logMismatches (p : (ExecutedLog × LogData) × ℕ) : List Mismatch :=
  let (l, rLog) := p.1
  let i := p.2
  (if l.address ≠ rLog.address then [.logAddress i l.address rLog.address] else []) ++
  (if l.data ≠ rLog.data then [.logData i] else []) ++
  (if l.topics.length ≠ rLog.topics.length then
      [.topicCount i l.topics.length rLog.topics.length]
    else
      (l.topics.zip rLog.topics).zipIdx.filterMap fun q =>
        if q.1.1 ≠ q.1.2 then some (.topic i q.2) else none)

/-- Model of `verify_receipt` (`replayer.rs`, lines 608–701). -/
def verifyReceipt (exec : ExecutionResult) (receipt : ReceiptData) : Option TxError :=
  let receiptLogs := receipt.logs.filter fun l => l.address ∉ systemAddrs
  let execLogs := exec.logs.filter fun l => l.address ∉ systemAddrs
  let found : List Mismatch :=
    (if exec.isSuccess ≠ receipt.status then [.status exec.isSuccess receipt.status] else []) ++
    (if exec.txGasUsed ≠ receipt.gasUsed then [.gasUsed exec.txGasUsed receipt.gasUsed] else []) ++
    (if execLogs.length ≠ receiptLogs.length then [.logCount execLogs.length receiptLogs.length]
      else (execLogs.zip receiptLogs).zipIdx.flatMap logMismatches)
  if found = [] then none else some (.mismatches found)

/-- Model of `build_executed_tx` (`replayer.rs`, lines 703–740). -/
def buildExecutedTx (tx : TxData) (result : ExecutionResult) (receipt : Option ReceiptData) :
    ExecutedTx :=
  { txHash := tx.hash
    index := 0
    status := result.isSuccess
    gasUsed := (receipt.map (·.gasUsed)).getD result.txGasUsed
    gasEffective := tx.maxFeePerGas
    logs := result.logs
    output := result.output.getD []
    error := match receipt with
      | some r => verifyReceipt result r
      | none => some .receiptNotFound }

/-- Model of `synthesize_tx` (`replayer.rs`, lines 901–923). -/
def synthesizeTx (tx : TxData) (receipt : Option ReceiptData) (errorMsg : String) : ExecutedTx :=
  { txHash := tx.hash
    index := 0
    status := (receipt.map (·.status)).getD false
    gasUsed := (receipt.map (·.gasUsed)).getD 0
    gasEffective := tx.maxFeePerGas
    logs := (receipt.map fun r => r.logs.map LogData.toExecuted).getD []
    output := []
    error := some (.message errorMsg) }

/-- Model of `ExecOutcome` (`replayer.rs`, lines 409–417). -/
inductive ExecOutcome where
  | executed (result : ExecutionResult)
  | stateLoadFailed (message : String)

/-- Model of `exec_or_revert` (`replayer.rs`, lines 579–606). -/
def execOrRevert (txGasLimit : ℕ) : Except EvmError ExecutionResult → ExecOutcome
  | .ok result => .executed result
  | .error (.database message) => .stateLoadFailed message
  | .error (.transaction _) =>
    .executed { isSuccess := false, txGasUsed := txGasLimit, logs := [], output := some [] }

/-! ## The loop -/

/-- A filter reads a transaction and the logs of its receipt. -/
abbrev Filter := TxData → List LogData → Bool

/-- A cached block with the EVM that is built for it. -/
structure LoadedBlock (Key Val : Type) where
  chainId : ℕ
  evm : Evm Key Val
  txs : List TxData
  receipts : List ReceiptData
  db : Db Key Val

variable {Key Val : Type} [DecidableEq Key]

namespace LoadedBlock

variable (b : LoadedBlock Key Val) (filter : Filter)

/-- The logs that the filter reads for the transaction with the index `i`. -/
def receiptLogs (i : ℕ) : List LogData := (b.receipts[i]?.map (·.logs)).getD []

/-- `evm.transact_commit(tx_env)`. -/
def transact (db : Db Key Val) (tx : TxData) : Except EvmError ExecutionResult × Db Key Val :=
  b.evm.transactCommit (buildCfgEnv b.chainId) db (txDataToTxEnv b.chainId tx)

/-- The report of an outcome. -/
def reportOf (i : ℕ) (tx : TxData) : ExecOutcome → ExecutedTx
  | .executed result => { buildExecutedTx tx result b.receipts[i]? with index := i }
  | .stateLoadFailed message => { synthesizeTx tx b.receipts[i]? message with index := i }

/-- The loop body of `replay_each_filtered` before `on_tx` (`replayer.rs`, lines 843–868). -/
def replayTx (db : Db Key Val) (p : TxData × ℕ) : ExecutedTx × Db Key Val :=
  if filter p.1 (b.receiptLogs p.2) then
    let (result, db) := b.transact db p.1
    (b.reportOf p.2 p.1 (execOrRevert p.1.gasLimit result), db)
  else ({ synthesizeTx p.1 b.receipts[p.2]? "skipped" with index := p.2 }, db)

/-- The loop of `replay_each_filtered` (`replayer.rs`, lines 843–871). -/
def replayLoop {σ : Type} (onTx : ℕ → ExecutedTx → Db Key Val → σ → Except String σ)
    (db : Db Key Val) (s : σ) : List (TxData × ℕ) → Except String σ
  | [] => .ok s
  | p :: l => do
    let (executed, db) := b.replayTx filter db p
    let s ← onTx p.2 executed db s
    replayLoop onTx db s l

/-- The calls of `on_tx`. -/
def calls (db : Db Key Val) : List (TxData × ℕ) → List (ℕ × ExecutedTx × Db Key Val)
  | [] => []
  | p :: l =>
    let (executed, db) := b.replayTx filter db p
    (p.2, executed, db) :: calls db l

/-- The loop calls `on_tx` until a call fails. -/
theorem replayLoop_eq {σ : Type} (onTx : ℕ → ExecutedTx → Db Key Val → σ → Except String σ)
    (db : Db Key Val) (s : σ) (l : List (TxData × ℕ)) :
    b.replayLoop filter onTx db s l =
      (b.calls filter db l).foldlM (fun s c => onTx c.1 c.2.1 c.2.2 s) s := by
  induction l generalizing db s with
  | nil => rfl
  | cons p l ih =>
    simp only [replayLoop, calls, List.foldlM_cons]
    exact bind_congr fun s => ih _ s

end LoadedBlock

/-- What a block replayer reads. -/
structure BlockReplayer (Key Val : Type) where
  chainId : ℕ
  loadBlockData : ℕ → Except String (BlockData × List TxData)
  loadReceipts : ℕ → Except String (List ReceiptData)
  createDbForBlock : ℕ → Except String (Db Key Val)
  evm : BlockData → Evm Key Val

/-- Model of `replay_each_filtered` (`replayer.rs`, lines 832–874). -/
def BlockReplayer.replayEachFiltered (r : BlockReplayer Key Val) {σ : Type} (blockNum : ℕ)
    (filter : Filter) (onTx : ℕ → ExecutedTx → Db Key Val → σ → Except String σ) (s : σ) :
    Except String σ := do
  let (block, txs) ← r.loadBlockData blockNum
  let receipts ← r.loadReceipts blockNum
  let db ← r.createDbForBlock blockNum
  let b : LoadedBlock Key Val := { chainId := r.chainId, evm := r.evm block, txs, receipts, db }
  b.replayLoop filter onTx db s b.txs.zipIdx

/-! ## Reports by index -/

namespace LoadedBlock

variable (b : LoadedBlock Key Val) (filter : Filter)

/-- The state before the transaction with the index `k`. -/
def dbAt (k : ℕ) : Db Key Val :=
  (b.txs.zipIdx.take k).foldl (fun db p => (b.replayTx filter db p).2) b.db

theorem dbAt_succ {k : ℕ} {tx : TxData} (h : b.txs[k]? = some tx) :
    b.dbAt filter (k + 1) = (b.replayTx filter (b.dbAt filter k) (tx, k)).2 := by
  have hzip : b.txs.zipIdx[k]? = some (tx, k) := by simp [h]
  unfold dbAt
  rw [List.take_add_one, hzip, List.foldl_append]
  rfl

theorem dbAt_succ_of_none {k : ℕ} (h : b.txs[k]? = none) :
    b.dbAt filter (k + 1) = b.dbAt filter k := by
  have hzip : b.txs.zipIdx[k]? = none := by simpa using h
  unfold dbAt
  rw [List.take_add_one, hzip, Option.toList_none, List.append_nil]

/-- The report of the transaction with the index `k`. -/
def report (k : ℕ) : Option ExecutedTx :=
  b.txs[k]?.map fun tx => (b.replayTx filter (b.dbAt filter k) (tx, k)).1

theorem getElem?_calls_from (db : Db Key Val) (l : List (TxData × ℕ)) (k : ℕ) :
    (b.calls filter db l)[k]? = l[k]?.map fun p =>
      let db := (l.take k).foldl (fun db p => (b.replayTx filter db p).2) db
      (p.2, b.replayTx filter db p) := by
  induction l generalizing db k with
  | nil => rfl
  | cons p l ih =>
    cases k with
    | zero => rfl
    | succ k => exact ih _ k

/-- The calls of `on_tx` by index. -/
theorem getElem?_calls (k : ℕ) :
    (b.calls filter b.db b.txs.zipIdx)[k]? =
      (b.report filter k).map fun executed => (k, executed, b.dbAt filter (k + 1)) := by
  rw [getElem?_calls_from]
  cases h : b.txs[k]? with
  | none => simp [report, h]
  | some tx =>
    have hzip : b.txs.zipIdx[k]? = some (tx, k) := by simp [h]
    rw [hzip, report, h, dbAt_succ b filter h]
    rfl

end LoadedBlock

end MevScout.Replay
