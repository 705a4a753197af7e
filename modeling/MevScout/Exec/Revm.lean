import MevScout.Exec.Calldata
import MevScout.Exec.Session
import MevScout.Replay.WhatIf

/-!
# The local EVM of a session

Model of `core/src/exec/revm_backend.rs`, which is the backend of `run_revm`. A block is opened in
the state after the transactions before an opportunity, with the wallet of the ledger as the balance
of the searcher, who deploys the executor. The plans of the block are run one after another. The
bytecode, the hash and the EVM are parameters. Errors are logged alone.

Results:
* `backed_openRevmBlock`: what the wallet pays for an open block is its setup;
* `wallet_backed`: **main theorem**, the wallet of the ledger has no more than the searcher has on
  the chain, up to the gas of the setup, and exactly that as long as no transaction is rejected.
-/

namespace MevScout.Exec

open Paper Replay

/-! ## The model -/

/-- Model of `ExecAttempt::ran` (`paper/types.rs`, lines 80–95). -/
def ranAttempt (status : Bool) (netWei : ℤ) (gasUsed gasWei : ℕ) (txHash : Option String)
    (hnet : FitsI128 netWei) (hgas : gasWei < 2 ^ 128) : ExecAttempt :=
  { status, netWei, gasUsed, gasWei, txHash, fail := none, netWei_mem := hnet, gasWei_lt := hgas }

/-- Model of `build_next_block_env` (`replayer.rs`, lines 501–523). -/
def buildNextBlockEnv (prev : BlockData) : BlockEnv :=
  { number := saturatingAdd 64 prev.number 1
    beneficiary := prev.coinbase
    timestamp := saturatingAdd 64 prev.timestamp 12
    gasLimit := prev.gasLimit
    basefee := (saturatingMul 128 (prev.baseFeePerGas.getD 0) 9 / 8) % 2 ^ 64
    difficulty := prev.difficulty
    prevrandao := some prev.mixHash }

/-- `PRIORITY_WEI`. -/
def priorityWei : ℕ := 1000000000

/-- `EXEC_GAS`. -/
def execGas : ℕ := 2500000

/-- What the backend reads. -/
structure RevmContext (σ : Type) where
  replayer : WhatIfReplayer σ
  chainId : ℕ
  searcher : Address
  withdrawer : Address
  weth : Address
  keccak256 : List UInt8 → B256
  creationBytecode : Option (List UInt8)
  createAddress : Address → ℕ → Address
  amsterdam : ForkKey → Bool

/-- Model of `RevmBlock` (lines 37–46). -/
structure RevmBlock (σ : Type) where
  stateBlock : ℕ
  cfgTimestamp : ℕ
  execEnv : BlockEnv
  db : Option (Db Address (Account σ))
  executor : Address
  nonce : ℕ
  setupGasWei : ℕ

/-- The block of an opportunity whose data cannot be read (lines 99–112). -/
def unreadBlock (n timestamp : ℕ) : BlockData :=
  { number := n, hash := 0, timestamp, baseFeePerGas := some 1000000000, gasLimit := 30000000
    gasUsed := 0, coinbase := 0, difficulty := 0, mixHash := 0 }

/-- `gas_price` (lines 134 and 192). -/
def gasPrice (env : BlockEnv) : ℕ := saturatingAdd 128 env.basefee priorityWei

namespace RevmContext

variable {σ : Type} (c : RevmContext σ)

/-- The state and the environment of an opportunity, with the timestamp of its fork
    (lines 60–119). -/
def position (opp : MevOpportunity) : Option (Db Address (Account σ) × BlockEnv × ℕ) :=
  let n := opp.blockNumber
  if pendingKind opp then do
    let (block, _) ← (c.replayer.loadBlockData (n - 1)).toOption
    let db ← (c.replayer.createDbForBlock n).toOption
    return (db, buildNextBlockEnv block, saturatingAdd 64 block.timestamp 12)
  else
    match c.replayer.loadBlockData n with
    | .ok (block, txs) => do
      let db ← (c.replayer.createDbForBlock n).toOption
      let env := buildBlockEnv block
      let before := (txs.take (min (opp.txIndex + 1) txs.length)).map
        (txDataToTxEnv c.replayer.chainId)
      if before = [] then return (db, env, block.timestamp)
      let (_, db) ← (executeWhatif (c.replayer.evm ⟨n, block.timestamp, block.mixHash⟩ env)
        (buildCfgEnv c.replayer.chainId) env.beneficiary db before).toOption
      return (db, env, block.timestamp)
    | .error _ => do
      let db ← (c.replayer.createDbForBlock n).toOption
      let block := unreadBlock n opp.timestamp
      return (db, buildBlockEnv block, block.timestamp)

/-- Model of `fund_searcher` (lines 236–256). -/
def fundSearcher (db : Db Address (Account σ)) (balanceWei : ℕ) : Db Address (Account σ) :=
  { db with cells :=
      Function.update db.cells c.searcher { db.cells c.searcher with balance := balanceWei } }

/-- The fork of an open block, and what `build_cfg_env` reads for it. -/
def fork (n timestamp : ℕ) (env : BlockEnv) : ForkKey := ⟨n, timestamp, env.prevrandao.getD 0⟩

/-- Model of `deploy_gas_for` (lines 29–35), with the limit of the block. -/
def deployGas (fork : ForkKey) (env : BlockEnv) : ℕ :=
  min (if c.amsterdam fork then 15000000 else 3000000) env.gasLimit

/-- The transaction that deploys the executor (lines 141–156). -/
def deployTx (creation : List UInt8) (nonce : ℕ) (fork : ForkKey) (env : BlockEnv) : TxEnv :=
  { txType := 2
    caller := c.searcher
    kind := none
    value := 0
    data := creation ++ wordAddr c.searcher ++ wordAddr c.withdrawer ++ wordAddr c.weth
    gasLimit := c.deployGas fork env
    gasPrice := gasPrice env
    gasPriorityFee := some priorityWei
    nonce
    accessList := []
    chainId := some c.chainId
    authorizationList := [] }

/-- The only run of a transaction, and the state after it. -/
def runOne (fork : ForkKey) (env : BlockEnv) (db : Db Address (Account σ)) (tx : TxEnv) :
    Option (List WhatIfRun × Db Address (Account σ)) :=
  (executeWhatif (c.replayer.evm fork env) (buildCfgEnv c.replayer.chainId) env.beneficiary db
    [tx]).toOption

/-- Model of `open_revm_block` (lines 49–188). -/
def openRevmBlock (opp : MevOpportunity) (balanceWei : ℕ) : Option (RevmBlock σ) := do
  let (db, env, timestamp) ← c.position opp
  let db := c.fundSearcher db balanceWei
  let nonce := db.nonces c.searcher
  let creation ← c.creationBytecode
  let fork := fork opp.blockNumber timestamp env
  let (runs, db) ← c.runOne fork env db (c.deployTx creation nonce fork env)
  let run ← runs.head?
  guard (run.status ∧ run.committed)
  let created ← run.created
  guard (created = c.createAddress c.searcher nonce)
  return {
    stateBlock := opp.blockNumber
    cfgTimestamp := timestamp
    execEnv := env
    db := some db
    executor := created
    nonce := saturatingAdd 64 nonce 1
    setupGasWei := saturatingMul 128 run.gasUsed (gasPrice env) }

/-- Model of `synthetic_tx_hash` (lines 258–264). -/
def syntheticTxHash (block nonce : ℕ) (data : List UInt8) : String :=
  "0x" ++ String.ofList
    (hexDigits (c.keccak256 (beBytes 8 block ++ beBytes 8 nonce ++ data)).toNat 64)

/-- The transaction of a plan (lines 203–218). -/
def execTx (block : RevmBlock σ) (nonce : ℕ) (plan : ExecPlan) : TxEnv :=
  { txType := 2
    caller := c.searcher
    kind := some block.executor
    value := 0
    data := encodeExecute c.keccak256 plan
    gasLimit := execGas
    gasPrice := gasPrice block.execEnv
    gasPriorityFee := some priorityWei
    nonce
    accessList := []
    chainId := some c.chainId
    authorizationList := [] }

theorem saturatingMul_lt (a b : ℕ) : saturatingMul 128 a b < 2 ^ 128 := by
  unfold saturatingMul
  omega

/-- What a run is booked as (lines 228–233). -/
def attemptOf (block : RevmBlock σ) (nonce : ℕ) (plan : ExecPlan) (run : WhatIfRun) : ExecAttempt :=
  ranAttempt run.status (run.deltaOf c.searcher) run.gasUsed
    (saturatingMul 128 run.gasUsed (gasPrice block.execEnv))
    (some (c.syntheticTxHash block.stateBlock nonce (encodeExecute c.keccak256 plan)))
    (run.deltaOf_fits c.searcher) (saturatingMul_lt _ _)

/-- Model of `exec_plan_revm` (lines 190–234). An error of the EVM takes the state with it. -/
def execPlanRevm (block : RevmBlock σ) (plan : ExecPlan) : Option ExecAttempt × RevmBlock σ :=
  match block.db with
  | none => (none, block)
  | some db =>
    let nonce := db.nonces c.searcher
    match c.runOne (fork block.stateBlock block.cfgTimestamp block.execEnv) block.execEnv db
        (c.execTx block nonce plan) with
    | none => (none, { block with db := none })
    | some ([], db) => (some (failed .execBuildFailed), { block with db := some db })
    | some (run :: _, db) =>
      (some (c.attemptOf block nonce plan run),
        { block with
          db := some db
          nonce := if run.committed then saturatingAdd 64 nonce 1 else block.nonce })

/-- The backend of `run_revm`, with the plans of `Exec/Plan`. -/
def backend (planFor : MevOpportunity → Except PlanError ExecPlan) :
    RevmBackend (RevmBlock σ) ExecPlan where
  openBlock opp wallet := (c.openRevmBlock opp wallet).map fun block => (block, block.setupGasWei)
  planFor := planFor
  execPlan := c.execPlanRevm

end RevmContext

/-! ## The rules of the EVM -/

section Rules

variable {σ : Type}

/-- A transaction that takes its gas from its sender, and nothing else. -/
def PaysGas (env : BlockEnv) (tx : TxEnv) (cells : Address → Account σ) (gasUsed : ℕ)
    (writes : List (Address × Account σ)) : Prop :=
  (writeAll cells writes tx.caller).balance + gasUsed * effectiveGasPrice tx env =
    (cells tx.caller).balance

/-- An EVM makes no coins, keeps to the limit of the gas, and takes it from one who reverts. -/
structure EvmRules (evm : WhatIfEvm σ) (env : BlockEnv) : Prop where
  noMint : NoMint evm
  gasUsed_le : ∀ ⦃tx cells result writes⦄, evm.run tx cells = .ok (result, writes) →
    result.txGasUsed ≤ tx.gasLimit
  revert : ∀ ⦃tx cells result writes⦄, evm.run tx cells = .ok (result, writes) →
    result.isSuccess = false → tx.caller ≠ env.beneficiary →
      PaysGas env tx cells result.txGasUsed writes

/-- The chain that is replayed: the constructor of the executor pays nobody, and the searcher is no
    validator. -/
structure LocalChain (c : RevmContext σ) : Prop where
  rules : ∀ fork env, EvmRules (c.replayer.evm fork env) env
  constructor : ∀ ⦃creation nonce fork env cells result writes⦄,
    c.creationBytecode = some creation → (c.replayer.evm fork env).run
        (c.deployTx creation nonce fork env) cells = .ok (result, writes) →
      result.isSuccess = true → env.beneficiary ≠ c.searcher →
        PaysGas env (c.deployTx creation nonce fork env) cells result.txGasUsed writes
  coinbase : ∀ ⦃n block txs⦄, c.replayer.loadBlockData n = .ok (block, txs) →
    block.coinbase ≠ c.searcher
  searcher : c.searcher ≠ 0
  supply : ∀ ⦃n db⦄, c.replayer.createDbForBlock n = .ok db → supply db.cells < 2 ^ 126

variable {c : RevmContext σ} {env : BlockEnv} {db db' : Db Address (Account σ)} {tx : TxEnv}
  {runs : List WhatIfRun} {fork : ForkKey}

theorem gasPrice_eq (h : env.basefee < 2 ^ 64) : gasPrice env = env.basefee + priorityWei := by
  unfold gasPrice saturatingAdd priorityWei
  omega

/-- The priority fee leaves no slack below the price. -/
theorem effectiveGasPrice_eq (h : env.basefee < 2 ^ 64) (hprice : tx.gasPrice = gasPrice env)
    (hpriority : tx.gasPriorityFee = some priorityWei) :
    effectiveGasPrice tx env = gasPrice env := by
  unfold effectiveGasPrice
  rw [hpriority, hprice, gasPrice_eq h]
  exact min_self _

theorem gasWei_le {gasUsed : ℕ} (h : env.basefee < 2 ^ 64) (hgas : gasUsed ≤ 2 ^ 40) :
    gasUsed * gasPrice env ≤ 2 ^ 40 * 2 ^ 65 := by
  refine Nat.mul_le_mul hgas ?_
  rw [gasPrice_eq h]
  unfold priorityWei
  omega

theorem gasWei_eq {gasUsed : ℕ} (h : env.basefee < 2 ^ 64) (hgas : gasUsed ≤ 2 ^ 40) :
    saturatingMul 128 gasUsed (gasPrice env) = gasUsed * gasPrice env := by
  have hle := gasWei_le h hgas
  unfold saturatingMul
  omega

theorem gasWei_lt {gasUsed : ℕ} (h : env.basefee < 2 ^ 64) (hgas : gasUsed ≤ 2 ^ 40) :
    saturatingMul 128 gasUsed (gasPrice env) < 2 ^ 127 := by
  have hle := gasWei_le h hgas
  rw [gasWei_eq h hgas]
  omega

theorem execGas_le : execGas ≤ 2 ^ 40 := by decide

/-- A transaction has one run. -/
theorem runOne_eq_some (h : c.runOne fork env db tx = some (runs, db')) :
    ∃ run, runs = [run] ∧ measure (c.replayer.evm fork env) (buildCfgEnv c.replayer.chainId)
      env.beneficiary db 0 tx = .ok (run, db') := by
  unfold RevmContext.runOne executeWhatif at h
  have hloop : whatIfLoop (c.replayer.evm fork env) (buildCfgEnv c.replayer.chainId)
      env.beneficiary db [(tx, 0)] = .ok (runs, db') := by
    cases hx : whatIfLoop (c.replayer.evm fork env) (buildCfgEnv c.replayer.chainId)
        env.beneficiary db [(tx, 0)] with
    | error e =>
      rw [show [tx].zipIdx = [(tx, 0)] from rfl, hx] at h
      cases h
    | ok out =>
      rw [show [tx].zipIdx = [(tx, 0)] from rfl, hx] at h
      exact congrArg Except.ok (Option.some.inj h)
  obtain ⟨run, rest, db₁, hrun, hrest, rfl⟩ := whatIfLoop_cons hloop
  cases hrest
  exact ⟨run, rfl, hrun⟩

variable {opp : MevOpportunity} {wallet : ℕ} {plan : ExecPlan} {block : RevmBlock σ}
  {timestamp : ℕ}

/-- What a run says of the searcher is the change of the balance. -/
theorem balance_runOne (h : LocalChain c) (hne : env.beneficiary ≠ c.searcher)
    (hsupply : supply db.cells < 2 ^ 127) {run : WhatIfRun} {i : ℕ}
    (hrun : measure (c.replayer.evm fork env) (buildCfgEnv c.replayer.chainId)
      env.beneficiary db i tx = .ok (run, db')) :
    ((db.cells c.searcher).balance : ℤ) + run.deltaOf c.searcher = (db'.cells c.searcher).balance ∧
      supply db'.cells < 2 ^ 127 :=
  ⟨balance_measure (h.rules fork env).noMint hne.symm hsupply hrun,
    (supply_measure (h.rules fork env).noMint hrun).trans_lt hsupply⟩

/-- The state that an opportunity is opened in. -/
theorem position_spec (h : LocalChain c) (hpos : c.position opp = some (db, env, timestamp)) :
    supply db.cells < 2 ^ 126 ∧ env.beneficiary ≠ c.searcher ∧ env.basefee < 2 ^ 64 := by
  unfold RevmContext.position at hpos
  dsimp only at hpos
  split_ifs at hpos with hpending
  · obtain ⟨⟨block, txs⟩, hblock, hpos⟩ := Option.bind_eq_some_iff.mp hpos
    obtain ⟨db₀, hdb, hpos⟩ := Option.bind_eq_some_iff.mp hpos
    cases hpos
    exact ⟨h.supply (toOption_eq_some.mp hdb), h.coinbase (toOption_eq_some.mp hblock),
      Nat.mod_lt _ (Nat.two_pow_pos 64)⟩
  · split at hpos
    · rename_i block txs hblock
      obtain ⟨db₀, hdb, hpos⟩ := Option.bind_eq_some_iff.mp hpos
      have hdb := h.supply (toOption_eq_some.mp hdb)
      split_ifs at hpos with hbefore
      · cases hpos
        exact ⟨hdb, h.coinbase hblock, Nat.mod_lt _ (Nat.two_pow_pos 64)⟩
      · obtain ⟨⟨runs, db₁⟩, hruns, hpos⟩ := Option.bind_eq_some_iff.mp hpos
        cases hpos
        exact ⟨(supply_whatIfLoop (h.rules _ _).noMint (toOption_eq_some.mp hruns)).trans_lt hdb,
          h.coinbase hblock, Nat.mod_lt _ (Nat.two_pow_pos 64)⟩
    · obtain ⟨db₀, hdb, hpos⟩ := Option.bind_eq_some_iff.mp hpos
      cases hpos
      exact ⟨h.supply (toOption_eq_some.mp hdb), h.searcher.symm,
        Nat.mod_lt _ (Nat.two_pow_pos 64)⟩

/-- An open block: the deployment has succeeded, and its gas is what the setup costs. -/
theorem openRevmBlock_spec (hopen : c.openRevmBlock opp wallet = some block) :
    ∃ fork timestamp db₀ creation nonce run db,
      c.position opp = some (db₀, block.execEnv, timestamp) ∧
      c.creationBytecode = some creation ∧
      measure (c.replayer.evm fork block.execEnv) (buildCfgEnv c.replayer.chainId)
        block.execEnv.beneficiary (c.fundSearcher db₀ wallet) 0
        (c.deployTx creation nonce fork block.execEnv) = .ok (run, db) ∧
      run.status = true ∧ run.committed = true ∧ block.db = some db ∧
      block.setupGasWei = saturatingMul 128 run.gasUsed (gasPrice block.execEnv) := by
  unfold RevmContext.openRevmBlock at hopen
  obtain ⟨⟨db₀, env, timestamp⟩, hpos, hopen⟩ := Option.bind_eq_some_iff.mp hopen
  obtain ⟨creation, hcreation, hopen⟩ := Option.bind_eq_some_iff.mp hopen
  obtain ⟨⟨runs, db⟩, hruns, hopen⟩ := Option.bind_eq_some_iff.mp hopen
  obtain ⟨run, hhead, hopen⟩ := Option.bind_eq_some_iff.mp hopen
  obtain ⟨⟨⟩, hok, hopen⟩ := Option.bind_eq_some_iff.mp hopen
  obtain ⟨created, -, hopen⟩ := Option.bind_eq_some_iff.mp hopen
  obtain ⟨⟨⟩, -, hopen⟩ := Option.bind_eq_some_iff.mp hopen
  cases hopen
  obtain ⟨run', rfl, hrun⟩ := runOne_eq_some hruns
  obtain rfl := Option.some.inj hhead
  have hok := (Option.guard_eq_some' _).mp hok
  exact ⟨_, timestamp, db₀, creation, _, _, db, hpos, hcreation, hrun, hok.1, hok.2, rfl, rfl⟩

/-- The gas that a searcher pays. -/
theorem deltaOf_eq_neg (h : LocalChain c) (hne : env.beneficiary ≠ c.searcher)
    (hbase : env.basefee < 2 ^ 64) (hsupply : supply db.cells < 2 ^ 127)
    (hcaller : tx.caller = c.searcher) (hprice : tx.gasPrice = gasPrice env)
    (hpriority : tx.gasPriorityFee = some priorityWei) (hlimit : tx.gasLimit ≤ 2 ^ 40)
    {run : WhatIfRun} {i : ℕ} (hrun : measure (c.replayer.evm fork env)
      (buildCfgEnv c.replayer.chainId) env.beneficiary db i tx = .ok (run, db'))
    (hcommitted : run.committed = true)
    (hpays : ∀ ⦃result writes⦄, (c.replayer.evm fork env).run tx db.cells = .ok (result, writes) →
      result.isSuccess = run.status → PaysGas env tx db.cells result.txGasUsed writes) :
    run.deltaOf c.searcher = -(saturatingMul 128 run.gasUsed (gasPrice env) : ℕ) := by
  have hbalance := (balance_runOne h hne hsupply hrun).1
  rcases measure_cases hrun with ⟨rfl, -⟩ | ⟨result, writes, heffect, hcells, -, hrun⟩
  · cases hcommitted
  · have hgas := ((h.rules fork env).gasUsed_le heffect).trans hlimit
    have hpaid := hpays heffect (by rw [hrun])
    unfold PaysGas at hpaid
    rw [hcaller, effectiveGasPrice_eq hbase hprice hpriority, ← hcells] at hpaid
    have hused : run.gasUsed = result.txGasUsed := by rw [hrun]
    rw [hused, gasWei_eq hbase hgas]
    omega

/-! ## The wallet and the chain -/

/-- The wallet `w` is covered by an open block. With `exact`, it is what the searcher has. -/
structure Backed (c : RevmContext σ) (exact : Prop) (w : ℕ) (block : RevmBlock σ) : Prop where
  beneficiary : block.execEnv.beneficiary ≠ c.searcher
  basefee : block.execEnv.basefee < 2 ^ 64
  supply : ∀ db, block.db = some db → supply db.cells < 2 ^ 127
  le : ∀ db, block.db = some db → w ≤ (db.cells c.searcher).balance + block.setupGasWei
  eq : exact → ∀ db, block.db = some db → w = (db.cells c.searcher).balance + block.setupGasWei

theorem Backed.mono {exact exact' : Prop} {w : ℕ} (hblock : Backed c exact w block)
    (himp : exact' → exact) : Backed c exact' w block :=
  ⟨hblock.beneficiary, hblock.basefee, hblock.supply, hblock.le, fun h => hblock.eq (himp h)⟩

theorem deployGas_le (fork : ForkKey) (env : BlockEnv) : c.deployGas fork env ≤ 2 ^ 40 := by
  unfold RevmContext.deployGas
  split_ifs <;> omega

/-- What the wallet pays for an open block is its setup. -/
theorem backed_openRevmBlock {exact : Prop} (h : LocalChain c) (hwallet : wallet < 2 ^ 126)
    (hopen : c.openRevmBlock opp wallet = some block) : Backed c exact wallet block := by
  obtain ⟨fork, timestamp, db₀, creation, nonce, run, db, hpos, hcreation, hrun, hstatus,
    hcommitted, hdb, hsetup⟩ := openRevmBlock_spec hopen
  obtain ⟨hsupply₀, hne, hbase⟩ := position_spec h hpos
  have hfunded : supply (c.fundSearcher db₀ wallet).cells < 2 ^ 127 := by
    have hupdate := supply_update db₀.cells c.searcher
      { db₀.cells c.searcher with balance := wallet }
    unfold RevmContext.fundSearcher
    dsimp only at hupdate ⊢
    omega
  have hbalance₀ : ((c.fundSearcher db₀ wallet).cells c.searcher).balance = wallet := by
    simp [RevmContext.fundSearcher]
  obtain ⟨hbalance, hsupply⟩ := balance_runOne h hne hfunded hrun
  have hpaid := deltaOf_eq_neg h hne hbase hfunded (by rfl) (by rfl) (by rfl)
    (deployGas_le fork _) hrun hcommitted fun result writes heffect hresult =>
      h.constructor hcreation heffect (hresult.trans hstatus) hne
  rw [← hsetup, hbalance₀] at *
  have heq : wallet = (db.cells c.searcher).balance + block.setupGasWei := by omega
  refine ⟨hne, hbase, fun db' hdb' => ?_, fun db' hdb' => ?_, fun _ db' hdb' => ?_⟩ <;>
    obtain rfl := Option.some.inj (hdb.symm.trans hdb')
  · exact hsupply
  · exact heq.le
  · exact heq

/-- A failed attempt books its gas as its net. -/
def Charged (a : ExecAttempt) : Prop := a.reverted = true → a.netWei = -a.gasWei

theorem walletAfter_buildFailed (w : ℕ) : (failed .execBuildFailed).walletAfter w = w :=
  ExecAttempt.walletAfter_of_fail rfl nofun

theorem walletAfter_planError (e : PlanError) (w : ℕ) : (failed e.failure).walletAfter w = w :=
  ExecAttempt.walletAfter_of_fail rfl (by cases e <;> exact nofun)

/-- What a transaction at a plan does: the EVM stops, or the attempt books its only run. -/
theorem execPlanRevm_cases (c : RevmContext σ) (plan : ExecPlan) (hdb : block.db = some db) :
    (∃ block', c.execPlanRevm block plan = (none, block') ∧ block'.db = none ∧
      block'.execEnv = block.execEnv) ∨
    ∃ fork nonce run db' block',
      measure (c.replayer.evm fork block.execEnv) (buildCfgEnv c.replayer.chainId)
        block.execEnv.beneficiary db 0 (c.execTx block nonce plan) = .ok (run, db') ∧
      c.execPlanRevm block plan = (some (c.attemptOf block nonce plan run), block') ∧
      block'.db = some db' ∧ block'.execEnv = block.execEnv ∧
      block'.setupGasWei = block.setupGasWei := by
  unfold RevmContext.execPlanRevm
  rw [hdb]
  dsimp only
  cases hruns : c.runOne (RevmContext.fork block.stateBlock block.cfgTimestamp block.execEnv)
      block.execEnv db (c.execTx block (db.nonces c.searcher) plan) with
  | none => exact .inl ⟨_, rfl, rfl, rfl⟩
  | some out =>
    obtain ⟨runs, db'⟩ := out
    obtain ⟨run, rfl, hrun⟩ := runOne_eq_some hruns
    exact .inr ⟨_, _, run, db', _, hrun, rfl, rfl, rfl, rfl⟩

/-- The wallet follows the balance, as long as a reverted attempt books no less than it pays. -/
theorem walletAfter_covered {a : ExecAttempt} {w balance balance' : ℕ} (setup : ℕ)
    (hw : w < 2 ^ 126) (hfail : a.fail = none) (hgas : a.gasWei < 2 ^ 127)
    (hbalance : (balance : ℤ) + a.netWei = balance')
    (hreverted : a.status = false → a.netWei = -a.gasWei ∨ a.netWei = 0) :
    (w ≤ balance + setup → a.walletAfter w ≤ balance' + setup) ∧
      (Charged a → w = balance + setup → a.walletAfter w = balance' + setup) := by
  have hnet := a.netWei_mem.2
  cases hstatus : a.status with
  | true =>
    rw [ExecAttempt.walletAfter_of_ran hstatus hfail (by omega)]
    exact ⟨fun hle => by omega, fun _ heq => by omega⟩
  | false =>
    have hrev : a.reverted = true := by simp [ExecAttempt.reverted, hfail, hstatus]
    rw [ExecAttempt.walletAfter_of_reverted hrev hgas]
    have hreverted := hreverted hstatus
    refine ⟨fun hle => by omega, fun hcharged heq => ?_⟩
    have := hcharged hrev
    omega

theorem gasUsed_execTx_le (h : LocalChain c) {nonce i : ℕ} {run : WhatIfRun}
    (hrun : measure (c.replayer.evm fork block.execEnv) (buildCfgEnv c.replayer.chainId)
      block.execEnv.beneficiary db i (c.execTx block nonce plan) = .ok (run, db')) :
    run.gasUsed ≤ execGas := by
  rcases measure_cases hrun with ⟨rfl, -⟩ | ⟨result, writes, heffect, -, -, rfl⟩
  · exact le_rfl
  · exact (h.rules _ _).gasUsed_le heffect

/-- A plan that fails costs its gas, or nothing where the EVM rejects it. -/
theorem deltaOf_execTx (h : LocalChain c) (hne : block.execEnv.beneficiary ≠ c.searcher)
    (hbase : block.execEnv.basefee < 2 ^ 64) (hsupply : supply db.cells < 2 ^ 127)
    {nonce i : ℕ} {run : WhatIfRun}
    (hrun : measure (c.replayer.evm fork block.execEnv) (buildCfgEnv c.replayer.chainId)
      block.execEnv.beneficiary db i (c.execTx block nonce plan) = .ok (run, db'))
    (hstatus : run.status = false) :
    run.deltaOf c.searcher = -(saturatingMul 128 run.gasUsed (gasPrice block.execEnv) : ℕ) ∨
      run.deltaOf c.searcher = 0 := by
  cases hcommitted : run.committed with
  | true =>
    exact .inl (deltaOf_eq_neg h hne hbase hsupply (by rfl) (by rfl) (by rfl) execGas_le hrun
      hcommitted fun result writes heffect hresult =>
        (h.rules _ _).revert heffect (hresult.trans hstatus) hne.symm)
  | false =>
    rcases measure_cases hrun with ⟨rfl, -⟩ | ⟨result, writes, -, -, -, rfl⟩
    · exact .inr rfl
    · cases hcommitted

/-- An attempt at a plan keeps the wallet covered. -/
theorem backed_execPlanRevm {exact : Prop} {w : ℕ} (h : LocalChain c) (hw : w < 2 ^ 126)
    (hblock : Backed c exact w block)
    (hcharged : exact → Charged ((c.execPlanRevm block plan).1.getD (failed .execBuildFailed))) :
    Backed c exact
      (((c.execPlanRevm block plan).1.getD (failed .execBuildFailed)).walletAfter w)
      (c.execPlanRevm block plan).2 := by
  have hbase := hblock.basefee
  cases hdb : block.db with
  | none =>
    have hnone : c.execPlanRevm block plan = (none, block) := by
      unfold RevmContext.execPlanRevm
      rw [hdb]
    rw [hnone]
    exact (walletAfter_buildFailed w).symm ▸ hblock
  | some db =>
    obtain ⟨block', hexec, hdb', henv⟩ | ⟨fork, nonce, run, db', block', hrun, hexec, hdb', henv,
      hsetup⟩ := execPlanRevm_cases c plan hdb
    · rw [hexec]
      refine ⟨henv ▸ hblock.beneficiary, henv ▸ hbase, ?_, ?_, ?_⟩ <;> simp [hdb']
    · rw [hexec] at hcharged ⊢
      have hsupply := hblock.supply db hdb
      obtain ⟨hbalance, hsupply'⟩ := balance_runOne h hblock.beneficiary hsupply hrun
      have hgas := gasWei_lt hbase ((gasUsed_execTx_le h hrun).trans execGas_le)
      obtain ⟨hle, heq⟩ := walletAfter_covered (a := c.attemptOf block nonce plan run)
        block.setupGasWei hw rfl hgas hbalance
        (deltaOf_execTx h hblock.beneficiary hbase hsupply hrun)
      refine ⟨henv ▸ hblock.beneficiary, henv ▸ hbase, fun db₂ hdb₂ => ?_, fun db₂ hdb₂ => ?_,
        fun hexact db₂ hdb₂ => ?_⟩ <;> obtain rfl := Option.some.inj (hdb'.symm.trans hdb₂)
      · exact hsupply'
      · exact hsetup ▸ hle (hblock.le db hdb)
      · exact hsetup ▸ heq (hcharged hexact) (hblock.eq hexact db hdb)

/-- The prepared block covers the wallet. -/
def StateBacked (c : RevmContext σ) (exact : Prop) (w : ℕ) (s : RevmState (RevmBlock σ)) : Prop :=
  ∀ b p block, s.prepared = some (b, p, block) → Backed c exact w block

variable {planFor : MevOpportunity → Except PlanError ExecPlan} {s : RevmState (RevmBlock σ)}

theorem backed_prepare {exact : Prop} {s' : RevmState (RevmBlock σ)} (h : LocalChain c)
    (hwallet : wallet < 2 ^ 126) (hs : StateBacked c exact wallet s)
    (hprep : prepare (c.backend planFor) s opp wallet = some s') :
    StateBacked c exact wallet s' := by
  unfold prepare at hprep
  dsimp only at hprep
  split_ifs at hprep with hopen
  · split at hprep
    · rename_i block gas hblock
      obtain rfl := Option.some.inj hprep
      obtain ⟨block', hblock', heq⟩ := Option.map_eq_some_iff.mp hblock
      obtain ⟨rfl, rfl⟩ := Prod.mk.inj heq
      rintro b p block hprepared
      obtain ⟨-, -, rfl⟩ : opp.blockNumber = b ∧ pendingKind opp = p ∧ block' = block := by
        simpa using hprepared
      exact backed_openRevmBlock h hwallet hblock'
    · cases hprep
  · obtain rfl := Option.some.inj hprep
    exact hs

/-- A call of the local EVM keeps the wallet covered. -/
theorem backed_executeRevm {exact : Prop} (h : LocalChain c) (hwallet : wallet < 2 ^ 126)
    (hs : StateBacked c exact wallet s)
    (hcharged : exact → Charged (executeRevm (c.backend planFor) s opp wallet).1) :
    StateBacked c exact ((executeRevm (c.backend planFor) s opp wallet).1.walletAfter wallet)
      (executeRevm (c.backend planFor) s opp wallet).2 := by
  unfold executeRevm at hcharged ⊢
  cases hprep : prepare (c.backend planFor) s opp wallet with
  | none => exact (walletAfter_buildFailed wallet).symm ▸ hs
  | some s' =>
    have hs' := backed_prepare h hwallet hs hprep
    rw [hprep] at hcharged
    dsimp only at hcharged ⊢
    cases hplan : (c.backend planFor).planFor opp with
    | error e => exact (walletAfter_planError e wallet).symm ▸ hs'
    | ok plan =>
      rw [hplan] at hcharged
      dsimp only at hcharged ⊢
      cases hprepared : s'.prepared with
      | none => exact (walletAfter_buildFailed wallet).symm ▸ hs'
      | some t =>
        obtain ⟨b, p, block⟩ := t
        rw [hprepared] at hcharged
        dsimp only at hcharged ⊢
        rintro b' p' block' heq
        obtain ⟨-, -, rfl⟩ : b = b' ∧ p = p' ∧
            ((c.backend planFor).execPlan block plan).2 = block' := by simpa using heq
        exact backed_execPlanRevm h hwallet (hs' _ _ _ hprepared) hcharged

/-- The books of the calls of a pass whose cache was `cache₀`. -/
structure CallsBacked (c : RevmContext σ) (cache₀ : Cache) (w : ℕ)
    (s : (Cache × RevmState (RevmBlock σ)) × List Call) : Prop where
  cache : ∀ key, s.1.1[key]? ≠ none →
    cache₀[key]? ≠ none ∨ key ∈ s.2.map fun call => submitKey call.opp
  backed : StateBacked c (∀ call ∈ s.2, Charged call.attempt) w s.1.2

theorem callsBacked_call {cache₀ : Cache} {s : (Cache × RevmState (RevmBlock σ)) × List Call}
    (h : LocalChain c) (hwallet : wallet < 2 ^ 126) (hs : CallsBacked c cache₀ wallet s)
    (hnew : cache₀[submitKey opp]? = none)
    (hkey : submitKey opp ∉ s.2.map fun call => submitKey call.opp) :
    CallsBacked c cache₀
      ((recording (cached (executeRevm (c.backend planFor))) s opp wallet).1.walletAfter wallet)
      (recording (cached (executeRevm (c.backend planFor))) s opp wallet).2 := by
  have hmiss : s.1.1[submitKey opp]? = none := by
    by_contra hhit
    rcases hs.cache _ hhit with h | h
    · exact h hnew
    · exact hkey h
  have hrun : cached (executeRevm (c.backend planFor)) s.1 opp wallet =
      ((executeRevm (c.backend planFor) s.1.2 opp wallet).1,
        rememberAttempt s.1.1 (submitKey opp) (executeRevm (c.backend planFor) s.1.2 opp wallet).1,
        (executeRevm (c.backend planFor) s.1.2 opp wallet).2) := by
    unfold cached
    dsimp only
    rw [hmiss]
  unfold recording
  rw [hrun]
  constructor
  · intro key hhit
    dsimp only at hhit ⊢
    rw [List.map_append, List.mem_append]
    by_cases heq : submitKey opp = key
    · exact .inr (.inr (by simp [heq]))
    · have hold : s.1.1[key]? ≠ none := by
        unfold rememberAttempt at hhit
        split_ifs at hhit
        · rwa [Map.getElem?_insert_eq, if_neg heq] at hhit
        · exact hhit
      exact (hs.cache key hold).imp_right .inl
  · refine backed_executeRevm h hwallet (fun b p block hprepared => ?_) fun hcharged => ?_
    · exact (hs.backed b p block hprepared).mono fun hcharged call hcall =>
        hcharged call (List.mem_append_left _ hcall)
    · exact hcharged ⟨opp, wallet, _⟩ (by simp)

/-- The books of the calls so far, as long as no key is called twice and no wallet is too large. -/
def CallsOk (c : RevmContext σ) (cache₀ : Cache) (w : ℕ)
    (s : (Cache × RevmState (RevmBlock σ)) × List Call) : Prop :=
  (s.2.map fun call => submitKey call.opp).Nodup → (∀ call ∈ s.2, call.wallet < 2 ^ 126) →
    CallsBacked c cache₀ w s

theorem callsOk_step {cache₀ : Cache} {s : (Cache × RevmState (RevmBlock σ)) × List Call}
    (h : LocalChain c) (hnew : cache₀[submitKey opp]? = none)
    (hs : CallsOk c cache₀ wallet s) :
    CallsOk c cache₀
      ((recording (cached (executeRevm (c.backend planFor))) s opp wallet).1.walletAfter wallet)
      (recording (cached (executeRevm (c.backend planFor))) s opp wallet).2 := by
  intro hnodup hwallets
  have hlog : (recording (cached (executeRevm (c.backend planFor))) s opp wallet).2.2 =
      s.2 ++ [⟨opp, wallet, (cached (executeRevm (c.backend planFor)) s.1 opp wallet).1⟩] := rfl
  rw [hlog] at hwallets
  rw [hlog, List.map_append] at hnodup
  obtain ⟨hold, -, hdisjoint⟩ := List.nodup_append'.mp hnodup
  have hbacked := hs hold fun call hcall => hwallets call (List.mem_append_left _ hcall)
  exact callsBacked_call h (hwallets _ (List.mem_append_right _ (List.mem_singleton_self _)))
    hbacked hnew fun hmem => hdisjoint hmem (List.mem_singleton_self _)

/-- The opportunities that are called are among those of the pass, each at most as often. -/
theorem nodup_calls {ρ : Type*} {args : LedgerArgs} {mode : String} {run : Callback ρ} {s : ρ}
    (hkeys : (args.opps.map submitKey).Nodup) :
    ((args.policy.calls args.sim mode run s args.opps).map
      fun call => submitKey call.opp).Nodup := by
  obtain ⟨book, haccounts, -⟩ := execAccounts_calls args.policy args.sim mode run s args.opps
  have hsub := haccounts.order.map submitKey
  rw [List.map_map] at hsub
  exact hsub.nodup (((Grouping.inOrder_perm args.opps).map submitKey).nodup_iff.mpr hkeys)

/-- **Main theorem.** A pass whose keys are new runs every call in the local EVM. In the block that
    it has prepared the searcher has at least what the ledger says, up to the gas of the setup, and
    exactly that where every failed attempt has paid its gas. -/
theorem wallet_backed (h : LocalChain c) (args : LedgerArgs) (cache : Cache)
    (s : RevmState (RevmBlock σ)) (hkeys : (args.opps.map submitKey).Nodup)
    (hnew : ∀ opp ∈ args.opps, cache[submitKey opp]? = none)
    (hwallet : ∀ call ∈ args.policy.calls args.sim "revm"
      (cached (executeRevm (c.backend planFor))) (cache, {}) args.opps, call.wallet < 2 ^ 126)
    {b : ℕ} {p : Bool}
    (hprepared : (executeLedger (cache, s) (runRevm args (c.backend planFor))).2.2.prepared =
      some (b, p, block)) (hdb : block.db = some db) :
    (executeLedger (cache, s) (runRevm args (c.backend planFor))).1.endingGasWei ≤
        (db.cells c.searcher).balance + block.setupGasWei ∧
      ((∀ call ∈ args.policy.calls args.sim "revm" (cached (executeRevm (c.backend planFor)))
          (cache, {}) args.opps, Charged call.attempt) →
        (executeLedger (cache, s) (runRevm args (c.backend planFor))).1.endingGasWei =
          (db.cells c.searcher).balance + block.setupGasWei) := by
  let run := cached (executeRevm (c.backend planFor))
  let start : (Cache × RevmState (RevmBlock σ)) × List Call := ((cache, {}), [])
  have hstart : CallsOk c cache args.policy.startingGasWei start :=
    fun _ _ => ⟨fun key hkey => .inl hkey, fun b p block hnone => by cases hnone⟩
  have hok : CallsOk c cache _ (args.policy.applyExecuted args.sim "revm" (recording run) start
      args.opps).2 :=
    applyExecuted_induct_wallet (CallsOk c cache) hstart fun w s opp hopp hs =>
      callsOk_step h (hnew opp hopp) hs
  have hbacked := (hok (nodup_calls hkeys) hwallet).backed
  -- the pass is the one that records its calls
  have hrun : ∀ (s : (Cache × RevmState (RevmBlock σ)) × List Call) opp wallet,
      run s.1 opp wallet =
        ((recording run s opp wallet).1, (recording run s opp wallet).2.1) := fun _ _ _ => rfl
  have hend : executeLedger (cache, s) (runRevm args (c.backend planFor)) =
      ((args.policy.applyExecuted args.sim "revm" (recording run) start args.opps).1,
        (args.policy.applyExecuted args.sim "revm" (recording run) start args.opps).2.1) :=
    applyExecuted_map args.policy args.sim "revm" Prod.fst hrun start args.opps
  rw [hend] at hprepared ⊢
  have hblock := hbacked b p block hprepared
  exact ⟨hblock.le db hdb, fun hcharged => hblock.eq hcharged db hdb⟩

end Rules

/-- The account 1 of the small EVM searches. Its executor is the contract 7. -/
def coinContext : RevmContext Unit :=
  { replayer := coinReplayer
    chainId := 1
    searcher := 1
    withdrawer := 2
    weth := 3
    keccak256 := fun bytes => bytes.length
    creationBytecode := some [0x60]
    createAddress := fun _ _ => 7
    amsterdam := fun _ => false }

/-- A transaction that pays for its gas alone does so. -/
theorem paysGas_coinEvm {env : BlockEnv} {tx : TxEnv} {cells : Address → Account Unit}
    {result : ExecutionResult} {writes : List (Address × Account Unit)}
    (hrun : (coinEvm env).run tx cells = .ok (result, writes))
    (hwrites : tx.kind = none ∨ result.isSuccess = false) :
    PaysGas env tx cells result.txGasUsed writes := by
  obtain ⟨-, hused, hfee, heq⟩ := run_coinEvm hrun
  have hleft : writes =
      [(tx.caller, ⟨(cells tx.caller).balance - 21000 * effectiveGasPrice tx env, ()⟩)] := by
    unfold coinWrites at heq
    cases hkind : tx.kind with
    | none =>
      rw [hkind] at heq
      exact (Prod.mk.inj heq).2.symm
    | some a =>
      rw [hkind] at heq hwrites
      dsimp only at heq
      split_ifs at heq with hpays
      · have hstatus := (Prod.mk.inj heq).1
        rw [← hstatus] at hwrites
        simp at hwrites
      · exact (Prod.mk.inj heq).2.symm
  have hcaller : writeAll cells writes tx.caller =
      ⟨(cells tx.caller).balance - 21000 * effectiveGasPrice tx env, ()⟩ := by
    rw [hleft]
    exact Function.update_self ..
  unfold PaysGas
  rw [hcaller, hused]
  exact Nat.sub_add_cancel hfee

theorem localChain_coin : LocalChain coinContext where
  rules fork env :=
    { noMint := noMint_coinEvm env
      gasUsed_le := fun tx cells result writes hrun => by
        obtain ⟨hlimit, hused, -⟩ := run_coinEvm hrun
        exact hused.trans_le hlimit
      revert := fun tx cells result writes hrun hstatus _ => paysGas_coinEvm hrun (.inr hstatus) }
  constructor := fun creation nonce fork env cells result writes _ hrun _ _ =>
    paysGas_coinEvm hrun (.inl rfl)
  coinbase := by
    intro n block txs h
    unfold coinContext coinReplayer at h
    dsimp only at h
    split_ifs at h
    cases h
    decide
  searcher := by decide
  supply := by
    intro n db h
    cases h
    exact supply_coinDb.trans_lt (by decide)

/-- Two opportunities of block 5, whose transactions take the prize, and one of a block that cannot
    be read. -/
def coinArgs : LedgerArgs :=
  { policy := plainPolicy (10 ^ 17) 0
    opps := [("a", 5), ("b", 5), ("c", 6)].map fun (id, block) =>
      { routeOpp id 1 5000 100 with blockNumber := block }
    sim := .assumed }

/-- The plan of every opportunity: its gas is all that matters to the small EVM. -/
def coinPlan (_ : MevOpportunity) : Except PlanError ExecPlan := .ok (borrowPlan [])

theorem prepared_coin : ∃ block db,
    (executeLedger (∅, {}) (runRevm coinArgs (coinContext.backend coinPlan))).2.2.prepared =
      some (6, false, block) ∧ block.db = some db := by
  have hopen : ((executeLedger (∅, {}) (runRevm coinArgs
      (coinContext.backend coinPlan))).2.2.prepared.map fun t => (t.1, t.2.1, t.2.2.db.isSome)) =
        some (6, false, true) := by decide +kernel
  obtain ⟨⟨b, p, block⟩, hprepared, hsome⟩ := Option.map_eq_some_iff.mp hopen
  obtain ⟨rfl, hrest⟩ := Prod.mk.inj hsome
  obtain ⟨rfl, hdb⟩ := Prod.mk.inj hrest
  obtain ⟨db, hdb⟩ := Option.isSome_iff_exists.mp hdb
  exact ⟨block, db, hprepared, hdb⟩

/-- Two attempts revert, and the last one takes the prize. -/
theorem wallet_backed_prize :
    ((executeLedger (∅, {}) (runRevm coinArgs (coinContext.backend coinPlan))).1.execOk,
      (executeLedger (∅, {}) (runRevm coinArgs (coinContext.backend coinPlan))).1.execRevert) =
        (1, 2) ∧
      ∃ block db,
        (executeLedger (∅, {}) (runRevm coinArgs (coinContext.backend coinPlan))).2.2.prepared =
          some (6, false, block) ∧ block.db = some db ∧
        (executeLedger (∅, {}) (runRevm coinArgs (coinContext.backend coinPlan))).1.endingGasWei =
          (db.cells coinContext.searcher).balance + block.setupGasWei := by
  obtain ⟨block, db, hprepared, hdb⟩ := prepared_coin
  refine ⟨by decide +kernel, block, db, hprepared, hdb, ?_⟩
  exact (wallet_backed localChain_coin coinArgs ∅ {} (by decide +kernel) (by simp)
    (by decide +kernel) hprepared hdb).2 (by unfold Charged; decide +kernel)

end MevScout.Exec
