import MevScout.Common.Int
import MevScout.Common.Run
import MevScout.Replay.Skipped

/-!
# What-if runs

Model of `core/src/replay/whatif.rs`. Transactions are run one after another, and for each of them
the changes of the balances are measured against the state before it. The EVM and the state are
those of `Replay/Replayer`, with accounts as cells; its answers, also the fork of a block, are
parameters.

Results:
* `deltaOf_measure`: what a run says of an account is the change of its balance;
* `sum_deltaOf`: the changes of an account over all runs add up to that between first and last;
* `whatIfRealTxs_eq`: a pass that measures some transactions of a block measures them as a pass
  that measures all.
-/

namespace MevScout.Replay

/-! ## The EVM -/

/-- An account: its balance, and what else it holds. -/
structure Account (σ : Type) where
  balance : ℕ
  rest : σ

/-- Model of `BlockEnv`, without what the fork decides. -/
structure BlockEnv where
  number : ℕ
  beneficiary : Address
  timestamp : ℕ
  gasLimit : ℕ
  basefee : ℕ
  difficulty : ℕ
  prevrandao : Option B256

/-- What `build_cfg_env` chooses the fork by. -/
structure ForkKey where
  number : ℕ
  timestamp : ℕ
  mixHash : B256

/-- An EVM over accounts. What a transaction leaves is a map, and `created` is the address of the
    contract that it deploys. -/
structure WhatIfEvm (σ : Type) extends Evm Address (Account σ) where
  created : TxEnv → (Address → Account σ) → Option Address
  run_nodup : ∀ {env : TxEnv} {cells : Address → Account σ} {result : ExecutionResult}
    {writes : List (Address × Account σ)}, run env cells = .ok (result, writes) →
      (writes.map Prod.fst).Nodup

/-- Model of `build_block_env` (`replayer.rs`, lines 480–498). -/
def buildBlockEnv (block : BlockData) : BlockEnv :=
  { number := block.number
    beneficiary := block.coinbase
    timestamp := block.timestamp
    gasLimit := block.gasLimit
    basefee := (block.baseFeePerGas.getD 0) % 2 ^ 64
    difficulty := block.difficulty
    prevrandao := some block.mixHash }

/-- The fork of a block. -/
def forkKey (block : BlockData) : ForkKey := ⟨block.number, block.timestamp, block.mixHash⟩

/-- What a transaction pays for its gas. -/
def effectiveGasPrice (tx : TxEnv) (env : BlockEnv) : ℕ :=
  match tx.gasPriorityFee with
  | none => tx.gasPrice
  | some priority => min tx.gasPrice (env.basefee + priority)

/-! ## Runs -/

/-- A change that fits `i128`. -/
def FitsI128 (d : ℤ) : Prop := -2 ^ 127 ≤ d ∧ d < 2 ^ 127

/-- Model of `WhatIfRun` (lines 42–58). -/
structure WhatIfRun where
  index : ℕ
  status : Bool
  gasUsed : ℕ
  committed : Bool
  deltas : List (Address × ℤ)
  created : Option Address
  deltas_fit : ∀ d ∈ deltas, FitsI128 d.2

namespace WhatIfRun

/-- Model of `delta_of` (lines 69–75). -/
def deltaOf (run : WhatIfRun) (addr : Address) : ℤ :=
  ((run.deltas.find? (·.1 = addr)).map Prod.snd).getD 0

theorem deltaOf_fits (run : WhatIfRun) (addr : Address) : FitsI128 (run.deltaOf addr) := by
  unfold deltaOf
  cases h : run.deltas.find? (·.1 = addr) with
  | none => exact ⟨by decide, by decide⟩
  | some d => exact run.deltas_fit d (List.mem_of_find?_eq_some h)

/-- A transaction that the EVM rejects (lines 138–145). -/
def degraded (i gasLimit : ℕ) : WhatIfRun :=
  { index := i, status := false, gasUsed := gasLimit, committed := false, deltas := []
    created := none, deltas_fit := nofun }

end WhatIfRun

/-- Model of `delta_i128` (lines 192–208). -/
def deltaI128 (pre post : ℕ) : ℤ :=
  if pre ≤ post then (if 2 ^ 127 - 1 < post - pre then 2 ^ 127 - 1 else (post - pre : ℕ))
  else if 2 ^ 127 - 1 < pre - post then -2 ^ 127 else -(pre - post : ℕ)

theorem deltaI128_fits (pre post : ℕ) : FitsI128 (deltaI128 pre post) := by
  unfold deltaI128 FitsI128
  split_ifs <;> omega

section Model

variable {σ : Type} (evm : WhatIfEvm σ) (cfg : CfgEnv) (beneficiary : Address)

/-- The changes of balances (lines 152–163). The accounts that a transaction has touched are in
    memory, so that their balances are read there. -/
def deltas (cells : Address → Account σ) (state : List (Address × Account σ)) :
    List (Address × ℤ) :=
  state.filterMap fun (addr, acc) =>
    if addr = beneficiary then none
    else
      let d := deltaI128 (cells addr).balance acc.balance
      if d ≠ 0 then some (addr, d) else none

theorem deltas_fit (cells : Address → Account σ) (state : List (Address × Account σ)) :
    ∀ d ∈ deltas beneficiary cells state, FitsI128 d.2 := by
  intro d hd
  obtain ⟨w, -, hw⟩ := List.mem_filterMap.mp hd
  dsimp only at hw
  split_ifs at hw
  obtain rfl := Option.some.inj hw
  exact deltaI128_fits _ _

/-- The body of both loops for a transaction that is measured (lines 129–173 and 277–331). -/
def measure (db : Db Address (Account σ)) (i : ℕ) (env : TxEnv) :
    Except String (WhatIfRun × Db Address (Account σ)) :=
  match evm.effect cfg db env with
  | .error (.database message) => .error message
  | .error (.transaction _) => .ok (.degraded i env.gasLimit, db)
  | .ok (result, writes) =>
    .ok ({ index := i
           status := result.isSuccess
           gasUsed := result.txGasUsed
           committed := true
           deltas := deltas beneficiary db.cells writes
           created := evm.created env db.cells
           deltas_fit := deltas_fit beneficiary db.cells writes },
      (evm.transactCommit cfg db env).2)

/-- The loop of `execute_whatif` (lines 128–174). -/
def whatIfLoop (db : Db Address (Account σ)) :
    List (TxEnv × ℕ) → Except String (List WhatIfRun × Db Address (Account σ))
  | [] => .ok ([], db)
  | (env, i) :: txs => do
    let (run, db) ← measure evm cfg beneficiary db i env
    let (runs, db) ← whatIfLoop db txs
    return (run :: runs, db)

/-- Model of `execute_whatif` (lines 113–177). -/
def executeWhatif (db : Db Address (Account σ)) (txs : List TxEnv) :
    Except String (List WhatIfRun × Db Address (Account σ)) :=
  whatIfLoop evm cfg beneficiary db txs.zipIdx

/-- The loop of `what_if_real_txs` (lines 263–331). -/
def realTxsLoop (chainId : ℕ) (want : Finset ℕ) (db : Db Address (Account σ)) :
    List (TxData × ℕ) → Except String (List (ℕ × WhatIfRun))
  | [] => .ok []
  | (tx, i) :: txs =>
    let env := txDataToTxEnv chainId tx
    if i ∈ want then do
      let (run, db) ← measure evm cfg beneficiary db i env
      let runs ← realTxsLoop chainId (want.erase i) db txs
      return (i, run) :: runs
    else
      match evm.transactCommit cfg db env with
      | (.error (.database message), _) => .error message
      | (_, db) => realTxsLoop chainId want db txs

end Model

/-- What the runs of a block read. -/
structure WhatIfReplayer (σ : Type) where
  chainId : ℕ
  loadBlockData : ℕ → Except String (BlockData × List TxData)
  createDbForBlock : ℕ → Except String (Db Address (Account σ))
  evm : ForkKey → BlockEnv → WhatIfEvm σ

namespace WhatIfReplayer

variable {σ : Type} (r : WhatIfReplayer σ)

/-- The EVM of a block. -/
def evmOf (block : BlockData) : WhatIfEvm σ := r.evm (forkKey block) (buildBlockEnv block)

/-- Model of `what_if` (lines 218–232). -/
def whatIf (blockNum : ℕ) (db : Db Address (Account σ)) (txs : List TxEnv) :
    Except String (List WhatIfRun) := do
  let (block, _) ← r.loadBlockData blockNum
  (executeWhatif (r.evmOf block) (buildCfgEnv r.chainId) (buildBlockEnv block).beneficiary db
    txs).map Prod.fst

/-- Model of `what_if_from_block_start` (lines 235–242). -/
def whatIfFromBlockStart (blockNum : ℕ) (txs : List TxEnv) : Except String (List WhatIfRun) := do
  let db ← r.createDbForBlock blockNum
  r.whatIf blockNum db txs

/-- Model of `what_if_real_txs` (lines 249–333). -/
def whatIfRealTxs (blockNum : ℕ) (indices : List ℕ) : Except String (List (ℕ × WhatIfRun)) := do
  let (block, txs) ← r.loadBlockData blockNum
  let db ← r.createDbForBlock blockNum
  realTxsLoop (r.evmOf block) (buildCfgEnv r.chainId) block.coinbase r.chainId indices.toFinset db
    txs.zipIdx

end WhatIfReplayer

/-! ## Changes of balances -/

section Changes

variable {σ : Type} {evm : WhatIfEvm σ} {cfg : CfgEnv} {beneficiary addr : Address}
  {cells : Address → Account σ} {db db' : Db Address (Account σ)} {env : TxEnv} {i : ℕ}
  {run : WhatIfRun} {runs : List WhatIfRun}

theorem deltaI128_self (n : ℕ) : deltaI128 n n = 0 := by
  simp [deltaI128]

theorem deltaI128_of_lt {pre post : ℕ} (hpre : pre < 2 ^ 127) (hpost : post < 2 ^ 127) :
    deltaI128 pre post = post - pre := by
  unfold deltaI128
  split_ifs <;> omega

/-- The account that a map of writes leaves. -/
theorem writeAll_eq_find {state : List (Address × Account σ)} (h : (state.map Prod.fst).Nodup) :
    writeAll cells state addr = ((state.find? (·.1 = addr)).map Prod.snd).getD (cells addr) := by
  induction state generalizing cells with
  | nil => rfl
  | cons w state ih =>
    obtain ⟨hw, hstate⟩ := List.nodup_cons.mp h
    show writeAll (Function.update cells w.1 w.2) state addr = _
    by_cases haddr : w.1 = addr
    · subst haddr
      rw [writeAll_of_notMem hw, List.find?_cons_of_pos (by simp)]
      simp
    · rw [ih hstate, List.find?_cons_of_neg (by simpa using haddr),
        Function.update_of_ne (Ne.symm haddr)]

theorem find_deltas {state : List (Address × Account σ)} (hne : addr ≠ beneficiary)
    (h : (state.map Prod.fst).Nodup) :
    (((deltas beneficiary cells state).find? (·.1 = addr)).map Prod.snd).getD 0 =
      deltaI128 (cells addr).balance (writeAll cells state addr).balance := by
  rw [writeAll_eq_find h]
  induction state with
  | nil => simp [deltas, deltaI128_self]
  | cons w state ih =>
    obtain ⟨hw, hstate⟩ := List.nodup_cons.mp h
    have ih := ih hstate
    have hcons : deltas beneficiary cells (w :: state) =
        deltas beneficiary cells [w] ++ deltas beneficiary cells state := by
      simp only [deltas, ← List.filterMap_append]
      rfl
    rw [hcons, List.find?_append]
    by_cases haddr : w.1 = addr
    · -- the account itself, which the rest does not have
      subst haddr
      have hrest : state.find? (·.1 = w.1) = none := by
        rw [List.find?_eq_none]
        intro v hv hkey
        exact hw (of_decide_eq_true hkey ▸ List.mem_map_of_mem hv)
      rw [hrest, Option.map_none, Option.getD_none, deltaI128_self] at ih
      rw [List.find?_cons_of_pos (by simp)]
      by_cases hzero : deltaI128 (cells w.1).balance w.2.balance = 0
      · have hnil : deltas beneficiary cells [w] = [] := by simp [deltas, hzero]
        simpa [hnil, hzero] using ih
      · have hone : deltas beneficiary cells [w] =
            [(w.1, deltaI128 (cells w.1).balance w.2.balance)] := by simp [deltas, hne, hzero]
        simp [hone]
    · have hnone : (deltas beneficiary cells [w]).find? (·.1 = addr) = none := by
        rw [List.find?_eq_none]
        intro d hd
        simp only [deltas, List.filterMap_cons, List.filterMap_nil] at hd
        split_ifs at hd <;> simp_all
      rw [hnone, Option.none_or, ih, List.find?_cons_of_neg (by simpa using haddr)]

theorem run_of_effect {result : ExecutionResult} {writes : List (Address × Account σ)}
    (h : evm.effect cfg db env = .ok (result, writes)) :
    evm.run env db.cells = .ok (result, writes) := by
  unfold Evm.effect at h
  split_ifs at h
  exact h

/-- What a measured transaction is: it is rejected and leaves the state, or it is executed. -/
theorem measure_cases (h : measure evm cfg beneficiary db i env = .ok (run, db')) :
    (run = .degraded i env.gasLimit ∧ db' = db) ∨
    ∃ result writes, evm.run env db.cells = .ok (result, writes) ∧
      db'.cells = writeAll db.cells writes ∧
      db'.nonces = Function.update db.nonces env.caller (db.nonces env.caller + 1) ∧
      run = ⟨i, result.isSuccess, result.txGasUsed, true, deltas beneficiary db.cells writes,
        evm.created env db.cells, deltas_fit beneficiary db.cells writes⟩ := by
  unfold measure at h
  split at h
  · cases h
  · cases h
    exact .inl ⟨rfl, rfl⟩
  · rename_i result writes heffect
    unfold Evm.transactCommit at h
    rw [heffect] at h
    cases h
    exact .inr ⟨result, writes, run_of_effect heffect, rfl, rfl, rfl⟩

/-- What a run says of an account, the beneficiary apart, is the change of its balance. -/
theorem deltaOf_measure (hne : addr ≠ beneficiary)
    (h : measure evm cfg beneficiary db i env = .ok (run, db')) :
    run.deltaOf addr = deltaI128 (db.cells addr).balance (db'.cells addr).balance := by
  rcases measure_cases h with ⟨rfl, rfl⟩ | ⟨result, writes, hrun, hcells, -, rfl⟩
  · rw [deltaI128_self]
    rfl
  · rw [hcells]
    exact find_deltas hne (evm.run_nodup hrun)

/-- The sum of all balances. -/
def supply (cells : Address → Account σ) : ℕ := ∑ a, (cells a).balance

/-- No transaction makes coins. -/
def NoMint (evm : WhatIfEvm σ) : Prop :=
  ∀ ⦃env cells result writes⦄, evm.run env cells = .ok (result, writes) →
    supply (writeAll cells writes) ≤ supply cells

theorem balance_le_supply (cells : Address → Account σ) (a : Address) :
    (cells a).balance ≤ supply cells :=
  Finset.single_le_sum (f := fun a => (cells a).balance) (fun _ _ => Nat.zero_le _)
    (Finset.mem_univ a)

theorem supply_update (cells : Address → Account σ) (a : Address) (acc : Account σ) :
    supply (Function.update cells a acc) + (cells a).balance = supply cells + acc.balance := by
  have hrest : ∑ x ∈ Finset.univ.erase a, (Function.update cells a acc x).balance =
      ∑ x ∈ Finset.univ.erase a, (cells x).balance :=
    Finset.sum_congr rfl fun x hx => by rw [Function.update_of_ne (Finset.ne_of_mem_erase hx)]
  unfold supply
  rw [← Finset.add_sum_erase _ _ (Finset.mem_univ a), hrest, Function.update_self,
    ← Finset.add_sum_erase _ (fun x => (cells x).balance) (Finset.mem_univ a)]
  omega

theorem supply_update_le (cells : Address → Account σ) (a : Address) (acc : Account σ) :
    supply (Function.update cells a acc) ≤ supply cells + acc.balance := by
  have := supply_update cells a acc
  omega

theorem supply_measure (hevm : NoMint evm)
    (h : measure evm cfg beneficiary db i env = .ok (run, db')) :
    supply db'.cells ≤ supply db.cells := by
  rcases measure_cases h with ⟨-, rfl⟩ | ⟨result, writes, hrun, hcells, -, -⟩
  · exact le_rfl
  · rw [hcells]
    exact hevm hrun

theorem whatIfLoop_cons {txs : List (TxEnv × ℕ)}
    (h : whatIfLoop evm cfg beneficiary db ((env, i) :: txs) = .ok (runs, db')) :
    ∃ run rest db₁, measure evm cfg beneficiary db i env = .ok (run, db₁) ∧
      whatIfLoop evm cfg beneficiary db₁ txs = .ok (rest, db') ∧ runs = run :: rest := by
  unfold whatIfLoop at h
  obtain ⟨⟨run, db₁⟩, hrun, h⟩ := bind_eq_ok.mp h
  obtain ⟨⟨rest, db₂⟩, hrest, h⟩ := bind_eq_ok.mp h
  cases h
  exact ⟨run, rest, db₁, hrun, hrest, rfl⟩

/-- Where the supply fits `i128`, a run tells the change of a balance exactly. -/
theorem balance_measure (hevm : NoMint evm) (hne : addr ≠ beneficiary)
    (hdb : supply db.cells < 2 ^ 127)
    (h : measure evm cfg beneficiary db i env = .ok (run, db')) :
    ((db.cells addr).balance : ℤ) + run.deltaOf addr = (db'.cells addr).balance := by
  have hdb' := (supply_measure hevm h).trans_lt hdb
  rw [deltaOf_measure hne h, deltaI128_of_lt ((balance_le_supply _ _).trans_lt hdb)
    ((balance_le_supply _ _).trans_lt hdb')]
  omega

theorem supply_whatIfLoop (hevm : NoMint evm) {txs : List (TxEnv × ℕ)}
    (h : whatIfLoop evm cfg beneficiary db txs = .ok (runs, db')) :
    supply db'.cells ≤ supply db.cells := by
  induction txs generalizing db runs with
  | nil =>
    cases h
    exact le_rfl
  | cons tx txs ih =>
    obtain ⟨env, i⟩ := tx
    obtain ⟨run, rest, db₁, hrun, hrest, -⟩ := whatIfLoop_cons h
    exact (ih hrest).trans (supply_measure hevm hrun)

theorem sum_whatIfLoop (hevm : NoMint evm) (hne : addr ≠ beneficiary)
    {txs : List (TxEnv × ℕ)} (hdb : supply db.cells < 2 ^ 127)
    (h : whatIfLoop evm cfg beneficiary db txs = .ok (runs, db')) :
    ((db.cells addr).balance : ℤ) + (runs.map (·.deltaOf addr)).sum = (db'.cells addr).balance := by
  induction txs generalizing db runs with
  | nil =>
    cases h
    simp
  | cons tx txs ih =>
    obtain ⟨env, i⟩ := tx
    obtain ⟨run, rest, db₁, hrun, hrest, rfl⟩ := whatIfLoop_cons h
    have hstep := balance_measure hevm hne hdb hrun
    have hsum := ih ((supply_measure hevm hrun).trans_lt hdb) hrest
    rw [List.map_cons, List.sum_cons]
    omega

/-- **Main theorem.** However many transactions are rejected or revert in between, the changes of an
    account over all runs of a bundle add up to the change of its balance. -/
theorem sum_deltaOf (hevm : NoMint evm) (hne : addr ≠ beneficiary)
    (hdb : supply db.cells < 2 ^ 127) {txs : List TxEnv}
    (h : executeWhatif evm cfg beneficiary db txs = .ok (runs, db')) :
    ((db.cells addr).balance : ℤ) + (runs.map (·.deltaOf addr)).sum = (db'.cells addr).balance :=
  sum_whatIfLoop hevm hne hdb h

end Changes

/-- What a contract pays. -/
def prize : ℕ := 10 ^ 15

/-- The writes of a transaction: a contract pays its prize to whom calls it, as long as it can. -/
def coinWrites (env : BlockEnv) (tx : TxEnv) (cells : Address → Account Unit) :
    Bool × List (Address × Account Unit) :=
  let left := (cells tx.caller).balance - 21000 * effectiveGasPrice tx env
  match tx.kind with
  | none => (true, [(tx.caller, ⟨left, ()⟩)])
  | some a =>
    if a ≠ tx.caller ∧ prize ≤ (cells a).balance then
      (true, [(tx.caller, ⟨left + prize, ()⟩), (a, ⟨(cells a).balance - prize, ()⟩)])
    else (false, [(tx.caller, ⟨left, ()⟩)])

/-- An EVM whose contracts hold coins. A creation deploys the contract 7. -/
def coinEvm (env : BlockEnv) : WhatIfEvm Unit where
  run tx cells :=
    if (cells tx.caller).balance < tx.gasLimit * effectiveGasPrice tx env ∨ tx.gasLimit < 21000 then
      .error (.transaction "funds")
    else
      .ok (⟨(coinWrites env tx cells).1, 21000, [], some []⟩, (coinWrites env tx cells).2)
  reads tx _ := {a | a = tx.caller ∨ tx.kind = some a}
  run_congr tx cells cells' h := by
    have hcaller := h tx.caller (.inl rfl)
    have hwrites : coinWrites env tx cells' = coinWrites env tx cells := by
      unfold coinWrites
      rw [hcaller]
      cases hkind : tx.kind with
      | none => rfl
      | some a => dsimp only; rw [h a (.inr hkind)]
    rw [hcaller, hwrites]
  created tx _ := if tx.kind = none then some 7 else none
  run_nodup {tx cells result writes} h := by
    split_ifs at h
    cases h
    unfold coinWrites
    split
    · simp
    · split_ifs with hpays
      · simpa using hpays.1.symm
      · simp

theorem run_coinEvm {env : BlockEnv} {tx : TxEnv} {cells : Address → Account Unit}
    {result : ExecutionResult} {writes : List (Address × Account Unit)}
    (h : (coinEvm env).run tx cells = .ok (result, writes)) :
    21000 ≤ tx.gasLimit ∧ result.txGasUsed = 21000 ∧
      21000 * effectiveGasPrice tx env ≤ (cells tx.caller).balance ∧
      coinWrites env tx cells = (result.isSuccess, writes) := by
  unfold coinEvm at h
  dsimp only at h
  split_ifs at h with hfunds
  cases h
  push Not at hfunds
  exact ⟨hfunds.2, rfl, (Nat.mul_le_mul_right _ hfunds.2).trans hfunds.1, rfl⟩

/-- Its transactions pay their gas to nobody, and a prize goes from one account to another. -/
theorem noMint_coinEvm (env : BlockEnv) : NoMint (coinEvm env) := by
  intro tx cells result writes h
  obtain ⟨-, -, hfee, hwrites⟩ := run_coinEvm h
  have hcaller := fun balance => supply_update cells tx.caller ⟨balance, ()⟩
  have hsender := balance_le_supply cells tx.caller
  have hpay : supply (Function.update cells tx.caller
      ⟨(cells tx.caller).balance - 21000 * effectiveGasPrice tx env, ()⟩) ≤ supply cells := by
    have := hcaller ((cells tx.caller).balance - 21000 * effectiveGasPrice tx env)
    dsimp only at this
    omega
  unfold coinWrites at hwrites
  cases hkind : tx.kind with
  | none =>
    rw [hkind] at hwrites
    obtain ⟨-, rfl⟩ := Prod.mk.inj hwrites
    exact hpay
  | some a =>
    rw [hkind] at hwrites
    dsimp only at hwrites
    split_ifs at hwrites with hpays
    · obtain ⟨-, rfl⟩ := Prod.mk.inj hwrites
      have hprize := hcaller ((cells tx.caller).balance - 21000 * effectiveGasPrice tx env + prize)
      have hcontract := supply_update (Function.update cells tx.caller
        ⟨(cells tx.caller).balance - 21000 * effectiveGasPrice tx env + prize, ()⟩) a
        ⟨(cells a).balance - prize, ()⟩
      rw [Function.update_of_ne hpays.1] at hcontract
      dsimp only at hprize hcontract
      refine Nat.le_of_add_le_add_right (b := (cells a).balance) (hcontract.trans_le ?_)
      omega
    · obtain ⟨-, rfl⟩ := Prod.mk.inj hwrites
      exact hpay

/-- The account 1 has 10 ^ 9, and the contract 7 has one prize. -/
def coinDb : Db Address (Account Unit) :=
  { nonces := fun _ => 0
    cells := Function.update (Function.update (fun _ => ⟨0, ()⟩) 1 ⟨10 ^ 9, ()⟩) 7 ⟨prize, ()⟩ }

theorem supply_coinDb : supply coinDb.cells ≤ 0 + 10 ^ 9 + prize := by
  have hzero : supply (fun _ : Address => (⟨0, ()⟩ : Account Unit)) = 0 := Finset.sum_const_zero
  exact (supply_update_le _ _ _).trans (Nat.add_le_add_right
    ((supply_update_le _ _ _).trans (Nat.add_le_add_right hzero.le _)) _)

/-- A block whose base fee is 10. -/
def coinBlock : BlockData :=
  { number := 5, hash := 0, timestamp := 50, baseFeePerGas := some 10, gasLimit := 30000000
    gasUsed := 0, coinbase := 9, difficulty := 0, mixHash := 0 }

/-- A call of the contract 7 by the account 1. -/
def coinCall (nonce gasLimit : ℕ) : TxEnv :=
  { txType := 2, caller := 1, kind := some 7, value := 0, data := [], gasLimit, gasPrice := 12
    gasPriorityFee := some 1, nonce, accessList := [], chainId := some 1, authorizationList := [] }

/-- The first call gets the prize, the second reverts, and the third is rejected. -/
theorem sum_deltaOf_prize :
    ∃ runs db', executeWhatif (coinEvm (buildBlockEnv coinBlock)) (buildCfgEnv 1) 9 coinDb
        [coinCall 0 21000, coinCall 1 21000, coinCall 1 21000] = .ok (runs, db') ∧
      runs.map (fun run => (run.status, run.deltaOf 1)) =
        [(true, 10 ^ 15 - 231000), (false, -231000), (false, 0)] ∧
      ((coinDb.cells 1).balance : ℤ) + (runs.map (·.deltaOf 1)).sum = (db'.cells 1).balance := by
  have hok : ((executeWhatif (coinEvm (buildBlockEnv coinBlock)) (buildCfgEnv 1) 9 coinDb
      [coinCall 0 21000, coinCall 1 21000, coinCall 1 21000]).map fun out =>
        out.1.map fun run => (run.status, run.deltaOf 1)).toOption =
      some [(true, 10 ^ 15 - 231000), (false, -231000), (false, 0)] := by
    decide
  cases h : executeWhatif (coinEvm (buildBlockEnv coinBlock)) (buildCfgEnv 1) 9 coinDb
      [coinCall 0 21000, coinCall 1 21000, coinCall 1 21000] with
  | error e =>
    rw [h] at hok
    cases hok
  | ok out =>
    rw [h] at hok
    exact ⟨out.1, out.2, rfl, Option.some.inj hok,
      sum_deltaOf (noMint_coinEvm _) (by decide) (supply_coinDb.trans_lt (by decide)) h⟩

/-! ## Some transactions of a block -/

section Real

variable {σ : Type} {evm : WhatIfEvm σ} {cfg : CfgEnv} {beneficiary : Address}
  {db db' : Db Address (Account σ)} {env : TxEnv} {i chainId : ℕ} {run : WhatIfRun}

theorem toOption_eq_some {ε α : Type} {x : Except ε α} {a : α} :
    x.toOption = some a ↔ x = .ok a := by
  cases x with
  | error e => exact iff_of_false nofun nofun
  | ok b => simp [Except.toOption]

theorem toOption_map {ε α β : Type} (f : α → β) (x : Except ε α) :
    (x.map f).toOption = x.toOption.map f := by
  cases x <;> rfl

theorem index_measure (h : measure evm cfg beneficiary db i env = .ok (run, db')) :
    run.index = i := by
  rcases measure_cases h with ⟨rfl, -⟩ | ⟨result, writes, -, -, -, rfl⟩ <;> rfl

/-- The state after a transaction, measured or not. -/
theorem measure_commit : ((measure evm cfg beneficiary db i env).map Prod.snd).toOption =
    match evm.transactCommit cfg db env with
    | (.error (.database _), _) => none
    | (_, db) => some db := by
  unfold measure Evm.transactCommit
  rcases evm.effect cfg db env with (e | e) | ⟨result, writes⟩ <;> rfl

/-- A transaction that is not wanted. -/
theorem realTxsLoop_cons_of_notMem {want : Finset ℕ} {tx : TxData} {txs : List (TxData × ℕ)}
    (hi : i ∉ want) : (realTxsLoop evm cfg beneficiary chainId want db ((tx, i) :: txs)).toOption =
      ((measure evm cfg beneficiary db i (txDataToTxEnv chainId tx)).map Prod.snd).toOption.bind
        fun db => (realTxsLoop evm cfg beneficiary chainId want db txs).toOption := by
  rw [measure_commit]
  conv_lhs => unfold realTxsLoop
  rw [if_neg hi]
  rcases evm.transactCommit cfg db (txDataToTxEnv chainId tx) with ⟨(e | e) | result, db'⟩ <;> rfl

/-- The environments of the transactions of a block. -/
def envs (chainId : ℕ) (txs : List (TxData × ℕ)) : List (TxEnv × ℕ) :=
  txs.map fun (tx, i) => (txDataToTxEnv chainId tx, i)

/-- The runs that are wanted. -/
def pick (want : Finset ℕ) (runs : List WhatIfRun) : List (ℕ × WhatIfRun) :=
  (runs.filter (·.index ∈ want)).map fun run => (run.index, run)

theorem pick_cons_of_mem {want : Finset ℕ} {runs : List WhatIfRun} (h : run.index ∈ want) :
    pick want (run :: runs) = (run.index, run) :: pick want runs := by
  simp [pick, h]

theorem pick_cons_of_notMem {want : Finset ℕ} {runs : List WhatIfRun} (h : run.index ∉ want) :
    pick want (run :: runs) = pick want runs := by
  simp [pick, h]

/-- Runs that have other indices. -/
theorem pick_erase {want : Finset ℕ} {runs : List WhatIfRun} (h : ∀ run ∈ runs, run.index ≠ i) :
    pick (want.erase i) runs = pick want runs := by
  unfold pick
  congr 1
  refine List.filter_congr fun run hrun => ?_
  simp [h run hrun]

theorem index_whatIfLoop {txs : List (TxEnv × ℕ)} {runs : List WhatIfRun}
    (h : whatIfLoop evm cfg beneficiary db txs = .ok (runs, db')) :
    runs.map (·.index) = txs.map Prod.snd := by
  induction txs generalizing db runs with
  | nil =>
    cases h
    rfl
  | cons tx txs ih =>
    obtain ⟨env, i⟩ := tx
    obtain ⟨run, rest, db₁, hrun, hrest, rfl⟩ := whatIfLoop_cons h
    rw [List.map_cons, List.map_cons, index_measure hrun, ih hrest]

theorem whatIfLoop_cons_ok {txs : List (TxEnv × ℕ)}
    (h : measure evm cfg beneficiary db i env = .ok (run, db')) :
    whatIfLoop evm cfg beneficiary db ((env, i) :: txs) =
      (whatIfLoop evm cfg beneficiary db' txs).map fun (runs, db) => (run :: runs, db) := by
  conv_lhs => unfold whatIfLoop
  rw [h]
  show (whatIfLoop evm cfg beneficiary db' txs >>= fun (runs, db) =>
    Except.ok (run :: runs, db)) = _
  cases whatIfLoop evm cfg beneficiary db' txs <;> rfl

theorem realTxsLoop_cons_ok {want : Finset ℕ} {tx : TxData} {txs : List (TxData × ℕ)}
    (hi : i ∈ want)
    (h : measure evm cfg beneficiary db i (txDataToTxEnv chainId tx) = .ok (run, db')) :
    realTxsLoop evm cfg beneficiary chainId want db ((tx, i) :: txs) =
      (realTxsLoop evm cfg beneficiary chainId (want.erase i) db' txs).map ((i, run) :: ·) := by
  conv_lhs => unfold realTxsLoop
  rw [if_pos hi, h]
  show (realTxsLoop evm cfg beneficiary chainId (want.erase i) db' txs >>= fun runs =>
    Except.ok ((i, run) :: runs)) = _
  cases realTxsLoop evm cfg beneficiary chainId (want.erase i) db' txs <;> rfl

/-- Both loops fail, or the one has the wanted runs of the other. -/
theorem realTxsLoop_toOption {txs : List (TxData × ℕ)} (hnodup : (txs.map Prod.snd).Nodup)
    (want : Finset ℕ) :
    (realTxsLoop evm cfg beneficiary chainId want db txs).toOption =
      (whatIfLoop evm cfg beneficiary db (envs chainId txs)).toOption.map fun (runs, _) =>
        pick want runs := by
  induction txs generalizing db want with
  | nil => rfl
  | cons tx txs ih =>
    obtain ⟨tx, i⟩ := tx
    obtain ⟨hi, htxs⟩ := List.nodup_cons.mp hnodup
    show _ = (whatIfLoop evm cfg beneficiary db
      ((txDataToTxEnv chainId tx, i) :: envs chainId txs)).toOption.map _
    cases hrun : measure evm cfg beneficiary db i (txDataToTxEnv chainId tx) with
    | error e =>
      have hall : whatIfLoop evm cfg beneficiary db
          ((txDataToTxEnv chainId tx, i) :: envs chainId txs) = .error e := by
        unfold whatIfLoop
        rw [hrun]
        rfl
      rw [hall]
      by_cases hwant : i ∈ want
      · unfold realTxsLoop
        rw [if_pos hwant, hrun]
        rfl
      · rw [realTxsLoop_cons_of_notMem hwant, hrun]
        rfl
    | ok out =>
      obtain ⟨run, db₁⟩ := out
      obtain rfl := index_measure hrun
      have ih := @ih db₁ htxs
      rw [whatIfLoop_cons_ok hrun]
      by_cases hwant : run.index ∈ want
      · have ih := ih (want.erase run.index)
        rw [realTxsLoop_cons_ok hwant hrun]
        cases hrest : whatIfLoop evm cfg beneficiary db₁ (envs chainId txs) with
        | error e =>
          rw [hrest] at ih
          rw [toOption_map, ih]
          rfl
        | ok out =>
          obtain ⟨runs, db₂⟩ := out
          have hindex := index_whatIfLoop hrest
          have herase : pick (want.erase run.index) runs = pick want runs := by
            refine pick_erase fun run' hrun' heq => hi ?_
            have hmem : run'.index ∈ (envs chainId txs).map Prod.snd :=
              hindex ▸ List.mem_map_of_mem hrun'
            simpa [envs, heq] using hmem
          rw [hrest] at ih
          rw [toOption_map, ih]
          exact congrArg some ((congrArg _ herase).trans (pick_cons_of_mem hwant).symm)
      · rw [realTxsLoop_cons_of_notMem hwant, hrun]
        show (realTxsLoop evm cfg beneficiary chainId want db₁ txs).toOption = _
        rw [ih want]
        cases whatIfLoop evm cfg beneficiary db₁ (envs chainId txs) with
        | error e => rfl
        | ok out => exact congrArg some (pick_cons_of_notMem hwant).symm

/-- **Main theorem.** A pass that measures some transactions of a block and commits the others at
    once measures them as a pass that measures all of them, and fails where that one does. -/
theorem whatIfRealTxs_eq {r : WhatIfReplayer σ} {blockNum : ℕ} {block : BlockData}
    {txs : List TxData} (hload : r.loadBlockData blockNum = .ok (block, txs)) (indices : List ℕ) :
    (r.whatIfRealTxs blockNum indices).toOption =
      (r.whatIfFromBlockStart blockNum (txs.map (txDataToTxEnv r.chainId))).toOption.map
        (pick indices.toFinset) := by
  unfold WhatIfReplayer.whatIfRealTxs WhatIfReplayer.whatIfFromBlockStart WhatIfReplayer.whatIf
  rw [hload]
  cases r.createDbForBlock blockNum with
  | error e => rfl
  | ok db =>
    show (realTxsLoop _ _ _ _ _ db txs.zipIdx).toOption = _
    have hnodup : (txs.zipIdx.map Prod.snd).Nodup := by
      rw [List.zipIdx_map_snd]
      exact List.nodup_range'
    have henvs : envs r.chainId txs.zipIdx = (txs.map (txDataToTxEnv r.chainId)).zipIdx := by
      rw [List.zipIdx_map]
      rfl
    have hbundle : executeWhatif (r.evmOf block) (buildCfgEnv r.chainId)
        (buildBlockEnv block).beneficiary db (txs.map (txDataToTxEnv r.chainId)) =
          whatIfLoop (r.evmOf block) (buildCfgEnv r.chainId) block.coinbase db
            (envs r.chainId txs.zipIdx) := by
      rw [henvs]
      rfl
    rw [realTxsLoop_toOption hnodup]
    show _ = Option.map _ (Except.toOption (Except.map Prod.fst (executeWhatif _ _ _ _ _)))
    rw [hbundle]
    cases whatIfLoop _ _ _ db _ <;> rfl

end Real

/-- The block 5 has three calls of the contract 7, by three accounts. -/
def coinReplayer : WhatIfReplayer Unit :=
  { chainId := 1
    loadBlockData := fun n =>
      if n = 5 then .ok (coinBlock, [sampleCall 1 7 0, sampleCall 2 7 0, sampleCall 3 7 0])
      else .error "unknown block"
    createDbForBlock := fun _ => .ok coinDb
    evm := fun _ => coinEvm }

/-- The second call finds the contract without the prize, although the first is not measured. -/
theorem whatIfRealTxs_eq_prize :
    (coinReplayer.whatIfRealTxs 5 [1]).toOption.map (·.map fun r => (r.1, r.2.status)) =
        some [(1, false)] ∧
      (coinReplayer.whatIfRealTxs 5 [1]).toOption =
        (coinReplayer.whatIfFromBlockStart 5
          ([sampleCall 1 7 0, sampleCall 2 7 0, sampleCall 3 7 0].map
            (txDataToTxEnv coinReplayer.chainId))).toOption.map (pick [1].toFinset) :=
  ⟨by decide, whatIfRealTxs_eq rfl [1]⟩

end MevScout.Replay
