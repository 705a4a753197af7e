import MevScout.Replay.Replayer

/-!
# Skipped transactions

A replay with a filter against the replay that executes every transaction. A skipped
transaction leaves its writes out, and it leaves the nonce of its sender where it was, so that
the next transaction of the sender is rejected.

Results:
* `report_eq_of_not_depends`: a transaction that does not depend on a skipped one has the
  same report in both replays;
* `report_of_afterSkipped`: a transaction behind a skipped one of its sender fails without logs;
* `filtered_agrees`: when the reports agree.
-/

namespace MevScout.Replay

variable {Key Val : Type} [DecidableEq Key]

/-! ## One transaction -/

theorem writeAll_congr {cells cells' : Key → Val} {key : Key} (h : cells key = cells' key)
    (writes : List (Key × Val)) : writeAll cells writes key = writeAll cells' writes key := by
  induction writes generalizing cells cells' with
  | nil => exact h
  | cons w writes ih =>
    refine ih ?_
    dsimp only
    by_cases hkey : key = w.1
    · rw [hkey, Function.update_self, Function.update_self]
    · rw [Function.update_of_ne hkey, Function.update_of_ne hkey, h]

theorem writeAll_of_notMem {cells : Key → Val} {key : Key} {writes : List (Key × Val)}
    (h : key ∉ writes.map (·.1)) : writeAll cells writes key = cells key := by
  induction writes generalizing cells with
  | nil => rfl
  | cons w writes ih =>
    rw [List.map_cons, List.mem_cons, not_or] at h
    exact (ih h.2).trans (Function.update_of_ne h.1 _ _)

omit [DecidableEq Key] in
/-- What a transaction does depends on the nonce of its sender and on the cells it reads. -/
theorem effect_congr (evm : Evm Key Val) (cfg : CfgEnv) {db db' : Db Key Val} {env : TxEnv}
    (hnonce : db'.nonces env.caller = db.nonces env.caller)
    (hcells : ∀ key ∈ evm.reads env db.cells, db'.cells key = db.cells key) :
    evm.effect cfg db' env = evm.effect cfg db env := by
  unfold Evm.effect
  rw [hnonce, evm.run_congr env db.cells db'.cells hcells]

theorem transactCommit_fst (evm : Evm Key Val) (cfg : CfgEnv) (db : Db Key Val) (env : TxEnv) :
    (evm.transactCommit cfg db env).1 = (evm.effect cfg db env).map (·.1) := by
  unfold Evm.transactCommit
  cases evm.effect cfg db env with
  | error e => rfl
  | ok r => rfl

namespace LoadedBlock

/-- The filter that every transaction passes. -/
def everyTx : Filter := fun _ _ => true

theorem everyTx_eq (tx : TxData) (logs : List LogData) : everyTx tx logs = true := rfl

variable (b : LoadedBlock Key Val) (filter : Filter)

/-- What the transaction with the index `k` does in the replay. -/
def effectAt (k : ℕ) (tx : TxData) : Except EvmError (ExecutionResult × List (Key × Val)) :=
  b.evm.effect (buildCfgEnv b.chainId) (b.dbAt filter k) (txDataToTxEnv b.chainId tx)

/-- The transaction with the index `k` is executed. -/
def Passes (k : ℕ) : Prop := ∃ tx, b.txs[k]? = some tx ∧ filter tx (b.receiptLogs k) = true

/-- The transaction with the index `k` is skipped. -/
def Skipped (k : ℕ) : Prop := ∃ tx, b.txs[k]? = some tx ∧ filter tx (b.receiptLogs k) = false

/-- The sender of the transaction with the index `k`. -/
def senderOf (k : ℕ) : Option Address := b.txs[k]?.map (·.sender)

/-- The cells that the transaction with the index `k` writes in the replay. -/
def written (k : ℕ) : Set Key :=
  {key | ∃ tx result writes, b.txs[k]? = some tx ∧ filter tx (b.receiptLogs k) = true ∧
    b.effectAt filter k tx = .ok (result, writes) ∧ key ∈ writes.map (·.1)}

/-- The cells that the transaction with the index `k` reads in the full replay. -/
def readBy (k : ℕ) : Set Key :=
  {key | ∃ tx, b.txs[k]? = some tx ∧
    key ∈ b.evm.reads (txDataToTxEnv b.chainId tx) (b.dbAt everyTx k).cells}

/-- A transaction depends on the skipped ones: it is skipped, its sender has an earlier
    transaction that does, or it reads what an earlier transaction that does writes. -/
inductive Depends : ℕ → Prop
  | skipped {k : ℕ} : b.Skipped filter k → Depends k
  | sender {j k : ℕ} : j < k → Depends j → b.senderOf j = b.senderOf k → Depends k
  | cell {j k : ℕ} {key : Key} : j < k → Depends j →
      key ∈ b.written everyTx j ∪ b.written filter j → key ∈ b.readBy k → Depends k

/-! ## States -/

variable {b filter} {k : ℕ} {tx : TxData}

theorem dbAt_succ_of_skip (htx : b.txs[k]? = some tx) (h : filter tx (b.receiptLogs k) = false) :
    b.dbAt filter (k + 1) = b.dbAt filter k := by
  rw [dbAt_succ b filter htx, replayTx, if_neg (by simp [h])]

/-- The state after a transaction that is executed. -/
theorem dbAt_succ_of_pass (htx : b.txs[k]? = some tx) (h : filter tx (b.receiptLogs k) = true) :
    b.dbAt filter (k + 1) = match b.effectAt filter k tx with
      | .error _ => b.dbAt filter k
      | .ok (_, writes) =>
        { nonces := Function.update (b.dbAt filter k).nonces tx.sender
            ((b.dbAt filter k).nonces tx.sender + 1)
          cells := writeAll (b.dbAt filter k).cells writes } := by
  rw [dbAt_succ b filter htx, replayTx, if_pos h]
  unfold transact Evm.transactCommit effectAt
  dsimp only
  cases b.evm.effect (buildCfgEnv b.chainId) (b.dbAt filter k) (txDataToTxEnv b.chainId tx) with
  | error e => rfl
  | ok r => rfl

/-- A replay leaves the nonces of the other senders alone. -/
theorem nonces_succ_of_ne (htx : b.txs[k]? = some tx) {a : Address} (ha : tx.sender ≠ a) :
    (b.dbAt filter (k + 1)).nonces a = (b.dbAt filter k).nonces a := by
  cases hf : filter tx (b.receiptLogs k) with
  | false => rw [dbAt_succ_of_skip htx hf]
  | true =>
    rw [dbAt_succ_of_pass htx hf]
    cases b.effectAt filter k tx with
    | error e => rfl
    | ok r => exact Function.update_of_ne (Ne.symm ha) _ _

/-- A cell that a transaction does not write stays. -/
theorem cells_succ_of_notMem (htx : b.txs[k]? = some tx) {key : Key}
    (h : key ∉ b.written filter k) :
    (b.dbAt filter (k + 1)).cells key = (b.dbAt filter k).cells key := by
  cases hf : filter tx (b.receiptLogs k) with
  | false => rw [dbAt_succ_of_skip htx hf]
  | true =>
    rw [dbAt_succ_of_pass htx hf]
    cases heff : b.effectAt filter k tx with
    | error e => rfl
    | ok r => exact writeAll_of_notMem fun hmem => h ⟨tx, r.1, r.2, htx, hf, heff, hmem⟩

/-! ## Transactions that do not depend on skipped ones -/

/-- A transaction that passes and has the same effect in both replays keeps what is equal. -/
theorem dbAt_succ_congr (htx : b.txs[k]? = some tx) (hf : filter tx (b.receiptLogs k) = true)
    (heff : b.effectAt filter k tx = b.effectAt everyTx k tx) :
    (∀ a, (b.dbAt filter k).nonces a = (b.dbAt everyTx k).nonces a →
      (b.dbAt filter (k + 1)).nonces a = (b.dbAt everyTx (k + 1)).nonces a) ∧
    ∀ key, (b.dbAt filter k).cells key = (b.dbAt everyTx k).cells key →
      (b.dbAt filter (k + 1)).cells key = (b.dbAt everyTx (k + 1)).cells key := by
  rw [dbAt_succ_of_pass htx hf, dbAt_succ_of_pass htx (everyTx_eq ..), heff]
  cases b.effectAt everyTx k tx with
  | error e => exact ⟨fun _ h => h, fun _ h => h⟩
  | ok r =>
    refine ⟨fun a h => ?_, fun key h => writeAll_congr h r.2⟩
    by_cases ha : a = tx.sender
    · subst ha
      simp only [Function.update_self, h]
    · simp only [Function.update_of_ne ha, h]

/-- **Effects.** A transaction that does not depend on a skipped one does the same in both
    replays. -/
theorem effectAt_eq (htx : b.txs[k]? = some tx) (hk : ¬ b.Depends filter k) :
    b.effectAt filter k tx = b.effectAt everyTx k tx := by
  induction k using Nat.strong_induction_on generalizing tx with
  | _ k ih =>
  -- up to `k`, the states agree on the nonce of the sender and on the cells that `k` reads
  have hstates : ∀ m ≤ k, (b.dbAt filter m).nonces tx.sender = (b.dbAt everyTx m).nonces tx.sender ∧
      ∀ key ∈ b.readBy k, (b.dbAt filter m).cells key = (b.dbAt everyTx m).cells key := by
    intro m hm
    induction m with
    | zero => exact ⟨rfl, fun _ _ => rfl⟩
    | succ m ihm =>
      obtain ⟨hnonce, hcells⟩ := ihm (by omega)
      cases hmtx : b.txs[m]? with
      | none =>
        rw [dbAt_succ_of_none b filter hmtx, dbAt_succ_of_none b everyTx hmtx]
        exact ⟨hnonce, hcells⟩
      | some mtx =>
        by_cases hdep : b.Depends filter m
        · have hne : mtx.sender ≠ tx.sender := by
            intro heq
            refine hk (.sender hm hdep ?_)
            rw [senderOf, senderOf, hmtx, htx, Option.map_some, Option.map_some, heq]
          have hread : ∀ key ∈ b.readBy k, key ∉ b.written everyTx m ∪ b.written filter m :=
            fun key hkey hw => hk (.cell hm hdep hw hkey)
          refine ⟨?_, fun key hkey => ?_⟩
          · rw [nonces_succ_of_ne hmtx hne, nonces_succ_of_ne hmtx hne, hnonce]
          · rw [cells_succ_of_notMem hmtx fun h => hread key hkey (Or.inr h),
              cells_succ_of_notMem hmtx fun h => hread key hkey (Or.inl h), hcells key hkey]
        · have hf : filter mtx (b.receiptLogs m) = true := by
            by_contra hf
            exact hdep (.skipped ⟨mtx, hmtx, by simpa using hf⟩)
          obtain ⟨h₁, h₂⟩ := dbAt_succ_congr hmtx hf (ih m hm hmtx hdep)
          exact ⟨h₁ _ hnonce, fun key hkey => h₂ key (hcells key hkey)⟩
  obtain ⟨hnonce, hcells⟩ := hstates k le_rfl
  exact effect_congr b.evm _ hnonce fun key hkey => hcells key ⟨tx, htx, hkey⟩

/-! ## Reports -/

/-- The report of a transaction that passes. -/
theorem report_of_pass (htx : b.txs[k]? = some tx) (hf : filter tx (b.receiptLogs k) = true) :
    b.report filter k = some (b.reportOf k tx
      (execOrRevert tx.gasLimit ((b.effectAt filter k tx).map (·.1)))) := by
  rw [report, htx, Option.map_some, replayTx, if_pos hf, transact]
  dsimp only
  rw [transactCommit_fst]
  rfl

theorem report_eq_of_not_depends (hk : ¬ b.Depends filter k) :
    b.report filter k = b.report everyTx k := by
  cases htx : b.txs[k]? with
  | none => rw [report, report, htx, Option.map_none, Option.map_none]
  | some tx =>
    have hf : filter tx (b.receiptLogs k) = true := by
      by_contra hf
      exact hk (.skipped ⟨tx, htx, by simpa using hf⟩)
    rw [report_of_pass htx hf, report_of_pass htx (everyTx_eq ..), effectAt_eq htx hk]

/-! ## Transactions behind a skipped one of their sender -/

variable (b filter)

/-- The full replay executes every transaction of the block. -/
def Executes : Prop :=
  ∀ k tx, b.txs[k]? = some tx → ∃ r, b.effectAt everyTx k tx = .ok r

/-- An earlier transaction of the sender is skipped. -/
def AfterSkipped (k : ℕ) : Prop :=
  ∃ j < k, b.Skipped filter j ∧ b.senderOf j = b.senderOf k

/-- The status and the logs of the report are those of the full replay. -/
def Agrees (k : ℕ) : Prop :=
  (b.report filter k).map (fun x => (x.status, x.logs)) =
    (b.report everyTx k).map fun x => (x.status, x.logs)

/-- In the full replay the transaction fails without logs. -/
def FailsSilently (k : ℕ) : Prop :=
  (b.report everyTx k).map (fun x => (x.status, x.logs)) = some (false, [])

variable {b filter}

/-- A nonce falls behind when a transaction of the sender is skipped, and never catches up. -/
theorem nonces_lt (hall : b.Executes) (a : Address) (k : ℕ) :
    (b.dbAt filter k).nonces a ≤ (b.dbAt everyTx k).nonces a ∧
      ((∃ j < k, b.Skipped filter j ∧ b.senderOf j = some a) →
        (b.dbAt filter k).nonces a < (b.dbAt everyTx k).nonces a) := by
  induction k with
  | zero => exact ⟨le_rfl, by rintro ⟨j, hj, -⟩; omega⟩
  | succ k ih =>
    have hearlier : ∀ {p : ℕ → Prop}, (∃ j < k + 1, p j) → (∃ j < k, p j) ∨ p k := by
      rintro p ⟨j, hj, hp⟩
      rcases Nat.lt_succ_iff_lt_or_eq.mp hj with hlt | rfl
      · exact Or.inl ⟨j, hlt, hp⟩
      · exact Or.inr hp
    cases htx : b.txs[k]? with
    | none =>
      rw [dbAt_succ_of_none b filter htx, dbAt_succ_of_none b everyTx htx]
      refine ⟨ih.1, fun h => ?_⟩
      rcases hearlier h with h | ⟨⟨tx, hktx, -⟩, -⟩
      · exact ih.2 h
      · simp [htx] at hktx
    | some tx =>
      by_cases ha : tx.sender = a
      · obtain ⟨r, hr⟩ := hall k tx htx
        have hfull : (b.dbAt everyTx (k + 1)).nonces a = (b.dbAt everyTx k).nonces a + 1 := by
          rw [dbAt_succ_of_pass htx (everyTx_eq ..), hr, ← ha]
          exact Function.update_self ..
        cases hf : filter tx (b.receiptLogs k) with
        | false =>
          rw [dbAt_succ_of_skip htx hf, hfull]
          have := ih.1
          exact ⟨by omega, fun _ => by omega⟩
        | true =>
          have hle : (b.dbAt filter (k + 1)).nonces a ≤ (b.dbAt filter k).nonces a + 1 := by
            rw [dbAt_succ_of_pass htx hf, ← ha]
            cases b.effectAt filter k tx with
            | error e => exact Nat.le_succ _
            | ok r => exact (Function.update_self ..).le
          rw [hfull]
          refine ⟨by have := ih.1; omega, fun h => ?_⟩
          rcases hearlier h with h | ⟨⟨tx', htx', hf'⟩, -⟩
          · have := ih.2 h
            omega
          · obtain rfl := Option.some_inj.mp (htx.symm.trans htx')
            simp [hf] at hf'
      · rw [nonces_succ_of_ne htx ha, nonces_succ_of_ne htx ha]
        refine ⟨ih.1, fun h => ?_⟩
        rcases hearlier h with h | ⟨-, hsender⟩
        · exact ih.2 h
        · rw [senderOf, htx] at hsender
          exact absurd (Option.some_inj.mp hsender) ha

/-- The nonce of a transaction behind a skipped one of its sender is rejected. -/
theorem report_of_afterSkipped (hall : b.Executes) (hpass : b.Passes filter k)
    (hskip : b.AfterSkipped filter k) :
    (b.report filter k).map (fun x => (x.status, x.logs)) = some (false, []) := by
  obtain ⟨tx, htx, hf⟩ := hpass
  obtain ⟨j, hj, hskipped, hsender⟩ := hskip
  have hk : b.senderOf k = some tx.sender := by rw [senderOf, htx, Option.map_some]
  rw [hk] at hsender
  have hlt : (b.dbAt filter k).nonces tx.sender < (b.dbAt everyTx k).nonces tx.sender :=
    (nonces_lt hall tx.sender k).2 ⟨j, hj, hskipped, hsender⟩
  obtain ⟨r, hr⟩ := hall k tx htx
  have hnonce : tx.nonce = (b.dbAt everyTx k).nonces tx.sender := by
    by_contra hne
    rw [effectAt, Evm.effect, if_pos ⟨rfl, hne⟩] at hr
    cases hr
  have heff : b.effectAt filter k tx = .error (.transaction "nonce") := by
    refine if_pos ⟨rfl, ?_⟩
    show tx.nonce ≠ (b.dbAt filter k).nonces tx.sender
    omega
  rw [report_of_pass htx hf, heff]
  rfl

/-! ## Main results -/

/-- **Main theorem.** A transaction that does not depend on a skipped one has the status and
    the logs of the full replay. Behind a skipped transaction of its sender it has them if and
    only if it fails without logs in the full replay too. -/
theorem filtered_agrees (b : LoadedBlock Key Val) (filter : Filter) (k : ℕ)
    (hpass : b.Passes filter k) :
    (¬ b.Depends filter k → b.Agrees filter k) ∧
      (b.Executes → b.AfterSkipped filter k → (b.Agrees filter k ↔ b.FailsSilently k)) := by
  refine ⟨fun hk => ?_, fun hall hskip => ?_⟩
  · rw [Agrees, report_eq_of_not_depends hk]
  · rw [Agrees, report_of_afterSkipped hall hpass hskip, FailsSilently]
    exact eq_comm

end LoadedBlock

/-! ## A block of three calls -/

/-- An EVM whose transactions pay for gas and value out of the balance of their sender and
    emit a log of their recipient. -/
def transferEvm : Evm Address ℕ where
  run env cells :=
    let cost := env.gasPrice * 21000 + env.value
    if cells env.caller < cost then .error (.transaction "funds")
    else
      .ok ({ isSuccess := true, txGasUsed := 21000
             logs := env.kind.toList.map fun a => { address := a, topics := [], data := env.data }
             output := some [] },
        if cost = 0 then [] else [(env.caller, cells env.caller - cost)])
  reads env _ := {env.caller}
  run_congr env cells cells' h := by
    have h := h env.caller rfl
    simp only [h]

/-- A call without a fee. -/
def sampleCall (sender recipient : Address) (nonce : ℕ) : TxData :=
  { hash := 0, index := 0, txType := 0, sender, recipient := some recipient, input := [1]
    value := 0, gasLimit := 21000, maxFeePerGas := 0, maxPriorityFeePerGas := none
    gasPrice := some 0, nonce, accessList := [], authorizationList := [] }

/-- The sender 1 calls the contract 8 and then the pool 9, the sender 2 calls the pool in
    between. -/
def sampleBlock : LoadedBlock Address ℕ :=
  { chainId := 1, evm := transferEvm
    txs := [sampleCall 1 8 0, sampleCall 2 9 0, sampleCall 1 9 1], receipts := []
    db := { nonces := fun _ => 0, cells := fun _ => 0 } }

/-- The calls of the pool 9. -/
def sampleFilter : Filter := fun tx _ => tx.recipient = some 9

theorem executes_sample : sampleBlock.Executes := by
  have hok : ∀ k < 3, ∀ tx, sampleBlock.txs[k]? = some tx →
      (sampleBlock.effectAt LoadedBlock.everyTx k tx).toOption.isSome = true := by
    intro k hk tx htx
    have hall : (List.range 3).all (fun k => (sampleBlock.txs[k]?).all fun tx =>
        (sampleBlock.effectAt LoadedBlock.everyTx k tx).toOption.isSome) = true := by
      decide +kernel
    have := List.all_eq_true.mp hall k (List.mem_range.mpr hk)
    rwa [htx] at this
  intro k tx htx
  have hk : k < 3 := (List.getElem?_eq_some_iff.mp htx).1
  have := hok k hk tx htx
  cases heff : sampleBlock.effectAt LoadedBlock.everyTx k tx with
  | error e =>
    rw [heff] at this
    exact absurd this Bool.false_ne_true
  | ok r => exact ⟨r, rfl⟩

/-- A call without a fee writes no balance. -/
theorem written_sample : sampleBlock.written LoadedBlock.everyTx 0 = ∅ := by
  have hwrites : (sampleBlock.effectAt LoadedBlock.everyTx 0 (sampleCall 1 8 0)).map (·.2) =
      .ok [] := by decide +kernel
  refine Set.eq_empty_iff_forall_notMem.mpr ?_
  rintro key ⟨tx, result, writes, htx, -, heff, hmem⟩
  obtain rfl := Option.some_inj.mp htx
  rw [heff] at hwrites
  obtain rfl : writes = [] := Except.ok.inj hwrites
  simp at hmem

theorem filtered_agrees_sample :
    sampleBlock.Agrees sampleFilter 1 ∧
      (sampleBlock.Agrees sampleFilter 2 ↔ sampleBlock.FailsSilently 2) := by
  refine ⟨(LoadedBlock.filtered_agrees sampleBlock sampleFilter 1 ⟨_, rfl, rfl⟩).1 ?_,
    (LoadedBlock.filtered_agrees sampleBlock sampleFilter 2 ⟨_, rfl, rfl⟩).2 executes_sample
      ⟨0, by decide, ⟨_, rfl, rfl⟩, rfl⟩⟩
  intro h
  cases h with
  | skipped h =>
    obtain ⟨tx, htx, hf⟩ := h
    obtain rfl := Option.some_inj.mp htx
    exact absurd hf (by decide)
  | @sender j _ hj _ hsender =>
    obtain rfl : j = 0 := by omega
    exact absurd hsender (by decide)
  | @cell j _ _ hj _ hwritten _ =>
    obtain rfl : j = 0 := by omega
    rcases hwritten with hfull | ⟨tx, _, _, htx, hf, -⟩
    · rw [written_sample] at hfull
      exact hfull
    · obtain rfl := Option.some_inj.mp htx
      exact absurd hf (by decide)

/-- The call of the pool behind the skipped call of its sender is reported as a revert. -/
theorem call_rejected :
    (sampleBlock.report sampleFilter 2).map (fun x => (x.status, x.logs)) = some (false, []) ∧
      (sampleBlock.report LoadedBlock.everyTx 2).map (fun x => (x.status, x.logs)) =
        some (true, [{ address := 9, topics := [], data := [1] }]) ∧
      sampleBlock.written LoadedBlock.everyTx 0 = ∅ ∧ ¬ sampleBlock.Agrees sampleFilter 2 := by
  refine ⟨by decide +kernel, by decide +kernel, written_sample, ?_⟩
  unfold LoadedBlock.Agrees
  decide +kernel

end MevScout.Replay
