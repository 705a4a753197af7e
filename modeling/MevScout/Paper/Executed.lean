import MevScout.Paper.Ledger

/-!
# The executed ledger

Model of `LedgerPolicy::apply_executed` (`core/src/paper/ledger.rs`): fills are booked from
the attempts of an execution backend. The backend is a callback with a state of its own.

Results:
* `executed_accounts`: what the ledger and the calls of the callback satisfy as long as no
  charge and no total leaves its type;
* `executed_totals_wrap`: the net total and the charge of a reverted attempt can leave theirs.
-/

namespace MevScout.Paper

/-! ## The books -/

/-- The accumulators of `apply_executed`. -/
structure ExecBook where
  book : Book
  execOk : ℕ := 0
  execRevert : ℕ := 0
  revertGasWei : ℕ := 0
  execLossWei : ℕ := 0

def ExecBook.skip (b : ExecBook) (block : ℕ) (opp : MevOpportunity) (reason : FillSkipReason) :
    ExecBook :=
  { b with book := b.book.skip block opp reason }

/-- Charges a wallet delta and adds gas to the total. -/
def ExecBook.charge (b : ExecBook) (delta : ℤ) (gasWei : ℕ) : ExecBook :=
  let book := b.book.applyWalletDelta delta
  { b with book := { book with gasTotal := saturatingAdd 128 book.gasTotal gasWei } }

/-- Books a reverted attempt (`ledger.rs`, lines 637–648 and 653–664). -/
def ExecBook.revert (b : ExecBook) (attempt : ExecAttempt) : ExecBook :=
  let b := { b with execRevert := b.execRevert + 1 }
  if 0 < attempt.gasWei then
    let b := b.charge (wrapSigned 128 (-asSigned 128 attempt.gasWei)) attempt.gasWei
    { b with revertGasWei := saturatingAdd 128 b.revertGasWei attempt.gasWei }
  else b

/-- Books a success without profit (`ledger.rs`, lines 674–678). -/
def ExecBook.lose (b : ExecBook) (attempt : ExecAttempt) : ExecBook :=
  let b := b.charge attempt.netWei attempt.gasWei
  if attempt.netWei < 0 then
    let loss := asUnsigned 128 (wrapSigned 128 (-attempt.netWei))
    { b with execLossWei := saturatingAdd 128 b.execLossWei loss }
  else b

/-- The fill that `apply_executed` records (`ledger.rs`, lines 697–721). -/
def executedFill (block : ℕ) (opp : MevOpportunity) (attempt : ExecAttempt)
    (walletBefore walletAfter fillsThisBlock : ℕ) (simMode : SimMode) (execMode : String) :
    PaperFill :=
  let gross := saturatingAdd 128 (asUnsigned 128 attempt.netWei) attempt.gasWei
  { blockNumber := block
    txIndex := txIndexOf opp
    canonicalId := opp.canonicalId
    strategy := opp.strategy.toString
    grossWei := gross
    gasWei := attempt.gasWei
    netWei := attempt.netWei
    walletBefore := walletBefore
    walletAfter := walletAfter
    pools := poolsOf opp
    mempoolOnly := opp.mempoolOnly
    simMode := simMode
    simGrossWei := gross
    simNetWei := attempt.netWei
    borrowedWei := u256ToU128 opp.inputAmount
    repayOk := true
    stateDrift := 1 < fillsThisBlock
    execMode := some execMode
    execStatus := some "ok"
    execGasUsed := some attempt.gasUsed
    execNetWei := some attempt.netWei
    txHash := attempt.txHash }

/-! ## The loop -/

/-- The gates before the callback (`ledger.rs`, lines 572–632). -/
def LedgerPolicy.execGate (policy : LedgerPolicy) (wallet fillsThisBlock : ℕ)
    (opp : MevOpportunity) : Option FillSkipReason :=
  if ¬isSimulatable opp.strategy then some .execStrategyUnsupported
  else if ¬isNativeEligible opp.strategy then some .notNativeUnit
  else if netWei opp ≤ 0 then some .nonPositiveNet
  else if policy.maxFills ≤ fillsThisBlock then some .maxFillsPerBlock
  else if wallet ≤ policy.reserveWei then some .insufficientGas
  else if wallet - policy.reserveWei < opp.gasCostWei then some .insufficientGas
  else none

/-- An execution callback with the state `ρ`. It gets the opportunity and the wallet. -/
abbrev Callback (ρ : Type*) := ρ → MevOpportunity → ℕ → ExecAttempt × ρ

section Loop

variable {ρ : Type*} (policy : LedgerPolicy) (simMode : SimMode) (execMode : String)
  (run : Callback ρ)

/-- What `apply_executed` makes of an attempt (`ledger.rs`, lines 635–728). -/
def settle (block : ℕ) (b : ExecBook) (fillsThisBlock : ℕ) (opp : MevOpportunity)
    (attempt : ExecAttempt) : ExecBook × ℕ :=
  match attempt.fail with
  | some reason =>
    let b := if reason = .execRevert then b.revert attempt else b
    (b.skip block opp reason, fillsThisBlock)
  | none =>
    if ¬attempt.status then ((b.revert attempt).skip block opp .execRevert, fillsThisBlock)
    else if attempt.netWei ≤ 0 then
      ((b.lose attempt).skip block opp .nonPositiveNet, fillsThisBlock)
    else
      let after := b.book.applyWalletDelta attempt.netWei
      let fill := executedFill block opp attempt b.book.wallet after.wallet (fillsThisBlock + 1)
        simMode execMode
      ({ b with book := after.fill fill, execOk := b.execOk + 1 }, fillsThisBlock + 1)

/-- The body of the inner loop of `apply_executed` (`ledger.rs`, lines 563–729). -/
def LedgerPolicy.applyExecutedStep (block : ℕ) (t : (ExecBook × ρ) × ℕ) (opp : MevOpportunity) :
    (ExecBook × ρ) × ℕ :=
  let ((b, s), fillsThisBlock) := t
  match policy.execGate b.book.wallet fillsThisBlock opp with
  | some reason => ((b.skip block opp reason, s), fillsThisBlock)
  | none =>
    let (attempt, s) := run s opp b.book.wallet
    let (b, fillsThisBlock) := settle simMode execMode block b fillsThisBlock opp attempt
    ((b, s), fillsThisBlock)

/-- Model of `LedgerPolicy::apply_executed` (`ledger.rs`, lines 510–761), with the state that
    the callback ends in. -/
def LedgerPolicy.applyExecuted (s : ρ) (opps : List MevOpportunity) : LedgerResult × ρ :=
  let (b, s) := Grouping.overGroups (·.blockNumber) Before 0
    (policy.applyExecutedStep simMode execMode run) ({ book := policy.book }, s) opps
  ({ b.book.result policy opps simMode with
      execMode := execMode
      execOk := b.execOk
      execRevert := b.execRevert
      revertGasWei := b.revertGasWei
      execLossWei := b.execLossWei }, s)

end Loop

/-! ## Calls -/

/-- One call of the callback. -/
structure Call where
  opp : MevOpportunity
  wallet : ℕ
  attempt : ExecAttempt

/-- The callback that also records its calls. -/
def recording {ρ : Type*} (run : Callback ρ) : Callback (ρ × List Call) := fun s opp wallet =>
  let (attempt, t) := run s.1 opp wallet
  (attempt, (t, s.2 ++ [⟨opp, wallet, attempt⟩]))

/-- The calls that `apply_executed` makes. -/
def LedgerPolicy.calls {ρ : Type*} (policy : LedgerPolicy) (simMode : SimMode)
    (execMode : String) (run : Callback ρ) (s : ρ) (opps : List MevOpportunity) : List Call :=
  (policy.applyExecuted simMode execMode (recording run) (s, []) opps).2.2

/-- Forgetting a part of the state of the callback does not change the result. -/
theorem applyExecuted_map {ρ ρ' : Type*} (policy : LedgerPolicy) (simMode : SimMode)
    (execMode : String) (f : ρ → ρ') {run : Callback ρ} {run' : Callback ρ'}
    (hrun : ∀ s opp wallet,
      run' (f s) opp wallet = ((run s opp wallet).1, f (run s opp wallet).2))
    (s : ρ) (opps : List MevOpportunity) :
    policy.applyExecuted simMode execMode run' (f s) opps =
      ((policy.applyExecuted simMode execMode run s opps).1,
        f (policy.applyExecuted simMode execMode run s opps).2) := by
  have hstep : ∀ k (t : (ExecBook × ρ) × ℕ) opp,
      policy.applyExecutedStep simMode execMode run' k ((t.1.1, f t.1.2), t.2) opp =
        (((policy.applyExecutedStep simMode execMode run k t opp).1.1,
            f (policy.applyExecutedStep simMode execMode run k t opp).1.2),
          (policy.applyExecutedStep simMode execMode run k t opp).2) := by
    intro k t opp
    unfold LedgerPolicy.applyExecutedStep
    dsimp only
    cases policy.execGate t.1.1.book.wallet t.2 opp with
    | some reason => rfl
    | none =>
      dsimp only
      rw [hrun]
  have hmap : Grouping.overGroups (·.blockNumber) Before 0
      (policy.applyExecutedStep simMode execMode run') ({ book := policy.book }, f s) opps =
        ((Grouping.overGroups (·.blockNumber) Before 0 (policy.applyExecutedStep simMode execMode
            run) ({ book := policy.book }, s) opps).1,
          f (Grouping.overGroups (·.blockNumber) Before 0 (policy.applyExecutedStep simMode
            execMode run) ({ book := policy.book }, s) opps).2) :=
    Grouping.overGroups_map (fun t : ExecBook × ρ => (t.1, f t.2)) hstep
      ({ book := policy.book }, s)
  unfold LedgerPolicy.applyExecuted
  rw [hmap]

/-- What every call of the callback keeps holds of the state that it ends in. -/
theorem applyExecuted_induct {ρ : Type*} {policy : LedgerPolicy} {simMode : SimMode}
    {execMode : String} {run : Callback ρ} {opps : List MevOpportunity} (P : ρ → Prop) {s : ρ}
    (h : P s) (hrun : ∀ s opp wallet, opp ∈ opps → P s → P (run s opp wallet).2) :
    P (policy.applyExecuted simMode execMode run s opps).2 := by
  refine Grouping.overGroups_induct (σ := ExecBook × ρ) (fun _ t => P t.2)
    (fun _ _ t => P t.1.2) h (fun _ _ _ _ h => h) (fun k _ t opp hopp _ h => ?_)
    fun _ _ _ h => h
  unfold LedgerPolicy.applyExecutedStep
  dsimp only
  cases policy.execGate t.1.1.book.wallet t.2 opp with
  | some reason => exact h
  | none => exact hrun _ opp _ hopp h

/-- Recording the calls does not change the result. -/
theorem applyExecuted_recording {ρ : Type*} (policy : LedgerPolicy) (simMode : SimMode)
    (execMode : String) (run : Callback ρ) (s : ρ) (opps : List MevOpportunity) :
    (policy.applyExecuted simMode execMode (recording run) (s, []) opps).1 =
      (policy.applyExecuted simMode execMode run s opps).1 := by
  have hrun : ∀ (s : ρ × List Call) opp wallet,
      run s.1 opp wallet = ((recording run s opp wallet).1, (recording run s opp wallet).2.1) :=
    fun _ _ _ => rfl
  have hmap := applyExecuted_map policy simMode execMode Prod.fst hrun (s, []) opps
  exact (congrArg Prod.fst hmap).symm

/-! ## Attempts -/

namespace ExecAttempt

/-- The attempt is booked as a fill. -/
def filled (a : ExecAttempt) : Bool := a.fail = none ∧ a.status = true ∧ 0 < a.netWei

/-- The attempt reverted. -/
def reverted (a : ExecAttempt) : Bool :=
  a.fail = some .execRevert ∨ (a.fail = none ∧ a.status = false)

/-- The net of a filled attempt. -/
def earned (a : ExecAttempt) : ℤ := if a.filled then a.netWei else 0

/-- The gas of a reverted attempt. -/
def burned (a : ExecAttempt) : ℕ := if a.reverted then a.gasWei else 0

/-- The loss of a successful attempt. -/
def lost (a : ExecAttempt) : ℕ :=
  if a.fail = none ∧ a.status = true ∧ a.netWei < 0 then (-a.netWei).toNat else 0

/-- What the attempt does to the wallet. -/
def delta (a : ExecAttempt) : ℤ := a.earned - a.burned - a.lost

end ExecAttempt

/-- The fill of an opportunity, up to its amounts. -/
structure FillFor (opp : MevOpportunity) (f : PaperFill) : Prop where
  blockNumber : f.blockNumber = opp.blockNumber
  txIndex : f.txIndex = txIndexOf opp
  canonicalId : f.canonicalId = opp.canonicalId
  strategy : f.strategy = opp.strategy.toString
  pools : f.pools = poolsOf opp

/-- What an attempt does to the books. -/
structure Settled (opp : MevOpportunity) (a : ExecAttempt) (b b' : ExecBook) (n n' : ℕ) : Prop where
  count : n' = n + if a.filled then 1 else 0
  fill : a.filled = true → ∃ f, FillFor opp f ∧ b'.book.fills = b.book.fills ++ [f] ∧
    b'.book.skips = b.book.skips
  skip : a.filled = false → ∃ reason, b'.book.fills = b.book.fills ∧
    b'.book.skips = b.book.skips ++ [skipOf opp.blockNumber opp reason]
  wallet : b.book.wallet < 2 ^ 128 → (a.reverted = true → a.gasWei ≤ 2 ^ 127) →
    0 ≤ (b.book.wallet : ℤ) + a.delta → (b.book.wallet : ℤ) + a.delta < 2 ^ 128 →
      (b'.book.wallet : ℤ) = b.book.wallet + a.delta
  net : ∀ x, b.book.netTotal = wrapSigned 128 x → b'.book.netTotal = wrapSigned 128 (x + a.earned)
  ok : b'.execOk = b.execOk + if a.filled then 1 else 0
  revert : b'.execRevert = b.execRevert + if a.reverted then 1 else 0
  burned : ∀ x, b.revertGasWei = min x (2 ^ 128 - 1) →
    b'.revertGasWei = min (x + a.burned) (2 ^ 128 - 1)
  lost : ∀ x, b.execLossWei = min x (2 ^ 128 - 1) → b'.execLossWei = min (x + a.lost) (2 ^ 128 - 1)

/-! ## Fields of the books -/

section Fields

variable (b : ExecBook) (block : ℕ) (opp : MevOpportunity) (reason : FillSkipReason) (delta : ℤ)
  (gasWei : ℕ)

@[simp] theorem execSkip_book : (b.skip block opp reason).book = b.book.skip block opp reason := rfl

@[simp] theorem execSkip_execOk : (b.skip block opp reason).execOk = b.execOk := rfl

@[simp] theorem execSkip_execRevert : (b.skip block opp reason).execRevert = b.execRevert := rfl

@[simp] theorem execSkip_revertGasWei : (b.skip block opp reason).revertGasWei = b.revertGasWei :=
  rfl

@[simp] theorem execSkip_execLossWei : (b.skip block opp reason).execLossWei = b.execLossWei := rfl

@[simp] theorem charge_wallet : (b.charge delta gasWei).book.wallet =
    saturatingAddSigned 128 b.book.wallet delta := by rfl

@[simp] theorem charge_fills : (b.charge delta gasWei).book.fills = b.book.fills := by rfl

@[simp] theorem charge_skips : (b.charge delta gasWei).book.skips = b.book.skips := by rfl

@[simp] theorem charge_netTotal : (b.charge delta gasWei).book.netTotal = b.book.netTotal := by rfl

@[simp] theorem charge_execOk : (b.charge delta gasWei).execOk = b.execOk := by rfl

@[simp] theorem charge_execRevert : (b.charge delta gasWei).execRevert = b.execRevert := by rfl

@[simp] theorem charge_revertGasWei :
    (b.charge delta gasWei).revertGasWei = b.revertGasWei := by rfl

@[simp] theorem charge_execLossWei : (b.charge delta gasWei).execLossWei = b.execLossWei := by rfl

variable (a : ExecAttempt)

@[simp] theorem revert_fills : (b.revert a).book.fills = b.book.fills := by
  unfold ExecBook.revert
  split_ifs <;> simp

@[simp] theorem revert_skips : (b.revert a).book.skips = b.book.skips := by
  unfold ExecBook.revert
  split_ifs <;> simp

@[simp] theorem revert_netTotal : (b.revert a).book.netTotal = b.book.netTotal := by
  unfold ExecBook.revert
  split_ifs <;> simp

@[simp] theorem revert_execOk : (b.revert a).execOk = b.execOk := by
  unfold ExecBook.revert
  split_ifs <;> simp

@[simp] theorem revert_execRevert : (b.revert a).execRevert = b.execRevert + 1 := by
  unfold ExecBook.revert
  split_ifs <;> simp

@[simp] theorem revert_execLossWei : (b.revert a).execLossWei = b.execLossWei := by
  unfold ExecBook.revert
  split_ifs <;> simp

theorem revert_wallet : (b.revert a).book.wallet =
    if 0 < a.gasWei then
      saturatingAddSigned 128 b.book.wallet (wrapSigned 128 (-asSigned 128 a.gasWei))
    else b.book.wallet := by
  unfold ExecBook.revert
  split_ifs <;> simp

theorem revert_revertGasWei : (b.revert a).revertGasWei =
    if 0 < a.gasWei then saturatingAdd 128 b.revertGasWei a.gasWei else b.revertGasWei := by
  unfold ExecBook.revert
  split_ifs <;> simp

@[simp] theorem lose_fills : (b.lose a).book.fills = b.book.fills := by
  unfold ExecBook.lose
  split_ifs <;> simp

@[simp] theorem lose_skips : (b.lose a).book.skips = b.book.skips := by
  unfold ExecBook.lose
  split_ifs <;> simp

@[simp] theorem lose_wallet :
    (b.lose a).book.wallet = saturatingAddSigned 128 b.book.wallet a.netWei := by
  unfold ExecBook.lose
  split_ifs <;> simp

@[simp] theorem lose_netTotal : (b.lose a).book.netTotal = b.book.netTotal := by
  unfold ExecBook.lose
  split_ifs <;> simp

@[simp] theorem lose_execOk : (b.lose a).execOk = b.execOk := by
  unfold ExecBook.lose
  split_ifs <;> simp

@[simp] theorem lose_execRevert : (b.lose a).execRevert = b.execRevert := by
  unfold ExecBook.lose
  split_ifs <;> simp

@[simp] theorem lose_revertGasWei : (b.lose a).revertGasWei = b.revertGasWei := by
  unfold ExecBook.lose
  split_ifs <;> simp

theorem lose_execLossWei : (b.lose a).execLossWei =
    if a.netWei < 0 then
      saturatingAdd 128 b.execLossWei (asUnsigned 128 (wrapSigned 128 (-a.netWei)))
    else b.execLossWei := by
  unfold ExecBook.lose
  split_ifs <;> simp

end Fields

/-! ## The five outcomes -/

/-- The charge of a reverted attempt is its gas as long as that fits. -/
theorem wrapSigned_neg_asSigned {gas : ℕ} (h : gas ≤ 2 ^ 127) :
    wrapSigned 128 (-asSigned 128 gas) = -(gas : ℤ) := by
  rcases Nat.lt_or_ge gas (2 ^ 127) with hlt | hge
  · rw [asSigned_eq (w := 127) hlt]
    exact wrapSigned_eq (w := 127) (by omega) (by omega)
  · have hgas : gas = 2 ^ 127 := le_antisymm h hge
    rw [asSigned_eq_sub (w := 127) hge (by omega), hgas]
    rfl

theorem revert_spec {b : ExecBook} {opp : MevOpportunity} {a : ExecAttempt} {n : ℕ}
    {reason : FillSkipReason} (hfilled : a.filled = false) (hreverted : a.reverted = true)
    (hlost : a.lost = 0) :
    Settled opp a b ((b.revert a).skip opp.blockNumber opp reason) n n := by
  have hearned : a.earned = 0 := by simp [ExecAttempt.earned, hfilled]
  have hburned : a.burned = a.gasWei := by simp [ExecAttempt.burned, hreverted]
  have hdelta : a.delta = -(a.gasWei : ℤ) := by simp [ExecAttempt.delta, hearned, hburned, hlost]
  constructor
  case count => simp [hfilled]
  case fill => simp [hfilled]
  case skip =>
    intro _
    exact ⟨reason, by simp, by simp⟩
  case wallet =>
    intro hwallet hfits hlo hhi
    rw [hdelta] at hlo hhi ⊢
    rw [execSkip_book, skip_wallet, revert_wallet, wrapSigned_neg_asSigned (hfits hreverted)]
    split_ifs with hgas
    · exact saturatingAddSigned_of_nonpos (by omega) hlo hwallet
    · omega
  case net =>
    intro x hx
    rw [hearned, add_zero, execSkip_book, skip_netTotal, revert_netTotal, hx]
  case ok => simp [hfilled]
  case revert => simp [hreverted]
  case burned =>
    intro x hx
    rw [hburned, execSkip_revertGasWei, revert_revertGasWei]
    split_ifs with hgas
    · rw [hx, saturatingAdd_min]
    · rw [hx, show a.gasWei = 0 by omega, add_zero]
  case lost =>
    intro x hx
    rw [hlost, add_zero, execSkip_execLossWei, revert_execLossWei, hx]

/-- The negation of a net that is read as `u128` is its absolute value, also where it wraps. -/
theorem asUnsigned_wrapSigned_neg {net : ℤ} (hlo : -2 ^ 127 ≤ net) (hneg : net < 0) :
    asUnsigned 128 (wrapSigned 128 (-net)) = (-net).toNat := by
  rcases lt_or_ge (-net) (2 ^ 127) with hlt | hge
  · rw [wrapSigned_eq (w := 127) (by omega) hlt, asUnsigned_eq (by omega) (by omega)]
  · obtain rfl : net = -2 ^ 127 := by omega
    rfl

theorem lose_spec {b : ExecBook} {opp : MevOpportunity} {a : ExecAttempt} {n : ℕ}
    (hfail : a.fail = none) (hstatus : a.status = true) (hnet : a.netWei ≤ 0) :
    Settled opp a b ((b.lose a).skip opp.blockNumber opp .nonPositiveNet) n n := by
  have hfilled : a.filled = false := by simp [ExecAttempt.filled, hnet]
  have hreverted : a.reverted = false := by simp [ExecAttempt.reverted, hfail, hstatus]
  have hearned : a.earned = 0 := by simp [ExecAttempt.earned, hfilled]
  have hburned : a.burned = 0 := by simp [ExecAttempt.burned, hreverted]
  have hlost : a.lost = (-a.netWei).toNat := by
    unfold ExecAttempt.lost
    split_ifs with h
    · rfl
    · have hzero : ¬a.netWei < 0 := fun hneg => h ⟨hfail, hstatus, hneg⟩
      omega
  have hdelta : a.delta = a.netWei := by
    unfold ExecAttempt.delta
    rw [hearned, hburned, hlost]
    omega
  constructor
  case count => simp [hfilled]
  case fill => simp [hfilled]
  case skip =>
    intro _
    exact ⟨.nonPositiveNet, by simp, by simp⟩
  case wallet =>
    intro hwallet _ hlo hhi
    rw [hdelta] at hlo hhi ⊢
    rw [execSkip_book, skip_wallet, lose_wallet]
    exact saturatingAddSigned_of_nonpos hnet hlo hwallet
  case net =>
    intro x hx
    rw [hearned, add_zero, execSkip_book, skip_netTotal, lose_netTotal, hx]
  case ok => simp [hfilled]
  case revert => simp [hreverted]
  case burned =>
    intro x hx
    rw [hburned, add_zero, execSkip_revertGasWei, lose_revertGasWei, hx]
  case lost =>
    intro x hx
    rw [hlost, execSkip_execLossWei, lose_execLossWei]
    split_ifs with hneg
    · rw [hx, asUnsigned_wrapSigned_neg a.netWei_mem.1 hneg, saturatingAdd_min]
    · rw [hx, show (-a.netWei).toNat = 0 by omega, add_zero]

/-- An attempt that failed without a revert leaves the books alone. -/
theorem fail_spec {b : ExecBook} {opp : MevOpportunity} {a : ExecAttempt} {n : ℕ}
    {reason : FillSkipReason} (hfail : a.fail = some reason) (hreason : reason ≠ .execRevert) :
    Settled opp a b (b.skip opp.blockNumber opp reason) n n := by
  have hfilled : a.filled = false := by simp [ExecAttempt.filled, hfail]
  have hreverted : a.reverted = false := by simp [ExecAttempt.reverted, hfail, hreason]
  have hearned : a.earned = 0 := by simp [ExecAttempt.earned, hfilled]
  have hburned : a.burned = 0 := by simp [ExecAttempt.burned, hreverted]
  have hlost : a.lost = 0 := by simp [ExecAttempt.lost, hfail]
  have hdelta : a.delta = 0 := by simp [ExecAttempt.delta, hearned, hburned, hlost]
  constructor
  case count => simp [hfilled]
  case fill => simp [hfilled]
  case skip =>
    intro _
    exact ⟨reason, by simp, by simp⟩
  case wallet =>
    intro _ _ _ _
    rw [hdelta, add_zero, execSkip_book, skip_wallet]
  case net =>
    intro x hx
    rw [hearned, add_zero, execSkip_book, skip_netTotal, hx]
  case ok => simp [hfilled]
  case revert => simp [hreverted]
  case burned =>
    intro x hx
    rw [hburned, add_zero, execSkip_revertGasWei, hx]
  case lost =>
    intro x hx
    rw [hlost, add_zero, execSkip_execLossWei, hx]

theorem earn_spec {b : ExecBook} {opp : MevOpportunity} {a : ExecAttempt} {n : ℕ} {f : PaperFill}
    (hfail : a.fail = none) (hstatus : a.status = true) (hnet : 0 < a.netWei)
    (hf : FillFor opp f) (hfnet : f.netWei = a.netWei) :
    Settled opp a b
      { b with book := (b.book.applyWalletDelta a.netWei).fill f, execOk := b.execOk + 1 } n
      (n + 1) := by
  have hfilled : a.filled = true := by simp [ExecAttempt.filled, hfail, hstatus, hnet]
  have hreverted : a.reverted = false := by simp [ExecAttempt.reverted, hfail, hstatus]
  have hearned : a.earned = a.netWei := by simp [ExecAttempt.earned, hfilled]
  have hburned : a.burned = 0 := by simp [ExecAttempt.burned, hreverted]
  have hlost : a.lost = 0 := if_neg fun h => absurd h.2.2 (by omega)
  have hdelta : a.delta = a.netWei := by simp [ExecAttempt.delta, hearned, hburned, hlost]
  constructor
  case count => simp [hfilled]
  case fill =>
    intro _
    exact ⟨f, hf, by simp, by simp⟩
  case skip => simp [hfilled]
  case wallet =>
    intro _ _ _ hhi
    rw [hdelta] at hhi ⊢
    rw [fill_wallet, applyWalletDelta_wallet]
    exact saturatingAddSigned_of_nonneg hnet.le hhi
  case net =>
    intro x hx
    rw [hearned, fill_netTotal, applyWalletDelta_netTotal, hx, wrapSigned_add_wrapSigned, hfnet]
  case ok => simp [hfilled]
  case revert => simp [hreverted]
  case burned =>
    intro x hx
    rw [hburned, add_zero, hx]
  case lost =>
    intro x hx
    rw [hlost, add_zero, hx]

/-- Every outcome of an attempt is booked once. -/
theorem settle_spec (simMode : SimMode) (execMode : String) (b : ExecBook) (n : ℕ)
    (opp : MevOpportunity) (a : ExecAttempt) :
    Settled opp a b (settle simMode execMode opp.blockNumber b n opp a).1 n
      (settle simMode execMode opp.blockNumber b n opp a).2 := by
  unfold settle
  cases hfail : a.fail with
  | some reason =>
    dsimp only
    have hfilled : a.filled = false := by simp [ExecAttempt.filled, hfail]
    by_cases hreason : reason = .execRevert
    · rw [if_pos hreason]
      refine revert_spec hfilled ?_ ?_
      · simp [ExecAttempt.reverted, hfail, hreason]
      · simp [ExecAttempt.lost, hfail]
    · rw [if_neg hreason]
      exact fail_spec hfail hreason
  | none =>
    dsimp only
    by_cases hstatus : a.status = true
    · rw [if_neg (by simp [hstatus])]
      by_cases hnet : a.netWei ≤ 0
      · rw [if_pos hnet]
        exact lose_spec hfail hstatus hnet
      · rw [if_neg hnet]
        exact earn_spec hfail hstatus (by omega) ⟨rfl, rfl, rfl, rfl, rfl⟩ rfl
    · rw [if_pos hstatus]
      refine revert_spec ?_ ?_ ?_
      · simp [ExecAttempt.filled, hstatus]
      · simp [ExecAttempt.reverted, hfail, hstatus]
      · simp [ExecAttempt.lost, hstatus]

/-! ## The run -/

/-- The charge of the call fits, and the wallet stays in `u128`. -/
def Call.Fits (c : Call) : Prop :=
  (c.attempt.reverted = true → c.attempt.gasWei ≤ 2 ^ 127) ∧
    0 ≤ (c.wallet : ℤ) + c.attempt.delta ∧ (c.wallet : ℤ) + c.attempt.delta < 2 ^ 128

/-- Every call gets the wallet that the calls before it left, from `w` to `w'`. -/
def CallChain (w : ℕ) : List Call → ℕ → Prop
  | [], w' => w = w'
  | c :: log, w' => c.wallet = w ∧ ∃ m : ℕ, (m : ℤ) = w + c.attempt.delta ∧ CallChain m log w'

theorem callChain_concat {w m m' : ℕ} {log : List Call} {c : Call} (h : CallChain w log m)
    (hwallet : c.wallet = m) (hm' : (m' : ℤ) = m + c.attempt.delta) :
    CallChain w (log ++ [c]) m' := by
  induction log generalizing w with
  | nil =>
    obtain rfl : w = m := h
    exact ⟨hwallet, m', hm', rfl⟩
  | cons d log ih =>
    obtain ⟨hd, m, hm, hlog⟩ := h
    exact ⟨hd, m, hm, ih hlog⟩

theorem callChain_sum {w w' : ℕ} {log : List Call} (h : CallChain w log w') :
    (w' : ℤ) = w + (log.map (·.attempt.delta)).sum := by
  induction log generalizing w with
  | nil => simp [show w = w' from h]
  | cons c log ih =>
    obtain ⟨-, m, hm, hlog⟩ := h
    have := ih hlog
    rw [List.map_cons, List.sum_cons]
    omega

/-- The opportunity of the call passed the gates after the calls `before`. -/
structure GatePassed (policy : LedgerPolicy) (before : List Call) (c : Call) : Prop where
  simulatable : isSimulatable c.opp.strategy = true
  native : isNativeEligible c.opp.strategy = true
  net : 0 < netWei c.opp
  cap : (before.filter fun d =>
    d.opp.blockNumber = c.opp.blockNumber ∧ d.attempt.filled = true).length < policy.maxFills
  reserve : policy.reserveWei < c.wallet
  gas : c.opp.gasCostWei ≤ c.wallet - policy.reserveWei

/-- What the books and the calls satisfy after the opportunities `done`. -/
structure ExecAccounts (policy : LedgerPolicy) (done : List MevOpportunity) (b : ExecBook)
    (log : List Call) : Prop where
  booked : Booked FillFor done b.book.fills b.book.skips
  order : (log.map (·.opp)).Sublist done
  gated : ∀ before c, before ++ [c] <+: log → GatePassed policy before c
  ok : b.execOk = b.book.fills.length
  revert : b.execRevert = (log.filter (·.attempt.reverted)).length
  net : b.book.netTotal = wrapSigned 128 (log.map (·.attempt.earned)).sum
  burned : b.revertGasWei = min (log.map (·.attempt.burned)).sum (2 ^ 128 - 1)
  lost : b.execLossWei = min (log.map (·.attempt.lost)).sum (2 ^ 128 - 1)
  chain : (∀ c ∈ log, c.Fits) →
    CallChain policy.startingGasWei log b.book.wallet ∧ b.book.wallet < 2 ^ 128

theorem execGate_eq_none {policy : LedgerPolicy} {wallet n : ℕ} {opp : MevOpportunity}
    (h : policy.execGate wallet n opp = none) :
    isSimulatable opp.strategy = true ∧ isNativeEligible opp.strategy = true ∧ 0 < netWei opp ∧
      n < policy.maxFills ∧ policy.reserveWei < wallet ∧
      opp.gasCostWei ≤ wallet - policy.reserveWei := by
  unfold LedgerPolicy.execGate at h
  split_ifs at h with hsim helig hnet hcap hreserve hgas
  exact ⟨by simpa using hsim, by simpa using helig, by omega, by omega, by omega, by omega⟩

section Run

variable {ρ : Type*} {policy : LedgerPolicy} {simMode : SimMode} {execMode : String}
  {run : Callback ρ}

/-- An opportunity is skipped before the callback, or it passes the gates and its attempt is
    settled and recorded. -/
theorem applyExecutedStep_cases (block : ℕ) (t : (ExecBook × ρ × List Call) × ℕ)
    (opp : MevOpportunity) :
    (∃ reason, policy.applyExecutedStep simMode execMode (recording run) block t opp =
        ((t.1.1.skip block opp reason, t.1.2), t.2)) ∨
      policy.execGate t.1.1.book.wallet t.2 opp = none ∧ ∃ a s,
        policy.applyExecutedStep simMode execMode (recording run) block t opp =
          (((settle simMode execMode block t.1.1 t.2 opp a).1, s,
              t.1.2.2 ++ [⟨opp, t.1.1.book.wallet, a⟩]),
            (settle simMode execMode block t.1.1 t.2 opp a).2) := by
  unfold LedgerPolicy.applyExecutedStep
  cases hgate : policy.execGate t.1.1.book.wallet t.2 opp with
  | some reason => exact .inl ⟨reason, by simp only [hgate]⟩
  | none =>
    refine .inr ⟨rfl, (run t.1.2.1 opp t.1.1.book.wallet).1,
      (run t.1.2.1 opp t.1.1.book.wallet).2, ?_⟩
    simp only [hgate, recording]

theorem execAccounts_skip {done : List MevOpportunity} {b : ExecBook} {log : List Call}
    (h : ExecAccounts policy done b log) (opp : MevOpportunity) (reason : FillSkipReason) :
    ExecAccounts policy (done ++ [opp]) (b.skip opp.blockNumber opp reason) log :=
  ⟨booked_skip h.booked opp reason, h.order.trans (List.sublist_append_left ..), h.gated, h.ok,
    h.revert, h.net, h.burned, h.lost, h.chain⟩

theorem execAccounts_settle {done : List MevOpportunity} {b b' : ExecBook} {log : List Call}
    {n n' : ℕ} {opp : MevOpportunity} {a : ExecAttempt} (h : ExecAccounts policy done b log)
    (hsettle : Settled opp a b b' n n')
    (hgate : GatePassed policy log ⟨opp, b.book.wallet, a⟩) :
    ExecAccounts policy (done ++ [opp]) b' (log ++ [⟨opp, b.book.wallet, a⟩]) := by
  constructor
  case booked =>
    cases hfilled : a.filled with
    | true =>
      obtain ⟨f, hf, hfills, hskips⟩ := hsettle.fill hfilled
      rw [hfills, hskips]
      exact booked_fill h.booked hf
    | false =>
      obtain ⟨reason, hfills, hskips⟩ := hsettle.skip hfilled
      rw [hfills, hskips]
      exact booked_skip h.booked opp reason
  case order =>
    rw [List.map_append]
    exact h.order.append (List.Sublist.refl _)
  case gated =>
    intro before c hprefix
    rcases List.prefix_concat_iff.mp hprefix with heq | hprefix
    · obtain ⟨rfl, hc⟩ := List.append_inj' heq rfl
      obtain rfl := List.singleton_inj.mp hc
      exact hgate
    · exact h.gated before c hprefix
  case ok =>
    rw [hsettle.ok, h.ok]
    cases hfilled : a.filled with
    | true =>
      obtain ⟨f, -, hfills, -⟩ := hsettle.fill hfilled
      simp [hfills]
    | false =>
      obtain ⟨reason, hfills, -⟩ := hsettle.skip hfilled
      simp [hfills]
  case revert =>
    rw [hsettle.revert, h.revert, List.filter_append, List.length_append]
    cases hreverted : a.reverted <;> simp [hreverted]
  case net =>
    rw [hsettle.net _ h.net, List.map_append, List.sum_append]
    simp
  case burned =>
    rw [hsettle.burned _ h.burned, List.map_append, List.sum_append]
    simp
  case lost =>
    rw [hsettle.lost _ h.lost, List.map_append, List.sum_append]
    simp
  case chain =>
    intro hfits
    obtain ⟨hchain, hlt⟩ := h.chain fun c hc => hfits c (List.mem_append_left _ hc)
    obtain ⟨hcharge, hlo, hhi⟩ := hfits ⟨opp, b.book.wallet, a⟩ (by simp)
    have hwallet := hsettle.wallet hlt hcharge hlo hhi
    have hhi : (b.book.wallet : ℤ) + a.delta < 2 ^ 128 := hhi
    exact ⟨callChain_concat hchain rfl hwallet, by omega⟩

/-- The state inside block `k`: the local counter counts the fills of the block. -/
def InBlock (policy : LedgerPolicy) (k : ℕ) (done : List MevOpportunity)
    (t : (ExecBook × ρ × List Call) × ℕ) : Prop :=
  ExecAccounts policy done t.1.1 t.1.2.2 ∧
    t.2 = (t.1.2.2.filter fun c => c.opp.blockNumber = k ∧ c.attempt.filled = true).length

theorem inBlock_start {k : ℕ} {done : List MevOpportunity} {s : ExecBook × ρ × List Call}
    (hlt : ∀ opp ∈ done, opp.blockNumber < k) (h : ExecAccounts policy done s.1 s.2.2) :
    InBlock policy k done (s, 0) := by
  refine ⟨h, ?_⟩
  rw [List.filter_eq_nil_iff.mpr ?_]
  · rfl
  · intro c hc
    have := hlt c.opp (h.order.subset (List.mem_map_of_mem hc))
    simp
    omega

theorem inBlock_step {k : ℕ} {done : List MevOpportunity} {t : (ExecBook × ρ × List Call) × ℕ}
    {opp : MevOpportunity} (hk : opp.blockNumber = k) (h : InBlock policy k done t) :
    InBlock policy k (done ++ [opp])
      (policy.applyExecutedStep simMode execMode (recording run) k t opp) := by
  subst hk
  obtain ⟨haccounts, hcount⟩ := h
  obtain ⟨reason, hstep⟩ | ⟨hgate, a, s, hstep⟩ :=
    applyExecutedStep_cases (ρ := ρ) opp.blockNumber t opp
  · rw [hstep]
    exact ⟨execAccounts_skip haccounts opp reason, hcount⟩
  · rw [hstep]
    obtain ⟨hsim, helig, hnet, hcap, hreserve, hgas⟩ := execGate_eq_none hgate
    have hsettle := settle_spec simMode execMode t.1.1 t.2 opp a
    have hpassed : GatePassed policy t.1.2.2 ⟨opp, t.1.1.book.wallet, a⟩ :=
      ⟨hsim, helig, hnet, hcount ▸ hcap, hreserve, hgas⟩
    refine ⟨execAccounts_settle haccounts hsettle hpassed, ?_⟩
    rw [hsettle.count, List.filter_append, List.length_append, ← hcount]
    cases hfilled : a.filled <;> simp [hfilled]

/-- The books that `apply_executed` ends with account for its calls. -/
theorem execAccounts_calls (policy : LedgerPolicy) (simMode : SimMode) (execMode : String)
    (run : Callback ρ) (s : ρ) (opps : List MevOpportunity) :
    ∃ b : ExecBook,
      ExecAccounts policy (Grouping.inOrder (·.blockNumber) Before opps) b
        (policy.calls simMode execMode run s opps) ∧
      (policy.applyExecuted simMode execMode run s opps).1 =
        { b.book.result policy opps simMode with
          execMode := execMode
          execOk := b.execOk
          execRevert := b.execRevert
          revertGasWei := b.revertGasWei
          execLossWei := b.execLossWei } := by
  have hinit : ExecAccounts policy [] { book := policy.book } [] :=
    ⟨booked_nil _, .slnil, by simp, rfl, rfl, rfl, rfl, rfl,
      fun _ => ⟨rfl, policy.startingGasWei_lt⟩⟩
  have hrun : ∀ t, t = Grouping.overGroups (·.blockNumber) Before 0
      (policy.applyExecutedStep simMode execMode (recording run))
        (({ book := policy.book } : ExecBook), s, []) opps →
      ExecAccounts policy (Grouping.inOrder (·.blockNumber) Before opps) t.1 t.2.2 := by
    rintro t rfl
    exact Grouping.overGroups_induct
      (fun done (b : ExecBook × ρ × List Call) => ExecAccounts policy done b.1 b.2.2)
      (InBlock policy) hinit (fun k done s hlt h => inBlock_start hlt h)
      (fun k done t opp _ hk h => inBlock_step hk h) fun k done t h => h.1
  exact ⟨_, hrun _ rfl, (applyExecuted_recording policy simMode execMode run s opps).symm⟩

end Run

/-! ## The wallet -/

/-- What `apply_executed` leaves of a wallet after an attempt. -/
def ExecAttempt.walletAfter (a : ExecAttempt) (wallet : ℕ) : ℕ :=
  if a.reverted then
    if 0 < a.gasWei then
      saturatingAddSigned 128 wallet (wrapSigned 128 (-asSigned 128 a.gasWei))
    else wallet
  else if a.fail = none then saturatingAddSigned 128 wallet a.netWei
  else wallet

theorem settle_wallet (simMode : SimMode) (execMode : String) (block : ℕ) (b : ExecBook) (n : ℕ)
    (opp : MevOpportunity) (a : ExecAttempt) :
    (settle simMode execMode block b n opp a).1.book.wallet = a.walletAfter b.book.wallet := by
  unfold settle ExecAttempt.walletAfter
  cases hfail : a.fail with
  | some reason =>
    dsimp only
    by_cases hreason : reason = .execRevert
    · have hreverted : a.reverted = true := by simp [ExecAttempt.reverted, hfail, hreason]
      rw [if_pos hreason, if_pos hreverted]
      exact revert_wallet b a
    · have hreverted : a.reverted = false := by simp [ExecAttempt.reverted, hfail, hreason]
      rw [if_neg hreason, hreverted]
      rfl
  | none =>
    dsimp only
    by_cases hstatus : a.status = true
    · have hreverted : a.reverted = false := by simp [ExecAttempt.reverted, hfail, hstatus]
      rw [if_neg (by simp [hstatus]), hreverted]
      by_cases hnet : a.netWei ≤ 0
      · rw [if_pos hnet]
        exact lose_wallet b a
      · rw [if_neg hnet]
        rfl
    · have hreverted : a.reverted = true := by simp [ExecAttempt.reverted, hfail, hstatus]
      rw [if_pos hstatus, if_pos hreverted]
      exact revert_wallet b a

/-- What every call keeps of the wallet and the state of the callback holds of the ending wallet. -/
theorem applyExecuted_induct_wallet {ρ : Type*} {policy : LedgerPolicy} {simMode : SimMode}
    {execMode : String} {run : Callback ρ} {opps : List MevOpportunity} (P : ℕ → ρ → Prop) {s : ρ}
    (h : P policy.startingGasWei s)
    (hrun : ∀ w s opp, opp ∈ opps → P w s →
      P ((run s opp w).1.walletAfter w) (run s opp w).2) :
    P (policy.applyExecuted simMode execMode run s opps).1.endingGasWei
      (policy.applyExecuted simMode execMode run s opps).2 := by
  refine Grouping.overGroups_induct (σ := ExecBook × ρ) (fun _ t => P t.1.book.wallet t.2)
    (fun _ _ t => P t.1.1.book.wallet t.1.2) h (fun _ _ _ _ h => h) (fun k _ t opp hopp _ h => ?_)
    fun _ _ _ h => h
  unfold LedgerPolicy.applyExecutedStep
  dsimp only
  cases policy.execGate t.1.1.book.wallet t.2 opp with
  | some reason => exact h
  | none =>
    show P (settle _ _ _ _ _ _ _).1.book.wallet _
    rw [settle_wallet]
    exact hrun _ _ opp hopp h

/-- A reverted attempt takes its gas from the wallet. -/
theorem ExecAttempt.walletAfter_of_reverted {a : ExecAttempt} {wallet : ℕ}
    (h : a.reverted = true) (hgas : a.gasWei < 2 ^ 127) :
    a.walletAfter wallet = wallet - a.gasWei := by
  unfold walletAfter
  rw [if_pos h, asSigned_eq (w := 127) hgas, wrapSigned_eq (w := 127) (by omega) (by omega)]
  unfold saturatingAddSigned
  split_ifs <;> omega

/-- A successful attempt books its net, down to zero. -/
theorem ExecAttempt.walletAfter_of_ran {a : ExecAttempt} {wallet : ℕ} (hstatus : a.status = true)
    (hfail : a.fail = none) (hwallet : (wallet : ℤ) + a.netWei < 2 ^ 128) :
    a.walletAfter wallet = (wallet + a.netWei).toNat := by
  unfold walletAfter
  rw [if_neg (by simp [reverted, hfail, hstatus]), if_pos hfail]
  unfold saturatingAddSigned saturatingAdd
  split_ifs <;> omega

theorem ExecAttempt.walletAfter_of_fail {a : ExecAttempt} {wallet : ℕ} {reason : FillSkipReason}
    (hfail : a.fail = some reason) (hreason : reason ≠ .execRevert) :
    a.walletAfter wallet = wallet := by
  unfold walletAfter
  rw [if_neg (by simp [reverted, hfail, hreason]), if_neg (by simp [hfail])]

/-! ## The ledger -/

/-- What the executed ledger and its calls satisfy. -/
structure ExecutedOk (policy : LedgerPolicy) (opps : List MevOpportunity) (r : LedgerResult)
    (log : List Call) : Prop where
  /-- Every opportunity has one fill or one skip. -/
  booked : Booked FillFor opps r.fills r.skips
  ok : r.execOk = r.fills.length
  revert : r.execRevert = (log.filter (·.attempt.reverted)).length
  /-- The calls follow the order in which `apply` considers the opportunities. -/
  order : (log.map (·.opp)).Sublist (Grouping.inOrder (·.blockNumber) Before opps)
  gated : ∀ before c, before ++ [c] <+: log → GatePassed policy before c
  chain : CallChain policy.startingGasWei log r.endingGasWei
  ending : (r.endingGasWei : ℤ) =
    policy.startingGasWei + r.netProfitWei - r.revertGasWei - r.execLossWei

theorem sum_delta (log : List Call) :
    (log.map (·.attempt.delta)).sum = (log.map (·.attempt.earned)).sum -
      ((log.map (·.attempt.burned)).sum : ℕ) - ((log.map (·.attempt.lost)).sum : ℕ) := by
  induction log with
  | nil => rfl
  | cons c log ih =>
    have hdelta : c.attempt.delta = c.attempt.earned - c.attempt.burned - c.attempt.lost := rfl
    simp only [List.map_cons, List.sum_cons, Nat.cast_add]
    omega

theorem earned_nonneg (a : ExecAttempt) : 0 ≤ a.earned := by
  unfold ExecAttempt.earned
  split_ifs with hfilled
  · have : a.fail = none ∧ a.status = true ∧ 0 < a.netWei := by
      simpa [ExecAttempt.filled] using hfilled
    omega
  · rfl

/-- **Main theorem.** For every callback, as long as no charge, wallet or total leaves its
    type, `apply_executed` books every opportunity once, calls the callback behind the gates
    with the current wallet and in the order of `apply`, and its totals add up. -/
theorem executed_accounts {ρ : Type*} (policy : LedgerPolicy) (simMode : SimMode)
    (execMode : String) (run : Callback ρ) (s : ρ) (opps : List MevOpportunity)
    (hfits : ∀ c ∈ policy.calls simMode execMode run s opps, c.Fits)
    (hnet : ((policy.calls simMode execMode run s opps).map (·.attempt.earned)).sum < 2 ^ 127)
    (hburned : ((policy.calls simMode execMode run s opps).map (·.attempt.burned)).sum < 2 ^ 128)
    (hlost : ((policy.calls simMode execMode run s opps).map (·.attempt.lost)).sum < 2 ^ 128) :
    ExecutedOk policy opps (policy.applyExecuted simMode execMode run s opps).1
      (policy.calls simMode execMode run s opps) := by
  obtain ⟨b, h, hresult⟩ := execAccounts_calls policy simMode execMode run s opps
  rw [hresult]
  generalize policy.calls simMode execMode run s opps = log at *
  obtain ⟨hchain, -⟩ := h.chain hfits
  refine ⟨h.booked.perm (Grouping.inOrder_perm opps), h.ok, h.revert, h.order, h.gated, hchain, ?_⟩
  have hnonneg : 0 ≤ (log.map (·.attempt.earned)).sum := by
    refine List.sum_nonneg fun x hx => ?_
    obtain ⟨c, -, rfl⟩ := List.mem_map.mp hx
    exact earned_nonneg c.attempt
  have hnetEq := h.net.trans (wrapSigned_eq (w := 127) (by omega) hnet)
  have hburnedEq := h.burned.trans (min_eq_left (Nat.le_sub_one_of_lt hburned))
  have hlostEq := h.lost.trans (min_eq_left (Nat.le_sub_one_of_lt hlost))
  have hsum := callChain_sum hchain
  rw [sum_delta] at hsum
  show (b.book.wallet : ℤ) =
    policy.startingGasWei + b.book.netTotal - b.revertGasWei - b.execLossWei
  rw [hnetEq, hburnedEq, hlostEq]
  omega

/-- A callback that answers with the attempts of a list, then with reverts. -/
def answering : Callback (List ExecAttempt) := fun answers _ _ =>
  match answers with
  | [] =>
    ({ status := false, netWei := 0, gasUsed := 0, gasWei := 0, txHash := none, fail := none }, [])
  | a :: answers => (a, answers)

/-- A successful attempt. -/
def ran (net : ℤ) (h : -2 ^ 127 ≤ net ∧ net < 2 ^ 127 := by decide) : ExecAttempt :=
  { status := true
    netWei := net
    gasUsed := 21000
    gasWei := 0
    txHash := none
    fail := none
    netWei_mem := h }

/-- A reverted attempt. -/
def burnt (gas : ℕ) (h : gas < 2 ^ 128 := by decide) : ExecAttempt :=
  { status := false
    netWei := 0
    gasUsed := 21000
    gasWei := gas
    txHash := none
    fail := some .execRevert
    gasWei_lt := h }

theorem executed_accounts_three :
    let opps := [plainOpp 1 500 100, plainOpp 2 500 100, plainOpp 3 500 100]
    let answers := [ran 30, burnt 20, ran (-10)]
    ExecutedOk (plainPolicy 1000 0) opps
      ((plainPolicy 1000 0).applyExecuted .assumed "revm" answering answers opps).1
      ((plainPolicy 1000 0).calls .assumed "revm" answering answers opps) :=
  executed_accounts _ _ _ _ _ _ (by unfold Call.Fits; decide) (by decide) (by decide) (by decide)

/-- Three nets of `2 ^ 126` wrap the net total, and the charge of a reverted attempt that costs
    more than `2 ^ 127` is added to the wallet. -/
theorem executed_totals_wrap :
    let opps := [plainOpp 1 500 100, plainOpp 2 500 100, plainOpp 3 500 100]
    let nets := (plainPolicy 1000 0).applyExecuted .assumed "revm" answering
      [ran (2 ^ 126), ran (2 ^ 126), ran (2 ^ 126)] opps
    let gas := (plainPolicy (2 ^ 127 + 10) 0).applyExecuted .assumed "revm" answering
      [burnt (2 ^ 127 + 1)] [plainOpp 1 500 100]
    (nets.1.endingGasWei = 1000 + 3 * 2 ^ 126 ∧ (nets.1.endingGasWei : ℤ) ≠
        1000 + nets.1.netProfitWei - nets.1.revertGasWei - nets.1.execLossWei) ∧
      (gas.1.endingGasWei = 2 ^ 128 - 1 ∧ gas.1.revertGasWei = 2 ^ 127 + 1 ∧
        gas.1.netProfitWei = 0 ∧ gas.1.execLossWei = 0) := by
  decide +kernel

end MevScout.Paper
