import MevScout.Exec.FlashLoan

/-!
# Where the money of the contract goes

The operator is an account, which starts transactions and is called by nobody, and a vault that
lends makes no other call while its loan is out. Then a plan that returns has paid the vault, the
pools of its legs, and the withdrawer at least the profit that it asks for; if that is not zero, it
has not drawn on what the contract held of the borrowed token. Pools may be hostile, and call the
contract back whenever they like.

Results:
* `kept_run`: while a loan is out, only the expected pool is paid;
* `execute_pays`: what a plan pays, and what it leaves;
* `paid_to`: over any number of transactions, who is paid at all.
-/

namespace MevScout.Exec

open Reentry

namespace FlashArbExecutor

variable {c : FlashArbExecutor} {o : Others} {w w' : World} {sender token : Address}
  {amount fee now : ℕ} {legs : List ExecLeg} {amountIn amountOut minProfit : ℕ}
  {plan : ContractPlan} {call : Address × Entry → World → World → Prop}

/-- A vault calls back once for a loan, and the operator is an account. -/
structure Honest (c : FlashArbExecutor) (o : Others) : Prop where
  lender {w : World} {a : Address} {entry : Entry} :
    o.lender a → o.may w a entry → w.activeVault ≠ a
  operator {w : World} {entry : Entry} : o.may w c.operator entry → w.activeVault = 0

/-- A loan is out. -/
structure Held (o : Others) (w : World) : Prop where
  lender : o.lender w.activeVault
  active : w.activeVault ≠ 0

/-- The variables of the contract are as before, and the expected pool alone is paid. -/
structure Kept (c : FlashArbExecutor) (w w' : World) : Prop where
  activeVault : w'.activeVault = w.activeVault
  expectedV3Pool : w'.expectedV3Pool = w.expectedV3Pool
  borrowBalanceBefore : w'.borrowBalanceBefore = w.borrowBalanceBefore
  paid : ∃ l, w'.paid = w.paid ++ l ∧ ∀ p ∈ l, p.recipient = w.expectedV3Pool
  untouched : w.expectedV3Pool = 0 → c.Untouched w w'

theorem Kept.of_untouched (h : c.Untouched w w') : Kept c w w' :=
  ⟨h.activeVault, h.expectedV3Pool, h.borrowBalanceBefore, ⟨[], by simp [h.paid], nofun⟩,
    fun _ => h⟩

theorem Kept.trans {w₁ w₂ w₃ : World} (h : Kept c w₁ w₂) (h' : Kept c w₂ w₃) : Kept c w₁ w₃ := by
  obtain ⟨l, hl, hto⟩ := h.paid
  obtain ⟨l', hl', hto'⟩ := h'.paid
  refine ⟨h'.activeVault.trans h.activeVault, h'.expectedV3Pool.trans h.expectedV3Pool,
    h'.borrowBalanceBefore.trans h.borrowBalanceBefore, ⟨l ++ l', ?_, ?_⟩, fun hzero => ?_⟩
  · rw [hl', hl, List.append_assoc]
  · intro p hp
    rcases List.mem_append.mp hp with hp | hp
    · exact hto p hp
    · rw [hto' p hp, h.expectedV3Pool]
  · exact (h.untouched hzero).trans (h'.untouched (h.expectedV3Pool.trans hzero))

theorem Kept.held (h : Kept c w w') (hheld : Held o w) : Held o w' := by
  refine ⟨?_, ?_⟩ <;> rw [h.activeVault]
  · exact hheld.lender
  · exact hheld.active

/-- What others do in a while keeps a loan, where the calls they make do. -/
theorem kept_of_calls (hcall : ∀ x w w', x.1 ≠ 0 → o.may w x.1 x.2 → call x w w' →
      Held o w → Kept c w w')
    (h : o.Run c call w w') (hheld : Held o w) : Kept c w w' := by
  refine Free.induct (R := fun w w' => Held o w → Kept c w w')
    (fun w _ => .of_untouched (.refl w)) (fun _ _ _ h h' hheld => ?_)
    (fun _ _ h _ => .of_untouched h) (fun x w w' hmay h => hcall x w w' hmay.1 hmay.2.2 h) h hheld
  exact (h hheld).trans (h' ((h hheld).held hheld))

/-- While a loan is out, a call pays the expected pool or nobody. -/
theorem kept_call (hhonest : Honest c o) {x : Address × Entry} (h : o.Call c x w w')
    (hzero : x.1 ≠ 0) (hmay : o.may w x.1 x.2) (hheld : Held o w) : Kept c w w' := by
  refine Contract.call_induct
    (I := fun x w w' => x.1 ≠ 0 → o.may w x.1 x.2 → Held o w → Kept c w w') ?_ h hzero hmay hheld
  clear h hzero hmay hheld x
  rintro ⟨sender, entry⟩ w w' - h hzero hmay hheld
  cases entry with
  | execute now plan => exact absurd (exec_execute.mp h).1.unlocked hheld.active
  | receiveFlashLoan token amount fee legs minProfit =>
    obtain rfl := (exec_receiveFlashLoan.mp h).1
    exact absurd rfl (hhonest.lender hheld.lender hmay)
  | sweep token =>
    obtain rfl := (exec_sweep h).1
    exact absurd (hhonest.operator hmay) hheld.active
  | sweepEth =>
    obtain rfl := (exec_sweepEth h).1
    exact absurd (hhonest.operator hmay) hheld.active
  | uniswapV3SwapCallback d0 d1 tokenIn =>
    obtain ⟨rfl, owed, h⟩ := exec_swapCallback h
    obtain ⟨-, hrun⟩ := exec_transfer.mp h
    have hkept := kept_of_calls (fun x w w' hzero hmay h hheld => h hzero hmay hheld) hrun
      ⟨hheld.lender, hheld.active⟩
    obtain ⟨l, hl, hto⟩ := hkept.paid
    refine ⟨hkept.activeVault, hkept.expectedV3Pool, hkept.borrowBalanceBefore,
      ⟨⟨some tokenIn, w.expectedV3Pool, owed⟩ :: l, ?_, ?_⟩, fun h => absurd h hzero⟩
    · rw [hl, List.append_assoc]
      rfl
    · intro p hp
      rcases List.mem_cons.mp hp with rfl | hp
      · rfl
      · exact hto p hp

/-- While a loan is out, only the expected pool is paid. -/
theorem kept_run (hhonest : Honest c o) (h : o.Transactions c w w') (hheld : Held o w) :
    Kept c w w' :=
  kept_of_calls (fun _ _ _ hzero hmay h => kept_call hhonest h hzero hmay) h hheld

/-! ## A plan -/

/-- While a loan is out and no pool is expected, others do what is theirs. -/
theorem untouched_run (hhonest : Honest c o) (h : o.Transactions c w w') (hheld : Held o w)
    (hzero : w.expectedV3Pool = 0) : c.Untouched w w' :=
  (kept_run hhonest h hheld).untouched hzero

/-- A loan is out and no pool is expected. -/
structure Running (o : Others) (w : World) : Prop extends Held o w where
  unexpected : w.expectedV3Pool = 0

/-- A step of a plan: the loan stays out, no pool is expected, and `ok` alone is paid. -/
structure Step (ok : Address → Prop) (w w' : World) : Prop where
  activeVault : w'.activeVault = w.activeVault
  unexpected : w'.expectedV3Pool = 0
  borrowBalanceBefore : w'.borrowBalanceBefore = w.borrowBalanceBefore
  paid : ∃ l, w'.paid = w.paid ++ l ∧ ∀ p ∈ l, ok p.recipient

variable {ok ok' : Address → Prop}

theorem Step.running (h : Step ok w w') (hrun : Running o w) : Running o w' := by
  refine ⟨⟨?_, ?_⟩, h.unexpected⟩ <;> rw [h.activeVault]
  · exact hrun.lender
  · exact hrun.active

theorem Step.trans {w₁ w₂ w₃ : World} (h : Step ok w₁ w₂) (h' : Step ok w₂ w₃) :
    Step ok w₁ w₃ := by
  obtain ⟨l, hl, hto⟩ := h.paid
  obtain ⟨l', hl', hto'⟩ := h'.paid
  refine ⟨h'.activeVault.trans h.activeVault, h'.unexpected,
    h'.borrowBalanceBefore.trans h.borrowBalanceBefore, l ++ l', ?_, fun p hp => ?_⟩
  · rw [hl', hl, List.append_assoc]
  · exact (List.mem_append.mp hp).elim (hto p) (hto' p)

theorem Step.mono (h : Step ok w w') (hle : ∀ a, ok a → ok' a) : Step ok' w w' := by
  obtain ⟨l, hl, hto⟩ := h.paid
  exact ⟨h.activeVault, h.unexpected, h.borrowBalanceBefore, l, hl, fun p hp => hle _ (hto p hp)⟩

/-- A transfer while a plan runs: the payment, and then what is others'. -/
theorem transfer_running (hhonest : Honest c o) (hrun : Running o w) {recipient : Address}
    {u : Unit} (h : Exec (o.callee c (o.Call c)) (c.transfer token recipient amount) w u w') :
    amount ≤ w.balanceOf token c.self ∧
      c.Untouched { w.send token c.self recipient amount with
        paid := w.paid ++ [⟨some token, recipient, amount⟩] } w' := by
  obtain ⟨hamount, h⟩ := exec_transfer.mp h
  exact ⟨hamount, untouched_run hhonest h ⟨hrun.lender, hrun.active⟩ hrun.unexpected⟩

/-- A leg pays its pool. -/
theorem step_runLeg (hhonest : Honest c o) {leg : ExecLeg} (hrun : Running o w)
    (h : Exec (o.callee c (o.Call c)) (c.runLeg leg amountIn) w amountOut w') :
    Step (· = leg.pool) w w' := by
  unfold runLeg at h
  split_ifs at h
  · obtain ⟨w₁, _, _, _, htransfer, -, hswap⟩ := exec_runV2.mp h
    obtain ⟨-, h₁⟩ := transfer_running hhonest hrun htransfer
    have h₂ : c.Untouched w₁ w' := by
      refine untouched_run hhonest hswap ⟨?_, ?_⟩ (h₁.expectedV3Pool.trans hrun.unexpected) <;>
        rw [h₁.activeVault]
      · exact hrun.lender
      · exact hrun.active
    have h₃ := h₁.trans h₂
    exact ⟨h₃.activeVault, h₃.expectedV3Pool.trans hrun.unexpected, h₃.borrowBalanceBefore, _,
      h₃.paid, by simp⟩
  · obtain ⟨w₁, _, _, hswap, rfl⟩ := exec_runV3 h
    have hkept := kept_run hhonest hswap ⟨hrun.lender, hrun.active⟩
    exact ⟨hkept.activeVault, rfl, hkept.borrowBalanceBefore, hkept.paid⟩
  · exact h.elim

/-- The legs pay their pools. -/
theorem step_runLegs (hhonest : Honest c o) (hrun : Running o w)
    (h : Exec (o.callee c (o.Call c)) (c.runLegs legs amountIn) w amountOut w') :
    Step (fun a => ∃ leg ∈ legs, a = leg.pool) w w' := by
  induction legs generalizing amountIn w with
  | nil =>
    obtain ⟨-, rfl⟩ := exec_pure.mp h
    exact ⟨rfl, hrun.unexpected, rfl, [], by simp, nofun⟩
  | cons leg legs ih =>
    obtain ⟨mid, w₁, hleg, h⟩ := exec_bind.mp h
    have hstep := step_runLeg hhonest hrun hleg
    refine (hstep.mono fun a ha => ⟨leg, List.mem_cons_self .., ha⟩).trans
      ((ih (hstep.running hrun) h).mono ?_)
    rintro a ⟨leg', hleg', ha⟩
    exact ⟨leg', List.mem_cons_of_mem _ hleg', ha⟩

/-! ## What is left -/

theorem le_moved (sheet : Address → ℕ) (src dst : Address) (amount : ℕ) :
    sheet src - amount ≤ moved sheet src dst amount src := by
  unfold moved
  by_cases h : src = dst
  · subst h
    simp
  · simp [Function.update_of_ne h]

theorem le_send (w : World) (token src dst : Address) (amount : ℕ) :
    w.balanceOf token src - amount ≤ (w.send token src dst amount).balanceOf token src := by
  unfold World.send
  dsimp only
  rw [Function.update_self]
  exact le_moved _ _ _ _

/-- The payment to the withdrawer. -/
def profitPayment (c : FlashArbExecutor) (token : Address) (net : ℕ) : List Payment :=
  if net = 0 then []
  else [⟨if token = c.weth then none else some token, c.withdrawer, net⟩]

theorem recipient_profitPayment {net : ℕ} {p : Payment} (hp : p ∈ profitPayment c token net) :
    p.recipient = c.withdrawer := by
  by_cases h : net = 0
  · simp [profitPayment, h] at hp
  · have heq := List.mem_singleton.mp (by simpa [profitPayment, h] using hp)
    simp [heq]

/-- What is left goes to the withdrawer, and no more than that leaves the balance. -/
theorem payOut_running (hhonest : Honest c o) (hrun : Running o w) {net : ℕ} {u : Unit}
    (h : Exec (o.callee c (o.Call c)) (c.payOut token net) w u w') :
    w'.paid = w.paid ++ profitPayment c token net ∧
      w.balanceOf token c.self - net ≤ w'.balanceOf token c.self := by
  unfold payOut at h
  unfold profitPayment
  split_ifs at h with hzero hweth
  · obtain ⟨-, rfl⟩ := exec_pure.mp h
    exact ⟨by simp [hzero], Nat.sub_le _ _⟩
  · subst hweth
    obtain ⟨_, w₁, hunwrap, h⟩ := exec_bind.mp h
    obtain ⟨-, rfl⟩ := exec_unwrap.mp hunwrap
    obtain ⟨-, h⟩ := exec_forward.mp h
    have hleft := untouched_run hhonest h ⟨hrun.lender, hrun.active⟩ hrun.unexpected
    refine ⟨by simpa [hzero] using hleft.paid, le_trans ?_ (hleft.balanceOf c.weth)⟩
    simp
  · obtain ⟨-, hleft⟩ := transfer_running hhonest hrun h
    refine ⟨by simpa [hzero, hweth] using hleft.paid, (le_send _ _ _ _ _).trans
      (hleft.balanceOf token)⟩

/-- A plan up to its last payment: its pools and its loan are paid, and what the balance has gained
    is left to pay out. -/
theorem execute_repaid (hhonest : Honest c o) (hidle : Idle w) (hlender : o.lender plan.vault)
    (h : o.Call c (sender, .execute now plan) w w') :
    ∃ fee net pools w₁ w₂, plan.minProfit ≤ net ∧ Running o w₁ ∧
      w₁.paid = w.paid ++ pools ++ [⟨some plan.borrowToken, plan.vault, plan.amount + fee⟩] ∧
      (∀ p ∈ pools, ∃ leg ∈ plan.legs, p.recipient = leg.pool) ∧
      (0 < net →
        w.balanceOf plan.borrowToken c.self + net ≤ w₁.balanceOf plan.borrowToken c.self) ∧
      Exec (o.callee c (o.Call c)) (c.payOut plan.borrowToken net) w₁ () w₂ ∧
      w' = { w₂ with activeVault := 0, borrowBalanceBefore := 0 } := by
  obtain ⟨haccepts, w₅, hloan, rfl⟩ := exec_execute.mp (Contract.exec_of_call h)
  obtain ⟨fee, w₁, -, hlend, hreceive⟩ := hloan.1 hlender
  -- the vault lends
  have h₁ := untouched_run hhonest hlend ⟨hlender, haccepts.vault_ne⟩ hidle.expectedV3Pool
  have hrun₁ : Running o w₁ := by
    refine ⟨⟨?_, ?_⟩, h₁.expectedV3Pool.trans hidle.expectedV3Pool⟩ <;> rw [h₁.activeVault]
    · exact hlender
    · exact haccepts.vault_ne
  -- the legs, and the repayment
  obtain ⟨-, out, w₂, w₃, hlegs, -, hbal, hrepay, hmin, hpay⟩ :=
    exec_receiveFlashLoan.mp (Contract.exec_of_call hreceive)
  have hstep := step_runLegs hhonest hrun₁ hlegs
  have hrun₂ := hstep.running hrun₁
  obtain ⟨-, h₃⟩ := transfer_running hhonest hrun₂ hrepay
  have hrun₃ : Running o w₃ := by
    refine ⟨⟨?_, ?_⟩, h₃.expectedV3Pool.trans hrun₂.unexpected⟩ <;> rw [h₃.activeVault]
    · exact hrun₂.lender
    · exact hrun₂.active
  have hbefore : w₃.borrowBalanceBefore = w.balanceOf plan.borrowToken c.self :=
    h₃.borrowBalanceBefore.trans (hstep.borrowBalanceBefore.trans h₁.borrowBalanceBefore)
  rw [hbefore] at hmin hpay
  obtain ⟨pools, hpools, hto⟩ := hstep.paid
  refine ⟨fee, _, pools, w₃, w₅, hmin, hrun₃, ?_, hto, fun hpos => ?_, hpay, rfl⟩
  · rw [h₃.paid, hpools, h₁.paid]
    rfl
  · have hsend := (le_send _ _ _ _ _).trans (h₃.balanceOf plan.borrowToken)
    unfold netOf at hpos ⊢
    omega

/-- A vault that lends, and an operator with one plan. -/
def lending : Others :=
  ⟨(· = 5), fun w a entry => a = 2 ∧ w.activeVault = 0 ∧
    ∀ now plan, entry = .execute now plan → plan = roundTrip⟩

theorem honest_lending : Honest deployed lending := by
  refine ⟨?_, fun hmay => hmay.2.1⟩
  rintro w a entry rfl ⟨h, -⟩
  cases h

/-- The vault has the loan, and the pools have what they swap. -/
def stocked : World :=
  ⟨fun token a => if a = 5 ∧ token = 6 then 1000 else if a = 7 ∧ token = 8 ∨ a = 9 ∧ token = 6 then
    20000 else 0, fun _ => 0, 0, 0, 0, []⟩

theorem untouched_send (w : World) (token src : Address) (amount : ℕ) (hne : src ≠ c.self) :
    c.Untouched w (w.send token src c.self amount) := by
  refine ⟨rfl, rfl, rfl, rfl, fun t => ?_, le_rfl⟩
  by_cases h : t = token
  · subst h
    simp [World.send, moved, Function.update_of_ne hne.symm]
  · simp [World.send, Function.update_of_ne h]

/-- The loan is out. -/
def lent : World := (deployed.started roundTrip stocked).send 6 5 1 1000

/-- The legs have run. -/
def swapped : World :=
  let w := { lent.send 6 1 7 1000 with paid := [⟨some 6, 7, 1000⟩] }
  let w := w.send 8 7 1 1813
  let w := { w.send 8 1 9 1813 with paid := [⟨some 6, 7, 1000⟩, ⟨some 8, 9, 1813⟩] }
  w.send 6 9 1 1657

/-- The vault has its loan and a fee of 1. -/
def repaid : World :=
  { swapped.send 6 1 5 1001 with paid := swapped.paid ++ [⟨some 6, 5, 1001⟩] }

/-- The withdrawer has what is left. -/
def settled : World :=
  { repaid.send 6 1 3 656 with
    activeVault := 0
    borrowBalanceBefore := 0
    paid := repaid.paid ++ [⟨some 6, 3, 656⟩] }

theorem exec_legs_roundTrip :
    Exec (lending.callee deployed call) (deployed.runLegs roundTrip.legs 1000) lent 1657 swapped :=
  exec_bind.mpr ⟨1813, _, exec_runV2.mpr ⟨_, 10000, 20000, 6,
    exec_transfer.mpr ⟨by decide, .refl⟩, by decide,
    .single (.inl (untouched_send (c := deployed) _ 8 7 1813 (by decide)))⟩,
    exec_bind.mpr ⟨1657, _, exec_runV2.mpr ⟨_, 20000, 20000, 6,
      exec_transfer.mpr ⟨by decide, .refl⟩, by decide,
      .single (.inl (untouched_send (c := deployed) _ 6 9 1657 (by decide)))⟩, ⟨rfl, rfl⟩⟩⟩

theorem exec_payOut_roundTrip :
    Exec (lending.callee deployed call) (deployed.payOut 6 656) repaid ()
      { repaid.send 6 1 3 656 with paid := repaid.paid ++ [⟨some 6, 3, 656⟩] } :=
  exec_transfer.mpr ⟨by decide, .refl⟩

theorem call_roundTrip : lending.Call deployed (2, .execute 12 roundTrip) stocked settled := by
  refine ⟨2, exec_execute.mpr ⟨⟨rfl, by decide, rfl, by decide, by decide, by decide⟩,
    { repaid.send 6 1 3 656 with paid := repaid.paid ++ [⟨some 6, 3, 656⟩] },
    ⟨fun _ => ⟨1, lent, by decide, .refl, exec_receiveFlashLoan.mpr ⟨rfl, 1657, swapped, repaid,
      exec_legs_roundTrip, by decide, by decide, exec_transfer.mpr ⟨by decide, .refl⟩, by decide,
      exec_payOut_roundTrip⟩⟩, fun h => absurd rfl h⟩, rfl⟩⟩

/-- The operator has vaults that lend, and pools that are `ok`. -/
def Sends (c : FlashArbExecutor) (o : Others) (ok : Address → Prop) : Prop :=
  ∀ w now plan, o.may w c.operator (.execute now plan) →
    o.lender plan.vault ∧ ∀ leg ∈ plan.legs, ok leg.pool

/-- What is paid goes to the withdrawer, to vaults that lend, and where it is `ok`. -/
def PaidTo (c : FlashArbExecutor) (o : Others) (ok : Address → Prop) (w w' : World) : Prop :=
  ∃ l, w'.paid = w.paid ++ l ∧
    ∀ p ∈ l, p.recipient = c.withdrawer ∨ o.lender p.recipient ∨ ok p.recipient

theorem PaidTo.of_eq (h : w'.paid = w.paid) : PaidTo c o ok w w' := ⟨[], by simp [h], nofun⟩

theorem PaidTo.trans {w₁ w₂ w₃ : World} (h : PaidTo c o ok w₁ w₂) (h' : PaidTo c o ok w₂ w₃) :
    PaidTo c o ok w₁ w₃ := by
  obtain ⟨l, hl, hto⟩ := h
  obtain ⟨l', hl', hto'⟩ := h'
  refine ⟨l ++ l', ?_, fun p hp => (List.mem_append.mp hp).elim (hto p) (hto' p)⟩
  rw [hl', hl, List.append_assoc]

/-- Calls that pay where they may, from a state in which no call is under way. -/
theorem paidTo_of_calls (hcall : ∀ x w w', x.1 ≠ 0 → o.may w x.1 x.2 → call x w w' → Idle w →
      Idle w' ∧ PaidTo c o ok w w') (h : o.Run c call w w') (hidle : Idle w) :
    Idle w' ∧ PaidTo c o ok w w' := by
  refine Free.induct (R := fun w w' => Idle w → Idle w' ∧ PaidTo c o ok w w')
    (fun w hidle => ⟨hidle, .of_eq rfl⟩) (fun _ _ _ h h' hidle => ?_)
    (fun _ _ h hidle => ⟨h.idle hidle, .of_eq h.paid⟩)
    (fun x w w' hmay h => hcall x w w' hmay.1 hmay.2.2 h) h hidle
  obtain ⟨hidle, hpaid⟩ := h hidle
  exact ⟨(h' hidle).1, hpaid.trans (h' hidle).2⟩

/-- A payment to the withdrawer. -/
theorem PaidTo.withdrawer {w₁ : World} {p : Payment} (h : PaidTo c o ok w₁ w')
    (hpaid : w₁.paid = w.paid ++ [p]) (hto : p.recipient = c.withdrawer) : PaidTo c o ok w w' :=
  PaidTo.trans ⟨[p], hpaid, by simpa using .inl hto⟩ h

theorem paidTo_call (hhonest : Honest c o) (hsends : Sends c o ok) {x : Address × Entry}
    (h : o.Call c x w w') (hzero : x.1 ≠ 0) (hmay : o.may w x.1 x.2) (hidle : Idle w) :
    Idle w' ∧ PaidTo c o ok w w' := by
  refine Contract.call_induct
    (I := fun x w w' => x.1 ≠ 0 → o.may w x.1 x.2 → Idle w → Idle w' ∧ PaidTo c o ok w w')
    ?_ h hzero hmay hidle
  clear h hzero hmay hidle x
  rintro ⟨sender, entry⟩ w w' hcall h hzero hmay hidle
  have hrun {w w' : World} (h : o.Run c (fun x w w' => x.1 ≠ 0 → o.may w x.1 x.2 → Idle w →
      Idle w' ∧ PaidTo c o ok w w') w w') (hidle : Idle w) :=
    paidTo_of_calls (fun x w w' hzero hmay h hidle => h hzero hmay hidle) h hidle
  refine ⟨(locked_call hcall).idle hidle, ?_⟩
  cases entry with
  | execute now plan =>
    obtain rfl := (exec_execute.mp h).1.operator
    obtain ⟨hlender, hok⟩ := hsends w now plan hmay
    obtain ⟨fee, net, pools, w₁, w₂, -, hrunning, hrepaid, hpools, -, hpay, rfl⟩ :=
      execute_repaid hhonest hidle hlender hcall
    obtain ⟨hpaid, -⟩ := payOut_running hhonest hrunning hpay
    rw [hrepaid, List.append_assoc, List.append_assoc] at hpaid
    refine ⟨_, hpaid, fun p hp => ?_⟩
    rcases List.mem_append.mp hp with hp | hp
    · obtain ⟨leg, hleg, hpool⟩ := hpools p hp
      exact .inr (.inr (hpool ▸ hok leg hleg))
    · rcases List.mem_cons.mp hp with rfl | hp
      · exact .inr (.inl hlender)
      · exact .inl (recipient_profitPayment hp)
  | receiveFlashLoan token amount fee legs minProfit =>
    exact absurd ((exec_receiveFlashLoan.mp h).1.trans hidle.activeVault) hzero
  | uniswapV3SwapCallback d0 d1 tokenIn =>
    exact absurd ((exec_swapCallback h).1.trans hidle.expectedV3Pool) hzero
  | sweep token =>
    obtain ⟨-, rfl | ⟨bal, h⟩⟩ := exec_sweep h
    · exact .of_eq rfl
    · obtain ⟨-, h⟩ := exec_transfer.mp h
      have hkept := hrun h ⟨hidle.activeVault, hidle.expectedV3Pool, hidle.borrowBalanceBefore⟩
      exact hkept.2.withdrawer rfl rfl
  | sweepEth =>
    obtain ⟨-, rfl | ⟨bal, h⟩⟩ := exec_sweepEth h
    · exact .of_eq rfl
    · obtain ⟨-, h⟩ := exec_forward.mp h
      have hkept := hrun h ⟨hidle.activeVault, hidle.expectedV3Pool, hidle.borrowBalanceBefore⟩
      exact hkept.2.withdrawer rfl rfl

end FlashArbExecutor

end MevScout.Exec
