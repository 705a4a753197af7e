import MevScout.Common.Claims
import MevScout.Explorer.Legs

/-!
# Backruns and frontruns

Models of `core/src/explorer/classify/causal.rs`. A backrun closes a cycle after a swap of someone
else moved the price of a pool; a frontrun moves the price before the swap of a victim, and the
searcher's transfers up to a later transaction net a profit. The rows of dropped candidates, which
no pass reads, are left out.

Results:
* `classifyBackruns_spec`: the backruns stand at transactions that are not consumed, one for each
  transaction of a pool;
* `classifyFrontruns_spec`: the frontruns stand at transactions that are not consumed, one for
  each transaction of a pool and each victim.
-/

namespace MevScout.Explorer

open Claims

/-! ## Backruns -/

/-- The scan for the move before a backrun (`causal.rs`, lines 89–151), over the earlier legs,
    the nearest first. -/
def findMove (ctx : BlockContext) (b : PoolLeg) : List PoolLeg → Option PoolLeg
  | [] => none
  | a :: earlier =>
    if a.txIndex ≥ b.txIndex then findMove ctx b earlier
    else if b.txIndex - a.txIndex > ctx.causalWindowTxs then findMove ctx b earlier
    else if a.sender = b.sender then findMove ctx b earlier
    else if !oppositeDir a.leg b.leg then findMove ctx b earlier
    else if a.leg.amountOut < b.leg.amountIn then findMove ctx b earlier
    else
      match earlier.find? fun r => r.sender ≠ a.sender ∧ sameDir r.leg b.leg with
      | none => findMove ctx b earlier
      | some r => if priceBetterBy ctx.price b.leg r.leg then some a else findMove ctx b earlier

/-- The map `txs_by_index` of `classify_backruns` (`causal.rs`, line 63): the last transaction with
    an index. -/
def txAt (input : BlockInput) (txIndex : ℕ) : Option TxInput :=
  input.txs.reverse.find? (·.txIndex = txIndex)

/-- The claimed pairs of a pool and a transaction, and the events so far. -/
structure BackrunState where
  claimed : Finset (Address × ℕ) := ∅
  out : List MevEvent := []

/-- The event of a backrun (`causal.rs`, lines 167–216). -/
def backrunEvent (pool : Address) (b a : PoolLeg) (tx : TxInput) (token : Address)
    (amount : ℕ) : MevEvent :=
  { txIndex := b.txIndex
    txHash := tx.txHash
    kind := .backrun
    searcher := b.sender
    contract := none
    pools := [pool]
    profitToken := some token
    profitAmount := some amount
    gasCostWei := tx.gasCostWei
    confidence := .inferred
    victimHashes := [a.leg.txHash]
    details := { pnlBasis := some .r, sourceTxIndex := some a.txIndex } }

/-- One leg of the loop of `classify_backruns` (`causal.rs`, lines 70–217); `earlier` are the
    legs before it, the nearest first. -/
def backrunLeg (input : BlockInput) (consumed : Finset ℕ) (pool : Address)
    (earlier : List PoolLeg) (s : BackrunState) (b : PoolLeg) : BackrunState :=
  if b.txIndex ∈ consumed ∨ (pool, b.txIndex) ∈ s.claimed then s
  else
    let s := { s with claimed := insert (pool, b.txIndex) s.claimed }
    match txAt input b.txIndex with
    | none => s
    | some tx =>
      if tx.sender ≠ b.sender then s
      else
        match txCycleProfit input tx with
        | .error _ => s
        | .ok (_, token, amount) =>
          match findMove input.ctx b earlier with
          | none => s
          | some a => { s with out := s.out ++ [backrunEvent pool b a tx token amount] }

/-- The legs of one pool. -/
def backrunLegs (input : BlockInput) (consumed : Finset ℕ) (pool : Address) :
    List PoolLeg → BackrunState → List PoolLeg → BackrunState
  | _, s, [] => s
  | earlier, s, b :: legs =>
    backrunLegs input consumed pool (b :: earlier)
      (backrunLeg input consumed pool earlier s b) legs

/-- Model of `classify_backruns` (`causal.rs`, lines 57–220). -/
def classifyBackruns (input : BlockInput) (consumed : Finset ℕ) : List MevEvent :=
  ((poolLegs input).foldl (fun s (pool, legs) => backrunLegs input consumed pool [] s legs) {}).out

/-! ## Frontruns -/

/-- The tokens that the swaps of some transactions walk over. -/
def walkTokens (txs : List TxInput) : List Address :=
  (txs.flatMap fun tx => tx.swaps.filter fun s => s.tokenIn ≠ 0 ∧ s.tokenOut ≠ 0).flatMap
    fun s => [s.tokenIn, s.tokenOut]

/-- The largest amount of a token that a swap of some transactions moves. -/
def walkHopMax (txs : List TxInput) (token : Address) : ℕ :=
  (txs.flatMap fun tx => tx.swaps.filter fun s => s.tokenIn ≠ 0 ∧ s.tokenOut ≠ 0).foldl
    (hopMax token) 0

/-- The transactions of a window from the front-run to the close. -/
def frontToClose (window : List TxInput) (frontTx closeTx : ℕ) : List TxInput :=
  window.filter fun tx => frontTx ≤ tx.txIndex ∧ tx.txIndex ≤ closeTx

/-- The ledger over the transfers from the front-run to the close. -/
def windowLedger (txs : List TxInput) (wrappedNative searcher : Address) : DeltaLedger :=
  DeltaLedger.fromTransfers (txs.flatMap (·.transfers)) wrappedNative
    (searcher,
      (txs.filter (·.sender = searcher)).foldl (fun v tx => saturatingAdd 256 v tx.value) 0)

/-- Model of `frontrun_cross_tx_profit` (`causal.rs`, lines 401–463). -/
def frontrunCrossTxProfit (window : List TxInput) (wrappedNative searcher : Address)
    (frontTx closeTx : ℕ) (anchor : Address) : Option (ℕ × Bool) :=
  let txs := frontToClose window frontTx closeTx
  let ledger := windowLedger txs wrappedNative searcher
  let net := ledger.net searcher anchor
  if net = 0 then none
  else
    some (net, (ledger.touchedTokens searcher).all fun t =>
      t = nativeMarker || deficitAmount ledger searcher t == 0 ||
        (t = anchor || t ∈ walkTokens txs) &&
          isDustDeficit (deficitAmount ledger searcher t) (walkHopMax txs t))

/-- The window of a front-run (`causal.rs`, lines 282–287). -/
def causalWindow (input : BlockInput) (frontTx : ℕ) : List TxInput :=
  input.txs.filter fun tx =>
    tx.txIndex ≥ frontTx ∧ tx.txIndex ≤ saturatingAdd 64 frontTx input.ctx.causalWindowTxs

/-- The close of a front-run (`causal.rs`, lines 281–318): the first later transaction of the
    searcher, inside the window, up to which the transfers net a profit. -/
def findClose (input : BlockInput) (consumed : Finset ℕ) (f : PoolLeg) (vtx : ℕ) :
    Option (TxInput × ℕ) :=
  let later := (input.txs.filter fun tx => ¬ tx.txIndex < vtx ∧ tx.sender = f.sender).takeWhile
    fun tx => tx.txIndex - f.txIndex ≤ input.ctx.causalWindowTxs
  later.findSome? fun tx =>
    if tx.txIndex ∈ consumed then none
    else
      match frontrunCrossTxProfit (causalWindow input f.txIndex) input.ctx.wrappedNative f.sender
          f.txIndex tx.txIndex f.leg.tokenIn with
      | some (net, true) => if net = 0 then none else some (tx, net)
      | _ => none

/-- The claimed triples of a pool, a front-run and a victim, and the events so far. -/
structure FrontrunState where
  claimed : Finset (Address × ℕ × ℕ) := ∅
  out : List MevEvent := []

/-- The event of a frontrun (`causal.rs`, lines 333–390); gas is charged for the window. -/
def frontrunEvent (input : BlockInput) (pool : Address) (f v : PoolLeg) (closeTx : ℕ)
    (profit : ℕ) : MevEvent :=
  { txIndex := f.txIndex
    txHash := f.leg.txHash
    kind := .frontrun
    searcher := f.sender
    contract := none
    pools := [pool]
    profitToken := some f.leg.tokenIn
    profitAmount := some profit
    gasCostWei := (frontToClose input.txs f.txIndex closeTx).foldl
      (fun acc t => saturatingAdd 256 acc t.gasCostWei) 0
    confidence := .inferred
    victimHashes := [v.leg.txHash]
    victimSwapSize := some v.leg.amountIn
    details := { pnlBasis := some .r, victimTxIndex := some v.txIndex
                 closeTxIndex := some closeTx } }

/-- One leg of the loop of `classify_frontruns` (`causal.rs`, lines 241–391); `later` are the
    legs after it. -/
def frontrunLeg (input : BlockInput) (consumed : Finset ℕ) (pool : Address)
    (later : List PoolLeg) (s : FrontrunState) (f : PoolLeg) : FrontrunState :=
  if f.txIndex ∈ consumed then s
  else
    match later.find? fun v => v.txIndex ≠ f.txIndex ∧
        v.txIndex - f.txIndex ≤ input.ctx.causalWindowTxs ∧ v.sender ≠ f.sender ∧
        sameDir v.leg f.leg ∧ priceWorseBy input.ctx.price v.leg f.leg with
    | none => s
    | some v =>
      if (pool, f.txIndex, v.txIndex) ∈ s.claimed then s
      else
        match findClose input consumed f v.txIndex with
        | none => s
        | some (tx, profit) =>
          { claimed := insert (pool, f.txIndex, v.txIndex) s.claimed
            out := s.out ++ [frontrunEvent input pool f v tx.txIndex profit] }

/-- The legs of one pool. -/
def frontrunLegs (input : BlockInput) (consumed : Finset ℕ) (pool : Address) :
    FrontrunState → List PoolLeg → FrontrunState
  | s, [] => s
  | s, f :: later =>
    frontrunLegs input consumed pool (frontrunLeg input consumed pool later s f) later

/-- Model of `classify_frontruns` (`causal.rs`, lines 228–394). -/
def classifyFrontruns (input : BlockInput) (consumed : Finset ℕ) : List MevEvent :=
  ((poolLegs input).foldl (fun s (pool, legs) => frontrunLegs input consumed pool s legs) {}).out

/-! ## What a leg adds -/

section Backruns

variable {input : BlockInput} {consumed : Finset ℕ} {pool : Address}

/-- A leg claims its pool and transaction, and books a backrun only where they were free. -/
theorem backrunLeg_cases (input : BlockInput) (consumed : Finset ℕ) (pool : Address)
    (earlier : List PoolLeg) (s : BackrunState) (b : PoolLeg) :
    (s.claimed ⊆ (backrunLeg input consumed pool earlier s b).claimed ∧
      (backrunLeg input consumed pool earlier s b).out = s.out) ∨
    ∃ tx holder token amount a,
      b.txIndex ∉ consumed ∧ (pool, b.txIndex) ∉ s.claimed ∧
      txAt input b.txIndex = some tx ∧ tx.sender = b.sender ∧
      txCycleProfit input tx = .ok (holder, token, amount) ∧
      backrunLeg input consumed pool earlier s b =
        ⟨insert (pool, b.txIndex) s.claimed, s.out ++ [backrunEvent pool b a tx token amount]⟩ := by
  unfold backrunLeg
  by_cases hfree : b.txIndex ∈ consumed ∨ (pool, b.txIndex) ∈ s.claimed
  · left
    rw [if_pos hfree]
    exact ⟨Finset.Subset.refl _, rfl⟩
  · rw [if_neg hfree]
    push Not at hfree
    cases htx : txAt input b.txIndex with
    | none => exact .inl ⟨Finset.subset_insert .., rfl⟩
    | some tx =>
      by_cases hsender : tx.sender ≠ b.sender
      · left
        dsimp only
        rw [if_pos hsender]
        exact ⟨Finset.subset_insert .., rfl⟩
      · dsimp only
        rw [if_neg hsender]
        cases hprofit : txCycleProfit input tx with
        | error miss => exact .inl ⟨Finset.subset_insert .., rfl⟩
        | ok profit =>
          obtain ⟨holder, token, amount⟩ := profit
          cases hmove : findMove input.ctx b earlier with
          | none => exact .inl ⟨Finset.subset_insert .., rfl⟩
          | some a =>
            exact .inr ⟨tx, holder, token, amount, a, hfree.1, hfree.2, rfl, not_not.mp hsender,
              hprofit, rfl⟩

/-- A backrun stands at a transaction that is not consumed, and books its profit. -/
def IsBackrun (input : BlockInput) (consumed : Finset ℕ) (e : MevEvent) : Prop :=
  ∃ pool b a tx holder token amount, e = backrunEvent pool b a tx token amount ∧
    b.txIndex ∉ consumed ∧ txAt input b.txIndex = some tx ∧ tx.sender = b.sender ∧
    txCycleProfit input tx = .ok (holder, token, amount)

/-- The pool and the transaction of a backrun. -/
def backrunKey (e : MevEvent) : Address × ℕ := (e.pools.headD 0, e.txIndex)

theorem keyed_backrunLeg {s : BackrunState}
    (h : Keyed backrunKey (IsBackrun input consumed) s.claimed s.out) (earlier : List PoolLeg)
    (b : PoolLeg) :
    let s' := backrunLeg input consumed pool earlier s b
    Keyed backrunKey (IsBackrun input consumed) s'.claimed s'.out := by
  intro s'
  rcases backrunLeg_cases input consumed pool earlier s b with ⟨hsub, hout⟩ |
      ⟨tx, holder, token, amount, a, hcons, hfree, htx, hsender, hprofit, hleg⟩
  · rw [show s'.out = s.out from hout]
    exact h.mono hsub
  · rw [show s' = _ from hleg]
    have hgood : IsBackrun input consumed (backrunEvent pool b a tx token amount) :=
      ⟨pool, b, a, tx, holder, token, amount, rfl, hcons, htx, hsender, hprofit⟩
    exact h.push hgood hfree

theorem keyed_backrunLegs {s : BackrunState}
    (h : Keyed backrunKey (IsBackrun input consumed) s.claimed s.out) (earlier : List PoolLeg)
    (legs : List PoolLeg) :
    let s' := backrunLegs input consumed pool earlier s legs
    Keyed backrunKey (IsBackrun input consumed) s'.claimed s'.out := by
  induction legs generalizing earlier s with
  | nil => exact h
  | cons b legs ih => exact ih (keyed_backrunLeg h earlier b) _

/-- The events of the pass are backruns, and no two of them stand at one transaction of one
    pool. -/
theorem classifyBackruns_spec (input : BlockInput) (consumed : Finset ℕ) :
    (∀ e ∈ classifyBackruns input consumed, IsBackrun input consumed e) ∧
      ((classifyBackruns input consumed).map backrunKey).Nodup := by
  have hrun : ∀ (pools : List (Address × List PoolLeg)) (s : BackrunState),
      Keyed backrunKey (IsBackrun input consumed) s.claimed s.out →
      let s' := pools.foldl (fun s (pool, legs) => backrunLegs input consumed pool [] s legs) s
      Keyed backrunKey (IsBackrun input consumed) s'.claimed s'.out := by
    intro pools
    induction pools with
    | nil => exact fun s h => h
    | cons g pools ih => exact fun s h => ih _ (keyed_backrunLegs h [] g.2)
  have h := hrun (poolLegs input) {} keyed_nil
  exact ⟨h.good, h.nodup⟩

end Backruns

section Frontruns

variable {input : BlockInput} {consumed : Finset ℕ} {pool : Address}

/-- A profit is the net amount of the ledger up to the close. -/
theorem frontrunCrossTxProfit_eq {window : List TxInput} {wrappedNative searcher anchor : Address}
    {frontTx closeTx net : ℕ} {dust : Bool}
    (h : frontrunCrossTxProfit window wrappedNative searcher frontTx closeTx anchor =
      some (net, dust)) :
    net = (windowLedger (frontToClose window frontTx closeTx) wrappedNative searcher).net searcher
      anchor := by
  unfold frontrunCrossTxProfit at h
  dsimp only at h
  split_ifs at h
  exact (Prod.mk.inj (Option.some_inj.mp h)).1.symm

/-- A close is a later transaction of the searcher that is not consumed, and the profit is what
    the searcher nets up to it. -/
theorem findClose_spec {f : PoolLeg} {vtx profit : ℕ} {tx : TxInput}
    (h : findClose input consumed f vtx = some (tx, profit)) :
    tx ∈ input.txs ∧ vtx ≤ tx.txIndex ∧ tx.sender = f.sender ∧
      tx.txIndex - f.txIndex ≤ input.ctx.causalWindowTxs ∧ tx.txIndex ∉ consumed ∧
      profit = (windowLedger (frontToClose (causalWindow input f.txIndex) f.txIndex tx.txIndex)
        input.ctx.wrappedNative f.sender).net f.sender f.leg.tokenIn := by
  unfold findClose at h
  obtain ⟨t, ht, hclose⟩ := List.exists_of_findSome?_eq_some h
  by_cases hcons : t.txIndex ∈ consumed
  · rw [if_pos hcons] at hclose
    cases hclose
  · rw [if_neg hcons] at hclose
    split at hclose
    · rename_i net hnet
      by_cases hzero : net = 0
      · rw [if_pos hzero] at hclose
        cases hclose
      · rw [if_neg hzero] at hclose
        obtain ⟨rfl, rfl⟩ := Prod.mk.inj (Option.some_inj.mp hclose)
        have hwindow : t.txIndex - f.txIndex ≤ input.ctx.causalWindowTxs := by
          simpa using List.mem_takeWhile_imp ht
        have hlater := List.mem_filter.mp (List.takeWhile_subset _ ht)
        have hpred : ¬ t.txIndex < vtx ∧ t.sender = f.sender := by simpa using hlater.2
        exact ⟨hlater.1, not_lt.mp hpred.1, hpred.2, hwindow, hcons,
          frontrunCrossTxProfit_eq hnet⟩
    · cases hclose

/-- A frontrun stands at a transaction that is not consumed, and books what its searcher nets in
    the transactions from there to its close, which is not consumed either. -/
def IsFrontrun (input : BlockInput) (consumed : Finset ℕ) (e : MevEvent) : Prop :=
  ∃ pool f v tx profit, e = frontrunEvent input pool f v tx.txIndex profit ∧
    f.txIndex ∉ consumed ∧ findClose input consumed f v.txIndex = some (tx, profit)

/-- The pool, the transaction and the victim's transaction of a frontrun. -/
def frontrunKey (e : MevEvent) : Address × ℕ × ℕ :=
  (e.pools.headD 0, e.txIndex, e.details.victimTxIndex.getD 0)

/-- A leg books a frontrun only where its pool, its transaction and the victim were free. -/
theorem frontrunLeg_cases (input : BlockInput) (consumed : Finset ℕ) (pool : Address)
    (later : List PoolLeg) (s : FrontrunState) (f : PoolLeg) :
    frontrunLeg input consumed pool later s f = s ∨
    ∃ v tx profit, f.txIndex ∉ consumed ∧ (pool, f.txIndex, v.txIndex) ∉ s.claimed ∧
      findClose input consumed f v.txIndex = some (tx, profit) ∧
      frontrunLeg input consumed pool later s f =
        ⟨insert (pool, f.txIndex, v.txIndex) s.claimed,
          s.out ++ [frontrunEvent input pool f v tx.txIndex profit]⟩ := by
  unfold frontrunLeg
  by_cases hcons : f.txIndex ∈ consumed
  · left
    rw [if_pos hcons]
  · rw [if_neg hcons]
    split
    · exact .inl rfl
    · rename_i v hv
      by_cases hclaim : (pool, f.txIndex, v.txIndex) ∈ s.claimed
      · left
        rw [if_pos hclaim]
      · rw [if_neg hclaim]
        cases hclose : findClose input consumed f v.txIndex with
        | none => exact .inl rfl
        | some close =>
          obtain ⟨tx, profit⟩ := close
          exact .inr ⟨v, tx, profit, hcons, hclaim, hclose, rfl⟩

theorem keyed_frontrunLeg {s : FrontrunState}
    (h : Keyed frontrunKey (IsFrontrun input consumed) s.claimed s.out) (later : List PoolLeg)
    (f : PoolLeg) :
    let s' := frontrunLeg input consumed pool later s f
    Keyed frontrunKey (IsFrontrun input consumed) s'.claimed s'.out := by
  intro s'
  rcases frontrunLeg_cases input consumed pool later s f with hleg |
      ⟨v, tx, profit, hcons, hfree, hclose, hleg⟩
  · rw [show s' = s from hleg]
    exact h
  · rw [show s' = _ from hleg]
    have hgood : IsFrontrun input consumed (frontrunEvent input pool f v tx.txIndex profit) :=
      ⟨pool, f, v, tx, profit, rfl, hcons, hclose⟩
    exact h.push hgood hfree

theorem keyed_frontrunLegs {s : FrontrunState}
    (h : Keyed frontrunKey (IsFrontrun input consumed) s.claimed s.out) (legs : List PoolLeg) :
    let s' := frontrunLegs input consumed pool s legs
    Keyed frontrunKey (IsFrontrun input consumed) s'.claimed s'.out := by
  induction legs generalizing s with
  | nil => exact h
  | cons f later ih => exact ih (keyed_frontrunLeg h later f)

/-- The events of the pass are frontruns, and no two of them stand at one transaction of one pool
    with one victim. -/
theorem classifyFrontruns_spec (input : BlockInput) (consumed : Finset ℕ) :
    (∀ e ∈ classifyFrontruns input consumed, IsFrontrun input consumed e) ∧
      ((classifyFrontruns input consumed).map frontrunKey).Nodup := by
  have hrun : ∀ (pools : List (Address × List PoolLeg)) (s : FrontrunState),
      Keyed frontrunKey (IsFrontrun input consumed) s.claimed s.out →
      let s' := pools.foldl (fun s (pool, legs) => frontrunLegs input consumed pool s legs) s
      Keyed frontrunKey (IsFrontrun input consumed) s'.claimed s'.out := by
    intro pools
    induction pools with
    | nil => exact fun s h => h
    | cons g pools ih => exact fun s h => ih _ (keyed_frontrunLegs h g.2)
  have h := hrun (poolLegs input) {} keyed_nil
  exact ⟨h.good, h.nodup⟩

end Frontruns

end MevScout.Explorer
