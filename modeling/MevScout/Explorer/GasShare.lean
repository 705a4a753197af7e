import MevScout.Explorer.Anchors

/-!
# The gas of an operation

An operation of several transactions should be charged for those of its searcher. The sandwich pass
(`core/src/explorer/classify/sandwich.rs`) charges for its front-run and its back-run, the frontrun
pass (`causal.rs`) for every transaction of its window.

Results:
* `sandwich_gas`: a sandwich is charged for the attacker's two transactions, each once;
* `gas_own_iff`: a frontrun is charged for the searcher's transactions exactly when those of
  everyone else in its window are free;
* `victim_gas_charged`: a frontrun that pays the gas of its victim.
-/

namespace MevScout.Explorer

variable {input : BlockInput} {e : MevEvent} {txs : List TxInput} {searcher : Address}

/-- What some transactions of a searcher cost, each of them once. -/
def ownGas (txs : List TxInput) (searcher : Address) (operation : ℕ → Prop)
    [DecidablePred operation] : ℕ :=
  min ((txs.filter fun t => t.sender = searcher ∧ operation t.txIndex).map (·.gasCostWei)).sum
    (2 ^ 256 - 1)

/-! ## Sandwiches -/

/-- Where no index is met twice, the fold charges for every index of the operation. -/
theorem foldl_gas (operation : ℕ → Prop) [DecidablePred operation] {acc : ℕ × List ℕ}
    (hnodup : (txs.map (·.txIndex)).Nodup) (hfresh : ∀ t ∈ txs, t.txIndex ∉ acc.2) :
    (txs.foldl (fun (acc : ℕ × List ℕ) t =>
      if operation t.txIndex ∧ t.txIndex ∉ acc.2 then
        (saturatingAdd 256 acc.1 t.gasCostWei, t.txIndex :: acc.2)
      else acc) acc).1 =
      (txs.filter fun t => operation t.txIndex).foldl
        (fun gas t => saturatingAdd 256 gas t.gasCostWei) acc.1 := by
  induction txs generalizing acc with
  | nil => rfl
  | cons t txs ih =>
    rw [List.map_cons, List.nodup_cons] at hnodup
    have hlater : ∀ t' ∈ txs, t'.txIndex ∉ acc.2 := fun t' ht' =>
      hfresh t' (List.mem_cons_of_mem _ ht')
    rw [List.foldl_cons]
    by_cases hop : operation t.txIndex
    · rw [if_pos ⟨hop, hfresh t (List.mem_cons_self ..)⟩,
        List.filter_cons_of_pos (by simpa using hop), List.foldl_cons]
      refine ih hnodup.2 fun t' ht' hmem => ?_
      rcases List.mem_cons.mp hmem with heq | hold
      · exact hnodup.1 (heq ▸ List.mem_map_of_mem ht')
      · exact hlater t' ht' hold
    · rw [if_neg fun h => hop h.1, List.filter_cons_of_neg (by simpa using hop)]
      exact ih hnodup.2 hlater

/-- A sandwich is charged for the attacker's front-run and back-run. -/
theorem sandwich_gas (hindexes : (input.txs.map (·.txIndex)).Nodup)
    (he : e ∈ classifySandwiches input) :
    e.gasCostWei = ownGas input.txs e.searcher fun i =>
      i = e.txIndex ∨ e.details.backrunTxIndex = some i := by
  obtain ⟨pool, legs, pre, F, mid, B, post, hlegs, hsand, heq⟩ := exists_isSandwich he
  generalize e.searcher = attacker at hsand heq ⊢
  subst heq
  -- a transaction of the operation is the attacker's
  have hsender : ∀ l ∈ legs, l.sender = attacker → ∀ t ∈ input.txs,
      t.txIndex = l.leg.txIndex → t.sender = attacker := by
    intro l hl hfrom t ht hindex
    obtain ⟨tx, htx, -, htxfrom, htxindex, -⟩ := legOf_of_mem hlegs hl
    have hsame := List.inj_on_of_nodup_map hindexes ht htx (hindex.trans htxindex)
    rw [hsame, ← htxfrom, hfrom]
  have hF := hsender F (by rw [hsand.split]; simp) hsand.front
  have hB := hsender B (by rw [hsand.split]; simp) hsand.closes.1
  have hfilter : (input.txs.filter fun t =>
      t.sender = attacker ∧ (t.txIndex = F.leg.txIndex ∨ some B.leg.txIndex = some t.txIndex)) =
      input.txs.filter fun t => t.txIndex = F.leg.txIndex ∨ t.txIndex = B.leg.txIndex := by
    refine List.filter_congr fun t ht => ?_
    rw [decide_eq_decide, Option.some.injEq, @eq_comm _ B.leg.txIndex]
    exact ⟨And.right, fun h => ⟨h.elim (hF t ht) (hB t ht), h⟩⟩
  show Prod.fst _ = ownGas _ _ fun i => i = F.leg.txIndex ∨ some B.leg.txIndex = some i
  rw [foldl_gas (fun i => i = F.leg.txIndex ∨ i = B.leg.txIndex) hindexes
    fun t _ => List.not_mem_nil, foldl_saturatingAdd _ _ (Nat.zero_le _), Nat.zero_add, ownGas,
    hfilter]

/-! ## Frontruns -/

/-- The gas of some transactions is that of the searcher and that of everyone else. -/
theorem sum_gas_eq (txs : List TxInput) (searcher : Address) :
    (txs.map (·.gasCostWei)).sum =
      ((txs.filter (·.sender = searcher)).map (·.gasCostWei)).sum +
        ((txs.filter (·.sender ≠ searcher)).map (·.gasCostWei)).sum := by
  have hperm := List.filter_append_perm (fun t : TxInput => decide (t.sender = searcher)) txs
  rw [← (hperm.map (·.gasCostWei)).sum_eq, List.map_append, List.sum_append]
  simp

/-- The gas of a window is the searcher's exactly when no one else pays any in it, or the searcher
    pays the largest amount there is. -/
theorem windowGas_own_iff (txs : List TxInput) (searcher : Address) (frontTx closeTx : ℕ) :
    (frontToClose txs frontTx closeTx).foldl (fun acc t => saturatingAdd 256 acc t.gasCostWei) 0 =
        ownGas txs searcher (fun i => frontTx ≤ i ∧ i ≤ closeTx) ↔
      (∀ t ∈ frontToClose txs frontTx closeTx, t.sender ≠ searcher → t.gasCostWei = 0) ∨
        ownGas txs searcher (fun i => frontTx ≤ i ∧ i ≤ closeTx) = 2 ^ 256 - 1 := by
  have hown : (txs.filter fun t => t.sender = searcher ∧ frontTx ≤ t.txIndex ∧
      t.txIndex ≤ closeTx) = (frontToClose txs frontTx closeTx).filter (·.sender = searcher) := by
    rw [frontToClose, List.filter_filter]
    exact List.filter_congr fun t _ => Bool.decide_and _ _
  rw [foldl_saturatingAdd _ _ (Nat.zero_le _), Nat.zero_add, ownGas, hown,
    sum_gas_eq (frontToClose txs frontTx closeTx) searcher]
  have hforeign : (((frontToClose txs frontTx closeTx).filter (·.sender ≠ searcher)).map
      (·.gasCostWei)).sum = 0 ↔
      ∀ t ∈ frontToClose txs frontTx closeTx, t.sender ≠ searcher → t.gasCostWei = 0 := by
    rw [List.sum_eq_zero_iff, List.forall_mem_map]
    simp
  rw [← hforeign]
  omega

/-- **Main theorem.** A sandwich is charged for the attacker's two transactions. A frontrun is
    charged for the searcher's transactions in its window exactly when no one else, its victim
    among them, pays for gas there, or the searcher's gas is the largest amount there is. -/
theorem gas_own_iff (input : BlockInput) (hindexes : (input.txs.map (·.txIndex)).Nodup) :
    (∀ e ∈ classifySandwiches input, e.gasCostWei = ownGas input.txs e.searcher fun i =>
      i = e.txIndex ∨ e.details.backrunTxIndex = some i) ∧
    ∀ consumed, ∀ e ∈ classifyFrontruns input consumed, ∃ closeTx,
      e.details.closeTxIndex = some closeTx ∧
      (e.gasCostWei = ownGas input.txs e.searcher (fun i => e.txIndex ≤ i ∧ i ≤ closeTx) ↔
        (∀ t ∈ frontToClose input.txs e.txIndex closeTx, t.sender ≠ e.searcher →
            t.gasCostWei = 0) ∨
          ownGas input.txs e.searcher (fun i => e.txIndex ≤ i ∧ i ≤ closeTx) = 2 ^ 256 - 1) := by
  refine ⟨fun e he => sandwich_gas hindexes he, fun consumed e he => ?_⟩
  obtain ⟨pool, f, v, tx, profit, rfl, -, -⟩ := (classifyFrontruns_spec input consumed).1 e he
  exact ⟨tx.txIndex, rfl, windowGas_own_iff input.txs f.sender f.txIndex tx.txIndex⟩

/-- The searcher `23` buys before the buyer `21` on the pool `11` and sells on another pool; the
    gas of every transaction costs `7`. -/
def frontrunBlock : BlockInput :=
  legBlock [
    { legTx 0 23 1 2 100 100 with transfers := [⟨1, 23, 11, 100⟩, ⟨2, 11, 23, 100⟩] },
    legTx 1 21 1 2 100 90,
    { legTx 2 23 2 1 100 120 with
      swaps := [{ pool := 12, amm := .v2, tokenIn := 2, tokenOut := 1, amountIn := 100
                  amountOut := 120 }]
      transfers := [⟨2, 23, 12, 100⟩, ⟨1, 12, 23, 120⟩] }]

theorem gas_own_split_front :
    (∀ e ∈ classifySandwiches splitFront, e.gasCostWei =
      ownGas splitFront.txs e.searcher fun i =>
        i = e.txIndex ∨ e.details.backrunTxIndex = some i) ∧
    ∀ consumed, ∀ e ∈ classifyFrontruns splitFront consumed, ∃ closeTx,
      e.details.closeTxIndex = some closeTx ∧
      (e.gasCostWei = ownGas splitFront.txs e.searcher (fun i => e.txIndex ≤ i ∧ i ≤ closeTx) ↔
        (∀ t ∈ frontToClose splitFront.txs e.txIndex closeTx, t.sender ≠ e.searcher →
            t.gasCostWei = 0) ∨
          ownGas splitFront.txs e.searcher (fun i => e.txIndex ≤ i ∧ i ≤ closeTx) = 2 ^ 256 - 1) :=
  gas_own_iff splitFront (by decide)

/-- The frontrun is charged `21`, of which the searcher pays `14`. -/
theorem victim_gas_charged :
    (classifyFrontruns frontrunBlock ∅).map (fun e => (e.searcher, e.txIndex,
        e.details.closeTxIndex, e.gasCostWei)) = [(23, 0, some 2, 21)] ∧
      ownGas frontrunBlock.txs 23 (fun i => 0 ≤ i ∧ i ≤ 2) = 14 := by
  refine ⟨?_, ?_⟩ <;> decide +kernel

end MevScout.Explorer
