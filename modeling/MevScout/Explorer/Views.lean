import MevScout.Explorer.Profit
import MevScout.Common.Map

/-!
# The views of a ledger

What a ledger holds of an address and a token, and the three views of it that the classifier
reads: `net`, `net_signed` and `deficit_amount` (`core/src/explorer/profit.rs`).

Results:
* `pos_fromTransfers`, `neg_fromTransfers`: both sides are the sums of what was received and of
  what was spent, cut off at the largest `U256`;
* `viewsAgree_iff`: the views agree, and no signed operation wraps, exactly when both sums lie in
  the same half of the range;
* `signs_agree_iff`: the sign alone is right as long as the difference fits in an `I256`.
-/

namespace MevScout.Explorer

/-! ## What a ledger holds -/

section

variable {addr token addr' token' : Address}

theorem Deltas.amount_empty : (∅ : Deltas).amount addr token = 0 := by simp [Deltas.amount]

theorem Deltas.amount_add (d : Deltas) (amount : ℕ) :
    (d.add addr token amount).amount addr' token' =
      if addr = addr' ∧ token = token' then saturatingAdd 256 (d.amount addr' token') amount
      else d.amount addr' token' := by
  unfold Deltas.add Deltas.amount
  rw [Map.getElem?_insert_eq]
  by_cases h : addr = addr' ∧ token = token'
  · obtain ⟨rfl, rfl⟩ := h
    simp
  · rw [if_neg h, if_neg (by simpa using h)]

end

/-- The transfers that a ledger books: all but the noise of wrapping. -/
def bookedTransfers (transfers : List TransferFact) (wrappedNative : Address) (value : ℕ) :
    List TransferFact :=
  transfers.filter fun t => !isWrapNoise t wrappedNative (value ≠ 0)

/-- All that an address receives of a token. The zero address holds nothing. -/
def received (transfers : List TransferFact) (wrappedNative : Address)
    (nativeValue : Address × ℕ) (addr token : Address) : ℕ :=
  (((bookedTransfers transfers wrappedNative nativeValue.2).filter fun t =>
    addr ≠ 0 ∧ t.token = token ∧ t.recipient = addr).map (·.amount)).sum

/-- All that an address spends of a token, the native value as a token of its own. -/
def spent (transfers : List TransferFact) (wrappedNative : Address)
    (nativeValue : Address × ℕ) (addr token : Address) : ℕ :=
  (((bookedTransfers transfers wrappedNative nativeValue.2).filter fun t =>
    addr ≠ 0 ∧ t.token = token ∧ t.sender = addr).map (·.amount)).sum +
      if addr ≠ 0 ∧ token = nativeMarker ∧ nativeValue.1 = addr then nativeValue.2 else 0

/-- A booked transfer is spent by its sender and received by its recipient (`profit.rs`, lines
    84–89). -/
def DeltaLedger.book (ledger : DeltaLedger) (t : TransferFact) : DeltaLedger :=
  (ledger.apply t.token t.sender t.amount false).apply t.token t.recipient t.amount true

section

variable (ledger : DeltaLedger) (addr token : Address) (t : TransferFact)

theorem DeltaLedger.pos_apply (addr' token' : Address) (amount : ℕ) (positive : Bool) :
    (ledger.apply token' addr' amount positive).pos.amount addr token =
      if positive ∧ addr ≠ 0 ∧ token' = token ∧ addr' = addr then
        saturatingAdd 256 (ledger.pos.amount addr token) amount
      else ledger.pos.amount addr token := by
  unfold DeltaLedger.apply
  by_cases haddr : addr' = 0
  · rw [if_pos haddr, if_neg (by rintro ⟨-, hne, -, rfl⟩; exact hne haddr)]
  · rw [if_neg haddr]
    cases positive with
    | false => simp
    | true =>
      rw [if_pos rfl, Deltas.amount_add]
      refine if_congr ⟨fun h => ⟨rfl, ?_, h.2, h.1⟩, fun h => ⟨h.2.2.2, h.2.2.1⟩⟩ rfl rfl
      exact h.1 ▸ haddr

theorem DeltaLedger.neg_apply (addr' token' : Address) (amount : ℕ) (positive : Bool) :
    (ledger.apply token' addr' amount positive).neg.amount addr token =
      if ¬positive ∧ addr ≠ 0 ∧ token' = token ∧ addr' = addr then
        saturatingAdd 256 (ledger.neg.amount addr token) amount
      else ledger.neg.amount addr token := by
  unfold DeltaLedger.apply
  by_cases haddr : addr' = 0
  · rw [if_pos haddr, if_neg (by rintro ⟨-, hne, -, rfl⟩; exact hne haddr)]
  · rw [if_neg haddr]
    cases positive with
    | false =>
      rw [if_neg Bool.false_ne_true, Deltas.amount_add]
      refine if_congr ⟨fun h => ⟨Bool.false_ne_true, ?_, h.2, h.1⟩,
        fun h => ⟨h.2.2.2, h.2.2.1⟩⟩ rfl rfl
      exact h.1 ▸ haddr
    | true => simp

/-- One transfer adds to what its recipient received. -/
theorem DeltaLedger.pos_book :
    (ledger.book t).pos.amount addr token =
      if addr ≠ 0 ∧ t.token = token ∧ t.recipient = addr then
        saturatingAdd 256 (ledger.pos.amount addr token) t.amount
      else ledger.pos.amount addr token := by
  unfold DeltaLedger.book
  rw [DeltaLedger.pos_apply, DeltaLedger.pos_apply]
  simp

/-- One transfer adds to what its sender spent. -/
theorem DeltaLedger.neg_book :
    (ledger.book t).neg.amount addr token =
      if addr ≠ 0 ∧ t.token = token ∧ t.sender = addr then
        saturatingAdd 256 (ledger.neg.amount addr token) t.amount
      else ledger.neg.amount addr token := by
  unfold DeltaLedger.book
  rw [DeltaLedger.neg_apply, DeltaLedger.neg_apply]
  simp

end

/-- A side of the ledger that every booked transfer adds to when `mine` picks it. -/
theorem foldl_side (side : DeltaLedger → ℕ) {mine : TransferFact → Prop} [DecidablePred mine]
    (hstep : ∀ ledger t, side (DeltaLedger.book ledger t) =
      if mine t then saturatingAdd 256 (side ledger) t.amount else side ledger)
    (l : List TransferFact) (ledger : DeltaLedger) (hle : side ledger ≤ 2 ^ 256 - 1) :
    side (l.foldl DeltaLedger.book ledger) =
      min (side ledger + ((l.filter (mine ·)).map (·.amount)).sum) (2 ^ 256 - 1) := by
  have hfold : side (l.foldl DeltaLedger.book ledger) =
      (l.filter (mine ·)).foldl (fun acc t => saturatingAdd 256 acc t.amount) (side ledger) := by
    rw [List.foldl_filter]
    clear hle
    induction l generalizing ledger with
    | nil => rfl
    | cons t l ih =>
      rw [List.foldl_cons, List.foldl_cons, ih, hstep]
      simp
  rw [hfold, foldl_saturatingAdd TransferFact.amount _ hle]

section

variable (transfers : List TransferFact) (wrappedNative : Address) (nativeValue : Address × ℕ)
  (addr token : Address)

/-- The ledger of a transaction books its transfers, then the native value. -/
theorem fromTransfers_eq :
    DeltaLedger.fromTransfers transfers wrappedNative nativeValue =
      let ledger := (bookedTransfers transfers wrappedNative nativeValue.2).foldl
        DeltaLedger.book {}
      if nativeValue.2 ≠ 0 ∧ nativeValue.1 ≠ 0 then
        ledger.apply nativeMarker nativeValue.1 nativeValue.2 false
      else ledger := by
  unfold DeltaLedger.fromTransfers bookedTransfers
  rw [List.foldl_filter]
  simp only [DeltaLedger.book, Bool.not_eq_true', ← Bool.not_eq_true, ite_not]

/-- What a ledger holds as received. -/
theorem pos_fromTransfers :
    (DeltaLedger.fromTransfers transfers wrappedNative nativeValue).pos.amount addr token =
      min (received transfers wrappedNative nativeValue addr token) (2 ^ 256 - 1) := by
  have hfold := foldl_side (fun ledger => ledger.pos.amount addr token)
    (fun ledger t => ledger.pos_book addr token t)
    (bookedTransfers transfers wrappedNative nativeValue.2) {} (by simp [Deltas.amount_empty])
  rw [Deltas.amount_empty, Nat.zero_add] at hfold
  rw [fromTransfers_eq]
  dsimp only
  split_ifs
  · rw [DeltaLedger.pos_apply, if_neg (by simp)]
    exact hfold
  · exact hfold

/-- What a ledger holds as spent. -/
theorem neg_fromTransfers :
    (DeltaLedger.fromTransfers transfers wrappedNative nativeValue).neg.amount addr token =
      min (spent transfers wrappedNative nativeValue addr token) (2 ^ 256 - 1) := by
  have hfold := foldl_side (fun ledger => ledger.neg.amount addr token)
    (fun ledger t => ledger.neg_book addr token t)
    (bookedTransfers transfers wrappedNative nativeValue.2) {} (by simp [Deltas.amount_empty])
  rw [Deltas.amount_empty, Nat.zero_add] at hfold
  rw [fromTransfers_eq, spent]
  dsimp only
  by_cases hnative : nativeValue.2 ≠ 0 ∧ nativeValue.1 ≠ 0
  · rw [if_pos hnative, DeltaLedger.neg_apply, hfold]
    by_cases hmine : addr ≠ 0 ∧ token = nativeMarker ∧ nativeValue.1 = addr
    · rw [if_pos ⟨by simp, hmine.1, hmine.2.1.symm, hmine.2.2⟩, if_pos hmine, saturatingAdd]
      omega
    · rw [if_neg fun h => hmine ⟨h.2.1, h.2.2.1.symm, h.2.2.2⟩, if_neg hmine, Nat.add_zero]
  · rw [if_neg hnative, hfold]
    split_ifs with hmine
    · obtain hzero : nativeValue.2 = 0 := by
        by_contra hv
        exact hnative ⟨hv, hmine.2.2.symm ▸ hmine.1⟩
      rw [hzero, Nat.add_zero]
    · rw [Nat.add_zero]

end

/-! ## The views -/

section

variable (ledger : DeltaLedger) (addr token : Address)

/-- The three views say what the sides of the ledger say, and no signed operation leaves the
    range of an `I256`. -/
structure DeltaLedger.ViewsAgree : Prop where
  gain : 0 < ledger.net addr token ↔ ledger.neg.amount addr token < ledger.pos.amount addr token
  loss : ledger.netSigned addr token < 0 ↔
    ledger.pos.amount addr token < ledger.neg.amount addr token
  deficit : deficitAmount ledger addr token =
    ledger.neg.amount addr token - ledger.pos.amount addr token
  sub_lower : -2 ^ 255 ≤
    asSigned 256 (ledger.pos.amount addr token) - asSigned 256 (ledger.neg.amount addr token)
  sub_upper :
    asSigned 256 (ledger.pos.amount addr token) - asSigned 256 (ledger.neg.amount addr token) <
      2 ^ 255
  negate : ledger.netSigned addr token < 0 → -ledger.netSigned addr token < 2 ^ 255

/-- `net_signed` is the difference of the sides, wrapped once. -/
theorem netSigned_eq :
    ledger.netSigned addr token =
      wrapSigned 256 (ledger.pos.amount addr token - ledger.neg.amount addr token) := by
  exact wrapSigned_congr ((asSigned_modEq 256 _).sub (asSigned_modEq 256 _))

variable {ledger addr token}

theorem netSigned_exact
    (hlo : -2 ^ 255 ≤ (ledger.pos.amount addr token - ledger.neg.amount addr token : ℤ))
    (hhi : (ledger.pos.amount addr token - ledger.neg.amount addr token : ℤ) < 2 ^ 255) :
    ledger.netSigned addr token =
      ledger.pos.amount addr token - ledger.neg.amount addr token := by
  rw [netSigned_eq, wrapSigned_eq hlo hhi]

/-- In a build that wraps, the sign and the deficit are right exactly when the difference of the
    sides fits in an `I256`. -/
theorem signs_agree_iff (hpos : ledger.pos.amount addr token < 2 ^ 256)
    (hneg : ledger.neg.amount addr token < 2 ^ 256) :
    ((ledger.netSigned addr token < 0 ↔
        ledger.pos.amount addr token < ledger.neg.amount addr token) ∧
      deficitAmount ledger addr token =
        ledger.neg.amount addr token - ledger.pos.amount addr token) ↔
    (-2 ^ 255 ≤ (ledger.pos.amount addr token - ledger.neg.amount addr token : ℤ) ∧
      (ledger.pos.amount addr token - ledger.neg.amount addr token : ℤ) < 2 ^ 255) := by
  have hsigned := netSigned_eq ledger addr token
  unfold deficitAmount
  dsimp only
  generalize ledger.netSigned addr token = signed at *
  generalize ledger.pos.amount addr token = p at *
  generalize ledger.neg.amount addr token = n at *
  constructor
  · rintro ⟨hsign, -⟩
    refine ⟨?_, ?_⟩
    · by_contra hlo
      rw [wrapSigned_eq_add (by omega) (by omega)] at hsigned
      omega
    · by_contra hhi
      rw [wrapSigned_eq_sub (by omega) (by omega)] at hsigned
      omega
  · rintro ⟨hlo, hhi⟩
    rw [wrapSigned_eq hlo hhi] at hsigned
    subst hsigned
    refine ⟨by omega, ?_⟩
    split_ifs with hlt
    · rw [asUnsigned_wrapSigned (by omega) (by omega)]
      omega
    · omega

end

/-- **Main theorem.** The views of the ledger of a transaction agree, and no signed operation
    leaves its range, exactly when what was received and what was spent are both below `2 ^ 255`
    or both not. -/
theorem viewsAgree_iff (transfers : List TransferFact) (wrappedNative : Address)
    (nativeValue : Address × ℕ) (addr token : Address) :
    (DeltaLedger.fromTransfers transfers wrappedNative nativeValue).ViewsAgree addr token ↔
      (received transfers wrappedNative nativeValue addr token < 2 ^ 255 ↔
        spent transfers wrappedNative nativeValue addr token < 2 ^ 255) := by
  have hp := pos_fromTransfers transfers wrappedNative nativeValue addr token
  have hn := neg_fromTransfers transfers wrappedNative nativeValue addr token
  generalize DeltaLedger.fromTransfers transfers wrappedNative nativeValue = ledger at *
  generalize received transfers wrappedNative nativeValue addr token = r at *
  generalize spent transfers wrappedNative nativeValue addr token = s at *
  have hposlt : ledger.pos.amount addr token < 2 ^ 256 := by omega
  have hneglt : ledger.neg.amount addr token < 2 ^ 256 := by omega
  constructor
  · intro h
    obtain ⟨hlo, hhi⟩ := (signs_agree_iff hposlt hneglt).mp ⟨h.loss, h.deficit⟩
    have hlower := h.sub_lower
    have hupper := h.sub_upper
    by_contra hhalf
    by_cases hr : r < 2 ^ 255
    · rw [asSigned_eq (by omega), asSigned_eq_sub (w := 255) (by omega) hneglt] at hupper
      omega
    · rw [asSigned_eq_sub (w := 255) (by omega) hposlt, asSigned_eq (by omega)] at hlower
      omega
  · intro h
    have hsub : asSigned 256 (ledger.pos.amount addr token) -
        asSigned 256 (ledger.neg.amount addr token) =
          ledger.pos.amount addr token - ledger.neg.amount addr token := by
      by_cases hr : r < 2 ^ 255
      · rw [asSigned_eq (by omega), asSigned_eq (by omega)]
      · rw [asSigned_eq_sub (w := 255) (by omega) hposlt,
          asSigned_eq_sub (w := 255) (by omega) hneglt]
        omega
    have hlo : -2 ^ 255 < (ledger.pos.amount addr token - ledger.neg.amount addr token : ℤ) := by
      omega
    have hhi : (ledger.pos.amount addr token - ledger.neg.amount addr token : ℤ) < 2 ^ 255 := by
      omega
    obtain ⟨hloss, hdeficit⟩ := (signs_agree_iff hposlt hneglt).mpr ⟨hlo.le, hhi⟩
    refine ⟨?_, hloss, hdeficit, by omega, by omega, fun _ => ?_⟩
    · show 0 < ledger.pos.amount addr token - ledger.neg.amount addr token ↔ _
      omega
    · rw [netSigned_exact hlo.le hhi]
      omega

/-- One transfer of `2 ^ 255` units: its recipient only gained, but the ledger shows a spend. -/
theorem gain_read_as_spend :
    let ledger := DeltaLedger.fromTransfers
      [{ token := 1, sender := 2, recipient := 3, amount := 2 ^ 255 }] 9 (2, 0)
    ¬ledger.ViewsAgree 3 1 ∧ ledger.net 3 1 = 2 ^ 255 ∧
      deficitAmount ledger 3 1 = 2 ^ 255 ∧ hasInventorySpend ledger 3 = true := by
  refine ⟨fun h => ?_, by decide +kernel, by decide +kernel, by decide +kernel⟩
  have hdeficit := h.deficit
  revert hdeficit
  decide +kernel

end MevScout.Explorer
