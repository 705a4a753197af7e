import MevScout.Explorer.Types
import MevScout.Common.Int

/-!
# Profit accounting

Models of the ledger of `core/src/explorer/profit.rs`: the gains and the losses of every address
in every token, read from the transfers of a transaction and from its native value.

Results:
* `net_selectProfitToken`: the chosen profit token has a positive net amount.
-/

namespace MevScout.Explorer

open Std

/-! ## The ledger -/

/-- A holding is an address and a token. -/
instance instOrdHolding : Ord (Address × Address) := lexOrd

/-- Model of `Deltas` (`profit.rs`, line 52). -/
abbrev Deltas := ExtTreeMap (Address × Address) ℕ compare

/-- The amount of a holding. -/
def Deltas.amount (d : Deltas) (addr token : Address) : ℕ := d[(addr, token)]?.getD 0

/-- A holding grows, up to the largest `U256`. -/
def Deltas.add (d : Deltas) (addr token : Address) (amount : ℕ) : Deltas :=
  d.insert (addr, token) (saturatingAdd 256 (d.amount addr token) amount)

/-- Model of `DeltaLedger` (`profit.rs`, lines 58–61). -/
structure DeltaLedger where
  pos : Deltas := ∅
  neg : Deltas := ∅

/-- Model of `is_wrap_noise` (`profit.rs`, lines 45–49). -/
def isWrapNoise (t : TransferFact) (wrappedNative : Address) (hasNativeFlow : Bool) : Bool :=
  hasNativeFlow && t.token == wrappedNative && (t.sender == 0 || t.recipient == 0)

/-- Model of `NATIVE_MARKER` (`profit.rs`, line 169). -/
def nativeMarker : Address := 0xffffffffffffffffffffffffffffffffffffffff

namespace DeltaLedger

/-- Model of `DeltaLedger::apply` (`profit.rs`, lines 100–111). -/
def apply (ledger : DeltaLedger) (token addr : Address) (amount : ℕ) (positive : Bool) :
    DeltaLedger :=
  if addr = 0 then ledger
  else if positive then { ledger with pos := ledger.pos.add addr token amount }
  else { ledger with neg := ledger.neg.add addr token amount }

/-- Model of `DeltaLedger::from_transfer_iter` (`profit.rs`, lines 74–98), and of
    `from_transfers` (lines 64–70). -/
def fromTransfers (transfers : List TransferFact) (wrappedNative : Address)
    (nativeValue : Address × ℕ) : DeltaLedger :=
  let (spender, v) := nativeValue
  let ledger := transfers.foldl (fun ledger t =>
    if isWrapNoise t wrappedNative (v ≠ 0) then ledger
    else (ledger.apply t.token t.sender t.amount false).apply t.token t.recipient t.amount true) {}
  if v ≠ 0 ∧ spender ≠ 0 then ledger.apply nativeMarker spender v false else ledger

/-- Model of `DeltaLedger::net` (`profit.rs`, lines 114–118). -/
def net (ledger : DeltaLedger) (addr token : Address) : ℕ :=
  ledger.pos.amount addr token - ledger.neg.amount addr token

/-- Model of `DeltaLedger::net_signed` (`profit.rs`, lines 121–125), on the raw words of both
    sides. -/
def netSigned (ledger : DeltaLedger) (addr token : Address) : ℤ :=
  wrapSigned 256 (asSigned 256 (ledger.pos.amount addr token) -
    asSigned 256 (ledger.neg.amount addr token))

/-- The holdings with an entry in `pos`. -/
def credited (ledger : DeltaLedger) : List (Address × Address) := ledger.pos.keys

/-- Model of `DeltaLedger::positive_tokens` (`profit.rs`, lines 128–138). -/
def positiveTokens (ledger : DeltaLedger) (addr : Address) : List Address :=
  (((ledger.credited.filter fun k => k.1 = addr ∧ ledger.net addr k.2 > 0).map
    Prod.snd).insertionSort (· ≤ ·)).dedup

/-- Model of `DeltaLedger::touched_tokens` (`profit.rs`, lines 141–152). -/
def touchedTokens (ledger : DeltaLedger) (addr : Address) : List Address :=
  ((((ledger.credited ++ ledger.neg.keys).filter fun k => k.1 = addr).map
    Prod.snd).insertionSort (· ≤ ·)).dedup

end DeltaLedger

/-! ## Residuals -/

/-- Model of `has_inventory_spend` (`profit.rs`, lines 161–166). -/
def hasInventorySpend (ledger : DeltaLedger) (addr : Address) : Bool :=
  (ledger.touchedTokens addr).any fun t => ledger.netSigned addr t < 0

/-- The loop body of `select_profit_token` (`profit.rs`, lines 191–202): the largest net amount,
    the first one of equal ones. -/
def largerNet (ledger : DeltaLedger) (searcher : Address) (best : Option (ℕ × Address))
    (t : Address) : Option (ℕ × Address) :=
  let net := ledger.net searcher t
  if net = 0 then best
  else
    match best with
    | some (bamt, bt) => if bamt ≥ net then some (bamt, bt) else some (net, t)
    | none => some (net, t)

/-- Model of `select_profit_token` (`profit.rs`, lines 178–203), with the list `priority` of the
    policy. -/
def selectProfitToken (ledger : DeltaLedger) (searcher : Address) (priority : List Address) :
    Option Address :=
  match priority.find? fun t => ledger.net searcher t > 0 with
  | some t => some t
  | none => ((ledger.positiveTokens searcher).foldl (largerNet ledger searcher) none).map Prod.snd

/-- Model of `is_dust_deficit` (`profit.rs`, lines 237–245). -/
def isDustDeficit (deficit hopMax : ℕ) : Bool :=
  if deficit = 0 ∨ deficit ≤ 1 then true
  else if hopMax = 0 then false
  else deficit ≤ hopMax / 10000

/-- Model of `deficit_amount` (`profit.rs`, lines 248–255). -/
def deficitAmount (ledger : DeltaLedger) (addr token : Address) : ℕ :=
  let signed := ledger.netSigned addr token
  if signed < 0 then asUnsigned 256 (wrapSigned 256 (-signed)) else 0

/-- Model of `net_flash_loan` (`profit.rs`, lines 307–317). -/
def netFlashLoan (ledger : DeltaLedger) (searcher token : Address) (borrowed fee : ℕ) :
    DeltaLedger :=
  { ledger with neg := ledger.neg.add searcher token (saturatingAdd 256 borrowed fee) }

/-! ## The profit token -/

variable {ledger : DeltaLedger} {searcher token : Address}

theorem foldl_largerNet {l : List Address} {best : Option (ℕ × Address)} {amount : ℕ}
    (hbest : ∀ p, best = some p → 0 < ledger.net searcher p.2)
    (h : l.foldl (largerNet ledger searcher) best = some (amount, token)) :
    0 < ledger.net searcher token := by
  induction l generalizing best with
  | nil => exact hbest _ h
  | cons t l ih =>
    refine ih (fun p hp => ?_) h
    unfold largerNet at hp
    by_cases hnet : ledger.net searcher t = 0
    · exact hbest p (by simpa only [hnet, if_true] using hp)
    · rw [if_neg hnet] at hp
      rcases best with _ | ⟨bamt, bt⟩
      · cases hp
        exact Nat.pos_of_ne_zero hnet
      · by_cases hge : bamt ≥ ledger.net searcher t
        · exact hbest p (by simpa only [hge, if_true] using hp)
        · simp only [hge, if_false, Option.some.injEq] at hp
          subst hp
          exact Nat.pos_of_ne_zero hnet

/-- The profit token has a positive net amount. -/
theorem net_selectProfitToken {priority : List Address}
    (h : selectProfitToken ledger searcher priority = some token) :
    0 < ledger.net searcher token := by
  unfold selectProfitToken at h
  split at h
  · rename_i t hfind
    cases h
    simpa using List.find?_some hfind
  · obtain ⟨⟨amount, t⟩, hfold, rfl⟩ := Option.map_eq_some_iff.mp h
    exact foldl_largerNet (by rintro p ⟨⟩) hfold

end MevScout.Explorer
