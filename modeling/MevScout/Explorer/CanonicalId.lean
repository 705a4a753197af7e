import MevScout.Common.Distinct
import MevScout.Explorer.Types
import MevScout.Paper.Types

/-!
# Canonical ids of realized operations

Model of `explorer_canonical_id` (`core/src/explorer/canonical.rs`), a text that is put together
from the kind of an event and some of its fields, and what two events of one kind with the same
text have in common.

Results:
* `hexAddress_inj`: an address can be read off its text;
* `firstPool_eq_of_id`: the first pool can be read off the ids that start with it;
* `jit_id_iff`, `liquidation_id_iff`: when two events of these kinds have the same id;
* `victim_eq_of_id`, `pools_eq_nil_of_id`: what the ids of frontruns and of operational
  executions say.
-/

namespace MevScout.Explorer

open Distinct Paper

/-! ## The id -/

/-- `{:?}` of a kind. -/
def MevKind.debug : MevKind → String
  | .arbAtomic => "ArbAtomic"
  | .sandwich => "Sandwich"
  | .frontrun => "Frontrun"
  | .backrun => "Backrun"
  | .liquidation => "Liquidation"
  | .jit => "Jit"
  | .jitArb => "JitArb"
  | .skim => "Skim"
  | .utility => "Utility"

/-- `{}` of `detail_or_null` (`canonical.rs`, lines 86–91): a number, or JSON null. -/
def displayDetail : Option ℕ → String
  | none => "null"
  | some n => n.repr

/-- `{:?}` of the same. -/
def debugDetail : Option ℕ → String
  | none => "Null"
  | some n => "Number(" ++ n.repr ++ ")"

/-- Model of `first_pool` (`canonical.rs`, lines 93–95). -/
def firstPool (pools : List Address) : Address := pools.headD 0

/-- The sorted pools of an event, without duplicates (`canonical.rs`, lines 74–76). -/
def sortedPools (pools : List Address) : List Address := (pools.insertionSort (· ≤ ·)).dedup

/-- Model of `explorer_canonical_id` (`canonical.rs`, lines 22–81). -/
def explorerCanonicalId (e : MevEvent) : String :=
  match e.kind with
  | .sandwich =>
    "Sandwich|" ++ (hexAddress (firstPool e.pools) ++ ("|" ++ ("victim:" ++
      (e.victimHashes.length.repr ++ ("|" ++ ("backrun:" ++
        debugDetail e.details.backrunTxIndex))))))
  | .frontrun =>
    "Frontrun|" ++ (hexAddress (firstPool e.pools) ++ ("|" ++ ("victim_tx:" ++
      displayDetail e.details.victimTxIndex)))
  | .backrun =>
    "Backrun|" ++ (hexAddress (firstPool e.pools) ++ ("|" ++ ("source_tx:" ++
      displayDetail e.details.sourceTxIndex)))
  | .liquidation =>
    "Liquidation|" ++ (hexAddress (e.details.user.getD 0) ++ ("|" ++ hexAddress e.searcher))
  | .jit | .jitArb =>
    "Jit|" ++ (hexAddress (firstPool e.pools) ++ ("|" ++ ((e.details.tickLower.getD 0).repr ++
      ("|" ++ (e.details.tickUpper.getD 0).repr))))
  | .skim => "Skim|" ++ (hexAddress (firstPool e.pools) ++ ("|" ++ hexAddress e.searcher))
  | kind => kind.debug ++ ("|" ++ String.intercalate "|" ((sortedPools e.pools).map hexAddress))

/-! ## Addresses -/

theorem length_hexAddress (a : Address) : (hexAddress a).toList.length = 42 := by
  simp [hexAddress, hexDigits]

theorem digitChar_inj {n m : ℕ} (hn : n < 16) (hm : m < 16) (h : n.digitChar = m.digitChar) :
    n = m := by
  have hall : ∀ n < 16, ∀ m < 16, Nat.digitChar n = Nat.digitChar m → n = m := by decide
  exact hall n hn m hm h

/-- An address can be read off its text. -/
theorem hexAddress_inj {a b : Address} : hexAddress a = hexAddress b ↔ a = b := by
  refine ⟨fun h => ?_, fun h => h ▸ rfl⟩
  have hdigits : hexDigits a.toNat 40 = hexDigits b.toNat 40 :=
    String.ofList_inj.mp ((String.append_right_inj "0x").mp h)
  have hmap := List.reverse_injective hdigits
  have hdigit : ∀ i < 40, a.toNat / 16 ^ i % 16 = b.toNat / 16 ^ i % 16 := by
    intro i hi
    have hi' := List.map_inj_left.mp hmap i (List.mem_range.mpr hi)
    exact digitChar_inj (Nat.mod_lt _ (by decide)) (Nat.mod_lt _ (by decide)) hi'
  have hmod := mod_eq_of_digits hdigit
  have hpow : (16 : ℕ) ^ 40 = 2 ^ 160 := by norm_num
  rw [hpow, Nat.mod_eq_of_lt a.isLt, Nat.mod_eq_of_lt b.isLt] at hmod
  exact BitVec.eq_of_toNat_eq hmod

theorem hexAddress_append_inj {a b : Address} {t t' : String} :
    hexAddress a ++ t = hexAddress b ++ t' ↔ a = b ∧ t = t' := by
  refine ⟨fun h => ?_, fun h => by rw [h.1, h.2]⟩
  obtain ⟨ha, ht⟩ := append_fixed_inj (by rw [length_hexAddress, length_hexAddress]) h
  exact ⟨hexAddress_inj.mp ha, ht⟩

theorem intRepr_append_inj {x y : ℤ} {t t' : String} :
    x.repr ++ ("|" ++ t) = y.repr ++ ("|" ++ t') ↔ x = y ∧ t = t' := by
  refine ⟨fun h => ?_, fun h => by rw [h.1, h.2]⟩
  have hnot (x : ℤ) : '|' ∉ x.repr.toList := by
    intro hmem
    rcases isDigit_or_of_mem_repr hmem with hdigit | hminus
    · exact absurd hdigit (by decide)
    · exact absurd hminus (by decide)
  obtain ⟨hx, ht⟩ := append_field_inj (hnot x) (hnot y) h
  exact ⟨Int.repr_inj.mp hx, ht⟩

/-! ## What an id says -/

variable {e e' : MevEvent}

/-- The kinds whose ids start with a pool. -/
def MevKind.Pooled (kind : MevKind) : Prop :=
  kind ∈ [.sandwich, .frontrun, .backrun, .jit, .jitArb, .skim]

theorem firstPool_eq_of_id (hkind : e.kind.Pooled) (hsame : e'.kind = e.kind)
    (h : explorerCanonicalId e = explorerCanonicalId e') :
    firstPool e.pools = firstPool e'.pools := by
  unfold explorerCanonicalId at h
  rw [hsame] at h
  simp only [MevKind.Pooled, List.mem_cons, List.not_mem_nil, or_false] at hkind
  rcases hkind with hk | hk | hk | hk | hk | hk <;>
    · rw [hk] at h
      exact (hexAddress_append_inj.mp ((String.append_right_inj _).mp h)).1

/-- The victim can be read off the id of a frontrun that has one. -/
theorem victim_eq_of_id {v v' : ℕ} (hkind : e.kind = .frontrun) (hkind' : e'.kind = .frontrun)
    (hv : e.details.victimTxIndex = some v) (hv' : e'.details.victimTxIndex = some v')
    (h : explorerCanonicalId e = explorerCanonicalId e') : v = v' := by
  unfold explorerCanonicalId at h
  rw [hkind, hkind', hv, hv'] at h
  have htail := (hexAddress_append_inj.mp ((String.append_right_inj _).mp h)).2
  exact Nat.repr_inj.mp ((String.append_right_inj _).mp ((String.append_right_inj _).mp htail))

/-- What the id of a liquidation is made of. -/
def liquidationParties (e : MevEvent) : Address × Address := (e.details.user.getD 0, e.searcher)

theorem liquidation_id_iff (hkind : e.kind = .liquidation) (hkind' : e'.kind = .liquidation) :
    explorerCanonicalId e = explorerCanonicalId e' ↔
      liquidationParties e = liquidationParties e' := by
  unfold explorerCanonicalId liquidationParties
  rw [hkind, hkind']
  dsimp only
  rw [String.append_right_inj, hexAddress_append_inj, String.append_right_inj, hexAddress_inj,
    Prod.mk.injEq]

/-- What the id of a just-in-time event is made of. -/
def jitRange (e : MevEvent) : Address × ℤ × ℤ :=
  (firstPool e.pools, e.details.tickLower.getD 0, e.details.tickUpper.getD 0)

/-- The id of such an event. -/
def jitRangeId (range : Address × ℤ × ℤ) : String :=
  "Jit|" ++ (hexAddress range.1 ++ ("|" ++ (range.2.1.repr ++ ("|" ++ range.2.2.repr))))

theorem jitRangeId_injective : Function.Injective jitRangeId := by
  intro range range' h
  unfold jitRangeId at h
  rw [String.append_right_inj, hexAddress_append_inj, String.append_right_inj, intRepr_append_inj,
    Int.repr_inj] at h
  exact Prod.ext h.1 (Prod.ext h.2.1 h.2.2)

theorem canonicalId_jit (hkind : e.kind = .jit ∨ e.kind = .jitArb) :
    explorerCanonicalId e = jitRangeId (jitRange e) := by
  unfold explorerCanonicalId
  rcases hkind with hkind | hkind <;>
    · rw [hkind]
      rfl

theorem jit_id_iff (hkind : e.kind = .jit ∨ e.kind = .jitArb)
    (hkind' : e'.kind = .jit ∨ e'.kind = .jitArb) :
    explorerCanonicalId e = explorerCanonicalId e' ↔ jitRange e = jitRange e' := by
  rw [canonicalId_jit hkind, canonicalId_jit hkind', jitRangeId_injective.eq_iff]

/-- An operational execution has the id of one without pools only if it has none itself. -/
theorem pools_eq_nil_of_id (hkind : e.kind = .utility) (hkind' : e'.kind = .utility)
    (hnil : e'.pools = []) (h : explorerCanonicalId e = explorerCanonicalId e') :
    e.pools = [] := by
  unfold explorerCanonicalId at h
  rw [hkind, hkind', hnil] at h
  have htail := (String.append_right_inj _).mp ((String.append_right_inj _).mp h)
  have hempty : String.intercalate "|" ((sortedPools []).map hexAddress) = "" := rfl
  rw [hempty] at htail
  cases hpools : sortedPools e.pools with
  | nil =>
    refine List.eq_nil_iff_forall_not_mem.mpr fun p hp => ?_
    have hmem : p ∈ sortedPools e.pools :=
      List.mem_dedup.mpr ((List.mem_insertionSort _).mpr hp)
    rw [hpools] at hmem
    cases hmem
  | cons p rest =>
    -- the text starts with an address, so it is not empty
    obtain ⟨t, ht⟩ : ∃ t, String.intercalate "|" ((p :: rest).map hexAddress) =
        hexAddress p ++ t := by
      cases rest with
      | nil => exact ⟨"", by simp⟩
      | cons q rest => exact ⟨_, by rw [List.map_cons, List.map_cons,
          String.intercalate_cons_cons, String.append_assoc]⟩
    rw [hpools, ht] at htail
    have hlen := congrArg (fun s => s.toList.length) htail
    simp [length_hexAddress] at hlen

/-- All operational executions without pools have one id. -/
theorem utility_id_of_nil (hkind : e.kind = .utility) (hkind' : e'.kind = .utility)
    (hnil : e.pools = []) (hnil' : e'.pools = []) :
    explorerCanonicalId e = explorerCanonicalId e' := by
  unfold explorerCanonicalId
  rw [hkind, hkind', hnil, hnil']

end MevScout.Explorer
