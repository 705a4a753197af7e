import MevScout.Common.Checked

/-!
# Computations without overflow

A computation overflows nowhere exactly when it returns in a build that checks its arithmetic.
There an operator returns its exact result, and a list is collected when every element of it is.

Results:
* `arithUnsigned_true_iff`: what a checked operator returns;
* `subUnsigned_eq`: a difference that does not overflow;
* `mapM_eq_ok_iff`: a loop that collects results.
-/

namespace MevScout

universe u

variable {ε : Type*} {α : Type u} {β : Type*} {w n a b r : ℕ}

/-! ## Operators -/

/-- The unsigned difference `a - b`, at width `w`. -/
def subUnsigned (checks : Bool) (w a b : ℕ) : Except Panic ℕ :=
  if checks ∧ a < b then .error .overflow else .ok (wrappingSub w a b)

theorem arithUnsigned_true_iff : arithUnsigned true w n = .ok r ↔ n < 2 ^ w ∧ n = r := by
  rcases Nat.lt_or_ge n (2 ^ w) with h | h
  · rw [arithUnsigned_eq h]
    exact ⟨fun hr => ⟨h, Except.ok.inj hr⟩, fun hr => congrArg Except.ok hr.2⟩
  · rw [arithUnsigned_of_le h, if_pos rfl]
    exact iff_of_false (fun hr => by cases hr) fun hr => absurd hr.1 (by omega)

theorem subUnsigned_eq {checks : Bool} (hb : b ≤ a) (ha : a < 2 ^ w) :
    subUnsigned checks w a b = .ok (a - b) := by
  rw [subUnsigned, if_neg fun h => absurd h.2 (by omega), wrappingSub_eq hb ha]

/-! ## Loops -/

/-- A loop collects results exactly when every element has one. -/
theorem mapM_eq_ok_iff {f : β → Except ε α} {P : β → Prop} {g : β → α} {l : List β} {r : List α}
    (h : ∀ a ∈ l, ∀ b, f a = .ok b ↔ P a ∧ g a = b) :
    l.mapM f = .ok r ↔ (∀ a ∈ l, P a) ∧ l.map g = r := by
  constructor
  · intro hr
    have hP : ∀ a ∈ l, P a := fun a ha => by
      obtain ⟨b, hb⟩ := (ok_of_mapM_eq_ok hr).2 a ha
      exact ((h a ha b).mp hb).1
    have hmap : l.mapM f = .ok (l.map g) :=
      mapM_eq_ok fun a ha => (h a ha (g a)).mpr ⟨hP a ha, rfl⟩
    exact ⟨hP, Except.ok.inj (hmap.symm.trans hr)⟩
  · rintro ⟨hP, rfl⟩
    exact mapM_eq_ok fun a ha => (h a ha (g a)).mpr ⟨hP a ha, rfl⟩

end MevScout
