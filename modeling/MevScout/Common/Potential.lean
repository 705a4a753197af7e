import Mathlib

/-!
# Trades covered by potentials

A pool trades two assets at a price. It is covered by two potentials of its price when
every trade gives out at most what the potentials lose: the first falls and the second
rises with the price. Such a pool cannot be exploited, whatever the order of the trades.

Results:
* `Covered.trans`: trades one after the other are covered, by the sum of what they give;
* `Covered.not_gain`: a covered trade does not give some of one asset for nothing.
-/

namespace MevScout

/-- The trader gives nothing and gets something. -/
def Gain {A B : Type*} [Zero A] [Zero B] [LE A] [LE B] [LT A] [LT B] (d : A × B) : Prop :=
  0 ≤ d.1 ∧ 0 ≤ d.2 ∧ (0 < d.1 ∨ 0 < d.2)

variable {α A B : Type*} [AddCommGroup A] [LinearOrder A] [AddCommGroup B] [LinearOrder B]
  {f : α → A} {g : α → B}

/-- What the trader gets, `d`, while the price moves from `p` to `q`, is at most what the
    potentials `f` and `g` lose. -/
structure Covered (f : α → A) (g : α → B) (p : α) (d : A × B) (q : α) : Prop where
  fst : d.1 ≤ f p - f q
  snd : d.2 ≤ g p - g q

theorem Covered.refl (f : α → A) (g : α → B) (p : α) : Covered f g p 0 p :=
  ⟨by simp, by simp⟩

variable [IsOrderedAddMonoid A] [IsOrderedAddMonoid B]

theorem Covered.trans {p q r : α} {d e : A × B} (h : Covered f g p d q)
    (h' : Covered f g q e r) : Covered f g p (d + e) r := by
  constructor
  · calc d.1 + e.1 ≤ (f p - f q) + (f q - f r) := add_le_add h.fst h'.fst
      _ = f p - f r := sub_add_sub_cancel _ _ _
  · calc d.2 + e.2 ≤ (g p - g q) + (g q - g r) := add_le_add h.snd h'.snd
      _ = g p - g r := sub_add_sub_cancel _ _ _

/-- Trades that are covered by potentials moving strictly against each other give nothing
    for nothing. -/
theorem Covered.not_gain [LinearOrder α] {S : Set α} (hf : StrictAntiOn f S)
    (hg : StrictMonoOn g S) {p q : α} {d : A × B} (hp : p ∈ S) (hq : q ∈ S)
    (h : Covered f g p d q) : ¬Gain d := by
  rintro ⟨h₀, h₁, hpos⟩
  rcases lt_trichotomy p q with hlt | rfl | hlt
  · -- The price rose: the second asset was paid in.
    exact absurd (h₁.trans h.snd) (not_le.mpr (sub_neg.mpr (hg hp hq hlt)))
  · have h₀' : d.1 ≤ 0 := by simpa using h.fst
    have h₁' : d.2 ≤ 0 := by simpa using h.snd
    rcases hpos with hpos | hpos
    · exact absurd hpos (not_lt.mpr h₀')
    · exact absurd hpos (not_lt.mpr h₁')
  · exact absurd (h₀.trans h.fst) (not_le.mpr (sub_neg.mpr (hf hq hp hlt)))

end MevScout
