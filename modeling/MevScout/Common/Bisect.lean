import Mathlib

/-!
# Bisection

The loop `while lo < hi`, which keeps one half of the interval `[lo, hi]`: the lower one when
the midpoint meets a condition and the upper one when it does not.

Results:
* `bisect_mem`, `bisect_below`, `bisect_meets`: what the result is for any condition;
* `bisect_isLeast`: for a condition that stays once it is met, the result is the least point;
* `bisectM_eq_ok`: the loop whose condition may fail.
-/

namespace MevScout

/-- The point at which the loop stops. -/
def bisect (p : ℕ → Bool) (lo hi : ℕ) : ℕ :=
  if lo < hi then
    if p (lo + (hi - lo) / 2) then bisect p lo (lo + (hi - lo) / 2)
    else bisect p (lo + (hi - lo) / 2 + 1) hi
  else lo
  termination_by hi - lo

/-- The same loop with a condition that may fail. -/
def bisectM {ε : Type*} (p : ℕ → Except ε Bool) (lo hi : ℕ) : Except ε ℕ :=
  if lo < hi then do
    if ← p (lo + (hi - lo) / 2) then bisectM p lo (lo + (hi - lo) / 2)
    else bisectM p (lo + (hi - lo) / 2 + 1) hi
  else pure lo
  termination_by hi - lo

variable {p : ℕ → Bool} {lo hi : ℕ}

theorem bisect_of_le (h : hi ≤ lo) : bisect p lo hi = lo := by
  rw [bisect, if_neg (not_lt.mpr h)]

theorem bisect_mem (h : lo ≤ hi) : lo ≤ bisect p lo hi ∧ bisect p lo hi ≤ hi := by
  induction lo, hi using bisect.induct p with
  | case1 lo hi hlt hp ih =>
    rw [bisect, if_pos hlt, if_pos hp]
    obtain ⟨hlow, hhigh⟩ := ih (by omega)
    exact ⟨hlow, by omega⟩
  | case2 lo hi hlt hp ih =>
    rw [bisect, if_pos hlt, if_neg hp]
    obtain ⟨hlow, hhigh⟩ := ih (by omega)
    exact ⟨by omega, hhigh⟩
  | case3 lo hi hlt =>
    rw [bisect_of_le (not_lt.mp hlt)]
    exact ⟨le_rfl, h⟩

/-- Right below the result the condition is not met. -/
theorem bisect_below (h : lo < bisect p lo hi) : p (bisect p lo hi - 1) = false := by
  induction lo, hi using bisect.induct p with
  | case1 lo hi hlt hp ih =>
    rw [bisect, if_pos hlt, if_pos hp] at h ⊢
    exact ih h
  | case2 lo hi hlt hp ih =>
    rw [bisect, if_pos hlt, if_neg hp] at h ⊢
    have hle : lo + (hi - lo) / 2 + 1 ≤ bisect p (lo + (hi - lo) / 2 + 1) hi :=
      (bisect_mem (by omega)).1
    rcases hle.eq_or_lt with heq | hgt
    · rw [← heq, Nat.add_sub_cancel]
      exact Bool.eq_false_iff.mpr hp
    · exact ih hgt
  | case3 lo hi hlt =>
    rw [bisect_of_le (not_lt.mp hlt)] at h
    omega

/-- Below the upper end, the result meets the condition. -/
theorem bisect_meets (h : bisect p lo hi < hi) (hle : lo ≤ hi) : p (bisect p lo hi) = true := by
  induction lo, hi using bisect.induct p with
  | case1 lo hi hlt hp ih =>
    rw [bisect, if_pos hlt, if_pos hp] at h ⊢
    have hmem : bisect p lo (lo + (hi - lo) / 2) ≤ lo + (hi - lo) / 2 := (bisect_mem (by omega)).2
    rcases hmem.eq_or_lt with heq | hgt
    · rw [heq]
      exact hp
    · exact ih hgt (by omega)
  | case2 lo hi hlt hp ih =>
    rw [bisect, if_pos hlt, if_neg hp] at h ⊢
    exact ih h (by omega)
  | case3 lo hi hlt =>
    rw [bisect_of_le (not_lt.mp hlt)] at h
    omega

/-- **Bisection.** Where the condition stays once it is met, the loop finds the least point that
    meets it, provided that the upper end does. -/
theorem bisect_isLeast (hle : lo ≤ hi)
    (hmono : ∀ x y, lo ≤ x → x ≤ y → y ≤ hi → p x = true → p y = true) (hp : p hi = true) :
    IsLeast {x | x ∈ Set.Icc lo hi ∧ p x = true} (bisect p lo hi) := by
  obtain ⟨hlow, hhigh⟩ := bisect_mem (p := p) hle
  constructor
  · refine ⟨⟨hlow, hhigh⟩, ?_⟩
    rcases hhigh.eq_or_lt with heq | hlt
    · rw [heq]
      exact hp
    · exact bisect_meets hlt hle
  · rintro x ⟨⟨hx, hx'⟩, hpx⟩
    by_contra hlt
    have hbelow : p (bisect p lo hi - 1) = false := bisect_below (by omega)
    have hmet := hmono x (bisect p lo hi - 1) hx (by omega) (by omega) hpx
    rw [hbelow] at hmet
    cases hmet

/-- A loop none of whose conditions fails. -/
theorem bisectM_eq_ok {ε : Type*} {q : ℕ → Except ε Bool}
    (h : ∀ x, lo ≤ x → x < hi → q x = .ok (p x)) : bisectM q lo hi = .ok (bisect p lo hi) := by
  induction lo, hi using bisect.induct p with
  | case1 lo hi hlt hp ih =>
    rw [bisectM, bisect, if_pos hlt, if_pos hlt, if_pos hp, h _ (by omega) (by omega), hp,
      ← ih fun x hx hx' => h x hx (by omega)]
    rfl
  | case2 lo hi hlt hp ih =>
    have hfalse : p (lo + (hi - lo) / 2) = false := Bool.eq_false_iff.mpr hp
    rw [bisectM, bisect, if_pos hlt, if_pos hlt, if_neg hp, h _ (by omega) (by omega), hfalse,
      ← ih fun x hx hx' => h x (by omega) hx']
    rfl
  | case3 lo hi hlt =>
    rw [bisectM, bisect, if_neg hlt, if_neg hlt]
    rfl

end MevScout
