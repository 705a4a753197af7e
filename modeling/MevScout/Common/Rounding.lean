import Mathlib

/-!
# Quotients rounded either way

A natural number stands for a rational when it is its floor or its ceiling, that is, less than one
away from it.

Results:
* `rounds_iff`: less than one away;
* `rounds_div`, `rounds_ceilDiv`: a quotient rounded down and up;
* `rounds_ceilDiv_div`: a quotient rounded down and the next one rounded up.
-/

namespace MevScout

variable {q : ℚ} {n d e r : ℕ}

/-- `r` is the floor or the ceiling of `q`. -/
def Rounds (q : ℚ) (r : ℕ) : Prop := (r : ℤ) = ⌊q⌋ ∨ (r : ℤ) = ⌈q⌉

theorem rounds_iff : Rounds q r ↔ q < r + 1 ∧ r < q + 1 := by
  unfold Rounds
  rw [eq_comm, Int.floor_eq_iff, eq_comm, Int.ceil_eq_iff]
  push_cast
  constructor
  · rintro (⟨h₁, h₂⟩ | ⟨h₁, h₂⟩)
    · exact ⟨h₂, by linarith⟩
    · exact ⟨by linarith, by linarith⟩
  · rintro ⟨h₁, h₂⟩
    rcases le_total (r : ℚ) q with h | h
    · exact .inl ⟨h, h₁⟩
    · exact .inr ⟨by linarith, h⟩

/-- A whole part is kept. -/
theorem Rounds.natCast_add (h : Rounds q r) (n : ℕ) : Rounds (n + q) (n + r) := by
  rw [rounds_iff] at *
  push_cast
  constructor <;> linarith

/-- A quotient rounded down. -/
theorem rounds_div (n d : ℕ) : Rounds ((n : ℚ) / d) (n / d) := by
  refine .inl ?_
  rw [Rat.floor_natCast_div_natCast]
  exact Int.natCast_div n d

/-- Two divisions, of which the first rounds down and the second rounds up. -/
theorem rounds_ceilDiv_div (hd : 0 < d) (he : 0 < e) :
    Rounds ((n : ℚ) / (d * e)) (n / d ⌈/⌉ e) := by
  obtain ⟨k, hk⟩ : ∃ k, k = n / d := ⟨_, rfl⟩
  rw [← hk]
  have hlo : d * k ≤ n := hk ▸ Nat.mul_div_le n d
  have hhi : n < d * (k + 1) := by
    rw [hk]
    exact Nat.lt_mul_div_succ n hd
  set r := k ⌈/⌉ e with hr
  have hup : k ≤ e * r := (ceilDiv_le_iff_le_mul he).mp le_rfl
  have hdown : e * r < k + e := by
    rcases Nat.eq_zero_or_pos r with h0 | hpos
    · rw [h0, Nat.mul_zero]
      exact Nat.add_pos_right k he
    · have hlt : ¬k ≤ e * (r - 1) := fun h =>
        absurd ((ceilDiv_le_iff_le_mul he).mpr h) (by rw [← hr]; omega)
      rw [Nat.mul_sub_one] at hlt
      omega
  have hde : (0 : ℚ) < d * e := by positivity
  rw [rounds_iff, div_lt_iff₀ hde, ← sub_lt_iff_lt_add, lt_div_iff₀ hde]
  have hd' : (0 : ℚ) < d := by exact_mod_cast hd
  have hlo' : (d : ℚ) * k ≤ n := by exact_mod_cast hlo
  have hhi' : (n : ℚ) < d * (k + 1) := by exact_mod_cast hhi
  have hup' : (k : ℚ) ≤ e * r := by exact_mod_cast hup
  have hdown' : (e : ℚ) * r < k + e := by exact_mod_cast hdown
  have he' : (1 : ℚ) ≤ e := by exact_mod_cast he
  constructor
  · calc (n : ℚ) < d * (k + 1) := hhi'
      _ ≤ d * (e * r + e) := by gcongr
      _ = (r + 1) * (d * e) := by ring
  · calc ((r : ℚ) - 1) * (d * e) = d * (e * r - e) := by ring
      _ < d * k := by
        refine mul_lt_mul_of_pos_left ?_ hd'
        linarith
      _ ≤ n := hlo'

/-- A quotient rounded up. -/
theorem rounds_ceilDiv (hd : 0 < d) : Rounds ((n : ℚ) / d) (n ⌈/⌉ d) := by
  have h := rounds_ceilDiv_div (n := n) Nat.one_pos hd
  rwa [Nat.cast_one, one_mul, Nat.div_one] at h

end MevScout
