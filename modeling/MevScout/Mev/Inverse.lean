import MevScout.Common.Bisect
import MevScout.Pool.Math.Search

/-!
# Inverse of a quote

Model of `invert_monotone_quote` (`core/src/mev/detectors/arb_common.rs`), which turns a target
output into an input by bisection. The sums and differences of the search stay between 1 and
`max_input`, so that no `u128` overflows.

Results:
* `invertMonotoneQuote_eq`: the guards, then the bisection;
* `invertMonotoneQuote_least`: for a positive target it is the least input that reaches it.
-/

namespace MevScout.Mev

open Pool.Math

/-- The output of a quote, with `None` as 0. -/
def output (quote : Quote) (x : ℕ) : ℕ := (quote x).getD 0

/-- Model of `invert_monotone_quote` (`arb_common.rs`, lines 196–218). -/
def invertMonotoneQuote (quote : Quote) (target maxInput : ℕ) : Option ℕ := do
  if target = 0 then none
  else if (← quote maxInput) < target then none
  else some (bisect (fun mid => output quote mid ≥ target) 1 maxInput)

theorem invertMonotoneQuote_eq (quote : Quote) (target maxInput : ℕ) :
    invertMonotoneQuote quote target maxInput =
      if 0 < target ∧ target ≤ output quote maxInput then
        some (bisect (fun mid => output quote mid ≥ target) 1 maxInput)
      else none := by
  unfold invertMonotoneQuote
  rcases Nat.eq_zero_or_pos target with rfl | hpos
  · rw [if_pos rfl, if_neg (by simp)]
  · rw [if_neg (by omega)]
    cases hq : quote maxInput with
    | none =>
      have hout : output quote maxInput = 0 := by rw [output, hq, Option.getD_none]
      rw [hout, if_neg (by omega)]
      rfl
    | some out =>
      have hout : output quote maxInput = out := by rw [output, hq, Option.getD_some]
      rw [hout, Option.bind_eq_bind, Option.bind_some]
      by_cases hlt : out < target
      · rw [if_pos hlt, if_neg (by omega)]
      · rw [if_neg hlt, if_pos ⟨hpos, not_lt.mp hlt⟩]

/-- **Main theorem.** For a quote that never falls, a positive target is inverted exactly when
    the largest input reaches it, and then the result is the least input that does. The target 0
    is never inverted. -/
theorem invertMonotoneQuote_least (quote : Quote) (target maxInput : ℕ)
    (hmono : MonotoneOn (output quote) (Set.Icc 1 maxInput)) :
    ((invertMonotoneQuote quote target maxInput).isSome ↔
        0 < target ∧ target ≤ output quote maxInput) ∧
      (1 ≤ maxInput → ∀ x, invertMonotoneQuote quote target maxInput = some x →
        IsLeast {y | y ∈ Set.Icc 1 maxInput ∧ target ≤ output quote y} x) := by
  rw [invertMonotoneQuote_eq]
  constructor
  · split_ifs with h <;> simp [h]
  · intro hmax x hx
    split_ifs at hx with h
    · obtain rfl := Option.some.inj hx
      have hleast := bisect_isLeast (p := fun mid => output quote mid ≥ target) hmax
        (fun y z hy hyz hz hp => by
          have hle := hmono ⟨hy, hyz.trans hz⟩ ⟨hy.trans hyz, hz⟩ hyz
          rw [decide_eq_true_eq] at hp ⊢
          exact hp.trans hle)
        (decide_eq_true h.2)
      simpa only [decide_eq_true_eq, ge_iff_le] using hleast

theorem invertMonotoneQuote_least_seven :
    IsLeast {y | y ∈ Set.Icc 1 9 ∧ 7 ≤ output (fun x => some (2 * x)) y} 4 := by
  have hmono : MonotoneOn (output fun x => some (2 * x)) (Set.Icc 1 9) := by
    intro x _ y _ hxy
    show 2 * x ≤ 2 * y
    omega
  exact (invertMonotoneQuote_least _ 7 9 hmono).2 (by decide) 4
    (by simp [invertMonotoneQuote, bisect, output])

/-- Two quotes that never fall: the largest input reaches the target 0, which is not inverted;
    and with a largest input of 0 the result 1 exceeds it. -/
theorem invertMonotoneQuote_zero :
    (Monotone (output fun x => some x) ∧ 0 ≤ output (fun x => some x) 5 ∧
        invertMonotoneQuote (fun x => some x) 0 5 = none) ∧
      Monotone (output fun _ => some 1) ∧ invertMonotoneQuote (fun _ => some 1) 1 0 = some 1 := by
  refine ⟨⟨monotone_id, Nat.zero_le _, rfl⟩, monotone_const, ?_⟩
  simp [invertMonotoneQuote, bisect]

end MevScout.Mev
