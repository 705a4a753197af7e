import MevScout.Common.Ladder

/-!
# Rates of quotes

A quote takes an amount and may pay one out. It keeps to a rate, up to a slack, when it never pays
more than the rate on the amount and the slack; the slack is what its roundings may add. In a row of
two quotes the rates multiply, and the slack of the first is paid at the rate of the second.

Results:
* `WithinRate.bind`: the rates of two quotes in a row multiply;
* `WithinRate.le_input`: at a rate of one or less, with a slack below one, nothing is gained;
* `sum_taken_le_rate`: a ladder keeps to the rate of its rungs.
-/

namespace MevScout.Rate

open Ladder

variable {K : Type*} [Field K] [LinearOrder K] [IsStrictOrderedRing K]
  {N x y : ℕ} {r r' δ δ' : K} {f g : ℕ → Option ℕ}

/-- Amounts below `N` are paid out below `N`, at the rate `r` at most, up to the slack `δ`. -/
structure WithinRate (N : ℕ) (r δ : K) (f : ℕ → Option ℕ) : Prop where
  lt : ∀ x < N, ∀ y ∈ f x, y < N
  le : ∀ x < N, ∀ y ∈ f x, (y : K) ≤ r * x + δ

omit [IsStrictOrderedRing K] in
/-- A quote that pays what another pays, or nothing, keeps to the rate of the other. -/
theorem WithinRate.of_pays (hg : WithinRate N r δ g) (h : ∀ x y, f x = some y → g x = some y) :
    WithinRate N r δ f :=
  ⟨fun x hx y hy => hg.lt x hx y (h x y hy), fun x hx y hy => hg.le x hx y (h x y hy)⟩

theorem WithinRate.bind (hf : WithinRate N r δ f) (hg : WithinRate N r' δ' g) (hr' : 0 ≤ r') :
    WithinRate N (r * r') (r' * δ + δ') fun x => (f x).bind g := by
  constructor
  · intro x hx z hz
    obtain ⟨y, hy, hz⟩ := Option.bind_eq_some_iff.mp hz
    exact hg.lt y (hf.lt x hx y hy) z hz
  · intro x hx z hz
    obtain ⟨y, hy, hz⟩ := Option.bind_eq_some_iff.mp hz
    calc (z : K) ≤ r' * y + δ' := hg.le y (hf.lt x hx y hy) z hz
      _ ≤ r' * (r * x + δ) + δ' := by
        have := mul_le_mul_of_nonneg_left (hf.le x hx y hy) hr'
        linarith
      _ = r * r' * x + (r' * δ + δ') := by ring

/-- At a rate of one or less, and with a slack below one, nothing is gained. -/
theorem WithinRate.le_input (hf : WithinRate N r δ f) (hr : r ≤ 1) (hδ : δ < 1) (hx : x < N)
    (hy : y ∈ f x) : y ≤ x := by
  have hle := hf.le x hx y hy
  have hrate : r * x ≤ 1 * x := mul_le_mul_of_nonneg_right hr (Nat.cast_nonneg x)
  have hlt : (y : K) < ((x + 1 : ℕ) : K) := by
    push_cast
    linarith
  have := Nat.cast_lt.mp hlt
  omega

/-- A ladder keeps to the rate of its rungs; only the rung that is paid for in part adds a slack. -/
theorem sum_taken_le_rate {β : Type*} (cost : β → ℕ) (value : β × Option ℕ → ℕ) {bs : List β}
    (hr : 0 ≤ r) (hδ : 0 ≤ δ) (hwhole : ∀ b ∈ bs, (value (b, none) : K) ≤ r * cost b)
    (hpart : ∀ b ∈ bs, ∀ y < cost b, y ≤ x → (value (b, some y) : K) ≤ r * y + δ) :
    (((taken cost bs x).map value).sum : K) ≤ r * x + δ := by
  induction bs generalizing x with
  | nil =>
    have := mul_nonneg hr (Nat.cast_nonneg (α := K) x)
    simp only [taken, List.map_nil, List.sum_nil, Nat.cast_zero]
    linarith
  | cons b bs ih =>
    have hb : b ∈ b :: bs := List.mem_cons_self ..
    unfold taken
    split_ifs with h₀ h₁
    · have := mul_nonneg hr (Nat.cast_nonneg (α := K) x)
      simp only [List.map_nil, List.sum_nil, Nat.cast_zero]
      linarith
    · simpa using hpart b hb x h₁ le_rfl
    · have hfirst := hwhole b hb
      have hrest := ih (x := x - cost b) (fun c hc => hwhole c (List.mem_cons_of_mem _ hc))
        fun c hc y hy hle => hpart c (List.mem_cons_of_mem _ hc) y hy (hle.trans (Nat.sub_le _ _))
      rw [Nat.cast_sub (by omega)] at hrest
      rw [List.map_cons, List.sum_cons, Nat.cast_add]
      linarith

end MevScout.Rate
