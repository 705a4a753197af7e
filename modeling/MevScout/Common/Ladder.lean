import Mathlib

/-!
# Ladders

A ladder is a list of rungs, each with a cost. An amount pays for the rungs in order until it
is used up; the last rung may be paid for in part.

Results:
* `taken_paid`: what is paid for the rungs of a ladder, and what is left;
* `sum_taken_mono`: a value that does not fall along each rung does not fall along the ladder;
* `sum_taken_le`: a value that telescopes.
-/

namespace MevScout.Ladder

variable {β : Type*} {cost : β → ℕ} {b : β} {bs : List β} {x y : ℕ}

/-- The rungs that `x` pays for: the whole ones, and the last one with what was left for it
    where that is less than its cost. -/
def taken (cost : β → ℕ) : List β → ℕ → List (β × Option ℕ)
  | [], _ => []
  | b :: bs, x =>
    if x = 0 then []
    else if x < cost b then [(b, some x)]
    else (b, none) :: taken cost bs (x - cost b)

/-- What is paid for a rung. -/
def paid (cost : β → ℕ) (r : β × Option ℕ) : ℕ := r.2.getD (cost r.1)

@[simp] theorem taken_zero (bs : List β) : taken cost bs 0 = [] := by
  cases bs <;> rfl

theorem taken_cons (cost : β → ℕ) (b : β) (bs : List β) (x : ℕ) :
    taken cost (b :: bs) x = if x = 0 then [] else if x < cost b then [(b, some x)]
      else (b, none) :: taken cost bs (x - cost b) :=
  rfl

theorem taken_part (hx : x ≠ 0) (h : x < cost b) : taken cost (b :: bs) x = [(b, some x)] := by
  rw [taken_cons, if_neg hx, if_pos h]

theorem taken_whole (hx : x ≠ 0) (h : cost b ≤ x) :
    taken cost (b :: bs) x = (b, none) :: taken cost bs (x - cost b) := by
  rw [taken_cons, if_neg hx, if_neg (by omega)]

theorem mem_of_mem_taken {r : β × Option ℕ} (h : r ∈ taken cost bs x) : r.1 ∈ bs := by
  induction bs generalizing x with
  | nil => cases h
  | cons b bs ih =>
    rw [taken_cons] at h
    split_ifs at h
    · cases h
    · obtain rfl := List.mem_singleton.mp h
      exact List.mem_cons_self ..
    · rcases List.mem_cons.mp h with rfl | h
      · exact List.mem_cons_self ..
      · exact List.mem_cons_of_mem _ (ih h)

/-- A rung paid for in part is paid less than its cost, and not nothing. -/
theorem part_lt {r : ℕ} (h : (b, some r) ∈ taken cost bs x) : 0 < r ∧ r < cost b ∧ r ≤ x := by
  induction bs generalizing x with
  | nil => cases h
  | cons b' bs ih =>
    rw [taken_cons] at h
    split_ifs at h with h₀ h₁
    · cases h
    · obtain ⟨rfl, hr⟩ := Prod.mk.inj (List.mem_singleton.mp h)
      obtain rfl := Option.some.inj hr
      omega
    · rcases List.mem_cons.mp h with h | h
      · cases h
      · obtain ⟨hpos, hlt, hle⟩ := ih h
        exact ⟨hpos, hlt, by omega⟩

/-- An amount that pays for a rung in part does not go beyond the ladder. -/
theorem le_sum_of_part {r : ℕ} (h : (b, some r) ∈ taken cost bs x) : x ≤ (bs.map cost).sum := by
  induction bs generalizing x with
  | nil => cases h
  | cons b' bs ih =>
    rw [taken_cons] at h
    rw [List.map_cons, List.sum_cons]
    split_ifs at h with h₀ h₁
    · cases h
    · omega
    · rcases List.mem_cons.mp h with h | h
      · cases h
      · have := ih h
        omega

/-- The rungs are paid from the amount, and what is left is the amount beyond the whole
    ladder. -/
theorem taken_paid (cost : β → ℕ) (bs : List β) (x : ℕ) :
    ((taken cost bs x).map (paid cost)).sum + (x - (bs.map cost).sum) = x := by
  induction bs generalizing x with
  | nil => simp [taken]
  | cons b bs ih =>
    rw [taken_cons, List.map_cons, List.sum_cons]
    split_ifs with h₀ h₁
    · simp [h₀]
    · simp only [List.map_cons, List.map_nil, List.sum_cons, List.sum_nil, paid, Option.getD_some]
      omega
    · rw [List.map_cons, List.sum_cons]
      have := ih (x - cost b)
      simp only [paid, Option.getD_none] at this ⊢
      omega

/-- A value that does not fall while more is paid for a rung, and is greatest for the whole
    rung, does not fall while more is paid for the ladder. -/
theorem sum_taken_mono {value : β × Option ℕ → ℕ}
    (hpart : ∀ b ∈ bs, ∀ r r', r ≤ r' → r' < cost b → r' ≤ y →
      value (b, some r) ≤ value (b, some r'))
    (hwhole : ∀ b ∈ bs, ∀ r, r < cost b → r ≤ y → value (b, some r) ≤ value (b, none))
    (hxy : x ≤ y) :
    ((taken cost bs x).map value).sum ≤ ((taken cost bs y).map value).sum := by
  induction bs generalizing x y with
  | nil => exact le_rfl
  | cons b bs ih =>
    have hb : b ∈ b :: bs := List.mem_cons_self ..
    rcases Nat.eq_zero_or_pos x with rfl | hx
    · simp
    rcases Nat.lt_or_ge y (cost b) with hy | hy
    · rw [taken_part hx.ne' (by omega), taken_part (by omega) hy]
      simpa using hpart b hb x y hxy hy le_rfl
    · rw [taken_whole (by omega) hy, List.map_cons, List.sum_cons]
      rcases Nat.lt_or_ge x (cost b) with hx' | hx'
      · rw [taken_part hx.ne' hx']
        have := hwhole b hb x hx' hxy
        simp only [List.map_cons, List.map_nil, List.sum_cons, List.sum_nil]
        omega
      · rw [taken_whole hx.ne' hx', List.map_cons, List.sum_cons]
        have := ih (fun c hc r r' h h' h'' => hpart c (List.mem_cons_of_mem _ hc) r r' h h'
          (h''.trans (Nat.sub_le _ _)))
          (fun c hc r h h' => hwhole c (List.mem_cons_of_mem _ hc) r h (h'.trans (Nat.sub_le _ _)))
          (Nat.sub_le_sub_right hxy (cost b))
        omega

/-- Where the rungs follow one another, and the value of a rung is at most what a potential falls by
    from its start to its end, the value of the ladder is at most the potential at its start. -/
theorem sum_taken_le {κ : Type*} {start target : β → κ} {V : κ → ℚ} {k : κ} (cost : β → ℕ) (x : ℕ)
    (value : β × Option ℕ → ℕ) (hV : ∀ k, 0 ≤ V k)
    (hwhole : ∀ b ∈ bs, (value (b, none) : ℚ) ≤ V (start b) - V (target b))
    (hpart : ∀ b ∈ bs, ∀ r, r < cost b → r ≤ x → (value (b, some r) : ℚ) ≤ V (start b))
    (hchain : bs.IsChain fun b c => target b = start c) (hhead : ∀ b ∈ bs.head?, start b = k) :
    (((taken cost bs x).map value).sum : ℚ) ≤ V k := by
  induction bs generalizing x k with
  | nil => simpa [taken] using hV k
  | cons b bs ih =>
    have hb : b ∈ b :: bs := List.mem_cons_self ..
    obtain rfl : start b = k := hhead b rfl
    rw [taken_cons]
    split_ifs with h₀ h₁
    · simpa using hV (start b)
    · simpa using hpart b hb x h₁ le_rfl
    · have hrest := ih (x := x - cost b) (k := target b)
        (fun c hc => hwhole c (List.mem_cons_of_mem _ hc))
        (fun c hc r h h' => hpart c (List.mem_cons_of_mem _ hc) r h (h'.trans (Nat.sub_le _ _)))
        hchain.tail (fun c hc => by
          cases bs with
          | nil => cases hc
          | cons d bs =>
            obtain rfl := Option.some.inj hc
            exact (List.isChain_cons_cons.mp hchain).1.symm)
      have := hwhole b hb
      rw [List.map_cons, List.sum_cons, Nat.cast_add]
      linarith

end MevScout.Ladder
