import Mathlib

/-!
# Powers by table, in fixed point

A power `r ^ n` in fixed point with the denominator `D`: a table holds `r`, `r ^ 2`, `r ^ 4` and so
on, and the entries at the bits of `n` are multiplied, each product rounded down. Consecutive
exponents agree in all bits above the lowest clear one, so their results keep the relative
gap that they have there, up to one unit for each product.

Results:
* `power_succ_gap`: the gap between consecutive powers;
* `least_le_power`: every power is at least the product of the whole table;
* `foldl_mask_eq`: a loop that tests the bits with masks computes the power.
-/

namespace MevScout.BitPower

variable {D N a b e n r : ℕ} {cs : List ℕ}

/-- `r` times the entries of the table at the bits of `n`. -/
def power (D : ℕ) : List ℕ → ℕ → ℕ → ℕ
  | [], r, _ => r
  | c :: cs, r, n => power D cs (if n % 2 = 1 then r * c / D else r) (n / 2)

/-- `r` times the whole table. -/
def least (D : ℕ) (cs : List ℕ) (r : ℕ) : ℕ := cs.foldl (fun r c => r * c / D) r

/-- Every entry of the table is below the product of the entries before it, by a relative gap of
    `1 / N`. -/
def Separated (D N : ℕ) : List ℕ → ℕ → Prop
  | [], _ => True
  | c :: cs, a => c * (N + 1) ≤ a * N ∧ Separated D N cs (a * c / D)

instance (D N : ℕ) : (cs : List ℕ) → (a : ℕ) → Decidable (Separated D N cs a)
  | [], _ => isTrue trivial
  | c :: cs, a =>
    haveI := instDecidableSeparated D N cs (a * c / D)
    inferInstanceAs (Decidable (_ ∧ _))

theorem mul_div_le_self {c : ℕ} (hc : c ≤ D) (r : ℕ) : r * c / D ≤ r :=
  Nat.div_le_of_le_mul (by rw [Nat.mul_comm D]; exact Nat.mul_le_mul_left r hc)

theorem power_le (hcs : ∀ c ∈ cs, c ≤ D) (r n : ℕ) : power D cs r n ≤ r := by
  induction cs generalizing r n with
  | nil => exact le_rfl
  | cons c cs ih =>
    refine (ih (fun d hd => hcs d (List.mem_cons_of_mem _ hd)) _ _).trans ?_
    split_ifs
    · exact mul_div_le_self (hcs c (List.mem_cons_self ..)) r
    · exact le_rfl

theorem least_mono (hab : a ≤ b) : least D cs a ≤ least D cs b := by
  induction cs generalizing a b with
  | nil => exact hab
  | cons c cs ih => exact ih (Nat.div_le_div_right (Nat.mul_le_mul_right c hab))

/-- Every power is at least the product of the whole table. -/
theorem least_le_power (hcs : ∀ c ∈ cs, c ≤ D) (r n : ℕ) : least D cs r ≤ power D cs r n := by
  induction cs generalizing r n with
  | nil => exact le_rfl
  | cons c cs ih =>
    refine le_trans ?_ (ih (fun d hd => hcs d (List.mem_cons_of_mem _ hd)) _ _)
    show least D cs (r * c / D) ≤ _
    refine least_mono ?_
    split_ifs
    · exact le_rfl
    · exact mul_div_le_self (hcs c (List.mem_cons_self ..)) r

/-! ## The gap -/

/-- One rounded product keeps a relative gap, up to one unit. -/
theorem mul_div_gap {c : ℕ} (hc : c ≤ D) (hD : 0 < D) (h : b * (N + 1) ≤ a * N + e) :
    b * c / D * (N + 1) ≤ a * c / D * N + (e + N) := by
  refine Nat.le_of_mul_le_mul_left ?_ hD
  have hb : D * (b * c / D) ≤ b * c := Nat.mul_div_le _ _
  have ha : a * c ≤ D * (a * c / D) + D := by
    have := Nat.div_add_mod (a * c) D
    have := Nat.mod_lt (a * c) hD
    omega
  calc D * (b * c / D * (N + 1)) = D * (b * c / D) * (N + 1) := by ring
    _ ≤ b * c * (N + 1) := Nat.mul_le_mul_right _ hb
    _ = b * (N + 1) * c := by ring
    _ ≤ (a * N + e) * c := Nat.mul_le_mul_right _ h
    _ = a * c * N + e * c := by ring
    _ ≤ (D * (a * c / D) + D) * N + e * D := by gcongr
    _ = D * (a * c / D * N + (e + N)) := by ring

/-- The same products keep a relative gap, up to one unit for each. -/
theorem power_gap (hcs : ∀ c ∈ cs, c ≤ D) (hD : 0 < D) (h : b * (N + 1) ≤ a * N + e) (n : ℕ) :
    power D cs b n * (N + 1) ≤ power D cs a n * N + (e + cs.length * N) := by
  induction cs generalizing a b e n with
  | nil => simpa [power] using h
  | cons c cs ih =>
    have hcs' : ∀ d ∈ cs, d ≤ D := fun d hd => hcs d (List.mem_cons_of_mem _ hd)
    have hstep : (if n % 2 = 1 then b * c / D else b) * (N + 1) ≤
        (if n % 2 = 1 then a * c / D else a) * N + (e + N) := by
      split_ifs
      · exact mul_div_gap (hcs c (List.mem_cons_self ..)) hD h
      · omega
    refine (ih hcs' hstep (n / 2)).trans_eq ?_
    rw [List.length_cons, Nat.succ_mul]
    show power D cs _ _ * N + _ = power D cs _ _ * N + _
    omega

/-- **Consecutive powers.** Where the table is separated, consecutive powers keep its relative gap,
    up to one unit for each entry. -/
theorem power_succ_gap (hcs : ∀ c ∈ cs, c ≤ D) (hD : 0 < D) (hsep : Separated D N cs a)
    (hn : n + 1 < 2 ^ cs.length) :
    power D cs D (n + 1) * (N + 1) ≤ power D cs a n * N + cs.length * N := by
  induction cs generalizing a n with
  | nil => simp at hn
  | cons c cs ih =>
    have hcs' : ∀ d ∈ cs, d ≤ D := fun d hd => hcs d (List.mem_cons_of_mem _ hd)
    obtain ⟨hgap, hrest⟩ := hsep
    unfold power
    rw [List.length_cons, Nat.succ_mul]
    rcases Nat.mod_two_eq_zero_or_one n with heven | hodd
    · -- the lowest clear bit: the powers differ in this entry only
      rw [if_pos (by omega), if_neg (by omega), Nat.mul_div_cancel_left _ hD,
        show (n + 1) / 2 = n / 2 by omega]
      have := power_gap hcs' hD (Nat.le_add_right_of_le hgap : c * (N + 1) ≤ a * N + 0) (n / 2)
      omega
    · rw [if_neg (by omega), if_pos hodd, show (n + 1) / 2 = n / 2 + 1 by omega]
      have hlen : n / 2 + 1 < 2 ^ cs.length := by
        rw [List.length_cons, Nat.pow_succ] at hn
        omega
      have := ih hcs' hrest hlen
      omega

/-! ## Masks -/

theorem and_two_pow_ne_zero (n i : ℕ) : n &&& 2 ^ i ≠ 0 ↔ n / 2 ^ i % 2 = 1 := by
  rw [Nat.and_two_pow, Nat.testBit_eq_decide_div_mod_eq]
  by_cases h : n / 2 ^ i % 2 = 1
  · simp [h]
  · simp [h]

/-- A loop that tests the bits of `n` from `i` on with masks. -/
theorem foldl_mask_eq {l : List (ℕ × ℕ)} {i : ℕ}
    (h : l.map Prod.fst = (List.range' i l.length).map (2 ^ ·)) (n r : ℕ) :
    l.foldl (fun r c => if n &&& c.1 ≠ 0 then r * c.2 / D else r) r =
      power D (l.map Prod.snd) r (n / 2 ^ i) := by
  induction l generalizing i r with
  | nil => rfl
  | cons c l ih =>
    rw [List.map_cons, List.length_cons, List.range'_succ, List.map_cons, List.cons.injEq] at h
    rw [List.foldl_cons, ih h.2, h.1, List.map_cons]
    show power D _ (if n &&& 2 ^ i ≠ 0 then _ else _) _ = power D _ (if _ then _ else _) _
    rw [Nat.pow_succ, ← Nat.div_div_eq_div_mul]
    simp only [and_two_pow_ne_zero]

end MevScout.BitPower
