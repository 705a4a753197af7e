import Mathlib

/-!
# Machine integers

An unsigned value of width `w` is a natural number below `2 ^ w`, a signed one an
integer in `[-2 ^ (w - 1), 2 ^ (w - 1))`. The operations below are the ones the
code uses, in the release profile (`+` and `-` on primitive integers wrap).
`u{w}::saturating_sub` is the truncated subtraction of `ℕ`.
-/

namespace MevScout

/-- `u{w}::wrapping_add`. -/
def wrappingAdd (w a b : ℕ) : ℕ := (a + b) % 2 ^ w

/-- `u{w}::wrapping_sub`. -/
def wrappingSub (w a b : ℕ) : ℕ := (a + (2 ^ w - b % 2 ^ w)) % 2 ^ w

/-- `u{w}::wrapping_mul`, also by a power of two for `<<`. -/
def wrappingMul (w a b : ℕ) : ℕ := a * b % 2 ^ w

/-- `u{w}::saturating_add`. -/
def saturatingAdd (w a b : ℕ) : ℕ := min (a + b) (2 ^ w - 1)

/-- `u{w}::saturating_mul`. -/
def saturatingMul (w a b : ℕ) : ℕ := min (a * b) (2 ^ w - 1)

/-- The cast `n as i{w}` of an unsigned value of the same width. -/
def asSigned (w n : ℕ) : ℤ := Int.bmod n (2 ^ w)

/-- The cast `x as u{w}` of a signed value of the same width. -/
def asUnsigned (w : ℕ) (x : ℤ) : ℕ := (x % 2 ^ w).toNat

/-- The value of width `w` that the exact result `x` of a signed `+`, `-` or unary `-`
    wraps to. -/
def wrapSigned (w : ℕ) (x : ℤ) : ℤ := Int.bmod x (2 ^ w)

/-- `u{w}::saturating_add_signed`. -/
def saturatingAddSigned (w a : ℕ) (d : ℤ) : ℕ :=
  if 0 ≤ d then saturatingAdd w a d.toNat else a - (-d).toNat

/-! ## Unsigned operations -/

theorem wrappingMul_le (w a b : ℕ) : wrappingMul w a b ≤ a * b := Nat.mod_le _ _

theorem wrappingMul_eq {w a b : ℕ} (h : a * b < 2 ^ w) : wrappingMul w a b = a * b :=
  Nat.mod_eq_of_lt h

theorem wrappingAdd_le (w a b : ℕ) : wrappingAdd w a b ≤ a + b := Nat.mod_le _ _

theorem wrappingAdd_eq {w a b : ℕ} (h : a + b < 2 ^ w) : wrappingAdd w a b = a + b :=
  Nat.mod_eq_of_lt h

/-- Adding `a` and taking `b` away again leaves a `w`-bit value alone exactly when
    `a` and `b` are the same amount. -/
theorem wrappingSub_wrappingAdd_eq_iff {w r a b : ℕ} (hr : r < 2 ^ w) (ha : a < 2 ^ w)
    (hb : b < 2 ^ w) : wrappingSub w (wrappingAdd w r a) b = r ↔ a = b := by
  unfold wrappingSub wrappingAdd
  generalize 2 ^ w = m at *
  rw [Nat.mod_eq_of_lt hb, Nat.mod_add_mod]
  constructor
  · intro h
    have hdiv := Nat.div_add_mod (r + a + (m - b)) m
    rw [h] at hdiv
    have hq : (r + a + (m - b)) / m = 1 := by
      have hlo : a + m = m * ((r + a + (m - b)) / m) + b := by omega
      generalize (r + a + (m - b)) / m = k at *
      rcases Nat.lt_trichotomy k 1 with hk | hk | hk
      · obtain rfl : k = 0 := by omega
        omega
      · exact hk
      · have : m * 2 ≤ m * k := Nat.mul_le_mul_left m hk
        omega
    rw [hq] at hdiv
    omega
  · rintro rfl
    rw [show r + a + (m - a) = r + m by omega, Nat.add_mod_right, Nat.mod_eq_of_lt hr]

theorem wrappingSub_eq {w a b : ℕ} (hb : b ≤ a) (ha : a < 2 ^ w) : wrappingSub w a b = a - b := by
  unfold wrappingSub
  rw [Nat.mod_eq_of_lt (by omega : b < 2 ^ w), show a + (2 ^ w - b) = a - b + 2 ^ w by omega,
    Nat.add_mod_right, Nat.mod_eq_of_lt (by omega)]

theorem saturatingAdd_eq {w a b : ℕ} (h : a + b < 2 ^ w) : saturatingAdd w a b = a + b := by
  unfold saturatingAdd; omega

/-- A saturating sum is the sum, cut off at the largest value. -/
theorem foldl_saturatingAdd {α : Type*} {w : ℕ} (f : α → ℕ) (l : List α) {a : ℕ}
    (ha : a ≤ 2 ^ w - 1) :
    l.foldl (fun acc x => saturatingAdd w acc (f x)) a =
      min (a + (l.map f).sum) (2 ^ w - 1) := by
  induction l generalizing a with
  | nil => simpa using ha
  | cons x l ih =>
    have hle : saturatingAdd w a (f x) ≤ 2 ^ w - 1 := min_le_right _ _
    rw [List.foldl_cons, ih hle, saturatingAdd, List.map_cons, List.sum_cons]
    omega

/-- A wrapping sum is the sum modulo `2 ^ w`. -/
theorem foldl_wrappingAdd {α : Type*} {w : ℕ} (f : α → ℕ) (l : List α) {a : ℕ} (ha : a < 2 ^ w) :
    l.foldl (fun acc x => wrappingAdd w acc (f x)) a = (a + (l.map f).sum) % 2 ^ w := by
  induction l generalizing a with
  | nil => exact (Nat.mod_eq_of_lt ha).symm
  | cons x l ih =>
    have hlt : wrappingAdd w a (f x) < 2 ^ w := Nat.mod_lt _ (Nat.two_pow_pos w)
    rw [List.foldl_cons, ih hlt, wrappingAdd, Nat.mod_add_mod, List.map_cons, List.sum_cons,
      Nat.add_assoc]

/-! ## Signed operations -/

theorem wrapSigned_eq {w : ℕ} {x : ℤ} (hlo : -2 ^ w ≤ x) (hhi : x < 2 ^ w) :
    wrapSigned (w + 1) x = x := by
  unfold wrapSigned
  have hp : (2 : ℤ) ^ (w + 1) = 2 * 2 ^ w := by ring
  exact Int.bmod_eq_of_le (by push_cast; omega) (by push_cast; omega)

/-- A result in the upper half of the unsigned range wraps to a negative value. -/
theorem wrapSigned_eq_sub {w : ℕ} {x : ℤ} (hlo : 2 ^ w ≤ x) (hhi : x < 2 ^ (w + 1)) :
    wrapSigned (w + 1) x = x - 2 ^ (w + 1) := by
  have hp : (2 : ℤ) ^ (w + 1) = 2 * 2 ^ w := by ring
  have hshift : wrapSigned (w + 1) x = wrapSigned (w + 1) (x - 2 ^ (w + 1)) := by
    unfold wrapSigned
    have := Int.sub_bmod_right x (2 ^ (w + 1))
    push_cast at this
    exact this.symm
  rw [hshift]
  exact wrapSigned_eq (by omega) (by omega)

/-- A result below the signed range wraps to a positive value. -/
theorem wrapSigned_eq_add {w : ℕ} {x : ℤ} (hlo : -2 ^ (w + 1) ≤ x) (hhi : x < -2 ^ w) :
    wrapSigned (w + 1) x = x + 2 ^ (w + 1) := by
  have hp : (2 : ℤ) ^ (w + 1) = 2 * 2 ^ w := by ring
  have hshift : wrapSigned (w + 1) x = wrapSigned (w + 1) (x + 2 ^ (w + 1)) := by
    unfold wrapSigned
    have := Int.add_bmod_right x (2 ^ (w + 1))
    push_cast at this
    exact this.symm
  rw [hshift]
  exact wrapSigned_eq (by omega) (by omega)

theorem wrapSigned_mem (w : ℕ) (x : ℤ) :
    -2 ^ w ≤ wrapSigned (w + 1) x ∧ wrapSigned (w + 1) x < 2 ^ w := by
  unfold wrapSigned
  have hp : (2 : ℕ) ^ (w + 1) = 2 * 2 ^ w := by ring
  have hpos : 0 < 2 ^ (w + 1) := by positivity
  have hlo := Int.le_bmod (x := x) hpos
  have hhi := Int.bmod_lt (x := x) hpos
  rw [hp] at hlo hhi ⊢
  push_cast at hlo hhi ⊢
  constructor <;> omega

theorem asSigned_mem (w n : ℕ) : -2 ^ w ≤ asSigned (w + 1) n ∧ asSigned (w + 1) n < 2 ^ w :=
  wrapSigned_mem w n

theorem asSigned_eq {w n : ℕ} (h : n < 2 ^ w) : asSigned (w + 1) n = n :=
  wrapSigned_eq (w := w) (by have : (0 : ℤ) ≤ 2 ^ w := by positivity
                             omega) (by exact_mod_cast h)

theorem asSigned_eq_sub {w n : ℕ} (hlo : 2 ^ w ≤ n) (hhi : n < 2 ^ (w + 1)) :
    asSigned (w + 1) n = n - 2 ^ (w + 1) :=
  wrapSigned_eq_sub (by exact_mod_cast hlo) (by exact_mod_cast hhi)

theorem asUnsigned_eq {w : ℕ} {x : ℤ} (h0 : 0 ≤ x) (h1 : x < 2 ^ w) : asUnsigned w x = x.toNat := by
  unfold asUnsigned; rw [Int.emod_eq_of_lt h0 h1]

theorem saturatingAddSigned_of_nonneg {w a : ℕ} {d : ℤ} (hd : 0 ≤ d) (h : (a : ℤ) + d < 2 ^ w) :
    (saturatingAddSigned w a d : ℤ) = a + d := by
  have h' : a + d.toNat < 2 ^ w := by
    have : ((a + d.toNat : ℕ) : ℤ) < 2 ^ w := by push_cast; rw [Int.toNat_of_nonneg hd]; exact h
    exact_mod_cast this
  rw [saturatingAddSigned, if_pos hd, saturatingAdd_eq h']
  push_cast
  rw [Int.toNat_of_nonneg hd]

theorem saturatingAddSigned_of_nonpos {w a : ℕ} {d : ℤ} (hd : d ≤ 0) (h : 0 ≤ (a : ℤ) + d)
    (ha : a < 2 ^ w) : (saturatingAddSigned w a d : ℤ) = a + d := by
  rcases eq_or_lt_of_le hd with rfl | hneg
  · exact saturatingAddSigned_of_nonneg le_rfl (by simpa using mod_cast ha)
  · rw [saturatingAddSigned, if_neg (by omega)]
    omega

/-! ## Residues -/

theorem wrapSigned_modEq (w : ℕ) (x : ℤ) : wrapSigned w x ≡ x [ZMOD 2 ^ w] := by
  have h : Int.bmod x (2 ^ w) % ((2 ^ w : ℕ) : ℤ) = x % ((2 ^ w : ℕ) : ℤ) := Int.bmod_emod
  push_cast at h
  exact h

/-- The raw word of a wrapped result is the result, as long as it fits in the word. -/
theorem asUnsigned_wrapSigned {w : ℕ} {x : ℤ} (h0 : 0 ≤ x) (h1 : x < 2 ^ w) :
    asUnsigned w (wrapSigned w x) = x.toNat := by
  unfold asUnsigned
  rw [wrapSigned_modEq w x, Int.emod_eq_of_lt h0 h1]

theorem asSigned_modEq (w n : ℕ) : asSigned w n ≡ n [ZMOD 2 ^ w] := wrapSigned_modEq w n

/-- An unsigned value of at most 64 bits goes through an `i64` unchanged. -/
theorem asUnsigned_asSigned {w n : ℕ} (hw : w ≤ 64) (hn : n < 2 ^ w) :
    asUnsigned w (asSigned 64 n) = n := by
  have hmod := asSigned_modEq 64 n
  have hdvd : (2 : ℤ) ^ w ∣ 2 ^ 64 := pow_dvd_pow 2 hw
  have hmod' : asSigned 64 n % 2 ^ w = (n : ℤ) % 2 ^ w := hmod.of_dvd (by exact_mod_cast hdvd)
  unfold asUnsigned
  rw [hmod', Int.emod_eq_of_lt (Int.natCast_nonneg n) (by exact_mod_cast hn), Int.toNat_natCast]

theorem wrappingAdd_modEq (w a b : ℕ) : (wrappingAdd w a b : ℤ) ≡ a + b [ZMOD 2 ^ w] := by
  unfold wrappingAdd
  push_cast
  exact Int.mod_modEq _ _

theorem wrapSigned_congr {w : ℕ} {x y : ℤ} (h : x ≡ y [ZMOD 2 ^ w]) :
    wrapSigned w x = wrapSigned w y := by
  unfold wrapSigned
  rw [Int.bmod_eq_bmod_iff_bmod_sub_eq_zero, ← Int.dvd_iff_bmod_eq_zero]
  push_cast
  exact h.symm.dvd

theorem sum_modEq {α : Type*} {n : ℤ} {f g : α → ℤ} {l : List α}
    (h : ∀ a ∈ l, f a ≡ g a [ZMOD n]) : (l.map f).sum ≡ (l.map g).sum [ZMOD n] := by
  induction l with
  | nil => rfl
  | cons a l ih =>
    rw [List.map_cons, List.sum_cons, List.map_cons, List.sum_cons]
    exact (h a (List.mem_cons_self ..)).add (ih fun b hb => h b (List.mem_cons_of_mem _ hb))

end MevScout
