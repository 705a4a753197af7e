import Mathlib

/-!
# Binary64 numbers

A finite binary64 number is the rational that it stands for. An operation takes the exact result to
the nearest multiple of its unit in the last place, ties to even, and beyond the largest finite
number to an infinity. Zero has no sign here, so that a quotient by zero has the sign of its
dividend.

Results:
* `abs_nearest_sub_le`: how far the nearest number is;
* `nearest_nearest`: a number is its own nearest number;
* `F64.mul_eq_fin`, `F64.div_eq_fin`: what a finite result stands for.
-/

namespace MevScout

variable {q r : ℚ} {n : ℤ}

/-! ## The nearest integer -/

/-- The integer nearest to `x`, ties to even. -/
def nearestInt (x : ℚ) : ℤ :=
  match compare (Int.fract x) (1 / 2) with
  | .lt => ⌊x⌋
  | .eq => ⌊x⌋ + ⌊x⌋ % 2
  | .gt => ⌊x⌋ + 1

theorem nearestInt_bounds (x : ℚ) : ⌊x⌋ ≤ nearestInt x ∧ nearestInt x ≤ ⌊x⌋ + 1 := by
  unfold nearestInt
  cases compare (Int.fract x) (1 / 2) <;> dsimp only <;> omega

theorem nearestInt_intCast (n : ℤ) : nearestInt n = n := by
  have hlt : compare (Int.fract (n : ℚ)) (1 / 2) = .lt := by
    rw [Int.fract_intCast, compare_lt_iff_lt]
    norm_num
  unfold nearestInt
  rw [hlt]
  exact Int.floor_intCast n

theorem nearestInt_le (h : q ≤ n) : nearestInt q ≤ n := by
  rcases eq_or_lt_of_le h with rfl | hlt
  · exact (nearestInt_intCast n).le
  · have hfloor : ⌊q⌋ < n := Int.floor_lt.mpr hlt
    have := (nearestInt_bounds q).2
    omega

theorem le_nearestInt (h : n ≤ q) : n ≤ nearestInt q :=
  (Int.le_floor.mpr h).trans (nearestInt_bounds q).1

theorem abs_nearestInt_sub_le (x : ℚ) : |(nearestInt x : ℚ) - x| ≤ 1 := by
  obtain ⟨hlo, hhi⟩ := nearestInt_bounds x
  have hlo' : (⌊x⌋ : ℚ) ≤ nearestInt x := by exact_mod_cast hlo
  have hhi' : (nearestInt x : ℚ) ≤ ⌊x⌋ + 1 := by exact_mod_cast hhi
  have hfloor := Int.floor_le x
  have hceil := Int.lt_floor_add_one x
  rw [abs_le]
  constructor <;> linarith

/-! ## The nearest number -/

/-- The exponent of the unit in the last place of `q`. -/
def ulpExp (q : ℚ) : ℤ := max (Int.log 2 |q| - 52) (-1074)

/-- The nearest multiple of the unit in the last place, ties to even. -/
def nearest (q : ℚ) : ℚ := nearestInt (q / 2 ^ ulpExp q) * 2 ^ ulpExp q

/-- The relative error of a rounding is at most this. -/
@[irreducible] def epsilon : ℚ := 2 ^ (-52 : ℤ)

/-- The least positive number. -/
@[irreducible] def eta : ℚ := 2 ^ (-1074 : ℤ)

theorem epsilon_pos : 0 < epsilon := by
  unfold epsilon
  positivity

theorem eta_pos : 0 < eta := by
  unfold eta
  positivity

theorem eta_le_epsilon : eta ≤ epsilon := by
  unfold eta epsilon
  exact zpow_le_zpow_right₀ one_le_two (by decide)

/-- The unit in the last place is small beside the number, or the least number. -/
theorem ulp_le (hq : q ≠ 0) : (2 : ℚ) ^ ulpExp q ≤ |q| * epsilon + eta := by
  have heta := eta_pos
  have hprod : 0 ≤ |q| * epsilon := mul_nonneg (abs_nonneg q) epsilon_pos.le
  unfold ulpExp
  rcases le_total (Int.log 2 |q| - 52) (-1074) with h | h
  · have hulp : (2 : ℚ) ^ (-1074 : ℤ) = eta := by
      unfold eta
      rfl
    rw [max_eq_right h, hulp]
    linarith
  · rw [max_eq_left h]
    calc (2 : ℚ) ^ (Int.log 2 |q| - 52) = 2 ^ Int.log 2 |q| * epsilon := by
          unfold epsilon
          exact zpow_add₀ two_ne_zero _ _
      _ ≤ |q| * epsilon := by
        refine mul_le_mul_of_nonneg_right ?_ epsilon_pos.le
        exact Int.zpow_log_le_self Nat.one_lt_two (abs_pos.mpr hq)
      _ ≤ |q| * epsilon + eta := by linarith

theorem nearest_zero : nearest 0 = 0 := by
  have h := nearestInt_intCast 0
  rw [Int.cast_zero] at h
  rw [nearest, zero_div, h, Int.cast_zero, zero_mul]

/-- The nearest number is near. -/
theorem abs_nearest_sub_le (q : ℚ) : |nearest q - q| ≤ |q| * epsilon + eta := by
  rcases eq_or_ne q 0 with rfl | hq
  · rw [nearest_zero, sub_zero, abs_zero, zero_mul, zero_add]
    exact eta_pos.le
  have hu : (0 : ℚ) < 2 ^ ulpExp q := by positivity
  refine le_trans ?_ (ulp_le hq)
  unfold nearest
  generalize (2 : ℚ) ^ ulpExp q = u at *
  have herr := abs_nearestInt_sub_le (q / u)
  calc |(nearestInt (q / u) : ℚ) * u - q| = |(nearestInt (q / u) - q / u) * u| := by
        rw [sub_mul, div_mul_cancel₀ q hu.ne']
    _ = |(nearestInt (q / u) : ℚ) - q / u| * u := by rw [abs_mul, abs_of_pos hu]
    _ ≤ 1 * u := by gcongr
    _ = u := one_mul u

theorem nearest_le (hq : 0 ≤ q) : nearest q ≤ q * (1 + epsilon) + eta := by
  have h := abs_nearest_sub_le q
  rw [abs_le, abs_of_nonneg hq] at h
  linarith [h.2]

theorem le_nearest (hq : 0 ≤ q) : q * (1 - epsilon) - eta ≤ nearest q := by
  have h := abs_nearest_sub_le q
  rw [abs_le, abs_of_nonneg hq] at h
  linarith [h.1]

theorem nearest_nonneg (hq : 0 ≤ q) : 0 ≤ nearest q := by
  have hu : (0 : ℚ) < 2 ^ ulpExp q := by positivity
  have hint : 0 ≤ nearestInt (q / 2 ^ ulpExp q) :=
    le_nearestInt (by rw [Int.cast_zero]; exact div_nonneg hq hu.le)
  exact mul_nonneg (by exact_mod_cast hint) hu.le

theorem nearest_nonpos (hq : q ≤ 0) : nearest q ≤ 0 := by
  have hu : (0 : ℚ) < 2 ^ ulpExp q := by positivity
  have hint : nearestInt (q / 2 ^ ulpExp q) ≤ 0 :=
    nearestInt_le (by rw [Int.cast_zero]; exact div_nonpos_of_nonpos_of_nonneg hq hu.le)
  exact mul_nonpos_of_nonpos_of_nonneg (by exact_mod_cast hint) hu.le

/-- A multiple of its own unit in the last place is its own nearest number. -/
theorem nearest_of_multiple (h : r = n * 2 ^ ulpExp r) : nearest r = r := by
  have hu : (2 : ℚ) ^ ulpExp r ≠ 0 := by positivity
  have hdiv : r / 2 ^ ulpExp r = n := (div_eq_iff hu).mpr h
  rw [nearest, hdiv, nearestInt_intCast, ← h]

/-- A number with less than 54 bits is its own nearest number. -/
theorem nearest_of_bits {k : ℤ} (hn : |n| < 2 ^ 53) (hk : -1074 ≤ k) :
    nearest (n * 2 ^ k) = n * 2 ^ k := by
  rcases eq_or_ne n 0 with rfl | hn0
  · rw [Int.cast_zero, zero_mul, nearest_zero]
  have hpos : 0 < |(n : ℚ) * 2 ^ k| :=
    abs_pos.mpr (mul_ne_zero (by exact_mod_cast hn0) (zpow_ne_zero _ two_ne_zero))
  have hu : (0 : ℚ) < 2 ^ k := by positivity
  have hlt : |(n : ℚ) * 2 ^ k| < ((2 : ℕ) : ℚ) ^ (53 + k) := by
    have hn' : |(n : ℚ)| < 2 ^ 53 := by exact_mod_cast hn
    rw [abs_mul, abs_of_pos hu, Nat.cast_ofNat, zpow_add₀ two_ne_zero]
    exact mul_lt_mul_of_pos_right (by exact_mod_cast hn') hu
  have hlog := (Int.lt_zpow_iff_log_lt Nat.one_lt_two hpos).mp hlt
  have hexp : ulpExp (n * 2 ^ k) ≤ k := by
    unfold ulpExp
    omega
  obtain ⟨j, hj⟩ := Int.le.dest hexp
  have hpow : (2 : ℚ) ^ k = 2 ^ j * 2 ^ ulpExp (n * 2 ^ k) := by
    rw [← zpow_natCast, ← zpow_add₀ two_ne_zero, Int.add_comm, hj]
  refine nearest_of_multiple (n := n * 2 ^ j) ?_
  push_cast
  rw [mul_assoc, ← hpow]

/-- A number is its own nearest number. -/
theorem nearest_nearest (q : ℚ) : nearest (nearest q) = nearest q := by
  have hu : (0 : ℚ) < 2 ^ ulpExp q := by positivity
  have hexp : -1074 ≤ ulpExp q := le_max_right _ _
  have hbound : |q / 2 ^ ulpExp q| ≤ 2 ^ 53 := by
    rw [abs_div, abs_of_pos hu, div_le_iff₀ hu]
    have hlog : |q| < ((2 : ℕ) : ℚ) ^ (Int.log 2 |q| + 1) :=
      Int.lt_zpow_succ_log_self Nat.one_lt_two _
    calc |q| ≤ 2 ^ (Int.log 2 |q| + 1) := by exact_mod_cast hlog.le
      _ ≤ 2 ^ (53 + ulpExp q) := by
        refine zpow_le_zpow_right₀ one_le_two ?_
        unfold ulpExp
        omega
      _ = 2 ^ 53 * 2 ^ ulpExp q := by
        rw [zpow_add₀ two_ne_zero]
        rfl
  obtain ⟨hlo, hhi⟩ := abs_le.mp hbound
  have hle : nearestInt (q / 2 ^ ulpExp q) ≤ 2 ^ 53 := nearestInt_le (by exact_mod_cast hhi)
  have hge : -2 ^ 53 ≤ nearestInt (q / 2 ^ ulpExp q) := le_nearestInt (by exact_mod_cast hlo)
  unfold nearest
  generalize nearestInt (q / 2 ^ ulpExp q) = m at *
  rcases lt_or_eq_of_le (abs_le.mpr ⟨hge, hle⟩) with hlt | heq
  · exact nearest_of_bits hlt hexp
  · -- the rounding has carried into the next power of two
    obtain ⟨m', rfl⟩ : ∃ m', m = 2 * m' := by
      rcases abs_eq (by positivity) |>.mp heq with h | h
      · exact ⟨2 ^ 52, by omega⟩
      · exact ⟨-2 ^ 52, by omega⟩
    have hsplit : ((2 * m' : ℤ) : ℚ) * 2 ^ ulpExp q = m' * 2 ^ (ulpExp q + 1) := by
      rw [zpow_add_one₀ two_ne_zero]
      push_cast
      ring
    have hm' : |m'| < 2 ^ 53 := by
      rw [abs_mul] at heq
      have := abs_nonneg m'
      norm_num at heq ⊢
      omega
    have h := nearest_of_bits (k := ulpExp q + 1) hm' (by omega)
    rw [← hsplit] at h
    exact h

/-! ## The numbers -/

/-- A binary64 number. -/
inductive F64 where
  | fin (q : ℚ)
  | inf (negative : Bool)
  | nan
  deriving DecidableEq, Repr

namespace F64

/-- Where the numbers overflow. -/
@[irreducible] def huge : ℚ := 2 ^ (1024 : ℤ)

/-- An exact result, rounded. -/
def round (q : ℚ) : F64 := if |nearest q| < huge then .fin (nearest q) else .inf (nearest q < 0)

/-- The conversion `n as f64` of an unsigned integer. -/
def ofNat (n : ℕ) : F64 := round n

def isFinite : F64 → Bool
  | .fin _ => true
  | _ => false

def neg : F64 → F64
  | .fin a => .fin (-a)
  | .inf s => .inf !s
  | .nan => .nan

def add : F64 → F64 → F64
  | .fin a, .fin b => round (a + b)
  | .inf s, .inf t => if s = t then .inf s else .nan
  | .inf s, .fin _ | .fin _, .inf s => .inf s
  | _, _ => .nan

def mul : F64 → F64 → F64
  | .fin a, .fin b => round (a * b)
  | .inf s, .inf t => .inf (s != t)
  | .inf s, .fin a | .fin a, .inf s => if a = 0 then .nan else .inf (s != decide (a < 0))
  | _, _ => .nan

def div : F64 → F64 → F64
  | .fin a, .fin b =>
    if b ≠ 0 then round (a / b) else if a = 0 then .nan else .inf (a < 0)
  | .inf s, .fin b => .inf (s != decide (b < 0))
  | .fin _, .inf _ => .fin 0
  | _, _ => .nan

def lt : F64 → F64 → Bool
  | .fin a, .fin b => a < b
  | .inf true, .fin _ | .inf true, .inf false | .fin _, .inf false => true
  | _, _ => false

def le (a b : F64) : Bool := lt a b ∨ a = b ∧ a ≠ .nan

instance : Neg F64 := ⟨neg⟩
instance : Add F64 := ⟨add⟩
instance : Sub F64 := ⟨fun a b => a + -b⟩
instance : Mul F64 := ⟨mul⟩
instance : Div F64 := ⟨div⟩
instance : LT F64 := ⟨fun a b => lt a b⟩
instance : LE F64 := ⟨fun a b => le a b⟩
instance (a b : F64) : Decidable (a < b) := inferInstanceAs (Decidable (lt a b = true))
instance (a b : F64) : Decidable (a ≤ b) := inferInstanceAs (Decidable (le a b = true))

variable {a b : ℚ} {x y : F64}

@[simp] theorem fin_lt_fin : fin a < fin b ↔ a < b := decide_eq_true_iff

theorem fin_mul_fin (a b : ℚ) : fin a * fin b = round (a * b) := (rfl)

theorem fin_div_fin (hb : b ≠ 0) : fin a / fin b = round (a / b) := if_pos hb

theorem isFinite_iff : x.isFinite = true ↔ ∃ a, x = fin a := by
  cases x <;> simp [isFinite]

/-! ## Finite results -/

theorem round_eq_fin : round q = fin r ↔ nearest q = r ∧ |r| < huge := by
  unfold round
  split_ifs with h
  · rw [fin.injEq]
    exact ⟨fun hr => ⟨hr, hr ▸ h⟩, fun hr => hr.1⟩
  · exact iff_of_false nofun fun ⟨hr, hlt⟩ => h (hr ▸ hlt)

/-- What is below half of the largest numbers is rounded to a finite number. -/
theorem round_of_lt (h : |nearest q| < huge) : round q = fin (nearest q) := if_pos h

/-- Rounding a rounded number changes nothing. -/
theorem round_of_round_eq (h : round q = fin r) : round r = fin r := by
  obtain ⟨rfl, hlt⟩ := round_eq_fin.mp h
  exact round_eq_fin.mpr ⟨nearest_nearest q, hlt⟩

/-- A finite product is a product of finite numbers. -/
theorem mul_eq_fin (h : x * y = fin r) : ∃ a b, x = fin a ∧ y = fin b ∧ round (a * b) = fin r := by
  change mul x y = fin r at h
  unfold mul at h
  split at h
  · exact ⟨_, _, rfl, rfl, h⟩
  · cases h
  · split_ifs at h
  · split_ifs at h
  · cases h

/-- A finite quotient is zero, or a quotient of finite numbers. -/
theorem div_eq_fin (h : x / y = fin r) :
    (∃ a b, x = fin a ∧ y = fin b ∧ b ≠ 0 ∧ round (a / b) = fin r) ∨ r = 0 := by
  change div x y = fin r at h
  unfold div at h
  split at h
  · split_ifs at h with hb ha
    exact .inl ⟨_, _, rfl, rfl, hb, h⟩
  · cases h
  · cases h
    exact .inr rfl
  · cases h

/-- A finite difference is a difference of finite numbers. -/
theorem sub_eq_fin (h : x - y = fin r) :
    ∃ a b, x = fin a ∧ y = fin b ∧ round (a + -b) = fin r := by
  change add x (neg y) = fin r at h
  unfold add at h
  split at h
  next a b hneg =>
    cases y with
    | fin c =>
      obtain rfl := (fin.inj hneg)
      exact ⟨_, _, rfl, rfl, h⟩
    | inf s => cases hneg
    | nan => cases hneg
  · split_ifs at h
  · cases h
  · cases h
  · cases h

end F64

end MevScout
