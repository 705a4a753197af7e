import Mathlib

/-!
# Numbers as text

Integers are written in decimal and parsed back: a number that fits the type is read as itself.
Numbers of a fixed width are written in hexadecimal digits, the most significant one first.

Results:
* `parseUnsigned_toString`, `parseSigned_toString`: what was written in decimal is read back;
* `ofHexDigits_digits`: so is what was written in hexadecimal digits.
-/

namespace MevScout.Decimal

/-! ## Decimal -/

/-- The value of some decimal digits. -/
def parseDigits (cs : List Char) : Option ℕ :=
  if cs ≠ [] ∧ cs.all Char.isDigit then some (Nat.ofDigitChars 10 cs 0) else none

/-- `str::parse::<u{w}>`: digits after an optional `+`. -/
def parseUnsigned (w : ℕ) (s : String) : Option ℕ :=
  (parseDigits (if s.toList.head? = some '+' then s.toList.tail else s.toList)).filter (· < 2 ^ w)

/-- `str::parse::<i{w}>`: digits after an optional sign. -/
def parseSigned (w : ℕ) (s : String) : Option ℤ :=
  (if s.toList.head? = some '-' then (parseDigits s.toList.tail).map fun n : ℕ => -(n : ℤ)
    else (parseDigits (if s.toList.head? = some '+' then s.toList.tail else s.toList)).map
      fun n : ℕ => (n : ℤ)).filter fun x => -2 ^ (w - 1) ≤ x ∧ x < 2 ^ (w - 1)

variable {w n : ℕ} {x : ℤ}

theorem parseDigits_toDigits (n : ℕ) : parseDigits (Nat.toDigits 10 n) = some n := by
  have hall : (Nat.toDigits 10 n).all Char.isDigit := by
    rw [List.all_eq_true]
    intro c hc
    exact Nat.isDigit_of_mem_toDigits (by norm_num) le_rfl hc
  unfold parseDigits
  rw [if_pos ⟨Nat.toDigits_ne_nil, hall⟩, Nat.ofDigitChars_ten_toDigits]

/-- A number does not begin with a sign. -/
theorem head?_toDigits_ne {c : Char} (hc : c.isDigit = false) (n : ℕ) :
    (Nat.toDigits 10 n).head? ≠ some c := by
  intro h
  have hdigit := Nat.isDigit_of_mem_toDigits (by norm_num) le_rfl (List.mem_of_mem_head? h)
  rw [hc] at hdigit
  cases hdigit

theorem parseUnsigned_toString (h : n < 2 ^ w) : parseUnsigned w (toString n) = some n := by
  unfold parseUnsigned
  rw [Nat.toString_eq_repr, Nat.toList_repr, if_neg (head?_toDigits_ne (by decide) n),
    parseDigits_toDigits]
  simpa using h

theorem parseSigned_toString (hlo : -2 ^ (w - 1) ≤ x) (hhi : x < 2 ^ (w - 1)) :
    parseSigned w (toString x) = some x := by
  unfold parseSigned
  rw [Int.toString_eq_repr, Int.repr_eq_if]
  by_cases hx : 0 ≤ x
  · rw [if_pos hx, Nat.toList_repr, if_neg (head?_toDigits_ne (by decide) _),
      if_neg (head?_toDigits_ne (by decide) _), parseDigits_toDigits, Option.map_some,
      Int.toNat_of_nonneg hx]
    simp [hlo, hhi]
  · have hlist : ("-" ++ (-x).toNat.repr).toList = '-' :: Nat.toDigits 10 (-x).toNat := by
      rw [String.toList_append, Nat.toList_repr]
      rfl
    rw [if_neg hx, hlist, List.head?_cons, if_pos rfl, List.tail_cons, parseDigits_toDigits,
      Option.map_some, Int.toNat_of_nonneg (by omega), neg_neg]
    simp [hlo, hhi]

/-! ## Hexadecimal -/

/-- The value of a hexadecimal digit, in either case. -/
def hexValue (c : Char) : Option ℕ :=
  if c.isDigit then some (c.toNat - '0'.toNat)
  else if 'a' ≤ c ∧ c ≤ 'f' then some (c.toNat - 'a'.toNat + 10)
  else if 'A' ≤ c ∧ c ≤ 'F' then some (c.toNat - 'A'.toNat + 10)
  else none

/-- The value of some hexadecimal digits after those of `init`. -/
def ofHexDigits (init : ℕ) (cs : List Char) : Option ℕ :=
  cs.foldlM (fun acc c => (hexValue c).map fun d => 16 * acc + d) init

theorem ofHexDigits_cons (init : ℕ) (c : Char) (cs : List Char) :
    ofHexDigits init (c :: cs) = (hexValue c).bind fun d => ofHexDigits (16 * init + d) cs := by
  unfold ofHexDigits
  rw [List.foldlM_cons]
  cases hexValue c <;> rfl

theorem hexValue_digitChar {d : ℕ} (h : d < 16) : hexValue (Nat.digitChar d) = some d := by
  have hall : ∀ d < 16, hexValue (Nat.digitChar d) = some d := by decide
  exact hall d h

/-- The `width` lowest digits are those of the value modulo `16 ^ width`. -/
theorem ofHexDigits_digits (n init width : ℕ) :
    ofHexDigits init ((List.range width).map fun i => Nat.digitChar (n / 16 ^ i % 16)).reverse =
      some (16 ^ width * init + n % 16 ^ width) := by
  induction width generalizing init with
  | zero => simp [ofHexDigits, Nat.mod_one]
  | succ width ih =>
    rw [List.range_succ, List.map_append, List.reverse_append, List.map_singleton,
      List.reverse_singleton, List.singleton_append, ofHexDigits_cons,
      hexValue_digitChar (Nat.mod_lt _ (by norm_num)), Option.bind_some, ih, Nat.mod_pow_succ]
    congr 1
    ring

end MevScout.Decimal
