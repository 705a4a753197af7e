import MevScout.Common.Loop
import MevScout.Pool.Math.TwoHop

/-!
# The integer square root of a 512-bit word

`isqrt_u512` (`core/src/pool/math/core.rs`) with both of its loops, on 512-bit words whose
operators wrap: it counts the bits of `n`, starts from the power of two of half as many, and takes
Newton steps for as long as they descend.

Results:
* `exists_bitRun`: the first loop counts the bits;
* `newtonTurn_keeps`: what a Newton step keeps;
* `newtonTurn_leaves`: the loop is left at the root;
* `isqrt_correct`: **main theorem**, the loops end, nothing overflows, and the result is the root.
-/

namespace MevScout.Pool.Math

variable {n x y r k : ℕ}

/-! ## Model -/

/-- The variables of the loop that counts the bits. -/
structure BitCount where
  v : ℕ
  bits : ℕ
  deriving DecidableEq, Repr

/-- One turn of the loop that counts the bits (`core.rs`, lines 29–32). -/
def bitTurn (s : BitCount) : BitCount × Bool := (⟨s.v / 2, s.bits + 1⟩, true)

/-- The loop that counts the bits, from any of its states. -/
abbrev BitRun : BitCount → List BitCount → BitCount → Prop := LoopRun (fun s => s.v ≠ 0) bitTurn

/-- One turn of Newton's loop (lines 34–40). -/
def newtonTurn (n x : ℕ) : ℕ × Bool :=
  let y := wrappingAdd 512 x (n / x) / 2
  if y ≥ x then (x, false) else (y, true)

/-- Newton's loop, from any `x`. -/
abbrev NewtonRun (n : ℕ) : ℕ → List ℕ → ℕ → Prop := LoopRun (fun _ => True) (newtonTurn n)

/-- A run of `isqrt_u512` (lines 23–41) on `n`: the turns of the first loop and the bits that it
    counts, the values of `x` at the turns of the second, and the result. -/
inductive IsqrtRun : ℕ → List BitCount → ℕ → List ℕ → ℕ → Prop
  | zero : IsqrtRun 0 [] 0 [] 0
  | root {n r : ℕ} {counted : List BitCount} {b : BitCount} {xs : List ℕ} (hn : n ≠ 0)
      (hbits : BitRun ⟨n, 0⟩ counted b)
      (hnewton : NewtonRun n (wrappingMul 512 1 (2 ^ ((b.bits + 1) / 2))) xs r) :
      IsqrtRun n counted b.bits xs r

/-! ## The bits -/

/-- The start value fits in a word. -/
theorem start_lt (h : k ≤ 512) : 2 ^ ((k + 1) / 2) < 2 ^ 512 :=
  pow_lt_pow_right₀ Nat.one_lt_two (by omega)

theorem size_eq_size_half (h : n ≠ 0) : Nat.size n = Nat.size (n / 2) + 1 := by
  have hbit : Nat.bit n.bodd n.div2 ≠ 0 := by rwa [Nat.bit_bodd_div2]
  have hsize := Nat.size_bit hbit
  rwa [Nat.bit_bodd_div2, Nat.div2_val] at hsize

/-- The first loop counts the bits, and takes one turn for each. -/
theorem exists_bitRun (n k : ℕ) :
    ∃ counted, BitRun ⟨n, k⟩ counted ⟨0, k + Nat.size n⟩ ∧
      ∀ c ∈ counted, c.bits < k + Nat.size n := by
  induction n using Nat.strong_induction_on generalizing k with
  | _ n ih =>
    by_cases hn : n = 0
    · subst hn
      rw [Nat.size_zero]
      exact ⟨[], .stop fun h => h rfl, nofun⟩
    · obtain ⟨counted, hrun, hlt⟩ := ih (n / 2) (by omega) (k + 1)
      have hsize : k + 1 + Nat.size (n / 2) = k + Nat.size n := by
        rw [size_eq_size_half hn]
        omega
      rw [hsize] at hrun hlt
      refine ⟨⟨n, k⟩ :: counted, .next hn rfl hrun, List.forall_mem_cons.mpr ⟨?_, hlt⟩⟩
      have hpos : 0 < Nat.size n := Nat.size_pos.mpr (Nat.pos_of_ne_zero hn)
      show k < k + Nat.size n
      omega

/-- The first loop counts no more bits than the word has. -/
theorem exists_bitRun_of_lt {w : ℕ} (hn : n < 2 ^ w) :
    ∃ counted, BitRun ⟨n, 0⟩ counted ⟨0, Nat.size n⟩ ∧ Nat.size n ≤ w ∧
      ∀ c ∈ counted, c.bits < w := by
  obtain ⟨counted, hrun, hlt⟩ := exists_bitRun n 0
  rw [Nat.zero_add] at hrun hlt
  have hsize : Nat.size n ≤ w := Nat.size_le.mpr hn
  exact ⟨counted, hrun, hsize, fun c hc => (hlt c hc).trans_le hsize⟩

/-! ## Newton's steps -/

/-- `x` is not below the root of `n`, and has at most half of the bits of a word. -/
structure AboveRoot (n x : ℕ) : Prop where
  pos : 0 < x
  le : x ≤ 2 ^ 256
  lt_sq : n < (x + 1) * (x + 1)

/-- The sum of a Newton step fits in a word. -/
theorem AboveRoot.sum_lt (h : AboveRoot n x) : x + n / x < 2 ^ 512 := by
  have hdiv : n / x < x + 3 := (Nat.div_lt_iff_lt_mul h.pos).mpr <|
    calc n < (x + 1) * (x + 1) := h.lt_sq
      _ ≤ (x + 3) * x := by nlinarith [h.pos]
  have hle := h.le
  omega

/-- A step on words is the exact step. -/
theorem AboveRoot.newtonTurn_eq (h : AboveRoot n x) :
    newtonTurn n x =
      if (x + n / x) / 2 ≥ x then (x, false) else ((x + n / x) / 2, true) := by
  unfold newtonTurn
  rw [wrappingAdd_eq h.sum_lt]

/-- A step that descends stays above the root. -/
theorem newtonTurn_keeps (hn : n ≠ 0) (h : AboveRoot n x) (hturn : newtonTurn n x = (y, true)) :
    AboveRoot n y ∧ y < x := by
  rw [h.newtonTurn_eq] at hturn
  split_ifs at hturn with hstop
  · cases hturn
  · obtain rfl := congrArg Prod.fst hturn
    dsimp only
    have hlt : (x + n / x) / 2 < x := not_le.mp hstop
    refine ⟨⟨?_, hlt.le.trans h.le, lt_newton_sq h.pos⟩, hlt⟩
    -- a step from 1 does not descend
    have hx := h.pos
    rcases Nat.lt_or_ge x 2 with h1 | h2
    · obtain rfl : x = 1 := by omega
      rw [Nat.div_one] at hlt
      omega
    · generalize n / x = q at *
      omega

/-- The loop is left at the root. -/
theorem newtonTurn_leaves (h : AboveRoot n x) (hturn : newtonTurn n x = (r, false)) :
    r * r ≤ n ∧ n < (r + 1) * (r + 1) := by
  rw [h.newtonTurn_eq] at hturn
  split_ifs at hturn with hstop
  · obtain rfl := congrArg Prod.fst hturn
    dsimp only
    have hdiv : x ≤ n / x := by omega
    exact ⟨(Nat.le_div_iff_mul_le h.pos).mp hdiv, h.lt_sq⟩
  · cases hturn

/-- Newton's loop ends, from everywhere above the root. -/
theorem exists_newtonRun (hn : n ≠ 0) (h : AboveRoot n x) :
    ∃ xs r, NewtonRun n x xs r ∧ (∀ y ∈ xs, AboveRoot n y) ∧
      r * r ≤ n ∧ n < (r + 1) * (r + 1) := by
  have hstep : ∀ x y, AboveRoot n x → True → newtonTurn n x = (y, true) → AboveRoot n y :=
    fun _ _ hx _ hturn => (newtonTurn_keeps hn hx hturn).1
  obtain ⟨xs, r, (hrun : NewtonRun n x xs r), -⟩ := exists_loopRun (μ := id) h
    fun x y hx (_ : True) hturn => ⟨hstep x y hx trivial hturn,
      .inr (newtonTurn_keeps hn hx hturn).2⟩
  refine ⟨xs, r, hrun, fun y hy => (hrun.invariant h hstep y hy).1, ?_⟩
  obtain ⟨-, hfalse⟩ | ⟨y, hy, -, hturn⟩ := hrun.ends h hstep
  · exact absurd trivial hfalse
  · exact newtonTurn_leaves hy hturn

theorem aboveRoot_start (hsize : Nat.size n ≤ 512) : AboveRoot n (2 ^ ((Nat.size n + 1) / 2)) where
  pos := Nat.two_pow_pos _
  le := Nat.pow_le_pow_right (by omega) (by omega)
  lt_sq := lt_start_sq n

/-! ## The root -/

/-- **`isqrt_u512` is the integer square root.** On every 512-bit `n` it has a run. The counter
    and the start value fit, no step divides by zero or overflows a word, and the result is the
    root rounded down, which is also what the exact model returns. -/
theorem isqrt_correct (n : ℕ) (hn : n < 2 ^ 512) :
    ∃ counted bits xs r, IsqrtRun n counted bits xs r ∧
      (∀ c ∈ counted, c.bits < 512) ∧ 2 ^ ((bits + 1) / 2) < 2 ^ 512 ∧
      (∀ x ∈ xs, 0 < x ∧ x + n / x < 2 ^ 512) ∧
      r * r ≤ n ∧ n < (r + 1) * (r + 1) ∧ isqrtU512 n = r := by
  rcases eq_or_ne n 0 with rfl | h0
  · have hfits := start_lt (Nat.zero_le 512)
    exact ⟨[], 0, [], 0, .zero, nofun, hfits, nofun, le_rfl, Nat.one_pos, if_pos rfl⟩
  obtain ⟨counted, hbits, hsize, hcounted⟩ := exists_bitRun_of_lt hn
  have hstart := aboveRoot_start hsize
  have hfits : 2 ^ ((Nat.size n + 1) / 2) < 2 ^ 512 := start_lt hsize
  obtain ⟨xs, r, hnewton, habove, hle, hlt⟩ := exists_newtonRun h0 hstart
  refine ⟨counted, Nat.size n, xs, r, .root h0 hbits ?_, hcounted, hfits,
    fun x hx => ⟨(habove x hx).pos, (habove x hx).sum_lt⟩, hle, hlt, ?_⟩
  · rwa [wrappingMul_eq (by rwa [Nat.one_mul]), Nat.one_mul]
  · rw [isqrtU512_eq]
    exact (Nat.eq_sqrt.mpr ⟨hle, hlt⟩).symm

/-- A run on 10 ends in 3. -/
theorem isqrt_correct_ten : ∃ counted bits xs, IsqrtRun 10 counted bits xs 3 := by
  have hten : 10 < 2 ^ 512 := lt_trans (by norm_num) (start_lt (show 10 ≤ 512 by omega))
  obtain ⟨counted, bits, xs, r, hrun, -, -, -, hle, hlt, -⟩ := isqrt_correct 10 hten
  obtain rfl : r = 3 := by
    have hlow : r < 4 := by nlinarith
    have hhigh : 2 < r := by nlinarith
    omega
  exact ⟨counted, bits, xs, hrun⟩

end MevScout.Pool.Math
