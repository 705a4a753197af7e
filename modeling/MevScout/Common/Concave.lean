import Mathlib

/-!
# Concave sequences of integers

A sequence is concave on an interval when its increments do not grow there. Concave
sequences stay concave under composition with a non-decreasing one, and once they have stopped
rising they never rise again.

Results:
* `ConcaveBetween.step_antitone`: increments do not grow;
* `ConcaveBetween.falls`: no rise after a step that is not a rise;
* `ConcaveBetween.comp`: composition.
-/

namespace MevScout

/-- `G` is concave on the naturals of `[a, b]`. -/
def ConcaveBetween (G : ℕ → ℤ) (a b : ℕ) : Prop :=
  ∀ x, a ≤ x → x + 2 ≤ b → G x + G (x + 2) ≤ 2 * G (x + 1)

namespace ConcaveBetween

variable {G : ℕ → ℤ} {a b : ℕ}

theorem mono (h : ConcaveBetween G a b) {a' b' : ℕ} (ha : a ≤ a') (hb : b' ≤ b) :
    ConcaveBetween G a' b' :=
  fun x hx hx' => h x (ha.trans hx) (hx'.trans hb)

theorem sub_id (h : ConcaveBetween G a b) : ConcaveBetween (fun x => G x - x) a b := by
  intro x hx hx'
  have := h x hx hx'
  push_cast
  omega

theorem step_antitone (h : ConcaveBetween G a b) {u v : ℕ} (ha : a ≤ u) (huv : u ≤ v)
    (hb : v + 1 ≤ b) : G (v + 1) - G v ≤ G (u + 1) - G u := by
  induction v, huv using Nat.le_induction with
  | base => exact le_rfl
  | succ v huv ih =>
    have := h v (ha.trans huv) hb
    have := ih (by omega)
    rw [show v + 1 + 1 = v + 2 from rfl]
    omega

/-- When every step of `[u, v]` is at most `d`, so is the rise, `v - u` times. -/
theorem rise_le {u v : ℕ} {d : ℤ} (huv : u ≤ v)
    (hstep : ∀ x, u ≤ x → x < v → G (x + 1) - G x ≤ d) : G v - G u ≤ (v - u : ℕ) * d := by
  induction v, huv using Nat.le_induction with
  | base => simp
  | succ v huv ih =>
    have h1 := ih fun x hx hxv => hstep x hx (hxv.trans v.lt_succ_self)
    have h2 := hstep v huv v.lt_succ_self
    rw [show v + 1 - u = (v - u) + 1 by omega, Nat.cast_add, Nat.cast_one, add_mul, one_mul]
    omega

theorem le_rise {u v : ℕ} {d : ℤ} (huv : u ≤ v)
    (hstep : ∀ x, u ≤ x → x < v → d ≤ G (x + 1) - G x) : (v - u : ℕ) * d ≤ G v - G u := by
  have := rise_le (G := fun x => - G x) (d := -d) huv fun x hx hxv => by
    have := hstep x hx hxv
    omega
  rw [mul_neg] at this
  omega

/-- Once a concave sequence has stopped rising it never rises again. -/
theorem falls (h : ConcaveBetween G a b) {u v w : ℕ} (ha : a ≤ u) (huv : u < v) (hvw : v ≤ w)
    (hb : w ≤ b) (hle : G v ≤ G u) : G w ≤ G v := by
  obtain ⟨p, rfl⟩ : ∃ p, v = p + 1 := ⟨v - 1, by omega⟩
  have hlast : G (p + 1) - G p ≤ 0 := by
    by_contra hpos
    have hrise := le_rise (G := G) (d := 1) huv.le fun x hx hxv => by
      have := h.step_antitone (v := p) (ha.trans hx) (by omega) (by omega)
      omega
    have : (0 : ℤ) < (p + 1 - u : ℕ) * 1 := by
      rw [mul_one]
      omega
    omega
  have := rise_le (G := G) (d := 0) hvw fun x hx hxv => by
    have := h.step_antitone (u := p) (v := x) (by omega) (by omega) (by omega)
    omega
  rw [mul_zero] at this
  omega

/-- A step of `k` to the right gains at most what a step of `k` from the left gained. -/
theorem le_two_mul (h : ConcaveBetween G a b) {m k : ℕ} (ha : a + k ≤ m) (hb : m + k ≤ b) :
    G (m - k) + G (m + k) ≤ 2 * G m := by
  rcases Nat.eq_zero_or_pos k with rfl | hk
  · simp
    omega
  set d := G (m + 1) - G m with hd
  have hright := rise_le (G := G) (u := m) (v := m + k) (d := d) (by omega) fun x hx hxv =>
    h.step_antitone (by omega) hx (by omega)
  have hleft := le_rise (G := G) (u := m - k) (v := m) (d := d) (by omega) fun x hx hxv =>
    h.step_antitone (by omega) hxv.le (by omega)
  rw [show m + k - m = k by omega] at hright
  rw [show m - (m - k) = k by omega] at hleft
  omega

/-- A concave non-decreasing sequence of a concave sequence that does not fall. -/
theorem comp {f : ℕ → ℕ} {lo hi : ℕ} (hf : ConcaveBetween (fun x => (f x : ℤ)) lo hi)
    (hmono : ∀ x y, lo ≤ x → x ≤ y → y ≤ hi → f x ≤ f y) (hG : ConcaveBetween G a b)
    (hGmono : ∀ x y, a ≤ x → x ≤ y → y ≤ b → G x ≤ G y) (ha : ∀ x, lo ≤ x → x ≤ hi → a ≤ f x)
    (hb : ∀ x, lo ≤ x → x ≤ hi → f x ≤ b) : ConcaveBetween (fun x => G (f x)) lo hi := by
  intro x hx hx'
  have hconc := hf x hx hx'
  have h01 := hmono x (x + 1) hx (by omega) (by omega)
  have h12 := hmono (x + 1) (x + 2) (by omega) (by omega) hx'
  have ha0 := ha x hx (by omega)
  have hb2 := hb (x + 2) (by omega) hx'
  dsimp only at hconc ⊢
  set m := f (x + 1)
  obtain ⟨k, hk⟩ : ∃ k, f (x + 2) = m + k := ⟨f (x + 2) - m, by omega⟩
  have hback : G (f x) ≤ G (m - k) := hGmono _ _ ha0 (by omega) (by omega)
  have := hG.le_two_mul (m := m) (k := k) (by omega) (by omega)
  rw [hk]
  omega

end ConcaveBetween

end MevScout
