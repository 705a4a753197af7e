import MevScout.Common.Int
import MevScout.Common.Run

/-!
# Arithmetic that a build may check

An operator on primitive integers wraps in a build without overflow checks and panics in a
build with them. A computation of the second kind does what the first does, wherever every
exact result fits; this is `Guarded`, and its rules follow the ways computations are put
together.

Results:
* `guarded_arithUnsigned`, `guarded_arithSigned`: one operator;
* `Guarded.bind`, `Guarded.foldlM`: in sequence, and in a loop;
* `Guarded.exists_ok_iff`: when a checked computation returns;
* `meets_credit_iff`: keyed totals, all of which must fit.
-/

namespace MevScout

/-- The exact result `n` of an unsigned `+` or `*`, at width `w`. -/
def arithUnsigned (checks : Bool) (w n : ℕ) : Except Panic ℕ :=
  if checks ∧ 2 ^ w ≤ n then .error .overflow else .ok (n % 2 ^ w)

/-- `x` is in the range of `i{w}`. -/
def FitsSigned (w : ℕ) (x : ℤ) : Prop := -2 ^ (w - 1) ≤ x ∧ x < 2 ^ (w - 1)

instance (w : ℕ) (x : ℤ) : Decidable (FitsSigned w x) :=
  inferInstanceAs (Decidable (_ ∧ _))

/-- The exact result `x` of a signed `+`, `-` or unary `-`, at width `w`. -/
def arithSigned (checks : Bool) (w : ℕ) (x : ℤ) : Except Panic ℤ :=
  if checks ∧ ¬FitsSigned w x then .error .overflow else .ok (wrapSigned w x)

theorem arithUnsigned_eq {checks : Bool} {w n : ℕ} (h : n < 2 ^ w) :
    arithUnsigned checks w n = .ok n := by
  unfold arithUnsigned
  rw [if_neg (by omega), Nat.mod_eq_of_lt h]

theorem arithUnsigned_false (w n : ℕ) : arithUnsigned false w n = .ok (n % 2 ^ w) :=
  if_neg (by simp)

/-- A result that does not fit wraps in a build without checks. -/
theorem arithUnsigned_of_le {checks : Bool} {w n : ℕ} (h : 2 ^ w ≤ n) :
    arithUnsigned checks w n = if checks then .error .overflow else .ok (n % 2 ^ w) := by
  unfold arithUnsigned
  cases checks
  · rw [if_neg (by simp)]
    rfl
  · rw [if_pos ⟨rfl, h⟩]
    rfl

universe u

variable {ε : Type*} {α β : Type u} {checks : Bool}

theorem ok_bind (a : α) (f : α → Except ε β) : (.ok a : Except ε α) >>= f = f a := rfl

theorem error_bind (e : ε) (f : α → Except ε β) : (.error e : Except ε α) >>= f = .error e := rfl

/-- Where `P` holds, to return `x` is to return the value that stands for it. -/
theorem ok_eq_ok_iff {P : Prop} {x v r : α} (hP : P) (hv : v = x) :
    (.ok x : Except ε α) = .ok r ↔ P ∧ v = r := by
  rw [hv]
  exact ⟨fun h => ⟨hP, Except.ok.inj h⟩, fun h => congrArg Except.ok h.2⟩

/-- Where `P` fails, an error returns nothing. -/
theorem error_eq_ok_iff {P : Prop} {e : ε} {v r : α} (hP : ¬P) :
    (.error e : Except ε α) = .ok r ↔ P ∧ v = r :=
  iff_of_false (fun h => by cases h) fun h => hP h.1

/-- `x` does what `y` does, except that it panics where checks are on and `P` fails. -/
def Guarded (checks : Bool) (P : Prop) (x y : Except ε α) : Prop :=
  ∀ r, x = .ok r ↔ (checks = true → P) ∧ y = .ok r

theorem guarded_self (x : Except ε α) : Guarded checks True x x :=
  fun _ => ⟨fun h => ⟨fun _ => trivial, h⟩, fun h => h.2⟩

theorem guarded_arithUnsigned (checks : Bool) (w n : ℕ) :
    Guarded checks (n < 2 ^ w) (arithUnsigned checks w n) (.ok (n % 2 ^ w)) := by
  intro r
  unfold arithUnsigned
  split_ifs with h
  · exact iff_of_false (fun h' => by cases h') fun h' => absurd (h'.1 h.1) (by omega)
  · refine ⟨fun h' => ⟨fun hc => ?_, h'⟩, fun h' => h'.2⟩
    exact not_le.mp fun hle => h ⟨hc, hle⟩

theorem guarded_arithSigned (checks : Bool) (w : ℕ) (x : ℤ) :
    Guarded checks (FitsSigned w x) (arithSigned checks w x) (.ok (wrapSigned w x)) := by
  intro r
  unfold arithSigned
  split_ifs with h
  · exact iff_of_false (fun h' => by cases h') fun h' => h.2 (h'.1 h.1)
  · refine ⟨fun h' => ⟨fun hc => ?_, h'⟩, fun h' => h'.2⟩
    exact not_not.mp fun hfits => h ⟨hc, hfits⟩

theorem Guarded.congr {P Q : Prop} {x y z : Except ε α} (h : Guarded checks P x y)
    (hPQ : P ↔ Q) (hyz : y = z) : Guarded checks Q x z := by
  intro r
  rw [h r, hPQ, hyz]

theorem Guarded.bind {P : Prop} {Q : α → Prop} {x y : Except ε α} {f g : α → Except ε β}
    (hx : Guarded checks P x y) (hf : ∀ a, y = .ok a → Guarded checks (Q a) (f a) (g a)) :
    Guarded checks (P ∧ ∀ a, y = .ok a → Q a) (x >>= f) (y >>= g) := by
  intro r
  rw [bind_eq_ok, bind_eq_ok]
  constructor
  · rintro ⟨a, ha, hr⟩
    obtain ⟨hP, hy⟩ := (hx a).mp ha
    obtain ⟨hQ, hg⟩ := (hf a hy r).mp hr
    refine ⟨fun hc => ⟨hP hc, fun b hb => ?_⟩, a, hy, hg⟩
    obtain rfl := Except.ok.inj (hy.symm.trans hb)
    exact hQ hc
  · rintro ⟨hPQ, a, hy, hg⟩
    exact ⟨a, (hx a).mpr ⟨fun hc => (hPQ hc).1, hy⟩,
      (hf a hy r).mpr ⟨fun hc => (hPQ hc).2 a hy, hg⟩⟩

/-- The bind of a computation that returns. -/
theorem Guarded.bind_ok {P Q : Prop} {a : α} {x : Except ε α} {f : α → Except ε β}
    {y : Except ε β} (hx : Guarded checks P x (.ok a)) (hf : Guarded checks Q (f a) y) :
    Guarded checks (P ∧ Q) (x >>= f) y := by
  refine (hx.bind (Q := fun _ => Q) (g := fun _ => y) ?_).congr ?_ rfl
  · intro b hb
    obtain rfl := Except.ok.inj hb
    exact hf
  · exact and_congr_right' ⟨fun h => h a rfl, fun h _ _ => h⟩

theorem Guarded.map {γ : Type*} {P : Prop} {x y : Except ε α} (hx : Guarded checks P x y)
    (f : α → γ) : Guarded checks P (x.map f) (y.map f) := by
  have hmap {z : Except ε α} {r : γ} : z.map f = .ok r ↔ ∃ a, z = .ok a ∧ f a = r := by
    cases z with
    | error e => exact iff_of_false (fun h => by cases h) fun ⟨_, h, _⟩ => by cases h
    | ok a =>
      refine ⟨fun h => ⟨a, rfl, Except.ok.inj h⟩, ?_⟩
      rintro ⟨a', h, rfl⟩
      obtain rfl := Except.ok.inj h
      rfl
  intro r
  rw [hmap, hmap, ← exists_and_left]
  refine exists_congr fun a => ?_
  rw [hx a, and_assoc]

/-- A loop is guarded by the condition of every step. -/
theorem Guarded.foldlM {γ : Type*} {stepIn step : α → γ → Except ε α} {P : α → γ → Prop}
    (h : ∀ s a, Guarded checks (P s a) (stepIn s a) (step s a)) (s : α) (l : List γ) :
    Guarded checks (Meets step P s l) (l.foldlM stepIn s) (l.foldlM step s) := by
  induction l generalizing s with
  | nil => exact guarded_self _
  | cons a l ih =>
    rw [List.foldlM_cons, List.foldlM_cons]
    exact (h s a).bind fun t _ => ih t

theorem Guarded.exists_ok_iff {P : Prop} {x y : Except ε α} (h : Guarded checks P x y) :
    (∃ r, x = .ok r) ↔ (checks = true → P) ∧ ∃ r, y = .ok r := by
  rw [← exists_and_left]
  exact exists_congr fun r => h r

/-- A step that cannot panic, and the rest. -/
theorem meets_cons_ok {σ γ : Type*} {f : σ → γ → σ} {P : σ → γ → Prop} {s : σ} {a : γ}
    {l : List γ} :
    Meets (fun s a => (.ok (f s a) : Except ε σ)) P s (a :: l) ↔
      P s a ∧ Meets (fun s a => (.ok (f s a) : Except ε σ)) P (f s a) l :=
  and_congr_right' ⟨fun h => h _ rfl, fun h _ ht => Except.ok.inj ht ▸ h⟩

/-- Two loops side by side meet a condition exactly when each meets its own. -/
theorem meets_prod {σ τ γ : Type*} {f : σ → γ → σ} {g : τ → γ → τ} {P : σ → γ → Prop}
    {Q : τ → γ → Prop} {s : σ} {t : τ} {l : List γ} :
    Meets (fun s a => (.ok (f s.1 a, g s.2 a) : Except ε (σ × τ)))
        (fun s a => P s.1 a ∧ Q s.2 a) (s, t) l ↔
      Meets (fun s a => (.ok (f s a) : Except ε σ)) P s l ∧
        Meets (fun t a => (.ok (g t a) : Except ε τ)) Q t l := by
  induction l generalizing s t with
  | nil => exact iff_of_true trivial ⟨trivial, trivial⟩
  | cons a l ih =>
    rw [meets_cons_ok, meets_cons_ok, meets_cons_ok, ih]
    tauto

/-! ## Keyed totals -/

section Totals

variable {κ γ : Type*} [DecidableEq κ]

/-- `*totals.entry(key).or_default() += value`, where `f` holds the totals. -/
def addAt (checks : Bool) (w : ℕ) (f : κ → ℕ) (key : κ) (value : ℕ) : Except Panic (κ → ℕ) :=
  (arithUnsigned checks w (f key + value)).map fun total => Function.update f key total

/-- The same, under the condition `c`. -/
def addIf (checks : Bool) (w : ℕ) (f : κ → ℕ) (c : Prop) [Decidable c] (key : κ) (value : ℕ) :
    Except Panic (κ → ℕ) :=
  if c then addAt checks w f key value else .ok f

theorem guarded_addAt (checks : Bool) (w : ℕ) (f : κ → ℕ) (key : κ) (value : ℕ) :
    Guarded checks (f key + value < 2 ^ w) (addAt checks w f key value)
      (.ok (Function.update f key (wrappingAdd w (f key) value))) :=
  (guarded_arithUnsigned checks w (f key + value)).map _

/-- The totals after an entry, if there is one. -/
def credit (w : ℕ) (f : κ → ℕ) (entry : Option (κ × ℕ)) : κ → ℕ :=
  entry.elim f fun e => Function.update f e.1 (wrappingAdd w (f e.1) e.2)

/-- The entry, if there is one, leaves its total below `2 ^ w`. -/
def CreditFits (w : ℕ) (f : κ → ℕ) (entry : Option (κ × ℕ)) : Prop :=
  ∀ e ∈ entry, f e.1 + e.2 < 2 ^ w

/-- An addition made under a condition is the credit of an entry that may be absent. -/
theorem guarded_addIf (checks : Bool) (w : ℕ) (f : κ → ℕ) (c : Prop) [Decidable c] (key : κ)
    (value : ℕ) :
    Guarded checks (CreditFits w f (if c then some (key, value) else none))
      (addIf checks w f c key value)
      (.ok (credit w f (if c then some (key, value) else none))) := by
  unfold addIf
  split_ifs
  · refine (guarded_addAt checks w f key value).congr ?_ rfl
    exact ⟨fun h e he => Option.some.inj he ▸ h, fun h => h _ rfl⟩
  · exact (guarded_self _).congr (iff_of_true trivial fun _ h => by cases h) rfl

/-- What an entry is worth to a key. -/
def worth (key : κ) (entry : Option (κ × ℕ)) : ℕ :=
  entry.elim 0 fun e => if e.1 = key then e.2 else 0

/-- The total of a key over a list of rows, of which `c` reads the entries. -/
def totalOf (c : γ → Option (κ × ℕ)) (key : κ) (l : List γ) : ℕ :=
  (l.map fun a => worth key (c a)).sum

theorem totalOf_cons (c : γ → Option (κ × ℕ)) (key : κ) (a : γ) (l : List γ) :
    totalOf c key (a :: l) = worth key (c a) + totalOf c key l := by
  rw [totalOf, List.map_cons, List.sum_cons, totalOf]

/-- An entry that fits adds to every key what it is worth to it. -/
theorem credit_apply {w : ℕ} {f : κ → ℕ} {entry : Option (κ × ℕ)} (h : CreditFits w f entry)
    (key : κ) : credit w f entry key = f key + worth key entry := by
  cases entry with
  | none => rfl
  | some e =>
    have hfits := h e rfl
    show Function.update f e.1 (wrappingAdd w (f e.1) e.2) key =
      f key + if e.1 = key then e.2 else 0
    by_cases hk : e.1 = key
    · rw [if_pos hk, ← hk, Function.update_self, wrappingAdd_eq hfits]
    · rw [if_neg hk, Function.update_of_ne (Ne.symm hk), Nat.add_zero]

theorem creditFits_iff {w : ℕ} {f : κ → ℕ} (hf : ∀ key, f key < 2 ^ w)
    {entry : Option (κ × ℕ)} :
    CreditFits w f entry ↔ ∀ key, f key + worth key entry < 2 ^ w := by
  cases entry with
  | none => exact iff_of_true (fun _ h => by cases h) hf
  | some e =>
    constructor
    · intro h key
      show f key + (if e.1 = key then e.2 else 0) < 2 ^ w
      split_ifs with hk
      · exact hk ▸ h e rfl
      · exact hf key
    · intro h e' he'
      obtain rfl := Option.some.inj he'
      have hkey := h e.1
      rwa [show worth e.1 (some e) = e.2 from if_pos rfl] at hkey

/-- A loop of entries fits, step by step, exactly when every key's total does. -/
theorem meets_credit_iff {w : ℕ} {c : γ → Option (κ × ℕ)} {f : κ → ℕ} {l : List γ}
    (hf : ∀ key, f key < 2 ^ w) :
    Meets (fun f a => (.ok (credit w f (c a)) : Except ε (κ → ℕ)))
        (fun f a => CreditFits w f (c a)) f l ↔
      ∀ key, f key + totalOf c key l < 2 ^ w := by
  induction l generalizing f with
  | nil => exact iff_of_true trivial hf
  | cons a l ih =>
    simp only [totalOf_cons, ← Nat.add_assoc]
    rw [meets_cons_ok]
    constructor
    · rintro ⟨hfits, hrest⟩ key
      have hall := (creditFits_iff hf).mp hfits
      have hnext := (ih fun k => (credit_apply hfits k).trans_lt (hall k)).mp hrest key
      rwa [credit_apply hfits] at hnext
    · intro h
      have hfits : CreditFits w f (c a) := (creditFits_iff hf).mpr fun key => by
        have hkey := h key
        omega
      refine ⟨hfits, (ih fun k => ?_).mpr fun key => ?_⟩
      · exact (credit_apply hfits k).trans_lt ((creditFits_iff hf).mp hfits k)
      · rw [credit_apply hfits]
        exact h key

end Totals

end MevScout
