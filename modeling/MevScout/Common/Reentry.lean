import Mathlib.Data.Nat.Notation
import Mathlib.Logic.Relation

/-!
# Code that others may enter again

A program reads and writes a state, asks others for numbers, may revert, and calls others out. Until
such a call returns, others have control: they may change what is theirs in the state and call the
entries of the program again. A call that reverts leaves no trace, so that only calls that return
are made.

Results:
* `exec_bind`: a run of two programs, one after the other;
* `Contract.call_induct`: what each entry keeps, where the calls nested in it keep it, every call
  keeps.
-/

namespace MevScout.Reentry

/-- Programs over the states `S` that fail with `ε` and make the calls `T`. -/
inductive Prog (S ε T α : Type) where
  | ret (a : α)
  | revert (e : ε)
  | get (k : S → Prog S ε T α)
  | set (s : S) (k : Prog S ε T α)
  | ask (k : ℕ → Prog S ε T α)
  | callOut (t : T) (k : Prog S ε T α)

variable {S ε T E α β : Type}

namespace Prog

/-- One program, then another one that reads its result. -/
def bind : Prog S ε T α → (α → Prog S ε T β) → Prog S ε T β
  | ret a, f => f a
  | revert e, _ => revert e
  | get k, f => get fun s => (k s).bind f
  | set s k, f => set s (k.bind f)
  | ask k, f => ask fun n => (k n).bind f
  | callOut t k, f => callOut t (k.bind f)

instance : Monad (Prog S ε T) where
  pure := ret
  bind := bind

/-- The state. -/
def state : Prog S ε T S := get ret

/-- The state becomes `s`. -/
def put (s : S) : Prog S ε T Unit := set s (ret ())

/-- A number that another one answers. -/
def answer : Prog S ε T ℕ := ask ret

/-- A call of another one. -/
def outside (t : T) : Prog S ε T Unit := callOut t (ret ())

/-- It reverts with `e` unless `p` holds. -/
def require (p : Prop) [Decidable p] (e : ε) : Prog S ε T Unit := if p then ret () else revert e

/-- The value, or a revert. -/
def orRevert (e : ε) : Option α → Prog S ε T α
  | some a => ret a
  | none => revert e

end Prog

open Prog

/-- The program takes `s` to `s'` with the result `a`, where a call `t` out may take the state
    along `reply t`. -/
def Exec (reply : T → S → S → Prop) : Prog S ε T α → S → α → S → Prop
  | .ret a, s, b, s' => a = b ∧ s = s'
  | .revert _, _, _, _ => False
  | .get k, s, b, s' => Exec reply (k s) s b s'
  | .set t k, _, b, s' => Exec reply k t b s'
  | .ask k, s, b, s' => ∃ n, Exec reply (k n) s b s'
  | .callOut t k, s, b, s' => ∃ s₁, reply t s s₁ ∧ Exec reply k s₁ b s'

variable {reply reply' : T → S → S → Prop} {s s' t : S} {a : α} {b : β} {e : ε}

/-! ## Runs -/

@[simp] theorem exec_pure {c : α} : Exec reply (pure c : Prog S ε T α) s a s' ↔ c = a ∧ s = s' :=
  Iff.rfl

@[simp] theorem exec_ret {c : α} : Exec reply (ret c : Prog S ε T α) s a s' ↔ c = a ∧ s = s' :=
  Iff.rfl

@[simp] theorem exec_revert : Exec reply (revert e : Prog S ε T α) s a s' ↔ False := Iff.rfl

@[simp] theorem exec_state : Exec reply (state : Prog S ε T S) s t s' ↔ s = t ∧ s = s' := Iff.rfl

@[simp] theorem exec_put {u : Unit} : Exec reply (put t : Prog S ε T Unit) s u s' ↔ t = s' :=
  and_iff_right rfl

@[simp] theorem exec_outside {c : T} {u : Unit} :
    Exec reply (outside c : Prog S ε T Unit) s u s' ↔ reply c s s' := by
  constructor
  · rintro ⟨s₁, h, -, rfl⟩
    exact h
  · intro h
    exact ⟨s', h, rfl, rfl⟩

@[simp] theorem exec_answer {n : ℕ} : Exec reply (answer : Prog S ε T ℕ) s n s' ↔ s = s' := by
  constructor
  · rintro ⟨_, rfl, h⟩
    exact h
  · intro h
    exact ⟨n, rfl, h⟩

@[simp] theorem exec_require {p : Prop} [Decidable p] {u : Unit} :
    Exec reply (require p e : Prog S ε T Unit) s u s' ↔ p ∧ s = s' := by
  unfold require
  by_cases h : p
  · simp [h]
  · simp [h]

@[simp] theorem exec_orRevert {o : Option α} :
    Exec reply (orRevert e o : Prog S ε T α) s a s' ↔ o = some a ∧ s = s' := by
  cases o with
  | none => simp [orRevert]
  | some c => simp [orRevert]

/-- A run of two programs is a run of the first one and, from where it ends, of the second one. -/
@[simp] theorem exec_bind {p : Prog S ε T α} {f : α → Prog S ε T β} :
    Exec reply (p >>= f) s b s' ↔ ∃ a s₁, Exec reply p s a s₁ ∧ Exec reply (f a) s₁ b s' := by
  show Exec reply (p.bind f) s b s' ↔ _
  induction p generalizing s with
  | ret a =>
    constructor
    · intro h
      exact ⟨a, s, ⟨rfl, rfl⟩, h⟩
    · rintro ⟨_, _, ⟨rfl, rfl⟩, h⟩
      exact h
  | revert e =>
    constructor
    · exact False.elim
    · rintro ⟨_, _, h, -⟩
      exact h
  | get k ih => exact ih s
  | set t k ih => exact ih
  | ask k ih =>
    constructor
    · rintro ⟨n, h⟩
      obtain ⟨a, s₁, h₁, h₂⟩ := (ih n).mp h
      exact ⟨a, s₁, ⟨n, h₁⟩, h₂⟩
    · rintro ⟨a, s₁, ⟨n, h₁⟩, h₂⟩
      exact ⟨n, (ih n).mpr ⟨a, s₁, h₁, h₂⟩⟩
  | callOut t k ih =>
    constructor
    · rintro ⟨s₀, hreply, h⟩
      obtain ⟨a, s₁, h₁, h₂⟩ := ih.mp h
      exact ⟨a, s₁, ⟨s₀, hreply, h₁⟩, h₂⟩
    · rintro ⟨a, s₁, ⟨s₀, hreply, h₁⟩, h₂⟩
      exact ⟨s₀, hreply, ih.mpr ⟨a, s₁, h₁, h₂⟩⟩

/-- Others that may do more make no fewer runs. -/
theorem Exec.mono {p : Prog S ε T α} (hle : ∀ c s s', reply c s s' → reply' c s s')
    (h : Exec reply p s a s') : Exec reply' p s a s' := by
  induction p generalizing s with
  | ret a => exact h
  | revert e => exact h
  | get k ih => exact ih s h
  | set t k ih => exact ih h
  | ask k ih =>
    obtain ⟨n, h⟩ := h
    exact ⟨n, ih n h⟩
  | callOut c k ih =>
    obtain ⟨s₁, hreply, h⟩ := h
    exact ⟨s₁, hle c s s₁ hreply, ih h⟩

/-! ## Calls that nest -/

/-- Entries with their code, and how the one that is called out behaves, given which calls of the
    entries return. -/
structure Contract (S ε T E : Type) where
  code : E → Prog S ε T Unit
  callee : T → (E → S → S → Prop) → S → S → Prop
  callee_mono {c c' : E → S → S → Prop} (h : ∀ e s s', c e s s' → c' e s s') (t : T) (s s' : S) :
    callee t c s s' → callee t c' s s'

namespace Contract

variable (C : Contract S ε T E)

/-- A call of an entry in which calls nest less than `n` deep. -/
def CallN : ℕ → E → S → S → Prop
  | 0, _, _, _ => False
  | n + 1, e, s, s' => Exec (fun t => C.callee t (CallN n)) (C.code e) s () s'

/-- A call of an entry that takes `s` to `s'`. -/
def Call (e : E) (s s' : S) : Prop := ∃ n, C.CallN n e s s'

variable {C} {x : E}

theorem callN_succ {n : ℕ} (h : C.CallN n x s s') : C.CallN (n + 1) x s s' := by
  induction n generalizing x s s' with
  | zero => exact h.elim
  | succ n ih => exact Exec.mono (C.callee_mono fun _ _ _ => ih) h

theorem callN_mono {m n : ℕ} (hle : m ≤ n) (h : C.CallN m x s s') : C.CallN n x s s' := by
  induction hle with
  | refl => exact h
  | step _ ih => exact callN_succ ih

/-- **The induction on calls.** What every entry keeps, where the calls nested in it keep it, every
    call keeps. -/
theorem call_induct {I : E → S → S → Prop}
    (hcode : ∀ x s s', C.Call x s s' → Exec (fun t => C.callee t I) (C.code x) s () s' → I x s s')
    (h : C.Call x s s') : I x s s' := by
  obtain ⟨n, h⟩ := h
  induction n generalizing x s s' with
  | zero => exact h.elim
  | succ n ih => exact hcode x s s' ⟨n + 1, h⟩ (Exec.mono (C.callee_mono fun _ _ _ => ih) h)

/-- A call runs the code of its entry. -/
theorem exec_of_call (h : C.Call x s s') :
    Exec (fun t => C.callee t C.Call) (C.code x) s () s' := by
  obtain ⟨n, h⟩ := h
  cases n with
  | zero => exact h.elim
  | succ n => exact Exec.mono (C.callee_mono fun _ _ _ h => ⟨n, h⟩) h

end Contract

/-! ## Others at large -/

/-- Others do, one thing after another, what is theirs to do, and make the calls they may. -/
def Free (move : S → S → Prop) (may : S → E → Prop) (call : E → S → S → Prop) : S → S → Prop :=
  Relation.ReflTransGen fun s s' => move s s' ∨ ∃ x, may s x ∧ call x s s'

variable {move : S → S → Prop} {may : S → E → Prop} {call call' : E → S → S → Prop}

theorem Free.mono (hle : ∀ x s s', call x s s' → call' x s s') (h : Free move may call s s') :
    Free move may call' s s' :=
  Relation.ReflTransGen.mono (fun _ _ hstep =>
    hstep.imp_right fun ⟨x, hmay, hcall⟩ => ⟨x, hmay, hle x _ _ hcall⟩) _ _ h

/-- Others keep a preorder that holds of what is theirs and of the calls they make. -/
theorem Free.induct {R : S → S → Prop} (hrefl : ∀ s, R s s)
    (htrans : ∀ s₁ s₂ s₃, R s₁ s₂ → R s₂ s₃ → R s₁ s₃) (hmove : ∀ s s', move s s' → R s s')
    (hcall : ∀ x s s', may s x → call x s s' → R s s') (h : Free move may call s s') :
    R s s' := by
  induction h with
  | refl => exact hrefl s
  | tail _ hstep ih =>
    rcases hstep with hstep | ⟨x, hmay, hstep⟩
    · exact htrans _ _ _ ih (hmove _ _ hstep)
    · exact htrans _ _ _ ih (hcall x _ _ hmay hstep)

end MevScout.Reentry
