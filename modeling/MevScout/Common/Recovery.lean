import Mathlib

/-!
# Runs that are interrupted

A run makes its steps in order and stops at the first one that fails. Steps are atomic, so that an
interruption leaves the state between two of them, and the next run starts with the first step
again. A step that is done changes nothing.

Results:
* `done_exec`: the steps of a run that does not fail are done at its end;
* `exec_of_interrupted`: after an interruption a run ends as it would have ended without it;
* `interrupted_induct`: what every step keeps holds after an interruption;
* `exec_stops`: what becomes of a run that comes to a step that fails.
-/

namespace MevScout.Recovery

variable {σ ε : Type*}

/-- A step, and when it is done. -/
structure Step (σ ε : Type*) where
  run : σ → Except ε σ
  Done : σ → Prop
  run_of_done : ∀ {s : σ}, Done s → run s = .ok s
  done_of_run : ∀ {s s' : σ}, run s = .ok s' → Done s'

/-- The state that a run ends in, and the error that it ends with. -/
def exec : List (Step σ ε) → σ → σ × Option ε
  | [], s => (s, none)
  | f :: fs, s =>
    match f.run s with
    | .error e => (s, some e)
    | .ok s => exec fs s

/-- A later step `g` leaves `f` done. -/
def Keeps (f g : Step σ ε) : Prop := ∀ ⦃s s' : σ⦄, f.Done s → g.run s = .ok s' → f.Done s'

variable {f : Step σ ε} {fs gs : List (Step σ ε)} {s s' : σ} {P : σ → Prop}

theorem exec_cons_of_ok (h : f.run s = .ok s') : exec (f :: fs) s = exec fs s' := by
  conv_lhs => unfold exec
  rw [h]

theorem exec_cons_of_error {e : ε} (h : f.run s = .error e) : exec (f :: fs) s = (s, some e) := by
  conv_lhs => unfold exec
  rw [h]

theorem exec_append (h : (exec fs s).2 = none) : exec (fs ++ gs) s = exec gs (exec fs s).1 := by
  induction fs generalizing s with
  | nil => rfl
  | cons f fs ih =>
    cases hf : f.run s with
    | error e =>
      rw [exec_cons_of_error hf] at h
      cases h
    | ok s₁ =>
      rw [exec_cons_of_ok hf] at h ⊢
      rw [List.cons_append, exec_cons_of_ok hf]
      exact ih h

/-- A run ends with the error of the first steps. -/
theorem exec_append_of_error {e : ε} (h : (exec fs s).2 = some e) :
    exec (fs ++ gs) s = exec fs s := by
  induction fs generalizing s with
  | nil => cases h
  | cons f fs ih =>
    cases hf : f.run s with
    | error e' => rw [List.cons_append, exec_cons_of_error hf, exec_cons_of_error hf]
    | ok s₁ =>
      rw [exec_cons_of_ok hf] at h ⊢
      rw [List.cons_append, exec_cons_of_ok hf]
      exact ih h

/-- What every step keeps, a run keeps, also one that fails. -/
theorem exec_induct (hstep : ∀ f ∈ fs, ∀ ⦃s s'⦄, P s → f.run s = .ok s' → P s') (hs : P s) :
    P (exec fs s).1 := by
  induction fs generalizing s with
  | nil => exact hs
  | cons f fs ih =>
    cases hf : f.run s with
    | error e =>
      rw [exec_cons_of_error hf]
      exact hs
    | ok s₁ =>
      rw [exec_cons_of_ok hf]
      exact ih (fun g hg => hstep g (List.mem_cons_of_mem _ hg))
        (hstep f (List.mem_cons_self ..) hs hf)

/-- Steps that are done leave the state as it is. -/
theorem exec_of_done (h : ∀ f ∈ fs, f.Done s) : exec fs s = (s, none) := by
  induction fs with
  | nil => rfl
  | cons f fs ih =>
    rw [exec_cons_of_ok (f.run_of_done (h f (List.mem_cons_self ..)))]
    exact ih fun g hg => h g (List.mem_cons_of_mem _ hg)

/-- The steps of a run that does not fail are done at its end. -/
theorem done_exec (hkeeps : fs.Pairwise Keeps) (h : (exec fs s).2 = none) :
    ∀ f ∈ fs, f.Done (exec fs s).1 := by
  induction fs generalizing s with
  | nil => exact nofun
  | cons f fs ih =>
    obtain ⟨hf, hfs⟩ := List.pairwise_cons.mp hkeeps
    cases hrun : f.run s with
    | error e =>
      rw [exec_cons_of_error hrun] at h
      cases h
    | ok s₁ =>
      rw [exec_cons_of_ok hrun] at h ⊢
      refine List.forall_mem_cons.mpr ⟨?_, ih hfs h⟩
      exact exec_induct (fun g hg _ _ hdone hg' => hf g hg hdone hg') (f.done_of_run hrun)

/-- A run that fails does not get further when it is started again. -/
theorem exec_exec (hkeeps : fs.Pairwise Keeps) {e : ε} (h : (exec fs s).2 = some e) :
    exec fs (exec fs s).1 = exec fs s := by
  induction fs generalizing s with
  | nil => cases h
  | cons f fs ih =>
    obtain ⟨hf, hfs⟩ := List.pairwise_cons.mp hkeeps
    cases hrun : f.run s with
    | error e' =>
      rw [exec_cons_of_error hrun]
      exact exec_cons_of_error hrun
    | ok s₁ =>
      rw [exec_cons_of_ok hrun] at h ⊢
      have hdone : f.Done (exec fs s₁).1 :=
        exec_induct (fun g hg _ _ hdone hg' => hf g hg hdone hg') (f.done_of_run hrun)
      rw [exec_cons_of_ok (f.run_of_done hdone)]
      exact ih hfs h

/-- A run whose first steps have been made ends as it would have ended without them. -/
theorem exec_append_exec (gs : List (Step σ ε)) (s : σ) (hkeeps : fs.Pairwise Keeps) :
    exec (fs ++ gs) (exec fs s).1 = exec (fs ++ gs) s := by
  cases h : (exec fs s).2 with
  | none =>
    have hdone := exec_of_done (done_exec hkeeps h)
    rw [exec_append h, exec_append (by rw [hdone]), hdone]
  | some e =>
    have hagain := exec_exec hkeeps h
    rw [exec_append_of_error h, exec_append_of_error (by rw [hagain]; exact h), hagain]

/-- `s'` is left by a run from `s`, interrupted or not. -/
def Interrupted (fs : List (Step σ ε)) (s s' : σ) : Prop := ∃ k, s' = (exec (fs.take k) s).1

/-- After an interruption a run ends as it would have ended without it. -/
theorem exec_of_interrupted (hkeeps : fs.Pairwise Keeps) (h : Interrupted fs s s') :
    exec fs s' = exec fs s := by
  obtain ⟨k, rfl⟩ := h
  have htake := exec_append_exec (fs.drop k) s (hkeeps.sublist (List.take_sublist k fs))
  rwa [List.take_append_drop] at htake

theorem interrupted_induct (hstep : ∀ f ∈ fs, ∀ ⦃s s'⦄, P s → f.run s = .ok s' → P s') (hs : P s)
    (h : Interrupted fs s s') : P s' := by
  obtain ⟨k, rfl⟩ := h
  exact exec_induct (fun f hf => hstep f (List.mem_of_mem_take hf)) hs

/-- A run that comes to a step that fails: its error, and what all its states have in common. -/
theorem exec_stops {pre post : List (Step σ ε)} {e : ε}
    (hpre : ∀ g ∈ pre, ∀ s, P s → ∃ s', g.run s = .ok s' ∧ P s')
    (hf : ∀ s, P s → f.run s = .error e) (hs : P s) :
    (exec (pre ++ f :: post) s).2 = some e ∧ ∀ k, P (exec ((pre ++ f :: post).take k) s).1 := by
  induction pre generalizing s with
  | nil =>
    refine ⟨by rw [List.nil_append, exec_cons_of_error (hf s hs)], fun k => ?_⟩
    cases k with
    | zero => exact hs
    | succ k =>
      rw [List.nil_append, List.take_succ_cons, exec_cons_of_error (hf s hs)]
      exact hs
  | cons g pre ih =>
    obtain ⟨hg, hpre⟩ := List.forall_mem_cons.mp hpre
    obtain ⟨s₁, hrun, hs₁⟩ := hg s hs
    obtain ⟨herror, hstates⟩ := ih hpre hs₁
    refine ⟨by rw [List.cons_append, exec_cons_of_ok hrun]; exact herror, fun k => ?_⟩
    cases k with
    | zero => exact hs
    | succ k =>
      rw [List.cons_append, List.take_succ_cons, exec_cons_of_ok hrun]
      exact hstates k

end MevScout.Recovery
