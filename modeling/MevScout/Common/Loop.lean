import Mathlib

/-!
# Loops with a break

A loop tests its condition, runs its body and starts again, unless the body leaves it. A run of a
loop is the list of the states that its body starts from, and the state that it ends in.

Results:
* `exists_loopRun`: the measure rule, with a bound on the turns;
* `LoopRun.invariant`: an invariant holds at every turn;
* `LoopRun.ends`: how the loop is left;
* `LoopRun.unique`: a loop has one run.
-/

namespace MevScout

variable {σ : Type*} {cond : σ → Prop} {body : σ → σ × Bool} {I : σ → Prop} {μ : σ → ℕ}
  {s t u : σ} {xs ys : List σ}

/-- The loop that starts in `s` runs its body from each of `xs` in turn and ends in `t`. The body
    says whether the loop goes on. -/
inductive LoopRun (cond : σ → Prop) (body : σ → σ × Bool) : σ → List σ → σ → Prop
  | stop {s : σ} (h : ¬cond s) : LoopRun cond body s [] s
  | leave {s t : σ} (h : cond s) (hbody : body s = (t, false)) : LoopRun cond body s [s] t
  | next {s t u : σ} {xs : List σ} (h : cond s) (hbody : body s = (u, true))
      (hrun : LoopRun cond body u xs t) : LoopRun cond body s (s :: xs) t

/-- A loop ends when every turn after which it goes on falsifies the condition or lowers the
    measure, and then after one more turn than the measure at most. -/
theorem exists_loopRun (hs : I s)
    (hstep : ∀ s s', I s → cond s → body s = (s', true) → I s' ∧ (¬cond s' ∨ μ s' < μ s)) :
    ∃ xs t, LoopRun cond body s xs t ∧ xs.length ≤ μ s + 1 := by
  induction hn : μ s using Nat.strong_induction_on generalizing s with
  | _ n ih =>
    by_cases hcond : cond s
    case neg => exact ⟨[], s, .stop hcond, Nat.zero_le _⟩
    rcases hbody : body s with ⟨s', _ | _⟩
    · exact ⟨[s], s', .leave hcond hbody, by simp⟩
    · obtain ⟨hs', hstop | hlt⟩ := hstep s s' hs hcond hbody
      · exact ⟨[s], s', .next hcond hbody (.stop hstop), by simp⟩
      · obtain ⟨xs, t, hrun, hlen⟩ := ih (μ s') (by omega) hs' rfl
        refine ⟨s :: xs, t, .next hcond hbody hrun, ?_⟩
        rw [List.length_cons]
        omega

/-- An invariant that is kept by the turns after which the loop goes on holds at every turn. -/
theorem LoopRun.invariant (hrun : LoopRun cond body s xs t) (hs : I s)
    (hstep : ∀ s s', I s → cond s → body s = (s', true) → I s') : ∀ x ∈ xs, I x ∧ cond x := by
  induction hrun with
  | stop => exact nofun
  | leave hcond => exact List.forall_mem_singleton.mpr ⟨hs, hcond⟩
  | next hcond hbody _ ih =>
    exact List.forall_mem_cons.mpr ⟨⟨hs, hcond⟩, ih (hstep _ _ hs hcond hbody)⟩

/-- A loop ends where its condition fails, or where its body leaves it. -/
theorem LoopRun.ends (hrun : LoopRun cond body s xs t) (hs : I s)
    (hstep : ∀ s s', I s → cond s → body s = (s', true) → I s') :
    (I t ∧ ¬cond t) ∨ ∃ x, I x ∧ cond x ∧ body x = (t, false) := by
  induction hrun with
  | stop hcond => exact .inl ⟨hs, hcond⟩
  | leave hcond hbody => exact .inr ⟨_, hs, hcond, hbody⟩
  | next hcond hbody _ ih => exact ih (hstep _ _ hs hcond hbody)

/-- A loop has one run. -/
theorem LoopRun.unique (h : LoopRun cond body s xs t) (h' : LoopRun cond body s ys u) :
    xs = ys ∧ t = u := by
  induction h generalizing ys u with
  | stop hcond =>
    cases h' with
    | stop => exact ⟨rfl, rfl⟩
    | leave hcond' => exact absurd hcond' hcond
    | next hcond' => exact absurd hcond' hcond
  | leave hcond hbody =>
    cases h' with
    | stop hcond' => exact absurd hcond hcond'
    | leave _ hbody' => exact ⟨rfl, congrArg Prod.fst (hbody.symm.trans hbody')⟩
    | next _ hbody' => cases hbody.symm.trans hbody'
  | next hcond hbody _ ih =>
    cases h' with
    | stop hcond' => exact absurd hcond hcond'
    | leave _ hbody' => cases hbody.symm.trans hbody'
    | next _ hbody' hrun' =>
      obtain rfl := congrArg Prod.fst (hbody.symm.trans hbody')
      obtain ⟨rfl, rfl⟩ := ih hrun'
      exact ⟨rfl, rfl⟩

end MevScout
