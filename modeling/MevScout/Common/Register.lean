import Mathlib

/-!
# Registers with absolute and relative writes

Each input of a run either writes a register (`write i = some v`) or moves the value it
holds (`move i`). A reader who trusts the absolute writes expects the last written value
at every point of the run.

Result:
* `holds_lastWrite_iff`: it is there throughout if and only if no move disturbs the value
  written last before it.
-/

namespace MevScout.Register

variable {ρ ι : Type*} (write : ι → Option ρ) (move : ι → ρ → ρ)

/-- The value of the register after one input. -/
def step (r : ρ) (i : ι) : ρ := (write i).getD (move i r)

/-- The value of the register after a run. -/
def run (r : ρ) (l : List ι) : ρ := l.foldl (step write move) r

/-- The value that the last writing input of a run wrote. -/
def lastWrite (l : List ι) : Option ρ := (l.filterMap write).getLast?

variable {write move}

theorem run_append_singleton (r : ρ) (l : List ι) (i : ι) :
    run write move r (l ++ [i]) = step write move (run write move r l) i := by
  simp [run]

theorem lastWrite_append_singleton (l : List ι) (i : ι) :
    lastWrite write (l ++ [i]) = (write i).or (lastWrite write l) := by
  unfold lastWrite
  rw [List.filterMap_append, List.getLast?_append]
  cases h : write i <;> simp [h]

theorem exists_of_lastWrite {l : List ι} {v : ρ} (h : lastWrite write l = some v) :
    ∃ i ∈ l, write i = some v :=
  List.mem_filterMap.mp (List.mem_of_getLast? h)

/-- The register holds the value last written after every prefix of a run exactly when no
    input that does not write disturbs the value written last before it. -/
theorem holds_lastWrite_iff {r : ρ} {l : List ι} :
    (∀ pre, pre <+: l → ∀ v, lastWrite write pre = some v → run write move r pre = v) ↔
    ∀ pre i, pre ++ [i] <+: l → write i = none → ∀ v, lastWrite write pre = some v →
      move i v = v := by
  constructor
  · intro h pre i hpre hi v hv
    have hbefore := h pre ((List.prefix_append pre [i]).trans hpre) v hv
    have hafter := h (pre ++ [i]) hpre v (by rw [lastWrite_append_singleton, hi, hv]; rfl)
    rw [run_append_singleton, step, hi, hbefore] at hafter
    exact hafter
  · intro h pre
    induction pre using List.reverseRecOn with
    | nil =>
      intro _ v hv
      cases hv
    | append_singleton pre i ih =>
      intro hpre v hv
      rw [lastWrite_append_singleton] at hv
      rw [run_append_singleton, step]
      cases hi : write i with
      | some w =>
        rw [hi] at hv
        cases hv
        rfl
      | none =>
        rw [hi] at hv
        rw [ih ((List.prefix_append pre [i]).trans hpre) v hv]
        exact h pre i hpre hi v hv

end MevScout.Register
