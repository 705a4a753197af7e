import Mathlib

/-!
# Runs

A machine reads inputs one by one and may panic. A panic unwinds the whole call, so
the run stops at the first panicking input: `List.foldlM` in `Except` is that loop.

Results:
* `run_induct`: an invariant kept by every step that returns is kept by the run;
* `exists_run`: a run returns when every step from a state with the invariant does;
* `run_induct_of_meets`: the same for steps that meet a condition, which may speak of
  the state before the step;
* `foldlM_ok_iff`: a run returns exactly when every step of it does;
* `run_prefix`: a run that returns passes through every prefix of its inputs;
* `forall_prefix_concat`: a property of the steps, one step at a time;
* `mapM_eq_ok`, `ok_of_mapM_eq_ok`, `exists_mem_flatten_iff`: a loop that collects results;
* `foldl_steps_iff`, `foldl_prefix_iff`: the steps that keep an invariant of a loop that cannot
  panic.
-/

namespace MevScout

/-- The panics of the modelled code. -/
inductive Panic where
  /-- A `Uint::to` conversion to a narrower type that does not fit. -/
  | conversion
  /-- A slice range or an index outside its slice. -/
  | slice
  /-- `Vec::with_capacity` asked for more than `isize::MAX` bytes. -/
  | capacity
  /-- A division by zero. -/
  | divByZero
  /-- An overflow, in a build that checks its arithmetic. -/
  | overflow
  deriving DecidableEq, Repr

universe u

variable {σ α : Type u} {β ε : Type*}

/-- Inversion of a bind that returned. -/
theorem bind_eq_ok {x : Except ε σ} {f : σ → Except ε α} {b : α} :
    (x >>= f) = .ok b ↔ ∃ a, x = .ok a ∧ f a = .ok b := by
  cases x with
  | error e =>
    exact ⟨fun h => (Except.noConfusion rfl rfl (heq_of_eq h)), fun ⟨_, h, _⟩ => by cases h⟩
  | ok a => exact ⟨fun h => ⟨a, rfl, h⟩, fun ⟨_, h, hf⟩ => by cases h; exact hf⟩

/-- An invariant that every returning step keeps is kept by the loop. -/
theorem run_induct {step : σ → β → Except ε σ} {I : σ → Prop} {l : List β}
    {s s' : σ} (hstep : ∀ a ∈ l, ∀ t t', I t → step t a = .ok t' → I t')
    (h : l.foldlM step s = .ok s') (hs : I s) : I s' := by
  induction l generalizing s with
  | nil =>
    obtain rfl : s = s' := by simpa [pure, Except.pure] using h
    exact hs
  | cons a l ih =>
    rw [List.foldlM_cons, bind_eq_ok] at h
    obtain ⟨t, ht, hl⟩ := h
    exact ih (fun b hb => hstep b (List.mem_cons_of_mem _ hb)) hl
      (hstep a (List.mem_cons_self ..) s t hs ht)

/-- A loop returns when every step returns from a state with the invariant, and keeps it. -/
theorem exists_run {step : σ → β → Except ε σ} {I : σ → Prop} {l : List β} {s : σ}
    (hstep : ∀ a ∈ l, ∀ t, I t → ∃ t', step t a = .ok t' ∧ I t') (hs : I s) :
    ∃ s', l.foldlM step s = .ok s' ∧ I s' := by
  induction l generalizing s with
  | nil => exact ⟨s, rfl, hs⟩
  | cons a l ih =>
    obtain ⟨t, ht, hI⟩ := hstep a (List.mem_cons_self ..) s hs
    obtain ⟨s', hl, hs'⟩ := ih (fun b hb => hstep b (List.mem_cons_of_mem _ hb)) hI
    refine ⟨s', ?_, hs'⟩
    rw [List.foldlM_cons, bind_eq_ok]
    exact ⟨t, ht, hl⟩

theorem run_append {step : σ → β → Except ε σ} {s : σ} (l₁ l₂ : List β) :
    (l₁ ++ l₂).foldlM step s = l₁.foldlM step s >>= fun t => l₂.foldlM step t :=
  List.foldlM_append

/-- A run that returns passes through a state after every prefix of its inputs. -/
theorem run_prefix {step : σ → β → Except ε σ} {s s' : σ} {l l₁ : List β} (hpre : l₁ <+: l)
    (h : l.foldlM step s = .ok s') : ∃ t, l₁.foldlM step s = .ok t := by
  obtain ⟨l₂, rfl⟩ := hpre
  rw [run_append, bind_eq_ok] at h
  obtain ⟨t, ht, -⟩ := h
  exact ⟨t, ht⟩

/-- The steps of a run that is one step longer. -/
theorem forall_prefix_concat {l : List β} {b : β} {P : List β → β → Prop} :
    (∀ pre c, pre ++ [c] <+: l ++ [b] → P pre c) ↔
      (∀ pre c, pre ++ [c] <+: l → P pre c) ∧ P l b := by
  simp only [List.prefix_concat_iff]
  constructor
  · exact fun h => ⟨fun pre c hpre => h pre c (.inr hpre), h l b (.inl rfl)⟩
  · rintro ⟨h, hb⟩ pre c (heq | hpre)
    · obtain ⟨rfl, hc⟩ := List.append_inj' heq rfl
      cases hc
      exact hb
    · exact h pre c hpre

/-- Every step of the run from `s` meets `C` in the state it starts from. -/
def Meets (step : σ → β → Except ε σ) (C : σ → β → Prop) : σ → List β → Prop
  | _, [] => True
  | s, a :: l => C s a ∧ ∀ t, step s a = .ok t → Meets step C t l

theorem Meets.of_prefix {step : σ → β → Except ε σ} {C : σ → β → Prop} {s : σ} {l l₁ : List β}
    (h : Meets step C s l) (hpre : l₁ <+: l) : Meets step C s l₁ := by
  induction l₁ generalizing s l with
  | nil => trivial
  | cons a l₁ ih =>
    obtain ⟨l₂, rfl⟩ := hpre
    exact ⟨h.1, fun t ht => ih (h.2 t ht) ⟨l₂, rfl⟩⟩

theorem Meets.congr {step : σ → β → Except ε σ} {C D : σ → β → Prop} {s : σ} {l : List β}
    (h : ∀ t a, C t a ↔ D t a) : Meets step C s l ↔ Meets step D s l := by
  have hCD : C = D := funext fun t => funext fun a => propext (h t a)
  rw [hCD]

/-- A step of the run meets the condition in the state that the steps before it reach. -/
theorem Meets.of_reached {step : σ → β → Except ε σ} {C : σ → β → Prop} {s t : σ} {l pre : List β}
    {b : β} (h : Meets step C s l) (hpre : pre ++ [b] <+: l) (ht : pre.foldlM step s = .ok t) :
    C t b := by
  have hmeets := h.of_prefix hpre
  clear h hpre
  induction pre generalizing s with
  | nil =>
    obtain rfl : s = t := by simpa [pure, Except.pure] using ht
    exact hmeets.1
  | cons a pre ih =>
    rw [List.foldlM_cons, bind_eq_ok] at ht
    obtain ⟨q, hq, hrest⟩ := ht
    exact ih hrest (hmeets.2 q hq)

/-- A run returns exactly when every step of it does. -/
theorem foldlM_ok_iff {step : σ → β → Except ε σ} {s : σ} {l : List β} :
    (∃ s', l.foldlM step s = .ok s') ↔ Meets step (fun s a => ∃ t, step s a = .ok t) s l := by
  induction l generalizing s with
  | nil => exact iff_of_true ⟨s, rfl⟩ trivial
  | cons a l ih =>
    constructor
    · rintro ⟨s', h⟩
      rw [List.foldlM_cons, bind_eq_ok] at h
      obtain ⟨t, ht, hl⟩ := h
      refine ⟨⟨t, ht⟩, fun t' ht' => ?_⟩
      obtain rfl := Except.ok.inj (ht.symm.trans ht')
      exact ih.mp ⟨s', hl⟩
    · rintro ⟨⟨t, ht⟩, hrest⟩
      obtain ⟨s', hl⟩ := ih.mpr (hrest t ht)
      exact ⟨s', by rw [List.foldlM_cons, bind_eq_ok]; exact ⟨t, ht, hl⟩⟩

/-- An invariant that every returning step keeps, when it meets `C`, is kept by a run all
    of whose steps meet `C`. -/
theorem run_induct_of_meets {step : σ → β → Except ε σ} {C : σ → β → Prop} {I : σ → Prop}
    {l : List β} {s s' : σ} (hstep : ∀ a ∈ l, ∀ s t, I s → C s a → step s a = .ok t → I t)
    (hC : Meets step C s l) (h : l.foldlM step s = .ok s') (hs : I s) : I s' := by
  induction l generalizing s with
  | nil =>
    obtain rfl : s = s' := by simpa [pure, Except.pure] using h
    exact hs
  | cons a l ih =>
    rw [List.foldlM_cons, bind_eq_ok] at h
    obtain ⟨t, ht, hl⟩ := h
    exact ih (fun b hb => hstep b (List.mem_cons_of_mem _ hb)) (hC.2 t ht) hl
      (hstep a (List.mem_cons_self ..) s t hs hC.1 ht)

/-! ## Collecting loops -/

/-- A loop none of whose steps panics collects every result. -/
theorem mapM_eq_ok {γ : Type*} {f : β → Except ε γ} {g : β → γ} {l : List β}
    (h : ∀ a ∈ l, f a = .ok (g a)) : l.mapM f = .ok (l.map g) := by
  induction l with
  | nil => rfl
  | cons a l ih =>
    rw [List.mapM_cons, h a (List.mem_cons_self ..), ih fun b hb => h b (List.mem_cons_of_mem _ hb)]
    rfl

/-- A loop that returns has stepped through every element. -/
theorem ok_of_mapM_eq_ok {f : β → Except ε α} {l : List β} {r : List α} (h : l.mapM f = .ok r) :
    r.length = l.length ∧ ∀ a ∈ l, ∃ b, f a = .ok b := by
  induction l generalizing r with
  | nil =>
    obtain rfl : [] = r := by simpa [pure, Except.pure] using h
    exact ⟨rfl, by simp⟩
  | cons a l ih =>
    rw [List.mapM_cons] at h
    cases hfa : f a with
    | error e => rw [hfa] at h; cases h
    | ok b =>
      cases hl : l.mapM f with
      | error e => rw [hfa, hl] at h; cases h
      | ok bs =>
        rw [hfa, hl] at h
        obtain rfl : b :: bs = r := by simpa [pure, Except.pure, bind, Except.bind] using h
        obtain ⟨hlen, hmem⟩ := ih hl
        refine ⟨by simp [hlen], fun c hc => ?_⟩
        rcases List.mem_cons.mp hc with rfl | hc
        · exact ⟨b, hfa⟩
        · exact hmem c hc

/-- What a loop that collects lists has collected. -/
theorem exists_mem_flatten_iff {γ : Type*} {f : β → Except ε (List γ)} {P : γ → Prop} {l : List β}
    {r : List (List γ)} (h : l.mapM f = .ok r) :
    (∃ c ∈ r.flatten, P c) ↔ ∃ b ∈ l, ∃ cs, f b = .ok cs ∧ ∃ c ∈ cs, P c := by
  induction l generalizing r with
  | nil =>
    obtain rfl : [] = r := by simpa [pure, Except.pure] using h
    simp
  | cons b l ih =>
    rw [List.mapM_cons, bind_eq_ok] at h
    obtain ⟨cs, hcs, h⟩ := h
    rw [bind_eq_ok] at h
    obtain ⟨r', hr', h⟩ := h
    obtain rfl := Except.ok.inj h
    rw [List.flatten_cons, List.exists_mem_cons_iff, ← ih hr']
    simp only [List.mem_append, or_and_right, exists_or]
    refine or_congr_left ⟨fun hc => ⟨cs, hcs, hc⟩, ?_⟩
    rintro ⟨cs', hcs', hc⟩
    obtain rfl := Except.ok.inj (hcs.symm.trans hcs')
    exact hc

/-- Two ways to judge the steps of a loop agree on the whole loop when they agree on every step
    from a state that the first way leaves sound. -/
theorem foldl_steps_iff {step : σ → β → σ} {I : σ → Prop} {S C : σ → β → Prop} {s : σ} {l : List β}
    (hs : I s) (hkeep : ∀ t, I t → ∀ b ∈ l, S t b → I (step t b))
    (hiff : ∀ t, I t → ∀ b ∈ l, (S t b ↔ C t b)) :
    (∀ pre b, pre ++ [b] <+: l → S (pre.foldl step s) b) ↔
      ∀ pre b, pre ++ [b] <+: l → C (pre.foldl step s) b := by
  have hmem {pre : List β} {b : β} (hpre : pre ++ [b] <+: l) : b ∈ l :=
    hpre.subset (List.mem_append_right pre (List.mem_singleton_self b))
  have hsound (h : ∀ pre b, pre ++ [b] <+: l → I (pre.foldl step s) → S (pre.foldl step s) b)
      (pre : List β) (hpre : pre <+: l) : I (pre.foldl step s) := by
    induction pre using List.reverseRecOn with
    | nil => exact hs
    | append_singleton pre b ih =>
      have hI := ih ((List.prefix_append pre [b]).trans hpre)
      rw [List.foldl_concat]
      exact hkeep _ hI b (hmem hpre) (h pre b hpre hI)
  constructor
  · intro h pre b hpre
    have hI := hsound (fun pre b hpre _ => h pre b hpre) pre
      ((List.prefix_append pre [b]).trans hpre)
    exact (hiff _ hI b (hmem hpre)).mp (h pre b hpre)
  · intro h pre b hpre
    have hI := hsound (fun pre b hpre hI => (hiff _ hI b (hmem hpre)).mpr (h pre b hpre)) pre
      ((List.prefix_append pre [b]).trans hpre)
    exact (hiff _ hI b (hmem hpre)).mpr (h pre b hpre)

/-- Where a step keeps an invariant exactly when it meets `C`, the invariant holds all along a
    loop exactly when every step meets `C`. -/
theorem foldl_prefix_iff {step : σ → β → σ} {I : σ → Prop} {C : σ → β → Prop} {s : σ} {l : List β}
    (hs : I s) (hstep : ∀ t, I t → ∀ b ∈ l, (I (step t b) ↔ C t b)) :
    (∀ pre, pre <+: l → I (pre.foldl step s)) ↔
      ∀ pre b, pre ++ [b] <+: l → C (pre.foldl step s) b := by
  rw [← foldl_steps_iff hs (fun _ _ _ _ h => h) hstep]
  constructor
  · intro h pre b hpre
    have hlast := h (pre ++ [b]) hpre
    rwa [List.foldl_concat] at hlast
  · intro h pre hpre
    rcases List.eq_nil_or_concat' pre with rfl | ⟨pre, b, rfl⟩
    · exact hs
    · rw [List.foldl_concat]
      exact h pre b hpre

end MevScout
