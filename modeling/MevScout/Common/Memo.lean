import Mathlib

/-!
# Tables filled on first use

A table answers a call by its key. The first call of a key whose value is kept fills the
entry; every later call of that key is answered from it. When the key says less than the
argument, a later call gets the value of another argument.

Results:
* `key_of_firstKept`: the call that filled an entry has its key;
* `reuse_iff`: when calls are answered from related calls only.
-/

namespace MevScout.Memo

variable {α κ v : Type*} [DecidableEq κ] (key : α → κ) (f : α → v) (keep : α → Bool)

/-- The first of the calls `past` with the key `k` whose value is kept. -/
def firstKept (past : List α) (k : κ) : Option α := past.find? fun a => key a = k ∧ keep a

/-- The entry of the table for the key `k` after the calls `past`. -/
def memo (past : List α) (k : κ) : Option v := (firstKept key keep past k).map f

/-- The answer to the call `a` after the calls `past`. -/
def answer (past : List α) (a : α) : v := (memo key f keep past (key a)).getD (f a)

variable {key f keep}

theorem firstKept_concat (past : List α) (a : α) (k : κ) :
    firstKept key keep (past ++ [a]) k =
      (firstKept key keep past k).or (if key a = k ∧ keep a then some a else none) := by
  unfold firstKept
  rw [List.find?_append, List.find?_singleton]
  simp only [decide_eq_true_eq]

theorem key_of_firstKept {past : List α} {k : κ} {a : α} (h : firstKept key keep past k = some a) :
    key a = k ∧ keep a := by
  simpa using List.find?_some h

/-- The calls that are answered from the table are related to the calls that filled their
    entries exactly when kept calls are related to all later calls of their keys. -/
theorem reuse_iff {R : α → α → Prop} (hsymm : ∀ a b, R a b → R b a)
    (htrans : ∀ a b c, R a b → R b c → R a c) (calls : List α) :
    (∀ past a later, calls = past ++ a :: later → ∀ first,
        firstKept key keep past (key a) = some first → R first a) ↔
      calls.Pairwise fun a b => keep a = true → key a = key b → R a b := by
  constructor
  · intro h
    induction calls using List.reverseRecOn with
    | nil => exact .nil
    | append_singleton calls c ih =>
      have hcalls := ih fun past a later heq first =>
        h past a (later ++ [c]) (by rw [heq]; simp) first
      refine List.pairwise_append.mpr ⟨hcalls, List.pairwise_singleton _ _, ?_⟩
      intro w hw c' hc' hkeep hkey
      obtain rfl := List.mem_singleton.mp hc'
      have hmatch : decide (key w = key c' ∧ keep w = true) = true := by simp [hkey, hkeep]
      have hsome : (firstKept key keep calls (key c')).isSome = true :=
        List.find?_isSome.mpr ⟨w, hw, hmatch⟩
      obtain ⟨first, hfirst⟩ := Option.isSome_iff_exists.mp hsome
      have hlast : R first c' := h calls c' [] rfl first hfirst
      obtain ⟨-, past, later, heq, hnone⟩ := List.find?_eq_some_iff_append.mp hfirst
      obtain ⟨hkey', hkeep'⟩ := key_of_firstKept hfirst
      rw [heq] at hw
      rcases List.mem_append.mp hw with hw | hw
      · have := hnone w hw
        rw [hmatch] at this
        exact absurd this (by decide)
      · rcases List.mem_cons.mp hw with rfl | hw
        · exact hlast
        · rw [heq] at hcalls
          have hpair := (List.pairwise_append.mp hcalls).2.1
          have := List.rel_of_pairwise_cons hpair hw hkeep' (hkey'.trans hkey.symm)
          exact htrans _ _ _ (hsymm _ _ this) hlast
  · rintro h past a later rfl first hfirst
    obtain ⟨hkey, hkeep⟩ := key_of_firstKept hfirst
    have hmem := List.mem_of_find?_eq_some hfirst
    exact (List.pairwise_append.mp h).2.2 first hmem a (List.mem_cons_self ..) hkeep hkey

end MevScout.Memo
