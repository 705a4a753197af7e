import MevScout.Common.Map

/-!
# Undo journals of a finite map

A journal keeps, for a map that is being edited, the value that each edited key had before
its first edit and the keys that were added. Rolling back writes the kept values and erases
the added keys.

`Restores j m₀ m` says that the journal `j` rolls the edited map `m` back to `m₀`. Each
operation keeps it when the key is covered by the journal: recorded, added or absent.

Results:
* `Restores.rollback_eq`: what a journal that restores rolls back to;
* `Restores.record`, `Restores.add`: the two ways in which a key becomes covered;
* `Restores.modify`, `Restores.insert`: edits at covered keys.
-/

namespace MevScout

open Std

variable {κ : Type*} {v : Type*} [Ord κ] [TransOrd κ] [LawfulEqOrd κ] [DecidableEq κ]

/-- Values before their first edit, and added keys. -/
structure Journal (κ : Type*) (v : Type*) [Ord κ] where
  previous : ExtTreeMap κ v compare
  added : List κ

namespace Journal

/-- The map with the kept values written back and the added keys erased. -/
def rollback (j : Journal κ v) (m : ExtTreeMap κ v compare) : ExtTreeMap κ v compare :=
  j.added.foldl (fun m k => m.erase k) (m ∪ j.previous)

/-- The journal rolls `m` back to `m₀`. -/
structure Restores (j : Journal κ v) (m₀ m : ExtTreeMap κ v compare) : Prop where
  old : ∀ k, k ∉ j.added → (j.previous[k]?).or m[k]? = m₀[k]?
  new : ∀ k ∈ j.added, k ∉ m₀
  previous_mem : ∀ k ∈ j.previous, k ∈ m
  added_mem : ∀ k ∈ j.added, k ∈ m

/-- An edit at `k` cannot lose anything that the journal needs. -/
def Covers (j : Journal κ v) (m : ExtTreeMap κ v compare) (k : κ) : Prop :=
  k ∉ m ∨ k ∈ j.previous ∨ k ∈ j.added

variable {j : Journal κ v} {m₀ m : ExtTreeMap κ v compare} {k : κ} {x : v}

theorem getElem?_foldl_erase (ks : List κ) (m : ExtTreeMap κ v compare) (k : κ) :
    (ks.foldl (fun m k => m.erase k) m)[k]? = if k ∈ ks then none else m[k]? := by
  induction ks generalizing m with
  | nil => simp
  | cons k' ks ih =>
    rw [List.foldl_cons, ih, Map.getElem?_erase_eq]
    by_cases hk : k ∈ ks
    · simp [hk]
    · by_cases hk' : k' = k
      · simp [hk']
      · simp [hk, hk', Ne.symm hk']

omit [LawfulEqOrd κ] [DecidableEq κ] in
theorem Restores.refl (m : ExtTreeMap κ v compare) : Restores ⟨∅, []⟩ m m :=
  ⟨by simp, by simp, by simp, by simp⟩

theorem Restores.rollback_eq (h : j.Restores m₀ m) : j.rollback m = m₀ := by
  apply ExtTreeMap.ext_getElem?
  intro k
  rw [rollback, getElem?_foldl_erase]
  split_ifs with hk
  · exact (ExtTreeMap.getElem?_eq_none (h.new k hk)).symm
  · rw [ExtTreeMap.getElem?_union]
    exact h.old k hk

/-- Recording the value at a key that was not added covers it. -/
theorem Restores.record (h : j.Restores m₀ m) (hx : m[k]? = some x) :
    Restores ⟨j.previous.insertIfNew k x, j.added⟩ m₀ m := by
  refine ⟨?_, h.new, ?_, h.added_mem⟩
  · intro k' hk'
    dsimp only
    rw [Map.getElem?_insertIfNew_eq, ← h.old k' hk']
    split_ifs with heq
    · subst heq
      rw [hx]
      cases j.previous[k]? <;> rfl
    · rfl
  · intro k' hk'
    rcases ExtTreeMap.mem_insertIfNew.mp hk' with heq | hmem
    · obtain rfl : k = k' := by simpa using heq
      exact Map.mem_iff_exists.mpr ⟨x, hx⟩
    · exact h.previous_mem k' hmem

/-- An absent key is added. -/
theorem Restores.add (h : j.Restores m₀ m) (hk : k ∉ m) :
    Restores ⟨j.previous, j.added ++ [k]⟩ m₀ (m.insert k x) := by
  have hprev : j.previous[k]? = none :=
    ExtTreeMap.getElem?_eq_none fun hmem => hk (h.previous_mem k hmem)
  have hadded : k ∉ j.added := fun hmem => hk (h.added_mem k hmem)
  refine ⟨?_, ?_, ?_, ?_⟩ <;> dsimp only
  · intro k' hk'
    have hne : k' ≠ k := fun heq => hk' (by simp [heq])
    rw [Map.getElem?_insert_eq, if_neg (Ne.symm hne)]
    exact h.old k' fun hmem => hk' (List.mem_append_left _ hmem)
  · intro k' hk'
    rcases List.mem_append.mp hk' with hmem | hmem
    · exact h.new k' hmem
    · obtain rfl := List.mem_singleton.mp hmem
      have hold := h.old k' hadded
      rw [hprev, ExtTreeMap.getElem?_eq_none hk] at hold
      intro hm₀
      obtain ⟨y, hy⟩ := Map.mem_iff_exists.mp hm₀
      rw [hy] at hold
      cases hold
  · intro k' hk'
    exact ExtTreeMap.mem_insert.mpr (.inr (h.previous_mem k' hk'))
  · intro k' hk'
    rcases List.mem_append.mp hk' with hmem | hmem
    · exact ExtTreeMap.mem_insert.mpr (.inr (h.added_mem k' hmem))
    · obtain rfl := List.mem_singleton.mp hmem
      exact ExtTreeMap.mem_insert_self

/-- An edit at a covered key. -/
theorem Restores.modify (h : j.Restores m₀ m) (hk : j.Covers m k) (f : v → v) :
    j.Restores m₀ (m.modify k f) := by
  refine ⟨?_, h.new, fun k' hk' => ExtTreeMap.mem_modify.mpr (h.previous_mem k' hk'),
    fun k' hk' => ExtTreeMap.mem_modify.mpr (h.added_mem k' hk')⟩
  intro k' hk'
  rw [← h.old k' hk', Map.getElem?_modify_eq]
  split_ifs with heq
  · subst heq
    rcases hk with habsent | hprev | hadded
    · rw [ExtTreeMap.getElem?_eq_none habsent]
      rfl
    · obtain ⟨y, hy⟩ := Map.mem_iff_exists.mp hprev
      rw [hy]
      rfl
    · exact absurd hadded hk'
  · rfl

/-- Replacing the value at a recorded or added key. -/
theorem Restores.insert (h : j.Restores m₀ m) (hk : k ∈ j.previous ∨ k ∈ j.added) (x : v) :
    j.Restores m₀ (m.insert k x) := by
  refine ⟨?_, h.new, fun k' hk' => ExtTreeMap.mem_insert.mpr (.inr (h.previous_mem k' hk')),
    fun k' hk' => ExtTreeMap.mem_insert.mpr (.inr (h.added_mem k' hk'))⟩
  intro k' hk'
  rw [← h.old k' hk', Map.getElem?_insert_eq]
  split_ifs with heq
  · subst heq
    rcases hk with hprev | hadded
    · obtain ⟨y, hy⟩ := Map.mem_iff_exists.mp hprev
      rw [hy]
      rfl
    · exact absurd hadded hk'
  · rfl

end Journal

end MevScout
