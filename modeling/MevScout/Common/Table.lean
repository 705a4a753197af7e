import Mathlib

/-!
# Tables

A table with a primary key, as a function from the key to its row, and the statements that write
it: inserts that ignore, replace or revise the row they meet, and deletes.

Results:
* `orIgnore_apply`, `orReplace_apply`, `upsert_apply`: what an insert leaves of a row;
* `upsert_ne_none_iff`: the keys after an upsert;
* `orIgnore_orIgnore`, `orReplace_orReplace`: inserts that can be repeated;
* `deleteWhere_orIgnore`, `deleteWhere_orReplace`, `deleteWhere_upsert`: what a delete leaves of
  the rows before it;
* `forall_orIgnore`, `forall_orReplace`, `forall_upsert`: what all rows have in common.
-/

namespace MevScout

/-- The rows of a table by their key. -/
abbrev Table (κ ρ : Type*) := κ → Option ρ

namespace Table

variable {κ ρ : Type*} [DecidableEq κ]

/-- `INSERT OR IGNORE`: a row that is there stays. -/
def orIgnore (t : Table κ ρ) (rows : List (κ × ρ)) : Table κ ρ :=
  rows.foldl (fun t r => Function.update t r.1 ((t r.1).or (some r.2))) t

/-- `INSERT OR REPLACE`: the last row counts. -/
def orReplace (t : Table κ ρ) (rows : List (κ × ρ)) : Table κ ρ :=
  rows.foldl (fun t r => Function.update t r.1 (some r.2)) t

/-- `ON CONFLICT DO UPDATE`: `revise` says what a row that is there takes from the new one. -/
def upsert (revise : ρ → ρ → ρ) (t : Table κ ρ) (rows : List (κ × ρ)) : Table κ ρ :=
  rows.foldl (fun t r =>
    Function.update t r.1 (some ((t r.1).elim r.2 fun old => revise old r.2))) t

omit [DecidableEq κ] in
/-- `DELETE`: the rows that meet `p` go. -/
def deleteWhere (t : Table κ ρ) (p : κ → ρ → Bool) : Table κ ρ := fun k =>
  (t k).filter fun r => !p k r

variable {t : Table κ ρ} {k : κ} {p : κ → ρ → Bool} {rows : List (κ × ρ)}

/-- The first row of a key stays. -/
theorem orIgnore_apply (t : Table κ ρ) (rows : List (κ × ρ)) (k : κ) :
    t.orIgnore rows k = (t k).or ((rows.find? fun r => r.1 = k).map Prod.snd) := by
  induction rows generalizing t with
  | nil => simp [orIgnore]
  | cons r rows ih =>
    rw [orIgnore, List.foldl_cons, ← orIgnore, ih]
    by_cases hk : r.1 = k
    · subst hk
      simp
    · rw [Function.update_of_ne (Ne.symm hk), List.find?_cons_of_neg (by simpa using hk)]

/-- The last row of a key counts. -/
theorem orReplace_apply (t : Table κ ρ) (rows : List (κ × ρ)) (k : κ) :
    t.orReplace rows k = (((rows.filter fun r => r.1 = k).getLast?.map Prod.snd).or (t k)) := by
  induction rows using List.reverseRecOn with
  | nil => rfl
  | append_singleton rows r ih =>
    rw [orReplace, List.foldl_append, List.filter_append]
    by_cases hk : r.1 = k
    · subst hk
      simp
    · have hfilter : [r].filter (fun r => decide (r.1 = k)) = [] := by simp [hk]
      rw [hfilter, List.append_nil, ← ih]
      exact Function.update_of_ne (Ne.symm hk) _ _

/-- The rows of a key revise the one that is there, or the first of them. -/
theorem upsert_apply (revise : ρ → ρ → ρ) (t : Table κ ρ) (rows : List (κ × ρ)) (k : κ) :
    upsert revise t rows k =
      ((rows.filter fun r => r.1 = k).map Prod.snd).foldl
        (fun row r => some (row.elim r fun old => revise old r)) (t k) := by
  induction rows generalizing t with
  | nil => rfl
  | cons r rows ih =>
    rw [upsert, List.foldl_cons, ← upsert, ih]
    by_cases hk : r.1 = k
    · subst hk
      simp
    · rw [Function.update_of_ne (Ne.symm hk), List.filter_cons_of_neg (by simpa using hk)]

omit [DecidableEq κ] in
theorem foldl_elim_some (revise : ρ → ρ → ρ) (l : List ρ) (row : ρ) :
    l.foldl (fun row r => some (row.elim r fun old => revise old r)) (some row) =
      some (l.foldl revise row) := by
  induction l generalizing row with
  | nil => rfl
  | cons r l ih => exact ih _

/-- A row that is there is revised by the rows of its key, one after the other. -/
theorem upsert_of_some (revise : ρ → ρ → ρ) {row : ρ} (h : t k = some row)
    (rows : List (κ × ρ)) :
    upsert revise t rows k =
      some (((rows.filter fun r => r.1 = k).map Prod.snd).foldl revise row) := by
  rw [upsert_apply, h, foldl_elim_some]

/-- The keys of the rows are added. -/
theorem upsert_ne_none_iff (revise : ρ → ρ → ρ) (t : Table κ ρ) (rows : List (κ × ρ)) (k : κ) :
    upsert revise t rows k ≠ none ↔ t k ≠ none ∨ k ∈ rows.map Prod.fst := by
  induction rows generalizing t with
  | nil => simp [upsert]
  | cons r rows ih =>
    rw [upsert, List.foldl_cons, ← upsert, ih, List.map_cons, List.mem_cons]
    by_cases hk : k = r.1
    · subst hk
      simp
    · rw [Function.update_of_ne hk]
      simp [hk]

/-- An insert that ignores conflicts can be repeated. -/
theorem orIgnore_orIgnore : (t.orIgnore rows).orIgnore rows = t.orIgnore rows := by
  funext k
  rw [orIgnore_apply, orIgnore_apply, Option.or_assoc, Option.or_self]

/-- So can one that replaces the rows it meets. -/
theorem orReplace_orReplace : (t.orReplace rows).orReplace rows = t.orReplace rows := by
  funext k
  rw [orReplace_apply, orReplace_apply, ← Option.or_assoc, Option.or_self]

/-- Rows that go are no loss where the key is taken, and else they do not stay. -/
theorem deleteWhere_orIgnore (h : ∀ r ∈ rows, p r.1 r.2 = true) :
    (t.orIgnore rows).deleteWhere p = t.deleteWhere p := by
  funext k
  rw [deleteWhere, deleteWhere, orIgnore_apply]
  cases t k with
  | some row => rfl
  | none =>
    cases hfind : rows.find? fun r => r.1 = k with
    | none => rfl
    | some r =>
      have hk : r.1 = k := by simpa using List.find?_some hfind
      have hp : p k r.2 = true := hk ▸ h r (List.mem_of_find?_eq_some hfind)
      simp [Option.filter, hp]

/-- Replaced rows leave the rows of other keys alone. -/
theorem deleteWhere_orReplace (h : ∀ r ∈ rows, ∀ row, p r.1 row = true) :
    (t.orReplace rows).deleteWhere p = t.deleteWhere p := by
  funext k
  rw [deleteWhere, deleteWhere, orReplace_apply]
  cases hlast : (rows.filter fun r => r.1 = k).getLast? with
  | none => rfl
  | some r =>
    obtain ⟨hr, hk⟩ := List.mem_filter.mp (List.mem_of_getLast? hlast)
    have hk : r.1 = k := by simpa using hk
    have hp : ∀ row, p k row = true := hk ▸ h r hr
    cases t k <;> simp [Option.filter, hp]

/-- Upserted rows that go leave the rows that stay, as they are revised. -/
theorem deleteWhere_upsert {revise : ρ → ρ → ρ} (h : ∀ r ∈ rows, p r.1 r.2 = true)
    (hrevise : ∀ k old new, p k (revise old new) = p k old) :
    (upsert revise t rows).deleteWhere p = fun k =>
      (t.deleteWhere p k).map fun row =>
        ((rows.filter fun r => r.1 = k).map Prod.snd).foldl revise row := by
  have hfold : ∀ k (l : List ρ) row, p k (l.foldl revise row) = p k row := by
    intro k l
    induction l with
    | nil => exact fun _ => rfl
    | cons r l ih => exact fun row => (ih _).trans (hrevise k row r)
  funext k
  rw [deleteWhere, deleteWhere]
  cases hk : t k with
  | some row =>
    rw [upsert_of_some revise hk, Option.filter_some, Option.filter_some, hfold]
    split_ifs <;> rfl
  | none =>
    rw [upsert_apply, hk]
    cases hrows : (rows.filter fun r => r.1 = k).map Prod.snd with
    | nil => rfl
    | cons row rest =>
      obtain ⟨r, hr, rfl⟩ : ∃ r ∈ rows.filter (fun r => r.1 = k), r.2 = row := by
        have hmem : row ∈ (rows.filter fun r => r.1 = k).map Prod.snd := by simp [hrows]
        simpa using hmem
      obtain ⟨hr, hk⟩ := List.mem_filter.mp hr
      have hk : r.1 = k := by simpa using hk
      have hp : p k (rest.foldl revise r.2) = true := by rw [hfold]; exact hk ▸ h r hr
      rw [List.foldl_cons, Option.elim_none, foldl_elim_some, Option.filter_some, hp]
      rfl

/-! ## Rows -/

omit [DecidableEq κ] in
/-- A delete that no row meets. -/
theorem deleteWhere_eq_self (h : ∀ k row, t k = some row → p k row = false) :
    t.deleteWhere p = t := by
  funext k
  rw [deleteWhere]
  cases hk : t k with
  | none => rfl
  | some row => simp [Option.filter, h k row hk]

theorem forall_orIgnore {P : κ → ρ → Prop} (h : ∀ k row, t k = some row → P k row)
    (hrows : ∀ r ∈ rows, P r.1 r.2) : ∀ k row, t.orIgnore rows k = some row → P k row := by
  intro k row hk
  rw [orIgnore_apply] at hk
  rcases Option.or_eq_some_iff.mp hk with hk | ⟨-, hk⟩
  · exact h k row hk
  · obtain ⟨r, hr, rfl⟩ := Option.map_eq_some_iff.mp hk
    have hkey : r.1 = k := by simpa using List.find?_some hr
    exact hkey ▸ hrows r (List.mem_of_find?_eq_some hr)

theorem forall_orReplace {P : κ → ρ → Prop} (h : ∀ k row, t k = some row → P k row)
    (hrows : ∀ r ∈ rows, P r.1 r.2) : ∀ k row, t.orReplace rows k = some row → P k row := by
  intro k row hk
  rw [orReplace_apply] at hk
  rcases Option.or_eq_some_iff.mp hk with hk | ⟨-, hk⟩
  · obtain ⟨r, hr, rfl⟩ := Option.map_eq_some_iff.mp hk
    obtain ⟨hr, hkey⟩ := List.mem_filter.mp (List.mem_of_getLast? hr)
    have hkey : r.1 = k := by simpa using hkey
    exact hkey ▸ hrows r hr
  · exact h k row hk

theorem forall_upsert {revise : ρ → ρ → ρ} {P : κ → ρ → Prop}
    (h : ∀ k row, t k = some row → P k row) (hrows : ∀ r ∈ rows, P r.1 r.2)
    (hrevise : ∀ k old new, P k old → P k (revise old new)) :
    ∀ k row, upsert revise t rows k = some row → P k row := by
  induction rows generalizing t with
  | nil => exact h
  | cons r rows ih =>
    refine ih (fun k row hk => ?_) fun r' hr' => hrows r' (List.mem_cons_of_mem _ hr')
    dsimp only at hk
    by_cases hkey : k = r.1
    · subst hkey
      rw [Function.update_self, Option.some.injEq] at hk
      rw [← hk]
      cases ht : t r.1 with
      | none => exact hrows r (List.mem_cons_self ..)
      | some old => exact hrevise _ old r.2 (h _ old ht)
    · rw [Function.update_of_ne hkey] at hk
      exact h k row hk

end Table

end MevScout
