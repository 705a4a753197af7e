import Mathlib

/-!
# Tables of rows

A row gives every column of a table a value. An `INSERT` names columns and binds one parameter to
each, a `SELECT` names columns and returns their values, which the caller reads by position.

Results:
* `insert_eq_some`: an insertion that keeps the constraints of the table adds the row;
* `insertAll_eq`: so do several of them into a table without a key;
* `select_values`: a `SELECT` of the columns that were written returns the parameters in order;
* `mapM_perm`: rows in any order are read back as what was written.
-/

namespace MevScout.Sql

/-! ## Values -/

/-- A value of a column. -/
inductive Value where
  | null
  | integer (x : ℤ)
  | text (s : String)
  deriving DecidableEq

/-- The order of `ORDER BY`: `NULL` before the integers, these before the texts. -/
def Value.le : Value → Value → Bool
  | .null, _ => true
  | .integer _, .null => false
  | .integer x, .integer y => x ≤ y
  | .integer _, .text _ => true
  | .text s, .text t => s ≤ t
  | .text _, _ => false

variable {κ α : Type}

/-- The parameter for an optional value. -/
def ofOption (write : α → Value) (a : Option α) : Value := a.elim .null write

/-- `get::<_, i64>`. -/
def toInteger : Value → Option ℤ
  | .integer x => some x
  | _ => none

/-- `get::<_, String>`. -/
def toText : Value → Option String
  | .text s => some s
  | _ => none

/-- `get::<_, Option<_>>`. -/
def optional (read : Value → Option α) : Value → Option (Option α)
  | .null => some none
  | v => (read v).map some

/-- `Row::get`: no value of the type asked for at the position is an error. -/
def get (row : List Value) (i : ℕ) (read : Value → Option α) : Option α := row[i]?.bind read

@[simp] theorem toInteger_integer (x : ℤ) : toInteger (.integer x) = some x := rfl

@[simp] theorem toText_text (s : String) : toText (.text s) = some s := rfl

@[simp] theorem optional_integer (x : ℤ) : optional toInteger (.integer x) = some (some x) := rfl

@[simp] theorem optional_text (s : String) : optional toText (.text s) = some (some s) := rfl

theorem optional_ofOption {β : Type} {read : Value → Option β} {write : α → Value} {g : α → β}
    (hread : ∀ a, optional read (write a) = some (some (g a))) (a : Option α) :
    optional read (ofOption write a) = some (a.map g) := by
  cases a with
  | none => rfl
  | some a => exact hread a

@[simp] theorem optional_ofOption_text (a : Option String) :
    optional toText (ofOption .text a) = some a := by
  rw [optional_ofOption optional_text, Option.map_id']

@[simp] theorem get_cons_zero (v : Value) (row : List Value) (read : Value → Option α) :
    get (v :: row) 0 read = read v := rfl

@[simp] theorem get_cons_succ (v : Value) (row : List Value) (i : ℕ) (read : Value → Option α) :
    get (v :: row) (i + 1) read = get row i read := rfl

/-! ## Rows -/

/-- A row of a table with the columns `κ`. -/
abbrev Row (κ : Type) := κ → Value

/-- The constraints of a `CREATE TABLE`. -/
structure Schema (κ : Type) where
  notNull : List κ
  primaryKey : List κ

/-- The values that a `SELECT` returns. -/
def select (columns : List κ) (row : Row κ) : List Value := columns.map row

/-- `ORDER BY`, of two rows that may stand in this order. -/
def orderBy [DecidableEq κ] : List κ → Row κ → Row κ → Bool
  | [], _, _ => true
  | c :: columns, a, b => if a c = b c then orderBy columns a b else (a c).le (b c)

variable [DecidableEq κ]

/-- The row of an `INSERT`. A column it does not name is `NULL`. -/
def values (columns : List κ) (params : List Value) : Row κ :=
  fun c => ((columns.zip params).lookup c).getD .null

/-- `INSERT`, which fails when it breaks a constraint. -/
def Schema.insert (schema : Schema κ) (columns : List κ) (rows : List (Row κ))
    (params : List Value) : Option (List (Row κ)) :=
  if (∀ c ∈ schema.notNull, values columns params c ≠ .null) ∧
      ∀ c ∈ schema.primaryKey, values columns params c ≠ .null →
        ∀ row ∈ rows, row c ≠ values columns params c then
    some (rows ++ [values columns params])
  else none

theorem values_cons_of_ne {c d : κ} (h : c ≠ d) (v : Value) (columns : List κ)
    (params : List Value) : values (d :: columns) (v :: params) c = values columns params c := by
  unfold values
  rw [List.zip_cons_cons, List.lookup_cons, beq_eq_false_iff_ne.mpr h]

@[simp] theorem values_head (c : κ) (v : Value) (columns : List κ) (params : List Value) :
    values (c :: columns) (v :: params) c = v := by
  unfold values
  rw [List.zip_cons_cons, List.lookup_cons, beq_self_eq_true]
  rfl

theorem select_values {columns : List κ} {params : List Value} (hnodup : columns.Nodup)
    (hlength : columns.length = params.length) :
    select columns (values columns params) = params := by
  induction columns generalizing params with
  | nil => exact (List.length_eq_zero_iff.mp hlength.symm).symm
  | cons d columns ih =>
    cases params with
    | nil => cases hlength
    | cons v params =>
      obtain ⟨hd, hnodup⟩ := List.nodup_cons.mp hnodup
      have htail : select columns (values (d :: columns) (v :: params)) =
          select columns (values columns params) := by
        refine List.map_congr_left fun c hc => values_cons_of_ne ?_ v columns params
        rintro rfl
        exact hd hc
      show values (d :: columns) (v :: params) d :: select columns _ = v :: params
      rw [values_head, htail, ih hnodup (Nat.succ.inj hlength)]

/-- The columns after the first. -/
theorem select_tail_values {c : κ} {columns : List κ} {v : Value} {params : List Value}
    (hnodup : (c :: columns).Nodup) (hlength : columns.length = params.length) :
    select columns (values (c :: columns) (v :: params)) = params := by
  have h : select (c :: columns) (values (c :: columns) (v :: params)) = v :: params :=
    select_values hnodup (by rw [List.length_cons, List.length_cons, hlength])
  exact (List.cons.inj h).2

/-! ## Insertions -/

theorem insert_eq_some {schema : Schema κ} {columns : List κ} {rows : List (Row κ)}
    {params : List Value} (hnull : ∀ c ∈ schema.notNull, values columns params c ≠ .null)
    (hkey : ∀ c ∈ schema.primaryKey, ∀ row ∈ rows, row c ≠ values columns params c) :
    schema.insert columns rows params = some (rows ++ [values columns params]) := by
  unfold Schema.insert
  rw [if_pos ⟨hnull, fun c hc _ => hkey c hc⟩]

theorem insertAll_eq {schema : Schema κ} {columns : List κ} {write : α → List Value}
    (hkey : schema.primaryKey = [])
    (hnull : ∀ a, ∀ c ∈ schema.notNull, values columns (write a) c ≠ .null)
    (rows : List (Row κ)) (as : List α) :
    as.foldlM (fun rows a => schema.insert columns rows (write a)) rows =
      some (rows ++ as.map fun a => values columns (write a)) := by
  induction as generalizing rows with
  | nil => rw [List.map_nil, List.append_nil]; rfl
  | cons a as ih =>
    have hstep : schema.insert columns rows (write a) =
        some (rows ++ [values columns (write a)]) := by
      refine insert_eq_some (hnull a) ?_
      rw [hkey]
      intro c hc
      cases hc
    rw [List.foldlM_cons, hstep]
    show List.foldlM _ (rows ++ [_]) as = _
    rw [ih, List.append_assoc]
    rfl

/-! ## Reading back -/

theorem mapM_eq_filterMap {β : Type} {read : β → Option α} {rows : List β}
    (h : ∀ row ∈ rows, (read row).isSome) : rows.mapM read = some (rows.filterMap read) := by
  induction rows with
  | nil => rfl
  | cons row rows ih =>
    obtain ⟨hrow, hrows⟩ := List.forall_mem_cons.mp h
    obtain ⟨a, ha⟩ := Option.isSome_iff_exists.mp hrow
    rw [List.mapM_cons, ha, ih hrows, List.filterMap_cons_some ha]
    rfl

/-- Rows in any order are read back as what was written. -/
theorem mapM_perm {β : Type} {read : β → Option α} {write : α → β} {rows : List β} {as : List α}
    (hrows : rows.Perm (as.map write)) (hread : ∀ a ∈ as, read (write a) = some a) :
    ∃ bs, rows.mapM read = some bs ∧ bs.Perm as := by
  have hwritten : (as.map write).filterMap read = as := by
    rw [List.filterMap_map]
    refine (List.filterMap_congr fun a ha => ?_).trans List.filterMap_some
    exact hread a ha
  refine ⟨rows.filterMap read, mapM_eq_filterMap fun row hrow => ?_, ?_⟩
  · obtain ⟨a, ha, rfl⟩ := List.mem_map.mp (hrows.mem_iff.mp hrow)
    rw [hread a ha]
    rfl
  · have hperm := hrows.filterMap read
    rwa [hwritten] at hperm

end MevScout.Sql
