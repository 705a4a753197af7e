import Mathlib

/-!
# Finite maps

Lookups in `Std.ExtTreeMap` with propositional keys, in the form the rest of the
development rewrites with: the key comparison is decided by `=`.

Results:
* `getElem?_modify_eq`, `getElem?_insert_eq`, `getElem?_erase_eq`: what each
  operation leaves at a key;
* `modify_eq_self`: editing an absent key, or by a function that fixes the stored
  value, changes nothing;
* `filter_toList`: the entry of a key in the list of a map;
* `getElem?_insertAll`, `getElem?_insertAllNew`: the last or the first write to a key stays;
* `sumBy_insert_add`: adding to the value at one key adds that key's share to a weighted
  sum over the map, in whatever order the map is listed;
* `sumBy_push`: the same for a map of lists and an element pushed to one of them.
-/

namespace MevScout.Map

open Std

variable {κ : Type*} {v : Type*} [Ord κ] [TransOrd κ] [LawfulEqOrd κ]

theorem getElem?_modify_eq [DecidableEq κ] (m : ExtTreeMap κ v compare) (k k' : κ) (f : v → v) :
    (m.modify k f)[k']? = if k = k' then m[k']?.map f else m[k']? := by
  rw [ExtTreeMap.getElem?_modify]
  by_cases h : k = k'
  · subst h; simp
  · simp [h]

theorem getElem?_modify_of_ne {m : ExtTreeMap κ v compare} {k k' : κ} (f : v → v) (h : k ≠ k') :
    (m.modify k f)[k']? = m[k']? := by
  rw [ExtTreeMap.getElem?_modify, if_neg (by simpa using h)]

theorem getElem?_insert_eq [DecidableEq κ] (m : ExtTreeMap κ v compare) (k k' : κ) (x : v) :
    (m.insert k x)[k']? = if k = k' then some x else m[k']? := by
  rw [ExtTreeMap.getElem?_insert]
  by_cases h : k = k' <;> simp [h]

theorem getElem?_erase_eq [DecidableEq κ] (m : ExtTreeMap κ v compare) (k k' : κ) :
    (m.erase k)[k']? = if k = k' then none else m[k']? := by
  rw [ExtTreeMap.getElem?_erase]
  by_cases h : k = k' <;> simp [h]

theorem getElem?_insertIfNew_eq [DecidableEq κ] (m : ExtTreeMap κ v compare) (k k' : κ) (x : v) :
    (m.insertIfNew k x)[k']? = if k = k' then some (m[k]?.getD x) else m[k']? := by
  rw [ExtTreeMap.getElem?_insertIfNew]
  by_cases h : k = k'
  · subst h
    by_cases hk : k ∈ m
    · simp [hk]
    · simp [hk]
  · simp [h]

omit [LawfulEqOrd κ] in
theorem mem_iff_exists {m : ExtTreeMap κ v compare} {k : κ} : k ∈ m ↔ ∃ x, m[k]? = some x := by
  rw [ExtTreeMap.mem_iff_isSome_getElem?, Option.isSome_iff_exists]

theorem modify_eq_self {m : ExtTreeMap κ v compare} {k : κ} {f : v → v}
    (h : ∀ x, m[k]? = some x → f x = x) : m.modify k f = m := by
  apply ExtTreeMap.ext_getElem?
  intro k'
  by_cases hk : k = k'
  · subst hk
    rw [ExtTreeMap.getElem?_modify_self]
    cases hx : m[k]? with
    | none => rfl
    | some x => simp [h x hx]
  · exact getElem?_modify_of_ne f hk

/-! ## Writes of a list -/

section Writes

variable {α : Type*} [DecidableEq κ] (key : α → Option κ) (val : α → v)

/-- Inserts the values of a list under their keys. -/
def insertAll (m : ExtTreeMap κ v compare) (l : List α) : ExtTreeMap κ v compare :=
  l.foldl (fun m a => (key a).elim m fun k => m.insert k (val a)) m

/-- Inserts the values of a list under the keys that are still absent. -/
def insertAllNew (m : ExtTreeMap κ v compare) (l : List α) : ExtTreeMap κ v compare :=
  l.foldl (fun m a => (key a).elim m fun k => m.insertIfNew k (val a)) m

omit [LawfulEqOrd κ] [DecidableEq κ] in
theorem insertAll_append (m : ExtTreeMap κ v compare) (l l' : List α) :
    insertAll key val m (l ++ l') = insertAll key val (insertAll key val m l) l' :=
  List.foldl_append ..

/-- The last value of a key is the one that stays. -/
theorem getElem?_insertAll (m : ExtTreeMap κ v compare) (l : List α) (k : κ) :
    (insertAll key val m l)[k]? = ((l.filter (key · = some k)).getLast?.map val).or m[k]? := by
  induction l using List.reverseRecOn with
  | nil => rfl
  | append_singleton l a ih =>
    have hstep : insertAll key val m (l ++ [a]) =
        (key a).elim (insertAll key val m l) fun k => (insertAll key val m l).insert k (val a) := by
      simp [insertAll]
    rw [hstep, List.filter_append]
    cases hkey : key a with
    | none => simp [hkey, ih]
    | some k' =>
      rw [Option.elim_some, getElem?_insert_eq]
      by_cases hk : k' = k
      · simp [hkey, hk]
      · simp [hkey, hk, ih]

/-- A key that a list writes has one of the values that the list writes for it. -/
theorem exists_getElem?_insertAll (m : ExtTreeMap κ v compare) {l : List α} {k : κ}
    (h : ∃ a ∈ l, key a = some k) :
    ∃ a ∈ l, key a = some k ∧ (insertAll key val m l)[k]? = some (val a) := by
  obtain ⟨a, ha, hkey⟩ := h
  rw [getElem?_insertAll]
  cases hlast : (l.filter (key · = some k)).getLast? with
  | none =>
    rw [List.getLast?_eq_none_iff, List.filter_eq_nil_iff] at hlast
    exact absurd (by simpa using hkey) (hlast a ha)
  | some b =>
    obtain ⟨hb, hkeyb⟩ := List.mem_filter.mp (List.mem_of_getLast? hlast)
    exact ⟨b, hb, by simpa using hkeyb, rfl⟩

/-- A stored value is one that the list writes, or it was there before. -/
theorem mem_of_getElem?_insertAll {m : ExtTreeMap κ v compare} {l : List α} {k : κ} {x : v}
    (h : (insertAll key val m l)[k]? = some x) :
    (∃ a ∈ l, key a = some k ∧ x = val a) ∨ m[k]? = some x := by
  rw [getElem?_insertAll] at h
  cases hlast : (l.filter (key · = some k)).getLast? with
  | none => exact Or.inr (by simpa [hlast] using h)
  | some b =>
    obtain ⟨hb, hkeyb⟩ := List.mem_filter.mp (List.mem_of_getLast? hlast)
    refine Or.inl ⟨b, hb, by simpa using hkeyb, ?_⟩
    simpa [hlast] using h.symm

/-- The first value of a key stays, unless the key has one already. -/
theorem getElem?_insertAllNew (m : ExtTreeMap κ v compare) (l : List α) (k : κ) :
    (insertAllNew key val m l)[k]? = m[k]?.or ((l.find? (key · = some k)).map val) := by
  induction l generalizing m with
  | nil => simp [insertAllNew]
  | cons a l ih =>
    have hstep : insertAllNew key val m (a :: l) =
        insertAllNew key val ((key a).elim m fun k => m.insertIfNew k (val a)) l := rfl
    rw [hstep, ih]
    cases hkey : key a with
    | none => simp [hkey]
    | some k' =>
      rw [Option.elim_some, getElem?_insertIfNew_eq]
      by_cases hk : k' = k
      · subst hk
        cases m[k']? <;> simp [hkey]
      · simp [hkey, hk]

end Writes

/-! ## Sums over a map -/

variable {M : Type*} [AddCommGroup M]

/-- The sum of the shares of the entries of a map. -/
def sumBy (f : κ → v → M) (m : ExtTreeMap κ v compare) : M :=
  (m.toList.map fun e => f e.1 e.2).sum

omit [LawfulEqOrd κ] in
theorem nodup_toList (m : ExtTreeMap κ v compare) : m.toList.Nodup := by
  have h := m.distinct_keys_toList
  refine h.imp ?_
  rintro a b hab rfl
  exact hab (compare_self)

/-- The entry of a key, among all of them. -/
theorem filter_toList [DecidableEq κ] (m : ExtTreeMap κ v compare) (k : κ) :
    m.toList.filter (·.1 = k) = (m[k]?.map (k, ·)).toList := by
  have hperm : (m.toList.filter (·.1 = k)).Perm (m[k]?.map (k, ·)).toList := by
    refine (List.perm_ext_iff_of_nodup ((nodup_toList m).filter _) ?_).mpr ?_
    · cases m[k]? <;> simp
    · rintro ⟨k', x⟩
      rw [List.mem_filter, ExtTreeMap.mem_toList_iff_getElem?_eq_some]
      simp only [decide_eq_true_eq, Option.mem_toList, Option.map_eq_some_iff,
        Prod.mk.injEq]
      constructor
      · rintro ⟨hx, rfl⟩
        exact ⟨x, hx, rfl, rfl⟩
      · rintro ⟨y, hy, rfl, rfl⟩
        exact ⟨hy, rfl⟩
  cases h : m[k]? with
  | none =>
    rw [h] at hperm
    exact List.perm_nil.mp hperm
  | some x =>
    rw [h] at hperm
    exact List.perm_singleton.mp hperm

/-- Listing a map after an insertion, up to the order of the entries. -/
theorem toList_insert_perm (m : ExtTreeMap κ v compare) (k : κ) (x : v) :
    (m.insert k x).toList.Perm ((k, x) :: (m.erase k).toList) := by
  have hnodup : ((k, x) :: (m.erase k).toList).Nodup := by
    refine List.nodup_cons.mpr ⟨?_, nodup_toList _⟩
    simp [ExtTreeMap.mem_toList_iff_getElem?_eq_some]
  rw [List.perm_ext_iff_of_nodup (nodup_toList _) hnodup]
  rintro ⟨k', x'⟩
  simp only [ExtTreeMap.mem_toList_iff_getElem?_eq_some, List.mem_cons, Prod.mk.injEq,
    ExtTreeMap.getElem?_insert, ExtTreeMap.getElem?_erase, Std.compare_eq_iff_eq]
  by_cases hk : k = k'
  · subst hk; simp [eq_comm]
  · simp [hk, Ne.symm hk]

theorem sumBy_insert (f : κ → v → M) (m : ExtTreeMap κ v compare) (k : κ) (x : v) :
    sumBy f (m.insert k x) = f k x + sumBy f (m.erase k) := by
  unfold sumBy
  rw [((toList_insert_perm m k x).map _).sum_eq, List.map_cons, List.sum_cons]

theorem sumBy_erase (f : κ → v → M) (m : ExtTreeMap κ v compare) (k : κ) :
    m[k]?.elim 0 (f k) + sumBy f (m.erase k) = sumBy f m := by
  cases h : m[k]? with
  | none =>
    have herase : m.erase k = m := by
      apply ExtTreeMap.ext_getElem?
      intro k'
      by_cases hk : k = k'
      · subst hk; simp [h]
      · simp [ExtTreeMap.getElem?_erase, hk]
    rw [herase]; simp
  | some x =>
    have hinsert : m.insert k x = m := by
      apply ExtTreeMap.ext_getElem?
      intro k'
      by_cases hk : k = k'
      · subst hk; simp [h]
      · simp [ExtTreeMap.getElem?_insert, hk]
    conv_rhs => rw [← hinsert, sumBy_insert]
    rfl

/-- Adding `d` to the value at `k`, where an absent key counts as zero, adds the share of
    `d` to the sum. -/
theorem sumBy_insert_add [AddMonoid v] {f : κ → v → M} (hzero : ∀ k, f k 0 = 0)
    (hadd : ∀ k x y, f k (x + y) = f k x + f k y) (m : ExtTreeMap κ v compare) (k : κ) (d : v) :
    sumBy f (m.insert k (m[k]?.getD 0 + d)) = sumBy f m + f k d := by
  have helim : m[k]?.elim 0 (f k) = f k (m[k]?.getD 0) := by
    cases m[k]? with
    | none => simp [hzero]
    | some x => rfl
  rw [sumBy_insert, hadd, ← sumBy_erase f m k, helim]
  abel

/-! ## Maps of lists -/

section Lists

variable {α : Type*}

/-- `m.entry(k).or_default().push(a)`. -/
def push (m : ExtTreeMap κ (List α) compare) (k : κ) (a : α) : ExtTreeMap κ (List α) compare :=
  m.insert k (m[k]?.getD [] ++ [a])

/-- A push adds the share of its element to a sum of additive shares. -/
theorem sumBy_push {f : κ → List α → M} {g : α → M} (hnil : ∀ k, f k [] = 0)
    (hadd : ∀ k l a, f k (l ++ [a]) = f k l + g a) (m : ExtTreeMap κ (List α) compare) (k : κ)
    (a : α) : sumBy f (push m k a) = sumBy f m + g a := by
  have helim : m[k]?.elim 0 (f k) = f k (m[k]?.getD []) := by
    cases m[k]? with
    | none => simp [hnil]
    | some l => rfl
  unfold push
  rw [sumBy_insert, hadd, ← sumBy_erase f m k, helim]
  abel

end Lists

end MevScout.Map
