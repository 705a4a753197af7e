import Mathlib

/-!
# Sorted groups

A list is split by a numeric key, in ascending order of the key, and each group is sorted
by a relation. The sort is stable.

Results:
* `inOrder_perm`: the groups together are a rearrangement of the list;
* `overGroups_induct`: an invariant of a loop over the groups;
* `overGroups_map`: a loop over the groups with a part of its state forgotten;
* `groups_congr`: rearranging the list does not change the groups when the relation is
  antisymmetric on each group;
* `groups_map`: groups of a list that is mapped;
* `filter_insertionSort`: deleting elements commutes with the sort;
* `foldl_groups_filter`: a fold over the groups of what a deletion leaves;
* `sublist_of_sorted`: elements with ascending keys stand in a sorted list in their order.
-/

namespace MevScout.Grouping

variable {α β : Type*} (key : α → ℕ) (r : α → α → Prop) [DecidableRel r]

/-- The keys of a list in ascending order, each once. -/
def keys (l : List α) : List ℕ := (l.map key).dedup.insertionSort (· ≤ ·)

/-- The group of one key. -/
def group (l : List α) (k : ℕ) : List α := (l.filter (key · = k)).insertionSort r

/-- The groups of a list in ascending order of their keys. -/
def groups (l : List α) : List (ℕ × List α) := (keys key l).map fun k => (k, group key r l k)

/-- The elements of a list in the order of its groups. -/
def inOrder (l : List α) : List α := (groups key r l).flatMap Prod.snd

/-- A loop over the groups of a list. Every group starts with `start` beside the state that
    the group before it left. -/
def overGroups {σ τ : Type*} (start : τ) (step : ℕ → σ × τ → α → σ × τ) (s : σ)
    (l : List α) : σ :=
  (groups key r l).foldl (fun s g => (g.2.foldl (step g.1) (s, start)).1) s

variable {key r} {l l' : List α}

/-! ## The keys -/

theorem mem_keys {k : ℕ} : k ∈ keys key l ↔ ∃ a ∈ l, key a = k := by
  unfold keys
  rw [List.mem_insertionSort, List.mem_dedup, List.mem_map]

theorem keys_pairwise (l : List α) : (keys key l).Pairwise (· < ·) := by
  have hle : (keys key l).Pairwise (· ≤ ·) := List.pairwise_insertionSort _ _
  have hnodup : (keys key l).Nodup :=
    (List.perm_insertionSort _ _).nodup_iff.mpr (List.nodup_dedup _)
  exact hle.imp₂ (fun _ _ hab hne => lt_of_le_of_ne hab hne) hnodup

theorem keys_congr (h : l.Perm l') : keys key l = keys key l' := by
  have hperm : (keys key l).Perm (keys key l') :=
    (List.perm_insertionSort _ _).trans
      ((h.map key).dedup.trans (List.perm_insertionSort _ _).symm)
  exact hperm.eq_of_pairwise' ((keys_pairwise l).imp le_of_lt) ((keys_pairwise l').imp le_of_lt)

/-! ## The groups -/

theorem mem_group {k : ℕ} {a : α} : a ∈ group key r l k ↔ a ∈ l ∧ key a = k := by
  unfold group
  rw [List.mem_insertionSort, List.mem_filter, decide_eq_true_eq]

theorem flatMap_filter_perm (ks : List ℕ) (hks : ks.Nodup) (hmem : ∀ a ∈ l, key a ∈ ks) :
    (ks.flatMap fun k => l.filter (key · = k)).Perm l := by
  induction l with
  | nil => simp
  | cons a l ih =>
    have hl := ih fun b hb => hmem b (List.mem_cons_of_mem _ hb)
    refine List.Perm.trans ?_ (hl.cons a)
    obtain ⟨k₁, k₂, rfl⟩ := List.append_of_mem (hmem a (List.mem_cons_self ..))
    have hne : ∀ k ∈ k₁ ++ k₂, key a ≠ k := by
      rintro k hk rfl
      have := List.nodup_middle.mp hks
      exact (List.nodup_cons.mp this).1 hk
    have hskip : ∀ ks' : List ℕ, (∀ k ∈ ks', key a ≠ k) →
        (ks'.flatMap fun k => (a :: l).filter (key · = k)) =
          ks'.flatMap fun k => l.filter (key · = k) := by
      intro ks' h'
      refine List.flatMap_congr fun k hk => ?_
      rw [List.filter_cons_of_neg (by simpa using h' k hk)]
    rw [List.flatMap_append, List.flatMap_cons, List.flatMap_append, List.flatMap_cons,
      hskip k₁ fun k hk => hne k (List.mem_append_left _ hk),
      hskip k₂ fun k hk => hne k (List.mem_append_right _ hk),
      List.filter_cons_of_pos (by simp)]
    exact List.perm_middle

/-- The groups together are a rearrangement of the list. -/
theorem inOrder_perm (l : List α) : (inOrder key r l).Perm l := by
  have hnodup : (keys key l).Nodup := (keys_pairwise l).imp ne_of_lt
  have hfilter := flatMap_filter_perm (l := l) (keys key l) hnodup
    fun a ha => mem_keys.mpr ⟨a, ha, rfl⟩
  refine List.Perm.trans ?_ hfilter
  unfold inOrder groups
  rw [List.flatMap_map]
  exact List.Perm.flatMap_left _ fun k _ => List.perm_insertionSort _ _

/-- An invariant of a loop over the groups. `I` holds between two groups, of the elements
    done so far; `J k` holds inside the group of `k`. -/
theorem overGroups_induct {σ τ : Type*} {start : τ} {step : ℕ → σ × τ → α → σ × τ} {s : σ}
    (I : List α → σ → Prop) (J : ℕ → List α → σ × τ → Prop) (hnil : I [] s)
    (hopen : ∀ k done s, (∀ a ∈ done, key a < k) → I done s → J k done (s, start))
    (hstep : ∀ k done t a, a ∈ l → key a = k → J k done t → J k (done ++ [a]) (step k t a))
    (hclose : ∀ k done t, J k done t → I done t.1) :
    I (inOrder key r l) (overGroups key r start step s l) := by
  have hgroup : ∀ k (g : List α) done t, (∀ a ∈ g, a ∈ l ∧ key a = k) → J k done t →
      J k (done ++ g) (g.foldl (step k) t) := by
    intro k g
    induction g with
    | nil => intro done t _ ht; simpa using ht
    | cons a g ih =>
      intro done t hg ht
      have ha := hg a (List.mem_cons_self ..)
      have := ih (done ++ [a]) _ (fun b hb => hg b (List.mem_cons_of_mem _ hb))
        (hstep k done t a ha.1 ha.2 ht)
      simpa using this
  have hall : ∀ (gs : List (ℕ × List α)) done s, gs.Pairwise (fun g h => g.1 < h.1) →
      (∀ g ∈ gs, ∀ a ∈ g.2, a ∈ l ∧ key a = g.1) →
      (∀ a ∈ done, ∀ g ∈ gs, key a < g.1) → I done s →
      I (done ++ gs.flatMap Prod.snd)
        (gs.foldl (fun s g => (g.2.foldl (step g.1) (s, start)).1) s) := by
    intro gs
    induction gs with
    | nil => intro done s _ _ _ hs; simpa using hs
    | cons g gs ih =>
      intro done s hgs hmem hdone hs
      have hg := hmem g (List.mem_cons_self ..)
      have hJ := hgroup g.1 g.2 done (s, start) hg
        (hopen g.1 done s (fun a ha => hdone a ha g (List.mem_cons_self ..)) hs)
      have hlt : ∀ a ∈ done ++ g.2, ∀ h ∈ gs, key a < h.1 := by
        intro a ha h hh
        rcases List.mem_append.mp ha with ha | ha
        · exact hdone a ha h (List.mem_cons_of_mem _ hh)
        · rw [(hg a ha).2]
          exact List.rel_of_pairwise_cons hgs hh
      have := ih (done ++ g.2) _ hgs.of_cons
        (fun h hh => hmem h (List.mem_cons_of_mem _ hh)) hlt (hclose _ _ _ hJ)
      simpa using this
  have hpair : (groups key r l).Pairwise fun g h => g.1 < h.1 := by
    unfold groups
    rw [List.pairwise_map]
    exact keys_pairwise l
  have hmem : ∀ g ∈ groups key r l, ∀ a ∈ g.2, a ∈ l ∧ key a = g.1 := by
    intro g hg a ha
    obtain ⟨k, -, rfl⟩ := List.mem_map.mp hg
    exact mem_group.mp ha
  simpa [inOrder, overGroups] using hall (groups key r l) [] s hpair hmem (by simp) hnil

/-- Forgetting a part of the state commutes with a loop over the groups. -/
theorem overGroups_map {σ σ' τ : Type*} {start : τ} {step : ℕ → σ × τ → α → σ × τ}
    {step' : ℕ → σ' × τ → α → σ' × τ} (f : σ → σ')
    (hstep : ∀ k t a, step' k (f t.1, t.2) a = (f (step k t a).1, (step k t a).2)) (s : σ) :
    overGroups key r start step' (f s) l = f (overGroups key r start step s l) := by
  have hgroup : ∀ k (g : List α) t, g.foldl (step' k) (f t.1, t.2) =
      (f (g.foldl (step k) t).1, (g.foldl (step k) t).2) := by
    intro k g
    induction g with
    | nil => intro t; rfl
    | cons a g ih => intro t; rw [List.foldl_cons, hstep, List.foldl_cons]; exact ih _
  unfold overGroups
  induction groups key r l generalizing s with
  | nil => rfl
  | cons g gs ih =>
    rw [List.foldl_cons, hgroup g.1 g.2 (s, start), List.foldl_cons]
    exact ih _

variable [Std.Total r] [IsTrans α r]

/-- Rearranging the list does not change the groups. -/
theorem groups_congr (h : l.Perm l')
    (hanti : ∀ a ∈ l, ∀ b ∈ l, key a = key b → r a b → r b a → a = b) :
    groups key r l = groups key r l' := by
  unfold groups
  rw [← keys_congr h]
  refine List.map_congr_left fun k _ => ?_
  congr 1
  have hperm : (group key r l k).Perm (group key r l' k) :=
    (List.perm_insertionSort _ _).trans
      ((h.filter _).trans (List.perm_insertionSort _ _).symm)
  refine hperm.eq_of_pairwise (fun a b ha hb hab hba => ?_) (List.pairwise_insertionSort _ _)
    (List.pairwise_insertionSort _ _)
  obtain ⟨ha, hka⟩ := mem_group.mp ha
  obtain ⟨hb, hkb⟩ := mem_group.mp hb
  exact hanti a ha b (h.mem_iff.mpr hb) (hka.trans hkb.symm) hab hba

omit [Std.Total r] [IsTrans α r] in
/-- Groups of a mapped list. -/
theorem groups_map (f : β → α) (l : List β) :
    groups key r (l.map f) =
      (groups (key ∘ f) (fun a b => r (f a) (f b)) l).map fun g => (g.1, g.2.map f) := by
  unfold groups keys group
  rw [List.map_map, List.map_map]
  refine List.map_congr_left fun k _ => ?_
  rw [List.filter_map, Function.comp_apply]
  congr 1
  exact (List.map_insertionSort _ _ f _ fun a _ b _ => Iff.rfl).symm

/-! ## Deletions -/

omit [Std.Total r] in
theorem filter_orderedInsert (p : α → Bool) (a : α) {l : List α} (hl : l.Pairwise r) :
    (l.orderedInsert r a).filter p =
      if p a then (l.filter p).orderedInsert r a else l.filter p := by
  induction l with
  | nil => by_cases h : p a <;> simp [h]
  | cons b l ih =>
    have ih := ih hl.of_cons
    rw [List.orderedInsert_cons]
    by_cases hab : r a b
    · rw [if_pos hab]
      by_cases hp : p a
      · rw [List.filter_cons_of_pos hp, if_pos hp]
        have hall : ∀ c ∈ (b :: l).filter p, r a c := by
          intro c hc
          rcases List.mem_cons.mp (List.mem_of_mem_filter hc) with rfl | hc
          · exact hab
          · exact IsTrans.trans _ _ _ hab (List.rel_of_pairwise_cons hl hc)
        cases hf : (b :: l).filter p with
        | nil => rfl
        | cons c l' =>
          rw [List.orderedInsert_cons_of_le _ _ (hall c (by rw [hf]; exact List.mem_cons_self ..))]
      · rw [List.filter_cons_of_neg hp, if_neg hp]
    · rw [if_neg hab]
      by_cases hb : p b
      · rw [List.filter_cons_of_pos hb, ih, List.filter_cons_of_pos hb]
        by_cases hp : p a
        · rw [if_pos hp, if_pos hp, List.orderedInsert_of_not_le _ _ hab]
        · rw [if_neg hp, if_neg hp]
      · rw [List.filter_cons_of_neg hb, ih, List.filter_cons_of_neg hb]

/-- Deleting elements commutes with a stable sort. -/
theorem filter_insertionSort (p : α → Bool) (l : List α) :
    (l.insertionSort r).filter p = (l.filter p).insertionSort r := by
  induction l with
  | nil => rfl
  | cons a l ih =>
    rw [List.insertionSort_cons, filter_orderedInsert p a (List.pairwise_insertionSort _ _), ih]
    by_cases hp : p a
    · rw [if_pos hp, List.filter_cons_of_pos hp, List.insertionSort_cons]
    · rw [if_neg hp, List.filter_cons_of_neg hp]

theorem group_filter (p : α → Bool) (l : List α) (k : ℕ) :
    group key r (l.filter p) k = (group key r l k).filter p := by
  unfold group
  rw [filter_insertionSort, List.filter_filter, List.filter_filter]
  congr 1
  refine List.filter_congr fun a _ => ?_
  rw [Bool.and_comm]

/-- A fold over the groups of what a deletion leaves is the fold over the remains of all
    groups, when an empty group does nothing. -/
theorem foldl_groups_filter {σ : Type*} (f : σ → ℕ × List α → σ) (hnil : ∀ s k, f s (k, []) = s)
    (p : α → Bool) (l : List α) (s : σ) :
    (groups key r (l.filter p)).foldl f s =
      ((groups key r l).map fun g => (g.1, g.2.filter p)).foldl f s := by
  unfold groups
  rw [List.map_map, List.foldl_map, List.foldl_map]
  have hgroup : ∀ k, group key r (l.filter p) k = (group key r l k).filter p :=
    group_filter p l
  simp only [hgroup, Function.comp_apply]
  have hkeys : keys key (l.filter p) =
      (keys key l).filter fun k => ¬(group key r l k).filter p = [] := by
    have hsorted : ((keys key l).filter fun k => ¬(group key r l k).filter p = []).Pairwise
        (· < ·) := (keys_pairwise l).sublist List.filter_sublist
    have hmem : ∀ k, k ∈ keys key (l.filter p) ↔
        k ∈ (keys key l).filter fun k => ¬(group key r l k).filter p = [] := by
      intro k
      rw [List.mem_filter, mem_keys, mem_keys, decide_eq_true_eq]
      constructor
      · rintro ⟨a, ha, rfl⟩
        obtain ⟨hal, hpa⟩ := List.mem_filter.mp ha
        refine ⟨⟨a, hal, rfl⟩, List.ne_nil_of_mem (List.mem_filter.mpr ⟨?_, hpa⟩)⟩
        exact mem_group.mpr ⟨hal, rfl⟩
      · rintro ⟨-, hne⟩
        obtain ⟨a, ha⟩ := List.exists_mem_of_ne_nil _ hne
        obtain ⟨hg, hpa⟩ := List.mem_filter.mp ha
        obtain ⟨hal, hk⟩ := mem_group.mp hg
        exact ⟨a, List.mem_filter.mpr ⟨hal, hpa⟩, hk⟩
    have hperm := (List.perm_ext_iff_of_nodup ((keys_pairwise _).imp ne_of_lt)
      (hsorted.imp ne_of_lt)).mpr hmem
    exact hperm.eq_of_pairwise' ((keys_pairwise _).imp le_of_lt) (hsorted.imp le_of_lt)
  rw [hkeys]
  generalize keys key l = ks
  induction ks generalizing s with
  | nil => rfl
  | cons k ks ih =>
    by_cases hempty : (group key r l k).filter p = []
    · rw [List.filter_cons_of_neg (by simp [hempty]), List.foldl_cons, hempty, hnil]
      exact ih s
    · rw [List.filter_cons_of_pos (by simp [hempty]), List.foldl_cons, List.foldl_cons]
      exact ih _

/-! ## Sorted lists -/

/-- Elements with ascending keys stand in this order in every sorted list that has them. -/
theorem sublist_of_sorted {κ : Type*} [LinearOrder κ] {key : α → κ} {l l' : List α}
    (hl : (l.map key).Pairwise (· < ·)) (hl' : l'.Pairwise fun a b => key a ≤ key b)
    (hmem : ∀ a ∈ l, a ∈ l') : l.Sublist l' := by
  induction l' generalizing l with
  | nil =>
    rw [List.eq_nil_iff_forall_not_mem.mpr fun a ha => List.not_mem_nil (hmem a ha)]
  | cons b l' ih =>
    obtain ⟨hb, htail⟩ := List.pairwise_cons.mp hl'
    cases l with
    | nil => exact List.nil_sublist _
    | cons a l =>
      obtain ⟨ha, hlt⟩ := List.pairwise_cons.mp hl
      replace ha : ∀ c ∈ l, key a < key c := fun c hc => ha _ (List.mem_map_of_mem hc)
      by_cases hab : a = b
      · subst hab
        refine (ih hlt htail fun c hc => ?_).cons_cons a
        rcases List.mem_cons.mp (hmem c (List.mem_cons_of_mem _ hc)) with rfl | hc'
        · exact absurd (ha _ hc) (lt_irrefl _)
        · exact hc'
      · have hal : a ∈ l' := (List.mem_cons.mp (hmem a (List.mem_cons_self ..))).resolve_left hab
        refine (ih hl htail fun c hc => ?_).cons b
        rcases List.mem_cons.mp hc with rfl | hcl
        · exact hal
        · rcases List.mem_cons.mp (hmem c hc) with rfl | hc'
          · exact absurd (ha _ hcl) (not_lt_of_ge (hb a hal))
          · exact hc'

end MevScout.Grouping
