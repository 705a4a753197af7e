import MevScout.Common.Grouping

/-!
# Deleting what a loop passes over

A loop over sorted groups takes some of the elements of its list and passes over the
others. Deleting the elements that it passed over leaves the elements that it took.

Results:
* `overGroups_taken`: a relation between the loop over the whole list and the loop over the
  taken elements.
-/

namespace MevScout.Grouping

variable {α σ τ : Type*} (key : α → ℕ) (r : α → α → Prop) [DecidableRel r] (start : τ)
  (step : ℕ → σ × τ → α → σ × τ) (took : ℕ → σ × τ → α → Bool) (C : ℕ → σ × τ → α → Prop)

/-- Every step of the loop over one group meets `C` in the state it starts from. -/
def GroupMeets (k : ℕ) : σ × τ → List α → Prop
  | _, [] => True
  | t, a :: l => C k t a ∧ GroupMeets k (step k t a) l

/-- Every step of the loop over the groups meets `C` in the state it starts from. -/
def GroupsMeet : σ → List (ℕ × List α) → Prop
  | _, [] => True
  | s, g :: gs =>
    GroupMeets step C g.1 (s, start) g.2 ∧ GroupsMeet (g.2.foldl (step g.1) (s, start)).1 gs

/-- The tags of the elements of one group that the loop takes. -/
def groupTaken (k : ℕ) : σ × τ → List (α × ℕ) → List ℕ
  | _, [] => []
  | t, (a, i) :: l =>
    if took k t a then i :: groupTaken k (step k t a) l else groupTaken k (step k t a) l

/-- The tags of the elements that the loop takes. -/
def groupsTaken : σ → List (ℕ × List (α × ℕ)) → List ℕ
  | _, [] => []
  | s, g :: gs =>
    groupTaken step took g.1 (s, start) g.2 ++
      groupsTaken ((g.2.map Prod.fst).foldl (step g.1) (s, start)).1 gs

/-- The groups of a list whose elements carry their positions. -/
def taggedGroups (l : List α) : List (ℕ × List (α × ℕ)) :=
  groups (fun a : α × ℕ => key a.1) (fun a b => r a.1 b.1) l.zipIdx

/-- The elements that the loop takes, in the order of the list. -/
def taken (s : σ) (l : List α) : List α :=
  (l.zipIdx.filter fun a => a.2 ∈ groupsTaken start step took s (taggedGroups key r l)).map Prod.fst

variable {key r start step took C}

/-! ## Tags -/

theorem groupTaken_subset {k i : ℕ} {t : σ × τ} {l : List (α × ℕ)}
    (h : i ∈ groupTaken step took k t l) : ∃ a ∈ l, a.2 = i := by
  induction l generalizing t with
  | nil => simp [groupTaken] at h
  | cons a l ih =>
    rw [groupTaken] at h
    split_ifs at h with htook
    · rcases List.mem_cons.mp h with rfl | h
      · exact ⟨a, List.mem_cons_self .., rfl⟩
      · obtain ⟨b, hb, hbi⟩ := ih h
        exact ⟨b, List.mem_cons_of_mem _ hb, hbi⟩
    · obtain ⟨b, hb, hbi⟩ := ih h
      exact ⟨b, List.mem_cons_of_mem _ hb, hbi⟩

theorem groupsTaken_subset {i : ℕ} {s : σ} {gs : List (ℕ × List (α × ℕ))}
    (h : i ∈ groupsTaken start step took s gs) : ∃ a ∈ gs.flatMap Prod.snd, a.2 = i := by
  induction gs generalizing s with
  | nil => simp [groupsTaken] at h
  | cons g gs ih =>
    rw [groupsTaken] at h
    rw [List.flatMap_cons]
    rcases List.mem_append.mp h with h | h
    · obtain ⟨a, ha, hai⟩ := groupTaken_subset h
      exact ⟨a, List.mem_append_left _ ha, hai⟩
    · obtain ⟨a, ha, hai⟩ := ih h
      exact ⟨a, List.mem_append_right _ ha, hai⟩

theorem nodup_tags (l : List α) :
    (((taggedGroups key r l).flatMap Prod.snd).map Prod.snd).Nodup := by
  have hperm : (inOrder (fun a : α × ℕ => key a.1) (fun a b => r a.1 b.1) l.zipIdx).Perm l.zipIdx :=
    inOrder_perm _
  refine ((hperm.map Prod.snd).nodup_iff).mpr ?_
  rw [List.zipIdx_map_snd]
  exact List.nodup_range'

/-! ## One group -/

/-- The loop over a group and the loop over what it takes of the group stay related. `kept`
    holds the tags that are taken of the group. -/
theorem group_taken {Q : σ × τ → σ × τ → Prop}
    (htake : ∀ k t t' a, Q t t' → C k t a → took k t a = true → Q (step k t a) (step k t' a))
    (hskip : ∀ k t t' a, Q t t' → C k t a → took k t a = false → Q (step k t a) t') {k : ℕ}
    {kept : List ℕ} {l : List (α × ℕ)} {t t' : σ × τ} (hnodup : (l.map Prod.snd).Nodup)
    (hkept : ∀ a ∈ l, a.2 ∈ kept ↔ a.2 ∈ groupTaken step took k t l)
    (hC : GroupMeets step C k t (l.map Prod.fst)) (hQ : Q t t') :
    Q ((l.map Prod.fst).foldl (step k) t)
      (((l.filter fun a => a.2 ∈ kept).map Prod.fst).foldl (step k) t') := by
  induction l generalizing t t' with
  | nil => exact hQ
  | cons a l ih =>
    obtain ⟨hnot, hnodup⟩ := List.nodup_cons.mp hnodup
    have hfresh : ∀ {t : σ × τ}, a.2 ∉ groupTaken step took k t l := by
      intro t h
      obtain ⟨b, hb, hba⟩ := groupTaken_subset h
      exact hnot (List.mem_map.mpr ⟨b, hb, hba⟩)
    have htail : ∀ b ∈ l, b.2 ∈ kept ↔ b.2 ∈ groupTaken step took k (step k t a.1) l := by
      intro b hb
      have hne : b.2 ≠ a.2 := fun he => hnot (List.mem_map.mpr ⟨b, hb, he⟩)
      rw [hkept b (List.mem_cons_of_mem _ hb), groupTaken]
      split_ifs
      · rw [List.mem_cons, or_iff_right hne]
      · rfl
    have hhead := hkept a (List.mem_cons_self ..)
    rw [groupTaken] at hhead
    cases htook : took k t a.1 with
    | true =>
      rw [if_pos htook] at hhead
      rw [List.filter_cons_of_pos (by simpa using hhead.mpr (List.mem_cons_self ..))]
      exact ih hnodup htail hC.2 (htake k t t' a.1 hQ hC.1 htook)
    | false =>
      rw [if_neg (by simp [htook])] at hhead
      rw [List.filter_cons_of_neg (by simpa using fun h => hfresh (hhead.mp h))]
      exact ih hnodup htail hC.2 (hskip k t t' a.1 hQ hC.1 htook)

/-! ## All groups -/

theorem groups_taken {P : σ → σ → Prop} {Q : σ × τ → σ × τ → Prop}
    (hopen : ∀ s s', P s s' → Q (s, start) (s', start)) (hclose : ∀ t t', Q t t' → P t.1 t'.1)
    (htake : ∀ k t t' a, Q t t' → C k t a → took k t a = true → Q (step k t a) (step k t' a))
    (hskip : ∀ k t t' a, Q t t' → C k t a → took k t a = false → Q (step k t a) t')
    {kept : List ℕ} {gs : List (ℕ × List (α × ℕ))} {s s' : σ}
    (hnodup : ((gs.flatMap Prod.snd).map Prod.snd).Nodup)
    (hkept : ∀ a ∈ gs.flatMap Prod.snd, a.2 ∈ kept ↔ a.2 ∈ groupsTaken start step took s gs)
    (hC : GroupsMeet start step C s (gs.map fun g => (g.1, g.2.map Prod.fst))) (hP : P s s') :
    P (gs.foldl (fun s g => ((g.2.map Prod.fst).foldl (step g.1) (s, start)).1) s)
      (gs.foldl (fun s g => (((g.2.filter fun a => a.2 ∈ kept).map Prod.fst).foldl (step g.1)
        (s, start)).1) s') := by
  induction gs generalizing s s' with
  | nil => exact hP
  | cons g gs ih =>
    rw [List.flatMap_cons, List.map_append] at hnodup
    obtain ⟨hg, hgs, hdisj⟩ := List.nodup_append.mp hnodup
    have hne : ∀ a ∈ g.2, ∀ b ∈ gs.flatMap Prod.snd, a.2 ≠ b.2 := fun a ha b hb =>
      hdisj a.2 (List.mem_map_of_mem ha) b.2 (List.mem_map_of_mem hb)
    have hfst : ∀ a ∈ g.2, a.2 ∈ kept ↔ a.2 ∈ groupTaken step took g.1 (s, start) g.2 := by
      intro a ha
      rw [hkept a (by simp [ha]), groupsTaken, List.mem_append]
      refine or_iff_left fun h => ?_
      obtain ⟨b, hb, hba⟩ := groupsTaken_subset h
      exact hne a ha b hb hba.symm
    have hsnd : ∀ a ∈ gs.flatMap Prod.snd, a.2 ∈ kept ↔
        a.2 ∈ groupsTaken start step took
          ((g.2.map Prod.fst).foldl (step g.1) (s, start)).1 gs := by
      intro a ha
      rw [hkept a (by rw [List.flatMap_cons]; exact List.mem_append_right _ ha), groupsTaken,
        List.mem_append]
      refine or_iff_right fun h => ?_
      obtain ⟨b, hb, hba⟩ := groupTaken_subset h
      exact hne b hb a ha hba
    have hQ := group_taken htake hskip hg hfst hC.1 (hopen s s' hP)
    exact ih hgs hsnd hC.2 (hclose _ _ hQ)

variable [Std.Total r] [IsTrans α r]

/-- Deleting the elements that the loop passes over: `P` relates what the loop makes of the
    whole list and of the taken elements. -/
theorem overGroups_taken {P : σ → σ → Prop} {Q : σ × τ → σ × τ → Prop}
    (hopen : ∀ s s', P s s' → Q (s, start) (s', start)) (hclose : ∀ t t', Q t t' → P t.1 t'.1)
    (htake : ∀ k t t' a, Q t t' → C k t a → took k t a = true → Q (step k t a) (step k t' a))
    (hskip : ∀ k t t' a, Q t t' → C k t a → took k t a = false → Q (step k t a) t')
    {s : σ} {l : List α} (hC : GroupsMeet start step C s (groups key r l)) (hP : P s s) :
    P (overGroups key r start step s l)
      (overGroups key r start step s (taken key r start step took s l)) := by
  have hgroups : groups key r l = (taggedGroups key r l).map fun g => (g.1, g.2.map Prod.fst) := by
    have hmap : groups key r (l.zipIdx.map Prod.fst) =
        (taggedGroups key r l).map fun g => (g.1, g.2.map Prod.fst) := groups_map Prod.fst l.zipIdx
    rwa [List.zipIdx_map_fst] at hmap
  have htotal : Std.Total fun a b : α × ℕ => r a.1 b.1 := ⟨fun a b => Std.Total.total a.1 b.1⟩
  have htrans : IsTrans (α × ℕ) fun a b => r a.1 b.1 := ⟨fun a b c => IsTrans.trans a.1 b.1 c.1⟩
  have hdeleted : overGroups key r start step s (taken key r start step took s l) =
      (taggedGroups key r l).foldl (fun u g => (((g.2.filter fun a =>
        a.2 ∈ groupsTaken start step took s (taggedGroups key r l)).map Prod.fst).foldl
          (step g.1) (u, start)).1) s := by
    have hfilter := @foldl_groups_filter _ (fun a : α × ℕ => key a.1) (fun a b => r a.1 b.1) _ _ _ _
      (fun u g => ((g.2.map Prod.fst).foldl (step g.1) (u, start)).1) (fun _ _ => rfl)
      (fun a => a.2 ∈ groupsTaken start step took s (taggedGroups key r l)) l.zipIdx s
    rw [List.foldl_map] at hfilter
    rw [overGroups, taken, groups_map, List.foldl_map]
    exact hfilter
  have hwhole : overGroups key r start step s l = (taggedGroups key r l).foldl
      (fun s g => ((g.2.map Prod.fst).foldl (step g.1) (s, start)).1) s := by
    rw [overGroups, hgroups, List.foldl_map]
  rw [hwhole, hdeleted]
  rw [hgroups] at hC
  exact groups_taken hopen hclose htake hskip (nodup_tags l) (fun a _ => Iff.rfl) hC hP

end MevScout.Grouping
