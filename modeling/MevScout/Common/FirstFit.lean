import Mathlib

/-!
# First fit

Items come one after the other, and each takes the first slot that it fits and that is still
free. A slot is known by its key.

Results:
* `firstFit_isMatching`: every item and every slot is taken at most once;
* `firstFit_blocked`: an item that goes without a slot found all of its slots taken by earlier
  items;
* `IsMatching.length_le_two_mul`: no matching has more than twice as many pairs;
* `IsMatching.length_le`: none has more, where a slot can be exchanged for a later one.
-/

namespace MevScout.FirstFit

variable {α β κ : Type*} [DecidableEq κ]

/-- Every item takes the first slot that it fits and whose key is not used. -/
def firstFit (fits : α → β → Bool) (key : β → κ) (slots : List β) :
    Finset κ → List α → List (α × β)
  | _, [] => []
  | used, a :: items =>
    match slots.find? fun b => fits a b && decide (key b ∉ used) with
    | none => firstFit fits key slots used items
    | some b => (a, b) :: firstFit fits key slots (insert (key b) used) items

variable {fits : α → β → Bool} {key : β → κ} {slots : List β} {used : Finset κ} {items : List α}
  {a : α} {b : β} {M : List (α × β)}

theorem firstFit_cons_none
    (h : slots.find? (fun b => fits a b && decide (key b ∉ used)) = none) :
    firstFit fits key slots used (a :: items) = firstFit fits key slots used items := by
  rw [firstFit, h]

theorem firstFit_cons_some
    (h : slots.find? (fun b => fits a b && decide (key b ∉ used)) = some b) :
    firstFit fits key slots used (a :: items) =
      (a, b) :: firstFit fits key slots (insert (key b) used) items := by
  rw [firstFit, h]

theorem used_of_find?_eq_none
    (h : slots.find? (fun b => fits a b && decide (key b ∉ used)) = none) (hb : b ∈ slots)
    (hfits : fits a b) : key b ∈ used := by
  by_contra hfree
  have := List.find?_eq_none.mp h b hb
  simp [hfits, hfree] at this

theorem of_find?_eq_some
    (h : slots.find? (fun b => fits a b && decide (key b ∉ used)) = some b) :
    b ∈ slots ∧ fits a b ∧ key b ∉ used := by
  have hb := List.find?_some h
  simp only [Bool.and_eq_true, decide_eq_true_eq] at hb
  exact ⟨List.mem_of_find?_eq_some h, hb⟩

/-! ## Matchings -/

/-- `M` pairs some of the items with slots that they fit, none of which is in `used`: each item
    and each slot at most once. -/
structure IsMatching (fits : α → β → Bool) (key : β → κ) (slots : List β) (used : Finset κ)
    (items : List α) (M : List (α × β)) : Prop where
  items : (M.map Prod.fst).Subperm items
  fits : ∀ p ∈ M, fits p.1 p.2
  slots : ∀ p ∈ M, p.2 ∈ slots
  free : ∀ p ∈ M, key p.2 ∉ used
  nodup : (M.map fun p => key p.2).Nodup

omit [DecidableEq κ] in
theorem IsMatching.perm {N : List (α × β)} (h : IsMatching fits key slots used items M)
    (hperm : M.Perm N) : IsMatching fits key slots used items N where
  items := (hperm.map _).symm.subperm.trans h.items
  fits p hp := h.fits p (hperm.mem_iff.mpr hp)
  slots p hp := h.slots p (hperm.mem_iff.mpr hp)
  free p hp := h.free p (hperm.mem_iff.mpr hp)
  nodup := (hperm.map _).nodup_iff.mp h.nodup

/-- Without its first pair, a matching leaves the slot of that pair free. -/
theorem IsMatching.tail {p : α × β} (h : IsMatching fits key slots used items (p :: M)) :
    IsMatching fits key slots (insert (key p.2) used) items M where
  items := (List.sublist_cons_self ..).subperm.trans h.items
  fits q hq := h.fits q (List.mem_cons_of_mem _ hq)
  slots q hq := h.slots q (List.mem_cons_of_mem _ hq)
  free q hq := by
    have hne : key q.2 ≠ key p.2 := by
      intro heq
      exact (List.nodup_cons.mp h.nodup).1 (List.mem_map.mpr ⟨q, hq, heq⟩)
    simp [hne, h.free q (List.mem_cons_of_mem _ hq)]
  nodup := (List.nodup_cons.mp h.nodup).2

/-- A slot that no pair has may be used up. -/
theorem IsMatching.useUp (h : IsMatching fits key slots used items M)
    (hfree : ∀ p ∈ M, key p.2 ≠ key b) :
    IsMatching fits key slots (insert (key b) used) items M where
  items := h.items
  fits := h.fits
  slots := h.slots
  free p hp := by simp [hfree p hp, h.free p hp]
  nodup := h.nodup

omit [DecidableEq κ] in
theorem IsMatching.mono {used' : Finset κ} (h : IsMatching fits key slots used' items M)
    (hsub : used ⊆ used') : IsMatching fits key slots used items M where
  items := h.items
  fits := h.fits
  slots := h.slots
  free p hp hmem := h.free p hp (hsub hmem)
  nodup := h.nodup

/-- The pairs of first fit are a matching. -/
theorem firstFit_isMatching (items : List α) (used : Finset κ) :
    IsMatching fits key slots used items (firstFit fits key slots used items) := by
  induction items generalizing used with
  | nil => exact ⟨by simp [firstFit], by simp [firstFit], by simp [firstFit], by simp [firstFit],
      by simp [firstFit]⟩
  | cons a items ih =>
    rcases hfind : slots.find? fun b => fits a b && decide (key b ∉ used) with _ | b
    · rw [firstFit_cons_none hfind]
      have h := ih used
      exact ⟨h.items.cons_right a, h.fits, h.slots, h.free, h.nodup⟩
    · rw [firstFit_cons_some hfind]
      obtain ⟨hslot, hfits, hfree⟩ := of_find?_eq_some hfind
      have h := ih (insert (key b) used)
      have h' := h.mono (Finset.subset_insert (key b) used)
      refine ⟨(List.subperm_cons a).mpr h.items, ?_, ?_, ?_, ?_⟩
      · exact List.forall_mem_cons.mpr ⟨hfits, h'.fits⟩
      · exact List.forall_mem_cons.mpr ⟨hslot, h'.slots⟩
      · exact List.forall_mem_cons.mpr ⟨hfree, h'.free⟩
      · refine List.nodup_cons.mpr ⟨?_, h.nodup⟩
        intro hmem
        obtain ⟨p, hp, hkey⟩ := List.mem_map.mp hmem
        exact h.free p hp (hkey ▸ Finset.mem_insert_self ..)

/-! ## What is left out -/

/-- The keys that are used after the pairs of `M`. -/
def usedBy (key : β → κ) (used : Finset κ) (M : List (α × β)) : Finset κ :=
  M.foldl (fun used p => insert (key p.2) used) used

theorem mem_usedBy {k : κ} : k ∈ usedBy key used M ↔ k ∈ used ∨ ∃ p ∈ M, key p.2 = k := by
  induction M generalizing used with
  | nil => simp [usedBy]
  | cons p M ih =>
    show k ∈ usedBy key (insert (key p.2) used) M ↔ _
    rw [ih]
    simp only [Finset.mem_insert, List.mem_cons, exists_eq_or_imp, or_assoc]
    rw [eq_comm (a := k)]
    tauto

theorem firstFit_append (pre post : List α) (used : Finset κ) :
    firstFit fits key slots used (pre ++ post) = firstFit fits key slots used pre ++
      firstFit fits key slots (usedBy key used (firstFit fits key slots used pre)) post := by
  induction pre generalizing used with
  | nil => rfl
  | cons a pre ih =>
    rw [List.cons_append]
    rcases hfind : slots.find? fun b => fits a b && decide (key b ∉ used) with _ | b
    · rw [firstFit_cons_none hfind, firstFit_cons_none hfind, ih]
    · rw [firstFit_cons_some hfind, firstFit_cons_some hfind, ih]
      rfl

/-- An item gets a slot, or every slot that it fits is used before its turn. -/
theorem firstFit_blocked (pre post : List α) (a : α) (used : Finset κ) :
    (∃ b rest, firstFit fits key slots used (pre ++ a :: post) =
      firstFit fits key slots used pre ++ (a, b) :: rest) ∨
    ∀ b ∈ slots, fits a b →
      key b ∈ used ∨ ∃ p ∈ firstFit fits key slots used pre, key p.2 = key b := by
  rw [firstFit_append]
  rcases hfind : slots.find? fun b => fits a b && decide (key b ∉ usedBy key used
      (firstFit fits key slots used pre)) with _ | b
  · right
    intro b hb hfits
    exact mem_usedBy.mp (used_of_find?_eq_none hfind hb hfits)
  · left
    exact ⟨b, _, by rw [firstFit_cons_some hfind]⟩

/-! ## How many pairs a matching can have -/

theorem exists_perm_cons {l : List α} (h : a ∈ l) : ∃ t, l.Perm (a :: t) := by
  obtain ⟨s, t, rfl⟩ := List.append_of_mem h
  exact ⟨s ++ t, List.perm_middle⟩

theorem subperm_of_notMem {l l' : List α} (h : l.Subperm (a :: l')) (ha : a ∉ l) :
    l.Subperm l' := by
  classical
  have := h.erase a
  rwa [List.erase_of_not_mem ha, List.erase_cons_head] at this

omit [DecidableEq κ] in
theorem IsMatching.of_items {items' : List α} (h : IsMatching fits key slots used items M)
    (hitems : (M.map Prod.fst).Subperm items') : IsMatching fits key slots used items' M :=
  ⟨hitems, h.fits, h.slots, h.free, h.nodup⟩

/-- Without an item a matching has at most one pair less. -/
theorem IsMatching.dropItem (h : IsMatching fits key slots used (a :: items) M) :
    ∃ N, IsMatching fits key slots used items N ∧ M.length ≤ N.length + 1 := by
  by_cases ha : a ∈ M.map Prod.fst
  · obtain ⟨⟨a', b⟩, hp, rfl⟩ := List.mem_map.mp ha
    obtain ⟨N, hperm⟩ := exists_perm_cons hp
    have h' := h.perm hperm
    refine ⟨N, (h'.tail.mono (Finset.subset_insert ..)).of_items ?_, ?_⟩
    · exact (List.subperm_cons _).mp h'.items
    · rw [hperm.length_eq, List.length_cons]
  · exact ⟨M, h.of_items (subperm_of_notMem h.items ha), Nat.le_succ _⟩

/-- Without a slot a matching has at most one pair less. -/
theorem IsMatching.dropSlot (h : IsMatching fits key slots used items M) (b : β) :
    ∃ N, IsMatching fits key slots (insert (key b) used) items N ∧ M.length ≤ N.length + 1 := by
  by_cases hb : ∃ p ∈ M, key p.2 = key b
  · obtain ⟨p, hp, hkey⟩ := hb
    obtain ⟨N, hperm⟩ := exists_perm_cons hp
    refine ⟨N, hkey ▸ (h.perm hperm).tail, ?_⟩
    rw [hperm.length_eq, List.length_cons]
  · push Not at hb
    exact ⟨M, h.useUp hb, Nat.le_succ _⟩

/-- An item that fits no free slot is in no matching. -/
theorem IsMatching.of_find?_eq_none (h : IsMatching fits key slots used (a :: items) M)
    (hfind : slots.find? (fun b => fits a b && decide (key b ∉ used)) = none) :
    IsMatching fits key slots used items M := by
  refine h.of_items (subperm_of_notMem h.items ?_)
  intro ha
  obtain ⟨⟨a', b⟩, hp, rfl⟩ := List.mem_map.mp ha
  exact h.free _ hp (used_of_find?_eq_none hfind (h.slots _ hp) (h.fits _ hp))

/-- A matching has at most twice as many pairs as first fit. -/
theorem IsMatching.length_le_two_mul (h : IsMatching fits key slots used items M) :
    M.length ≤ 2 * (firstFit fits key slots used items).length := by
  induction items generalizing used M with
  | nil =>
    have := h.items.length_le
    rw [List.length_map] at this
    exact this.trans (Nat.zero_le _)
  | cons a items ih =>
    rcases hfind : slots.find? fun b => fits a b && decide (key b ∉ used) with _ | b
    · rw [firstFit_cons_none hfind]
      exact ih (h.of_find?_eq_none hfind)
    · rw [firstFit_cons_some hfind, List.length_cons]
      obtain ⟨N, hN, hlength⟩ := h.dropItem
      obtain ⟨N', hN', hlength'⟩ := hN.dropSlot b
      have := ih hN'
      omega

/-! ## Slots that can be exchanged -/

section Exchange

variable {before : β → β → Prop}

/-- The slot that the first item takes stands before every other one that it could take. -/
theorem before_of_find? (hslots : slots.Pairwise before)
    (hfind : slots.find? (fun b => fits a b && decide (key b ∉ used)) = some b) {t : β}
    (ht : t ∈ slots) (hfits : fits a t) (hfree : key t ∉ insert (key b) used) : before b t := by
  obtain ⟨-, s, r, rfl, hs⟩ := List.find?_eq_some_iff_append.mp hfind
  simp only [Finset.mem_insert, not_or] at hfree
  rcases List.mem_append.mp ht with ht | ht
  · have := hs t ht
    simp [hfits, hfree.2] at this
  · rcases List.mem_cons.mp ht with rfl | ht
    · exact absurd rfl hfree.1
    · exact (List.pairwise_cons.mp (List.pairwise_append.mp hslots).2.1).1 t ht

/-- If the first item takes its first slot, the rest still has a matching with one pair less. -/
theorem IsMatching.exchange (hslots : slots.Pairwise before) (hkeys : (slots.map key).Nodup)
    (hex : ∀ c ∈ items, ∀ s ∈ slots, ∀ t ∈ slots, before s t → fits a s → fits a t →
      fits c s → fits c t)
    (h : IsMatching fits key slots used (a :: items) M)
    (hfind : slots.find? (fun b => fits a b && decide (key b ∉ used)) = some b) :
    ∃ N, IsMatching fits key slots (insert (key b) used) items N ∧ M.length ≤ N.length + 1 := by
  obtain ⟨hslot, hfits, hfree⟩ := of_find?_eq_some hfind
  by_cases hb : ∃ p ∈ M, key p.2 = key b
  · -- `c` has the slot of `a`: it takes the slot of `a` instead, if `a` has one
    obtain ⟨⟨c, b'⟩, hp, hkey⟩ := hb
    obtain rfl : b' = b := List.inj_on_of_nodup_map hkeys (h.slots _ hp) hslot hkey
    obtain ⟨N, hperm⟩ := exists_perm_cons hp
    have hcons := h.perm hperm
    have htail := hcons.tail
    have hitems : (c :: N.map Prod.fst).Subperm (a :: items) := hcons.items
    have hlength : M.length = N.length + 1 := by rw [hperm.length_eq, List.length_cons]
    by_cases hca : c = a
    · rw [hca] at hitems
      exact ⟨N, htail.of_items ((List.subperm_cons a).mp hitems), hlength.le⟩
    · by_cases ha : a ∈ N.map Prod.fst
      · obtain ⟨⟨a', t⟩, hq, rfl⟩ := List.mem_map.mp ha
        obtain ⟨N', hperm'⟩ := exists_perm_cons hq
        have hcons' := htail.perm hperm'
        have hitems' : (c :: N'.map Prod.fst).Subperm items := by
          refine (List.subperm_cons a').mp (List.Subperm.trans ?_ hitems)
          have : (N.map Prod.fst).Perm (a' :: N'.map Prod.fst) := hperm'.map Prod.fst
          exact ((this.cons c).trans (List.Perm.swap ..)).symm.subperm
        have hmem : c ∈ items := hitems'.subset (List.mem_cons_self ..)
        have ht := htail.slots _ hq
        have hfitst := htail.fits _ hq
        have hfitsc : fits c t := hex c hmem b' hslot t ht
          (before_of_find? hslots hfind ht hfitst (htail.free _ hq)) hfits hfitst
          (hcons.fits _ (List.mem_cons_self ..))
        refine ⟨(c, t) :: N', ⟨hitems', ?_, ?_, ?_, hcons'.nodup⟩, ?_⟩
        · exact List.forall_mem_cons.mpr ⟨hfitsc, (List.forall_mem_cons.mp hcons'.fits).2⟩
        · exact List.forall_mem_cons.mpr (List.forall_mem_cons.mp hcons'.slots)
        · exact List.forall_mem_cons.mpr (List.forall_mem_cons.mp hcons'.free)
        · rw [hlength, hperm'.length_eq, List.length_cons, List.length_cons]
      · refine ⟨N, htail.of_items ?_, hlength.le⟩
        refine (List.sublist_cons_self c _).subperm.trans (subperm_of_notMem hitems ?_)
        simp only [List.mem_cons, not_or]
        exact ⟨Ne.symm hca, ha⟩
  · push Not at hb
    exact (h.useUp hb).dropItem

/-- Where an item could take a later slot instead of an earlier one whenever another item could
    have taken either, no matching has more pairs than first fit. -/
theorem IsMatching.length_le (hslots : slots.Pairwise before) (hkeys : (slots.map key).Nodup)
    (hex : ∀ a ∈ items, ∀ c ∈ items, ∀ s ∈ slots, ∀ t ∈ slots, before s t → fits a s →
      fits a t → fits c s → fits c t)
    (h : IsMatching fits key slots used items M) :
    M.length ≤ (firstFit fits key slots used items).length := by
  induction items generalizing used M with
  | nil =>
    have := h.items.length_le
    rw [List.length_map] at this
    exact this.trans (Nat.zero_le _)
  | cons a items ih =>
    have hex' : ∀ a ∈ items, ∀ c ∈ items, ∀ s ∈ slots, ∀ t ∈ slots, before s t → fits a s →
        fits a t → fits c s → fits c t := fun a ha c hc =>
      hex a (List.mem_cons_of_mem _ ha) c (List.mem_cons_of_mem _ hc)
    rcases hfind : slots.find? fun b => fits a b && decide (key b ∉ used) with _ | b
    · rw [firstFit_cons_none hfind]
      exact ih hex' (h.of_find?_eq_none hfind)
    · rw [firstFit_cons_some hfind, List.length_cons]
      obtain ⟨N, hN, hlength⟩ := h.exchange hslots hkeys
        (fun c hc => hex a (List.mem_cons_self ..) c (List.mem_cons_of_mem _ hc)) hfind
      have := ih hex' hN
      omega

end Exchange

end MevScout.FirstFit
