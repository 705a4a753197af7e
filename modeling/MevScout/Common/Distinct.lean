import Mathlib

/-!
# Lists without duplicates, and texts that tell their parts apart

When the keys of a list are distinct, by way of other keys, of tags and of parts, and what can be
read off a text that is put together from fields.

Results:
* `nodup_map_congr`: two keys that identify the same elements;
* `nodup_iff_forall_filter`: a list is checked tag by tag;
* `nodup_flatMap_of_tag`, `filter_flatMap_of_tag`: a list is put together from parts with
  different tags;
* `append_sep_inj`: a field ends at its first separator;
* `append_fixed_inj`: a field of fixed length ends there;
* `mod_eq_of_digits`: the digits of a number of bounded length determine it.
-/

namespace MevScout.Distinct

variable {α β γ κ : Type*}

/-! ## Keys -/

/-- Keys that identify the same elements of a list are distinct together. -/
theorem nodup_map_congr {f : α → β} {g : α → γ} {l : List α}
    (h : ∀ a ∈ l, ∀ b ∈ l, (f a = f b ↔ g a = g b)) : (l.map f).Nodup ↔ (l.map g).Nodup := by
  unfold List.Nodup
  rw [List.pairwise_map, List.pairwise_map]
  exact List.Pairwise.iff_of_mem fun ha hb => not_congr (h _ ha _ hb)

/-- A key that all elements of a list share. -/
theorem nodup_map_of_const {f : α → β} {l : List α} (h : ∀ a ∈ l, ∀ b ∈ l, f a = f b) :
    (l.map f).Nodup ↔ l.length ≤ 1 := by
  have hunit := nodup_map_congr (l := l) (f := f) (g := fun _ => ()) fun a ha b hb =>
    iff_of_true (h a ha b hb) rfl
  rw [hunit, List.map_const', List.nodup_replicate]

/-- A key that identifies less than the distinct keys of a longer list is distinct. -/
theorem nodup_map_of_sublist {f : α → β} {g : α → γ} {l l' : List α} (hsub : l.Sublist l')
    (hg : (l'.map g).Nodup) (h : ∀ a ∈ l, ∀ b ∈ l, f a = f b → g a = g b) :
    (l.map f).Nodup := by
  have hl : (l.map g).Nodup := (hsub.map g).nodup hg
  exact List.Nodup.map_on
    (fun a ha b hb hf => List.inj_on_of_nodup_map hl ha hb (h a ha b hb hf))
    (List.Nodup.of_map g hl)

/-- Equal elements have equal tags, so that a list is checked tag by tag. -/
theorem nodup_iff_forall_filter [DecidableEq κ] (tag : α → κ) {l : List α} :
    l.Nodup ↔ ∀ k, (l.filter (tag · = k)).Nodup := by
  classical
  refine ⟨fun h k => h.filter _, fun h => List.nodup_iff_count_le_one.mpr fun a => ?_⟩
  have hcount : (l.filter (tag · = tag a)).count a ≤ 1 := List.nodup_iff_count_le_one.mp (h _) a
  rwa [List.count_filter (by simp)] at hcount

/-- A list is checked by what meets `p` and what does not. -/
theorem nodup_iff_filter (p : α → Bool) {l : List α} :
    l.Nodup ↔ (l.filter p).Nodup ∧ (l.filter fun a => !p a).Nodup := by
  rw [nodup_iff_forall_filter p, Bool.forall_bool, and_comm]
  simp

/-- Elements that keep the key of what they are made from have no more keys. -/
theorem map_filterMap_sublist {f : α → Option β} {key : β → κ} {g : α → κ}
    (h : ∀ a b, f a = some b → key b = g a) (l : List α) :
    ((l.filterMap f).map key).Sublist (l.map g) := by
  induction l with
  | nil => exact List.Sublist.refl []
  | cons a l ih =>
    cases hf : f a with
    | none =>
      rw [List.filterMap_cons_none hf]
      exact ih.cons (g a)
    | some b =>
      rw [List.filterMap_cons_some hf, List.map_cons, List.map_cons, h a b hf]
      exact ih.cons_cons (g a)

/-- Lists that are put together from parts with keys of different tags. -/
theorem nodup_flatMap_of_tag (tag : β → κ) {f : α → List β} {g : α → κ} {l : List α}
    (htag : ∀ a ∈ l, ∀ b ∈ f a, tag b = g a) (hg : (l.map g).Nodup)
    (hf : ∀ a ∈ l, (f a).Nodup) : (l.flatMap f).Nodup := by
  refine List.nodup_flatMap.mpr ⟨hf, ?_⟩
  refine (List.pairwise_map.mp hg).imp_of_mem fun ha ha' hne => ?_
  exact fun b hb hb' => hne ((htag _ ha b hb).symm.trans (htag _ ha' b hb'))

/-- Of such a list, the elements with one tag are those of one part. -/
theorem filter_flatMap_of_tag [DecidableEq κ] (tag : β → κ) {f : α → List β} {g : α → κ}
    {l : List α} (htag : ∀ a ∈ l, ∀ b ∈ f a, tag b = g a) (hg : (l.map g).Nodup) {a : α}
    (ha : a ∈ l) : (l.flatMap f).filter (tag · = g a) = f a := by
  induction l with
  | nil => cases ha
  | cons c l ih =>
    obtain ⟨hnot, hg⟩ := List.nodup_cons.mp hg
    rw [List.flatMap_cons, List.filter_append]
    rcases List.mem_cons.mp ha with rfl | hmem
    · have hrest : (l.flatMap f).filter (tag · = g a) = [] := by
        refine List.filter_eq_nil_iff.mpr fun b hb htagb => ?_
        obtain ⟨c, hc, hb⟩ := List.mem_flatMap.mp hb
        have hgc : g c = g a :=
          (htag c (List.mem_cons_of_mem _ hc) b hb).symm.trans (of_decide_eq_true htagb)
        exact hnot (hgc ▸ List.mem_map_of_mem hc)
      rw [hrest, List.append_nil, List.filter_eq_self]
      exact fun b hb => decide_eq_true (htag a (List.mem_cons_self ..) b hb)
    · have hfirst : (f c).filter (tag · = g a) = [] := by
        refine List.filter_eq_nil_iff.mpr fun b hb htagb => ?_
        have hgc : g c = g a :=
          (htag c (List.mem_cons_self ..) b hb).symm.trans (of_decide_eq_true htagb)
        exact hnot (hgc ▸ List.mem_map_of_mem hmem)
      rw [hfirst, List.nil_append]
      exact ih (fun a ha => htag a (List.mem_cons_of_mem _ ha)) hg hmem

/-- As many different keys as elements. -/
theorem nodup_iff_card [DecidableEq β] {l : List β} : l.toFinset.card = l.length ↔ l.Nodup :=
  Multiset.toFinset_card_eq_card_iff_nodup (m := (l : Multiset β))

/-! ## Texts -/

/-- A field without the separator ends at the first separator. -/
theorem append_sep_inj {l l' r r' : List α} {sep : α} (hl : sep ∉ l) (hl' : sep ∉ l')
    (h : l ++ sep :: r = l' ++ sep :: r') : l = l' ∧ r = r' := by
  induction l generalizing l' with
  | nil =>
    cases l' with
    | nil => exact ⟨rfl, (List.cons.inj h).2⟩
    | cons b l' => exact absurd (List.cons.inj h).1 (List.ne_of_not_mem_cons hl')
  | cons a l ih =>
    cases l' with
    | nil => exact absurd (List.cons.inj h).1.symm (List.ne_of_not_mem_cons hl)
    | cons b l' =>
      obtain ⟨rfl, htail⟩ := List.cons.inj h
      obtain ⟨rfl, hr⟩ := ih (List.not_mem_of_not_mem_cons hl)
        (List.not_mem_of_not_mem_cons hl') htail
      exact ⟨rfl, hr⟩

/-- The same for texts. -/
theorem append_field_inj {s s' t t' : String} {sep : Char} (hs : sep ∉ s.toList)
    (hs' : sep ∉ s'.toList)
    (h : s ++ (String.singleton sep ++ t) = s' ++ (String.singleton sep ++ t')) :
    s = s' ∧ t = t' := by
  have hlist := congrArg String.toList h
  simp only [String.toList_append, String.toList_singleton, List.singleton_append] at hlist
  obtain ⟨hl, hr⟩ := append_sep_inj hs hs' hlist
  exact ⟨String.toList_inj.mp hl, String.toList_inj.mp hr⟩

/-- A field of fixed length ends there. -/
theorem append_fixed_inj {s s' t t' : String} (hlen : s.toList.length = s'.toList.length)
    (h : s ++ t = s' ++ t') : s = s' ∧ t = t' := by
  have hlist := congrArg String.toList h
  rw [String.toList_append, String.toList_append] at hlist
  obtain ⟨hl, hr⟩ := List.append_inj hlist hlen
  exact ⟨String.toList_inj.mp hl, String.toList_inj.mp hr⟩

/-- The digits of a number determine it up to their length. -/
theorem mod_eq_of_digits {base width n m : ℕ}
    (h : ∀ i < width, n / base ^ i % base = m / base ^ i % base) :
    n % base ^ width = m % base ^ width := by
  induction width with
  | zero => simp [Nat.mod_one]
  | succ width ih =>
    rw [Nat.mod_pow_succ, Nat.mod_pow_succ, h width (Nat.lt_succ_self width),
      ih fun i hi => h i (hi.trans (Nat.lt_succ_self width))]

/-- The digits of a numeral. -/
theorem isDigit_of_mem_repr {n : ℕ} {c : Char} (h : c ∈ n.repr.toList) : c.isDigit :=
  Nat.isDigit_of_mem_toDigits (by decide) (by decide) (Nat.toList_repr ▸ h)

/-- An integer is written with digits and a sign. -/
theorem isDigit_or_of_mem_repr {x : ℤ} {c : Char} (h : c ∈ x.repr.toList) :
    c.isDigit ∨ c = '-' := by
  rw [Int.repr_eq_if] at h
  split_ifs at h
  · exact .inl (isDigit_of_mem_repr h)
  · rw [String.toList_append, List.mem_append] at h
    rcases h with h | h
    · exact .inr (by simpa using h)
    · exact .inl (isDigit_of_mem_repr h)

end MevScout.Distinct
