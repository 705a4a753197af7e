import Mathlib

/-!
# First elements

The first element of every key of a list stays, as in a filter that inserts the keys into a
set.

Results:
* `length_firsts_eq_iff`: no element is dropped exactly when the keys are distinct;
* `firsts_eq_self`: then the list stays as it is;
* `argmax_eq_some_iff_append`: the first element of the greatest value, by what stands before
  and after it;
* `foldl_firstWins`: what merged tables hold for a key when the first one wins;
* `findSome?_eq_of_agree`, `findSome?_filter_congr`: when the order and the selection of the
  tables do not matter.
-/

namespace MevScout.Firsts

variable {α κ : Type*} [DecidableEq κ] (key : α → κ)

/-- The elements of `l` whose key is neither in `seen` nor the key of an earlier element. -/
def firsts (seen : List κ) : List α → List α
  | [] => []
  | a :: l => if key a ∈ seen then firsts seen l else a :: firsts (key a :: seen) l

variable {key} {seen : List κ} {l : List α}

theorem length_firsts_le (seen : List κ) (l : List α) : (firsts key seen l).length ≤ l.length := by
  induction l generalizing seen with
  | nil => exact le_rfl
  | cons a l ih =>
    rw [firsts]
    split_ifs
    · exact (ih seen).trans (by simp)
    · exact Nat.succ_le_succ (ih _)

theorem firsts_eq_self (hnodup : (l.map key).Nodup) (hseen : ∀ a ∈ l, key a ∉ seen) :
    firsts key seen l = l := by
  induction l generalizing seen with
  | nil => rfl
  | cons a l ih =>
    obtain ⟨hnot, hnodup⟩ := List.nodup_cons.mp hnodup
    rw [firsts, if_neg (hseen a (List.mem_cons_self ..)), ih hnodup]
    intro b hb hmem
    rcases List.mem_cons.mp hmem with hkey | hmem
    · exact hnot (hkey ▸ List.mem_map_of_mem hb)
    · exact hseen b (List.mem_cons_of_mem _ hb) hmem

theorem length_firsts_eq (h : (firsts key seen l).length = l.length) :
    (l.map key).Nodup ∧ ∀ a ∈ l, key a ∉ seen := by
  induction l generalizing seen with
  | nil => simp
  | cons a l ih =>
    rw [firsts] at h
    split_ifs at h with ha
    · have : (firsts key seen l).length ≤ l.length := length_firsts_le seen l
      rw [List.length_cons] at h
      omega
    · obtain ⟨hnodup, hseen⟩ := ih (Nat.succ.inj h)
      rw [List.map_cons, List.nodup_cons]
      refine ⟨⟨fun hmem => ?_, hnodup⟩, fun b hb => ?_⟩
      · obtain ⟨b, hb, hkey⟩ := List.mem_map.mp hmem
        exact hseen b hb (hkey ▸ List.mem_cons_self ..)
      · rcases List.mem_cons.mp hb with rfl | hb
        · exact ha
        · exact fun hmem => hseen b hb (List.mem_cons_of_mem _ hmem)

theorem length_firsts_eq_iff : (firsts key [] l).length = l.length ↔ (l.map key).Nodup :=
  ⟨fun h => (length_firsts_eq h).1, fun h => by rw [firsts_eq_self h (by simp)]⟩

/-! ## The first element of the greatest value -/

section Greatest

variable {β : Type*} [LinearOrder β] {f : α → β} {m : α}

theorem argmax_append_of_lt {pre post : List α} (hpre : ∀ a ∈ pre, f a < f m)
    (hpost : ∀ a ∈ post, f a ≤ f m) : (pre ++ m :: post).argmax f = some m := by
  induction pre with
  | nil =>
    rw [List.nil_append, List.argmax_cons]
    cases hc : post.argmax f with
    | none => rfl
    | some c =>
      have : f c ≤ f m := hpost c (List.argmax_mem hc)
      exact if_neg this.not_gt
  | cons a pre ih =>
    rw [List.cons_append, List.argmax_cons, ih fun b hb => hpre b (List.mem_cons_of_mem _ hb)]
    exact if_pos (hpre a List.mem_cons_self)

theorem exists_append_of_argmax (h : l.argmax f = some m) :
    ∃ pre post, l = pre ++ m :: post ∧ (∀ a ∈ pre, f a < f m) ∧ ∀ a ∈ post, f a ≤ f m := by
  induction l generalizing m with
  | nil => cases h
  | cons a l ih =>
    rw [List.argmax_cons] at h
    cases hc : l.argmax f with
    | none =>
      obtain rfl : l = [] := List.argmax_eq_none.mp hc
      obtain rfl : a = m := Option.some.inj h
      exact ⟨[], [], rfl, by simp, by simp⟩
    | some c =>
      rw [hc] at h
      change (if f a < f c then some c else some a) = some m at h
      split_ifs at h with hlt
      · obtain rfl : c = m := Option.some.inj h
        obtain ⟨pre, post, rfl, hpre, hpost⟩ := ih hc
        refine ⟨a :: pre, post, rfl, fun b hb => ?_, hpost⟩
        rcases List.mem_cons.mp hb with rfl | hb
        · exact hlt
        · exact hpre b hb
      · obtain rfl : a = m := Option.some.inj h
        refine ⟨[], l, rfl, by simp, fun b hb => ?_⟩
        exact (List.le_of_mem_argmax hb hc).trans (not_lt.mp hlt)

theorem argmax_eq_some_iff_append : l.argmax f = some m ↔
    ∃ pre post, l = pre ++ m :: post ∧ (∀ a ∈ pre, f a < f m) ∧ ∀ a ∈ post, f a ≤ f m := by
  constructor
  · exact exists_append_of_argmax
  · rintro ⟨pre, post, rfl, hpre, hpost⟩
    exact argmax_append_of_lt hpre hpost

end Greatest

/-! ## Tables merged first come, first served -/

section Merge

variable {v : Type*}

omit [DecidableEq κ]

/-- The entries of both tables, those of the first one where both have a key. -/
def firstWins (m m' : κ → Option v) : κ → Option v := fun k => (m k).or (m' k)

/-- Merging tables one after another keeps the entry of the first one that has the key. -/
theorem foldl_firstWins (m : κ → Option v) (parts : List (κ → Option v)) (k : κ) :
    parts.foldl firstWins m k = (m k).or (parts.findSome? (· k)) := by
  induction parts generalizing m with
  | nil => simp
  | cons part parts ih =>
    rw [List.foldl_cons, ih, firstWins, Option.or_assoc, List.findSome?_cons]
    cases part k <;> rfl

/-- Where the tables that have a key agree on it, their order does not matter. -/
theorem findSome?_eq_of_agree {parts : List α} {f : α → Option v} {a : α} {x : v} (ha : a ∈ parts)
    (hx : f a = some x) (hagree : ∀ b ∈ parts, f b = none ∨ f b = some x) :
    parts.findSome? f = some x := by
  cases hfound : parts.findSome? f with
  | none =>
    rw [List.findSome?_eq_none_iff.mp hfound a ha] at hx
    cases hx
  | some y =>
    obtain ⟨b, hb, hy⟩ := List.exists_of_findSome?_eq_some hfound
    rcases hagree b hb with hnone | hsome
    · rw [hnone] at hy
      cases hy
    · rw [← hy, hsome]

/-- Where the elements that answer pass both filters or none, both leave the same first answer. -/
theorem findSome?_filter_congr {l : List α} {f : α → Option v} {p q : α → Bool}
    (h : ∀ x ∈ l, f x ≠ none → p x = q x) :
    (l.filter p).findSome? f = (l.filter q).findSome? f := by
  induction l with
  | nil => rfl
  | cons x l ih =>
    have ih := ih fun y hy => h y (List.mem_cons_of_mem _ hy)
    have hdrop (p : α → Bool) (hx : f x = none) :
        ((x :: l).filter p).findSome? f = (l.filter p).findSome? f := by
      by_cases hp : p x
      · rw [List.filter_cons_of_pos hp, List.findSome?_cons_of_isNone (by simp [hx])]
      · rw [List.filter_cons_of_neg hp]
    by_cases hx : f x = none
    · rw [hdrop p hx, hdrop q hx, ih]
    · have hpq := h x (List.mem_cons_self ..) hx
      by_cases hp : p x
      · rw [List.filter_cons_of_pos hp, List.filter_cons_of_pos (hpq ▸ hp), List.findSome?_cons,
          List.findSome?_cons, ih]
      · rw [List.filter_cons_of_neg hp, List.filter_cons_of_neg (hpq ▸ hp), ih]

theorem findSome?_ite (l : List α) (P : α → Prop) [DecidablePred P] (x : Option v) :
    (l.findSome? fun a => if P a then x else none) = if ∃ a ∈ l, P a then x else none := by
  cases x with
  | none => simp
  | some y =>
    by_cases h : ∃ a ∈ l, P a
    · obtain ⟨a, ha, hP⟩ := h
      rw [if_pos ⟨a, ha, hP⟩]
      refine findSome?_eq_of_agree ha (if_pos hP) fun b _ => ?_
      by_cases hb : P b
      · exact .inr (if_pos hb)
      · exact .inl (if_neg hb)
    · rw [if_neg h, List.findSome?_eq_none_iff]
      exact fun a ha => if_neg fun hP => h ⟨a, ha, hP⟩

end Merge

end MevScout.Firsts
