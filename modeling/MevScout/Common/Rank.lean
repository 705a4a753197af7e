import Mathlib

/-!
# Ranks and recent elements

The element of rank `i` of a list is the one at place `i` when the list is sorted. The recent
elements of a stream are a suffix of it; a sorted copy of them has lost the order of arrival.

Results:
* `isRank_getElem`, `IsRank.unique`: the rank in a list, by counts and without sorting it;
* `drop_insertionSort_perm_iff`: dropping the least elements is dropping the oldest ones exactly
  when no old element is above a recent one;
* `Dominates.drop`: dropping the least elements of one list and the oldest of another keeps the
  first list above the second;
* `Dominates.le_of_isRank`: then no element of the first list is below the one of the same rank.
-/

namespace MevScout.Rank

variable {α : Type*} [LinearOrder α] {l m : List α} {i k : ℕ} {v w : α}

/-! ## Recent elements -/

/-- The `n` last elements, or all of them when there are fewer. -/
def latest {β : Type*} (n : ℕ) (l : List β) : List β := l.drop (l.length - n)

theorem latest_append {β : Type*} (n : ℕ) (l m : List β) :
    latest (n + m.length) (l ++ m) = latest n l ++ m := by
  unfold latest
  rw [List.length_append, Nat.add_sub_add_right, List.drop_append_of_le_length (Nat.sub_le ..)]

theorem latest_latest_append {β : Type*} (n : ℕ) (l m : List β) :
    latest n (latest n l ++ m) = latest n (l ++ m) := by
  unfold latest
  rw [← List.drop_append_of_le_length (Nat.sub_le ..), List.drop_drop, List.length_drop,
    List.length_append]
  congr 1
  omega

theorem drop_latest {β : Type*} {n k : ℕ} {l : List β} (hk : k ≤ n) (hn : n ≤ l.length) :
    (latest n l).drop k = latest (n - k) l := by
  unfold latest
  rw [List.drop_drop]
  congr 1
  omega

/-! ## Ranks -/

/-- `v` is the element of rank `i`: at most `i` elements are below it, and more than `i` are not
    above it. -/
def IsRank (l : List α) (i : ℕ) (v : α) : Prop :=
  l.countP (· < v) ≤ i ∧ i < l.countP (· ≤ v)

theorem IsRank.of_perm (h : IsRank l i v) (hperm : l.Perm m) : IsRank m i v := by
  unfold IsRank
  rw [← hperm.countP_eq, ← hperm.countP_eq]
  exact h

theorem IsRank.unique (hv : IsRank l i v) (hw : IsRank l i w) : v = w := by
  have hle {a b : α} (ha : IsRank l i a) (hb : IsRank l i b) : a ≤ b := by
    by_contra hlt
    have hmono : l.countP (· ≤ b) ≤ l.countP (· < a) := by
      apply List.countP_mono_left
      intro x _ hx
      simp only [decide_eq_true_eq] at hx ⊢
      exact lt_of_le_of_lt hx (not_le.mp hlt)
    have hlow := ha.1
    have hhigh := hb.2
    omega
  exact le_antisymm (hle hv hw) (hle hw hv)

theorem isRank_getElem (hsorted : l.Pairwise (· ≤ ·)) (hi : i < l.length) : IsRank l i l[i] := by
  have hcut : l.take i ++ l[i] :: l.drop (i + 1) = l := by
    rw [List.getElem_cons_drop, List.take_append_drop]
  generalize l[i] = v at hcut
  rw [← hcut] at hsorted
  obtain ⟨-, habove, hbelow⟩ := List.pairwise_append.mp hsorted
  have hlen : (l.take i).length = i := List.length_take_of_le (by omega)
  rw [← hcut]
  constructor
  · have hzero : (v :: l.drop (i + 1)).countP (· < v) = 0 := by
      rw [List.countP_eq_zero]
      intro x hx
      rcases List.mem_cons.mp hx with rfl | hx
      · simp
      · simpa using (List.pairwise_cons.mp habove).1 x hx
    rw [List.countP_append, hzero, Nat.add_zero]
    exact List.countP_le_length.trans hlen.le
  · have hall : (l.take i).countP (· ≤ v) = (l.take i).length := by
      rw [List.countP_eq_length]
      intro x hx
      simpa using hbelow x hx v (List.mem_cons_self ..)
    rw [List.countP_append, hall, hlen, List.countP_cons_of_pos (by simp)]
    omega

/-! ## The oldest and the least -/

theorem insertionSort_congr (h : l.Perm m) :
    l.insertionSort (· ≤ ·) = m.insertionSort (· ≤ ·) := by
  apply List.Perm.eq_of_pairwise' (r := (· ≤ ·)) (List.pairwise_insertionSort ..)
    (List.pairwise_insertionSort ..)
  exact (List.perm_insertionSort _ l).trans (h.trans (List.perm_insertionSort _ m).symm)

/-- Two lists are sorted one by one where no element of the first is above one of the second. -/
theorem insertionSort_append (h : ∀ a ∈ l, ∀ b ∈ m, a ≤ b) :
    (l ++ m).insertionSort (· ≤ ·) =
      l.insertionSort (· ≤ ·) ++ m.insertionSort (· ≤ ·) := by
  apply List.Perm.eq_of_pairwise' (r := (· ≤ ·)) (List.pairwise_insertionSort ..)
  · rw [List.pairwise_append]
    refine ⟨List.pairwise_insertionSort .., List.pairwise_insertionSort .., ?_⟩
    intro a ha b hb
    exact h a ((List.mem_insertionSort _).mp ha) b ((List.mem_insertionSort _).mp hb)
  · exact (List.perm_insertionSort _ _).trans
      ((List.perm_insertionSort _ l).append (List.perm_insertionSort _ m)).symm

/-- Dropping the `k` least elements drops the `k` oldest ones exactly when no old element is above
    a recent one. -/
theorem drop_insertionSort_perm_iff :
    ((l.insertionSort (· ≤ ·)).drop k).Perm (l.drop k) ↔
      ∀ a ∈ l.take k, ∀ b ∈ l.drop k, a ≤ b := by
  have hsort := List.perm_insertionSort (· ≤ ·) l
  constructor
  · intro hdrop a ha b hb
    have htake : ((l.insertionSort (· ≤ ·)).take k).Perm (l.take k) := by
      rw [← List.perm_append_right_iff (l.drop k), List.take_append_drop]
      refine (hdrop.symm.append_left _).trans ?_
      rw [List.take_append_drop]
      exact hsort
    have hsorted : (l.insertionSort (· ≤ ·)).Pairwise (· ≤ ·) := List.pairwise_insertionSort ..
    rw [← List.take_append_drop k (l.insertionSort (· ≤ ·))] at hsorted
    exact (List.pairwise_append.mp hsorted).2.2 a (htake.mem_iff.mpr ha) b (hdrop.mem_iff.mpr hb)
  · intro h
    have hsplit := insertionSort_append h
    rw [List.take_append_drop] at hsplit
    have hdrop : (l.insertionSort (· ≤ ·)).drop k = (l.drop k).insertionSort (· ≤ ·) := by
      rw [hsplit]
      rcases Nat.le_total k l.length with hk | hk
      · apply List.drop_left'
        rw [List.length_insertionSort, List.length_take_of_le hk]
      · have hnil : l.drop k = [] := List.drop_eq_nil_of_le hk
        rw [hnil, List.insertionSort_nil, List.append_nil]
        apply List.drop_eq_nil_of_le
        rw [List.length_insertionSort, List.length_take]
        omega
    rw [hdrop]
    exact List.perm_insertionSort _ _

/-! ## Domination -/

/-- The lists are of the same length, and `l` has as many elements from any bound on as `m`. -/
structure Dominates (l m : List α) : Prop where
  length : l.length = m.length
  count : ∀ t, m.countP (t ≤ ·) ≤ l.countP (t ≤ ·)

theorem Dominates.refl (l : List α) : Dominates l l := ⟨rfl, fun _ => le_rfl⟩

theorem Dominates.of_perm {l' : List α} (h : Dominates l m) (hperm : l.Perm l') :
    Dominates l' m :=
  ⟨hperm.length_eq ▸ h.length, fun t => hperm.countP_eq (t ≤ ·) ▸ h.count t⟩

theorem Dominates.append (h : Dominates l m) (l' : List α) : Dominates (l ++ l') (m ++ l') := by
  constructor
  · rw [List.length_append, List.length_append, h.length]
  · intro t
    rw [List.countP_append, List.countP_append]
    exact Nat.add_le_add_right (h.count t) _

/-- The count is split at `k`: either all that is left counts, or nothing that is dropped does. -/
theorem countP_drop_of_sorted (hsorted : l.Pairwise (· ≤ ·)) (t : α) :
    (l.drop k).countP (t ≤ ·) = (l.drop k).length ∨
      (l.drop k).countP (t ≤ ·) = l.countP (t ≤ ·) := by
  by_cases hall : ∀ x ∈ l.drop k, t ≤ x
  · left
    rw [List.countP_eq_length]
    simpa using hall
  · right
    push Not at hall
    obtain ⟨x, hx, hlt⟩ := hall
    rw [← List.take_append_drop k l] at hsorted
    have hbelow := (List.pairwise_append.mp hsorted).2.2
    have hzero : (l.take k).countP (t ≤ ·) = 0 := by
      rw [List.countP_eq_zero]
      intro y hy
      simpa using lt_of_le_of_lt (hbelow y hy x hx) hlt
    conv_rhs => rw [← List.take_append_drop k l, List.countP_append, hzero, Nat.zero_add]

/-- Dropping the least elements of `l` and the oldest of `m` keeps `l` above `m`. -/
theorem Dominates.drop (h : Dominates l m) (hsorted : l.Pairwise (· ≤ ·)) (k : ℕ) :
    Dominates (l.drop k) (m.drop k) := by
  have hlen : (l.drop k).length = (m.drop k).length := by
    rw [List.length_drop, List.length_drop, h.length]
  refine ⟨hlen, fun t => ?_⟩
  rcases countP_drop_of_sorted (k := k) hsorted t with hall | hnone
  · rw [hall, hlen]
    exact List.countP_le_length
  · rw [hnone]
    exact ((List.drop_sublist k m).countP_le).trans (h.count t)

/-- No element of the list above is below the element of the same rank of the other. -/
theorem Dominates.le_of_isRank (h : Dominates l m) (hv : IsRank l i v) (hw : IsRank m i w) :
    w ≤ v := by
  by_contra hlt
  have hmono : l.countP (· ≤ v) ≤ l.countP (· < w) := by
    apply List.countP_mono_left
    intro x _ hx
    simp only [decide_eq_true_eq] at hx ⊢
    exact lt_of_le_of_lt hx (not_le.mp hlt)
  have hsplit (l : List α) : l.length = l.countP (w ≤ ·) + l.countP (· < w) := by
    rw [List.length_eq_countP_add_countP (w ≤ ·)]
    congr 1
    apply List.countP_congr
    intro x _
    simp
  have hl := hsplit l
  have hm := hsplit m
  have hcount := h.count w
  have hlength := h.length
  have hhigh := hv.2
  have hlow := hw.1
  omega

end MevScout.Rank
