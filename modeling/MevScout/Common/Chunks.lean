import Mathlib

/-!
# Chunks of a list

A list cut from its front into pieces of a fixed length, the last of which may be shorter.

Results:
* `chunksOf_flatten`: the pieces are the list again;
* `chunksOf_append_of_length_eq`: cutting off one piece;
* `eq_of_mem_chunksOf`: an element of a list without duplicates lies in one piece;
* `toChunks_eq`: `List.toChunks` cuts the same pieces.
-/

namespace MevScout

variable {α : Type*}

/-- The pieces of `l`, of `n` elements each, and of one where `n` is 0. -/
def chunksOf (n : ℕ) : List α → List (List α)
  | [] => []
  | a :: l => (a :: l.take (n - 1)) :: chunksOf n (l.drop (n - 1))
termination_by l => l.length
decreasing_by
  rw [List.length_drop, List.length_cons]
  omega

variable {n : ℕ} {l : List α}

@[simp]
theorem chunksOf_nil (n : ℕ) : chunksOf n ([] : List α) = [] := by rw [chunksOf]

theorem chunksOf_of_ne_nil (hn : 0 < n) (hl : l ≠ []) :
    chunksOf n l = l.take n :: chunksOf n (l.drop n) := by
  obtain ⟨a, t, rfl⟩ := List.exists_cons_of_ne_nil hl
  obtain ⟨m, rfl⟩ : ∃ m, n = m + 1 := ⟨n - 1, by omega⟩
  rw [chunksOf, List.take_succ_cons, List.drop_succ_cons, Nat.add_sub_cancel]

theorem chunksOf_of_length_le (hl : l ≠ []) (hlen : l.length ≤ n) : chunksOf n l = [l] := by
  have hn : 0 < n := (List.length_pos_of_ne_nil hl).trans_le hlen
  rw [chunksOf_of_ne_nil hn hl, List.take_of_length_le hlen, List.drop_of_length_le hlen,
    chunksOf_nil]

theorem chunksOf_append_of_length_eq {p : List α} (hn : 0 < n) (hp : p.length = n) (l : List α) :
    chunksOf n (p ++ l) = p :: chunksOf n l := by
  have hne : p ++ l ≠ [] := by
    intro h
    rw [(List.append_eq_nil_iff.mp h).1, List.length_nil] at hp
    omega
  rw [chunksOf_of_ne_nil hn hne, ← hp, List.take_left, List.drop_left]

theorem chunksOf_flatten (n : ℕ) (l : List α) : (chunksOf n l).flatten = l := by
  induction l using chunksOf.induct n with
  | case1 => simp
  | case2 a l ih =>
    rw [chunksOf, List.flatten_cons, ih, List.cons_append, List.take_append_drop]

theorem mem_of_mem_chunksOf {c : List α} {a : α} (hc : c ∈ chunksOf n l) (ha : a ∈ c) : a ∈ l := by
  rw [← chunksOf_flatten n l]
  exact List.mem_flatten_of_mem hc ha

/-- An element of a list without duplicates lies in one piece. -/
theorem eq_of_mem_chunksOf (hl : l.Nodup) {c d : List α} {a : α} (hc : c ∈ chunksOf n l)
    (hd : d ∈ chunksOf n l) (hac : a ∈ c) (had : a ∈ d) : c = d := by
  by_contra hne
  have hnodup : (chunksOf n l).flatten.Nodup := by rwa [chunksOf_flatten]
  have hdisj : (chunksOf n l).Pairwise List.Disjoint := (List.nodup_flatten.mp hnodup).2
  have : Std.Symm (@List.Disjoint α) := ⟨fun _ _ h => h.symm⟩
  exact hdisj.forall hc hd hne hac had

theorem toChunks_go_eq (hn : 0 < n) (l : List α) (acc : Array α) (done : Array (List α))
    (hpos : 0 < acc.size) (hle : acc.size ≤ n) :
    List.toChunks.go n l acc done = done.toList ++ chunksOf n (acc.toList ++ l) := by
  induction l generalizing acc done with
  | nil =>
    have hne : acc.toList ++ [] ≠ [] := by
      rw [List.append_nil]
      exact List.ne_nil_of_length_pos (by rwa [Array.length_toList])
    rw [List.toChunks.go, chunksOf_of_length_le hne (by simpa using hle)]
    simp
  | cons a l ih =>
    rw [List.toChunks.go]
    by_cases hfull : acc.size = n
    · have hacc : acc.toList.length = n := by rwa [Array.length_toList]
      rw [if_pos (by simpa using hfull), ih _ _ (by simp) (by simp; omega),
        chunksOf_append_of_length_eq hn hacc]
      simp
    · rw [if_neg (by simpa using hfull), ih _ _ (by simp) (by simp; omega)]
      simp

/-- `List.toChunks` cuts the same pieces. -/
theorem toChunks_eq (hn : 0 < n) (l : List α) : l.toChunks n = chunksOf n l := by
  cases l with
  | nil => rw [List.toChunks, chunksOf_nil]
  | cons a l =>
    rw [List.toChunks, toChunks_go_eq hn l #[a] #[] (by simp) (by simp; omega)]
    · simp
    · omega

end MevScout
