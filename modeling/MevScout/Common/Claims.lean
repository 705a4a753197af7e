import MevScout.Common.Map

/-!
# Claims

Two ways in which a pass decides by key. A loop that claims the key of every element it emits
emits no key twice. A table of claims keeps, for every key, a claim of the lowest rank, in
whatever order the claims come.

Results:
* `Keyed.push`: emitting an element whose key was free;
* `getElem?_claimAll`: the winner of a key is a claim of the lowest rank;
* `claimAll_isSome`: every claimed key has a winner.
-/

namespace MevScout.Claims

open Std

/-! ## Claimed keys -/

section Keyed

variable {α κ : Type*} [DecidableEq κ]

/-- The elements of `out` are good, and their keys are claimed and different. -/
structure Keyed (key : α → κ) (good : α → Prop) (claimed : Finset κ) (out : List α) : Prop where
  good : ∀ a ∈ out, good a
  claimed : ∀ a ∈ out, key a ∈ claimed
  nodup : (out.map key).Nodup

variable {key : α → κ} {good : α → Prop} {claimed claimed' : Finset κ} {out : List α}

omit [DecidableEq κ] in
theorem keyed_nil : Keyed key good claimed [] := ⟨by simp, by simp, List.nodup_nil⟩

omit [DecidableEq κ] in
/-- More keys are claimed. -/
theorem Keyed.mono (h : Keyed key good claimed out) (hsub : claimed ⊆ claimed') :
    Keyed key good claimed' out :=
  ⟨h.good, fun a ha => hsub (h.claimed a ha), h.nodup⟩

/-- An element is emitted whose key was free. -/
theorem Keyed.push (h : Keyed key good claimed out) {a : α} (ha : good a)
    (hfree : key a ∉ claimed) :
    Keyed key good (insert (key a) claimed) (out ++ [a]) := by
  refine ⟨fun b hb => ?_, fun b hb => ?_, ?_⟩
  · rcases List.mem_append.mp hb with hb | hb
    · exact h.good b hb
    · rwa [List.mem_singleton.mp hb]
  · rcases List.mem_append.mp hb with hb | hb
    · exact Finset.mem_insert_of_mem (h.claimed b hb)
    · rw [List.mem_singleton.mp hb]
      exact Finset.mem_insert_self ..
  · rw [List.map_append, List.map_singleton]
    refine List.nodup_append.mpr ⟨h.nodup, List.nodup_singleton _, ?_⟩
    rintro k hk k' hk' rfl
    obtain ⟨b, hb, hkey⟩ := List.mem_map.mp hk
    rw [List.mem_singleton] at hk'
    exact hfree (hk' ▸ hkey ▸ h.claimed b hb)

end Keyed

/-! ## Winners -/

section Winners

variable {ι κ : Type*} [Ord ι] [TransOrd ι] [LawfulEqOrd ι] (rank : κ → ℕ)

/-- A claim wins where no claim of its rank or a lower one was made. -/
def claim (m : ExtTreeMap ι κ compare) (i : ι) (k : κ) : ExtTreeMap ι κ compare :=
  match m[i]? with
  | some k' => if rank k' ≤ rank k then m else m.insert i k
  | none => m.insert i k

/-- The claims of a list. -/
def claimAll (m : ExtTreeMap ι κ compare) (l : List (ι × κ)) : ExtTreeMap ι κ compare :=
  l.foldl (fun m c => claim rank m c.1 c.2) m

variable {rank} {m : ExtTreeMap ι κ compare} {l : List (ι × κ)} {i : ι} {k : κ}

theorem getElem?_claim_of_ne {j : ι} (h : j ≠ i) : (claim rank m j k)[i]? = m[i]? := by
  classical
  unfold claim
  split
  · split_ifs
    · rfl
    · rw [Map.getElem?_insert_eq, if_neg h]
  · rw [Map.getElem?_insert_eq, if_neg h]

variable (rank) in
/-- After a claim its key has a winner of the lowest rank. -/
theorem getElem?_claim_self (m : ExtTreeMap ι κ compare) (i : ι) (k : κ) :
    ∃ w, (claim rank m i k)[i]? = some w ∧ (m[i]? = some w ∨ w = k) ∧ rank w ≤ rank k ∧
      ∀ k', m[i]? = some k' → rank w ≤ rank k' := by
  unfold claim
  cases hm : m[i]? with
  | none => exact ⟨k, by simp, .inr rfl, le_rfl, by simp⟩
  | some k₀ =>
    by_cases hrank : rank k₀ ≤ rank k
    · refine ⟨k₀, by simp [hrank, hm], .inl rfl, hrank, fun k' hk' => ?_⟩
      rw [Option.some_inj.mp hk']
    · refine ⟨k, by simp [hrank], .inr rfl, le_rfl, fun k' hk' => ?_⟩
      rw [← Option.some_inj.mp hk']
      omega

/-- The winner of a key is a claim of the lowest rank. -/
theorem getElem?_claimAll (h : (claimAll rank m l)[i]? = some k) :
    (m[i]? = some k ∨ (i, k) ∈ l) ∧ (∀ k', m[i]? = some k' → rank k ≤ rank k') ∧
      ∀ k', (i, k') ∈ l → rank k ≤ rank k' := by
  classical
  induction l generalizing m with
  | nil => exact ⟨.inl h, fun k' hk' => by rw [Option.some_inj.mp (h.symm.trans hk')], by simp⟩
  | cons c l ih =>
    obtain ⟨j, c⟩ := c
    obtain ⟨hfrom, hle, hmin⟩ := ih h
    dsimp only at hfrom hle
    by_cases hji : j = i
    · subst hji
      obtain ⟨w, hw, hwfrom, hwc, hwle⟩ := getElem?_claim_self rank m j c
      rw [hw] at hfrom hle
      have hkw : rank k ≤ rank w := hle w rfl
      refine ⟨?_, fun k' hk' => hkw.trans (hwle k' hk'), fun k' hk' => ?_⟩
      · rcases hfrom with hfrom | hfrom
        · obtain rfl := Option.some_inj.mp hfrom
          rcases hwfrom with hm | rfl
          · exact .inl hm
          · exact .inr (List.mem_cons_self ..)
        · exact .inr (List.mem_cons_of_mem _ hfrom)
      · rcases List.mem_cons.mp hk' with hk' | hk'
        · rw [(Prod.mk.inj hk').2]
          exact hkw.trans hwc
        · exact hmin k' hk'
    · rw [getElem?_claim_of_ne hji] at hfrom hle
      refine ⟨hfrom.imp id (List.mem_cons_of_mem _), hle, fun k' hk' => ?_⟩
      rcases List.mem_cons.mp hk' with hk' | hk'
      · exact absurd (Prod.mk.inj hk').1.symm hji
      · exact hmin k' hk'

/-- Every claimed key has a winner. -/
theorem claimAll_isSome (h : m[i]?.isSome ∨ ∃ k, (i, k) ∈ l) :
    ((claimAll rank m l)[i]?).isSome := by
  classical
  induction l generalizing m with
  | nil =>
    rcases h with h | ⟨k, hk⟩
    · exact h
    · cases hk
  | cons c l ih =>
    obtain ⟨j, c⟩ := c
    refine ih ?_
    dsimp only
    by_cases hji : j = i
    · subst hji
      obtain ⟨w, hw, -⟩ := getElem?_claim_self rank m j c
      exact .inl (by rw [hw]; rfl)
    · rw [getElem?_claim_of_ne hji]
      rcases h with h | ⟨k, hk⟩
      · exact .inl h
      · rcases List.mem_cons.mp hk with hk | hk
        · exact absurd (Prod.mk.inj hk).1.symm hji
        · exact .inr ⟨k, hk⟩

end Winners

end MevScout.Claims
