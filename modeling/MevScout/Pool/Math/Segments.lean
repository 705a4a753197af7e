import MevScout.Common.Firsts
import MevScout.Pool.Math.Search

/-!
# The search over all brackets

`optimal_on_segments` compares its candidates by their output. The one that it returns is the
most profitable input that it evaluated only where the greater output is worth the greater
input.

Results:
* `optimalOnSegments_eq`: the search returns the first candidate of the greatest output;
* `selectsByProfit_iff`: when this is the evaluated input of the greatest profit.
-/

namespace MevScout.Pool.Math

open Firsts

variable {quote : Quote}

/-! ## The comparison by output -/

/-- An input with its output, when the path is profitable there. -/
def offer (quote : Quote) (x : ℕ) : Option (ℕ × ℕ) :=
  match quote x with
  | some output => if output > x then some (x, output) else none
  | none => none

theorem offer_eq_some {x : ℕ} {o : ℕ × ℕ} :
    offer quote x = some o ↔ o.1 = x ∧ quote x = some o.2 ∧ x < o.2 := by
  obtain ⟨x', out⟩ := o
  unfold offer
  cases hq : quote x with
  | none => simp
  | some output =>
    by_cases h : output > x
    · simp only [if_pos h, Option.some.injEq, Prod.mk.injEq]
      constructor
      · rintro ⟨rfl, rfl⟩
        exact ⟨rfl, rfl, h⟩
      · rintro ⟨rfl, rfl, -⟩
        exact ⟨rfl, rfl⟩
    · simp only [if_neg h, Option.some.injEq, reduceCtorEq, false_iff, not_and]
      rintro - rfl
      exact h

/-- The profit of an offer is the profit of its input. -/
theorem evalProfit_of_offer {x : ℕ} {o : ℕ × ℕ} (h : offer quote x = some o) :
    evalProfit x quote = o.2 - o.1 ∧ 0 < evalProfit x quote := by
  obtain ⟨h1, hq, hlt⟩ := offer_eq_some.mp h
  unfold evalProfit
  rw [hq]
  dsimp only
  rw [if_pos hlt, h1]
  omega

theorem evalProfit_of_offer_none {x : ℕ} (h : offer quote x = none) : evalProfit x quote = 0 := by
  unfold offer at h
  unfold evalProfit
  cases hq : quote x with
  | none => rfl
  | some output =>
    rw [hq] at h
    dsimp only at h ⊢
    split_ifs at h ⊢
    rfl

theorem exists_offer_of_evalProfit {x : ℕ} (h : 0 < evalProfit x quote) :
    ∃ o, offer quote x = some o := by
  rw [← Option.isSome_iff_exists, Option.isSome_iff_ne_none]
  intro hnone
  rw [evalProfit_of_offer_none hnone] at h
  exact h.false

theorem consider_eq (quote : Quote) (best : Option (ℕ × ℕ)) (x : ℕ) :
    consider quote best x = match offer quote x with
      | some o => List.argAux (fun b c => c.2 < b.2) best o
      | none => best := by
  unfold consider offer
  cases quote x with
  | none => rfl
  | some output =>
    by_cases h : output > x
    · simp only [if_pos h]
      cases best with
      | none => rfl
      | some b =>
        show (if b.2 ≥ output then some b else some (x, output)) =
          if b.2 < output then some (x, output) else some b
        split_ifs <;> first | rfl | omega
    · simp only [if_neg h]

/-- Considering inputs one by one finds the first offer of the greatest output. -/
theorem foldl_consider (quote : Quote) (xs : List ℕ) (best : Option (ℕ × ℕ)) :
    xs.foldl (consider quote) best =
      (xs.filterMap (offer quote)).foldl (List.argAux fun b c => c.2 < b.2) best := by
  induction xs generalizing best with
  | nil => rfl
  | cons x xs ih =>
    rw [List.foldl_cons, ih, consider_eq]
    cases ho : offer quote x with
    | none => rw [List.filterMap_cons_none ho]
    | some o => rw [List.filterMap_cons_some ho, List.foldl_cons]

theorem segmentStep_eq (maxInput : ℕ) (quote : Quote) (lo : ℕ) (best : Option (ℕ × ℕ))
    (cut : ℕ) : segmentStep maxInput quote (lo, best) cut =
      (min cut maxInput,
        (bracketCandidates quote (lo, min cut maxInput)).foldl (consider quote) best) := by
  unfold segmentStep bracketCandidates
  dsimp only
  split_ifs with h
  · cases goldenSectionMaximize lo (min cut maxInput) quote goldenSectionRefineIterations <;> rfl
  · rfl

theorem foldl_segmentStep (maxInput : ℕ) (quote : Quote) (cuts : List ℕ) (lo : ℕ)
    (best : Option (ℕ × ℕ)) :
    (cuts.foldl (segmentStep maxInput quote) (lo, best)).2 =
      ((bracketsFrom maxInput lo cuts).flatMap (bracketCandidates quote)).foldl
        (consider quote) best := by
  induction cuts generalizing lo best with
  | nil => rfl
  | cons cut cuts ih =>
    rw [List.foldl_cons, segmentStep_eq, ih, bracketsFrom, List.flatMap_cons, List.foldl_append]

/-- **`optimal_on_segments` returns the first offer of the greatest output** among its
    candidates. -/
theorem optimalOnSegments_eq (maxInput : ℕ) (breakpoints : List ℕ) (quote : Quote) :
    optimalOnSegments maxInput breakpoints quote =
      ((candidates maxInput breakpoints quote).filterMap (offer quote)).argmax Prod.snd := by
  unfold optimalOnSegments candidates brackets
  split_ifs
  · rfl
  · rw [foldl_segmentStep, foldl_consider]
    rfl

/-! ## Candidates and evaluated inputs -/

/-- Every candidate was evaluated. -/
theorem candidates_subset (maxInput : ℕ) (breakpoints : List ℕ) (quote : Quote) :
    ∀ x ∈ candidates maxInput breakpoints quote, x ∈ evaluated maxInput breakpoints quote := by
  intro x hx
  obtain ⟨b, hb, hxb⟩ := List.mem_flatMap.mp hx
  refine List.mem_flatMap.mpr ⟨b, hb, ?_⟩
  unfold bracketCandidates at hxb
  unfold bracketEvaluated
  rcases List.mem_cons.mp hxb with rfl | hxb
  · exact List.mem_cons_self
  split_ifs at hxb ⊢ with h
  · rcases List.mem_cons.mp hxb with rfl | hxb
    · simp
    · have hgreatest := goldenSectionMaximize_greatest b.1 b.2 quote goldenSectionRefineIterations
      rw [Option.mem_toList] at hxb
      rw [hxb] at hgreatest
      exact List.mem_cons_of_mem _ (List.mem_cons_of_mem _ hgreatest.1)
  · exact absurd hxb List.not_mem_nil

/-- No evaluated input is more profitable than all candidates. -/
theorem exists_candidate_ge {maxInput : ℕ} {breakpoints : List ℕ} {x : ℕ}
    (hx : x ∈ evaluated maxInput breakpoints quote) (hpos : 0 < evalProfit x quote) :
    ∃ y ∈ candidates maxInput breakpoints quote, evalProfit x quote ≤ evalProfit y quote := by
  obtain ⟨b, hb, hxb⟩ := List.mem_flatMap.mp hx
  have hcand : ∀ y ∈ bracketCandidates quote b, y ∈ candidates maxInput breakpoints quote :=
    fun y hy => List.mem_flatMap.mpr ⟨b, hb, hy⟩
  unfold bracketEvaluated at hxb
  unfold bracketCandidates at hcand
  rcases List.mem_cons.mp hxb with rfl | hxb
  · exact ⟨b.1, hcand _ List.mem_cons_self, le_rfl⟩
  split_ifs at hxb hcand with h
  · rcases List.mem_cons.mp hxb with rfl | hxb
    · exact ⟨b.2, hcand _ (by simp), le_rfl⟩
    · have hgreatest := goldenSectionMaximize_greatest b.1 b.2 quote goldenSectionRefineIterations
      cases hg : goldenSectionMaximize b.1 b.2 quote goldenSectionRefineIterations with
      | none =>
        rw [hg] at hgreatest
        have := hgreatest x hxb
        omega
      | some y =>
        rw [hg] at hgreatest
        exact ⟨y, hcand y (by rw [hg]; simp), hgreatest.2.2 x hxb⟩
  · exact absurd hxb List.not_mem_nil

/-- The path gives more than it takes. -/
def Profitable (quote : Quote) (x : ℕ) : Prop := ∃ output, quote x = some output ∧ x < output

theorem evalProfit_pos_iff {x : ℕ} : 0 < evalProfit x quote ↔ Profitable quote x := by
  constructor
  · intro h
    obtain ⟨o, ho⟩ := exists_offer_of_evalProfit h
    obtain ⟨-, hq, hlt⟩ := offer_eq_some.mp ho
    exact ⟨o.2, hq, hlt⟩
  · rintro ⟨output, hq, hlt⟩
    have ho : offer quote x = some (x, output) := offer_eq_some.mpr ⟨rfl, hq, hlt⟩
    exact (evalProfit_of_offer ho).2

/-- The search returns something exactly when an input that it evaluates is profitable. -/
theorem optimalOnSegments_isSome_iff (maxInput : ℕ) (breakpoints : List ℕ) (quote : Quote) :
    (optimalOnSegments maxInput breakpoints quote).isSome ↔
      ∃ x ∈ evaluated maxInput breakpoints quote, Profitable quote x := by
  rw [optimalOnSegments_eq, Option.isSome_iff_ne_none, Ne, List.argmax_eq_none,
    List.filterMap_eq_nil_iff]
  constructor
  · intro h
    push Not at h
    obtain ⟨x, hx, hne⟩ := h
    obtain ⟨o, ho⟩ := Option.ne_none_iff_exists'.mp hne
    exact ⟨x, candidates_subset _ _ _ x hx, evalProfit_pos_iff.mp (evalProfit_of_offer ho).2⟩
  · rintro ⟨x, hx, hprofit⟩ hall
    have hpos := evalProfit_pos_iff.mpr hprofit
    obtain ⟨y, hy, hle⟩ := exists_candidate_ge hx hpos
    have := evalProfit_of_offer_none (hall y hy)
    omega

/-! ## Selecting by profit -/

/-- What a search for the greatest profit gives: nothing when no evaluated input is
    profitable, and otherwise an evaluated input of the greatest profit. -/
def SelectsByProfit (maxInput : ℕ) (breakpoints : List ℕ) (quote : Quote) : Prop :=
  match optimalOnSegments maxInput breakpoints quote with
  | none => ∀ x ∈ evaluated maxInput breakpoints quote, evalProfit x quote = 0
  | some (x, output) => quote x = some output ∧ x < output ∧
      ∀ y ∈ evaluated maxInput breakpoints quote, evalProfit y quote ≤ output - x

/-- Among the profitable offers, the first one of the greatest output earns on every other
    offer at least what it pays on top of it. -/
def OutputRanksProfit (offers : List (ℕ × ℕ)) : Prop :=
  ∀ pre y post, offers = pre ++ y :: post → (∀ x ∈ pre, x.2 < y.2) → (∀ x ∈ post, x.2 ≤ y.2) →
    ∀ x ∈ offers, (y.1 : ℤ) - x.1 ≤ y.2 - x.2

/-- **Main theorem.** The search selects by profit exactly when the profitable candidate of
    the greatest output is worth its price. -/
theorem selectsByProfit_iff (maxInput : ℕ) (breakpoints : List ℕ) (quote : Quote) :
    SelectsByProfit maxInput breakpoints quote ↔
      OutputRanksProfit ((candidates maxInput breakpoints quote).filterMap (offer quote)) := by
  set offers := (candidates maxInput breakpoints quote).filterMap (offer quote) with hoffers
  have hmem : ∀ o ∈ offers, ∃ x ∈ candidates maxInput breakpoints quote, offer quote x = some o :=
    fun o ho => List.mem_filterMap.mp ho
  have hoffer : ∀ x ∈ candidates maxInput breakpoints quote, 0 < evalProfit x quote →
      ∃ o ∈ offers, offer quote x = some o := by
    intro x hx hpos
    obtain ⟨o, ho⟩ := exists_offer_of_evalProfit hpos
    exact ⟨o, List.mem_filterMap.mpr ⟨x, hx, ho⟩, ho⟩
  unfold SelectsByProfit
  rw [optimalOnSegments_eq, ← hoffers]
  cases hbest : offers.argmax Prod.snd with
  | none =>
    have hnil : offers = [] := List.argmax_eq_none.mp hbest
    refine iff_of_true (fun x hx => ?_) (by rw [hnil]; intro pre y post h; simp at h)
    by_contra hne
    obtain ⟨y, hy, hle⟩ := exists_candidate_ge hx (Nat.pos_of_ne_zero hne)
    obtain ⟨o, ho, -⟩ := hoffer y hy (by omega)
    rw [hnil] at ho
    exact List.not_mem_nil ho
  | some o =>
    obtain ⟨x, hx, hxo⟩ := hmem o (List.argmax_mem hbest)
    obtain ⟨hx1, hxq, hxlt⟩ := offer_eq_some.mp hxo
    dsimp only
    rw [hx1]
    constructor
    · rintro ⟨-, -, hall⟩ pre y post happend hpre hpost z hz
      have hyo : some o = some y :=
        hbest.symm.trans (argmax_eq_some_iff_append.mpr ⟨pre, post, happend, hpre, hpost⟩)
      obtain rfl : o = y := Option.some.inj hyo
      obtain ⟨w, hw, hwz⟩ := hmem z hz
      have := hall w (candidates_subset _ _ _ w hw)
      obtain ⟨hprofit, hpos⟩ := evalProfit_of_offer hwz
      omega
    · intro hranks
      refine ⟨hxq, hxlt, fun y hy => ?_⟩
      rcases Nat.eq_zero_or_pos (evalProfit y quote) with h0 | hpos
      · omega
      obtain ⟨z, hz, hle⟩ := exists_candidate_ge hy hpos
      obtain ⟨oz, hoz, hzo⟩ := hoffer z hz (by omega)
      obtain ⟨hprofit, -⟩ := evalProfit_of_offer hzo
      obtain ⟨pre, post, happend, hpre, hpost⟩ := argmax_eq_some_iff_append.mp hbest
      have := hranks pre o post happend hpre hpost oz hoz
      omega

/-- A path that triples its input up to an output of 300. -/
def cappedQuote : Quote := fun x => some (min (3 * x) 300)

theorem evalProfit_cappedQuote (x : ℕ) : evalProfit x cappedQuote = min (3 * x) 300 - x := by
  unfold evalProfit cappedQuote
  dsimp only
  split_ifs <;> omega

/-- The profit of the capped path peaks at 100. The search finds 101 and returns 200, which
    has the same output. -/
theorem output_beats_profit :
    (∀ b ∈ brackets 200 [], UnimodalProfit cappedQuote b.1 b.2) ∧
      ¬ SelectsByProfit 200 [] cappedQuote := by
  constructor
  · intro b hb
    have hb' : b = (1, 200) := by
      simpa [brackets, segmentCuts, bracketsFrom] using hb
    rw [hb']
    refine ⟨100, by omega, by omega, fun x y h1 h2 h3 hpos => ?_, fun x y h1 h2 h3 hpos => ?_⟩
    · rw [evalProfit_cappedQuote] at hpos ⊢
      rw [evalProfit_cappedQuote]
      omega
    · rw [evalProfit_cappedQuote] at hpos ⊢
      rw [evalProfit_cappedQuote]
      omega
  · intro h
    have hbest : optimalOnSegments 200 [] cappedQuote = some (200, 300) := by decide +kernel
    unfold SelectsByProfit at h
    rw [hbest] at h
    have h101 := h.2.2 101 (by decide +kernel)
    rw [evalProfit_cappedQuote] at h101
    omega

end MevScout.Pool.Math
