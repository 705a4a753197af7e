import MevScout.Common.Concave

/-!
# Searching for the best input

Models of the numerical optimizers of `core/src/pool/math/core.rs` (lines 10–19 and 265–466):
the golden-section search of one bracket, the search over all brackets between the
breakpoints of a path, and the two-hop optimizers built on them. Amounts are `u128` in the
source and natural numbers here. The subtraction `hi - lo` of the loop does not go below zero
on a profit that rises and then falls (`goldenLoop_ordered`); the other subtractions never do.

Results:
* `goldenSectionMaximize_greatest`: the golden-section search returns its best probe;
* `goldenLoop_ordered`: its bounds stay in order;
* `UnimodalProfit.neverRisesAgain`, `QuoteShape.neverRisesAgain`: for the paths that the
  optimizers are written for.
-/

namespace MevScout.Pool.Math

/-- The output of a path for an input, as the closures that the optimizers take. -/
abbrev Quote := ℕ → Option ℕ

/-! ## Model -/

/-- `GOLDEN_SECTION_REFINE_ITERATIONS` (`consts.rs`, line 22). -/
def goldenSectionRefineIterations : ℕ := 40

/-- Model of `golden_step` (`core.rs`, lines 15–19). The result never exceeds `delta`, so that
    the conversion back to `u128` succeeds. -/
def goldenStep (delta : ℕ) : ℕ := delta * 6180339887 / 10000000000

/-- Model of `eval_profit` (lines 266–271). -/
def evalProfit (input : ℕ) (quote : Quote) : ℕ :=
  match quote input with
  | some output => if output > input then output - input else 0
  | none => 0

/-- The left probe of `[lo, hi]` (lines 286 and 289–291, again lines 312–315). -/
def leftProbe (lo hi : ℕ) : ℕ :=
  if hi - goldenStep (hi - lo) ≤ lo then lo + 1 else hi - goldenStep (hi - lo)

/-- The right probe of `[lo, hi]` (lines 287 and 292–294, again lines 321–324). -/
def rightProbe (lo hi : ℕ) : ℕ :=
  if lo + goldenStep (hi - lo) ≥ hi then hi - 1 else lo + goldenStep (hi - lo)

/-- The mutable state of `golden_section_maximize`. -/
structure GoldenState where
  lo : ℕ
  hi : ℕ
  x1 : ℕ
  x2 : ℕ
  f1 : ℕ
  f2 : ℕ
  deriving DecidableEq, Repr

/-- The probe that the next iteration evaluates (lines 312–315 and 321–324). -/
def GoldenState.probe (s : GoldenState) : ℕ :=
  if s.f1 > s.f2 then leftProbe s.lo s.x2 else rightProbe s.x1 s.hi

/-- The body of the loop of `golden_section_maximize` (lines 308–326). -/
def GoldenState.next (quote : Quote) (s : GoldenState) : GoldenState :=
  if s.f1 > s.f2 then
    { lo := s.lo, hi := s.x2, x1 := s.probe, x2 := s.x1,
      f1 := evalProfit s.probe quote, f2 := s.f1 }
  else
    { lo := s.x1, hi := s.hi, x1 := s.x2, x2 := s.probe,
      f1 := s.f2, f2 := evalProfit s.probe quote }

/-- The loop of `golden_section_maximize` (lines 303–327). -/
def goldenLoop (quote : Quote) : ℕ → GoldenState → GoldenState
  | 0, s => s
  | n + 1, s => if s.hi - s.lo ≤ 1 then s else goldenLoop quote n (s.next quote)

/-- The state before the loop (lines 286–301). -/
def goldenInit (lo hi : ℕ) (quote : Quote) : GoldenState where
  lo := lo
  hi := hi
  x1 := leftProbe lo hi
  x2 := rightProbe lo hi
  f1 := evalProfit (leftProbe lo hi) quote
  f2 := evalProfit (rightProbe lo hi) quote

/-- Model of `golden_section_maximize` (lines 276–336). -/
def goldenSectionMaximize (lo hi : ℕ) (quote : Quote) (maxIter : ℕ) : Option ℕ :=
  if lo ≥ hi then none
  else if leftProbe lo hi ≥ rightProbe lo hi then
    if evalProfit (max lo 1) quote > 0 then some (max lo 1) else none
  else
    let s := goldenLoop quote maxIter (goldenInit lo hi quote)
    if s.f1 ≥ s.f2 ∧ s.f1 > 0 then some s.x1
    else if s.f2 > 0 then some s.x2
    else none

/-- The closure `consider` of `optimal_on_segments` (lines 408–417). -/
def consider (quote : Quote) (best : Option (ℕ × ℕ)) (x : ℕ) : Option (ℕ × ℕ) :=
  match quote x with
  | some output =>
    if output > x then
      match best with
      | some (_, bo) => if bo ≥ output then best else some (x, output)
      | none => some (x, output)
    else best
  | none => best

/-- The sorted cuts of `optimal_on_segments` (lines 399–405). -/
def segmentCuts (maxInput : ℕ) (breakpoints : List ℕ) : List ℕ :=
  ((breakpoints.filter fun b => b > 0 ∧ b < maxInput).insertionSort (· ≤ ·)).destutter (· ≠ ·)

/-- The body of the loop of `optimal_on_segments` (lines 420–433) on `(lo, best)`. -/
def segmentStep (maxInput : ℕ) (quote : Quote) (st : ℕ × Option (ℕ × ℕ)) (cut : ℕ) :
    ℕ × Option (ℕ × ℕ) :=
  let (lo, best) := st
  let hi := min cut maxInput
  let best := consider quote best lo
  if hi > lo then
    let best := consider quote best hi
    match goldenSectionMaximize lo hi quote goldenSectionRefineIterations with
    | some x => (hi, consider quote best x)
    | none => (hi, best)
  else (hi, best)

/-- Model of `optimal_on_segments` (lines 390–436). -/
def optimalOnSegments (maxInput : ℕ) (breakpoints : List ℕ) (quote : Quote) : Option (ℕ × ℕ) :=
  if maxInput = 0 then none
  else ((segmentCuts maxInput breakpoints ++ [maxInput]).foldl (segmentStep maxInput quote)
    (1, none)).2

/-- Model of `TwoHopArbResult` (lines 162–168). -/
structure TwoHopArbResult where
  inputAmount : ℕ
  intermediateAmount : ℕ
  outputAmount : ℕ
  profit : ℕ
  deriving DecidableEq, Repr

/-- The closure `combined` of the two-hop optimizers (lines 364–367 and 453–456). -/
def combined (quoteA quoteB : Quote) : Quote := fun x => (quoteA x).bind quoteB

/-- Model of `optimal_two_hop_arb_segmented` (lines 443–466). -/
def optimalTwoHopArbSegmented (maxInput : ℕ) (breakpoints : List ℕ) (quoteA quoteB : Quote) :
    Option TwoHopArbResult :=
  if maxInput = 0 then none
  else do
    let (input, output) ← optimalOnSegments maxInput breakpoints (combined quoteA quoteB)
    let intermediate ← quoteA input
    some { inputAmount := input, intermediateAmount := intermediate, outputAmount := output,
           profit := output - input }

/-- Model of `optimal_two_hop_arb_generic` (lines 355–377). -/
def optimalTwoHopArbGeneric (maxInput : ℕ) (quoteA quoteB : Quote) : Option TwoHopArbResult :=
  if maxInput = 0 then none
  else do
    let (input, output) ← optimalOnSegments maxInput [] (combined quoteA quoteB)
    let intermediate ← quoteA input
    some { inputAmount := input, intermediateAmount := intermediate, outputAmount := output,
           profit := output - input }

/-! ## What the search evaluates -/

/-- The probes that the loop evaluates. -/
def loopProbes (quote : Quote) : ℕ → GoldenState → List ℕ
  | 0, _ => []
  | n + 1, s => if s.hi - s.lo ≤ 1 then [] else s.probe :: loopProbes quote n (s.next quote)

/-- The inputs that `golden_section_maximize` evaluates. -/
def goldenProbes (lo hi : ℕ) (quote : Quote) (maxIter : ℕ) : List ℕ :=
  if lo ≥ hi then []
  else if leftProbe lo hi ≥ rightProbe lo hi then [max lo 1]
  else
    leftProbe lo hi :: rightProbe lo hi :: loopProbes quote maxIter (goldenInit lo hi quote)

/-- The brackets from `lo` on that the cuts leave. -/
def bracketsFrom (maxInput : ℕ) : ℕ → List ℕ → List (ℕ × ℕ)
  | _, [] => []
  | lo, cut :: cuts => (lo, min cut maxInput) :: bracketsFrom maxInput (min cut maxInput) cuts

/-- The brackets that the breakpoints cut `[1, max_input]` into. -/
def brackets (maxInput : ℕ) (breakpoints : List ℕ) : List (ℕ × ℕ) :=
  if maxInput = 0 then []
  else bracketsFrom maxInput 1 (segmentCuts maxInput breakpoints ++ [maxInput])

/-- The inputs of a bracket that are compared with the best so far: its ends and the optimum
    of its golden-section search. -/
def bracketCandidates (quote : Quote) (b : ℕ × ℕ) : List ℕ :=
  b.1 :: if b.2 > b.1 then
    b.2 :: (goldenSectionMaximize b.1 b.2 quote goldenSectionRefineIterations).toList
  else []

/-- The inputs of a bracket that are evaluated. -/
def bracketEvaluated (quote : Quote) (b : ℕ × ℕ) : List ℕ :=
  b.1 :: if b.2 > b.1 then b.2 :: goldenProbes b.1 b.2 quote goldenSectionRefineIterations
  else []

/-- The inputs that `optimal_on_segments` compares, in order. -/
def candidates (maxInput : ℕ) (breakpoints : List ℕ) (quote : Quote) : List ℕ :=
  (brackets maxInput breakpoints).flatMap (bracketCandidates quote)

/-- The inputs that `optimal_on_segments` evaluates. -/
def evaluated (maxInput : ℕ) (breakpoints : List ℕ) (quote : Quote) : List ℕ :=
  (brackets maxInput breakpoints).flatMap (bracketEvaluated quote)

/-! ## Golden section -/

theorem leftProbe_mem {lo hi : ℕ} (h : lo + 1 ≤ hi) :
    lo ≤ leftProbe lo hi ∧ leftProbe lo hi ≤ hi := by
  unfold leftProbe
  split_ifs <;> omega

theorem rightProbe_mem {lo hi : ℕ} (h : lo + 1 ≤ hi) :
    lo ≤ rightProbe lo hi ∧ rightProbe lo hi ≤ hi := by
  unfold rightProbe
  split_ifs <;> omega

namespace GoldenState

variable {quote : Quote} {s : GoldenState}

/-- The profits that a state carries are those of its probes. -/
structure Measured (quote : Quote) (s : GoldenState) : Prop where
  f1 : s.f1 = evalProfit s.x1 quote
  f2 : s.f2 = evalProfit s.x2 quote

/-- The greater of the two profits of a state. -/
def best (s : GoldenState) : ℕ := max s.f1 s.f2

theorem Measured.next (h : Measured quote s) : Measured quote (s.next quote) := by
  unfold GoldenState.next
  split_ifs
  · exact ⟨rfl, h.f1⟩
  · exact ⟨h.f2, rfl⟩

/-- A step keeps the better of its two probes. -/
theorem best_next (quote : Quote) (s : GoldenState) :
    (s.next quote).best = max s.best (evalProfit s.probe quote) := by
  unfold GoldenState.next best
  split_ifs with h
  · show max (evalProfit s.probe quote) s.f1 = _
    omega
  · show max s.f2 (evalProfit s.probe quote) = _
    omega

/-- The probes after a step are the one that it evaluates and one of those before. -/
theorem probes_next (quote : Quote) (s : GoldenState) :
    ((s.next quote).x1 = s.probe ∧ (s.next quote).x2 = s.x1) ∨
      ((s.next quote).x1 = s.x2 ∧ (s.next quote).x2 = s.probe) := by
  unfold GoldenState.next
  split_ifs
  · exact Or.inl ⟨rfl, rfl⟩
  · exact Or.inr ⟨rfl, rfl⟩

end GoldenState

open GoldenState

variable {quote : Quote} {s : GoldenState}

theorem goldenInit_measured (lo hi : ℕ) (quote : Quote) : Measured quote (goldenInit lo hi quote) :=
  ⟨rfl, rfl⟩

theorem goldenLoop_measured (n : ℕ) (h : Measured quote s) :
    Measured quote (goldenLoop quote n s) := by
  induction n generalizing s with
  | zero => exact h
  | succ n ih =>
    rw [goldenLoop]
    split_ifs
    · exact h
    · exact ih h.next

/-- The loop keeps the best of the probes that it starts from and of those that it
    evaluates. -/
theorem goldenLoop_best (quote : Quote) (n : ℕ) (s : GoldenState) :
    s.best ≤ (goldenLoop quote n s).best ∧
      ∀ p ∈ loopProbes quote n s, evalProfit p quote ≤ (goldenLoop quote n s).best := by
  induction n generalizing s with
  | zero => exact ⟨le_rfl, by simp [loopProbes]⟩
  | succ n ih =>
    rw [goldenLoop, loopProbes]
    split_ifs
    · exact ⟨le_rfl, by simp⟩
    · obtain ⟨hkeep, hprobes⟩ := ih (s.next quote)
      rw [best_next] at hkeep
      refine ⟨by omega, fun p hp => ?_⟩
      rcases List.mem_cons.mp hp with rfl | hp
      · omega
      · exact hprobes p hp

/-- The probes that the loop ends with were evaluated. -/
theorem goldenLoop_mem (quote : Quote) (n : ℕ) (s : GoldenState) :
    (goldenLoop quote n s).x1 ∈ s.x1 :: s.x2 :: loopProbes quote n s ∧
      (goldenLoop quote n s).x2 ∈ s.x1 :: s.x2 :: loopProbes quote n s := by
  induction n generalizing s with
  | zero => exact ⟨by simp [goldenLoop], by simp [goldenLoop]⟩
  | succ n ih =>
    rw [goldenLoop, loopProbes]
    split_ifs
    · exact ⟨by simp, by simp⟩
    · have hsub : ∀ x ∈ (s.next quote).x1 :: (s.next quote).x2 ::
          loopProbes quote n (s.next quote),
          x ∈ s.x1 :: s.x2 :: s.probe :: loopProbes quote n (s.next quote) := by
        intro x hx
        rcases probes_next quote s with ⟨h1, h2⟩ | ⟨h1, h2⟩ <;>
          rw [h1, h2] at hx <;> simp only [List.mem_cons] at hx ⊢ <;> tauto
      exact ⟨hsub _ (ih (s.next quote)).1, hsub _ (ih (s.next quote)).2⟩

/-- **The golden-section search returns the best of its probes**, and nothing when none of
    them is profitable. -/
theorem goldenSectionMaximize_greatest (lo hi : ℕ) (quote : Quote) (n : ℕ) :
    match goldenSectionMaximize lo hi quote n with
    | none => ∀ p ∈ goldenProbes lo hi quote n, evalProfit p quote = 0
    | some x => x ∈ goldenProbes lo hi quote n ∧ 0 < evalProfit x quote ∧
        ∀ p ∈ goldenProbes lo hi quote n, evalProfit p quote ≤ evalProfit x quote := by
  unfold goldenSectionMaximize goldenProbes
  by_cases hlo : lo ≥ hi
  · simp [hlo]
  rw [if_neg hlo, if_neg hlo]
  by_cases hcross : leftProbe lo hi ≥ rightProbe lo hi
  · rw [if_pos hcross, if_pos hcross]
    by_cases hp : evalProfit (max lo 1) quote > 0
    · rw [if_pos hp]
      exact ⟨by simp, hp, by simp⟩
    · rw [if_neg hp]
      intro p hmem
      rw [List.mem_singleton.mp hmem]
      omega
  · rw [if_neg hcross, if_neg hcross]
    set s := goldenInit lo hi quote with hs
    obtain ⟨hkeep, hprobes⟩ := goldenLoop_best quote n s
    obtain ⟨hm1, hm2⟩ := goldenLoop_mem quote n s
    obtain ⟨hf1, hf2⟩ := goldenLoop_measured n (goldenInit_measured lo hi quote)
    rw [← hs] at hf1 hf2
    have hall : ∀ p ∈ leftProbe lo hi :: rightProbe lo hi :: loopProbes quote n s,
        evalProfit p quote ≤ (goldenLoop quote n s).best := by
      intro p hp
      have hbest : s.best = max (evalProfit (leftProbe lo hi) quote)
        (evalProfit (rightProbe lo hi) quote) := rfl
      rcases List.mem_cons.mp hp with rfl | hp
      · omega
      rcases List.mem_cons.mp hp with rfl | hp
      · omega
      · exact hprobes p hp
    have hb : (goldenLoop quote n s).best =
        max (goldenLoop quote n s).f1 (goldenLoop quote n s).f2 := rfl
    by_cases h1 : (goldenLoop quote n s).f1 ≥ (goldenLoop quote n s).f2 ∧
        (goldenLoop quote n s).f1 > 0
    · rw [if_pos h1]
      refine ⟨hm1, by omega, fun p hp => ?_⟩
      have := hall p hp
      omega
    · rw [if_neg h1]
      by_cases h2 : (goldenLoop quote n s).f2 > 0
      · rw [if_pos h2]
        refine ⟨hm2, by omega, fun p hp => ?_⟩
        have := hall p hp
        omega
      · rw [if_neg h2]
        intro p hp
        have := hall p hp
        omega

/-! ## The bounds of the loop -/

/-- Once the profit has stopped rising on its profitable part it does not rise again. -/
def NeverRisesAgain (profit : ℕ → ℕ) (a b : ℕ) : Prop :=
  ∀ u v w, a ≤ u → u < v → v ≤ w → w ≤ b → profit v ≤ profit u → 0 < profit u →
    profit w ≤ profit v

/-- The profit is at its lowest on the far left of a rise. -/
theorem NeverRisesAgain.le_of_rise {profit : ℕ → ℕ} {a b u v w : ℕ}
    (h : NeverRisesAgain profit a b) (ha : a ≤ w) (hwu : w ≤ u) (huv : u < v) (hb : v ≤ b)
    (hrise : profit u < profit v) : profit w ≤ profit u := by
  rcases Nat.eq_or_lt_of_le hwu with rfl | hlt
  · exact le_rfl
  by_contra hgt
  have := h w u v ha hlt huv.le hb (by omega) (by omega)
  omega

/-- Where the probes lie. When they have crossed, the one that a step carries over may be
    outside the new bounds: `behind` and `past` take turns when it is on the left, `over` and
    `before` when it is on the right. -/
inductive InOrder (profit : ℕ → ℕ) (b : ℕ) (s : GoldenState) : Prop
  | inside (h1 : s.lo ≤ s.x1) (h2 : s.x1 ≤ s.hi) (h3 : s.lo ≤ s.x2) (h4 : s.x2 ≤ s.hi)
  | behind (h1 : s.x1 < s.lo) (h2 : s.lo ≤ s.x2) (h3 : s.x2 ≤ s.hi)
      (hf : profit s.lo ≤ profit s.x1)
  | past (h1 : s.x2 < s.lo) (h2 : s.lo ≤ s.x1) (h3 : s.x1 ≤ s.hi)
      (hf : ∀ w, s.lo ≤ w → w ≤ b → profit w ≤ profit s.x2)
  | over (h1 : s.hi < s.x2) (h2 : s.lo ≤ s.x1) (h3 : s.x1 ≤ s.hi)
      (hf : profit s.hi < profit s.x2)
  | before (h1 : s.hi < s.x1) (h2 : s.lo ≤ s.x2) (h3 : s.x2 ≤ s.hi)
      (hf : profit s.hi < profit s.x1)

/-- The invariant of the loop inside a bracket `[a, b]`. -/
structure Bounded (quote : Quote) (a b : ℕ) (s : GoldenState) : Prop where
  measured : Measured quote s
  le : s.lo ≤ s.hi
  lo_mem : a ≤ s.lo ∧ s.lo ≤ b
  hi_mem : a ≤ s.hi ∧ s.hi ≤ b
  x1_mem : s.lo + 2 ≤ s.hi → a ≤ s.x1 ∧ s.x1 ≤ b
  x2_mem : s.lo + 2 ≤ s.hi → a ≤ s.x2 ∧ s.x2 ≤ b
  order : s.lo + 2 ≤ s.hi → InOrder (evalProfit · quote) b s

theorem GoldenState.next_left (hlt : s.f1 > s.f2) : s.next quote =
    ⟨s.lo, s.x2, leftProbe s.lo s.x2, s.x1, evalProfit (leftProbe s.lo s.x2) quote, s.f1⟩ := by
  rw [GoldenState.next, if_pos hlt, GoldenState.probe, if_pos hlt]

theorem GoldenState.next_right (hlt : ¬s.f1 > s.f2) : s.next quote =
    ⟨s.x1, s.hi, s.x2, rightProbe s.x1 s.hi, s.f2,
      evalProfit (rightProbe s.x1 s.hi) quote⟩ := by
  rw [GoldenState.next, if_neg hlt, GoldenState.probe, if_neg hlt]

/-- A step to the left, after which the bounds are `[lo, x2]`. -/
theorem Bounded.next_left {a b : ℕ} (h : Bounded quote a b s) (hgo : s.lo + 2 ≤ s.hi)
    (hlt : s.f1 > s.f2) (hle : s.lo ≤ s.x2)
    (horder : s.lo + 2 ≤ s.x2 → InOrder (evalProfit · quote) b (s.next quote)) :
    Bounded quote a b (s.next quote) := by
  have hlo := h.lo_mem
  have hx2 := h.x2_mem hgo
  have hmeas := h.measured.next
  rw [GoldenState.next_left hlt] at hmeas horder ⊢
  refine ⟨hmeas, hle, hlo, hx2, fun hd => ?_, fun _ => h.x1_mem hgo, horder⟩
  have hprobe := @leftProbe_mem s.lo s.x2 (by dsimp only at hd; omega)
  dsimp only
  omega

/-- A step to the right, after which the bounds are `[x1, hi]`. -/
theorem Bounded.next_right {a b : ℕ} (h : Bounded quote a b s) (hgo : s.lo + 2 ≤ s.hi)
    (hlt : ¬s.f1 > s.f2) (hle : s.x1 ≤ s.hi)
    (horder : s.x1 + 2 ≤ s.hi → InOrder (evalProfit · quote) b (s.next quote)) :
    Bounded quote a b (s.next quote) := by
  have hhi := h.hi_mem
  have hx1 := h.x1_mem hgo
  have hmeas := h.measured.next
  rw [GoldenState.next_right hlt] at hmeas horder ⊢
  refine ⟨hmeas, hle, hx1, hhi, fun _ => h.x2_mem hgo, fun hd => ?_, horder⟩
  have hprobe := @rightProbe_mem s.x1 s.hi (by dsimp only at hd; omega)
  dsimp only
  omega

theorem Bounded.next {a b : ℕ} (hnra : NeverRisesAgain (evalProfit · quote) a b)
    (h : Bounded quote a b s) (hgo : s.lo + 2 ≤ s.hi) : Bounded quote a b (s.next quote) := by
  obtain ⟨ha1, hb1⟩ := h.x1_mem hgo
  obtain ⟨ha2, hb2⟩ := h.x2_mem hgo
  obtain ⟨hf1, hf2⟩ := h.measured
  have hleft : ∀ {lo hi : ℕ}, lo + 2 ≤ hi → lo ≤ leftProbe lo hi ∧ leftProbe lo hi ≤ hi :=
    fun hd => leftProbe_mem (by omega)
  have hright : ∀ {lo hi : ℕ}, lo + 2 ≤ hi → lo ≤ rightProbe lo hi ∧ rightProbe lo hi ≤ hi :=
    fun hd => rightProbe_mem (by omega)
  have goLeft := h.next_left hgo
  have goRight := h.next_right hgo
  have hnextL := @GoldenState.next_left quote s
  have hnextR := @GoldenState.next_right quote s
  rw [hf1, hf2] at goLeft goRight hnextL hnextR
  rcases h.order hgo with ⟨h1, h2, h3, h4⟩ | ⟨h1, h2, h3, hf⟩ | ⟨h1, h2, h3, hf⟩ |
    ⟨h1, h2, h3, hf⟩ | ⟨h1, h2, h3, hf⟩
  · by_cases hlt : evalProfit s.x1 quote > evalProfit s.x2 quote
    · refine goLeft hlt h3 fun hd => ?_
      rw [hnextL hlt]
      rcases le_or_gt s.x1 s.x2 with hx | hx
      · exact .inside (hleft hd).1 (hleft hd).2 h1 hx
      · exact .over hx (hleft hd).1 (hleft hd).2 hlt
    · refine goRight hlt h2 fun hd => ?_
      rw [hnextR hlt]
      rcases le_or_gt s.x1 s.x2 with hx | hx
      · exact .inside hx h4 (hright hd).1 (hright hd).2
      · exact .behind hx (hright hd).1 (hright hd).2 (not_lt.mp hlt)
  · by_cases hlt : evalProfit s.x1 quote > evalProfit s.x2 quote
    · refine goLeft hlt h2 fun hd => ?_
      rw [hnextL hlt]
      refine .past h1 (hleft hd).1 (hleft hd).2 fun w hw hwb => ?_
      exact (hnra s.x1 s.lo w ha1 h1 hw hwb hf ((Nat.zero_le _).trans_lt hlt)).trans hf
    · refine goRight hlt (by omega) fun hd => ?_
      rw [hnextR hlt]
      exact .inside (h1.le.trans h2) h3 (hright hd).1 (hright hd).2
  · have hlt : ¬ evalProfit s.x1 quote > evalProfit s.x2 quote := not_lt.mpr (hf _ h2 hb1)
    refine goRight hlt h3 fun hd => ?_
    rw [hnextR hlt]
    exact .behind (h1.trans_le h2) (hright hd).1 (hright hd).2 (not_lt.mp hlt)
  · have hle := hnra.le_of_rise ha1 h3 h1 hb2 hf
    have hlt : ¬ evalProfit s.x1 quote > evalProfit s.x2 quote :=
      not_lt.mpr (hle.trans hf.le)
    refine goRight hlt h3 fun hd => ?_
    rw [hnextR hlt]
    exact .before h1 (hright hd).1 (hright hd).2 hf
  · have hle := hnra.le_of_rise ha2 h3 h1 hb1 hf
    have hlt : evalProfit s.x1 quote > evalProfit s.x2 quote := lt_of_le_of_lt hle hf
    refine goLeft hlt h2 fun hd => ?_
    rw [hnextL hlt]
    exact .over (h3.trans_lt h1) (hleft hd).1 (hleft hd).2 hlt

theorem Bounded.goldenLoop {a b : ℕ} (hnra : NeverRisesAgain (evalProfit · quote) a b) (n : ℕ)
    (h : Bounded quote a b s) : Bounded quote a b (goldenLoop quote n s) := by
  induction n generalizing s with
  | zero => exact h
  | succ n ih =>
    rw [Math.goldenLoop]
    split_ifs with hstop
    · exact h
    · exact ih (h.next hnra (by omega))

/-- **The bounds of the search stay in order** when the profit rises and then falls, so that
    `hi - lo` does not go below zero. -/
theorem goldenLoop_ordered {lo hi : ℕ} (hnra : NeverRisesAgain (evalProfit · quote) lo hi)
    (hlt : lo < hi) (n : ℕ) :
    (goldenLoop quote n (goldenInit lo hi quote)).lo ≤
      (goldenLoop quote n (goldenInit lo hi quote)).hi := by
  have hl : lo ≤ leftProbe lo hi ∧ leftProbe lo hi ≤ hi := leftProbe_mem (by omega)
  have hr : lo ≤ rightProbe lo hi ∧ rightProbe lo hi ≤ hi := rightProbe_mem (by omega)
  have hinit : Bounded quote lo hi (goldenInit lo hi quote) :=
    ⟨goldenInit_measured lo hi quote, hlt.le, ⟨le_rfl, hlt.le⟩, ⟨hlt.le, le_rfl⟩,
      fun _ => hl, fun _ => hr, fun _ => .inside hl.1 hl.2 hr.1 hr.2⟩
  exact (hinit.goldenLoop hnra n).le

/-- The profit rises strictly and then falls strictly on its profitable part of `[lo, hi]`. -/
def UnimodalProfit (quote : Quote) (lo hi : ℕ) : Prop :=
  ∃ peak, lo ≤ peak ∧ peak ≤ hi ∧
    (∀ x y, lo ≤ x → x < y → y ≤ peak → 0 < evalProfit x quote →
      evalProfit x quote < evalProfit y quote) ∧
    ∀ x y, peak ≤ x → x < y → y ≤ hi → 0 < evalProfit y quote →
      evalProfit y quote < evalProfit x quote

theorem UnimodalProfit.neverRisesAgain {lo hi : ℕ} (h : UnimodalProfit quote lo hi) :
    NeverRisesAgain (evalProfit · quote) lo hi := by
  obtain ⟨peak, -, -, hrise, hfall⟩ := h
  intro u v w hu huv hvw hw hle hpos
  have hpeak : peak < v := by
    by_contra hge
    have := hrise u v hu huv (not_lt.mp hge) hpos
    dsimp only at hle
    omega
  rcases Nat.eq_or_lt_of_le hvw with rfl | hlt
  · exact le_rfl
  rcases Nat.eq_zero_or_pos (evalProfit w quote) with h0 | hwpos
  · exact h0.le.trans (Nat.zero_le _)
  · exact (hfall v w hpeak.le hlt hw hwpos).le

/-- What the documentation asks of a quote on `[lo, hi]`: it is defined there, and its output
    does not fall and is concave. -/
structure QuoteShape (quote : Quote) (lo hi : ℕ) : Prop where
  defined : ∀ x, lo ≤ x → x ≤ hi → (quote x).isSome
  mono : ∀ x y, lo ≤ x → x ≤ y → y ≤ hi → (quote x).getD 0 ≤ (quote y).getD 0
  concave : ConcaveBetween (fun x => ((quote x).getD 0 : ℤ)) lo hi

/-- Two quotes of that shape, one after the other, have it too. -/
theorem QuoteShape.combined {quoteA quoteB : Quote} {lo hi : ℕ} (hA : QuoteShape quoteA lo hi)
    (hB : QuoteShape quoteB ((quoteA lo).getD 0) ((quoteA hi).getD 0)) :
    QuoteShape (combined quoteA quoteB) lo hi := by
  have hval : ∀ x, lo ≤ x → x ≤ hi → ∃ mid, quoteA x = some mid ∧ (quoteA lo).getD 0 ≤ mid ∧
      mid ≤ (quoteA hi).getD 0 := by
    intro x hx hx'
    obtain ⟨mid, hmid⟩ := Option.isSome_iff_exists.mp (hA.defined x hx hx')
    have h1 := hA.mono lo x le_rfl hx hx'
    have h2 := hA.mono x hi hx hx' le_rfl
    rw [hmid, Option.getD_some] at h1 h2
    exact ⟨mid, hmid, h1, h2⟩
  have heq : ∀ x, lo ≤ x → x ≤ hi → (Math.combined quoteA quoteB x).getD 0 =
      (quoteB ((quoteA x).getD 0)).getD 0 := by
    intro x hx hx'
    obtain ⟨mid, hmid, -⟩ := hval x hx hx'
    rw [Math.combined, hmid]
    rfl
  have hmem : ∀ x, lo ≤ x → x ≤ hi → (quoteA lo).getD 0 ≤ (quoteA x).getD 0 ∧
      (quoteA x).getD 0 ≤ (quoteA hi).getD 0 := by
    intro x hx hx'
    obtain ⟨mid, hmid, h1, h2⟩ := hval x hx hx'
    rw [hmid]
    exact ⟨h1, h2⟩
  constructor
  · intro x hx hx'
    obtain ⟨mid, hmid, h1, h2⟩ := hval x hx hx'
    rw [Math.combined, hmid]
    exact hB.defined mid h1 h2
  · intro x y hx hxy hy
    rw [heq x hx (hxy.trans hy), heq y (hx.trans hxy) hy]
    exact hB.mono _ _ (hmem x hx (hxy.trans hy)).1 (hA.mono x y hx hxy hy)
      (hmem y (hx.trans hxy) hy).2
  · have hcomp := ConcaveBetween.comp hA.concave hA.mono hB.concave
      (fun x y h1 h2 h3 => by exact_mod_cast hB.mono x y h1 h2 h3)
      (fun x hx hx' => (hmem x hx hx').1) fun x hx hx' => (hmem x hx hx').2
    intro x hx hx'
    have := hcomp x hx hx'
    dsimp only at this ⊢
    rw [heq x hx (by omega), heq (x + 1) (by omega) (by omega), heq (x + 2) (by omega) hx']
    exact this

theorem QuoteShape.neverRisesAgain {lo hi : ℕ} (h : QuoteShape quote lo hi) :
    NeverRisesAgain (evalProfit · quote) lo hi := by
  have hprofit : ∀ x, lo ≤ x → x ≤ hi →
      (evalProfit x quote : ℤ) = max 0 (((quote x).getD 0 : ℤ) - x) := by
    intro x hx hx'
    obtain ⟨out, hout⟩ := Option.isSome_iff_exists.mp (h.defined x hx hx')
    rw [evalProfit, hout, Option.getD_some]
    dsimp only
    split_ifs <;> omega
  intro u v w hu huv hvw hw hle hpos
  have h1 := hprofit u hu (by omega)
  have h2 := hprofit v (by omega) (by omega)
  have h3 := hprofit w (by omega) hw
  dsimp only at hle hpos ⊢
  have := h.concave.sub_id.falls hu huv hvw hw (by omega)
  omega

end MevScout.Pool.Math
