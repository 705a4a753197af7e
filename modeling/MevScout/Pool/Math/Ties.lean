import MevScout.Pool.Math.Segments

/-!
# Ties of the golden-section search

The golden-section search compares profits that are zero wherever the path is not profitable.
Two unprofitable probes tie, and a tie always discards the left part of the bracket. Until a
probe is profitable the search therefore follows one fixed chain of inputs.

Results:
* `evaluated_congr`: what is evaluated depends on the profits of the evaluated inputs alone;
* `optimalTwoHopArbGeneric_isSome_iff`: the optimizer finds a profit exactly on that chain;
* `findsProfit_iff`: when it finds a profitable input that exists.
-/

namespace MevScout.Pool.Math

variable {quote quote' : Quote} {s : GoldenState}

/-! ## Evaluated inputs -/

theorem GoldenState.next_congr
    (h : evalProfit s.probe quote = evalProfit s.probe quote') : s.next quote = s.next quote' := by
  unfold GoldenState.next
  rw [h]

theorem loopProbes_congr (n : ℕ) (h : ∀ p ∈ loopProbes quote n s,
    evalProfit p quote = evalProfit p quote') :
    loopProbes quote n s = loopProbes quote' n s := by
  induction n generalizing s with
  | zero => rfl
  | succ n ih =>
    rw [loopProbes] at h
    rw [loopProbes, loopProbes]
    split_ifs at h ⊢
    · rfl
    · have hnext := GoldenState.next_congr (h s.probe List.mem_cons_self)
      rw [ih fun p hp => h p (List.mem_cons_of_mem _ hp), hnext]

theorem goldenProbes_congr {lo hi n : ℕ} (h : ∀ p ∈ goldenProbes lo hi quote n,
    evalProfit p quote = evalProfit p quote') :
    goldenProbes lo hi quote n = goldenProbes lo hi quote' n := by
  unfold goldenProbes at h ⊢
  split_ifs at h ⊢ with h1 h2
  · rfl
  · rfl
  · have hinit : goldenInit lo hi quote = goldenInit lo hi quote' := by
      unfold goldenInit
      rw [h (leftProbe lo hi) (by simp), h (rightProbe lo hi) (by simp)]
    rw [loopProbes_congr n fun p hp => h p (List.mem_cons_of_mem _ (List.mem_cons_of_mem _ hp)),
      hinit]

/-- What the search evaluates depends on the profits of the evaluated inputs alone. -/
theorem evaluated_congr {maxInput : ℕ} {breakpoints : List ℕ}
    (h : ∀ x ∈ evaluated maxInput breakpoints quote, evalProfit x quote = evalProfit x quote') :
    evaluated maxInput breakpoints quote = evaluated maxInput breakpoints quote' := by
  unfold evaluated at h ⊢
  refine List.flatMap_congr fun b hb => ?_
  have hb' : ∀ x ∈ bracketEvaluated quote b, evalProfit x quote = evalProfit x quote' :=
    fun x hx => h x (List.mem_flatMap.mpr ⟨b, hb, hx⟩)
  unfold bracketEvaluated at hb' ⊢
  split_ifs at hb' ⊢
  · rw [goldenProbes_congr fun p hp => hb' p (by simp [hp])]
  · rfl

/-- The bounds and probes of a state lie in `[a, b]`. -/
def Within (a b : ℕ) (s : GoldenState) : Prop :=
  (a ≤ s.lo ∧ s.lo ≤ b) ∧ (a ≤ s.hi ∧ s.hi ≤ b) ∧ (a ≤ s.x1 ∧ s.x1 ≤ b) ∧ a ≤ s.x2 ∧ s.x2 ≤ b

theorem Within.probe {a b : ℕ} (h : Within a b s) (hgo : s.lo + 2 ≤ s.hi) :
    a ≤ s.probe ∧ s.probe ≤ b := by
  obtain ⟨hlo, hhi, h1, h2⟩ := h
  unfold GoldenState.probe leftProbe rightProbe
  split_ifs <;> omega

theorem Within.next {a b : ℕ} (h : Within a b s) (hgo : s.lo + 2 ≤ s.hi) :
    Within a b (s.next quote) := by
  have hp := h.probe hgo
  obtain ⟨hlo, hhi, h1, h2⟩ := h
  unfold GoldenState.next
  split_ifs
  · exact ⟨hlo, h2, hp, h1⟩
  · exact ⟨h1, hhi, h2, hp⟩

theorem loopProbes_mem {a b : ℕ} (n : ℕ) (h : Within a b s) :
    ∀ p ∈ loopProbes quote n s, a ≤ p ∧ p ≤ b := by
  induction n generalizing s with
  | zero => simp [loopProbes]
  | succ n ih =>
    rw [loopProbes]
    split_ifs with hstop
    · simp
    · intro p hp
      rcases List.mem_cons.mp hp with rfl | hp
      · exact h.probe (by omega)
      · exact ih (h.next (by omega)) p hp

theorem goldenProbes_mem {lo hi : ℕ} (n : ℕ) (hlo : 1 ≤ lo) :
    ∀ p ∈ goldenProbes lo hi quote n, lo ≤ p ∧ p ≤ hi := by
  unfold goldenProbes
  split_ifs with h1 h2
  · simp
  · intro p hp
    rw [List.mem_singleton.mp hp]
    omega
  · intro p hp
    have hl : lo ≤ leftProbe lo hi ∧ leftProbe lo hi ≤ hi := leftProbe_mem (by omega)
    have hr : lo ≤ rightProbe lo hi ∧ rightProbe lo hi ≤ hi := rightProbe_mem (by omega)
    rcases List.mem_cons.mp hp with rfl | hp
    · exact hl
    rcases List.mem_cons.mp hp with rfl | hp
    · exact hr
    · exact loopProbes_mem n ⟨⟨le_rfl, by show lo ≤ hi; omega⟩, ⟨by show lo ≤ hi; omega, le_rfl⟩,
        hl, hr⟩ p hp

/-- A search without breakpoints evaluates inputs of `[1, max_input]`. -/
theorem evaluated_mem {maxInput : ℕ} {x : ℕ} (h : x ∈ evaluated maxInput [] quote) :
    1 ≤ x ∧ x ≤ maxInput := by
  obtain ⟨b, hb, hx⟩ := List.mem_flatMap.mp h
  unfold brackets at hb
  split_ifs at hb with h0
  · exact absurd hb List.not_mem_nil
  · have hb' : b = (1, maxInput) := by simpa [segmentCuts, bracketsFrom] using hb
    rw [hb'] at hx
    unfold bracketEvaluated at hx
    dsimp only at hx
    rcases List.mem_cons.mp hx with rfl | hx
    · omega
    split_ifs at hx with hlt
    · rcases List.mem_cons.mp hx with rfl | hx
      · omega
      · exact goldenProbes_mem _ le_rfl x hx
    · exact absurd hx List.not_mem_nil

/-! ## The chain of ties -/

/-- The inputs that the search tries while nothing is profitable: 1, `max_input` and the probes
    of always discarding the left part. They depend on `max_input` alone. -/
def tieProbes (maxInput : ℕ) : List ℕ := evaluated maxInput [] fun _ => none

/-- A search finds a profitable input exactly when one of the tie probes is profitable. -/
theorem exists_evaluated_iff (maxInput : ℕ) (quote : Quote) :
    (∃ x ∈ evaluated maxInput [] quote, Profitable quote x) ↔
      ∃ x ∈ tieProbes maxInput, Profitable quote x := by
  have hzero : ∀ x, ¬ Profitable quote x → evalProfit x quote = evalProfit x fun _ => none := by
    intro x hx
    show evalProfit x quote = 0
    have := mt evalProfit_pos_iff.mp hx
    omega
  constructor
  · rintro ⟨x, hx, hprofit⟩
    by_contra hnone
    push Not at hnone
    have heq : tieProbes maxInput = evaluated maxInput [] quote :=
      evaluated_congr fun y hy => (hzero y (hnone y hy)).symm
    exact hnone x (heq ▸ hx) hprofit
  · rintro ⟨x, hx, hprofit⟩
    by_contra hnone
    push Not at hnone
    have heq : evaluated maxInput [] quote = tieProbes maxInput :=
      evaluated_congr fun y hy => hzero y (hnone y hy)
    exact hnone x (heq ▸ hx) hprofit

/-- **The optimizer returns a result exactly when a tie probe is profitable.** -/
theorem optimalTwoHopArbGeneric_isSome_iff (maxInput : ℕ) (quoteA quoteB : Quote) :
    (optimalTwoHopArbGeneric maxInput quoteA quoteB).isSome ↔
      ∃ x ∈ tieProbes maxInput, Profitable (combined quoteA quoteB) x := by
  rw [← exists_evaluated_iff, ← optimalOnSegments_isSome_iff]
  unfold optimalTwoHopArbGeneric
  split_ifs with h0
  · simp [optimalOnSegments, h0]
  cases hbest : optimalOnSegments maxInput [] (combined quoteA quoteB) with
  | none => simp
  | some o =>
    have hoffer := List.argmax_mem ((optimalOnSegments_eq _ _ _).symm.trans hbest)
    obtain ⟨x, -, hx⟩ := List.mem_filterMap.mp hoffer
    obtain ⟨rfl, hq, -⟩ := offer_eq_some.mp hx
    obtain ⟨mid, hmid, -⟩ := Option.bind_eq_some_iff.mp hq
    simp [hmid]

/-- What the documentation of the generic optimizer says: it returns a result exactly when
    some input is profitable. -/
def FindsProfit (maxInput : ℕ) (quoteA quoteB : Quote) : Prop :=
  (optimalTwoHopArbGeneric maxInput quoteA quoteB).isSome ↔
    ∃ x, 1 ≤ x ∧ x ≤ maxInput ∧ Profitable (combined quoteA quoteB) x

/-- **Main theorem.** A profitable input is found exactly when one of the tie probes is
    profitable. -/
theorem findsProfit_iff (maxInput : ℕ) (quoteA quoteB : Quote) :
    FindsProfit maxInput quoteA quoteB ↔
      (∀ x, 1 ≤ x → x ≤ maxInput → ¬ Profitable (combined quoteA quoteB) x) ∨
        ∃ x ∈ tieProbes maxInput, Profitable (combined quoteA quoteB) x := by
  unfold FindsProfit
  rw [optimalTwoHopArbGeneric_isSome_iff]
  constructor
  · intro h
    by_cases hex : ∃ x ∈ tieProbes maxInput, Profitable (combined quoteA quoteB) x
    · exact Or.inr hex
    · exact Or.inl fun x h1 h2 hprofit => hex (h.mpr ⟨x, h1, h2, hprofit⟩)
  · rintro (hnone | hex)
    · constructor
      · rintro ⟨x, hx, hprofit⟩
        obtain ⟨h1, h2⟩ := evaluated_mem hx
        exact absurd hprofit (hnone x h1 h2)
      · rintro ⟨x, h1, h2, hprofit⟩
        exact absurd hprofit (hnone x h1 h2)
    · refine iff_of_true hex ?_
      obtain ⟨x, hx, hprofit⟩ := hex
      obtain ⟨h1, h2⟩ := evaluated_mem hx
      exact ⟨x, h1, h2, hprofit⟩

/-- A first hop that doubles its input, less two, up to an output of 100. -/
def toll : Quote := fun x => some (min (2 * x - 2) 100)

/-- Between 3 and 99 the path is profitable, and the search does not see it. -/
theorem profitable_region_lost :
    QuoteShape toll 1 100000 ∧ QuoteShape some 0 100 ∧ ¬ FindsProfit 100000 toll some := by
  refine ⟨⟨fun _ _ _ => rfl, fun x y h1 h2 h3 => ?_, fun x h1 h2 => ?_⟩,
    ⟨fun _ _ _ => rfl, fun x y h1 h2 h3 => h2, fun x h1 h2 => ?_⟩, fun h => ?_⟩
  · show min (2 * x - 2) 100 ≤ min (2 * y - 2) 100
    omega
  · show ((min (2 * x - 2) 100 : ℕ) : ℤ) + (min (2 * (x + 2) - 2) 100 : ℕ) ≤
      2 * (min (2 * (x + 1) - 2) 100 : ℕ)
    omega
  · show (x : ℤ) + (x + 2 : ℕ) ≤ 2 * (x + 1 : ℕ)
    omega
  · have hnone : optimalTwoHopArbGeneric 100000 toll some = none := by decide +kernel
    have hsome := h.mpr ⟨50, by omega, by omega, 98, rfl, by omega⟩
    rw [hnone] at hsome
    cases hsome

end MevScout.Pool.Math
