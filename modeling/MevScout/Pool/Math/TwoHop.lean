import MevScout.Pool.Math.Search
import MevScout.Pool.Sim

/-!
# The closed-form two-hop optimizer

Models of `isqrt_u512`, `optimal_two_hop_arb` and `simulate_two_hop`
(`core/src/pool/math/core.rs`). The optimizer computes the real-valued optimum of two
constant-product pools with rounded square roots and simulates six inputs around it. All of
its 512-bit products stay below `2 ^ 512`, so that they are natural numbers here.

Results:
* `isqrtU512_eq`: Newton's iteration gives the integer square root;
* `optimalTwoHopArb_eq`: the optimizer returns the most profitable of the inputs it tries;
* `findsOptimum_iff`: when this is the optimum of the whole range.
-/

namespace MevScout.Pool.Math

/-! ## Model -/

/-- The loop of `isqrt_u512` (`core.rs`, lines 34–40). -/
def isqrtLoop (n x : ℕ) : ℕ :=
  if (x + n / x) / 2 ≥ x then x else isqrtLoop n ((x + n / x) / 2)
termination_by x

/-- Model of `isqrt_u512` (lines 23–41). The number of bits that the first loop counts is
    `Nat.size n`. -/
def isqrtU512 (n : ℕ) : ℕ :=
  if n = 0 then 0 else isqrtLoop n (2 ^ ((Nat.size n + 1) / 2))

/-- Model of `PoolQuote` (lines 126–130). -/
structure PoolQuote where
  reserveIn : ℕ
  reserveOut : ℕ
  fee : FeeTier
  deriving DecidableEq, Repr

/-- Model of `simulate_two_hop` (lines 248–263). -/
def simulateTwoHop (inputAmount : ℕ) (a b : PoolQuote) : Option TwoHopArbResult := do
  let intermediate ← constantProductOutputAmount inputAmount a.reserveIn a.reserveOut a.fee
  let output ← constantProductOutputAmount intermediate b.reserveIn b.reserveOut b.fee
  if output ≤ inputAmount then none
  else
    some { inputAmount, intermediateAmount := intermediate, outputAmount := output,
           profit := output - inputAmount }

/-- `max_input` of `optimal_two_hop_arb` (line 184). -/
def maxInput (a b : PoolQuote) : ℕ := min a.reserveIn b.reserveOut

/-- The body of the loop over the candidates (lines 234–243). -/
def tryCandidate (a b : PoolQuote) (best : Option TwoHopArbResult) (cand : ℕ) :
    Option TwoHopArbResult :=
  if cand = 0 ∨ cand > maxInput a b then best
  else
    match simulateTwoHop cand a b with
    | some r =>
      match best with
      | some kept => if kept.profit ≥ r.profit then best else some r
      | none => some r
    | none => best

/-- `x*`, rounded down and limited to `max_input` (lines 184–223); `none` where the code
    returns before it tries any candidate. -/
def optimumBase (a b : PoolQuote) : Option ℕ :=
  if maxInput a b < 2 ∨ a.reserveOut = 0 ∨ b.reserveIn = 0 then none
  else
    let (na, da) := a.fee.keptFraction
    let (nb, db) := b.fee.keptFraction
    let d0 := a.reserveIn * b.reserveIn * da * db
    let d1 := b.reserveIn * db * na + na * nb * a.reserveOut
    if d1 = 0 then none
    else
      let root := isqrtU512 (da * na * db * nb) * isqrtU512 (a.reserveOut * b.reserveOut) *
        isqrtU512 (a.reserveIn * b.reserveIn)
      if root ≤ d0 then none else some (min ((root - d0) / d1) (maxInput a b))

/-- The six candidates around `base` (lines 224–233). -/
def candidateWindow (max base : ℕ) : List ℕ :=
  let spread := min (Nat.max (base / 2 ^ 30) 2) max
  [base - spread, base - 1, base, saturatingAdd 128 base 1, saturatingAdd 128 base spread, max]

/-- Model of `optimal_two_hop_arb` (lines 183–246). -/
def optimalTwoHopArb (a b : PoolQuote) : Option TwoHopArbResult :=
  match optimumBase a b with
  | none => none
  | some base => (candidateWindow (maxInput a b) base).foldl (tryCandidate a b) none

/-! ## The integer square root -/

/-- One Newton step does not fall below the root. -/
theorem lt_newton_sq {n x : ℕ} (hx : 0 < x) :
    n < ((x + n / x) / 2 + 1) * ((x + n / x) / 2 + 1) := by
  set q := n / x with hq
  set y := (x + q) / 2 with hy
  have hn : n < (q + 1) * x := by
    have := Nat.div_add_mod n x
    have := Nat.mod_lt n hx
    rw [← hq] at *
    nlinarith
  have hsum : q + 1 + x ≤ 2 * (y + 1) := by omega
  -- the geometric mean of `q + 1` and `x` is at most their arithmetic mean
  have hmean : 4 * ((q + 1) * x) ≤ (q + 1 + x) * (q + 1 + x) := by
    zify
    nlinarith [sq_nonneg ((q : ℤ) + 1 - x)]
  have hsq : (q + 1 + x) * (q + 1 + x) ≤ 2 * (y + 1) * (2 * (y + 1)) := Nat.mul_le_mul hsum hsum
  nlinarith

theorem isqrtLoop_eq {n : ℕ} (hn : 0 < n) (x : ℕ) (hx : 0 < x) (hlt : n < (x + 1) * (x + 1)) :
    isqrtLoop n x = Nat.sqrt n := by
  induction x using Nat.strong_induction_on with
  | _ x ih =>
    rw [isqrtLoop]
    split_ifs with hstop
    · have hdiv : x ≤ n / x := by omega
      have hle : x * x ≤ n := (Nat.le_div_iff_mul_le hx).mp hdiv
      exact Nat.eq_sqrt.mpr ⟨hle, hlt⟩
    · have hy : 0 < (x + n / x) / 2 := by
        rcases Nat.lt_or_ge x 2 with h1 | h2
        · obtain rfl : x = 1 := by omega
          rw [Nat.div_one] at hstop ⊢
          omega
        · have : 0 ≤ n / x := Nat.zero_le _
          generalize n / x = q at *
          omega
      exact ih _ (by omega) hy (lt_newton_sq hx)

/-- The start value is above the root: it has half of the bits of `n`, rounded up. -/
theorem lt_start_sq (n : ℕ) :
    n < (2 ^ ((Nat.size n + 1) / 2) + 1) * (2 ^ ((Nat.size n + 1) / 2) + 1) := by
  have hsize : n < 2 ^ Nat.size n := Nat.lt_size_self n
  have hle : 2 ^ Nat.size n ≤ 2 ^ ((Nat.size n + 1) / 2) * 2 ^ ((Nat.size n + 1) / 2) := by
    rw [← pow_add]
    exact Nat.pow_le_pow_right (by omega) (by omega)
  exact (hsize.trans_le hle).trans_le (Nat.mul_le_mul (Nat.le_succ _) (Nat.le_succ _))

/-- `isqrt_u512` is the integer square root. -/
theorem isqrtU512_eq (n : ℕ) : isqrtU512 n = Nat.sqrt n := by
  unfold isqrtU512
  split_ifs with h0
  · rw [h0, Nat.sqrt_zero]
  · exact isqrtLoop_eq (Nat.pos_of_ne_zero h0) _ (Nat.two_pow_pos _) (lt_start_sq n)

/-! ## The candidates -/

/-- The inputs that the optimizer simulates. -/
def triedInputs (a b : PoolQuote) : List ℕ :=
  match optimumBase a b with
  | none => []
  | some base => (candidateWindow (maxInput a b) base).filter fun c => 0 < c ∧ c ≤ maxInput a b

theorem mem_triedInputs {a b : PoolQuote} {c : ℕ} (h : c ∈ triedInputs a b) :
    1 ≤ c ∧ c ≤ maxInput a b := by
  unfold triedInputs at h
  cases hbase : optimumBase a b with
  | none =>
    rw [hbase] at h
    exact absurd h List.not_mem_nil
  | some base =>
    rw [hbase] at h
    exact of_decide_eq_true (List.mem_filter.mp h).2

theorem foldl_tryCandidate (a b : PoolQuote) (cands : List ℕ) (best : Option TwoHopArbResult) :
    cands.foldl (tryCandidate a b) best =
      ((cands.filter fun c => 0 < c ∧ c ≤ maxInput a b).filterMap
        (simulateTwoHop · a b)).foldl (List.argAux fun r s => s.profit < r.profit) best := by
  induction cands generalizing best with
  | nil => rfl
  | cons c cands ih =>
    rw [List.foldl_cons, ih]
    by_cases hc : 0 < c ∧ c ≤ maxInput a b
    · rw [List.filter_cons_of_pos (by simpa using hc), tryCandidate, if_neg (by omega)]
      cases hsim : simulateTwoHop c a b with
      | none => simp only [List.filterMap_cons, hsim]
      | some r =>
        simp only [List.filterMap_cons, hsim, List.foldl_cons]
        congr 1
        cases best with
        | none => rfl
        | some kept =>
          show (if kept.profit ≥ r.profit then some kept else some r) =
            if kept.profit < r.profit then some r else some kept
          split_ifs <;> first | rfl | omega
    · rw [List.filter_cons_of_neg (by simpa using hc), tryCandidate, if_pos (by omega)]

/-- **The optimizer returns the first most profitable result** of the inputs that it tries. -/
theorem optimalTwoHopArb_eq (a b : PoolQuote) : optimalTwoHopArb a b =
    ((triedInputs a b).filterMap (simulateTwoHop · a b)).argmax TwoHopArbResult.profit := by
  unfold optimalTwoHopArb triedInputs
  cases optimumBase a b with
  | none => rfl
  | some base =>
    dsimp only
    rw [foldl_tryCandidate]
    rfl

/-! ## The optimum -/

/-- No input of the range gives more than `r`. -/
def Optimal (a b : PoolQuote) (r : TwoHopArbResult) : Prop :=
  ∀ x, 1 ≤ x → x ≤ maxInput a b → ∀ s, simulateTwoHop x a b = some s → s.profit ≤ r.profit

/-- What the documentation says of the optimizer: it returns a result exactly when an input of
    the range is profitable, and the result is the best of the whole range. -/
def FindsOptimum (a b : PoolQuote) : Prop :=
  ((optimalTwoHopArb a b).isSome ↔
    ∃ x, 1 ≤ x ∧ x ≤ maxInput a b ∧ (simulateTwoHop x a b).isSome) ∧
  ∀ r, optimalTwoHopArb a b = some r →
    (∃ x, 1 ≤ x ∧ x ≤ maxInput a b ∧ simulateTwoHop x a b = some r) ∧ Optimal a b r

/-- **Main theorem.** The optimum is found exactly when there is none or one of the inputs
    that are tried attains it. -/
theorem findsOptimum_iff (a b : PoolQuote) : FindsOptimum a b ↔
    (∀ x, 1 ≤ x → x ≤ maxInput a b → simulateTwoHop x a b = none) ∨
      ∃ c ∈ triedInputs a b, ∃ r, simulateTwoHop c a b = some r ∧ Optimal a b r := by
  have htried : ∀ r, optimalTwoHopArb a b = some r →
      ∃ c ∈ triedInputs a b, simulateTwoHop c a b = some r := by
    intro r hr
    rw [optimalTwoHopArb_eq] at hr
    exact List.mem_filterMap.mp (List.argmax_mem hr)
  constructor
  · rintro ⟨hsome, hbest⟩
    cases hopt : optimalTwoHopArb a b with
    | none =>
      rw [hopt] at hsome
      refine Or.inl fun x h1 h2 => ?_
      by_contra hne
      have := hsome.mpr ⟨x, h1, h2, Option.isSome_iff_ne_none.mpr hne⟩
      cases this
    | some r =>
      obtain ⟨c, hc, hsim⟩ := htried r hopt
      exact Or.inr ⟨c, hc, r, hsim, (hbest r hopt).2⟩
  · rintro (hnone | ⟨c, hc, r, hsim, hoptimal⟩)
    · have hopt : optimalTwoHopArb a b = none := by
        by_contra hne
        obtain ⟨r, hr⟩ := Option.ne_none_iff_exists'.mp hne
        obtain ⟨c, hc, hsim⟩ := htried r hr
        obtain ⟨h1, h2⟩ := mem_triedInputs hc
        rw [hnone c h1 h2] at hsim
        cases hsim
      refine ⟨?_, fun r hr => by rw [hopt] at hr; cases hr⟩
      rw [hopt]
      refine iff_of_false (by simp) ?_
      rintro ⟨x, h1, h2, hx⟩
      rw [hnone x h1 h2] at hx
      cases hx
    · have hmem : r ∈ (triedInputs a b).filterMap (simulateTwoHop · a b) :=
        List.mem_filterMap.mpr ⟨c, hc, hsim⟩
      obtain ⟨h1, h2⟩ := mem_triedInputs hc
      obtain ⟨best, hbest⟩ : ∃ best, optimalTwoHopArb a b = some best := by
        rw [← Option.ne_none_iff_exists', optimalTwoHopArb_eq, Ne, List.argmax_eq_none]
        exact List.ne_nil_of_mem hmem
      refine ⟨iff_of_true (by rw [hbest]; rfl) ⟨c, h1, h2, by rw [hsim]; rfl⟩, fun r' hr' => ?_⟩
      obtain ⟨c', hc', hsim'⟩ := htried r' hr'
      obtain ⟨h1', h2'⟩ := mem_triedInputs hc'
      refine ⟨⟨c', h1', h2', hsim'⟩, fun x hx hx' s hs => ?_⟩
      rw [optimalTwoHopArb_eq] at hr'
      exact (hoptimal x hx hx' s hs).trans (List.le_of_mem_argmax hmem hr')

/-- Two small pools at 25 and 30 basis points. -/
def thinLegA : PoolQuote := ⟨4, 12, .bps 25⟩
def thinLegB : PoolQuote := ⟨12, 14, .bps 30⟩

/-- The input 3 earns 1, and the optimizer tries 1, 2 and 4 alone. -/
theorem optimum_outside_window :
    (∀ x, 1 ≤ x → x ≤ maxInput thinLegA thinLegB →
      ((constantProductOutputAmount x 4 12 (.bps 25)).bind
        (constantProductOutputAmount · 12 14 (.bps 30))).isSome) ∧
      ¬ FindsOptimum thinLegA thinLegB := by
  have hmax : maxInput thinLegA thinLegB = 4 := rfl
  constructor
  · intro x h1 h2
    rw [hmax] at h2
    interval_cases x <;> decide
  · rintro ⟨hsome, -⟩
    have hbase : optimumBase thinLegA thinLegB = some 0 := by
      simp only [optimumBase, isqrtU512_eq, hmax]
      norm_num [thinLegA, thinLegB, FeeTier.keptFraction, FeeTier.fraction, bpsFeeDenom]
    have hnone : optimalTwoHopArb thinLegA thinLegB = none := by
      rw [optimalTwoHopArb, hbase]
      decide
    have := hsome.mpr ⟨3, by omega, by omega, by decide⟩
    rw [hnone] at this
    cases this

end MevScout.Pool.Math
