import Mathlib
import MevScout.Pool.Types

/-!
# Quotes of Balancer stable pools

Model of `balancer_stable_output_amount` (`core/src/pool/math/balancer.rs`) with exact real numbers
in place of `f64`. The two Newton solvers of `stable_swap.rs` can be any functions of their
arguments.

The balances are scaled before the invariant is computed. The input and the output are not: the
input is added to a scaled balance as it is, and the output is the difference of two scaled
balances.

Results:
* `scaledBalances_normalized`: scaling the balances ahead changes none of them;
* `stableOutput_of_reaches`: an input that reaches the solvers is quoted from their arguments;
* `convertsUnits_iff`: when the input and the output are converted;
* `mixed_decimals_not_converted`: a pool of tokens with 6 and 18 decimals.
-/

namespace MevScout.Pool.Math

noncomputable section

/-! ## The model -/

/-- `newton_stableswap_invariant` and `newton_stableswap_output` (`stable_swap.rs`). -/
structure StableSolvers where
  invariant : ℕ → ℝ → ℝ → ℝ → ℝ → Option ℝ
  output : ℕ → ℝ → ℝ → ℝ → ℝ → Option ℝ

/-- The fields that the quote of a stable pool reads, with real amounts. -/
structure StablePool where
  balances : List ℝ
  scalingFactors : List ℝ
  tokenIndex : TokenSlots
  bptIndex : Option ℕ
  amplification : Option ℕ
  fee : ℕ

/-- The fields of a pool, read as real numbers. -/
def stablePool (pool : BalancerPoolState) : StablePool where
  balances := pool.balances.map fun b : ℕ => (b : ℝ)
  scalingFactors := pool.scalingFactors.map fun s : ℕ => (s : ℝ)
  tokenIndex := pool.tokenIndex
  bptIndex := pool.bptIndex
  amplification := pool.amplification
  fee := pool.info.fee

/-- The index of a token among the balances without the BPT (`balancer.rs`, lines 131–137). -/
def remap (bptIndex : Option ℕ) (orig : ℕ) : Option ℕ :=
  match bptIndex with
  | some bpt => if bpt < orig then some (orig - 1) else if orig = bpt then none else some orig
  | none => some orig

namespace StablePool

/-- `has_scaling` (`balancer.rs`, line 109). -/
def hasScaling (p : StablePool) : Prop :=
  p.scalingFactors.length = p.balances.length ∧ p.scalingFactors ≠ []

open Classical in
/-- The balances without the BPT, scaled (`balancer.rs`, lines 112–125). `WEI_PER_ETHER` is
    `10 ^ 18`. -/
def scaledBalances (p : StablePool) : List ℝ :=
  (p.balances.zipIdx.filter fun b => p.bptIndex ≠ some b.2).map fun b =>
    if p.hasScaling then b.1 * p.scalingFactors.getD b.2 0 / 10 ^ 18 else b.1

/-- The part of the input that is left after the fee (`balancer.rs`, line 149). -/
def feeFactor (p : StablePool) : ℝ := 1 - p.fee / 10 ^ 6

end StablePool

/-- The balances at the other positions (`balancer.rs`, lines 152–166). -/
def others (scaled : List ℝ) (positions : List ℕ) : List ℝ :=
  (scaled.zipIdx.filter fun b => b.2 ∉ positions).map Prod.fst

open Classical in
/-- `balancer_stable_output_amount` from the scaled balances on (`balancer.rs`, lines 139–189). -/
def swapScaled (S : StableSolvers) (p : StablePool) (si so : ℕ) (amountIn : ℝ) : Option ℝ :=
  let scaled := p.scaledBalances
  if scaled.length ≤ si ∨ scaled.length ≤ so then none
  else if scaled.getD si 0 ≤ 0 ∨ scaled.getD so 0 ≤ 0 then none
  else
    let n := scaled.length
    let ann := (p.amplification.getD 100 : ℝ) * (n : ℝ) ^ n
    if scaled.prod ≤ 0 then none
    else do
      let d ← S.invariant n ann scaled.sum scaled.prod scaled.sum
      let xInNew := scaled.getD si 0 + amountIn * p.feeFactor
      let sumOthers := (others scaled [so]).sum + (xInNew - scaled.getD si 0)
      let prodOthers := (others scaled [so, si]).prod * xInNew
      if prodOthers ≤ 0 then none
      else
        let xOutNew ← S.output n ann d sumOthers prodOthers
        let output := scaled.getD so 0 - xOutNew
        if 0 < output then some output else none

open Classical in
/-- Model of `balancer_stable_output_amount` (`balancer.rs`, lines 95–189) up to the final
    truncation. -/
def stableOutput (S : StableSolvers) (amountIn : ℝ) (p : StablePool) (tokenIn tokenOut : Address) :
    Option ℝ :=
  if p.balances.length < 2 ∨ amountIn = 0 then none
  else do
    let idxIn ← p.tokenIndex[tokenIn]?
    let idxOut ← p.tokenIndex[tokenOut]?
    if p.scaledBalances.length < 2 then none
    else
      let si ← remap p.bptIndex idxIn
      let so ← remap p.bptIndex idxOut
      swapScaled S p si so amountIn

/-- `as u128` on a real number that is not negative. -/
def truncU128 (x : ℝ) : ℕ := min ⌊x⌋₊ (2 ^ 128 - 1)

/-- Model of `balancer_stable_output_amount` (`balancer.rs`, lines 95–189). -/
def balancerStableOutputAmount (S : StableSolvers) (amountIn : ℕ) (pool : BalancerPoolState)
    (tokenIn tokenOut : Address) : Option ℕ :=
  (stableOutput S amountIn (stablePool pool) tokenIn tokenOut).map truncU128

/-! ## Scaling ahead -/

namespace StablePool

/-- The pool whose balances are already scaled, and whose factors are all `10 ^ 18`. -/
def normalized (p : StablePool) : StablePool :=
  { p with
    balances := List.zipWith (fun b s => b * s / 10 ^ 18) p.balances p.scalingFactors
    scalingFactors := List.replicate p.balances.length (10 ^ 18) }

/-- The scaling factor of a token. -/
def factor (p : StablePool) (token : Address) : ℝ :=
  (p.tokenIndex[token]?.bind (p.scalingFactors[·]?)).getD (10 ^ 18)

end StablePool

variable {S : StableSolvers} {p : StablePool} {tokenIn tokenOut : Address} {x y : ℝ}

theorem length_normalized (h : p.scalingFactors.length = p.balances.length) :
    p.normalized.balances.length = p.balances.length := by
  simp [StablePool.normalized, h]

theorem zipIdx_normalized (h : p.scalingFactors.length = p.balances.length) :
    p.normalized.balances.zipIdx =
      p.balances.zipIdx.map fun b => (b.1 * p.scalingFactors.getD b.2 0 / 10 ^ 18, b.2) := by
  apply List.ext_getElem
  · simp [length_normalized h]
  · intro i hi hi'
    have hlt : i < p.scalingFactors.length := by
      simpa [length_normalized h, h] using hi
    simp [StablePool.normalized, hlt]

/-- The scaled balances of a pool are those of its normalized form. -/
theorem scaledBalances_normalized (h : p.scalingFactors.length = p.balances.length) :
    p.normalized.scaledBalances = p.scaledBalances := by
  unfold StablePool.scaledBalances
  rw [zipIdx_normalized h, List.filter_map, List.map_map]
  apply List.map_congr_left
  intro b hb
  have hlt : b.2 < p.balances.length := by
    have hmem := List.mem_of_mem_filter hb
    obtain ⟨-, hlt, -⟩ := List.mem_zipIdx hmem
    omega
  have hne : p.balances ≠ [] := List.ne_nil_of_length_pos (by omega)
  have hscaling : p.hasScaling := by
    refine ⟨h, List.ne_nil_of_length_pos (by omega)⟩
  have hscaling' : p.normalized.hasScaling := by
    refine ⟨?_, by simp [StablePool.normalized, hne]⟩
    rw [length_normalized h]
    simp [StablePool.normalized]
  have hfactor : p.normalized.scalingFactors.getD b.2 0 = 10 ^ 18 := by
    simp [StablePool.normalized, List.getD_eq_getElem?_getD, hlt]
  rw [Function.comp_apply, if_pos hscaling', if_pos hscaling, hfactor]
  field_simp

/-- A pool and its normalized form quote the same. -/
theorem stableOutput_normalized (h : p.scalingFactors.length = p.balances.length) :
    stableOutput S y p.normalized tokenIn tokenOut = stableOutput S y p tokenIn tokenOut := by
  unfold stableOutput swapScaled
  rw [length_normalized h]
  simp only [scaledBalances_normalized h]
  rfl

/-! ## What the solvers get -/

/-- The arguments of the solvers, and the balance that the output is taken from. -/
structure StableArgs where
  n : ℕ
  ann : ℝ
  sum : ℝ
  prod : ℝ
  sumOthers : ℝ
  prodOthers : ℝ
  balanceOut : ℝ

open Classical in
/-- The solvers on their arguments. -/
def StableArgs.solve (S : StableSolvers) (a : StableArgs) : Option ℝ := do
  let d ← S.invariant a.n a.ann a.sum a.prod a.sum
  let xOutNew ← S.output a.n a.ann d a.sumOthers a.prodOthers
  if 0 < a.balanceOut - xOutNew then some (a.balanceOut - xOutNew) else none

namespace StablePool

/-- The arguments of the solvers for an input of the token at `si`. -/
def args (p : StablePool) (si so : ℕ) (amountIn : ℝ) : StableArgs :=
  let scaled := p.scaledBalances
  let xInNew := scaled.getD si 0 + amountIn * p.feeFactor
  { n := scaled.length
    ann := (p.amplification.getD 100 : ℝ) * (scaled.length : ℝ) ^ scaled.length
    sum := scaled.sum
    prod := scaled.prod
    sumOthers := (others scaled [so]).sum + (xInNew - scaled.getD si 0)
    prodOthers := (others scaled [so, si]).prod * xInNew
    balanceOut := scaled.getD so 0 }

/-- The tokens are two of the pool, at `si` and `so` of the scaled balances, which are positive. -/
structure Routes (p : StablePool) (tokenIn tokenOut : Address) (si so : ℕ) : Prop where
  two_le : 2 ≤ p.balances.length
  scaled_two_le : 2 ≤ p.scaledBalances.length
  tokenIn_at : p.tokenIndex[tokenIn]?.bind (remap p.bptIndex) = some si
  tokenOut_at : p.tokenIndex[tokenOut]?.bind (remap p.bptIndex) = some so
  si_lt : si < p.scaledBalances.length
  so_lt : so < p.scaledBalances.length
  balanceIn_pos : 0 < p.scaledBalances.getD si 0
  balanceOut_pos : 0 < p.scaledBalances.getD so 0
  prod_pos : 0 < p.scaledBalances.prod

/-- An input reaches the solvers: the tokens are two of the pool, and the product of the other
    balances with the input is positive. -/
structure Reaches (p : StablePool) (tokenIn tokenOut : Address) (si so : ℕ) (amountIn : ℝ) :
    Prop where
  routes : p.Routes tokenIn tokenOut si so
  amountIn_ne : amountIn ≠ 0
  prodOthers_pos : 0 < (p.args si so amountIn).prodOthers

end StablePool

theorem swapScaled_eq (S : StableSolvers) {si so : ℕ} (hsi : si < p.scaledBalances.length)
    (hso : so < p.scaledBalances.length) (hin : 0 < p.scaledBalances.getD si 0)
    (hout : 0 < p.scaledBalances.getD so 0) (hprod : 0 < p.scaledBalances.prod)
    (hothers : 0 < (p.args si so x).prodOthers) :
    swapScaled S p si so x = (p.args si so x).solve S := by
  have hlen : ¬(p.scaledBalances.length ≤ si ∨ p.scaledBalances.length ≤ so) := by omega
  have hpos : ¬(p.scaledBalances.getD si 0 ≤ 0 ∨ p.scaledBalances.getD so 0 ≤ 0) := by
    rw [not_or, not_le, not_le]
    exact ⟨hin, hout⟩
  unfold swapScaled
  dsimp only
  rw [if_neg hlen, if_neg hpos, if_neg (not_le.mpr hprod)]
  unfold StablePool.args at hothers
  dsimp only at hothers
  simp only [if_neg (not_le.mpr hothers)]
  rfl

/-- **An input that reaches the solvers is quoted from their arguments.** -/
theorem stableOutput_of_reaches (S : StableSolvers) {si so : ℕ}
    (h : p.Reaches tokenIn tokenOut si so x) :
    stableOutput S x p tokenIn tokenOut = (p.args si so x).solve S := by
  have hr := h.routes
  obtain ⟨idxIn, hidxIn, hsi⟩ := Option.bind_eq_some_iff.mp hr.tokenIn_at
  obtain ⟨idxOut, hidxOut, hso⟩ := Option.bind_eq_some_iff.mp hr.tokenOut_at
  have hguard : ¬(p.balances.length < 2 ∨ x = 0) := by
    rw [not_or]
    exact ⟨not_lt.mpr hr.two_le, h.amountIn_ne⟩
  unfold stableOutput
  rw [if_neg hguard, hidxIn, hidxOut]
  simp only [Option.bind_eq_bind, Option.bind_some, if_neg (not_lt.mpr hr.scaled_two_le), hsi, hso]
  exact swapScaled_eq S hr.si_lt hr.so_lt hr.balanceIn_pos hr.balanceOut_pos hr.prod_pos
    h.prodOthers_pos

/-- An input that is quoted reaches the solvers. -/
theorem reaches_of_stableOutput {out : ℝ} (h : stableOutput S x p tokenIn tokenOut = some out) :
    ∃ si so, p.Reaches tokenIn tokenOut si so x := by
  obtain ⟨hguard, h⟩ := Option.ite_none_left_eq_some.mp h
  rw [not_or, not_lt] at hguard
  obtain ⟨idxIn, hidxIn, h⟩ := Option.bind_eq_some_iff.mp h
  obtain ⟨idxOut, hidxOut, h⟩ := Option.bind_eq_some_iff.mp h
  obtain ⟨hscaled, h⟩ := Option.ite_none_left_eq_some.mp h
  obtain ⟨si, hsi, h⟩ := Option.bind_eq_some_iff.mp h
  obtain ⟨so, hso, h⟩ := Option.bind_eq_some_iff.mp h
  obtain ⟨hlen, h⟩ := Option.ite_none_left_eq_some.mp h
  obtain ⟨hpos, h⟩ := Option.ite_none_left_eq_some.mp h
  obtain ⟨hprod, h⟩ := Option.ite_none_left_eq_some.mp h
  rw [not_or, not_le, not_le] at hlen hpos
  obtain ⟨d, -, h⟩ := Option.bind_eq_some_iff.mp h
  obtain ⟨hothers, h⟩ := Option.ite_none_left_eq_some.mp h
  refine ⟨si, so, ⟨hguard.1, not_lt.mp hscaled, ?_, ?_, hlen.1, hlen.2, hpos.1, hpos.2,
    not_le.mp hprod⟩, hguard.2, not_le.mp hothers⟩
  · rw [hidxIn]
    exact hsi
  · rw [hidxOut]
    exact hso

/-! ## The scaling of one token -/

theorem filter_zipIdx {α β : Type*} (g : α × ℕ → β) (l : List α) (k n : ℕ) :
    (((l.zipIdx k).filter fun b => some (k + n) ≠ some b.2).map g) =
      ((l.zipIdx k).map g).eraseIdx n := by
  induction l generalizing k n with
  | nil => rfl
  | cons a l ih =>
    rw [List.zipIdx_cons]
    cases n with
    | zero =>
      rw [List.filter_cons_of_neg (by simp), List.filter_eq_self.mpr]
      · rfl
      · intro b hb
        have := (List.mem_zipIdx hb).1
        simp only [ne_eq, Option.some.injEq, decide_not, Bool.not_eq_true', decide_eq_false_iff_not]
        omega
    | succ n =>
      rw [List.filter_cons_of_pos (by simp), List.map_cons, List.map_cons, List.eraseIdx_cons_succ,
        ← ih, show k + (n + 1) = k + 1 + n by omega]

theorem getElem?_scaledBalances {idx s : ℕ} (h : remap p.bptIndex idx = some s) :
    p.scaledBalances[s]? = (p.balances.zipIdx.map fun b => open Classical in
      if p.hasScaling then b.1 * p.scalingFactors.getD b.2 0 / 10 ^ 18 else b.1)[idx]? := by
  unfold StablePool.scaledBalances
  unfold remap at h
  cases hbpt : p.bptIndex with
  | none =>
    rw [hbpt] at h
    obtain rfl := Option.some.inj h
    rw [List.filter_eq_self.mpr (by simp)]
  | some bpt =>
    rw [hbpt] at h
    have hfilter := filter_zipIdx (fun b => open Classical in
      if p.hasScaling then b.1 * p.scalingFactors.getD b.2 0 / 10 ^ 18 else b.1) p.balances 0 bpt
    rw [Nat.zero_add] at hfilter
    rw [hfilter, List.getElem?_eraseIdx]
    dsimp only at h
    split_ifs at h with hlt heq
    · obtain rfl := Option.some.inj h
      rw [if_neg (by omega), show idx - 1 + 1 = idx by omega]
    · obtain rfl := Option.some.inj h
      rw [if_pos (by omega)]

/-- The scaled balance of a token is a balance times its factor. -/
theorem exists_balance_of_remap {token : Address} {s : ℕ}
    (h : p.scalingFactors.length = p.balances.length)
    (hat : p.tokenIndex[token]?.bind (remap p.bptIndex) = some s)
    (hs : s < p.scaledBalances.length) :
    ∃ b, p.scaledBalances.getD s 0 = b * p.factor token / 10 ^ 18 := by
  obtain ⟨idx, hidx, hremap⟩ := Option.bind_eq_some_iff.mp hat
  have hget := getElem?_scaledBalances hremap
  rw [List.getElem?_eq_getElem hs, List.getElem?_map] at hget
  obtain ⟨b, hb, hscaled⟩ := Option.map_eq_some_iff.mp hget.symm
  have hlt : idx < p.scalingFactors.length := by
    have := (List.getElem?_eq_some_iff.mp hb).1
    rw [List.length_zipIdx] at this
    omega
  have hb2 : b.2 = idx := by
    rw [List.getElem?_zipIdx] at hb
    obtain ⟨_, -, hb⟩ := Option.map_eq_some_iff.mp hb
    rw [← hb]
    simp
  have hscaling : p.hasScaling := ⟨h, List.ne_nil_of_length_pos (by omega)⟩
  refine ⟨b.1, ?_⟩
  rw [List.getD_eq_getElem _ _ hs, ← hscaled, if_pos hscaling, hb2, StablePool.factor, hidx,
    Option.bind_some, List.getElem?_eq_getElem hlt, List.getD_eq_getElem _ _ hlt]
  rfl

theorem factor_nonneg (hnonneg : ∀ s ∈ p.scalingFactors, 0 ≤ s) (token : Address) :
    0 ≤ p.factor token := by
  unfold StablePool.factor
  cases hget : p.tokenIndex[token]?.bind (p.scalingFactors[·]?) with
  | none => exact pow_nonneg (by norm_num) 18
  | some s =>
    obtain ⟨idx, -, hs⟩ := Option.bind_eq_some_iff.mp hget
    exact hnonneg s (List.mem_of_getElem? hs)

/-- A token whose scaled balance is positive has a positive factor. -/
theorem factor_pos {token : Address} {s : ℕ} (h : p.scalingFactors.length = p.balances.length)
    (hnonneg : ∀ s ∈ p.scalingFactors, 0 ≤ s)
    (hat : p.tokenIndex[token]?.bind (remap p.bptIndex) = some s)
    (hs : s < p.scaledBalances.length) (hpos : 0 < p.scaledBalances.getD s 0) :
    0 < p.factor token := by
  obtain ⟨b, hb⟩ := exists_balance_of_remap h hat hs
  refine lt_of_le_of_ne (factor_nonneg hnonneg token) fun hzero => ?_
  rw [hb, ← hzero, mul_zero, zero_div] at hpos
  exact lt_irrefl 0 hpos

/-! ## Converting the input and the output -/

/-- The quote is that of the normalized pool, with the input scaled and the output scaled back. -/
def ConvertsUnits (S : StableSolvers) (pool : BalancerPoolState) (tokenIn tokenOut : Address)
    (amountIn : ℕ) : Prop :=
  let p := stablePool pool
  balancerStableOutputAmount S amountIn pool tokenIn tokenOut =
    (stableOutput S (amountIn * p.factor tokenIn / 10 ^ 18) p.normalized tokenIn tokenOut).map
      fun out => truncU128 (out * (10 ^ 18 / p.factor tokenOut))

/-- Solvers whose output depends on the sum of the other balances only. -/
def sumSolvers (f : ℝ → ℝ) : StableSolvers where
  invariant := fun _ _ _ _ _ => some 1
  output := fun _ _ _ sumOthers _ => some (f sumOthers)

theorem solve_sumSolvers {f : ℝ → ℝ} {a : StableArgs} {v : ℝ}
    (hf : f a.sumOthers = a.balanceOut - v) (hv : 0 < v) : a.solve (sumSolvers f) = some v := by
  have hpos : 0 < a.balanceOut - f a.sumOthers := by
    rw [hf, sub_sub_cancel]
    exact hv
  show (if 0 < a.balanceOut - f a.sumOthers then some (a.balanceOut - f a.sumOthers) else none) = _
  rw [if_pos hpos, hf, sub_sub_cancel]

theorem truncU128_of_lt_one (hx : x < 1) : truncU128 x = 0 := by
  unfold truncU128
  rw [Nat.floor_eq_zero.mpr hx]
  rfl

theorem truncU128_natCast {n : ℕ} (hn : n < 2 ^ 128) : truncU128 n = n := by
  unfold truncU128
  rw [Nat.floor_natCast]
  omega

/-- A factor that no output is changed by is one. -/
theorem eq_one_of_truncU128 {c : ℝ} (hc : 0 < c)
    (h : ∀ v, 0 < v → truncU128 v = truncU128 (v * c)) : c = 1 := by
  have hone : truncU128 1 = 1 := by exact_mod_cast truncU128_natCast (n := 1) (by norm_num)
  rcases lt_trichotomy c 1 with hlt | heq | hgt
  · have := h 1 one_pos
    rw [one_mul, hone, truncU128_of_lt_one hlt] at this
    cases this
  · exact heq
  · have := h (1 / c) (by positivity)
    rw [one_div_mul_cancel hc.ne', hone, truncU128_of_lt_one ((div_lt_one hc).mpr hgt)] at this
    cases this

/-- The positions of two tokens are unique. -/
theorem StablePool.Routes.unique {si so si' so' : ℕ} (h : p.Routes tokenIn tokenOut si so)
    (h' : p.Routes tokenIn tokenOut si' so') : si' = si ∧ so' = so :=
  ⟨Option.some.inj (h'.tokenIn_at.symm.trans h.tokenIn_at),
    Option.some.inj (h'.tokenOut_at.symm.trans h.tokenOut_at)⟩

/-- Two inputs that leave the same amount after the fee have the same arguments. -/
theorem args_congr (h : x * p.feeFactor = y * p.feeFactor) (si so : ℕ) :
    p.args si so x = p.args si so y := by
  unfold StablePool.args
  rw [h]

theorem args_sumOthers_inj {si so : ℕ}
    (h : (p.args si so x).sumOthers = (p.args si so y).sumOthers) :
    x * p.feeFactor = y * p.feeFactor := by
  unfold StablePool.args at h
  dsimp only at h
  linarith

theorem stableOutput_eq_none (S : StableSolvers)
    (h : ∀ si so, ¬p.Reaches tokenIn tokenOut si so x) :
    stableOutput S x p tokenIn tokenOut = none := by
  rw [Option.eq_none_iff_forall_ne_some]
  intro out hout
  obtain ⟨si, so, hreach⟩ := reaches_of_stableOutput hout
  exact h si so hreach

/-- Two inputs that leave the same amount after the fee reach the solvers together. -/
theorem reaches_congr {si so : ℕ} (h : x * p.feeFactor = y * p.feeFactor) (hzero : x = 0 → y = 0)
    (hy : p.Reaches tokenIn tokenOut si so y) : p.Reaches tokenIn tokenOut si so x :=
  ⟨hy.routes, fun hx => hy.amountIn_ne (hzero hx), args_congr h si so ▸ hy.prodOthers_pos⟩

/-- Two inputs that leave the same amount after the fee are quoted alike. -/
theorem stableOutput_congr (S : StableSolvers) (h : x * p.feeFactor = y * p.feeFactor)
    (hzero : x = 0 ↔ y = 0) :
    stableOutput S x p tokenIn tokenOut = stableOutput S y p tokenIn tokenOut := by
  by_cases hreach : ∃ si so, p.Reaches tokenIn tokenOut si so x
  · obtain ⟨si, so, hx⟩ := hreach
    have hy := reaches_congr h.symm hzero.mpr hx
    rw [stableOutput_of_reaches S hx, stableOutput_of_reaches S hy, args_congr h]
  · push Not at hreach
    rw [stableOutput_eq_none S hreach,
      stableOutput_eq_none S fun si so hy => hreach si so (reaches_congr h hzero.mp hy)]

/-- Two inputs whose quotes differ by the factor `c` for all solvers leave the same amount after
    the fee, and `c` is one. -/
theorem eq_one_of_forall_solvers {si so : ℕ} {c : ℝ} (hc : 0 < c)
    (hr : p.Reaches tokenIn tokenOut si so x ∨ p.Reaches tokenIn tokenOut si so y)
    (h : ∀ S, (stableOutput S x p tokenIn tokenOut).map truncU128 =
      (stableOutput S y p tokenIn tokenOut).map fun out => truncU128 (out * c)) :
    c = 1 ∧ x * p.feeFactor = y * p.feeFactor := by
  have hroutes : p.Routes tokenIn tokenOut si so := hr.elim (·.routes) (·.routes)
  -- an input that reaches the solvers has a quote with some solvers
  have hquote {z : ℝ} (hz : p.Reaches tokenIn tokenOut si so z) :
      stableOutput (sumSolvers fun _ => (p.args si so z).balanceOut - 1) z p tokenIn tokenOut =
        some 1 :=
    (stableOutput_of_reaches _ hz).trans (solve_sumSolvers rfl one_pos)
  have hnone {z : ℝ} (S : StableSolvers) (hz : ¬p.Reaches tokenIn tokenOut si so z) :
      stableOutput S z p tokenIn tokenOut = none := by
    refine stableOutput_eq_none S fun si' so' hreach => ?_
    obtain ⟨rfl, rfl⟩ := hroutes.unique hreach.routes
    exact hz hreach
  have hx : p.Reaches tokenIn tokenOut si so x := by
    by_contra hx
    have hy := hquote (hr.resolve_left hx)
    have := h (sumSolvers fun _ => (p.args si so y).balanceOut - 1)
    rw [hnone _ hx, hy] at this
    cases this
  have hy : p.Reaches tokenIn tokenOut si so y := by
    by_contra hy
    have := h (sumSolvers fun _ => (p.args si so x).balanceOut - 1)
    rw [hnone _ hy, hquote hx] at this
    cases this
  have hsum : (p.args si so x).sumOthers = (p.args si so y).sumOthers := by
    by_contra hne
    -- solvers that tell the two inputs apart
    obtain ⟨f, hfx, hfy⟩ : ∃ f : ℝ → ℝ,
        f (p.args si so x).sumOthers = (p.args si so x).balanceOut - 1 ∧
          f (p.args si so y).sumOthers = (p.args si so y).balanceOut - 2 / c := by
      refine ⟨fun s => if s = (p.args si so x).sumOthers then (p.args si so x).balanceOut - 1
        else (p.args si so y).balanceOut - 2 / c, if_pos rfl, if_neg (Ne.symm hne)⟩
    have := h (sumSolvers f)
    rw [stableOutput_of_reaches _ hx, stableOutput_of_reaches _ hy, solve_sumSolvers hfx one_pos,
      solve_sumSolvers hfy (by positivity), Option.map_some, Option.map_some, Option.some.injEq,
      div_mul_cancel₀ _ hc.ne'] at this
    have h1 : truncU128 1 = 1 := by exact_mod_cast truncU128_natCast (n := 1) (by norm_num)
    have h2 : truncU128 2 = 2 := by exact_mod_cast truncU128_natCast (n := 2) (by norm_num)
    omega
  refine ⟨eq_one_of_truncU128 hc fun v hv => ?_, args_sumOthers_inj hsum⟩
  have hquoted {z : ℝ} : (p.args si so z).solve
      (sumSolvers fun _ => (p.args si so x).balanceOut - v) = some v := solve_sumSolvers rfl hv
  have := h (sumSolvers fun _ => (p.args si so x).balanceOut - v)
  rw [stableOutput_of_reaches _ hx, stableOutput_of_reaches _ hy, hquoted, hquoted] at this
  exact Option.some.inj this

theorem stablePool_scalingFactors_nonneg (pool : BalancerPoolState) :
    ∀ s ∈ (stablePool pool).scalingFactors, 0 ≤ s := by
  intro s hs
  obtain ⟨n, -, rfl⟩ := List.mem_map.mp hs
  exact Nat.cast_nonneg n

/-- An input that reaches the solvers converts the units exactly where the output needs no
    conversion, and the input needs none or is taken by the fee. -/
def NeedsNoUnits (pool : BalancerPoolState) (tokenIn tokenOut : Address) : Prop :=
  (stablePool pool).factor tokenOut = 10 ^ 18 ∧
    ((stablePool pool).factor tokenIn = 10 ^ 18 ∨ pool.info.fee = 10 ^ 6)

/-- The input, or the input in scaled units, reaches the solvers. -/
def ReachesSolvers (pool : BalancerPoolState) (tokenIn tokenOut : Address) (amountIn : ℕ) : Prop :=
  let p := stablePool pool
  ∃ si so, p.Reaches tokenIn tokenOut si so amountIn ∨
    p.Reaches tokenIn tokenOut si so (amountIn * p.factor tokenIn / 10 ^ 18)

/-- **Main theorem.** For all solvers, a quote converts its input and its output exactly where the
    solvers are not reached or both tokens are in scaled units already, up to an input that the
    fee takes whole. -/
theorem convertsUnits_iff (pool : BalancerPoolState)
    (h : pool.scalingFactors.length = pool.balances.length) (tokenIn tokenOut : Address)
    (amountIn : ℕ) : (∀ S, ConvertsUnits S pool tokenIn tokenOut amountIn) ↔
      (ReachesSolvers pool tokenIn tokenOut amountIn → NeedsNoUnits pool tokenIn tokenOut) := by
  have hlen : (stablePool pool).scalingFactors.length = (stablePool pool).balances.length := by
    simpa [stablePool] using h
  have hnonneg := stablePool_scalingFactors_nonneg pool
  have hconverts (S : StableSolvers) : ConvertsUnits S pool tokenIn tokenOut amountIn ↔
      (stableOutput S amountIn (stablePool pool) tokenIn tokenOut).map truncU128 =
        (stableOutput S (amountIn * (stablePool pool).factor tokenIn / 10 ^ 18) (stablePool pool)
          tokenIn tokenOut).map fun out =>
            truncU128 (out * (10 ^ 18 / (stablePool pool).factor tokenOut)) := by
    unfold ConvertsUnits
    dsimp only
    rw [stableOutput_normalized hlen]
    rfl
  simp only [hconverts]
  unfold ReachesSolvers NeedsNoUnits
  have hfee : (stablePool pool).feeFactor = 1 - pool.info.fee / 10 ^ 6 := rfl
  generalize stablePool pool = p at *
  dsimp only
  have hout {si so : ℕ} (hr : p.Routes tokenIn tokenOut si so) : 0 < p.factor tokenOut :=
    factor_pos hlen hnonneg hr.tokenOut_at hr.so_lt hr.balanceOut_pos
  have hin {si so : ℕ} (hr : p.Routes tokenIn tokenOut si so) : 0 < p.factor tokenIn :=
    factor_pos hlen hnonneg hr.tokenIn_at hr.si_lt hr.balanceIn_pos
  constructor
  · rintro hS ⟨si, so, hreach⟩
    have hr : p.Routes tokenIn tokenOut si so := hreach.elim (·.routes) (·.routes)
    have hne : (amountIn : ℝ) ≠ 0 := by
      rcases hreach with hx | hy
      · exact hx.amountIn_ne
      · intro hzero
        exact hy.amountIn_ne (by rw [hzero, zero_mul, zero_div])
    have hpos := hout hr
    obtain ⟨hone, hsame⟩ := eq_one_of_forall_solvers (by positivity) hreach hS
    refine ⟨((div_eq_one_iff_eq hpos.ne').mp hone).symm, ?_⟩
    by_cases hfactor : p.feeFactor = 0
    · right
      rw [hfee] at hfactor
      have : (pool.info.fee : ℝ) = 10 ^ 6 := by linarith
      exact_mod_cast this
    · left
      have := mul_right_cancel₀ hfactor hsame
      field_simp at this
      linarith
  · intro hcond S
    by_cases hreach : ∃ si so, p.Reaches tokenIn tokenOut si so amountIn ∨
        p.Reaches tokenIn tokenOut si so (amountIn * p.factor tokenIn / 10 ^ 18)
    · obtain ⟨hfout, hfin⟩ := hcond hreach
      obtain ⟨si, so, hreach⟩ := hreach
      have hpos := hin (hreach.elim (·.routes) (·.routes))
      have hsame : (amountIn : ℝ) * p.feeFactor =
          amountIn * p.factor tokenIn / 10 ^ 18 * p.feeFactor := by
        rcases hfin with hone | hall
        · rw [hone, mul_div_cancel_right₀ _ (by norm_num)]
        · rw [hfee, hall]
          norm_num
      have hzero : (amountIn : ℝ) = 0 ↔ amountIn * p.factor tokenIn / 10 ^ 18 = 0 := by
        constructor
        · intro h0
          rw [h0, zero_mul, zero_div]
        · intro h0
          by_contra hne
          have : (amountIn : ℝ) * p.factor tokenIn / 10 ^ 18 ≠ 0 := by positivity
          exact this h0
      rw [stableOutput_congr S hsame hzero, hfout, div_self (by norm_num)]
      simp only [mul_one]
    · push Not at hreach
      rw [stableOutput_eq_none S fun si so => (hreach si so).1,
        stableOutput_eq_none S fun si so => (hreach si so).2]
      rfl

/-! ## A pool of mixed decimals -/

/-- A token with 18 decimals and one with 6, and a unit of each. -/
def mixedPool : BalancerPoolState where
  info := { token0 := 1, token1 := 2, dexType := .balancer }
  balances := [10 ^ 18, 10 ^ 6]
  tokenIndex := {(1, 0), (2, 1)}
  poolVariant := .stable
  scalingFactors := [10 ^ 18, 10 ^ 30]

/-- Two tokens with 18 decimals. -/
def evenPool : BalancerPoolState :=
  { mixedPool with balances := [10 ^ 18, 10 ^ 18], scalingFactors := [10 ^ 18, 10 ^ 18] }

/-- The quotes of `evenPool`. -/
theorem even_convertsUnits : (∀ S, ConvertsUnits S evenPool 1 2 1000) ↔
    (ReachesSolvers evenPool 1 2 1000 → NeedsNoUnits evenPool 1 2) :=
  convertsUnits_iff evenPool rfl 1 2 1000

theorem scaledBalances_mixedPool :
    (stablePool mixedPool).scaledBalances = [10 ^ 18, 10 ^ 18] := by
  have hscaling : (stablePool mixedPool).hasScaling := ⟨rfl, by simp [stablePool, mixedPool]⟩
  unfold StablePool.scaledBalances
  simp only [if_pos hscaling]
  simp only [stablePool, mixedPool, List.map_cons, List.map_nil, List.zipIdx_cons, List.zipIdx_nil,
    ne_eq, reduceCtorEq, not_false_eq_true, decide_true, List.filter_true, Nat.cast_pow,
    Nat.cast_ofNat, zero_add, List.getD_cons_zero, List.getD_cons_succ]
  norm_num

/-- Of `mixedPool`, 1000 of the token with 18 decimals are not quoted in the units of the token with
    6 decimals. -/
theorem mixed_decimals_not_converted : ¬∀ S, ConvertsUnits S mixedPool 1 2 1000 := by
  intro h
  have hfactor : (stablePool mixedPool).factor 2 = 10 ^ 30 := by
    have hat : (stablePool mixedPool).tokenIndex[(2 : Address)]? = some 1 := by
      show mixedPool.tokenIndex[(2 : Address)]? = some 1
      decide +kernel
    rw [StablePool.factor, hat]
    norm_num [stablePool, mixedPool]
  have hscaled := scaledBalances_mixedPool
  have hroutes : (stablePool mixedPool).Routes 1 2 0 1 := by
    refine ⟨le_rfl, ?_, ?_, ?_, ?_, ?_, ?_, ?_, ?_⟩
    · rw [hscaled]
      exact le_rfl
    · show mixedPool.tokenIndex[(1 : Address)]?.bind (remap mixedPool.bptIndex) = some 0
      decide +kernel
    · show mixedPool.tokenIndex[(2 : Address)]?.bind (remap mixedPool.bptIndex) = some 1
      decide +kernel
    all_goals rw [hscaled]
    all_goals simp
  have hreach : (stablePool mixedPool).Reaches 1 2 0 1 (1000 : ℕ) := by
    refine ⟨hroutes, by norm_num, ?_⟩
    unfold StablePool.args
    rw [hscaled]
    have hfee : (stablePool mixedPool).feeFactor = 1 := by
      simp [StablePool.feeFactor, stablePool, mixedPool]
    simp [others, hfee]
    norm_num
  have hpos : (0 : ℝ) < 10 ^ 18 / (stablePool mixedPool).factor 2 := by
    rw [hfactor]
    norm_num
  have hone := (eq_one_of_forall_solvers hpos (.inl hreach) fun S => by
    have hS := h S
    unfold ConvertsUnits at hS
    dsimp only at hS
    rw [stableOutput_normalized (by simp [stablePool, mixedPool])] at hS
    exact hS).1
  rw [hfactor] at hone
  norm_num at hone

end

end MevScout.Pool.Math
