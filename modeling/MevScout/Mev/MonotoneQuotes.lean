import MevScout.Paper.Walk
import MevScout.Pool.ConstantProduct

/-!
# Monotone quotes

The detectors invert quotes by bisection and search optima on segments, both of which take a quote
to grow with its input. V2 and Liquidity Book pools quote a share of the reserve that grows. A
Pendle pool multiplies such a share by a factor that falls from 100% to 79.9% when the input
passes 20% of its reserve, and on to 20% from there.

Results:
* `share_mono`, `share_lt`: the share of an input in the reserve;
* `quoteDir_monotone`: quotes stay below the reserve, and grow between inputs of a Pendle pool that
  are damped alike;
* `pendle_drops`: the quotes of every deep Pendle pool fall where the damping begins.
-/

namespace MevScout.Mev

open Pool Math Paper

/-! ## Shares -/

/-- A larger input has a larger share. -/
theorem share_mono {x y : ℕ} (h : x ≤ y) {reserveIn : ℕ} (hpos : 0 < reserveIn) (reserveOut : ℕ) :
    x * reserveOut / (reserveIn + x) ≤ y * reserveOut / (reserveIn + y) := by
  have hfloor : x * reserveOut / (reserveIn + x) * (reserveIn + x) ≤ x * reserveOut :=
    Nat.div_mul_le_self ..
  have hle : x * reserveOut / (reserveIn + x) ≤ reserveOut := by
    refine Nat.div_le_of_le_mul ?_
    exact Nat.mul_le_mul_right _ (Nat.le_add_left ..)
  rw [Nat.le_div_iff_mul_le (by omega)]
  generalize x * reserveOut / (reserveIn + x) = c at hfloor hle ⊢
  obtain ⟨d, rfl⟩ := Nat.exists_eq_add_of_le h
  calc c * (reserveIn + (x + d)) = c * (reserveIn + x) + c * d := by ring
    _ ≤ x * reserveOut + reserveOut * d := Nat.add_le_add hfloor (Nat.mul_le_mul_right _ hle)
    _ = (x + d) * reserveOut := by ring

/-- A share is not the whole reserve. -/
theorem share_lt (x : ℕ) {reserveIn reserveOut : ℕ} (hin : 0 < reserveIn) (hout : 0 < reserveOut) :
    x * reserveOut / (reserveIn + x) < reserveOut := by
  rw [Nat.div_lt_iff_lt_mul (by omega), Nat.mul_comm reserveOut]
  exact Nat.mul_lt_mul_of_pos_right (by omega) hout

/-! ## Quotes of two reserves -/

variable {x y a b reserveIn reserveOut : ℕ}

theorem constantProduct_mono {fee : FeeTier} (h : x ≤ y)
    (ha : constantProductOutputAmount x reserveIn reserveOut fee = some a)
    (hb : constantProductOutputAmount y reserveIn reserveOut fee = some b) :
    a ≤ b ∧ b < reserveOut := by
  obtain ⟨⟨-, hin, hout⟩, -, -, rfl, -⟩ := constantProductOutputAmount_eq_some_iff.mp ha
  obtain ⟨-, -, -, rfl, -⟩ := constantProductOutputAmount_eq_some_iff.mp hb
  have hpos : 0 < reserveIn * fee.keptFraction.2 :=
    Nat.mul_pos (by omega) (keptFraction_den_pos fee)
  exact ⟨share_mono (Nat.mul_le_mul_right _ h) hpos reserveOut, share_lt _ hpos (by omega)⟩

/-- An input in thousandths of its reserve (`pendle.rs`, line 52). -/
def swapRatio1000 (amountIn totalIn : ℕ) : ℕ := amountIn * permilleDenominator / totalIn

/-- What a Pendle quote keeps of the share, in thousandths (`pendle.rs`, lines 54–66). -/
def dampingPermille (amountIn totalIn : ℕ) : ℕ :=
  if swapRatio1000 amountIn totalIn ≤ minDampingPermille then permilleDenominator
  else max (permilleDenominator - swapRatio1000 amountIn totalIn) minDampingPermille

theorem dampingPermille_le (amountIn totalIn : ℕ) : dampingPermille amountIn totalIn ≤ 1000 := by
  unfold dampingPermille permilleDenominator minDampingPermille
  split_ifs <;> omega

/-- The output is the damped share, where it is not zero and no intermediate value leaves `u128`. -/
theorem pendleOutputAmount_eq_some_iff : pendleOutputAmount x reserveIn reserveOut = some a ↔
    (x ≠ 0 ∧ reserveIn ≠ 0 ∧ reserveOut ≠ 0) ∧ x * reserveOut < 2 ^ 128 ∧
      reserveIn + x < 2 ^ 128 ∧ x * 1000 < 2 ^ 128 ∧
      (minDampingPermille < swapRatio1000 x reserveIn →
        x * reserveOut / (reserveIn + x) * dampingPermille x reserveIn < 2 ^ 128) ∧
      x * reserveOut / (reserveIn + x) * dampingPermille x reserveIn / 1000 = a ∧ a ≠ 0 := by
  unfold pendleOutputAmount dampingPermille swapRatio1000 permilleDenominator
  by_cases h₀ : x = 0 ∨ reserveIn = 0 ∨ reserveOut = 0
  · rw [if_pos h₀]
    refine iff_of_false nofun ?_
    rintro ⟨⟨hx, hin, hout⟩, -⟩
    exact h₀.elim hx fun h => h.elim hin hout
  · have hpos : x ≠ 0 ∧ reserveIn ≠ 0 ∧ reserveOut ≠ 0 := by omega
    rw [if_neg h₀]
    simp only [Option.bind_eq_bind, Option.bind_eq_some_iff, checkedU128_eq_some]
    by_cases hsmall : x * 1000 / reserveIn ≤ minDampingPermille
    · rw [if_pos hsmall, Nat.mul_div_cancel _ (by norm_num)]
      constructor
      · rintro ⟨-, ⟨hnum, rfl⟩, -, ⟨hden, rfl⟩, -, ⟨hscaled, rfl⟩, hout⟩
        rw [if_pos hsmall] at hout
        split_ifs at hout with hzero
        obtain rfl := Option.some.inj hout
        exact ⟨hpos, hnum, hden, hscaled, fun h => absurd hsmall (by omega), rfl, hzero⟩
      · rintro ⟨-, hnum, hden, hscaled, -, rfl, hzero⟩
        exact ⟨_, ⟨hnum, rfl⟩, _, ⟨hden, rfl⟩, _, ⟨hscaled, rfl⟩, by
          rw [if_pos hsmall, if_pos hzero]⟩
    · rw [if_neg hsmall]
      constructor
      · rintro ⟨-, ⟨hnum, rfl⟩, -, ⟨hden, rfl⟩, -, ⟨hscaled, rfl⟩, hout⟩
        rw [if_neg hsmall] at hout
        obtain ⟨-, ⟨hdamped, rfl⟩, hout⟩ := by
          simpa only [Option.bind_eq_some_iff, checkedU128_eq_some] using hout
        split_ifs at hout with hzero
        obtain rfl := Option.some.inj hout
        exact ⟨hpos, hnum, hden, hscaled, fun _ => hdamped, rfl, hzero⟩
      · rintro ⟨-, hnum, hden, hscaled, hdamped, rfl, hzero⟩
        refine ⟨_, ⟨hnum, rfl⟩, _, ⟨hden, rfl⟩, _, ⟨hscaled, rfl⟩, ?_⟩
        rw [if_neg hsmall]
        simp only [Option.bind_eq_some_iff, checkedU128_eq_some]
        exact ⟨_, ⟨hdamped (by omega), rfl⟩, if_neg hzero⟩

/-- Inputs are damped alike where both are up to 20% of the reserve, both are from 80% of it on, or
    both are the same number of thousandths. -/
theorem dampingPermille_eq_iff : dampingPermille x reserveIn = dampingPermille y reserveIn ↔
    (swapRatio1000 x reserveIn ≤ 200 ∧ swapRatio1000 y reserveIn ≤ 200) ∨
      (800 ≤ swapRatio1000 x reserveIn ∧ 800 ≤ swapRatio1000 y reserveIn) ∨
        swapRatio1000 x reserveIn = swapRatio1000 y reserveIn := by
  unfold dampingPermille permilleDenominator minDampingPermille
  split_ifs <;> omega

theorem pendleOutputAmount_lt (h : pendleOutputAmount x reserveIn reserveOut = some a) :
    a < reserveOut := by
  obtain ⟨⟨-, hin, hout⟩, -, -, -, -, rfl, -⟩ := pendleOutputAmount_eq_some_iff.mp h
  have hdamped : x * reserveOut / (reserveIn + x) * dampingPermille x reserveIn / 1000 ≤
      x * reserveOut / (reserveIn + x) := by
    refine Nat.div_le_of_le_mul ?_
    rw [Nat.mul_comm 1000]
    exact Nat.mul_le_mul_left _ (dampingPermille_le x reserveIn)
  exact hdamped.trans_lt (share_lt x (by omega) (by omega))

theorem pendleOutputAmount_mono (h : x ≤ y)
    (hdamping : dampingPermille x reserveIn = dampingPermille y reserveIn)
    (ha : pendleOutputAmount x reserveIn reserveOut = some a)
    (hb : pendleOutputAmount y reserveIn reserveOut = some b) : a ≤ b := by
  obtain ⟨⟨-, hin, -⟩, -, -, -, -, rfl, -⟩ := pendleOutputAmount_eq_some_iff.mp ha
  obtain ⟨-, -, -, -, -, rfl, -⟩ := pendleOutputAmount_eq_some_iff.mp hb
  rw [hdamping]
  exact Nat.div_le_div_right (Nat.mul_le_mul_right _ (share_mono h (by omega) reserveOut))

/-! ## Pools -/

/-- The reserves of a V2, Liquidity Book or Pendle pool in the direction of a swap. -/
def pairReserves (pool : PoolState) (tokenIn : Address) : Option (ℕ × ℕ) :=
  match pool with
  | .uniswapV2 v2 => orient v2.info tokenIn v2.reserve0 v2.reserve1
  | .traderJoeLB lb => orient lb.info tokenIn lb.reserveX lb.reserveY
  | .pendle p => orient p.info tokenIn p.totalPt p.totalSy
  | _ => none

/-- Where the pool is a Pendle market, both inputs are damped alike. -/
def DampedAlike (pool : PoolState) (reserveIn x y : ℕ) : Prop :=
  match pool with
  | .pendle _ => (swapRatio1000 x reserveIn ≤ 200 ∧ swapRatio1000 y reserveIn ≤ 200) ∨
      (800 ≤ swapRatio1000 x reserveIn ∧ 800 ≤ swapRatio1000 y reserveIn) ∨
        swapRatio1000 x reserveIn = swapRatio1000 y reserveIn
  | _ => True

variable {Q : FloatQuotes} {pool : PoolState} {tokenIn tokenOut : Address}

/-- **Main theorem.** The quotes of a V2 or Liquidity Book pool, and those of a Pendle pool for
    inputs that are damped alike, grow with the input and stay below the reserve. -/
theorem quoteDir_monotone (hreserves : pairReserves pool tokenIn = some (reserveIn, reserveOut))
    (h : x ≤ y) (ha : quoteDir Q pool x tokenIn tokenOut = some a)
    (hb : quoteDir Q pool y tokenIn tokenOut = some b) (halike : DampedAlike pool reserveIn x y) :
    a ≤ b ∧ a < reserveOut ∧ b < reserveOut := by
  unfold quoteDir quoteExactIn at ha hb
  split_ifs at ha hb with hx hy
  have hcp : ∀ {fee : FeeTier}, constantProductOutputAmount x reserveIn reserveOut fee = some a →
      constantProductOutputAmount y reserveIn reserveOut fee = some b →
        a ≤ b ∧ a < reserveOut ∧ b < reserveOut := by
    intro fee ha hb
    obtain ⟨hle, hlt⟩ := constantProduct_mono h ha hb
    exact ⟨hle, hle.trans_lt hlt, hlt⟩
  cases pool with
  | uniswapV2 v2 =>
    have hreserves : orient v2.info tokenIn v2.reserve0 v2.reserve1 = _ := hreserves
    dsimp only at ha hb
    rw [hreserves, Option.bind_some] at ha hb
    exact hcp ha hb
  | traderJoeLB lb =>
    have hreserves : orient lb.info tokenIn lb.reserveX lb.reserveY = _ := hreserves
    dsimp only at ha hb
    rw [hreserves, Option.bind_some] at ha hb
    exact hcp ha hb
  | pendle p =>
    have hreserves : orient p.info tokenIn p.totalPt p.totalSy = _ := hreserves
    dsimp only at ha hb
    rw [hreserves, Option.bind_some] at ha hb
    exact ⟨pendleOutputAmount_mono h (dampingPermille_eq_iff.mpr halike) ha hb,
      pendleOutputAmount_lt ha, pendleOutputAmount_lt hb⟩
  | uniswapV3 _ | uniswapV4 _ | pancakeInfinity _ | curve _ | balancer _ | metric _ | fluid _ =>
    cases hreserves

/-- A Pendle market of the tokens 1 and 2. -/
def pendlePool (totalPt totalSy : ℕ) : PoolState :=
  .pendle { info := { address := 7, token0 := 1, token1 := 2 }, totalPt, totalSy }

/-- Two inputs below 20% of the reserve. -/
theorem pendle_small_inputs :
    quoteDir ⟨fun _ _ _ _ => none, fun _ _ _ _ => none⟩ (pendlePool 10000 10000) 1000 1 2 =
        some 909 ∧ 909 ≤ 1666 := by
  have ha : quoteDir ⟨fun _ _ _ _ => none, fun _ _ _ _ => none⟩ (pendlePool 10000 10000) 1000 1 2 =
      some 909 := by
    decide +kernel
  have hb : quoteDir ⟨fun _ _ _ _ => none, fun _ _ _ _ => none⟩ (pendlePool 10000 10000) 2000 1 2 =
      some 1666 := by
    decide +kernel
  have hreserves : pairReserves (pendlePool 10000 10000) 1 = some (10000, 10000) := by
    decide +kernel
  exact ⟨ha, (quoteDir_monotone hreserves (by norm_num) ha hb (.inl (by decide))).1⟩

/-! ## Where the damping begins -/

/-- The last input that is not damped. -/
def lastUndamped (reserveIn : ℕ) : ℕ := (201 * reserveIn - 1) / 1000

theorem lastUndamped_spec (h : 1000 ≤ reserveIn) :
    200 ≤ lastUndamped reserveIn ∧ reserveIn ≤ 5 * lastUndamped reserveIn ∧
      swapRatio1000 (lastUndamped reserveIn) reserveIn ≤ 200 ∧
      798 ≤ dampingPermille (lastUndamped reserveIn + 1) reserveIn ∧
      dampingPermille (lastUndamped reserveIn + 1) reserveIn ≤ 799 := by
  have hx : lastUndamped reserveIn * 1000 < 201 * reserveIn ∧
      201 * reserveIn ≤ (lastUndamped reserveIn + 1) * 1000 := by
    unfold lastUndamped
    omega
  generalize lastUndamped reserveIn = x at hx ⊢
  have hpos : 0 < reserveIn := by omega
  have hlast : x * 1000 / reserveIn < 201 := (Nat.div_lt_iff_lt_mul hpos).mpr hx.1
  have hnext : 201 ≤ (x + 1) * 1000 / reserveIn := (Nat.le_div_iff_mul_le hpos).mpr hx.2
  have hnext' : (x + 1) * 1000 / reserveIn < 203 := (Nat.div_lt_iff_lt_mul hpos).mpr (by omega)
  unfold dampingPermille swapRatio1000 permilleDenominator minDampingPermille
  rw [if_neg (by omega)]
  omega

/-- The share of the next input is not so much larger. -/
theorem share_next_lt (hx : 200 ≤ x) (hin : reserveIn ≤ 5 * x) (hout : 31 ≤ reserveOut) :
    799 * ((x + 1) * reserveOut / (reserveIn + (x + 1))) <
      1000 * (x * reserveOut / (reserveIn + x)) := by
  have hfloor : (x + 1) * reserveOut / (reserveIn + (x + 1)) * (reserveIn + (x + 1)) ≤
      (x + 1) * reserveOut := Nat.div_mul_le_self ..
  have hceil : x * reserveOut < (x * reserveOut / (reserveIn + x) + 1) * (reserveIn + x) :=
    (Nat.div_lt_iff_lt_mul (by omega)).mp (Nat.lt_succ_self _)
  generalize (x + 1) * reserveOut / (reserveIn + (x + 1)) = next at hfloor ⊢
  generalize x * reserveOut / (reserveIn + x) = last at hceil ⊢
  by_contra hge
  have hmul : 1000 * last * (reserveIn + x) ≤ 799 * next * (reserveIn + x) :=
    Nat.mul_le_mul_right _ (by omega)
  have hprod : 31 * x ≤ x * reserveOut := by
    rw [Nat.mul_comm]
    exact Nat.mul_le_mul_left x hout
  have hprod' : 200 * reserveOut ≤ x * reserveOut := Nat.mul_le_mul_right _ hx
  have hnext : next * (reserveIn + x) ≤ x * reserveOut + reserveOut := by
    calc next * (reserveIn + x) ≤ next * (reserveIn + (x + 1)) :=
          Nat.mul_le_mul_left _ (by omega)
      _ ≤ (x + 1) * reserveOut := hfloor
      _ = x * reserveOut + reserveOut := by ring
  have hlast : x * reserveOut < last * (reserveIn + x) + (reserveIn + x) := by
    rwa [Nat.add_mul, Nat.one_mul] at hceil
  rw [Nat.mul_assoc, Nat.mul_assoc] at hmul
  generalize next * (reserveIn + x) = n at hmul hnext
  generalize last * (reserveIn + x) = l at hmul hlast
  generalize x * reserveOut = p at *
  omega

/-- In a deep pool, the input after the last undamped one is quoted for less than it. -/
theorem pendle_drops (hin : 1000 ≤ reserveIn) (hout : 31 ≤ reserveOut)
    (hx : x = lastUndamped reserveIn) (hnum : (x + 1) * reserveOut < 2 ^ 128)
    (hden : reserveIn + (x + 1) < 2 ^ 128) (hscaled : (x + 1) * 1000 < 2 ^ 128) :
    ∃ a b, pendleOutputAmount x reserveIn reserveOut = some a ∧
      pendleOutputAmount (x + 1) reserveIn reserveOut = some b ∧ b < a := by
  obtain ⟨hlow, hhigh, hlast, hnext, hnext'⟩ := lastUndamped_spec hin
  rw [← hx] at hlow hhigh hlast hnext hnext'
  have hone : dampingPermille x reserveIn = 1000 := if_pos hlast
  have hshare := share_next_lt hlow hhigh hout
  have hmono := share_mono (Nat.le_succ x) (show 0 < reserveIn by omega) reserveOut
  have hfive : 5 ≤ x * reserveOut / (reserveIn + x) := by
    rw [Nat.le_div_iff_mul_le (by omega)]
    calc 5 * (reserveIn + x) ≤ x * 30 := by omega
      _ ≤ x * reserveOut := Nat.mul_le_mul_left x (by omega)
  have ha : pendleOutputAmount x reserveIn reserveOut =
      some (x * reserveOut / (reserveIn + x)) := by
    refine pendleOutputAmount_eq_some_iff.mpr ⟨⟨by omega, by omega, by omega⟩, ?_, ?_, ?_,
      fun hlarge => absurd hlast (Nat.not_le.mpr hlarge), ?_, by omega⟩
    · exact (Nat.mul_le_mul_right _ (Nat.le_succ x)).trans_lt hnum
    · exact (Nat.add_le_add_left (Nat.le_succ x) _).trans_lt hden
    · exact (Nat.mul_le_mul_right _ (Nat.le_succ x)).trans_lt hscaled
    · rw [hone, Nat.mul_div_cancel _ (by norm_num)]
  have hb : pendleOutputAmount (x + 1) reserveIn reserveOut =
      some ((x + 1) * reserveOut / (reserveIn + (x + 1)) *
        dampingPermille (x + 1) reserveIn / 1000) := by
    refine pendleOutputAmount_eq_some_iff.mpr ⟨⟨by omega, by omega, by omega⟩, hnum, hden,
      hscaled, fun _ => ?_, rfl, ?_⟩
    · have hfloor := Nat.div_mul_le_self ((x + 1) * reserveOut) (reserveIn + (x + 1))
      exact ((Nat.mul_le_mul_left _ (by omega)).trans hfloor).trans_lt hnum
    · have hprod : 5 * 798 ≤ (x + 1) * reserveOut / (reserveIn + (x + 1)) *
          dampingPermille (x + 1) reserveIn := Nat.mul_le_mul (hfive.trans hmono) hnext
      exact (Nat.div_pos (by omega) (by norm_num)).ne'
  refine ⟨_, _, ha, hb, ?_⟩
  rw [Nat.div_lt_iff_lt_mul (by norm_num), Nat.mul_comm _ 1000]
  calc (x + 1) * reserveOut / (reserveIn + (x + 1)) * dampingPermille (x + 1) reserveIn ≤
        799 * ((x + 1) * reserveOut / (reserveIn + (x + 1))) := by
        rw [Nat.mul_comm]
        exact Nat.mul_le_mul_right _ hnext'
    _ < 1000 * (x * reserveOut / (reserveIn + x)) := hshare

/-- One unit more is quoted for a fifth less. -/
theorem pendle_quote_falls :
    quoteDir ⟨fun _ _ _ _ => none, fun _ _ _ _ => none⟩ (pendlePool 10000 10000) 2009 1 2 =
        some 1672 ∧
      quoteDir ⟨fun _ _ _ _ => none, fun _ _ _ _ => none⟩ (pendlePool 10000 10000) 2010 1 2 =
        some 1336 := by
  decide +kernel

end MevScout.Mev
