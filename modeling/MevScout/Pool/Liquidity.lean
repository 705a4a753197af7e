import MevScout.Pool.Apply

/-!
# Active liquidity over Mint and Burn logs

The active liquidity of a concentrated-liquidity pool is the sum of the net entries of
the ticks at or below the current tick. A position over `[tickLower, tickUpper)` adds its
amount to that sum when the range contains the tick, and nothing otherwise.

`apply_v3_mint_burn` keeps the net entries as positions do, but adds the amount to the
active liquidity whatever the range.

Results:
* `netAtOrBelow_mintBurn`: what a Mint or Burn adds to the sum at or below the tick;
* `wellFormed_mintBurn_iff`: one Mint or Burn leaves a well-formed pool well-formed exactly
  when its range contains the tick, its amount is zero, or it burns where no liquidity is
  active;
* `wellFormed_of_meets`: a run whose logs all do so keeps the pool well-formed throughout;
* `outOfRangeMint_not_wellFormed`: a Mint above the tick that inflates the liquidity.
-/

namespace MevScout.Pool

open MevScout.Chain

/-- The net liquidity of a tick. -/
def netAt (ticks : TickMap) (t : ℤ) : ℤ := ticks[t]?.getD 0

/-- The sum of all net entries. -/
def netTotal (ticks : TickMap) : ℤ := Map.sumBy (fun _ net => net) ticks

/-- What the net entry of the tick `t` adds to the sum at or below `tick`. -/
def shareAtOrBelow (tick t net : ℤ) : ℤ := if t ≤ tick then net else 0

/-- The sum of the net entries of the ticks at or below `tick`. -/
def netAtOrBelow (ticks : TickMap) (tick : ℤ) : ℤ := Map.sumBy (shareAtOrBelow tick) ticks

/-- The active liquidity is the sum of the net entries at or below the current tick, and
    all net entries sum to zero. -/
structure WellFormed (s : UniswapV3PoolState) : Prop where
  active : (s.liquidity : ℤ) = netAtOrBelow s.ticks s.tick
  balanced : netTotal s.ticks = 0

instance (s : UniswapV3PoolState) : Decidable (WellFormed s) :=
  decidable_of_iff ((s.liquidity : ℤ) = netAtOrBelow s.ticks s.tick ∧ netTotal s.ticks = 0)
    ⟨fun h => ⟨h.1, h.2⟩, fun h => ⟨h.1, h.2⟩⟩

/-- The concentrated-liquidity state of a V3, V4 or Pancake Infinity pool. -/
def concentrated : PoolState → Option UniswapV3PoolState
  | .uniswapV3 s | .uniswapV4 s | .pancakeInfinity s => some s
  | _ => none

/-! ## One Mint or Burn -/

/-- The sums of a Mint or Burn stay in range: the net entries in `i128` and the active
    liquidity with the amount below `2 ^ 128`; and its range is not empty. -/
structure Fits (s : UniswapV3PoolState) (tickLower tickUpper amount : ℤ) : Prop where
  range : tickLower < tickUpper
  amount_lo : -2 ^ 127 < amount
  amount_hi : amount < 2 ^ 127
  lower_lo : -2 ^ 127 ≤ netAt s.ticks tickLower + amount
  lower_hi : netAt s.ticks tickLower + amount < 2 ^ 127
  upper_lo : -2 ^ 127 ≤ netAt s.ticks tickUpper - amount
  upper_hi : netAt s.ticks tickUpper - amount < 2 ^ 127
  liquidity : (s.liquidity : ℤ) + amount < 2 ^ 128

theorem addNet_eq {ticks : TickMap} {t d : ℤ} (hlo : -2 ^ 127 ≤ netAt ticks t + d)
    (hhi : netAt ticks t + d < 2 ^ 127) :
    addNet ticks t d = ticks.insert t (netAt ticks t + d) := by
  have h : wrapSigned 128 (netAt ticks t + d) = netAt ticks t + d :=
    wrapSigned_eq (w := 127) hlo hhi
  rw [addNet, ← netAt, h]

theorem subNet_eq_addNet (ticks : TickMap) (t d : ℤ) : subNet ticks t d = addNet ticks t (-d) := rfl

theorem netTotal_insert_add (ticks : TickMap) (t d : ℤ) :
    netTotal (ticks.insert t (netAt ticks t + d)) = netTotal ticks + d :=
  Map.sumBy_insert_add (fun _ => rfl) (fun _ _ _ => rfl) ticks t d

theorem netAtOrBelow_insert_add (ticks : TickMap) (tick t d : ℤ) :
    netAtOrBelow (ticks.insert t (netAt ticks t + d)) tick =
      netAtOrBelow ticks tick + shareAtOrBelow tick t d := by
  refine Map.sumBy_insert_add (f := shareAtOrBelow tick) (fun _ => ite_self 0) ?_ ticks t d
  intro k x y
  unfold shareAtOrBelow
  split_ifs <;> simp

theorem netAt_insert_of_ne {ticks : TickMap} {t t' x : ℤ} (h : t ≠ t') :
    netAt (ticks.insert t x) t' = netAt ticks t' := by
  unfold netAt
  rw [Map.getElem?_insert_eq, if_neg h]

/-- The two writes of a Mint or Burn, with its sums in range. -/
theorem mintBurn_ticks {s : UniswapV3PoolState} {tl tu a : ℤ} (h : Fits s tl tu a) :
    (s.mintBurn tl tu a).ticks =
      (s.ticks.insert tl (netAt s.ticks tl + a)).insert tu
        (netAt (s.ticks.insert tl (netAt s.ticks tl + a)) tu + -a) := by
  have hne : tl ≠ tu := by have := h.range; omega
  have hu := h.upper_lo
  have hu' := h.upper_hi
  show subNet (addNet s.ticks tl a) tu a = _
  rw [subNet_eq_addNet, addNet_eq h.lower_lo h.lower_hi, addNet_eq]
  · rw [netAt_insert_of_ne hne]; omega
  · rw [netAt_insert_of_ne hne]; omega

/-- A Mint or Burn adds its amount to the sum at or below the tick when its range contains
    the tick. -/
theorem netAtOrBelow_mintBurn {s : UniswapV3PoolState} {tl tu a : ℤ} (h : Fits s tl tu a) :
    netAtOrBelow (s.mintBurn tl tu a).ticks s.tick =
      netAtOrBelow s.ticks s.tick + if tl ≤ s.tick ∧ s.tick < tu then a else 0 := by
  have hr := h.range
  rw [mintBurn_ticks h, netAtOrBelow_insert_add, netAtOrBelow_insert_add]
  unfold shareAtOrBelow
  split_ifs <;> omega

theorem netTotal_mintBurn {s : UniswapV3PoolState} {tl tu a : ℤ} (h : Fits s tl tu a) :
    netTotal (s.mintBurn tl tu a).ticks = netTotal s.ticks := by
  rw [mintBurn_ticks h, netTotal_insert_add, netTotal_insert_add]
  omega

/-- The active liquidity moves by the amount, and stops at zero. -/
theorem liquidity_mintBurn {s : UniswapV3PoolState} {tl tu a : ℤ} (h : Fits s tl tu a) :
    ((s.mintBurn tl tu a).liquidity : ℤ) = max 0 ((s.liquidity : ℤ) + a) := by
  have hlo := h.amount_lo
  have hhi := h.amount_hi
  have hl := h.liquidity
  show ((if a > 0 then saturatingAdd 128 s.liquidity (asUnsigned 128 a)
    else s.liquidity - asUnsigned 128 (wrapSigned 128 (-a)) : ℕ) : ℤ) = _
  split_ifs with ha
  · rw [asUnsigned_eq (by omega) (by omega), saturatingAdd_eq (by omega)]
    omega
  · have hneg : wrapSigned 128 (-a) = -a := wrapSigned_eq (w := 127) (by omega) (by omega)
    rw [hneg, asUnsigned_eq (by omega) (by omega)]
    omega

/-- A Mint or Burn that the active liquidity counts rightly: its range contains the tick
    and, for a burn, the liquidity is there; or it adds nothing; or it burns where no
    liquidity is active. -/
def CountsRight (s : UniswapV3PoolState) (tickLower tickUpper amount : ℤ) : Prop :=
  (tickLower ≤ s.tick ∧ s.tick < tickUpper ∧ 0 ≤ (s.liquidity : ℤ) + amount) ∨ amount = 0 ∨
    (amount < 0 ∧ s.liquidity = 0 ∧ ¬(tickLower ≤ s.tick ∧ s.tick < tickUpper))

/-- One Mint or Burn of a well-formed pool leaves it well-formed exactly when the active
    liquidity counts it rightly. -/
theorem wellFormed_mintBurn_iff {s : UniswapV3PoolState} {tl tu a : ℤ} (hs : WellFormed s)
    (h : Fits s tl tu a) : WellFormed (s.mintBurn tl tu a) ↔ CountsRight s tl tu a := by
  have hactive := hs.active
  have hliq := liquidity_mintBurn h
  have hnet := netAtOrBelow_mintBurn h
  have htotal := netTotal_mintBurn h
  have hiff : WellFormed (s.mintBurn tl tu a) ↔
      ((s.mintBurn tl tu a).liquidity : ℤ) = netAtOrBelow (s.mintBurn tl tu a).ticks s.tick :=
    ⟨fun hw => hw.active, fun hw => ⟨hw, by rw [htotal, hs.balanced]⟩⟩
  rw [hiff, hliq, hnet, ← hactive, CountsRight]
  split_ifs with hin <;> omega

/-! ## Runs -/

theorem concentrated_mapConcentrated (f : UniswapV3PoolState → UniswapV3PoolState) (p : PoolState) :
    concentrated (p.mapConcentrated f) = (concentrated p).map f := by
  cases p <;> rfl

/-- The pool at `a` is tracked with a well-formed concentrated-liquidity state. -/
def WellFormedAt (pm : PoolManager) (a : Address) : Prop :=
  a ∈ pm.knownSet ∧ ∃ p s, pm.pools[a]? = some p ∧ concentrated p = some s ∧ WellFormed s

/-- The condition on a log and the state before it: a Mint or Burn of the pool at `a` fits
    the state's integers, and the active liquidity counts it rightly. -/
def MintBurnCounted (a : Address) (pm : PoolManager) (log : ExecutedLog) : Prop :=
  log.address = a → ∀ p s d, pm.pools[a]? = some p → concentrated p = some s →
    decodeV3MintBurn log = some d →
    Fits s d.tickLower d.tickUpper d.amount ∧ CountsRight s d.tickLower d.tickUpper d.amount

/-- What a Mint or Burn log does to the concentrated-liquidity state of its emitter. -/
theorem logEffect_mintBurn {p p' : PoolState} {log : ExecutedLog}
    (hh : logHandler log = some .v3MintBurn) (he : logEffect p log = .ok p') :
    p' = (decodeV3MintBurn log).elim p fun d =>
      p.mapConcentrated (·.mintBurn d.tickLower d.tickUpper d.amount) := by
  rw [PoolManager.logEffect_of_handler hh] at he
  dsimp only [Handler.edits] at he
  cases hd : decodeV3MintBurn log <;> rw [hd] at he <;> cases he <;> rfl

/-- A Mint or Burn log of any emitter keeps the pool at `a` well-formed, when it meets the
    condition. -/
theorem wellFormedAt_processLog {pm pm' : PoolManager} {a : Address} {log : ExecutedLog}
    (hh : logHandler log = some .v3MintBurn) (hwf : WellFormedAt pm a)
    (hC : MintBurnCounted a pm log) (h : pm.processLog log = .ok pm') : WellFormedAt pm' a := by
  obtain ⟨hk, p, s, hp, hs, hw⟩ := hwf
  have hk' : a ∈ pm'.knownSet := by rw [PoolManager.processLog_knownSet h]; exact hk
  by_cases ha : log.address = a
  · subst ha
    obtain ⟨p', he, hp'⟩ := PoolManager.processLog_pool h hk hp
    have hp'' := logEffect_mintBurn hh he
    cases hd : decodeV3MintBurn log with
    | none =>
      rw [hd] at hp''
      exact ⟨hk', p', s, hp', by rw [hp'']; exact hs, hw⟩
    | some d =>
      rw [hd] at hp''
      obtain ⟨hfits, hcount⟩ := hC rfl p s d hp hs hd
      refine ⟨hk', p', s.mintBurn d.tickLower d.tickUpper d.amount, hp', ?_,
        (wellFormed_mintBurn_iff hw hfits).mpr hcount⟩
      rw [hp'']
      show concentrated (p.mapConcentrated _) = _
      rw [concentrated_mapConcentrated, hs]
      rfl
  · exact ⟨hk', p, s, by rw [PoolManager.processLog_pool_of_ne h ha]; exact hp, hs, hw⟩

/-- **Main theorem.** In a run of Mint and Burn logs each of which meets the condition in
    the state before it, a well-formed pool is well-formed in every state reached. -/
theorem wellFormed_of_meets {pm : PoolManager} {a : Address} {logs : List ExecutedLog}
    (hwf : WellFormedAt pm a) (hlogs : ∀ log ∈ logs, logHandler log = some .v3MintBurn)
    (hC : Meets PoolManager.processLog (MintBurnCounted a) pm logs) :
    ∀ pre, pre <+: logs → ∃ pm', pm.updateFromLogs pre = .ok pm' ∧ WellFormedAt pm' a := by
  intro pre hpre
  have hlogs' : ∀ log ∈ pre, logHandler log = some .v3MintBurn :=
    fun log hlog => hlogs log (hpre.subset hlog)
  obtain ⟨pm', h⟩ := PoolManager.updateFromLogs_ok_iff.mpr fun log hlog _ _ =>
    ⟨none, PoolManager.decodePendleSwap_of_ne (by rw [hlogs' log hlog]; simp)⟩
  refine ⟨pm', h, ?_⟩
  refine run_induct_of_meets (I := fun q => WellFormedAt q a) ?_ (hC.of_prefix hpre) h hwf
  intro log hlog q q' hq hCq hstep
  exact wellFormedAt_processLog (hlogs' log hlog) hq hCq hstep

/-! ## A position above the tick -/

/-- A V3 pool at address 1 and tick 0, with one position of `liquidity` over `[-60, 60)`. -/
def examplePool (liquidity : ℕ) : UniswapV3PoolState :=
  { info := { address := 1, token0 := 2, token1 := 3, fee := 3000, dexType := .uniswapV3 }
    sqrtPriceX96 := 2 ^ 96
    liquidity
    ticks := ((∅ : TickMap).insert (-60) liquidity).insert 60 (-liquidity) }

/-- The Mint log of `amount` over `[tickLower, tickUpper)`, by an owner that is not modelled. -/
def mintLog (tickLower tickUpper : ℤ) (amount : ℕ) : ExecutedLog :=
  { address := 1
    topics := [v3MintTopic, 9, BitVec.ofInt 256 tickLower, BitVec.ofInt 256 tickUpper]
    data := encodeWords [9, amount, 0, 0] }

/-- The manager that tracks the pool. -/
def exampleManager (liquidity : ℕ) : PoolManager :=
  ({} : PoolManager).addPool (.uniswapV3 (examplePool liquidity))

/-- A Mint of 500 over `[-60, 60)`, around the tick, keeps the pool well-formed. -/
theorem wellFormed_inRangeMint :
    WellFormedAt (exampleManager 1000) 1 ∧ ∀ pre, pre <+: [mintLog (-60) 60 500] →
      ∃ pm', (exampleManager 1000).updateFromLogs pre = .ok pm' ∧ WellFormedAt pm' 1 := by
  have hget : (exampleManager 1000).pools[(1 : Address)]? =
      some (.uniswapV3 (examplePool 1000)) := by
    decide +kernel
  have hdec : decodeV3MintBurn (mintLog (-60) 60 500) = some ⟨-60, 60, 500⟩ := by decide +kernel
  have hwf : WellFormedAt (exampleManager 1000) 1 :=
    ⟨by decide, _, _, hget, rfl, by decide +kernel⟩
  have hC : MintBurnCounted 1 (exampleManager 1000) (mintLog (-60) 60 500) := by
    intro _ p s d hp hs hd
    rw [hget] at hp
    rw [hdec] at hd
    obtain rfl := Option.some.inj hp
    obtain rfl := Option.some.inj hs
    obtain rfl := Option.some.inj hd
    exact ⟨by constructor <;> decide +kernel, .inl (by decide)⟩
  refine ⟨hwf, wellFormed_of_meets hwf ?_ ⟨hC, fun _ _ => trivial⟩⟩
  intro log hlog
  obtain rfl := List.mem_singleton.mp hlog
  rfl

/-- A Mint of 500 over `[60, 120)`, all above the tick: the active liquidity 1000 becomes
    1500, although the ticks at or below the current one still hold 1000. -/
theorem outOfRangeMint_not_wellFormed :
    WellFormed (examplePool 1000) ∧
    ((exampleManager 1000).updateFromLogs [mintLog 60 120 500]).map (fun pm =>
      (pm.pools[(1 : Address)]?.bind concentrated).map fun s =>
        (s.tick, s.liquidity, netAtOrBelow s.ticks s.tick)) = .ok (some (0, 1500, 1000)) := by
  constructor <;> decide +kernel

end MevScout.Pool
