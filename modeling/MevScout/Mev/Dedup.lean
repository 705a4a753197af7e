import MevScout.Mev.Backrun

/-!
# Repeated opportunities

`check_dedup_key` (`core/src/pool/state/manager.rs`) suppresses an opportunity while the pools of
its key stay where they were when it was last emitted. It compares one number for each pool: the
smaller reserve, the sum of the balances or the liquidity.

Results:
* `seen_eq`: the table holds the snapshots of the last emissions;
* `suppressed_iff`: a call is suppressed exactly when both numbers are near those of the last
  emission;
* `suppressed_unmoved_iff`: a call is suppressed only where nothing has moved exactly when every
  movement shows in one of the two numbers;
* `visible_min_iff`: when the movement of two reserves shows.
-/

namespace MevScout.Mev

open Paper Pool Pipeline

/-! ## Runs of the gate -/

/-- A call of `check_dedup_key`: its key, the pools at that time and its answer. -/
structure Check where
  key : Key
  pm : PoolManager
  fresh : Bool
  deriving DecidableEq

/-- The pools, the table of the gate, and the calls so far, the latest first. -/
structure Gate where
  pm : PoolManager
  seen : Key → Option (ℕ × ℕ) := fun _ => none
  checks : List Check := []

/-- The pools change in some way, or an opportunity of some key comes. -/
inductive GateEvent where
  | update (pm : PoolManager)
  | check (key : Key)

def Gate.step (g : Gate) : GateEvent → Gate
  | .update pm => { g with pm }
  | .check key =>
    let (fresh, seen) := checkDedupKey g.pm g.seen key
    { g with seen, checks := ⟨key, g.pm, fresh⟩ :: g.checks }

/-- A run from an empty table. -/
def runGate (pm : PoolManager) (events : List GateEvent) : Gate :=
  events.foldl Gate.step { pm }

/-- The pools at the last call of a key that was not suppressed. -/
def lastEmission (key : Key) (checks : List Check) : Option PoolManager :=
  (checks.find? fun c => c.key = key ∧ c.fresh).map (·.pm)

/-! ## What moves -/

/-- What a pool is made of: reserves, balances, or price and liquidity. -/
def components : PoolState → List ℕ
  | .uniswapV2 v2 => [v2.reserve0, v2.reserve1]
  | .uniswapV3 v3 | .uniswapV4 v3 | .pancakeInfinity v3 => [v3.sqrtPriceX96, v3.liquidity]
  | .curve c => c.balances
  | .balancer b => b.balances
  | .traderJoeLB lb => [lb.reserveX, lb.reserveY]
  | .pendle p => [p.totalPt, p.totalSy]
  | .metric _ | .fluid _ => []

/-- A component of a pool; one that is not there is 0. -/
def component (pm : PoolManager) (addr : Address) (i : ℕ) : ℕ :=
  ((pm.pools[addr]?.map components).getD []).getD i 0

/-- A component of a pool moved by more than 0.1%. -/
def PoolMoved (old new : PoolManager) (addr : Address) : Prop :=
  ∃ i, component old addr i <
    1000 * ((component new addr i - component old addr i) +
      (component old addr i - component new addr i))

/-- One of the two pools of a key moved. -/
def Moved (old new : PoolManager) (key : Key) : Prop :=
  PoolMoved old new key.1 ∨ PoolMoved old new key.2.1

/-- The number that stands for a pool moved beyond its threshold. -/
def Visible (old new : PoolManager) (addr : Address) : Prop :=
  ¬Near (old.poolLiquidityEstimate addr) (new.poolLiquidityEstimate addr)

/-! ## The table -/

variable {pm : PoolManager} {key : Key}

theorem runGate_concat (pm : PoolManager) (events : List GateEvent) (event : GateEvent) :
    runGate pm (events ++ [event]) = (runGate pm events).step event :=
  List.foldl_concat _ _ _ _

/-- The table holds the snapshots of the last emissions. -/
theorem seen_eq (pm : PoolManager) (events : List GateEvent) (key : Key) :
    (runGate pm events).seen key =
      (lastEmission key (runGate pm events).checks).map (snapshot · key) := by
  induction events using List.reverseRecOn with
  | nil => rfl
  | append_singleton events event ih =>
    rw [runGate_concat]
    generalize runGate pm events = g at ih ⊢
    cases event with
    | update pm' => exact ih
    | check key' =>
      show (checkDedupKey g.pm g.seen key').2 key =
        ((List.find? _ (⟨key', g.pm, (checkDedupKey g.pm g.seen key').1⟩ :: g.checks)).map _).map _
      unfold checkDedupKey
      by_cases hclaimed : Claimed g.pm g.seen key'
      · rw [if_pos hclaimed, List.find?_cons_of_neg (by simp)]
        exact ih
      · rw [if_neg hclaimed]
        by_cases hkey : key' = key
        · subst hkey
          rw [List.find?_cons_of_pos (by simp)]
          exact Function.update_self ..
        · rw [List.find?_cons_of_neg (by simp [hkey])]
          exact (Function.update_of_ne (Ne.symm hkey) _ _).trans ih

/-- A call is suppressed exactly when the numbers of both pools are near those of the last emission
    under its key. -/
theorem suppressed_iff (pm : PoolManager) (events : List GateEvent) {later earlier : List Check}
    {c : Check} (h : (runGate pm events).checks = later ++ c :: earlier) :
    c.fresh = false ↔ ∃ old ∈ lastEmission c.key earlier,
      ¬Visible old c.pm c.key.1 ∧ ¬Visible old c.pm c.key.2.1 := by
  induction events using List.reverseRecOn generalizing later with
  | nil => simp [runGate] at h
  | append_singleton events event ih =>
    rw [runGate_concat] at h
    cases event with
    | update pm' => exact ih h
    | check key =>
      have hcons : (⟨key, (runGate pm events).pm,
          (checkDedupKey (runGate pm events).pm (runGate pm events).seen key).1⟩ : Check) ::
          (runGate pm events).checks = later ++ c :: earlier := h
      rcases later with _ | ⟨c', later⟩
      · -- the call that was just made
        obtain ⟨rfl, rfl⟩ := List.cons.inj hcons
        show (checkDedupKey _ _ key).1 = false ↔ _
        have hclaimed : Claimed (runGate pm events).pm (runGate pm events).seen key ↔
            ∃ old ∈ lastEmission key (runGate pm events).checks,
              ¬Visible old (runGate pm events).pm key.1 ∧
                ¬Visible old (runGate pm events).pm key.2.1 := by
          unfold Claimed Visible
          rw [seen_eq]
          simp only [not_not, Option.mem_def, Option.map_eq_some_iff, exists_exists_and_eq_and]
          rfl
        rw [← hclaimed]
        unfold checkDedupKey
        split_ifs with hc <;> simp [hc]
      · exact ih (List.cons.inj hcons).2

/-- **Main theorem.** A call is suppressed only where neither pool has moved since the last emission
    under its key, exactly when a movement since then shows in the number of one of the pools. -/
theorem suppressed_unmoved_iff (pm : PoolManager) (events : List GateEvent)
    {later earlier : List Check} {c : Check}
    (h : (runGate pm events).checks = later ++ c :: earlier) :
    (c.fresh = false → ∃ old ∈ lastEmission c.key earlier, ¬Moved old c.pm c.key) ↔
      ∀ old ∈ lastEmission c.key earlier, Moved old c.pm c.key →
        Visible old c.pm c.key.1 ∨ Visible old c.pm c.key.2.1 := by
  rw [suppressed_iff pm events h]
  constructor
  · intro hunmoved old hold hmoved
    by_contra hhidden
    rw [not_or] at hhidden
    obtain ⟨old', hold', hnot⟩ := hunmoved ⟨old, hold, hhidden⟩
    obtain rfl := Option.mem_unique hold hold'
    exact hnot hmoved
  · rintro hvisible ⟨old, hold, ha, hb⟩
    refine ⟨old, hold, fun hmoved => ?_⟩
    exact (hvisible old hold hmoved).elim ha hb

/-- A V2 pool at address 1 and its reserves. -/
def reservePools (reserve0 reserve1 : ℕ) : PoolManager :=
  { pools := Std.ExtTreeMap.insert ∅ (1 : Address) (.uniswapV2
      { info := { address := 1, token0 := 3, token1 := 4 }, reserve0, reserve1 }) }

/-- Without an update in between, the second call of a key is suppressed. -/
theorem repeated_call_unmoved :
    ∃ old ∈ lastEmission (1, 2, 3, 4) [⟨(1, 2, 3, 4), reservePools 100 200, true⟩],
      ¬Moved old (reservePools 100 200) (1, 2, 3, 4) := by
  have hchecks : (runGate (reservePools 100 200)
      [.check (1, 2, 3, 4), .check (1, 2, 3, 4)]).checks =
      [] ++ ⟨(1, 2, 3, 4), reservePools 100 200, false⟩ ::
        [⟨(1, 2, 3, 4), reservePools 100 200, true⟩] := by
    decide +kernel
  refine (suppressed_unmoved_iff _ _ hchecks).mpr ?_ rfl
  intro old hold hmoved
  obtain rfl : reservePools 100 200 = old := by simpa [lastEmission] using hold
  rcases hmoved with ⟨i, hi⟩ | ⟨i, hi⟩ <;>
  · rw [Nat.sub_self] at hi
    exact absurd hi (Nat.not_lt_zero _)

/-! ## Two reserves -/

/-- The movement of two reserves shows when one of them falls below the smaller one by more than the
    threshold, or both rise above it by more. -/
theorem visible_min_iff (a b a' b' : ℕ) :
    ¬Near (min a b) (min a' b') ↔
      (a' + max (min a b / 1000) 1 < min a b ∨ b' + max (min a b / 1000) 1 < min a b) ∨
        (min a b + max (min a b / 1000) 1 < a' ∧ min a b + max (min a b / 1000) 1 < b') := by
  unfold Near liquidityChangeThresholdDivisor
  generalize max (min a b / 1000) 1 = threshold
  generalize min a b = least
  omega

/-- One of two equal reserves doubles, and the opportunity stays suppressed. -/
theorem doubled_reserve_suppressed :
    (runGate (reservePools 1000000 1000000) [.check (1, 2, 3, 4),
        .update (reservePools 1000000 2000000), .check (1, 2, 3, 4)]).checks =
      [⟨(1, 2, 3, 4), reservePools 1000000 2000000, false⟩,
        ⟨(1, 2, 3, 4), reservePools 1000000 1000000, true⟩] ∧
      Moved (reservePools 1000000 1000000) (reservePools 1000000 2000000) (1, 2, 3, 4) :=
  ⟨by decide +kernel, .inl ⟨1, by decide +kernel⟩⟩

end MevScout.Mev
