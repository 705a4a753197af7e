import MevScout.Pool.Liquidity

/-!
# Fee growth over swap logs

The fee growth that `apply_v3_swap` (`core/src/pool/state/apply.rs`) accumulates, against the
reading of the amounts in `learn_taxes_from_tx` and in the JIT detector: a positive amount is what
the pool received.

Results:
* `afterSwaps_spec`: the state of a pool after swap logs;
* `feeGrowth_eq_self_iff`: when the growth of a token stays as it is;
* `fee_growth_run_iff`: the runs in which the fees accrue to the token that was paid in;
* `fee_growth_wrong_token`: a swap whose fee accrues to the other token.
-/

namespace MevScout.Pool

variable {s t t' : UniswapV3PoolState} {d : V3SwapDecoded}

/-- `floor(fee(amount) * 2^128 / liquidity)`, and 0 without liquidity. -/
def feeIncrement (feeTier : FeeTier) (liquidity amount : ℕ) : ℕ :=
  feeTier.feeOnAmount amount * 2 ^ 128 / liquidity

/-- What a swap should do to the fee growths: that of a token with a positive amount is raised
    by its fee when the other amount is negative, and a token that was not paid in is left as it
    is. -/
structure Accrues (d : V3SwapDecoded) (t t' : UniswapV3PoolState) : Prop where
  zeroForOne : 0 < d.amount0 → d.amount1 < 0 → t'.feeGrowthGlobal0X128 =
    t.feeGrowthGlobal0X128 + feeIncrement t.info.feeTier d.liquidity d.amount0.natAbs
  oneForZero : 0 < d.amount1 → d.amount0 < 0 → t'.feeGrowthGlobal1X128 =
    t.feeGrowthGlobal1X128 + feeIncrement t.info.feeTier d.liquidity d.amount1.natAbs
  only0 : d.amount0 ≤ 0 → t'.feeGrowthGlobal0X128 = t.feeGrowthGlobal0X128
  only1 : d.amount1 ≤ 0 → t'.feeGrowthGlobal1X128 = t.feeGrowthGlobal1X128

/-- A swap without an effect on the fee growths: the fee on each paid amount rounds to nothing,
    and so does the fee on what was paid out, or that growth is at its maximum. -/
structure Feeless (d : V3SwapDecoded) (t : UniswapV3PoolState) : Prop where
  paid0 : 0 < d.amount0 → d.amount1 < 0 →
    feeIncrement t.info.feeTier d.liquidity d.amount0.natAbs = 0
  paid1 : 0 < d.amount1 → d.amount0 < 0 →
    feeIncrement t.info.feeTier d.liquidity d.amount1.natAbs = 0
  out0 : d.amount0 < 0 → feeIncrement t.info.feeTier d.liquidity d.amount0.natAbs = 0 ∨
    t.feeGrowthGlobal0X128 = 2 ^ 256 - 1
  out1 : d.amount1 < 0 → feeIncrement t.info.feeTier d.liquidity d.amount1.natAbs = 0 ∨
    t.feeGrowthGlobal1X128 = 2 ^ 256 - 1

/-- Both growths fit a `U256`. -/
def GrowthFits (s : UniswapV3PoolState) : Prop :=
  s.feeGrowthGlobal0X128 < 2 ^ 256 ∧ s.feeGrowthGlobal1X128 < 2 ^ 256

/-- The state that the swaps of the logs leave. -/
def afterSwaps (s : UniswapV3PoolState) (logs : List ExecutedLog) : UniswapV3PoolState :=
  logs.foldl (fun t log => (decodeV3Swap log).elim t fun d =>
    t.swap d.sqrtPriceX96 d.tick d.liquidity d.amount0 d.amount1) s

/-! ## One swap -/

theorem feeGrowth_of_nonneg {feeTier : FeeTier} {liquidity growth : ℕ} {amount : ℤ}
    (h : 0 ≤ amount) : feeGrowth feeTier liquidity growth amount = growth :=
  if_neg (not_lt.mpr h)

/-- The growth of a token that was paid out rises by the fee on what was paid out. -/
theorem feeGrowth_of_neg {feeTier : FeeTier} {liquidity growth : ℕ} {amount : ℤ}
    (h : amount < 0) (hgrowth : growth < 2 ^ 256) :
    feeGrowth feeTier liquidity growth amount =
      saturatingAdd 256 growth (feeIncrement feeTier liquidity amount.natAbs) := by
  unfold feeGrowth feeIncrement
  dsimp only
  rw [if_pos h]
  split_ifs with hpos
  · rfl
  · have hzero : feeTier.feeOnAmount amount.natAbs * 2 ^ 128 / liquidity = 0 := by
      rcases Nat.eq_zero_or_pos (feeTier.feeOnAmount amount.natAbs) with hfee | hfee
      · rw [hfee, Nat.zero_mul, Nat.zero_div]
      · rw [Nat.eq_zero_of_not_pos fun hliq => hpos ⟨hfee, hliq⟩, Nat.div_zero]
    rw [hzero, saturatingAdd_eq (by omega), Nat.add_zero]

theorem feeGrowth_lt {feeTier : FeeTier} {liquidity growth : ℕ} {amount : ℤ}
    (hgrowth : growth < 2 ^ 256) : feeGrowth feeTier liquidity growth amount < 2 ^ 256 := by
  rcases lt_or_ge amount 0 with h | h
  · rw [feeGrowth_of_neg h hgrowth]
    unfold saturatingAdd
    omega
  · rwa [feeGrowth_of_nonneg h]

/-- The growth of a token that was paid out stays as it is when the fee on it rounds to nothing
    or it is at its maximum. -/
theorem feeGrowth_eq_self_iff {feeTier : FeeTier} {liquidity growth : ℕ} {amount : ℤ}
    (h : amount < 0) (hgrowth : growth < 2 ^ 256) :
    feeGrowth feeTier liquidity growth amount = growth ↔
      feeIncrement feeTier liquidity amount.natAbs = 0 ∨ growth = 2 ^ 256 - 1 := by
  rw [feeGrowth_of_neg h hgrowth]
  unfold saturatingAdd
  omega

theorem GrowthFits.swap (h : GrowthFits t) (sqrtPriceX96 : ℕ) (tick : ℤ) (liquidity : ℕ)
    (amount0 amount1 : ℤ) : GrowthFits (t.swap sqrtPriceX96 tick liquidity amount0 amount1) :=
  ⟨feeGrowth_lt h.1, feeGrowth_lt h.2⟩

/-- **One swap.** The fees accrue to the token that was paid in only when there are none. -/
theorem swap_accrues_iff (h : GrowthFits t) :
    Accrues d t (t.swap d.sqrtPriceX96 d.tick d.liquidity d.amount0 d.amount1) ↔ Feeless d t := by
  have h0 : (t.swap d.sqrtPriceX96 d.tick d.liquidity d.amount0 d.amount1).feeGrowthGlobal0X128 =
    feeGrowth t.info.feeTier d.liquidity t.feeGrowthGlobal0X128 d.amount0 := rfl
  have h1 : (t.swap d.sqrtPriceX96 d.tick d.liquidity d.amount0 d.amount1).feeGrowthGlobal1X128 =
    feeGrowth t.info.feeTier d.liquidity t.feeGrowthGlobal1X128 d.amount1 := rfl
  constructor
  · intro ha
    refine ⟨fun hp hn => ?_, fun hp hn => ?_, fun hn => ?_, fun hn => ?_⟩
    · have hraise := ha.zeroForOne hp hn
      rw [h0, feeGrowth_of_nonneg hp.le] at hraise
      omega
    · have hraise := ha.oneForZero hp hn
      rw [h1, feeGrowth_of_nonneg hp.le] at hraise
      omega
    · exact (feeGrowth_eq_self_iff hn h.1).mp (h0.symm.trans (ha.only0 hn.le))
    · exact (feeGrowth_eq_self_iff hn h.2).mp (h1.symm.trans (ha.only1 hn.le))
  · intro hf
    refine ⟨fun hp hn => ?_, fun hp hn => ?_, fun hn => ?_, fun hn => ?_⟩
    · rw [h0, feeGrowth_of_nonneg hp.le, hf.paid0 hp hn, Nat.add_zero]
    · rw [h1, feeGrowth_of_nonneg hp.le, hf.paid1 hp hn, Nat.add_zero]
    · rcases hn.eq_or_lt with hn | hn
      · rw [h0, feeGrowth_of_nonneg hn.ge]
      · exact h0.trans ((feeGrowth_eq_self_iff hn h.1).mpr (hf.out0 hn))
    · rcases hn.eq_or_lt with hn | hn
      · rw [h1, feeGrowth_of_nonneg hn.ge]
      · exact h1.trans ((feeGrowth_eq_self_iff hn h.2).mpr (hf.out1 hn))

/-! ## Runs of swap logs -/

/-- A swap log gives its pool the state after its swap. -/
theorem logEffect_v3Swap {log : ExecutedLog} (hd : decodeV3Swap log = some d) (p : PoolState) :
    logEffect p log = .ok (p.mapConcentrated
      (·.swap d.sqrtPriceX96 d.tick d.liquidity d.amount0 d.amount1)) := by
  have hhead := (decodeV3Swap_eq_some_iff.mp hd).1
  have hh : logHandler log = some .v3Swap :=
    PoolManager.logHandler_eq_some_iff.mpr ⟨_, List.mem_singleton.mpr rfl, hhead⟩
  rw [PoolManager.logEffect_of_handler hh]
  dsimp only [Handler.edits]
  rw [hd]
  rfl

/-- **The run of swap logs.** The manager processes swap logs of a pool one after another, and
    never panics on them. -/
theorem afterSwaps_spec {pm : PoolManager} {a : Address} {p : PoolState} (hk : a ∈ pm.knownSet)
    (hp : pm.pools[a]? = some p) (hs : concentrated p = some s) {logs : List ExecutedLog}
    (hlogs : ∀ log ∈ logs, log.address = a ∧ ∃ d, decodeV3Swap log = some d) :
    ∃ q p', pm.updateFromLogs logs = .ok q ∧ q.pools[a]? = some p' ∧
      concentrated p' = some (afterSwaps s logs) := by
  induction logs generalizing pm p s with
  | nil => exact ⟨pm, p, rfl, hp, hs⟩
  | cons log logs ih =>
    obtain ⟨⟨rfl, d, hd⟩, hrest⟩ := List.forall_mem_cons.mp hlogs
    have heffect := logEffect_v3Swap hd p
    obtain ⟨q, hq⟩ : ∃ q, pm.processLog log = .ok q := by
      have hne : log.topics ≠ [] := by
        intro hnil
        have hhead := (decodeV3Swap_eq_some_iff.mp hd).1
        rw [hnil] at hhead
        cases hhead
      rw [PoolManager.processLog_eq hne hk hp]
      rw [logEffect] at heffect
      cases he : logEdits p log with
      | error e => rw [he] at heffect; cases heffect
      | ok edits => exact ⟨_, rfl⟩
    obtain ⟨p₁, he₁, hp₁⟩ := PoolManager.processLog_pool hq hk hp
    obtain rfl := Except.ok.inj (heffect.symm.trans he₁)
    have hk₁ : log.address ∈ q.knownSet := by rw [PoolManager.processLog_knownSet hq]; exact hk
    obtain ⟨q', p', hq', hp', hs'⟩ := ih hk₁ hp₁
      ((concentrated_mapConcentrated _ p).trans (congrArg (Option.map _) hs)) hrest
    refine ⟨q', p', ?_, hp', ?_⟩
    · rw [PoolManager.updateFromLogs_cons, hq]
      exact hq'
    · rw [hs', afterSwaps, afterSwaps, List.foldl_cons, hd]
      rfl

/-- The fees of every swap of a run accrue to the token that was paid in. -/
def FeesAccrue (s : UniswapV3PoolState) (logs : List ExecutedLog) : Prop :=
  ∀ pre log, pre ++ [log] <+: logs → ∀ d, decodeV3Swap log = some d →
    Accrues d (afterSwaps s pre) (afterSwaps s (pre ++ [log]))

/-- No swap of a run has an effect on the fee growths. -/
def RunFeeless (s : UniswapV3PoolState) (logs : List ExecutedLog) : Prop :=
  ∀ pre log, pre ++ [log] <+: logs → ∀ d, decodeV3Swap log = some d →
    Feeless d (afterSwaps s pre)

theorem afterSwaps_fits (h : GrowthFits s) (logs : List ExecutedLog) :
    GrowthFits (afterSwaps s logs) := by
  induction logs using List.reverseRecOn with
  | nil => exact h
  | append_singleton logs log ih =>
    rw [afterSwaps, List.foldl_concat, ← afterSwaps]
    cases decodeV3Swap log with
    | none => exact ih
    | some d => exact ih.swap ..

/-- **Main theorem.** Over a run of swap logs of a tracked pool, the fees accrue to the token that
    was paid in exactly when no swap has an effect on the fee growths. -/
theorem fee_growth_run_iff {pm : PoolManager} {a : Address} {p : PoolState} (hk : a ∈ pm.knownSet)
    (hp : pm.pools[a]? = some p) (hs : concentrated p = some s) (hfits : GrowthFits s)
    {logs : List ExecutedLog}
    (hlogs : ∀ log ∈ logs, log.address = a ∧ ∃ d, decodeV3Swap log = some d) :
    (∀ pre, pre <+: logs → ∃ q p', pm.updateFromLogs pre = .ok q ∧ q.pools[a]? = some p' ∧
      concentrated p' = some (afterSwaps s pre)) ∧
    (FeesAccrue s logs ↔ RunFeeless s logs) := by
  refine ⟨fun pre hpre => afterSwaps_spec hk hp hs fun log hlog => hlogs log (hpre.subset hlog),
    ?_⟩
  have hstep (pre : List ExecutedLog) (log : ExecutedLog) (d : V3SwapDecoded)
      (hd : decodeV3Swap log = some d) :
      Accrues d (afterSwaps s pre) (afterSwaps s (pre ++ [log])) ↔
        Feeless d (afterSwaps s pre) := by
    rw [← swap_accrues_iff (afterSwaps_fits hfits pre)]
    have happ : afterSwaps s (pre ++ [log]) = (afterSwaps s pre).swap d.sqrtPriceX96 d.tick
        d.liquidity d.amount0 d.amount1 := by
      rw [afterSwaps, List.foldl_concat, ← afterSwaps, hd]
      rfl
    rw [happ]
  constructor
  · intro h pre log hpre d hd
    exact (hstep pre log d hd).mp (h pre log hpre d hd)
  · intro h pre log hpre d hd
    exact (hstep pre log d hd).mpr (h pre log hpre d hd)

/-! ## Two swaps -/

/-- A swap log of the pool of `exampleManager`, which receives `amount` of its first token and
    pays out as much of its second token. -/
def zeroForOneLog (amount liquidity : ℕ) : ExecutedLog where
  address := 1
  topics := [Chain.v3SwapTopic]
  data := encodeWords [amount, 2 ^ 256 - amount, 2 ^ 96, liquidity, 0]

/-- A swap whose fee rounds to nothing. -/
theorem fee_growth_run_small : FeesAccrue (examplePool 1000) [zeroForOneLog 100 5000] := by
  have hget : (exampleManager 1000).pools[(1 : Address)]? =
      some (.uniswapV3 (examplePool 1000)) := by
    decide +kernel
  have hdec : decodeV3Swap (zeroForOneLog 100 5000) = some ⟨2 ^ 96, 0, 5000, 100, -100⟩ := by
    decide +kernel
  have hlogs : ∀ log ∈ [zeroForOneLog 100 5000],
      log.address = 1 ∧ ∃ d, decodeV3Swap log = some d := by
    intro log hlog
    obtain rfl := List.mem_singleton.mp hlog
    exact ⟨rfl, _, hdec⟩
  refine (fee_growth_run_iff (by decide) hget rfl ⟨by decide, by decide⟩ hlogs).2.mpr ?_
  intro pre log hpre d hd
  obtain ⟨rfl, rfl⟩ : pre = [] ∧ log = zeroForOneLog 100 5000 := by
    cases pre with
    | nil => exact ⟨rfl, by simpa using hpre⟩
    | cons a pre => simpa using hpre.length_le
  obtain rfl := Option.some.inj (hdec.symm.trans hd)
  constructor <;> decide

/-- The pool receives 1000000 of its first token. The fee growth of the first token should rise by
    `3000 * 2^128 / 5000`; that of the second token does. -/
theorem fee_growth_wrong_token :
    decodeV3Swap (zeroForOneLog 1000000 5000) = some ⟨2 ^ 96, 0, 5000, 1000000, -1000000⟩ ∧
    feeIncrement (examplePool 1000).info.feeTier 5000 1000000 = 3000 * 2 ^ 128 / 5000 ∧
    ((exampleManager 1000).updateFromLogs [zeroForOneLog 1000000 5000]).map (fun pm =>
      (pm.pools[(1 : Address)]?.bind concentrated).map fun s =>
        (s.feeGrowthGlobal0X128, s.feeGrowthGlobal1X128)) =
      .ok (some (0, 3000 * 2 ^ 128 / 5000)) := by
  refine ⟨?_, ?_, ?_⟩ <;> decide +kernel

end MevScout.Pool
