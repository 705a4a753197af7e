import MevScout.Common.Register
import MevScout.Pool.Apply

/-!
# Reserves of V2 pools over Sync and Swap logs

A Uniswap V2 pair emits `Sync`, with the reserves after a swap, and then `Swap`. The
Sync handler writes the reserves; the Swap handler adds the amounts of the same swap to
reserves that already contain them.

The reserves of a pool are a register (`Register`): Sync writes it, Swap moves it. It
holds the last written values after every prefix of a list exactly when every Swap moves
it by nothing.

Results:
* `logEffect_reserves`: what one log does to the reserves of its pool;
* `updateFromLogs_reserves`: the reserves after a list of logs are the register's value;
* `reserves_eq_lastSync_iff`: the reserves are those of the last Sync throughout a list,
  if and only if no log panics and every Swap brings in what it takes out;
* `sync_swap_counts_twice`: one ordinary swap of a pair, counted twice.
-/

namespace MevScout.Pool

open MevScout.Chain

/-- The reserves of a pool in V2 layout: a V2 pool, or a Curve state of two balances
    (Solidly and Camelot stable pools). -/
def reserves : PoolState → Option (ℕ × ℕ)
  | .uniswapV2 s => some (s.reserve0, s.reserve1)
  | .curve s =>
    match s.balances with
    | [b0, b1] => some (b0, b1)
    | _ => none
  | _ => none

def isCurve : PoolState → Bool
  | .curve _ => true
  | _ => false

/-- A Swap log of the V2 or Solidly family, emitted by `a`. -/
def IsSwapOf (a : Address) (log : ExecutedLog) : Prop :=
  log.address = a ∧
    (log.topics.head? = some v2SwapTopic ∨ log.topics.head? = some solidlySwapTopic)

/-- A Sync log emitted by `a`. -/
def IsSyncOf (a : Address) (log : ExecutedLog) : Prop :=
  log.address = a ∧ log.topics.head? = some v2SyncTopic

instance (a : Address) (log : ExecutedLog) : Decidable (IsSwapOf a log) :=
  inferInstanceAs (Decidable (_ ∧ _))

instance (a : Address) (log : ExecutedLog) : Decidable (IsSyncOf a log) :=
  inferInstanceAs (Decidable (_ ∧ _))

/-- The `uint112` reserves of a Sync log. -/
def syncReserves (log : ExecutedLog) : ℕ × ℕ :=
  (beVal (slice log.data 0 32), beVal (slice log.data 32 64))

/-- The reserves that a log writes as a Sync of `a`. -/
def syncOf (a : Address) (log : ExecutedLog) : Option (ℕ × ℕ) :=
  if IsSyncOf a log then some (syncReserves log) else none

/-- The reserves of the last Sync log of `a`. -/
def lastSync (a : Address) (logs : List ExecutedLog) : Option (ℕ × ℕ) :=
  Register.lastWrite (syncOf a) logs

/-- A Swap log whose amounts, as `u128`, are the same in and out on both sides. -/
def Balanced (log : ExecutedLog) : Prop :=
  u128FromBeBytes (slice log.data 0 32) = u128FromBeBytes (slice log.data 64 96) ∧
    u128FromBeBytes (slice log.data 32 64) = u128FromBeBytes (slice log.data 96 128)

instance (log : ExecutedLog) : Decidable (Balanced log) := inferInstanceAs (Decidable (_ ∧ _))

/-- Logs as a V2 pair `a` emits them: Sync carries two `uint112`, Swap four words, and each
    Swap comes right after a Sync. -/
structure PairOrder (a : Address) (logs : List ExecutedLog) : Prop where
  sync : ∀ log ∈ logs, IsSyncOf a log →
    64 ≤ log.data.length ∧ (syncReserves log).1 < 2 ^ 112 ∧ (syncReserves log).2 < 2 ^ 112
  swap : ∀ log ∈ logs, IsSwapOf a log → 128 ≤ log.data.length
  notFirst : ∀ log ∈ logs.head?, ¬IsSwapOf a log
  swapAfterSync : logs.IsChain fun prev log => IsSwapOf a log → IsSyncOf a prev

/-- A Curve state is fed by V2-style events when none of its logs is a `TokenExchange`. -/
def FedByV2Events (a : Address) (p : PoolState) (logs : List ExecutedLog) : Prop :=
  isCurve p → ∀ log ∈ logs, log.address = a → logHandler log ≠ some .curveSwap

/-! ## One log -/

/-- What a log does to the reserves of its emitter. -/
def v2Step (log : ExecutedLog) (r : ℕ × ℕ) : ℕ × ℕ :=
  match logHandler log with
  | some .v2Swap =>
    if log.data.length < 128 then r
    else
      (v2Move r.1 (u128FromBeBytes (slice log.data 0 32))
        (u128FromBeBytes (slice log.data 64 96)),
       v2Move r.2 (u128FromBeBytes (slice log.data 32 64))
        (u128FromBeBytes (slice log.data 96 128)))
  | some .v2Sync =>
    if log.data.length < 64 then r
    else (u128FromBeBytes (slice log.data 0 32), u128FromBeBytes (slice log.data 32 64))
  | _ => r

theorem reserves_eq_some_iff {p : PoolState} {r : ℕ × ℕ} : reserves p = some r ↔
    (∃ s, p = .uniswapV2 s ∧ s.reserve0 = r.1 ∧ s.reserve1 = r.2) ∨
    ∃ s, p = .curve s ∧ s.balances = [r.1, r.2] := by
  cases p with
  | uniswapV2 s => simp [reserves, Prod.ext_iff]
  | curve s =>
    obtain ⟨info, balances⟩ := s
    rcases balances with _ | ⟨b0, _ | ⟨b1, _ | ⟨b2, rest⟩⟩⟩ <;> simp [reserves, Prod.ext_iff]
  | _ => simp [reserves]

theorem isSwapOf_iff {a : Address} {log : ExecutedLog} :
    IsSwapOf a log ↔ log.address = a ∧ logHandler log = some .v2Swap := by
  rw [PoolManager.logHandler_eq_some_iff]
  simp [IsSwapOf, Handler.topics]

theorem isSyncOf_iff {a : Address} {log : ExecutedLog} :
    IsSyncOf a log ↔ log.address = a ∧ logHandler log = some .v2Sync := by
  rw [PoolManager.logHandler_eq_some_iff]
  simp [IsSyncOf, Handler.topics]

/-- The reserves of a pool in V2 layout follow `v2Step`, and the layout stays. -/
theorem logEffect_reserves {p p' : PoolState} {log : ExecutedLog} {r : ℕ × ℕ}
    (hr : reserves p = some r) (hfed : isCurve p → logHandler log ≠ some .curveSwap)
    (he : logEffect p log = .ok p') :
    reserves p' = some (v2Step log r) ∧ isCurve p' = isCurve p := by
  cases hh : logHandler log with
  | none =>
    rw [PoolManager.logEffect_of_no_handler hh] at he
    cases he
    exact ⟨by rw [v2Step, hh]; exact hr, rfl⟩
  | some h =>
    by_cases hv : h.editsVariant p
    · rw [PoolManager.logEffect_of_handler hh] at he
      obtain ⟨s, rfl, h0, h1⟩ | ⟨s, rfl, hb⟩ := reserves_eq_some_iff.mp hr
      · cases h with
        | v2Swap =>
          simp only [v2Step, hh]
          dsimp only [Handler.edits] at he
          split_ifs at he ⊢ <;> cases he
          · exact ⟨hr, rfl⟩
          · simp [reserves, isCurve, PoolState.mapUniswapV2, PoolState.mapCurve,
              UniswapV2PoolState.swap, h0, h1]
        | v2Sync =>
          simp only [v2Step, hh]
          dsimp only [Handler.edits] at he
          split_ifs at he ⊢ <;> cases he
          · exact ⟨hr, rfl⟩
          · exact ⟨rfl, rfl⟩
        | _ => cases hv
      · cases h with
        | v2Swap =>
          simp only [v2Step, hh]
          dsimp only [Handler.edits] at he
          split_ifs at he ⊢ <;> cases he
          · exact ⟨hr, rfl⟩
          · simp [reserves, isCurve, PoolState.mapUniswapV2, PoolState.mapCurve,
              CurvePoolState.updateBalances, balancesSwap, hb]
        | v2Sync =>
          simp only [v2Step, hh]
          dsimp only [Handler.edits] at he
          split_ifs at he ⊢ <;> cases he
          · exact ⟨hr, rfl⟩
          · simp [reserves, isCurve, PoolState.mapUniswapV2, PoolState.mapCurve,
              CurvePoolState.updateBalances, balancesSync, hb]
        | curveSwap => exact absurd hh (hfed rfl)
        | _ => cases hv
    · obtain rfl := PoolManager.logEffect_of_not_edits hh (by simpa using hv) he
      refine ⟨?_, rfl⟩
      rw [v2Step, hh]
      obtain ⟨s, rfl, -⟩ | ⟨s, rfl, -⟩ := reserves_eq_some_iff.mp hr <;>
        cases h <;> first | exact hr | exact absurd rfl hv

/-! ## Lists of logs -/

/-- The reserves of the pool at `a`, when it is tracked in V2 layout. -/
def PoolManager.poolReserves (pm : PoolManager) (a : Address) : Option (ℕ × ℕ) :=
  pm.pools[a]?.bind reserves

/-- How a log moves the reserves of the pool at `a`. -/
def pairMove (a : Address) (log : ExecutedLog) (r : ℕ × ℕ) : ℕ × ℕ :=
  if log.address = a then v2Step log r else r

/-- A well-formed Sync log makes the reserves those it carries, any other log moves them. -/
theorem step_syncOf {a : Address} {log : ExecutedLog} (r : ℕ × ℕ)
    (hsync : IsSyncOf a log → 64 ≤ log.data.length ∧
      (syncReserves log).1 < 2 ^ 112 ∧ (syncReserves log).2 < 2 ^ 112) :
    Register.step (syncOf a) (pairMove a) r log = pairMove a log r := by
  unfold Register.step syncOf
  split_ifs with h
  · obtain ⟨hlen, h0, h1⟩ := hsync h
    obtain ⟨ha, hh⟩ := isSyncOf_iff.mp h
    rw [pairMove, if_pos ha, v2Step, hh]
    dsimp only
    rw [if_neg (by omega), u128FromBeBytes_eq, u128FromBeBytes_eq]
    simp only [syncReserves] at h0 h1
    rw [Nat.mod_eq_of_lt (by omega), Nat.mod_eq_of_lt (by omega)]
    rfl
  · rfl

/-- The reserves after a list of logs are those of the register that the Sync logs write
    and the other logs of the pool move. -/
theorem updateFromLogs_reserves {pm pm' : PoolManager} {a : Address} {p : PoolState}
    {r : ℕ × ℕ} {logs : List ExecutedLog} (hk : a ∈ pm.knownSet) (hp : pm.pools[a]? = some p)
    (hr : reserves p = some r) (hfed : FedByV2Events a p logs)
    (hsync : ∀ log ∈ logs, IsSyncOf a log → 64 ≤ log.data.length ∧
      (syncReserves log).1 < 2 ^ 112 ∧ (syncReserves log).2 < 2 ^ 112)
    (h : pm.updateFromLogs logs = .ok pm') :
    pm'.poolReserves a = some (Register.run (syncOf a) (pairMove a) r logs) := by
  induction logs generalizing pm p r with
  | nil =>
    cases h
    rw [PoolManager.poolReserves, hp]
    exact hr
  | cons log logs ih =>
    rw [PoolManager.updateFromLogs_cons, bind_eq_ok] at h
    obtain ⟨q, hq, hrest⟩ := h
    have hk' : a ∈ q.knownSet := by rw [PoolManager.processLog_knownSet hq]; exact hk
    have hsync' : ∀ l ∈ logs, IsSyncOf a l → _ := fun l hl => hsync l (List.mem_cons_of_mem _ hl)
    rw [Register.run, List.foldl_cons, step_syncOf r (hsync log (List.mem_cons_self ..)), pairMove]
    split_ifs with ha
    · subst ha
      obtain ⟨p₁, he, hp₁⟩ := PoolManager.processLog_pool hq hk hp
      obtain ⟨hr₁, hcurve⟩ :=
        logEffect_reserves hr (fun hc => hfed hc log (List.mem_cons_self ..) rfl) he
      refine ih hk' hp₁ hr₁ ?_ hsync' hrest
      intro hc l hl
      exact hfed (hcurve ▸ hc) l (List.mem_cons_of_mem _ hl)
    · refine ih hk' (by rw [PoolManager.processLog_pool_of_ne hq ha]; exact hp) hr ?_ hsync' hrest
      intro hc l hl
      exact hfed hc l (List.mem_cons_of_mem _ hl)

/-- A Swap log leaves reserves of 128 bits alone exactly when it is balanced. -/
theorem v2Step_swap_eq_iff {log : ExecutedLog} {r : ℕ × ℕ} (hh : logHandler log = some .v2Swap)
    (hlen : 128 ≤ log.data.length) (h0 : r.1 < 2 ^ 128) (h1 : r.2 < 2 ^ 128) :
    v2Step log r = r ↔ Balanced log := by
  rw [v2Step, hh]
  dsimp only
  rw [if_neg (by omega), Prod.ext_iff]
  unfold v2Move Balanced
  rw [wrappingSub_wrappingAdd_eq_iff h0 (u128FromBeBytes_lt _) (u128FromBeBytes_lt _),
    wrappingSub_wrappingAdd_eq_iff h1 (u128FromBeBytes_lt _) (u128FromBeBytes_lt _)]

theorem pairMove_eq_self {a : Address} {log : ExecutedLog} {r : ℕ × ℕ} (hswap : ¬IsSwapOf a log)
    (hsync : ¬IsSyncOf a log) : pairMove a log r = r := by
  unfold pairMove
  split_ifs with ha
  · have hne : logHandler log ≠ some .v2Swap := fun hh => hswap (isSwapOf_iff.mpr ⟨ha, hh⟩)
    have hne' : logHandler log ≠ some .v2Sync := fun hh => hsync (isSyncOf_iff.mpr ⟨ha, hh⟩)
    unfold v2Step
    split <;> first | contradiction | rfl
  · rfl

theorem not_isSyncOf_of_isSwapOf {a : Address} {log : ExecutedLog} (h : IsSwapOf a log) :
    ¬IsSyncOf a log := by
  rw [isSwapOf_iff] at h
  rw [isSyncOf_iff, h.2]
  simp

theorem lastSync_lt {a : Address} {logs : List ExecutedLog} {v : ℕ × ℕ}
    (hord : PairOrder a logs) {pre : List ExecutedLog} (hpre : pre <+: logs)
    (hv : lastSync a pre = some v) : v.1 < 2 ^ 128 ∧ v.2 < 2 ^ 128 := by
  obtain ⟨log, hmem, hw⟩ := Register.exists_of_lastWrite hv
  unfold syncOf at hw
  split_ifs at hw with h
  cases hw
  obtain ⟨-, h0, h1⟩ := hord.sync log (hpre.subset hmem) h
  exact ⟨h0.trans (by norm_num), h1.trans (by norm_num)⟩

theorem PairOrder.exists_sync {a : Address} {logs pre post : List ExecutedLog} {log : ExecutedLog}
    (hord : PairOrder a logs) (hl : logs = pre ++ log :: post) (hswap : IsSwapOf a log) :
    ∃ pre' sync, pre = pre' ++ [sync] ∧ IsSyncOf a sync := by
  subst hl
  induction pre using List.reverseRecOn with
  | nil => exact absurd hswap (hord.notFirst log rfl)
  | append_singleton pre sync _ =>
    have hchain := hord.swapAfterSync
    rw [List.isChain_append] at hchain
    exact ⟨pre, sync, rfl, hchain.2.2 sync (by simp) log (by simp) hswap⟩

theorem syncOf_eq_none_iff {a : Address} {log : ExecutedLog} :
    syncOf a log = none ↔ ¬IsSyncOf a log := by
  unfold syncOf; split_ifs with h <;> simp [h]

/-- In the order of a V2 pair, no log disturbs the reserves of the last Sync exactly when
    every Swap is balanced. -/
theorem pairMove_undisturbed_iff {a : Address} {logs : List ExecutedLog}
    (hord : PairOrder a logs) :
    (∀ pre i, pre ++ [i] <+: logs → syncOf a i = none → ∀ v, lastSync a pre = some v →
      pairMove a i v = v) ↔ ∀ log ∈ logs, IsSwapOf a log → Balanced log := by
  have hswap : ∀ {pre log v}, pre ++ [log] <+: logs → IsSwapOf a log → lastSync a pre = some v →
      (pairMove a log v = v ↔ Balanced log) := by
    intro pre log v hpre hs hv
    obtain ⟨h0, h1⟩ := lastSync_lt hord ((List.prefix_append _ _).trans hpre) hv
    obtain ⟨ha, hh⟩ := isSwapOf_iff.mp hs
    rw [pairMove, if_pos ha]
    exact v2Step_swap_eq_iff hh (hord.swap log (hpre.subset (by simp)) hs) h0 h1
  constructor
  · intro h log hlog hs
    obtain ⟨pre, post, hl⟩ := List.append_of_mem hlog
    have hpre : pre ++ [log] <+: logs := ⟨post, by rw [hl]; simp⟩
    obtain ⟨pre', sync, rfl, hsync⟩ := hord.exists_sync hl hs
    have hlast : lastSync a (pre' ++ [sync]) = some (syncReserves sync) := by
      rw [lastSync, Register.lastWrite_append_singleton, syncOf, if_pos hsync]; rfl
    exact (hswap hpre hs hlast).mp
      (h _ log hpre (syncOf_eq_none_iff.mpr (not_isSyncOf_of_isSwapOf hs)) _ hlast)
  · intro h pre log hpre hn v hv
    by_cases hs : IsSwapOf a log
    · exact (hswap hpre hs hv).mpr (h log (hpre.subset (by simp)) hs)
    · exact pairMove_eq_self hs (syncOf_eq_none_iff.mp hn)

/-- **Main theorem.** Through a list of logs in the order of a V2 pair, the reserves of the
    pool are those of its last Sync after every log if and only if no log panics and every
    Swap of the pool takes out of each reserve what it brings in. -/
theorem reserves_eq_lastSync_iff {pm : PoolManager} {a : Address} {p : PoolState}
    {logs : List ExecutedLog} (hk : a ∈ pm.knownSet) (hp : pm.pools[a]? = some p)
    (hr : (reserves p).isSome) (hfed : FedByV2Events a p logs) (hord : PairOrder a logs) :
    (∀ pre, pre <+: logs → ∃ pm', pm.updateFromLogs pre = .ok pm' ∧
      ∀ v, lastSync a pre = some v → pm'.poolReserves a = some v) ↔
    (∀ log ∈ logs, log.address ∈ pm.knownSet → log.address ∈ pm.pools →
      ∃ d, decodePendleSwap log = .ok d) ∧
    ∀ log ∈ logs, IsSwapOf a log → Balanced log := by
  obtain ⟨r, hr⟩ := Option.isSome_iff_exists.mp hr
  -- Whenever the run over a prefix returns, the reserves are the register's value.
  have hreg : ∀ pre, pre <+: logs → ∀ pm', pm.updateFromLogs pre = .ok pm' →
      pm'.poolReserves a = some (Register.run (syncOf a) (pairMove a) r pre) := by
    intro pre hpre pm' h
    exact updateFromLogs_reserves hk hp hr (fun hc l hl => hfed hc l (hpre.subset hl))
      (fun l hl => hord.sync l (hpre.subset hl)) h
  have hholds : (∀ pre, pre <+: logs → ∀ v, lastSync a pre = some v →
      Register.run (syncOf a) (pairMove a) r pre = v) ↔
      ∀ log ∈ logs, IsSwapOf a log → Balanced log :=
    Register.holds_lastWrite_iff.trans (pairMove_undisturbed_iff hord)
  rw [← hholds, ← PoolManager.updateFromLogs_ok_iff]
  constructor
  · intro h
    refine ⟨(h logs (List.prefix_refl _)).imp fun _ h => h.1, ?_⟩
    intro pre hpre v hv
    obtain ⟨pm', hrun, hres⟩ := h pre hpre
    have := hreg pre hpre pm' hrun
    rw [hres v hv] at this
    exact (Option.some.inj this).symm
  · rintro ⟨⟨pm', hrun⟩, h⟩ pre hpre
    obtain ⟨q, hq⟩ := run_prefix hpre hrun
    refine ⟨q, hq, fun v hv => ?_⟩
    rw [hreg pre hpre q hq, h pre hpre v hv]

/-! ## One swap of a pair -/

/-- A V2 pair at address 1. -/
def examplePair (reserve0 reserve1 : ℕ) : PoolState :=
  .uniswapV2 { info := { address := 1, token0 := 2, token1 := 3, fee := 30 }, reserve0, reserve1 }

/-- The two logs of one swap of the pair, in the order in which it emits them. -/
def pairLogs (reserve0 reserve1 amount0In amount1In amount0Out amount1Out : ℕ) :
    List ExecutedLog :=
  [{ address := 1, topics := [v2SyncTopic], data := encodeWords [reserve0, reserve1] },
    { address := 1, topics := [v2SwapTopic, 9, 9],
      data := encodeWords [amount0In, amount1In, amount0Out, amount1Out] }]

/-- A flash swap that returns what it takes leaves the reserves of its Sync in place. -/
theorem reserves_eq_lastSync_flash :
    PairOrder 1 (pairLogs 1000 2000 5 7 5 7) ∧
    ∀ pre, pre <+: pairLogs 1000 2000 5 7 5 7 → ∃ pm',
      (({} : PoolManager).addPool (examplePair 900 900)).updateFromLogs pre = .ok pm' ∧
        ∀ v, lastSync 1 pre = some v → pm'.poolReserves 1 = some v := by
  have hord : PairOrder 1 (pairLogs 1000 2000 5 7 5 7) :=
    ⟨by decide +kernel, by decide +kernel, by decide, by decide⟩
  have hpendle : ∀ log ∈ pairLogs 1000 2000 5 7 5 7, decodePendleSwap log = .ok none := by
    intro log hlog
    simp only [pairLogs, List.mem_cons, List.not_mem_nil, or_false] at hlog
    rcases hlog with rfl | rfl <;> rfl
  refine ⟨hord, ?_⟩
  exact (reserves_eq_lastSync_iff (p := examplePair 900 900) (by decide) (by decide +kernel) rfl
    nofun hord).mpr ⟨fun log hlog _ _ => ⟨none, hpendle log hlog⟩, by decide +kernel⟩

/-- A swap of 100 token0 for 90 token1, from reserves 1000 and 1000: the Sync sets 1100 and
    910, and the Swap moves them to 1200 and 820. -/
theorem sync_swap_counts_twice :
    PairOrder 1 (pairLogs 1100 910 100 0 0 90) ∧
    lastSync 1 (pairLogs 1100 910 100 0 0 90) = some (1100, 910) ∧
    ((({} : PoolManager).addPool (examplePair 1000 1000)).updateFromLogs
      (pairLogs 1100 910 100 0 0 90)).map (·.poolReserves 1) = .ok (some (1200, 820)) :=
  ⟨⟨by decide +kernel, by decide +kernel, by decide, by decide⟩, by decide +kernel,
    by decide +kernel⟩

end MevScout.Pool
