import MevScout.Pool.Discovery
import MevScout.Pool.SwapEvent

/-!
# Attribution of swap logs

Discovery attributes a swap log to a pool by the pool id inside the log, where there is
one. The manager attributes it to the emitter, and dispatches on its own list of topics.
The two agree on the venues whose pools emit their own events, the packed Trader Joe
event excepted; a pool that a singleton hosts never moves.

Results:
* `attributedPool_log`: the pool that discovery attributes the log of an event to;
* `applies_iff`: when one swap log is applied to the pool it is attributed to;
* `hosted_pool`: no list of logs changes a pool that emits none of them;
* `swaps_applied_iff`: both, for one swap and for lists of logs of a hosted pool.
-/

namespace MevScout.Pool

open MevScout.Chain Discovery SwapEvent

/-- A swap event with its emitter and the parties that its topics name. -/
structure SwapLog where
  event : SwapEvent
  emitter : Address
  sender : B256
  recipient : B256

def SwapLog.log (l : SwapLog) : ExecutedLog := l.event.log l.emitter l.sender l.recipient

/-- The pool of an event, in the keys of discovery. Solidly events are not classified. -/
def SwapEvent.pool (emitter : Address) : SwapEvent → Option Address
  | solidly .. => none
  | v4 poolId .. => some (topicAddress poolId)
  | infinity poolId .. => some (topicAddress poolId)
  | balancer poolId .. => some (Balancer.poolIdAddress poolId)
  | _ => some emitter

/-- Discovery attributes the log of an event to the pool of the event. -/
theorem attributedPool_log (l : SwapLog) :
    attributedPool l.log = .ok (l.event.pool l.emitter) := by
  obtain ⟨ev, emitter, sender, recipient⟩ := l
  cases ev <;> rfl

/-! ## One swap log -/

/-- What is expected of a swap log attributed to the pool at `P`, in state `p`: the pool is
    marked dirty and gets the state after the swap, and no other pool changes. -/
def Applies (pm : PoolManager) (l : SwapLog) (P : Address) (p : PoolState) : Prop :=
  ∃ pm', pm.updateFromLogs [l.log] = .ok pm' ∧ P ∈ pm'.dirtyPools ∧
    (∃ p', pm'.pools[P]? = some p' ∧ quoted p' = quoted (l.event.apply p)) ∧
    ∀ Q, Q ≠ P → pm'.pools[Q]? = pm.pools[Q]?

/-- The swap does not change the tracked pool at the emitter, or the manager would not
    apply it there. -/
def SparesEmitter (pm : PoolManager) (l : SwapLog) : Prop :=
  l.event.handlerOf.isSome → l.emitter ∈ pm.knownSet → ∀ q, pm.pools[l.emitter]? = some q →
    l.event.Matches q → l.event.apply q = q

/-- The swaps that the manager applies to the pool at `P`, in state `p`: the ones of a
    dispatched event that `P` emits, and those that move nothing at all. -/
def AppliedByEmitter (pm : PoolManager) (l : SwapLog) (P : Address) (p : PoolState) : Prop :=
  (l.emitter = P ∧ l.event.handlerOf.isSome) ∨
    (quoted (l.event.apply p) = quoted p ∧ (P ∈ pm.dirtyPools ∨ l.emitter = P) ∧
      (l.emitter ≠ P → SparesEmitter pm l))

variable {pm pm' : PoolManager} {l : SwapLog} {P : Address} {p q : PoolState}

theorem logHandler_swapLog (l : SwapLog) : logHandler l.log = l.event.handlerOf :=
  logHandler_log l.event

theorem topics_log_ne_nil (l : SwapLog) : l.log.topics ≠ [] := List.cons_ne_nil _ _

theorem processLog_swap_ok (pm : PoolManager) (l : SwapLog) :
    ∃ pm', pm.processLog l.log = .ok pm' := by
  obtain ⟨pm', h⟩ : ∃ pm', pm.updateFromLogs [l.log] = .ok pm' := by
    rw [PoolManager.updateFromLogs_ok_iff]
    intro log hlog _ _
    obtain rfl := List.mem_singleton.mp hlog
    refine ⟨none, PoolManager.decodePendleSwap_of_ne ?_⟩
    rw [logHandler_swapLog]
    cases l.event <;> simp [handlerOf]
  rw [PoolManager.updateFromLogs_singleton] at h
  exact ⟨pm', h⟩

/-- An event whose pool is not its emitter has no handler, or is a Balancer swap. -/
theorem handlerOf_of_pool_ne (hP : l.event.pool l.emitter = some P) (hne : l.emitter ≠ P) :
    l.event.handlerOf = none ∨ ∃ poolId tokenIn tokenOut amountIn amountOut,
      l.event = balancer poolId tokenIn tokenOut amountIn amountOut := by
  obtain ⟨ev, emitter, sender, recipient⟩ := l
  cases ev with
  | solidly => cases hP
  | v4 | infinity => exact .inl rfl
  | balancer poolId tokenIn tokenOut a b => exact .inr ⟨poolId, tokenIn, tokenOut, a, b, rfl⟩
  | _ => exact absurd (Option.some.inj hP) hne

/-- A Balancer swap changes its emitter exactly as the event says, if the emitter is a pool
    of the two tokens, and not at all otherwise. -/
theorem logEffect_balancer_eq_self_iff {poolId : B256} {tokenIn tokenOut E : Address} {a b : ℕ}
    {s r : B256} (ha : a < 2 ^ 128) (hb : b < 2 ^ 128) :
    logEffect q ((balancer poolId tokenIn tokenOut a b).log E s r) = .ok q ↔
      ((balancer poolId tokenIn tokenOut a b).Matches q →
        (balancer poolId tokenIn tokenOut a b).apply q = q) := by
  have hh : logHandler ((balancer poolId tokenIn tokenOut a b).log E s r) = some .balancerSwap :=
    logHandler_log (balancer poolId tokenIn tokenOut a b)
  have heff : logEffect q ((balancer poolId tokenIn tokenOut a b).log E s r) =
      .ok (q.mapBalancer (·.swap ⟨poolId, tokenIn, tokenOut, a, b⟩)) := by
    rw [PoolManager.logEffect_of_handler hh]
    dsimp only [Handler.edits]
    rw [decodeBalancerSwap_log ha hb]
    rfl
  rw [heff, Except.ok.injEq]
  cases q with
  | balancer t =>
    by_cases hm : (balancer poolId tokenIn tokenOut a b).Matches (.balancer t)
    · obtain ⟨iIn, iOut, hslots, hIn, hOut⟩ := id hm
      have happly : (balancer poolId tokenIn tokenOut a b).apply (.balancer t) =
          .balancer { t with balances := moveBalances iIn a iOut b t.balances } := by
        rw [SwapEvent.apply, hslots]
      rw [PoolState.mapBalancer, balancerSwap_eq hslots hIn hOut, happly]
      exact ⟨fun h _ => h, fun h => h hm⟩
    · refine iff_of_true ?_ fun h => absurd h hm
      exact congrArg PoolState.balancer (balancerSwap_eq_self hm)
  | _ => exact iff_of_true rfl nofun

/-- A swap log attributed elsewhere leaves the pools alone exactly when it spares its
    emitter. -/
theorem pools_eq_iff_sparesEmitter (hP : l.event.pool l.emitter = some P) (hne : l.emitter ≠ P)
    (hwf : l.event.WellFormed) (h : pm.processLog l.log = .ok pm') :
    (∀ Q, Q ≠ P → pm'.pools[Q]? = pm.pools[Q]?) ↔ SparesEmitter pm l := by
  have hred : (∀ Q, Q ≠ P → pm'.pools[Q]? = pm.pools[Q]?) ↔
      pm'.pools[l.emitter]? = pm.pools[l.emitter]? := by
    refine ⟨fun hQ => hQ _ hne, fun hE Q _ => ?_⟩
    by_cases hQ : l.emitter = Q
    · rw [← hQ]; exact hE
    · exact PoolManager.processLog_pool_of_ne h hQ
  rw [hred]
  by_cases hk : l.emitter ∈ pm.knownSet
  · cases hq : pm.pools[l.emitter]? with
    | none =>
      have hmem : ¬l.emitter ∈ pm'.pools := by
        rw [PoolManager.processLog_mem_pools h, Std.ExtTreeMap.mem_iff_isSome_getElem?, hq]
        simp
      refine iff_of_true ?_ fun _ _ q hq' => by rw [hq] at hq'; cases hq'
      exact Std.ExtTreeMap.getElem?_eq_none hmem
    | some q =>
      obtain ⟨q', he, hq'⟩ := PoolManager.processLog_pool h hk hq
      have hE : pm'.pools[l.emitter]? = some q ↔ logEffect q l.log = .ok q := by
        have hget : pm'.pools[l.emitter]? = some q' := hq'
        rw [hget, he, Option.some.injEq, Except.ok.injEq]
      rw [hE]
      rcases handlerOf_of_pool_ne hP hne with hn | ⟨poolId, tokenIn, tokenOut, a, b, hev⟩
      · refine iff_of_true ?_ fun hd => by rw [hn] at hd; cases hd
        exact PoolManager.logEffect_of_no_handler ((logHandler_swapLog l).trans hn)
      · have hab : (balancer poolId tokenIn tokenOut a b).WellFormed := hev ▸ hwf
        rw [SwapLog.log, hev, logEffect_balancer_eq_self_iff hab.1 hab.2, SparesEmitter, hev]
        refine ⟨fun h _ _ q₁ hq₁ hm => ?_, fun h hm => h rfl hk q hq hm⟩
        obtain rfl : q = q₁ := by rw [hq] at hq₁; exact Option.some.inj hq₁
        exact h hm
  · rw [PoolManager.processLog_of_unknown hk] at h
    cases h
    exact iff_of_true rfl fun _ hk' => absurd hk' hk

/-- **One swap.** A swap log is applied to the pool that discovery attributes it to exactly
    when the manager takes it for a swap of that pool, or there is nothing to apply. -/
theorem applies_iff (hP : attributedPool l.log = .ok (some P)) (hk : P ∈ pm.knownSet)
    (hp : pm.pools[P]? = some p) (hm : l.event.Matches p) (hwf : l.event.WellFormed) :
    Applies pm l P p ↔ AppliedByEmitter pm l P p := by
  have hpool : l.event.pool l.emitter = some P := by
    rw [attributedPool_log] at hP
    exact Except.ok.inj hP
  obtain ⟨pm', h⟩ := processLog_swap_ok pm l
  have hdirty := PoolManager.processLog_dirtyPools h (topics_log_ne_nil l)
  have hunique : Applies pm l P p ↔ P ∈ pm'.dirtyPools ∧
      (∃ p', pm'.pools[P]? = some p' ∧ quoted p' = quoted (l.event.apply p)) ∧
      ∀ Q, Q ≠ P → pm'.pools[Q]? = pm.pools[Q]? := by
    unfold Applies
    rw [PoolManager.updateFromLogs_singleton, h]
    simp only [Except.ok.injEq, exists_eq_left']
  rw [hunique, hdirty]
  change (P ∈ if l.emitter ∈ pm.knownSet then _ else _) ∧ _ ↔ _
  by_cases hE : l.emitter = P
  · subst hE
    obtain ⟨p', he, hp'⟩ := PoolManager.processLog_pool h hk hp
    have hget : pm'.pools[l.emitter]? = some p' := hp'
    have hother : ∀ Q, Q ≠ l.emitter → pm'.pools[Q]? = pm.pools[Q]? :=
      fun Q hQ => PoolManager.processLog_pool_of_ne h (Ne.symm hQ)
    rw [if_pos hk, hget]
    by_cases hd : l.event.handlerOf.isSome
    · obtain ⟨p₁, he₁, hq⟩ := @logEffect_dispatched p l.emitter l.sender l.recipient l.event
        hwf hm hd
      obtain rfl : p₁ = p' := Except.ok.inj (he₁.symm.trans he)
      exact iff_of_true ⟨Finset.mem_insert_self .., ⟨p₁, rfl, hq⟩, hother⟩ (.inl ⟨rfl, hd⟩)
    · have hn : l.event.handlerOf = none := by simpa using hd
      rw [PoolManager.logEffect_of_no_handler ((logHandler_swapLog l).trans hn)] at he
      obtain rfl := Except.ok.inj he
      refine ⟨?_, ?_⟩
      · rintro ⟨-, ⟨_, hq', hq⟩, -⟩
        obtain rfl := Option.some.inj hq'
        exact .inr ⟨hq.symm, .inr rfl, fun h => absurd rfl h⟩
      · rintro (⟨-, h⟩ | ⟨hq, -, -⟩)
        · exact absurd h hd
        · exact ⟨Finset.mem_insert_self .., ⟨p, rfl, hq.symm⟩, hother⟩
  · have hget : pm'.pools[P]? = some p := by
      rw [PoolManager.processLog_pool_of_ne h hE]; exact hp
    have hmem : (P ∈ if l.emitter ∈ pm.knownSet then insert l.emitter pm.dirtyPools
        else pm.dirtyPools) ↔ P ∈ pm.dirtyPools := by
      split_ifs
      · rw [Finset.mem_insert]
        exact or_iff_right (Ne.symm hE)
      · rfl
    rw [hget, pools_eq_iff_sparesEmitter hpool hE hwf h]
    refine Iff.trans (and_congr_left' hmem) ?_
    unfold AppliedByEmitter
    constructor
    · rintro ⟨hd, ⟨_, hq', hq⟩, hs⟩
      obtain rfl := Option.some.inj hq'
      exact .inr ⟨hq.symm, .inl hd, fun _ => hs⟩
    · rintro (⟨h, -⟩ | ⟨hq, hd, hs⟩)
      · exact absurd h hE
      · exact ⟨hd.resolve_right hE, ⟨p, rfl, hq.symm⟩, hs hE⟩

/-! ## Lists of logs -/

/-- A log of a list: a swap log, given by its event, or any other log. -/
inductive LogItem where
  | swap (l : SwapLog)
  | other (log : ExecutedLog)

def LogItem.log : LogItem → ExecutedLog
  | swap l => l.log
  | other log => log

/-- The swap that a log makes in the pool at `P`. -/
def LogItem.ownSwap (P : Address) : LogItem → Option SwapEvent
  | swap l => if attributedPool l.log = .ok (some P) then some l.event else none
  | other _ => none

/-- The state that `p` is in after the swaps of a list that are made in the pool at `P`. -/
def afterOwnSwaps (P : Address) (items : List LogItem) (p : PoolState) : PoolState :=
  (items.filterMap (·.ownSwap P)).foldl (fun p ev => ev.apply p) p

/-- A pool that emits no log of a list stays in its state. -/
theorem hosted_pool {logs : List ExecutedLog} (hk : P ∈ pm.knownSet) (hp : pm.pools[P]? = some p)
    (hosted : ∀ log ∈ logs, log.address ≠ P) (h : pm.updateFromLogs logs = .ok pm') :
    pm'.pools[P]? = some p := by
  obtain ⟨p', hf, hp'⟩ := PoolManager.updateFromLogs_pool h hk hp
  have hnil : logs.filter (·.address = P) = [] := by
    rw [List.filter_eq_nil_iff]
    intro log hlog
    simpa using hosted log hlog
  rw [hnil] at hf
  cases hf
  exact hp'

/-- The state of a hosted pool is the fold of its own swaps throughout a list exactly when
    the run returns and the fold never leaves the state it starts from. -/
theorem hosted_pool_eq_fold_iff {items : List LogItem} (hk : P ∈ pm.knownSet)
    (hp : pm.pools[P]? = some p) (hosted : ∀ i ∈ items, i.log.address ≠ P) :
    (∀ pre, pre <+: items → ∃ pm' p', pm.updateFromLogs (pre.map LogItem.log) = .ok pm' ∧
      pm'.pools[P]? = some p' ∧ quoted p' = quoted (afterOwnSwaps P pre p)) ↔
    (∀ i ∈ items, i.log.address ∈ pm.knownSet → i.log.address ∈ pm.pools →
      ∃ d, decodePendleSwap i.log = .ok d) ∧
    ∀ pre, pre <+: items → quoted (afterOwnSwaps P pre p) = quoted p := by
  have hstay : ∀ pre, pre <+: items → ∀ pm', pm.updateFromLogs (pre.map LogItem.log) = .ok pm' →
      pm'.pools[P]? = some p := by
    intro pre hpre pm' h
    refine hosted_pool hk hp ?_ h
    intro log hlog
    obtain ⟨i, hi, rfl⟩ := List.mem_map.mp hlog
    exact hosted i (hpre.subset hi)
  have hrun : (∃ pm', pm.updateFromLogs (items.map LogItem.log) = .ok pm') ↔
      ∀ i ∈ items, i.log.address ∈ pm.knownSet → i.log.address ∈ pm.pools →
        ∃ d, decodePendleSwap i.log = .ok d := by
    rw [PoolManager.updateFromLogs_ok_iff, List.forall_mem_map]
  rw [← hrun]
  constructor
  · intro h
    obtain ⟨pm', -, hret, -⟩ := h items (List.prefix_refl _)
    refine ⟨⟨pm', hret⟩, fun pre hpre => ?_⟩
    obtain ⟨q, p', hq, hp', hfold⟩ := h pre hpre
    rw [hstay pre hpre q hq] at hp'
    obtain rfl := Option.some.inj hp'
    exact hfold.symm
  · rintro ⟨⟨pm', hret⟩, hfold⟩ pre hpre
    obtain ⟨q, hq⟩ := run_prefix (hpre.map LogItem.log) hret
    exact ⟨q, p, hq, hstay pre hpre q hq, (hfold pre hpre).symm⟩

/-- **Main theorem.** A swap log is applied to the tracked pool that discovery attributes it
    to if and only if `AppliedByEmitter` holds, and over lists of logs the state of a hosted
    pool, which emits none of them, is the fold of its own swaps if and only if no log
    panics and these swaps move nothing. -/
theorem swaps_applied_iff (hk : P ∈ pm.knownSet) (hp : pm.pools[P]? = some p) :
    (∀ l : SwapLog, attributedPool l.log = .ok (some P) → l.event.Matches p →
      l.event.WellFormed → (Applies pm l P p ↔ AppliedByEmitter pm l P p)) ∧
    ∀ items : List LogItem, (∀ i ∈ items, i.log.address ≠ P) →
      ((∀ pre, pre <+: items → ∃ pm' p', pm.updateFromLogs (pre.map LogItem.log) = .ok pm' ∧
        pm'.pools[P]? = some p' ∧ quoted p' = quoted (afterOwnSwaps P pre p)) ↔
      (∀ i ∈ items, i.log.address ∈ pm.knownSet → i.log.address ∈ pm.pools →
        ∃ d, decodePendleSwap i.log = .ok d) ∧
      ∀ pre, pre <+: items → quoted (afterOwnSwaps P pre p) = quoted p) :=
  ⟨fun _ hP hm hwf => applies_iff hP hk hp hm hwf,
    fun _ hosted => hosted_pool_eq_fold_iff hk hp hosted⟩

/-! ## Swaps that are applied, and swaps that are lost -/

/-- The manager that tracks one pool. -/
def tracking (p : PoolState) : PoolManager := ({} : PoolManager).addPool p

/-- A swap of 100 token0 for 90 token1 in a V2 pair at address 1. -/
def pairSwap : SwapLog := ⟨.v2 100 0 0 90, 1, 9, 9⟩

def pairPool : PoolState :=
  .uniswapV2
    { info := { address := 1, token0 := 2, token1 := 3 }, reserve0 := 500, reserve1 := 500 }

/-- The swap of a V2 pair is applied to the pair, and only a log that the pair emits can
    change it. -/
theorem swaps_applied_pair :
    attributedPool pairSwap.log = .ok (some 1) ∧ Applies (tracking pairPool) pairSwap 1 pairPool ∧
    ∃ pm' p', (tracking pairPool).updateFromLogs ([LogItem.other ⟨7, [v2SyncTopic], []⟩].map
      LogItem.log) = .ok pm' ∧
      pm'.pools[(1 : Address)]? = some p' ∧ quoted p' = quoted pairPool := by
  have hattr : attributedPool pairSwap.log = .ok (some 1) := rfl
  have hwf : pairSwap.event.WellFormed := by
    show 100 < 2 ^ 128 ∧ 0 < 2 ^ 128 ∧ 0 < 2 ^ 128 ∧ 90 < 2 ^ 128
    norm_num
  have hall := @swaps_applied_iff (tracking pairPool) 1 pairPool (by decide) (by decide +kernel)
  refine ⟨hattr, (hall.1 pairSwap hattr trivial hwf).mpr (.inl ⟨rfl, rfl⟩), ?_⟩
  refine (hall.2 [.other ⟨7, [v2SyncTopic], []⟩] ?_).mpr ⟨?_, ?_⟩ _ (List.prefix_refl _)
  · intro i hi
    obtain rfl := List.mem_singleton.mp hi
    show (7 : Address) ≠ 1
    decide
  · intro i hi _ _
    obtain rfl := List.mem_singleton.mp hi
    exact ⟨none, rfl⟩
  · intro pre hpre
    have hnone : pre.filterMap (·.ownSwap 1) = [] := by
      rw [List.filterMap_eq_nil_iff]
      intro i hi
      obtain rfl := List.mem_singleton.mp (hpre.subset hi)
      rfl
    rw [afterOwnSwaps, hnone]
    rfl

/-- A Balancer pool at address 4 with the tokens 2 and 3. -/
def weightedPool : PoolState :=
  .balancer
    { info := { address := 4, token0 := 2, token1 := 3, dexType := .balancer }
      balances := [1000, 1000]
      tokenIndex := ((∅ : TokenSlots).insert 2 0).insert 3 1 }

/-- A swap of 100 token 2 for 90 token 3 in that pool, emitted by the Vault at address 7. -/
def vaultSwap : SwapLog := ⟨.balancer 0x4000000000000000000000000 2 3 100 90, 7, 9, 9⟩

/-- A V4 pool with the id 5. -/
def v4Pool : PoolState :=
  .uniswapV4
    { info := { address := 5, token0 := 2, token1 := 3, dexType := .uniswapV4 }
      sqrtPriceX96 := 2 ^ 96
      liquidity := 1000 }

/-- A swap in that pool, emitted by the singleton at address 7. -/
def singletonSwap : SwapLog := ⟨.v4 5 ⟨-100, 90, 2 ^ 95, 1000, -13864⟩ 3000, 7, 9, 9⟩

/-- A Liquidity Book pool at address 6. -/
def lbPool : PoolState :=
  .traderJoeLB
    { info := { address := 6, token0 := 2, token1 := 3, dexType := .traderJoeLB }
      activeId := 2 ^ 23
      binStep := 10
      reserveX := 1000
      reserveY := 1000 }

/-- A swap of 100 X for 90 Y in that pool, in the packed layout. -/
def packedSwap : SwapLog := ⟨.lbLegacy (2 ^ 23) 100 0 0 90 0 0 0, 6, 9, 9⟩

/-- Swaps of a Balancer pool by the Vault and of a V4 pool by its singleton leave the whole
    manager as it is, and the packed Liquidity Book swap leaves the reserves as they are. -/
theorem singleton_swaps_lost :
    (attributedPool vaultSwap.log = .ok (some 4) ∧ vaultSwap.event.WellFormed ∧
      vaultSwap.event.Matches weightedPool ∧
      (tracking weightedPool).updateFromLogs [vaultSwap.log] = .ok (tracking weightedPool) ∧
      ¬Applies (tracking weightedPool) vaultSwap 4 weightedPool) ∧
    (attributedPool singletonSwap.log = .ok (some 5) ∧ singletonSwap.event.WellFormed ∧
      singletonSwap.event.Matches v4Pool ∧
      (tracking v4Pool).updateFromLogs [singletonSwap.log] = .ok (tracking v4Pool) ∧
      ¬Applies (tracking v4Pool) singletonSwap 5 v4Pool) ∧
    (attributedPool packedSwap.log = .ok (some 6) ∧ packedSwap.event.WellFormed ∧
      packedSwap.event.Matches lbPool ∧
      (tracking lbPool).updateFromLogs [packedSwap.log] = .ok ((tracking lbPool).markDirtyPool 6) ∧
      ¬Applies (tracking lbPool) packedSwap 6 lbPool) := by
  have hvault : (tracking weightedPool).updateFromLogs [vaultSwap.log] =
      .ok (tracking weightedPool) := by
    rw [PoolManager.updateFromLogs_singleton]
    exact PoolManager.processLog_of_unknown (by decide)
  have hsingleton : (tracking v4Pool).updateFromLogs [singletonSwap.log] =
      .ok (tracking v4Pool) := by
    rw [PoolManager.updateFromLogs_singleton]
    exact PoolManager.processLog_of_unknown (by decide)
  have hne : (2 : Address) ≠ 3 := by decide
  have hpacked : (tracking lbPool).updateFromLogs [packedSwap.log] =
      .ok ((tracking lbPool).markDirtyPool 6) := by
    rw [PoolManager.updateFromLogs_singleton,
      PoolManager.processLog_eq (p := lbPool) (by decide) (by decide) (by decide +kernel)]
    rfl
  refine ⟨⟨rfl, ⟨by norm_num, by norm_num⟩, ⟨0, 1, by decide +kernel⟩, hvault, ?_⟩,
    ⟨rfl, ⟨by norm_num, by norm_num, by norm_num, by norm_num⟩, trivial, hsingleton, ?_⟩,
    ⟨rfl, ⟨by norm_num, by norm_num, by norm_num, by norm_num⟩, hne, hpacked, ?_⟩⟩
  · rintro ⟨pm', h, hdirty, -⟩
    obtain rfl := Except.ok.inj (hvault.symm.trans h)
    exact absurd hdirty (by decide)
  · rintro ⟨pm', h, hdirty, -⟩
    obtain rfl := Except.ok.inj (hsingleton.symm.trans h)
    exact absurd hdirty (by decide)
  · rintro ⟨pm', h, -, ⟨p', hp', hq⟩, -⟩
    obtain rfl := Except.ok.inj (hpacked.symm.trans h)
    have hlb : ((tracking lbPool).markDirtyPool 6).pools[(6 : Address)]? = some lbPool := by
      decide +kernel
    obtain rfl := Option.some.inj (hlb.symm.trans hp')
    exact absurd hq (by decide +kernel)

end MevScout.Pool
