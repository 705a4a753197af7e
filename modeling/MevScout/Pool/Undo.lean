import MevScout.Common.Journal
import MevScout.Pool.Apply
import MevScout.Pool.Taxes

/-!
# Rolling a block back

`begin_undo` starts a log, the operations of a block write to it on their way, and `undo`
rolls the manager back. The pool map is rolled back by a journal (`Journal`); the set of
known pools and the token index by the list of added pools, or the index by a snapshot that
the first re-added pool takes.

`Recorded m₀ m log` says that the log of the manager `m` rolls it back to `m₀`. Each
operation keeps it when it meets `Safe`, which names what the log does not capture: an edit
through `get_mut`, a token that is new to the index, a snapshot that already lists an added
pool, and a pool that was known but not tracked.

Results:
* `recorded_step`: one operation that meets the condition;
* `undo_of_recorded`: what a recorded manager is rolled back to;
* `undo_restores`: after any run of such operations, undo gives back the manager of
  `begin_undo`;
* `undo_lists_removed_pool`: a run of two ordinary `add_pool` calls that undo gets wrong.
-/

namespace MevScout.Pool

open MevScout.Chain
open PoolManager (pushToken)

/-- The state-changing operations of a block. -/
inductive Operation where
  | addPool (state : PoolState)
  | poolMut (address : Address) (edit : PoolState → PoolState)
  | getMut (address : Address) (edit : PoolState → PoolState)
  | updateFromLogs (logs : List ExecutedLog)
  | learnTaxesFromTx (logs : List ExecutedLog)
  | flagTaxedToken (token : Address)
  | markDirtyPool (address : Address)
  | takeDirtyPools

namespace PoolManager

/-- One operation. -/
def perform (rt : TaxRuntime) (pm : PoolManager) : Operation → Except Panic PoolManager
  | .addPool state => .ok (pm.addPool state)
  | .poolMut address edit => .ok (pm.poolMut address edit)
  | .getMut address edit => .ok (pm.getMut address edit)
  | .updateFromLogs logs => pm.updateFromLogs logs
  | .learnTaxesFromTx logs => pm.learnTaxesFromTx rt logs
  | .flagTaxedToken token => .ok (pm.flagTaxedToken token)
  | .markDirtyPool address => .ok (pm.markDirtyPool address)
  | .takeDirtyPools => .ok pm.takeDirtyPools.2

/-! ## What the log captures -/

end PoolManager

/-- The part of the undo log that concerns the pool map. -/
def UndoLog.journal (log : UndoLog) : Journal Address PoolState := ⟨log.previous, log.added⟩

/-- The token index without the pools of a list. -/
def withoutPools (added : List Address) (ti : TokenIndex) : TokenIndex :=
  ti.map fun _ poolList => poolList.filter (· ∉ added)

/-- The log of `pm` rolls it back to `pm₀`. -/
structure Recorded (pm₀ pm : PoolManager) (log : UndoLog) : Prop where
  undoLog : pm.undoLog = some log
  pools : log.journal.Restores pm₀.pools pm.pools
  known : ∀ a, a ∈ pm.knownSet ↔ a ∈ pm₀.knownSet ∨ a ∈ log.added
  unknown : ∀ a ∈ log.added, a ∉ pm₀.knownSet
  index : log.tokenIndexBefore.getD (withoutPools log.added pm.tokenIndex) = pm₀.tokenIndex
  dirty : log.dirtyBefore = some pm₀.dirtyPools
  fot : log.fotBefore = some pm₀.dynamicFot
  settings : (pm.wrappedNative, pm.balancerVault, pm.maxPairsPerToken, pm.tokenMaxPairs) =
    (pm₀.wrappedNative, pm₀.balancerVault, pm₀.maxPairsPerToken, pm₀.tokenMaxPairs)

/-- No list of the index contains the pool. -/
def Unlisted (ti : TokenIndex) (a : Address) : Prop :=
  ∀ (t : Address) (l : List Address), ti[t]? = some l → a ∉ l

theorem unlisted_iff {ti : TokenIndex} {a : Address} :
    Unlisted ti a ↔ ∀ e ∈ ti.toList, a ∉ e.2 := by
  refine ⟨fun h e he => h e.1 e.2 ?_, fun h t l hl => h (t, l) ?_⟩
  · exact Std.ExtTreeMap.mem_toList_iff_getElem?_eq_some.mp he
  · exact Std.ExtTreeMap.mem_toList_iff_getElem?_eq_some.mpr hl

instance (ti : TokenIndex) (a : Address) : Decidable (Unlisted ti a) :=
  decidable_of_iff _ unlisted_iff.symm

/-- The condition on an operation and the manager, with its undo log, before it. -/
def Safe (pm : PoolManager) (op : Operation) : Prop :=
  ∀ log, pm.undoLog = some log →
    match op with
    | .addPool state =>
      if state.address ∈ pm.pools then
        state.address ∈ pm.knownSet ∧
          (log.tokenIndexBefore.isSome ∨ ∀ a ∈ log.added, Unlisted pm.tokenIndex a)
      else
        state.address ∉ pm.knownSet ∧
          (log.tokenIndexBefore.isSome ∨
            Unlisted pm.tokenIndex state.address ∧
              ∀ t ∈ [state.info.token0, state.info.token1], t ≠ 0 → t ∈ pm.tokenIndex)
    | .getMut address edit =>
      log.journal.Covers pm.pools address ∨ ∀ p, pm.pools[address]? = some p → edit p = p
    | _ => True

variable {pm₀ pm pm' : PoolManager} {log : UndoLog} {rt : TaxRuntime}

/-! ## Rolling back -/

theorem getElem?_withoutPools (added : List Address) (ti : TokenIndex) (t : Address) :
    (withoutPools added ti)[t]? = ti[t]?.map fun l => l.filter (· ∉ added) :=
  Std.ExtTreeMap.getElem?_map

theorem withoutPools_eq_self {added : List Address} {ti : TokenIndex}
    (h : ∀ a ∈ added, Unlisted ti a) : withoutPools added ti = ti := by
  apply Std.ExtTreeMap.ext_getElem?
  intro t
  rw [getElem?_withoutPools]
  cases hl : ti[t]? with
  | none => rfl
  | some l =>
    rw [Option.map_some, Option.some.injEq, List.filter_eq_self]
    intro a ha
    simpa using fun hmem => h a hmem t l hl ha

/-- What the loop of `undo` over the added pools does. -/
theorem foldl_removeAdded (added : List Address) (pm : PoolManager) :
    added.foldl PoolManager.removeAdded pm =
      { pm with
        pools := added.foldl (fun m k => m.erase k) pm.pools
        knownSet := pm.knownSet.filter (· ∉ added)
        tokenIndex := withoutPools added pm.tokenIndex } := by
  induction added generalizing pm with
  | nil =>
    have hindex : withoutPools [] pm.tokenIndex = pm.tokenIndex :=
      withoutPools_eq_self (by simp)
    rw [hindex]
    simp
  | cons a added ih =>
    rw [List.foldl_cons, ih, PoolManager.removeAdded]
    dsimp only [List.foldl_cons]
    congr 1
    · apply Std.ExtTreeMap.ext_getElem?
      intro t
      rw [getElem?_withoutPools, getElem?_withoutPools, Std.ExtTreeMap.getElem?_map, Option.map_map]
      congr 1
      funext l
      rw [Function.comp_apply, List.filter_filter]
      congr 1
      funext b
      simp only [List.mem_cons]
      by_cases hb : b = a <;> simp [hb]
    · ext b
      simp only [Finset.mem_filter, Finset.mem_erase, List.mem_cons, not_or]
      tauto

/-- **Undo.** A recorded manager is rolled back to the manager it was recorded from. -/
theorem undo_of_recorded (h : Recorded pm₀ pm log) :
    pm.undo = { pm₀ with undoLog := none, pairsCache := none } := by
  have hpools : log.added.foldl (fun m k => m.erase k) (pm.pools ∪ log.previous) = pm₀.pools :=
    h.pools.rollback_eq
  have hknown : pm.knownSet.filter (· ∉ log.added) = pm₀.knownSet := by
    ext a
    rw [Finset.mem_filter, h.known]
    constructor
    · rintro ⟨hmem | hmem, hnot⟩
      · exact hmem
      · exact absurd hmem hnot
    · exact fun hmem => ⟨.inl hmem, fun hadded => h.unknown a hadded hmem⟩
  have hsettings := h.settings
  simp only [Prod.mk.injEq] at hsettings
  obtain ⟨hnative, hvault, hmax, htoken⟩ := hsettings
  unfold PoolManager.undo
  rw [h.undoLog]
  dsimp only
  rw [foldl_removeAdded]
  dsimp only
  rw [hpools, hknown, h.index, h.dirty, h.fot, hnative, hvault, hmax, htoken]
  rfl

/-! ## One operation -/

theorem recorded_beginUndo (pm : PoolManager) : ∃ log, Recorded pm pm.beginUndo log := by
  refine ⟨_, rfl, Journal.Restores.refl pm.pools, ?_, ?_, ?_, rfl, rfl, rfl⟩
  · simp [PoolManager.beginUndo]
  · simp
  · exact withoutPools_eq_self (by simp)

/-- An edit at a covered pool. -/
theorem Recorded.modify (h : Recorded pm₀ pm log) {a : Address}
    (ha : log.journal.Covers pm.pools a) (edit : PoolState → PoolState) :
    Recorded pm₀ { pm with pools := pm.pools.modify a edit } log :=
  { h with pools := h.pools.modify ha edit }

/-- Recording a pool covers it. -/
theorem Recorded.undoRecordPool (h : Recorded pm₀ pm log) (a : Address) :
    ∃ log', Recorded pm₀ (pm.undoRecordPool a) log' ∧
      log'.journal.Covers (pm.undoRecordPool a).pools a := by
  unfold PoolManager.undoRecordPool
  rw [h.undoLog]
  dsimp only
  split_ifs with hadded
  · exact ⟨log, h, .inr (.inr hadded)⟩
  · split
    · rename_i hnone
      refine ⟨log, h, .inl ?_⟩
      intro hmem
      obtain ⟨p, hp⟩ := Map.mem_iff_exists.mp hmem
      rw [hp] at hnone
      cases hnone
    · rename_i state hstate
      refine ⟨{ log with previous := log.previous.insertIfNew a state }, ?_, .inr (.inl ?_)⟩
      · exact { h with undoLog := rfl, pools := h.pools.record hstate }
      · exact Std.ExtTreeMap.mem_insertIfNew_self

theorem Recorded.poolMut (h : Recorded pm₀ pm log) (a : Address) (edit : PoolState → PoolState) :
    ∃ log', Recorded pm₀ (pm.poolMut a edit) log' := by
  obtain ⟨log', h', hcov⟩ := h.undoRecordPool a
  exact ⟨log', h'.modify hcov edit⟩

theorem Recorded.performEdits {edits : List (PoolState → PoolState)} {a : Address}
    (h : Recorded pm₀ pm log) : ∃ log', Recorded pm₀ (pm.performEdits a edits) log' := by
  induction edits generalizing pm log with
  | nil => exact ⟨log, h⟩
  | cons edit edits ih =>
    obtain ⟨log', h'⟩ := h.poolMut a edit
    exact ih h'

theorem Recorded.processLog {l : ExecutedLog} (h : Recorded pm₀ pm log)
    (hstep : pm.processLog l = .ok pm') : ∃ log', Recorded pm₀ pm' log' := by
  rcases PoolManager.processLog_cases hstep with
    ⟨-, rfl⟩ | ⟨-, -, -, rfl⟩ | ⟨-, -, p, edits, -, -, rfl⟩
  · exact ⟨log, h⟩
  · exact ⟨log, { h with }⟩
  · have hdirty : Recorded pm₀ (pm.markDirtyPool l.address) log := { h with }
    exact hdirty.performEdits

theorem Recorded.updateFromLogs {logs : List ExecutedLog} (h : Recorded pm₀ pm log)
    (hrun : pm.updateFromLogs logs = .ok pm') : ∃ log', Recorded pm₀ pm' log' := by
  refine run_induct (I := fun q => ∃ log', Recorded pm₀ q log') ?_ hrun ⟨log, h⟩
  rintro l - q q' ⟨log', hq⟩ hstep
  exact hq.processLog hstep

/-! ## Adding pools -/

/-- The index after `add_pool`. -/
def pushPool (ti : TokenIndex) (info : PoolInfo) (a : Address) : TokenIndex :=
  pushToken (pushToken ti info.token0 a) info.token1 a

/-- A push to a list of the index vanishes when the pool is taken out again. -/
theorem withoutPools_pushToken {added : List Address} {ti : TokenIndex} {t a : Address}
    (ha : a ∈ added) (ht : t ≠ 0 → t ∈ ti) :
    withoutPools added (pushToken ti t a) = withoutPools added ti := by
  unfold pushToken
  split_ifs with hzero
  · rfl
  · apply Std.ExtTreeMap.ext_getElem?
    intro k
    rw [getElem?_withoutPools, getElem?_withoutPools, Map.getElem?_insert_eq]
    split_ifs with hk
    · subst hk
      obtain ⟨l, hl⟩ := Map.mem_iff_exists.mp (ht hzero)
      rw [hl, Option.map_some, Option.map_some, Option.getD_some, List.filter_append]
      simp [ha]
    · rfl

theorem mem_pushToken {ti : TokenIndex} {t a k : Address} (hk : k ∈ ti) : k ∈ pushToken ti t a := by
  unfold pushToken
  split_ifs
  · exact hk
  · exact Std.ExtTreeMap.mem_insert.mpr (.inr hk)

/-- Adding a pool whose tokens are keys of the index, and taking it out again. -/
theorem withoutPools_pushPool {added : List Address} {ti : TokenIndex} {info : PoolInfo}
    {a : Address} (hlisted : Unlisted ti a)
    (htokens : ∀ t ∈ [info.token0, info.token1], t ≠ 0 → t ∈ ti) :
    withoutPools (added ++ [a]) (pushPool ti info a) = withoutPools added ti := by
  have ha : a ∈ added ++ [a] := by simp
  rw [pushPool, withoutPools_pushToken ha fun h => mem_pushToken (htokens _ (by simp) h),
    withoutPools_pushToken ha (htokens _ (by simp))]
  apply Std.ExtTreeMap.ext_getElem?
  intro t
  rw [getElem?_withoutPools, getElem?_withoutPools]
  cases hl : ti[t]? with
  | none => rfl
  | some l =>
    rw [Option.map_some, Option.map_some, Option.some.injEq]
    refine List.filter_congr fun b hb => ?_
    have hne : b ≠ a := fun heq => hlisted t l hl (heq ▸ hb)
    simp [hne]

theorem addPool_eq (pm : PoolManager) (state : PoolState) :
    pm.addPool state = { pm.recordAdd state.address with
      knownSet := insert state.address (pm.recordAdd state.address).knownSet
      pools := (pm.recordAdd state.address).pools.insert state.address state
      tokenIndex := pushPool (pm.recordAdd state.address).tokenIndex state.info state.address
      pairsCache := none } := rfl

/-- A pool that is added again. -/
theorem Recorded.addPool_old {state : PoolState} (h : Recorded pm₀ pm log)
    (hmem : state.address ∈ pm.pools) (hknown : state.address ∈ pm.knownSet)
    (hindex : log.tokenIndexBefore.isSome ∨ ∀ a ∈ log.added, Unlisted pm.tokenIndex a) :
    ∃ log', Recorded pm₀ (pm.addPool state) log' := by
  obtain ⟨prev, hprev⟩ := Map.mem_iff_exists.mp hmem
  have hrec : pm.recordAdd state.address = { pm with undoLog := some { log with
      tokenIndexBefore := some (log.tokenIndexBefore.getD pm.tokenIndex)
      previous := log.previous.insertIfNew state.address prev } } := by
    unfold PoolManager.recordAdd
    rw [h.undoLog]
    dsimp only
    rw [hprev]
  have hsnap : log.tokenIndexBefore.getD pm.tokenIndex = pm₀.tokenIndex := by
    rw [← h.index]
    rcases hindex with hsome | hlisted
    · obtain ⟨ti, hti⟩ := Option.isSome_iff_exists.mp hsome
      rw [hti]
      rfl
    · rw [withoutPools_eq_self hlisted]
  rw [addPool_eq, hrec]
  refine ⟨_, { h with undoLog := rfl, pools := ?_, known := ?_, index := ?_ }⟩
  · exact (h.pools.record hprev).insert (.inl Std.ExtTreeMap.mem_insertIfNew_self) state
  · intro a
    dsimp only
    rw [Finset.mem_insert, ← h.known]
    refine or_iff_right_of_imp ?_
    rintro rfl
    exact hknown
  · exact hsnap

/-- A pool that is added for the first time. -/
theorem Recorded.addPool_new {state : PoolState} (h : Recorded pm₀ pm log)
    (hmem : state.address ∉ pm.pools) (hknown : state.address ∉ pm.knownSet)
    (hindex : log.tokenIndexBefore.isSome ∨ Unlisted pm.tokenIndex state.address ∧
      ∀ t ∈ [state.info.token0, state.info.token1], t ≠ 0 → t ∈ pm.tokenIndex) :
    ∃ log', Recorded pm₀ (pm.addPool state) log' := by
  have hadded : state.address ∉ log.added := fun hin => hmem (h.pools.added_mem _ hin)
  have hrec : pm.recordAdd state.address =
      { pm with undoLog := some { log with added := log.added ++ [state.address] } } := by
    unfold PoolManager.recordAdd
    rw [h.undoLog]
    dsimp only
    rw [Std.ExtTreeMap.getElem?_eq_none hmem]
    dsimp only
    rw [if_neg hadded]
  rw [addPool_eq, hrec]
  refine ⟨_, { h with undoLog := rfl, pools := ?_, known := ?_, unknown := ?_, index := ?_ }⟩
  · exact h.pools.add hmem
  · intro a
    dsimp only
    rw [Finset.mem_insert, h.known, List.mem_append, List.mem_singleton]
    tauto
  · intro a ha
    rcases List.mem_append.mp ha with hin | hin
    · exact h.unknown a hin
    · obtain rfl := List.mem_singleton.mp hin
      exact fun hin₀ => hknown ((h.known _).mpr (.inl hin₀))
  · rw [← h.index]
    dsimp only
    rcases hindex with hsome | ⟨hlisted, htokens⟩
    · obtain ⟨ti, hti⟩ := Option.isSome_iff_exists.mp hsome
      rw [hti]
      rfl
    · rw [withoutPools_pushPool hlisted htokens]

/-- **One operation.** An operation that meets the condition keeps the log able to roll the
    manager back. -/
theorem recorded_step {op : Operation} (h : Recorded pm₀ pm log) (hsafe : Safe pm op)
    (hstep : pm.perform rt op = .ok pm') : ∃ log', Recorded pm₀ pm' log' := by
  have hop := hsafe log h.undoLog
  cases op with
  | addPool state =>
    obtain rfl := Except.ok.inj hstep
    dsimp only at hop
    split_ifs at hop with hmem
    · exact h.addPool_old hmem hop.1 hop.2
    · exact h.addPool_new hmem hop.1 hop.2
  | poolMut address edit =>
    obtain rfl := Except.ok.inj hstep
    exact h.poolMut address edit
  | getMut address edit =>
    obtain rfl := Except.ok.inj hstep
    rcases hop with hcov | hfix
    · exact ⟨log, h.modify hcov edit⟩
    · have hsame : pm.getMut address edit = pm := by
        rw [PoolManager.getMut, Map.modify_eq_self hfix]
      rw [hsame]
      exact ⟨log, h⟩
  | updateFromLogs logs => exact h.updateFromLogs hstep
  | learnTaxesFromTx logs =>
    obtain ⟨flagged, rfl, -⟩ := PoolManager.learnTaxesFromTx_eq hstep
    exact ⟨log, { h with }⟩
  | flagTaxedToken token =>
    obtain rfl := Except.ok.inj hstep
    exact ⟨log, { h with }⟩
  | markDirtyPool address =>
    obtain rfl := Except.ok.inj hstep
    exact ⟨log, { h with }⟩
  | takeDirtyPools =>
    obtain rfl := Except.ok.inj hstep
    exact ⟨log, { h with }⟩

/-! ## A block -/

/-- **Main theorem.** After `begin_undo` and any operations that return and each meet the
    condition in the manager before them, `undo` gives back the whole manager of
    `begin_undo`, but for the cache of the arbitrage pairs, and so these pairs, if the cache
    was empty or up to date. -/
theorem undo_restores {ops : List Operation}
    (hcache : ∀ pairs, pm₀.pairsCache = some pairs → pairs = pm₀.computePairs)
    (hC : Meets (PoolManager.perform rt) Safe pm₀.beginUndo ops) :
    ∀ pre, pre <+: ops → ∀ pm, pre.foldlM (PoolManager.perform rt) pm₀.beginUndo = .ok pm →
      pm.undo = { pm₀ with undoLog := none, pairsCache := none } ∧
        pm.undo.arbitragePairs.1 = pm₀.arbitragePairs.1 := by
  intro pre hpre pm h
  obtain ⟨log, hrec⟩ : ∃ log, Recorded pm₀ pm log := by
    refine run_induct_of_meets (I := fun q => ∃ log, Recorded pm₀ q log) ?_ (hC.of_prefix hpre) h
      (recorded_beginUndo pm₀)
    rintro op - q q' ⟨log, hq⟩ hsafe hstep
    exact recorded_step hq hsafe hstep
  have hundo := undo_of_recorded hrec
  refine ⟨hundo, ?_⟩
  have hpairs : pm₀.arbitragePairs.1 = pm₀.computePairs := by
    unfold PoolManager.arbitragePairs
    cases hp : pm₀.pairsCache with
    | none => rfl
    | some pairs => exact hcache pairs hp
  rw [hundo, hpairs]
  rfl

/-! ## Two blocks -/

/-- A V2 pair of the tokens 2 and 3. -/
def blockPair (address : Address) : PoolState :=
  .uniswapV2
    { info := { address, token0 := 2, token1 := 3, fee := 30 }, reserve0 := 1000, reserve1 := 1000 }

/-- The manager that tracks the pair at address 1. -/
def blockManager : PoolManager := ({} : PoolManager).addPool (blockPair 1)

/-- A runtime that compares exactly and visits a map in the order of its keys. -/
def exactRuntime : TaxRuntime where
  shortfall actual declared := actual * 20 < declared * 19
  visit slots := slots.toList

/-- The edit of a Sync with the reserves 5 and 5. -/
def syncEdit : PoolState → PoolState := PoolState.mapUniswapV2 (·.sync 5 5)

/-- A block that edits the tracked pair and adds another pair of the same tokens. -/
def ordinaryBlock : List Operation := [.poolMut 1 syncEdit, .addPool (blockPair 4)]

/-- The block runs and is rolled back. -/
theorem undo_restores_ordinaryBlock :
    ordinaryBlock.foldlM (PoolManager.perform exactRuntime) blockManager.beginUndo =
      .ok ((blockManager.beginUndo.poolMut 1 syncEdit).addPool (blockPair 4)) ∧
    ((blockManager.beginUndo.poolMut 1 syncEdit).addPool (blockPair 4)).undo =
      { blockManager with undoLog := none, pairsCache := none } ∧
    ((blockManager.beginUndo.poolMut 1 syncEdit).addPool (blockPair 4)).undo.arbitragePairs.1 =
      blockManager.arbitragePairs.1 := by
  have hrun : ordinaryBlock.foldlM (PoolManager.perform exactRuntime) blockManager.beginUndo =
      .ok ((blockManager.beginUndo.poolMut 1 syncEdit).addPool (blockPair 4)) := by
    rw [ordinaryBlock, List.foldlM_cons, PoolManager.perform]
    change [Operation.addPool (blockPair 4)].foldlM (PoolManager.perform exactRuntime)
      (blockManager.beginUndo.poolMut 1 syncEdit) = _
    rw [List.foldlM_cons, PoolManager.perform]
    rfl
  have hcache : ∀ pairs, blockManager.pairsCache = some pairs →
      pairs = blockManager.computePairs := by
    intro pairs h
    have hnone : blockManager.pairsCache = none := by decide +kernel
    rw [hnone] at h
    cases h
  refine ⟨hrun, @undo_restores blockManager exactRuntime ordinaryBlock hcache ?_ _
    (List.prefix_refl _) _ hrun⟩
  refine ⟨fun _ _ => trivial, fun pm₁ h₁ => ⟨?_, fun _ _ => trivial⟩⟩
  obtain rfl := Except.ok.inj h₁
  rintro log -
  dsimp only
  have hnew : (blockPair 4).address ∉ (blockManager.beginUndo.poolMut 1 syncEdit).pools := by
    decide +kernel
  rw [if_neg hnew]
  refine ⟨by decide +kernel, .inr ⟨by decide +kernel, ?_⟩⟩
  intro t ht _
  simp only [List.mem_cons, List.not_mem_nil, or_false] at ht
  rcases ht with rfl | rfl <;> decide +kernel

/-- A block that adds a pair, and then the tracked pair once more: the snapshot of the index
    that the second call takes lists the first pool. -/
def readdBlock : List Operation := [.addPool (blockPair 4), .addPool (blockPair 1)]

/-- Undo removes the added pool from the tracked pools, but the index lists it, and
    `arbitrage_pairs` pairs it with the tracked one. -/
theorem undo_lists_removed_pool :
    (blockManager.tokenIndex[(2 : Address)]? = some [1] ∧ blockManager.arbitragePairs.1 = []) ∧
    (readdBlock.foldlM (PoolManager.perform exactRuntime) blockManager.beginUndo).map
      (fun pm => (pm.undo.pools.keys, pm.undo.tokenIndex[(2 : Address)]?,
        pm.undo.arbitragePairs.1)) =
      .ok ([1], some [1, 4], [⟨1, 4, 2⟩]) := by
  refine ⟨⟨by decide +kernel, by decide +kernel⟩, by decide +kernel⟩

end MevScout.Pool
