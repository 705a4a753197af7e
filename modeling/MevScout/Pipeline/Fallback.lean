import MevScout.Pipeline.Runner
import MevScout.Pool.Undo

/-!
# The log-only fallback

A block whose replay fails is rolled back and read from its logs. The failed attempt leaves one
trace: `undo` empties the cache of the arbitrage pairs, which were computed at an earlier state
of the pools.

Results:
* `fallback_congr`: two managers that answer alike are processed alike;
* `leavesNoTrace_iff`: a failed attempt leaves no trace exactly when the cached pairs are up to
  date and no undo log is open that would change a pool;
* `stale_pairs_lost`: a block that is scanned for other pairs after a failed attempt.
-/

namespace MevScout.Pipeline

open Pool Paper Replay

/-! ## Managers that answer alike -/

variable {pm pm' : PoolManager}

theorem arbitragePairs_snd (pm : PoolManager) :
    pm.arbitragePairs.2 = { pm with pairsCache := some pm.arbitragePairs.1 } := by
  obtain ⟨_, _, cache, _, _, _, _, _, _, _, _⟩ := pm
  cases cache with
  | none => rfl
  | some pairs => rfl

/-- The cached pairs, if any, are those that would be computed. -/
def FreshPairs (pm : PoolManager) : Prop :=
  ∀ pairs, pm.pairsCache = some pairs → pairs = pm.computePairs

theorem arbitragePairs_fst (h : FreshPairs pm) : pm.arbitragePairs.1 = pm.computePairs := by
  unfold PoolManager.arbitragePairs
  cases hp : pm.pairsCache with
  | none => rfl
  | some pairs => exact h pairs hp

/-- Two managers that detectors cannot tell apart. -/
structure Alike (pm pm' : PoolManager) : Prop where
  state : view pm = view pm'
  pairs : pm.arbitragePairs.1 = pm'.arbitragePairs.1

/-- The same manager, but for how the answer of `arbitrage_pairs` is kept. -/
structure SameManager (pm pm' : PoolManager) : Prop extends Alike pm pm' where
  undoLog : pm.undoLog = pm'.undoLog

theorem SameManager.refl (pm : PoolManager) : SameManager pm pm := ⟨⟨rfl, rfl⟩, rfl⟩

theorem computePairs_congr (h : view pm = view pm') : pm.computePairs = pm'.computePairs := by
  have hview : ∀ q : PoolManager, (view q).computePairs = q.computePairs := fun _ => rfl
  rw [← hview pm, h, hview pm']

theorem Alike.of_fresh (h : view pm = view pm') (hpm : FreshPairs pm) (hpm' : FreshPairs pm') :
    Alike pm pm' :=
  ⟨h, by rw [arbitragePairs_fst hpm, arbitragePairs_fst hpm', computePairs_congr h]⟩

theorem beginUndo_eq (pm : PoolManager) :
    pm.beginUndo = { view pm with
      pairsCache := pm.pairsCache
      undoLog := some { dirtyBefore := some (view pm).dirtyPools
                        fotBefore := some (view pm).dynamicFot } } := rfl

/-- Once the pairs are asked for, the recording managers are one. -/
theorem Alike.cached_beginUndo (h : Alike pm pm') :
    pm.beginUndo.arbitragePairs.2 = pm'.beginUndo.arbitragePairs.2 := by
  have hpairs : ∀ q : PoolManager, q.beginUndo.arbitragePairs.1 = q.arbitragePairs.1 := fun q => by
    obtain ⟨_, _, cache, _, _, _, _, _, _, _, _⟩ := q
    cases cache <;> rfl
  rw [arbitragePairs_snd, arbitragePairs_snd, hpairs, hpairs, h.pairs, beginUndo_eq,
    beginUndo_eq, h.state]

theorem Alike.endUndo (h : Alike pm pm') : SameManager pm.endUndo pm'.endUndo := by
  have hpairs : ∀ q : PoolManager, q.endUndo.arbitragePairs.1 = q.arbitragePairs.1 := fun q => by
    obtain ⟨_, _, cache, _, _, _, _, _, _, _, _⟩ := q
    cases cache <;> rfl
  exact ⟨⟨h.state, by rw [hpairs, hpairs, h.pairs]⟩, rfl⟩

theorem poolAddresses_congr (h : view pm = view pm') : poolAddresses pm = poolAddresses pm' := by
  have hview : ∀ q : PoolManager, poolAddresses (view q) = poolAddresses q := fun _ => rfl
  rw [← hview pm, h, hview pm']

theorem tokenAddresses_congr (h : view pm = view pm') :
    tokenAddresses pm = tokenAddresses pm' := by
  have hview : ∀ q : PoolManager, tokenAddresses (view q) = tokenAddresses q := fun _ => rfl
  rw [← hview pm, h, hview pm']

/-! ## Rolling back -/

/-- A block that has only begun is rolled back to the manager without its cache. -/
theorem undo_beginUndo (pm : PoolManager) : pm.beginUndo.undo = view pm := by
  obtain ⟨log, hlog⟩ := recorded_beginUndo pm
  exact undo_of_recorded hlog

theorem undoLog_undo (pm : PoolManager) : pm.undo.undoLog = none := by
  unfold PoolManager.undo
  cases hlog : pm.undoLog with
  | none => exact hlog
  | some log =>
    dsimp only
    rw [foldl_removeAdded]

theorem undo_of_none (h : pm.undoLog = none) : pm.undo = pm := by
  unfold PoolManager.undo
  rw [h]

theorem undo_undo (pm : PoolManager) : pm.undo.undo = pm.undo := undo_of_none (undoLog_undo pm)

theorem FreshPairs.undo (h : FreshPairs pm) : FreshPairs pm.undo := by
  cases hlog : pm.undoLog with
  | none => rwa [undo_of_none hlog]
  | some log =>
    intro pairs hpairs
    unfold PoolManager.undo at hpairs
    rw [hlog] at hpairs
    cases hpairs

/-! ## The fallback -/

section Fallback

variable {Key Val : Type} {D : Detectors} {rt : TaxRuntime}

/-- The same runner, but for the calibration that the next block overwrites. -/
structure SameRunner (s s' : Runner D) : Prop where
  poolManager : SameManager s.poolManager s'.poolManager
  rest : s' = { s with poolManager := s'.poolManager, calibration := s'.calibration }

/-- Two fallbacks return the same and leave the same runner, or panic alike. -/
def SameYield {α : Type} : Except Panic (α × Runner D) → Except Panic (α × Runner D) → Prop
  | .ok (y, s), .ok (y', s') => y = y' ∧ SameRunner s s'
  | .error p, .error p' => p = p'
  | _, _ => False

theorem SameYield.refl {α : Type} (y : Except Panic (α × Runner D)) : SameYield y y := by
  cases y with
  | error p => rfl
  | ok y => exact ⟨rfl, SameManager.refl _, rfl⟩

/-- The first step on a transaction is to ask for the pairs. -/
theorem syncTx_congr {a : BlockArgs D} {receipts : List ReceiptData} {p : TxData × ℕ}
    (l l' : BlockLoop D) (hl : l' = { l with pm := l'.pm })
    (hpm : l.pm.arbitragePairs.2 = l'.pm.arbitragePairs.2) :
    l.syncTx rt a receipts p = l'.syncTx rt a receipts p := by
  rw [hl]
  unfold BlockLoop.syncTx BlockLoop.detectArbs
  dsimp only
  rw [hpm]

/-- Two runners whose managers answer alike process a block alike. -/
theorem fallback_congr {s s' : Runner D} (h : Alike s.poolManager s'.poolManager)
    (hundo : SameManager s.poolManager.undo s'.poolManager.undo)
    (hrest : s' = { s with poolManager := s'.poolManager, calibration := s'.calibration })
    (r : BlockReplayer Key Val) (blockNum : ℕ) :
    SameYield (hybridTryLogOnlyBlock rt r s blockNum)
      (hybridTryLogOnlyBlock rt r s' blockNum) := by
  have hback : SameRunner s.rollBack s'.rollBack := by
    refine ⟨hundo, ?_⟩
    rw [hrest]
    rfl
  have hcommit : SameRunner s.commit s'.commit := by
    refine ⟨h.endUndo, ?_⟩
    rw [hrest]
    rfl
  unfold hybridTryLogOnlyBlock syncBlockFromLogs
  cases r.loadBlockData blockNum with
  | error e => exact ⟨rfl, hback⟩
  | ok data =>
    obtain ⟨block, txs⟩ := data
    dsimp only
    cases r.loadReceipts blockNum with
    | error e => exact ⟨rfl, hback⟩
    | ok receipts =>
      dsimp only
      cases txs with
      | nil => exact ⟨rfl, hcommit⟩
      | cons tx txs =>
        -- the loop of the transactions starts with the pairs
        have hargs : s.args blockNum block (tx :: txs) = s'.args blockNum block (tx :: txs) := by
          unfold Runner.args
          rw [poolAddresses_congr h.state, tokenAddresses_congr h.state, hrest]
        have hloop : (tx :: txs).zipIdx.foldlM
              (BlockLoop.syncTx rt (s'.args blockNum block (tx :: txs)) receipts)
              (s.begun.loop blockNum) =
            (tx :: txs).zipIdx.foldlM
              (BlockLoop.syncTx rt (s'.args blockNum block (tx :: txs)) receipts)
              (s'.begun.loop blockNum) := by
          have hrest' : s'.begun.loop blockNum =
              { s.begun.loop blockNum with pm := (s'.begun.loop blockNum).pm } := by
            rw [hrest]
            rfl
          rw [List.zipIdx_cons, List.foldlM_cons, List.foldlM_cons,
            syncTx_congr _ _ hrest' h.cached_beginUndo]
        have hfinish : ∀ l, s.begun.finish l blockNum (tx :: txs).length [] .logOnly =
            s'.begun.finish l blockNum (tx :: txs).length [] .logOnly := by
          intro l
          rw [hrest]
          rfl
        rw [if_neg (List.cons_ne_nil tx txs), if_neg (List.cons_ne_nil tx txs), hargs, hloop]
        simp only [hfinish]
        exact SameYield.refl _

/-! ## The trace of a failed attempt -/

variable [DecidableEq Key]

/-- A runner in which no failed attempt at a block, whatever the reads of the block answer it,
    changes what the fallback does. -/
def LeavesNoTrace (Key Val : Type) [DecidableEq Key] (rt : TaxRuntime) (s : Runner D) : Prop :=
  ∀ (r r' : BlockReplayer Key Val) (blockNum : ℕ) (e : String) (s' : Runner D),
    runBlock rt r s blockNum = .ok (.error e, s') →
      SameYield (hybridTryFullReplayBlock rt r r' s blockNum)
        (hybridTryLogOnlyBlock rt r' s blockNum)

/-- No undo log is open that would change a pool, and the cached pairs are up to date. -/
structure Settled (pm : PoolManager) : Prop where
  log : view pm.undo = view pm
  pairs : FreshPairs pm

theorem fullReplay_of_error {r r' : BlockReplayer Key Val} {s s' : Runner D} {blockNum : ℕ}
    {e : String} (h : runBlock rt r s blockNum = .ok (.error e, s')) :
    hybridTryFullReplayBlock rt r r' s blockNum =
      hybridTryLogOnlyBlock rt r' s'.rollBack blockNum := by
  unfold hybridTryFullReplayBlock
  rw [h]

/-- A transaction that does nothing. -/
def idleTx : TxData :=
  { hash := 0, index := 0, txType := 0, sender := 0, recipient := none, input := [], value := 0
    gasLimit := 0, maxFeePerGas := 0, maxPriorityFeePerGas := none, gasPrice := none, nonce := 0
    accessList := [], authorizationList := [] }

def idleBlock : BlockData :=
  { number := 0, hash := 0, timestamp := 0, baseFeePerGas := none, gasLimit := 0, gasUsed := 0
    coinbase := 0, difficulty := 0, mixHash := 0 }

/-- A replayer that reads a block of some transactions, or no block. -/
def blockReader (Key Val : Type) (txs : Except String (List TxData))
    (receipts : Except String (List ReceiptData)) : BlockReplayer Key Val where
  chainId := 1
  loadBlockData _ := txs.map (idleBlock, ·)
  loadReceipts _ := receipts
  createDbForBlock _ := .error "no state"
  evm _ :=
    { run := fun _ _ => .error (.database "no state"), reads := fun _ _ => ∅
      run_congr := fun _ _ _ _ => rfl }

/-- A block whose receipts cannot be read fails once it is recorded. -/
theorem runBlock_noReceipts (s : Runner D) :
    runBlock rt (blockReader Key Val (.ok [idleTx]) (.error "no receipts")) s 0 =
      .ok (.error "no receipts", s.begun) := rfl

theorem Settled.of_leavesNoTrace {s : Runner D} (h : LeavesNoTrace Key Val rt s) :
    Settled s.poolManager := by
  have hrun : runBlock rt (blockReader Key Val (.ok [idleTx]) (.error "no receipts")) s 0 =
      .ok (.error "no receipts", s.begun) := runBlock_noReceipts s
  have hundo : s.begun.rollBack.poolManager = view s.poolManager := undo_beginUndo s.poolManager
  constructor
  · -- the fallback cannot read the block either
    have hsame := h _ (blockReader Key Val (.error "no block") (.ok [])) 0 _ _ hrun
    rw [fullReplay_of_error hrun] at hsame
    have hmanager : SameManager s.begun.rollBack.poolManager.undo s.poolManager.undo :=
      hsame.2.poolManager
    rw [hundo, undo_of_none rfl] at hmanager
    exact hmanager.state.symm
  · -- the fallback reads a block without transactions
    have hsame := h _ (blockReader Key Val (.ok []) (.ok [])) 0 _ _ hrun
    rw [fullReplay_of_error hrun] at hsame
    have hmanager : SameManager s.begun.rollBack.poolManager.endUndo s.poolManager.endUndo :=
      hsame.2.poolManager
    rw [hundo] at hmanager
    intro pairs hpairs
    have heq := hmanager.pairs
    have hleft : (view s.poolManager).endUndo.arbitragePairs.1 = s.poolManager.computePairs := rfl
    have hright : s.poolManager.endUndo.arbitragePairs.1 = pairs := by
      unfold PoolManager.arbitragePairs PoolManager.endUndo
      dsimp only
      rw [hpairs]
    rw [← hleft, heq, hright]

theorem Settled.leavesNoTrace {s : Runner D} (h : Settled s.poolManager) :
    LeavesNoTrace Key Val rt s := by
  intro r r' blockNum e s' hrun
  rw [fullReplay_of_error hrun]
  have hfresh : FreshPairs (view s.poolManager) := fun pairs hpairs => by cases hpairs
  rcases runBlock_error hrun with rfl | rfl
  · -- the attempt failed before it recorded anything
    have halike : Alike s'.rollBack.poolManager s'.poolManager :=
      Alike.of_fresh h.log h.pairs.undo h.pairs
    refine fallback_congr halike ?_ rfl r' blockNum
    show SameManager s'.poolManager.undo.undo s'.poolManager.undo
    rw [undo_undo]
    exact SameManager.refl _
  · have hundo : s.begun.rollBack.poolManager = view s.poolManager := undo_beginUndo s.poolManager
    refine fallback_congr ?_ ?_ rfl r' blockNum
    · rw [hundo]
      exact Alike.of_fresh rfl hfresh h.pairs
    · rw [hundo, undo_of_none rfl]
      exact ⟨Alike.of_fresh h.log.symm hfresh h.pairs.undo, (undoLog_undo _).symm⟩

/-- **Main theorem.** A failed attempt leaves no trace exactly in a runner whose cached pairs are
    up to date and whose undo log, if one is open, would change no pool. -/
theorem leavesNoTrace_iff (s : Runner D) :
    LeavesNoTrace Key Val rt s ↔ Settled s.poolManager :=
  ⟨Settled.of_leavesNoTrace, Settled.leavesNoTrace⟩

end Fallback

/-! ## A block after a failed attempt -/

/-- Detectors to which each pair of pools is an opportunity of `100`. -/
def everyPair : Detectors where
  Settings := Unit
  TwoHop := Unit
  MultiHop := Unit
  Jit := Unit
  Backrun := Unit
  newTwoHop := ()
  checkDirection ctx blockNum buyPool sellPool sharedToken :=
    if buyPool < sellPool then
      some
        { blockNumber := blockNum, txIndex := ctx.txIndex, strategy := .twoHopArb
          poolA := buyPool, poolB := sellPool, tokenIn := sharedToken, expectedProfit := 100
          gasCostWei_lt := noGas_lt }
    else none
  dedupArb _ _ _ := (true, ())
  newMultiHop _ := ()
  detectMultiHop _ _ := ([], ())
  newJit _ _ := ()
  processJit _ _ _ _ _ := ()
  detectJit _ _ := ([], ())
  newBackrun _ := ()
  preDetect _ _ := ()
  postDetect _ _ _ := ([], ())

/-- Three pairs of one token, of which two may be paired up. -/
def threePairs : PoolManager :=
  [blockPair 1, blockPair 4, blockPair 5].foldl PoolManager.addPool { maxPairsPerToken := 2 }

/-- The pairs are computed, and then a block drains the pair at address 1. -/
def drainedRunner : Runner everyPair :=
  { settings := ()
    poolManager := (threePairs.arbitragePairs.2.beginUndo.poolMut 1 syncEdit).endUndo }

/-- The pools of the opportunities of a fallback, and the pairs that it leaves. -/
def fallbackResult
    (y : Except Panic (Option (List MevOpportunity × BlockReplayStats) × Runner everyPair)) :
    Option (Option (List (Address × Address)) × List ArbPair) :=
  y.toOption.map fun (found, s) =>
    (found.map fun (opps, _) => opps.map fun o => (o.poolA, o.poolB),
      s.poolManager.arbitragePairs.1)

/-- The replay of a block cannot read the receipts. Where the fallback can, it searches other
    pairs than it would have without the failed attempt; where it cannot, the pairs that later
    blocks search have changed. -/
theorem stale_pairs_lost :
    let noReceipts := blockReader Unit Unit (.ok [idleTx]) (.error "no receipts")
    let logs := blockReader Unit Unit (.ok [idleTx]) (.ok [])
    drainedRunner.poolManager.undoLog = none ∧
    fallbackResult (hybridTryLogOnlyBlock exactRuntime logs drainedRunner 9) =
      some (some [(1, 4)], [⟨1, 4, 2⟩]) ∧
    fallbackResult (hybridTryFullReplayBlock exactRuntime noReceipts logs drainedRunner 9) =
      some (some [(4, 5)], [⟨4, 5, 2⟩]) ∧
    fallbackResult (hybridTryLogOnlyBlock exactRuntime noReceipts drainedRunner 9) =
      some (none, [⟨1, 4, 2⟩]) ∧
    fallbackResult (hybridTryFullReplayBlock exactRuntime noReceipts noReceipts drainedRunner 9) =
      some (none, [⟨4, 5, 2⟩]) := by
  refine ⟨?_, ?_, ?_, ?_, ?_⟩ <;> decide +kernel

end MevScout.Pipeline
