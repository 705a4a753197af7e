import MevScout.Chain.Events

/-!
# The cursor of the explorer

Models of `run_live`, `run_range` and the reorg probes of `core/src/explorer/ingest.rs`, over the
tables that they read: `blocks_classified`, the hashes of `blocks`, and the checkpoint of
`sync_state` (`core/src/explorer/store/sync.rs`). What the node, the price feed and the disk
answer during a call is an argument of the call.
-/

namespace MevScout.Explorer

/-! ## The store -/

/-- The tables that the cursor reads. `head` and `indexedTo` are the row of `sync_state`, and 0
    without one; `first` is the lowest block that was ever classified, which no code reads. -/
structure SyncStore where
  classified : Finset ℕ := ∅
  blockHash : ℕ → Option B256 := fun _ => none
  head : ℕ := 0
  indexedTo : ℕ := 0
  first : Option ℕ := none

namespace SyncStore

/-- Model of `set_sync_state` (`store/sync.rs`, lines 19–31). -/
def setSyncState (st : SyncStore) (head indexedTo : ℕ) : SyncStore := { st with head, indexedTo }

/-- Model of `get_indexed_to` (`store/sync.rs`, lines 6–17): a query that fails reads 0. -/
def getIndexedTo (st : SyncStore) (read : Bool) : ℕ := if read then st.indexedTo else 0

/-- What `insert_block_facts` (`store/facts.rs`, lines 155–379) leaves of a block. -/
def insertBlock (st : SyncStore) (block : ℕ) (hash : B256) : SyncStore :=
  { st with
    classified := insert block st.classified
    blockHash := Function.update st.blockHash block ((st.blockHash block).or (some hash))
    first := some (st.first.elim block (min block)) }

/-- Model of `unclassified_blocks` (`store/sync.rs`, lines 51–80). -/
def unclassifiedBlocks (st : SyncStore) (start stop : ℕ) : List ℕ :=
  (List.range' start (stop + 1 - start)).filter fun b => b ∉ st.classified

/-- Model of `unwind_from` (`store/sync.rs`, lines 88–135). -/
def unwindFrom (st : SyncStore) (forkBlock : ℕ) : SyncStore :=
  { st with
    classified := st.classified.filter fun b => b < forkBlock
    blockHash := fun b => if b < forkBlock then st.blockHash b else none }

end SyncStore

/-! ## Indexing a block -/

/-- How indexing a block ends. The open positions are written after the facts are committed, so
    that a failure may leave the block classified. -/
inductive Attempt where
  | indexed (hash : B256)
  | failed
  | failedClassified (hash : B256)
  deriving DecidableEq

/-- Model of `index_block_fetched` (`ingest.rs`, lines 470–609). -/
def SyncStore.indexBlockFetched (st : SyncStore) (block : ℕ) : Attempt → SyncStore × Bool
  | .indexed hash => (st.insertBlock block hash, true)
  | .failed => (st, false)
  | .failedClassified hash => (st.insertBlock block hash, false)

/-- Model of `index_block` (`ingest.rs`, lines 273–311): a classified block is skipped. -/
def SyncStore.indexBlock (st : SyncStore) (block : ℕ) (attempt : Attempt) : SyncStore × Bool :=
  if block ∈ st.classified then (st, true) else st.indexBlockFetched block attempt

/-! ## Reorg probes -/

/-- Model of `IngestConfig` (`ingest.rs`, lines 56–91): what the cursor reads of it. -/
structure IngestConfig where
  confirmations : ℕ
  rpcBatchBlocks : ℕ

/-- `REORG_SWEEP_BLOCKS` (`ingest.rs`, line 687). -/
def reorgSweepBlocks : ℕ := 32

/-- Model of `ReorgOutcome` (`ingest.rs`, lines 693–697). -/
inductive ReorgOutcome where
  | noReorg
  | forked (forkBlock : ℕ)
  | probeFailed
  deriving DecidableEq

/-- The loop of `fork_block_from_checks` (`ingest.rs`, lines 710–721). -/
def forkBlockLoop (fork : Option ℕ) : List (ℕ × Option Bool) → Option ℕ
  | [] => none
  | (block, some false) :: checks => forkBlockLoop (some block) checks
  | (_, _) :: _ => fork

/-- Model of `fork_block_from_checks` (`ingest.rs`, lines 710–721). -/
def forkBlockFromChecks (checks : List (ℕ × Option Bool)) : Option ℕ := forkBlockLoop none checks

/-- The loop of `walk_to_fork` (`ingest.rs`, lines 736–754), `none` when a hash fetch fails. -/
def walkChecks (st : SyncStore) (hashes : ℕ → Option B256) :
    List ℕ → Option (List (ℕ × Option Bool))
  | [] => some []
  | block :: rest =>
    match st.blockHash block with
    | none => some [(block, none)]
    | some stored =>
      match hashes block with
      | none => none
      | some onchain =>
        if stored = onchain then some [(block, some true)]
        else (walkChecks st hashes rest).map ((block, some false) :: ·)

/-- Model of `walk_to_fork` (`ingest.rs`, lines 727–772), without the unwind. -/
def walkToFork (st : SyncStore) (hashes : ℕ → Option B256) (probe maxLookback : ℕ) :
    ReorgOutcome :=
  let lo := probe - maxLookback
  match walkChecks st hashes (List.range' lo (probe - lo)).reverse with
  | none => .probeFailed
  | some checks =>
    match forkBlockFromChecks ((probe, some false) :: checks) with
    | some forkBlock => .forked forkBlock
    | none => .probeFailed

/-- Model of `check_reorg` (`ingest.rs`, lines 776–793). -/
def checkReorg (st : SyncStore) (hashes : ℕ → Option B256) (block maxLookback : ℕ) :
    ReorgOutcome :=
  match st.blockHash block with
  | none => .noReorg
  | some stored =>
    match hashes block with
    | none => .probeFailed
    | some onchain =>
      if stored = onchain then .noReorg else walkToFork st hashes block maxLookback

/-- Model of `verify_indexed_tip` (`ingest.rs`, lines 800–823). -/
def verifyIndexedTip (st : SyncStore) (hashes : ℕ → Option B256) (block maxLookback : ℕ) :
    ReorgOutcome :=
  checkReorg st hashes block maxLookback

/-! ## Live polls -/

/-- `MAX_CONSECUTIVE_LIVE_FAILURES` (`ingest.rs`, line 1050). -/
def maxConsecutiveLiveFailures : ℕ := 10

/-- Model of `BlockAttempt` (`ingest.rs`, lines 1055–1065). -/
structure BlockAttempt where
  nextBlock : Option ℕ
  advanceSync : Bool
  consecutiveFailures : ℕ

/-- Model of `after_block_attempt` (`ingest.rs`, lines 1073–1087). -/
def afterBlockAttempt (failures block : ℕ) (ok : Bool) : BlockAttempt :=
  if ok then { nextBlock := none, advanceSync := true, consecutiveFailures := 0 }
  else { nextBlock := some block, advanceSync := false, consecutiveFailures := failures + 1 }

/-- Model of `checkpoint_target` (`ingest.rs`, lines 1096–1102). -/
def checkpointTarget (rangeCompleted : Bool) (safe : ℕ) : Option ℕ :=
  if rangeCompleted then some (safe + 1) else none

/-- Model of `tip_jump_checkpoint` (`ingest.rs`, lines 249–254). -/
def tipJumpCheckpoint (existing safe : ℕ) : ℕ :=
  if existing = 0 then safe - 1 else min existing (safe - 1)

/-- What a reorg probe meets: the hashes that the node serves, and whether the unwind commits. -/
structure Probe where
  hashes : ℕ → Option B256 := fun _ => none
  unwound : Bool := true

/-- What a poll meets: the head of the chain, whether the checkpoint can be read and written, the
    two reorg probes, whether there is a native price, and how indexing each block ends. -/
structure Poll where
  head : Option ℕ
  readStart : Bool := true
  savedStart : Bool := true
  readTip : Bool := true
  tip : Probe := {}
  sweep : Probe := {}
  nativePrice : Bool := true
  attempt : ℕ → Attempt := fun _ => .failed
  saved : Bool := true

/-- The variables of `run_live`. `running` ends with the call. `firstIndexed` is the first block
    that the session indexed and `forks` are the blocks that it unwound from; no code reads
    them. -/
structure LiveState where
  store : SyncStore
  nextBlock : Option ℕ := none
  sinceReorgCheck : ℕ := 0
  consecutiveFailures : ℕ := 0
  running : Bool := true
  firstIndexed : Option ℕ := none
  forks : List ℕ := []

/-- Model of `safe_head` (`ingest.rs`, lines 680–683). -/
def safeHead (cfg : IngestConfig) (head : Option ℕ) : Option ℕ :=
  head.map fun h => h - cfg.confirmations

/-- The bound of a walk back (`ingest.rs`, line 1195). -/
def IngestConfig.maxLookback (cfg : IngestConfig) : ℕ := cfg.confirmations + reorgSweepBlocks

namespace LiveState

/-- The call ends with an error. -/
def abort (st : LiveState) : LiveState := { st with running := false }

/-- A failure that skips the poll, or ends the call if it is one too many. -/
def skip (st : LiveState) : LiveState :=
  { st with
    consecutiveFailures := st.consecutiveFailures + 1
    running := decide (st.consecutiveFailures + 1 < maxConsecutiveLiveFailures) }

/-- The cursor of a poll (`ingest.rs`, lines 1168–1187); an error is the state that the poll
    ends with. -/
def start (p : Poll) (safe : ℕ) (st : LiveState) : Except LiveState (LiveState × ℕ) :=
  match st.nextBlock with
  | some n => .ok (st, n)
  | none =>
    let keep := tipJumpCheckpoint (st.store.getIndexedTo p.readStart) safe
    if p.savedStart then .ok ({ st with store := st.store.setSyncState safe keep }, safe)
    else .error st.abort

/-- The unwind of `walk_to_fork` (`ingest.rs`, line 761) as the loop sees it. -/
def unwind (forkBlock : ℕ) (st : LiveState) : LiveState :=
  { st with store := st.store.unwindFrom forkBlock, forks := forkBlock :: st.forks }

/-- What a poll makes of a probe (`ingest.rs`, lines 1198–1219 and 1224–1244). -/
def resolve (outcome : ReorgOutcome) (unwound : Bool) (cursor : ℕ) (st : LiveState) :
    Except LiveState (LiveState × ℕ) :=
  match outcome with
  | .noReorg => .ok (st, cursor)
  | .forked f =>
    if unwound then .ok (st.unwind f, f) else .error st.abort
  | .probeFailed => .error st.skip

/-- What the probe of the indexed tip answers (`ingest.rs`, lines 1196–1198). -/
def tipOutcome (cfg : IngestConfig) (p : Poll) (cursor : ℕ) (st : LiveState) : ReorgOutcome :=
  let indexedTo := st.store.getIndexedTo p.readTip
  if 0 < indexedTo ∧ indexedTo < cursor then
    verifyIndexedTip st.store p.tip.hashes indexedTo cfg.maxLookback
  else .noReorg

/-- What the sweep answers, which is due at every 32nd poll (`ingest.rs`, lines 1221–1224). -/
def sweepOutcome (cfg : IngestConfig) (p : Poll) (cursor : ℕ) (st : LiveState) : ReorgOutcome :=
  if reorgSweepBlocks ≤ st.sinceReorgCheck + 1 then
    checkReorg st.store p.sweep.hashes (cursor - 1) cfg.maxLookback
  else .noReorg

/-- The counter of the polls since the last sweep (`ingest.rs`, lines 1221–1222 and 1245). -/
def countSweep (st : LiveState) : LiveState :=
  if reorgSweepBlocks ≤ st.sinceReorgCheck + 1 then { st with sinceReorgCheck := 0 }
  else { st with sinceReorgCheck := st.sinceReorgCheck + 1 }

/-- The sweep of a poll (`ingest.rs`, lines 1221–1246). One that fails leaves the counter where it
    is due. -/
def verifySweep (cfg : IngestConfig) (p : Poll) (cursor : ℕ) (st : LiveState) :
    Except LiveState (LiveState × ℕ) :=
  match st.sweepOutcome cfg p cursor with
  | .probeFailed => .error { st with sinceReorgCheck := st.sinceReorgCheck + 1 }.skip
  | outcome => st.countSweep.resolve outcome p.sweep.unwound cursor

/-- The probes and the price of a poll (`ingest.rs`, lines 1195–1267). -/
def prepare (cfg : IngestConfig) (p : Poll) (cursor : ℕ) (st : LiveState) :
    Except LiveState (LiveState × ℕ) := do
  let (st, cursor) ← st.resolve (st.tipOutcome cfg p cursor) p.tip.unwound cursor
  let (st, cursor) ← st.verifySweep cfg p cursor
  if p.nativePrice then .ok (st, cursor) else .error st.skip

/-- The loop over `count` blocks from `block` (`ingest.rs`, lines 1272–1317), and whether it
    completed. -/
def indexFrom (attempt : ℕ → Attempt) : (count block : ℕ) → LiveState → LiveState × Bool
  | 0, _, st => (st, true)
  | count + 1, block, st =>
    let (store, ok) := st.store.indexBlock block (attempt block)
    let verdict := afterBlockAttempt st.consecutiveFailures block ok
    let st := { st with store, consecutiveFailures := verdict.consecutiveFailures }
    if ok then
      indexFrom attempt count (block + 1)
        { st with firstIndexed := st.firstIndexed.or (some block) }
    else
      ({ st with
          nextBlock := verdict.nextBlock
          running := decide (verdict.consecutiveFailures < maxConsecutiveLiveFailures) },
        verdict.advanceSync)

/-- The blocks of a poll and its checkpoint (`ingest.rs`, lines 1268–1324). -/
def indexTo (p : Poll) (safe cursor : ℕ) (st : LiveState) : LiveState :=
  let (st, rangeCompleted) := st.indexFrom p.attempt (safe + 1 - cursor) cursor
  match checkpointTarget rangeCompleted safe with
  | none => st
  | some resumeAt =>
    if p.saved then
      { st with store := st.store.setSyncState safe safe, nextBlock := some resumeAt }
    else st.abort

/-- One turn of the loop of `run_live` (`ingest.rs`, lines 1155–1331). -/
def poll (cfg : IngestConfig) (st : LiveState) (p : Poll) : LiveState :=
  if st.running then
    match safeHead cfg p.head with
    | none => st
    | some safe =>
      match st.start p safe with
      | .error st => st
      | .ok (st, cursor) =>
        if cursor ≤ safe then
          match st.prepare cfg p cursor with
          | .error st => st
          | .ok (st, cursor) => st.indexTo p safe cursor
        else { st with nextBlock := some cursor }
  else st

end LiveState

/-- Model of `run_live` (`ingest.rs`, lines 1117–1339): the state after some polls. -/
def runLive (cfg : IngestConfig) (store : SyncStore) (polls : List Poll) : LiveState :=
  polls.foldl (LiveState.poll cfg) { store }

/-! ## Ranges -/

/-- Model of `RangeRequest` (`ingest.rs`, lines 44–48). -/
structure RangeRequest where
  fromBlock : ℕ
  toBlock : ℕ
  blockConcurrency : ℕ

/-- What a range call meets: the head of the chain, whether the missing blocks can be listed and
    there is a native price, at first and at every 256th block, which chunks are fetched, how
    indexing each block ends, and whether the checkpoint is written. -/
structure RangeEnv where
  tip : Option ℕ
  listed : Bool := true
  firstPrice : Bool := true
  nativePrice : ℕ → Bool := fun _ => true
  fetched : List ℕ → Bool := fun _ => true
  attempt : ℕ → Attempt := fun _ => .failed
  saved : Bool := true

/-- Whether the price that a block may refresh is there (`ingest.rs`, lines 1441–1443 and
    1536–1539). -/
def RangeEnv.priced (env : RangeEnv) (fromBlock block : ℕ) : Bool :=
  (block - fromBlock) % 256 ≠ 0 || env.nativePrice block

/-- The loop without concurrency (`ingest.rs`, lines 1439–1477): a block that fails is skipped.
    An error is the store that the call fails with. -/
def indexSerial (env : RangeEnv) (fromBlock : ℕ) (st : SyncStore) (block : ℕ) :
    Except SyncStore SyncStore :=
  if env.priced fromBlock block then .ok (st.indexBlock block (env.attempt block)).1
  else .error st

/-- The loop of the pipeline (`ingest.rs`, lines 1529–1600): a block whose chunk is not fetched is
    skipped, and a block that fails ends the call. -/
def indexPipelined (env : RangeEnv) (fromBlock : ℕ) (skipped : List ℕ) (st : SyncStore)
    (block : ℕ) : Except SyncStore SyncStore :=
  if block ∈ skipped then .ok st
  else if env.priced fromBlock block then
    let (st, ok) := st.indexBlockFetched block (env.attempt block)
    if ok then .ok st else .error st
  else .error st

/-- The last block of a range call (`ingest.rs`, lines 1377–1379). -/
def RangeRequest.stop (cfg : IngestConfig) (req : RangeRequest) (tip : ℕ) : ℕ :=
  min req.toBlock (tip - cfg.confirmations)

/-- The blocks in flight at a time (`ingest.rs`, line 1435). -/
def RangeRequest.cap (req : RangeRequest) (missing : List ℕ) : ℕ :=
  min (max req.blockConcurrency 1) missing.length

/-- The blocks whose fetch fails, by chunks (`ingest.rs`, lines 1438 and 1485–1497). -/
def RangeEnv.skipped (env : RangeEnv) (cfg : IngestConfig) (cap : ℕ) (missing : List ℕ) :
    List ℕ :=
  ((missing.toChunks (min (max cfg.rpcBatchBlocks 1) cap)).filter fun c => !env.fetched c).flatten

/-- The blocks of a range call (`ingest.rs`, lines 1435–1602). -/
def indexMissing (cfg : IngestConfig) (env : RangeEnv) (req : RangeRequest) (missing : List ℕ)
    (st : SyncStore) : Except SyncStore SyncStore :=
  let cap := req.cap missing
  if cap ≤ 1 then missing.foldlM (indexSerial env req.fromBlock) st
  else missing.foldlM (indexPipelined env req.fromBlock (env.skipped cfg cap missing)) st

/-- Model of `run_range` (`ingest.rs`, lines 1358–1616): the store that a call leaves. -/
def runRange (cfg : IngestConfig) (env : RangeEnv) (req : RangeRequest) (st : SyncStore) :
    SyncStore :=
  if req.toBlock < req.fromBlock then st
  else
    match env.tip with
    | none => st
    | some tip =>
      let stop := req.stop cfg tip
      if stop < req.fromBlock then st
      else if env.listed && env.firstPrice then
        match indexMissing cfg env req (st.unclassifiedBlocks req.fromBlock stop) st with
        | .error st => st
        | .ok st => if env.saved then st.setSyncState tip stop else st
      else st

end MevScout.Explorer
