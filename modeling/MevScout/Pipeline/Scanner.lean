import MevScout.Chain.Data
import MevScout.Common.Int
import MevScout.Rpc.Multicall

/-!
# The activity scanner

Models of `core/src/pipeline/scanner.rs`: the blocks of a range in which a pool has logged an event
are found by `eth_getLogs` over windows. One path walks the windows and falls back to single
blocks, the other halves a window whose call fails and merges what its windows found in the order
in which they complete. The node is a parameter: it may fail for any range of more than one block.

Results:
* `scanBatch_eq`, `scanWindowSplitting_eq`: both ways to scan a window find its active blocks;
* `serialLoop_eq`, `windowsLoop_spec`: the loops cover the range and end;
* `findActiveBlocks_eq`: either path ends with the active blocks of the range.
-/

namespace MevScout.Pipeline

/-! ## Logs -/

/-- Model of `all_topics` (`scanner.rs`, lines 41–66). -/
def allTopics : List B256 :=
  [Chain.v2SwapTopic, Chain.v2SyncTopic, Chain.v3SwapTopic, Chain.v3MintTopic, Chain.v3BurnTopic,
    Chain.curveTokenExchangeTopic, Chain.curveV2TokenExchangeTopic,
    Chain.curveTokenExchangeUnderlyingTopic, Chain.curveV2TokenExchangeUnderlyingTopic,
    Chain.balancerSwapTopic, Chain.v4SwapTopic, Chain.infClSwapTopic, Chain.fluidSwapTopic,
    Chain.metricSwapTopic, Chain.solidlySwapTopic, Chain.traderJoeLbSwapTopic,
    Chain.traderJoeLbSwapLegacyTopic, Chain.pendleMarketSwapTopic, Chain.pendleSwapPtAndSyTopic,
    Chain.pendleSwapYtAndSyTopic, Chain.pendleSwapPtAndTokenTopic,
    Chain.pendleSwapYtAndTokenTopic]

/-- A `Filter` of `eth_getLogs`: addresses, signatures and a block range. -/
structure LogFilter where
  address : List Address
  eventSignature : List B256
  fromBlock : ℕ
  toBlock : ℕ

/-- A log has one of the addresses and one of the signatures. -/
def LogFilter.Selects (filter : LogFilter) (log : LogData) : Prop :=
  log.address ∈ filter.address ∧ log.topics.head?.any filter.eventSignature.contains

instance (filter : LogFilter) (log : LogData) : Decidable (filter.Selects log) :=
  inferInstanceAs (Decidable (_ ∧ _))

/-- A log as `eth_getLogs` returns it. -/
structure RpcLog where
  log : LogData
  blockNumber : Option ℕ

/-- The node: the logs of each block, the ranges for which a call fails, which are none of a single
    block, and `has_unlimited_provider`. -/
structure RpcClient where
  logs : ℕ → List LogData
  fails : ℕ → ℕ → Bool
  single : ∀ b, fails b b = false
  unlimited : Bool

/-- Model of `get_logs`. -/
def RpcClient.getLogs (rpc : RpcClient) (filter : LogFilter) : Option (List RpcLog) :=
  if rpc.fails filter.fromBlock filter.toBlock then none
  else some ((List.range' filter.fromBlock (filter.toBlock + 1 - filter.fromBlock)).flatMap
    fun b => ((rpc.logs b).filter (filter.Selects ·)).map fun log => ⟨log, some b⟩)

/-- The filter of a scan. -/
def scanFilter (poolAddresses : List Address) (fromBlock toBlock : ℕ) : LogFilter :=
  ⟨poolAddresses, allTopics, fromBlock, toBlock⟩

/-- The blocks of some logs. -/
def logBlocks (logs : List RpcLog) : Finset ℕ := (logs.filterMap (·.blockNumber)).toFinset

/-! ## The scanner -/

/-- Model of `ActivityScanner` (`scanner.rs`, lines 74–80); its builders keep both numbers
    positive. -/
structure ActivityScanner where
  rpc : RpcClient
  batchSize : ℕ := 500
  windowConcurrency : ℕ := 1
  batchSize_pos : 0 < batchSize := by decide
  windowConcurrency_pos : 0 < windowConcurrency := by decide

namespace ActivityScanner

/-- Model of `with_batch_size` (`scanner.rs`, lines 91–94). -/
def withBatchSize (s : ActivityScanner) (n : ℕ) : ActivityScanner :=
  { s with batchSize := max n 1, batchSize_pos := by omega }

/-- Model of `with_window_concurrency` (`scanner.rs`, lines 96–99). -/
def withWindowConcurrency (s : ActivityScanner) (n : ℕ) : ActivityScanner :=
  { s with windowConcurrency := max n 1, windowConcurrency_pos := by omega }

variable (s : ActivityScanner) (poolAddresses : List Address)

/-- One window of the serial path, with its fallback (`scanner.rs`, lines 136–168). -/
def scanBatch (current batchEnd : ℕ) : Finset ℕ :=
  match s.rpc.getLogs (scanFilter poolAddresses current batchEnd) with
  | some logs => logBlocks logs
  | none =>
    ((List.range' current (batchEnd + 1 - current)).filter fun b =>
      (s.rpc.getLogs (scanFilter poolAddresses b b)).any fun logs =>
        logs.any (·.blockNumber = some b)).toFinset

/-- `(current + self.batch_size - 1).min(end_block)`. -/
def batchEnd (current endBlock : ℕ) : ℕ :=
  min (wrappingSub 64 (wrappingAdd 64 current s.batchSize) 1) endBlock

/-- The loop of the serial path (`scanner.rs`, lines 127–174), with fuel. -/
def serialLoop (endBlock : ℕ) : ℕ → ℕ → Finset ℕ → Option (Finset ℕ)
  | 0, _, _ => none
  | fuel + 1, current, active =>
    if current ≤ endBlock then
      let batchEnd := s.batchEnd current endBlock
      let active := active ∪ s.scanBatch poolAddresses current batchEnd
      if batchEnd = endBlock then some active
      else serialLoop endBlock fuel (wrappingAdd 64 batchEnd 1) active
    else some active

/-- The windows of the parallel path (`scanner.rs`, lines 188–197), with fuel. -/
def windowsLoop (endBlock : ℕ) : ℕ → ℕ → List (ℕ × ℕ) → Option (List (ℕ × ℕ))
  | 0, _, _ => none
  | fuel + 1, current, windows =>
    if current ≤ endBlock then
      let batchEnd := s.batchEnd current endBlock
      let windows := windows ++ [(current, batchEnd)]
      if batchEnd = endBlock then some windows
      else windowsLoop endBlock fuel (wrappingAdd 64 batchEnd 1) windows
    else some windows

/-- Model of `scan_window_splitting` (`scanner.rs`, lines 215–248). -/
def scanWindowSplitting (fromBlock toBlock : ℕ) : Finset ℕ :=
  match s.rpc.getLogs (scanFilter poolAddresses fromBlock toBlock) with
  | some logs => logBlocks logs
  | none =>
    if _ : fromBlock < toBlock then
      let mid := fromBlock + (toBlock - fromBlock) / 2
      scanWindowSplitting fromBlock mid ∪ scanWindowSplitting (mid + 1) toBlock
    else ∅
  termination_by toBlock - fromBlock

/-- Model of `find_active_blocks_parallel` (`scanner.rs`, lines 177–211). -/
def findActiveBlocksParallel (completion : ∀ n, Rpc.Completion s.windowConcurrency n)
    (startBlock endBlock fuel : ℕ) : Option (Finset ℕ) :=
  (s.windowsLoop endBlock fuel startBlock []).map fun windows =>
    let parts := (completion windows.length).order.map fun i =>
      let window := windows.getD i (0, 0)
      s.scanWindowSplitting poolAddresses window.1 window.2
    parts.foldl (· ∪ ·) ∅

/-- Model of `find_active_blocks` (`scanner.rs`, lines 110–175). -/
def findActiveBlocks (completion : ∀ n, Rpc.Completion s.windowConcurrency n)
    (startBlock endBlock fuel : ℕ) : Option (Finset ℕ) :=
  if poolAddresses = [] then some ∅
  else if s.windowConcurrency > 1 ∧ s.rpc.unlimited then
    s.findActiveBlocksParallel poolAddresses completion startBlock endBlock fuel
  else s.serialLoop poolAddresses endBlock fuel startBlock ∅

end ActivityScanner

/-! ## What is active -/

/-- A pool has logged a DEX event in the block. -/
def Active (rpc : RpcClient) (poolAddresses : List Address) (b : ℕ) : Prop :=
  ∃ log ∈ rpc.logs b, log.address ∈ poolAddresses ∧ log.topics.head?.any allTopics.contains

instance (rpc : RpcClient) (poolAddresses : List Address) (b : ℕ) :
    Decidable (Active rpc poolAddresses b) :=
  inferInstanceAs (Decidable (∃ log ∈ rpc.logs b, _))

/-- The active blocks of a range. -/
def activeBlocks (rpc : RpcClient) (poolAddresses : List Address) (fromBlock toBlock : ℕ) :
    Finset ℕ :=
  (Finset.Icc fromBlock toBlock).filter (Active rpc poolAddresses)

variable {rpc : RpcClient} {poolAddresses : List Address} {fromBlock toBlock b : ℕ}

theorem mem_activeBlocks : b ∈ activeBlocks rpc poolAddresses fromBlock toBlock ↔
    (fromBlock ≤ b ∧ b ≤ toBlock) ∧ Active rpc poolAddresses b := by
  rw [activeBlocks, Finset.mem_filter, Finset.mem_Icc]

/-- Two ranges that follow each other. -/
theorem activeBlocks_union {mid : ℕ} (hfrom : fromBlock ≤ mid + 1) (hto : mid ≤ toBlock) :
    activeBlocks rpc poolAddresses fromBlock mid ∪
      activeBlocks rpc poolAddresses (mid + 1) toBlock =
        activeBlocks rpc poolAddresses fromBlock toBlock := by
  ext b
  rw [Finset.mem_union, mem_activeBlocks, mem_activeBlocks, mem_activeBlocks, ← or_and_right]
  refine and_congr_left fun _ => ?_
  omega

theorem activeBlocks_eq_empty (h : toBlock < fromBlock) :
    activeBlocks rpc poolAddresses fromBlock toBlock = ∅ := by
  rw [activeBlocks, Finset.Icc_eq_empty (by omega), Finset.filter_empty]

/-! ## One window -/

theorem active_iff : Active rpc poolAddresses b ↔
    ∃ log ∈ rpc.logs b, (scanFilter poolAddresses fromBlock toBlock).Selects log :=
  Iff.rfl

/-- A call that succeeds shows the active blocks of its range. -/
theorem logBlocks_getLogs {logs : List RpcLog}
    (h : rpc.getLogs (scanFilter poolAddresses fromBlock toBlock) = some logs) :
    logBlocks logs = activeBlocks rpc poolAddresses fromBlock toBlock := by
  unfold RpcClient.getLogs at h
  split_ifs at h
  obtain rfl := Option.some.inj h
  ext b
  rw [mem_activeBlocks, active_iff, logBlocks, List.mem_toFinset, List.mem_filterMap]
  constructor
  · rintro ⟨l, hl, hb⟩
    obtain ⟨c, hc, hl⟩ := List.mem_flatMap.mp hl
    obtain ⟨log, hlog, rfl⟩ := List.mem_map.mp hl
    obtain rfl := Option.some.inj hb
    rw [List.mem_range'_1] at hc
    rw [List.mem_filter, decide_eq_true_eq] at hlog
    refine ⟨?_, log, hlog⟩
    simp only [scanFilter] at hc
    omega
  · rintro ⟨hrange, log, hlog, hselects⟩
    refine ⟨⟨log, some b⟩, List.mem_flatMap.mpr ⟨b, ?_, List.mem_map.mpr ⟨log, ?_, rfl⟩⟩, rfl⟩
    · rw [List.mem_range'_1]
      simp only [scanFilter]
      omega
    · exact List.mem_filter.mpr ⟨hlog, decide_eq_true hselects⟩

/-- A call for one block succeeds. -/
theorem exists_getLogs_single (rpc : RpcClient) (poolAddresses : List Address) (b : ℕ) :
    ∃ logs, rpc.getLogs (scanFilter poolAddresses b b) = some logs := by
  unfold RpcClient.getLogs
  rw [if_neg (by simp [scanFilter, rpc.single])]
  exact ⟨_, rfl⟩

theorem any_blockNumber_iff {logs : List RpcLog} :
    logs.any (·.blockNumber = some b) ↔ b ∈ logBlocks logs := by
  simp [logBlocks]

namespace ActivityScanner

variable (s : ActivityScanner) (poolAddresses : List Address)

theorem scanBatch_eq (current batchEnd : ℕ) :
    s.scanBatch poolAddresses current batchEnd =
      activeBlocks s.rpc poolAddresses current batchEnd := by
  unfold scanBatch
  rcases hlogs : s.rpc.getLogs (scanFilter poolAddresses current batchEnd) with _ | logs
  · -- block by block
    ext b
    obtain ⟨single, hsingle⟩ := exists_getLogs_single s.rpc poolAddresses b
    rw [List.mem_toFinset, List.mem_filter, List.mem_range'_1, hsingle, Option.any_some,
      any_blockNumber_iff, logBlocks_getLogs hsingle, mem_activeBlocks, mem_activeBlocks]
    constructor
    · rintro ⟨hrange, -, hactive⟩
      exact ⟨by omega, hactive⟩
    · rintro ⟨hrange, hactive⟩
      exact ⟨by omega, ⟨le_rfl, le_rfl⟩, hactive⟩
  · exact logBlocks_getLogs hlogs

theorem scanWindowSplitting_eq (fromBlock toBlock : ℕ) :
    s.scanWindowSplitting poolAddresses fromBlock toBlock =
      activeBlocks s.rpc poolAddresses fromBlock toBlock := by
  induction fromBlock, toBlock using scanWindowSplitting.induct s poolAddresses with
  | case1 fromBlock toBlock logs hlogs =>
    rw [scanWindowSplitting, hlogs]
    exact logBlocks_getLogs hlogs
  | case2 fromBlock toBlock hlogs hlt mid ihleft ihright =>
    rw [scanWindowSplitting, hlogs]
    show (if _ : fromBlock < toBlock then _ else _) = _
    rw [dif_pos hlt]
    show _ ∪ _ = _
    rw [ihleft, ihright]
    exact activeBlocks_union (by omega) (by omega)
  | case3 fromBlock toBlock hlogs hge =>
    rw [scanWindowSplitting, hlogs]
    show (if _ : fromBlock < toBlock then _ else _) = _
    rw [dif_neg hge]
    rcases Nat.eq_or_lt_of_not_lt hge with rfl | hgt
    · obtain ⟨logs, hsingle⟩ := exists_getLogs_single s.rpc poolAddresses fromBlock
      rw [hsingle] at hlogs
      cases hlogs
    · exact (activeBlocks_eq_empty hgt).symm

/-! ## The loops -/

variable {s} {poolAddresses} {endBlock current fuel : ℕ}

/-- The window is not empty, and neither it nor the next one leaves the type. -/
theorem batchEnd_spec (hfits : endBlock + s.batchSize < 2 ^ 64) (h : current ≤ endBlock) :
    current ≤ s.batchEnd current endBlock ∧ s.batchEnd current endBlock ≤ endBlock ∧
      wrappingAdd 64 (s.batchEnd current endBlock) 1 = s.batchEnd current endBlock + 1 := by
  have hpos := s.batchSize_pos
  have hend : s.batchEnd current endBlock = min (current + s.batchSize - 1) endBlock := by
    unfold batchEnd
    rw [wrappingAdd_eq (by omega), wrappingSub_eq (by omega) (by omega)]
  rw [hend, wrappingAdd_eq (by omega)]
  omega

/-- The serial path adds the active blocks from its current one on. -/
theorem serialLoop_eq (hfits : endBlock + s.batchSize < 2 ^ 64)
    (hfuel : endBlock + 1 - current < fuel) (active : Finset ℕ) :
    s.serialLoop poolAddresses endBlock fuel current active =
      some (active ∪ activeBlocks s.rpc poolAddresses current endBlock) := by
  induction fuel generalizing current active with
  | zero => omega
  | succ fuel ih =>
    rw [serialLoop]
    by_cases hle : current ≤ endBlock
    · obtain ⟨hfrom, hto, hnext⟩ := batchEnd_spec hfits hle
      rw [if_pos hle]
      dsimp only
      rw [scanBatch_eq]
      by_cases hlast : s.batchEnd current endBlock = endBlock
      · rw [if_pos hlast, hlast]
      · rw [if_neg hlast, hnext, ih (by omega), Finset.union_assoc,
          activeBlocks_union (by omega) hto]
    · rw [if_neg hle, activeBlocks_eq_empty (by omega), Finset.union_empty]

/-- The active blocks of the windows are those from the current block on. -/
theorem windowsLoop_spec (poolAddresses : List Address) (hfits : endBlock + s.batchSize < 2 ^ 64)
    (hfuel : endBlock + 1 - current < fuel) (windows : List (ℕ × ℕ)) :
    ∃ more, s.windowsLoop endBlock fuel current windows = some (windows ++ more) ∧
      ∀ b, b ∈ activeBlocks s.rpc poolAddresses current endBlock ↔
        ∃ w ∈ more, b ∈ activeBlocks s.rpc poolAddresses w.1 w.2 := by
  induction fuel generalizing current windows with
  | zero => omega
  | succ fuel ih =>
    rw [windowsLoop]
    by_cases hle : current ≤ endBlock
    · obtain ⟨hfrom, hto, hnext⟩ := batchEnd_spec hfits hle
      rw [if_pos hle]
      dsimp only
      by_cases hlast : s.batchEnd current endBlock = endBlock
      · refine ⟨[(current, endBlock)], by rw [if_pos hlast, hlast], fun b => ?_⟩
        simp
      · have hrest : endBlock + 1 - (s.batchEnd current endBlock + 1) < fuel := by omega
        obtain ⟨more, hmore, hmem⟩ := ih hrest
          (windows ++ [(current, s.batchEnd current endBlock)])
        refine ⟨(current, s.batchEnd current endBlock) :: more, ?_, fun b => ?_⟩
        · rw [if_neg hlast, hnext, hmore, List.append_assoc]
          rfl
        · rw [← activeBlocks_union (by omega) hto, Finset.mem_union, hmem]
          simp only [List.mem_cons, exists_eq_or_imp]
    · refine ⟨[], by rw [if_neg hle, List.append_nil], fun b => ?_⟩
      rw [activeBlocks_eq_empty (by omega)]
      simp

theorem mem_foldl_union (parts : List (Finset ℕ)) (acc : Finset ℕ) (b : ℕ) :
    b ∈ parts.foldl (· ∪ ·) acc ↔ b ∈ acc ∨ ∃ part ∈ parts, b ∈ part := by
  induction parts generalizing acc with
  | nil => simp
  | cons part parts ih =>
    rw [List.foldl_cons, ih, Finset.mem_union]
    simp only [List.mem_cons, exists_eq_or_imp, or_assoc]

/-- The parallel path finds the active blocks, in whatever order its windows complete. -/
theorem findActiveBlocksParallel_eq (completion : ∀ n, Rpc.Completion s.windowConcurrency n)
    (hfits : endBlock + s.batchSize < 2 ^ 64) {startBlock : ℕ}
    (hfuel : endBlock + 1 - startBlock < fuel) :
    s.findActiveBlocksParallel poolAddresses completion startBlock endBlock fuel =
      some (activeBlocks s.rpc poolAddresses startBlock endBlock) := by
  obtain ⟨windows, hwindows, hmem⟩ := windowsLoop_spec poolAddresses hfits hfuel []
  rw [findActiveBlocksParallel, hwindows, List.nil_append, Option.map_some]
  refine congrArg some (Finset.ext fun b => ?_)
  rw [mem_foldl_union, hmem]
  simp only [Finset.notMem_empty, false_or, List.mem_map, exists_exists_and_eq_and,
    scanWindowSplitting_eq]
  constructor
  · rintro ⟨i, hi, hb⟩
    rw [(completion windows.length).perm.mem_iff, List.mem_range] at hi
    rw [List.getD_eq_getElem _ _ hi] at hb
    exact ⟨_, List.getElem_mem hi, hb⟩
  · rintro ⟨w, hw, hb⟩
    obtain ⟨i, hi, rfl⟩ := List.mem_iff_getElem.mp hw
    refine ⟨i, ?_, ?_⟩
    · rw [(completion windows.length).perm.mem_iff, List.mem_range]
      exact hi
    · rw [List.getD_eq_getElem _ _ hi]
      exact hb

/-- **Main theorem.** Where the end of the range and a batch fit the type, either path ends, and it
    returns exactly the blocks of the range in which one of the pools has logged an event. -/
theorem findActiveBlocks_eq (s : ActivityScanner) (poolAddresses : List Address)
    (completion : ∀ n, Rpc.Completion s.windowConcurrency n) (startBlock endBlock : ℕ)
    (hfits : endBlock + s.batchSize < 2 ^ 64) (fuel : ℕ)
    (hfuel : endBlock + 1 - startBlock < fuel) :
    s.findActiveBlocks poolAddresses completion startBlock endBlock fuel =
      some (activeBlocks s.rpc poolAddresses startBlock endBlock) := by
  unfold findActiveBlocks
  by_cases hnil : poolAddresses = []
  · rw [if_pos hnil, activeBlocks, Finset.filter_false_of_mem]
    rintro b - ⟨log, -, haddress, -⟩
    rw [hnil] at haddress
    cases haddress
  · rw [if_neg hnil]
    by_cases hparallel : s.windowConcurrency > 1 ∧ s.rpc.unlimited
    · rw [if_pos hparallel]
      exact findActiveBlocksParallel_eq completion hfits hfuel
    · rw [if_neg hparallel, serialLoop_eq hfits hfuel, Finset.empty_union]

/-- A node that answers only for single blocks, and of which one block has a swap. -/
def narrowNode : RpcClient where
  logs b := if b = 5 then [⟨11, [Chain.v2SwapTopic], []⟩] else []
  fails fromBlock toBlock := fromBlock != toBlock
  single b := bne_self_eq_false b
  unlimited := true

/-- Windows that complete in order. -/
def inOrder (concurrency n : ℕ) : Rpc.Completion concurrency n where
  order := List.range n
  perm := .rfl
  window p i h := by
    have hi : p = i := by
      obtain ⟨hp, hget⟩ := List.getElem?_eq_some_iff.mp h
      rwa [List.getElem_range] at hget
    omega

/-- Its scanner, with windows of four blocks of which two run at a time. -/
def narrowScanner : ActivityScanner :=
  withWindowConcurrency (withBatchSize { rpc := narrowNode } 4) 2

/-- Two windows that are halved down to the block of the swap. -/
theorem findActiveBlocks_narrowScanner :
    narrowScanner.findActiveBlocks [11] (inOrder narrowScanner.windowConcurrency) 3 9 8 =
      some {5} := by
  have hfits : 9 + narrowScanner.batchSize < 2 ^ 64 := by
    show 9 + max 4 1 < 2 ^ 64
    norm_num
  refine (findActiveBlocks_eq narrowScanner [11] (inOrder _) 3 9 hfits 8 (by norm_num)).trans ?_
  decide +kernel

end ActivityScanner

end MevScout.Pipeline
