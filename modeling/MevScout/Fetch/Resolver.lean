import MevScout.Common.Bisect
import MevScout.Common.Int
import MevScout.Common.Run

/-!
# Ranges of blocks by time

Models of `core/src/resolver.rs`: a range that the user gives in days, blocks or block numbers
becomes a range of block numbers. A number of days is looked up by bisection, in a bracket around
the block that the pace of the last 1000 blocks predicts. The answers of the node are a parameter,
and the `u64` arithmetic wraps as in a release build.

Results:
* `resolveDays_eq`: what a chain answers, and the bisection over it;
* `resolve_days_isLeast_iff`: the first block after the target time is found exactly when the
  bracket holds it;
* `halted_chain_missed`: a chain that stood still for some hours.
-/

namespace MevScout.Fetch

/-! ## Model -/

/-- Model of `RangeMode`. -/
inductive RangeMode where
  | days (days : ℕ)
  | blocks (blocks : ℕ)
  | single (block : ℕ)
  | range (a b : ℕ)
  deriving DecidableEq, Repr

/-- Model of `ResolvedRange` (`resolver.rs`, lines 9–14). -/
structure ResolvedRange where
  startBlock : ℕ
  endBlock : ℕ
  blockCount : ℕ
  mode : RangeMode
  deriving DecidableEq, Repr

/-- The two calls to the node that the resolver makes. -/
structure Node (ε : Type) where
  getBlockNumber : Except ε ℕ
  getBlockTimestamp : ℕ → Except ε ℕ

variable {ε : Type}

/-- `SAMPLE_SIZE`. -/
def sampleSize : ℕ := 1000

/-- Model of `estimate_window_blocks` (lines 119–140). -/
def estimateWindowBlocks (node : Node ε) (tip tipTs targetTs : ℕ) : Except ε ℕ := do
  let sample := tip - sampleSize
  let sampleTs ← node.getBlockTimestamp sample
  let sampleElapsed := tipTs - sampleTs
  let sampleCount := tip - sample
  let totalElapsed := tipTs - targetTs
  if sampleElapsed = 0 then pure sampleCount
  else if totalElapsed * sampleCount < 2 ^ 64 then pure (totalElapsed * sampleCount / sampleElapsed)
  else pure sampleCount

/-- Model of `binary_search_timestamp` (lines 142–159). -/
def binarySearchTimestamp (node : Node ε) (targetTs lo hi : ℕ) : Except ε ℕ :=
  bisectM (fun mid => do
    let ts ← node.getBlockTimestamp mid
    pure !decide (ts < targetTs)) lo hi

/-- Model of `resolve_days` (lines 62–97). -/
def resolveDays (node : Node ε) (days : ℕ) : Except ε ResolvedRange := do
  let tip ← node.getBlockNumber
  let tipTs ← node.getBlockTimestamp tip
  let targetTs := tipTs - wrappingMul 64 days 86400
  let estimatedBlocks ← estimateWindowBlocks node tip tipTs targetTs
  let estimatedStart := tip - estimatedBlocks
  let margin := max (estimatedBlocks / 2) 100000
  let lo := estimatedStart - margin
  let hi := min (wrappingAdd 64 estimatedStart margin) tip
  let start ← binarySearchTimestamp node targetTs lo hi
  -- the times of the two ends go into a log line
  let _ ← node.getBlockTimestamp start
  let _ ← node.getBlockTimestamp tip
  pure { startBlock := start, endBlock := tip, blockCount := wrappingAdd 64 (tip - start) 1,
         mode := .days days }

/-- Model of `resolve_blocks` (lines 99–117). -/
def resolveBlocks (node : Node ε) (blocks : ℕ) : Except ε ResolvedRange := do
  let tip ← node.getBlockNumber
  let start := if blocks > tip then 0 else wrappingAdd 64 (tip - blocks) 1
  pure { startBlock := start, endBlock := tip,
         blockCount := wrappingAdd 64 (wrappingSub 64 tip start) 1, mode := .blocks blocks }

/-- Model of `resolve` (lines 43–60). -/
def resolve (node : Node ε) (mode : RangeMode) : Except ε ResolvedRange :=
  match mode with
  | .days days => resolveDays node days
  | .blocks blocks => resolveBlocks node blocks
  | .single block => pure { startBlock := block, endBlock := block, blockCount := 1, mode }
  | .range a b =>
    pure { startBlock := a, endBlock := b, blockCount := wrappingAdd 64 (wrappingSub 64 b a) 1,
           mode }

/-! ## Chains -/

/-- A chain up to its head. -/
structure Chain where
  tip : ℕ
  ts : ℕ → ℕ
  tip_lt : tip < 2 ^ 64
  ts_lt : ∀ n ≤ tip, ts n < 2 ^ 64
  increasing : StrictMonoOn ts (Set.Iic tip)

namespace Chain

variable (chain : Chain) (days : ℕ)

/-- A node that answers for a chain. -/
def node : Node String where
  getBlockNumber := .ok chain.tip
  getBlockTimestamp n := if n ≤ chain.tip then .ok (chain.ts n) else .error "no such block"

/-- The time that lies some days before the head. -/
def targetTs : ℕ := chain.ts chain.tip - wrappingMul 64 days 86400

/-- The number of blocks that the pace of the last 1000 blocks puts into the window. -/
def paceBlocks : ℕ :=
  let count := chain.tip - (chain.tip - 1000)
  let elapsed := chain.ts chain.tip - chain.ts (chain.tip - 1000)
  let window := chain.ts chain.tip - chain.targetTs days
  if elapsed = 0 then count
  else if window * count < 2 ^ 64 then window * count / elapsed
  else count

/-- How far the bracket reaches to either side of the predicted block. -/
def margin : ℕ := max (chain.paceBlocks days / 2) 100000

/-- The lower end of the bracket. -/
def bracketLow : ℕ := chain.tip - chain.paceBlocks days - chain.margin days

/-- The upper end of the bracket. -/
def bracketHigh : ℕ :=
  min (wrappingAdd 64 (chain.tip - chain.paceBlocks days) (chain.margin days)) chain.tip

/-- The first block after the target time lies in the bracket. -/
def Bracketed : Prop :=
  (chain.bracketLow days = 0 ∨ chain.ts (chain.bracketLow days - 1) < chain.targetTs days) ∧
    chain.targetTs days ≤ chain.ts (max (chain.bracketLow days) (chain.bracketHigh days))

theorem node_getBlockTimestamp {n : ℕ} (h : n ≤ chain.tip) :
    chain.node.getBlockTimestamp n = .ok (chain.ts n) := if_pos h

theorem estimateWindowBlocks_eq :
    estimateWindowBlocks chain.node chain.tip (chain.ts chain.tip) (chain.targetTs days) =
      .ok (chain.paceBlocks days) := by
  have hsample : chain.tip - sampleSize ≤ chain.tip := Nat.sub_le _ _
  refine bind_eq_ok.mpr ⟨_, chain.node_getBlockTimestamp hsample, ?_⟩
  unfold paceBlocks sampleSize
  dsimp only
  split_ifs <;> rfl

/-- The bisection over the timestamps of the chain. -/
def start : ℕ :=
  bisect (fun n => !decide (chain.ts n < chain.targetTs days)) (chain.bracketLow days)
    (chain.bracketHigh days)

theorem bracketLow_le : chain.bracketLow days ≤ chain.tip := by
  unfold bracketLow
  omega

theorem bracketHigh_le : chain.bracketHigh days ≤ chain.tip := min_le_right _ _

theorem start_mem : chain.bracketLow days ≤ chain.start days ∧
    chain.start days ≤ max (chain.bracketLow days) (chain.bracketHigh days) := by
  unfold start
  rcases Nat.le_total (chain.bracketHigh days) (chain.bracketLow days) with h | h
  · rw [bisect_of_le h, max_eq_left h]
    exact ⟨le_rfl, le_rfl⟩
  · rw [max_eq_right h]
    exact bisect_mem h

theorem start_le : chain.start days ≤ chain.tip :=
  (chain.start_mem days).2.trans (max_le (chain.bracketLow_le days) (chain.bracketHigh_le days))

theorem resolveDays_eq : resolveDays chain.node days =
    .ok { startBlock := chain.start days, endBlock := chain.tip,
          blockCount := wrappingAdd 64 (chain.tip - chain.start days) 1, mode := .days days } := by
  have hsearch : binarySearchTimestamp chain.node (chain.targetTs days) (chain.bracketLow days)
      (chain.bracketHigh days) = .ok (chain.start days) := by
    refine bisectM_eq_ok fun x _ hx => ?_
    have hle := chain.bracketHigh_le days
    rw [chain.node_getBlockTimestamp (by omega)]
    rfl
  refine bind_eq_ok.mpr ⟨chain.tip, rfl, ?_⟩
  refine bind_eq_ok.mpr ⟨_, chain.node_getBlockTimestamp le_rfl, ?_⟩
  refine bind_eq_ok.mpr ⟨_, chain.estimateWindowBlocks_eq days, ?_⟩
  refine bind_eq_ok.mpr ⟨_, hsearch, ?_⟩
  refine bind_eq_ok.mpr ⟨_, chain.node_getBlockTimestamp (chain.start_le days), ?_⟩
  exact bind_eq_ok.mpr ⟨_, chain.node_getBlockTimestamp le_rfl, rfl⟩

/-! ## The first block after the target time -/

theorem targetTs_le : chain.targetTs days ≤ chain.ts chain.tip := Nat.sub_le _ _

/-- What the search finds in its bracket, where the bracket is one. -/
theorem start_isLeast (h : chain.targetTs days ≤
      chain.ts (max (chain.bracketLow days) (chain.bracketHigh days))) :
    IsLeast {n | n ∈ Set.Icc (chain.bracketLow days)
        (max (chain.bracketLow days) (chain.bracketHigh days)) ∧
      chain.targetTs days ≤ chain.ts n} (chain.start days) := by
  rcases Nat.le_total (chain.bracketHigh days) (chain.bracketLow days) with hle | hle
  · rw [max_eq_left hle] at h ⊢
    rw [start, bisect_of_le hle]
    exact ⟨⟨⟨le_rfl, le_rfl⟩, h⟩, fun n hn => hn.1.1⟩
  · rw [max_eq_right hle] at h ⊢
    have hmono := chain.increasing.monotoneOn
    have htip := chain.bracketHigh_le days
    have hleast := bisect_isLeast (p := fun n => !decide (chain.ts n < chain.targetTs days)) hle
      (fun x y _ hxy hy hx => by
        have hts : chain.ts x ≤ chain.ts y :=
          hmono (Set.mem_Iic.mpr (hxy.trans (hy.trans htip))) (Set.mem_Iic.mpr (hy.trans htip)) hxy
        rw [Bool.not_eq_true', decide_eq_false_iff_not, not_lt] at hx ⊢
        exact hx.trans hts)
      (by rwa [Bool.not_eq_true', decide_eq_false_iff_not, not_lt])
    simp only [Bool.not_eq_true', decide_eq_false_iff_not, not_lt] at hleast
    exact hleast

/-- **Main theorem.** A number of days resolves to the first block of the chain at or after the
    target time exactly when the bracket holds that block. -/
theorem resolve_days_isLeast_iff :
    (∃ range, resolve chain.node (.days days) = .ok range ∧
      IsLeast {n | n ≤ chain.tip ∧ chain.targetTs days ≤ chain.ts n} range.startBlock) ↔
      chain.Bracketed days := by
  have hlow := chain.bracketLow_le days
  have htip : max (chain.bracketLow days) (chain.bracketHigh days) ≤ chain.tip :=
    max_le hlow (chain.bracketHigh_le days)
  have hmono := chain.increasing.monotoneOn
  obtain ⟨hstart, hstart'⟩ := chain.start_mem days
  constructor
  · rintro ⟨range, hrange, ⟨hle, hts⟩, hleast⟩
    obtain rfl := Except.ok.inj ((chain.resolveDays_eq days).symm.trans hrange)
    constructor
    · by_contra hnot
      push Not at hnot
      have hbelow := hleast (a := chain.bracketLow days - 1) ⟨by omega, hnot.2⟩
      have hpos := hnot.1
      dsimp only at hbelow
      omega
    · exact hts.trans (hmono (Set.mem_Iic.mpr hle) (Set.mem_Iic.mpr htip) hstart')
  · rintro ⟨hbelow, habove⟩
    refine ⟨_, chain.resolveDays_eq days, ⟨chain.start_le days, ?_⟩, ?_⟩
    · exact (chain.start_isLeast days habove).1.2
    · rintro n ⟨hn, hts⟩
      show chain.start days ≤ n
      by_contra hlt
      have hge : chain.bracketLow days ≤ n := by
        rcases hbelow with h0 | hbelow
        · omega
        · by_contra hnlt
          have hle : chain.ts n ≤ chain.ts (chain.bracketLow days - 1) :=
            hmono (Set.mem_Iic.mpr hn) (Set.mem_Iic.mpr (by omega)) (by omega)
          omega
      exact hlt ((chain.start_isLeast days habove).2 ⟨⟨hge, by omega⟩, hts⟩)

end Chain

/-! ## A halted chain -/

/-- A chain with a block every second that stood still for 10000 s before its head. -/
def haltedChain : Chain where
  tip := 200000
  ts n := if n < 200000 then n else 210000
  tip_lt := by decide
  ts_lt n hn := by
    split_ifs <;> omega
  increasing := by
    intro a ha b hb hab
    have hb' : b ≤ 200000 := hb
    dsimp only
    split_ifs <;> omega

/-- Two days before the head is block 37200; the search starts above it and ends where it
    starts. -/
theorem halted_chain_missed :
    resolve haltedChain.node (.days 2) =
      .ok { startBlock := 84291, endBlock := 200000, blockCount := 115710, mode := .days 2 } ∧
    haltedChain.ts 37200 = haltedChain.targetTs 2 ∧
    ¬IsLeast {n | n ≤ haltedChain.tip ∧ haltedChain.targetTs 2 ≤ haltedChain.ts n} 84291 := by
  have htarget : haltedChain.targetTs 2 = 37200 := by decide
  have hpace : haltedChain.paceBlocks 2 = 15709 := by decide
  have hlow : haltedChain.bracketLow 2 = 84291 := by
    rw [Chain.bracketLow, Chain.margin, hpace]
    rfl
  have hts (n : ℕ) (hn : 84291 ≤ n) : haltedChain.targetTs 2 ≤ haltedChain.ts n := by
    rw [htarget]
    show 37200 ≤ if n < 200000 then n else 210000
    split_ifs <;> omega
  have hleast := haltedChain.start_isLeast 2
    (hts _ (hlow ▸ le_max_left (haltedChain.bracketLow 2) (haltedChain.bracketHigh 2)))
  have hstart : haltedChain.start 2 = 84291 := by
    apply le_antisymm
    · rw [← hlow]
      exact hleast.2 ⟨⟨le_rfl, le_max_left _ _⟩, hts _ hlow.ge⟩
    · rw [← hlow]
      exact (haltedChain.start_mem 2).1
  refine ⟨?_, htarget.symm, fun h => ?_⟩
  swap
  · have hle : (84291 : ℕ) ≤ 37200 := h.2 ⟨by decide, htarget.le⟩
    omega
  refine (haltedChain.resolveDays_eq 2).trans ?_
  rw [hstart]
  rfl

end MevScout.Fetch
