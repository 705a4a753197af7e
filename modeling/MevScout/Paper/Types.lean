import MevScout.Chain.Events
import MevScout.Common.Int

/-!
# Opportunities and ledger records

Models of `core/src/types/strategy.rs`, `core/src/types/opportunity.rs` and
`core/src/paper/types.rs`. A `u128` field is a natural number with its bound, which the
record carries; an `i128` is an integer.
-/

namespace MevScout.Paper

/-! ## Opportunities -/

/-- Model of `Strategy` (`strategy.rs`, lines 55–76). -/
inductive Strategy where
  | twoHopArb | multiHopArb | jit | backrun
  deriving DecidableEq, Repr

/-- `Strategy::to_string`. -/
def Strategy.toString : Strategy → String
  | twoHopArb => "two_hop_arb"
  | multiHopArb => "multi_hop_arb"
  | jit => "jit"
  | backrun => "backrun"

/-- The name of a variant, which `{:?}` writes. -/
def Strategy.debug : Strategy → String
  | twoHopArb => "TwoHopArb"
  | multiHopArb => "MultiHopArb"
  | jit => "Jit"
  | backrun => "Backrun"

/-- Model of `DetectionPath` (`opportunity.rs`, lines 11–18). -/
inductive DetectionPath where
  | replay | pending | logOnly
  deriving DecidableEq, Repr

/-- Model of `MevOpportunity` (`opportunity.rs`, lines 60–148): the fields that the ledger,
    the seeds and the execution session read. -/
structure MevOpportunity where
  canonicalId : Option String := none
  blockNumber : ℕ
  txIndex : ℕ
  strategy : Strategy
  poolA : Address := 0
  poolB : Address := 0
  tokenIn : Address := 0
  tokenOut : Address := 0
  inputAmount : ℕ := 0
  expectedProfit : ℕ := 0
  gasCostWei : ℕ := 0
  gasCostWei_lt : gasCostWei < 2 ^ 128 := by decide
  timestamp : ℕ := 0
  path : Option (List Address) := none
  mempoolOnly : Bool := false
  detectionPath : Option DetectionPath := none
  deriving DecidableEq

/-- An opportunity without a gas cost. -/
theorem noGas_lt : 0 < 2 ^ 128 := by norm_num

/-- The lower-case hexadecimal digits of a byte string. -/
def hexDigits (n width : ℕ) : List Char :=
  ((List.range width).map fun i => Nat.digitChar (n / 16 ^ i % 16)).reverse

/-- `{:#x}` of an address. -/
def hexAddress (a : Address) : String := "0x" ++ String.ofList (hexDigits a.toNat 40)

/-- Model of `compute_canonical_id` (`opportunity.rs`, lines 162–167). -/
def computeCanonicalId (strategy : Strategy) (poolA poolB tokenIn tokenOut : Address) : String :=
  strategy.debug ++ "|" ++ hexAddress poolA ++ "|" ++ hexAddress poolB ++ "|" ++
    hexAddress tokenIn ++ "|" ++ hexAddress tokenOut

/-! ## Ledger records -/

/-- Model of `FillSkipReason` (`paper/types.rs`, lines 7–35). -/
inductive FillSkipReason where
  | notNativeUnit | nonPositiveNet | insufficientGas | poolConflict | maxFillsPerBlock
  | simNotQuotable | simPriceConsumed | simRepayShortfall | simPathUnavailable
  | simStrategyUnsupported | execRevert | execBuildFailed | execStrategyUnsupported
  deriving DecidableEq, Repr

/-- Model of `ExecAttempt` (`paper/types.rs`, lines 59–66). -/
structure ExecAttempt where
  status : Bool
  netWei : ℤ
  gasUsed : ℕ
  gasWei : ℕ
  txHash : Option String
  fail : Option FillSkipReason
  netWei_mem : -2 ^ 127 ≤ netWei ∧ netWei < 2 ^ 127 := by decide
  gasWei_lt : gasWei < 2 ^ 128 := by decide
  deriving DecidableEq

/-- Model of `SimMode` (`paper/types.rs`, lines 145–151). -/
inductive SimMode where
  | assumed | stateSim
  deriving DecidableEq, Repr

/-- `SimMode::as_str`. -/
def SimMode.asStr : SimMode → String
  | assumed => "assumed"
  | stateSim => "state"

/-- Model of `PaperMode` (`paper/types.rs`, lines 120–135). -/
inductive PaperMode where
  | run | live | sim
  deriving DecidableEq, Repr

/-- `PaperMode::as_str`. -/
def PaperMode.asStr : PaperMode → String
  | run => "run"
  | live => "live"
  | sim => "sim"

/-- Model of `PaperFill` (`paper/types.rs`, lines 179–215). -/
structure PaperFill where
  blockNumber : ℕ
  txIndex : Option ℕ
  canonicalId : Option String
  strategy : String
  grossWei : ℕ
  gasWei : ℕ
  netWei : ℤ
  walletBefore : ℕ
  walletAfter : ℕ
  pools : List Address
  mempoolOnly : Bool
  simMode : SimMode
  simGrossWei : ℕ
  simNetWei : ℤ
  borrowedWei : ℕ
  repayOk : Bool
  stateDrift : Bool
  execMode : Option String := none
  execStatus : Option String := none
  execGasUsed : Option ℕ := none
  execNetWei : Option ℤ := none
  txHash : Option String := none
  deriving DecidableEq

/-- Model of `PaperSkip` (`paper/types.rs`, lines 231–238). -/
structure PaperSkip where
  blockNumber : ℕ
  txIndex : Option ℕ
  canonicalId : Option String
  strategy : String
  reason : FillSkipReason
  deriving DecidableEq

/-- Model of `LedgerResult` (`paper/types.rs`, lines 241–291), without the counters of the seed
    budget, which neither the ledger nor the store reads. -/
structure LedgerResult where
  startingGasWei : ℕ
  endingGasWei : ℕ
  reserveWei : ℕ
  maxDrawdownWei : ℕ
  fills : List PaperFill
  skips : List PaperSkip
  grossWei : ℕ
  gasWei : ℕ
  netProfitWei : ℤ
  bestNetWei : ℤ
  startBlock : Option ℕ
  endBlock : Option ℕ
  simMode : SimMode
  replayBlocks : ℕ := 0
  logOnlyBlocks : ℕ := 0
  execMode : String := "none"
  execOk : ℕ := 0
  execRevert : ℕ := 0
  revertGasWei : ℕ := 0
  execLossWei : ℕ := 0
  setupGasWei : ℕ := 0
  reconPass : Option ℕ := none
  reconFail : Option ℕ := none
  reconUnverifiable : Option ℕ := none
  deriving DecidableEq

/-- Model of `PaperSession` (`paper/types.rs`, lines 317–341). -/
structure PaperSession where
  sessionId : String
  chain : String
  mode : String
  linkedRunId : Option String
  startBlock : ℕ
  endBlock : ℕ
  startingGasWei : String
  endingGasWei : String
  reserveWei : String
  fills : ℕ
  skipped : ℕ
  netProfitWei : String
  maxDrawdownWei : String
  createdAt : ℕ
  simMode : Option String
  replayBlocks : Option ℕ
  logOnlyBlocks : Option ℕ
  execMode : Option String
  execOk : Option ℕ
  execRevert : Option ℕ
  revertGasWei : Option String
  execLossWei : Option String
  setupGasWei : Option String
  deriving DecidableEq

end MevScout.Paper
