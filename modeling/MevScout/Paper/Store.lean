import MevScout.Paper.Types
import MevScout.Common.Decimal
import MevScout.Common.Sql

/-!
# The tables of paper sessions

Models of `insert_paper_session`, `paper_session` and `paper_fills` (`core/src/paper/store.rs`)
over the two tables of the explorer's database. A session is written once, with a row for every
fill of its ledger. An amount is a text in decimal, an address one in hexadecimal inside a JSON
list, a `u64` an `i64` of the same bits. The writer and the readers list the columns separately, and
what a reader cannot parse takes the value of a default.

Results:
* `readFill_fillParams`, `rowToSession_sessionParams`: a row is read as it was written;
* `insertPaperSession_eq_none_iff`: a session is refused exactly when its identifier is taken;
* `insertPaperSession_readBack`: **main theorem**, what a session is read back as.
-/

namespace MevScout.Paper

open Sql Decimal

/-! ## Texts -/

/-- A character of the Unicode class `White_Space`. -/
def isWhitespace (c : Char) : Bool :=
  let n := c.toNat
  (9 ≤ n && n ≤ 13) || (0x2000 ≤ n && n ≤ 0x200a) ||
    n ∈ [0x20, 0x85, 0xa0, 0x1680, 0x2028, 0x2029, 0x202f, 0x205f, 0x3000]

/-- `str::trim`. -/
def trim (cs : List Char) : List Char :=
  ((cs.dropWhile isWhitespace).reverse.dropWhile isWhitespace).reverse

/-- `SimMode::parse` (`paper/types.rs`, lines 161–167). -/
def SimMode.parse (s : String) : Option SimMode :=
  let t := (trim s.toList).map Char.toLower
  if t = "assumed".toList then some .assumed
  else if t = "state".toList ∨ t = "state-sim".toList ∨ t = "statesim".toList then some .stateSim
  else none

/-- `str::parse::<Address>`: forty hexadecimal digits after an optional `0x`. -/
def parseAddress (s : String) : Option Address :=
  let digits := if s.toList.take 2 = ['0', 'x'] then s.toList.drop 2 else s.toList
  if digits.length = 40 then (ofHexDigits 0 digits).map (BitVec.ofNat 160) else none

/-- `serde_json`, for a list of strings. -/
structure StringsJson where
  toText : List String → String
  fromStr : String → Option (List String)
  fromStr_toText : ∀ l, fromStr (toText l) = some l

theorem parse_asStr (m : SimMode) : SimMode.parse m.asStr = some m := by
  cases m <;> decide

theorem parseAddress_hexAddress (a : Address) : parseAddress (hexAddress a) = some a := by
  have hlist : (hexAddress a).toList = '0' :: 'x' :: hexDigits a.toNat 40 := by
    unfold hexAddress
    rw [String.toList_append, String.toList_ofList]
    simp
  have hlength : (hexDigits a.toNat 40).length = 40 := by simp [hexDigits]
  have hvalue : ofHexDigits 0 (hexDigits a.toNat 40) = some a.toNat := by
    unfold hexDigits
    rw [ofHexDigits_digits, mul_zero, zero_add, Nat.mod_eq_of_lt]
    exact lt_of_lt_of_eq a.isLt (by norm_num)
  unfold parseAddress
  simp only [hlist, List.take_succ_cons, List.take_zero, List.drop_succ_cons, List.drop_zero,
    if_true]
  rw [if_pos hlength, hvalue, Option.map_some, BitVec.ofNat_toNat, BitVec.setWidth_eq]

/-- Every address of a list is read back. -/
theorem filterMap_parseAddress (pools : List Address) :
    (pools.map hexAddress).filterMap parseAddress = pools := by
  rw [List.filterMap_map]
  have hparse : parseAddress ∘ hexAddress = some := by
    funext a
    rw [Function.comp_apply, parseAddress_hexAddress]
  rw [hparse, List.filterMap_some]

/-! ## Columns -/

/-- The columns of `paper_sessions` (lines 11–35). -/
inductive SessionColumn where
  | sessionId | chain | mode | linkedRunId | startBlock | endBlock | startingGasWei | endingGasWei
  | reserveWei | fills | skipped | netProfitWei | maxDrawdownWei | createdAt | simMode
  | replayBlocks | logOnlyBlocks | execMode | execOk | execRevert | revertGasWei | execLossWei
  | setupGasWei
  deriving DecidableEq

/-- The columns of `paper_fills` (lines 41–67), without the row identifier. -/
inductive FillColumn where
  | sessionId | blockNumber | txIndex | canonicalId | strategy | grossWei | gasWei | netWei
  | walletBefore | walletAfter | poolsJson | mempoolOnly | simMode | simGrossWei | simNetWei
  | borrowedWei | repayOk | stateDrift | execMode | execStatus | execGasUsed | execNetWei | txHash
  deriving DecidableEq

/-- `CREATE TABLE paper_sessions`. -/
def paperSessionsTable : Schema SessionColumn where
  notNull := [.chain, .mode, .startBlock, .endBlock, .startingGasWei, .endingGasWei, .reserveWei,
    .fills, .skipped, .netProfitWei, .maxDrawdownWei, .createdAt]
  primaryKey := [.sessionId]

/-- `CREATE TABLE paper_fills`. -/
def paperFillsTable : Schema FillColumn where
  notNull := [.sessionId, .blockNumber, .strategy, .grossWei, .gasWei, .netWei, .walletBefore,
    .walletAfter, .mempoolOnly, .simMode, .stateDrift]
  primaryKey := []

/-- The columns that `insert_paper_session` writes (lines 89–96). -/
def sessionInsert : List SessionColumn :=
  [.sessionId, .chain, .mode, .linkedRunId, .startBlock, .endBlock, .startingGasWei, .endingGasWei,
    .reserveWei, .fills, .skipped, .netProfitWei, .maxDrawdownWei, .createdAt, .simMode,
    .replayBlocks, .logOnlyBlocks, .execMode, .execOk, .execRevert, .revertGasWei, .execLossWei,
    .setupGasWei]

/-- The columns that `paper_session` reads (lines 177–182). -/
def sessionSelect : List SessionColumn :=
  [.sessionId, .chain, .mode, .linkedRunId, .startBlock, .endBlock, .startingGasWei, .endingGasWei,
    .reserveWei, .fills, .skipped, .netProfitWei, .maxDrawdownWei, .createdAt, .simMode,
    .replayBlocks, .logOnlyBlocks, .execMode, .execOk, .execRevert, .revertGasWei, .execLossWei,
    .setupGasWei]

/-- The columns that `insert_paper_fill` writes (lines 137–143). -/
def fillInsert : List FillColumn :=
  [.sessionId, .blockNumber, .txIndex, .canonicalId, .strategy, .grossWei, .gasWei, .netWei,
    .walletBefore, .walletAfter, .poolsJson, .mempoolOnly, .simMode, .simGrossWei, .simNetWei,
    .borrowedWei, .repayOk, .stateDrift, .execMode, .execStatus, .execGasUsed, .execNetWei, .txHash]

/-- The columns that `paper_fills` reads (lines 253–257). -/
def fillSelect : List FillColumn :=
  [.blockNumber, .txIndex, .canonicalId, .strategy, .grossWei, .gasWei, .netWei, .walletBefore,
    .walletAfter, .poolsJson, .mempoolOnly, .simMode, .simGrossWei, .simNetWei, .borrowedWei,
    .repayOk, .stateDrift, .execMode, .execStatus, .execGasUsed, .execNetWei, .txHash]

/-! ## Rows -/

/-- The parameter of a `u64` or a `usize`. -/
def u64Param (n : ℕ) : Value := .integer (asSigned 64 n)

/-- The parameter of a flag. -/
def flagParam (b : Bool) : Value := .integer (if b then 1 else 0)

/-- The parameters of `insert_paper_session` (lines 97–121), where `created` is the time. -/
def sessionParams (created : ℕ) (sessionId chain : String) (mode : PaperMode)
    (linkedRunId : Option String) (ledger : LedgerResult) : List Value :=
  let start := ledger.startBlock.getD 0
  let «end» := ledger.endBlock.getD start
  [.text sessionId, .text chain, .text mode.asStr, ofOption .text linkedRunId, u64Param start,
    u64Param «end», .text (toString ledger.startingGasWei), .text (toString ledger.endingGasWei),
    .text (toString ledger.reserveWei), u64Param ledger.fills.length,
    u64Param ledger.skips.length, .text (toString ledger.netProfitWei),
    .text (toString ledger.maxDrawdownWei), u64Param created, .text ledger.simMode.asStr,
    u64Param ledger.replayBlocks, u64Param ledger.logOnlyBlocks, .text ledger.execMode,
    u64Param ledger.execOk, u64Param ledger.execRevert, .text (toString ledger.revertGasWei),
    .text (toString ledger.execLossWei), .text (toString ledger.setupGasWei)]

/-- The parameters of `insert_paper_fill` (lines 144–168). -/
def fillParams (json : StringsJson) (sessionId : String) (f : PaperFill) : List Value :=
  [.text sessionId, u64Param f.blockNumber, ofOption u64Param f.txIndex,
    ofOption .text f.canonicalId, .text f.strategy, .text (toString f.grossWei),
    .text (toString f.gasWei), .text (toString f.netWei), .text (toString f.walletBefore),
    .text (toString f.walletAfter), .text (json.toText (f.pools.map hexAddress)),
    flagParam f.mempoolOnly, .text f.simMode.asStr, .text (toString f.simGrossWei),
    .text (toString f.simNetWei), .text (toString f.borrowedWei), flagParam f.repayOk,
    flagParam f.stateDrift, ofOption .text f.execMode, ofOption .text f.execStatus,
    ofOption u64Param f.execGasUsed, ofOption (fun v => .text (toString v)) f.execNetWei,
    ofOption .text f.txHash]

/-- Model of `row_to_session` (lines 327–353). -/
def rowToSession (r : List Value) : Option PaperSession := do
  return {
    sessionId := ← get r 0 toText
    chain := ← get r 1 toText
    mode := ← get r 2 toText
    linkedRunId := ← get r 3 (optional toText)
    startBlock := asUnsigned 64 (← get r 4 toInteger)
    endBlock := asUnsigned 64 (← get r 5 toInteger)
    startingGasWei := ← get r 6 toText
    endingGasWei := ← get r 7 toText
    reserveWei := ← get r 8 toText
    fills := asUnsigned 64 (← get r 9 toInteger)
    skipped := asUnsigned 64 (← get r 10 toInteger)
    netProfitWei := ← get r 11 toText
    maxDrawdownWei := ← get r 12 toText
    createdAt := asUnsigned 64 (← get r 13 toInteger)
    simMode := ← get r 14 (optional toText)
    replayBlocks := (← get r 15 (optional toInteger)).map (asUnsigned 64)
    logOnlyBlocks := (← get r 16 (optional toInteger)).map (asUnsigned 64)
    execMode := ← get r 17 (optional toText)
    execOk := (← get r 18 (optional toInteger)).map (asUnsigned 64)
    execRevert := (← get r 19 (optional toInteger)).map (asUnsigned 64)
    revertGasWei := ← get r 20 (optional toText)
    execLossWei := ← get r 21 (optional toText)
    setupGasWei := ← get r 22 (optional toText) }

/-- How `paper_fills` reads a row (lines 263–318). -/
def readFill (json : StringsJson) (r : List Value) : Option PaperFill := do
  let poolsJson ← get r 9 (optional toText)
  let pools := poolsJson.elim [] fun s => ((json.fromStr s).getD []).filterMap parseAddress
  let netWei := (parseSigned 128 (← get r 6 toText)).getD 0
  let grossWei := (parseUnsigned 128 (← get r 4 toText)).getD 0
  let simMode := ((← get r 11 (optional toText)).bind SimMode.parse).getD .assumed
  let simGrossWei := ((← get r 12 (optional toText)).bind (parseUnsigned 128)).getD grossWei
  let simNetWei := ((← get r 13 (optional toText)).bind (parseSigned 128)).getD netWei
  let borrowedWei := ((← get r 14 (optional toText)).bind (parseUnsigned 128)).getD 0
  let repayOk := (← get r 15 (optional toInteger)).getD 1 != 0
  let stateDrift := (← get r 16 (optional toInteger)).getD 0 != 0
  return {
    blockNumber := asUnsigned 64 (← get r 0 toInteger)
    txIndex := (← get r 1 (optional toInteger)).map (asUnsigned 64)
    canonicalId := ← get r 2 (optional toText)
    strategy := ← get r 3 toText
    grossWei
    gasWei := (parseUnsigned 128 (← get r 5 toText)).getD 0
    netWei
    walletBefore := (parseUnsigned 128 (← get r 7 toText)).getD 0
    walletAfter := (parseUnsigned 128 (← get r 8 toText)).getD 0
    pools
    mempoolOnly := (← get r 10 toInteger) != 0
    simMode, simGrossWei, simNetWei, borrowedWei, repayOk, stateDrift
    execMode := ← get r 17 (optional toText)
    execStatus := ← get r 18 (optional toText)
    execGasUsed := (← get r 19 (optional toInteger)).map (asUnsigned 64)
    execNetWei := (← get r 20 (optional toText)).bind (parseSigned 128)
    txHash := ← get r 21 (optional toText) }

/-! ## What is read of a row -/

/-- The fields of a fill fit their types. -/
structure PaperFill.InRange (f : PaperFill) : Prop where
  blockNumber_lt : f.blockNumber < 2 ^ 64
  txIndex_lt : ∀ v ∈ f.txIndex, v < 2 ^ 64
  grossWei_lt : f.grossWei < 2 ^ 128
  gasWei_lt : f.gasWei < 2 ^ 128
  netWei_mem : -2 ^ 127 ≤ f.netWei ∧ f.netWei < 2 ^ 127
  walletBefore_lt : f.walletBefore < 2 ^ 128
  walletAfter_lt : f.walletAfter < 2 ^ 128
  simGrossWei_lt : f.simGrossWei < 2 ^ 128
  simNetWei_mem : -2 ^ 127 ≤ f.simNetWei ∧ f.simNetWei < 2 ^ 127
  borrowedWei_lt : f.borrowedWei < 2 ^ 128
  execGasUsed_lt : ∀ v ∈ f.execGasUsed, v < 2 ^ 64
  execNetWei_mem : ∀ v ∈ f.execNetWei, -2 ^ 127 ≤ v ∧ v < 2 ^ 127

@[simp] theorem toInteger_u64Param (n : ℕ) : toInteger (u64Param n) = some (asSigned 64 n) := rfl

@[simp] theorem optional_u64Param (n : ℕ) :
    optional toInteger (u64Param n) = some (some (asSigned 64 n)) := rfl

@[simp] theorem optional_ofOption_u64Param (o : Option ℕ) :
    optional toInteger (ofOption u64Param o) = some (o.map (asSigned 64)) :=
  optional_ofOption optional_u64Param o

@[simp] theorem optional_ofOption_toString (o : Option ℤ) :
    optional toText (ofOption (fun v => .text (toString v)) o) = some (o.map toString) :=
  optional_ofOption (fun v => optional_text (toString v)) o

@[simp] theorem toInteger_flagParam (b : Bool) :
    toInteger (flagParam b) = some (if b then 1 else 0) := rfl

@[simp] theorem optional_flagParam (b : Bool) :
    optional toInteger (flagParam b) = some (some (if b then 1 else 0)) := rfl

/-- A flag is set when its column is not 0. -/
@[simp] theorem flag_ne_zero (b : Bool) : ((if b then 1 else 0 : ℤ) != 0) = b := by
  cases b <;> rfl

theorem map_asUnsigned_asSigned {o : Option ℕ} (h : ∀ v ∈ o, v < 2 ^ 64) :
    (o.map (asSigned 64)).map (asUnsigned 64) = o := by
  cases o with
  | none => rfl
  | some v => exact congrArg some (asUnsigned_asSigned le_rfl (h v rfl))

theorem bind_parseSigned_toString {o : Option ℤ} (h : ∀ v ∈ o, -2 ^ 127 ≤ v ∧ v < 2 ^ 127) :
    (o.map toString).bind (parseSigned 128) = o := by
  cases o with
  | none => rfl
  | some v => exact parseSigned_toString (h v rfl).1 (h v rfl).2

theorem readFill_fillParams (json : StringsJson) (sessionId : String) {f : PaperFill}
    (h : f.InRange) : readFill json (fillParams json sessionId f).tail = some f := by
  have hnet : parseSigned 128 (toString f.netWei) = some f.netWei :=
    parseSigned_toString h.netWei_mem.1 h.netWei_mem.2
  have hsimNet : parseSigned 128 (toString f.simNetWei) = some f.simNetWei :=
    parseSigned_toString h.simNetWei_mem.1 h.simNetWei_mem.2
  simp [-Nat.toString_eq_repr, -Int.toString_eq_repr, -List.filterMap_map, readFill, fillParams,
    json.fromStr_toText, filterMap_parseAddress, hnet, hsimNet,
    parseUnsigned_toString h.grossWei_lt, parseUnsigned_toString h.gasWei_lt,
    parseUnsigned_toString h.walletBefore_lt, parseUnsigned_toString h.walletAfter_lt,
    parseUnsigned_toString h.simGrossWei_lt, parseUnsigned_toString h.borrowedWei_lt,
    asUnsigned_asSigned le_rfl h.blockNumber_lt, map_asUnsigned_asSigned h.txIndex_lt,
    map_asUnsigned_asSigned h.execGasUsed_lt, bind_parseSigned_toString h.execNetWei_mem,
    parse_asStr]

/-- The fields of a ledger that its rows record fit their types. -/
structure LedgerResult.InRange (ledger : LedgerResult) : Prop where
  fills : ∀ f ∈ ledger.fills, f.InRange
  fills_lt : ledger.fills.length < 2 ^ 64
  skips_lt : ledger.skips.length < 2 ^ 64
  startBlock_lt : ∀ v ∈ ledger.startBlock, v < 2 ^ 64
  endBlock_lt : ∀ v ∈ ledger.endBlock, v < 2 ^ 64
  startingGasWei_lt : ledger.startingGasWei < 2 ^ 128
  endingGasWei_lt : ledger.endingGasWei < 2 ^ 128
  reserveWei_lt : ledger.reserveWei < 2 ^ 128
  netProfitWei_mem : -2 ^ 127 ≤ ledger.netProfitWei ∧ ledger.netProfitWei < 2 ^ 127
  maxDrawdownWei_lt : ledger.maxDrawdownWei < 2 ^ 128
  replayBlocks_lt : ledger.replayBlocks < 2 ^ 64
  logOnlyBlocks_lt : ledger.logOnlyBlocks < 2 ^ 64
  execOk_lt : ledger.execOk < 2 ^ 64
  execRevert_lt : ledger.execRevert < 2 ^ 64
  revertGasWei_lt : ledger.revertGasWei < 2 ^ 128
  execLossWei_lt : ledger.execLossWei < 2 ^ 128
  setupGasWei_lt : ledger.setupGasWei < 2 ^ 128

/-- What the row of a session says of it: the totals, counts and modes are those of the
    ledger. -/
structure PaperSession.Records (s : PaperSession) (created : ℕ) (sessionId chain : String)
    (mode : PaperMode) (linkedRunId : Option String) (ledger : LedgerResult) : Prop where
  sessionId : s.sessionId = sessionId
  chain : s.chain = chain
  mode : s.mode = mode.asStr
  linkedRunId : s.linkedRunId = linkedRunId
  startBlock : s.startBlock = ledger.startBlock.getD 0
  endBlock : s.endBlock = ledger.endBlock.getD (ledger.startBlock.getD 0)
  startingGasWei : parseUnsigned 128 s.startingGasWei = some ledger.startingGasWei
  endingGasWei : parseUnsigned 128 s.endingGasWei = some ledger.endingGasWei
  reserveWei : parseUnsigned 128 s.reserveWei = some ledger.reserveWei
  fills : s.fills = ledger.fills.length
  skipped : s.skipped = ledger.skips.length
  netProfitWei : parseSigned 128 s.netProfitWei = some ledger.netProfitWei
  maxDrawdownWei : parseUnsigned 128 s.maxDrawdownWei = some ledger.maxDrawdownWei
  createdAt : s.createdAt = created
  simMode : s.simMode.bind SimMode.parse = some ledger.simMode
  replayBlocks : s.replayBlocks = some ledger.replayBlocks
  logOnlyBlocks : s.logOnlyBlocks = some ledger.logOnlyBlocks
  execMode : s.execMode = some ledger.execMode
  execOk : s.execOk = some ledger.execOk
  execRevert : s.execRevert = some ledger.execRevert
  revertGasWei : s.revertGasWei.bind (parseUnsigned 128) = some ledger.revertGasWei
  execLossWei : s.execLossWei.bind (parseUnsigned 128) = some ledger.execLossWei
  setupGasWei : s.setupGasWei.bind (parseUnsigned 128) = some ledger.setupGasWei

section Session

variable {created : ℕ} {ledger : LedgerResult} (sessionId chain : String) (mode : PaperMode)
  (linkedRunId : Option String)

/-- The session that a ledger is read back as. -/
def PaperSession.ofLedger (created : ℕ) (ledger : LedgerResult) : PaperSession where
  sessionId := sessionId
  chain := chain
  mode := mode.asStr
  linkedRunId := linkedRunId
  startBlock := ledger.startBlock.getD 0
  endBlock := ledger.endBlock.getD (ledger.startBlock.getD 0)
  startingGasWei := toString ledger.startingGasWei
  endingGasWei := toString ledger.endingGasWei
  reserveWei := toString ledger.reserveWei
  fills := ledger.fills.length
  skipped := ledger.skips.length
  netProfitWei := toString ledger.netProfitWei
  maxDrawdownWei := toString ledger.maxDrawdownWei
  createdAt := created
  simMode := some ledger.simMode.asStr
  replayBlocks := some ledger.replayBlocks
  logOnlyBlocks := some ledger.logOnlyBlocks
  execMode := some ledger.execMode
  execOk := some ledger.execOk
  execRevert := some ledger.execRevert
  revertGasWei := some (toString ledger.revertGasWei)
  execLossWei := some (toString ledger.execLossWei)
  setupGasWei := some (toString ledger.setupGasWei)

theorem ofLedger_records (h : ledger.InRange) :
    (PaperSession.ofLedger sessionId chain mode linkedRunId created ledger).Records created
      sessionId chain mode linkedRunId ledger where
  sessionId := rfl
  chain := rfl
  mode := rfl
  linkedRunId := rfl
  startBlock := rfl
  endBlock := rfl
  startingGasWei := parseUnsigned_toString h.startingGasWei_lt
  endingGasWei := parseUnsigned_toString h.endingGasWei_lt
  reserveWei := parseUnsigned_toString h.reserveWei_lt
  fills := rfl
  skipped := rfl
  netProfitWei := parseSigned_toString h.netProfitWei_mem.1 h.netProfitWei_mem.2
  maxDrawdownWei := parseUnsigned_toString h.maxDrawdownWei_lt
  createdAt := rfl
  simMode := parse_asStr ledger.simMode
  replayBlocks := rfl
  logOnlyBlocks := rfl
  execMode := rfl
  execOk := rfl
  execRevert := rfl
  revertGasWei := parseUnsigned_toString h.revertGasWei_lt
  execLossWei := parseUnsigned_toString h.execLossWei_lt
  setupGasWei := parseUnsigned_toString h.setupGasWei_lt

theorem rowToSession_sessionParams (hcreated : created < 2 ^ 64) (h : ledger.InRange) :
    rowToSession (sessionParams created sessionId chain mode linkedRunId ledger) =
      some (PaperSession.ofLedger sessionId chain mode linkedRunId created ledger) := by
  have hstart : ledger.startBlock.getD 0 < 2 ^ 64 := by
    cases hblock : ledger.startBlock with
    | none => norm_num
    | some v => exact h.startBlock_lt v hblock
  have hend : ledger.endBlock.getD (ledger.startBlock.getD 0) < 2 ^ 64 := by
    cases hblock : ledger.endBlock with
    | none => exact hstart
    | some v => exact h.endBlock_lt v hblock
  simp [rowToSession, sessionParams, PaperSession.ofLedger, asUnsigned_asSigned le_rfl hstart,
    asUnsigned_asSigned le_rfl hend, asUnsigned_asSigned le_rfl h.fills_lt,
    asUnsigned_asSigned le_rfl h.skips_lt, asUnsigned_asSigned le_rfl hcreated,
    asUnsigned_asSigned le_rfl h.replayBlocks_lt, asUnsigned_asSigned le_rfl h.logOnlyBlocks_lt,
    asUnsigned_asSigned le_rfl h.execOk_lt, asUnsigned_asSigned le_rfl h.execRevert_lt]

end Session

/-! ## The tables -/

/-- The rows of `paper_sessions` and `paper_fills`, in the order of insertion. -/
structure PaperTables where
  sessions : List (Row SessionColumn)
  fills : List (Row FillColumn)

/-- Model of `insert_paper_session` (lines 76–127). The rows are not written in one transaction, but
    only the row of the session can be refused. -/
def PaperTables.insertPaperSession (json : StringsJson) (db : PaperTables) (created : ℕ)
    (sessionId chain : String) (mode : PaperMode) (linkedRunId : Option String)
    (ledger : LedgerResult) : Option PaperTables := do
  let sessions ← paperSessionsTable.insert sessionInsert db.sessions
    (sessionParams created sessionId chain mode linkedRunId ledger)
  let fills ← ledger.fills.foldlM (fun rows f =>
    paperFillsTable.insert fillInsert rows (fillParams json sessionId f)) db.fills
  return { sessions, fills }

/-- Model of `paper_session` (lines 174–191): no session, or the one with the identifier. -/
def PaperTables.paperSession (db : PaperTables) (sessionId : String) :
    Option (Option PaperSession) :=
  ((db.sessions.find? fun row => row .sessionId = .text sessionId).map
    fun row => rowToSession (select sessionSelect row)).elim (some none) (Option.map some)

/-- Model of `paper_fills` (lines 250–324). -/
def PaperTables.paperFills (json : StringsJson) (db : PaperTables) (sessionId : String) :
    Option (List PaperFill) :=
  ((db.fills.filter fun row => row .sessionId = .text sessionId).insertionSort
    fun a b => orderBy [.blockNumber, .txIndex] a b).mapM
      fun row => readFill json (select fillSelect row)

/-- The database: every fill is one of a session. -/
structure PaperDb extends PaperTables where
  linked : ∀ row ∈ fills, ∃ session ∈ sessions, session .sessionId = row .sessionId

/-- The row of a session. -/
def sessionRow (created : ℕ) (sessionId chain : String) (mode : PaperMode)
    (linkedRunId : Option String) (ledger : LedgerResult) : Row SessionColumn :=
  values sessionInsert (sessionParams created sessionId chain mode linkedRunId ledger)

/-- The row of a fill. -/
def fillRow (json : StringsJson) (sessionId : String) (f : PaperFill) : Row FillColumn :=
  values fillInsert (fillParams json sessionId f)

section Tables

variable {json : StringsJson} {created : ℕ} {sessionId chain : String} {mode : PaperMode}
  {linkedRunId : Option String} {ledger : LedgerResult} {db : PaperTables}

@[simp] theorem sessionRow_sessionId :
    sessionRow created sessionId chain mode linkedRunId ledger .sessionId = .text sessionId := rfl

@[simp] theorem fillRow_sessionId (f : PaperFill) :
    fillRow json sessionId f .sessionId = .text sessionId := rfl

theorem sessionRow_ne_null :
    ∀ c ∈ paperSessionsTable.notNull,
      sessionRow created sessionId chain mode linkedRunId ledger c ≠ .null := by
  intro c hc hnull
  fin_cases hc <;> cases hnull

theorem fillRow_ne_null (f : PaperFill) :
    ∀ c ∈ paperFillsTable.notNull, fillRow json sessionId f c ≠ .null := by
  intro c hc hnull
  fin_cases hc <;> cases hnull

theorem insertPaperSession_eq (hfresh : ∀ row ∈ db.sessions, row .sessionId ≠ .text sessionId) :
    db.insertPaperSession json created sessionId chain mode linkedRunId ledger =
      some ⟨db.sessions ++ [sessionRow created sessionId chain mode linkedRunId ledger],
        db.fills ++ ledger.fills.map (fillRow json sessionId)⟩ := by
  have hsession : paperSessionsTable.insert sessionInsert db.sessions
      (sessionParams created sessionId chain mode linkedRunId ledger) =
        some (db.sessions ++ [sessionRow created sessionId chain mode linkedRunId ledger]) := by
    refine insert_eq_some sessionRow_ne_null fun c hc row hrow => ?_
    obtain rfl : c = .sessionId := List.mem_singleton.mp hc
    exact hfresh row hrow
  unfold PaperTables.insertPaperSession
  rw [hsession, insertAll_eq rfl fillRow_ne_null]
  rfl

/-- A session is refused exactly when its identifier is taken. -/
theorem insertPaperSession_eq_none_iff :
    db.insertPaperSession json created sessionId chain mode linkedRunId ledger = none ↔
      ∃ row ∈ db.sessions, row .sessionId = .text sessionId := by
  constructor
  · intro h
    by_contra hfresh
    push Not at hfresh
    rw [insertPaperSession_eq hfresh] at h
    cases h
  · rintro ⟨row, hrow, hid⟩
    have hrefused : paperSessionsTable.insert sessionInsert db.sessions
        (sessionParams created sessionId chain mode linkedRunId ledger) = none := by
      unfold Schema.insert
      refine if_neg fun h => h.2 .sessionId (List.mem_singleton_self _) ?_ row hrow hid
      intro hnull
      cases hnull
    unfold PaperTables.insertPaperSession
    rw [hrefused]
    rfl

/-- Every fill stays one of a session. -/
theorem insertPaperSession_linked {db' : PaperTables}
    (hlinked : ∀ row ∈ db.fills, ∃ session ∈ db.sessions, session .sessionId = row .sessionId)
    (h : db.insertPaperSession json created sessionId chain mode linkedRunId ledger = some db') :
    ∀ row ∈ db'.fills, ∃ session ∈ db'.sessions, session .sessionId = row .sessionId := by
  have hfresh : ∀ row ∈ db.sessions, row .sessionId ≠ .text sessionId := by
    intro row hrow hid
    rw [insertPaperSession_eq_none_iff.mpr ⟨row, hrow, hid⟩] at h
    cases h
  rw [insertPaperSession_eq hfresh] at h
  obtain rfl := (Option.some.inj h).symm
  intro row hrow
  rcases List.mem_append.mp hrow with hold | hnew
  · obtain ⟨session, hsession, hid⟩ := hlinked row hold
    exact ⟨session, List.mem_append_left _ hsession, hid⟩
  · obtain ⟨f, -, rfl⟩ := List.mem_map.mp hnew
    exact ⟨_, List.mem_append_right _ (List.mem_singleton_self _), rfl⟩

end Tables

/-! ## A session and its fills -/

/-- `insert_paper_session` on the database. -/
def PaperDb.insertPaperSession (json : StringsJson) (db : PaperDb) (created : ℕ)
    (sessionId chain : String) (mode : PaperMode) (linkedRunId : Option String)
    (ledger : LedgerResult) : Option PaperDb :=
  (db.toPaperTables.insertPaperSession json created sessionId chain mode linkedRunId ledger).pmap
    (fun tables linked => ⟨tables, linked⟩)
    fun _ h => insertPaperSession_linked db.linked h

section ReadBack

variable {json : StringsJson} {created : ℕ} {sessionId chain : String} {mode : PaperMode}
  {linkedRunId : Option String} {ledger : LedgerResult}

/-- The fills of a new session are those that its ledger brings, as no fill is there before its
    session. -/
theorem filter_fills_append (db : PaperDb) (fills : List PaperFill)
    (hfresh : ∀ row ∈ db.sessions, row .sessionId ≠ .text sessionId) :
    ((db.fills ++ fills.map (fillRow json sessionId)).filter fun row =>
      row .sessionId = .text sessionId) = fills.map (fillRow json sessionId) := by
  have hold : (db.fills.filter fun row => row .sessionId = .text sessionId) = [] := by
    rw [List.filter_eq_nil_iff]
    intro row hrow hid
    obtain ⟨session, hsession, hlinked⟩ := db.linked row hrow
    exact hfresh session hsession (hlinked.trans (of_decide_eq_true hid))
  rw [List.filter_append, hold, List.nil_append, List.filter_eq_self]
  intro row hrow
  obtain ⟨f, -, rfl⟩ := List.mem_map.mp hrow
  exact decide_eq_true (fillRow_sessionId f)

theorem find?_append_sessionRow {rows : List (Row SessionColumn)}
    (hfresh : ∀ row ∈ rows, row .sessionId ≠ .text sessionId) :
    ((rows ++ [sessionRow created sessionId chain mode linkedRunId ledger]).find? fun row =>
        row .sessionId = .text sessionId) =
      some (sessionRow created sessionId chain mode linkedRunId ledger) := by
  have hold : (rows.find? fun row => row .sessionId = .text sessionId) = none := by
    rw [List.find?_eq_none]
    intro row hrow hid
    exact hfresh row hrow (of_decide_eq_true hid)
  rw [List.find?_append, hold, Option.none_or, List.find?_cons_of_pos]
  exact decide_eq_true sessionRow_sessionId

theorem readFill_fillRow {f : PaperFill} (h : f.InRange) :
    readFill json (select fillSelect (fillRow json sessionId f)) = some f := by
  have hselect : select fillSelect (fillRow json sessionId f) =
      (fillParams json sessionId f).tail :=
    select_tail_values (show fillInsert.Nodup by decide) rfl
  rw [hselect, readFill_fillParams json sessionId h]

theorem rowToSession_sessionRow (hcreated : created < 2 ^ 64) (h : ledger.InRange) :
    rowToSession (select sessionSelect
        (sessionRow created sessionId chain mode linkedRunId ledger)) =
      some (PaperSession.ofLedger sessionId chain mode linkedRunId created ledger) := by
  have hselect : select sessionSelect
      (sessionRow created sessionId chain mode linkedRunId ledger) =
        sessionParams created sessionId chain mode linkedRunId ledger :=
    select_values (show sessionInsert.Nodup by decide) rfl
  rw [hselect, rowToSession_sessionParams sessionId chain mode linkedRunId hcreated h]

/-- **Main theorem.** A session whose identifier is new is written, its fills are read back in some
    order with every field as it was, and its row records the totals, counts and modes of the
    ledger. -/
theorem insertPaperSession_readBack (json : StringsJson) (db : PaperDb) (created : ℕ)
    (sessionId chain : String) (mode : PaperMode) (linkedRunId : Option String)
    (ledger : LedgerResult) (hcreated : created < 2 ^ 64)
    (hfresh : ∀ row ∈ db.sessions, row .sessionId ≠ .text sessionId) (h : ledger.InRange) :
    ∃ db', db.insertPaperSession json created sessionId chain mode linkedRunId ledger = some db' ∧
      (∃ fills, db'.paperFills json sessionId = some fills ∧ fills.Perm ledger.fills) ∧
      ∃ s, db'.paperSession sessionId = some (some s) ∧
        s.Records created sessionId chain mode linkedRunId ledger := by
  have hinsert : db.toPaperTables.insertPaperSession json created sessionId chain mode linkedRunId
      ledger = some ⟨db.sessions ++ [sessionRow created sessionId chain mode linkedRunId ledger],
        db.fills ++ ledger.fills.map (fillRow json sessionId)⟩ := insertPaperSession_eq hfresh
  refine ⟨⟨⟨_, _⟩, insertPaperSession_linked db.linked hinsert⟩, ?_, ?_, ?_⟩
  · unfold PaperDb.insertPaperSession
    simp only [hinsert]
    rfl
  · have hperm := List.perm_insertionSort (fun a b => orderBy [.blockNumber, .txIndex] a b)
      (ledger.fills.map (fillRow json sessionId))
    unfold PaperTables.paperFills
    rw [filter_fills_append db ledger.fills hfresh]
    exact mapM_perm hperm fun f hf => readFill_fillRow (h.fills f hf)
  · refine ⟨_, ?_, ofLedger_records sessionId chain mode linkedRunId h⟩
    unfold PaperTables.paperSession
    rw [find?_append_sessionRow hfresh, Option.map_some, Option.elim_some,
      rowToSession_sessionRow hcreated h, Option.map_some]

end ReadBack

/-! ## A ledger at the ends of the ranges -/

/-- The quotation mark. -/
def quote : Char := Char.ofNat 34

/-- The backslash. -/
def backslash : Char := Char.ofNat 92

/-- A character inside quotation marks. -/
def escaped (c : Char) : List Char := if c = quote ∨ c = backslash then [backslash, c] else [c]

/-- A string in quotation marks. -/
def quoted (s : String) : List Char := quote :: s.toList.flatMap escaped ++ [quote]

/-- The strings of a list, separated by commas. -/
def quotedItems : List String → List Char
  | [] => []
  | [s] => quoted s
  | s :: t :: l => quoted s ++ ',' :: quotedItems (t :: l)

/-- The strings of a text. The first argument is what was read of the string that is open, the
    second says that a backslash precedes. -/
def scanStrings : Option (List Char) → Bool → List Char → List String
  | _, _, [] => []
  | none, _, c :: cs => scanStrings (if c = quote then some [] else none) false cs
  | some text, true, c :: cs => scanStrings (some (text ++ [c])) false cs
  | some text, false, c :: cs =>
    if c = quote then String.ofList text :: scanStrings none false cs
    else if c = backslash then scanStrings (some text) true cs
    else scanStrings (some (text ++ [c])) false cs

/-- A list of strings without white space. -/
def jsonText (l : List String) : String := String.ofList ('[' :: quotedItems l ++ [']'])

theorem scanStrings_body (text cs rest : List Char) :
    scanStrings (some text) false (cs.flatMap escaped ++ quote :: rest) =
      String.ofList (text ++ cs) :: scanStrings none false rest := by
  induction cs generalizing text with
  | nil => simp [scanStrings]
  | cons c cs ih =>
    by_cases hescape : c = quote ∨ c = backslash
    · have hne : backslash ≠ quote := by decide
      simp [escaped, hescape, scanStrings, hne, ih]
    · have hplain := not_or.mp hescape
      simp [escaped, scanStrings, hplain.1, hplain.2, ih]

theorem scanStrings_quotedItems (l : List String) :
    scanStrings none false (quotedItems l ++ [']']) = l := by
  have hcomma : ',' ≠ quote := by decide
  induction l using quotedItems.induct with
  | case1 => simp [quotedItems, scanStrings]
  | case2 s => simp [quotedItems, quoted, scanStrings, scanStrings_body]
  | case3 s t l ih => simp [quotedItems, quoted, scanStrings, scanStrings_body, hcomma, ih]

/-- JSON as `serde_json` writes it, for strings without control characters. -/
def plainJson : StringsJson where
  toText := jsonText
  fromStr s :=
    let l := scanStrings none false s.toList
    if jsonText l = s then some l else none
  fromStr_toText l := by
    have hopen : '[' ≠ quote := by decide
    have hscan : scanStrings none false (jsonText l).toList = l := by
      unfold jsonText
      rw [String.toList_ofList]
      simp [scanStrings, hopen, scanStrings_quotedItems]
    simp [hscan]

/-- A fill whose amounts are at the ends of their types. -/
def extremeFill : PaperFill where
  blockNumber := 2 ^ 63 - 1
  txIndex := none
  canonicalId := none
  strategy := Strategy.twoHopArb.toString
  grossWei := 2 ^ 128 - 1
  gasWei := 2 ^ 128 - 1
  netWei := -2 ^ 127
  walletBefore := 0
  walletAfter := 2 ^ 128 - 1
  pools := [0, 2 ^ 160 - 1]
  mempoolOnly := true
  simMode := .stateSim
  simGrossWei := 0
  simNetWei := 2 ^ 127 - 1
  borrowedWei := 2 ^ 128 - 1
  repayOk := false
  stateDrift := true
  execMode := some "revm"
  execGasUsed := some (2 ^ 63 - 1)
  execNetWei := some (-2 ^ 127)

/-- A ledger with two of them. -/
def extremeLedger : LedgerResult where
  startingGasWei := 2 ^ 128 - 1
  endingGasWei := 0
  reserveWei := 0
  maxDrawdownWei := 2 ^ 128 - 1
  fills := [extremeFill, { extremeFill with blockNumber := 7, txIndex := some 3, pools := [] }]
  skips := []
  grossWei := 0
  gasWei := 0
  netProfitWei := -2 ^ 127
  bestNetWei := 0
  startBlock := some 7
  endBlock := none
  simMode := .stateSim

theorem extremeFill_inRange : extremeFill.InRange := by
  constructor <;> simp [extremeFill]

theorem extremeLedger_inRange : extremeLedger.InRange := by
  constructor
  case fills =>
    intro f hf
    rcases List.mem_cons.mp hf with rfl | hf
    · exact extremeFill_inRange
    · obtain rfl := List.mem_singleton.mp hf
      constructor <;> simp [extremeFill]
  all_goals simp [extremeLedger]

/-- It is read back from a database that was empty. -/
theorem extremeLedger_readBack :
    ∃ db', (PaperDb.mk ⟨[], []⟩ (by simp)).insertPaperSession plainJson 1700000000 "paper_1"
        "polygon" .live (some "run_1") extremeLedger = some db' ∧
      (∃ fills, db'.paperFills plainJson "paper_1" = some fills ∧
        fills.Perm extremeLedger.fills) ∧
      ∃ s, db'.paperSession "paper_1" = some (some s) ∧
        s.Records 1700000000 "paper_1" "polygon" .live (some "run_1") extremeLedger :=
  insertPaperSession_readBack plainJson _ 1700000000 "paper_1" "polygon" .live (some "run_1")
    extremeLedger (by norm_num) (by simp) extremeLedger_inRange

end MevScout.Paper
