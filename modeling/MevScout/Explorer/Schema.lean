import MevScout.Common.Recovery
import MevScout.Common.Run

/-!
# Schema migrations of the explorer database

Model of `core/src/explorer/store/schema.rs`. Opening a database runs the migrations above its
`user_version`. A statement of SQLite is atomic, and so is a transaction, so that an open that is
interrupted leaves the database between two of them. Types, primary keys and `NOT NULL` of columns
are not modelled, and neither are tables and indexes that the migrations do not name.

Results:
* `migrate_resumes`: opens that are interrupted do not change what the next one makes of a database;
* `migrate_migrate`: a database that is opened is opened again without a change;
* `opens_again_iff`: but a first open that is interrupted after some of its statements leaves a
  database that the next one refuses;
* `torn_refused`: and all others refuse it as well;
* `rows_kept`: no open loses or changes a row, whether it ends or not, but for what it means to.
-/

namespace MevScout.Explorer.Schema

open Recovery

/-! ## The database -/

/-- The tables. -/
inductive TableName where
  | blocks | txs | transfers | swaps | mevOps | labels | prices | syncState | blocksClassified
  | jitOpenPositions | oracleAnswers | reserveRates | opportunities | rejectedCandidates
  | paperSessions | paperFills
  deriving DecidableEq, Repr

/-- The indexes. -/
inductive IndexName where
  | txsBlock | transfersToken | swapsPool | mevOpsBlock | mevOpsSender | mevOpsKindTs
  | mevOpsCanonical | mevOpsNatural | mevOpsTs | mevOpsTxHash | jitOpenPositionsPrune
  | oracleAnswersFeed | reserveRatesReserve | opportunitiesBlock | opportunitiesCanonical
  | opportunitiesRun | pricesTokenHour | rejectedBlock | rejectedReason
  | rejectedCandidatesNatural | paperSessionsCreated | paperSessionsChain | paperFillsSession
  deriving DecidableEq, Repr

/-- A value of a column. A `REAL` is kept as its bits. -/
inductive Cell where
  | null
  | integer (x : ℤ)
  | real (bits : ℕ)
  | text (s : String)
  deriving DecidableEq

/-- A row. A column that its table does not have is `null`. -/
structure Row where
  rowid : ℤ
  cells : String → Cell

/-- A table. The order of its columns does not matter, `kinds` is what the `CHECK` of its column
    `kind` allows, and the rows stand in the order of their ids. -/
structure TableState where
  columns : List String
  kinds : List String
  rows : List Row

/-- A column of an index, with what `COALESCE` puts for `NULL`. -/
structure KeyColumn where
  name : String
  coalesce : Option Cell := none

/-- The definition of an index. -/
structure IndexDef where
  table : TableName
  key : List KeyColumn
  unique : Bool := false

/-- An explorer database. -/
structure Db where
  userVersion : ℤ
  tables : TableName → Option TableState
  indexes : List IndexName

/-- Why a migration fails. -/
inductive DbError where
  | noSuchTable (table : TableName)
  | noSuchColumn (table : TableName)
  | constraint (table : TableName)
  | duplicateNaturalKeys
  deriving DecidableEq

/-- Model of `REJECTED_NATURAL_KEY` (lines 648–652). -/
def rejectedNaturalKey : List KeyColumn :=
  [⟨"chain", some (.text "")⟩, ⟨"block_number", none⟩, ⟨"tx_index", some (.integer (-1))⟩,
    ⟨"strategy", none⟩, ⟨"pool_a", some (.text "")⟩, ⟨"pool_b", some (.text "")⟩,
    ⟨"path", some (.text "")⟩, ⟨"token_in", some (.text "")⟩, ⟨"token_out", some (.text "")⟩,
    ⟨"input_amount", some (.text "")⟩, ⟨"expected_profit", some (.text "")⟩,
    ⟨"reject_reason", none⟩, ⟨"detail", some (.text "")⟩]

/-- The columns of an index that is not unique. -/
def plain (table : TableName) (columns : List String) : IndexDef :=
  { table, key := columns.map fun c => ⟨c, none⟩ }

/-- The indexes as the migrations create them. -/
def IndexName.spec : IndexName → IndexDef
  | txsBlock => plain .txs ["block_number"]
  | transfersToken => plain .transfers ["token", "block_number"]
  | swapsPool => plain .swaps ["pool", "block_number"]
  | mevOpsBlock => plain .mevOps ["block_number"]
  | mevOpsSender => plain .mevOps ["eoa", "block_number"]
  | mevOpsKindTs => plain .mevOps ["kind", "ts"]
  | mevOpsCanonical => plain .mevOps ["canonical_id"]
  | mevOpsNatural => { plain .mevOps ["canonical_id", "tx_hash"] with unique := true }
  | mevOpsTs => plain .mevOps ["ts"]
  | mevOpsTxHash => plain .mevOps ["tx_hash"]
  | jitOpenPositionsPrune => plain .jitOpenPositions ["opened_block"]
  | oracleAnswersFeed => plain .oracleAnswers ["feed", "block_number"]
  | reserveRatesReserve => plain .reserveRates ["reserve", "block_number"]
  | opportunitiesBlock => plain .opportunities ["chain", "block_number"]
  | opportunitiesCanonical => plain .opportunities ["canonical_id"]
  | opportunitiesRun => plain .opportunities ["run_id"]
  | pricesTokenHour => plain .prices ["token", "hour"]
  | rejectedBlock => plain .rejectedCandidates ["chain", "block_number"]
  | rejectedReason => plain .rejectedCandidates ["reject_reason"]
  | rejectedCandidatesNatural =>
    { table := .rejectedCandidates, key := rejectedNaturalKey, unique := true }
  | paperSessionsCreated => plain .paperSessions ["created_at"]
  | paperSessionsChain => plain .paperSessions ["chain", "created_at"]
  | paperFillsSession => plain .paperFills ["session_id", "block_number"]

/-- The group of a row. Two `NULL`s are of one group. -/
def IndexDef.groupOf (i : IndexDef) (row : Row) : List Cell :=
  i.key.map fun c =>
    if row.cells c.name = .null then c.coalesce.getD .null else row.cells c.name

/-- The key of a row. A row with a `NULL` in its key is like no other row. -/
def IndexDef.keyOf (i : IndexDef) (row : Row) : Option (List Cell) :=
  if .null ∈ i.groupOf row then none else some (i.groupOf row)

/-- The rows have keys of their own. -/
def IndexDef.Distinct (i : IndexDef) (rows : List Row) : Prop := (rows.filterMap i.keyOf).Nodup

instance instDecidableDistinct (i : IndexDef) (rows : List Row) : Decidable (i.Distinct rows) :=
  inferInstanceAs (Decidable (List.Nodup _))

/-! ## Statements -/

/-- A rebuild of `mev_ops` in a transaction: the columns that are copied, those that are computed
    from the old row, and the indexes that are created again. Columns and kinds decide whether it is
    `needed`. -/
structure Rebuild where
  needed : List String → List String → Bool
  copied : List String
  computed : List (String × (Row → Cell))
  kinds : List String
  indexes : List IndexName
  /-- Columns that are added do not ask for another rebuild. -/
  needed_mono : ∀ {columns columns' kinds : List String}, columns ⊆ columns' →
    needed columns kinds = false → needed columns' kinds = false
  settled : needed (copied ++ computed.map Prod.fst) kinds = false

/-- The columns that a rebuild leaves. -/
def Rebuild.columns (r : Rebuild) : List String := r.copied ++ r.computed.map Prod.fst

/-- The row that a rebuild makes of a row. -/
def Rebuild.row (r : Rebuild) (row : Row) : Row :=
  { row with cells := fun c =>
      match r.computed.find? (·.1 = c) with
      | some f => f.2 row
      | none => if c ∈ r.copied then row.cells c else .null }

/-- The table that a rebuild leaves. -/
def Rebuild.table (r : Rebuild) (t : TableState) : TableState :=
  { columns := r.columns, kinds := r.kinds, rows := t.rows.map r.row }

/-- The `CHECK`s of the table that a rebuild makes. -/
def Rebuild.Checks (r : Rebuild) (row : Row) : Prop :=
  (∃ k ∈ r.kinds, row.cells "kind" = .text k) ∧
    ∃ c ∈ ["exact", "inferred"], row.cells "confidence" = .text c

instance instDecidableChecks (r : Rebuild) (row : Row) : Decidable (r.Checks row) :=
  inferInstanceAs (Decidable (_ ∧ _))

/-- What is executed at once. -/
inductive Stmt where
  /-- `CREATE TABLE IF NOT EXISTS`. -/
  | createTable (table : TableName) (columns kinds : List String)
  /-- `CREATE INDEX IF NOT EXISTS`, with or without a look at the table before. -/
  | createIndex (index : IndexName) (ifTable : Bool)
  /-- Model of `ensure_column` (lines 751–778). -/
  | ensureColumn (table : TableName) (column : String) (default : Cell)
  /-- The rows that `ensure_rejected_candidates_unique` deletes when the index cannot be created
      (lines 667–677). -/
  | collapse (index : IndexName)
  /-- The refusal of `migrate_v7_mev_ops_natural_key` (lines 126–154). -/
  | refuseDuplicates
  | rebuild (r : Rebuild)

namespace Db

/-- Replaces a table. -/
def setTable (db : Db) (table : TableName) (t : TableState) : Db :=
  { db with tables := Function.update db.tables table (some t) }

/-- `CREATE INDEX` on a table that is there. -/
def createIndex (db : Db) (index : IndexName) : Except DbError Db :=
  if index ∈ db.indexes then .ok db
  else
    match db.tables index.spec.table with
    | none => .error (.noSuchTable index.spec.table)
    | some t =>
      if ¬ ∀ c ∈ index.spec.key, c.name ∈ t.columns then .error (.noSuchColumn index.spec.table)
      else if index.spec.unique ∧ ¬index.spec.Distinct t.rows then
        .error (.constraint index.spec.table)
      else .ok { db with indexes := index :: db.indexes }

end Db

/-- The rows without those whose group an earlier row has. -/
def collapseRows (i : IndexDef) : List Row → List Row
  | [] => []
  | row :: rows => row :: (collapseRows i rows).filter fun r => i.groupOf r ≠ i.groupOf row

/-- The columns that `migrate_v7_mev_ops_natural_key` groups by. -/
def naturalColumns : List String := ["canonical_id", "tx_hash"]

/-- What it groups a row by. Two `NULL`s are of one group. -/
def naturalPair (row : Row) : Cell × Cell := (row.cells "canonical_id", row.cells "tx_hash")

/-- What a statement does to a database. -/
def Stmt.run (db : Db) : Stmt → Except DbError Db
  | .createTable table columns kinds =>
    if (db.tables table).isSome then .ok db else .ok (db.setTable table ⟨columns, kinds, []⟩)
  | .createIndex index ifTable =>
    if ifTable ∧ db.tables index.spec.table = none then .ok db else db.createIndex index
  | .ensureColumn table column default =>
    match db.tables table with
    | none => .ok db
    | some t =>
      if column ∈ t.columns then .ok db
      else
        .ok (db.setTable table { t with
          columns := t.columns ++ [column]
          rows := t.rows.map fun row =>
            { row with cells := Function.update row.cells column default } })
  | .collapse index =>
    match db.tables index.spec.table with
    | none => .ok db
    | some t =>
      if index ∈ db.indexes ∨ (¬ ∀ c ∈ index.spec.key, c.name ∈ t.columns) ∨
          index.spec.Distinct t.rows then .ok db
      else .ok (db.setTable index.spec.table { t with rows := collapseRows index.spec t.rows })
  | .refuseDuplicates =>
    match db.tables .mevOps with
    | none => .ok db
    | some t =>
      if ¬ naturalColumns ⊆ t.columns then .error (.noSuchColumn .mevOps)
      else if (t.rows.map naturalPair).Nodup then .ok db
      else .error .duplicateNaturalKeys
  | .rebuild r =>
    match db.tables .mevOps with
    | none => .ok db
    | some t =>
      if r.needed t.columns t.kinds = false then .ok db
      else if ¬ r.copied ⊆ t.columns then .error (.noSuchColumn .mevOps)
      else if ¬ ∀ row ∈ t.rows, r.Checks (r.row row) then .error (.constraint .mevOps)
      else
        r.indexes.foldlM Db.createIndex
          { db.setTable .mevOps (r.table t) with
            indexes := db.indexes.filter fun i => i.spec.table ≠ .mevOps }

/-! ## Migrations -/

/-- The columns of `mev_ops` that both rebuilds copy, without its kind. -/
def opsColumns : List String :=
  ["id", "block_number", "tx_index", "tx_hash", "ts", "eoa", "contract", "confidence",
    "canonical_id", "profit_token", "profit_amount", "profit_usd", "volume_usd", "gas_cost_usd",
    "flashloan_fee_usd", "net_profit_usd", "route_json", "victim_hashes", "details_json",
    "detector", "created_at", "excluded_from_net"]

/-- What `mev_ops` can hold with `skim`, and then with `utility` for `unknown`. -/
def skimKinds : List String :=
  ["arb_atomic", "sandwich", "frontrun", "backrun", "liquidation", "jit", "jit_arb", "skim",
    "unknown"]

def utilityKinds : List String :=
  ["arb_atomic", "sandwich", "frontrun", "backrun", "liquidation", "jit", "jit_arb", "skim",
    "utility"]

/-- The indexes of `mev_ops` in the first schema. -/
def opsIndexes : List IndexName := [.mevOpsBlock, .mevOpsSender, .mevOpsKindTs, .mevOpsCanonical]

/-- Model of `ensure_mev_ops_kind_skim` (lines 690–749). -/
def skimRebuild : Rebuild :=
  { needed := fun _ kinds => "skim" ∉ kinds
    copied := "kind" :: opsColumns
    computed := []
    kinds := skimKinds
    indexes := opsIndexes
    needed_mono := fun _ h => h
    settled := by decide }

/-- `instr(COALESCE(details_json, ''), tag) > 0`. -/
def mentions (row : Row) (tag : String) : Bool :=
  match row.cells "details_json" with
  | .text s => tag.toList <:+: s.toList
  | _ => false

/-- The tags that `migrate_v8_utility_subkind` looks for. -/
def subkind (row : Row) : Cell :=
  if mentions row "\"keeper\"" then .text "keeper"
  else if mentions row "\"bundler\"" then .text "bundler"
  else if mentions row "\"claim_and_sell\"" then .text "claim_and_sell"
  else .null

/-- `CASE WHEN kind = 'unknown' THEN 'utility' ELSE kind END`. -/
def utilityKind (row : Row) : Cell :=
  if row.cells "kind" = .text "unknown" then .text "utility" else row.cells "kind"

/-- Model of `migrate_v8_utility_subkind` (lines 168–241). -/
def utilityRebuild : Rebuild :=
  { needed := fun columns kinds => ¬("utility" ∈ kinds ∧ "subkind" ∈ columns)
    copied := opsColumns
    computed := [("kind", utilityKind), ("subkind", subkind)]
    kinds := utilityKinds
    indexes := opsIndexes ++ [.mevOpsNatural]
    needed_mono := fun hsub h => by
      simp only [not_and, decide_eq_false_iff_not, Classical.not_imp, not_not] at h ⊢
      exact ⟨h.1, hsub h.2⟩
    settled := by decide }

/-- Model of `SCHEMA_V1` (lines 329–585). -/
def migrateV1 : List Stmt :=
  [.createTable .blocks ["block_number", "block_hash", "ts", "producer", "base_fee_gwei",
      "tx_count", "indexed_at"] [],
    .createTable .txs ["hash", "block_number", "tx_index", "from", "to", "success", "gas_used",
      "effective_gas_price_gwei", "priority_fee_gwei", "value_native"] [],
    .createIndex .txsBlock false,
    .createTable .transfers ["block_number", "tx_index", "log_index", "token", "from", "to",
      "amount", "is_native"] [],
    .createIndex .transfersToken false,
    .createTable .swaps ["block_number", "tx_index", "log_index", "pool", "dex", "amm", "token_in",
      "token_out", "amount_in", "amount_out", "sender"] [],
    .createIndex .swapsPool false,
    .createTable .mevOps ("kind" :: opsColumns) skimKinds,
    .createIndex .mevOpsBlock false,
    .createIndex .mevOpsSender false,
    .createIndex .mevOpsKindTs false,
    .createIndex .mevOpsCanonical false,
    .createTable .labels ["address", "kind", "name", "entity", "evidence", "first_seen_block",
      "source"] [],
    .createTable .prices ["hour", "token", "usd", "source"] [],
    .createTable .syncState ["chain_id", "head", "indexed_to", "last_indexed_at"] [],
    .createTable .blocksClassified ["block", "classified_at", "event_count"] [],
    .createTable .jitOpenPositions ["pool", "owner", "tick_lower", "tick_upper", "opened_block",
      "liquidity"] [],
    .createIndex .jitOpenPositionsPrune false,
    .createTable .oracleAnswers ["block_number", "feed", "answer"] [],
    .createIndex .oracleAnswersFeed false,
    .createTable .reserveRates ["block_number", "reserve", "variable_borrow_rate"] [],
    .createIndex .reserveRatesReserve false,
    .createTable .opportunities ["run_id", "chain", "block_number", "tx_index", "strategy",
      "pool_a", "pool_b", "token_in", "token_out", "input_amount", "expected_profit",
      "gas_cost_wei", "path", "timestamp", "mempool_only", "confidence", "sender", "tx_hash",
      "detection_path", "canonical_id"] [],
    .createIndex .opportunitiesBlock false,
    .createIndex .opportunitiesCanonical false,
    .createTable .rejectedCandidates ["run_id", "chain", "block_number", "tx_index", "strategy",
      "pool_a", "pool_b", "path", "token_in", "token_out", "input_amount", "expected_profit",
      "expected_profit_usd", "gas_cost_wei", "reject_reason", "detail", "created_at"] [],
    .createIndex .rejectedBlock false,
    .createIndex .rejectedReason false,
    .createTable .paperSessions ["session_id", "chain", "mode", "linked_run_id", "start_block",
      "end_block", "starting_gas_wei", "ending_gas_wei", "reserve_wei", "fills", "skipped",
      "net_profit_wei", "max_drawdown_wei", "created_at", "sim_mode", "replay_blocks",
      "log_only_blocks"] [],
    .createIndex .paperSessionsCreated false,
    .createIndex .paperSessionsChain false,
    .createTable .paperFills ["id", "session_id", "block_number", "tx_index", "canonical_id",
      "strategy", "gross_wei", "gas_wei", "net_wei", "wallet_before", "wallet_after", "pools_json",
      "mempool_only", "sim_mode", "sim_gross_wei", "sim_net_wei", "borrowed_wei", "repay_ok",
      "state_drift"] [],
    .createIndex .paperFillsSession false]

/-- Model of `migrate_v10_pricing_flags` (lines 266–277). -/
def pricingFlags : List String :=
  ["usd_approximate", "native_unpriced", "multi_asset_pricing", "pricing_clamped",
    "flash_fee_unpriced"]

/-- Model of `MIGRATIONS` (lines 27–41), with the bodies of lines 87–322. -/
def migrations : List (List Stmt) :=
  [migrateV1,
    [.ensureColumn .mevOps "flashloan_fee_usd" .null],
    [.ensureColumn .mevOps "volume_usd" .null],
    [.ensureColumn .mevOps "excluded_from_net" (.integer 0)],
    [.rebuild skimRebuild],
    [.collapse .rejectedCandidatesNatural, .createIndex .rejectedCandidatesNatural false],
    [.refuseDuplicates, .createIndex .mevOpsNatural true],
    [.rebuild utilityRebuild],
    [.createIndex .mevOpsTs true, .createIndex .mevOpsTxHash true,
      .createIndex .opportunitiesRun true, .createIndex .pricesTokenHour true],
    pricingFlags.map fun c => .ensureColumn .mevOps c (.integer 0),
    [.ensureColumn .paperSessions "sim_mode" .null,
      .ensureColumn .paperSessions "replay_blocks" .null,
      .ensureColumn .paperSessions "log_only_blocks" .null,
      .ensureColumn .paperFills "sim_mode" (.text "assumed"),
      .ensureColumn .paperFills "sim_gross_wei" .null,
      .ensureColumn .paperFills "sim_net_wei" .null,
      .ensureColumn .paperFills "borrowed_wei" .null,
      .ensureColumn .paperFills "repay_ok" .null,
      .ensureColumn .paperFills "state_drift" (.integer 0)],
    [.ensureColumn .paperSessions "exec_mode" .null,
      .ensureColumn .paperSessions "exec_ok" .null,
      .ensureColumn .paperSessions "exec_revert" .null,
      .ensureColumn .paperFills "exec_mode" .null,
      .ensureColumn .paperFills "exec_status" .null,
      .ensureColumn .paperFills "exec_gas_used" .null,
      .ensureColumn .paperFills "exec_net_wei" .null,
      .ensureColumn .paperFills "tx_hash" .null],
    [.ensureColumn .paperSessions "revert_gas_wei" .null,
      .ensureColumn .paperSessions "exec_loss_wei" .null,
      .ensureColumn .paperSessions "setup_gas_wei" .null]]

/-- Model of `SCHEMA_HEAD` (line 47). -/
def schemaHead : ℤ := migrations.length

/-- What an open makes one after another. -/
inductive Entry where
  | stmt (target : ℤ) (s : Stmt)
  /-- `PRAGMA user_version`. -/
  | stamp (target : ℤ)

/-- The loop of `migrate` (lines 67–74): each migration ends with its version. -/
def entries : List Entry :=
  migrations.zipIdx.flatMap fun (stmts, i) =>
    stmts.map (.stmt (i + 1 : ℕ)) ++ [.stamp (i + 1 : ℕ)]

/-- A database from before the list (lines 63–66). -/
def stampLegacy (db : Db) : Db :=
  if db.userVersion = 0 ∧ db.tables .blocksClassified ≠ none then { db with userVersion := 1 }
  else db

/-! ## Statements that are done -/

/-- A statement has nothing more to do. -/
def Stmt.Done (db : Db) : Stmt → Prop
  | .createTable table _ _ => db.tables table ≠ none
  | .createIndex index ifTable =>
    index ∈ db.indexes ∨ ifTable = true ∧ db.tables index.spec.table = none
  | .ensureColumn table column _ => ∀ t, db.tables table = some t → column ∈ t.columns
  | .collapse index =>
    index ∈ db.indexes ∨ ∀ t, db.tables index.spec.table = some t →
      (∀ c ∈ index.spec.key, c.name ∈ t.columns) → index.spec.Distinct t.rows
  | .refuseDuplicates => ∀ t, db.tables .mevOps = some t →
      naturalColumns ⊆ t.columns ∧ (t.rows.map naturalPair).Nodup
  | .rebuild r => ∀ t, db.tables .mevOps = some t → r.needed t.columns t.kinds = false

variable {db db' : Db}

@[simp] theorem setTable_self (db : Db) (table : TableName) (t : TableState) :
    (db.setTable table t).tables table = some t := by
  simp [Db.setTable]

theorem setTable_of_ne (db : Db) {table table' : TableName} (t : TableState)
    (h : table' ≠ table) : (db.setTable table t).tables table' = db.tables table' := by
  simp [Db.setTable, h]

@[simp] theorem setTable_userVersion (db : Db) (table : TableName) (t : TableState) :
    (db.setTable table t).userVersion = db.userVersion := rfl

/-- An index that is created is the only change. -/
theorem createIndex_ok {index : IndexName} (h : db.createIndex index = .ok db') :
    index ∈ db'.indexes ∧ db.indexes ⊆ db'.indexes ∧ db'.tables = db.tables ∧
      db'.userVersion = db.userVersion := by
  unfold Db.createIndex at h
  split_ifs at h with hindex
  · cases h
    exact ⟨hindex, List.Subset.refl _, rfl, rfl⟩
  · split at h
    · cases h
    · split_ifs at h
      cases h
      exact ⟨List.mem_cons_self .., List.subset_cons_self .., rfl, rfl⟩

theorem createIndexes_ok {indexes : List IndexName}
    (h : indexes.foldlM Db.createIndex db = .ok db') :
    indexes ⊆ db'.indexes ∧ db.indexes ⊆ db'.indexes ∧ db'.tables = db.tables ∧
      db'.userVersion = db.userVersion := by
  induction indexes generalizing db with
  | nil =>
    cases h
    exact ⟨List.nil_subset _, List.Subset.refl _, rfl, rfl⟩
  | cons index indexes ih =>
    obtain ⟨db₁, hindex, hrest⟩ := bind_eq_ok.mp h
    obtain ⟨hmem, hsub, htables, hversion⟩ := createIndex_ok hindex
    obtain ⟨hmem', hsub', htables', hversion'⟩ := ih hrest
    exact ⟨List.cons_subset.mpr ⟨hsub' hmem, hmem'⟩, List.Subset.trans hsub hsub',
      htables'.trans htables, hversion'.trans hversion⟩

theorem nodup_collapseRows (i : IndexDef) (rows : List Row) :
    ((collapseRows i rows).map i.groupOf).Nodup := by
  induction rows with
  | nil => exact List.nodup_nil
  | cons row rows ih =>
    refine List.nodup_cons.mpr ⟨fun hmem => ?_, ih.sublist (List.filter_sublist.map _)⟩
    obtain ⟨r, hr, hgroup⟩ := List.mem_map.mp hmem
    exact of_decide_eq_true (List.mem_filter.mp hr).2 hgroup

theorem filterMap_keyOf (i : IndexDef) (rows : List Row) :
    rows.filterMap i.keyOf = (rows.map i.groupOf).filter fun g => .null ∉ g := by
  induction rows with
  | nil => rfl
  | cons row rows ih =>
    by_cases hnull : Cell.null ∈ i.groupOf row <;>
      simp [IndexDef.keyOf, hnull, ih]

/-- Rows that are left after those with the group of an earlier one are gone. -/
theorem distinct_collapseRows (i : IndexDef) (rows : List Row) :
    i.Distinct (collapseRows i rows) := by
  unfold IndexDef.Distinct
  rw [filterMap_keyOf]
  exact (nodup_collapseRows i rows).filter _

/-- Each group keeps a row. -/
theorem exists_collapseRows (i : IndexDef) {rows : List Row} {row : Row} (h : row ∈ rows) :
    ∃ row' ∈ collapseRows i rows, i.groupOf row' = i.groupOf row := by
  induction rows with
  | nil => cases h
  | cons first rows ih =>
    rcases List.mem_cons.mp h with rfl | h
    · exact ⟨row, List.mem_cons_self .., rfl⟩
    · obtain ⟨row', hmem, hgroup⟩ := ih h
      by_cases hfirst : i.groupOf row' = i.groupOf first
      · exact ⟨first, List.mem_cons_self .., hfirst.symm.trans hgroup⟩
      · refine ⟨row', List.mem_cons_of_mem _ (List.mem_filter.mpr ⟨hmem, ?_⟩), hgroup⟩
        exact decide_eq_true hfirst

theorem collapseRows_sublist (i : IndexDef) (rows : List Row) :
    (collapseRows i rows).Sublist rows := by
  induction rows with
  | nil => exact .slnil
  | cons row rows ih => exact (List.filter_sublist.trans ih).cons_cons _

/-- What a statement that is executed changes. -/
theorem run_cases {s : Stmt} (h : s.run db = .ok db') : db' = db ∨
    match s with
    | .createTable table columns kinds =>
      db.tables table = none ∧ db' = db.setTable table ⟨columns, kinds, []⟩
    | .createIndex index _ => db.createIndex index = .ok db'
    | .ensureColumn table column default => ∃ t, db.tables table = some t ∧ column ∉ t.columns ∧
      db' = db.setTable table { t with
        columns := t.columns ++ [column]
        rows := t.rows.map fun row =>
          { row with cells := Function.update row.cells column default } }
    | .collapse index => ∃ t, db.tables index.spec.table = some t ∧
      db' = db.setTable index.spec.table { t with rows := collapseRows index.spec t.rows }
    | .refuseDuplicates => False
    | .rebuild r => ∃ t, db.tables .mevOps = some t ∧ r.copied ⊆ t.columns ∧
      r.indexes.foldlM Db.createIndex
        { db.setTable .mevOps (r.table t) with
          indexes := db.indexes.filter fun i => i.spec.table ≠ .mevOps } = .ok db' := by
  cases s with
  | createTable table columns kinds =>
    simp only [Stmt.run] at h
    split_ifs at h with htable
    · exact .inl (Except.ok.inj h).symm
    · exact .inr ⟨by simpa using htable, (Except.ok.inj h).symm⟩
  | createIndex index ifTable =>
    simp only [Stmt.run] at h
    split_ifs at h
    · exact .inl (Except.ok.inj h).symm
    · exact .inr h
  | ensureColumn table column default =>
    simp only [Stmt.run] at h
    cases ht : db.tables table with
    | none =>
      rw [ht] at h
      exact .inl (Except.ok.inj h).symm
    | some t =>
      rw [ht] at h
      dsimp only at h
      split_ifs at h with hcolumn
      · exact .inl (Except.ok.inj h).symm
      · exact .inr ⟨t, ht, hcolumn, (Except.ok.inj h).symm⟩
  | collapse index =>
    simp only [Stmt.run] at h
    cases ht : db.tables index.spec.table with
    | none =>
      rw [ht] at h
      exact .inl (Except.ok.inj h).symm
    | some t =>
      rw [ht] at h
      dsimp only at h
      split_ifs at h
      · exact .inl (Except.ok.inj h).symm
      · exact .inr ⟨t, ht, (Except.ok.inj h).symm⟩
  | refuseDuplicates =>
    simp only [Stmt.run] at h
    split at h
    · exact .inl (Except.ok.inj h).symm
    · split_ifs at h
      exact .inl (Except.ok.inj h).symm
  | rebuild r =>
    simp only [Stmt.run] at h
    cases ht : db.tables .mevOps with
    | none =>
      rw [ht] at h
      exact .inl (Except.ok.inj h).symm
    | some t =>
      rw [ht] at h
      dsimp only at h
      split_ifs at h with hneeded hcopied
      · exact .inl (Except.ok.inj h).symm
      · exact .inr ⟨t, rfl, hcopied, h⟩

theorem run_of_done {s : Stmt} (h : s.Done db) : s.run db = .ok db := by
  cases s with
  | createTable table columns kinds =>
    simp only [Stmt.run]
    rw [if_pos (Option.isSome_iff_ne_none.mpr h)]
  | createIndex index ifTable =>
    simp only [Stmt.run]
    rcases h with h | h
    · split_ifs
      · rfl
      · unfold Db.createIndex
        rw [if_pos h]
    · rw [if_pos h]
  | ensureColumn table column default =>
    simp only [Stmt.run]
    cases ht : db.tables table with
    | none => rfl
    | some t =>
      dsimp only
      rw [if_pos (h t ht)]
  | collapse index =>
    simp only [Stmt.run]
    cases ht : db.tables index.spec.table with
    | none => rfl
    | some t =>
      dsimp only
      rw [if_pos]
      rcases h with h | h
      · exact .inl h
      · by_cases hkey : ∀ c ∈ index.spec.key, c.name ∈ t.columns
        · exact .inr (.inr (h t ht hkey))
        · exact .inr (.inl hkey)
  | refuseDuplicates =>
    simp only [Stmt.run]
    cases ht : db.tables .mevOps with
    | none => rfl
    | some t =>
      dsimp only
      rw [if_neg (not_not.mpr (h t ht).1), if_pos (h t ht).2]
  | rebuild r =>
    simp only [Stmt.run]
    cases ht : db.tables .mevOps with
    | none => rfl
    | some t =>
      dsimp only
      rw [if_pos (h t ht)]

theorem done_of_run {s : Stmt} (h : s.run db = .ok db') : s.Done db' := by
  cases s with
  | createTable table columns kinds =>
    simp only [Stmt.run] at h
    split_ifs at h with htable
    · cases h
      exact Option.isSome_iff_ne_none.mp htable
    · cases h
      show (db.setTable table _).tables table ≠ none
      rw [setTable_self]
      exact Option.some_ne_none _
  | createIndex index ifTable =>
    simp only [Stmt.run] at h
    split_ifs at h with hskip
    · cases h
      exact .inr hskip
    · exact .inl (createIndex_ok h).1
  | ensureColumn table column default =>
    simp only [Stmt.run] at h
    intro t' ht'
    cases ht : db.tables table with
    | none =>
      rw [ht] at h
      cases h
      rw [ht] at ht'
      cases ht'
    | some t =>
      rw [ht] at h
      dsimp only at h
      split_ifs at h with hcolumn
      · cases h
        rw [ht] at ht'
        cases ht'
        exact hcolumn
      · cases h
        rw [setTable_self] at ht'
        cases ht'
        simp
  | collapse index =>
    simp only [Stmt.run] at h
    cases ht : db.tables index.spec.table with
    | none =>
      rw [ht] at h
      cases h
      refine .inr fun t' ht' => ?_
      rw [ht] at ht'
      cases ht'
    | some t =>
      rw [ht] at h
      dsimp only at h
      split_ifs at h with hskip
      · cases h
        rcases hskip with h | h | h
        · exact .inl h
        · refine .inr fun t' ht' hkey => absurd ?_ h
          rw [ht] at ht'
          cases ht'
          exact hkey
        · refine .inr fun t' ht' _ => ?_
          rw [ht] at ht'
          cases ht'
          exact h
      · cases h
        refine .inr fun t' ht' _ => ?_
        rw [setTable_self] at ht'
        cases ht'
        exact distinct_collapseRows _ _
  | refuseDuplicates =>
    simp only [Stmt.run] at h
    intro t' ht'
    cases ht : db.tables .mevOps with
    | none =>
      rw [ht] at h
      cases h
      rw [ht] at ht'
      cases ht'
    | some t =>
      rw [ht] at h
      dsimp only at h
      split_ifs at h with hcolumns hnodup
      cases h
      rw [ht] at ht'
      cases ht'
      exact ⟨hcolumns, hnodup⟩
  | rebuild r =>
    simp only [Stmt.run] at h
    intro t' ht'
    cases ht : db.tables .mevOps with
    | none =>
      rw [ht] at h
      cases h
      rw [ht] at ht'
      cases ht'
    | some t =>
      rw [ht] at h
      dsimp only at h
      split_ifs at h with hneeded
      · cases h
        rw [ht] at ht'
        cases ht'
        exact hneeded
      · rw [(createIndexes_ok h).2.2.1] at ht'
        have htable : t' = r.table t := by
          have hself := setTable_self db .mevOps (r.table t)
          exact Option.some.inj (ht'.symm.trans hself)
        rw [htable]
        exact r.settled

/-- What an entry does: a migration that the version has passed is skipped. -/
def Entry.run (db : Db) : Entry → Except DbError Db
  | .stmt target s => if target ≤ db.userVersion then .ok db else s.run db
  | .stamp target =>
    .ok (if target ≤ db.userVersion then db else { db with userVersion := target })

/-- An entry has nothing more to do. -/
def Entry.Done (db : Db) : Entry → Prop
  | .stmt target s => target ≤ db.userVersion ∨ s.Done db
  | .stamp target => target ≤ db.userVersion

/-- An entry as a step of a run. -/
def Entry.step (e : Entry) : Step Db DbError where
  run db := e.run db
  Done db := e.Done db
  run_of_done {db} h := by
    cases e with
    | stmt target s =>
      simp only [Entry.run]
      split_ifs with hversion
      · rfl
      · exact run_of_done (h.resolve_left hversion)
    | stamp target => exact congrArg Except.ok (if_pos h)
  done_of_run {db db'} h := by
    cases e with
    | stmt target s =>
      simp only [Entry.run] at h
      split_ifs at h with hversion
      · cases h
        exact .inl hversion
      · exact .inr (done_of_run h)
    | stamp target =>
      simp only [Entry.run] at h
      cases h
      show target ≤ Db.userVersion (ite _ _ _)
      split_ifs with hversion
      · exact hversion
      · exact le_refl target

/-- The steps of an open. -/
def program : List (Step Db DbError) := entries.map Entry.step

/-- Model of `migrate` (lines 61–76), with the database that it leaves. -/
def migrate (db : Db) : Db × Option DbError := exec program (stampLegacy db)

/-- `db'` is left by an open of `db`, which may have been interrupted. -/
def Left (db db' : Db) : Prop := db' = db ∨ Interrupted program (stampLegacy db) db'

theorem left_migrate (db : Db) : Left db (migrate db).1 :=
  .inr ⟨program.length, by rw [List.take_length]; rfl⟩

/-! ## Statements that keep others done -/

/-- The table that decides whether a statement is done. -/
def Stmt.table : Stmt → TableName
  | .createTable table _ _ => table
  | .createIndex index _ => index.spec.table
  | .ensureColumn table _ _ => table
  | .collapse index => index.spec.table
  | .refuseDuplicates => .mevOps
  | .rebuild _ => .mevOps

/-- The later statement `g` leaves `f` done. -/
def Stmt.keeps (f g : Stmt) : Bool :=
  match g with
  | .createIndex _ _ => true
  | .refuseDuplicates => true
  | .createTable table _ _ =>
    f.table ≠ table ||
      match f with
      | .createTable _ _ _ => true
      | .createIndex _ ifTable => !ifTable
      | _ => false
  | .ensureColumn table column _ =>
    f.table ≠ table ||
      match f with
      | .collapse _ => false
      | .refuseDuplicates => column ≠ "canonical_id" && column ≠ "tx_hash"
      | _ => true
  | .collapse index =>
    f.table ≠ index.spec.table ||
      match f with
      | .createTable _ _ _ | .createIndex _ _ | .ensureColumn _ _ _ => true
      | _ => false
  | .rebuild r =>
    f.table ≠ .mevOps ||
      match f with
      | .createTable _ _ _ => true
      | .createIndex index _ => index ∈ r.indexes
      | .ensureColumn _ column _ => column ∈ r.columns
      | .collapse _ => false
      | .refuseDuplicates =>
        "canonical_id" ∈ r.copied && "tx_hash" ∈ r.copied &&
          (r.computed.find? (·.1 = "canonical_id")).isNone &&
          (r.computed.find? (·.1 = "tx_hash")).isNone
      | .rebuild r' => r'.needed r.columns r.kinds = false

/-- A statement whose table and indexes stay is still done. -/
theorem Stmt.Done.frame {s : Stmt} (h : s.Done db) (htable : db'.tables s.table = db.tables s.table)
    (hindexes : ∀ i ∈ db.indexes, i.spec.table = s.table → i ∈ db'.indexes) : s.Done db' := by
  cases s with
  | createTable table columns kinds => exact htable.trans_ne h
  | createIndex index ifTable =>
    exact h.imp (fun hindex => hindexes _ hindex rfl) fun hnone => ⟨hnone.1, htable.trans hnone.2⟩
  | ensureColumn table column default => exact fun t ht => h t (htable.symm.trans ht)
  | collapse index =>
    exact h.imp (fun hindex => hindexes _ hindex rfl) fun h t ht => h t (htable.symm.trans ht)
  | refuseDuplicates => exact fun t ht => h t (htable.symm.trans ht)
  | rebuild r => exact fun t ht => h t (htable.symm.trans ht)

theorem naturalPair_update {row : Row} {column : String} {x : Cell}
    (hid : column ≠ "canonical_id") (hhash : column ≠ "tx_hash") :
    naturalPair { row with cells := Function.update row.cells column x } = naturalPair row := by
  unfold naturalPair
  dsimp only
  rw [Function.update_of_ne hid.symm, Function.update_of_ne hhash.symm]

theorem naturalPair_rebuild {r : Rebuild} {row : Row} (hid : "canonical_id" ∈ r.copied)
    (hhash : "tx_hash" ∈ r.copied) (hid' : r.computed.find? (·.1 = "canonical_id") = none)
    (hhash' : r.computed.find? (·.1 = "tx_hash") = none) :
    naturalPair (r.row row) = naturalPair row := by
  unfold naturalPair Rebuild.row
  dsimp only
  rw [hid', hhash', if_pos hid, if_pos hhash]

theorem done_of_keeps {f g : Stmt} (hkeeps : f.keeps g = true) (hf : f.Done db)
    (hg : g.run db = .ok db') : f.Done db' := by
  rcases run_cases hg with rfl | hcase
  · exact hf
  cases g with
  | createTable table columns kinds =>
    obtain ⟨hnone, rfl⟩ := hcase
    by_cases htable : f.table = table
    · subst htable
      simp only [Stmt.keeps, ne_eq, not_true_eq_false, decide_false, Bool.false_or] at hkeeps
      cases f with
      | createTable table' columns' kinds' => exact absurd hnone hf
      | createIndex index ifTable =>
        refine .inl (hf.resolve_right fun h => ?_)
        rw [h.1] at hkeeps
        cases hkeeps
      | _ => cases hkeeps
    · exact hf.frame (setTable_of_ne db _ htable) fun i hi _ => hi
  | createIndex index ifTable =>
    obtain ⟨-, hsub, htables, -⟩ := createIndex_ok hcase
    exact hf.frame (congrFun htables _) fun i hi _ => hsub hi
  | ensureColumn table column default =>
    obtain ⟨t, ht, hcolumn, rfl⟩ := hcase
    by_cases htable : f.table = table
    · subst htable
      simp only [Stmt.keeps, ne_eq, not_true_eq_false, decide_false, Bool.false_or] at hkeeps
      cases f with
      | createTable table' columns' kinds' =>
        show (db.setTable _ _).tables _ ≠ none
        rw [Stmt.table, setTable_self]
        exact Option.some_ne_none _
      | createIndex index ifTable =>
        refine .inl (hf.resolve_right fun h => ?_)
        rw [Stmt.table, h.2] at ht
        cases ht
      | ensureColumn table' column' default' =>
        intro t' ht'
        rw [Stmt.table, setTable_self] at ht'
        cases ht'
        exact List.mem_append_left _ (hf t ht)
      | collapse index => cases hkeeps
      | refuseDuplicates =>
        intro t' ht'
        rw [Stmt.table, setTable_self] at ht'
        cases ht'
        simp only [Bool.and_eq_true, decide_eq_true_eq] at hkeeps
        have hpairs : ((t.rows.map fun row =>
            { row with cells := Function.update row.cells column default }).map naturalPair) =
              t.rows.map naturalPair := by
          rw [List.map_map]
          exact List.map_congr_left fun row _ => naturalPair_update hkeeps.1 hkeeps.2
        rw [hpairs]
        exact ⟨List.subset_append_of_subset_left _ (hf t ht).1, (hf t ht).2⟩
      | rebuild r =>
        intro t' ht'
        rw [Stmt.table, setTable_self] at ht'
        cases ht'
        exact r.needed_mono (List.subset_append_left ..) (hf t ht)
    · exact hf.frame (setTable_of_ne db _ htable) fun i hi _ => hi
  | collapse index =>
    obtain ⟨t, ht, rfl⟩ := hcase
    by_cases htable : f.table = index.spec.table
    · simp only [Stmt.keeps, htable, ne_eq, not_true_eq_false, decide_false, Bool.false_or]
        at hkeeps
      cases f with
      | createTable table' columns' kinds' =>
        obtain rfl : table' = index.spec.table := htable
        show (db.setTable _ _).tables _ ≠ none
        rw [setTable_self]
        exact Option.some_ne_none _
      | createIndex index' ifTable =>
        refine .inl (hf.resolve_right fun h => ?_)
        have hnone : db.tables index.spec.table = none := htable ▸ h.2
        rw [hnone] at ht
        cases ht
      | ensureColumn table' column' default' =>
        obtain rfl : table' = index.spec.table := htable
        intro t' ht'
        rw [setTable_self] at ht'
        cases ht'
        exact hf t ht
      | _ => cases hkeeps
    · exact hf.frame (setTable_of_ne db _ htable) fun i hi _ => hi
  | refuseDuplicates => exact hcase.elim
  | rebuild r =>
    obtain ⟨t, ht, -, hindexes⟩ := hcase
    obtain ⟨hmem, hsub, htables, -⟩ := createIndexes_ok hindexes
    by_cases htable : f.table = .mevOps
    · have hself : db'.tables .mevOps = some (r.table t) := by
        rw [htables]
        exact setTable_self db .mevOps _
      simp only [Stmt.keeps, htable, ne_eq, not_true_eq_false, decide_false, Bool.false_or]
        at hkeeps
      cases f with
      | createTable table' columns' kinds' =>
        obtain rfl : table' = .mevOps := htable
        show db'.tables .mevOps ≠ none
        rw [hself]
        exact Option.some_ne_none _
      | createIndex index ifTable => exact .inl (hmem (of_decide_eq_true hkeeps))
      | ensureColumn table' column' default' =>
        obtain rfl : table' = .mevOps := htable
        intro t' ht'
        rw [hself] at ht'
        cases ht'
        exact of_decide_eq_true hkeeps
      | collapse index => cases hkeeps
      | refuseDuplicates =>
        intro t' ht'
        rw [hself] at ht'
        cases ht'
        simp only [Bool.and_eq_true, decide_eq_true_eq, Option.isNone_iff_eq_none] at hkeeps
        obtain ⟨⟨⟨hid, hhash⟩, hid'⟩, hhash'⟩ := hkeeps
        have hpairs : (r.table t).rows.map naturalPair = t.rows.map naturalPair := by
          show (t.rows.map r.row).map naturalPair = _
          rw [List.map_map]
          exact List.map_congr_left fun row _ => naturalPair_rebuild hid hhash hid' hhash'
        rw [hpairs]
        refine ⟨fun c hc => List.mem_append_left _ ?_, (hf t ht).2⟩
        rcases List.mem_pair.mp hc with rfl | rfl
        · exact hid
        · exact hhash
      | rebuild r' =>
        intro t' ht'
        rw [hself] at ht'
        cases ht'
        exact of_decide_eq_true hkeeps
    · refine hf.frame ?_ fun i hi htable' => hsub (List.mem_filter.mpr ⟨hi, ?_⟩)
      · rw [htables]
        exact setTable_of_ne db _ htable
      · exact decide_eq_true fun h => htable (htable'.symm.trans h)

theorem userVersion_run {s : Stmt} (h : s.run db = .ok db') : db'.userVersion = db.userVersion := by
  rcases run_cases h with rfl | hcase
  · rfl
  cases s with
  | createTable table columns kinds => rw [hcase.2, setTable_userVersion]
  | createIndex index ifTable => exact (createIndex_ok hcase).2.2.2
  | ensureColumn table column default =>
    obtain ⟨t, -, -, rfl⟩ := hcase
    rfl
  | collapse index =>
    obtain ⟨t, -, rfl⟩ := hcase
    rfl
  | refuseDuplicates => exact hcase.elim
  | rebuild r =>
    obtain ⟨t, -, -, hindexes⟩ := hcase
    exact (createIndexes_ok hindexes).2.2.2

/-- The later entry `e'` leaves `e` done. -/
def Entry.keeps : Entry → Entry → Bool
  | .stmt _ f, .stmt _ g => f.keeps g
  | _, _ => true

theorem le_userVersion_run {e : Entry} (h : e.run db = .ok db') :
    db.userVersion ≤ db'.userVersion := by
  cases e with
  | stmt target s =>
    simp only [Entry.run] at h
    split_ifs at h
    · cases h
      exact le_rfl
    · exact (userVersion_run h).ge
  | stamp target =>
    simp only [Entry.run] at h
    cases h
    split_ifs with hversion
    · exact le_rfl
    · exact (not_le.mp hversion).le

theorem keeps_step {e e' : Entry} (h : e.keeps e' = true) : Keeps e.step e'.step := by
  intro db db' hdone hrun
  have hversion := le_userVersion_run hrun
  cases e with
  | stamp target => exact le_trans hdone hversion
  | stmt target f =>
    refine (show target ≤ db.userVersion ∨ f.Done db from hdone).imp hversion.trans' fun hf => ?_
    cases e' with
    | stamp target' =>
      have hrun : (if target' ≤ db.userVersion then db else { db with userVersion := target' }) =
          db' := Except.ok.inj hrun
      rw [← hrun]
      split_ifs
      · exact hf
      · exact hf.frame rfl fun i hi _ => hi
    | stmt target' g =>
      have hrun : (if target' ≤ db.userVersion then .ok db else g.run db) = .ok db' := hrun
      split_ifs at hrun
      · cases hrun
        exact hf
      · exact done_of_keeps h hf hrun

theorem pairwise_entries : entries.Pairwise fun e e' => e.keeps e' = true := by
  decide +kernel

theorem pairwise_program : program.Pairwise Keeps :=
  List.pairwise_map.mpr (pairwise_entries.imp keeps_step)

/-! ## Opens that are interrupted -/

/-- A database that `migrate` takes for one from before the list. -/
def Torn (db : Db) : Prop := db.userVersion = 0 ∧ db.tables .blocksClassified ≠ none

theorem stampLegacy_of_not_torn (h : ¬Torn db) : stampLegacy db = db := if_neg h

theorem migrate_of_left (hleft : Left db db') (h : ¬Torn db') : migrate db' = migrate db := by
  rcases hleft with rfl | hleft
  · rfl
  · unfold migrate
    rw [stampLegacy_of_not_torn h]
    exact exec_of_interrupted pairwise_program hleft

/-- A new file. -/
def empty : Db := { userVersion := 0, tables := fun _ => none, indexes := [] }

/-- What its first open leaves when it is interrupted after `k` statements. -/
def firstOpen (k : ℕ) : Db := (exec (program.take k) (stampLegacy empty)).1

theorem left_firstOpen (k : ℕ) : Left empty (firstOpen k) := .inr ⟨k, rfl⟩

/-- **Main theorem.** However often opens of a database are interrupted, between whichever
    statements, the next one ends as the first would have ended. Excepted is the creation of the
    first schema, once the table is there by which a database from before the list is told. -/
theorem migrate_resumes
    (h : Relation.ReflTransGen (fun a b => Left a b ∧ (Torn b → b = a)) db db') :
    migrate db' = migrate db := by
  induction h with
  | refl => rfl
  | @tail a b _ hstep ih =>
    rw [← ih]
    by_cases htorn : Torn b
    · rw [hstep.2 htorn]
    · exact migrate_of_left hstep.1 htorn

/-- A first open that is interrupted after seven statements, and the next one. -/
theorem migrate_resumes_transfers : migrate (firstOpen 7) = migrate empty :=
  migrate_resumes (.single ⟨left_firstOpen 7, fun h => absurd h.2 (not_not.mpr (by decide))⟩)

/-- A database that is opened is at the head. -/
theorem schemaHead_le (h : (migrate db).2 = none) : schemaHead ≤ (migrate db).1.userVersion := by
  have hmem : Entry.stamp 13 ∈ entries := List.mem_of_getElem? (show entries[83]? = _ from rfl)
  exact done_exec pairwise_program h _ (List.mem_map_of_mem hmem)

/-- Opening it again changes nothing. -/
theorem migrate_migrate (h : (migrate db).2 = none) :
    migrate (migrate db).1 = ((migrate db).1, none) := by
  have hversion := schemaHead_le h
  have htorn : ¬Torn (migrate db).1 := by
    rintro ⟨h0, -⟩
    rw [h0] at hversion
    exact absurd hversion (by decide)
  calc migrate (migrate db).1 = exec program (migrate db).1 := by
        show exec program (stampLegacy (migrate db).1) = _
        rw [stampLegacy_of_not_torn htorn]
    _ = ((migrate db).1, none) := exec_of_done (done_exec pairwise_program h)

/-! ## A first open that is interrupted -/

/-- The second table is there without the first: the open goes by the one and needs the other. -/
structure Stuck (db : Db) : Prop where
  torn : db.userVersion = 0 → db.tables .blocksClassified ≠ none
  nonneg : 0 ≤ db.userVersion
  lt : db.userVersion < 6
  missing : db.tables .rejectedCandidates = none
  index : .rejectedCandidatesNatural ∉ db.indexes
  skim : ∀ t, db.tables .mevOps = some t → "skim" ∈ t.kinds

/-- An open that has gone by `blocks_classified`. -/
def Passed (db : Db) : Prop := Stuck db ∧ 1 ≤ db.userVersion

/-- What an open makes before it needs `rejected_candidates`. -/
def firstEntries : List Entry :=
  migrateV1.map (.stmt 1) ++
    [.stamp 1, .stmt 2 (.ensureColumn .mevOps "flashloan_fee_usd" .null), .stamp 2,
      .stmt 3 (.ensureColumn .mevOps "volume_usd" .null), .stamp 3,
      .stmt 4 (.ensureColumn .mevOps "excluded_from_net" (.integer 0)), .stamp 4,
      .stmt 5 (.rebuild skimRebuild), .stamp 5, .stmt 6 (.collapse .rejectedCandidatesNatural)]

theorem entries_eq : entries = firstEntries ++
    .stmt 6 (.createIndex .rejectedCandidatesNatural false) ::
      entries.drop (firstEntries.length + 1) := rfl

theorem passed_of_skipped {target : ℤ} {s : Stmt} (h : Passed db) (htarget : target ≤ 1) :
    ∃ db', (Entry.stmt target s).run db = .ok db' ∧ Passed db' :=
  ⟨db, if_pos (htarget.trans h.2), h⟩

theorem passed_stamp {target : ℤ} (h : Passed db) (htarget : target < 6) :
    ∃ db', (Entry.stamp target).run db = .ok db' ∧ Passed db' := by
  refine ⟨_, rfl, ?_⟩
  split_ifs with hversion
  · exact h
  · have hlt := not_le.mp hversion
    have hone := h.2
    have hversion : 1 ≤ target := hone.trans hlt.le
    exact ⟨⟨fun h0 => absurd h0 (by show target ≠ 0; omega), by show 0 ≤ target; omega, htarget,
      h.1.missing, h.1.index, h.1.skim⟩, hversion⟩

theorem passed_ensureColumn {target : ℤ} {column : String} {x : Cell} (h : Passed db) :
    ∃ db', (Entry.stmt target (.ensureColumn .mevOps column x)).run db = .ok db' ∧ Passed db' := by
  simp only [Entry.run, Stmt.run]
  by_cases hversion : target ≤ db.userVersion
  · exact ⟨db, if_pos hversion, h⟩
  rw [if_neg hversion]
  cases ht : db.tables .mevOps with
  | none => exact ⟨db, rfl, h⟩
  | some t =>
    dsimp only
    by_cases hcolumn : column ∈ t.columns
    · exact ⟨db, if_pos hcolumn, h⟩
    · refine ⟨_, if_neg hcolumn, ⟨fun h0 => ?_, h.1.nonneg, h.1.lt, ?_, h.1.index,
        fun t' ht' => ?_⟩, h.2⟩
      · rw [setTable_of_ne db _ (by decide)]
        exact h.1.torn h0
      · rw [setTable_of_ne db _ (by decide)]
        exact h.1.missing
      · rw [setTable_self] at ht'
        cases ht'
        exact h.1.skim t ht

theorem passed_rebuild {target : ℤ} (h : Passed db) :
    ∃ db', (Entry.stmt target (.rebuild skimRebuild)).run db = .ok db' ∧ Passed db' := by
  refine ⟨db, ?_, h⟩
  simp only [Entry.run, Stmt.run]
  split_ifs
  · rfl
  · cases ht : db.tables .mevOps with
    | none => rfl
    | some t => exact if_pos (decide_eq_false (not_not.mpr (h.1.skim t ht)))

theorem passed_collapse {target : ℤ} (h : Passed db) :
    ∃ db', (Entry.stmt target (.collapse .rejectedCandidatesNatural)).run db = .ok db' ∧
      Passed db' := by
  refine ⟨db, ?_, h⟩
  have hnone : db.tables IndexName.rejectedCandidatesNatural.spec.table = none := h.1.missing
  simp only [Entry.run, Stmt.run]
  rw [hnone]
  exact ite_self _

theorem passed_firstEntries : ∀ f ∈ firstEntries.map Entry.step, ∀ db, Passed db →
    ∃ db', f.run db = .ok db' ∧ Passed db' := by
  intro f hf db h
  obtain ⟨e, he, rfl⟩ := List.mem_map.mp hf
  show ∃ db', e.run db = .ok db' ∧ Passed db'
  rcases List.mem_append.mp he with he | he
  · obtain ⟨s, -, rfl⟩ := List.mem_map.mp he
    exact passed_of_skipped h le_rfl
  · simp only [List.mem_cons, List.not_mem_nil, or_false] at he
    rcases he with rfl | rfl | rfl | rfl | rfl | rfl | rfl | rfl | rfl | rfl
    · exact passed_stamp h (by decide)
    · exact passed_ensureColumn h
    · exact passed_stamp h (by decide)
    · exact passed_ensureColumn h
    · exact passed_stamp h (by decide)
    · exact passed_ensureColumn h
    · exact passed_stamp h (by decide)
    · exact passed_rebuild h
    · exact passed_stamp h (by decide)
    · exact passed_collapse h

theorem createIndex_passed (h : Passed db) :
    (Entry.stmt 6 (.createIndex .rejectedCandidatesNatural false)).step.run db =
      .error (.noSuchTable .rejectedCandidates) := by
  have hnone : db.tables IndexName.rejectedCandidatesNatural.spec.table = none := h.1.missing
  show (if (6 : ℤ) ≤ db.userVersion then Except.ok db else Stmt.run db _) = _
  rw [if_neg (not_le.mpr h.1.lt)]
  simp only [Stmt.run, Bool.false_eq_true, false_and, if_false]
  unfold Db.createIndex
  rw [if_neg h.1.index, hnone]
  rfl

theorem passed_stampLegacy (h : Stuck db) : Passed (stampLegacy db) := by
  have hlt := h.lt
  have hnonneg := h.nonneg
  unfold stampLegacy
  split_ifs with htorn
  · exact ⟨⟨fun h0 => absurd (show (1 : ℤ) = 0 from h0) (by decide), show (0 : ℤ) ≤ 1 by decide,
      show (1 : ℤ) < 6 by decide, h.missing, h.index, h.skim⟩, le_refl (1 : ℤ)⟩
  · refine ⟨h, ?_⟩
    by_contra hversion
    have h0 : db.userVersion = 0 := by omega
    exact htorn ⟨h0, h.torn h0⟩

theorem migrate_stuck (h : Stuck db) :
    (migrate db).2 = some (.noSuchTable .rejectedCandidates) ∧
      ∀ k, Passed (exec (program.take k) (stampLegacy db)).1 := by
  have hprogram : program = firstEntries.map Entry.step ++
      (Entry.stmt 6 (.createIndex .rejectedCandidatesNatural false)).step ::
        (entries.drop (firstEntries.length + 1)).map Entry.step := by
    unfold program
    conv_lhs => rw [entries_eq]
    rw [List.map_append, List.map_cons]
  unfold migrate
  rw [hprogram]
  exact exec_stops passed_firstEntries (fun db => createIndex_passed) (passed_stampLegacy h)

theorem refused_of_stuck (h : Stuck db) (hopens : Relation.ReflTransGen Left db db') :
    (migrate db').2 = some (.noSuchTable .rejectedCandidates) := by
  have hstuck : Stuck db' := by
    induction hopens with
    | refl => exact h
    | tail _ hleft ih =>
      rcases hleft with rfl | ⟨k, rfl⟩
      · exact ih
      · exact ((migrate_stuck ih).2 k).1
  exact (migrate_stuck hstuck).1

/-- `blocks_classified` is created by the sixteenth statement, and `rejected_candidates` by the
    twenty-sixth. -/
theorem stuck_firstOpen {k : ℕ} (h16 : 16 ≤ k) (h25 : k ≤ 25) : Stuck (firstOpen k) := by
  have hopen : ∀ k < 10, (firstOpen (k + 16)).userVersion = 0 ∧
      ((firstOpen (k + 16)).tables .blocksClassified).isSome ∧
      ((firstOpen (k + 16)).tables .rejectedCandidates).isNone ∧
      IndexName.rejectedCandidatesNatural ∉ (firstOpen (k + 16)).indexes ∧
      ∀ t ∈ (firstOpen (k + 16)).tables .mevOps, "skim" ∈ t.kinds := by
    decide +kernel
  obtain ⟨j, rfl⟩ := Nat.exists_eq_add_of_le' h16
  obtain ⟨hversion, hclassified, hrejected, hindex, hskim⟩ := hopen j (by omega)
  exact ⟨fun _ => Option.isSome_iff_ne_none.mp hclassified, hversion.ge,
    hversion.trans_lt (by decide), Option.isNone_iff_eq_none.mp hrejected, hindex, hskim⟩

theorem migrate_empty : (migrate empty).2 = none := by decide +kernel

/-- The first migration has thirty-three statements. -/
theorem one_le_userVersion_firstOpen {k : ℕ} (h : 34 ≤ k) : 1 ≤ (firstOpen k).userVersion := by
  have hfirst : (exec (program.take 34) (stampLegacy empty)).2 = none ∧
      1 ≤ (exec (program.take 34) (stampLegacy empty)).1.userVersion := by
    decide +kernel
  unfold firstOpen
  rw [← List.take_append_drop 34 (program.take k), List.take_take, min_eq_left h,
    exec_append hfirst.1]
  refine exec_induct (P := fun db : Db => 1 ≤ db.userVersion) (fun f hf _ _ hone hrun => ?_)
    hfirst.2
  obtain ⟨e, -, rfl⟩ := List.mem_map.mp (List.mem_of_mem_take (List.mem_of_mem_drop hf))
  exact hone.trans (le_userVersion_run hrun)

theorem migrate_firstOpen {k : ℕ} (h : ¬Torn (firstOpen k)) : (migrate (firstOpen k)).2 = none := by
  rw [migrate_of_left (left_firstOpen k) h]
  exact migrate_empty

/-- **Main theorem.** A new file whose first open is interrupted after `k` statements can be opened
    unless it has then the table by which `migrate` tells a database from before the list, and not
    the one that the sixth migration needs. -/
theorem opens_again_iff (k : ℕ) :
    (migrate (firstOpen k)).2 = none ↔ k < 16 ∨ 25 < k := by
  constructor
  · intro h
    by_contra hk
    rw [not_or, not_lt, not_lt] at hk
    rw [refused_of_stuck (stuck_firstOpen hk.1 hk.2) .refl] at h
    cases h
  · rintro (h | h)
    · have hnone : ∀ k < 16, ((firstOpen k).tables .blocksClassified).isNone := by decide +kernel
      exact migrate_firstOpen fun htorn => htorn.2 (Option.isNone_iff_eq_none.mp (hnone k h))
    · rcases Nat.lt_or_ge k 34 with hlt | hge
      · -- the table is there, and the first migration is not run again
        have hrest : ∀ k < 8, (migrate (firstOpen (k + 26))).2 = none := by decide +kernel
        obtain ⟨j, rfl⟩ := Nat.exists_eq_add_of_le' h
        exact hrest j (by omega)
      · refine migrate_firstOpen fun htorn => ?_
        have hone := one_le_userVersion_firstOpen hge
        rw [htorn.1] at hone
        exact absurd hone (by decide)

/-- **Main theorem.** Such a file cannot be opened any more: each later open is refused, whatever
    becomes of those before it. -/
theorem torn_refused {k : ℕ} (h16 : 16 ≤ k) (h25 : k ≤ 25)
    (hopens : Relation.ReflTransGen Left (firstOpen k) db) :
    (migrate db).2 = some (.noSuchTable .rejectedCandidates) :=
  refused_of_stuck (stuck_firstOpen h16 h25) hopens

/-- An open that is interrupted right after `blocks_classified`, and the second one after it. -/
theorem torn_refused_twice : (migrate (migrate (firstOpen 16)).1).2 =
    some (.noSuchTable .rejectedCandidates) :=
  torn_refused (le_refl 16) (by decide) (.single (left_migrate _))

/-! ## Rows -/

/-- A column that opens carry over. A rebuild of `mev_ops` names the columns it copies. -/
def Carried (name : TableName) (column : String) : Prop :=
  name = .mevOps → column = "kind" ∨ column ∈ opsColumns

/-- What opens make of a value: the kind `unknown` becomes `utility`. -/
def SameCell (name : TableName) (column : String) (x y : Cell) : Prop :=
  y = x ∨ name = .mevOps ∧ column = "kind" ∧ x = .text "unknown" ∧ y = .text "utility"

/-- The rows of a table are still there, in their order, with the values of its columns. -/
structure Kept (name : TableName) (t t' : TableState) : Prop where
  columns : ∀ c ∈ t.columns, Carried name c → c ∈ t'.columns
  rows : List.Forall₂ (fun row row' => row'.rowid = row.rowid ∧ ∀ c ∈ t.columns, Carried name c →
    SameCell name c (row.cells c) (row'.cells c)) t.rows t'.rows

/-- Of the rows of `rejected_candidates` only those are deleted whose group keeps a row. -/
structure Collapsed (rows rows' : List Row) : Prop where
  sublist : rows'.Sublist rows
  groups : ∀ row ∈ rows, ∃ row' ∈ rows', IndexName.rejectedCandidatesNatural.spec.groupOf row' =
    IndexName.rejectedCandidatesNatural.spec.groupOf row

/-- The rows of all tables are kept. -/
structure TablesKept (db db' : Db) : Prop where
  tables : ∀ name ≠ TableName.rejectedCandidates, ∀ t, db.tables name = some t →
    ∃ t', db'.tables name = some t' ∧ Kept name t t'
  rejects : ∀ t, db.tables .rejectedCandidates = some t →
    ∃ t', db'.tables .rejectedCandidates = some t' ∧ Collapsed t.rows t'.rows

theorem Kept.refl (name : TableName) (t : TableState) : Kept name t t :=
  ⟨fun _ hc _ => hc, List.forall₂_same.mpr fun _ _ => ⟨rfl, fun _ _ _ => .inl rfl⟩⟩

theorem SameCell.trans {name : TableName} {c : String} {x y z : Cell} (h : SameCell name c x y)
    (h' : SameCell name c y z) : SameCell name c x z := by
  rcases h with rfl | ⟨hname, hc, hx, hy⟩
  · exact h'
  · rcases h' with rfl | ⟨-, -, hy', -⟩
    · exact .inr ⟨hname, hc, hx, hy⟩
    · rw [hy] at hy'
      exact absurd hy' (by decide)

theorem Kept.trans {name : TableName} {t t₁ t₂ : TableState} (h : Kept name t t₁)
    (h' : Kept name t₁ t₂) : Kept name t t₂ := by
  refine ⟨fun c hc hcarried => h'.columns c (h.columns c hc hcarried) hcarried, ?_⟩
  have hrows := h.rows
  have hrows' := h'.rows
  have hcolumns := h.columns
  generalize t.rows = l at hrows
  generalize t₁.rows = l₁ at hrows hrows'
  generalize t₂.rows = l₂ at hrows'
  induction hrows generalizing l₂ with
  | nil =>
    cases hrows'
    exact .nil
  | cons hrow _ ih =>
    cases hrows' with
    | cons hrow' hrows' =>
      refine .cons ⟨hrow'.1.trans hrow.1, fun c hc hcarried => ?_⟩ (ih _ hrows')
      exact (hrow.2 c hc hcarried).trans (hrow'.2 c (hcolumns c hc hcarried) hcarried)

theorem Collapsed.refl (rows : List Row) : Collapsed rows rows :=
  ⟨List.Sublist.refl _, fun row hrow => ⟨row, hrow, rfl⟩⟩

theorem Collapsed.trans {rows rows₁ rows₂ : List Row} (h : Collapsed rows rows₁)
    (h' : Collapsed rows₁ rows₂) : Collapsed rows rows₂ := by
  refine ⟨h'.sublist.trans h.sublist, fun row hrow => ?_⟩
  obtain ⟨row₁, hrow₁, hgroup⟩ := h.groups row hrow
  obtain ⟨row₂, hrow₂, hgroup'⟩ := h'.groups row₁ hrow₁
  exact ⟨row₂, hrow₂, hgroup'.trans hgroup⟩

/-- Tables that are there stay as they are. -/
theorem TablesKept.of_agree (h : ∀ name t, db.tables name = some t → db'.tables name = some t) :
    TablesKept db db' :=
  ⟨fun name _ t ht => ⟨t, h name t ht, .refl name t⟩, fun t ht => ⟨t, h _ t ht, .refl _⟩⟩

theorem TablesKept.refl (db : Db) : TablesKept db db := .of_agree fun _ _ ht => ht

theorem TablesKept.of_tables_eq (h : db'.tables = db.tables) : TablesKept db db' :=
  .of_agree fun name _ ht => (congrFun h name).trans ht

/-- One table is replaced. -/
theorem TablesKept.of_setTable {name : TableName} {t t' : TableState}
    (ht : db.tables name = some t) (htables : db'.tables = (db.setTable name t').tables)
    (hkept : name ≠ .rejectedCandidates → Kept name t t')
    (hrejects : name = .rejectedCandidates → Collapsed t.rows t'.rows) : TablesKept db db' := by
  have hself : db'.tables name = some t' := by rw [htables, setTable_self]
  have hother : ∀ name' ≠ name, db'.tables name' = db.tables name' := fun name' hne => by
    rw [htables, setTable_of_ne db _ hne]
  refine ⟨fun name' hname t₁ ht₁ => ?_, fun t₁ ht₁ => ?_⟩
  · by_cases hne : name' = name
    · subst hne
      obtain rfl := Option.some.inj (ht.symm.trans ht₁)
      exact ⟨t', hself, hkept hname⟩
    · exact ⟨t₁, (hother name' hne).trans ht₁, .refl name' t₁⟩
  · by_cases hne : .rejectedCandidates = name
    · subst hne
      obtain rfl := Option.some.inj (ht.symm.trans ht₁)
      exact ⟨t', hself, hrejects rfl⟩
    · exact ⟨t₁, (hother _ hne).trans ht₁, .refl _⟩

theorem TablesKept.trans {db₁ db₂ : Db} (h : TablesKept db db₁) (h' : TablesKept db₁ db₂) :
    TablesKept db db₂ := by
  refine ⟨fun name hname t ht => ?_, fun t ht => ?_⟩
  · obtain ⟨t₁, ht₁, hkept⟩ := h.tables name hname t ht
    obtain ⟨t₂, ht₂, hkept'⟩ := h'.tables name hname t₁ ht₁
    exact ⟨t₂, ht₂, hkept.trans hkept'⟩
  · obtain ⟨t₁, ht₁, hcollapsed⟩ := h.rejects t ht
    obtain ⟨t₂, ht₂, hcollapsed'⟩ := h'.rejects t₁ ht₁
    exact ⟨t₂, ht₂, hcollapsed.trans hcollapsed'⟩

/-- A statement deletes from `rejected_candidates` alone, to which it adds no column, and a rebuild
    carries the columns over. -/
def Stmt.Carries : Stmt → Prop
  | .ensureColumn table _ _ => table ≠ .rejectedCandidates
  | .collapse index => index = .rejectedCandidatesNatural
  | .rebuild r => ∀ c, c = "kind" ∨ c ∈ opsColumns → c ∈ r.columns ∧
      ∀ row, SameCell .mevOps c (row.cells c) ((r.row row).cells c)
  | _ => True

theorem kept_run {s : Stmt} (hs : s.Carries) (h : s.run db = .ok db') : TablesKept db db' := by
  rcases run_cases h with rfl | hcase
  · exact .refl _
  cases s with
  | createTable table columns kinds =>
    obtain ⟨hnone, rfl⟩ := hcase
    refine .of_agree fun name t ht => ?_
    have hne : name ≠ table := by
      rintro rfl
      rw [hnone] at ht
      cases ht
    exact (setTable_of_ne db _ hne).trans ht
  | createIndex index ifTable => exact .of_tables_eq (createIndex_ok hcase).2.2.1
  | ensureColumn table column default =>
    obtain ⟨t, ht, hcolumn, rfl⟩ := hcase
    refine .of_setTable ht rfl (fun _ => ⟨fun c hc _ => List.mem_append_left _ hc, ?_⟩)
      fun hname => absurd hname hs
    refine List.forall₂_map_right_iff.mpr (List.forall₂_same.mpr fun row _ => ?_)
    refine ⟨rfl, fun c hc _ => .inl (Function.update_of_ne ?_ ..)⟩
    rintro rfl
    exact hcolumn hc
  | collapse index =>
    obtain rfl : index = .rejectedCandidatesNatural := hs
    obtain ⟨t, ht, rfl⟩ := hcase
    exact .of_setTable ht rfl (fun hname => absurd rfl hname)
      fun _ => ⟨collapseRows_sublist _ _, fun row hrow => exists_collapseRows _ hrow⟩
  | refuseDuplicates => exact hcase.elim
  | rebuild r =>
    obtain ⟨t, ht, -, hindexes⟩ := hcase
    refine .of_setTable ht (createIndexes_ok hindexes).2.2.1
      (fun _ => ⟨fun c _ hcarried => (hs c (hcarried rfl)).1, ?_⟩) nofun
    refine List.forall₂_map_right_iff.mpr (List.forall₂_same.mpr fun row _ => ?_)
    exact ⟨rfl, fun c _ hcarried => (hs c (hcarried rfl)).2 row⟩

theorem carries_skim : (Stmt.rebuild skimRebuild).Carries := by
  intro c hc
  have hmem : c ∈ "kind" :: opsColumns := List.mem_cons.mpr hc
  refine ⟨List.mem_append_left _ hmem, fun row => .inl ?_⟩
  show (if c ∈ "kind" :: opsColumns then row.cells c else .null) = _
  exact if_pos hmem

theorem carries_utility : (Stmt.rebuild utilityRebuild).Carries := by
  rintro c (rfl | hc)
  · refine ⟨by decide, fun row => ?_⟩
    show SameCell _ _ _ (utilityKind row)
    unfold utilityKind
    split_ifs with hkind
    · exact .inr ⟨rfl, rfl, hkind, rfl⟩
    · exact .inl rfl
  · refine ⟨List.mem_append_left _ hc, fun row => .inl ?_⟩
    have hkind : c ≠ "kind" := by
      rintro rfl
      exact absurd hc (by decide)
    have hsubkind : c ≠ "subkind" := by
      rintro rfl
      exact absurd hc (by decide)
    simp [Rebuild.row, utilityRebuild, hkind.symm, hsubkind.symm, hc]

theorem carries_migrations : ∀ stmts ∈ migrations, ∀ s ∈ stmts, s.Carries := by
  unfold migrations
  simp only [List.forall_mem_cons]
  refine ⟨?_, ?_, ?_, ?_, ⟨carries_skim, ?_⟩, ⟨rfl, ?_⟩, ?_, ⟨carries_utility, ?_⟩, ?_, ?_, ?_, ?_,
    ?_, ?_⟩ <;> simp [migrateV1, pricingFlags, Stmt.Carries]

theorem kept_program : ∀ f ∈ program, ∀ ⦃db₀ db₁ : Db⦄, TablesKept db db₀ →
    f.run db₀ = .ok db₁ → TablesKept db db₁ := by
  intro f hf db₀ db₁ h hrun
  obtain ⟨e, he, rfl⟩ := List.mem_map.mp hf
  have hrun : e.run db₀ = .ok db₁ := hrun
  refine h.trans ?_
  obtain ⟨⟨stmts, i⟩, hstmts, he⟩ := List.mem_flatMap.mp he
  rcases List.mem_append.mp he with he | he
  · obtain ⟨s, hs, rfl⟩ := List.mem_map.mp he
    simp only [Entry.run] at hrun
    split_ifs at hrun
    · cases hrun
      exact .refl _
    · exact kept_run (carries_migrations stmts (List.fst_mem_of_mem_zipIdx hstmts) s hs) hrun
  · obtain rfl := List.mem_singleton.mp he
    cases hrun
    refine .of_tables_eq ?_
    split_ifs <;> rfl

theorem kept_left (h : Left db db') : TablesKept db db' := by
  rcases h with rfl | h
  · exact .refl _
  · refine interrupted_induct kept_program (.of_tables_eq ?_) h
    unfold stampLegacy
    split_ifs <;> rfl

theorem rows_of_opens (hopens : Relation.ReflTransGen Left db db') : TablesKept db db' := by
  induction hopens with
  | refl => exact .refl _
  | tail _ hleft ih => exact ih.trans (kept_left hleft)

/-- **Main theorem.** No open loses, adds, reorders or changes a row of a table in a column that is
    carried over, whether it ends, fails or is interrupted, and however many there are: only the
    kind `unknown` becomes `utility`, and of the candidates with one natural key one stays. -/
theorem rows_kept (hopens : Relation.ReflTransGen Left db db') :
    TablesKept db db' ∧ TablesKept db (migrate db').1 :=
  ⟨rows_of_opens hopens, rows_of_opens (hopens.tail (left_migrate db'))⟩

/-- A row with these values. -/
def rowOf (rowid : ℤ) (cells : List (String × Cell)) : Row :=
  { rowid, cells := fun c => ((cells.find? (·.1 = c)).map Prod.snd).getD .null }

/-- A database from before the list, with an operation of the kind `unknown` and two copies of a
    candidate. -/
def legacy : Db where
  userVersion := 0
  tables
    | .blocksClassified => some ⟨["block", "classified_at", "event_count"], [], []⟩
    | .mevOps => some ⟨"kind" :: opsColumns.dropLast, skimKinds,
        [rowOf 1 [("tx_hash", .text "0xabc"), ("kind", .text "unknown"),
          ("confidence", .text "exact"), ("details_json", .text "[\"keeper\"]")]]⟩
    | .rejectedCandidates => some ⟨rejectedNaturalKey.map KeyColumn.name, [],
        [rowOf 1 [("chain", .text "polygon"), ("block_number", .integer 7),
            ("strategy", .text "explorer_classify"), ("reject_reason", .text "unresolved_cycle")],
          rowOf 2 [("chain", .text "polygon"), ("block_number", .integer 7),
            ("strategy", .text "explorer_classify"), ("reject_reason", .text "unresolved_cycle")]]⟩
    | _ => none
  indexes := []

theorem rows_kept_legacy : (migrate legacy).2 = none ∧ TablesKept legacy (migrate legacy).1 :=
  ⟨by decide +kernel, (rows_kept .refl).2⟩

end MevScout.Explorer.Schema
