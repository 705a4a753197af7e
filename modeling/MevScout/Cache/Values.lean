import MevScout.Cache.Blocks

/-!
# The values of a cached block

Models of `put_block_data`, `get_block` and `get_txs` (`core/src/cache/store/blocks.rs`) with all
the columns that the readers return, over the tables of `Cache/Blocks`. An integer column holds an
`i64`: a `u64` goes through it and back unchanged, and a `u128` keeps its low 64 bits, whose sign
is extended when it is read. The columns with the selector and the name of a call are left out, as
no reader of this module returns them.

Results:
* `fee_kept_iff`: a fee that goes through an `i64` column;
* `getBlock_put`, `getTxs_put`, `getReceipts_put`: what is read of the values that were written;
* `block_data_read_back_iff`: when all of them are read back as they were;
* `fee_truncated`: a fee of `2^64` is read as 0.
-/

namespace MevScout.Cache

open Std Chain

/-! ## Rows -/

/-- `bincode`, for a list of the type `α`. -/
structure ListCodec (α Blob : Type) where
  serialize : List α → Blob
  deserialize : Blob → Except String (List α)
  deserialize_serialize : ∀ l, deserialize (serialize l) = .ok l

section AccessLists

variable {α Blob : Type} (codec : ListCodec α Blob)

/-- Model of `serialize_access_list` (`mod.rs`, lines 317–323). -/
def serializeAccessList (l : List α) : Option Blob :=
  if l.isEmpty then none else some (codec.serialize l)

/-- How `get_txs` reads such a column (`blocks.rs`, lines 248–255). -/
def readAccessList (blob : Option Blob) : List α :=
  (blob.map fun b => (codec.deserialize b).toOption.getD []).getD []

theorem readAccessList_serialize (l : List α) :
    readAccessList codec (serializeAccessList codec l) = l := by
  unfold readAccessList serializeAccessList
  split_ifs with h
  · exact (List.isEmpty_iff.mp h).symm
  · rw [Option.map_some, codec.deserialize_serialize]
    rfl

end AccessLists

/-- A row of `blocks` under its `number`. -/
structure BlockRow where
  hash : B256
  timestamp : ℤ
  baseFeePerGas : Option ℤ
  gasLimit : ℤ
  gasUsed : ℤ
  coinbase : Address
  difficulty : List UInt8
  mixHash : B256
  deriving DecidableEq

/-- A row of `transactions` under its `hash`, less its `block_number`. -/
structure TxRow (Blob : Type) where
  txIndex : ℤ
  txType : ℤ
  fromAddr : Address
  toAddr : Option Address
  input : List UInt8
  value : List UInt8
  gasLimit : ℤ
  maxFeePerGas : ℤ
  maxPriorityFeePerGas : Option ℤ
  nonce : ℤ
  accessList : Option Blob
  authorizationList : Option Blob
  gasPrice : Option ℤ

variable {Blob : Type}

/-- The codecs of the lists of a transaction. -/
structure TxCodec (Blob : Type) where
  access : ListCodec AccessListItem Blob
  authorization : ListCodec AuthorizationData Blob

/-- The values that `put_block_data_batch` binds for a block (`blocks.rs`, lines 80–90). -/
def blockRow (block : BlockData) : BlockRow :=
  { hash := block.hash
    timestamp := asSigned 64 block.timestamp
    baseFeePerGas := block.baseFeePerGas.map (asSigned 64)
    gasLimit := asSigned 64 block.gasLimit
    gasUsed := asSigned 64 block.gasUsed
    coinbase := block.coinbase
    difficulty := beBytes 32 block.difficulty
    mixHash := block.mixHash }

/-- The values that `put_block_data_batch` binds for a transaction (`blocks.rs`, lines 96–123). -/
def txRow (codec : TxCodec Blob) (tx : TxData) : TxRow Blob :=
  { txIndex := asSigned 64 tx.index
    txType := asSigned 64 tx.txType
    fromAddr := tx.sender
    toAddr := tx.recipient
    input := tx.input
    value := beBytes 32 tx.value
    gasLimit := asSigned 64 tx.gasLimit
    maxFeePerGas := asSigned 64 tx.maxFeePerGas
    maxPriorityFeePerGas := tx.maxPriorityFeePerGas.map (asSigned 64)
    nonce := asSigned 64 tx.nonce
    accessList := serializeAccessList codec.access tx.accessList
    authorizationList := serializeAccessList codec.authorization tx.authorizationList
    gasPrice := tx.gasPrice.map (asSigned 64) }

/-- The block of a row (`blocks.rs`, lines 180–197). -/
def readBlock (number : ℤ) (row : BlockRow) : BlockData :=
  { number := asUnsigned 64 number
    hash := row.hash
    timestamp := asUnsigned 64 row.timestamp
    baseFeePerGas := row.baseFeePerGas.map (asUnsigned 128)
    gasLimit := asUnsigned 64 row.gasLimit
    gasUsed := asUnsigned 64 row.gasUsed
    coinbase := row.coinbase
    difficulty := if row.difficulty.length = 32 then beVal row.difficulty else 0
    mixHash := row.mixHash }

/-- The transaction of a row (`blocks.rs`, lines 247–273). -/
def readTx (codec : TxCodec Blob) (p : B256 × TxRow Blob) : TxData :=
  { hash := p.1
    index := asUnsigned 64 p.2.txIndex
    txType := asUnsigned 8 p.2.txType
    sender := p.2.fromAddr
    recipient := p.2.toAddr
    input := p.2.input
    value := beVal p.2.value
    gasLimit := asUnsigned 64 p.2.gasLimit
    maxFeePerGas := asUnsigned 128 p.2.maxFeePerGas
    maxPriorityFeePerGas := p.2.maxPriorityFeePerGas.map (asUnsigned 128)
    gasPrice := p.2.gasPrice.map (asUnsigned 128)
    nonce := asUnsigned 64 p.2.nonce
    accessList := readAccessList codec.access p.2.accessList
    authorizationList := readAccessList codec.authorization p.2.authorizationList }

/-! ## Integers through a column -/

/-- A fee goes through an `i64` column unchanged when it is below `2^63`, or so large that its
    128 bits are the extension of its low 64 bits. -/
def FeeKept (v : ℕ) : Prop := v < 2 ^ 63 ∨ 2 ^ 128 - 2 ^ 63 ≤ v

instance (v : ℕ) : Decidable (FeeKept v) := inferInstanceAs (Decidable (_ ∨ _))

/-- What is read of a `u128` that was written to an `i64` column. -/
def throughColumn (v : ℕ) : ℕ := asUnsigned 128 (asSigned 64 v)

theorem throughColumn_eq (v : ℕ) : asUnsigned 128 (asSigned 64 v) = throughColumn v := rfl

theorem map_throughColumn (o : Option ℕ) :
    (o.map (asSigned 64)).map (asUnsigned 128) = o.map throughColumn := by
  cases o with
  | none => rfl
  | some v => exact congrArg some (throughColumn_eq v)

theorem fee_kept_iff {v : ℕ} (hv : v < 2 ^ 128) : throughColumn v = v ↔ FeeKept v := by
  unfold throughColumn asUnsigned asSigned FeeKept
  rw [Int.bmod_def]
  push_cast
  split_ifs <;> omega

theorem optional_fee_kept_iff {o : Option ℕ} (ho : ∀ v ∈ o, v < 2 ^ 128) :
    o.map throughColumn = o ↔ ∀ v ∈ o, FeeKept v := by
  cases o with
  | none => simp
  | some v =>
    rw [Option.map_some, Option.some_inj, fee_kept_iff (ho v rfl)]
    simp

theorem beVal_beBytes_256 {n : ℕ} (hn : n < 2 ^ 256) : beVal (beBytes 32 n) = n := by
  rw [beVal_beBytes, Nat.mod_eq_of_lt (hn.trans_eq (by norm_num))]

/-! ## Values -/

/-- The fields of a block have the widths of their types. -/
structure BlockFits (block : BlockData) : Prop where
  timestamp_lt : block.timestamp < 2 ^ 64
  baseFee_lt : ∀ v ∈ block.baseFeePerGas, v < 2 ^ 128
  gasLimit_lt : block.gasLimit < 2 ^ 64
  gasUsed_lt : block.gasUsed < 2 ^ 64
  difficulty_lt : block.difficulty < 2 ^ 256

/-- The fields of a transaction have the widths of their types. -/
structure TxFits (tx : TxData) : Prop where
  index_lt : tx.index < 2 ^ 64
  txType_lt : tx.txType < 2 ^ 8
  value_lt : tx.value < 2 ^ 256
  gasLimit_lt : tx.gasLimit < 2 ^ 64
  maxFee_lt : tx.maxFeePerGas < 2 ^ 128
  maxPriorityFee_lt : ∀ v ∈ tx.maxPriorityFeePerGas, v < 2 ^ 128
  gasPrice_lt : ∀ v ∈ tx.gasPrice, v < 2 ^ 128
  nonce_lt : tx.nonce < 2 ^ 64

/-- The fields of a receipt have the widths of their types. -/
structure ReceiptFits (r : ReceiptData) : Prop where
  txIndex_lt : r.txIndex < 2 ^ 64
  gasUsed_lt : r.gasUsed < 2 ^ 64
  cumulativeGasUsed_lt : r.cumulativeGasUsed < 2 ^ 64
  effectiveGasPrice_lt : ∀ v ∈ r.effectiveGasPrice, v < 2 ^ 128

/-- The fees of a transaction go through their columns unchanged. -/
structure TxFeesKept (tx : TxData) : Prop where
  maxFee : FeeKept tx.maxFeePerGas
  maxPriorityFee : ∀ v ∈ tx.maxPriorityFeePerGas, FeeKept v
  gasPrice : ∀ v ∈ tx.gasPrice, FeeKept v

theorem readBlock_blockRow {block : BlockData} (h : BlockFits block) {number : ℕ}
    (hnumber : number < 2 ^ 64) : readBlock (asSigned 64 number) (blockRow block) =
      { block with number, baseFeePerGas := block.baseFeePerGas.map throughColumn } := by
  unfold readBlock blockRow
  dsimp only
  rw [asUnsigned_asSigned le_rfl hnumber, asUnsigned_asSigned le_rfl h.timestamp_lt,
    asUnsigned_asSigned le_rfl h.gasLimit_lt, asUnsigned_asSigned le_rfl h.gasUsed_lt,
    if_pos (length_beBytes 32 _), beVal_beBytes_256 h.difficulty_lt, map_throughColumn]

theorem readTx_txRow (codec : TxCodec Blob) {tx : TxData} (h : TxFits tx) :
    readTx codec (tx.hash, txRow codec tx) =
      { tx with
        maxFeePerGas := throughColumn tx.maxFeePerGas
        maxPriorityFeePerGas := tx.maxPriorityFeePerGas.map throughColumn
        gasPrice := tx.gasPrice.map throughColumn } := by
  unfold readTx txRow
  dsimp only
  rw [asUnsigned_asSigned le_rfl h.index_lt, asUnsigned_asSigned (by norm_num) h.txType_lt,
    asUnsigned_asSigned le_rfl h.gasLimit_lt, asUnsigned_asSigned le_rfl h.nonce_lt,
    beVal_beBytes_256 h.value_lt, readAccessList_serialize, readAccessList_serialize,
    throughColumn_eq, map_throughColumn, map_throughColumn]

theorem readReceipt_receiptRow (codec : Codec Blob) {r : ReceiptData} (h : ReceiptFits r) :
    Tables.readReceipt codec (r.txHash, receiptRow codec r) =
      .ok { r with effectiveGasPrice := r.effectiveGasPrice.map throughColumn } := by
  unfold Tables.readReceipt receiptRow
  dsimp only
  rw [codec.deserialize_serialize, asUnsigned_asSigned le_rfl h.txIndex_lt,
    asUnsigned_asSigned le_rfl h.gasUsed_lt, asUnsigned_asSigned le_rfl h.cumulativeGasUsed_lt,
    map_throughColumn]
  have hstatus : decide ((if r.status then (1 : ℤ) else 0) ≠ 0) = r.status := by
    cases r.status <;> decide
  rw [hstatus]
  rfl

theorem readBlock_eq_iff {block : BlockData} (h : BlockFits block) {number : ℕ}
    (hnumber : number < 2 ^ 64) :
    readBlock (asSigned 64 number) (blockRow block) = block ↔
      block.number = number ∧ ∀ v ∈ block.baseFeePerGas, FeeKept v := by
  rw [readBlock_blockRow h hnumber, ← optional_fee_kept_iff h.baseFee_lt]
  cases block with
  | mk n hash timestamp baseFeePerGas gasLimit gasUsed coinbase difficulty mixHash =>
    simp only [BlockData.mk.injEq, true_and, and_true]
    exact and_congr_left' eq_comm

theorem readTx_eq_iff (codec : TxCodec Blob) {tx : TxData} (h : TxFits tx) :
    readTx codec (tx.hash, txRow codec tx) = tx ↔ TxFeesKept tx := by
  rw [readTx_txRow codec h]
  have hfees : TxFeesKept tx ↔ throughColumn tx.maxFeePerGas = tx.maxFeePerGas ∧
      tx.maxPriorityFeePerGas.map throughColumn = tx.maxPriorityFeePerGas ∧
      tx.gasPrice.map throughColumn = tx.gasPrice := by
    rw [fee_kept_iff h.maxFee_lt, optional_fee_kept_iff h.maxPriorityFee_lt,
      optional_fee_kept_iff h.gasPrice_lt]
    exact ⟨fun h => ⟨h.maxFee, h.maxPriorityFee, h.gasPrice⟩, fun h => ⟨h.1, h.2.1, h.2.2⟩⟩
  rw [hfees]
  cases tx
  simp only [TxData.mk.injEq, true_and, and_true]

theorem readReceipt_eq_iff (codec : Codec Blob) {r : ReceiptData} (h : ReceiptFits r) :
    Tables.readReceipt codec (r.txHash, receiptRow codec r) = .ok r ↔
      ∀ v ∈ r.effectiveGasPrice, FeeKept v := by
  rw [readReceipt_receiptRow codec h, ← optional_fee_kept_iff h.effectiveGasPrice_lt]
  cases r
  simp only [Except.ok.injEq, ReceiptData.mk.injEq, true_and, and_true]

/-! ## The store -/

/-- The store, with the columns of `blocks` and `transactions` that `get_block` and `get_txs`
    return. -/
structure BlockStore (codec : Codec Blob) where
  base : SqliteStore codec
  blocks : ExtTreeMap ℤ BlockRow compare
  txRows : ExtTreeMap B256 (TxRow Blob) compare

variable {codec : Codec Blob} (txCodec : TxCodec Blob)

/-- The rows that a block writes to the tables that it shares with `put_block_data_batch`. -/
def SqliteStore.putRows (s : SqliteStore codec) (number : ℕ) (txs : List TxData)
    (receipts : List ReceiptData) (sigs : Option (List (List (Option String)))) :
    SqliteStore codec where
  tables :=
    let t := txs.foldl (Tables.putTx number) s.tables
    let t := receipts.zipIdx.foldl (Tables.putReceipt codec number sigs) t
    { t with blockMeta := t.blockMeta.insert number 1 }
  decodes := by
    intro hash row hrow
    dsimp only at hrow
    rw [Tables.foldl_putTx, Tables.foldl_putReceipt] at hrow
    rcases Map.mem_of_getElem?_insertAll _ _ hrow with ⟨r, -, -, rfl⟩ | hold
    · exact ⟨r.logs, codec.deserialize_serialize r.logs⟩
    · exact s.decodes hash row hold

namespace BlockStore

/-- Model of `put_block_data` (`blocks.rs`, lines 27–43), a batch of one block (lines 45–170). -/
def putBlockData (s : BlockStore codec) (blockNum : ℕ) (block : BlockData) (txs : List TxData)
    (receipts : List ReceiptData) (eventSigs : Option (List (List (Option String)))) :
    BlockStore codec where
  blocks := s.blocks.insert (asSigned 64 blockNum) (blockRow block)
  txRows := txs.foldl (fun rows tx => rows.insert tx.hash (txRow txCodec tx)) s.txRows
  base := s.base.putRows blockNum txs receipts eventSigs

/-- Model of `get_block` (`blocks.rs`, lines 172–200). -/
def getBlock (s : BlockStore codec) (blockNum : ℕ) : Option BlockData :=
  s.blocks[asSigned 64 blockNum]?.map (readBlock (asSigned 64 blockNum))

/-- The rows of the query of `get_txs`: the transactions of the block, by their index. -/
def txRowsOf (s : BlockStore codec) (blockNum : ℕ) : List (B256 × TxRow Blob) :=
  (s.txRows.toList.filter fun p => s.base.tables.transactions[p.1]? = some blockNum).mergeSort
    fun p q => p.2.txIndex ≤ q.2.txIndex

/-- Model of `get_txs` (`blocks.rs`, lines 236–276) with `block_txs_fetched`. -/
def getTxs (s : BlockStore codec) (blockNum : ℕ) : Option (List TxData) :=
  if s.base.tables.blockMeta[blockNum]? = some 1 then
    some ((s.txRowsOf blockNum).map (readTx txCodec))
  else none

/-- Model of `get_receipts` (`blocks.rs`, lines 301–332). -/
def getReceipts (s : BlockStore codec) (blockNum : ℕ) :
    Except String (Option (List ReceiptData)) := s.base.tables.getReceipts codec blockNum

end BlockStore

/-! ## What is read back -/

/-- A block as it is written: its values have the widths of their types, a hash belongs to one
    transaction and to one receipt, and every receipt has its transaction. -/
structure StoredBlock where
  blockNum : ℕ
  block : BlockData
  txs : List TxData
  receipts : List ReceiptData
  blockNum_lt : blockNum < 2 ^ 64
  block_fits : BlockFits block
  txs_fit : ∀ tx ∈ txs, TxFits tx
  receipts_fit : ∀ r ∈ receipts, ReceiptFits r
  txs_unique : ∀ tx ∈ txs, ∀ tx' ∈ txs, tx.hash = tx'.hash → tx = tx'
  receipts_unique : ∀ r ∈ receipts, ∀ r' ∈ receipts, r.txHash = r'.txHash → r = r'
  covered : ∀ r ∈ receipts, ∃ tx ∈ txs, tx.hash = r.txHash

namespace BlockStore

/-- The store after a block has been written. -/
def put (s : BlockStore codec) (e : StoredBlock)
    (sigs : Option (List (List (Option String)))) : BlockStore codec :=
  s.putBlockData txCodec e.blockNum e.block e.txs e.receipts sigs

/-- The values of a block are read back: the block, and under the hash of every transaction and
    of every receipt that value and no other. -/
structure ReadBack (s : BlockStore codec) (e : StoredBlock) : Prop where
  block_eq : s.getBlock e.blockNum = some e.block
  txs_eq : ∃ ts, s.getTxs txCodec e.blockNum = some ts ∧
    ∀ tx ∈ e.txs, ts.filter (·.hash = tx.hash) = [tx]
  receipts_eq : ∃ rs, s.getReceipts e.blockNum = .ok (some rs) ∧
    ∀ r ∈ e.receipts, rs.filter (·.txHash = r.txHash) = [r]

/-- Every integer of a block goes through its column unchanged. -/
structure ColumnsHold (e : StoredBlock) : Prop where
  number_eq : e.block.number = e.blockNum
  baseFee : ∀ v ∈ e.block.baseFeePerGas, FeeKept v
  txFees : ∀ tx ∈ e.txs, TxFeesKept tx
  effectiveGasPrice : ∀ r ∈ e.receipts, ∀ v ∈ r.effectiveGasPrice, FeeKept v

variable (s : BlockStore codec) (e : StoredBlock) (sigs : Option (List (List (Option String))))

theorem getBlock_put : (s.put txCodec e sigs).getBlock e.blockNum =
    some (readBlock (asSigned 64 e.blockNum) (blockRow e.block)) := by
  show ((s.blocks.insert _ _)[asSigned 64 e.blockNum]?).map _ = _
  rw [Map.getElem?_insert_eq, if_pos rfl]
  rfl

theorem tables_put : (s.put txCodec e sigs).base.tables =
    { transactions := Map.insertAll (fun w : B256 × ℕ => some w.1) (·.2)
        s.base.tables.transactions (e.txs.map fun tx => (tx.hash, e.blockNum))
      receipts := Map.insertAll (fun r : ReceiptData => some r.txHash) (receiptRow codec)
        s.base.tables.receipts e.receipts
      logs := Map.insertAll Tables.logKey id s.base.tables.logs (e.receipts.zipIdx.flatMap fun q =>
        q.1.logs.zipIdx.map (logRow e.blockNum q.1 (sigs.bind (·[q.2]?))))
      blockMeta := s.base.tables.blockMeta.insert e.blockNum 1 } := by
  unfold put putBlockData SqliteStore.putRows
  dsimp only
  rw [Tables.foldl_putTx, Tables.foldl_putReceipt]
  simp

theorem blockMeta_put : (s.put txCodec e sigs).base.tables.blockMeta[e.blockNum]? = some 1 := by
  rw [tables_put, Map.getElem?_insert_eq, if_pos rfl]

theorem transactions_put {tx : TxData} (htx : tx ∈ e.txs) :
    (s.put txCodec e sigs).base.tables.transactions[tx.hash]? = some e.blockNum := by
  rw [tables_put]
  have hmem : (tx.hash, e.blockNum) ∈ e.txs.map fun tx => (tx.hash, e.blockNum) :=
    List.mem_map.mpr ⟨tx, htx, rfl⟩
  obtain ⟨w, hw, hkey, hget⟩ := Map.exists_getElem?_insertAll (fun w : B256 × ℕ => some w.1) (·.2)
    s.base.tables.transactions ⟨_, hmem, rfl⟩
  rw [hget]
  obtain ⟨tx', -, rfl⟩ := List.mem_map.mp hw
  rfl

theorem txRows_put {tx : TxData} (htx : tx ∈ e.txs) :
    (s.put txCodec e sigs).txRows[tx.hash]? = some (txRow txCodec tx) := by
  show (Map.insertAll (fun tx : TxData => some tx.hash) (txRow txCodec) s.txRows
    e.txs)[tx.hash]? = _
  obtain ⟨tx', htx', hkey, hget⟩ := Map.exists_getElem?_insertAll
    (fun tx : TxData => some tx.hash) (txRow txCodec) s.txRows ⟨tx, htx, rfl⟩
  rw [hget, e.txs_unique tx' htx' tx htx (Option.some_inj.mp hkey)]

theorem receipts_put {r : ReceiptData} (hr : r ∈ e.receipts) :
    (s.put txCodec e sigs).base.tables.receipts[r.txHash]? = some (receiptRow codec r) := by
  rw [tables_put]
  obtain ⟨r', hr', hkey, hget⟩ := Map.exists_getElem?_insertAll
    (fun r : ReceiptData => some r.txHash) (receiptRow codec) s.base.tables.receipts ⟨r, hr, rfl⟩
  rw [hget, e.receipts_unique r' hr' r hr (Option.some_inj.mp hkey)]

/-- The row of a key among the rows of a query. -/
theorem filter_query {R : Type} (m : ExtTreeMap B256 R compare) (cond : B256 × R → Bool)
    (le : B256 × R → B256 × R → Bool) {h : B256} {row : R} (hget : m[h]? = some row)
    (hcond : cond (h, row) = true) :
    ((m.toList.filter cond).mergeSort le).filter (·.1 = h) = [(h, row)] := by
  have hfilter : (m.toList.filter cond).filter (·.1 = h) = [(h, row)] := by
    rw [List.filter_comm, Map.filter_toList, hget]
    exact List.filter_cons_of_pos hcond
  have hperm := (List.mergeSort_perm (m.toList.filter cond) le).filter (fun p => decide (p.1 = h))
  rw [hfilter] at hperm
  exact List.perm_singleton.mp hperm

theorem getTxs_put : ∃ ts, (s.put txCodec e sigs).getTxs txCodec e.blockNum = some ts ∧
    ∀ tx ∈ e.txs, ts.filter (·.hash = tx.hash) =
      [readTx txCodec (tx.hash, txRow txCodec tx)] := by
  refine ⟨_, if_pos (blockMeta_put txCodec s e sigs), fun tx htx => ?_⟩
  have hrows := filter_query (s.put txCodec e sigs).txRows
    (fun p => decide ((s.put txCodec e sigs).base.tables.transactions[p.1]? = some e.blockNum))
    (fun p q => p.2.txIndex ≤ q.2.txIndex) (txRows_put txCodec s e sigs htx)
    (decide_eq_true (transactions_put txCodec s e sigs htx))
  rw [List.filter_map]
  exact congrArg (List.map (readTx txCodec)) hrows

theorem getReceipts_put : ∃ rs, (s.put txCodec e sigs).getReceipts e.blockNum = .ok (some rs) ∧
    ∀ r ∈ e.receipts, rs.filter (·.txHash = r.txHash) =
      [Tables.receiptOf codec (r.txHash, receiptRow codec r)] := by
  have hread := (s.put txCodec e sigs).base.readReceipt_of_mem e.blockNum
  refine ⟨((s.put txCodec e sigs).base.tables.receiptRows e.blockNum).map
    (Tables.receiptOf codec), ?_, fun r hr => ?_⟩
  · rw [getReceipts, Tables.getReceipts, if_pos (blockMeta_put txCodec s e sigs), mapM_eq_ok hread]
    rfl
  · obtain ⟨tx, htx, heq⟩ := e.covered r hr
    have htransaction := transactions_put txCodec s e sigs htx
    rw [heq] at htransaction
    have hrows := filter_query (s.put txCodec e sigs).base.tables.receipts
      (fun p => decide ((s.put txCodec e sigs).base.tables.transactions[p.1]? = some e.blockNum))
      (fun p q => p.2.txIndex ≤ q.2.txIndex) (receipts_put txCodec s e sigs hr)
      (decide_eq_true htransaction)
    rw [List.filter_map]
    exact congrArg (List.map (Tables.receiptOf codec)) hrows

theorem receiptOf_eq_iff {r : ReceiptData} (h : ReceiptFits r) :
    Tables.receiptOf codec (r.txHash, receiptRow codec r) = r ↔
      ∀ v ∈ r.effectiveGasPrice, FeeKept v := by
  rw [← readReceipt_eq_iff codec h, Tables.readReceipt_eq (codec.deserialize_serialize r.logs),
    Except.ok.injEq]

/-- **Main theorem.** The values of a block are read back as they were written, from any store,
    exactly when the block is written under its own number and each of its fees is below `2^63`,
    or within `2^63` of `2^128`. -/
theorem block_data_read_back_iff :
    (s.put txCodec e sigs).ReadBack txCodec e ↔ ColumnsHold e := by
  obtain ⟨ts, hts, htxs⟩ := getTxs_put txCodec s e sigs
  obtain ⟨rs, hrs, hreceipts⟩ := getReceipts_put txCodec s e sigs
  have hblock := getBlock_put txCodec s e sigs
  constructor
  · rintro ⟨hb, ⟨ts', hts', htxs'⟩, ⟨rs', hrs', hreceipts'⟩⟩
    obtain rfl := Option.some.inj (hts.symm.trans hts')
    obtain rfl := Option.some.inj (Except.ok.inj (hrs.symm.trans hrs'))
    obtain ⟨hnumber, hfee⟩ := (readBlock_eq_iff e.block_fits e.blockNum_lt).mp
      (Option.some.inj (hblock.symm.trans hb))
    refine ⟨hnumber, hfee, fun tx htx => ?_, fun r hr => ?_⟩
    · exact (readTx_eq_iff txCodec (e.txs_fit tx htx)).mp
        (List.singleton_inj.mp ((htxs tx htx).symm.trans (htxs' tx htx)))
    · exact (receiptOf_eq_iff (e.receipts_fit r hr)).mp
        (List.singleton_inj.mp ((hreceipts r hr).symm.trans (hreceipts' r hr)))
  · rintro ⟨hnumber, hfee, htxFees, hprices⟩
    refine ⟨?_, ⟨ts, hts, fun tx htx => ?_⟩, ⟨rs, hrs, fun r hr => ?_⟩⟩
    · rw [hblock, (readBlock_eq_iff e.block_fits e.blockNum_lt).mpr ⟨hnumber, hfee⟩]
    · rw [htxs tx htx, (readTx_eq_iff txCodec (e.txs_fit tx htx)).mpr (htxFees tx htx)]
    · rw [hreceipts r hr, (receiptOf_eq_iff (e.receipts_fit r hr)).mpr (hprices r hr)]

end BlockStore

/-! ## A truncated fee -/

/-- Lists that are kept as they are. -/
abbrev PlainBlob := List LogData ⊕ List AccessListItem ⊕ List AuthorizationData

def plainLogCodec : Codec PlainBlob where
  serialize := .inl
  deserialize b := b.elim .ok fun _ => .error "not a list of logs"
  deserialize_serialize _ := rfl

def plainTxCodec : TxCodec PlainBlob where
  access :=
    { serialize := fun l => .inr (.inl l)
      deserialize := fun b => b.elim (fun _ => .error "not an access list")
        (Sum.elim .ok fun _ => .error "not an access list")
      deserialize_serialize := fun _ => rfl }
  authorization :=
    { serialize := fun l => .inr (.inr l)
      deserialize := fun b => b.elim (fun _ => .error "not an authorization list")
        (Sum.elim (fun _ => .error "not an authorization list") .ok)
      deserialize_serialize := fun _ => rfl }

/-- A store without rows. -/
def emptyBlockStore : BlockStore plainLogCodec where
  base := { tables := {}, decodes := by simp }
  blocks := ∅
  txRows := ∅

/-- Block 7 with one transaction, and the fees `baseFee` and `gasPrice`. -/
def feeBlock (baseFee gasPrice : ℕ) (hbase : baseFee < 2 ^ 128) (hgas : gasPrice < 2 ^ 128) :
    StoredBlock where
  blockNum := 7
  block :=
    { number := 7, hash := 1, timestamp := 1700000000, baseFeePerGas := some baseFee
      gasLimit := 30000000, gasUsed := 21000, coinbase := 5, difficulty := 0, mixHash := 2 }
  txs := [{ sampleTx 0 with gasPrice := some gasPrice }]
  receipts := [sampleReceipt 0 []]
  blockNum_lt := by decide
  block_fits := by
    constructor <;> simp
    omega
  txs_fit := by
    simp only [List.mem_singleton, forall_eq]
    constructor <;> simp [sampleTx]
    omega
  receipts_fit := by
    simp only [List.mem_singleton, forall_eq]
    constructor <;> simp [sampleReceipt]
  txs_unique := by simp
  receipts_unique := by simp
  covered := by simp [sampleTx, sampleReceipt]

/-- A base fee of `2^64` is read as 0, and a gas price of `2^63` as one close to `2^128`. -/
theorem fee_truncated :
    let s := emptyBlockStore.put plainTxCodec (feeBlock (2 ^ 64) (2 ^ 63) (by decide) (by decide))
      none
    (s.getBlock 7).map (·.baseFeePerGas) = some (some 0) ∧
      (s.getTxs plainTxCodec 7).map (·.map (·.gasPrice)) = some [some (2 ^ 128 - 2 ^ 63)] := by
  decide +kernel

end MevScout.Cache
