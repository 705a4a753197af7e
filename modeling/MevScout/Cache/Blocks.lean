import MevScout.Chain.Data
import MevScout.Common.Bytes
import MevScout.Common.Grouping
import MevScout.Common.Int
import MevScout.Common.Map
import MevScout.Common.Run

/-!
# The cache of blocks

Models of `core/src/cache/store/blocks.rs` over the tables of `core/src/cache/store/mod.rs`:
the write of a batch of blocks and the read of the receipts of a block. A table is a map from
its primary key, and `INSERT OR REPLACE` is the insertion. The logs of a receipt are written
twice: as one blob in the row of the receipt, and as rows of their own whose key is the block
and the position in the receipt. The columns that `get_receipts` does not read are left out,
those of `logs` apart.

Results:
* `receipts_read_back`: the receipts of a block are read back with all their logs;
* `logs_kept_iff`: when no log takes the row of another log of its block;
* `log_overwritten`: two transactions with a log each.
-/

namespace MevScout.Cache

open Std Chain

/-! ## Tables -/

/-- `bincode`, for the logs of a receipt. -/
structure Codec (Blob : Type) where
  serialize : List LogData → Blob
  deserialize : Blob → Except String (List LogData)
  deserialize_serialize : ∀ logs, deserialize (serialize logs) = .ok logs

/-- A row of `receipts` under its `tx_hash`. -/
structure ReceiptRow (Blob : Type) where
  txIndex : ℤ
  status : ℤ
  gasUsed : ℤ
  cumulativeGasUsed : ℤ
  logs : Blob
  contractAddress : Option Address
  effectiveGasPrice : Option ℤ

/-- Model of `NormalizedLog` (`core/src/data/types.rs`, lines 89–103), a row of `logs`. -/
structure NormalizedLog where
  blockNumber : ℕ
  txIndex : ℤ
  logIndex : ℕ
  address : Address
  topic0 : Option B256
  topic1 : Option B256
  topic2 : Option B256
  topic3 : Option B256
  data : List UInt8
  erc20Amount : Option ℕ
  eventSig : Option String
  deriving DecidableEq

/-- The key of `logs` is the block and the index. -/
instance instOrdLogKey : Ord (ℕ × ℕ) := lexOrd

/-- The tables. `transactions` holds the block of a hash, `blockMeta` the flag `txs_fetched`. -/
structure Tables (Blob : Type) where
  transactions : ExtTreeMap B256 ℕ compare := ∅
  receipts : ExtTreeMap B256 (ReceiptRow Blob) compare := ∅
  logs : ExtTreeMap (ℕ × ℕ) NormalizedLog compare := ∅
  blockMeta : ExtTreeMap ℕ ℕ compare := ∅

/-! ## Blocks -/

/-- A block as it is fetched: every receipt has its transaction, the receipts stand in the
    order of their transactions, and a log has at most four topics. -/
structure FetchedBlock where
  number : ℕ
  txs : List TxData
  receipts : List ReceiptData
  covered : ∀ r ∈ receipts, ∃ tx ∈ txs, tx.hash = r.txHash
  nodup : (receipts.map (·.txHash)).Nodup
  sorted : (receipts.map (·.txIndex)).Pairwise (· < ·)
  txIndex_lt : ∀ r ∈ receipts, r.txIndex < 2 ^ 63
  topics_le : ∀ r ∈ receipts, ∀ l ∈ r.logs, l.topics.length ≤ 4

/-- The blocks of a batch: a number or a transaction does not belong to two of them. -/
structure Batch where
  blocks : List FetchedBlock
  unique : ∀ e ∈ blocks, ∀ e' ∈ blocks,
    (e.number = e'.number ∨ ∃ tx ∈ e.txs, ∃ tx' ∈ e'.txs, tx.hash = tx'.hash) → e = e'

/-- The names of the events of the logs, by block, receipt and log. -/
abbrev EventSigs := Option (List (List (List (Option String))))

/-! ## Writes -/

/-- Model of `decode_erc20_amount` (`mod.rs`, lines 355–363). -/
def decodeErc20Amount (log : LogData) : Option ℕ :=
  if log.topics.head? = some transferTopic ∧ 32 ≤ log.data.length then
    some (beVal (log.data.drop (log.data.length - 32)))
  else none

/-- The values that `put_block_data_batch` binds for a receipt. -/
def receiptRow {Blob : Type} (codec : Codec Blob) (r : ReceiptData) : ReceiptRow Blob :=
  { txIndex := asSigned 64 r.txIndex
    status := if r.status then 1 else 0
    gasUsed := asSigned 64 r.gasUsed
    cumulativeGasUsed := asSigned 64 r.cumulativeGasUsed
    logs := codec.serialize r.logs
    contractAddress := r.contractAddress
    effectiveGasPrice := r.effectiveGasPrice.map (asSigned 64) }

theorem receiptRow_txIndex {Blob : Type} (codec : Codec Blob) {r : ReceiptData}
    (h : r.txIndex < 2 ^ 63) : (receiptRow codec r).txIndex = r.txIndex := by
  unfold receiptRow
  dsimp only
  rw [asSigned_eq (w := 63) h]

/-- The values that `put_block_data_batch` binds for the log with the index `p.2` of a
    receipt. -/
def logRow (number : ℕ) (r : ReceiptData) (receiptSigs : Option (List (Option String)))
    (p : LogData × ℕ) : NormalizedLog :=
  { blockNumber := number
    txIndex := asSigned 64 r.txIndex
    logIndex := p.2
    address := p.1.address
    topic0 := p.1.topics[0]?
    topic1 := p.1.topics[1]?
    topic2 := p.1.topics[2]?
    topic3 := p.1.topics[3]?
    data := p.1.data
    erc20Amount := decodeErc20Amount p.1
    eventSig := (receiptSigs.bind (·[p.2]?)).bind id }

variable {Blob : Type} (codec : Codec Blob)

/-- The topics of a row. -/
def NormalizedLog.topics (row : NormalizedLog) : List B256 :=
  [row.topic0, row.topic1, row.topic2, row.topic3].reduceOption

namespace Tables

/-- `tx_stmt.execute`. -/
def putTx (number : ℕ) (t : Tables Blob) (tx : TxData) : Tables Blob :=
  { t with transactions := t.transactions.insert tx.hash number }

/-- `log_stmt.execute`. -/
def putLog (t : Tables Blob) (row : NormalizedLog) : Tables Blob :=
  { t with logs := t.logs.insert (row.blockNumber, row.logIndex) row }

/-- The loop body for the receipt with the index `p.2` (`blocks.rs`, lines 125–162). -/
def putReceipt (number : ℕ) (blockSigs : Option (List (List (Option String))))
    (t : Tables Blob) (p : ReceiptData × ℕ) : Tables Blob :=
  let t := { t with receipts := t.receipts.insert p.1.txHash (receiptRow codec p.1) }
  (p.1.logs.zipIdx.map (logRow number p.1 (blockSigs.bind (·[p.2]?)))).foldl putLog t

/-- The loop body for the block with the index `p.2` (`blocks.rs`, lines 79–165). -/
def putBlock (sigs : EventSigs) (t : Tables Blob) (p : FetchedBlock × ℕ) : Tables Blob :=
  let t := p.1.txs.foldl (putTx p.1.number) t
  let t := p.1.receipts.zipIdx.foldl (putReceipt codec p.1.number (sigs.bind (·[p.2]?))) t
  { t with blockMeta := t.blockMeta.insert p.1.number 1 }

/-- Model of `put_block_data_batch` (`blocks.rs`, lines 45–170). -/
def putBlockDataBatch (sigs : EventSigs) (t : Tables Blob) (batch : List FetchedBlock) :
    Tables Blob :=
  batch.zipIdx.foldl (putBlock codec sigs) t

/-! ## Reads -/

/-- The receipt of a row of the query. -/
def readReceipt (p : B256 × ReceiptRow Blob) : Except String ReceiptData := do
  let logs ← codec.deserialize p.2.logs
  return {
    txHash := p.1
    txIndex := asUnsigned 64 p.2.txIndex
    status := p.2.status ≠ 0
    gasUsed := asUnsigned 64 p.2.gasUsed
    cumulativeGasUsed := asUnsigned 64 p.2.cumulativeGasUsed
    effectiveGasPrice := p.2.effectiveGasPrice.map (asUnsigned 128)
    logs := logs
    contractAddress := p.2.contractAddress }

/-- The rows of the query of `get_receipts`: the receipts of the transactions of the block,
    by their index. -/
def receiptRows (t : Tables Blob) (number : ℕ) : List (B256 × ReceiptRow Blob) :=
  (t.receipts.toList.filter fun p => t.transactions[p.1]? = some number).mergeSort
    fun p q => p.2.txIndex ≤ q.2.txIndex

/-- Model of `get_receipts` (`blocks.rs`, lines 301–332) with `block_txs_fetched`. -/
def getReceipts (t : Tables Blob) (number : ℕ) : Except String (Option (List ReceiptData)) :=
  if t.blockMeta[number]? = some 1 then
    ((t.receiptRows number).mapM (readReceipt codec)).map some
  else .ok none

end Tables

/-! ## What a batch writes -/

/-- The rows of `transactions` that a block writes. -/
def txWrites (p : FetchedBlock × ℕ) : List (B256 × ℕ) :=
  p.1.txs.map fun tx => (tx.hash, p.1.number)

/-- The rows of `logs` that a block writes. -/
def logWrites (sigs : EventSigs) (p : FetchedBlock × ℕ) : List NormalizedLog :=
  p.1.receipts.zipIdx.flatMap fun q =>
    q.1.logs.zipIdx.map (logRow p.1.number q.1 ((sigs.bind (·[p.2]?)).bind (·[q.2]?)))

namespace Tables

/-- The key of a row of `logs`. -/
def logKey (row : NormalizedLog) : Option (ℕ × ℕ) := some (row.blockNumber, row.logIndex)

theorem foldl_putLog (t : Tables Blob) (rows : List NormalizedLog) :
    rows.foldl putLog t = { t with logs := Map.insertAll logKey id t.logs rows } := by
  induction rows generalizing t with
  | nil => rfl
  | cons row rows ih => exact ih _

theorem foldl_putTx (number : ℕ) (t : Tables Blob) (txs : List TxData) :
    txs.foldl (putTx number) t =
      { t with
        transactions := Map.insertAll (fun w : B256 × ℕ => some w.1) (·.2) t.transactions
          (txs.map fun tx => (tx.hash, number)) } := by
  induction txs generalizing t with
  | nil => rfl
  | cons tx txs ih => exact ih _

theorem putReceipt_eq (number : ℕ) (blockSigs : Option (List (List (Option String))))
    (t : Tables Blob) (p : ReceiptData × ℕ) :
    putReceipt codec number blockSigs t p =
      { t with
        receipts := t.receipts.insert p.1.txHash (receiptRow codec p.1)
        logs := Map.insertAll logKey id t.logs
          (p.1.logs.zipIdx.map (logRow number p.1 (blockSigs.bind (·[p.2]?)))) } := by
  unfold putReceipt
  rw [foldl_putLog]

theorem foldl_putReceipt (number : ℕ) (blockSigs : Option (List (List (Option String))))
    (t : Tables Blob) (l : List (ReceiptData × ℕ)) :
    l.foldl (putReceipt codec number blockSigs) t =
      { t with
        receipts := Map.insertAll (fun r : ReceiptData => some r.txHash) (receiptRow codec)
          t.receipts (l.map (·.1))
        logs := Map.insertAll logKey id t.logs (l.flatMap fun q =>
          q.1.logs.zipIdx.map (logRow number q.1 (blockSigs.bind (·[q.2]?)))) } := by
  induction l generalizing t with
  | nil => rfl
  | cons p l ih =>
    rw [List.foldl_cons, ih, putReceipt_eq, List.flatMap_cons, Map.insertAll_append]
    rfl

theorem putBlock_eq (sigs : EventSigs) (t : Tables Blob) (p : FetchedBlock × ℕ) :
    putBlock codec sigs t p =
      { transactions := Map.insertAll (fun w : B256 × ℕ => some w.1) (·.2) t.transactions
          (txWrites p)
        receipts := Map.insertAll (fun r : ReceiptData => some r.txHash) (receiptRow codec)
          t.receipts p.1.receipts
        logs := Map.insertAll logKey id t.logs (logWrites sigs p)
        blockMeta := t.blockMeta.insert p.1.number 1 } := by
  unfold putBlock
  dsimp only
  rw [foldl_putTx, foldl_putReceipt]
  simp [txWrites, logWrites]

/-- The tables after a batch. -/
theorem foldl_putBlock (sigs : EventSigs) (t : Tables Blob) (l : List (FetchedBlock × ℕ)) :
    l.foldl (putBlock codec sigs) t =
      { transactions := Map.insertAll (fun w : B256 × ℕ => some w.1) (·.2) t.transactions
          (l.flatMap txWrites)
        receipts := Map.insertAll (fun r : ReceiptData => some r.txHash) (receiptRow codec)
          t.receipts (l.flatMap (·.1.receipts))
        logs := Map.insertAll logKey id t.logs (l.flatMap (logWrites sigs))
        blockMeta := Map.insertAll (fun p : FetchedBlock × ℕ => some p.1.number) (fun _ => 1)
          t.blockMeta l } := by
  induction l generalizing t with
  | nil => rfl
  | cons p l ih =>
    rw [List.foldl_cons, ih, putBlock_eq]
    simp only [List.flatMap_cons, Map.insertAll_append]
    rfl

/-- What a row of `receipts` with a readable blob is read as. -/
def receiptOf (p : B256 × ReceiptRow Blob) : ReceiptData :=
  { txHash := p.1
    txIndex := asUnsigned 64 p.2.txIndex
    status := p.2.status ≠ 0
    gasUsed := asUnsigned 64 p.2.gasUsed
    cumulativeGasUsed := asUnsigned 64 p.2.cumulativeGasUsed
    effectiveGasPrice := p.2.effectiveGasPrice.map (asUnsigned 128)
    logs := (codec.deserialize p.2.logs).toOption.getD []
    contractAddress := p.2.contractAddress }

variable {codec} in
theorem readReceipt_eq {p : B256 × ReceiptRow Blob} {logs : List LogData}
    (h : codec.deserialize p.2.logs = .ok logs) :
    readReceipt codec p = .ok (receiptOf codec p) := by
  unfold readReceipt receiptOf
  rw [h]
  rfl

end Tables

/-! ## The store -/

/-- The store: the blobs of its receipts can be read. -/
structure SqliteStore (codec : Codec Blob) where
  tables : Tables Blob
  decodes : ∀ (hash : B256) (row : ReceiptRow Blob), tables.receipts[hash]? = some row →
    ∃ logs, codec.deserialize row.logs = .ok logs

namespace SqliteStore

variable {codec}

/-- `put_block_data_batch` on the store. -/
def putBlockDataBatch (s : SqliteStore codec) (batch : Batch) (sigs : EventSigs) :
    SqliteStore codec where
  tables := s.tables.putBlockDataBatch codec sigs batch.blocks
  decodes := by
    intro hash row hrow
    rw [Tables.putBlockDataBatch, Tables.foldl_putBlock] at hrow
    rcases Map.mem_of_getElem?_insertAll _ _ hrow with ⟨r, -, -, rfl⟩ | hold
    · exact ⟨r.logs, codec.deserialize_serialize r.logs⟩
    · exact s.decodes hash row hold

/-- The hash of a receipt with its logs. -/
def logsOf (r : ReceiptData) : B256 × List LogData := (r.txHash, r.logs)

/-- The receipts of a block are read back with all their logs, in order. -/
def ReadBack (s : SqliteStore codec) (e : FetchedBlock) : Prop :=
  ∃ rs, s.tables.getReceipts codec e.number = .ok (some rs) ∧
    (e.receipts.map logsOf).Sublist (rs.map logsOf)

/-- A log of a receipt has its row. -/
def HasRow (s : SqliteStore codec) (e : FetchedBlock) (r : ReceiptData) (i : ℕ) (l : LogData) :
    Prop :=
  ∃ row, s.tables.logs[(e.number, i)]? = some row ∧ row.txIndex = asSigned 64 r.txIndex ∧
    row.address = l.address ∧ row.topics = l.topics ∧ row.data = l.data

/-- Nothing of the logs of a block is lost. -/
def LogsKept (s : SqliteStore codec) (e : FetchedBlock) : Prop :=
  s.ReadBack e ∧ ∀ r ∈ e.receipts, ∀ i l, r.logs[i]? = some l → s.HasRow e r i l

/-! ## The receipts -/

variable {s : SqliteStore codec} {batch : Batch} {sigs : EventSigs} {e : FetchedBlock}

theorem exists_mem_zipIdx (he : e ∈ batch.blocks) : ∃ k, (e, k) ∈ batch.blocks.zipIdx := by
  obtain ⟨k, hk⟩ := List.getElem?_of_mem he
  exact ⟨k, List.mk_mem_zipIdx_iff_getElem?.mpr hk⟩

/-- Two blocks of a batch with a receipt of one transaction are one block. -/
theorem eq_of_txHash {e' : FetchedBlock} (he : e ∈ batch.blocks) (he' : e' ∈ batch.blocks)
    {r : ReceiptData} (hr : r ∈ e.receipts) {tx : TxData} (htx : tx ∈ e'.txs)
    (h : tx.hash = r.txHash) : e' = e := by
  obtain ⟨tx', htx', heq⟩ := e.covered r hr
  exact batch.unique e' he' e he (Or.inr ⟨tx, htx, tx', htx', h.trans heq.symm⟩)

theorem getElem?_transactions (he : e ∈ batch.blocks) {r : ReceiptData} (hr : r ∈ e.receipts) :
    (s.putBlockDataBatch batch sigs).tables.transactions[r.txHash]? = some e.number := by
  show (Tables.putBlockDataBatch ..).transactions[r.txHash]? = _
  rw [Tables.putBlockDataBatch, Tables.foldl_putBlock]
  have hwrite : ∃ w ∈ batch.blocks.zipIdx.flatMap txWrites, some w.1 = some r.txHash := by
    obtain ⟨tx, htx, heq⟩ := e.covered r hr
    obtain ⟨k, hk⟩ := exists_mem_zipIdx he
    exact ⟨(tx.hash, e.number), List.mem_flatMap.mpr ⟨_, hk, List.mem_map_of_mem htx⟩, by rw [heq]⟩
  obtain ⟨w, hw, hkey, hget⟩ := Map.exists_getElem?_insertAll (fun w : B256 × ℕ => some w.1) (·.2)
    s.tables.transactions hwrite
  rw [hget]
  obtain ⟨p, hp, hw⟩ := List.mem_flatMap.mp hw
  obtain ⟨tx, htx, rfl⟩ := List.mem_map.mp hw
  rw [eq_of_txHash he (List.fst_mem_of_mem_zipIdx hp) hr htx (Option.some_inj.mp hkey)]

theorem getElem?_receipts (he : e ∈ batch.blocks) {r : ReceiptData} (hr : r ∈ e.receipts) :
    (s.putBlockDataBatch batch sigs).tables.receipts[r.txHash]? = some (receiptRow codec r) := by
  show (Tables.putBlockDataBatch ..).receipts[r.txHash]? = _
  rw [Tables.putBlockDataBatch, Tables.foldl_putBlock]
  have hwrite : ∃ r' ∈ batch.blocks.zipIdx.flatMap (·.1.receipts),
      some r'.txHash = some r.txHash := by
    obtain ⟨k, hk⟩ := exists_mem_zipIdx he
    exact ⟨r, List.mem_flatMap.mpr ⟨_, hk, hr⟩, rfl⟩
  obtain ⟨r', hr', hkey, hget⟩ := Map.exists_getElem?_insertAll
    (fun r : ReceiptData => some r.txHash) (receiptRow codec) s.tables.receipts hwrite
  rw [hget]
  obtain ⟨p, hp, hr'⟩ := List.mem_flatMap.mp hr'
  obtain ⟨tx, htx, heq⟩ := p.1.covered r' hr'
  have hhash := Option.some_inj.mp hkey
  obtain rfl : p.1 = e :=
    eq_of_txHash he (List.fst_mem_of_mem_zipIdx hp) hr htx (heq.trans hhash)
  rw [List.inj_on_of_nodup_map p.1.nodup hr' hr hhash]

theorem getElem?_blockMeta (he : e ∈ batch.blocks) :
    (s.putBlockDataBatch batch sigs).tables.blockMeta[e.number]? = some 1 := by
  show (Tables.putBlockDataBatch ..).blockMeta[e.number]? = _
  rw [Tables.putBlockDataBatch, Tables.foldl_putBlock]
  obtain ⟨k, hk⟩ := exists_mem_zipIdx he
  obtain ⟨-, -, -, hget⟩ := Map.exists_getElem?_insertAll
    (fun p : FetchedBlock × ℕ => some p.1.number) (fun _ => 1) s.tables.blockMeta
    ⟨(e, k), hk, rfl⟩
  exact hget

/-- The rows of the receipts of a block stand in the query in their order. -/
theorem sublist_receiptRows (he : e ∈ batch.blocks) :
    (e.receipts.map fun r => (r.txHash, receiptRow codec r)).Sublist
      ((s.putBlockDataBatch batch sigs).tables.receiptRows e.number) := by
  let index : B256 × ReceiptRow Blob → ℤ := fun p => p.2.txIndex
  refine @Grouping.sublist_of_sorted _ _ _ index _ _ ?_ ?_ ?_
  · have hindex : (e.receipts.map fun r => (r.txHash, receiptRow codec r)).map index =
        (e.receipts.map (·.txIndex)).map (Nat.cast : ℕ → ℤ) := by
      rw [List.map_map, List.map_map]
      refine List.map_congr_left fun r hr => ?_
      rw [Function.comp_apply, Function.comp_apply]
      exact receiptRow_txIndex codec (e.txIndex_lt r hr)
    rw [hindex, List.pairwise_map]
    exact e.sorted.imp fun h => Int.ofNat_lt.mpr h
  · have hsort := @List.pairwise_mergeSort _
      (fun p q : B256 × ReceiptRow Blob => decide (p.2.txIndex ≤ q.2.txIndex))
      (fun a b c hab hbc => by simp only [decide_eq_true_eq] at *; omega)
      (fun a b => by simp only [Bool.or_eq_true, decide_eq_true_eq]; omega)
    exact (hsort _).imp fun h => by simpa using h
  · intro p hp
    obtain ⟨r, hr, rfl⟩ := List.mem_map.mp hp
    rw [Tables.receiptRows, List.mem_mergeSort, List.mem_filter,
      Std.ExtTreeMap.mem_toList_iff_getElem?_eq_some]
    exact ⟨getElem?_receipts he hr, by simpa using getElem?_transactions he hr⟩

/-- Every row of a block is read: its blob decodes. -/
theorem readReceipt_of_mem (t : SqliteStore codec) (number : ℕ) :
    ∀ p ∈ t.tables.receiptRows number,
      Tables.readReceipt codec p = .ok (Tables.receiptOf codec p) := by
  intro p hp
  rw [Tables.receiptRows, List.mem_mergeSort, List.mem_filter,
    Std.ExtTreeMap.mem_toList_iff_getElem?_eq_some] at hp
  obtain ⟨logs, hlogs⟩ := t.decodes p.1 p.2 hp.1
  exact Tables.readReceipt_eq hlogs

/-- The receipts of a block are read back with all their logs. -/
theorem receipts_read_back (he : e ∈ batch.blocks) :
    (s.putBlockDataBatch batch sigs).ReadBack e := by
  set t := (s.putBlockDataBatch batch sigs) with ht
  refine ⟨(t.tables.receiptRows e.number).map (Tables.receiptOf codec), ?_, ?_⟩
  · rw [Tables.getReceipts, if_pos (getElem?_blockMeta he),
      mapM_eq_ok (t.readReceipt_of_mem e.number)]
    rfl
  · have hsub : (e.receipts.map fun r => (r.txHash, receiptRow codec r)).Sublist
        (t.tables.receiptRows e.number) := sublist_receiptRows he
    replace hsub := hsub.map (logsOf ∘ Tables.receiptOf codec)
    rw [List.map_map] at hsub
    rw [List.map_map]
    refine cast (congrArg (List.Sublist · _) (List.map_congr_left fun r _ => ?_)) hsub
    simp [logsOf, Tables.receiptOf, receiptRow, codec.deserialize_serialize]
    rfl

/-! ## The rows of the logs -/

theorem reduceOption_topics {topics : List B256} (h : topics.length ≤ 4) :
    [topics[0]?, topics[1]?, topics[2]?, topics[3]?].reduceOption = topics := by
  match topics, h with
  | [], _ => rfl
  | [_], _ => rfl
  | [_, _], _ => rfl
  | [_, _, _], _ => rfl
  | [_, _, _, _], _ => rfl
  | _ :: _ :: _ :: _ :: _ :: _, h => exact absurd h (by simp)

/-- A row is written for a log of a receipt of a block. -/
theorem exists_of_mem_logWrites {row : NormalizedLog}
    (h : row ∈ batch.blocks.zipIdx.flatMap (logWrites sigs)) :
    ∃ e' ∈ batch.blocks, ∃ r ∈ e'.receipts, ∃ i l names, r.logs[i]? = some l ∧
      row = logRow e'.number r names (l, i) := by
  obtain ⟨p, hp, hrow⟩ := List.mem_flatMap.mp h
  obtain ⟨q, hq, hrow⟩ := List.mem_flatMap.mp hrow
  obtain ⟨x, hx, rfl⟩ := List.mem_map.mp hrow
  exact ⟨p.1, List.fst_mem_of_mem_zipIdx hp, q.1, List.fst_mem_of_mem_zipIdx hq, x.2, x.1, _,
    List.mem_zipIdx_iff_getElem?.mp hx, rfl⟩

/-- Every log of a receipt is written to a row. -/
theorem exists_mem_logWrites (sigs : EventSigs) (he : e ∈ batch.blocks) {r : ReceiptData}
    (hr : r ∈ e.receipts) {i : ℕ} {l : LogData} (hl : r.logs[i]? = some l) :
    ∃ row ∈ batch.blocks.zipIdx.flatMap (logWrites sigs),
      Tables.logKey row = some (e.number, i) := by
  obtain ⟨k, hk⟩ := exists_mem_zipIdx he
  obtain ⟨m, hm⟩ := List.getElem?_of_mem hr
  refine ⟨_, List.mem_flatMap.mpr ⟨(e, k), hk, List.mem_flatMap.mpr ⟨(r, m), ?_,
    List.mem_map_of_mem (List.mk_mem_zipIdx_iff_getElem?.mpr hl)⟩⟩, rfl⟩
  exact List.mk_mem_zipIdx_iff_getElem?.mpr hm

/-- A log has its row when its receipt is the only one with logs. -/
theorem hasRow_of_length_le (he : e ∈ batch.blocks)
    (h : (e.receipts.filter (·.logs ≠ [])).length ≤ 1) {r : ReceiptData} (hr : r ∈ e.receipts)
    {i : ℕ} {l : LogData} (hl : r.logs[i]? = some l) :
    (s.putBlockDataBatch batch sigs).HasRow e r i l := by
  obtain ⟨row, hrow, hkey, hget⟩ := Map.exists_getElem?_insertAll Tables.logKey id s.tables.logs
    (exists_mem_logWrites sigs he hr hl)
  refine ⟨row, ?_, ?_⟩
  · show (Tables.putBlockDataBatch ..).logs[(e.number, i)]? = _
    rw [Tables.putBlockDataBatch, Tables.foldl_putBlock]
    exact hget
  -- the row that stays is of the block, of the one receipt with logs, and of the index
  obtain ⟨e', he', r', hr', j, l', names, hl', rfl⟩ := exists_of_mem_logWrites hrow
  obtain ⟨hnumber, rfl⟩ : e'.number = e.number ∧ j = i := by
    simpa [Tables.logKey, logRow] using hkey
  obtain rfl : e' = e := batch.unique e' he' e he (Or.inl hnumber)
  have hmem : ∀ {r : ReceiptData} {l : LogData}, r ∈ e'.receipts → r.logs[j]? = some l →
      r ∈ e'.receipts.filter (·.logs ≠ []) := by
    intro r l hr hl
    refine List.mem_filter.mpr ⟨hr, ?_⟩
    simpa using List.ne_nil_of_mem (List.mem_of_getElem? hl)
  obtain rfl : r' = r := by
    have hr₁ := hmem hr' hl'
    have hr₂ := hmem hr hl
    rcases hfilter : e'.receipts.filter (·.logs ≠ []) with _ | ⟨a, _ | ⟨b, rest⟩⟩
    · rw [hfilter] at hr₁
      exact absurd hr₁ List.not_mem_nil
    · rw [hfilter, List.mem_singleton] at hr₁ hr₂
      rw [hr₁, hr₂]
    · rw [hfilter] at h
      simp at h
  obtain rfl : l' = l := Option.some_inj.mp (hl'.symm.trans hl)
  refine ⟨?_, rfl, reduceOption_topics (e'.topics_le r' hr' l' (List.mem_of_getElem? hl)), rfl⟩
  rw [logRow]

/-- Two receipts cannot both have a row for their first logs. -/
theorem length_le_of_hasRow {t : SqliteStore codec}
    (h : ∀ r ∈ e.receipts, ∀ i l, r.logs[i]? = some l → t.HasRow e r i l) :
    (e.receipts.filter (·.logs ≠ [])).length ≤ 1 := by
  have hsub := List.filter_sublist (l := e.receipts) (p := fun r => decide (r.logs ≠ []))
  have hlogs : ∀ r ∈ e.receipts.filter (·.logs ≠ []), ∃ row : NormalizedLog,
      t.tables.logs[(e.number, 0)]? = some row ∧ row.txIndex = r.txIndex := by
    intro r hr
    obtain ⟨hr, hne⟩ := List.mem_filter.mp hr
    obtain ⟨l, logs, hcons⟩ := List.exists_cons_of_ne_nil (by simpa using hne : r.logs ≠ [])
    obtain ⟨row, hget, hindex, -⟩ := h r hr 0 l (by rw [hcons]; rfl)
    refine ⟨row, hget, ?_⟩
    rw [hindex, asSigned_eq (w := 63) (e.txIndex_lt r hr)]
  have hsorted := e.sorted.sublist (hsub.map (·.txIndex))
  rcases hfilter : e.receipts.filter (·.logs ≠ []) with _ | ⟨r, _ | ⟨r', rest⟩⟩
  · rw [hfilter, List.length_nil]
    exact Nat.zero_le 1
  · rw [hfilter, List.length_singleton]
  · exfalso
    rw [hfilter] at hlogs hsorted
    obtain ⟨row, hrow, hr⟩ := hlogs r (by simp)
    obtain ⟨row', hrow', hr'⟩ := hlogs r' (by simp)
    obtain rfl := Option.some_inj.mp (hrow.symm.trans hrow')
    have hlt : r.txIndex < r'.txIndex := (List.pairwise_cons.mp hsorted).1 _ (by simp)
    omega

end SqliteStore

/-! ## Main results -/

/-- **Main theorem.** Nothing of the logs of a block is lost if and only if at most one of its
    receipts has logs. -/
theorem logs_kept_iff {codec : Codec Blob} (s : SqliteStore codec) (batch : Batch)
    (sigs : EventSigs) (e : FetchedBlock) (he : e ∈ batch.blocks) :
    (s.putBlockDataBatch batch sigs).LogsKept e ↔
      (e.receipts.filter (·.logs ≠ [])).length ≤ 1 := by
  constructor
  · exact fun h => SqliteStore.length_le_of_hasRow h.2
  · intro h
    refine ⟨SqliteStore.receipts_read_back he, fun r hr i l hl => ?_⟩
    exact SqliteStore.hasRow_of_length_le he h hr hl

/-- Logs that are kept as they are. -/
def plainCodec : Codec (List LogData) where
  serialize := id
  deserialize := .ok
  deserialize_serialize := fun _ => rfl

/-- The empty store. -/
def emptyStore : SqliteStore plainCodec where
  tables := {}
  decodes := by simp

/-- A transaction with the hash `i + 1` and the index `i`. -/
def sampleTx (i : ℕ) : TxData :=
  { hash := BitVec.ofNat 256 (i + 1), index := i, txType := 2, sender := 1, recipient := some 2
    input := [], value := 0, gasLimit := 21000, maxFeePerGas := 1, maxPriorityFeePerGas := none
    gasPrice := none, nonce := i, accessList := [], authorizationList := [] }

/-- The receipt of `sampleTx i`. -/
def sampleReceipt (i : ℕ) (logs : List LogData) : ReceiptData :=
  { txHash := BitVec.ofNat 256 (i + 1), txIndex := i, status := true, gasUsed := 21000
    cumulativeGasUsed := 21000 * (i + 1), effectiveGasPrice := some 1, logs
    contractAddress := none }

/-- A log of the contract `i` with one topic. -/
def sampleLog (i : ℕ) : LogData :=
  { address := BitVec.ofNat 160 i, topics := [transferTopic], data := [UInt8.ofNat i] }

/-- A batch of one block of two transactions, whose receipts have `m` and `n` logs. -/
def sampleBlock (m n : ℕ) : FetchedBlock where
  number := 7
  txs := [sampleTx 0, sampleTx 1]
  receipts := [sampleReceipt 0 ((List.range m).map sampleLog),
    sampleReceipt 1 ((List.range n).map fun i => sampleLog (m + i))]
  covered := by simp [sampleTx, sampleReceipt]
  nodup := by simp [sampleReceipt]
  sorted := by simp [sampleReceipt]
  txIndex_lt := by simp [sampleReceipt]
  topics_le := by simp [sampleReceipt, sampleLog]

/-- A batch of one block. -/
def Batch.singleton (e : FetchedBlock) : Batch where
  blocks := [e]
  unique := by simp

/-- A block whose second transaction emits nothing. -/
theorem logs_kept_sample :
    (emptyStore.putBlockDataBatch (.singleton (sampleBlock 3 0)) none).LogsKept (sampleBlock 3 0) :=
  (logs_kept_iff emptyStore (.singleton (sampleBlock 3 0)) none (sampleBlock 3 0)
    (by simp [Batch.singleton])).mpr (by decide)

/-- Two transactions with a log each: the log of the first has no row. -/
theorem log_overwritten :
    let s := emptyStore.putBlockDataBatch (.singleton (sampleBlock 1 1)) none
    s.tables.logs.toList.map (fun p => (p.1, p.2.txIndex, p.2.address)) = [((7, 0), 1, 1)] ∧
      ¬ s.HasRow (sampleBlock 1 1) (sampleReceipt 0 [sampleLog 0]) 0 (sampleLog 0) ∧
      ¬ s.LogsKept (sampleBlock 1 1) := by
  intro s
  have hnot : ¬ s.HasRow (sampleBlock 1 1) (sampleReceipt 0 [sampleLog 0]) 0 (sampleLog 0) := by
    rintro ⟨row, hrow, -, haddress, -⟩
    have hget : (s.tables.logs[(7, 0)]?).map (·.address) = some 1 := by decide +kernel
    rw [show s.tables.logs[(7, 0)]? = some row from hrow, Option.map_some, haddress] at hget
    exact absurd hget (by decide)
  refine ⟨by decide +kernel, hnot, fun h => hnot ?_⟩
  exact h.2 _ (List.mem_cons_self ..) 0 _ rfl

end MevScout.Cache
