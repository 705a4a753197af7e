import MevScout.Chain.Data

/-!
# The database of a replay

Models of `core/src/replay/db.rs` and of the tables behind it
(`core/src/cache/store/accounts.rs`): a read looks into the memory of an instance, then into
the tables that all instances share, then asks the RPC. Accounts and slots are kept by block,
code by address only.

The RPC is a fixed function of the block, and the hash function is a parameter. `Coherent` says
that every tier holds answers of the RPC, except for the table of code, whose rows may belong
to any block: a read of code compares the hash.

Results:
* `coherent_step`: a call keeps the tiers coherent;
* `reads_transparent`: every read of every run returns what the RPC answers for its block;
* `codeByHash_transparent`: so does a read of code by its hash.
-/

namespace MevScout.Replay

/-- `alloy::primitives::U256`. -/
abbrev U256 := BitVec 256

/-! ## The tiers -/

/-- The hash of the empty code, `KECCAK_EMPTY`. -/
def keccakEmpty : B256 := 0xc5d2460186f7233c927e7db2dcc703c0e500b653ca82273b7bfad8045d85a470

/-- `alloy::primitives::keccak256`. -/
structure Keccak where
  keccak256 : List UInt8 → B256
  keccak256_nil : keccak256 [] = keccakEmpty

/-- An archive node: `get_account`, `get_code` and `get_storage_at` of the RPC client. -/
structure Rpc where
  nonce : Address → BitVec 64 → BitVec 64
  balance : Address → BitVec 64 → U256
  code : Address → BitVec 64 → List UInt8
  storage : Address → U256 → BitVec 64 → U256

/-- `Bytecode`, as the bytes that `Bytecode::new_raw` reads. -/
abbrev Bytecode := List UInt8

/-- Model of `AccountData` (`data/types.rs`). -/
structure AccountData where
  nonce : BitVec 64
  balance : U256
  codeHash : B256
  deriving DecidableEq

/-- `AccountInfo`, without the field `account_id`, which is always `None`. -/
structure AccountInfo where
  nonce : BitVec 64
  balance : U256
  codeHash : B256
  code : Option Bytecode
  deriving DecidableEq

/-- A row of the table `accounts`, whose integer columns are signed. -/
structure AccountRow where
  nonce : ℤ
  balance : U256
  codeHash : B256

/-- The tables `accounts`, `storage_slots` and `contract_code`, by their keys. -/
structure Tables where
  accounts : ℤ × Address → Option AccountRow := fun _ => none
  storageSlots : ℤ × Address × U256 → Option U256 := fun _ => none
  contractCode : Address → Option (List UInt8) := fun _ => none

namespace Tables

variable (t : Tables)

/-- Model of `put_account` (`accounts.rs`, lines 6–25). -/
def putAccount (blockNum : BitVec 64) (address : Address) (account : AccountData) : Tables :=
  { t with
    accounts := Function.update t.accounts (blockNum.toInt, address)
      (some ⟨account.nonce.toInt, account.balance, account.codeHash⟩) }

/-- Model of `get_account` (`accounts.rs`, lines 27–48). -/
def getAccount (blockNum : BitVec 64) (address : Address) : Option AccountData :=
  (t.accounts (blockNum.toInt, address)).map fun row =>
    { nonce := BitVec.ofInt 64 row.nonce, balance := row.balance, codeHash := row.codeHash }

/-- Model of `put_slot` (`accounts.rs`, lines 50–69). -/
def putSlot (blockNum : BitVec 64) (address : Address) (slot value : U256) : Tables :=
  { t with
    storageSlots := Function.update t.storageSlots (blockNum.toInt, address, slot) (some value) }

/-- Model of `get_slot` (`accounts.rs`, lines 71–92). -/
def getSlot (blockNum : BitVec 64) (address : Address) (slot : U256) : Option U256 :=
  t.storageSlots (blockNum.toInt, address, slot)

/-- Model of `put_code` (`accounts.rs`, lines 94–101). -/
def putCode (address : Address) (code : List UInt8) : Tables :=
  { t with contractCode := Function.update t.contractCode address (some code) }

/-- Model of `get_code` (`accounts.rs`, lines 103–114). -/
def getCode (address : Address) : Option (List UInt8) := t.contractCode address

theorem getAccount_putAccount (b b' : BitVec 64) (a a' : Address) (account : AccountData) :
    (t.putAccount b a account).getAccount b' a' =
      if b' = b ∧ a' = a then some account else t.getAccount b' a' := by
  unfold getAccount putAccount
  dsimp only
  by_cases h : b' = b ∧ a' = a
  · obtain ⟨rfl, rfl⟩ := h
    rw [if_pos ⟨rfl, rfl⟩, Function.update_self, Option.map_some, BitVec.ofInt_toInt]
  · have hne : (b'.toInt, a') ≠ (b.toInt, a) := by
      rw [Ne, Prod.mk.injEq, BitVec.toInt_inj]
      exact h
    rw [if_neg h, Function.update_of_ne hne]

theorem getSlot_putSlot (b b' : BitVec 64) (a a' : Address) (s s' value : U256) :
    (t.putSlot b a s value).getSlot b' a' s' =
      if b' = b ∧ a' = a ∧ s' = s then some value else t.getSlot b' a' s' := by
  unfold getSlot putSlot
  dsimp only
  by_cases h : b' = b ∧ a' = a ∧ s' = s
  · obtain ⟨rfl, rfl, rfl⟩ := h
    rw [if_pos ⟨rfl, rfl, rfl⟩, Function.update_self]
  · have hne : (b'.toInt, a', s') ≠ (b.toInt, a, s) := by
      rw [Ne, Prod.mk.injEq, Prod.mk.injEq, BitVec.toInt_inj]
      exact h
    rw [if_neg h, Function.update_of_ne hne]

@[simp] theorem getAccount_putCode (b : BitVec 64) (a a' : Address) (code : List UInt8) :
    (t.putCode a code).getAccount b a' = t.getAccount b a' := rfl

@[simp] theorem getSlot_putCode (b : BitVec 64) (a a' : Address) (s : U256) (code : List UInt8) :
    (t.putCode a code).getSlot b a' s = t.getSlot b a' s := rfl

@[simp] theorem getSlot_putAccount (b b' : BitVec 64) (a a' : Address) (s : U256)
    (account : AccountData) : (t.putAccount b a account).getSlot b' a' s = t.getSlot b' a' s := rfl

@[simp] theorem getAccount_putSlot (b b' : BitVec 64) (a a' : Address) (s value : U256) :
    (t.putSlot b a s value).getAccount b' a' = t.getAccount b' a' := rfl

end Tables

/-- Model of `CacheState` (`db.rs`, lines 44–51). -/
structure CacheState where
  accounts : Address → Option AccountInfo := fun _ => none
  codes : B256 → Option Bytecode := fun _ => none
  storage : Address × U256 → Option U256 := fun _ => none
  codeHashToAddress : B256 → Option Address := fun _ => none

/-- Model of `CachedRpcDb` (`db.rs`, lines 75–82), apart from the handles that all instances
    share. -/
structure CachedRpcDb where
  blockNumber : BitVec 64
  cacheState : CacheState := {}

/-! ## Reads -/

namespace CachedRpcDb

variable (h : Keccak) (rpc : Rpc) (db : CachedRpcDb) (t : Tables)

/-- Model of `load_code` (`db.rs`, lines 317–334). -/
def loadCode (address : Address) (codeHash : B256) : Option Bytecode × Tables :=
  if codeHash = keccakEmpty then (none, t)
  else
    match (t.getCode address).filter fun bytes => h.keccak256 bytes = codeHash with
    | some bytes => (some bytes, t)
    | none =>
      let bytes := rpc.code address db.blockNumber
      (some bytes, if bytes ≠ [] then t.putCode address bytes else t)

/-- Model of `account_via_rpc` (`db.rs`, lines 338–372). -/
def accountViaRpc (address : Address) : AccountInfo × Tables :=
  let nonce := rpc.nonce address db.blockNumber
  let balance := rpc.balance address db.blockNumber
  let code := rpc.code address db.blockNumber
  let codeHash := h.keccak256 code
  let t := if code = [] then t else t.putCode address code
  ({ nonce, balance, codeHash, code := if code = [] then none else some code },
    t.putAccount db.blockNumber address { nonce, balance, codeHash })

/-- Model of `basic_ref` (`db.rs`, lines 230–257). -/
def basicRef (address : Address) : Option AccountInfo × Tables :=
  match t.getAccount db.blockNumber address with
  | some acct =>
    let (code, t) := db.loadCode h rpc t address acct.codeHash
    (some { nonce := acct.nonce, balance := acct.balance, codeHash := acct.codeHash, code }, t)
  | none =>
    let (info, t) := db.accountViaRpc h rpc t address
    (some info, t)

/-- The code that `basic` takes into memory when the account comes without it
    (`db.rs`, lines 149–167). -/
def fetchCode (address : Address) (codeHash : B256) : Bytecode × Tables :=
  match (t.getCode address).filter fun bytes => h.keccak256 bytes = codeHash with
  | some bytes => (bytes, t)
  | none =>
    let bytes := rpc.code address db.blockNumber
    (bytes, t.putCode address bytes)

/-- The part of `basic` that fills the code in memory (`db.rs`, lines 141–175). -/
def rememberCode (address : Address) (info : AccountInfo) : CacheState × Tables :=
  let s := db.cacheState
  if info.codeHash ≠ keccakEmpty ∧ s.codes info.codeHash = none then
    let (code, t) := match info.code with
      | some code => (code, t)
      | none => db.fetchCode h rpc t address info.codeHash
    ({ s with
        codes := Function.update s.codes info.codeHash (some code)
        codeHashToAddress := Function.update s.codeHashToAddress info.codeHash (some address) }, t)
  else (s, t)

/-- Model of `basic` (`db.rs`, lines 134–205). -/
def basic (address : Address) : Option AccountInfo × CachedRpcDb × Tables :=
  match db.cacheState.accounts address with
  | some info => (some info, db, t)
  | none =>
    let (result, t) := db.basicRef h rpc t address
    match result with
    | none => (none, db, t)
    | some info =>
      let (s, t) := db.rememberCode h rpc t address info
      let fullInfo := { info with code := info.code.or (s.codes info.codeHash) }
      let t := t.putAccount db.blockNumber address
        { nonce := info.nonce, balance := info.balance, codeHash := info.codeHash }
      let s := { s with accounts := Function.update s.accounts address (some fullInfo) }
      (some fullInfo, { db with cacheState := s }, t)

/-- Model of `code_by_hash_ref` (`db.rs`, lines 259–274); `none` is its error. -/
def codeByHashRef (codeHash : B256) : Option Bytecode :=
  if codeHash = keccakEmpty then some []
  else
    (db.cacheState.codes codeHash).or
      ((db.cacheState.codeHashToAddress codeHash).bind t.getCode)

/-- Model of `storage_ref` (`db.rs`, lines 276–294). -/
def storageRef (address : Address) (index : U256) : U256 × Tables :=
  match t.getSlot db.blockNumber address index with
  | some value => (value, t)
  | none =>
    let value := rpc.storage address index db.blockNumber
    (value, t.putSlot db.blockNumber address index value)

/-- Model of `storage` (`db.rs`, lines 211–218). -/
def storage (address : Address) (index : U256) : U256 × CachedRpcDb × Tables :=
  match db.cacheState.storage (address, index) with
  | some value => (value, db, t)
  | none =>
    let (value, t) := db.storageRef rpc t address index
    let s := db.cacheState
    (value,
      { db with
        cacheState :=
          { s with storage := Function.update s.storage (address, index) (some value) } },
      t)

end CachedRpcDb

/-! ## Runs -/

/-- The instances that are open over one store. -/
structure World where
  tables : Tables := {}
  dbs : List CachedRpcDb := []

/-- A call on the instance with the index `i`, or a new instance. -/
inductive Request where
  | new (blockNumber : BitVec 64)
  | clone (i : ℕ)
  | basicRef (i : ℕ) (address : Address)
  | basic (i : ℕ) (address : Address)
  | storageRef (i : ℕ) (address : Address) (index : U256)
  | storage (i : ℕ) (address : Address) (index : U256)

/-- What a read returns. -/
inductive Answer where
  | account (info : Option AccountInfo)
  | slot (value : U256)
  deriving DecidableEq

namespace World

variable (h : Keccak) (rpc : Rpc)

/-- What a request does, and the answer of a read. -/
def step (w : World) : Request → Option Answer × World
  | .new blockNumber => (none, { w with dbs := w.dbs ++ [{ blockNumber }] })
  | .clone i => (none, { w with dbs := w.dbs ++ w.dbs[i]?.toList })
  | .basicRef i address =>
    match w.dbs[i]? with
    | none => (none, w)
    | some db =>
      let (info, t) := db.basicRef h rpc w.tables address
      (some (.account info), { w with tables := t })
  | .basic i address =>
    match w.dbs[i]? with
    | none => (none, w)
    | some db =>
      let (info, db, t) := db.basic h rpc w.tables address
      (some (.account info), { tables := t, dbs := w.dbs.set i db })
  | .storageRef i address index =>
    match w.dbs[i]? with
    | none => (none, w)
    | some db =>
      let (value, t) := db.storageRef rpc w.tables address index
      (some (.slot value), { w with tables := t })
  | .storage i address index =>
    match w.dbs[i]? with
    | none => (none, w)
    | some db =>
      let (value, db, t) := db.storage rpc w.tables address index
      (some (.slot value), { tables := t, dbs := w.dbs.set i db })

/-- The world after a list of requests over an empty store. -/
def run (requests : List Request) : World := requests.foldl (fun w r => (w.step h rpc r).2) {}

end World

/-! ## Transparency -/

section Spec

variable (h : Keccak) (rpc : Rpc)

/-- The account is the one of the RPC at the block, with a code of its hash. -/
structure Matches (blockNumber : BitVec 64) (address : Address) (info : AccountInfo) : Prop where
  nonce : info.nonce = rpc.nonce address blockNumber
  balance : info.balance = rpc.balance address blockNumber
  codeHash : info.codeHash = h.keccak256 (rpc.code address blockNumber)
  code : h.keccak256 (info.code.getD []) = info.codeHash

/-- The read returns what the RPC answers for the block of the instance. -/
def World.Transparent (w : World) : Request → Prop
  | .new _ | .clone _ => True
  | .basicRef i address => ∀ db, w.dbs[i]? = some db →
    ∃ info, (w.step h rpc (.basicRef i address)).1 = some (.account (some info)) ∧
      Matches h rpc db.blockNumber address info
  | .basic i address => ∀ db, w.dbs[i]? = some db →
    ∃ info, (w.step h rpc (.basic i address)).1 = some (.account (some info)) ∧
      Matches h rpc db.blockNumber address info
  | .storageRef i address index => ∀ db, w.dbs[i]? = some db →
    (w.step h rpc (.storageRef i address index)).1 =
      some (.slot (rpc.storage address index db.blockNumber))
  | .storage i address index => ∀ db, w.dbs[i]? = some db →
    (w.step h rpc (.storage i address index)).1 =
      some (.slot (rpc.storage address index db.blockNumber))

/-- The tables of accounts and slots hold answers of the RPC. -/
structure Tables.Coherent (t : Tables) : Prop where
  accounts : ∀ b a acct, t.getAccount b a = some acct →
    acct = ⟨rpc.nonce a b, rpc.balance a b, h.keccak256 (rpc.code a b)⟩
  slots : ∀ b a s value, t.getSlot b a s = some value → value = rpc.storage a s b

/-- The memory of an instance holds answers of the RPC for its block. -/
structure CachedRpcDb.Coherent (db : CachedRpcDb) : Prop where
  accounts : ∀ a info, db.cacheState.accounts a = some info → Matches h rpc db.blockNumber a info
  codes : ∀ hash code, db.cacheState.codes hash = some code → h.keccak256 code = hash
  storage : ∀ a s value, db.cacheState.storage (a, s) = some value →
    value = rpc.storage a s db.blockNumber
  addresses : ∀ hash a, db.cacheState.codeHashToAddress hash = some a →
    (db.cacheState.codes hash).isSome

/-- Every tier holds answers of the RPC. -/
structure World.Coherent (w : World) : Prop where
  tables : w.tables.Coherent h rpc
  dbs : ∀ db ∈ w.dbs, db.Coherent h rpc

end Spec

variable {h : Keccak} {rpc : Rpc} {db : CachedRpcDb} {t : Tables}

namespace Tables.Coherent

theorem putCode (ht : t.Coherent h rpc) (a : Address) (code : List UInt8) :
    (t.putCode a code).Coherent h rpc := ⟨ht.accounts, ht.slots⟩

theorem putAccount (ht : t.Coherent h rpc) {b : BitVec 64} {a : Address} {acct : AccountData}
    (hacct : acct = ⟨rpc.nonce a b, rpc.balance a b, h.keccak256 (rpc.code a b)⟩) :
    (t.putAccount b a acct).Coherent h rpc := by
  refine ⟨fun b' a' acct' hget => ?_, ht.slots⟩
  rw [getAccount_putAccount] at hget
  split_ifs at hget with heq
  · obtain ⟨rfl, rfl⟩ := heq
    rw [← Option.some_inj.mp hget, hacct]
  · exact ht.accounts b' a' acct' hget

theorem putSlot (ht : t.Coherent h rpc) (b : BitVec 64) (a : Address) (s : U256) :
    (t.putSlot b a s (rpc.storage a s b)).Coherent h rpc := by
  refine ⟨ht.accounts, fun b' a' s' value hget => ?_⟩
  rw [getSlot_putSlot] at hget
  split_ifs at hget with heq
  · obtain ⟨rfl, rfl, rfl⟩ := heq
    exact (Option.some_inj.mp hget).symm
  · exact ht.slots b' a' s' value hget

end Tables.Coherent

namespace CachedRpcDb

/-! ### Code -/

/-- A row of the table of code is used for its hash only. -/
theorem hash_of_filter {o : Option (List UInt8)} {hash : B256} {bytes : List UInt8}
    (hsome : (o.filter fun bytes => h.keccak256 bytes = hash) = some bytes) :
    h.keccak256 bytes = hash := by
  have := (Option.filter_eq_some_iff.mp hsome).2
  simpa using this

/-- `load_code` finds a code of the hash. -/
theorem loadCode_spec (ht : t.Coherent h rpc) {a : Address} {hash : B256}
    (hhash : hash = h.keccak256 (rpc.code a db.blockNumber)) :
    h.keccak256 ((db.loadCode h rpc t a hash).1.getD []) = hash ∧
      (db.loadCode h rpc t a hash).2.Coherent h rpc := by
  unfold loadCode
  split_ifs with hempty
  · exact ⟨hempty ▸ h.keccak256_nil, ht⟩
  · cases hfilter : (t.getCode a).filter fun bytes => h.keccak256 bytes = hash with
    | some bytes => exact ⟨hash_of_filter hfilter, ht⟩
    | none =>
      refine ⟨hhash.symm, ?_⟩
      dsimp only
      split_ifs
      · exact ht.putCode a _
      · exact ht

theorem fetchCode_spec (ht : t.Coherent h rpc) {a : Address} {hash : B256}
    (hhash : hash = h.keccak256 (rpc.code a db.blockNumber)) :
    h.keccak256 (db.fetchCode h rpc t a hash).1 = hash ∧
      (db.fetchCode h rpc t a hash).2.Coherent h rpc := by
  unfold fetchCode
  cases hfilter : (t.getCode a).filter fun bytes => h.keccak256 bytes = hash with
  | some bytes => exact ⟨hash_of_filter hfilter, ht⟩
  | none => exact ⟨hhash.symm, ht.putCode a _⟩

/-! ### Accounts -/

theorem accountViaRpc_spec (ht : t.Coherent h rpc) (a : Address) :
    Matches h rpc db.blockNumber a (db.accountViaRpc h rpc t a).1 ∧
      (db.accountViaRpc h rpc t a).2.Coherent h rpc := by
  unfold accountViaRpc
  dsimp only
  refine ⟨⟨rfl, rfl, rfl, ?_⟩, Tables.Coherent.putAccount ?_ rfl⟩
  · dsimp only
    split_ifs with hnil
    · rw [hnil, Option.getD_none]
    · rw [Option.getD_some]
  · split_ifs
    · exact ht
    · exact ht.putCode a _

theorem basicRef_spec (ht : t.Coherent h rpc) (a : Address) :
    (∃ info, (db.basicRef h rpc t a).1 = some info ∧ Matches h rpc db.blockNumber a info) ∧
      (db.basicRef h rpc t a).2.Coherent h rpc := by
  unfold basicRef
  cases hget : t.getAccount db.blockNumber a with
  | none =>
    obtain ⟨hmatch, ht'⟩ := db.accountViaRpc_spec ht a
    exact ⟨⟨_, rfl, hmatch⟩, ht'⟩
  | some acct =>
    have hacct := ht.accounts _ _ _ hget
    obtain ⟨hcode, ht'⟩ :=
      db.loadCode_spec (a := a) ht (congrArg AccountData.codeHash hacct)
    refine ⟨⟨_, rfl, ?_⟩, ht'⟩
    exact ⟨congrArg AccountData.nonce hacct, congrArg AccountData.balance hacct,
      congrArg AccountData.codeHash hacct, hcode⟩

/-- What `rememberCode` leaves: memory that holds the code of every hash it knows. -/
theorem rememberCode_spec (ht : t.Coherent h rpc) (hdb : db.Coherent h rpc) {a : Address}
    {info : AccountInfo} (hinfo : Matches h rpc db.blockNumber a info) :
    ({ db with cacheState := (db.rememberCode h rpc t a info).1 } : CachedRpcDb).Coherent h rpc ∧
      (db.rememberCode h rpc t a info).2.Coherent h rpc := by
  unfold rememberCode
  dsimp only
  split_ifs with hnew
  · -- the code of the hash, from the account or from the table
    have hcode : h.keccak256 (match info.code with
        | some code => (code, t)
        | none => db.fetchCode h rpc t a info.codeHash).1 = info.codeHash ∧
        (match info.code with
        | some code => (code, t)
        | none => db.fetchCode h rpc t a info.codeHash).2.Coherent h rpc := by
      cases hc : info.code with
      | none => exact fetchCode_spec ht hinfo.codeHash
      | some code =>
        have := hinfo.code
        rw [hc, Option.getD_some] at this
        exact ⟨this, ht⟩
    refine ⟨⟨hdb.accounts, ?_, hdb.storage, ?_⟩, hcode.2⟩
    · intro hash code hget
      dsimp only at hget
      by_cases heq : hash = info.codeHash
      · subst heq
        rw [Function.update_self] at hget
        rw [← Option.some_inj.mp hget]
        exact hcode.1
      · rw [Function.update_of_ne heq] at hget
        exact hdb.codes hash code hget
    · intro hash a' hget
      dsimp only at hget ⊢
      by_cases heq : hash = info.codeHash
      · rw [heq, Function.update_self]
        rfl
      · rw [Function.update_of_ne heq] at hget ⊢
        exact hdb.addresses hash a' hget
  · exact ⟨hdb, ht⟩

theorem basic_spec (ht : t.Coherent h rpc) (hdb : db.Coherent h rpc) (a : Address) :
    (∃ info, (db.basic h rpc t a).1 = some info ∧ Matches h rpc db.blockNumber a info) ∧
      (db.basic h rpc t a).2.1.Coherent h rpc ∧ (db.basic h rpc t a).2.2.Coherent h rpc ∧
      (db.basic h rpc t a).2.1.blockNumber = db.blockNumber := by
  unfold basic
  cases hmem : db.cacheState.accounts a with
  | some info => exact ⟨⟨info, rfl, hdb.accounts a info hmem⟩, hdb, ht, rfl⟩
  | none =>
    obtain ⟨⟨info, hinfo, hmatch⟩, ht₁⟩ := db.basicRef_spec ht a
    obtain ⟨hdb₂, ht₂⟩ := rememberCode_spec ht₁ hdb hmatch
    dsimp only
    rw [hinfo]
    dsimp only
    set s := (db.rememberCode h rpc (db.basicRef h rpc t a).2 a info).1
    -- the code of the full account has the hash, from the account or from memory
    have hfull : Matches h rpc db.blockNumber a
        { info with code := info.code.or (s.codes info.codeHash) } := by
      refine ⟨hmatch.nonce, hmatch.balance, hmatch.codeHash, ?_⟩
      dsimp only
      cases hc : info.code with
      | some code =>
        have := hmatch.code
        rwa [hc] at this
      | none =>
        cases hs : s.codes info.codeHash with
        | some code => exact hdb₂.codes _ _ hs
        | none =>
          have := hmatch.code
          rwa [hc] at this
    refine ⟨⟨_, rfl, hfull⟩, ⟨?_, hdb₂.codes, hdb₂.storage, hdb₂.addresses⟩, ?_, rfl⟩
    · intro a' info' hget
      dsimp only at hget
      by_cases heq : a' = a
      · subst heq
        rw [Function.update_self] at hget
        rw [← Option.some_inj.mp hget]
        exact hfull
      · rw [Function.update_of_ne heq] at hget
        exact hdb₂.accounts a' info' hget
    · refine ht₂.putAccount ?_
      rw [hmatch.nonce, hmatch.balance, hmatch.codeHash]

/-! ### Slots -/

theorem storageRef_spec (ht : t.Coherent h rpc) (a : Address) (s : U256) :
    (db.storageRef rpc t a s).1 = rpc.storage a s db.blockNumber ∧
      (db.storageRef rpc t a s).2.Coherent h rpc := by
  unfold storageRef
  cases hget : t.getSlot db.blockNumber a s with
  | some value => exact ⟨ht.slots _ _ _ _ hget, ht⟩
  | none => exact ⟨rfl, ht.putSlot ..⟩

theorem storage_spec (ht : t.Coherent h rpc) (hdb : db.Coherent h rpc) (a : Address) (s : U256) :
    (db.storage rpc t a s).1 = rpc.storage a s db.blockNumber ∧
      (db.storage rpc t a s).2.1.Coherent h rpc ∧ (db.storage rpc t a s).2.2.Coherent h rpc ∧
      (db.storage rpc t a s).2.1.blockNumber = db.blockNumber := by
  unfold storage
  cases hmem : db.cacheState.storage (a, s) with
  | some value => exact ⟨hdb.storage a s value hmem, hdb, ht, rfl⟩
  | none =>
    obtain ⟨hvalue, ht'⟩ := db.storageRef_spec ht a s
    refine ⟨hvalue, ⟨hdb.accounts, hdb.codes, ?_, hdb.addresses⟩, ht', rfl⟩
    intro a' s' value hget
    dsimp only at hget
    by_cases heq : (a', s') = (a, s)
    · rw [heq, Function.update_self] at hget
      obtain ⟨rfl, rfl⟩ := Prod.mk.inj heq
      rw [← Option.some_inj.mp hget]
      exact hvalue
    · rw [Function.update_of_ne heq] at hget
      exact hdb.storage a' s' value hget

end CachedRpcDb

/-! ## Runs -/

namespace World

variable {w : World}

theorem Coherent.of_set (hw : w.Coherent h rpc) {i : ℕ} {db : CachedRpcDb} {t : Tables}
    (ht : t.Coherent h rpc) (hdb : db.Coherent h rpc) :
    ({ tables := t, dbs := w.dbs.set i db } : World).Coherent h rpc := by
  refine ⟨ht, fun db' hmem => ?_⟩
  rcases List.mem_or_eq_of_mem_set hmem with hmem | rfl
  · exact hw.dbs db' hmem
  · exact hdb

/-- A call keeps the tiers coherent. -/
theorem coherent_step (hw : w.Coherent h rpc) (r : Request) :
    (w.step h rpc r).2.Coherent h rpc := by
  cases r with
  | new blockNumber =>
    refine ⟨hw.tables, fun db hmem => ?_⟩
    rcases List.mem_append.mp hmem with hmem | hmem
    · exact hw.dbs db hmem
    · rw [List.mem_singleton.mp hmem]
      exact ⟨by simp, by simp, by simp, by simp⟩
  | clone i =>
    refine ⟨hw.tables, fun db hmem => ?_⟩
    rcases List.mem_append.mp hmem with hmem | hmem
    · exact hw.dbs db hmem
    · exact hw.dbs db (List.mem_of_getElem? (Option.mem_toList.mp hmem))
  | basicRef i a =>
    rw [step]
    cases hi : w.dbs[i]? with
    | none => exact hw
    | some db => exact ⟨(db.basicRef_spec hw.tables a).2, hw.dbs⟩
  | basic i a =>
    rw [step]
    cases hi : w.dbs[i]? with
    | none => exact hw
    | some db =>
      obtain ⟨-, hdb, ht, -⟩ := db.basic_spec hw.tables (hw.dbs db (List.mem_of_getElem? hi)) a
      exact hw.of_set ht hdb
  | storageRef i a s =>
    rw [step]
    cases hi : w.dbs[i]? with
    | none => exact hw
    | some db => exact ⟨(db.storageRef_spec hw.tables a s).2, hw.dbs⟩
  | storage i a s =>
    rw [step]
    cases hi : w.dbs[i]? with
    | none => exact hw
    | some db =>
      obtain ⟨-, hdb, ht, -⟩ := db.storage_spec hw.tables (hw.dbs db (List.mem_of_getElem? hi)) a s
      exact hw.of_set ht hdb

theorem coherent_run (requests : List Request) : (run h rpc requests).Coherent h rpc := by
  induction requests using List.reverseRecOn with
  | nil => exact ⟨⟨by simp [run, Tables.getAccount], by simp [run, Tables.getSlot]⟩, by simp [run]⟩
  | append_singleton requests r ih =>
    rw [run, List.foldl_append]
    exact coherent_step ih r

theorem transparent_of_coherent (hw : w.Coherent h rpc) (r : Request) :
    w.Transparent h rpc r := by
  have hmem : ∀ {i : ℕ} {db : CachedRpcDb}, w.dbs[i]? = some db → db.Coherent h rpc :=
    fun hi => hw.dbs _ (List.mem_of_getElem? hi)
  cases r with
  | new blockNumber => trivial
  | clone i => trivial
  | basicRef i a =>
    intro db hi
    obtain ⟨⟨info, hinfo, hmatch⟩, -⟩ := db.basicRef_spec hw.tables a
    refine ⟨info, ?_, hmatch⟩
    rw [step, hi, ← hinfo]
  | basic i a =>
    intro db hi
    obtain ⟨⟨info, hinfo, hmatch⟩, -⟩ := db.basic_spec hw.tables (hmem hi) a
    refine ⟨info, ?_, hmatch⟩
    rw [step, hi, ← hinfo]
  | storageRef i a s =>
    intro db hi
    rw [step, hi, ← (db.storageRef_spec hw.tables a s).1]
  | storage i a s =>
    intro db hi
    rw [step, hi, ← (db.storage_spec hw.tables (hmem hi) a s).1]

variable (h rpc)

/-- A read of code by its hash returns a code of the hash, whenever it returns one: the row of
    the table of code, whose hash is not compared, is never reached. -/
theorem codeByHash_transparent (requests : List Request) {db : CachedRpcDb}
    (hdb : db ∈ (run h rpc requests).dbs) {hash : B256} {code : Bytecode}
    (hcode : db.codeByHashRef (run h rpc requests).tables hash = some code) :
    h.keccak256 code = hash := by
  have hcoherent := (coherent_run requests).dbs db hdb
  unfold CachedRpcDb.codeByHashRef at hcode
  split_ifs at hcode with hempty
  · rw [← Option.some_inj.mp hcode, hempty]
    exact h.keccak256_nil
  · cases hc : db.cacheState.codes hash with
    | some c =>
      rw [hc, Option.some_or] at hcode
      rw [← Option.some_inj.mp hcode]
      exact hcoherent.codes hash c hc
    | none =>
      rw [hc, Option.none_or] at hcode
      obtain ⟨a, ha, -⟩ := Option.bind_eq_some_iff.mp hcode
      have := hcoherent.addresses hash a ha
      simp [hc] at this

end World

end MevScout.Replay
