import MevScout.Chain.Events

/-!
# Block data

Models of `core/src/data/types.rs`: the transactions and the receipts of a block as the cache
and the replay read them.
-/

namespace MevScout

instance instTransOrdB256 : Std.TransOrd B256 := BitVec.instTransOrd

instance instLawfulEqOrdB256 : Std.LawfulEqOrd B256 := BitVec.instLawfulEqOrd

/-- Model of `LogData` (`types.rs`, lines 81–87). -/
structure LogData where
  address : Address
  topics : List B256
  data : List UInt8
  deriving DecidableEq

/-- Model of `ReceiptData` (`types.rs`, lines 65–79). -/
structure ReceiptData where
  txHash : B256
  txIndex : ℕ
  status : Bool
  gasUsed : ℕ
  cumulativeGasUsed : ℕ
  effectiveGasPrice : Option ℕ
  logs : List LogData
  contractAddress : Option Address
  deriving DecidableEq

/-- Model of `AccessListItem` (`types.rs`, lines 58–63). -/
structure AccessListItem where
  address : Address
  slots : List B256
  deriving DecidableEq

/-- Model of `AuthorizationData` (`types.rs`, lines 47–56). -/
structure AuthorizationData where
  chainId : ℕ
  address : Address
  nonce : ℕ
  yParity : ℕ
  r : ℕ
  s : ℕ
  deriving DecidableEq

/-- Model of `TxData` (`types.rs`, lines 24–45); `sender` and `recipient` are its fields
    `from` and `to`. -/
structure TxData where
  hash : B256
  index : ℕ
  txType : ℕ
  sender : Address
  recipient : Option Address
  input : List UInt8
  value : ℕ
  gasLimit : ℕ
  maxFeePerGas : ℕ
  maxPriorityFeePerGas : Option ℕ
  gasPrice : Option ℕ
  nonce : ℕ
  accessList : List AccessListItem
  authorizationList : List AuthorizationData
  deriving DecidableEq

/-- Model of `BlockData` (`types.rs`, lines 10–22). -/
structure BlockData where
  number : ℕ
  hash : B256
  timestamp : ℕ
  baseFeePerGas : Option ℕ
  gasLimit : ℕ
  gasUsed : ℕ
  coinbase : Address
  difficulty : ℕ
  mixHash : B256
  deriving DecidableEq

end MevScout
