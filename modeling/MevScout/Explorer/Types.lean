import MevScout.Chain.Data

/-!
# Facts and events of the explorer

Models of `core/src/explorer/types.rs` and of `TxInput` (`core/src/explorer/classify/mod.rs`):
the facts that are decoded from the logs of a block, and the kinds of the classified events.
A `U256` and a `u128` are natural numbers.
-/

namespace MevScout.Explorer

/-! ## Facts -/

/-- Model of `TransferFact` (`types.rs`, lines 324–333); `sender` and `recipient` are its fields
    `from` and `to`. -/
structure TransferFact where
  token : Address
  sender : Address
  recipient : Address
  amount : ℕ
  deriving DecidableEq

/-- Model of `Amm` (`types.rs`, lines 336–354). -/
inductive Amm where
  | v2 | v3 | v4 | infinity | metric | fluid | curve | balancer | solidly | lb | pendle | aggregator
  deriving DecidableEq

/-- Model of `SwapFact` (`types.rs`, lines 417–437). -/
structure SwapFact where
  pool : Address
  amm : Amm
  tokenIn : Address
  tokenOut : Address
  amountIn : ℕ
  amountOut : ℕ
  logIndex : ℕ := 0
  tick : Option ℤ := none
  owner : Option Address := none
  deriving DecidableEq

/-- Model of `FlashLoanFact` (`types.rs`, lines 441–457). -/
structure FlashLoanFact where
  initiator : Address
  token : Address
  amount : ℕ
  fee : Option ℕ
  recipient : Address
  provider : Address
  deriving DecidableEq

/-- Model of `LiquidationFact` (`types.rs`, lines 460–477). -/
structure LiquidationFact where
  protocol : String
  user : Address := 0
  liquidator : Address
  collateralAsset : Address
  collateralAmount : ℕ
  deriving DecidableEq

/-- Model of `BuyCollateralFact` (`types.rs`, lines 480–492). -/
structure BuyCollateralFact where
  buyer : Address
  collateralAsset : Address
  collateralAmount : ℕ
  deriving DecidableEq

/-- Model of `OracleUpdateFact` (`types.rs`, lines 531–539). -/
structure OracleUpdateFact where
  feed : Address
  answer : ℤ
  deriving DecidableEq

/-- Model of `ReserveDataFact` (`types.rs`, lines 554–559). -/
structure ReserveDataFact where
  reserve : Address
  variableBorrowRate : ℕ
  deriving DecidableEq

/-- Model of `KeeperFact` (`types.rs`, lines 563–573). -/
structure KeeperFact where
  fee : Option ℕ
  feeToken : Option Address
  deriving DecidableEq

/-- Model of `UserOpFact` (`types.rs`, lines 596–605). -/
structure UserOpFact where
  entryPoint : Address
  actualGasCost : ℕ
  success : Bool
  deriving DecidableEq

/-- Model of `JitFact` (`types.rs`, lines 611–624): a Mint or a Burn of a position. -/
structure JitFact where
  pool : Address
  owner : Address
  tickLower : ℤ
  tickUpper : ℤ
  isMint : Bool
  liquidity : ℕ
  logIndex : ℕ := 0
  binAmm : Bool := false
  deriving DecidableEq

/-- Model of `TxInput` (`classify/mod.rs`, lines 63–101); `sender` and `recipient` are its fields
    `from` and `to`, `pairOps` the pools of its `v2_pair_ops` and `gasCostWei` is the value of
    `tx_gas_cost_wei` (`classify/gas.rs`, lines 11–14), which rounds a floating-point price. -/
structure TxInput where
  txIndex : ℕ
  txHash : B256 := 0
  sender : Address
  recipient : Option Address := none
  success : Bool := true
  gasCostWei : ℕ := 0
  value : ℕ := 0
  transfers : List TransferFact := []
  swaps : List SwapFact := []
  liquidations : List LiquidationFact := []
  flashloans : List FlashLoanFact := []
  buyCollaterals : List BuyCollateralFact := []
  jit : List JitFact := []
  pairOps : List Address := []
  oracleUpdates : List OracleUpdateFact := []
  reserveUpdates : List ReserveDataFact := []
  keepers : List KeeperFact := []
  userOps : List UserOpFact := []
  deriving DecidableEq

/-! ## Events -/

/-- Model of `MevKind` (`types.rs`, lines 11–33). -/
inductive MevKind where
  | arbAtomic | sandwich | frontrun | backrun | liquidation | jit | jitArb | skim | utility
  deriving DecidableEq, Repr

/-- Model of `Confidence` (`types.rs`, lines 129–132). -/
inductive Confidence where
  | exact | inferred
  deriving DecidableEq

/-- Model of `PnlBasis` (`types.rs`, lines 497–510). -/
inductive PnlBasis where
  | r | o | f | grossAmountDiff | gasCostAsProfit
  deriving DecidableEq

/-- The entries of an event's `details` that the classifier reads back, that its canonical id is
    made of or that state what was captured: `transferMismatch` says that `reasons` lists
    `TRANSFER_MISMATCH`, and `feesEstimated` is its `by_token`. -/
structure Details where
  pnlBasis : Option PnlBasis := none
  transferMismatch : Bool := false
  backrunTxIndex : Option ℕ := none
  victimTxIndex : Option ℕ := none
  closeTxIndex : Option ℕ := none
  sourceTxIndex : Option ℕ := none
  user : Option Address := none
  tickLower : Option ℤ := none
  tickUpper : Option ℤ := none
  burnTxIndex : Option ℕ := none
  feesEstimated : List (Address × ℕ) := []
  deriving DecidableEq

/-- Model of `MevEvent` (`types.rs`, lines 157–194); the defaults are those of `for_tx` (lines
    201–231). -/
structure MevEvent where
  txIndex : ℕ
  txHash : B256
  kind : MevKind
  searcher : Address
  contract : Option Address
  pools : List Address := []
  profitToken : Option Address := none
  profitAmount : Option ℕ := none
  profitTokens : List (Address × ℕ) := []
  gasCostWei : ℕ := 0
  flashloanFeeWei : Option ℕ := none
  flashloanFeeToken : Option Address := none
  confidence : Confidence := .exact
  victimHashes : List B256 := []
  victimSwapSize : Option ℕ := none
  details : Details := {}
  deriving DecidableEq

end MevScout.Explorer
