import MevScout.Explorer.Legs

/-!
# Atomic arbitrage

Models of `core/src/explorer/classify/arb.rs`: the transactions whose swaps close a cycle and
leave a profit in its start token, and the operational executions (keepers, claims that are sold,
bundlers). The rows of `arb_rejects` are kept as the reason alone.

Results:
* `classifyArbs_kind`: the kinds of the events.
-/

namespace MevScout.Explorer

/-! ## The ledger of a cycle -/

/-- The owner of a borrowed principal is taken back what the transfers do not show repaid
    (`arb.rs`, lines 69–106). -/
def netLoan (tx : TxInput) (ledger : DeltaLedger) (fl : FlashLoanFact) : DeltaLedger :=
  if fl.token = 0 ∨ fl.amount = 0 then ledger
  else
    let fee := fl.fee.getD 0
    let borrower := if fl.initiator = 0 then tx.sender else fl.initiator
    let repaidTotal := (tx.transfers.filter fun t =>
      t.token = fl.token ∧ (t.sender = borrower ∨ t.sender = tx.sender) ∧
        (t.recipient = fl.provider ∨ t.recipient = fl.recipient)).foldl
      (fun acc t => saturatingAdd 256 acc t.amount) 0
    if repaidTotal ≥ fl.amount then ledger
    else netFlashLoan ledger (if fl.recipient = 0 then borrower else fl.recipient) fl.token
      fl.amount fee

/-- The largest fee of the loans that have one, with its token (`arb.rs`, lines 107–110). -/
def loanFee (fee : Option (ℕ × Address)) (fl : FlashLoanFact) : Option (ℕ × Address) :=
  if fl.token = 0 ∨ fl.amount = 0 ∨ fl.fee.getD 0 = 0 then fee
  else
    match fee with
    | some (f, _) => if fl.fee.getD 0 > f then some (fl.fee.getD 0, fl.token) else fee
    | none => some (fl.fee.getD 0, fl.token)

/-- The ledger after the flash loans. -/
def arbLedger (input : BlockInput) (tx : TxInput) : DeltaLedger :=
  tx.flashloans.foldl (netLoan tx) (txLedger input tx)

/-- The edges of the swaps on pools, those of aggregators left out (`arb.rs`, lines 128–138). -/
def resolvedEdges (swaps : List SwapFact) : List SwapEdge :=
  (routeSwaps swaps).map SwapFact.edge

/-- Model of `hop_max_by_token` (`arb.rs`, lines 731–750). -/
def hopMaxByToken (swaps : List SwapFact) (token : Address) : ℕ :=
  (swaps.filter fun s => s.amm ≠ .aggregator ∧ !hasUnresolvedTokens s).foldl (hopMax token) 0

/-! ## The profit holder -/

/-- Model of `ForwardedLookup` (`arb.rs`, lines 573–581). -/
inductive ForwardedLookup where
  | hit (recipient forwardedFrom : Address)
  | tipSink
  | none
  deriving DecidableEq

/-- Model of `forwarded_anchor_recipient` (`arb.rs`, lines 588–650). -/
def forwardedAnchorRecipient (ledger : DeltaLedger) (tx : TxInput) (candidates : List Address)
    (tipSinks : Finset Address) (anchor : Address) : ForwardedLookup :=
  let routePools := (tx.swaps.filter fun s => !hasUnresolvedTokens s ∧ s.amm ≠ .aggregator).map
    (·.pool)
  let holders := (((ledger.credited.filter fun k => k.2 = anchor ∧ k.1 ≠ 0 ∧ k.1 ∉ candidates ∧
    k.1 ∉ routePools ∧ ledger.net k.1 anchor > 0).map Prod.fst).insertionSort (· ≤ ·)).dedup
  match holders with
  | [recipient] =>
    if recipient ∈ tipSinks then .tipSink
    else if tx.swaps.any fun s => s.owner = some recipient then .none
    else
      let funders := tx.sender :: tx.recipient.toList
      let inbound := tx.transfers.filter fun t =>
        t.token = anchor ∧ t.recipient = recipient ∧ t.amount ≠ 0
      if inbound = [] then .none
      else if !inbound.all fun t => t.sender ∈ funders then .none
      else
        let forwardedFrom :=
          (tx.recipient.filter fun c => inbound.any fun t => t.sender = c).getD tx.sender
        if forwardedFrom = 0 then .none else .hit recipient forwardedFrom
  | _ => .none

/-- Model of `anchor_profit_amount` (`arb.rs`, lines 702–728). -/
def anchorProfitAmount (ledger : DeltaLedger) (eoa searcher anchor : Address) : ℕ :=
  let searcherNet := ledger.netSigned searcher anchor
  if eoa = 0 ∨ eoa = searcher then (if searcherNet > 0 then searcherNet.toNat else 0)
  else
    let eoaNet := ledger.netSigned eoa anchor
    let combined := if eoaNet < 0 ∧ searcherNet > 0 then wrapSigned 256 (searcherNet + eoaNet)
      else searcherNet
    if combined > 0 then combined.toNat else 0

/-- Model of `has_material_deficit` (`arb.rs`, lines 754–777). -/
def hasMaterialDeficit (ledger : DeltaLedger) (addr : Address) (walk : Finset Address)
    (hopMax : Address → ℕ) : Bool :=
  (ledger.touchedTokens addr).any fun t =>
    t != nativeMarker && deficitAmount ledger addr t != 0 &&
      (t ∉ walk || !isDustDeficit (deficitAmount ledger addr t) (hopMax t))

/-- Model of `initiator_blocks_cycle` (`arb.rs`, lines 781–823). -/
def initiatorBlocksCycle (tx : TxInput) (ledger : DeltaLedger) (searcher anchor : Address)
    (walk : Finset Address) (hopMax : Address → ℕ) : Bool :=
  if tx.sender = 0 ∨ tx.sender = searcher then false
  else
    (ledger.touchedTokens tx.sender).any fun t =>
      let deficit := deficitAmount ledger tx.sender t
      if t = nativeMarker ∨ deficit = 0 then false
      else if t = anchor then
        !((tx.transfers.any fun tr => tr.token = anchor ∧ tr.sender = tx.sender ∧
          tr.recipient = searcher ∧ tr.amount ≠ 0) && ledger.net searcher anchor > 0)
      else !(t ∈ walk && isDustDeficit deficit (hopMax t))

/-! ## Atomic arbitrage -/

/-- The reasons of `RejectReason` that the pass gives. -/
inductive RejectReason where
  | unresolvedCycle | mixedFlowOwner | builderTip | netZeroSearcher | materialDeficit
  | openInventory
  deriving DecidableEq

/-- What a cycle books: the profit holder, the amount of the start token, and where the holder is
    a third party, who forwarded it. -/
structure Booking where
  searcher : Address
  amount : ℕ
  forwardedFrom : Option Address
  deriving DecidableEq

/-- The candidates of the profit: pools of the route hold liquidity, not profit (`arb.rs`, lines
    166–171). -/
def profitCandidates (tx : TxInput) : List Address :=
  (searcherCandidates tx).filter (· ∉ (resolvedEdges tx.swaps).map (·.pool))

/-- The third party that the profit is forwarded to, if any. -/
def forwardedProfit (input : BlockInput) (tx : TxInput) (anchor : Address) : ForwardedLookup :=
  forwardedAnchorRecipient (arbLedger input tx) tx (profitCandidates tx) input.tipSinks anchor

/-- The profit holder: the first candidate with a net gain in the start token, else the first one
    with a profit token, else a third party, with who forwarded it (`arb.rs`, lines 188–208). -/
def profitHolder (input : BlockInput) (tx : TxInput) (anchor : Address) :
    Option (Address × Option Address) :=
  match (profitCandidates tx).find? (fun a => (arbLedger input tx).net a anchor > 0) <|>
      (profitCandidates tx).find? (fun a =>
        (selectProfitToken (arbLedger input tx) a input.ctx.priority).isSome) with
  | some a => some (a, none)
  | none =>
    match forwardedProfit input tx anchor with
    | .hit recipient forwardedFrom => some (recipient, some forwardedFrom)
    | _ => none

/-- The part of `classify_atomic_arbs` after the cycle is found (`arb.rs`, lines 151–253). -/
def bookCycle (input : BlockInput) (tx : TxInput) (anchor : Address) (walk : Finset Address) :
    Except RejectReason Booking :=
  let ledger := arbLedger input tx
  let hopMax := hopMaxByToken tx.swaps
  if !flowAttributable tx.swaps (searcherCandidates tx) then .error .mixedFlowOwner
  else
    match profitHolder input tx anchor with
    | none =>
      .error (if forwardedProfit input tx anchor = .tipSink then .builderTip
        else .netZeroSearcher)
    | some (searcher, forwardedFrom) =>
      let amount := anchorProfitAmount ledger tx.sender searcher anchor
      if amount = 0 then .error .netZeroSearcher
      else if hasMaterialDeficit ledger searcher walk hopMax then .error .materialDeficit
      else if initiatorBlocksCycle tx ledger searcher anchor walk hopMax then
        .error .openInventory
      else .ok ⟨searcher, amount, forwardedFrom⟩

/-- What the pass says of a transaction: nothing, a reason, or the booking of a cycle with its
    start token. -/
def atomicArb (input : BlockInput) (tx : TxInput) :
    Option (Except RejectReason (Address × Booking)) :=
  if !tx.success ∨ tx.swaps = [] then none
  else
    match findClosedCycle (resolvedEdges tx.swaps) with
    | none =>
      if (resolvedEdges tx.swaps).length ≥ 2 then some (.error .unresolvedCycle) else none
    | some (anchor, walk) => some ((bookCycle input tx anchor walk).map fun b => (anchor, b))

/-- The event of an atomic arbitrage (`arb.rs`, lines 316–344). -/
def arbEvent (tx : TxInput) (anchor : Address) (b : Booking) : MevEvent :=
  let fee := tx.flashloans.foldl loanFee none
  { txIndex := tx.txIndex
    txHash := tx.txHash
    kind := .arbAtomic
    searcher := b.searcher
    contract := if b.searcher = tx.sender then none else tx.recipient <|> b.forwardedFrom
    pools := tx.swaps.map (·.pool)
    profitToken := some anchor
    profitAmount := some b.amount
    profitTokens := [(anchor, b.amount)]
    gasCostWei := tx.gasCostWei
    flashloanFeeWei := fee.map Prod.fst
    flashloanFeeToken := fee.map Prod.snd
    confidence := if b.forwardedFrom.isSome then .inferred else .exact
    details := { pnlBasis := some .r } }

/-- Model of `classify_atomic_arbs` (`arb.rs`, lines 38–346). -/
def classifyAtomicArbs (input : BlockInput) : List MevEvent :=
  input.txs.filterMap fun tx =>
    match atomicArb input tx with
    | some (.ok (anchor, b)) => some (arbEvent tx anchor b)
    | _ => none

/-! ## Operational executions -/

/-- The common shape of an operational event, which is anchored on the sender's transaction. -/
def utilityEvent (tx : TxInput) (contract token : Option Address) (amount : Option ℕ)
    (basis : PnlBasis) : MevEvent :=
  { txIndex := tx.txIndex
    txHash := tx.txHash
    kind := .utility
    searcher := tx.sender
    contract := contract
    profitToken := token
    profitAmount := amount
    details := { pnlBasis := some basis } }

/-- Model of `classify_keepers` (`arb.rs`, lines 351–390). -/
def classifyKeepers (input : BlockInput) : List MevEvent :=
  input.txs.flatMap fun tx => tx.keepers.map fun keeper =>
    utilityEvent tx tx.recipient keeper.feeToken (keeper.fee.filter (· ≠ 0)) .f

/-- Model of `claim_and_sell_token` (`strategy_tags.rs`, lines 174–187). -/
def claimAndSellToken (transfers : List TransferFact) (swaps : List SwapFact) : Option Address :=
  (transfers.find? fun t => t.sender = 0 ∧ t.amount ≠ 0 ∧ t.token ≠ 0 ∧
    swaps.any fun s => s.tokenIn = t.token ∧ s.amountIn ≠ 0).map (·.token)

/-- Model of `classify_claim_and_sell` (`arb.rs`, lines 395–455). Where the transaction has an
    atomic arbitrage already, the source only adds tags to it. -/
def classifyClaimAndSell (input : BlockInput) (arbEvents : List MevEvent) : List MevEvent :=
  input.txs.filterMap fun tx =>
    if !tx.success ∨ (claimAndSellToken tx.transfers tx.swaps).isNone then none
    else if arbEvents.any fun e => e.txIndex = tx.txIndex ∧ e.kind = .arbAtomic then none
    else
      let ledger := txLedger input tx
      match selectProfitToken ledger tx.sender input.ctx.priority with
      | none => none
      | some pt =>
        if ledger.net tx.sender pt = 0 then none
        else some { utilityEvent tx tx.recipient (some pt) (some (ledger.net tx.sender pt)) .r with
          pools := tx.swaps.map (·.pool) }

/-- Model of `classify_bundlers` (`arb.rs`, lines 458–492). -/
def classifyBundlers (input : BlockInput) : List MevEvent :=
  input.txs.flatMap fun tx => (tx.userOps.filter (·.success)).map fun uo =>
    utilityEvent tx (some uo.entryPoint) (some input.ctx.wrappedNative) (some uo.actualGasCost)
      .gasCostAsProfit

/-- Model of `classify_arbs` (`arb.rs`, lines 24–35). -/
def classifyArbs (input : BlockInput) : List MevEvent :=
  let events := classifyAtomicArbs input
  events ++ classifyKeepers input ++ classifyClaimAndSell input events ++ classifyBundlers input

/-! ## The kinds of the events -/

variable {input : BlockInput} {e : MevEvent}

theorem classifyAtomicArbs_kind (he : e ∈ classifyAtomicArbs input) : e.kind = .arbAtomic := by
  obtain ⟨tx, -, he⟩ := List.mem_filterMap.mp he
  split at he
  · cases he
    rfl
  · cases he

theorem classifyClaimAndSell_kind {arbEvents : List MevEvent}
    (he : e ∈ classifyClaimAndSell input arbEvents) : e.kind = .utility := by
  obtain ⟨tx, -, he⟩ := List.mem_filterMap.mp he
  split_ifs at he
  dsimp only at he
  split at he
  · cases he
  · split_ifs at he
    cases he
    rfl

theorem classifyArbs_kind (he : e ∈ classifyArbs input) :
    e.kind = .arbAtomic ∨ e.kind = .utility := by
  rcases List.mem_append.mp he with he | he
  · rcases List.mem_append.mp he with he | he
    · rcases List.mem_append.mp he with he | he
      · exact .inl (classifyAtomicArbs_kind he)
      · right
        obtain ⟨tx, -, he⟩ := List.mem_flatMap.mp he
        obtain ⟨keeper, -, rfl⟩ := List.mem_map.mp he
        rfl
    · exact .inr (classifyClaimAndSell_kind he)
  · right
    obtain ⟨tx, -, he⟩ := List.mem_flatMap.mp he
    obtain ⟨uo, -, rfl⟩ := List.mem_map.mp he
    rfl

end MevScout.Explorer
