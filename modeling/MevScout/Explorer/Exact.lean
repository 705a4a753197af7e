import MevScout.Explorer.Legs

/-!
# Liquidations, skims and just-in-time liquidity

Models of `core/src/explorer/classify/liquidation.rs`, `skim.rs` and `jit.rs`: the passes whose
events come from logs of their own. The rows of dropped candidates, which no pass reads, are left
out.

Results:
* `classifyLiquidations_kind`, `classifySkims_kind`, `classifyJit_kind`: the kinds of the events.
-/

namespace MevScout.Explorer

/-! ## Liquidations -/

/-- The event of a liquidation (`liquidation.rs`, lines 47–204). -/
def liquidationEvent (input : BlockInput) (tx : TxInput) (liq : LiquidationFact) : MevEvent :=
  let searcher := if liq.liquidator = 0 then tx.sender else liq.liquidator
  let reconciled := liq.collateralAsset ≠ 0 ∧
    (txLedger input tx).net searcher liq.collateralAsset ≥ liq.collateralAmount
  let primaryFlash := tx.flashloans.head?
  { txIndex := tx.txIndex
    txHash := tx.txHash
    kind := .liquidation
    searcher := searcher
    contract := tx.recipient
    profitToken := if liq.collateralAsset = 0 then none else some liq.collateralAsset
    profitAmount := some liq.collateralAmount
    gasCostWei := tx.gasCostWei
    flashloanFeeWei := primaryFlash.bind fun fl => fl.fee.filter (· ≠ 0)
    flashloanFeeToken := primaryFlash.map (·.token)
    details := { pnlBasis := some .o, transferMismatch := !reconciled, user := some liq.user } }

/-- The event of a discounted purchase of collateral (`liquidation.rs`, lines 219–263); `paired`
    says that an `Absorb` stands in this or an earlier transaction. -/
def buyCollateralEvent (tx : TxInput) (paired : Bool) (buy : BuyCollateralFact) : MevEvent :=
  { txIndex := tx.txIndex
    txHash := tx.txHash
    kind := .liquidation
    searcher := if buy.buyer = 0 then tx.sender else buy.buyer
    contract := tx.recipient
    profitToken := if buy.collateralAsset = 0 then none else some buy.collateralAsset
    profitAmount := some buy.collateralAmount
    gasCostWei := tx.gasCostWei
    confidence := if paired then .exact else .inferred
    details := { pnlBasis := some .o } }

/-- Model of `classify_liquidations` (`liquidation.rs`, lines 24–268). -/
def classifyLiquidations (input : BlockInput) : List MevEvent :=
  let absorbTxs := (input.txs.filter fun t =>
    t.liquidations.any (·.protocol = "compound_v3")).map (·.txIndex)
  (input.txs.flatMap fun tx => tx.liquidations.map (liquidationEvent input tx)) ++
    input.txs.flatMap fun tx =>
      tx.buyCollaterals.map (buyCollateralEvent tx (absorbTxs.any (· ≤ tx.txIndex)))

/-! ## Skims -/

/-- The transfers of a transaction that leave a registered pair without a swap or another
    operation of the pair (`skim.rs`, lines 42–72). -/
def pairOutflows (v2LikePools : Finset Address) (tx : TxInput) : List TransferFact :=
  let excluded := tx.swaps.map (·.pool) ++ tx.pairOps
  tx.transfers.filter fun t =>
    t.amount ≠ 0 ∧ t.sender ≠ 0 ∧ t.sender ∈ v2LikePools ∧ t.sender ∉ excluded

/-- What one pair sends out, token by token in ascending order (`skim.rs`, lines 83–91). -/
def skimTokens (outflows : List TransferFact) (pool : Address) : List (Address × ℕ) :=
  let out := outflows.filter (·.sender = pool)
  (((out.map (·.token)).dedup.insertionSort (· ≤ ·)).map fun token =>
    (token, (out.filter (·.token = token)).foldl
      (fun acc t => saturatingAdd 256 acc t.amount) 0)).filter (·.2 ≠ 0)

/-- The later of the largest amounts. -/
def maxByAmount (best : Address × ℕ) (t : Address × ℕ) : Address × ℕ :=
  if best.2 ≤ t.2 then t else best

/-- The skim of a pair (`skim.rs`, lines 74–151); a pair that receives tokens too is swapping. -/
def skimEvent (input : BlockInput) (tx : TxInput) (pool : Address) : Option MevEvent :=
  let inbound := (tx.transfers.filter fun t =>
    t.amount ≠ 0 ∧ t.recipient ∈ input.ctx.v2LikePools).map (·.recipient)
  if pool ∈ inbound then none
  else
    match skimTokens (pairOutflows input.ctx.v2LikePools tx) pool with
    | [] => none
    | first :: rest =>
      let profit := ((first :: rest).find? fun t => t.1 ∈ input.ctx.priority).getD
        (rest.foldl maxByAmount first)
      some
        { txIndex := tx.txIndex
          txHash := tx.txHash
          kind := .skim
          searcher := tx.sender
          contract := tx.recipient
          pools := [pool]
          profitToken := some profit.1
          profitAmount := some profit.2
          profitTokens := first :: rest
          gasCostWei := tx.gasCostWei
          details := { pnlBasis := some .r } }

/-- Model of `classify_skims` (`skim.rs`, lines 14–155). The source iterates over the map of the
    pairs in no fixed order; they come here in the order of their last transfers. -/
def classifySkims (input : BlockInput) : List MevEvent :=
  input.txs.flatMap fun tx =>
    if tx.success then
      ((pairOutflows input.ctx.v2LikePools tx).map (·.sender)).dedup.filterMap
        (skimEvent input tx)
    else []

/-! ## Just-in-time liquidity -/

/-- Model of `JitEventPosition` (`jit.rs`, lines 17–29). -/
structure JitEventPosition where
  pool : Address
  owner : Address
  tickLower : ℤ
  tickUpper : ℤ
  mintTx : ℕ
  burnTx : ℕ
  binAmm : Bool

/-- A swap on the pool of a position, inside its range where the pool has ticks (`jit.rs`, lines
    164–172). -/
def JitEventPosition.inRange (pos : JitEventPosition) (s : SwapFact) : Bool :=
  s.pool = pos.pool && (pos.binAmm ||
    s.tick.any fun k => pos.tickLower ≤ k ∧ k ≤ pos.tickUpper)

/-- The fee that a swap is taken to pay (`jit.rs`, lines 193–194). -/
def swapFee (bps : ℕ) (s : SwapFact) : ℕ := saturatingMul 256 s.amountIn bps / 10000

/-- The fees of some swaps, token by token in ascending order (`jit.rs`, lines 189–203). -/
def feesByToken (bps : ℕ) (swaps : List SwapFact) : List (Address × ℕ) :=
  ((swaps.map (·.tokenIn)).dedup.insertionSort (· ≤ ·)).map fun token =>
    (token, (swaps.filter (·.tokenIn = token)).foldl
      (fun acc s => wrappingAdd 256 acc (swapFee bps s)) 0)

/-- Model of `build_jit_event` (`jit.rs`, lines 149–259). -/
def buildJitEvent (input : BlockInput) (pos : JitEventPosition) : Option MevEvent :=
  if (input.txs.flatMap (·.swaps)).any pos.inRange then
    some
      { txIndex := pos.mintTx
        txHash := 0
        kind := .jit
        searcher := pos.owner
        contract := none
        pools := [pos.pool]
        gasCostWei := ((input.txs.find? (·.txIndex = pos.mintTx)).map (·.gasCostWei)).getD 0
        details :=
          { pnlBasis := some .f, tickLower := some pos.tickLower
            tickUpper := some pos.tickUpper
            burnTxIndex := some pos.burnTx
            feesEstimated := feesByToken input.ctx.jitPoolFeeBps
              ((input.txs.flatMap (·.swaps)).filter pos.inRange) } }
  else none

/-- The facts of a block with the index of their transaction. -/
def jitFacts (input : BlockInput) (isMint : Bool) : List (ℕ × JitFact) :=
  input.txs.flatMap fun t => (t.jit.filter (·.isMint = isMint)).map fun j => (t.txIndex, j)

/-- The first burn that can close a position of some liquidity and is not used yet. -/
def findBurn (burns : List (ℕ × JitFact)) (used : Finset (ℕ × ℕ)) (pool owner : Address)
    (tickLower tickUpper : ℤ) (liquidity : ℕ) (after : ℕ → Bool) : Option (ℕ × JitFact) :=
  burns.find? fun (burnTx, b) =>
    after burnTx ∧ (burnTx, b.logIndex) ∉ used ∧ b.pool = pool ∧ b.owner = owner ∧
      b.tickLower = tickLower ∧ b.tickUpper = tickUpper ∧ b.liquidity ≥ liquidity

/-- The burns that are used and the events so far. -/
structure JitState where
  used : Finset (ℕ × ℕ) := ∅
  out : List MevEvent := []

/-- The burn that was found, if any, is used up and its position gives an event. -/
def takeBurn (input : BlockInput) (s : JitState) (burn : Option (ℕ × JitFact))
    (pos : ℕ → JitFact → JitEventPosition) : JitState :=
  match burn with
  | none => s
  | some (burnTx, b) =>
    { used := insert (burnTx, b.logIndex) s.used
      out := s.out ++ (buildJitEvent input (pos burnTx b)).toList }

/-- A Mint of the block is closed by a Burn of a later transaction (`jit.rs`, lines 66–109). -/
def closeMint (input : BlockInput) (s : JitState) (mint : ℕ × JitFact) : JitState :=
  let (mintTx, m) := mint
  takeBurn input s
    (findBurn (jitFacts input false) s.used m.pool m.owner m.tickLower m.tickUpper m.liquidity
      fun burnTx => burnTx > mintTx)
    fun burnTx _ => ⟨m.pool, m.owner, m.tickLower, m.tickUpper, mintTx, burnTx, m.binAmm⟩

/-- A position of an earlier block is closed by any Burn, and anchored on it (`jit.rs`, lines
    112–143). -/
def closeOpen (input : BlockInput) (s : JitState) (p : OpenPosition) : JitState :=
  takeBurn input s
    (findBurn (jitFacts input false) s.used p.pool p.owner p.tickLower p.tickUpper p.liquidity
      fun _ => true)
    fun burnTx b => ⟨p.pool, p.owner, p.tickLower, p.tickUpper, burnTx, burnTx, b.binAmm⟩

/-- Model of `classify_jit` (`jit.rs`, lines 40–146). -/
def classifyJit (input : BlockInput) : List MevEvent :=
  (input.openPositions.foldl (closeOpen input)
    ((jitFacts input true).foldl (closeMint input) {})).out

/-! ## The kinds of the events -/

variable {input : BlockInput} {e : MevEvent}

theorem classifyLiquidations_kind (he : e ∈ classifyLiquidations input) :
    e.kind = .liquidation := by
  rcases List.mem_append.mp he with he | he
  · obtain ⟨tx, -, he⟩ := List.mem_flatMap.mp he
    obtain ⟨liq, -, rfl⟩ := List.mem_map.mp he
    rfl
  · obtain ⟨tx, -, he⟩ := List.mem_flatMap.mp he
    obtain ⟨buy, -, rfl⟩ := List.mem_map.mp he
    rfl

theorem skimEvent_kind {tx : TxInput} {pool : Address} (h : skimEvent input tx pool = some e) :
    e.kind = .skim := by
  unfold skimEvent at h
  by_cases hin : pool ∈ (tx.transfers.filter fun t =>
      t.amount ≠ 0 ∧ t.recipient ∈ input.ctx.v2LikePools).map (·.recipient)
  · rw [if_pos hin] at h
    cases h
  · rw [if_neg hin] at h
    split at h
    · cases h
    · cases h
      rfl

theorem classifySkims_kind (he : e ∈ classifySkims input) : e.kind = .skim := by
  obtain ⟨tx, -, he⟩ := List.mem_flatMap.mp he
  by_cases hsuccess : tx.success
  · rw [if_pos hsuccess] at he
    obtain ⟨pool, -, hpool⟩ := List.mem_filterMap.mp he
    exact skimEvent_kind hpool
  · rw [if_neg hsuccess] at he
    cases he

theorem buildJitEvent_kind {pos : JitEventPosition} (h : e ∈ (buildJitEvent input pos).toList) :
    e.kind = .jit := by
  unfold buildJitEvent at h
  by_cases hany : (input.txs.flatMap (·.swaps)).any pos.inRange
  · rw [if_pos hany, Option.toList_some, List.mem_singleton] at h
    rw [h]
  · rw [if_neg hany] at h
    cases h

theorem takeBurn_kind {s : JitState} (hs : ∀ e ∈ s.out, e.kind = .jit)
    (burn : Option (ℕ × JitFact)) (pos : ℕ → JitFact → JitEventPosition) :
    ∀ e ∈ (takeBurn input s burn pos).out, e.kind = .jit := by
  intro e he
  rcases burn with _ | ⟨burnTx, b⟩
  · exact hs e he
  · rcases List.mem_append.mp he with he | he
    · exact hs e he
    · exact buildJitEvent_kind he

theorem classifyJit_kind (he : e ∈ classifyJit input) : e.kind = .jit := by
  have hfold : ∀ {β : Type} (f : JitState → β → JitState)
      (hf : ∀ s, (∀ e ∈ s.out, e.kind = .jit) → ∀ b, ∀ e ∈ (f s b).out, e.kind = .jit)
      (l : List β) (s : JitState), (∀ e ∈ s.out, e.kind = .jit) →
        ∀ e ∈ (l.foldl f s).out, e.kind = .jit := by
    intro β f hf l
    induction l with
    | nil => exact fun s hs => hs
    | cons b l ih => exact fun s hs => ih (f s b) (hf s hs b)
  refine hfold (closeOpen input) (fun s hs p => takeBurn_kind hs _ _) _ _ ?_ e he
  refine hfold (closeMint input) (fun s hs mint => takeBurn_kind hs _ _) _ _ ?_
  rintro e ⟨⟩

end MevScout.Explorer
