import MevScout.Explorer.Cycle
import MevScout.Explorer.Profit

/-!
# Swap legs

Models of `core/src/explorer/classify/legs.rs`: the legs of a block pool by pool, the addresses a
transaction's profit may belong to, and the profit of a transaction that closes a cycle. The
classifier's input stands here too (`core/src/explorer/classify/mod.rs`).

Results:
* `txCycleProfit_spec`: the profit of a cycle is what one candidate gains in the transaction.
-/

namespace MevScout.Explorer

/-! ## The input of the classifier -/

/-- Model of `OpenPosition` (`store/mod.rs`, lines 44–51). -/
structure OpenPosition where
  pool : Address
  owner : Address
  tickLower : ℤ
  tickUpper : ℤ
  liquidity : ℕ
  deriving DecidableEq

/-- The floating-point part of `price_better_by` and `price_worse_by` (`legs.rs`, lines 89–103):
    whether one execution price, given by its output and its input, is materially better or
    worse than another. -/
structure PriceTest where
  better : ℕ × ℕ → ℕ × ℕ → Bool
  worse : ℕ × ℕ → ℕ × ℕ → Bool

/-- Model of `BlockContext` (`mod.rs`, lines 102–122); `priority` is the list of its
    `profit_policy`, `price` stands for `causal_price_min_pct`, and the default of `jitPoolFeeBps`
    is `POOL_FEE_BPS`. -/
structure BlockContext where
  wrappedNative : Address
  priority : List Address
  v2LikePools : Finset Address
  causalWindowTxs : ℕ
  price : PriceTest
  jitPoolFeeBps : ℕ := 30

/-- Model of `BlockInput` (`mod.rs`, lines 151–169). -/
structure BlockInput where
  ctx : BlockContext
  openPositions : List OpenPosition := []
  tipSinks : Finset Address := ∅
  txs : List TxInput

/-- Model of `TOKEN0_SENTINEL` (`decode/sentinels.rs`, line 4). -/
def token0Sentinel : Address := 0xeeeeeeeeeeeeeeeeeeeeeeeeeeeeeeeeeeeeeeee

/-- Model of `TOKEN1_SENTINEL` (`decode/sentinels.rs`, line 5). -/
def token1Sentinel : Address := 0xe1e1e1e1e1e1e1e1e1e1e1e1e1e1e1e1e1e1e1e1

/-- Model of `is_unresolved_token` (`decode/sentinels.rs`, lines 10–12). -/
def isUnresolvedToken (t : Address) : Bool :=
  t == 0 || t == token0Sentinel || t == token1Sentinel

/-- Model of `has_unresolved_tokens` (`mod.rs`, lines 566–568). -/
def hasUnresolvedTokens (s : SwapFact) : Bool :=
  isUnresolvedToken s.tokenIn || isUnresolvedToken s.tokenOut

/-- The edge of a swap. -/
def SwapFact.edge (s : SwapFact) : SwapEdge := ⟨s.tokenIn, s.tokenOut, s.pool⟩

/-! ## Legs -/

/-- Model of `SwapLeg` (`legs.rs`, lines 13–20). -/
structure SwapLeg where
  txIndex : ℕ
  txHash : B256
  tokenIn : Address
  tokenOut : Address
  amountIn : ℕ
  amountOut : ℕ
  deriving DecidableEq

/-- An entry `(tx_index, from, leg)` of `pool_legs`. -/
structure PoolLeg where
  txIndex : ℕ
  sender : Address
  leg : SwapLeg
  deriving DecidableEq

/-- Model of `same_dir` (`legs.rs`, lines 60–65). -/
def sameDir (a b : SwapLeg) : Bool :=
  a.tokenIn != 0 && a.tokenOut != 0 && a.tokenIn == b.tokenIn && a.tokenOut == b.tokenOut

/-- Model of `opposite_dir` (`legs.rs`, lines 68–73). -/
def oppositeDir (a b : SwapLeg) : Bool :=
  a.tokenIn != 0 && a.tokenOut != 0 && a.tokenIn == b.tokenOut && a.tokenOut == b.tokenIn

/-- Model of `exec_price` (`legs.rs`, lines 76–84), the quotient left undivided. -/
def execPrice (leg : SwapLeg) : Option (ℕ × ℕ) :=
  if leg.amountIn = 0 then none else some (leg.amountOut, leg.amountIn)

/-- Model of `price_better_by` (`legs.rs`, lines 89–94). -/
def priceBetterBy (price : PriceTest) (b r : SwapLeg) : Bool :=
  match execPrice b, execPrice r with
  | some pb, some pr => price.better pb pr
  | _, _ => false

/-- Model of `price_worse_by` (`legs.rs`, lines 98–103). -/
def priceWorseBy (price : PriceTest) (v f : SwapLeg) : Bool :=
  match execPrice v, execPrice f with
  | some pv, some pf => price.worse pv pf
  | _, _ => false

/-- The legs of a transaction with their pools. -/
def txLegs (tx : TxInput) : List (Address × PoolLeg) :=
  if tx.success then
    (tx.swaps.filter fun s => !hasUnresolvedTokens s).map fun s =>
      (s.pool, ⟨tx.txIndex, tx.sender,
        ⟨tx.txIndex, tx.txHash, s.tokenIn, s.tokenOut, s.amountIn, s.amountOut⟩⟩)
  else []

/-- Model of `pool_legs` (`legs.rs`, lines 107–135). The source iterates over the map of the
    pools in no fixed order; the pools come here in the order of their last legs. -/
def poolLegs (input : BlockInput) : List (Address × List PoolLeg) :=
  let legs := input.txs.flatMap txLegs
  (legs.map Prod.fst).dedup.map fun pool =>
    (pool, ((legs.filter (·.1 = pool)).map Prod.snd).insertionSort (·.txIndex ≤ ·.txIndex))

/-! ## Cycles -/

/-- Model of `searcher_candidates` (`legs.rs`, lines 143–162). -/
def searcherCandidates (tx : TxInput) : List Address :=
  let candidates := tx.sender :: tx.recipient.toList
  let participations := tx.transfers.flatMap fun t => [t.sender, t.recipient]
  candidates ++ (participations.dedup.filter fun addr =>
    participations.count addr ≥ 2 ∧ addr ∉ candidates).insertionSort (· ≤ ·)

/-- The swaps on pools whose tokens are resolved, those of aggregators left out. -/
def routeSwaps (swaps : List SwapFact) : List SwapFact :=
  swaps.filter fun s => s.amm ≠ .aggregator ∧ !hasUnresolvedTokens s ∧
    s.tokenIn ≠ token0Sentinel ∧ s.tokenIn ≠ token1Sentinel

/-- The owners of the swaps that are not pools of the route. -/
def externalOwners (swaps : List SwapFact) : List Address :=
  ((swaps.filter fun s => !hasUnresolvedTokens s).filterMap (·.owner)).filter
    (· ∉ (routeSwaps swaps).map (·.pool))

/-- All owners are one, and that one is a candidate. -/
def oneOwner (candidates : List Address) : List Address → Bool
  | [] => true
  | o :: owners => owners.all (· = o) && o ∈ candidates

/-- Model of `flow_attributable` (`arb.rs`, lines 667–698): the walk over the swaps keeps the
    one external owner that it has met. -/
def flowAttributable (swaps : List SwapFact) (candidates : List Address) : Bool :=
  oneOwner candidates (externalOwners swaps)

/-- The larger of an amount and of what a swap moves of a token. -/
def hopMax (token : Address) (m : ℕ) (s : SwapFact) : ℕ :=
  let m := if s.tokenIn = token then max m s.amountIn else m
  if s.tokenOut = token then max m s.amountOut else m

/-- Model of `CycleMiss` (`legs.rs`, lines 167–178). -/
inductive CycleMiss where
  | tooFewEdges | notClosed | notAttributable | inventorySpend | noResidual
  deriving DecidableEq

/-- What the loop of `tx_cycle_profit` over the candidates says of one of them: nothing where it
    spends inventory or holds no residual. -/
def candidateProfit (ledger : DeltaLedger) (priority : List Address) (searcher : Address) :
    Option (Address × Address × ℕ) :=
  if hasInventorySpend ledger searcher then none
  else
    match selectProfitToken ledger searcher priority with
    | some token =>
      if ledger.net searcher token = 0 then none
      else some (searcher, token, ledger.net searcher token)
    | none => none

/-- The ledger of one transaction. -/
def txLedger (input : BlockInput) (tx : TxInput) : DeltaLedger :=
  DeltaLedger.fromTransfers tx.transfers input.ctx.wrappedNative (tx.sender, tx.value)

/-- Model of `tx_cycle_profit` (`legs.rs`, lines 182–228). -/
def txCycleProfit (input : BlockInput) (tx : TxInput) :
    Except CycleMiss (Address × Address × ℕ) :=
  let ledger := txLedger input tx
  let candidates := searcherCandidates tx
  let resolved := (tx.swaps.filter fun s => !hasUnresolvedTokens s ∧
    s.tokenIn ≠ token0Sentinel ∧ s.tokenIn ≠ token1Sentinel).map SwapFact.edge
  if resolved.length < 2 then .error .tooFewEdges
  else if !hasClosedCycle resolved then .error .notClosed
  else if !flowAttributable tx.swaps candidates then .error .notAttributable
  else
    match candidates.findSome? (candidateProfit ledger input.ctx.priority) with
    | some profit => .ok profit
    | none =>
      if candidates.all (hasInventorySpend ledger) then .error .inventorySpend
      else .error .noResidual

/-! ## The profit of a cycle -/

theorem candidateProfit_spec {ledger : DeltaLedger} {priority : List Address}
    {searcher holder token : Address} {amount : ℕ}
    (h : candidateProfit ledger priority searcher = some (holder, token, amount)) :
    holder = searcher ∧ amount = ledger.net searcher token := by
  unfold candidateProfit at h
  split_ifs at h
  split at h
  · split_ifs at h
    cases h
    exact ⟨rfl, rfl⟩
  · cases h

/-- The profit of a cycle is what one candidate gains in the transaction. -/
theorem txCycleProfit_spec {input : BlockInput} {tx : TxInput} {holder token : Address}
    {amount : ℕ} (h : txCycleProfit input tx = .ok (holder, token, amount)) :
    holder ∈ searcherCandidates tx ∧ amount = (txLedger input tx).net holder token := by
  unfold txCycleProfit at h
  dsimp only at h
  cases hprofit : (searcherCandidates tx).findSome?
      (candidateProfit (txLedger input tx) input.ctx.priority) with
  | none =>
    rw [hprofit] at h
    split_ifs at h
  | some profit =>
    rw [hprofit] at h
    dsimp only at h
    split_ifs at h
    cases h
    obtain ⟨searcher, hmem, hsome⟩ := List.exists_of_findSome?_eq_some hprofit
    obtain ⟨rfl, hamount⟩ := candidateProfit_spec hsome
    exact ⟨hmem, hamount⟩

end MevScout.Explorer
