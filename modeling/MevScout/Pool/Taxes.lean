import MevScout.Pool.Decoders
import MevScout.Pool.Manager

/-!
# Learning transfer taxes

Model of `learn_taxes_from_tx` (`core/src/pool/state/manager.rs`): the declared amounts of
the swaps of a transaction are compared with the ERC20 transfers to and from the pools.

The comparison is in floating point and the search for a Curve token follows the order of
a `HashMap`; both are parameters.

Results:
* `learnTaxesFromTx_eq`: learning writes nothing but `dynamic_fot`, and never flags a rebase
  token;
* `learnTaxesFromTx_ok_iff`: when it returns.
-/

namespace MevScout.Pool

open MevScout.Chain

/-- What the source leaves to the floating-point unit and to the hasher. -/
structure TaxRuntime where
  /-- `(actual as f64) < declared as f64 * (1.0 - TAX_SHORTFALL_MARGIN)`. -/
  shortfall : (actual declared : ℕ) → Bool
  /-- The order in which the entries of a `HashMap<Address, usize>` are visited. -/
  visit : TokenSlots → List (Address × ℕ)

/-- `MIN_TAX_CHECK_AMOUNT` (`manager.rs`, line 21). -/
def minTaxCheckAmount : ℕ := 1000

/-- The rebase tokens of the embedded token lists (`pool_types.rs`, lines 48–54). -/
def rebaseTokens : List Address :=
  [0xd46ba6d942050d489dbd938a2c909a5d5039a161, 0xae7ab96520de3a18e5e111b5eaab095312d7fe84,
    0xae78736cd615f374d3085123a210448e74fc6393, 0xbe9895146f7af43049ca1c1ae358b0541ea49704]

/-- Model of `SwapDeclaration` (`manager.rs`, lines 27–33). -/
structure SwapDeclaration where
  pool : Address
  tokenIn : Option Address
  amountIn : ℕ
  tokenOut : Option Address
  amountOut : ℕ
  deriving DecidableEq

/-- `TransferTotals`, with zero for an absent entry. -/
def TransferTotals := Address × Address → ℕ

/-- `*totals.entry(key).or_default() += value`. -/
def TransferTotals.add (totals : TransferTotals) (key : Address × Address) (value : ℕ) :
    TransferTotals :=
  Function.update totals key (wrappingAdd 128 (totals key) value)

namespace PoolManager

/-- Pass 1 of `learn_taxes_from_tx`, for one log (`manager.rs`, lines 491–511). -/
def countTransfer (pm : PoolManager) (totals : TransferTotals × TransferTotals)
    (log : ExecutedLog) : TransferTotals × TransferTotals :=
  match log.topics with
  | topic0 :: topic1 :: topic2 :: _ =>
    if log.data.length < 32 ∨ topic0 ≠ transferTopic then totals
    else
      let value := u128FromBeBytes (slice log.data 0 32)
      if value = 0 then totals
      else
        let sender := topicAddress topic1
        let recipient := topicAddress topic2
        (if recipient ∈ pm.knownSet then totals.1.add (recipient, log.address) value else totals.1,
         if sender ∈ pm.knownSet then totals.2.add (sender, log.address) value else totals.2)
  | _ => totals

/-- Pass 2 of `learn_taxes_from_tx`, for one log (`manager.rs`, lines 517–658). -/
def declarations (rt : TaxRuntime) (pm : PoolManager) (log : ExecutedLog) :
    Except Panic (List SwapDeclaration) :=
  match log.topics, pm.pools[log.address]? with
  | topic0 :: _, some p =>
    let info := p.info
    if topic0 = v2SwapTopic ∨ topic0 = solidlySwapTopic then
      if log.data.length < 128 then .ok []
      else
        let amt0In := u128FromBeBytes (slice log.data 0 32)
        let amt1In := u128FromBeBytes (slice log.data 32 64)
        let amt0Out := u128FromBeBytes (slice log.data 64 96)
        let amt1Out := u128FromBeBytes (slice log.data 96 128)
        .ok [⟨log.address, some info.token0, amt0In, some info.token0, amt0Out⟩,
          ⟨log.address, some info.token1, amt1In, some info.token1, amt1Out⟩]
    else if topic0 = v3SwapTopic then
      .ok ((decodeV3Swap log).elim [] fun d =>
        let (tokenIn, amountIn) :=
          if d.amount0 > 0 then (info.token0, d.amount0.natAbs) else (info.token1, 0)
        let (tokenOut, amountOut) :=
          if d.amount1 < 0 then (info.token1, d.amount1.natAbs) else (info.token0, 0)
        [⟨log.address, some tokenIn, amountIn, some tokenOut, amountOut⟩])
    else if topic0 = curveTokenExchangeTopic ∨ topic0 = curveV2TokenExchangeTopic then
      .ok ((decodeCurveSwap log).elim [] fun d =>
        match p with
        | .curve state =>
          let tokenAt (idx : ℕ) : Option Address :=
            ((rt.visit state.tokenIndex).find? (·.2 = idx)).map Prod.fst
          [⟨log.address, tokenAt d.coinSold, d.amountSold, tokenAt d.coinBought, d.amountBought⟩]
        | _ => [])
    else if topic0 = balancerSwapTopic then
      .ok ((decodeBalancerSwap log).elim [] fun d =>
        [⟨log.address, some d.tokenIn, d.amountIn, some d.tokenOut, d.amountOut⟩])
    else if topic0 = traderJoeLbSwapTopic then
      .ok ((decodeLbSwap log).elim [] fun d =>
        match p with
        | .traderJoeLB state =>
          let (tokenIn, tokenOut) :=
            if d.swapForY then (state.info.token0, state.info.token1)
            else (state.info.token1, state.info.token0)
          [⟨log.address, some tokenIn, d.amountIn, some tokenOut, d.amountOut⟩]
        | _ => [])
    else if topic0 = pendleMarketSwapTopic then
      (decodePendleSwap log).map (·.elim [] fun d =>
        match p with
        | .pendle state =>
          let (tokenIn, tokenOut) :=
            if d.isNetPtOut then (state.syAddress, state.ptAddress)
            else (state.ptAddress, state.syAddress)
          [⟨log.address, some tokenIn, d.amountIn, some tokenOut, d.amountOut⟩]
        | _ => [])
    else .ok []
  | _, _ => .ok []

/-- Model of `flag_if_shortfall` (`manager.rs`, lines 677–685). -/
def flagIfShortfall (rt : TaxRuntime) (set : Finset Address) (token : Address)
    (actual declared : ℕ) : Finset Address :=
  if token ∈ rebaseTokens then set
  else if rt.shortfall actual declared then insert token set
  else set

/-- One side of a declaration, in the last loop of `learn_taxes_from_tx`. -/
def checkSide (rt : TaxRuntime) (totals : TransferTotals) (pool : Address)
    (token : Option Address) (amount : ℕ) (set : Finset Address) : Finset Address :=
  if amount ≥ minTaxCheckAmount then
    token.elim set fun t => flagIfShortfall rt set t (totals (pool, t)) amount
  else set

/-- Model of `learn_taxes_from_tx` (`manager.rs`, lines 487–675). -/
def learnTaxesFromTx (rt : TaxRuntime) (pm : PoolManager) (logs : List ExecutedLog) :
    Except Panic PoolManager := do
  let (incoming, outgoing) := logs.foldl pm.countTransfer (fun _ => 0, fun _ => 0)
  let decls ← logs.mapM (pm.declarations rt)
  let flagged := decls.flatten.foldl
    (fun set d => checkSide rt outgoing d.pool d.tokenOut d.amountOut
      (checkSide rt incoming d.pool d.tokenIn d.amountIn set)) pm.dynamicFot
  return { pm with dynamicFot := flagged }

variable {rt : TaxRuntime} {pm pm' : PoolManager} {logs : List ExecutedLog}

theorem checkSide_rebase {totals : TransferTotals} {pool t : Address} {token : Option Address}
    {amount : ℕ} {set : Finset Address} (ht : t ∈ rebaseTokens) :
    t ∈ checkSide rt totals pool token amount set ↔ t ∈ set := by
  unfold checkSide
  split_ifs
  · cases token with
    | none => rfl
    | some t' =>
      show t ∈ flagIfShortfall _ _ _ _ _ ↔ _
      unfold flagIfShortfall
      split_ifs with hr
      · rfl
      · rw [Finset.mem_insert]
        refine or_iff_right ?_
        rintro rfl
        exact hr ht
      · rfl
  · rfl

/-- Learning writes the taxed tokens and nothing else, and leaves the rebase tokens among
    them as they are. -/
theorem learnTaxesFromTx_eq (h : pm.learnTaxesFromTx rt logs = .ok pm') :
    ∃ flagged, pm' = { pm with dynamicFot := flagged } ∧
      ∀ t ∈ rebaseTokens, t ∈ flagged ↔ t ∈ pm.dynamicFot := by
  unfold learnTaxesFromTx at h
  dsimp only at h
  rw [bind_eq_ok] at h
  obtain ⟨decls, -, h⟩ := h
  obtain rfl := Except.ok.inj h
  refine ⟨_, rfl, fun t ht => ?_⟩
  induction decls.flatten using List.reverseRecOn with
  | nil => rfl
  | append_singleton l d ih =>
    rw [List.foldl_append, List.foldl_cons, List.foldl_nil, checkSide_rebase ht,
      checkSide_rebase ht, ih]

/-! ## When learning panics -/

/-- Declaring the swaps of a log panics exactly when the Pendle decoder does, for a tracked
    pool. -/
theorem declarations_ok_iff (rt : TaxRuntime) {log : ExecutedLog} :
    (∃ ds, pm.declarations rt log = .ok ds) ↔
      (log.address ∈ pm.pools → ∃ d, decodePendleSwap log = .ok d) := by
  unfold declarations
  cases hl : log.topics with
  | nil =>
    refine iff_of_true ⟨[], rfl⟩ fun _ => ⟨none, ?_⟩
    rw [decodePendleSwap, hl]
    rfl
  | cons topic0 rest =>
    cases hp : pm.pools[log.address]? with
    | none =>
      refine iff_of_true ⟨[], rfl⟩ fun hmem => ?_
      rw [Std.ExtTreeMap.mem_iff_isSome_getElem?, hp] at hmem
      cases hmem
    | some p =>
      have hmem : log.address ∈ pm.pools := by
        rw [Std.ExtTreeMap.mem_iff_isSome_getElem?, hp]
        rfl
      have hhead : log.topics.head? = some topic0 := by rw [hl, List.head?_cons]
      by_cases hpendle : topic0 = pendleMarketSwapTopic
      · subst hpendle
        dsimp only
        rw [if_neg (by decide), if_neg (by decide), if_neg (by decide), if_neg (by decide),
          if_neg (by decide), if_pos rfl]
        cases decodePendleSwap log with
        | error e =>
          refine iff_of_false ?_ fun h => ?_
          · rintro ⟨_, h⟩
            cases h
          · obtain ⟨_, h⟩ := h hmem
            cases h
        | ok d => exact iff_of_true ⟨_, rfl⟩ fun _ => ⟨d, rfl⟩
      · have hnone : decodePendleSwap log = .ok none := by
          rw [decodePendleSwap, hhead, if_pos fun h => hpendle (Option.some.inj h)]
        refine iff_of_true ?_ fun _ => ⟨none, hnone⟩
        dsimp only
        rw [if_neg hpendle]
        split_ifs <;> exact ⟨_, rfl⟩

/-- Learning returns exactly when no log of a tracked pool makes the Pendle decoder panic. -/
theorem learnTaxesFromTx_ok_iff (rt : TaxRuntime) :
    (∃ pm', pm.learnTaxesFromTx rt logs = .ok pm') ↔
      ∀ log ∈ logs, log.address ∈ pm.pools → ∃ d, decodePendleSwap log = .ok d := by
  constructor
  · rintro ⟨pm', h⟩ log hlog
    unfold learnTaxesFromTx at h
    dsimp only at h
    rw [bind_eq_ok] at h
    obtain ⟨decls, hdecls, -⟩ := h
    exact (declarations_ok_iff rt).mp ((ok_of_mapM_eq_ok hdecls).2 log hlog)
  · intro h
    have hok : ∀ log ∈ logs, pm.declarations rt log =
        .ok ((pm.declarations rt log).toOption.getD []) := by
      intro log hlog
      obtain ⟨ds, hds⟩ := (declarations_ok_iff rt).mpr (h log hlog)
      rw [hds]
      rfl
    unfold learnTaxesFromTx
    exact ⟨_, bind_eq_ok.mpr ⟨_, mapM_eq_ok hok, rfl⟩⟩

end PoolManager

end MevScout.Pool
