import MevScout.Common.Firsts
import MevScout.Common.Map
import MevScout.Paper.Executed
import MevScout.Paper.Simulated

/-!
# Per-strategy statistics

Models of `core/src/pipeline/aggregate.rs`: the rollup of opportunities and of paper fills by
strategy. The amounts in whole tokens and in dollars are floating-point copies of the amounts
in wei; the table of exchanges, which `aggregate_fills` leaves empty, is ordered by them.

Results:
* `rollup_count`, `rollup_net`: what the strategies of a rollup add up to;
* `attributed_iff`: the strategies of a ledger add up to its fills and its net profit exactly
  when no two fills have the same key;
* `route_twice_dropped`: a route that is filled in two blocks counts once.
-/

namespace MevScout.Pipeline

open Paper

/-! ## The rollup -/

/-- Model of `SummaryMetrics` (`aggregate.rs`, lines 15–28). -/
structure SummaryMetrics where
  total : ℕ
  grossRevenueWei : ℕ
  netProfitWei : ℤ
  totalGasCostWei : ℕ
  deriving DecidableEq

/-- Model of `StrategyMetrics` (`aggregate.rs`, lines 30–45). -/
structure StrategyMetrics where
  strategy : String
  count : ℕ
  grossRevenueWei : ℕ
  netProfitWei : ℤ
  totalGasCostWei : ℕ
  deriving DecidableEq

/-- Model of `AggregationResult` (`aggregate.rs`, lines 61–66). -/
structure AggregationResult where
  summary : SummaryMetrics
  byStrategy : Std.ExtTreeMap String StrategyMetrics compare

/-- Model of `ui_strategy_name` (`aggregate.rs`, lines 81–87). -/
def uiStrategyName : Strategy → String
  | .twoHopArb | .multiHopArb => "arb"
  | .jit => "jit"
  | .backrun => "backrun"

/-- The key of `dedup_seen` (`aggregate.rs`, lines 172–179). -/
def dedupKey (opp : MevOpportunity) : String :=
  match opp.canonicalId with
  | some cid => cid
  | none =>
    opp.strategy.debug ++ "|" ++ toString opp.blockNumber ++ "|" ++ hexAddress opp.poolA ++ "|" ++
      hexAddress opp.poolB ++ "|" ++ hexAddress opp.tokenIn ++ "|" ++ hexAddress opp.tokenOut

/-- The variables of the loop of `aggregate_with_prices`. -/
structure RollupLoop where
  dedupSeen : List String := []
  total : ℕ := 0
  summaryGrossWei : ℕ := 0
  summaryGasWei : ℕ := 0
  byStrategy : Std.ExtTreeMap String (List MevOpportunity) compare := ∅

/-- The body of the loop of `aggregate_with_prices` (`aggregate.rs`, lines 171–222), behind
    its filter. The profits are the ones that `to::<u128>()` takes. -/
def rollupStep (s : RollupLoop) (opp : MevOpportunity) : RollupLoop :=
  if dedupKey opp ∈ s.dedupSeen then s
  else
    { dedupSeen := dedupKey opp :: s.dedupSeen
      total := s.total + 1
      summaryGrossWei := wrappingAdd 128 s.summaryGrossWei opp.expectedProfit
      summaryGasWei := wrappingAdd 128 s.summaryGasWei opp.gasCostWei
      byStrategy := Map.push s.byStrategy (uiStrategyName opp.strategy) opp }

/-- A sum in `u128`. -/
def sumWei (f : MevOpportunity → ℕ) (opps : List MevOpportunity) : ℕ :=
  opps.foldl (fun t opp => wrappingAdd 128 t (f opp)) 0

/-- `(gross as i128) - (gas as i128)`. -/
def netOf (gross gas : ℕ) : ℤ := wrapSigned 128 (asSigned 128 gross - asSigned 128 gas)

/-- The metrics of one strategy (`aggregate.rs`, lines 231–299). -/
def strategyMetrics (name : String) (opps : List MevOpportunity) : StrategyMetrics :=
  let grossWei := sumWei (·.expectedProfit) opps
  let gasWei := sumWei (·.gasCostWei) opps
  { strategy := name
    count := opps.length
    grossRevenueWei := grossWei
    netProfitWei := netOf grossWei gasWei
    totalGasCostWei := gasWei }

/-- Model of `aggregate` and `aggregate_with_prices` (`aggregate.rs`, lines 89–367). -/
def aggregate (opps : List MevOpportunity) : AggregationResult :=
  let s := opps.foldl rollupStep {}
  { summary :=
      { total := s.total
        grossRevenueWei := s.summaryGrossWei
        netProfitWei := netOf s.summaryGrossWei s.summaryGasWei
        totalGasCostWei := s.summaryGasWei }
    byStrategy := s.byStrategy.map strategyMetrics }

/-! ## Fills -/

/-- `str::parse::<Strategy>`, which ignores the case of ASCII letters. -/
def Strategy.parse (s : String) : Option Strategy :=
  [.twoHopArb, .multiHopArb, .jit, .backrun].find? fun strategy : Strategy =>
    strategy.toString = s.map Char.toLower

/-- `{:?}` of a list of addresses. -/
def debugPools (pools : List Address) : String :=
  "[" ++ String.intercalate ", " (pools.map hexAddress) ++ "]"

/-- The id that `fill_as_opportunity` gives to a fill (`aggregate.rs`, lines 422–432). -/
def fillKey (fill : PaperFill) : String :=
  match fill.canonicalId with
  | some cid => cid
  | none =>
    "paper_fill|" ++ toString fill.blockNumber ++ "|" ++
      (match fill.txIndex with
        | some i => toString i
        | none => "mempool") ++
      "|" ++ fill.strategy ++ "|" ++ debugPools fill.pools ++ "|" ++ toString fill.walletAfter

/-- Model of `fill_as_opportunity` (`aggregate.rs`, lines 400–434). The gas of a fill is a
    `u128`. -/
def fillAsOpportunity (fill : PaperFill) : Option MevOpportunity := do
  let strategy ← Strategy.parse fill.strategy
  return {
    canonicalId := some (fillKey fill)
    blockNumber := fill.blockNumber
    txIndex := fill.txIndex.getD 0
    strategy := strategy
    poolA := fill.pools[0]?.getD 0
    poolB := fill.pools[1]?.getD 0
    expectedProfit := fill.grossWei
    gasCostWei := fill.gasWei % 2 ^ 128
    gasCostWei_lt := Nat.mod_lt _ (by decide)
    mempoolOnly := fill.mempoolOnly }

/-- Model of `aggregate_fills` (`aggregate.rs`, lines 395–398). -/
def aggregateFills (fills : List PaperFill) : AggregationResult :=
  aggregate (fills.filterMap fillAsOpportunity)

/-- The number of fills of all strategies. -/
def AggregationResult.counted (agg : AggregationResult) : ℕ :=
  (agg.byStrategy.toList.map fun e => e.2.count).sum

/-- The net profit of all strategies, summed in `i128`. -/
def AggregationResult.summed (agg : AggregationResult) : ℤ :=
  wrapSigned 128 (agg.byStrategy.toList.map fun e => e.2.netProfitWei).sum

/-- The strategies add up to the fills and to the net profit of a ledger. -/
def Attributed (ledger : LedgerResult) : Prop :=
  (aggregateFills ledger.fills).counted = ledger.fills.length ∧
    (aggregateFills ledger.fills).summed = ledger.netProfitWei

/-! ## The sums of a rollup -/

/-- The opportunities that a rollup keeps. -/
abbrev keptFrom (seen : List String) (opps : List MevOpportunity) : List MevOpportunity :=
  Firsts.firsts dedupKey seen opps

/-- The strategies of a rollup share out what additive shares of the kept opportunities add
    up to. -/
theorem sumBy_rollup {f : String → List MevOpportunity → ℤ} {g : MevOpportunity → ℤ}
    (hnil : ∀ k, f k [] = 0) (hadd : ∀ k l a, f k (l ++ [a]) = f k l + g a) (s : RollupLoop)
    (opps : List MevOpportunity) :
    Map.sumBy f (opps.foldl rollupStep s).byStrategy =
      Map.sumBy f s.byStrategy + ((keptFrom s.dedupSeen opps).map g).sum := by
  induction opps generalizing s with
  | nil => simp [keptFrom, Firsts.firsts]
  | cons opp opps ih =>
    rw [List.foldl_cons, ih]
    unfold keptFrom rollupStep
    conv_rhs => rw [Firsts.firsts.eq_def]
    by_cases hseen : dedupKey opp ∈ s.dedupSeen
    · simp only [if_pos hseen]
    · simp only [if_neg hseen]
      rw [Map.sumBy_push hnil hadd, List.map_cons, List.sum_cons, add_assoc]

/-- The same for the opportunities of an empty rollup. -/
theorem sumBy_rollup_nil {f : String → List MevOpportunity → ℤ} {g : MevOpportunity → ℤ}
    (hnil : ∀ k, f k [] = 0) (hadd : ∀ k l a, f k (l ++ [a]) = f k l + g a)
    (opps : List MevOpportunity) :
    Map.sumBy f (opps.foldl rollupStep {}).byStrategy = ((keptFrom [] opps).map g).sum := by
  have hempty : Map.sumBy f (∅ : Std.ExtTreeMap String (List MevOpportunity) compare) = 0 := by
    unfold Map.sumBy
    rw [Std.ExtTreeMap.toList_eq_nil_iff.mpr rfl, List.map_nil, List.sum_nil]
  rw [sumBy_rollup hnil hadd, hempty, zero_add]

theorem sumWei_modEq (f : MevOpportunity → ℕ) (opps : List MevOpportunity) :
    (sumWei f opps : ℤ) ≡ (opps.map fun opp => (f opp : ℤ)).sum [ZMOD 2 ^ 128] := by
  induction opps using List.reverseRecOn with
  | nil => rfl
  | append_singleton opps opp ih =>
    unfold sumWei at ih ⊢
    rw [List.foldl_append, List.foldl_cons, List.foldl_nil, List.map_append, List.sum_append]
    refine (wrappingAdd_modEq _ _ _).trans ?_
    simpa using ih.add_right _

/-- The gross profit of an opportunity less its gas. -/
def share (opp : MevOpportunity) : ℤ := (opp.expectedProfit : ℤ) - opp.gasCostWei

theorem sum_share (opps : List MevOpportunity) : (opps.map share).sum =
    (opps.map fun opp => (opp.expectedProfit : ℤ)).sum -
      (opps.map fun opp => (opp.gasCostWei : ℤ)).sum := by
  induction opps with
  | nil => rfl
  | cons opp opps ih =>
    simp only [List.map_cons, List.sum_cons, ih, share]
    ring

/-- The net of a strategy is the sum of the shares of its opportunities, up to a multiple of
    `2 ^ 128`. -/
theorem strategyMetrics_net (name : String) (opps : List MevOpportunity) :
    (strategyMetrics name opps).netProfitWei ≡ (opps.map share).sum [ZMOD 2 ^ 128] := by
  have hgross := (asSigned_modEq 128 _).trans (sumWei_modEq (·.expectedProfit) opps)
  have hgas := (asSigned_modEq 128 _).trans (sumWei_modEq (·.gasCostWei) opps)
  have hnet : (strategyMetrics name opps).netProfitWei =
      netOf (sumWei (·.expectedProfit) opps) (sumWei (·.gasCostWei) opps) := by
    simp only [strategyMetrics]
  rw [sum_share, hnet]
  exact (wrapSigned_modEq 128 _).trans (hgross.sub hgas)

/-- The strategies count the kept opportunities. -/
theorem rollup_count (opps : List MevOpportunity) :
    (aggregate opps).counted = (keptFrom [] opps).length := by
  have hsum := sumBy_rollup_nil (f := fun _ l => (l.length : ℤ)) (g := fun _ => 1) (by simp)
    (by simp) opps
  have hcounted : (((aggregate opps).counted : ℕ) : ℤ) =
      Map.sumBy (fun _ l => (l.length : ℤ)) (opps.foldl rollupStep {}).byStrategy := by
    unfold AggregationResult.counted aggregate Map.sumBy
    rw [Nat.cast_list_sum, Std.ExtTreeMap.toList_map, List.map_map, List.map_map]
    rfl
  rw [hsum] at hcounted
  simpa using hcounted

/-- The nets of the strategies add up to the shares of the kept opportunities. -/
theorem rollup_net (opps : List MevOpportunity) :
    (aggregate opps).summed = wrapSigned 128 ((keptFrom [] opps).map share).sum := by
  rw [← sumBy_rollup_nil (f := fun _ l => (l.map share).sum) (by simp) (by simp) opps]
  unfold AggregationResult.summed aggregate Map.sumBy
  rw [Std.ExtTreeMap.toList_map, List.map_map]
  refine wrapSigned_congr (sum_modEq fun e _ => ?_)
  rw [Function.comp_apply]
  exact strategyMetrics_net e.1 e.2

/-! ## Fills that roll up -/

/-- A fill of a known strategy whose net is its gross less its gas, in `i128`. -/
structure RollsUp (f : PaperFill) : Prop where
  strategy : ∃ strategy : Strategy, f.strategy = strategy.toString
  net : f.netWei ≡ f.grossWei - f.gasWei [ZMOD 2 ^ 128]

theorem parse_toString (strategy : Strategy) :
    Strategy.parse strategy.toString = some strategy := by
  cases strategy <;> decide +kernel

theorem RollsUp.opportunity {f : PaperFill} (h : RollsUp f) :
    ∃ opp, fillAsOpportunity f = some opp ∧ dedupKey opp = fillKey f ∧
      share opp ≡ f.netWei [ZMOD 2 ^ 128] := by
  obtain ⟨strategy, hstrategy⟩ := h.strategy
  have hparse : Strategy.parse f.strategy = some strategy := hstrategy ▸ parse_toString strategy
  refine ⟨_, by simp only [fillAsOpportunity, hparse]; rfl, by simp only [dedupKey], ?_⟩
  refine Int.ModEq.trans ?_ h.net.symm
  simp only [share]
  refine Int.ModEq.sub_left _ ?_
  push_cast
  exact Int.mod_modEq _ _

/-- The opportunities of fills that roll up. -/
theorem opportunities {fills : List PaperFill} (h : ∀ f ∈ fills, RollsUp f) :
    (fills.filterMap fillAsOpportunity).length = fills.length ∧
      (fills.filterMap fillAsOpportunity).map dedupKey = fills.map fillKey ∧
      ((fills.filterMap fillAsOpportunity).map share).sum ≡
        (fills.map (·.netWei)).sum [ZMOD 2 ^ 128] := by
  induction fills with
  | nil => exact ⟨rfl, rfl, rfl⟩
  | cons f fills ih =>
    obtain ⟨opp, hopp, hkey, hshare⟩ := (h f (List.mem_cons_self ..)).opportunity
    obtain ⟨hlength, hkeys, hsum⟩ := ih fun g hg => h g (List.mem_cons_of_mem _ hg)
    rw [List.filterMap_cons_some hopp]
    simp only [List.length_cons, List.map_cons, List.sum_cons, hlength, hkey, hkeys]
    exact ⟨trivial, trivial, hshare.add hsum⟩

/-- The rollup of fills adds up to them if and only if their keys are distinct. -/
theorem aggregateFills_iff {ledger : LedgerResult} (h : ∀ f ∈ ledger.fills, RollsUp f)
    (hnet : ledger.netProfitWei = wrapSigned 128 (ledger.fills.map (·.netWei)).sum) :
    Attributed ledger ↔ (ledger.fills.map fillKey).Nodup := by
  obtain ⟨hlength, hkeys, hsum⟩ := opportunities h
  unfold Attributed aggregateFills
  rw [rollup_count, rollup_net, ← hkeys, ← hlength]
  constructor
  · rintro ⟨hcount, -⟩
    exact Firsts.length_firsts_eq_iff.mp hcount
  · intro hnodup
    rw [keptFrom, Firsts.firsts_eq_self hnodup (by simp), hnet]
    exact ⟨rfl, wrapSigned_congr hsum⟩

/-! ## Ledgers -/

/-- The fills satisfy `P` and the net is their sum in `i128`. -/
structure Books (P : PaperFill → Prop) (book : Book) : Prop where
  fills : ∀ f ∈ book.fills, P f
  net : book.netTotal = wrapSigned 128 (book.fills.map (·.netWei)).sum

theorem Books.fill {P : PaperFill → Prop} {book : Book} (h : Books P book) (delta : ℤ)
    {f : PaperFill} (hf : P f) : Books P ((book.applyWalletDelta delta).fill f) := by
  constructor
  · intro g hg
    rcases mem_filled.mp hg with hg | rfl
    · exact h.fills g hg
    · exact hf
  · rw [fill_netTotal, applyWalletDelta_netTotal, h.net, wrapSigned_add_wrapSigned, fill_fills,
      applyWalletDelta_fills, List.map_append, List.sum_append]
    simp

/-- A loop over the blocks whose steps keep the books keeps them. -/
theorem books_overGroups {P : PaperFill → Prop} {σ τ : Type*} {start : τ}
    {step : ℕ → σ × τ → MevOpportunity → σ × τ} {s : σ} (book : σ → Book)
    (hstart : Books P (book s))
    (hstep : ∀ k t opp, Books P (book t.1) → Books P (book (step k t opp).1))
    (opps : List MevOpportunity) :
    Books P (book (Grouping.overGroups (·.blockNumber) Before start step s opps)) :=
  Grouping.overGroups_induct (fun _ s => Books P (book s)) (fun _ _ t => Books P (book t.1))
    hstart (fun _ _ _ _ h => h) (fun k _ t opp _ _ h => hstep k t opp h) fun _ _ _ h => h

theorem books_start (P : PaperFill → Prop) (policy : LedgerPolicy) : Books P policy.book :=
  ⟨by simp [LedgerPolicy.book], by rfl⟩

theorem net_modEq (gross gas : ℕ) :
    wrapSigned 128 (asSigned 128 gross - asSigned 128 gas) ≡ gross - gas [ZMOD 2 ^ 128] :=
  (wrapSigned_modEq 128 _).trans ((asSigned_modEq 128 _).sub (asSigned_modEq 128 _))

theorem books_apply (policy : LedgerPolicy) (opps : List MevOpportunity) :
    Books RollsUp (Grouping.overGroups (·.blockNumber) Before {} policy.applyStep policy.book
      opps) := by
  refine books_overGroups id (books_start _ policy) (fun k t opp h => ?_) opps
  obtain ⟨reason, hskip⟩ | ⟨f, hf, -, -, hfill⟩ := applyStep_cases policy k t opp
  · rw [hskip]
    exact ⟨h.fills, h.net⟩
  · rw [hfill]
    refine h.fill _ ⟨⟨opp.strategy, by simp only [hf, assumedFill]⟩, ?_⟩
    simp only [hf, assumedFill]
    exact net_modEq _ _

theorem books_applySimulated (policy : LedgerPolicy) (seeds : SimSeeds) (sim : SimPolicy)
    (opps : List MevOpportunity) :
    Books RollsUp (Grouping.overGroups (·.blockNumber) Before {}
      (policy.applySimulatedStep seeds sim) policy.book opps) := by
  refine books_overGroups id (books_start _ policy) (fun k t opp h => ?_) opps
  obtain ⟨reason, overlay, -, hskip⟩ | ⟨outcome, hgate, hok⟩ :=
    applySimulatedStep_cases policy seeds sim k t opp
  · rw [hskip]
    exact ⟨h.fills, h.net⟩
  · rw [applySimulatedStep_of_ok hgate hok]
    refine h.fill _ ⟨⟨opp.strategy, by simp only [simulatedFill]⟩, ?_⟩
    simp only [simulatedFill, simulateCandidate_net hok]
    exact net_modEq _ _

/-- What `apply_executed` records about a fill. -/
structure ExecFill (f : PaperFill) : Prop where
  strategy : ∃ strategy : Strategy, f.strategy = strategy.toString
  net : 0 < f.netWei ∧ f.netWei < 2 ^ 127
  gross : f.grossWei = saturatingAdd 128 (asUnsigned 128 f.netWei) f.gasWei

/-- An executed fill rolls up unless its gross saturates. -/
theorem ExecFill.rollsUp {f : PaperFill} (h : ExecFill f) (hfits : f.netWei + f.gasWei < 2 ^ 128) :
    RollsUp f := by
  obtain ⟨hpos, hlt⟩ := h.net
  refine ⟨h.strategy, ?_⟩
  rw [h.gross, asUnsigned_eq (by omega) (by omega), saturatingAdd_eq (by omega)]
  push_cast
  rw [Int.toNat_of_nonneg (by omega), add_sub_cancel_right]

theorem books_settle {simMode : SimMode} {execMode : String} {k : ℕ} {b : ExecBook} {n : ℕ}
    {opp : MevOpportunity} (attempt : ExecAttempt) (h : Books ExecFill b.book) :
    Books ExecFill (settle simMode execMode k b n opp attempt).1.book := by
  have hrevert : Books ExecFill (b.revert attempt).book :=
    ⟨by rw [revert_fills]; exact h.fills, by rw [revert_fills, revert_netTotal]; exact h.net⟩
  have hlose : Books ExecFill (b.lose attempt).book :=
    ⟨by rw [lose_fills]; exact h.fills, by rw [lose_fills, lose_netTotal]; exact h.net⟩
  unfold settle
  cases attempt.fail with
  | some reason =>
    dsimp only
    by_cases hreason : reason = .execRevert
    · rw [if_pos hreason]
      exact ⟨hrevert.fills, hrevert.net⟩
    · rw [if_neg hreason]
      exact ⟨h.fills, h.net⟩
  | none =>
    dsimp only
    by_cases hstatus : attempt.status = true
    · rw [if_neg (not_not_intro hstatus)]
      by_cases hnet : attempt.netWei ≤ 0
      · rw [if_pos hnet]
        exact ⟨hlose.fills, hlose.net⟩
      · rw [if_neg hnet]
        refine h.fill _
          ⟨⟨opp.strategy, by simp only [executedFill]⟩, ?_, by simp only [executedFill]⟩
        simp only [executedFill]
        exact ⟨by omega, attempt.netWei_mem.2⟩
    · rw [if_pos hstatus]
      exact ⟨hrevert.fills, hrevert.net⟩

theorem books_applyExecuted {ρ : Type*} (policy : LedgerPolicy) (simMode : SimMode)
    (execMode : String) (run : Callback ρ) (s : ρ) (opps : List MevOpportunity) :
    Books ExecFill (Grouping.overGroups (·.blockNumber) Before 0
      (policy.applyExecutedStep simMode execMode run)
        ({ book := policy.book }, s) opps).1.book := by
  refine books_overGroups (fun t : ExecBook × ρ => t.1.book) (books_start _ policy)
    (fun k t opp h => ?_) opps
  unfold LedgerPolicy.applyExecutedStep
  dsimp only
  cases policy.execGate t.1.1.book.wallet t.2 opp with
  | some reason => exact ⟨h.fills, h.net⟩
  | none => exact books_settle _ h

/-- **Main theorem.** The strategies of a ledger add up to its fills and its net profit if and
    only if no two fills have the same key, for every policy and all opportunities. In an
    executed ledger the gross of a fill may saturate; there it holds as long as none does. -/
theorem attributed_iff (policy : LedgerPolicy) (opps : List MevOpportunity) :
    (Attributed (policy.apply opps) ↔ ((policy.apply opps).fills.map fillKey).Nodup) ∧
      (∀ seeds sim, Attributed (policy.applySimulated seeds sim opps) ↔
        ((policy.applySimulated seeds sim opps).fills.map fillKey).Nodup) ∧
      ∀ simMode execMode (ρ : Type*) (run : Callback ρ) (s : ρ),
        (∀ f ∈ (policy.applyExecuted simMode execMode run s opps).1.fills,
            f.netWei + f.gasWei < 2 ^ 128) →
          (Attributed (policy.applyExecuted simMode execMode run s opps).1 ↔
            ((policy.applyExecuted simMode execMode run s opps).1.fills.map fillKey).Nodup) := by
  refine ⟨?_, fun seeds sim => ?_, fun simMode execMode ρ run s hfits => ?_⟩
  · have h := books_apply policy opps
    exact aggregateFills_iff h.fills h.net
  · have h := books_applySimulated policy seeds sim opps
    exact aggregateFills_iff h.fills h.net
  · have h := books_applyExecuted policy simMode execMode run s opps
    exact aggregateFills_iff (fun f hf => (h.fills f hf).rollsUp (hfits f hf)) h.net

/-- A route that is profitable in two blocks is filled twice and counted once. -/
theorem route_twice_dropped :
    let opps := [7, 8].map fun block => { plainOpp block 500 100 with canonicalId := some "route" }
    let ledger := (plainPolicy 1000 0).apply opps
    ¬Attributed ledger ∧ ledger.fills.length = 2 ∧ ledger.netProfitWei = 800 ∧
      (aggregateFills ledger.fills).counted = 1 ∧ (aggregateFills ledger.fills).summed = 400 := by
  unfold Attributed
  decide +kernel

end MevScout.Pipeline
