import MevScout.Explorer.Classify

/-!
# Booked residuals

What the backruns and the frontruns of a block book. Both passes go over the pools of the block
and attach the profit of the whole transaction, or of the whole window, to each event: on one pool
a residual is booked once, on two pools it is booked twice.

Results:
* `nodup_survivors`: events with different keys keep them;
* `two_pools_book_twice`: one residual is booked on two pools;
* `booked_once_per_pool`: a backrun is the only one of its transaction on its pool, a frontrun the
  only one of its transaction and victim on its pool, and the backruns of a pool book the
  residuals of their transactions.
-/

namespace MevScout.Explorer

/-- The residual of a transaction in a token: the profit of its cycle. -/
def txResidual (input : BlockInput) (txIndex : ℕ) (token : Address) : ℕ :=
  match (txAt input txIndex).map (txCycleProfit input) with
  | some (.ok (_, t, amount)) => if t = token then amount else 0
  | _ => 0

/-- The surviving backruns of a pool in a token. -/
def poolBackruns (input : BlockInput) (pool token : Address) : List MevEvent :=
  (classifyBlock input).filter fun e =>
    e.kind = .backrun ∧ e.pools = [pool] ∧ e.profitToken = some token

/-- The amount that an event books. -/
def MevEvent.booked (e : MevEvent) : ℕ := e.profitAmount.getD 0

variable {input : BlockInput} {e : MevEvent}

/-! ## What the events book -/

/-- A backrun books the residual of its transaction, which a candidate gains there. -/
theorem booked_backrun (he : e ∈ blockBackruns input) :
    ∃ tx holder token, txAt input e.txIndex = some tx ∧ tx.sender = e.searcher ∧
      holder ∈ searcherCandidates tx ∧ e.profitToken = some token ∧
      e.profitAmount = some ((txLedger input tx).net holder token) ∧
      txResidual input e.txIndex token = (txLedger input tx).net holder token := by
  obtain ⟨pool, b, a, tx, holder, token, amount, rfl, -, htx, hsender, hprofit⟩ :=
    (classifyBackruns_spec input _).1 e he
  obtain ⟨hmem, rfl⟩ := txCycleProfit_spec hprofit
  refine ⟨tx, holder, token, htx, hsender, hmem, rfl, rfl, ?_⟩
  show txResidual input b.txIndex token = _
  unfold txResidual
  rw [htx, Option.map_some, hprofit]
  exact if_pos rfl

/-- A frontrun books what its searcher nets in the start token up to its close. -/
theorem booked_frontrun (he : e ∈ blockFrontruns input) :
    ∃ token c, e.profitToken = some token ∧ e.details.closeTxIndex = some c ∧
      e.profitAmount = some ((windowLedger
        (frontToClose (causalWindow input e.txIndex) e.txIndex c)
        input.ctx.wrappedNative e.searcher).net e.searcher token) := by
  obtain ⟨pool, f, v, tx, profit, rfl, -, hclose⟩ := (classifyFrontruns_spec input _).1 e he
  obtain ⟨-, -, -, -, -, rfl⟩ := findClose_spec hclose
  exact ⟨f.leg.tokenIn, tx.txIndex, rfl, rfl, rfl⟩

/-! ## Surviving events of one kind -/

/-- Events with different keys keep them. -/
theorem nodup_survivors {κ : Type*} {key : MevEvent → κ} {kind : MevKind} {l : List MevEvent}
    (hkey : ∀ e, key (normalizeConfidence e) = key e)
    (hkind : (allEvents input).filter (·.kind = kind) = l) (hnodup : (l.map key).Nodup) :
    (((classifyBlock input).filter (·.kind = kind)).map key).Nodup := by
  unfold classifyBlock
  generalize hwin : (allEvents input).filter (fun e =>
    (txClaims input).winner e.txIndex = some e.kind) = won
  have hnorm : ∀ e, (normalizeConfidence e).kind = e.kind := fun e => by
    obtain ⟨c, hc⟩ := normalizeConfidence_eq e
    rw [hc]
  have hmap : (((won.insertionSort eventLe).map normalizeConfidence).filter (·.kind = kind)).map
      key = ((won.insertionSort eventLe).filter (·.kind = kind)).map key := by
    rw [List.filter_map, List.map_map]
    congr 1
    · funext e
      exact hkey e
    · refine List.filter_congr fun e _ => ?_
      rw [Function.comp_apply, hnorm]
  have hperm : (((won.insertionSort eventLe).filter (·.kind = kind)).map key).Perm
      ((won.filter (·.kind = kind)).map key) :=
    ((List.perm_insertionSort eventLe won).filter _).map key
  rw [hmap, hperm.nodup_iff]
  refine hnodup.sublist (List.Sublist.map key ?_)
  rw [← hkind, ← hwin]
  exact List.filter_sublist.filter _

/-- The backruns before the claims are settled come from their pass. -/
theorem filter_allEvents_backrun :
    (allEvents input).filter (·.kind = .backrun) = blockBackruns input := by
  unfold allEvents
  rw [List.filter_append, List.filter_append, List.filter_append]
  have hup : (upgradedEvents input).filter (·.kind = .backrun) = [] :=
    List.filter_eq_nil_iff.mpr fun e he => by simpa using (upgradedEvents_kind he).2.2
  have hfront : (blockFrontruns input).filter (·.kind = .backrun) = [] :=
    List.filter_eq_nil_iff.mpr fun e he => by simp [blockFrontruns_kind he]
  have hback : (blockBackruns input).filter (·.kind = .backrun) = blockBackruns input :=
    List.filter_eq_self.mpr fun e he => by simp [blockBackruns_kind he]
  have hsand : (classifySandwiches input).filter (·.kind = .backrun) = [] :=
    List.filter_eq_nil_iff.mpr fun e he => by simp [(classifySandwiches_spec he).1]
  rw [hup, hfront, hback, hsand, List.nil_append, List.nil_append, List.append_nil]

/-- The frontruns before the claims are settled come from their pass. -/
theorem filter_allEvents_frontrun :
    (allEvents input).filter (·.kind = .frontrun) = blockFrontruns input := by
  unfold allEvents
  rw [List.filter_append, List.filter_append, List.filter_append]
  have hup : (upgradedEvents input).filter (·.kind = .frontrun) = [] :=
    List.filter_eq_nil_iff.mpr fun e he => by simpa using (upgradedEvents_kind he).2.1
  have hfront : (blockFrontruns input).filter (·.kind = .frontrun) = blockFrontruns input :=
    List.filter_eq_self.mpr fun e he => by simp [blockFrontruns_kind he]
  have hback : (blockBackruns input).filter (·.kind = .frontrun) = [] :=
    List.filter_eq_nil_iff.mpr fun e he => by simp [blockBackruns_kind he]
  have hsand : (classifySandwiches input).filter (·.kind = .frontrun) = [] :=
    List.filter_eq_nil_iff.mpr fun e he => by simp [(classifySandwiches_spec he).1]
  rw [hup, hfront, hback, hsand, List.nil_append, List.append_nil, List.append_nil]

theorem nodup_backruns :
    (((classifyBlock input).filter (·.kind = .backrun)).map backrunKey).Nodup := by
  refine nodup_survivors (fun e => ?_) filter_allEvents_backrun (classifyBackruns_spec input _).2
  obtain ⟨c, hc⟩ := normalizeConfidence_eq e
  rw [hc]
  rfl

theorem nodup_frontruns :
    (((classifyBlock input).filter (·.kind = .frontrun)).map frontrunKey).Nodup := by
  refine nodup_survivors (fun e => ?_) filter_allEvents_frontrun (classifyFrontruns_spec input _).2
  obtain ⟨c, hc⟩ := normalizeConfidence_eq e
  rw [hc]
  rfl

/-- A surviving event of a kind is one of its pass, but for its confidence. -/
theorem exists_of_survivor {kind : MevKind} {l : List MevEvent}
    (hkind : (allEvents input).filter (·.kind = kind) = l) (he : e ∈ classifyBlock input)
    (hk : e.kind = kind) : ∃ e₀ ∈ l, ∃ c, e = { e₀ with confidence := c } := by
  obtain ⟨e₀, hall, -, rfl⟩ := mem_classifyBlock.mp he
  obtain ⟨c, hc⟩ := normalizeConfidence_eq e₀
  rw [hc] at hk ⊢
  refine ⟨e₀, ?_, c, rfl⟩
  rw [← hkind, List.mem_filter]
  exact ⟨hall, by simpa using hk⟩

/-! ## The backruns of a pool -/

/-- A backrun books the residual of its transaction. -/
theorem booked_eq (he : e ∈ classifyBlock input) (hkind : e.kind = .backrun) {token : Address}
    (htoken : e.profitToken = some token) : e.booked = txResidual input e.txIndex token := by
  obtain ⟨e₀, hmem, c, rfl⟩ := exists_of_survivor filter_allEvents_backrun he hkind
  obtain ⟨tx, holder, token', -, -, -, htoken', hamount, hresidual⟩ := booked_backrun hmem
  obtain rfl : token' = token := Option.some_inj.mp (htoken'.symm.trans htoken)
  show e₀.profitAmount.getD 0 = txResidual input e₀.txIndex token'
  rw [hamount, hresidual, Option.getD_some]

/-- The backruns of a pool stand at different transactions. -/
theorem nodup_poolBackruns (pool token : Address) :
    ((poolBackruns input pool token).map (·.txIndex)).Nodup := by
  have hsub : (poolBackruns input pool token).Sublist
      ((classifyBlock input).filter (·.kind = .backrun)) := by
    refine List.monotone_filter_right _ fun e he => ?_
    simp only [decide_eq_true_eq] at he ⊢
    exact he.1
  have hnodup : ((poolBackruns input pool token).map backrunKey).Nodup :=
    nodup_backruns.sublist (hsub.map _)
  refine List.Nodup.of_map (fun i => (pool, i)) ?_
  rw [List.map_map]
  convert hnodup using 1
  refine List.map_congr_left fun e he => ?_
  have hpools : e.pools = [pool] := by
    have := (List.mem_filter.mp he).2
    simp only [decide_eq_true_eq] at this
    exact this.2.1
  show (pool, e.txIndex) = (e.pools.headD 0, e.txIndex)
  rw [hpools]
  rfl

/-- The backruns of a pool book the residuals of their transactions, each once. -/
theorem sum_booked (pool token : Address) :
    ((poolBackruns input pool token).map MevEvent.booked).sum =
      ∑ t ∈ ((poolBackruns input pool token).map (·.txIndex)).toFinset,
        txResidual input t token := by
  rw [List.sum_toFinset _ (nodup_poolBackruns pool token), List.map_map]
  refine congrArg List.sum (List.map_congr_left fun e he => ?_)
  obtain ⟨hmem, hprop⟩ := List.mem_filter.mp he
  simp only [decide_eq_true_eq] at hprop
  exact booked_eq hmem hprop.1 hprop.2.2

/-- No backrun stands at the front or at the close of a frontrun. -/
theorem backrun_apart {b f : MevEvent} (hb : b ∈ classifyBlock input) (hbk : b.kind = .backrun)
    (hf : f ∈ classifyBlock input) (hfk : f.kind = .frontrun) :
    b.txIndex ≠ f.txIndex ∧ f.details.closeTxIndex ≠ some b.txIndex := by
  have hwin := kind_of_mem hb
  constructor
  · intro htx
    rw [htx, kind_of_mem hf, hfk, hbk] at hwin
    cases hwin
  · intro hclose
    obtain ⟨f₀, hmem, c, rfl⟩ := exists_of_survivor filter_allEvents_frontrun hf hfk
    have hle := (winner_spec hwin).2 .frontrun
      (mem_blockClaims.mpr (.inr (.inr ⟨f₀, hmem, hclose, rfl⟩)))
    rw [hbk] at hle
    exact absurd hle (by decide)

/-! ## Two pools -/

/-- Execution prices that differ by half a percent. -/
def halfPercent : PriceTest where
  better b r := 0 < r.1 && 1005 * (r.1 * b.2) < 1000 * (b.1 * r.2)
  worse v f := 0 < f.1 && 1000 * (v.1 * f.2) < 995 * (f.1 * v.2)

def twoPoolContext : BlockContext where
  wrappedNative := 99
  priority := [1]
  v2LikePools := ∅
  causalWindowTxs := 8
  price := halfPercent

def poolSwap (pool tokenIn tokenOut : Address) (amountIn amountOut : ℕ) : SwapFact :=
  { pool := pool, amm := .v2, tokenIn := tokenIn, tokenOut := tokenOut, amountIn := amountIn
    amountOut := amountOut }

/-- After a swap of someone else on each of two pools, the searcher `23` buys on one and sells on
    the other, and keeps `10`. -/
def twoPoolBackrun : BlockInput where
  ctx := twoPoolContext
  txs := [
    { txIndex := 0, sender := 21, swaps := [poolSwap 11 1 2 100 190, poolSwap 12 2 1 200 100] },
    { txIndex := 1, sender := 22, swaps := [poolSwap 11 2 1 200 150, poolSwap 12 1 2 150 250] },
    { txIndex := 2, sender := 23, swaps := [poolSwap 11 1 2 100 200, poolSwap 12 2 1 200 110]
      transfers := [⟨1, 23, 11, 100⟩, ⟨2, 11, 23, 200⟩, ⟨2, 23, 12, 200⟩, ⟨1, 12, 23, 110⟩] }]

/-- The searcher `23` buys on two pools before a victim of both, sells elsewhere, and keeps
    `50`. -/
def twoPoolFrontrun : BlockInput where
  ctx := twoPoolContext
  txs := [
    { txIndex := 0, sender := 23, swaps := [poolSwap 11 1 2 100 200, poolSwap 12 1 3 100 200]
      transfers := [⟨1, 23, 11, 100⟩, ⟨2, 11, 23, 200⟩, ⟨1, 23, 12, 100⟩, ⟨3, 12, 23, 200⟩] },
    { txIndex := 1, sender := 22, swaps := [poolSwap 11 1 2 100 150, poolSwap 12 1 3 100 150] },
    { txIndex := 2, sender := 23, swaps := [poolSwap 13 2 1 200 130, poolSwap 14 3 1 200 120]
      transfers := [⟨2, 23, 13, 200⟩, ⟨1, 13, 23, 130⟩, ⟨3, 23, 14, 200⟩, ⟨1, 14, 23, 120⟩] }]

/-- The kind, the searcher, the transaction, the token and the amount of an event. -/
def MevEvent.booking (e : MevEvent) : MevKind × Address × ℕ × Option Address × Option ℕ :=
  (e.kind, e.searcher, e.txIndex, e.profitToken, e.profitAmount)

/-- Two backruns of one transaction book its `10` twice, and two frontruns of one searcher from
    one front on book its `50` twice. -/
theorem two_pools_book_twice :
    (classifyBlock twoPoolBackrun).map MevEvent.booking =
        [(.backrun, 23, 2, some 1, some 10), (.backrun, 23, 2, some 1, some 10)] ∧
      txResidual twoPoolBackrun 2 1 = 10 ∧
      (classifyBlock twoPoolFrontrun).map MevEvent.booking =
        [(.frontrun, 23, 0, some 1, some 50), (.frontrun, 23, 0, some 1, some 50)] ∧
      (windowLedger twoPoolFrontrun.txs 99 23).net 23 1 = 50 := by
  refine ⟨?_, ?_, ?_, ?_⟩ <;> decide +kernel

/-- **Main theorem.** On one pool a residual is booked once. -/
theorem booked_once_per_pool (input : BlockInput) :
    (((classifyBlock input).filter (·.kind = .backrun)).map backrunKey).Nodup ∧
    (((classifyBlock input).filter (·.kind = .frontrun)).map frontrunKey).Nodup ∧
    (∀ b ∈ classifyBlock input, b.kind = .backrun → ∀ f ∈ classifyBlock input,
      f.kind = .frontrun → b.txIndex ≠ f.txIndex ∧ f.details.closeTxIndex ≠ some b.txIndex) ∧
    (∀ b ∈ classifyBlock input, b.kind = .backrun →
      ∃ tx holder token, txAt input b.txIndex = some tx ∧ tx.sender = b.searcher ∧
        holder ∈ searcherCandidates tx ∧ b.profitToken = some token ∧
        b.profitAmount = some ((txLedger input tx).net holder token)) ∧
    (∀ f ∈ classifyBlock input, f.kind = .frontrun →
      ∃ token c, f.profitToken = some token ∧ f.details.closeTxIndex = some c ∧
        f.profitAmount = some ((windowLedger
          (frontToClose (causalWindow input f.txIndex) f.txIndex c)
          input.ctx.wrappedNative f.searcher).net f.searcher token)) ∧
    ∀ pool token, ((poolBackruns input pool token).map MevEvent.booked).sum =
      ∑ t ∈ ((poolBackruns input pool token).map (·.txIndex)).toFinset,
        txResidual input t token := by
  refine ⟨nodup_backruns, nodup_frontruns, fun b hb hbk f hf hfk => backrun_apart hb hbk hf hfk,
    fun b hb hbk => ?_, fun f hf hfk => ?_, sum_booked⟩
  · obtain ⟨e₀, hmem, c, rfl⟩ := exists_of_survivor filter_allEvents_backrun hb hbk
    obtain ⟨tx, holder, token, htx, hsender, hholder, htoken, hamount, -⟩ := booked_backrun hmem
    exact ⟨tx, holder, token, htx, hsender, hholder, htoken, hamount⟩
  · obtain ⟨e₀, hmem, c, rfl⟩ := exists_of_survivor filter_allEvents_frontrun hf hfk
    have hbooked := booked_frontrun hmem
    exact hbooked

end MevScout.Explorer
