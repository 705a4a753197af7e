import MevScout.Common.Checked
import MevScout.Pool.Liquidity
import MevScout.Pool.TaxSides

/-!
# Logs that stop the pipeline

`update_from_logs` and `learn_taxes_from_tx` on logs of any topics and data, in a build with
overflow checks (`checks`) and in one without. The operators that can overflow are the
negation in `decode_v3_mint_burn`, the sums and the negation in `apply_v3_mint_burn` and the
sums of transfers; the conversions in `decode_pendle_swap` panic in every build.

Results:
* `guarded_processLogIn`: a checked build handles a log as an unchecked one does, where the
  amounts of a Mint or Burn fit;
* `guarded_countTransferIn`: the same for a transfer;
* `decodePendleSwap_ok_iff`: the words that the Pendle decoder can narrow;
* `pools_eq_of_not_representable`: what a log that cannot be represented may touch;
* `logs_return_iff`: **main theorem**, when both functions return, and which logs leave the
  pools alone.
-/

namespace MevScout.Pool

open MevScout.Chain

/-! ## The checked handlers -/

/-- `*state.ticks.entry(tick).or_insert(0) += delta`. -/
def addNetIn (checks : Bool) (ticks : TickMap) (tick delta : ℤ) : Except Panic TickMap :=
  (arithSigned checks 128 (ticks[tick]?.getD 0 + delta)).map (ticks.insert tick)

/-- `*state.ticks.entry(tick).or_insert(0) -= delta`. -/
def subNetIn (checks : Bool) (ticks : TickMap) (tick delta : ℤ) : Except Panic TickMap :=
  (arithSigned checks 128 (ticks[tick]?.getD 0 - delta)).map (ticks.insert tick)

/-- The liquidity after `apply_v3_mint_burn` (`apply.rs`, lines 111–115). -/
def liquidityIn (checks : Bool) (liquidity : ℕ) (amount : ℤ) : Except Panic ℕ :=
  if amount > 0 then .ok (saturatingAdd 128 liquidity (asUnsigned 128 amount))
  else (arithSigned checks 128 (-amount)).map fun burned => liquidity - asUnsigned 128 burned

/-- The update of `apply_v3_mint_burn` (`apply.rs`, lines 109–115). -/
def UniswapV3PoolState.mintBurnIn (checks : Bool) (tickLower tickUpper amount : ℤ)
    (s : UniswapV3PoolState) : Except Panic UniswapV3PoolState := do
  let lower ← addNetIn checks s.ticks tickLower amount
  let ticks ← subNetIn checks lower tickUpper amount
  let liquidity ← liquidityIn checks s.liquidity amount
  return { s with ticks, liquidity }

/-- Model of `decode_v3_mint_burn` (`decoders.rs`, lines 143–168). -/
def decodeV3MintBurnIn (checks : Bool) (log : ExecutedLog) :
    Except Panic (Option V3MintBurnDecoded) :=
  match log.topics with
  | topic0 :: _ :: topic2 :: topic3 :: _ =>
    let isBurn : Bool := topic0 = v3BurnTopic
    if topic0 ≠ v3MintTopic ∧ ¬isBurn then .ok none
    else
      let tickLower := i24FromTopic topic2
      let tickUpper := i24FromTopic topic3
      let (need, amountOff) := if isBurn then (96, 0) else (128, 32)
      if log.data.length < need then .ok none
      else
        let raw := u128FromBeBytes (slice log.data amountOff (amountOff + 32))
        let amount := if isBurn then arithSigned checks 128 (-asSigned 128 raw)
          else .ok (asSigned 128 raw)
        amount.map fun amount => some { tickLower, tickUpper, amount }
  | _ => .ok none

namespace PoolManager

/-- Model of `apply_v3_mint_burn` (`apply.rs`, lines 98–119). -/
def applyV3MintBurnIn (checks : Bool) (pm : PoolManager) (address : Address)
    (tickLower tickUpper amount : ℤ) : Except Panic PoolManager :=
  match pm.pools[address]?.bind concentrated with
  | none => .ok (pm.poolMut address id)
  | some s => (s.mintBurnIn checks tickLower tickUpper amount).map fun s' =>
      pm.poolMut address (PoolState.mapConcentrated fun _ => s')

/-- Model of `process_v3_mint_burn_log` (`apply.rs`, lines 248–260). -/
def processV3MintBurnLogIn (checks : Bool) (pm : PoolManager) (log : ExecutedLog) :
    Except Panic PoolManager :=
  if log.address ∉ pm.pools then .ok pm
  else do
    match ← decodeV3MintBurnIn checks log with
    | none => return pm
    | some d => pm.applyV3MintBurnIn checks log.address d.tickLower d.tickUpper d.amount

/-- One turn of the loop of `update_from_logs` (`apply.rs`, lines 138–203): only the branch
    for Mint and Burn has operators that can overflow. -/
def processLogIn (checks : Bool) (pm : PoolManager) (log : ExecutedLog) :
    Except Panic PoolManager :=
  if logHandler log = some .v3MintBurn ∧ log.address ∈ pm.knownSet then
    (pm.markDirtyPool log.address).processV3MintBurnLogIn checks log
  else pm.processLog log

/-- Model of `update_from_logs` (`apply.rs`, lines 137–204). -/
def updateFromLogsIn (checks : Bool) (pm : PoolManager) (logs : List ExecutedLog) :
    Except Panic PoolManager :=
  logs.foldlM (processLogIn checks) pm

/-- Pass 1 of `learn_taxes_from_tx`, for one log (`manager.rs`, lines 491–511). -/
def countTransferIn (checks : Bool) (pm : PoolManager) (totals : TransferTotals × TransferTotals)
    (log : ExecutedLog) : Except Panic (TransferTotals × TransferTotals) :=
  match log.topics with
  | topic0 :: topic1 :: topic2 :: _ =>
    if log.data.length < 32 ∨ topic0 ≠ transferTopic then .ok totals
    else
      let value := u128FromBeBytes (slice log.data 0 32)
      if value = 0 then .ok totals
      else do
        let sender := topicAddress topic1
        let recipient := topicAddress topic2
        let incoming ←
          addIf checks 128 totals.1 (recipient ∈ pm.knownSet) (recipient, log.address) value
        let outgoing ←
          addIf checks 128 totals.2 (sender ∈ pm.knownSet) (sender, log.address) value
        return (incoming, outgoing)
  | _ => .ok totals

/-- Model of `learn_taxes_from_tx` (`manager.rs`, lines 487–675). -/
def learnTaxesIn (checks : Bool) (rt : TaxRuntime) (pm : PoolManager) (logs : List ExecutedLog) :
    Except Panic PoolManager := do
  let totals ← logs.foldlM (pm.countTransferIn checks) (fun _ => 0, fun _ => 0)
  let decls ← logs.mapM (pm.declarations rt)
  let flagged := decls.flatten.foldl
    (fun set d => checkSide rt totals.2 d.pool d.tokenOut d.amountOut
      (checkSide rt totals.1 d.pool d.tokenIn d.amountIn set)) pm.dynamicFot
  return { pm with dynamicFot := flagged }

end PoolManager

/-! ## Mint and Burn -/

/-- The sums and the negation of a Mint or Burn stay within `i128`. -/
structure MintBurnFits (s : UniswapV3PoolState) (tickLower tickUpper amount : ℤ) : Prop where
  lower : FitsSigned 128 (netAt s.ticks tickLower + amount)
  upper : FitsSigned 128 ((if tickLower = tickUpper then netAt s.ticks tickLower + amount
    else netAt s.ticks tickUpper) - amount)
  negated : amount ≤ 0 → FitsSigned 128 (-amount)

/-- A Burn does not report the amount `2 ^ 127`, whose low 128 bits are the least `i128`. -/
def NegationFits (log : ExecutedLog) : Prop :=
  log.topics.head? = some v3BurnTopic → 4 ≤ log.topics.length → 96 ≤ log.data.length →
    u128FromBeBytes (slice log.data 0 32) ≠ 2 ^ 127

/-- The amounts of a Mint or Burn of a tracked pool fit. -/
def MintBurnLogFits (pm : PoolManager) (log : ExecutedLog) : Prop :=
  logHandler log = some .v3MintBurn → log.address ∈ pm.knownSet → log.address ∈ pm.pools →
    NegationFits log ∧ ∀ d s, decodeV3MintBurn log = some d →
      pm.pools[log.address]?.bind concentrated = some s →
        MintBurnFits s d.tickLower d.tickUpper d.amount

/-- What the second write of a Mint or Burn finds, after a first one that fits. -/
theorem netAt_addNet {ticks : TickMap} {tl a : ℤ} (h : FitsSigned 128 (netAt ticks tl + a))
    (tu : ℤ) :
    netAt (addNet ticks tl a) tu = if tl = tu then netAt ticks tl + a else netAt ticks tu := by
  rw [addNet_eq h.1 h.2]
  split_ifs with ht
  · unfold netAt
    rw [Map.getElem?_insert_eq, if_pos ht]
    rfl
  · exact netAt_insert_of_ne ht

theorem guarded_mintBurnIn (checks : Bool) (s : UniswapV3PoolState) (tl tu a : ℤ) :
    Guarded checks (MintBurnFits s tl tu a) (s.mintBurnIn checks tl tu a)
      (.ok (s.mintBurn tl tu a)) := by
  have hlower := (guarded_arithSigned checks 128 (netAt s.ticks tl + a)).map (s.ticks.insert tl)
  have hupper := (guarded_arithSigned checks 128 (netAt (addNet s.ticks tl a) tu - a)).map
    ((addNet s.ticks tl a).insert tu)
  have hliq : Guarded checks (a ≤ 0 → FitsSigned 128 (-a)) (liquidityIn checks s.liquidity a)
      (.ok (s.mintBurn tl tu a).liquidity) := by
    show Guarded _ _ _ (.ok (if a > 0 then _ else _))
    unfold liquidityIn
    split_ifs with ha
    · exact (guarded_self _).congr (iff_of_true trivial fun h => absurd h (by omega)) rfl
    · refine ((guarded_arithSigned checks 128 (-a)).map _).congr ?_ rfl
      exact ⟨fun h _ => h, fun h => h (by omega)⟩
  refine (hlower.bind_ok (hupper.bind_ok (hliq.bind_ok (guarded_self _)))).congr ?_ rfl
  constructor
  · rintro ⟨hl, hu, hn, -⟩
    rw [netAt_addNet hl] at hu
    exact ⟨hl, hu, hn⟩
  · rintro ⟨hl, hu, hn⟩
    rw [← netAt_addNet hl] at hu
    exact ⟨hl, hu, hn, trivial⟩

/-- The negation of an `i128` fits unless it is the least one. -/
theorem fitsSigned_neg_asSigned_iff {n : ℕ} (hn : n < 2 ^ 128) :
    FitsSigned 128 (-asSigned 128 n) ↔ n ≠ 2 ^ 127 := by
  unfold FitsSigned asSigned
  rw [Int.bmod_def]
  push_cast
  split_ifs <;> omega

theorem guarded_decodeV3MintBurnIn (checks : Bool) (log : ExecutedLog) :
    Guarded checks (NegationFits log) (decodeV3MintBurnIn checks log)
      (.ok (decodeV3MintBurn log)) := by
  have hvacuous {x : Option V3MintBurnDecoded} (h : NegationFits log) :
      Guarded checks (NegationFits log) (.ok x : Except Panic _) (.ok x) :=
    (guarded_self _).congr (iff_of_true trivial h) rfl
  unfold decodeV3MintBurnIn decodeV3MintBurn
  rcases hl : log.topics with _ | ⟨topic0, _ | ⟨topic1, _ | ⟨topic2, _ | ⟨topic3, rest⟩⟩⟩⟩
  case cons.cons.cons.cons =>
    have hhead : log.topics.head? = some topic0 := by rw [hl, List.head?_cons]
    dsimp only
    by_cases hburn : topic0 = v3BurnTopic
    · subst hburn
      simp only [decide_true, not_true_eq_false, and_false, if_false, if_true]
      split_ifs with hlen
      · exact hvacuous fun _ _ h => absurd h (by omega)
      · refine ((guarded_arithSigned checks 128 _).map _).congr ?_ rfl
        rw [fitsSigned_neg_asSigned_iff (u128FromBeBytes_lt _)]
        refine ⟨fun h _ _ _ => h, fun h => h hhead ?_ (by omega)⟩
        rw [hl]
        simp only [List.length_cons]
        omega
    · have hnone : NegationFits log := fun h =>
        absurd (Option.some.inj (hhead.symm.trans h)) hburn
      simp only [hburn, decide_false, Bool.false_eq_true, if_false]
      split_ifs <;> exact hvacuous hnone
  all_goals
    refine hvacuous fun _ h => ?_
    rw [hl] at h
    simp only [List.length_cons, List.length_nil] at h
    omega

namespace PoolManager

variable {pm pm' : PoolManager} {log : ExecutedLog} {logs : List ExecutedLog}

/-- Only what an edit does to the pool matters. -/
theorem poolMut_congr {a : Address} {edit edit' : PoolState → PoolState}
    (h : ∀ p, pm.pools[a]? = some p → edit p = edit' p) :
    pm.poolMut a edit = pm.poolMut a edit' := by
  have hmodify : pm.pools.modify a edit = pm.pools.modify a edit' := by
    apply Std.ExtTreeMap.ext_getElem?
    intro k
    rw [Map.getElem?_modify_eq, Map.getElem?_modify_eq]
    split_ifs with hk
    · subst hk
      cases hp : pm.pools[a]? with
      | none => rfl
      | some p => exact congrArg some (h p hp)
    · rfl
  simp only [poolMut, undoRecordPool_pools, hmodify]

theorem guarded_applyV3MintBurnIn (checks : Bool) (pm : PoolManager) (a : Address)
    (tl tu amount : ℤ) :
    Guarded checks
      (∀ s, pm.pools[a]?.bind concentrated = some s → MintBurnFits s tl tu amount)
      (pm.applyV3MintBurnIn checks a tl tu amount) (.ok (pm.applyV3MintBurn a tl tu amount)) := by
  unfold applyV3MintBurnIn applyV3MintBurn
  cases hs : pm.pools[a]?.bind concentrated with
  | none =>
    refine (guarded_self _).congr (iff_of_true trivial fun _ h => by cases h) ?_
    refine congrArg Except.ok (poolMut_congr fun p hp => ?_)
    rw [hp] at hs
    cases p <;> first | rfl | cases hs
  | some s =>
    refine ((guarded_mintBurnIn checks s tl tu amount).map _).congr ?_ ?_
    · exact ⟨fun h t ht => Option.some.inj ht ▸ h, fun h => h s rfl⟩
    · refine congrArg Except.ok (poolMut_congr fun p hp => ?_)
      rw [hp] at hs
      cases p <;> first | cases hs; rfl | cases hs

theorem guarded_processV3MintBurnLogIn (checks : Bool) (pm : PoolManager) (log : ExecutedLog) :
    Guarded checks
      (log.address ∈ pm.pools → NegationFits log ∧ ∀ d s, decodeV3MintBurn log = some d →
        pm.pools[log.address]?.bind concentrated = some s →
          MintBurnFits s d.tickLower d.tickUpper d.amount)
      (pm.processV3MintBurnLogIn checks log) (.ok (pm.processV3MintBurnLog log)) := by
  unfold processV3MintBurnLogIn processV3MintBurnLog
  split_ifs with hp
  · refine ((guarded_decodeV3MintBurnIn checks log).bind_ok
      (Q := ∀ d s, decodeV3MintBurn log = some d →
        pm.pools[log.address]?.bind concentrated = some s →
          MintBurnFits s d.tickLower d.tickUpper d.amount) ?_).congr ?_ rfl
    · cases decodeV3MintBurn log with
      | none => exact (guarded_self _).congr (iff_of_true trivial fun _ _ h => by cases h) rfl
      | some d =>
        refine (guarded_applyV3MintBurnIn checks pm log.address _ _ _).congr ?_ rfl
        exact ⟨fun h d' s hd => Option.some.inj hd ▸ h s, fun h s => h d s rfl⟩
    · exact ⟨fun h _ => h, fun h => h hp⟩
  · exact (guarded_self _).congr (iff_of_true trivial fun h => absurd h hp) rfl

/-- A log of Mint or Burn, of a known emitter, is handled as such. -/
theorem processLog_mintBurn (hh : logHandler log = some .v3MintBurn)
    (hk : log.address ∈ pm.knownSet) :
    pm.processLog log = .ok ((pm.markDirtyPool log.address).processV3MintBurnLog log) := by
  obtain ⟨t, ht, hhead⟩ := logHandler_eq_some_iff.mp hh
  obtain ⟨rest, hl⟩ := List.head?_eq_some_iff.mp hhead
  unfold processLog
  rw [hl]
  dsimp only
  rw [if_neg (not_not_intro hk)]
  rcases List.mem_cons.mp ht with rfl | ht
  · rfl
  · obtain rfl := List.mem_singleton.mp ht
    rfl

/-- A checked build handles a log as an unchecked one does, where a Mint or Burn fits. -/
theorem guarded_processLogIn (checks : Bool) (pm : PoolManager) (log : ExecutedLog) :
    Guarded checks (MintBurnLogFits pm log) (pm.processLogIn checks log) (pm.processLog log) := by
  unfold processLogIn
  split_ifs with h
  · rw [processLog_mintBurn h.1 h.2]
    refine (guarded_processV3MintBurnLogIn checks _ log).congr ?_ rfl
    exact ⟨fun hfits _ _ => hfits, fun hfits => hfits h.1 h.2⟩
  · exact (guarded_self _).congr (iff_of_true trivial fun hh hk => absurd ⟨hh, hk⟩ h) rfl

/-! ## Transfers -/

/-- What a Transfer log of a tracked pool adds to the totals of one side: those of the
    recipients are keyed by the third topic, those of the senders by the second. -/
def creditOf (pm : PoolManager) (party : Fin 2) (log : ExecutedLog) :
    Option ((Address × Address) × ℕ) :=
  let value := u128FromBeBytes (slice log.data 0 32)
  let pool := topicAddress (log.topics.getD (party + 1) 0)
  if log.topics.head? = some transferTopic ∧ 3 ≤ log.topics.length ∧ 32 ≤ log.data.length ∧
      value ≠ 0 ∧ pool ∈ pm.knownSet then some ((pool, log.address), value) else none

/-- The transfers of a transaction to, and from, each pool add up to less than `2 ^ 128` of
    each token. -/
def TransfersFit (pm : PoolManager) (logs : List ExecutedLog) : Prop :=
  ∀ party key, totalOf (pm.creditOf party) key logs < 2 ^ 128

/-- A Transfer log that counts is an entry of each side whose pool is known. -/
theorem creditOf_eq {party : Fin 2}
    (h : log.topics.head? = some transferTopic ∧ 3 ≤ log.topics.length ∧ 32 ≤ log.data.length ∧
      u128FromBeBytes (slice log.data 0 32) ≠ 0) :
    pm.creditOf party log =
      if topicAddress (log.topics.getD (party + 1) 0) ∈ pm.knownSet then
        some ((topicAddress (log.topics.getD (party + 1) 0), log.address),
          u128FromBeBytes (slice log.data 0 32)) else none := by
  obtain ⟨h0, h1, h2, h3⟩ := h
  unfold creditOf
  simp only [h0, h1, h2, h3, ne_eq, not_false_eq_true, true_and]

theorem creditOf_eq_none {party : Fin 2}
    (h : ¬(log.topics.head? = some transferTopic ∧ 3 ≤ log.topics.length ∧
      32 ≤ log.data.length ∧ u128FromBeBytes (slice log.data 0 32) ≠ 0)) :
    pm.creditOf party log = none :=
  if_neg fun hall => h ⟨hall.1, hall.2.1, hall.2.2.1, hall.2.2.2.1⟩

/-- A log that counts nothing leaves the totals alone. -/
theorem guarded_skip (checks : Bool) (totals : TransferTotals × TransferTotals)
    (h : ¬(log.topics.head? = some transferTopic ∧ 3 ≤ log.topics.length ∧
      32 ≤ log.data.length ∧ u128FromBeBytes (slice log.data 0 32) ≠ 0)) :
    Guarded checks
      (CreditFits 128 totals.1 (pm.creditOf 1 log) ∧ CreditFits 128 totals.2 (pm.creditOf 0 log))
      (.ok totals : Except Panic _)
      (.ok (credit 128 totals.1 (pm.creditOf 1 log), credit 128 totals.2 (pm.creditOf 0 log))) := by
  rw [creditOf_eq_none h, creditOf_eq_none h]
  refine (guarded_self _).congr (iff_of_true trivial ⟨?_, ?_⟩) rfl
  · exact fun _ h => by cases h
  · exact fun _ h => by cases h

/-- A checked build counts a transfer as an unchecked one does, where its totals fit. -/
theorem guarded_countTransferIn (checks : Bool) (pm : PoolManager)
    (totals : TransferTotals × TransferTotals) (log : ExecutedLog) :
    Guarded checks
      (CreditFits 128 totals.1 (pm.creditOf 1 log) ∧ CreditFits 128 totals.2 (pm.creditOf 0 log))
      (pm.countTransferIn checks totals log)
      (.ok (credit 128 totals.1 (pm.creditOf 1 log), credit 128 totals.2 (pm.creditOf 0 log))) := by
  unfold countTransferIn
  rcases hl : log.topics with _ | ⟨topic0, _ | ⟨topic1, _ | ⟨topic2, rest⟩⟩⟩
  case cons.cons.cons =>
    have hhead : log.topics.head? = some topic0 := by rw [hl, List.head?_cons]
    dsimp only
    by_cases hshape : log.data.length < 32 ∨ topic0 ≠ transferTopic
    · rw [if_pos hshape]
      refine guarded_skip checks totals fun h => hshape.elim (fun hlen => by omega) fun ht => ht ?_
      exact Option.some.inj (hhead.symm.trans h.1)
    by_cases hvalue : u128FromBeBytes (slice log.data 0 32) = 0
    · rw [if_neg hshape, if_pos hvalue]
      exact guarded_skip checks totals fun h => h.2.2.2 hvalue
    rw [if_neg hshape, if_neg hvalue]
    push Not at hshape
    have hcounts : log.topics.head? = some transferTopic ∧ 3 ≤ log.topics.length ∧
        32 ≤ log.data.length ∧ u128FromBeBytes (slice log.data 0 32) ≠ 0 := by
      refine ⟨by rw [hhead, hshape.2], ?_, hshape.1, hvalue⟩
      rw [hl]
      simp only [List.length_cons]
      omega
    have hin : pm.creditOf 1 log = if topicAddress topic2 ∈ pm.knownSet then
        some ((topicAddress topic2, log.address), u128FromBeBytes (slice log.data 0 32))
        else none := by
      rw [creditOf_eq hcounts, hl]
      rfl
    have hout : pm.creditOf 0 log = if topicAddress topic1 ∈ pm.knownSet then
        some ((topicAddress topic1, log.address), u128FromBeBytes (slice log.data 0 32))
        else none := by
      rw [creditOf_eq hcounts, hl]
      rfl
    have hincoming := guarded_addIf checks 128 totals.1 (topicAddress topic2 ∈ pm.knownSet)
      (topicAddress topic2, log.address) (u128FromBeBytes (slice log.data 0 32))
    have houtgoing := guarded_addIf checks 128 totals.2 (topicAddress topic1 ∈ pm.knownSet)
      (topicAddress topic1, log.address) (u128FromBeBytes (slice log.data 0 32))
    rw [hin, hout]
    rw [← and_true (CreditFits 128 totals.2 _)]
    refine hincoming.bind_ok ?_
    refine houtgoing.bind_ok ?_
    exact guarded_self _
  all_goals
    refine guarded_skip checks totals fun h => ?_
    have hlen := h.2.1
    rw [hl] at hlen
    simp only [List.length_cons, List.length_nil] at hlen
    omega

/-- Without checks, a transfer is counted as in the unchecked model. -/
theorem countTransferIn_false (pm : PoolManager) (totals : TransferTotals × TransferTotals)
    (log : ExecutedLog) :
    pm.countTransferIn false totals log = .ok (pm.countTransfer totals log) := by
  unfold countTransferIn countTransfer
  rcases log.topics with _ | ⟨topic0, _ | ⟨topic1, _ | ⟨topic2, rest⟩⟩⟩
  case cons.cons.cons =>
    dsimp only
    split_ifs with hshape hvalue hin hout hout
    · rfl
    · rfl
    all_goals
      simp only [addIf, hin, hout, if_true, if_false]
      rfl
  all_goals rfl

theorem countTransfer_eq (pm : PoolManager) (totals : TransferTotals × TransferTotals)
    (log : ExecutedLog) :
    pm.countTransfer totals log =
      (credit 128 totals.1 (pm.creditOf 1 log), credit 128 totals.2 (pm.creditOf 0 log)) := by
  have h := (guarded_countTransferIn false pm totals log _).mpr ⟨nofun, rfl⟩
  rw [countTransferIn_false] at h
  exact Except.ok.inj h

/-- A checked build counts the transfers as an unchecked one does, where their sums fit. -/
theorem guarded_countTransfers (checks : Bool) (pm : PoolManager) (logs : List ExecutedLog) :
    Guarded checks (pm.TransfersFit logs)
      (logs.foldlM (pm.countTransferIn checks) (fun _ => 0, fun _ => 0))
      (.ok (logs.foldl pm.countTransfer (fun _ => 0, fun _ => 0))) := by
  have hzero : ∀ key : Address × Address, (fun _ => 0 : Address × Address → ℕ) key < 2 ^ 128 :=
    fun _ => by positivity
  have hstep : pm.countTransfer = fun totals log =>
      (credit 128 totals.1 (pm.creditOf 1 log), credit 128 totals.2 (pm.creditOf 0 log)) :=
    funext fun totals => funext fun log => pm.countTransfer_eq totals log
  refine (Guarded.foldlM (fun t a => guarded_countTransferIn checks pm t a) _ logs).congr ?_ ?_
  · refine (meets_prod.trans (and_congr (meets_credit_iff hzero) (meets_credit_iff hzero))).trans ?_
    simp only [Nat.zero_add]
    exact ⟨fun h party => by fin_cases party; exacts [h.2, h.1], fun h => ⟨h 1, h 0⟩⟩
  · rw [hstep]
    exact List.foldlM_pure

/-- A checked build learns what an unchecked one learns, where the transfers fit. -/
theorem guarded_learnTaxesIn (checks : Bool) (rt : TaxRuntime) (pm : PoolManager)
    (logs : List ExecutedLog) :
    Guarded checks (pm.TransfersFit logs) (pm.learnTaxesIn checks rt logs)
      (pm.learnTaxesFromTx rt logs) := by
  rw [← and_true (pm.TransfersFit logs)]
  exact (guarded_countTransfers checks pm logs).bind_ok (guarded_self _)

end PoolManager

/-! ## Logs that can be represented -/

/-- The data word at index `i`. -/
def wordAt (log : ExecutedLog) (i : ℕ) : ℕ := beVal (slice log.data (32 * i) (32 * i + 32))

/-- The data word at index `i`, as a signed number. -/
def intAt (log : ExecutedLog) (i : ℕ) : ℤ :=
  signedFromBeBytes (slice log.data (32 * i) (32 * i + 32))

/-- The topics and the data bytes that a branch asks for. -/
def Handler.needs (log : ExecutedLog) : Handler → ℕ × ℕ
  | v2Swap | curveSwap => (1, 128)
  | v2Sync => (1, 64)
  | v3Swap | metricSwap => (1, 160)
  | v3MintBurn => (4, if log.topics.head? = some v3BurnTopic then 96 else 128)
  | balancerSwap => (4, 64)
  | lbSwap | fluidSwap => (1, 96)
  | pendleSwap => (3, 64)

/-- The log has the topics and the data that the branch reads. -/
def Handler.Shaped (h : Handler) (log : ExecutedLog) : Prop :=
  (h.needs log).1 ≤ log.topics.length ∧ (h.needs log).2 ≤ log.data.length

instance (h : Handler) (log : ExecutedLog) : Decidable (h.Shaped log) :=
  inferInstanceAs (Decidable (_ ∧ _))

/-- The two amounts of a Pendle swap fit `u128`, and one that sells PT pays out SY. -/
def PendleFits (log : ExecutedLog) : Prop :=
  (intAt log 0).natAbs < 2 ^ 128 ∧ (intAt log 1).natAbs < 2 ^ 128 ∧
    (intAt log 0 ≤ 0 → 0 ≤ intAt log 1)

/-- The words that a branch reads are in the range of the types it reads them as. -/
def Handler.WordsFit (log : ExecutedLog) : Handler → Prop
  | v2Swap => ∀ i < 4, wordAt log i < 2 ^ 128
  | v2Sync => ∀ i < 2, wordAt log i < 2 ^ 128
  | v3Swap => FitsSigned 128 (intAt log 0) ∧ FitsSigned 128 (intAt log 1) ∧
      wordAt log 3 < 2 ^ 128 ∧ FitsSigned 32 (intAt log 4)
  | v3MintBurn => wordAt log (if log.topics.head? = some v3BurnTopic then 0 else 1) < 2 ^ 127 ∧
      FitsSigned 24 (log.topics.getD 2 0).toInt ∧ FitsSigned 24 (log.topics.getD 3 0).toInt
  | curveSwap => wordAt log 0 < 2 ^ 64 ∧ wordAt log 1 < 2 ^ 128 ∧
      wordAt log 2 < 2 ^ 64 ∧ wordAt log 3 < 2 ^ 128
  | balancerSwap => (∀ i < 2, wordAt log i < 2 ^ 128) ∧
      (log.topics.getD 2 0).toNat < 2 ^ 160 ∧ (log.topics.getD 3 0).toNat < 2 ^ 160
  | lbSwap | fluidSwap => wordAt log 0 < 2 ∧ wordAt log 1 < 2 ^ 128 ∧ wordAt log 2 < 2 ^ 128
  | pendleSwap => PendleFits log
  | metricSwap => wordAt log 0 < 2 ∧ FitsSigned 128 (intAt log 1) ∧
      FitsSigned 128 (intAt log 2) ∧ FitsSigned 16 (intAt log 3) ∧ wordAt log 4 < 2 ^ 128

/-- The log is of an event that is handled, has the data of one, and every word of it that is
    read keeps its value. -/
def Representable (log : ExecutedLog) : Prop :=
  ∃ h, logHandler log = some h ∧ h.Shaped log ∧ h.WordsFit log

/-- A Pendle swap that is long enough to be read has amounts that fit. -/
def PendleLogFits (log : ExecutedLog) : Prop :=
  logHandler log = some .pendleSwap → Handler.pendleSwap.Shaped log → PendleFits log

/-- Two amounts are narrowed when both fit. -/
theorem toU128_toU128_ok_iff {α : Type} {m n : ℕ} {f : ℕ → ℕ → α} :
    (∃ d, (do
      let x ← toU128 m
      let y ← toU128 n
      return f x y) = Except.ok d) ↔ m < 2 ^ 128 ∧ n < 2 ^ 128 := by
  unfold toU128
  split_ifs with hm hn hn
  · exact iff_of_true ⟨_, rfl⟩ ⟨hm, hn⟩
  · exact iff_of_false (fun ⟨_, h⟩ => by cases h) fun h => hn h.2
  · exact iff_of_false (fun ⟨_, h⟩ => by cases h) fun h => hm h.1
  · exact iff_of_false (fun ⟨_, h⟩ => by cases h) fun h => hm h.1

/-- An `I256` has a raw value below `2 ^ 128` when it is neither negative nor too large. -/
theorem intoRaw_lt_iff {x : ℤ} (hx : FitsSigned 256 x) :
    intoRaw x < 2 ^ 128 ↔ 0 ≤ x ∧ x.natAbs < 2 ^ 128 := by
  unfold FitsSigned at hx
  unfold intoRaw asUnsigned
  omega

theorem fitsSigned_intAt {log : ExecutedLog} {i : ℕ} (h : 32 * i + 32 ≤ log.data.length) :
    FitsSigned 256 (intAt log i) := by
  have hlen : (slice log.data (32 * i) (32 * i + 32)).length = 32 := by
    rw [length_slice (by omega) h]
    omega
  unfold intAt signedFromBeBytes
  rw [hlen]
  exact asSigned_mem 255 _

/-- The Pendle decoder panics exactly on amounts that do not fit. -/
theorem decodePendleSwap_ok_iff {log : ExecutedLog} :
    (∃ d, decodePendleSwap log = .ok d) ↔ PendleLogFits log := by
  by_cases hh : logHandler log = some .pendleSwap
  case neg => exact iff_of_true ⟨none, PoolManager.decodePendleSwap_of_ne hh⟩ fun h => absurd h hh
  obtain ⟨t, ht, hhead⟩ := PoolManager.logHandler_eq_some_iff.mp hh
  obtain rfl := List.mem_singleton.mp ht
  unfold decodePendleSwap
  rw [if_neg (not_not_intro hhead)]
  split_ifs with hshape
  · refine iff_of_true ⟨none, rfl⟩ fun _ hs => ?_
    have hs' : 3 ≤ log.topics.length ∧ 64 ≤ log.data.length := hs
    omega
  · have hs : Handler.pendleSwap.Shaped log := by
      show 3 ≤ log.topics.length ∧ 64 ≤ log.data.length
      omega
    have hlen : 64 ≤ log.data.length := hs.2
    have hpt : FitsSigned 256 (intAt log 0) := fitsSigned_intAt (by omega)
    have hsy : FitsSigned 256 (intAt log 1) := fitsSigned_intAt (by omega)
    have hiff : PendleLogFits log ↔ PendleFits log := ⟨fun h => h hh hs, fun h _ _ => h⟩
    rw [hiff, PendleFits]
    have hpt' := intoRaw_lt_iff hpt
    have hsy' := intoRaw_lt_iff hsy
    by_cases hpos : 0 < intAt log 0
    · have hout : decide (0 < signedFromBeBytes (slice log.data 0 32)) = true := decide_eq_true hpos
      simp only [hout, if_true]
      refine toU128_toU128_ok_iff.trans ?_
      show (intAt log 1).natAbs < 2 ^ 128 ∧ intoRaw (intAt log 0) < 2 ^ 128 ↔ _
      rw [hpt']
      omega
    · have hout : decide (0 < signedFromBeBytes (slice log.data 0 32)) = false :=
        decide_eq_false hpos
      simp only [hout, Bool.false_eq_true, if_false]
      refine toU128_toU128_ok_iff.trans ?_
      show (intAt log 0).natAbs < 2 ^ 128 ∧ intoRaw (intAt log 1) < 2 ^ 128 ↔ _
      rw [hsy']
      omega

/-- A Mint or Burn log too short to be read is not decoded. -/
theorem decodeV3MintBurn_of_not_shaped {log : ExecutedLog}
    (hs : ¬Handler.v3MintBurn.Shaped log) : decodeV3MintBurn log = none := by
  unfold decodeV3MintBurn
  rcases hl : log.topics with _ | ⟨topic0, _ | ⟨topic1, _ | ⟨topic2, _ | ⟨topic3, rest⟩⟩⟩⟩
  case cons.cons.cons.cons =>
    have hlen : log.data.length < if topic0 = v3BurnTopic then 96 else 128 := by
      by_contra hge
      refine hs ⟨?_, ?_⟩
      · show 4 ≤ log.topics.length
        rw [hl]
        simp only [List.length_cons]
        omega
      · show (if log.topics.head? = some v3BurnTopic then 96 else 128) ≤ log.data.length
        simp only [hl, List.head?_cons, Option.some_inj]
        exact not_lt.mp hge
    by_cases hburn : topic0 = v3BurnTopic
    · rw [if_pos hburn] at hlen
      simp [hburn, hlen]
    · rw [if_neg hburn] at hlen
      simp [hburn, hlen]
  all_goals rfl

/-- A Balancer log too short to be read is not decoded. -/
theorem decodeBalancerSwap_of_not_shaped {log : ExecutedLog}
    (hs : ¬Handler.balancerSwap.Shaped log) : decodeBalancerSwap log = none := by
  unfold decodeBalancerSwap
  rcases hl : log.topics with _ | ⟨topic0, _ | ⟨topic1, _ | ⟨topic2, _ | ⟨topic3, rest⟩⟩⟩⟩
  case cons.cons.cons.cons =>
    have hlen : log.data.length < 64 := by
      by_contra hge
      refine hs ⟨?_, not_lt.mp hge⟩
      show 4 ≤ log.topics.length
      rw [hl]
      simp only [List.length_cons]
      omega
    dsimp only
    rw [if_pos hlen, ite_self]
  all_goals rfl

/-- A log too short for its branch edits nothing. -/
theorem edits_of_not_shaped {h : Handler} {p : PoolState} {log : ExecutedLog}
    (hh : logHandler log = some h) (hs : ¬h.Shaped log) : h.edits p log = .ok [] := by
  obtain ⟨t, -, hhead⟩ := PoolManager.logHandler_eq_some_iff.mp hh
  obtain ⟨rest, hl⟩ := List.head?_eq_some_iff.mp hhead
  have htopics : 1 ≤ log.topics.length := by
    rw [hl]
    simp only [List.length_cons]
    omega
  have hlen {n : ℕ} (hn : h.needs log = (1, n)) : log.data.length < n := by
    unfold Handler.Shaped at hs
    rw [hn] at hs
    by_contra hge
    exact hs ⟨htopics, not_lt.mp hge⟩
  cases h with
  | v2Swap => exact congrArg Except.ok (if_pos (hlen rfl))
  | v2Sync => exact congrArg Except.ok (if_pos (hlen rfl))
  | v3Swap =>
    have hnone : decodeV3Swap log = none := by rw [decodeV3Swap, if_pos (hlen rfl), ite_self]
    rw [Handler.edits, hnone]
    rfl
  | v3MintBurn =>
    rw [Handler.edits, decodeV3MintBurn_of_not_shaped hs]
    rfl
  | curveSwap =>
    have hnone : decodeCurveSwap log = none := by rw [decodeCurveSwap, if_pos (hlen rfl), ite_self]
    rw [Handler.edits, hnone]
    rfl
  | balancerSwap =>
    rw [Handler.edits, decodeBalancerSwap_of_not_shaped hs]
    rfl
  | lbSwap =>
    have hnone : decodeLbSwap log = none := by rw [decodeLbSwap, if_pos (hlen rfl), ite_self]
    rw [Handler.edits, hnone]
    rfl
  | pendleSwap =>
    have hshort : log.topics.length < 3 ∨ log.data.length < 64 := by
      have hs' : ¬(3 ≤ log.topics.length ∧ 64 ≤ log.data.length) := hs
      omega
    have hnone : decodePendleSwap log = .ok none := by
      rw [decodePendleSwap, if_pos hshort, ite_self]
    rw [Handler.edits, hnone]
    rfl
  | fluidSwap =>
    have hnone : decodeFluidSwap log = none := by rw [decodeFluidSwap, if_pos (hlen rfl), ite_self]
    rw [Handler.edits, hnone]
    rfl
  | metricSwap =>
    have hnone : decodeMetricSwap log = none := by
      rw [decodeMetricSwap, if_pos (hlen rfl), ite_self]
    rw [Handler.edits, hnone]
    rfl

/-- A log that edits its pool, and is long enough to be read, keeps the values of its words. -/
def ReadsRight (pm : PoolManager) (log : ExecutedLog) : Prop :=
  ∀ h p, logHandler log = some h → log.address ∈ pm.knownSet →
    pm.pools[log.address]? = some p → h.editsVariant p = true → h.Shaped log → h.WordsFit log

/-- A log that cannot be represented leaves its emitter alone, where it reads right. -/
theorem logEffect_of_not_representable {p p' : PoolState} {log : ExecutedLog}
    (hC : ∀ h, logHandler log = some h → h.editsVariant p = true → h.Shaped log → h.WordsFit log)
    (hr : ¬Representable log) (he : logEffect p log = .ok p') : p' = p := by
  cases hh : logHandler log with
  | none =>
    rw [PoolManager.logEffect_of_no_handler hh] at he
    exact (Except.ok.inj he).symm
  | some h =>
    by_cases hedits : h.editsVariant p = true
    · have hs : ¬h.Shaped log := fun hs => hr ⟨h, hh, hs, hC h hh hedits hs⟩
      rw [PoolManager.logEffect_of_handler hh, edits_of_not_shaped hh hs] at he
      exact (Except.ok.inj he).symm
    · exact PoolManager.logEffect_of_not_edits hh (Bool.eq_false_iff.mpr hedits) he

/-- A log that cannot be represented leaves all pools alone, where it reads right. -/
theorem pools_eq_of_not_representable {pm pm' : PoolManager} {log : ExecutedLog}
    (h : pm.processLog log = .ok pm') (hC : ReadsRight pm log) (hr : ¬Representable log) :
    pm'.pools = pm.pools := by
  rcases PoolManager.processLog_cases h with ⟨-, rfl⟩ | ⟨-, -, -, rfl⟩ | ⟨-, hk, p, -, hp, -, -⟩
  · rfl
  · rfl
  · apply Std.ExtTreeMap.ext_getElem?
    intro a
    by_cases ha : log.address = a
    · subst ha
      obtain ⟨p', heffect, hp'⟩ := PoolManager.processLog_pool h hk hp
      have heq := logEffect_of_not_representable (fun h hh => hC h p hh hk hp) hr heffect
      rw [hp', hp, heq]
    · exact PoolManager.processLog_pool_of_ne h ha

/-! ## Runs -/

/-- The condition on a log and the state before it: of a known and tracked emitter, a Pendle
    swap fits, and so does, where checks are on, a Mint or Burn. -/
def StepFits (checks : Bool) (pm : PoolManager) (log : ExecutedLog) : Prop :=
  (checks = true → MintBurnLogFits pm log) ∧
    (log.address ∈ pm.knownSet → log.address ∈ pm.pools → PendleLogFits log)

/-- The condition on the logs of a transaction: a Pendle swap of a tracked emitter fits, and so
    do, where checks are on, the sums of the transfers. -/
def LearnFits (checks : Bool) (pm : PoolManager) (logs : List ExecutedLog) : Prop :=
  (checks = true → pm.TransfersFit logs) ∧
    ∀ log ∈ logs, log.address ∈ pm.pools → PendleLogFits log

theorem processLogIn_ok_iff (checks : Bool) (pm : PoolManager) (log : ExecutedLog) :
    (∃ pm', pm.processLogIn checks log = .ok pm') ↔ StepFits checks pm log := by
  rw [(pm.guarded_processLogIn checks log).exists_ok_iff, StepFits]
  refine and_congr_right' ?_
  rw [← PoolManager.updateFromLogs_singleton, PoolManager.updateFromLogs_ok_iff,
    List.forall_mem_singleton, decodePendleSwap_ok_iff]

theorem updateFromLogsIn_ok_iff (checks : Bool) (pm : PoolManager) (logs : List ExecutedLog) :
    (∃ pm', pm.updateFromLogsIn checks logs = .ok pm') ↔
      Meets (PoolManager.processLogIn checks) (StepFits checks) pm logs :=
  foldlM_ok_iff.trans (Meets.congr (processLogIn_ok_iff checks))

theorem learnTaxesIn_ok_iff (checks : Bool) (rt : TaxRuntime) (pm : PoolManager)
    (logs : List ExecutedLog) :
    (∃ pm', pm.learnTaxesIn checks rt logs = .ok pm') ↔ LearnFits checks pm logs := by
  rw [(pm.guarded_learnTaxesIn checks rt logs).exists_ok_iff, LearnFits,
    PoolManager.learnTaxesFromTx_ok_iff]
  refine and_congr_right' (forall₂_congr fun log _ => imp_congr_right fun _ => ?_)
  exact decodePendleSwap_ok_iff

/-- **Main theorem.** With overflow checks or without, `update_from_logs` and
    `learn_taxes_from_tx` return exactly when the amounts fit; and in every state that a run
    of logs that read right reaches, a log that cannot be represented leaves all pools alone. -/
theorem logs_return_iff (checks : Bool) (rt : TaxRuntime) (pm : PoolManager)
    (logs : List ExecutedLog) :
    ((∃ pm', pm.updateFromLogsIn checks logs = .ok pm') ↔
      Meets (PoolManager.processLogIn checks) (StepFits checks) pm logs) ∧
    ((∃ pm', pm.learnTaxesIn checks rt logs = .ok pm') ↔ LearnFits checks pm logs) ∧
    (Meets (PoolManager.processLogIn checks) ReadsRight pm logs →
      ∀ pre log q q', pre ++ [log] <+: logs → pm.updateFromLogsIn checks pre = .ok q →
        q.processLogIn checks log = .ok q' → ¬Representable log → q'.pools = q.pools) := by
  refine ⟨updateFromLogsIn_ok_iff checks pm logs, learnTaxesIn_ok_iff checks rt pm logs, ?_⟩
  intro hreads pre log q q' hpre hq hq' hr
  have hstep := ((q.guarded_processLogIn checks log q').mp hq').2
  exact pools_eq_of_not_representable hstep (hreads.of_reached hpre hq) hr

/-! ## Logs that do not fit -/

/-- A manager of a V2 pool, a V3 pool and a Pendle pool. -/
def threePools : PoolManager :=
  ((exampleManager 1000).addPool (.uniswapV2
    { info := { address := 5, token0 := 2, token1 := 3, fee := 30, dexType := .uniswapV2 }
      reserve0 := 1000
      reserve1 := 2000 })).addPool (.pendle
    { info := { address := 6, token0 := 2, token1 := 3, dexType := .pendle }
      ptAddress := 2
      syAddress := 3
      totalPt := 1000
      totalSy := 1000 })

/-- The log of a Pendle swap that pays out `2 ^ 128` PT for 1 SY. -/
def widePendleLog : ExecutedLog :=
  { address := 6, topics := [pendleMarketSwapTopic, 0, 0], data := encodeWords [2 ^ 128, 1] }

/-- The log of a Burn of `2 ^ 127` over `[-60, 60)`. -/
def leastBurnLog : ExecutedLog :=
  { address := 1
    topics := [v3BurnTopic, 9, BitVec.ofInt 256 (-60), BitVec.ofInt 256 60]
    data := encodeWords [2 ^ 127, 0, 0] }

/-- The log of a transfer of `2 ^ 127` of token 2 to the pool at address 5. -/
def wideTransferLog : ExecutedLog :=
  { address := 2, topics := [transferTopic, 9, 5], data := encodeWords [2 ^ 127] }

/-- The log of a Sync to the reserves `2 ^ 128 + 5` and 7. -/
def wideSyncLog : ExecutedLog :=
  { address := 5, topics := [v2SyncTopic], data := encodeWords [2 ^ 128 + 5, 7] }

/-- The Pendle swap stops both functions in every build; the Burn and a second transfer stop
    a build with checks; and the Sync, which cannot be represented, leaves the pool with the
    reserves 5 and 7. -/
theorem wide_logs_panic :
    (∀ checks,
      (threePools.updateFromLogsIn checks [widePendleLog]).map (fun _ => ()) =
        .error .conversion ∧
      (threePools.learnTaxesIn checks percentRuntime [widePendleLog]).map (fun _ => ()) =
        .error .conversion) ∧
    (threePools.updateFromLogsIn true [leastBurnLog]).map (fun _ => ()) = .error .overflow ∧
    (threePools.learnTaxesIn true percentRuntime [wideTransferLog, wideTransferLog]).map
      (fun _ => ()) = .error .overflow ∧
    ¬Representable wideSyncLog ∧
    ∀ checks, (threePools.updateFromLogsIn checks [wideSyncLog]).map (·.pools[(5 : Address)]?) =
      .ok (some (.uniswapV2
        { info := { address := 5, token0 := 2, token1 := 3, fee := 30, dexType := .uniswapV2 }
          reserve0 := 5
          reserve1 := 7 })) := by
  refine ⟨by decide +kernel, by decide +kernel, by decide +kernel, ?_, by decide +kernel⟩
  rintro ⟨h, hh, -, hw⟩
  have hsync : logHandler wideSyncLog = some .v2Sync := by decide
  obtain rfl := Option.some.inj (hsync.symm.trans hh)
  have hwide : ¬wordAt wideSyncLog 0 < 2 ^ 128 := by decide +kernel
  exact hwide (hw 0 (by decide))

end MevScout.Pool
