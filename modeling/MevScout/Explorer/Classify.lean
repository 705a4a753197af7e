import MevScout.Explorer.Arb
import MevScout.Explorer.Causal
import MevScout.Explorer.Exact
import MevScout.Explorer.Sandwich

/-!
# Classification of a block

Models of `classify_block` (`core/src/explorer/classify/mod.rs`) and of `TxClaims`
(`core/src/explorer/classify/claims.rs`). The passes emit more than they should; a table of
claims keeps one kind for each transaction, also for the back-runs of the sandwiches and the
closes of the frontruns, which anchor no event of their own.

Results:
* `winner_sandwich`, `winner_frontrun`: a sandwich wins every transaction that it claims, and a
  frontrun wins its own;
* `classifyBlock_oneKind`: the surviving events of a transaction are of one kind, and every
  transaction with an event is covered by a surviving one.
-/

namespace MevScout.Explorer

open Claims

/-! ## Claims -/

/-- Model of `kind_precedence` (`mod.rs`, lines 380–392). -/
def kindPrecedence : MevKind → ℕ
  | .sandwich => 0
  | .frontrun => 1
  | .backrun => 2
  | .jitArb => 3
  | .liquidation => 4
  | .jit => 5
  | .skim => 6
  | .arbAtomic => 7
  | .utility => 8

/-- Model of `TxClaims` (`claims.rs`, lines 13–37), whose `claim` is the one of the table. -/
abbrev TxClaims := Std.ExtTreeMap ℕ MevKind compare

/-- Model of `TxClaims::winner` (`claims.rs`, lines 30–32). -/
def TxClaims.winner (claims : TxClaims) (txIndex : ℕ) : Option MevKind := claims[txIndex]?

/-! ## The passes -/

/-- The transactions that an event stands at or closes on, as `classify_block` collects them for
    the sandwiches (`mod.rs`, lines 292–298). -/
def consumedBy (sandwiches : List MevEvent) : Finset ℕ :=
  (sandwiches.flatMap fun s => s.txIndex :: s.details.backrunTxIndex.toList).toFinset

/-- A just-in-time event whose transaction has an atomic arbitrage too (`mod.rs`, lines
    273–279). -/
def upgradeJit (arbTxs : List ℕ) (e : MevEvent) : MevEvent :=
  if e.txIndex ∈ arbTxs then { e with kind := .jitArb } else e

/-- The events of the exact passes, before the upgrade. -/
def exactEvents (input : BlockInput) : List MevEvent :=
  classifyLiquidations input ++ classifySkims input ++ classifyArbs input

/-- The transactions of the atomic arbitrages. -/
def arbTxs (input : BlockInput) : List ℕ :=
  ((exactEvents input).filter (·.kind = .arbAtomic)).map (·.txIndex)

/-- The events after the upgrade (`mod.rs`, lines 267–283): the arbitrages that are part of a
    just-in-time event are dropped. -/
def upgradedEvents (input : BlockInput) : List MevEvent :=
  let jitArbTxs := ((classifyJit input).filter (·.txIndex ∈ arbTxs input)).map (·.txIndex)
  ((exactEvents input).filter fun e => ¬(e.kind = .arbAtomic ∧ e.txIndex ∈ jitArbTxs)) ++
    (classifyJit input).map (upgradeJit (arbTxs input))

/-- The frontruns of a block. -/
def blockFrontruns (input : BlockInput) : List MevEvent :=
  classifyFrontruns input (consumedBy (classifySandwiches input))

/-- The backruns of a block. -/
def blockBackruns (input : BlockInput) : List MevEvent :=
  classifyBackruns input (consumedBy (classifySandwiches input) ∪
    ((blockFrontruns input).map (·.txIndex)).toFinset)

/-- All events before the claims are settled. -/
def allEvents (input : BlockInput) : List MevEvent :=
  upgradedEvents input ++ blockFrontruns input ++ blockBackruns input ++ classifySandwiches input

/-- The claims of `classify_block` in their order (`mod.rs`, lines 310–328). -/
def blockClaims (input : BlockInput) : List (ℕ × MevKind) :=
  (allEvents input).map (fun e => (e.txIndex, e.kind)) ++
    (classifySandwiches input).filterMap (fun s =>
      s.details.backrunTxIndex.map fun b => (b, .sandwich)) ++
    (blockFrontruns input).filterMap fun e => e.details.closeTxIndex.map fun c => (c, .frontrun)

/-- The table of the claims. -/
def txClaims (input : BlockInput) : TxClaims := claimAll kindPrecedence ∅ (blockClaims input)

/-- Model of `normalize_confidence` (`mod.rs`, lines 350–370). -/
def normalizeConfidence (e : MevEvent) : MevEvent :=
  if e.confidence ≠ .exact then e
  else
    let basisExact := e.details.pnlBasis = some .r
    let reconciled := !e.details.transferMismatch
    let hasPnl := e.profitAmount.any (· ≠ 0) || e.profitTokens ≠ []
    if basisExact ∧ reconciled ∧ hasPnl then e else { e with confidence := .inferred }

/-- The order of the events: by transaction, then by precedence. -/
def eventLe (a b : MevEvent) : Prop :=
  a.txIndex < b.txIndex ∨ a.txIndex = b.txIndex ∧ kindPrecedence a.kind ≤ kindPrecedence b.kind

instance instDecidableEventLe : DecidableRel eventLe := fun _ _ =>
  inferInstanceAs (Decidable (_ ∨ _))

/-- Model of `classify_block` (`mod.rs`, lines 195–342), its events. -/
def classifyBlock (input : BlockInput) : List MevEvent :=
  (((allEvents input).filter fun e =>
    (txClaims input).winner e.txIndex = some e.kind).insertionSort eventLe).map normalizeConfidence

/-- The events of all passes as they emit them. -/
def emittedEvents (input : BlockInput) : List MevEvent :=
  exactEvents input ++ classifyJit input ++ blockFrontruns input ++ blockBackruns input ++
    classifySandwiches input

/-- An event covers its own transaction, and its back-run or its close. -/
def Covers (e : MevEvent) (txIndex : ℕ) : Prop :=
  e.txIndex = txIndex ∨ (e.kind = .sandwich ∧ e.details.backrunTxIndex = some txIndex) ∨
    (e.kind = .frontrun ∧ e.details.closeTxIndex = some txIndex)

/-! ## The kinds of the passes -/

variable {input : BlockInput} {e : MevEvent} {t : ℕ} {k : MevKind}

theorem kindPrecedence_injective : Function.Injective kindPrecedence := by
  intro a b h
  cases a <;> cases b <;> first | rfl | cases h

theorem exactEvents_kind (he : e ∈ exactEvents input) :
    e.kind ≠ .sandwich ∧ e.kind ≠ .frontrun ∧ e.kind ≠ .backrun := by
  rcases List.mem_append.mp he with he | he
  · rcases List.mem_append.mp he with he | he
    · rw [classifyLiquidations_kind he]
      decide
    · rw [classifySkims_kind he]
      decide
  · rcases classifyArbs_kind he with hkind | hkind <;> rw [hkind] <;> decide

theorem upgradeJit_txIndex (txs : List ℕ) (e : MevEvent) :
    (upgradeJit txs e).txIndex = e.txIndex := by
  unfold upgradeJit
  split_ifs <;> rfl

theorem upgradedEvents_kind (he : e ∈ upgradedEvents input) :
    e.kind ≠ .sandwich ∧ e.kind ≠ .frontrun ∧ e.kind ≠ .backrun := by
  rcases List.mem_append.mp he with he | he
  · exact exactEvents_kind (List.mem_filter.mp he).1
  · obtain ⟨j, hj, rfl⟩ := List.mem_map.mp he
    unfold upgradeJit
    split_ifs
    · exact ⟨by simp, by simp, by simp⟩
    · rw [classifyJit_kind hj]
      decide

theorem blockFrontruns_kind (he : e ∈ blockFrontruns input) : e.kind = .frontrun := by
  obtain ⟨pool, f, v, tx, profit, rfl, -⟩ := (classifyFrontruns_spec input _).1 e he
  rfl

theorem blockBackruns_kind (he : e ∈ blockBackruns input) : e.kind = .backrun := by
  obtain ⟨pool, b, a, tx, holder, token, amount, rfl, -⟩ := (classifyBackruns_spec input _).1 e he
  rfl

/-- Only the sandwich pass emits sandwiches. -/
theorem mem_sandwiches (he : e ∈ allEvents input) (hkind : e.kind = .sandwich) :
    e ∈ classifySandwiches input := by
  rcases List.mem_append.mp he with he | he
  · rcases List.mem_append.mp he with he | he
    · rcases List.mem_append.mp he with he | he
      · exact absurd hkind (upgradedEvents_kind he).1
      · exact absurd (hkind.symm.trans (blockFrontruns_kind he)) (by decide)
    · exact absurd (hkind.symm.trans (blockBackruns_kind he)) (by decide)
  · exact he

/-- Only the frontrun pass emits frontruns. -/
theorem mem_frontruns (he : e ∈ allEvents input) (hkind : e.kind = .frontrun) :
    e ∈ blockFrontruns input := by
  rcases List.mem_append.mp he with he | he
  · rcases List.mem_append.mp he with he | he
    · rcases List.mem_append.mp he with he | he
      · exact absurd hkind (upgradedEvents_kind he).2.1
      · exact he
    · exact absurd (hkind.symm.trans (blockBackruns_kind he)) (by decide)
  · exact absurd (hkind.symm.trans (classifySandwiches_spec he).1) (by decide)

/-! ## The claims -/

theorem mem_blockClaims : (t, k) ∈ blockClaims input ↔
    (∃ e ∈ allEvents input, e.txIndex = t ∧ e.kind = k) ∨
      (∃ s ∈ classifySandwiches input, s.details.backrunTxIndex = some t ∧ k = .sandwich) ∨
      ∃ f ∈ blockFrontruns input, f.details.closeTxIndex = some t ∧ k = .frontrun := by
  unfold blockClaims
  rw [List.mem_append, List.mem_append, or_assoc, List.mem_map, List.mem_filterMap,
    List.mem_filterMap]
  refine or_congr ?_ (or_congr ?_ ?_)
  · simp only [Prod.mk.injEq]
  · refine exists_congr fun s => and_congr_right fun _ => ?_
    rw [Option.map_eq_some_iff]
    constructor
    · rintro ⟨b, hb, heq⟩
      obtain ⟨rfl, rfl⟩ := Prod.mk.inj heq
      exact ⟨hb, rfl⟩
    · rintro ⟨hb, rfl⟩
      exact ⟨t, hb, rfl⟩
  · refine exists_congr fun f => and_congr_right fun _ => ?_
    rw [Option.map_eq_some_iff]
    constructor
    · rintro ⟨c, hc, heq⟩
      obtain ⟨rfl, rfl⟩ := Prod.mk.inj heq
      exact ⟨hc, rfl⟩
    · rintro ⟨hc, rfl⟩
      exact ⟨t, hc, rfl⟩

/-- The winner of a transaction is one of its claims, of the lowest rank. -/
theorem winner_spec (h : (txClaims input).winner t = some k) :
    (t, k) ∈ blockClaims input ∧
      ∀ k', (t, k') ∈ blockClaims input → kindPrecedence k ≤ kindPrecedence k' := by
  obtain ⟨hfrom, -, hmin⟩ := getElem?_claimAll h
  rcases hfrom with hfrom | hfrom
  · rw [Std.ExtTreeMap.getElem?_empty] at hfrom
    cases hfrom
  · exact ⟨hfrom, hmin⟩

/-- A claimed transaction has a winner. -/
theorem exists_winner (h : (t, k) ∈ blockClaims input) :
    ∃ k', (txClaims input).winner t = some k' :=
  Option.isSome_iff_exists.mp (claimAll_isSome (.inr ⟨k, h⟩))

/-- A sandwich wins every transaction that it claims. -/
theorem winner_sandwich (h : (t, .sandwich) ∈ blockClaims input) :
    (txClaims input).winner t = some .sandwich := by
  obtain ⟨k, hk⟩ := exists_winner h
  have hle := (winner_spec hk).2 _ h
  have hzero : kindPrecedence k = kindPrecedence .sandwich := Nat.le_zero.mp hle
  rw [hk, kindPrecedence_injective hzero]

/-- A sandwich claims consumed transactions only. -/
theorem mem_consumedBy (h : (t, .sandwich) ∈ blockClaims input) :
    t ∈ consumedBy (classifySandwiches input) := by
  unfold consumedBy
  rw [List.mem_toFinset, List.mem_flatMap]
  rcases mem_blockClaims.mp h with ⟨e, he, rfl, hkind⟩ | ⟨s, hs, hback, -⟩ | ⟨f, -, -, hkind⟩
  · exact ⟨e, mem_sandwiches he hkind, List.mem_cons_self ..⟩
  · refine ⟨s, hs, List.mem_cons_of_mem _ ?_⟩
    rw [hback]
    exact List.mem_singleton_self t
  · cases hkind

/-- A frontrun wins its own transaction, which no sandwich consumes. -/
theorem winner_frontrun (he : e ∈ blockFrontruns input) :
    (txClaims input).winner e.txIndex = some .frontrun := by
  have hall : e ∈ allEvents input :=
    List.mem_append_left _ (List.mem_append_left _ (List.mem_append_right _ he))
  have hclaim : (e.txIndex, .frontrun) ∈ blockClaims input :=
    mem_blockClaims.mpr (.inl ⟨e, hall, rfl, blockFrontruns_kind he⟩)
  obtain ⟨k, hk⟩ := exists_winner hclaim
  obtain ⟨hfrom, hmin⟩ := winner_spec hk
  have hle : kindPrecedence k ≤ 1 := hmin _ hclaim
  have hne : kindPrecedence k ≠ 0 := by
    intro hzero
    obtain rfl : k = .sandwich := kindPrecedence_injective hzero
    obtain ⟨pool, f, v, tx, profit, rfl, hcons, -⟩ := (classifyFrontruns_spec input _).1 e he
    exact hcons (mem_consumedBy hfrom)
  have hone : kindPrecedence k = kindPrecedence .frontrun := by
    show kindPrecedence k = 1
    omega
  rw [hk, kindPrecedence_injective hone]

/-! ## The surviving events -/

theorem normalizeConfidence_eq (e : MevEvent) :
    ∃ c, normalizeConfidence e = { e with confidence := c } := by
  unfold normalizeConfidence
  split_ifs
  · exact ⟨e.confidence, rfl⟩
  · dsimp only
    split_ifs
    · exact ⟨e.confidence, rfl⟩
    · exact ⟨_, rfl⟩

/-- An event survives when its kind wins its transaction; only its confidence may change. -/
theorem mem_classifyBlock : e ∈ classifyBlock input ↔
    ∃ e₀ ∈ allEvents input, (txClaims input).winner e₀.txIndex = some e₀.kind ∧
      normalizeConfidence e₀ = e := by
  unfold classifyBlock
  rw [List.mem_map]
  refine exists_congr fun e₀ => ?_
  rw [List.mem_insertionSort, List.mem_filter, decide_eq_true_iff, and_assoc]

theorem kind_of_mem (he : e ∈ classifyBlock input) :
    (txClaims input).winner e.txIndex = some e.kind := by
  obtain ⟨e₀, -, hwin, rfl⟩ := mem_classifyBlock.mp he
  obtain ⟨c, hc⟩ := normalizeConfidence_eq e₀
  rw [hc]
  exact hwin

/-- A surviving event comes from a pass with its kind and its other transactions. -/
theorem exists_of_mem (he : e ∈ classifyBlock input) :
    ∃ e₀ ∈ allEvents input, e₀.kind = e.kind ∧ e₀.details = e.details := by
  obtain ⟨e₀, hall, -, rfl⟩ := mem_classifyBlock.mp he
  obtain ⟨c, hc⟩ := normalizeConfidence_eq e₀
  rw [hc]
  exact ⟨e₀, hall, rfl, rfl⟩

/-- An event whose kind wins covers its transactions also afterwards. -/
theorem exists_covers (hall : e ∈ allEvents input)
    (hwin : (txClaims input).winner e.txIndex = some e.kind) (hcov : Covers e t) :
    ∃ e' ∈ classifyBlock input, Covers e' t := by
  refine ⟨normalizeConfidence e, mem_classifyBlock.mpr ⟨e, hall, hwin, rfl⟩, ?_⟩
  obtain ⟨c, hc⟩ := normalizeConfidence_eq e
  rw [hc]
  exact hcov

/-- A claimed transaction is covered by a surviving event. -/
theorem covered_of_claim (h : (t, k) ∈ blockClaims input) :
    ∃ e ∈ classifyBlock input, Covers e t := by
  obtain ⟨w, hw⟩ := exists_winner h
  rcases mem_blockClaims.mp (winner_spec hw).1 with
    ⟨e, he, rfl, rfl⟩ | ⟨s, hs, hback, rfl⟩ | ⟨f, hf, hclose, rfl⟩
  · exact exists_covers he hw (.inl rfl)
  · -- the claim of a back-run: the sandwich survives at its front-run
    have hall : s ∈ allEvents input := List.mem_append_right _ hs
    have hkind := (classifySandwiches_spec hs).1
    refine exists_covers hall ?_ (.inr (.inl ⟨hkind, hback⟩))
    rw [hkind]
    exact winner_sandwich (mem_blockClaims.mpr (.inl ⟨s, hall, rfl, hkind⟩))
  · -- the claim of a close: the frontrun survives at its own transaction
    have hall : f ∈ allEvents input :=
      List.mem_append_left _ (List.mem_append_left _ (List.mem_append_right _ hf))
    have hkind := blockFrontruns_kind hf
    refine exists_covers hall ?_ (.inr (.inr ⟨hkind, hclose⟩))
    rw [hkind]
    exact winner_frontrun hf

/-- Where a pass emits an event, its transaction is claimed: an arbitrage that the upgrade drops
    leaves the just-in-time event of its transaction. -/
theorem claim_of_emitted (he : e ∈ emittedEvents input) :
    ∃ k, (e.txIndex, k) ∈ blockClaims input := by
  have hclaim : ∀ e' ∈ allEvents input, e'.txIndex = e.txIndex →
      ∃ k, (e.txIndex, k) ∈ blockClaims input := fun e' he' htx =>
    ⟨e'.kind, mem_blockClaims.mpr (.inl ⟨e', he', htx, rfl⟩)⟩
  have hupgraded : ∀ e' ∈ upgradedEvents input, e' ∈ allEvents input := fun e' he' =>
    List.mem_append_left _ (List.mem_append_left _ (List.mem_append_left _ he'))
  have hjit : ∀ j ∈ classifyJit input, j.txIndex = e.txIndex →
      ∃ k, (e.txIndex, k) ∈ blockClaims input := fun j hj htx =>
    hclaim _ (hupgraded _ (List.mem_append_right _ (List.mem_map_of_mem hj)))
      ((upgradeJit_txIndex _ j).trans htx)
  rcases List.mem_append.mp he with he | he
  · rcases List.mem_append.mp he with he | he
    · rcases List.mem_append.mp he with he | he
      · rcases List.mem_append.mp he with he | he
        · by_cases hdropped : e.kind = .arbAtomic ∧ e.txIndex ∈
              ((classifyJit input).filter (·.txIndex ∈ arbTxs input)).map (·.txIndex)
          · obtain ⟨j, hj, htx⟩ := List.mem_map.mp hdropped.2
            exact hjit j (List.mem_filter.mp hj).1 htx
          · refine hclaim e (hupgraded e (List.mem_append_left _ ?_)) rfl
            exact List.mem_filter.mpr ⟨he, decide_eq_true hdropped⟩
        · exact hjit e he rfl
      · exact hclaim e (List.mem_append_left _ (List.mem_append_left _
          (List.mem_append_right _ he))) rfl
    · exact hclaim e (List.mem_append_left _ (List.mem_append_right _ he)) rfl
  · exact hclaim e (List.mem_append_right _ he) rfl

/-- **Main theorem.** One kind survives for each transaction, also where a sandwich closes; where
    a frontrun closes nothing weaker survives; and every transaction with an event of a pass is
    covered by a surviving one. -/
theorem classifyBlock_oneKind (input : BlockInput) :
    (∀ e ∈ classifyBlock input, ∀ e' ∈ classifyBlock input, e.txIndex = e'.txIndex →
      e.kind = e'.kind) ∧
    (∀ s ∈ classifyBlock input, s.kind = .sandwich →
      ∃ b, s.details.backrunTxIndex = some b ∧
        ∀ e ∈ classifyBlock input, e.txIndex = b → e.kind = .sandwich) ∧
    (∀ f ∈ classifyBlock input, f.kind = .frontrun →
      ∃ c, f.details.closeTxIndex = some c ∧
        ∀ e ∈ classifyBlock input, e.txIndex = c →
          kindPrecedence e.kind ≤ kindPrecedence .frontrun) ∧
    ∀ e ∈ emittedEvents input, ∃ e' ∈ classifyBlock input, Covers e' e.txIndex := by
  refine ⟨fun e he e' he' htx => ?_, fun s hs hkind => ?_, fun f hf hkind => ?_, fun e he => ?_⟩
  · have hwin := kind_of_mem he
    rw [htx, kind_of_mem he'] at hwin
    exact (Option.some_inj.mp hwin).symm
  · obtain ⟨s₀, hall, hkind₀, hdetails⟩ := exists_of_mem hs
    have hmem := mem_sandwiches hall (hkind₀.trans hkind)
    obtain ⟨-, b, hback⟩ := classifySandwiches_spec hmem
    refine ⟨b, hdetails ▸ hback, fun e he htx => ?_⟩
    have hwin := kind_of_mem he
    rw [htx, winner_sandwich (mem_blockClaims.mpr (.inr (.inl ⟨s₀, hmem, hback, rfl⟩)))] at hwin
    exact (Option.some_inj.mp hwin).symm
  · obtain ⟨f₀, hall, hkind₀, hdetails⟩ := exists_of_mem hf
    have hmem := mem_frontruns hall (hkind₀.trans hkind)
    obtain ⟨pool, g, v, tx, profit, rfl, -⟩ := (classifyFrontruns_spec input _).1 f₀ hmem
    refine ⟨tx.txIndex, hdetails ▸ rfl, fun e he htx => ?_⟩
    have hwin := kind_of_mem he
    rw [htx] at hwin
    exact (winner_spec hwin).2 _ (mem_blockClaims.mpr (.inr (.inr ⟨_, hmem, rfl, rfl⟩)))
  · obtain ⟨k, hclaim⟩ := claim_of_emitted he
    exact covered_of_claim hclaim

end MevScout.Explorer
