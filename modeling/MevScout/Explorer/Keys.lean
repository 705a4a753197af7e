import MevScout.Explorer.Ops

/-!
# The keys of a block

The keys that the events of one block go out with, transaction by transaction, and where they are
different.

Results:
* `separated_iff`: the events of one transaction have different keys;
* `upgraded_keys`: the keys of the events that go out without a hash;
* `stampedKeys_nodup_iff`: the events of one block that have a hash have different keys.
-/

namespace MevScout.Explorer

open Distinct

section

variable {input : BlockInput} {tx : TxInput} {k : MevKind} {t : ℕ}

/-! ## The events of a transaction -/

/-- The events whose kinds win their transactions. -/
def winners (input : BlockInput) : List MevEvent :=
  (allEvents input).filter fun e => (txClaims input).winner e.txIndex = some e.kind

/-- The keys that they go out with. -/
def stampedKeys (input : BlockInput) : List OpKey := (winners input).map (stampedKey input)

theorem survivingEvents_keys_perm (input : BlockInput) :
    ((survivingEvents input).map opKey).Perm (stampedKeys input) := by
  unfold survivingEvents classifyBlock stampedKeys winners
  rw [List.map_map, List.map_map]
  have hkey : (opKey ∘ stampJitTxHash (jitHashes input.txs)) ∘ normalizeConfidence =
      stampedKey input := funext fun e => stampedKey_normalize input e
  rw [hkey]
  exact (List.perm_insertionSort eventLe _).map _

/-- The events of one kind at one transaction. -/
def eventsAt (input : BlockInput) (t : ℕ) (k : MevKind) : List MevEvent :=
  (allEvents input).filter fun e => e.txIndex = t ∧ e.kind = k

theorem mem_eventsAt {e : MevEvent} (he : e ∈ eventsAt input t k) :
    e ∈ allEvents input ∧ e.txIndex = t ∧ e.kind = k :=
  ⟨(List.mem_filter.mp he).1, of_decide_eq_true (List.mem_filter.mp he).2⟩

/-- The winners with the hash of a transaction are its events of the kind that wins it. -/
theorem winners_at (hw : WellFormed input) (htx : tx ∈ input.txs) :
    (winners input).filter (fun e => (stampedKey input e).txHash = tx.txHash) =
      match (txClaims input).winner tx.txIndex with
      | some .jitArb => []
      | some k => eventsAt input tx.txIndex k
      | none => [] := by
  unfold winners eventsAt
  rw [List.filter_filter]
  have hcond : ∀ e ∈ allEvents input, ((stampedKey input e).txHash = tx.txHash ∧
      (txClaims input).winner e.txIndex = some e.kind) ↔
      e.txIndex = tx.txIndex ∧ e.kind ≠ .jitArb ∧
        (txClaims input).winner tx.txIndex = some e.kind := by
    intro e he
    rw [stamped_eq_iff hw he htx]
    constructor
    · rintro ⟨⟨hindex, hkind⟩, hwin⟩
      exact ⟨hindex, hkind, hindex ▸ hwin⟩
    · rintro ⟨hindex, hkind, hwin⟩
      exact ⟨⟨hindex, hkind⟩, hindex ▸ hwin⟩
  split
  · next hwin =>
    refine List.filter_eq_nil_iff.mpr fun e he h => ?_
    obtain ⟨-, hkind, hwin'⟩ := (hcond e he).mp (by simpa using h)
    rw [hwin] at hwin'
    exact hkind (Option.some.inj hwin').symm
  · next k hk hwin =>
    refine List.filter_congr fun e he => ?_
    rw [← Bool.decide_and, decide_eq_decide, hcond e he, hwin]
    constructor
    · rintro ⟨hindex, -, hkind⟩
      exact ⟨hindex, (Option.some.inj hkind).symm⟩
    · rintro ⟨hindex, rfl⟩
      exact ⟨hindex, fun h => hk h, rfl⟩
  · next hwin =>
    refine List.filter_eq_nil_iff.mpr fun e he h => ?_
    obtain ⟨-, -, hwin'⟩ := (hcond e he).mp (by simpa using h)
    rw [hwin] at hwin'
    cases hwin'

/-! ## The passes of the kinds -/

theorem filter_kind_nil {l : List MevEvent} (h : ∀ e ∈ l, e.kind ≠ k) :
    l.filter (fun e => e.txIndex = t ∧ e.kind = k) = [] :=
  List.filter_eq_nil_iff.mpr fun e he hp => h e he (of_decide_eq_true hp).2

theorem filter_kind_all {l : List MevEvent} (h : ∀ e ∈ l, e.kind = k) :
    l.filter (fun e => e.txIndex = t ∧ e.kind = k) = l.filter (·.txIndex = t) :=
  List.filter_congr fun e he => by simp [h e he]

theorem blockFrontruns_ne (hk : k ≠ .frontrun) : ∀ e ∈ blockFrontruns input, e.kind ≠ k :=
  fun _ he h => hk (h.symm.trans (blockFrontruns_kind he))

theorem blockBackruns_ne (hk : k ≠ .backrun) : ∀ e ∈ blockBackruns input, e.kind ≠ k :=
  fun _ he h => hk (h.symm.trans (blockBackruns_kind he))

theorem classifySandwiches_ne (hk : k ≠ .sandwich) : ∀ e ∈ classifySandwiches input, e.kind ≠ k :=
  fun _ he h => hk (h.symm.trans (classifySandwiches_spec he).1)

theorem upgradedEvents_ne (hk : k = .sandwich ∨ k = .frontrun ∨ k = .backrun) :
    ∀ e ∈ upgradedEvents input, e.kind ≠ k := by
  intro e he h
  obtain ⟨h1, h2, h3⟩ := upgradedEvents_kind he
  rcases hk with rfl | rfl | rfl
  · exact h1 h
  · exact h2 h
  · exact h3 h

theorem eventsAt_sandwich :
    eventsAt input t .sandwich = (classifySandwiches input).filter (·.txIndex = t) := by
  unfold eventsAt allEvents
  rw [List.filter_append, List.filter_append, List.filter_append,
    filter_kind_nil (upgradedEvents_ne (.inl rfl)), filter_kind_nil (blockFrontruns_ne (by decide)),
    filter_kind_nil (blockBackruns_ne (by decide)),
    filter_kind_all fun e he => (classifySandwiches_spec he).1]
  rfl

theorem eventsAt_frontrun :
    eventsAt input t .frontrun = (blockFrontruns input).filter (·.txIndex = t) := by
  unfold eventsAt allEvents
  rw [List.filter_append, List.filter_append, List.filter_append,
    filter_kind_nil (upgradedEvents_ne (.inr (.inl rfl))),
    filter_kind_all fun e he => blockFrontruns_kind he,
    filter_kind_nil (blockBackruns_ne (by decide)),
    filter_kind_nil (classifySandwiches_ne (by decide)), List.append_nil, List.append_nil]
  rfl

theorem eventsAt_backrun :
    eventsAt input t .backrun = (blockBackruns input).filter (·.txIndex = t) := by
  unfold eventsAt allEvents
  rw [List.filter_append, List.filter_append, List.filter_append,
    filter_kind_nil (upgradedEvents_ne (.inr (.inr rfl))),
    filter_kind_nil (blockFrontruns_ne (by decide)),
    filter_kind_all fun e he => blockBackruns_kind he,
    filter_kind_nil (classifySandwiches_ne (by decide)), List.append_nil]
  rfl

/-- The kinds of the exact passes and of the positions. -/
theorem eventsAt_upgraded (h1 : k ≠ .sandwich) (h2 : k ≠ .frontrun) (h3 : k ≠ .backrun) :
    eventsAt input t k = (upgradedEvents input).filter fun e => e.txIndex = t ∧ e.kind = k := by
  unfold eventsAt allEvents
  rw [List.filter_append, List.filter_append, List.filter_append,
    filter_kind_nil (blockFrontruns_ne h2), filter_kind_nil (blockBackruns_ne h3),
    filter_kind_nil (classifySandwiches_ne h1), List.append_nil, List.append_nil, List.append_nil]

theorem upgradeJit_kind {txs : List ℕ} {e : MevEvent} (he : e.kind = .jit) :
    (upgradeJit txs e).kind = if e.txIndex ∈ txs then .jitArb else .jit := by
  unfold upgradeJit
  split_ifs
  · rfl
  · exact he

theorem exactEvents_ne (hk : k = .jit ∨ k = .jitArb) : ∀ e ∈ exactEvents input, e.kind ≠ k := by
  have hne : k ≠ .liquidation ∧ k ≠ .skim ∧ k ≠ .arbAtomic ∧ k ≠ .utility := by
    rcases hk with rfl | rfl <;> decide
  obtain ⟨hliquidation, hskim, harb, hutility⟩ := hne
  intro e he h
  rcases List.mem_append.mp he with he | he
  · rcases List.mem_append.mp he with he | he
    · exact hliquidation (h.symm.trans (classifyLiquidations_kind he))
    · exact hskim (h.symm.trans (classifySkims_kind he))
  · rcases classifyArbs_kind he with hkind | hkind
    · exact harb (h.symm.trans hkind)
    · exact hutility (h.symm.trans hkind)

/-- The kinds of the exact passes. -/
theorem eventsAt_exact (hk : k = .liquidation ∨ k = .skim ∨ k = .utility) :
    eventsAt input t k = (exactEvents input).filter fun e => e.txIndex = t ∧ e.kind = k := by
  have hne : k ≠ .jit ∧ k ≠ .jitArb ∧ k ≠ .arbAtomic ∧ k ≠ .sandwich ∧ k ≠ .frontrun ∧
      k ≠ .backrun := by
    rcases hk with rfl | rfl | rfl <;> decide
  obtain ⟨hjit, hjitArb, harb, h1, h2, h3⟩ := hne
  rw [eventsAt_upgraded h1 h2 h3]
  unfold upgradedEvents
  rw [List.filter_append, List.filter_filter, filter_kind_nil (k := k), List.append_nil]
  · refine List.filter_congr fun e _ => ?_
    rw [← Bool.decide_and, decide_eq_decide]
    refine ⟨fun h => h.1, fun h => ⟨h, fun hdropped => harb ?_⟩⟩
    exact h.2.symm.trans hdropped.1
  · intro e he
    obtain ⟨j, hj, rfl⟩ := List.mem_map.mp he
    rw [upgradeJit_kind (classifyJit_kind hj)]
    split_ifs
    · exact hjitArb.symm
    · exact hjit.symm

theorem eventsAt_liquidation :
    eventsAt input t .liquidation = (classifyLiquidations input).filter (·.txIndex = t) := by
  rw [eventsAt_exact (.inl rfl)]
  unfold exactEvents
  rw [List.filter_append, List.filter_append, filter_kind_all fun e he =>
    classifyLiquidations_kind he, filter_kind_nil, filter_kind_nil, List.append_nil,
    List.append_nil]
  · intro e he
    rcases classifyArbs_kind he with h | h <;> rw [h] <;> decide
  · intro e he
    rw [classifySkims_kind he]
    decide

theorem eventsAt_skim :
    eventsAt input t .skim = (classifySkims input).filter (·.txIndex = t) := by
  rw [eventsAt_exact (.inr (.inl rfl))]
  unfold exactEvents
  rw [List.filter_append, List.filter_append, filter_kind_nil, filter_kind_all fun e he =>
    classifySkims_kind he, filter_kind_nil, List.append_nil]
  · rfl
  · intro e he
    rcases classifyArbs_kind he with h | h <;> rw [h] <;> decide
  · intro e he
    rw [classifyLiquidations_kind he]
    decide

/-- The operational executions of a block. -/
def utilities (input : BlockInput) : List MevEvent :=
  classifyKeepers input ++ classifyClaimAndSell input (classifyAtomicArbs input) ++
    classifyBundlers input

theorem classifyKeepers_spec {e : MevEvent} (he : e ∈ classifyKeepers input) :
    e.kind = .utility ∧ e.pools = [] := by
  obtain ⟨tx, -, he⟩ := List.mem_flatMap.mp he
  obtain ⟨keeper, -, rfl⟩ := List.mem_map.mp he
  exact ⟨rfl, rfl⟩

theorem classifyBundlers_spec {e : MevEvent} (he : e ∈ classifyBundlers input) :
    e.kind = .utility ∧ e.pools = [] := by
  obtain ⟨tx, -, he⟩ := List.mem_flatMap.mp he
  obtain ⟨uo, -, rfl⟩ := List.mem_map.mp he
  exact ⟨rfl, rfl⟩

theorem utilities_kind {e : MevEvent} (he : e ∈ utilities input) : e.kind = .utility := by
  rcases List.mem_append.mp he with he | he
  · rcases List.mem_append.mp he with he | he
    · exact (classifyKeepers_spec he).1
    · exact classifyClaimAndSell_kind he
  · exact (classifyBundlers_spec he).1

theorem classifyArbs_eq (input : BlockInput) :
    classifyArbs input = classifyAtomicArbs input ++ utilities input := by
  unfold classifyArbs utilities
  simp only [List.append_assoc]

theorem eventsAt_utility :
    eventsAt input t .utility = (utilities input).filter (·.txIndex = t) := by
  rw [eventsAt_exact (.inr (.inr rfl))]
  unfold exactEvents
  rw [classifyArbs_eq, List.filter_append, List.filter_append, List.filter_append,
    filter_kind_nil, filter_kind_nil, filter_kind_nil, filter_kind_all fun e he =>
    utilities_kind he]
  · rfl
  · intro e he
    rw [classifyAtomicArbs_kind he]
    decide
  · intro e he
    rw [classifySkims_kind he]
    decide
  · intro e he
    rw [classifyLiquidations_kind he]
    decide

/-- Of the events of the exact passes, the arbitrages are those of their pass. -/
theorem exactEvents_filter_arb {p : MevEvent → Bool} (hp : ∀ e, p e → e.kind = .arbAtomic) :
    ((exactEvents input).filter p).Sublist (classifyAtomicArbs input) := by
  have hnil : ∀ l : List MevEvent, (∀ e ∈ l, e.kind ≠ .arbAtomic) → l.filter p = [] :=
    fun l h => List.filter_eq_nil_iff.mpr fun e he hpe => h e he (hp e hpe)
  unfold exactEvents
  rw [classifyArbs_eq, List.filter_append, List.filter_append, List.filter_append,
    hnil (classifyLiquidations input), hnil (classifySkims input), hnil (utilities input),
    List.append_nil, List.append_nil, List.nil_append]
  · exact List.filter_sublist
  · intro e he
    rw [utilities_kind he]
    decide
  · intro e he
    rw [classifySkims_kind he]
    decide
  · intro e he
    rw [classifyLiquidations_kind he]
    decide

theorem eventsAt_arb : (eventsAt input t .arbAtomic).Sublist (classifyAtomicArbs input) := by
  rw [eventsAt_upgraded (by decide) (by decide) (by decide)]
  unfold upgradedEvents
  rw [List.filter_append, filter_kind_nil (l := (classifyJit input).map _), List.append_nil,
    List.filter_filter]
  · exact exactEvents_filter_arb fun e h =>
      (of_decide_eq_true (Bool.and_eq_true_iff.mp h).1).2
  · intro e he
    obtain ⟨j, hj, rfl⟩ := List.mem_map.mp he
    rw [upgradeJit_kind (classifyJit_kind hj)]
    split_ifs <;> decide

/-- A position whose transaction has an arbitrage claims it as part of one. -/
theorem claim_of_upgraded {e : MevEvent} (he : e ∈ classifyJit input)
    (harb : e.txIndex ∈ arbTxs input) : (e.txIndex, .jitArb) ∈ blockClaims input := by
  refine mem_blockClaims.mpr (.inl ⟨upgradeJit (arbTxs input) e, ?_, ?_, ?_⟩)
  · exact List.mem_append_left _ (List.mem_append_left _ (List.mem_append_left _
      (List.mem_append_right _ (List.mem_map_of_mem he))))
  · exact upgradeJit_txIndex _ e
  · rw [upgradeJit_kind (classifyJit_kind he), if_pos harb]

/-- Where just-in-time liquidity wins a transaction, no position of it was upgraded. -/
theorem eventsAt_jit (hwin : (txClaims input).winner t = some .jit) :
    eventsAt input t .jit = (classifyJit input).filter (·.txIndex = t) := by
  have hplain : ∀ e ∈ classifyJit input, e.txIndex = t → e.txIndex ∉ arbTxs input := by
    intro e he hindex harb
    have hle := (winner_spec hwin).2 _ (hindex ▸ claim_of_upgraded he harb)
    exact absurd hle (by decide)
  rw [eventsAt_upgraded (by decide) (by decide) (by decide)]
  unfold upgradedEvents
  rw [List.filter_append, filter_kind_nil (l := (exactEvents input).filter _) fun e he =>
    exactEvents_ne (.inl rfl) e (List.mem_filter.mp he).1, List.nil_append, List.filter_map]
  · have hfilter : (classifyJit input).filter ((fun e : MevEvent => decide (e.txIndex = t ∧
        e.kind = .jit)) ∘ upgradeJit (arbTxs input)) =
        (classifyJit input).filter (·.txIndex = t) := by
      refine List.filter_congr fun e he => ?_
      show decide ((upgradeJit (arbTxs input) e).txIndex = t ∧
        (upgradeJit (arbTxs input) e).kind = .jit) = decide (e.txIndex = t)
      rw [decide_eq_decide, upgradeJit_txIndex, upgradeJit_kind (classifyJit_kind he)]
      exact ⟨fun h => h.1, fun h => ⟨h, if_neg (hplain e he h)⟩⟩
    rw [hfilter]
    refine (List.map_congr_left fun e he => ?_).trans (List.map_id _)
    obtain ⟨hmem, hindex⟩ := List.mem_filter.mp he
    exact if_neg (hplain e hmem (of_decide_eq_true hindex))

/-! ## Ids at one transaction -/

theorem sandwich_ids_nodup (hw : WellFormed input) (htx : tx ∈ input.txs) :
    ((eventsAt input tx.txIndex .sandwich).map explorerCanonicalId).Nodup := by
  rw [eventsAt_sandwich]
  -- the attacker is the sender of the transaction
  have hsender : ∀ e ∈ (classifySandwiches input).filter (·.txIndex = tx.txIndex),
      e.kind = .sandwich ∧ e.searcher = tx.sender := by
    intro e he
    obtain ⟨hmem, hindex⟩ := List.mem_filter.mp he
    obtain ⟨tx', htx', hstands, hsearcher⟩ := sandwich_spec hmem
    have hsame : tx' = tx := List.inj_on_of_nodup_map hw.indexes_nodup htx' htx
      (hstands.1.symm.trans (of_decide_eq_true hindex))
    exact ⟨(classifySandwiches_spec hmem).1, hsame ▸ hsearcher⟩
  refine nodup_map_of_sublist List.filter_sublist (sandwich_keys_nodup input)
    fun e he e' he' hid => ?_
  obtain ⟨hkind, hsearcher⟩ := hsender e he
  obtain ⟨hkind', hsearcher'⟩ := hsender e' he'
  have hpool := firstPool_eq_of_id (by rw [hkind]; simp [MevKind.Pooled])
    (hkind'.trans hkind.symm) hid
  exact Prod.ext hpool (hsearcher.trans hsearcher'.symm)

theorem frontrun_ids_nodup (input : BlockInput) (t : ℕ) :
    ((eventsAt input t .frontrun).map explorerCanonicalId).Nodup := by
  have hspec := classifyFrontruns_spec input (consumedBy (classifySandwiches input))
  rw [eventsAt_frontrun]
  refine nodup_map_of_sublist List.filter_sublist hspec.2 fun e he e' he' hid => ?_
  obtain ⟨hmem, hindex⟩ := List.mem_filter.mp he
  obtain ⟨hmem', hindex'⟩ := List.mem_filter.mp he'
  have hkind := blockFrontruns_kind hmem
  have hkind' := blockFrontruns_kind hmem'
  have hpool := firstPool_eq_of_id (by rw [hkind]; simp [MevKind.Pooled])
    (hkind'.trans hkind.symm) hid
  obtain ⟨_, _, v, _, _, heq, -⟩ := hspec.1 e hmem
  obtain ⟨_, _, v', _, _, heq', -⟩ := hspec.1 e' hmem'
  have hv : e.details.victimTxIndex = some v.txIndex := by rw [heq]; rfl
  have hv' : e'.details.victimTxIndex = some v'.txIndex := by rw [heq']; rfl
  have hvictim := victim_eq_of_id hkind hkind' hv hv' hid
  have hfront := (of_decide_eq_true hindex).trans (of_decide_eq_true hindex').symm
  refine Prod.ext hpool (Prod.ext hfront ?_)
  show e.details.victimTxIndex.getD 0 = e'.details.victimTxIndex.getD 0
  rw [hv, hv', hvictim]

theorem backrun_ids_nodup (input : BlockInput) (t : ℕ) :
    ((eventsAt input t .backrun).map explorerCanonicalId).Nodup := by
  rw [eventsAt_backrun]
  refine nodup_map_of_sublist List.filter_sublist (classifyBackruns_spec input _).2
    fun e he e' he' hid => ?_
  obtain ⟨hmem, hindex⟩ := List.mem_filter.mp he
  obtain ⟨hmem', hindex'⟩ := List.mem_filter.mp he'
  have hkind := blockBackruns_kind hmem
  have hkind' := blockBackruns_kind hmem'
  have hpool := firstPool_eq_of_id (by rw [hkind]; simp [MevKind.Pooled])
    (hkind'.trans hkind.symm) hid
  exact Prod.ext hpool ((of_decide_eq_true hindex).trans (of_decide_eq_true hindex').symm)

theorem skim_ids_nodup (hw : WellFormed input) (t : ℕ) :
    ((eventsAt input t .skim).map explorerCanonicalId).Nodup := by
  rw [eventsAt_skim]
  refine nodup_map_of_sublist List.filter_sublist (skim_keys_nodup hw.indexes_nodup)
    fun e he e' he' hid => ?_
  obtain ⟨hmem, hindex⟩ := List.mem_filter.mp he
  obtain ⟨hmem', hindex'⟩ := List.mem_filter.mp he'
  have hkind := classifySkims_kind hmem
  have hpool := firstPool_eq_of_id (by rw [hkind]; simp [MevKind.Pooled])
    ((classifySkims_kind hmem').trans hkind.symm) hid
  exact Prod.ext hpool ((of_decide_eq_true hindex).trans (of_decide_eq_true hindex').symm)

theorem arb_ids_nodup (hw : WellFormed input) (t : ℕ) :
    ((eventsAt input t .arbAtomic).map explorerCanonicalId).Nodup :=
  nodup_map_of_sublist eventsAt_arb (arb_keys_nodup hw.indexes_nodup) fun _ he _ he' _ =>
    (mem_eventsAt he).2.1.trans (mem_eventsAt he').2.1.symm

/-- Liquidations are told apart by their parties. -/
theorem liquidation_ids_iff (hw : WellFormed input) (htx : tx ∈ input.txs) :
    ((eventsAt input tx.txIndex .liquidation).map explorerCanonicalId).Nodup ↔
      (txParties tx).Nodup := by
  have hcongr := nodup_map_congr (l := eventsAt input tx.txIndex .liquidation)
    (f := explorerCanonicalId) (g := liquidationParties) fun e he e' he' =>
      liquidation_id_iff (mem_eventsAt he).2.2 (mem_eventsAt he').2.2
  have hparties : (eventsAt input tx.txIndex .liquidation).map liquidationParties =
      txParties tx := by
    rw [eventsAt_liquidation]
    unfold classifyLiquidations
    rw [List.filter_append,
      filter_flatMap_of_tag MevEvent.txIndex (fun tx' _ e he => ?_) hw.indexes_nodup htx,
      filter_flatMap_of_tag MevEvent.txIndex (fun tx' _ e he => ?_) hw.indexes_nodup htx,
      List.map_append, List.map_map, List.map_map]
    · rfl
    · obtain ⟨liq, -, rfl⟩ := List.mem_map.mp he
      rfl
    · obtain ⟨buy, -, rfl⟩ := List.mem_map.mp he
      rfl
  rw [hcongr, hparties]

/-- Positions are told apart by their pools and ranges. -/
theorem jit_ids_iff (hwin : (txClaims input).winner t = some .jit) :
    ((eventsAt input t .jit).map explorerCanonicalId).Nodup ↔
      (((classifyJit input).filter (·.txIndex = t)).map jitRange).Nodup := by
  rw [← eventsAt_jit hwin]
  exact nodup_map_congr fun e he e' he' =>
    jit_id_iff (.inl (mem_eventsAt he).2.2) (.inl (mem_eventsAt he').2.2)

/-- The keeper and bundler executions at a transaction. -/
def plainAt (input : BlockInput) (t : ℕ) : List MevEvent :=
  (classifyKeepers input).filter (·.txIndex = t) ++ (classifyBundlers input).filter (·.txIndex = t)

/-- The executions at a transaction that claim and sell. -/
def claimsAt (input : BlockInput) (t : ℕ) : List MevEvent :=
  (classifyClaimAndSell input (classifyAtomicArbs input)).filter (·.txIndex = t)

theorem eventsAt_utility_perm (input : BlockInput) (t : ℕ) :
    (eventsAt input t .utility).Perm (plainAt input t ++ claimsAt input t) := by
  rw [eventsAt_utility]
  unfold utilities plainAt claimsAt
  rw [List.filter_append, List.filter_append, List.append_assoc, List.append_assoc]
  exact List.perm_append_comm.append_left _

theorem plainAt_spec {e : MevEvent} (he : e ∈ plainAt input t) :
    e.kind = .utility ∧ e.pools = [] := by
  rcases List.mem_append.mp he with he | he
  · exact classifyKeepers_spec (List.mem_filter.mp he).1
  · exact classifyBundlers_spec (List.mem_filter.mp he).1

theorem length_plainAt (hw : WellFormed input) (htx : tx ∈ input.txs) :
    (plainAt input tx.txIndex).length =
      tx.keepers.length + (tx.userOps.filter (·.success)).length := by
  unfold plainAt classifyKeepers classifyBundlers
  rw [filter_flatMap_of_tag MevEvent.txIndex (fun tx' _ e he => ?_) hw.indexes_nodup htx,
    filter_flatMap_of_tag MevEvent.txIndex (fun tx' _ e he => ?_) hw.indexes_nodup htx,
    List.length_append, List.length_map, List.length_map]
  · obtain ⟨keeper, -, rfl⟩ := List.mem_map.mp he
    rfl
  · obtain ⟨uo, -, rfl⟩ := List.mem_map.mp he
    rfl

theorem claimsAt_spec {e : MevEvent} (he : e ∈ claimsAt input t) :
    e.kind = .utility ∧ e.pools ≠ [] := by
  have hmem := (List.mem_filter.mp he).1
  obtain ⟨tx, -, -, hpools, hswaps⟩ := claimAndSell_spec hmem
  refine ⟨classifyClaimAndSell_kind hmem, fun hnil => hswaps ?_⟩
  exact List.map_eq_nil_iff.mp (hpools.symm.trans hnil)

/-- At most one of them stands at a transaction. -/
theorem claim_ids_nodup (hw : WellFormed input) (t : ℕ) :
    ((claimsAt input t).map explorerCanonicalId).Nodup := by
  have hkeys : ((classifyClaimAndSell input (classifyAtomicArbs input)).map
      (·.txIndex)).Nodup := by
    obtain ⟨f, hf, hspec⟩ := claimAndSell_filterMap input (classifyAtomicArbs input)
    rw [hf]
    exact (map_filterMap_sublist (fun tx e he => (hspec tx e he).1.1) _).nodup hw.indexes_nodup
  refine nodup_map_of_sublist List.filter_sublist hkeys fun e he e' he' _ => ?_
  exact (of_decide_eq_true (List.mem_filter.mp he).2).trans
    (of_decide_eq_true (List.mem_filter.mp he').2).symm

/-- Keeper and bundler executions are not told apart, and one that claims and sells is told from
    them by its pools. -/
theorem utility_ids_iff (hw : WellFormed input) (htx : tx ∈ input.txs) :
    ((eventsAt input tx.txIndex .utility).map explorerCanonicalId).Nodup ↔
      tx.keepers.length + (tx.userOps.filter (·.success)).length ≤ 1 := by
  have hids : ((plainAt input tx.txIndex).map explorerCanonicalId).Nodup ↔
      (plainAt input tx.txIndex).length ≤ 1 :=
    nodup_map_of_const fun e he e' he' =>
      utility_id_of_nil (plainAt_spec he).1 (plainAt_spec he').1 (plainAt_spec he).2
        (plainAt_spec he').2
  have hdisjoint : ((plainAt input tx.txIndex).map explorerCanonicalId).Disjoint
      ((claimsAt input tx.txIndex).map explorerCanonicalId) := by
    intro id hplain hclaim
    obtain ⟨e, he, rfl⟩ := List.mem_map.mp hplain
    obtain ⟨e', he', hid⟩ := List.mem_map.mp hclaim
    obtain ⟨hkind, hnil⟩ := plainAt_spec he
    obtain ⟨hkind', hpools⟩ := claimsAt_spec he'
    exact hpools (pools_eq_nil_of_id hkind' hkind hnil hid)
  rw [((eventsAt_utility_perm input tx.txIndex).map _).nodup_iff, List.map_append,
    List.nodup_append', hids, length_plainAt hw htx]
  exact ⟨fun h => h.1, fun h => ⟨h, claim_ids_nodup hw _, hdisjoint⟩⟩

/-- The events of a transaction have different keys exactly where they are told apart. -/
theorem separated_iff (hw : WellFormed input) (htx : tx ∈ input.txs) :
    ((stampedKeys input).filter (·.txHash = tx.txHash)).Nodup ↔ Separated input tx := by
  have hids : ((stampedKeys input).filter (·.txHash = tx.txHash)).Nodup ↔
      (((winners input).filter fun e =>
        (stampedKey input e).txHash = tx.txHash).map explorerCanonicalId).Nodup := by
    unfold stampedKeys
    rw [List.filter_map]
    refine nodup_map_congr fun e he e' he' => ?_
    have hhash : (stampedKey input e).txHash = tx.txHash :=
      of_decide_eq_true (List.mem_filter.mp he).2
    have hhash' : (stampedKey input e').txHash = tx.txHash :=
      of_decide_eq_true (List.mem_filter.mp he').2
    have hid : ∀ e, (stampedKey input e).canonicalId = explorerCanonicalId e := fun e =>
      canonicalId_stamp (jitHashes input.txs) e
    rw [← hid e, ← hid e']
    exact ⟨congrArg OpKey.canonicalId, fun h => (OpKey.mk.injEq ..).mpr
      ⟨h, hhash.trans hhash'.symm⟩⟩
  rw [hids, winners_at hw htx]
  unfold Separated
  cases hwin : (txClaims input).winner tx.txIndex with
  | none => simp
  | some k =>
    cases k with
    | arbAtomic => exact iff_true_intro (arb_ids_nodup hw _)
    | sandwich => exact iff_true_intro (sandwich_ids_nodup hw htx)
    | frontrun => exact iff_true_intro (frontrun_ids_nodup input _)
    | backrun => exact iff_true_intro (backrun_ids_nodup input _)
    | liquidation => exact liquidation_ids_iff hw htx
    | jit => exact jit_ids_iff hwin
    | jitArb => exact iff_true_intro List.nodup_nil
    | skim => exact iff_true_intro (skim_ids_nodup hw _)
    | utility => exact utility_ids_iff hw htx

/-- A key has the hash of a transaction, or none. -/
theorem hash_of_mem_keys (hw : WellFormed input) {key : OpKey} (hkey : key ∈ stampedKeys input) :
    key.txHash = 0 ∨ ∃ tx ∈ input.txs, tx.txHash = key.txHash := by
  obtain ⟨e, he, rfl⟩ := List.mem_map.mp hkey
  have hmem := (List.mem_filter.mp he).1
  obtain ⟨tx, htx, hindex⟩ := exists_tx_of_mem hmem
  rw [stamped_txHash hw hmem htx hindex]
  split_ifs
  · exact .inl rfl
  · exact .inr ⟨tx, htx, rfl⟩

/-- The events of a block that have a hash are told apart transaction by transaction. -/
theorem stampedKeys_nodup_iff (hw : WellFormed input) :
    ((stampedKeys input).filter fun key => !decide (key.txHash = 0)).Nodup ↔
      ∀ tx ∈ input.txs, Separated input tx := by
  constructor
  · intro h tx htx
    refine (separated_iff hw htx).mp (h.sublist (List.monotone_filter_right _ fun key hkey => ?_))
    have hhash : key.txHash = tx.txHash := of_decide_eq_true hkey
    have hne : key.txHash ≠ 0 := hhash ▸ hw.hashes_ne tx htx
    rw [decide_eq_false hne]
    rfl
  · intro h
    refine (nodup_iff_forall_filter OpKey.txHash).mpr fun hash => ?_
    by_cases hex : ∃ tx ∈ input.txs, tx.txHash = hash
    · obtain ⟨tx, htx, rfl⟩ := hex
      exact ((separated_iff hw htx).mpr (h tx htx)).sublist
        (List.filter_sublist.filter _)
    · -- no key has such a hash
      have hnil : ((stampedKeys input).filter fun key => !decide (key.txHash = 0)).filter
          (·.txHash = hash) = [] := by
        refine List.filter_eq_nil_iff.mpr fun key hkey hhash => hex ?_
        obtain ⟨hmem, hne⟩ := List.mem_filter.mp hkey
        obtain ⟨tx, htx, heq⟩ := (hash_of_mem_keys hw hmem).resolve_left (by simpa using hne)
        exact ⟨tx, htx, heq.trans (of_decide_eq_true hhash)⟩
      rw [hnil]
      exact List.nodup_nil

/-! ## Events without a hash -/

/-- The key of a position that became part of an arbitrage. -/
def upgradedKey (range : Address × ℤ × ℤ) : OpKey := ⟨jitRangeId range, 0⟩

theorem upgradedKey_injective : Function.Injective upgradedKey := fun _ _ h =>
  jitRangeId_injective (congrArg OpKey.canonicalId h)

/-- An event of this kind is an upgraded position. -/
theorem exists_upgraded {e : MevEvent} (he : e ∈ allEvents input) (hkind : e.kind = .jitArb) :
    ∃ j ∈ classifyJit input, j.txIndex ∈ arbTxs input ∧ e.txIndex = j.txIndex := by
  rcases List.mem_append.mp he with he | he
  · rcases List.mem_append.mp he with he | he
    · rcases List.mem_append.mp he with he | he
      · rcases List.mem_append.mp he with he | he
        · exact absurd hkind (exactEvents_ne (.inr rfl) e (List.mem_filter.mp he).1)
        · obtain ⟨j, hj, rfl⟩ := List.mem_map.mp he
          rw [upgradeJit_kind (classifyJit_kind hj)] at hkind
          split_ifs at hkind with harb
          · exact ⟨j, hj, harb, upgradeJit_txIndex _ j⟩
      · exact absurd hkind (blockFrontruns_ne (by decide) e he)
    · exact absurd hkind (blockBackruns_ne (by decide) e he)
  · exact absurd hkind (classifySandwiches_ne (by decide) e he)

theorem mem_arbTxs_of_winner (hwin : (txClaims input).winner t = some .jitArb) :
    t ∈ arbTxs input := by
  rcases mem_blockClaims.mp (winner_spec hwin).1 with ⟨e, he, rfl, hkind⟩ | ⟨s, -, -, hkind⟩ |
      ⟨f, -, -, hkind⟩
  · obtain ⟨j, -, harb, hindex⟩ := exists_upgraded he hkind
    exact hindex ▸ harb
  · cases hkind
  · cases hkind

theorem winners_upgraded (hw : WellFormed input) :
    (winners input).filter (fun e => (stampedKey input e).txHash = 0) =
      (upgradedPositions input).map (upgradeJit (arbTxs input)) := by
  unfold winners upgradedPositions
  rw [List.filter_filter]
  have hcond : (allEvents input).filter (fun e => decide ((stampedKey input e).txHash = 0) &&
      decide ((txClaims input).winner e.txIndex = some e.kind)) =
      (allEvents input).filter fun e =>
        e.kind = .jitArb ∧ (txClaims input).winner e.txIndex = some .jitArb := by
    refine List.filter_congr fun e he => ?_
    rw [← Bool.decide_and, decide_eq_decide, stamped_eq_zero_iff hw he]
    exact and_congr_right fun hkind => by rw [hkind]
  have hnil : ∀ l : List MevEvent, (∀ e ∈ l, e.kind ≠ .jitArb) → l.filter (fun e =>
      e.kind = .jitArb ∧ (txClaims input).winner e.txIndex = some .jitArb) = [] :=
    fun l h => List.filter_eq_nil_iff.mpr fun e he hp => h e he (of_decide_eq_true hp).1
  rw [hcond]
  unfold allEvents upgradedEvents
  rw [List.filter_append, List.filter_append, List.filter_append, List.filter_append,
    hnil (blockFrontruns input) (blockFrontruns_ne (by decide)),
    hnil (blockBackruns input) (blockBackruns_ne (by decide)),
    hnil (classifySandwiches input) (classifySandwiches_ne (by decide)),
    hnil ((exactEvents input).filter _) fun e he =>
      exactEvents_ne (.inr rfl) e (List.mem_filter.mp he).1,
    List.nil_append, List.append_nil, List.append_nil, List.append_nil, List.filter_map]
  refine congrArg (List.map _) (List.filter_congr fun e he => ?_)
  show decide ((upgradeJit (arbTxs input) e).kind = .jitArb ∧
    (txClaims input).winner (upgradeJit (arbTxs input) e).txIndex = some .jitArb) = _
  rw [decide_eq_decide, upgradeJit_txIndex, upgradeJit_kind (classifyJit_kind he)]
  exact ⟨fun h => h.2, fun h => ⟨if_pos (mem_arbTxs_of_winner h), h⟩⟩

/-- The upgraded positions go out without a hash. -/
theorem upgraded_keys (hw : WellFormed input) :
    (stampedKeys input).filter (·.txHash = 0) =
      ((upgradedPositions input).map jitRange).map upgradedKey := by
  unfold stampedKeys
  rw [List.filter_map]
  show ((winners input).filter fun e => (stampedKey input e).txHash = 0).map _ = _
  rw [winners_upgraded hw, List.map_map, List.map_map]
  refine List.map_congr_left fun e he => ?_
  obtain ⟨hmem, hwin⟩ := List.mem_filter.mp he
  have hup : upgradeJit (arbTxs input) e = { e with kind := .jitArb } :=
    if_pos (mem_arbTxs_of_winner (of_decide_eq_true hwin))
  have hkind : MevKind.jitArb ≠ .jit := by decide
  have hstamp : stampJitTxHash (jitHashes input.txs) { e with kind := .jitArb } =
      { e with kind := .jitArb } := if_neg fun h => hkind h.1
  show opKey (stampJitTxHash (jitHashes input.txs) (upgradeJit (arbTxs input) e)) = _
  rw [hup, hstamp]
  show OpKey.mk (explorerCanonicalId { e with kind := .jitArb }) e.txHash = _
  rw [(jit_anchored hmem).1, canonicalId_jit (.inr rfl)]
  rfl

end

end MevScout.Explorer
