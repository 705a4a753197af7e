import MevScout.Common.Distinct
import MevScout.Explorer.Classify

/-!
# The transactions of the events

Where the events of each pass stand, and which of their fields tell the events of a pass apart.

Results:
* `exists_anchor`: every event stands at a transaction of the block, with its hash unless it is
  just-in-time liquidity;
* `sandwich_keys_nodup`, `skim_keys_nodup`, `arb_keys_nodup`: at most one sandwich for a pool and
  its attacker, one skim for a pair and a transaction, one arbitrage for a transaction.
-/

namespace MevScout.Explorer

open Distinct

variable {input : BlockInput} {e : MevEvent}

/-- An event stands at a transaction, with its index and its hash. -/
def StandsAt (tx : TxInput) (e : MevEvent) : Prop :=
  e.txIndex = tx.txIndex ∧ e.txHash = tx.txHash

/-! ## The exact passes -/

theorem liquidation_standsAt (he : e ∈ classifyLiquidations input) :
    ∃ tx ∈ input.txs, StandsAt tx e := by
  rcases List.mem_append.mp he with he | he
  · obtain ⟨tx, htx, he⟩ := List.mem_flatMap.mp he
    obtain ⟨liq, -, rfl⟩ := List.mem_map.mp he
    exact ⟨tx, htx, rfl, rfl⟩
  · obtain ⟨tx, htx, he⟩ := List.mem_flatMap.mp he
    obtain ⟨buy, -, rfl⟩ := List.mem_map.mp he
    exact ⟨tx, htx, rfl, rfl⟩

theorem skimEvent_spec {tx : TxInput} {pool : Address} (h : skimEvent input tx pool = some e) :
    StandsAt tx e ∧ e.pools = [pool] := by
  unfold skimEvent at h
  by_cases hin : pool ∈ (tx.transfers.filter fun t =>
      t.amount ≠ 0 ∧ t.recipient ∈ input.ctx.v2LikePools).map (·.recipient)
  · rw [if_pos hin] at h
    cases h
  · rw [if_neg hin] at h
    split at h
    · cases h
    · obtain rfl := Option.some.inj h
      exact ⟨⟨rfl, rfl⟩, rfl⟩

theorem skim_standsAt (he : e ∈ classifySkims input) : ∃ tx ∈ input.txs, StandsAt tx e := by
  obtain ⟨tx, htx, he⟩ := List.mem_flatMap.mp he
  split_ifs at he
  · obtain ⟨pool, -, hpool⟩ := List.mem_filterMap.mp he
    exact ⟨tx, htx, (skimEvent_spec hpool).1⟩
  · cases he

/-- A transaction claims and sells at most once, and what it sold has pools. -/
theorem claimAndSell_filterMap (input : BlockInput) (arbEvents : List MevEvent) :
    ∃ f, classifyClaimAndSell input arbEvents = input.txs.filterMap f ∧
      ∀ tx e, f tx = some e →
        StandsAt tx e ∧ e.pools = tx.swaps.map (·.pool) ∧ tx.swaps ≠ [] := by
  refine ⟨_, rfl, fun tx e he => ?_⟩
  by_cases hsold : !tx.success ∨ (claimAndSellToken tx.transfers tx.swaps).isNone
  · rw [if_pos hsold] at he
    cases he
  · rw [if_neg hsold] at he
    have hswaps : tx.swaps ≠ [] := by
      intro hnil
      refine hsold (.inr ?_)
      simp [claimAndSellToken, hnil]
    split_ifs at he
    dsimp only at he
    split at he
    · cases he
    · split_ifs at he
      obtain rfl := Option.some.inj he
      exact ⟨⟨rfl, rfl⟩, rfl, hswaps⟩

theorem claimAndSell_spec {arbEvents : List MevEvent}
    (he : e ∈ classifyClaimAndSell input arbEvents) :
    ∃ tx ∈ input.txs, StandsAt tx e ∧ e.pools = tx.swaps.map (·.pool) ∧ tx.swaps ≠ [] := by
  obtain ⟨f, hf, hspec⟩ := claimAndSell_filterMap input arbEvents
  obtain ⟨tx, htx, he⟩ := List.mem_filterMap.mp (hf ▸ he)
  exact ⟨tx, htx, hspec tx e he⟩

theorem atomicArb_standsAt (he : e ∈ classifyAtomicArbs input) :
    ∃ tx ∈ input.txs, StandsAt tx e := by
  obtain ⟨tx, htx, he⟩ := List.mem_filterMap.mp he
  split at he
  · obtain rfl := Option.some.inj he
    exact ⟨tx, htx, rfl, rfl⟩
  · cases he

theorem arb_standsAt (he : e ∈ classifyArbs input) : ∃ tx ∈ input.txs, StandsAt tx e := by
  rcases List.mem_append.mp he with he | he
  · rcases List.mem_append.mp he with he | he
    · rcases List.mem_append.mp he with he | he
      · exact atomicArb_standsAt he
      · obtain ⟨tx, htx, he⟩ := List.mem_flatMap.mp he
        obtain ⟨keeper, -, rfl⟩ := List.mem_map.mp he
        exact ⟨tx, htx, rfl, rfl⟩
    · obtain ⟨tx, htx, hstands, -⟩ := claimAndSell_spec he
      exact ⟨tx, htx, hstands⟩
  · obtain ⟨tx, htx, he⟩ := List.mem_flatMap.mp he
    obtain ⟨uo, -, rfl⟩ := List.mem_map.mp he
    exact ⟨tx, htx, rfl, rfl⟩

theorem exact_standsAt (he : e ∈ exactEvents input) : ∃ tx ∈ input.txs, StandsAt tx e := by
  rcases List.mem_append.mp he with he | he
  · rcases List.mem_append.mp he with he | he
    · exact liquidation_standsAt he
    · exact skim_standsAt he
  · exact arb_standsAt he

/-! ## Just-in-time liquidity -/

/-- An event of the pass stands at a transaction with a position fact, and has no hash yet. -/
def JitAnchored (input : BlockInput) (e : MevEvent) : Prop :=
  e.txHash = 0 ∧ ∃ tx ∈ input.txs, tx.jit ≠ [] ∧ e.txIndex = tx.txIndex

theorem exists_tx_of_jitFact {isMint : Bool} {p : ℕ × JitFact} (hp : p ∈ jitFacts input isMint) :
    ∃ tx ∈ input.txs, tx.jit ≠ [] ∧ p.1 = tx.txIndex := by
  obtain ⟨tx, htx, hp⟩ := List.mem_flatMap.mp hp
  obtain ⟨j, hj, rfl⟩ := List.mem_map.mp hp
  exact ⟨tx, htx, List.ne_nil_of_mem (List.mem_filter.mp hj).1, rfl⟩

theorem buildJitEvent_spec {pos : JitEventPosition} (h : e ∈ (buildJitEvent input pos).toList) :
    e.txHash = 0 ∧ e.txIndex = pos.mintTx := by
  unfold buildJitEvent at h
  split_ifs at h
  · rw [Option.toList_some, List.mem_singleton] at h
    rw [h]
    exact ⟨rfl, rfl⟩
  · cases h

theorem takeBurn_anchored {s : JitState} (hs : ∀ e ∈ s.out, JitAnchored input e)
    {burn : Option (ℕ × JitFact)} {pos : ℕ → JitFact → JitEventPosition}
    (hpos : ∀ burnTx b, burn = some (burnTx, b) →
      ∃ tx ∈ input.txs, tx.jit ≠ [] ∧ (pos burnTx b).mintTx = tx.txIndex) :
    ∀ e ∈ (takeBurn input s burn pos).out, JitAnchored input e := by
  intro e he
  rcases burn with _ | ⟨burnTx, b⟩
  · exact hs e he
  · rcases List.mem_append.mp he with he | he
    · exact hs e he
    · obtain ⟨hzero, hindex⟩ := buildJitEvent_spec he
      obtain ⟨tx, htx, hjit, hmint⟩ := hpos burnTx b rfl
      exact ⟨hzero, tx, htx, hjit, hindex.trans hmint⟩

theorem jit_anchored (he : e ∈ classifyJit input) : JitAnchored input e := by
  unfold classifyJit at he
  refine List.foldlRecOn input.openPositions (closeOpen input)
    (motive := fun s => ∀ e ∈ s.out, JitAnchored input e) ?_ ?_ e he
  · refine List.foldlRecOn (jitFacts input true) (closeMint input)
      (motive := fun s => ∀ e ∈ s.out, JitAnchored input e) ?_ ?_
    · rintro e ⟨⟩
    · intro s hs mint hmint
      exact takeBurn_anchored hs fun _ _ _ => exists_tx_of_jitFact hmint
  · intro s hs p _
    refine takeBurn_anchored hs fun burnTx b hburn => ?_
    exact exists_tx_of_jitFact (List.mem_of_find?_eq_some hburn)

/-! ## Legs -/

/-- A leg belongs to a transaction, in all its fields. -/
def LegOf (tx : TxInput) (l : PoolLeg) : Prop :=
  l.txIndex = tx.txIndex ∧ l.sender = tx.sender ∧ l.leg.txIndex = tx.txIndex ∧
    l.leg.txHash = tx.txHash

theorem legOf_of_mem {g : Address × List PoolLeg} (hg : g ∈ poolLegs input) {l : PoolLeg}
    (hl : l ∈ g.2) : ∃ tx ∈ input.txs, LegOf tx l := by
  obtain ⟨pool, -, rfl⟩ := List.mem_map.mp hg
  obtain ⟨x, hx, rfl⟩ := List.mem_map.mp ((List.mem_insertionSort _).mp hl)
  obtain ⟨tx, htx, hleg⟩ := List.mem_flatMap.mp (List.mem_filter.mp hx).1
  unfold txLegs at hleg
  split_ifs at hleg
  · obtain ⟨s, -, rfl⟩ := List.mem_map.mp hleg
    exact ⟨tx, htx, rfl, rfl, rfl, rfl⟩
  · cases hleg

theorem poolLegs_pools_nodup (input : BlockInput) : ((poolLegs input).map Prod.fst).Nodup := by
  unfold poolLegs
  rw [List.map_map]
  exact (List.nodup_dedup _).map fun _ _ h => h

theorem sandwich_spec (he : e ∈ classifySandwiches input) :
    ∃ tx ∈ input.txs, StandsAt tx e ∧ e.searcher = tx.sender := by
  obtain ⟨pool, legs, pre, F, mid, B, post, hlegs, hsand, heq⟩ := exists_isSandwich he
  have hF : F ∈ legs := by rw [hsand.split]; simp
  obtain ⟨tx, htx, -, hfrom, hindex, hhash⟩ := legOf_of_mem hlegs hF
  have hstands : StandsAt tx e := by
    rw [heq]
    exact ⟨hindex, hhash⟩
  exact ⟨tx, htx, hstands, hsand.front.symm.trans hfrom⟩

theorem frontrunLegs_spec {P : MevEvent → Prop} {consumed : Finset ℕ} {pool : Address}
    {legs : List PoolLeg} (hlegs : ∀ f ∈ legs, ∀ v closeTx profit,
      P (frontrunEvent input pool f v closeTx profit)) {s : FrontrunState}
    (hs : ∀ e ∈ s.out, P e) : ∀ e ∈ (frontrunLegs input consumed pool s legs).out, P e := by
  induction legs generalizing s with
  | nil => exact hs
  | cons f later ih =>
    refine ih (fun g hg => hlegs g (List.mem_cons_of_mem _ hg)) ?_
    rcases frontrunLeg_cases input consumed pool later s f with hleg |
        ⟨v, tx, profit, -, -, -, hleg⟩
    · rw [hleg]
      exact hs
    · rw [hleg]
      intro e he
      rcases List.mem_append.mp he with he | he
      · exact hs e he
      · rw [List.mem_singleton.mp he]
        exact hlegs f (List.mem_cons_self ..) v _ profit

theorem frontrun_standsAt {consumed : Finset ℕ} (he : e ∈ classifyFrontruns input consumed) :
    ∃ tx ∈ input.txs, StandsAt tx e := by
  unfold classifyFrontruns at he
  refine List.foldlRecOn (poolLegs input) _
    (motive := fun s : FrontrunState => ∀ e ∈ s.out, ∃ tx ∈ input.txs, StandsAt tx e) ?_ ?_ e he
  · rintro e ⟨⟩
  · intro s hs g hg
    refine frontrunLegs_spec (fun f hf v closeTx profit => ?_) hs
    obtain ⟨tx, htx, hindex, -, -, hhash⟩ := legOf_of_mem hg hf
    exact ⟨tx, htx, hindex, hhash⟩

theorem backrun_standsAt {consumed : Finset ℕ} (he : e ∈ classifyBackruns input consumed) :
    ∃ tx ∈ input.txs, StandsAt tx e := by
  obtain ⟨pool, b, a, tx, holder, token, amount, rfl, -, htx, -⟩ :=
    (classifyBackruns_spec input consumed).1 e he
  refine ⟨tx, List.mem_reverse.mp (List.mem_of_find?_eq_some htx), ?_, rfl⟩
  have hindex : tx.txIndex = b.txIndex := by simpa using List.find?_some htx
  exact hindex.symm

/-- Every event stands at a transaction, with its hash unless it is just-in-time liquidity. -/
theorem exists_anchor (he : e ∈ allEvents input) :
    (∃ tx ∈ input.txs, StandsAt tx e) ∧ e.kind ≠ .jit ∧ e.kind ≠ .jitArb ∨
      JitAnchored input e ∧ (e.kind = .jit ∨ e.kind = .jitArb) := by
  rcases List.mem_append.mp he with he | he
  · rcases List.mem_append.mp he with he | he
    · rcases List.mem_append.mp he with he | he
      · rcases List.mem_append.mp he with he | he
        · have hmem := (List.mem_filter.mp he).1
          refine .inl ⟨exact_standsAt hmem, ?_⟩
          rcases List.mem_append.mp hmem with hmem | hmem
          · rcases List.mem_append.mp hmem with hmem | hmem
            · rw [classifyLiquidations_kind hmem]
              decide
            · rw [classifySkims_kind hmem]
              decide
          · rcases classifyArbs_kind hmem with hkind | hkind <;> rw [hkind] <;> decide
        · obtain ⟨j, hj, rfl⟩ := List.mem_map.mp he
          right
          unfold upgradeJit
          split_ifs
          · exact ⟨⟨(jit_anchored hj).1, (jit_anchored hj).2⟩, .inr rfl⟩
          · exact ⟨jit_anchored hj, .inl (classifyJit_kind hj)⟩
      · refine .inl ⟨frontrun_standsAt he, ?_⟩
        rw [blockFrontruns_kind he]
        decide
    · refine .inl ⟨backrun_standsAt he, ?_⟩
      rw [blockBackruns_kind he]
      decide
  · obtain ⟨tx, htx, hstands, -⟩ := sandwich_spec he
    refine .inl ⟨⟨tx, htx, hstands⟩, ?_⟩
    rw [(classifySandwiches_spec he).1]
    decide

/-! ## Keys of the passes -/

theorem sandwich_keys_nodup (input : BlockInput) :
    ((classifySandwiches input).map fun e => (e.pools.headD 0, e.searcher)).Nodup := by
  unfold classifySandwiches
  rw [List.map_flatMap]
  have hkey : ∀ g ∈ poolLegs input, ∀ attacker e,
      (sandwichWalk attacker g.2 none []).map
        (fun walk => foldSandwich input g.1 attacker walk.1 walk.2.1 walk.2.2) = some e →
      (e.pools.headD 0, e.searcher) = (g.1, attacker) := by
    intro g _ attacker e he
    obtain ⟨⟨front, back, victims⟩, -, rfl⟩ := Option.map_eq_some_iff.mp he
    rfl
  refine nodup_flatMap_of_tag Prod.fst (fun g hg k hk => ?_)
    (poolLegs_pools_nodup input) fun g hg => ?_
  · obtain ⟨e, he, rfl⟩ := List.mem_map.mp hk
    obtain ⟨attacker, -, he⟩ := List.mem_filterMap.mp he
    exact congrArg Prod.fst (hkey g hg attacker e he)
  · refine (map_filterMap_sublist (hkey g hg) _).nodup ?_
    refine List.Nodup.map (fun a b h => (Prod.mk.inj h).2) ?_
    exact ((List.perm_insertionSort _ _).nodup_iff).mpr (List.nodup_dedup _)

theorem skim_keys_nodup (hindexes : (input.txs.map (·.txIndex)).Nodup) :
    ((classifySkims input).map fun e => (e.pools.headD 0, e.txIndex)).Nodup := by
  have hkey : ∀ tx pool e, skimEvent input tx pool = some e →
      (e.pools.headD 0, e.txIndex) = (pool, tx.txIndex) := by
    intro tx pool e he
    obtain ⟨hstands, hpools⟩ := skimEvent_spec he
    rw [hpools, hstands.1]
    rfl
  unfold classifySkims
  rw [List.map_flatMap]
  refine nodup_flatMap_of_tag Prod.snd (fun tx _ k hk => ?_)
    hindexes fun tx _ => ?_
  · obtain ⟨e, he, rfl⟩ := List.mem_map.mp hk
    split_ifs at he
    · obtain ⟨pool, -, he⟩ := List.mem_filterMap.mp he
      exact congrArg Prod.snd (hkey tx pool e he)
    · cases he
  · split_ifs
    · refine (map_filterMap_sublist (hkey tx) _).nodup ?_
      exact (List.nodup_dedup _).map fun a b h => (Prod.mk.inj h).1
    · exact List.nodup_nil

theorem arb_keys_nodup (hindexes : (input.txs.map (·.txIndex)).Nodup) :
    ((classifyAtomicArbs input).map (·.txIndex)).Nodup := by
  refine (map_filterMap_sublist (fun tx e he => ?_) _).nodup hindexes
  split at he
  · obtain rfl := Option.some.inj he
    rfl
  · cases he

end MevScout.Explorer
