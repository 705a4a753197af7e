import MevScout.Common.Firsts
import MevScout.Pipeline.Runner

/-!
# Backruns

Models of `pre_detect` and `post_detect` of `core/src/mev/detectors/backrun.rs`. A backrun is an
opportunity that pays for its gas after a transaction, under a key that did not before it. A key is
claimed once while the liquidity of its pools stays where it was.

The profits before the transaction are kept by key, and the last one written stays. What that
decides is right where the opportunities of one key agree.

Results:
* `preIndex_le_iff`: what the index says of a key on which the pre-image agrees;
* `postDetect_eq`: the claims are the first flipped candidates of the keys that are not claimed yet,
  whatever the order of the pre-image;
* `last_preimage_wins`: two pre-images of the same opportunities, and two candidates of one key.
-/

namespace MevScout.Mev

open Paper Pool Pipeline

/-- The pools and tokens of a `BackrunKey`. -/
abbrev Key := Address × Address × Address × Address

/-! ## The model -/

/-- Model of `BackrunDetector` (`backrun.rs`, lines 76–90): the state that lasts. -/
structure BackrunDetector where
  seen : Key → Option (ℕ × ℕ) := fun _ => none
  preImage : List MevOpportunity := []
  preImageTx : Option ℕ := none

/-- `LIQUIDITY_CHANGE_THRESHOLD_DIVISOR` (`math/consts.rs`, line 35). -/
def liquidityChangeThresholdDivisor : ℕ := 1000

/-- The liquidity of a pool is where it was (`manager.rs`, lines 863–865). -/
def Near (prev now : ℕ) : Prop :=
  (now - prev) + (prev - now) ≤ max (prev / liquidityChangeThresholdDivisor) 1

instance instDecidableNear (prev now : ℕ) : Decidable (Near prev now) :=
  inferInstanceAs (Decidable (_ ≤ _))

/-- The liquidity of the pools of a key. -/
def snapshot (pm : PoolManager) (key : Key) : ℕ × ℕ :=
  (pm.poolLiquidityEstimate key.1, pm.poolLiquidityEstimate key.2.1)

/-- The key has been claimed at about this liquidity. -/
def Claimed (pm : PoolManager) (seen : Key → Option (ℕ × ℕ)) (key : Key) : Prop :=
  ∃ prev ∈ seen key, Near prev.1 (snapshot pm key).1 ∧ Near prev.2 (snapshot pm key).2

instance instDecidableClaimed (pm : PoolManager) (seen : Key → Option (ℕ × ℕ)) (key : Key) :
    Decidable (Claimed pm seen key) :=
  match h : seen key with
  | none => isFalse fun ⟨_, hprev, _⟩ => by simp [h] at hprev
  | some prev =>
    decidable_of_iff (Near prev.1 (snapshot pm key).1 ∧ Near prev.2 (snapshot pm key).2)
      ⟨fun hnear => ⟨prev, h, hnear⟩, fun ⟨prev', hprev, hnear⟩ => by
        rw [h] at hprev
        rwa [Option.some.inj hprev]⟩

/-- Model of `check_dedup_key` (`manager.rs`, lines 851–872), for the pools of the key. -/
def checkDedupKey (pm : PoolManager) (seen : Key → Option (ℕ × ℕ)) (key : Key) :
    Bool × (Key → Option (ℕ × ℕ)) :=
  if Claimed pm seen key then (false, seen)
  else (true, Function.update seen key (some (snapshot pm key)))

/-- Model of `pre_detect` (`backrun.rs`, lines 116–127), with what its detectors find. -/
def preDetect (d : BackrunDetector) (opps : List MevOpportunity) (txIndex : ℕ) :
    BackrunDetector :=
  { d with preImage := opps, preImageTx := some txIndex }

/-- The profits of the pre-image by key (`backrun.rs`, lines 169–173). -/
def preIndex (preOpps : List MevOpportunity) : Key → Option ℕ :=
  preOpps.foldl (fun index o => Function.update index (checkKey o) (some o.expectedProfit))
    fun _ => none

/-- Model of `anchor_pool` (`backrun.rs`, lines 221–233). -/
def anchorPool (opp : MevOpportunity) (dirty : Option (Finset Address)) : Address :=
  ((opp.path.getD [opp.poolA] ++ [opp.poolB]).find? fun a => dirty.all (a ∈ ·)).getD
    (if opp.poolA ≤ opp.poolB then opp.poolA else opp.poolB)

/-- The claim of an opportunity (`backrun.rs`, lines 198–210). -/
def claim (dirty : Option (Finset Address)) (txIndex : ℕ) (opp : MevOpportunity) :
    MevOpportunity :=
  { opp with
    strategy := .backrun
    canonicalId := some ("Backrun|" ++ hexAddress (anchorPool opp dirty) ++ "|source_tx:" ++
      toString txIndex) }

/-- One turn of the loop over the post-image (`backrun.rs`, lines 183–214). -/
def postStep (pm : PoolManager) (dirty : Option (Finset Address)) (txIndex : ℕ)
    (index : Key → Option ℕ) (st : (Key → Option (ℕ × ℕ)) × List MevOpportunity)
    (o : MevOpportunity) : (Key → Option (ℕ × ℕ)) × List MevOpportunity :=
  let net1 := o.expectedProfit - o.gasCostWei
  let net0 := (index (checkKey o)).getD 0 - o.gasCostWei
  if 0 < net1 ∧ net0 ≤ 0 then
    let (fresh, seen) := checkDedupKey pm st.1 (checkKey o)
    if fresh then (seen, st.2 ++ [claim dirty txIndex o]) else (seen, st.2)
  else st

/-- Model of `post_detect` (`backrun.rs`, lines 139–216), with what its detectors find. -/
def postDetect (d : BackrunDetector) (pm : PoolManager) (dirty : Option (Finset Address))
    (postOpps : List MevOpportunity) (txIndex : ℕ) : List MevOpportunity × BackrunDetector :=
  let preOpps := if d.preImageTx = some txIndex then d.preImage else []
  let (seen, backruns) :=
    postOpps.foldl (postStep pm dirty txIndex (preIndex preOpps)) (d.seen, [])
  (backruns, { d with seen })

/-! ## What is claimed -/

/-- The opportunity pays for its gas, and none of the pre-image under its key did. -/
def Flips (preOpps : List MevOpportunity) (o : MevOpportunity) : Prop :=
  o.gasCostWei < o.expectedProfit ∧
    ∀ q ∈ preOpps, checkKey q = checkKey o → q.expectedProfit ≤ o.gasCostWei

instance instDecidableFlips (preOpps : List MevOpportunity) (o : MevOpportunity) :
    Decidable (Flips preOpps o) :=
  inferInstanceAs (Decidable (_ ∧ _))

/-- The opportunities of the pre-image under one key are on the same side of the gas of every
    candidate for it. -/
def Agree (preOpps postOpps : List MevOpportunity) : Prop :=
  ∀ o ∈ postOpps, ∀ a ∈ preOpps, ∀ b ∈ preOpps, checkKey a = checkKey o →
    checkKey b = checkKey o → a.expectedProfit ≤ o.gasCostWei → b.expectedProfit ≤ o.gasCostWei

instance instDecidableAgree (preOpps postOpps : List MevOpportunity) :
    Decidable (Agree preOpps postOpps) :=
  inferInstanceAs (Decidable (∀ o ∈ postOpps, ∀ a ∈ preOpps, ∀ b ∈ preOpps,
    checkKey a = checkKey o → checkKey b = checkKey o → a.expectedProfit ≤ o.gasCostWei →
      b.expectedProfit ≤ o.gasCostWei))

/-- The claims of a post-image: the first flipped candidate of every key that is not claimed
    yet. -/
def claims (pm : PoolManager) (dirty : Option (Finset Address)) (txIndex : ℕ)
    (seen : Key → Option (ℕ × ℕ)) (preOpps postOpps : List MevOpportunity) :
    List MevOpportunity :=
  ((Firsts.firsts checkKey [] (postOpps.filter (Flips preOpps ·))).filter
    fun o => ¬Claimed pm seen (checkKey o)).map (claim dirty txIndex)

variable {pm : PoolManager} {dirty : Option (Finset Address)} {txIndex : ℕ}
  {seen : Key → Option (ℕ × ℕ)} {preOpps postOpps : List MevOpportunity} {o : MevOpportunity}
  {key : Key}

/-- The index holds the profit of the last opportunity of the key. -/
theorem preIndex_eq (preOpps : List MevOpportunity) (key : Key) :
    preIndex preOpps key =
      ((preOpps.filter (checkKey · = key)).getLast?).map MevOpportunity.expectedProfit := by
  unfold preIndex
  induction preOpps using List.reverseRecOn with
  | nil => rfl
  | append_singleton preOpps q ih =>
    rw [List.foldl_append, List.filter_append]
    show Function.update _ _ _ key = _
    by_cases hq : checkKey q = key
    · rw [hq, Function.update_self, List.filter_cons_of_pos (by simpa using hq), List.filter_nil,
        List.getLast?_concat]
      rfl
    · rw [Function.update_of_ne (Ne.symm hq), ih, List.filter_cons_of_neg (by simpa using hq),
        List.filter_nil, List.append_nil]

/-- Where the opportunities of a key agree, the index says what all of them say. -/
theorem preIndex_le_iff (h : Agree preOpps postOpps) (ho : o ∈ postOpps) :
    (preIndex preOpps (checkKey o)).getD 0 ≤ o.gasCostWei ↔
      ∀ q ∈ preOpps, checkKey q = checkKey o → q.expectedProfit ≤ o.gasCostWei := by
  rw [preIndex_eq]
  cases hlast : (preOpps.filter (checkKey · = checkKey o)).getLast? with
  | none =>
    have hnil := List.getLast?_eq_none_iff.mp hlast
    refine iff_of_true (Nat.zero_le _) fun q hq hkey => ?_
    have hmem : q ∈ preOpps.filter (checkKey · = checkKey o) :=
      List.mem_filter.mpr ⟨hq, by simpa using hkey⟩
    rw [hnil] at hmem
    cases hmem
  | some last =>
    obtain ⟨hmem, hkey⟩ := List.mem_filter.mp (List.mem_of_getLast? hlast)
    have hkey : checkKey last = checkKey o := by simpa using hkey
    exact ⟨fun hle q hq hq' => h o ho last hmem q hq hkey hq' hle, fun hall => hall _ hmem hkey⟩

theorem claimed_update (seen : Key → Option (ℕ × ℕ)) :
    Claimed pm (Function.update seen key (some (snapshot pm key))) key := by
  refine ⟨snapshot pm key, by rw [Function.update_self]; rfl, ?_, ?_⟩ <;>
  · unfold Near
    omega

theorem claimed_update_of_ne {key' : Key} {x : Option (ℕ × ℕ)} (h : key' ≠ key) :
    Claimed pm (Function.update seen key x) key' ↔ Claimed pm seen key' := by
  unfold Claimed
  rw [Function.update_of_ne h]

/-- The loop, where the keys `done` have been decided. -/
theorem foldl_postStep {index : Key → Option ℕ} {seen₀ : Key → Option (ℕ × ℕ)} {done : List Key}
    (hindex : ∀ o ∈ postOpps, (index (checkKey o)).getD 0 ≤ o.gasCostWei ↔
      ∀ q ∈ preOpps, checkKey q = checkKey o → q.expectedProfit ≤ o.gasCostWei)
    (hdone : ∀ key ∈ done, Claimed pm seen key)
    (hother : ∀ key ∉ done, Claimed pm seen key ↔ Claimed pm seen₀ key)
    (acc : List MevOpportunity) :
    (postOpps.foldl (postStep pm dirty txIndex index) (seen, acc)).2 =
      acc ++ ((Firsts.firsts checkKey done (postOpps.filter (Flips preOpps ·))).filter
        fun o => ¬Claimed pm seen₀ (checkKey o)).map (claim dirty txIndex) := by
  induction postOpps generalizing seen done acc with
  | nil => simp [Firsts.firsts]
  | cons o postOpps ih =>
    have hrest := fun o' ho' => hindex o' (List.mem_cons_of_mem _ ho')
    have hflips : (0 < o.expectedProfit - o.gasCostWei ∧
        (index (checkKey o)).getD 0 - o.gasCostWei ≤ 0) ↔ Flips preOpps o := by
      rw [Flips, ← hindex o (List.mem_cons_self ..)]
      omega
    rw [List.foldl_cons, postStep]
    dsimp only
    simp only [hflips]
    by_cases ho : Flips preOpps o
    · rw [if_pos ho, List.filter_cons_of_pos (by simpa using ho), Firsts.firsts, checkDedupKey]
      by_cases hkey : checkKey o ∈ done
      · rw [if_pos (hdone _ hkey), if_pos hkey]
        exact ih hrest hdone hother acc
      · rw [if_neg hkey]
        by_cases hclaimed : Claimed pm seen (checkKey o)
        · rw [if_pos hclaimed, List.filter_cons_of_neg
            (by simpa using (hother _ hkey).mp hclaimed)]
          refine ih hrest (fun key hmem => ?_) (fun key hmem => hother key ?_) acc
          · rcases List.mem_cons.mp hmem with rfl | hmem
            · exact hclaimed
            · exact hdone key hmem
          · exact fun h => hmem (List.mem_cons_of_mem _ h)
        · rw [if_neg hclaimed, List.filter_cons_of_pos
            (by simpa using fun h => hclaimed ((hother _ hkey).mpr h)), List.map_cons]
          refine (ih hrest (fun key hmem => ?_) (fun key hmem => ?_)
            (acc ++ [claim dirty txIndex o])).trans (List.append_assoc ..)
          · by_cases heq : key = checkKey o
            · rw [heq]
              exact claimed_update seen
            · exact (claimed_update_of_ne heq).mpr
                (hdone key ((List.mem_cons.mp hmem).resolve_left heq))
          · rw [List.mem_cons, not_or] at hmem
            rw [claimed_update_of_ne hmem.1]
            exact hother key hmem.2
    · rw [if_neg ho, List.filter_cons_of_neg (by simpa using ho)]
      exact ih hrest hdone hother acc

/-- **Main theorem.** Where the opportunities of the pre-image agree on every key, the claims are
    the first flipped candidates of the keys that are not claimed yet; and neither the order of the
    pre-image nor its repetitions matter. -/
theorem postDetect_eq (d : BackrunDetector) (pm : PoolManager)
    (dirty : Option (Finset Address)) (txIndex : ℕ) (preOpps postOpps : List MevOpportunity)
    (h : Agree preOpps postOpps) :
    (postDetect (preDetect d preOpps txIndex) pm dirty postOpps txIndex).1 =
        claims pm dirty txIndex d.seen preOpps postOpps ∧
      ∀ preOpps', (∀ q, q ∈ preOpps' ↔ q ∈ preOpps) →
        (postDetect (preDetect d preOpps' txIndex) pm dirty postOpps txIndex).1 =
          claims pm dirty txIndex d.seen preOpps postOpps := by
  have hpost (l : List MevOpportunity) (hl : Agree l postOpps) :
      (postDetect (preDetect d l txIndex) pm dirty postOpps txIndex).1 =
        claims pm dirty txIndex d.seen l postOpps := by
    unfold postDetect preDetect claims
    dsimp only
    rw [if_pos rfl]
    exact foldl_postStep (fun o ho => preIndex_le_iff hl ho)
      (fun key hkey => absurd hkey List.not_mem_nil) (fun key _ => Iff.rfl) []
  refine ⟨hpost _ h, fun preOpps' hmem => ?_⟩
  have hflips (o : MevOpportunity) : Flips preOpps' o ↔ Flips preOpps o := by
    unfold Flips
    simp only [hmem]
  rw [hpost preOpps' fun o ho a ha b hb => h o ho a ((hmem a).mp ha) b ((hmem b).mp hb)]
  unfold claims
  simp only [hflips]

/-! ## One key -/

/-- An opportunity between the pools 1 and 2, with a gas of 10. -/
def pairOpp (expectedProfit : ℕ) : MevOpportunity :=
  { blockNumber := 1
    txIndex := 0
    strategy := .twoHopArb
    poolA := 1
    poolB := 2
    tokenIn := 3
    tokenOut := 3
    expectedProfit
    gasCostWei := 10 }

/-- What the detector claims after a pre-image, without pools. -/
def pairClaims (preOpps postOpps : List MevOpportunity) : List MevOpportunity :=
  (postDetect (preDetect {} preOpps 0) {} none postOpps 0).1

/-- The candidate of 50 flips a key that was at 5, and later at 7. -/
theorem pairClaims_flipped :
    pairClaims [pairOpp 5, pairOpp 7] [pairOpp 50] =
      claims {} none 0 (fun _ => none) [pairOpp 5, pairOpp 7] [pairOpp 50] :=
  (postDetect_eq {} {} none 0 [pairOpp 5, pairOpp 7] [pairOpp 50] (by decide)).1

/-- A key that was at 100 and at 5 is claimed when the 5 comes last, and not when the 100 does; of
    two candidates of one key the second one is not claimed. -/
theorem last_preimage_wins :
    pairClaims [pairOpp 100, pairOpp 5] [pairOpp 50] = [claim none 0 (pairOpp 50)] ∧
      ¬Flips [pairOpp 100, pairOpp 5] (pairOpp 50) ∧
      pairClaims [pairOpp 5, pairOpp 100] [pairOpp 50] = [] ∧
      pairClaims [] [pairOpp 50, pairOpp 60] = [claim none 0 (pairOpp 50)] ∧
      Flips [] (pairOpp 60) := by
  refine ⟨?_, ?_, ?_, ?_, ?_⟩ <;> decide +kernel

end MevScout.Mev
