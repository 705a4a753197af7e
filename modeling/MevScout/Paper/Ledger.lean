import MevScout.Common.Grouping
import MevScout.Paper.Types

/-!
# The paper ledger

Models of `core/src/paper/ledger.rs`: the greedy selection of fills, block after block,
out of one gas wallet.

Results:
* `before_antisymm`: the comparator of the ledger separates opportunities with different
  sort keys;
* `apply_accounts`: what `apply` returns as long as the wallet never saturates;
* `totals_saturate`: the totals of the ledger can part with its wallet.
-/

namespace MevScout.Paper

/-! ## Policy and wallet -/

/-- `HARD_MAX_FILLS_PER_BLOCK`. -/
def hardMaxFillsPerBlock : ℕ := 32

/-- Model of `LedgerPolicy` (`ledger.rs`, lines 18–25). -/
structure LedgerPolicy where
  startingGasWei : ℕ
  reserveWei : ℕ
  maxFillsPerBlock : ℕ
  startingGasWei_lt : startingGasWei < 2 ^ 128 := by decide

/-- `max_fills_per_block.clamp(1, HARD_MAX_FILLS_PER_BLOCK)`. -/
def LedgerPolicy.maxFills (policy : LedgerPolicy) : ℕ :=
  min (max policy.maxFillsPerBlock 1) hardMaxFillsPerBlock

/-- Model of `is_native_eligible` (`ledger.rs`, lines 42–48). -/
def isNativeEligible : Strategy → Bool
  | .twoHopArb | .multiHopArb | .jit | .backrun => true

/-- Model of `SimPolicy::is_simulatable` (`sim.rs`, lines 51–57). -/
def isSimulatable : Strategy → Bool
  | .twoHopArb | .multiHopArb | .backrun => true
  | .jit => false

/-- Model of `u256_to_u128` (`ledger.rs`, lines 50–57). -/
def u256ToU128 (v : ℕ) : ℕ := if 2 ^ 128 - 1 < v then 2 ^ 128 - 1 else v

/-- Model of `net_wei` (`ledger.rs`, lines 59–63). -/
def netWei (opp : MevOpportunity) : ℤ :=
  let gross := asSigned 128 (u256ToU128 opp.expectedProfit)
  let gas := asSigned 128 opp.gasCostWei
  wrapSigned 128 (gross - gas)

/-- Appends a pool that is not the zero address and not yet there. -/
def addPool (pools : List Address) (p : Address) : List Address :=
  if p = 0 ∨ p ∈ pools then pools else pools ++ [p]

/-- Model of `pools_of` (`ledger.rs`, lines 93–109). -/
def poolsOf (opp : MevOpportunity) : List Address :=
  let pools := if opp.poolA = 0 then [] else [opp.poolA]
  let pools := if opp.poolB = 0 then pools else pools ++ [opp.poolB]
  (opp.path.getD []).foldl addPool pools

/-! ## Consideration order -/

/-- The net, the mempool rank, the transaction and the id. -/
abbrev SortKey := ℤ × ℕ × ℕ × String

/-- Model of `sort_key` (`ledger.rs`, lines 111–118). -/
def sortKey (opp : MevOpportunity) : SortKey :=
  (netWei opp, if opp.mempoolOnly then 1 else 0, opp.txIndex, opp.canonicalId.getD "")

/-- The comparator of `opps.sort_by` (`ledger.rs`, lines 145–153), on the keys of `a`
    and `b`. -/
def compareKeys (a b : SortKey) : Ordering :=
  (((compare b.1 a.1).then (compare a.2.1 b.2.1)).then (compare a.2.2.1 b.2.2.1)).then
    (compare a.2.2.2 b.2.2.2)

instance instTransCmpCompareKeys : Std.TransCmp compareKeys :=
  inferInstanceAs (Std.TransCmp (compareLex (compareLex (compareLex
    (fun a b : SortKey => compareOn Prod.fst b a) (compareOn fun k : SortKey => k.2.1))
    (compareOn fun k : SortKey => k.2.2.1)) (compareOn fun k : SortKey => k.2.2.2)))

/-- `a` may stand before `b` in the list that `sort_by` leaves. -/
def Before (a b : MevOpportunity) : Prop :=
  (compareKeys (sortKey a) (sortKey b)).isLE = true

instance instDecidableRelBefore : DecidableRel Before := fun a b =>
  inferInstanceAs (Decidable ((compareKeys (sortKey a) (sortKey b)).isLE = true))

instance instTotalBefore : Std.Total Before where
  total a b := by
    unfold Before
    rw [show compareKeys (sortKey b) (sortKey a) = (compareKeys (sortKey a) (sortKey b)).swap from
      Std.OrientedCmp.eq_swap]
    cases compareKeys (sortKey a) (sortKey b) <;> simp

instance instIsTransBefore : IsTrans MevOpportunity Before where
  trans _ _ _ hab hbc := Std.TransCmp.isLE_trans hab hbc

/-- Opportunities that may stand in either order have the same sort key. -/
theorem before_antisymm {a b : MevOpportunity} (hab : Before a b) (hba : Before b a) :
    sortKey a = sortKey b := by
  have heq : compareKeys (sortKey a) (sortKey b) = .eq := Std.OrientedCmp.isLE_antisymm hab hba
  unfold compareKeys at heq
  rw [Ordering.then_eq_eq, Ordering.then_eq_eq, Ordering.then_eq_eq] at heq
  obtain ⟨⟨⟨hnet, hrank⟩, htx⟩, hid⟩ := heq
  have hnet := Std.LawfulEqOrd.eq_of_compare hnet
  have hrank := Std.LawfulEqOrd.eq_of_compare hrank
  have htx := Std.LawfulEqOrd.eq_of_compare htx
  have hid := Std.LawfulEqOrd.eq_of_compare hid
  exact Prod.ext hnet.symm (Prod.ext hrank (Prod.ext htx hid))

/-! ## The books -/

/-- The accumulators of a ledger. -/
structure Book where
  wallet : ℕ
  peak : ℕ
  maxDrawdown : ℕ := 0
  fills : List PaperFill := []
  skips : List PaperSkip := []
  grossTotal : ℕ := 0
  gasTotal : ℕ := 0
  netTotal : ℤ := 0
  bestNet : ℤ := 0

/-- The accumulators before the first opportunity. -/
def LedgerPolicy.book (policy : LedgerPolicy) : Book :=
  { wallet := policy.startingGasWei, peak := policy.startingGasWei }

/-- Model of `apply_wallet_delta` (`ledger.rs`, lines 81–91). `apply` and `apply_simulated`
    write it out for their positive nets. -/
def Book.applyWalletDelta (book : Book) (delta : ℤ) : Book :=
  let wallet := saturatingAddSigned 128 book.wallet delta
  { book with
    wallet := wallet
    peak := if book.peak < wallet then wallet else book.peak
    maxDrawdown :=
      if book.peak < wallet then book.maxDrawdown
      else max book.maxDrawdown (book.peak - wallet) }

/-- The transaction that a fill or a skip names. -/
def txIndexOf (opp : MevOpportunity) : Option ℕ :=
  if opp.mempoolOnly then none else some opp.txIndex

/-- Model of `exec_skip` (`ledger.rs`, lines 65–79), which `apply` and `apply_simulated`
    write out. -/
def skipOf (block : ℕ) (opp : MevOpportunity) (reason : FillSkipReason) : PaperSkip :=
  { blockNumber := block
    txIndex := txIndexOf opp
    canonicalId := opp.canonicalId
    strategy := opp.strategy.toString
    reason := reason }

def Book.skip (book : Book) (block : ℕ) (opp : MevOpportunity) (reason : FillSkipReason) : Book :=
  { book with skips := book.skips ++ [skipOf block opp reason] }

/-- Records a fill and adds it to the totals. -/
def Book.fill (book : Book) (fill : PaperFill) : Book :=
  { book with
    fills := book.fills ++ [fill]
    grossTotal := saturatingAdd 128 book.grossTotal fill.grossWei
    gasTotal := saturatingAdd 128 book.gasTotal fill.gasWei
    netTotal := wrapSigned 128 (book.netTotal + fill.netWei)
    bestNet := max book.bestNet fill.netWei }

/-- The record that a ledger returns. -/
def Book.result (book : Book) (policy : LedgerPolicy) (opps : List MevOpportunity)
    (simMode : SimMode) : LedgerResult :=
  { startingGasWei := policy.startingGasWei
    endingGasWei := book.wallet
    reserveWei := policy.reserveWei
    maxDrawdownWei := book.maxDrawdown
    fills := book.fills
    skips := book.skips
    grossWei := book.grossTotal
    gasWei := book.gasTotal
    netProfitWei := book.netTotal
    bestNetWei := book.bestNet
    startBlock := (opps.map (·.blockNumber)).min?
    endBlock := (opps.map (·.blockNumber)).max?
    simMode := simMode }

/-! ## The assumed ledger -/

/-- The gates that `apply` and `apply_simulated` share (`ledger.rs`, lines 167–211). -/
def LedgerPolicy.gate (policy : LedgerPolicy) (wallet fillsThisBlock : ℕ)
    (opp : MevOpportunity) : Option FillSkipReason :=
  if ¬isNativeEligible opp.strategy then some .notNativeUnit
  else if netWei opp ≤ 0 then some .nonPositiveNet
  else if policy.maxFills ≤ fillsThisBlock then some .maxFillsPerBlock
  else if wallet - policy.reserveWei < opp.gasCostWei then some .insufficientGas
  else none

/-- `used_pools` and `fills_this_block`. -/
structure BlockUse where
  pools : List Address := []
  fills : ℕ := 0

/-- The fill that `apply` records (`ledger.rs`, lines 250–273). -/
def assumedFill (block : ℕ) (opp : MevOpportunity) (walletBefore walletAfter : ℕ) : PaperFill :=
  let gross := u256ToU128 opp.expectedProfit
  let net := netWei opp
  { blockNumber := block
    txIndex := txIndexOf opp
    canonicalId := opp.canonicalId
    strategy := opp.strategy.toString
    grossWei := gross
    gasWei := opp.gasCostWei
    netWei := net
    walletBefore := walletBefore
    walletAfter := walletAfter
    pools := poolsOf opp
    mempoolOnly := opp.mempoolOnly
    simMode := .assumed
    simGrossWei := gross
    simNetWei := net
    borrowedWei := 0
    repayOk := true
    stateDrift := false }

/-- The body of the inner loop of `LedgerPolicy::apply` (`ledger.rs`, lines 158–280). -/
def LedgerPolicy.applyStep (policy : LedgerPolicy) (block : ℕ) (t : Book × BlockUse)
    (opp : MevOpportunity) : Book × BlockUse :=
  let (book, use) := t
  match policy.gate book.wallet use.fills opp with
  | some reason => (book.skip block opp reason, use)
  | none =>
    let pools := poolsOf opp
    if pools.any (use.pools.contains ·) then (book.skip block opp .poolConflict, use)
    else
      let after := book.applyWalletDelta (netWei opp)
      (after.fill (assumedFill block opp book.wallet after.wallet),
        { pools := use.pools ++ pools, fills := use.fills + 1 })

/-- Model of `LedgerPolicy::apply` (`ledger.rs`, lines 121–312). -/
def LedgerPolicy.apply (policy : LedgerPolicy) (opps : List MevOpportunity) : LedgerResult :=
  (Grouping.overGroups (·.blockNumber) Before {} policy.applyStep policy.book opps).result
    policy opps .assumed

/-! ## Fields of the books -/

@[simp] theorem applyWalletDelta_wallet (book : Book) (delta : ℤ) :
    (book.applyWalletDelta delta).wallet = saturatingAddSigned 128 book.wallet delta := by rfl

@[simp] theorem applyWalletDelta_fills (book : Book) (delta : ℤ) :
    (book.applyWalletDelta delta).fills = book.fills := by rfl

@[simp] theorem applyWalletDelta_skips (book : Book) (delta : ℤ) :
    (book.applyWalletDelta delta).skips = book.skips := by rfl

@[simp] theorem applyWalletDelta_grossTotal (book : Book) (delta : ℤ) :
    (book.applyWalletDelta delta).grossTotal = book.grossTotal := by rfl

@[simp] theorem applyWalletDelta_gasTotal (book : Book) (delta : ℤ) :
    (book.applyWalletDelta delta).gasTotal = book.gasTotal := by rfl

@[simp] theorem applyWalletDelta_netTotal (book : Book) (delta : ℤ) :
    (book.applyWalletDelta delta).netTotal = book.netTotal := by rfl

@[simp] theorem fill_wallet (book : Book) (f : PaperFill) : (book.fill f).wallet = book.wallet := by
  rfl

@[simp] theorem fill_fills (book : Book) (f : PaperFill) :
    (book.fill f).fills = book.fills ++ [f] := by rfl

@[simp] theorem fill_skips (book : Book) (f : PaperFill) :
    (book.fill f).skips = book.skips := by rfl

@[simp] theorem fill_grossTotal (book : Book) (f : PaperFill) :
    (book.fill f).grossTotal = saturatingAdd 128 book.grossTotal f.grossWei := by rfl

@[simp] theorem fill_gasTotal (book : Book) (f : PaperFill) :
    (book.fill f).gasTotal = saturatingAdd 128 book.gasTotal f.gasWei := by rfl

@[simp] theorem fill_netTotal (book : Book) (f : PaperFill) :
    (book.fill f).netTotal = wrapSigned 128 (book.netTotal + f.netWei) := by rfl

theorem mem_filled {book : Book} {delta : ℤ} {f g : PaperFill} :
    g ∈ ((book.applyWalletDelta delta).fill f).fills ↔ g ∈ book.fills ∨ g = f := by
  rw [fill_fills, applyWalletDelta_fills, List.mem_append, List.mem_singleton]

@[simp] theorem skip_wallet (book : Book) (block : ℕ) (opp : MevOpportunity)
    (reason : FillSkipReason) : (book.skip block opp reason).wallet = book.wallet := rfl

@[simp] theorem skip_fills (book : Book) (block : ℕ) (opp : MevOpportunity)
    (reason : FillSkipReason) : (book.skip block opp reason).fills = book.fills := rfl

@[simp] theorem skip_skips (book : Book) (block : ℕ) (opp : MevOpportunity)
    (reason : FillSkipReason) :
    (book.skip block opp reason).skips = book.skips ++ [skipOf block opp reason] := rfl

@[simp] theorem skip_netTotal (book : Book) (block : ℕ) (opp : MevOpportunity)
    (reason : FillSkipReason) : (book.skip block opp reason).netTotal = book.netTotal := rfl

/-! ## One opportunity -/

theorem gate_eq_none {policy : LedgerPolicy} {wallet fillsThisBlock : ℕ} {opp : MevOpportunity}
    (h : policy.gate wallet fillsThisBlock opp = none) :
    isNativeEligible opp.strategy = true ∧ 0 < netWei opp ∧ fillsThisBlock < policy.maxFills ∧
      opp.gasCostWei ≤ wallet - policy.reserveWei := by
  unfold LedgerPolicy.gate at h
  split_ifs at h with helig hnet hcap hgas
  exact ⟨by simpa using helig, by omega, by omega, by omega⟩

/-- An opportunity is skipped, or it passes the gates, shares no pool with the fills of its
    block and is filled. -/
theorem applyStep_cases (policy : LedgerPolicy) (block : ℕ) (t : Book × BlockUse)
    (opp : MevOpportunity) :
    (∃ reason, policy.applyStep block t opp = (t.1.skip block opp reason, t.2)) ∨
      ∃ f, f = assumedFill block opp t.1.wallet
          (saturatingAddSigned 128 t.1.wallet (netWei opp)) ∧
        policy.gate t.1.wallet t.2.fills opp = none ∧ (∀ p ∈ poolsOf opp, p ∉ t.2.pools) ∧
        policy.applyStep block t opp =
          ((t.1.applyWalletDelta (netWei opp)).fill f,
            { pools := t.2.pools ++ poolsOf opp, fills := t.2.fills + 1 }) := by
  unfold LedgerPolicy.applyStep
  cases hgate : policy.gate t.1.wallet t.2.fills opp with
  | some reason => exact .inl ⟨reason, by simp [hgate]⟩
  | none =>
    by_cases hpool : (poolsOf opp).any (t.2.pools.contains ·) = true
    · exact .inl ⟨.poolConflict, by simp only [hgate]; rw [if_pos hpool]⟩
    · refine .inr ⟨_, rfl, rfl, fun p hp hused => ?_, ?_⟩
      · exact hpool (List.any_eq_true.mpr ⟨p, hp, by simpa using hused⟩)
      · simp only [hgate]
        rw [if_neg hpool, applyWalletDelta_wallet]

/-! ## Every opportunity is booked once -/

/-- The opportunities `done` are the ones of the fills and of the skips of a book. `F` relates
    an opportunity to its fill. -/
def Booked (F : MevOpportunity → PaperFill → Prop) (done : List MevOpportunity)
    (fills : List PaperFill) (skips : List PaperSkip) : Prop :=
  ∃ filled skipped, (filled ++ skipped).Perm done ∧ List.Forall₂ F filled fills ∧
    List.Forall₂ (fun opp skip => ∃ reason, skip = skipOf opp.blockNumber opp reason) skipped skips

theorem forall₂_concat {α β : Type*} {R : α → β → Prop} {l : List α} {l' : List β} {a : α} {b : β}
    (h : List.Forall₂ R l l') (hab : R a b) : List.Forall₂ R (l ++ [a]) (l' ++ [b]) :=
  List.rel_append h (.cons hab .nil)

theorem booked_skip {F : MevOpportunity → PaperFill → Prop} {done : List MevOpportunity}
    {fills : List PaperFill} {skips : List PaperSkip} (h : Booked F done fills skips)
    (opp : MevOpportunity) (reason : FillSkipReason) :
    Booked F (done ++ [opp]) fills (skips ++ [skipOf opp.blockNumber opp reason]) := by
  obtain ⟨filled, skipped, hperm, hfills, hskips⟩ := h
  refine ⟨filled, skipped ++ [opp], ?_, hfills, forall₂_concat hskips ⟨reason, rfl⟩⟩
  rw [← List.append_assoc]
  exact hperm.append_right _

theorem booked_fill {F : MevOpportunity → PaperFill → Prop} {done : List MevOpportunity}
    {fills : List PaperFill} {skips : List PaperSkip} (h : Booked F done fills skips)
    {opp : MevOpportunity} {fill : PaperFill} (hF : F opp fill) :
    Booked F (done ++ [opp]) (fills ++ [fill]) skips := by
  obtain ⟨filled, skipped, hperm, hfills, hskips⟩ := h
  refine ⟨filled ++ [opp], skipped, ?_, forall₂_concat hfills hF, hskips⟩
  have hmove : (filled ++ [opp] ++ skipped).Perm (filled ++ skipped ++ [opp]) := by
    rw [List.append_assoc, List.append_assoc]
    exact List.perm_append_comm.append_left filled
  exact hmove.trans (hperm.append_right _)

theorem booked_nil (F : MevOpportunity → PaperFill → Prop) : Booked F [] [] [] :=
  ⟨[], [], .nil, .nil, .nil⟩

theorem Booked.perm {F : MevOpportunity → PaperFill → Prop} {done opps : List MevOpportunity}
    {fills : List PaperFill} {skips : List PaperSkip} (h : Booked F done fills skips)
    (hperm : done.Perm opps) : Booked F opps fills skips := by
  obtain ⟨filled, skipped, hdone, hfills, hskips⟩ := h
  exact ⟨filled, skipped, hdone.trans hperm, hfills, hskips⟩

/-! ## The wallet -/

/-- The fills carry the wallet from `w` to `w'`. -/
def WalletChain (w : ℕ) : List PaperFill → ℕ → Prop
  | [], w' => w = w'
  | f :: fills, w' => f.walletBefore = w ∧ (f.walletAfter : ℤ) = f.walletBefore + f.netWei ∧
      WalletChain f.walletAfter fills w'

theorem walletChain_concat {w m : ℕ} {fills : List PaperFill} {f : PaperFill}
    (h : WalletChain w fills m) (hbefore : f.walletBefore = m)
    (hafter : (f.walletAfter : ℤ) = f.walletBefore + f.netWei) :
    WalletChain w (fills ++ [f]) f.walletAfter := by
  induction fills generalizing w with
  | nil => exact ⟨hbefore.trans h.symm, hafter, rfl⟩
  | cons g fills ih => exact ⟨h.1, h.2.1, ih h.2.2⟩

theorem walletChain_sum {w w' : ℕ} {fills : List PaperFill} (h : WalletChain w fills w') :
    (w' : ℤ) = w + (fills.map (·.netWei)).sum := by
  induction fills generalizing w with
  | nil => simp [show w = w' from h]
  | cons f fills ih =>
    obtain ⟨hbefore, hafter, htail⟩ := h
    have := ih htail
    rw [List.map_cons, List.sum_cons]
    omega

/-- The wallet does not saturate at the fill. -/
def WalletFits (f : PaperFill) : Prop := (f.walletBefore : ℤ) + f.netWei < 2 ^ 128

theorem u256ToU128_eq {v : ℕ} (h : v < 2 ^ 128) : u256ToU128 v = v := if_neg (by omega)

theorem netWei_eq {opp : MevOpportunity} (hprofit : opp.expectedProfit < 2 ^ 127)
    (hgas : opp.gasCostWei < 2 ^ 127) :
    netWei opp = (opp.expectedProfit : ℤ) - opp.gasCostWei := by
  unfold netWei
  rw [u256ToU128_eq (by omega), asSigned_eq (w := 127) hprofit, asSigned_eq (w := 127) hgas]
  exact wrapSigned_eq (w := 127) (by omega) (by omega)

/-- A gas cost that the cast to `i128` makes negative is never filled: the wallet would
    saturate. -/
theorem gas_lt_of_fits {opp : MevOpportunity} {wallet : ℕ}
    (hprofit : opp.expectedProfit < 2 ^ 127) (hnet : 0 < netWei opp)
    (hgas : opp.gasCostWei ≤ wallet) (hfits : (wallet : ℤ) + netWei opp < 2 ^ 128) :
    opp.gasCostWei < 2 ^ 127 := by
  by_contra hlarge
  have hlt := opp.gasCostWei_lt
  have hnetEq : netWei opp = wrapSigned 128 (opp.expectedProfit - (opp.gasCostWei - 2 ^ 128)) := by
    unfold netWei
    rw [u256ToU128_eq (by omega), asSigned_eq (w := 127) hprofit,
      asSigned_eq_sub (w := 127) (by omega) hlt]
  rw [hnetEq] at hnet hfits
  rcases lt_or_ge ((opp.expectedProfit : ℤ) - (opp.gasCostWei - 2 ^ 128)) (2 ^ 127) with
    hsmall | hbig
  · rw [wrapSigned_eq (w := 127) (by omega) hsmall] at hfits
    omega
  · rw [wrapSigned_eq_sub (w := 127) hbig (by omega)] at hnet
    omega

/-! ## The blocks -/

/-- What the fills of the blocks done so far satisfy. -/
structure BlocksOk (policy : LedgerPolicy) (done : List MevOpportunity) (book : Book) : Prop where
  mem : ∀ f ∈ book.fills, ∃ opp ∈ done, opp.blockNumber = f.blockNumber
  cap : ∀ b, (book.fills.filter (·.blockNumber = b)).length ≤ policy.maxFills
  disjoint : book.fills.Pairwise fun f g => f.blockNumber = g.blockNumber → f.pools.Disjoint g.pools

/-- The local variables of block `k` describe its fills. -/
structure BlockOk (policy : LedgerPolicy) (k : ℕ) (done : List MevOpportunity)
    (t : Book × BlockUse) : Prop extends BlocksOk policy done t.1 where
  count : (t.1.fills.filter (·.blockNumber = k)).length = t.2.fills
  used : ∀ f ∈ t.1.fills, f.blockNumber = k → ∀ p ∈ f.pools, p ∈ t.2.pools

theorem blockOk_start {policy : LedgerPolicy} {k : ℕ} {done : List MevOpportunity} {book : Book}
    (hlt : ∀ opp ∈ done, opp.blockNumber < k) (h : BlocksOk policy done book) :
    BlockOk policy k done (book, {}) := by
  have hne : ∀ f ∈ book.fills, f.blockNumber ≠ k := by
    intro f hf
    obtain ⟨opp, hopp, hblock⟩ := h.mem f hf
    have := hlt opp hopp
    omega
  refine ⟨h, ?_, fun f hf hk => absurd hk (hne f hf)⟩
  rw [List.filter_eq_nil_iff.mpr (by simpa using hne)]
  rfl

theorem blockOk_step {policy : LedgerPolicy} {k : ℕ} {done : List MevOpportunity}
    {t : Book × BlockUse} {opp : MevOpportunity} (hk : opp.blockNumber = k)
    (h : BlockOk policy k done t) :
    BlockOk policy k (done ++ [opp]) (policy.applyStep k t opp) := by
  have hmem : ∀ f ∈ t.1.fills, ∃ o ∈ done ++ [opp], o.blockNumber = f.blockNumber := by
    intro f hf
    obtain ⟨o, ho, hblock⟩ := h.mem f hf
    exact ⟨o, List.mem_append_left _ ho, hblock⟩
  obtain ⟨reason, hskip⟩ | ⟨f, hf, hgate, hpools, hfill⟩ := applyStep_cases policy k t opp
  · rw [hskip]
    exact ⟨⟨hmem, h.cap, h.disjoint⟩, h.count, h.used⟩
  · have hblock : f.blockNumber = k := by rw [hf]; rfl
    have hfpools : f.pools = poolsOf opp := by rw [hf]; rfl
    clear hf
    rw [hfill]
    obtain ⟨-, -, hcap, -⟩ := gate_eq_none hgate
    refine ⟨⟨?_, ?_, ?_⟩, ?_, ?_⟩
    · intro g hg
      rcases mem_filled.mp hg with hg | rfl
      · exact hmem g hg
      · exact ⟨opp, by simp, hk.trans hblock.symm⟩
    · intro b
      rw [fill_fills, applyWalletDelta_fills, List.filter_append, List.length_append]
      by_cases hb : k = b
      · subst hb
        rw [h.count, List.filter_cons_of_pos (by simpa using hblock)]
        show t.2.fills + 1 ≤ policy.maxFills
        omega
      · rw [List.filter_cons_of_neg (by simpa [hblock] using hb)]
        exact h.cap b
    · rw [fill_fills, applyWalletDelta_fills, List.pairwise_append]
      refine ⟨h.disjoint, List.pairwise_singleton _ _, ?_⟩
      intro g hg f' hf' hgf p hpg hpf
      obtain rfl := List.mem_singleton.mp hf'
      exact hpools p (hfpools ▸ hpf) (h.used g hg (hgf.trans hblock) p hpg)
    · rw [fill_fills, applyWalletDelta_fills, List.filter_append, List.length_append, h.count,
        List.filter_cons_of_pos (by simpa using hblock)]
      rfl
    · intro g hg hgk p hp
      rcases mem_filled.mp hg with hg | rfl
      · exact List.mem_append_left _ (h.used g hg hgk p hp)
      · exact List.mem_append_right _ (hfpools ▸ hp)

/-! ## The accounts -/

/-- The fill of an opportunity, up to its place in the wallet chain. -/
structure FillOf (opp : MevOpportunity) (f : PaperFill) : Prop where
  blockNumber : f.blockNumber = opp.blockNumber
  txIndex : f.txIndex = txIndexOf opp
  canonicalId : f.canonicalId = opp.canonicalId
  strategy : f.strategy = opp.strategy.toString
  pools : f.pools = poolsOf opp
  gross : f.grossWei = opp.expectedProfit
  gas : f.gasWei = opp.gasCostWei
  net : f.netWei = (opp.expectedProfit : ℤ) - opp.gasCostWei

/-- What the books satisfy after the opportunities `done`, if no fill has saturated the
    wallet. -/
structure Accounts (policy : LedgerPolicy) (done : List MevOpportunity) (book : Book) : Prop where
  booked : Booked FillOf done book.fills book.skips
  chain : WalletChain policy.startingGasWei book.fills book.wallet
  funded : ∀ f ∈ book.fills, 0 < f.netWei ∧ f.gasWei ≤ f.walletBefore - policy.reserveWei
  gross : book.grossTotal = min (book.fills.map (·.grossWei)).sum (2 ^ 128 - 1)
  gas : book.gasTotal = min (book.fills.map (·.gasWei)).sum (2 ^ 128 - 1)
  net : book.netTotal = wrapSigned 128 (book.fills.map (·.netWei)).sum

theorem saturatingAdd_min (w s x : ℕ) :
    saturatingAdd w (min s (2 ^ w - 1)) x = min (s + x) (2 ^ w - 1) := by
  unfold saturatingAdd
  omega

theorem wrapSigned_add_wrapSigned (w : ℕ) (x y : ℤ) :
    wrapSigned w (wrapSigned w x + y) = wrapSigned w (x + y) := Int.bmod_add_bmod

theorem accounts_step {policy : LedgerPolicy} {k : ℕ} {done : List MevOpportunity}
    {t : Book × BlockUse} {opp : MevOpportunity} (hk : opp.blockNumber = k)
    (hprofit : opp.expectedProfit < 2 ^ 127)
    (h : (∀ f ∈ t.1.fills, WalletFits f) → Accounts policy done t.1)
    (hfits : ∀ f ∈ (policy.applyStep k t opp).1.fills, WalletFits f) :
    Accounts policy (done ++ [opp]) (policy.applyStep k t opp).1 := by
  subst hk
  obtain ⟨reason, hskip⟩ | ⟨f, hf, hgate, -, hfill⟩ := applyStep_cases policy opp.blockNumber t opp
  · rw [hskip] at hfits ⊢
    have h := h hfits
    exact ⟨booked_skip h.booked opp reason, h.chain, h.funded, h.gross, h.gas, h.net⟩
  · have hnetF : f.netWei = netWei opp := by simp only [hf, assumedFill]
    have hgasF : f.gasWei = opp.gasCostWei := by simp only [hf, assumedFill]
    have hbefore : f.walletBefore = t.1.wallet := by simp only [hf, assumedFill]
    have hwallet : f.walletAfter = saturatingAddSigned 128 t.1.wallet (netWei opp) := by
      simp only [hf, assumedFill]
    rw [hfill] at hfits ⊢
    dsimp only at hfits ⊢
    have h := h fun g hg => hfits g (mem_filled.mpr (.inl hg))
    obtain ⟨-, hnet, -, hgas⟩ := gate_eq_none hgate
    have hfit : (t.1.wallet : ℤ) + netWei opp < 2 ^ 128 := by
      have : WalletFits f := hfits f (mem_filled.mpr (.inr rfl))
      rwa [WalletFits, hbefore, hnetF] at this
    have hgas' : opp.gasCostWei < 2 ^ 127 := gas_lt_of_fits hprofit hnet (by omega) hfit
    have hafter : (f.walletAfter : ℤ) = f.walletBefore + f.netWei := by
      rw [hbefore, hnetF, hwallet]
      exact saturatingAddSigned_of_nonneg (by omega) hfit
    have hfillOf : FillOf opp f := by
      have hgross : f.grossWei = opp.expectedProfit := by
        simp only [hf, assumedFill]
        exact u256ToU128_eq (by omega)
      have hnetEq := netWei_eq hprofit hgas'
      refine ⟨?_, ?_, ?_, ?_, ?_, hgross, hgasF, hnetF.trans hnetEq⟩ <;>
        simp only [hf, assumedFill]
    clear hf
    constructor
    · rw [fill_fills, fill_skips, applyWalletDelta_fills, applyWalletDelta_skips]
      exact booked_fill h.booked hfillOf
    · rw [fill_wallet, fill_fills, applyWalletDelta_wallet, applyWalletDelta_fills, ← hwallet]
      exact walletChain_concat h.chain hbefore hafter
    · intro g hg
      rcases mem_filled.mp hg with hg | rfl
      · exact h.funded g hg
      · have hpos : 0 < g.netWei := hnetF ▸ hnet
        have hfunded : g.gasWei ≤ g.walletBefore - policy.reserveWei := by
          rw [hgasF, hbefore]
          exact hgas
        exact ⟨hpos, hfunded⟩
    · rw [fill_grossTotal, applyWalletDelta_grossTotal, h.gross, saturatingAdd_min, fill_fills,
        applyWalletDelta_fills, List.map_append, List.sum_append]
      simp
    · rw [fill_gasTotal, applyWalletDelta_gasTotal, h.gas, saturatingAdd_min, fill_fills,
        applyWalletDelta_fills, List.map_append, List.sum_append]
      simp
    · rw [fill_netTotal, applyWalletDelta_netTotal, h.net, wrapSigned_add_wrapSigned, fill_fills,
        applyWalletDelta_fills, List.map_append, List.sum_append]
      simp

/-! ## The ledger -/

/-- What a ledger without saturation satisfies. -/
structure LedgerOk (policy : LedgerPolicy) (opps : List MevOpportunity) (r : LedgerResult) :
    Prop where
  /-- Every opportunity has one fill or one skip. -/
  booked : Booked FillOf opps r.fills r.skips
  cap : ∀ b, (r.fills.filter (·.blockNumber = b)).length ≤ min (max policy.maxFillsPerBlock 1) 32
  disjoint : r.fills.Pairwise fun f g => f.blockNumber = g.blockNumber → f.pools.Disjoint g.pools
  chain : WalletChain policy.startingGasWei r.fills r.endingGasWei
  funded : ∀ f ∈ r.fills, 0 < f.netWei ∧ f.gasWei ≤ f.walletBefore - policy.reserveWei
  gross : r.grossWei = min (r.fills.map (·.grossWei)).sum (2 ^ 128 - 1)
  gas : r.gasWei = min (r.fills.map (·.gasWei)).sum (2 ^ 128 - 1)
  net : r.netProfitWei = wrapSigned 128 (r.fills.map (·.netWei)).sum
  ending : (r.endingGasWei : ℤ) = policy.startingGasWei + (r.fills.map (·.netWei)).sum
  /-- The totals agree with the wallet as long as their sums fit their types. -/
  totals : (r.fills.map (·.grossWei)).sum < 2 ^ 128 → (r.fills.map (·.gasWei)).sum < 2 ^ 128 →
    (r.fills.map (·.netWei)).sum < 2 ^ 127 →
      (r.endingGasWei : ℤ) = policy.startingGasWei + r.netProfitWei ∧
        (r.grossWei : ℤ) - r.gasWei = r.netProfitWei

theorem blocksOk_apply (policy : LedgerPolicy) (opps : List MevOpportunity) :
    BlocksOk policy (Grouping.inOrder (·.blockNumber) Before opps)
      (Grouping.overGroups (·.blockNumber) Before {} policy.applyStep policy.book opps) := by
  refine Grouping.overGroups_induct (BlocksOk policy) (BlockOk policy) ?_
    (fun k done s hlt h => blockOk_start hlt h) (fun k done t opp _ hk h => blockOk_step hk h)
    fun k done t h => h.toBlocksOk
  exact ⟨by simp [LedgerPolicy.book], by simp [LedgerPolicy.book], by simp [LedgerPolicy.book]⟩

theorem accounts_apply {policy : LedgerPolicy} {opps : List MevOpportunity}
    (hprofit : ∀ opp ∈ opps, opp.expectedProfit < 2 ^ 127)
    (hfits : ∀ f ∈ (policy.apply opps).fills, WalletFits f) :
    Accounts policy (Grouping.inOrder (·.blockNumber) Before opps)
      (Grouping.overGroups (·.blockNumber) Before {} policy.applyStep policy.book opps) := by
  refine Grouping.overGroups_induct
    (fun done book => (∀ f ∈ book.fills, WalletFits f) → Accounts policy done book)
    (fun _ done t => (∀ f ∈ t.1.fills, WalletFits f) → Accounts policy done t.1) ?_
    (fun k done s _ h => h) (fun k done t opp hopp hk h => accounts_step hk (hprofit opp hopp) h)
    (fun k done t h => h) hfits
  intro _
  exact ⟨booked_nil _, rfl, by simp [LedgerPolicy.book], rfl, rfl, rfl⟩

/-- In every fill the net is the gross less the gas. -/
theorem net_eq_of_booked {opps : List MevOpportunity} {fills : List PaperFill}
    {skips : List PaperSkip} (h : Booked FillOf opps fills skips) :
    (fills.map (·.netWei)).sum =
      (((fills.map (·.grossWei)).sum : ℕ) : ℤ) - ((fills.map (·.gasWei)).sum : ℕ) := by
  obtain ⟨filled, -, -, hfills, -⟩ := h
  induction hfills with
  | nil => rfl
  | cons hf _ ih =>
    have hnet := hf.net
    have hgross := hf.gross
    have hgas := hf.gas
    simp only [List.map_cons, List.sum_cons, Nat.cast_add]
    omega

/-- **Main theorem.** As long as no fill saturates the wallet, `apply` books every
    opportunity once, keeps the cap and the pools of every block and hands the wallet from
    fill to fill; its totals are the saturated and the wrapped sums over the fills. -/
theorem apply_accounts (policy : LedgerPolicy) (opps : List MevOpportunity)
    (hprofit : ∀ opp ∈ opps, opp.expectedProfit < 2 ^ 127)
    (hfits : ∀ f ∈ (policy.apply opps).fills, WalletFits f) :
    LedgerOk policy opps (policy.apply opps) := by
  have hblocks := blocksOk_apply policy opps
  have haccounts := accounts_apply hprofit hfits
  have hbooked := haccounts.booked.perm (Grouping.inOrder_perm opps)
  have hsum := walletChain_sum haccounts.chain
  refine ⟨hbooked, hblocks.cap, hblocks.disjoint, haccounts.chain, haccounts.funded,
    haccounts.gross, haccounts.gas, haccounts.net, hsum, fun hgross hgas hnet => ?_⟩
  have hnonneg : 0 ≤ ((policy.apply opps).fills.map (·.netWei)).sum := by
    refine List.sum_nonneg fun x hx => ?_
    obtain ⟨f, hf, rfl⟩ := List.mem_map.mp hx
    exact (haccounts.funded f hf).1.le
  have hnetEq : wrapSigned 128 ((policy.apply opps).fills.map (·.netWei)).sum =
      ((policy.apply opps).fills.map (·.netWei)).sum := wrapSigned_eq (w := 127) (by omega) hnet
  have hgrossEq := min_eq_left (Nat.le_sub_one_of_lt hgross)
  have hgasEq := min_eq_left (Nat.le_sub_one_of_lt hgas)
  constructor
  · rw [show (policy.apply opps).netProfitWei = _ from haccounts.net.trans hnetEq]
    exact hsum
  · rw [show (policy.apply opps).netProfitWei = _ from haccounts.net.trans hnetEq,
      show (policy.apply opps).grossWei = _ from haccounts.gross.trans hgrossEq,
      show (policy.apply opps).gasWei = _ from haccounts.gas.trans hgasEq]
    exact (net_eq_of_booked hbooked).symm

/-- An opportunity of block `block` that claims `profit` for `gas` and touches no pool. -/
def plainOpp (block profit gas : ℕ) (hgas : gas < 2 ^ 128 := by decide) : MevOpportunity :=
  { blockNumber := block
    txIndex := 0
    strategy := .twoHopArb
    expectedProfit := profit
    gasCostWei := gas
    gasCostWei_lt := hgas }

/-- A wallet that starts with `starting` and keeps `reserve`. -/
def plainPolicy (starting reserve : ℕ) (h : starting < 2 ^ 128 := by decide) : LedgerPolicy :=
  { startingGasWei := starting
    reserveWei := reserve
    maxFillsPerBlock := 32
    startingGasWei_lt := h }

theorem apply_accounts_two : LedgerOk (plainPolicy 1000 0) [plainOpp 1 500 100, plainOpp 2 300 100]
    ((plainPolicy 1000 0).apply [plainOpp 1 500 100, plainOpp 2 300 100]) :=
  apply_accounts _ _ (by decide) (by unfold WalletFits; decide)

/-- Three fills of `2 ^ 127 - 1` for `2 ^ 127 - 2` saturate both totals, three nets of
    `2 ^ 126` wrap the net total, and a fill without gas cost is taken from below the
    reserve. -/
theorem totals_saturate :
    let gross := [1, 2, 3].map fun block => plainOpp block (2 ^ 127 - 1) (2 ^ 127 - 2)
    let nets := [1, 2, 3].map fun block => plainOpp block (2 ^ 126) 0
    ((∀ opp ∈ gross, opp.expectedProfit < 2 ^ 127) ∧
      (∀ f ∈ ((plainPolicy (2 ^ 127) 0).apply gross).fills, WalletFits f) ∧
      (((plainPolicy (2 ^ 127) 0).apply gross).grossWei : ℤ) -
        ((plainPolicy (2 ^ 127) 0).apply gross).gasWei ≠
          ((plainPolicy (2 ^ 127) 0).apply gross).netProfitWei) ∧
    ((∀ opp ∈ nets, opp.expectedProfit < 2 ^ 127) ∧
      (∀ f ∈ ((plainPolicy 0 0).apply nets).fills, WalletFits f) ∧
      (((plainPolicy 0 0).apply nets).endingGasWei : ℤ) ≠
        0 + ((plainPolicy 0 0).apply nets).netProfitWei) ∧
    ∃ f ∈ ((plainPolicy 5 10).apply [plainOpp 1 100 0]).fills,
      ¬(f.gasWei : ℤ) ≤ (f.walletBefore : ℤ) - 10 := by
  unfold WalletFits
  decide

end MevScout.Paper
