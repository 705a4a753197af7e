import MevScout.Explorer.Exact
import MevScout.Common.FirstFit

/-!
# Pairs of just-in-time liquidity

The two loops of `classify_jit` pair the Mints of a block and the positions of earlier blocks with
Burns: a first fit. An event needs a swap on the pool in the range, wherever in the block it
stands, and its fees are those of all such swaps.

Results:
* `classifyJit_eq_filterMap`: the events are those of the pairs;
* `jitPairs_matching`: nothing is paired twice, what stays without a Burn found every Burn that
  closes it taken, no pairing has more than twice as many pairs, and none has more where no Burn
  covers only some openings of a position;
* `classifyJit_sound_iff`: an event rests on the swaps made while its position was open exactly
  when the others that it counts add nothing.
-/

namespace MevScout.Explorer

open FirstFit

/-! ## Openings -/

/-- What a Burn can close: a Mint of the block, with the index of its transaction, or a position
    of an earlier block. -/
inductive Opening where
  | mint (txIndex : ℕ) (fact : JitFact)
  | prior (position : OpenPosition)
  deriving DecidableEq

namespace Opening

def pool : Opening → Address
  | mint _ m => m.pool
  | prior p => p.pool

def owner : Opening → Address
  | mint _ m => m.owner
  | prior p => p.owner

def tickLower : Opening → ℤ
  | mint _ m => m.tickLower
  | prior p => p.tickLower

def tickUpper : Opening → ℤ
  | mint _ m => m.tickUpper
  | prior p => p.tickUpper

def liquidity : Opening → ℕ
  | mint _ m => m.liquidity
  | prior p => p.liquidity

/-- A Mint opens before the later transactions, a position of an earlier block before all. -/
def opensBefore : Opening → ℕ → Bool
  | mint mintTx _, burnTx => burnTx > mintTx
  | prior _, _ => true

/-- The position of the event of an opening and a Burn (`jit.rs`, lines 80–92 and 126–139). -/
def position : Opening → ℕ × JitFact → JitEventPosition
  | mint mintTx m, burn =>
    ⟨m.pool, m.owner, m.tickLower, m.tickUpper, mintTx, burn.1, m.binAmm⟩
  | prior p, burn => ⟨p.pool, p.owner, p.tickLower, p.tickUpper, burn.1, burn.1, burn.2.binAmm⟩

/-- The Burn has the coordinates of the opening. -/
def Fits (o : Opening) (b : JitFact) : Prop :=
  b.pool = o.pool ∧ b.owner = o.owner ∧ b.tickLower = o.tickLower ∧ b.tickUpper = o.tickUpper

/-- The pairing relation of both loops: a Burn with the coordinates of the opening, after it and
    of at least its liquidity. -/
def closedBy (o : Opening) (burn : ℕ × JitFact) : Bool :=
  o.opensBefore burn.1 && decide (burn.2.pool = o.pool ∧ burn.2.owner = o.owner ∧
    burn.2.tickLower = o.tickLower ∧ burn.2.tickUpper = o.tickUpper ∧
    burn.2.liquidity ≥ o.liquidity)

theorem closedBy_iff {o : Opening} {burn : ℕ × JitFact} : o.closedBy burn ↔
    o.opensBefore burn.1 ∧ o.Fits burn.2 ∧ o.liquidity ≤ burn.2.liquidity := by
  simp only [closedBy, Fits, Bool.and_eq_true, decide_eq_true_eq, and_assoc, ge_iff_le]

theorem position_pool (o : Opening) (burn : ℕ × JitFact) : (o.position burn).pool = o.pool := by
  cases o <;> rfl

theorem position_tickLower (o : Opening) (burn : ℕ × JitFact) :
    (o.position burn).tickLower = o.tickLower := by
  cases o <;> rfl

theorem position_tickUpper (o : Opening) (burn : ℕ × JitFact) :
    (o.position burn).tickUpper = o.tickUpper := by
  cases o <;> rfl

end Opening

/-- What marks a Burn as used (`jit.rs`, lines 61–63). -/
def burnKey (burn : ℕ × JitFact) : ℕ × ℕ := (burn.1, burn.2.logIndex)

/-- The Mints of the block and the open positions, in the order of the loops. -/
def openings (input : BlockInput) : List Opening :=
  (jitFacts input true).map (fun m => .mint m.1 m.2) ++ input.openPositions.map .prior

/-- The pairs of both loops. -/
def jitPairs (input : BlockInput) : List (Opening × ℕ × JitFact) :=
  firstFit Opening.closedBy burnKey (jitFacts input false) ∅ (openings input)

/-- The event of a pair. -/
def pairEvent (input : BlockInput) (p : Opening × ℕ × JitFact) : Option MevEvent :=
  buildJitEvent input (p.1.position p.2)

/-! ## The loops are a first fit -/

/-- One step of either loop. -/
def closeOpening (input : BlockInput) (s : JitState) (o : Opening) : JitState :=
  takeBurn input s ((jitFacts input false).find? fun burn =>
    o.closedBy burn && decide (burnKey burn ∉ s.used)) fun burnTx b => o.position (burnTx, b)

variable {input : BlockInput}

theorem findBurn_eq (burns : List (ℕ × JitFact)) (used : Finset (ℕ × ℕ)) (o : Opening) :
    findBurn burns used o.pool o.owner o.tickLower o.tickUpper o.liquidity o.opensBefore =
      burns.find? fun burn => o.closedBy burn && decide (burnKey burn ∉ used) := by
  refine congrArg (fun f => burns.find? f) (funext fun burn => ?_)
  rw [Bool.eq_iff_iff, Bool.and_eq_true, Opening.closedBy_iff, decide_eq_true_iff,
    decide_eq_true_iff, burnKey, Opening.Fits]
  tauto

theorem closeMint_eq (s : JitState) (m : ℕ × JitFact) :
    closeMint input s m = closeOpening input s (.mint m.1 m.2) := by
  rw [closeOpening, ← findBurn_eq]
  rfl

theorem closeOpen_eq (s : JitState) (p : OpenPosition) :
    closeOpen input s p = closeOpening input s (.prior p) := by
  rw [closeOpening, ← findBurn_eq]
  rfl

/-- The loops emit the events of the pairs of a first fit. -/
theorem foldl_closeOpening (os : List Opening) (s : JitState) :
    (os.foldl (closeOpening input) s).out = s.out ++
      (firstFit Opening.closedBy burnKey (jitFacts input false) s.used os).filterMap
        (pairEvent input) := by
  induction os generalizing s with
  | nil => simp [firstFit]
  | cons o os ih =>
    rw [List.foldl_cons, ih]
    rcases hfind : (jitFacts input false).find? fun burn =>
      o.closedBy burn && decide (burnKey burn ∉ s.used) with _ | burn
    · have hstep : closeOpening input s o = s := by rw [closeOpening, hfind]; rfl
      rw [firstFit_cons_none hfind, hstep]
    · have hstep : closeOpening input s o =
          ⟨insert (burnKey burn) s.used, s.out ++ (pairEvent input (o, burn)).toList⟩ := by
        rw [closeOpening, hfind]
        rfl
      rw [firstFit_cons_some hfind, hstep, List.filterMap_cons]
      rcases pairEvent input (o, burn) with _ | e <;> simp

/-- The events are those of the pairs. -/
theorem classifyJit_eq_filterMap (input : BlockInput) :
    classifyJit input = (jitPairs input).filterMap (pairEvent input) := by
  have hmints : (jitFacts input true).foldl (closeMint input) {} =
      ((jitFacts input true).map fun m => Opening.mint m.1 m.2).foldl (closeOpening input) {} := by
    rw [List.foldl_map]
    exact congrArg (fun f => (jitFacts input true).foldl f {}) (funext₂ closeMint_eq)
  have hopen : ∀ s, input.openPositions.foldl (closeOpen input) s =
      (input.openPositions.map Opening.prior).foldl (closeOpening input) s := by
    intro s
    rw [List.foldl_map]
    exact congrArg (fun f => input.openPositions.foldl f s) (funext₂ closeOpen_eq)
  unfold classifyJit
  rw [hmints, hopen, ← List.foldl_append, foldl_closeOpening]
  rfl

/-! ## The pairs are a matching -/

/-- The order of the logs of a block, by transaction and by log. -/
def LogBefore (a b : ℕ × ℕ) : Prop := a.1 < b.1 ∨ a.1 = b.1 ∧ a.2 < b.2

instance (a b : ℕ × ℕ) : Decidable (LogBefore a b) := inferInstanceAs (Decidable (_ ∨ _))

/-- A pairing of openings with Burns that close them, each of both at most once. -/
def IsPairing (input : BlockInput) (os : List Opening) (M : List (Opening × ℕ × JitFact)) : Prop :=
  IsMatching Opening.closedBy burnKey (jitFacts input false) ∅ os M

/-- A Burn that covers one opening of a position covers every other one. -/
def CoversAlike (input : BlockInput) : Prop :=
  ∀ o ∈ openings input, ∀ o' ∈ openings input, ∀ burn ∈ jitFacts input false,
    o.Fits burn.2 → o'.Fits burn.2 → o.liquidity ≤ burn.2.liquidity →
      o'.liquidity ≤ burn.2.liquidity

/-- Where no Burn covers only some openings of a position, no pairing has more pairs. -/
theorem length_le_jitPairs
    (horder : (jitFacts input false).Pairwise fun b b' => LogBefore (burnKey b) (burnKey b'))
    (hcovers : CoversAlike input) {M : List (Opening × ℕ × JitFact)}
    (hM : IsPairing input (openings input) M) : M.length ≤ (jitPairs input).length := by
  have hslots : (jitFacts input false).Pairwise fun b b' => b.1 ≤ b'.1 := by
    refine horder.imp fun h => ?_
    rcases h with h | ⟨h, -⟩
    · exact h.le
    · exact h.le
  have hkeys : ((jitFacts input false).map burnKey).Nodup := by
    refine List.pairwise_map.mpr (horder.imp fun h heq => ?_)
    rw [heq] at h
    rcases h with h | ⟨-, h⟩ <;> exact lt_irrefl _ h
  refine hM.length_le hslots hkeys ?_
  intro a ha c hc s hs t ht hle has hat hcs
  rw [Opening.closedBy_iff] at has hat hcs ⊢
  have hfits : c.Fits t.2 := by
    obtain ⟨hpool, howner, hlower, hupper⟩ := has.2.1
    obtain ⟨hpool', howner', hlower', hupper'⟩ := hcs.2.1
    obtain ⟨htpool, htowner, htlower, htupper⟩ := hat.2.1
    exact ⟨by rw [htpool, ← hpool, hpool'], by rw [htowner, ← howner, howner'],
      by rw [htlower, ← hlower, hlower'], by rw [htupper, ← hupper, hupper']⟩
  refine ⟨?_, hfits, hcovers a ha c hc t ht hat.2.1 hfits hat.2.2⟩
  -- a later Burn comes after the opening too
  rcases c with ⟨mintTx, m⟩ | p
  · have hopens : mintTx < s.1 := of_decide_eq_true hcs.1
    exact decide_eq_true (hopens.trans_le hle)
  · rfl

/-- **Main theorem.** The pairs of a block are a matching, and an opening stays without a Burn only
    if every Burn that closes it is taken by an earlier opening. No pairing has more than twice as
    many pairs, and none has more where no Burn covers only some openings of a position. -/
theorem jitPairs_matching (input : BlockInput) :
    classifyJit input = (jitPairs input).filterMap (pairEvent input) ∧
    IsPairing input (openings input) (jitPairs input) ∧
    (∀ pre o post, openings input = pre ++ o :: post → ∃ taken rest,
      jitPairs input = taken ++ rest ∧ IsPairing input pre taken ∧
        ((∃ burn, rest.head? = some (o, burn)) ∨
          ∀ burn ∈ jitFacts input false, o.closedBy burn →
            ∃ p ∈ taken, burnKey p.2 = burnKey burn)) ∧
    (∀ M, IsPairing input (openings input) M → M.length ≤ 2 * (jitPairs input).length) ∧
    ((jitFacts input false).Pairwise (fun b b' => LogBefore (burnKey b) (burnKey b')) →
      CoversAlike input →
        ∀ M, IsPairing input (openings input) M → M.length ≤ (jitPairs input).length) := by
  refine ⟨classifyJit_eq_filterMap input, firstFit_isMatching _ _, ?_, ?_, ?_⟩
  · intro pre o post hsplit
    unfold jitPairs
    rw [hsplit]
    have hblocked := @firstFit_blocked _ _ _ _ Opening.closedBy burnKey (jitFacts input false)
      pre post o ∅
    rcases hblocked with ⟨burn, rest, heq⟩ | hblocked
    · exact ⟨_, _, heq, firstFit_isMatching _ _, .inl ⟨burn, rfl⟩⟩
    · refine ⟨_, _, firstFit_append pre (o :: post) ∅, firstFit_isMatching _ _, .inr ?_⟩
      intro burn hburn hcloses
      exact (hblocked burn hburn hcloses).resolve_left (Finset.notMem_empty _)
  · intro M hM
    exact hM.length_le_two_mul
  · intro horder hcovers M hM
    exact length_le_jitPairs horder hcovers hM

/-- Two Mints of one position and two Burns, the first of which covers both Mints. -/
def coverInput : BlockInput where
  ctx :=
    { wrappedNative := 99, priority := [], v2LikePools := ∅, causalWindowTxs := 8
      price := ⟨fun _ _ => false, fun _ _ => false⟩ }
  txs :=
    [{ txIndex := 1, sender := 23, jit := [⟨11, 23, -10, 10, true, 10, 1, false⟩] },
      { txIndex := 2, sender := 23, jit := [⟨11, 23, -10, 10, true, 20, 2, false⟩] },
      { txIndex := 3, sender := 23, jit := [⟨11, 23, -10, 10, false, 20, 3, false⟩] },
      { txIndex := 4, sender := 23, jit := [⟨11, 23, -10, 10, false, 10, 4, false⟩] }]

/-- The smaller Mint takes the Burn that the larger one needs: one pair where two are possible. -/
theorem large_burn_spent_on_small_mint :
    (jitPairs coverInput).length = 1 ∧
      ∃ M, IsPairing coverInput (openings coverInput) M ∧ M.length = 2 := by
  refine ⟨by decide, [(.mint 1 ⟨11, 23, -10, 10, true, 10, 1, false⟩,
    4, ⟨11, 23, -10, 10, false, 10, 4, false⟩), (.mint 2 ⟨11, 23, -10, 10, true, 20, 2, false⟩,
    3, ⟨11, 23, -10, 10, false, 20, 3, false⟩)], ⟨?_, ?_, ?_, ?_, ?_⟩, rfl⟩ <;> decide

/-! ## The swaps of an open position -/

/-- The swaps of a block with the index of their transaction. -/
def blockSwaps (input : BlockInput) : List (ℕ × SwapFact) :=
  input.txs.flatMap fun t => t.swaps.map fun s => (t.txIndex, s)

/-- A log stands after the one that opened the position, if that is in the block. -/
def Opening.OpenAt : Opening → ℕ × ℕ → Prop
  | mint mintTx m, log => LogBefore (mintTx, m.logIndex) log
  | prior _, _ => True

instance : ∀ (o : Opening) (log : ℕ × ℕ), Decidable (o.OpenAt log)
  | .mint .., _ => inferInstanceAs (Decidable (LogBefore _ _))
  | .prior _, _ => inferInstanceAs (Decidable True)

/-- A swap on the pool after the opening and before the Burn, at a tick of the range where the pool
    has ticks. -/
def Opening.Earns (o : Opening) (burn : ℕ × JitFact) (s : ℕ × SwapFact) : Prop :=
  s.2.pool = o.pool ∧ o.OpenAt (s.1, s.2.logIndex) ∧
    LogBefore (s.1, s.2.logIndex) (burnKey burn) ∧
    ((o.position burn).binAmm ∨ s.2.tick.any fun k => o.tickLower ≤ k ∧ k < o.tickUpper)

instance (o : Opening) (burn : ℕ × JitFact) (s : ℕ × SwapFact) : Decidable (o.Earns burn s) :=
  inferInstanceAs (Decidable (_ ∧ _))

/-- The swaps that a position earns from. -/
def earned (input : BlockInput) (o : Opening) (burn : ℕ × JitFact) : List SwapFact :=
  ((blockSwaps input).filter fun s => o.Earns burn s).map (·.2)

/-- The other swaps that the event of a pair counts. -/
def strays (input : BlockInput) (o : Opening) (burn : ℕ × JitFact) : List SwapFact :=
  ((blockSwaps input).filter fun s => (o.position burn).inRange s.2 ∧ ¬o.Earns burn s).map (·.2)

/-- The other swaps that are counted change no sum: each sells a token that an earning swap sells
    too, and token by token their fees are a multiple of `2 ^ 256`. -/
def StraysAddNothing (input : BlockInput) (o : Opening) (burn : ℕ × JitFact) : Prop :=
  ∀ s ∈ strays input o burn, (∃ g ∈ earned input o burn, g.tokenIn = s.tokenIn) ∧
    2 ^ 256 ∣ (((strays input o burn).filter (·.tokenIn = s.tokenIn)).map
      (swapFee input.ctx.jitPoolFeeBps)).sum

/-- An event pairs an opening with a Burn of its pool, owner and range, between which the position
    earns from a swap, and its fees are those of the swaps that it earns from. -/
structure JitSound (input : BlockInput) (o : Opening) (burn : ℕ × JitFact) (e : MevEvent) :
    Prop where
  opened : o ∈ openings input
  burned : burn ∈ jitFacts input false
  closed : o.closedBy burn
  owner : e.searcher = o.owner ∧ e.pools = [o.pool] ∧ e.details.tickLower = some o.tickLower ∧
    e.details.tickUpper = some o.tickUpper ∧ e.details.burnTxIndex = some burn.1
  earns : earned input o burn ≠ []
  fees : e.details.feesEstimated = feesByToken input.ctx.jitPoolFeeBps (earned input o burn)

/-- The fee that some swaps pay in one token. -/
theorem feesByToken_eq (bps : ℕ) (swaps : List SwapFact) :
    feesByToken bps swaps =
      ((swaps.map (·.tokenIn)).dedup.insertionSort (· ≤ ·)).map fun token =>
        (token, ((swaps.filter (·.tokenIn = token)).map (swapFee bps)).sum % 2 ^ 256) := by
  unfold feesByToken
  refine List.map_congr_left fun token _ => ?_
  rw [foldl_wrappingAdd _ _ (Nat.two_pow_pos 256), Nat.zero_add]

/-- The fees of two lists agree where they sell the same tokens and pay the same in each. -/
theorem feesByToken_congr_iff (bps : ℕ) (l m : List SwapFact) :
    feesByToken bps l = feesByToken bps m ↔
      (∀ token, token ∈ l.map (·.tokenIn) ↔ token ∈ m.map (·.tokenIn)) ∧
      ∀ token ∈ l.map (·.tokenIn),
        ((l.filter (·.tokenIn = token)).map (swapFee bps)).sum % 2 ^ 256 =
          ((m.filter (·.tokenIn = token)).map (swapFee bps)).sum % 2 ^ 256 := by
  have hmem : ∀ (swaps : List SwapFact) (token : Address),
      token ∈ (swaps.map (·.tokenIn)).dedup.insertionSort (· ≤ ·) ↔
        token ∈ swaps.map (·.tokenIn) := by
    intro swaps token
    rw [(List.perm_insertionSort _ _).mem_iff, List.mem_dedup]
  rw [feesByToken_eq, feesByToken_eq]
  constructor
  · intro h
    have htokens : (l.map (·.tokenIn)).dedup.insertionSort (· ≤ ·) =
        (m.map (·.tokenIn)).dedup.insertionSort (· ≤ ·) := by
      have := congrArg (List.map Prod.fst) h
      simpa only [List.map_map, Function.comp_def, List.map_id'] using this
    refine ⟨fun token => by rw [← hmem l, htokens, hmem m], fun token htoken => ?_⟩
    rw [htokens] at h
    have htoken' : token ∈ (m.map (·.tokenIn)).dedup.insertionSort (· ≤ ·) := by
      rw [← htokens]
      exact (hmem l token).mpr htoken
    exact (Prod.mk.inj (List.map_inj_left.mp h token htoken')).2
  · rintro ⟨htokens, hsums⟩
    have hperm : (l.map (·.tokenIn)).dedup.Perm (m.map (·.tokenIn)).dedup := by
      refine (List.perm_ext_iff_of_nodup (List.nodup_dedup _) (List.nodup_dedup _)).mpr ?_
      intro token
      rw [List.mem_dedup, List.mem_dedup, htokens]
    have hsorted : ∀ swaps : List Address, (swaps.insertionSort (· ≤ ·)).Pairwise (· ≤ ·) :=
      fun swaps => List.pairwise_insertionSort ..
    have hsort : (l.map (·.tokenIn)).dedup.insertionSort (· ≤ ·) =
        (m.map (·.tokenIn)).dedup.insertionSort (· ≤ ·) := by
      refine List.Perm.eq_of_pairwise' (hsorted _) (hsorted _) ?_
      exact (List.perm_insertionSort _ _).trans (hperm.trans (List.perm_insertionSort _ _).symm)
    rw [hsort]
    refine List.map_congr_left fun token htoken => ?_
    rw [hsums token ((htokens token).mpr ((hmem m token).mp htoken))]

/-- Swaps that join others change no fee exactly where each sells a token that those sell too, and
    token by token their own fees are a multiple of `2 ^ 256`. -/
theorem feesByToken_append_iff (bps : ℕ) {l m n : List SwapFact} (hperm : l.Perm (m ++ n)) :
    feesByToken bps l = feesByToken bps m ↔
      ∀ s ∈ n, (∃ g ∈ m, g.tokenIn = s.tokenIn) ∧
        2 ^ 256 ∣ ((n.filter (·.tokenIn = s.tokenIn)).map (swapFee bps)).sum := by
  have hmem : ∀ token, token ∈ l.map (·.tokenIn) ↔
      token ∈ m.map (·.tokenIn) ∨ ∃ s ∈ n, s.tokenIn = token := by
    intro token
    rw [(hperm.map _).mem_iff, List.map_append, List.mem_append, List.mem_map (l := n)]
  have hsum : ∀ token, ((l.filter (·.tokenIn = token)).map (swapFee bps)).sum =
      ((m.filter (·.tokenIn = token)).map (swapFee bps)).sum +
        ((n.filter (·.tokenIn = token)).map (swapFee bps)).sum := by
    intro token
    rw [((hperm.filter _).map _).sum_eq, List.filter_append, List.map_append, List.sum_append]
  rw [feesByToken_congr_iff]
  constructor
  · rintro ⟨htokens, hsums⟩ s hs
    have htoken := (hmem s.tokenIn).mpr (.inr ⟨s, hs, rfl⟩)
    refine ⟨List.mem_map.mp ((htokens _).mp htoken), ?_⟩
    have h := hsums _ htoken
    rw [hsum] at h
    have hzero : _ ≡ 0 [MOD 2 ^ 256] :=
      Nat.ModEq.add_left_cancel' _ (h.trans (by rw [Nat.add_zero]))
    exact Nat.modEq_zero_iff_dvd.mp hzero
  · intro hnothing
    refine ⟨fun token => ?_, fun token htoken => ?_⟩
    · rw [hmem]
      refine ⟨fun h => h.elim id ?_, .inl⟩
      rintro ⟨s, hs, rfl⟩
      exact List.mem_map.mpr (hnothing s hs).1
    · rw [hsum]
      by_cases hs : ∃ s ∈ n, s.tokenIn = token
      · obtain ⟨s, hs, rfl⟩ := hs
        obtain ⟨k, hk⟩ := (hnothing s hs).2
        rw [hk, Nat.add_mul_mod_self_left]
      · have hnil : n.filter (·.tokenIn = token) = [] := by
          rw [List.filter_eq_nil_iff]
          intro s hmem htoken
          exact hs ⟨s, hmem, of_decide_eq_true htoken⟩
        rw [hnil, List.map_nil, List.sum_nil, Nat.add_zero]

/-- The swaps that the event of a pair counts. -/
def counted (input : BlockInput) (pos : JitEventPosition) : List SwapFact :=
  (input.txs.flatMap (·.swaps)).filter pos.inRange

theorem Opening.Earns.inRange {o : Opening} {burn : ℕ × JitFact} {s : ℕ × SwapFact}
    (h : o.Earns burn s) : (o.position burn).inRange s.2 := by
  obtain ⟨hpool, -, -, htick⟩ := h
  unfold JitEventPosition.inRange
  rw [o.position_pool, o.position_tickLower, o.position_tickUpper, Bool.and_eq_true,
    Bool.or_eq_true]
  refine ⟨decide_eq_true hpool, htick.imp_right fun htick => ?_⟩
  obtain ⟨k, hk, hin⟩ := (Option.any_eq_true _ _).mp htick
  rw [decide_eq_true_eq] at hin
  exact (Option.any_eq_true _ _).mpr ⟨k, hk, decide_eq_true ⟨hin.1, hin.2.le⟩⟩

/-- The counted swaps are those that the position earns from and the strays. -/
theorem counted_perm (input : BlockInput) (o : Opening) (burn : ℕ × JitFact) :
    (counted input (o.position burn)).Perm (earned input o burn ++ strays input o burn) := by
  have hcounted : counted input (o.position burn) =
      ((blockSwaps input).filter fun s => (o.position burn).inRange s.2).map (·.2) := by
    have hswaps : input.txs.flatMap (·.swaps) = (blockSwaps input).map (·.2) := by
      simp [blockSwaps, List.map_flatMap, Function.comp_def]
    rw [counted, hswaps, List.filter_map]
    rfl
  have hearned : (((blockSwaps input).filter fun s => (o.position burn).inRange s.2).filter
      fun s => o.Earns burn s) = (blockSwaps input).filter fun s => o.Earns burn s := by
    rw [List.filter_filter]
    refine List.filter_congr fun s _ => ?_
    rw [Bool.and_eq_left_iff_imp, decide_eq_true_eq]
    exact Opening.Earns.inRange
  have hstrays : (((blockSwaps input).filter fun s => (o.position burn).inRange s.2).filter
      fun s => !decide (o.Earns burn s)) =
        (blockSwaps input).filter fun s => (o.position burn).inRange s.2 ∧ ¬o.Earns burn s := by
    rw [List.filter_filter]
    refine List.filter_congr fun s _ => ?_
    rw [Bool.decide_and, Bool.decide_eq_true, decide_not, Bool.and_comm]
  have hperm := List.filter_append_perm (fun s => decide (o.Earns burn s))
    ((blockSwaps input).filter fun s => (o.position burn).inRange s.2)
  rw [hearned, hstrays] at hperm
  rw [hcounted, earned, strays, ← List.map_append]
  exact (hperm.map _).symm

/-- The fees of the counted swaps are those of the earning ones exactly when the strays add
    nothing. -/
theorem fees_eq_iff (o : Opening) (burn : ℕ × JitFact) :
    feesByToken input.ctx.jitPoolFeeBps (counted input (o.position burn)) =
        feesByToken input.ctx.jitPoolFeeBps (earned input o burn) ↔
      StraysAddNothing input o burn :=
  feesByToken_append_iff input.ctx.jitPoolFeeBps (counted_perm input o burn)

/-- What the event of a pair says. -/
theorem pairEvent_spec {o : Opening} {burn : ℕ × JitFact} {e : MevEvent}
    (h : pairEvent input (o, burn) = some e) :
    counted input (o.position burn) ≠ [] ∧ e.searcher = o.owner ∧ e.pools = [o.pool] ∧
      e.details.tickLower = some o.tickLower ∧ e.details.tickUpper = some o.tickUpper ∧
      e.details.burnTxIndex = some burn.1 ∧
      e.details.feesEstimated =
        feesByToken input.ctx.jitPoolFeeBps (counted input (o.position burn)) := by
  unfold pairEvent buildJitEvent at h
  by_cases hany : (input.txs.flatMap (·.swaps)).any (o.position burn).inRange
  · rw [if_pos hany, Option.some.injEq] at h
    subst h
    refine ⟨?_, ?_, ?_, ?_, ?_, ?_, rfl⟩
    · obtain ⟨s, hs, hin⟩ := List.any_eq_true.mp hany
      exact List.ne_nil_of_mem (List.mem_filter.mpr ⟨hs, hin⟩)
    all_goals cases o <;> rfl
  · rw [if_neg hany] at h
    cases h

/-- **Main theorem.** The event of a pair rests on the swaps made while its position was open
    exactly when the other swaps that it counts add nothing. -/
theorem classifyJit_sound_iff (input : BlockInput) :
    classifyJit input = (jitPairs input).filterMap (pairEvent input) ∧
    ∀ p ∈ jitPairs input, ∀ e, pairEvent input p = some e →
      (JitSound input p.1 p.2 e ↔ StraysAddNothing input p.1 p.2) := by
  refine ⟨classifyJit_eq_filterMap input, ?_⟩
  rintro ⟨o, burn⟩ hp e he
  have hmatch : IsPairing input (openings input) (jitPairs input) := firstFit_isMatching _ _
  obtain ⟨hcounted, howner, hpools, hlower, hupper, hburn, hfees⟩ := pairEvent_spec he
  constructor
  · intro h
    exact (fees_eq_iff o burn).mp (hfees.symm.trans h.fees)
  · intro hnothing
    refine ⟨?_, hmatch.slots _ hp, hmatch.fits _ hp, ⟨howner, hpools, hlower, hupper, hburn⟩, ?_,
      hfees.trans ((fees_eq_iff o burn).mpr hnothing)⟩
    · exact hmatch.items.subset (List.mem_map_of_mem hp)
    · intro hnil
      have hperm := counted_perm input o burn
      rw [hnil, List.nil_append] at hperm
      rcases hstrays : strays input o burn with _ | ⟨s, rest⟩
      · rw [hstrays] at hperm
        exact hcounted hperm.eq_nil
      · have hs : s ∈ strays input o burn := by rw [hstrays]; exact List.mem_cons_self ..
        obtain ⟨g, hg, -⟩ := (hnothing s hs).1
        rw [hnil] at hg
        cases hg

/-- A swap in the range, then a Mint, then its Burn. -/
def earlySwapInput : BlockInput where
  ctx := coverInput.ctx
  txs :=
    [{ txIndex := 0, sender := 24
       swaps := [{ pool := 11, amm := .v3, tokenIn := 1, tokenOut := 2, amountIn := 100000
                   amountOut := 99000, logIndex := 0, tick := some 0 }] },
      { txIndex := 1, sender := 23, jit := [⟨11, 23, -10, 10, true, 10, 1, false⟩] },
      { txIndex := 2, sender := 23, jit := [⟨11, 23, -10, 10, false, 10, 2, false⟩] }]

/-- The swap before the Mint validates the event, and its fee is claimed for the position. -/
theorem swap_before_mint_counted :
    (classifyJit earlySwapInput).map (·.details.feesEstimated) = [[(1, 300)]] ∧
      (jitPairs earlySwapInput).map (fun p => earned earlySwapInput p.1 p.2) = [[]] ∧
      ∃ p ∈ jitPairs earlySwapInput, ∃ e, pairEvent earlySwapInput p = some e ∧
        ¬JitSound earlySwapInput p.1 p.2 e := by
  refine ⟨by decide +kernel, by decide +kernel, (.mint 1 ⟨11, 23, -10, 10, true, 10, 1, false⟩,
    2, ⟨11, 23, -10, 10, false, 10, 2, false⟩), by decide +kernel, _, rfl, ?_⟩
  intro h
  exact h.earns (by decide +kernel)

end MevScout.Explorer
