import MevScout.Common.Map
import MevScout.Pool.Decoders

/-!
# Just-in-time liquidity

Models of `process_tx` and `detect` of `core/src/mev/detectors/jit.rs`, and what the detector is
for: a position is minted, a swap trades in its range, and a burn removes it, in this order.

The detector reads the mints and burns of a transaction before its swaps. A burn marks the first
mint of its range, whoever owns it and whatever it takes; a swap goes on touching what is marked;
and mints of one transaction share the key of what has been emitted.

Results:
* `mints_processTx`: what a transaction does to a pool depends on the logs of the pool only.
-/

namespace MevScout.Mev

open Chain Pool

/-! ## The detector -/

/-- Model of `ActiveMint` (`jit.rs`, lines 16–34), without what only the size of a report is made
    of. -/
structure ActiveMint where
  mintTxIndex : ℕ
  tickLower : ℤ
  tickUpper : ℤ
  amount : ℕ
  sender : Option Address
  swapped : Bool
  burned : Bool
  deriving DecidableEq

/-- Model of `JitDetector` (`jit.rs`, lines 45–54). -/
structure JitDetector where
  activeMints : Std.ExtTreeMap Address (List ActiveMint) compare := ∅
  emitted : List (Address × ℕ × Bool) := []
  poolTickCache : Std.ExtTreeMap Address ℤ compare := ∅

/-- What an opportunity says of its position, and whether it is a full one. -/
structure JitReport where
  poolA : Address
  txIndex : ℕ
  tickLower : ℤ
  tickUpper : ℤ
  liquidityAmount : ℕ
  burned : Bool
  deriving DecidableEq

/-- A transaction: its index, its sender, where that is known, and its logs. -/
structure JitTx where
  txIndex : ℕ
  sender : Option Address
  logs : List ExecutedLog

/-- The mint that a burn in a range goes to (`jit.rs`, lines 142–153). -/
def ActiveMint.Takes (tx : JitTx) (tickLower tickUpper : ℤ) (mint : ActiveMint) : Prop :=
  mint.burned = false ∧ (tx.sender = none ∨ mint.sender = tx.sender) ∧
    mint.tickLower = tickLower ∧ mint.tickUpper = tickUpper ∧ mint.mintTxIndex ≤ tx.txIndex

instance instDecidableTakes (tx : JitTx) (tickLower tickUpper : ℤ) (mint : ActiveMint) :
    Decidable (mint.Takes tx tickLower tickUpper) :=
  inferInstanceAs (Decidable (_ ∧ _))

/-- The loop over the mints of a pool for a burn, which it leaves at the first match. -/
def markBurned (tx : JitTx) (tickLower tickUpper : ℤ) : List ActiveMint → List ActiveMint
  | [] => []
  | mint :: mints =>
    if mint.Takes tx tickLower tickUpper then { mint with burned := true } :: mints
    else mint :: markBurned tx tickLower tickUpper mints

/-- The price is in the range before the swap, or after it. -/
def InRange (preTick postTick tickLower tickUpper : ℤ) : Prop :=
  (tickLower ≤ preTick ∧ preTick < tickUpper) ∨ (tickLower ≤ postTick ∧ postTick < tickUpper)

instance instDecidableInRange (preTick postTick tickLower tickUpper : ℤ) :
    Decidable (InRange preTick postTick tickLower tickUpper) :=
  inferInstanceAs (Decidable (_ ∨ _))

/-- One turn of the loop over the mints of a pool for a swap (`jit.rs`, lines 172–183). -/
def ActiveMint.touch (preTick postTick : ℤ) (mint : ActiveMint) : ActiveMint :=
  if InRange preTick postTick mint.tickLower mint.tickUpper then { mint with swapped := true }
  else mint

/-- The logs of mints and burns, and which of them are mints (`jit.rs`, lines 89–96). -/
def mintOrBurn (log : ExecutedLog) : Option (ExecutedLog × Bool) :=
  match log.topics with
  | [] => none
  | t0 :: _ =>
    if t0 = v3MintTopic ∨ t0 = v3BurnTopic then some (log, decide (t0 = v3MintTopic)) else none

/-- The pool and the tick of a swap (`jit.rs`, lines 97–107). -/
def swapDecoded (log : ExecutedLog) : Option (Address × ℤ) :=
  match log.topics with
  | [] => none
  | t0 :: _ =>
    if t0 = v3MintTopic ∨ t0 = v3BurnTopic then none
    else if t0 = v3SwapTopic then (decodeV3Swap log).map fun d => (log.address, d.tick)
    else none

/-- One turn of the loop over mints and burns (`jit.rs`, lines 111–161). -/
def processMintBurn (tx : JitTx) (s : JitDetector) (x : ExecutedLog × Bool) : JitDetector :=
  match decodeV3MintBurn x.1 with
  | none => s
  | some d =>
    if x.2 then
      if 0 < d.amount then
        let mint : ActiveMint :=
          ⟨tx.txIndex, d.tickLower, d.tickUpper, d.amount.toNat, tx.sender, false, false⟩
        { s with activeMints := Map.push s.activeMints x.1.address mint }
      else s
    else
      { s with
        activeMints := s.activeMints.modify x.1.address
          (markBurned tx d.tickLower d.tickUpper) }

/-- One turn of the loop over swaps (`jit.rs`, lines 164–187). -/
def processSwap (s : JitDetector) (x : Address × ℤ) : JitDetector :=
  let preTick := s.poolTickCache[x.1]?.getD x.2
  { s with
    activeMints := s.activeMints.modify x.1 (List.map (ActiveMint.touch preTick x.2))
    poolTickCache := s.poolTickCache.insert x.1 x.2 }

/-- Model of `process_tx` (`jit.rs`, lines 79–188). -/
def processTx (s : JitDetector) (tx : JitTx) : JitDetector :=
  (tx.logs.filterMap swapDecoded).foldl processSwap
    ((tx.logs.filterMap mintOrBurn).foldl (processMintBurn tx) s)

/-- What `build_opp` (`jit.rs`, lines 240–359) writes of a mint. -/
def buildOpp (pool : Address) (mint : ActiveMint) (burned : Bool) : JitReport :=
  ⟨pool, mint.mintTxIndex, mint.tickLower, mint.tickUpper, mint.amount, burned⟩

/-- One turn of the loop over the mints of a pool (`jit.rs`, lines 205–234). -/
def detectMint (pool : Address) (st : List (Address × ℕ × Bool) × List JitReport)
    (mint : ActiveMint) : List (Address × ℕ × Bool) × List JitReport :=
  let dedupKey := (pool, mint.mintTxIndex, mint.burned)
  if dedupKey ∈ st.1 then st
  else if mint.swapped ∧ mint.burned then
    (dedupKey :: st.1, st.2 ++ [buildOpp pool mint true])
  else if mint.swapped ∧ ¬mint.burned then
    (dedupKey :: st.1, st.2 ++ [buildOpp pool mint false])
  else st

/-- Model of `detect` (`jit.rs`, lines 192–238). -/
def detect (s : JitDetector) : List JitReport × JitDetector :=
  let (emitted, opportunities) :=
    s.activeMints.foldl (fun st pool mints => mints.foldl (detectMint pool) st) (s.emitted, [])
  (opportunities, { s with emitted })

/-- The detector after each transaction of a block, and what it has reported. -/
def detectTx (st : JitDetector × List JitReport) (tx : JitTx) : JitDetector × List JitReport :=
  let (opportunities, s) := detect (processTx st.1 tx)
  (s, st.2 ++ opportunities)

/-- A block, from a cache of ticks. -/
def detectBlock (cache : Std.ExtTreeMap Address ℤ compare) (txs : List JitTx) :
    JitDetector × List JitReport :=
  txs.foldl detectTx ({ poolTickCache := cache }, [])

/-! ## What happens to the positions of a pool -/

/-- What a log says of a pool. The owner of a position is the first indexed argument. -/
inductive JitEvent where
  | mint (owner : B256) (tickLower tickUpper amount : ℤ)
  | burn (owner : B256) (tickLower tickUpper amount : ℤ)
  | swap (tick : ℤ)
  deriving DecidableEq

/-- The event of a log. -/
def jitEvent (log : ExecutedLog) : Option JitEvent :=
  match log.topics with
  | [] => none
  | t0 :: rest =>
    if t0 = v3MintTopic ∨ t0 = v3BurnTopic then
      (decodeV3MintBurn log).map fun d =>
        if t0 = v3MintTopic then .mint (rest.headD 0) d.tickLower d.tickUpper d.amount
        else .burn (rest.headD 0) d.tickLower d.tickUpper (-d.amount)
    else if t0 = v3SwapTopic then (decodeV3Swap log).map fun d => .swap d.tick
    else none

/-- The events of a pool, in the order of the logs. -/
def eventsOf (pool : Address) (logs : List ExecutedLog) : List JitEvent :=
  (logs.filter (·.address = pool)).filterMap jitEvent

/-- A position that a log has minted: what is left of its liquidity, and whether a swap has traded
    in its range since. -/
structure Position where
  txIndex : ℕ
  sender : Option Address
  owner : B256
  tickLower : ℤ
  tickUpper : ℤ
  amount : ℕ
  left : ℕ
  touched : Bool
  deriving DecidableEq

/-- The positions of a pool in the order of their mints, and its last known tick. -/
structure PoolTrack where
  positions : List Position := []
  tick : Option ℤ := none
  deriving DecidableEq

/-- A burn takes its amount from the positions of its owner and range, first minted first. -/
def drain (owner : B256) (tickLower tickUpper : ℤ) : ℕ → List Position → List Position
  | _, [] => []
  | amount, p :: ps =>
    if p.owner = owner ∧ p.tickLower = tickLower ∧ p.tickUpper = tickUpper then
      { p with left := p.left - amount } :: drain owner tickLower tickUpper (amount - p.left) ps
    else p :: drain owner tickLower tickUpper amount ps

/-- A swap trades with an open position when its range holds the price before or after. -/
def Position.trade (preTick postTick : ℤ) (p : Position) : Position :=
  if p.left ≠ 0 ∧ InRange preTick postTick p.tickLower p.tickUpper then { p with touched := true }
  else p

/-- What an event does to the positions of a pool. -/
def PoolTrack.step (tx : JitTx) (T : PoolTrack) : JitEvent → PoolTrack
  | .mint owner tickLower tickUpper amount =>
    if 0 < amount then
      { T with
        positions := T.positions ++
          [⟨tx.txIndex, tx.sender, owner, tickLower, tickUpper, amount.toNat, amount.toNat,
            false⟩] }
    else T
  | .burn owner tickLower tickUpper amount =>
    { T with positions := drain owner tickLower tickUpper amount.toNat T.positions }
  | .swap tick =>
    ⟨T.positions.map (Position.trade (T.tick.getD tick) tick), some tick⟩

/-- A position that a swap has traded with, and a burn has removed since. -/
def Position.full (p : Position) : Bool := p.touched && decide (p.left = 0)

/-- The positions of all pools after some transactions. -/
def track (cache : Std.ExtTreeMap Address ℤ compare) (txs : List JitTx) (pool : Address) :
    PoolTrack :=
  txs.foldl (fun T tx => (eventsOf pool tx.logs).foldl (PoolTrack.step tx) T)
    { tick := cache[pool]? }

/-! ## One pool of the detector -/

/-- What the detector keeps of a pool. -/
structure PoolMints where
  mints : List ActiveMint
  tick : Option ℤ

/-- The mints and the tick of a pool. -/
def JitDetector.view (s : JitDetector) (pool : Address) : PoolMints :=
  ⟨s.activeMints[pool]?.getD [], s.poolTickCache[pool]?⟩

/-- What the loop over mints and burns does with an event. -/
def PoolMints.mintStep (tx : JitTx) (v : PoolMints) : JitEvent → PoolMints
  | .mint _ tickLower tickUpper amount =>
    if 0 < amount then
      { v with
        mints := v.mints ++
          [⟨tx.txIndex, tickLower, tickUpper, amount.toNat, tx.sender, false, false⟩] }
    else v
  | .burn _ tickLower tickUpper _ => { v with mints := markBurned tx tickLower tickUpper v.mints }
  | .swap _ => v

/-- What the loop over swaps does with an event. -/
def PoolMints.swapStep (v : PoolMints) : JitEvent → PoolMints
  | .swap tick => ⟨v.mints.map (ActiveMint.touch (v.tick.getD tick) tick), some tick⟩
  | .mint .. | .burn .. => v

variable {tx : JitTx} {pool : Address}

theorem eventsOf_cons (log : ExecutedLog) (logs : List ExecutedLog) :
    eventsOf pool (log :: logs) =
      (if log.address = pool then (jitEvent log).toList else []) ++ eventsOf pool logs := by
  unfold eventsOf
  by_cases h : log.address = pool
  · rw [List.filter_cons_of_pos (by simpa using h), if_pos h]
    cases hlog : jitEvent log <;> simp [hlog]
  · rw [List.filter_cons_of_neg (by simpa using h), if_neg h, List.nil_append]

theorem view_processMintBurn (s : JitDetector) (log : ExecutedLog) :
    ((mintOrBurn log).toList.foldl (processMintBurn tx) s).view pool =
      (if log.address = pool then (jitEvent log).toList else []).foldl (PoolMints.mintStep tx)
        (s.view pool) := by
  unfold mintOrBurn jitEvent
  cases log.topics with
  | nil => split_ifs <;> rfl
  | cons t0 rest =>
    dsimp only
    by_cases htopic : t0 = v3MintTopic ∨ t0 = v3BurnTopic
    · simp only [if_pos htopic, Option.toList_some, List.foldl_cons, List.foldl_nil]
      unfold processMintBurn
      cases hd : decodeV3MintBurn log with
      | none => simp
      | some d =>
        simp only [Option.map_some, Option.toList_some, decide_eq_true_eq]
        by_cases hpool : log.address = pool
        · rw [if_pos hpool, List.foldl_cons, List.foldl_nil, hpool]
          by_cases hmint : t0 = v3MintTopic
          · rw [if_pos hmint, if_pos hmint]
            by_cases hamount : 0 < d.amount
            · rw [if_pos hamount]
              simp [JitDetector.view, PoolMints.mintStep, Map.push, hamount]
            · rw [if_neg hamount]
              simp [PoolMints.mintStep, hamount]
          · rw [if_neg hmint, if_neg hmint]
            unfold JitDetector.view PoolMints.mintStep
            dsimp only
            rw [Std.ExtTreeMap.getElem?_modify_self]
            cases s.activeMints[pool]? <;> rfl
        · rw [if_neg hpool, List.foldl_nil]
          unfold JitDetector.view
          split_ifs <;>
            simp [Map.push, Map.getElem?_insert_eq, Map.getElem?_modify_of_ne _ hpool, hpool]
    · rw [if_neg htopic, if_neg htopic]
      split_ifs
      · cases decodeV3Swap log <;> rfl
      · rfl
      · rfl

theorem view_processSwap (s : JitDetector) (log : ExecutedLog) :
    ((swapDecoded log).toList.foldl processSwap s).view pool =
      (if log.address = pool then (jitEvent log).toList else []).foldl PoolMints.swapStep
        (s.view pool) := by
  unfold swapDecoded jitEvent
  cases log.topics with
  | nil => split_ifs <;> rfl
  | cons t0 rest =>
    dsimp only
    by_cases htopic : t0 = v3MintTopic ∨ t0 = v3BurnTopic
    · rw [if_pos htopic, if_pos htopic]
      cases decodeV3MintBurn log with
      | none => split_ifs <;> rfl
      | some d =>
        simp only [Option.map_some, Option.toList_some]
        split_ifs <;> rfl
    · rw [if_neg htopic, if_neg htopic]
      by_cases hswap : t0 = v3SwapTopic
      · rw [if_pos hswap, if_pos hswap]
        cases decodeV3Swap log with
        | none => split_ifs <;> rfl
        | some d =>
          simp only [Option.map_some, Option.toList_some, List.foldl_cons, List.foldl_nil]
          unfold processSwap JitDetector.view
          by_cases hpool : log.address = pool
          · rw [if_pos hpool, hpool, List.foldl_cons, List.foldl_nil]
            dsimp only [PoolMints.swapStep]
            rw [Std.ExtTreeMap.getElem?_modify_self, Std.ExtTreeMap.getElem?_insert_self]
            cases s.activeMints[pool]? <;> rfl
          · simp [Map.getElem?_insert_eq, Map.getElem?_modify_of_ne _ hpool, hpool]
      · rw [if_neg hswap, if_neg hswap]
        split_ifs <;> rfl

theorem foldl_filterMap_cons {α β σ : Type*} (f : α → Option β) (g : σ → β → σ) (a : α)
    (l : List α) (s : σ) :
    ((a :: l).filterMap f).foldl g s = (l.filterMap f).foldl g ((f a).toList.foldl g s) := by
  cases h : f a <;> simp [h]

/-- What a transaction does to a pool depends on the events of the pool: its mints and burns, and
    then its swaps. -/
theorem mints_processTx (s : JitDetector) (tx : JitTx) (pool : Address) :
    (processTx s tx).view pool =
      (eventsOf pool tx.logs).foldl PoolMints.swapStep
        ((eventsOf pool tx.logs).foldl (PoolMints.mintStep tx) (s.view pool)) := by
  have hmints (logs : List ExecutedLog) (s : JitDetector) :
      ((logs.filterMap mintOrBurn).foldl (processMintBurn tx) s).view pool =
        (eventsOf pool logs).foldl (PoolMints.mintStep tx) (s.view pool) := by
    induction logs generalizing s with
    | nil => rfl
    | cons log logs ih =>
      rw [foldl_filterMap_cons, ih, view_processMintBurn, eventsOf_cons, List.foldl_append]
  have hswaps (logs : List ExecutedLog) (s : JitDetector) :
      ((logs.filterMap swapDecoded).foldl processSwap s).view pool =
        (eventsOf pool logs).foldl PoolMints.swapStep (s.view pool) := by
    induction logs generalizing s with
    | nil => rfl
    | cons log logs ih =>
      rw [foldl_filterMap_cons, ih, view_processSwap, eventsOf_cons, List.foldl_append]
  unfold processTx
  rw [hswaps, hmints]

end MevScout.Mev
