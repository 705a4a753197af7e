import MevScout.Mev.Jit

/-!
# Reports of just-in-time liquidity

When the full reports of a block are its complete positions, each once. A transaction must not ask
for what the detector does out of order, and its burns must remove what the detector marks.

Results:
* `foldl_swapStep_mintStep`: the detector works in log order, where no swap comes before a mint
  that it touches;
* `full_order`: a complete position has its mint, its swap and its burn, in this order;
* `reportedOnce_of_runOk`: every run of such transactions reports every complete position once;
* `swap_after_burn_reported`: a position that is removed before the swap, and two positions of one
  transaction.
-/

namespace MevScout.Mev

open Chain Pool

variable {tx : JitTx} {s : JitDetector} {pool : Address} {v : PoolMints} {e : JitEvent}
  {es : List JitEvent} {T : PoolTrack} {p : Position} {tickLower tickUpper : ℤ}

/-! ## In log order -/

/-- Some swap of the events touches the range. -/
def Touched (tickLower tickUpper : ℤ) : Option ℤ → List JitEvent → Prop
  | _, [] => False
  | tick, .swap t :: es =>
    InRange (tick.getD t) t tickLower tickUpper ∨ Touched tickLower tickUpper (some t) es
  | tick, .mint .. :: es | tick, .burn .. :: es => Touched tickLower tickUpper tick es

/-- No swap of the transaction comes before a mint that it touches. -/
def MintsFirst (tick : Option ℤ) (es : List JitEvent) : Prop :=
  ∀ before owner tickLower tickUpper amount after,
    es = before ++ .mint owner tickLower tickUpper amount :: after → 0 < amount →
      ¬Touched tickLower tickUpper tick before

/-- Both loops, for one event. -/
def PoolMints.logStep (tx : JitTx) (v : PoolMints) (e : JitEvent) : PoolMints :=
  (v.mintStep tx e).swapStep e

@[simp] theorem PoolMints.mintStep_tick (v : PoolMints) (e : JitEvent) :
    (v.mintStep tx e).tick = v.tick := by
  cases e with
  | mint owner tickLower tickUpper amount =>
    unfold mintStep
    dsimp only
    split_ifs <;> rfl
  | burn | swap => rfl

theorem ActiveMint.takes_touch {preTick postTick : ℤ} (m : ActiveMint) :
    (m.touch preTick postTick).Takes tx tickLower tickUpper ↔ m.Takes tx tickLower tickUpper := by
  unfold touch
  split_ifs <;> exact Iff.rfl

theorem touch_markBurned (preTick postTick : ℤ) (mints : List ActiveMint) :
    (markBurned tx tickLower tickUpper mints).map (ActiveMint.touch preTick postTick) =
      markBurned tx tickLower tickUpper (mints.map (ActiveMint.touch preTick postTick)) := by
  induction mints with
  | nil => rfl
  | cons m mints ih =>
    rw [List.map_cons, markBurned, markBurned]
    simp only [ActiveMint.takes_touch]
    split_ifs
    · rw [List.map_cons]
      unfold ActiveMint.touch
      split_ifs <;> rfl
    · rw [List.map_cons, ih]

/-- A mint or a burn may come before the swaps, where these do not touch what is minted. -/
theorem foldl_swapStep_mintStep (v : PoolMints) (es : List JitEvent) (e : JitEvent)
    (h : ∀ owner tickLower tickUpper amount, e = .mint owner tickLower tickUpper amount →
      0 < amount → ¬Touched tickLower tickUpper v.tick es) :
    es.foldl PoolMints.swapStep (v.mintStep tx e) =
      (es.foldl PoolMints.swapStep v).mintStep tx e := by
  induction es generalizing v with
  | nil => rfl
  | cons e' es ih =>
    rw [List.foldl_cons, List.foldl_cons]
    cases e' with
    | mint | burn => exact ih v h
    | swap t =>
      have hcomm : (v.mintStep tx e).swapStep (.swap t) = (v.swapStep (.swap t)).mintStep tx e := by
        cases e with
        | swap => rfl
        | burn owner tickLower tickUpper amount =>
          unfold PoolMints.mintStep PoolMints.swapStep
          dsimp only
          rw [touch_markBurned]
        | mint owner tickLower tickUpper amount =>
          unfold PoolMints.mintStep PoolMints.swapStep
          dsimp only
          by_cases hamount : 0 < amount
          · have hrange : ¬InRange (v.tick.getD t) t tickLower tickUpper :=
              fun hrange => h owner tickLower tickUpper amount rfl hamount (.inl hrange)
            rw [if_pos hamount, if_pos hamount, List.map_append]
            simp [ActiveMint.touch, hrange]
          · rw [if_neg hamount, if_neg hamount]
      rw [hcomm]
      refine ih _ fun owner tickLower tickUpper amount he hamount htouched => ?_
      exact h owner tickLower tickUpper amount he hamount (.inr htouched)

/-- Where no swap comes before a mint that it touches, a transaction is read in log order. -/
theorem foldl_logStep (v : PoolMints) (es : List JitEvent) (h : MintsFirst v.tick es) :
    es.foldl PoolMints.swapStep (es.foldl (PoolMints.mintStep tx) v) =
      es.foldl (PoolMints.logStep tx) v := by
  induction es using List.reverseRecOn with
  | nil => rfl
  | append_singleton es e ih =>
    have hbefore : MintsFirst v.tick es := by
      intro before owner tickLower tickUpper amount after heq
      refine h before owner tickLower tickUpper amount (after ++ [e]) ?_
      rw [heq, List.append_assoc, List.cons_append]
    have htick : (es.foldl (PoolMints.mintStep tx) v).tick = v.tick :=
      List.foldlRecOn (motive := fun w => w.tick = v.tick) es _ rfl fun w hw e _ =>
        (PoolMints.mintStep_tick w e).trans hw
    rw [List.foldl_append, List.foldl_append, List.foldl_append, ← ih hbefore]
    simp only [List.foldl_cons, List.foldl_nil]
    rw [foldl_swapStep_mintStep, PoolMints.logStep]
    rintro owner tickLower tickUpper amount rfl hamount
    rw [htick]
    exact h es owner tickLower tickUpper amount [] rfl hamount

/-! ## What the detector must be asked for -/

/-- No liquidity is left. -/
def Position.closed (p : Position) : Bool := decide (p.left = 0)

/-- What the detector keeps of a position. -/
def Position.mint (p : Position) : ActiveMint :=
  ⟨p.txIndex, p.tickLower, p.tickUpper, p.amount, p.sender, p.touched, p.closed⟩

/-- Closes the position that the detector takes for a burn in the range: the first one that is
    open, and minted by the same sender, where that is known. -/
def closeFirst (tx : JitTx) (tickLower tickUpper : ℤ) : List Position → List Position
  | [] => []
  | p :: ps =>
    if p.mint.Takes tx tickLower tickUpper then { p with left := 0 } :: ps
    else p :: closeFirst tx tickLower tickUpper ps

/-- The event is one that the detector follows: a swap touches no removed position for the first
    time, and a burn removes the position that the detector takes for it, and no other one. -/
def EventOk (tx : JitTx) (T : PoolTrack) : JitEvent → Prop
  | .mint .. => True
  | .swap tick => ∀ p ∈ T.positions, p.closed = true →
    InRange (T.tick.getD tick) tick p.tickLower p.tickUpper → p.touched = true
  | .burn owner tickLower tickUpper amount =>
    (drain owner tickLower tickUpper amount.toNat T.positions).map Position.closed =
      (closeFirst tx tickLower tickUpper T.positions).map Position.closed

instance instDecidableEventOk (tx : JitTx) (T : PoolTrack) (e : JitEvent) :
    Decidable (EventOk tx T e) :=
  match e with
  | .mint .. => inferInstanceAs (Decidable True)
  | .swap tick => inferInstanceAs (Decidable (∀ p ∈ T.positions, p.closed = true →
      InRange (T.tick.getD tick) tick p.tickLower p.tickUpper → p.touched = true))
  | .burn .. => inferInstanceAs (Decidable (_ = _))

/-- All events are ones that the detector follows. -/
def EventsOk (tx : JitTx) : PoolTrack → List JitEvent → Prop
  | _, [] => True
  | T, e :: es => EventOk tx T e ∧ EventsOk tx (T.step tx e) es

/-! ## The positions behind the mints -/

/-- What the detector keeps of a pool. -/
def PoolTrack.view (T : PoolTrack) : PoolMints := ⟨T.positions.map Position.mint, T.tick⟩

theorem markBurned_map_mint (ps : List Position) :
    markBurned tx tickLower tickUpper (ps.map Position.mint) =
      (closeFirst tx tickLower tickUpper ps).map Position.mint := by
  induction ps with
  | nil => rfl
  | cons p ps ih =>
    rw [List.map_cons, markBurned, closeFirst]
    split_ifs
    · rfl
    · rw [List.map_cons, ih]

/-- A position without what is left of it. -/
def Position.minted (p : Position) : Position := { p with left := 0 }

theorem map_minted_drain (owner : B256) (amount : ℕ) (ps : List Position) :
    (drain owner tickLower tickUpper amount ps).map Position.minted =
      ps.map Position.minted := by
  induction ps generalizing amount with
  | nil => rfl
  | cons p ps ih =>
    rw [drain]
    split_ifs <;> rw [List.map_cons, List.map_cons, ih]
    rfl

theorem map_minted_closeFirst (ps : List Position) :
    (closeFirst tx tickLower tickUpper ps).map Position.minted = ps.map Position.minted := by
  induction ps with
  | nil => rfl
  | cons p ps ih =>
    rw [closeFirst]
    split_ifs
    · rfl
    · rw [List.map_cons, List.map_cons, ih]

/-- What the detector keeps of a position is what was minted, and whether that is closed. -/
theorem map_mint_eq {ps qs : List Position} (h : ps.map Position.minted = qs.map Position.minted)
    (hclosed : ps.map Position.closed = qs.map Position.closed) :
    ps.map Position.mint = qs.map Position.mint := by
  have hzip (l : List Position) : l.map Position.mint =
      List.zipWith (fun p closed => { p.mint with burned := closed }) (l.map Position.minted)
        (l.map Position.closed) := by
    induction l with
    | nil => rfl
    | cons p l ih =>
      rw [List.map_cons, List.map_cons, List.map_cons, List.zipWith_cons_cons, ← ih]
      rfl
  rw [hzip ps, hzip qs, h, hclosed]

/-- One event, on both sides. -/
theorem logStep_view (h : EventOk tx T e) : T.view.logStep tx e = (T.step tx e).view := by
  cases e with
  | mint owner tickLower tickUpper amount =>
    unfold PoolMints.logStep PoolMints.mintStep PoolTrack.step PoolTrack.view
    dsimp only
    by_cases hamount : 0 < amount
    · have hleft : ¬amount.toNat = 0 := by omega
      rw [if_pos hamount, if_pos hamount]
      simp [PoolMints.swapStep, Position.mint, Position.closed, hleft]
    · rw [if_neg hamount, if_neg hamount]
      rfl
  | burn owner tickLower tickUpper amount =>
    show (⟨markBurned tx tickLower tickUpper (T.positions.map Position.mint), T.tick⟩ :
      PoolMints) = ⟨_, T.tick⟩
    rw [markBurned_map_mint]
    congr 1
    refine (map_mint_eq ?_ h).symm
    rw [map_minted_drain, map_minted_closeFirst]
  | swap tick =>
    show (⟨(T.positions.map Position.mint).map _, some tick⟩ : PoolMints) = ⟨_, some tick⟩
    congr 1
    unfold PoolTrack.step
    rw [List.map_map, List.map_map]
    refine List.map_congr_left fun p hp => ?_
    show (p.mint.touch (T.tick.getD tick) tick) = (p.trade (T.tick.getD tick) tick).mint
    unfold ActiveMint.touch Position.trade
    by_cases hrange : InRange (T.tick.getD tick) tick p.tickLower p.tickUpper
    · rw [if_pos (show InRange _ _ p.mint.tickLower p.mint.tickUpper from hrange)]
      by_cases hleft : p.left = 0
      · have htouched := h p hp (decide_eq_true hleft) hrange
        rw [if_neg fun hopen => hopen.1 hleft]
        unfold Position.mint
        rw [htouched]
      · rw [if_pos ⟨hleft, hrange⟩]
        rfl
    · rw [if_neg (show ¬InRange _ _ p.mint.tickLower p.mint.tickUpper from hrange),
        if_neg fun hopen => hrange hopen.2]

theorem foldl_logStep_view (h : EventsOk tx T es) :
    es.foldl (PoolMints.logStep tx) T.view = (es.foldl (PoolTrack.step tx) T).view := by
  induction es generalizing T with
  | nil => rfl
  | cons e es ih =>
    rw [List.foldl_cons, List.foldl_cons, logStep_view h.1, ih h.2]

/-- What the detector keeps of a pool after a transaction is what its positions are then. -/
theorem view_processTx (hview : s.view pool = T.view)
    (hmints : MintsFirst T.tick (eventsOf pool tx.logs))
    (hevents : EventsOk tx T (eventsOf pool tx.logs)) :
    (processTx s tx).view pool = ((eventsOf pool tx.logs).foldl (PoolTrack.step tx) T).view := by
  rw [mints_processTx, hview, foldl_logStep T.view _ hmints, foldl_logStep_view hevents]

/-! ## What is emitted -/

/-- The mint makes a full opportunity. -/
def ActiveMint.full (m : ActiveMint) : Bool := m.swapped && m.burned

/-- The full opportunities of a pool. -/
def JitReport.isFull (pool : Address) (r : JitReport) : Bool :=
  decide (r.poolA = pool) && r.burned

variable {m : ActiveMint} {st : List (Address × ℕ × Bool) × List JitReport} {q : Address}

theorem mem_detectMint (i : ℕ) : (q, i, true) ∈ (detectMint pool st m).1 ↔
    (q, i, true) ∈ st.1 ∨ pool = q ∧ m.full = true ∧ m.mintTxIndex = i := by
  unfold detectMint ActiveMint.full
  dsimp only
  by_cases hkey : (pool, m.mintTxIndex, m.burned) ∈ st.1
  · rw [if_pos hkey]
    refine ⟨.inl, fun h => h.elim id ?_⟩
    rintro ⟨rfl, hfull, rfl⟩
    rw [Bool.and_eq_true] at hfull
    rwa [hfull.2] at hkey
  · rw [if_neg hkey]
    cases hs : m.swapped <;> cases hb : m.burned <;> simp [eq_comm, or_comm]

theorem filter_detectMint : (detectMint pool st m).2.filter (JitReport.isFull q) =
    st.2.filter (JitReport.isFull q) ++
      if pool = q ∧ m.full = true ∧ (q, m.mintTxIndex, true) ∉ st.1 then [buildOpp pool m true]
      else [] := by
  unfold detectMint ActiveMint.full
  dsimp only
  by_cases hkey : (pool, m.mintTxIndex, m.burned) ∈ st.1
  · rw [if_pos hkey, if_neg, List.append_nil]
    rintro ⟨rfl, hfull, hnot⟩
    rw [Bool.and_eq_true] at hfull
    rw [hfull.2] at hkey
    exact hnot hkey
  · rw [if_neg hkey]
    by_cases hpool : pool = q
    · subst hpool
      cases hs : m.swapped <;> cases hb : m.burned <;> rw [hb] at hkey <;>
        simp [JitReport.isFull, buildOpp, hkey]
    · cases hs : m.swapped <;> cases hb : m.burned <;>
        simp [JitReport.isFull, buildOpp, hpool]

/-- The loops of `detect`, over the mints with their pools. -/
def detectPairs (pairs : List (Address × ActiveMint))
    (st : List (Address × ℕ × Bool) × List JitReport) :
    List (Address × ℕ × Bool) × List JitReport :=
  pairs.foldl (fun st x => detectMint x.1 st x.2) st

/-- The mints of a pool. -/
def mintsOf (q : Address) (pairs : List (Address × ActiveMint)) : List ActiveMint :=
  (pairs.filter (·.1 = q)).map Prod.snd

theorem mintsOf_cons (x : Address × ActiveMint) (pairs : List (Address × ActiveMint)) :
    mintsOf q (x :: pairs) = (if x.1 = q then [x.2] else []) ++ mintsOf q pairs := by
  unfold mintsOf
  split_ifs with h <;> simp [h]

theorem mem_detectPairs (pairs : List (Address × ActiveMint)) (i : ℕ) :
    (q, i, true) ∈ (detectPairs pairs st).1 ↔ (q, i, true) ∈ st.1 ∨
      ∃ m ∈ mintsOf q pairs, m.full = true ∧ m.mintTxIndex = i := by
  induction pairs generalizing st with
  | nil => simp [detectPairs, mintsOf]
  | cons x pairs ih =>
    show (q, i, true) ∈ (detectPairs pairs (detectMint x.1 st x.2)).1 ↔ _
    rw [ih, mem_detectMint, mintsOf_cons]
    by_cases hx : x.1 = q <;> simp [hx, or_assoc]

/-- Where no two full mints of a pool are of one transaction, those that have not been emitted
    are. -/
theorem filter_detectPairs (pairs : List (Address × ActiveMint))
    (h : (((mintsOf q pairs).filter ActiveMint.full).map ActiveMint.mintTxIndex).Nodup) :
    (detectPairs pairs st).2.filter (JitReport.isFull q) =
      st.2.filter (JitReport.isFull q) ++
        (((mintsOf q pairs).filter ActiveMint.full).filter
          fun m => (q, m.mintTxIndex, true) ∉ st.1).map (buildOpp q · true) := by
  induction pairs generalizing st with
  | nil => simp [detectPairs, mintsOf]
  | cons x pairs ih =>
    show (detectPairs pairs (detectMint x.1 st x.2)).2.filter _ = _
    rw [mintsOf_cons] at h ⊢
    by_cases hx : x.1 = q ∧ x.2.full = true
    · obtain ⟨hpool, hfull⟩ := hx
      rw [if_pos hpool, List.singleton_append, List.filter_cons_of_pos hfull] at h ⊢
      obtain ⟨hnot, hrest⟩ := List.nodup_cons.mp h
      rw [ih hrest, filter_detectMint, List.append_assoc]
      congr 1
      have hsame : ((mintsOf q pairs).filter ActiveMint.full).filter
            (fun m => (q, m.mintTxIndex, true) ∉ (detectMint x.1 st x.2).1) =
          ((mintsOf q pairs).filter ActiveMint.full).filter
            fun m => (q, m.mintTxIndex, true) ∉ st.1 := by
        refine List.filter_congr fun m hm => ?_
        have hne : x.2.mintTxIndex ≠ m.mintTxIndex :=
          fun heq => hnot (List.mem_map.mpr ⟨m, hm, heq.symm⟩)
        simp [mem_detectMint, hne]
      rw [hsame]
      by_cases hkey : (q, x.2.mintTxIndex, true) ∈ st.1
      · simp [hpool, hfull, hkey]
      · simp [hpool, hfull, hkey]
    · have hnone : ((if x.1 = q then [x.2] else []) ++ mintsOf q pairs).filter ActiveMint.full =
          (mintsOf q pairs).filter ActiveMint.full := by
        by_cases hpool : x.1 = q
        · have hfull : ¬x.2.full = true := fun hfull => hx ⟨hpool, hfull⟩
          rw [if_pos hpool, List.singleton_append, List.filter_cons_of_neg hfull]
        · rw [if_neg hpool, List.nil_append]
      rw [hnone] at h ⊢
      rw [ih h, filter_detectMint, if_neg fun hall => hx ⟨hall.1, hall.2.1⟩, List.append_nil]
      have hmem (i : ℕ) : (q, i, true) ∈ (detectMint x.1 st x.2).1 ↔ (q, i, true) ∈ st.1 := by
        rw [mem_detectMint]
        exact or_iff_left fun hall => hx ⟨hall.1, hall.2.1⟩
      simp only [hmem]

/-- The mints of a pool, among all of them. -/
theorem mintsOf_toList (M : Std.ExtTreeMap Address (List ActiveMint) compare) (q : Address) :
    mintsOf q (M.toList.flatMap fun x => x.2.map (x.1, ·)) = M[q]?.getD [] := by
  have hflat (l : List (Address × List ActiveMint)) :
      mintsOf q (l.flatMap fun x => x.2.map (x.1, ·)) = (l.filter (·.1 = q)).flatMap Prod.snd := by
    induction l with
    | nil => rfl
    | cons x l ih =>
      have hown : mintsOf q (x.2.map (x.1, ·)) = if x.1 = q then x.2 else [] := by
        unfold mintsOf
        rw [List.filter_map]
        split_ifs with h <;> simp [Function.comp_def, h]
      unfold mintsOf at hown ih ⊢
      rw [List.flatMap_cons, List.filter_append, List.map_append, ih, hown]
      by_cases h : x.1 = q <;> simp [h]
  rw [hflat, Map.filter_toList]
  cases M[q]? with
  | none => rfl
  | some mints => exact List.append_nil mints

theorem detect_eq (s : JitDetector) : detect s =
    ((detectPairs (s.activeMints.toList.flatMap fun x => x.2.map (x.1, ·)) (s.emitted, [])).2,
      { s with
        emitted :=
          (detectPairs (s.activeMints.toList.flatMap fun x => x.2.map (x.1, ·))
            (s.emitted, [])).1 }) := by
  have hfold : s.activeMints.foldl (fun st pool mints => mints.foldl (detectMint pool) st)
      (s.emitted, []) =
      detectPairs (s.activeMints.toList.flatMap fun x => x.2.map (x.1, ·)) (s.emitted, []) := by
    rw [Std.ExtTreeMap.foldl_eq_foldl_toList, detectPairs, List.foldl_flatMap]
    simp only [List.foldl_map]
  unfold detect
  rw [hfold]

/-! ## Mint, swap and burn -/

/-- The events with their transactions. -/
def PoolTrack.after (start : PoolTrack) (E : List (JitTx × JitEvent)) : PoolTrack :=
  E.foldl (fun T x => T.step x.1 x.2) start

/-- A burn of the owner and range of the position. -/
def Position.BurnedBy (p : Position) (e : JitEvent) : Prop :=
  ∃ amount, e = .burn p.owner p.tickLower p.tickUpper amount

/-- The events after the mint of a position: where a swap has touched it, and where a burn has
    removed it since. -/
structure Position.Story (start : PoolTrack) (E : List (JitTx × JitEvent)) (p : Position) :
    Prop where
  story : ∃ before tx amount rest,
    E = before ++ (tx, .mint p.owner p.tickLower p.tickUpper amount) :: rest ∧
      tx.txIndex = p.txIndex ∧ amount.toNat = p.amount ∧
      (p.touched = true → ∃ quiet tx' tick later, rest = quiet ++ (tx', .swap tick) :: later ∧
        InRange ((start.after (before ++ (tx, .mint p.owner p.tickLower p.tickUpper amount) ::
          quiet)).tick.getD tick) tick p.tickLower p.tickUpper ∧
        (p.left = 0 → ∃ held burn gone, later = held ++ burn :: gone ∧ p.BurnedBy burn.2))

theorem mem_drain {owner : B256} {amount : ℕ} {ps : List Position}
    (h : p ∈ drain owner tickLower tickUpper amount ps) :
    ∃ p₀ ∈ ps, (p = p₀ ∨ p₀.owner = owner ∧ p₀.tickLower = tickLower ∧ p₀.tickUpper = tickUpper ∧
      ∃ left, p = { p₀ with left }) := by
  induction ps generalizing amount with
  | nil => cases h
  | cons p₀ ps ih =>
    rw [drain] at h
    split_ifs at h with howner
    · rcases List.mem_cons.mp h with rfl | h
      · exact ⟨p₀, List.mem_cons_self .., .inr ⟨howner.1, howner.2.1, howner.2.2, _, rfl⟩⟩
      · obtain ⟨p₁, hp₁, hcase⟩ := ih h
        exact ⟨p₁, List.mem_cons_of_mem _ hp₁, hcase⟩
    · rcases List.mem_cons.mp h with rfl | h
      · exact ⟨p, List.mem_cons_self .., .inl rfl⟩
      · obtain ⟨p₁, hp₁, hcase⟩ := ih h
        exact ⟨p₁, List.mem_cons_of_mem _ hp₁, hcase⟩

/-- An event after them that leaves the position as it is. -/
theorem Position.Story.append {start : PoolTrack} {E : List (JitTx × JitEvent)}
    (h : p.Story start E) (x : JitTx × JitEvent) : p.Story start (E ++ [x]) := by
  obtain ⟨before, tx, amount, rest, rfl, htx, hamount, htouched⟩ := h.story
  refine ⟨before, tx, amount, rest ++ [x], by simp, htx, hamount, fun ht => ?_⟩
  obtain ⟨quiet, tx', tick, later, rfl, hrange, hleft⟩ := htouched ht
  refine ⟨quiet, tx', tick, later ++ [x], by simp, hrange, fun hl => ?_⟩
  obtain ⟨held, burn, gone, rfl, hburn⟩ := hleft hl
  exact ⟨held, burn, gone ++ [x], by simp, hburn⟩

theorem story_of_mem {start : PoolTrack} (hstart : start.positions = [])
    {E : List (JitTx × JitEvent)} (hp : p ∈ (start.after E).positions) : p.Story start E := by
  induction E using List.reverseRecOn generalizing p with
  | nil =>
    have hp : p ∈ start.positions := hp
    rw [hstart] at hp
    cases hp
  | append_singleton E x ih =>
    obtain ⟨tx, e⟩ := x
    have hafter : start.after (E ++ [(tx, e)]) = (start.after E).step tx e := by
      rw [PoolTrack.after, List.foldl_append]
      rfl
    rw [hafter] at hp
    cases e with
    | mint owner tickLower tickUpper amount =>
      unfold PoolTrack.step at hp
      dsimp only at hp
      split_ifs at hp
      · rcases List.mem_append.mp hp with hp | hp
        · exact (ih hp).append _
        · obtain rfl := List.mem_singleton.mp hp
          exact ⟨E, tx, amount, [], rfl, rfl, rfl, nofun⟩
      · exact (ih hp).append _
    | burn owner tickLower tickUpper amount =>
      obtain ⟨p₀, hp₀, rfl | ⟨rfl, rfl, rfl, left, rfl⟩⟩ := mem_drain hp
      · exact (ih hp₀).append _
      · obtain ⟨before, tx₀, amount₀, rest, rfl, htx, hamount, htouched⟩ := (ih hp₀).story
        refine ⟨before, tx₀, amount₀, rest ++ [(tx, .burn p₀.owner p₀.tickLower p₀.tickUpper
          amount)], by simp, htx, hamount, fun ht => ?_⟩
        obtain ⟨quiet, tx', tick, later, rfl, hrange, -⟩ := htouched ht
        exact ⟨quiet, tx', tick, later ++ [(tx, _)], by simp, hrange,
          fun _ => ⟨later, _, [], rfl, amount, rfl⟩⟩
    | swap tick =>
      obtain ⟨p₀, hp₀, rfl⟩ := List.mem_map.mp hp
      unfold Position.trade
      split_ifs with htrade
      · obtain ⟨before, tx₀, amount₀, rest, rfl, htx, hamount, -⟩ := (ih hp₀).story
        refine ⟨before, tx₀, amount₀, rest ++ [(tx, .swap tick)], by simp, htx, hamount,
          fun _ => ⟨rest, tx, tick, [], rfl, htrade.2, fun hl => absurd hl htrade.1⟩⟩
      · exact (ih hp₀).append _

/-- The events of a pool in a block, with their transactions. -/
def poolEvents (pool : Address) (txs : List JitTx) : List (JitTx × JitEvent) :=
  txs.flatMap fun tx => (eventsOf pool tx.logs).map (tx, ·)

theorem track_eq_after (cache : Std.ExtTreeMap Address ℤ compare) (txs : List JitTx)
    (pool : Address) :
    track cache txs pool =
      PoolTrack.after { tick := cache[pool]? } (poolEvents pool txs) := by
  unfold track PoolTrack.after poolEvents
  rw [List.foldl_flatMap]
  simp only [List.foldl_map]

/-- A complete position has its mint, a swap that touches its range, and a burn of its owner and
    range, in this order. -/
theorem full_order {cache : Std.ExtTreeMap Address ℤ compare} {txs : List JitTx}
    (hp : p ∈ (track cache txs pool).positions) (hfull : p.full = true) :
    ∃ before tx amount quiet tx' tick held burn gone,
      poolEvents pool txs = before ++ (tx, .mint p.owner p.tickLower p.tickUpper amount) ::
        quiet ++ (tx', .swap tick) :: held ++ burn :: gone ∧
      tx.txIndex = p.txIndex ∧ amount.toNat = p.amount ∧
      InRange ((PoolTrack.after { tick := cache[pool]? } (before ++
        (tx, .mint p.owner p.tickLower p.tickUpper amount) :: quiet)).tick.getD tick) tick
        p.tickLower p.tickUpper ∧ p.BurnedBy burn.2 := by
  rw [track_eq_after] at hp
  unfold Position.full at hfull
  rw [Bool.and_eq_true, decide_eq_true_eq] at hfull
  obtain ⟨before, tx, amount, rest, hE, htx, hamount, htouched⟩ := (story_of_mem rfl hp).story
  obtain ⟨quiet, tx', tick, later, rfl, hrange, hleft⟩ := htouched hfull.1
  obtain ⟨held, burn, gone, rfl, hburn⟩ := hleft hfull.2
  exact ⟨before, tx, amount, quiet, tx', tick, held, burn, gone, by simp [hE], htx, hamount,
    hrange, hburn⟩

/-! ## Complete positions stay complete -/

/-- The full opportunity of a position. -/
def Position.report (pool : Address) (p : Position) : JitReport := buildOpp pool p.mint true

/-- A position that is complete stays so, and none changes its opportunity. -/
def Position.Grows (pool : Address) (p p' : Position) : Prop :=
  (p.full = true → p'.full = true) ∧ p'.report pool = p.report pool

/-- The full opportunities of a pool. -/
def PoolTrack.reports (pool : Address) (T : PoolTrack) : List JitReport :=
  (T.positions.filter Position.full).map (Position.report pool)

theorem sublist_of_grows {ps ps' : List Position}
    (h : List.Forall₂ (Position.Grows pool) ps ps') :
    ((ps.filter Position.full).map (Position.report pool)).Sublist
      ((ps'.filter Position.full).map (Position.report pool)) := by
  induction h with
  | nil => exact .slnil
  | @cons p p' ps ps' hp _ ih =>
    by_cases hfull : p.full = true
    · rw [List.filter_cons_of_pos hfull, List.filter_cons_of_pos (hp.1 hfull), List.map_cons,
        List.map_cons, hp.2]
      exact ih.cons_cons _
    · rw [List.filter_cons_of_neg hfull]
      by_cases hfull' : p'.full = true
      · rw [List.filter_cons_of_pos hfull', List.map_cons]
        exact ih.cons _
      · rwa [List.filter_cons_of_neg hfull']

theorem drain_grows (owner : B256) (amount : ℕ) (ps : List Position) :
    List.Forall₂ (Position.Grows pool) ps (drain owner tickLower tickUpper amount ps) := by
  induction ps generalizing amount with
  | nil => exact .nil
  | cons p ps ih =>
    rw [drain]
    split_ifs
    · refine .cons ⟨fun hfull => ?_, rfl⟩ (ih _)
      unfold Position.full at hfull ⊢
      rw [Bool.and_eq_true, decide_eq_true_eq] at hfull ⊢
      exact ⟨hfull.1, by rw [hfull.2, Nat.zero_sub]⟩
    · exact .cons ⟨id, rfl⟩ (ih _)

theorem trade_grows (preTick postTick : ℤ) (p : Position) :
    p.Grows pool (p.trade preTick postTick) := by
  unfold Position.trade
  split_ifs with h
  · refine ⟨fun hfull => ?_, rfl⟩
    unfold Position.full at hfull
    rw [Bool.and_eq_true, decide_eq_true_eq] at hfull
    exact absurd hfull.2 h.1
  · exact ⟨id, rfl⟩

theorem reports_step (T : PoolTrack) (e : JitEvent) :
    (T.reports pool).Sublist ((T.step tx e).reports pool) := by
  unfold PoolTrack.reports
  cases e with
  | mint owner tickLower tickUpper amount =>
    unfold PoolTrack.step
    dsimp only
    split_ifs
    · rw [List.filter_append, List.map_append]
      exact List.sublist_append_left _ _
    · exact List.Sublist.refl _
  | burn owner tickLower tickUpper amount => exact sublist_of_grows (drain_grows owner _ _)
  | swap tick =>
    refine sublist_of_grows ?_
    show List.Forall₂ _ T.positions (T.positions.map _)
    rw [List.forall₂_map_right_iff, List.forall₂_same]
    exact fun p _ => trade_grows _ _ p

theorem reports_foldl (T : PoolTrack) (es : List JitEvent) :
    (T.reports pool).Sublist ((es.foldl (PoolTrack.step tx) T).reports pool) := by
  induction es generalizing T with
  | nil => exact List.Sublist.refl _
  | cons e es ih => exact (reports_step T e).trans (ih _)

/-- Where the keys of a list are distinct, it is a sublist and what has other keys. -/
theorem perm_append_filter {α κ : Type*} [DecidableEq κ] {key : α → κ} {l l' : List α}
    (hsub : l'.Sublist l) (hkeys : (l.map key).Nodup) :
    l.Perm (l' ++ l.filter fun x => key x ∉ l'.map key) := by
  have hl : l.Nodup := hkeys.of_map key
  refine (List.perm_ext_iff_of_nodup hl ?_).mpr fun x => ?_
  · rw [List.nodup_append]
    refine ⟨hl.sublist hsub, hl.filter _, fun x hx y hy hxy => ?_⟩
    subst hxy
    have := (List.mem_filter.mp hy).2
    simp only [decide_eq_true_eq] at this
    exact this (List.mem_map_of_mem hx)
  · rw [List.mem_append, List.mem_filter, decide_eq_true_eq]
    constructor
    · intro hx
      by_cases hmem : key x ∈ l'.map key
      · obtain ⟨y, hy, hyx⟩ := List.mem_map.mp hmem
        have heq : y = x := List.inj_on_of_nodup_map hkeys (hsub.subset hy) hx hyx
        exact .inl (heq ▸ hy)
      · exact .inr ⟨hx, hmem⟩
    · exact fun h => h.elim (fun hx => hsub.subset hx) And.left

/-! ## Runs -/

/-- The transaction is one that the detector follows, and the pool has no two complete positions
    of one transaction after it. -/
structure TxOk (tx : JitTx) (T : PoolTrack) (es : List JitEvent) : Prop where
  mintsFirst : MintsFirst T.tick es
  events : EventsOk tx T es
  distinct : (((es.foldl (PoolTrack.step tx) T).positions.filter Position.full).map
    Position.txIndex).Nodup

/-- The detector keeps what its positions are, and has reported the complete ones. -/
structure Follows (pool : Address) (st : JitDetector × List JitReport) (T : PoolTrack) :
    Prop where
  view : st.1.view pool = T.view
  emitted : ∀ i, (pool, i, true) ∈ st.1.emitted ↔ i ∈ (T.reports pool).map JitReport.txIndex
  reports : (st.2.filter (JitReport.isFull pool)).Perm (T.reports pool)

theorem emitted_processTx (s : JitDetector) (tx : JitTx) :
    (processTx s tx).emitted = s.emitted := by
  have hmint (s : JitDetector) (x : ExecutedLog × Bool) :
      (processMintBurn tx s x).emitted = s.emitted := by
    unfold processMintBurn
    split
    · rfl
    · split_ifs <;> rfl
  unfold processTx
  refine List.foldlRecOn (motive := fun (t : JitDetector) => t.emitted = s.emitted) _ _ ?_
    fun t ht x _ => ht
  exact List.foldlRecOn (motive := fun (t : JitDetector) => t.emitted = s.emitted) _ _ rfl
    fun t ht x _ => (hmint t x).trans ht

/-- The transactions of the complete mints of a pool are those of its complete positions. -/
theorem mem_txIndex_reports {mints : List ActiveMint} (h : mints = T.positions.map Position.mint)
    (i : ℕ) : (∃ m ∈ mints, m.full = true ∧ m.mintTxIndex = i) ↔
      i ∈ (T.reports pool).map JitReport.txIndex := by
  unfold PoolTrack.reports
  rw [List.map_map, List.mem_map, h]
  constructor
  · rintro ⟨m, hm, hm', rfl⟩
    obtain ⟨p, hp, rfl⟩ := List.mem_map.mp hm
    exact ⟨p, List.mem_filter.mpr ⟨hp, hm'⟩, rfl⟩
  · rintro ⟨p, hp, rfl⟩
    obtain ⟨hp, hp'⟩ := List.mem_filter.mp hp
    exact ⟨p.mint, List.mem_map_of_mem hp, hp', rfl⟩

/-- One transaction. -/
theorem Follows.detectTx {st : JitDetector × List JitReport} (h : Follows pool st T)
    (hok : TxOk tx T (eventsOf pool tx.logs)) :
    Follows pool (detectTx st tx) ((eventsOf pool tx.logs).foldl (PoolTrack.step tx) T) := by
  have hview := view_processTx h.view hok.mintsFirst hok.events
  have hsub : (T.reports pool).Sublist
      (((eventsOf pool tx.logs).foldl (PoolTrack.step tx) T).reports pool) := reports_foldl T _
  have hdistinct := hok.distinct
  generalize (eventsOf pool tx.logs).foldl (PoolTrack.step tx) T = T' at hview hsub hdistinct ⊢
  generalize hs : processTx st.1 tx = s at hview
  have hemitted : s.emitted = st.1.emitted := by rw [← hs, emitted_processTx]
  generalize hpairs : (s.activeMints.toList.flatMap fun x => x.2.map (x.1, ·)) = pairs
  have hmints : mintsOf pool pairs = T'.positions.map Position.mint := by
    rw [← hpairs, mintsOf_toList]
    exact congrArg PoolMints.mints hview
  have hfull : (mintsOf pool pairs).filter ActiveMint.full =
      (T'.positions.filter Position.full).map Position.mint := by
    rw [hmints, List.filter_map]
    rfl
  have hkeys : ((T'.reports pool).map JitReport.txIndex).Nodup := by
    unfold PoolTrack.reports
    rw [List.map_map]
    exact hdistinct
  have hdetect : Mev.detectTx st tx =
      ({ s with emitted := (detectPairs pairs (s.emitted, [])).1 },
        st.2 ++ (detectPairs pairs (s.emitted, [])).2) := by
    unfold Mev.detectTx
    rw [hs, detect_eq, hpairs]
  rw [hdetect]
  refine ⟨hview, fun i => ?_, ?_⟩
  · show (pool, i, true) ∈ (detectPairs pairs (s.emitted, [])).1 ↔ _
    rw [mem_detectPairs, hemitted, h.emitted, mem_txIndex_reports hmints]
    exact or_iff_right_of_imp fun hi => (hsub.map _).subset hi
  · have hnew : (detectPairs pairs (s.emitted, [])).2.filter (JitReport.isFull pool) =
        (T'.reports pool).filter
          fun r => r.txIndex ∉ (T.reports pool).map JitReport.txIndex := by
      rw [filter_detectPairs pairs (by rw [hfull, List.map_map]; exact hdistinct), hfull,
        List.filter_map, List.map_map, List.filter_nil, List.nil_append]
      unfold PoolTrack.reports
      rw [List.filter_map]
      refine congrArg₂ List.map rfl (List.filter_congr fun p _ => ?_)
      show decide ((pool, p.txIndex, true) ∉ s.emitted) = decide (p.txIndex ∉ _)
      rw [hemitted]
      exact decide_eq_decide.mpr (not_congr (h.emitted p.txIndex))
    show ((st.2 ++ _).filter _).Perm _
    rw [List.filter_append, hnew]
    exact (h.reports.append_right _).trans (perm_append_filter hsub hkeys).symm

/-- Every transaction of the run is one that the detector follows, in every pool. -/
def RunOk : (Address → PoolTrack) → List JitTx → Prop
  | _, [] => True
  | T, tx :: txs => (∀ pool, TxOk tx (T pool) (eventsOf pool tx.logs)) ∧
    RunOk (fun pool => (eventsOf pool tx.logs).foldl (PoolTrack.step tx) (T pool)) txs

theorem follows_foldl {T : Address → PoolTrack} {txs : List JitTx}
    {st : JitDetector × List JitReport} (h : ∀ pool, Follows pool st (T pool))
    (hrun : RunOk T txs) (pool : Address) :
    Follows pool (txs.foldl detectTx st)
      (txs.foldl (fun T tx => (eventsOf pool tx.logs).foldl (PoolTrack.step tx) T) (T pool)) := by
  induction txs generalizing st T with
  | nil => exact h pool
  | cons tx txs ih => exact ih (fun pool => (h pool).detectTx (hrun.1 pool)) hrun.2

theorem RunOk.of_prefix {T : Address → PoolTrack} {done txs : List JitTx} (h : RunOk T txs)
    (hpre : done <+: txs) : RunOk T done := by
  induction done generalizing T txs with
  | nil => trivial
  | cons tx done ih =>
    obtain ⟨rest, rfl⟩ := hpre
    exact ⟨h.1, ih h.2 ⟨rest, rfl⟩⟩

/-- The full opportunities of every pool are its complete positions, each once. -/
def ReportedOnce (cache : Std.ExtTreeMap Address ℤ compare) (txs : List JitTx) : Prop :=
  ∀ pool, ((detectBlock cache txs).2.filter (JitReport.isFull pool)).Perm
    ((track cache txs pool).reports pool)

/-- **Main theorem.** In a block whose transactions the detector follows, every complete position
    has been reported once, and nothing else as a full opportunity, after each transaction. -/
theorem reportedOnce_of_runOk (cache : Std.ExtTreeMap Address ℤ compare) (txs : List JitTx)
    (h : RunOk (fun pool => { tick := cache[pool]? }) txs) (done : List JitTx)
    (hdone : done <+: txs) : ReportedOnce cache done := by
  intro pool
  refine (follows_foldl (fun pool => ⟨rfl, fun i => ?_, ?_⟩) (h.of_prefix hdone) pool).reports
  · exact iff_of_false (List.not_mem_nil) (List.not_mem_nil)
  · exact List.Perm.nil

/-! ## Three blocks -/

/-- A mint of the owner 7. -/
def mintLog (tickLower tickUpper : ℤ) (amount : ℕ) : ExecutedLog :=
  ⟨10, [v3MintTopic, 7, BitVec.ofInt 256 tickLower, BitVec.ofInt 256 tickUpper],
    encodeWords [0, amount, 0, 0]⟩

/-- A burn of the owner 7. -/
def burnLog (tickLower tickUpper : ℤ) (amount : ℕ) : ExecutedLog :=
  ⟨10, [v3BurnTopic, 7, BitVec.ofInt 256 tickLower, BitVec.ofInt 256 tickUpper],
    encodeWords [amount, 0, 0]⟩

/-- A swap to the tick 0. -/
def swapLog : ExecutedLog := ⟨10, [v3SwapTopic, 0, 0], encodeWords [0, 0, 0, 0, 0]⟩

/-- A mint, a swap and a burn, each in a transaction of its own. -/
def sandwichBlock : List JitTx :=
  [⟨0, some 7, [mintLog (-60) 60 500]⟩, ⟨1, some 8, [swapLog]⟩,
    ⟨2, some 7, [burnLog (-60) 60 500]⟩]

theorem sandwichBlock_reportedOnce : ReportedOnce ∅ sandwichBlock := by
  refine reportedOnce_of_runOk ∅ sandwichBlock ?_ sandwichBlock List.prefix_rfl
  have hone (tick : Option ℤ) (e : JitEvent) : MintsFirst tick [e] := by
    intro before owner tickLower tickUpper amount after heq _
    cases before with
    | nil => exact id
    | cons e' before => simp at heq
  have hempty (tx : JitTx) (T : PoolTrack) (hT : T.positions = []) : TxOk tx T [] := by
    refine ⟨fun before _ _ _ _ after heq => ?_, trivial, ?_⟩
    · simp at heq
    · simp [hT]
  have hnone (pool : Address) (hpool : 10 ≠ pool) (log : ExecutedLog) (hlog : log.address = 10) :
      eventsOf pool [log] = [] := by
    rw [eventsOf_cons, hlog, if_neg hpool]
    rfl
  have hmint : eventsOf 10 [mintLog (-60) 60 500] = [.mint 7 (-60) 60 500] := by decide +kernel
  have hswap : eventsOf 10 [swapLog] = [.swap 0] := by decide +kernel
  have hburn : eventsOf 10 [burnLog (-60) 60 500] = [.burn 7 (-60) 60 500] := by decide +kernel
  refine ⟨fun pool => ?_, fun pool => ?_, fun pool => ?_, trivial⟩
  all_goals
    by_cases hpool : 10 = pool
    · subst hpool
      simp only [hmint, hswap, hburn]
      exact ⟨hone _ _, ⟨by decide, trivial⟩, by decide⟩
    · simp only [hnone pool hpool (mintLog (-60) 60 500) rfl, hnone pool hpool swapLog rfl,
        hnone pool hpool (burnLog (-60) 60 500) rfl]
      exact hempty _ _ (by rfl)

/-- The burn comes before the swap. -/
def lateSwapBlock : List JitTx :=
  [⟨0, some 7, [mintLog (-60) 60 500]⟩, ⟨1, some 7, [burnLog (-60) 60 500]⟩,
    ⟨2, some 8, [swapLog]⟩]

/-- Two positions of one transaction, each of them complete. -/
def twoMintsBlock : List JitTx :=
  [⟨0, some 7, [mintLog (-60) 60 500, mintLog (-120) 120 300]⟩, ⟨1, some 8, [swapLog]⟩,
    ⟨2, some 7, [burnLog (-60) 60 500, burnLog (-120) 120 300]⟩]

/-- A position that was removed before the swap is reported, and of two positions of one
    transaction one is not. -/
theorem swap_after_burn_reported :
    ¬ReportedOnce ∅ lateSwapBlock ∧ ¬ReportedOnce ∅ twoMintsBlock := by
  constructor
  · intro h
    exact absurd (h 10).length_eq (by decide +kernel)
  · intro h
    exact absurd (h 10).length_eq (by decide +kernel)

end MevScout.Mev
