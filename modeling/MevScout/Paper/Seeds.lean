import MevScout.Paper.Simulated

/-!
# Seeds

Models of the recording half of `core/src/paper/sim.rs`: snapshots are captured when a
candidate is detected, kept by its `canonical_id` and merged into the session.

Results:
* `captured_runSeeds`: every stored snapshot was captured for an opportunity of the run with
  its id;
* `seeds_match`: the snapshots that the opportunities find are their own when no id comes back
  in another transaction, and only when no stored id does;
* `recurring_id_stale`: the second block of a session that finds the snapshot of the first.
-/

namespace MevScout.Paper

open Pool

/-! ## Capture -/

/-- Model of `SeedMatchKey` (`sim.rs`, lines 132–142). -/
structure SeedMatchKey where
  strategy : Strategy
  poolA : Address
  poolB : Address
  tokenIn : Address
  tokenOut : Address
  blockNumber : ℕ
  txIndex : ℕ
  deriving DecidableEq

/-- Model of `SeedMatchKey::from_opp` (`sim.rs`, lines 144–156). -/
def SeedMatchKey.fromOpp (opp : MevOpportunity) : SeedMatchKey :=
  { strategy := opp.strategy
    poolA := opp.poolA
    poolB := opp.poolB
    tokenIn := opp.tokenIn
    tokenOut := opp.tokenOut
    blockNumber := opp.blockNumber
    txIndex := opp.txIndex }

/-- Model of `PendingSeed` (`sim.rs`, lines 158–163). -/
structure PendingSeed where
  key : SeedMatchKey
  snap : PoolSnapshot

/-- Model of `snapshot_pools` (`sim.rs`, lines 165–180). -/
def snapshotPools (pools : PoolMap) (opp : MevOpportunity) : Option PoolSnapshot :=
  let addrs := poolsOfOpp opp
  if addrs = [] then none
  else
    (addrs.mapM fun addr => pools[addr]?.map (addr, ·)).map fun pools =>
      { blockNumber := opp.blockNumber, txIndex := opp.txIndex, pools }

/-- Model of `capture_snapshot` (`sim.rs`, lines 182–187). -/
def captureSnapshot (pools : PoolMap) (opp : MevOpportunity) : Option (String × PoolSnapshot) := do
  let cid ← opp.canonicalId
  let snap ← snapshotPools pools opp
  return (cid, snap)

/-- The body of the loop of `push_pending_seeds` (`sim.rs`, lines 196–206). -/
def pushStep (pools : PoolMap) (pending : List PendingSeed) (opp : MevOpportunity) :
    List PendingSeed :=
  if ¬isSimulatable opp.strategy then pending
  else
    match snapshotPools pools opp with
    | none => pending
    | some snap => pending ++ [{ key := .fromOpp opp, snap }]

/-- Model of `push_pending_seeds` (`sim.rs`, lines 189–207). -/
def pushPendingSeeds (pending : List PendingSeed) (pools : PoolMap) (opps : List MevOpportunity) :
    List PendingSeed :=
  opps.foldl (pushStep pools) pending

/-! ## Promotion -/

/-- The variables of the loops of `promote_pending_seeds` and `record_seeds_for_block`. -/
structure SeedLoop where
  seeds : SimSeeds
  perBlock : ℕ → ℕ
  index : List PendingSeed := []
  recorded : ℕ := 0
  capped : ℕ := 0

/-- The number of snapshots of each block. -/
def perBlock (seeds : SimSeeds) (block : ℕ) : ℕ :=
  seeds.values.countP (·.blockNumber = block)

/-- Counts a new snapshot. -/
def SeedLoop.insert (s : SeedLoop) (opp : MevOpportunity) (cid : String) (snap : PoolSnapshot) :
    SeedLoop :=
  { s with
    seeds := s.seeds.insert cid snap
    perBlock := Function.update s.perBlock opp.blockNumber (s.perBlock opp.blockNumber + 1)
    recorded := s.recorded + 1 }

/-- The body of the loop of `promote_pending_seeds` (`sim.rs`, lines 229–250). The index keeps
    the first pending seed of each key, and `remove` takes all of them away. -/
def promoteStep (maxPerBlock : ℕ) (s : SeedLoop) (opp : MevOpportunity) : SeedLoop :=
  if ¬isSimulatable opp.strategy then s
  else
    match opp.canonicalId with
    | none => s
    | some cid =>
      if cid ∈ s.seeds then s
      else if maxPerBlock ≤ s.perBlock opp.blockNumber then { s with capped := s.capped + 1 }
      else
        match s.index.find? (·.key = SeedMatchKey.fromOpp opp) with
        | none => s
        | some p =>
          { s with index := s.index.filter (·.key ≠ SeedMatchKey.fromOpp opp) }.insert
            opp cid p.snap

/-- Model of `promote_pending_seeds` (`sim.rs`, lines 209–252), which drains `pending`. -/
def promotePendingSeeds (seeds : SimSeeds) (pending : List PendingSeed)
    (opps : List MevOpportunity) (maxPerBlock : ℕ) : SeedLoop :=
  opps.foldl (promoteStep maxPerBlock) { seeds, perBlock := perBlock seeds, index := pending }

/-- The body of the loop of `record_seeds_for_block` (`sim.rs`, lines 271–286). -/
def recordStep (pools : PoolMap) (maxPerBlock : ℕ) (s : SeedLoop) (opp : MevOpportunity) :
    SeedLoop :=
  if ¬isSimulatable opp.strategy then s
  else if maxPerBlock ≤ s.perBlock opp.blockNumber then { s with capped := s.capped + 1 }
  else
    match captureSnapshot pools opp with
    | none => s
    | some (cid, snap) =>
      if cid ∈ s.seeds then { s with seeds := s.seeds.insert cid snap } else s.insert opp cid snap

/-- Model of `record_seeds_for_block` (`sim.rs`, lines 254–288). -/
def recordSeedsForBlock (seeds : SimSeeds) (pools : PoolMap) (opps : List MevOpportunity)
    (maxPerBlock : ℕ) : SeedLoop :=
  opps.foldl (recordStep pools maxPerBlock) { seeds, perBlock := perBlock seeds }

/-- Model of `merge_seeds` (`sim.rs`, lines 460–465). -/
def mergeSeeds (session incoming : SimSeeds) : SimSeeds :=
  incoming.toList.foldl (fun session kv => session.insertIfNew kv.1 kv.2) session

/-! ## Runs -/

/-- The seeds of a runner and of the session it belongs to. -/
structure SeedState where
  pending : List PendingSeed := []
  seeds : SimSeeds := ∅
  session : SimSeeds := ∅

/-- One call on the seeds. -/
inductive SeedCall where
  /-- Candidates are detected against the current pools. -/
  | push (pools : PoolMap) (opps : List MevOpportunity)
  /-- The opportunities of a block are final. -/
  | promote (opps : List MevOpportunity) (maxPerBlock : ℕ)
  /-- Opportunities of the mempool are recorded against the current pools. -/
  | record (pools : PoolMap) (opps : List MevOpportunity) (maxPerBlock : ℕ)
  /-- The session takes the seeds of the runner. -/
  | merge

def SeedState.step (s : SeedState) : SeedCall → SeedState
  | .push pools opps => { s with pending := pushPendingSeeds s.pending pools opps }
  | .promote opps maxPerBlock =>
    { s with
      pending := []
      seeds := (promotePendingSeeds s.seeds s.pending opps maxPerBlock).seeds }
  | .record pools opps maxPerBlock =>
    { s with seeds := (recordSeedsForBlock s.seeds pools opps maxPerBlock).seeds }
  | .merge => { s with seeds := ∅, session := mergeSeeds s.session s.seeds }

/-- The seeds after the calls of a run. -/
def runSeeds (calls : List SeedCall) : SeedState := calls.foldl SeedState.step {}

/-- The opportunities that a call finalizes. -/
def SeedCall.opps : SeedCall → List MevOpportunity
  | .promote opps _ | .record _ opps _ => opps
  | .push _ _ | .merge => []

/-- The opportunities of a run. -/
def finalized (calls : List SeedCall) : List MevOpportunity := calls.flatMap SeedCall.opps

/-! ## Where a snapshot comes from -/

/-- The snapshot was captured for the transaction of the opportunity. -/
def CapturedFor (snap : PoolSnapshot) (opp : MevOpportunity) : Prop :=
  snap.blockNumber = opp.blockNumber ∧ snap.txIndex = opp.txIndex

/-- Every stored snapshot was captured for one of the opportunities, under its id. -/
def Captured (opps : List MevOpportunity) (seeds : SimSeeds) : Prop :=
  ∀ cid snap, seeds[cid]? = some snap → ∃ opp ∈ opps, isSimulatable opp.strategy = true ∧
    opp.canonicalId = some cid ∧ CapturedFor snap opp

/-- A pending seed holds the snapshot of the transaction that its key names. -/
def PendingOk (pending : List PendingSeed) : Prop :=
  ∀ p ∈ pending, p.snap.blockNumber = p.key.blockNumber ∧ p.snap.txIndex = p.key.txIndex

theorem capturedFor_snapshotPools {pools : PoolMap} {opp : MevOpportunity} {snap : PoolSnapshot}
    (h : snapshotPools pools opp = some snap) : CapturedFor snap opp := by
  unfold snapshotPools at h
  dsimp only at h
  split_ifs at h
  obtain ⟨states, -, rfl⟩ := Option.map_eq_some_iff.mp h
  exact ⟨rfl, rfl⟩

theorem Captured.mono {opps opps' : List MevOpportunity} {seeds : SimSeeds}
    (h : Captured opps seeds) (hsub : opps ⊆ opps') : Captured opps' seeds := by
  intro cid snap hsnap
  obtain ⟨opp, hopp, hrest⟩ := h cid snap hsnap
  exact ⟨opp, hsub hopp, hrest⟩

theorem captured_insert {opps : List MevOpportunity} {seeds : SimSeeds} {opp : MevOpportunity}
    {cid : String} {snap : PoolSnapshot} (h : Captured opps seeds)
    (hsim : isSimulatable opp.strategy = true) (hcid : opp.canonicalId = some cid)
    (hsnap : CapturedFor snap opp) (hopp : opp ∈ opps) : Captured opps (seeds.insert cid snap) := by
  intro cid' snap' h'
  rw [Map.getElem?_insert_eq] at h'
  split_ifs at h' with hc
  · obtain rfl := Option.some.inj h'
    exact ⟨opp, hopp, hsim, hc ▸ hcid, hsnap⟩
  · exact h cid' snap' h'

theorem pendingOk_push {pending : List PendingSeed} (pools : PoolMap)
    (opps : List MevOpportunity) (h : PendingOk pending) :
    PendingOk (pushPendingSeeds pending pools opps) := by
  unfold pushPendingSeeds
  induction opps generalizing pending with
  | nil => exact h
  | cons opp opps ih =>
    refine ih ?_
    unfold pushStep
    by_cases hsim : isSimulatable opp.strategy = true
    · rw [if_neg (not_not_intro hsim)]
      cases hsnap : snapshotPools pools opp with
      | none => exact h
      | some snap =>
        intro p hp
        rcases List.mem_append.mp hp with hp | hp
        · exact h p hp
        · obtain rfl := List.mem_singleton.mp hp
          exact capturedFor_snapshotPools hsnap
    · rw [if_pos hsim]
      exact h

theorem captured_promote {opps all : List MevOpportunity} (maxPerBlock : ℕ) {s : SeedLoop}
    (hsub : opps ⊆ all) (h : Captured all s.seeds) (hindex : PendingOk s.index) :
    Captured all (opps.foldl (promoteStep maxPerBlock) s).seeds := by
  induction opps generalizing s with
  | nil => exact h
  | cons opp opps ih =>
    have hopp : opp ∈ all := hsub (List.mem_cons_self ..)
    have hstep : Captured all (promoteStep maxPerBlock s opp).seeds ∧
        PendingOk (promoteStep maxPerBlock s opp).index := by
      unfold promoteStep
      by_cases hsim : isSimulatable opp.strategy = true
      · rw [if_neg (not_not_intro hsim)]
        cases hcid : opp.canonicalId with
        | none => exact ⟨h, hindex⟩
        | some cid =>
          dsimp only
          by_cases hmem : cid ∈ s.seeds
          · rw [if_pos hmem]
            exact ⟨h, hindex⟩
          · rw [if_neg hmem]
            by_cases hfull : maxPerBlock ≤ s.perBlock opp.blockNumber
            · rw [if_pos hfull]
              exact ⟨h, hindex⟩
            · rw [if_neg hfull]
              cases hfind : s.index.find? (·.key = SeedMatchKey.fromOpp opp) with
              | none => exact ⟨h, hindex⟩
              | some p =>
                have hkey : p.key = SeedMatchKey.fromOpp opp := by
                  simpa using List.find?_some hfind
                have hp := hindex p (List.mem_of_find?_eq_some hfind)
                rw [hkey] at hp
                refine ⟨captured_insert h hsim hcid hp hopp, fun q hq => ?_⟩
                exact hindex q (List.mem_of_mem_filter hq)
      · rw [if_pos hsim]
        exact ⟨h, hindex⟩
    exact ih (fun o ho => hsub (List.mem_cons_of_mem _ ho)) hstep.1 hstep.2

theorem captured_record {opps all : List MevOpportunity} (pools : PoolMap) (maxPerBlock : ℕ)
    {s : SeedLoop} (hsub : opps ⊆ all) (h : Captured all s.seeds) :
    Captured all (opps.foldl (recordStep pools maxPerBlock) s).seeds := by
  induction opps generalizing s with
  | nil => exact h
  | cons opp opps ih =>
    refine ih (fun o ho => hsub (List.mem_cons_of_mem _ ho)) ?_
    unfold recordStep
    by_cases hsim : isSimulatable opp.strategy = true
    · rw [if_neg (not_not_intro hsim)]
      by_cases hfull : maxPerBlock ≤ s.perBlock opp.blockNumber
      · rw [if_pos hfull]
        exact h
      · rw [if_neg hfull]
        cases hcap : captureSnapshot pools opp with
        | none => exact h
        | some kv =>
          simp only [captureSnapshot, Option.bind_eq_bind, Option.bind_eq_some_iff] at hcap
          obtain ⟨cid, hcid, snap, hsnap, hkv⟩ := hcap
          obtain rfl := Option.some.inj hkv
          have hinsert := captured_insert h hsim hcid (capturedFor_snapshotPools hsnap)
            (hsub (List.mem_cons_self ..))
          dsimp only
          split_ifs <;> exact hinsert
    · rw [if_pos hsim]
      exact h

theorem captured_merge {all : List MevOpportunity} {session incoming : SimSeeds}
    (hsession : Captured all session) (hincoming : Captured all incoming) :
    Captured all (mergeSeeds session incoming) := by
  have hlist : ∀ kv ∈ incoming.toList, ∃ opp ∈ all, isSimulatable opp.strategy = true ∧
      opp.canonicalId = some kv.1 ∧ CapturedFor kv.2 opp := fun kv hkv =>
    hincoming kv.1 kv.2 (Std.ExtTreeMap.mem_toList_iff_getElem?_eq_some.mp hkv)
  unfold mergeSeeds
  generalize incoming.toList = l at hlist
  induction l generalizing session with
  | nil => exact hsession
  | cons kv l ih =>
    refine ih ?_ fun kv' h' => hlist kv' (List.mem_cons_of_mem _ h')
    intro cid snap hsnap
    rw [Map.getElem?_insertIfNew_eq] at hsnap
    split_ifs at hsnap with hc
    · subst hc
      cases hold : session[kv.1]? with
      | some old =>
        rw [hold] at hsnap
        exact hsession kv.1 snap (hold.trans hsnap)
      | none =>
        rw [hold] at hsnap
        obtain rfl := Option.some.inj hsnap
        exact hlist kv (List.mem_cons_self ..)
    · exact hsession cid snap hsnap

theorem finalized_concat (calls : List SeedCall) (call : SeedCall) :
    finalized (calls ++ [call]) = finalized calls ++ call.opps := by
  simp [finalized]

/-- Every stored snapshot of a run was captured for one of its opportunities. -/
theorem captured_runSeeds (calls : List SeedCall) :
    PendingOk (runSeeds calls).pending ∧ Captured (finalized calls) (runSeeds calls).seeds ∧
      Captured (finalized calls) (runSeeds calls).session := by
  induction calls using List.reverseRecOn with
  | nil =>
    have hempty : Captured [] ∅ := fun cid snap h => by simp at h
    have hpending : PendingOk [] := fun p hp => by simp at hp
    exact ⟨hpending, hempty, hempty⟩
  | append_singleton calls call ih =>
    obtain ⟨hpending, hseeds, hsession⟩ := ih
    have hrun : runSeeds (calls ++ [call]) = (runSeeds calls).step call := by simp [runSeeds]
    have hold : finalized calls ⊆ finalized (calls ++ [call]) := by
      rw [finalized_concat]
      exact List.subset_append_left ..
    have hnew : call.opps ⊆ finalized (calls ++ [call]) := by
      rw [finalized_concat]
      exact List.subset_append_right ..
    have hseeds := hseeds.mono hold
    have hsession := hsession.mono hold
    rw [hrun]
    cases call with
    | push pools opps => exact ⟨pendingOk_push pools opps hpending, hseeds, hsession⟩
    | promote opps maxPerBlock =>
      have hdrained : PendingOk [] := fun p hp => by simp at hp
      have hpromoted := captured_promote maxPerBlock
        (s := { seeds := (runSeeds calls).seeds, perBlock := perBlock (runSeeds calls).seeds,
                index := (runSeeds calls).pending }) hnew hseeds hpending
      exact ⟨hdrained, hpromoted, hsession⟩
    | record pools opps maxPerBlock =>
      exact ⟨hpending, captured_record pools maxPerBlock hnew hseeds, hsession⟩
    | merge =>
      exact ⟨hpending, fun cid snap h => by simp [SeedState.step] at h,
        captured_merge hsession hseeds⟩

/-! ## The snapshot that an opportunity finds -/

/-- `simulate_candidate` finds the snapshot for the opportunity. -/
def FindsSeed (seeds : SimSeeds) (opp : MevOpportunity) (snap : PoolSnapshot) : Prop :=
  isSimulatable opp.strategy = true ∧ opp.canonicalId.bind (seeds[·]?) = some snap

/-- The opportunities find snapshots of their own transactions. -/
def OwnSeeds (seeds : SimSeeds) (opps : List MevOpportunity) : Prop :=
  ∀ opp ∈ opps, ∀ snap, FindsSeed seeds opp snap → CapturedFor snap opp

/-- Simulatable opportunities that share an id with a seed belong to one transaction. -/
def OneTransaction (seeds : SimSeeds) (opps : List MevOpportunity) : Prop :=
  ∀ a ∈ opps, ∀ b ∈ opps, ∀ snap, FindsSeed seeds a snap → isSimulatable b.strategy = true →
    b.canonicalId = a.canonicalId → b.blockNumber = a.blockNumber ∧ b.txIndex = a.txIndex

theorem ownSeeds_iff {seeds : SimSeeds} {opps : List MevOpportunity} (h : Captured opps seeds) :
    OwnSeeds seeds opps ↔ OneTransaction seeds opps := by
  constructor
  · intro hown a ha b hb snap hfind hsim hid
    have hfind' : FindsSeed seeds b snap := ⟨hsim, by rw [hid]; exact hfind.2⟩
    obtain ⟨hblock, htx⟩ := hown a ha snap hfind
    obtain ⟨hblock', htx'⟩ := hown b hb snap hfind'
    exact ⟨hblock'.symm.trans hblock, htx'.symm.trans htx⟩
  · intro hone opp hopp snap hfind
    obtain ⟨cid, hcid, hstored⟩ := Option.bind_eq_some_iff.mp hfind.2
    obtain ⟨writer, hwriter, hsim, hid, hblock, htx⟩ := h cid snap hstored
    have hsame := hone opp hopp writer hwriter snap hfind hsim (hid.trans hcid.symm)
    exact ⟨hblock.trans hsame.1, htx.trans hsame.2⟩

/-- No id of a simulatable opportunity comes back in another transaction. -/
def IdsOfOneTransaction (opps : List MevOpportunity) : Prop :=
  ∀ a ∈ opps, ∀ b ∈ opps, isSimulatable a.strategy = true → isSimulatable b.strategy = true →
    b.canonicalId = a.canonicalId → b.blockNumber = a.blockNumber ∧ b.txIndex = a.txIndex

theorem IdsOfOneTransaction.oneTransaction {opps : List MevOpportunity}
    (h : IdsOfOneTransaction opps) (seeds : SimSeeds) : OneTransaction seeds opps :=
  fun a ha b hb _ hfind hsim hid => h a ha b hb hfind.1 hsim hid

/-- **Main theorem.** After every run whose ids do not come back in another transaction, the
    opportunities find snapshots of their own transactions, in the runner and in the session.
    Given what is stored, they do so if and only if no stored id came back. -/
theorem seeds_match (calls : List SeedCall) :
    (IdsOfOneTransaction (finalized calls) →
        OwnSeeds (runSeeds calls).seeds (finalized calls) ∧
          OwnSeeds (runSeeds calls).session (finalized calls)) ∧
      (OwnSeeds (runSeeds calls).seeds (finalized calls) ↔
        OneTransaction (runSeeds calls).seeds (finalized calls)) ∧
      (OwnSeeds (runSeeds calls).session (finalized calls) ↔
        OneTransaction (runSeeds calls).session (finalized calls)) := by
  obtain ⟨-, hseeds, hsession⟩ := captured_runSeeds calls
  refine ⟨fun hids => ?_, ownSeeds_iff hseeds, ownSeeds_iff hsession⟩
  exact ⟨(ownSeeds_iff hseeds).mpr (hids.oneTransaction _),
    (ownSeeds_iff hsession).mpr (hids.oneTransaction _)⟩

/-- A route that is detected in two blocks of one session. -/
def routeCalls (opp : MevOpportunity) : List SeedCall :=
  [.push (.ofList (routeSnapshot 1 1500000).pools) [opp], .promote [opp] 32, .merge,
    .push (.ofList (routeSnapshot 1 2000000).pools) [{ opp with blockNumber := 8 }],
    .promote [{ opp with blockNumber := 8 }] 32, .merge]

/-- The opportunity of block 8 is simulated against the pools of block 7. -/
theorem recurring_id_stale :
    let opp := routeOpp "route" 1 1000 100
    let session := (runSeeds (routeCalls opp)).session
    ¬OwnSeeds session (finalized (routeCalls opp)) ∧
      session["route"]? = some (routeSnapshot 1 1500000) ∧
      ((plainPolicy 10000 0).applySimulated session {} [{ opp with blockNumber := 8 }]).fills.map
        (fun f => (f.blockNumber, f.netWei)) = [(8, 387)] := by
  intro opp session
  have hstored : session["route"]? = some (routeSnapshot 1 1500000) := by decide +kernel
  refine ⟨fun hown => ?_, hstored, by decide +kernel⟩
  have hfind : FindsSeed session { opp with blockNumber := 8 } (routeSnapshot 1 1500000) :=
    ⟨rfl, hstored⟩
  obtain ⟨hblock, -⟩ := hown { opp with blockNumber := 8 } (by decide +kernel) _ hfind
  exact absurd hblock (by decide)

end MevScout.Paper
