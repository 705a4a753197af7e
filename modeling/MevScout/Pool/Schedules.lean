import MevScout.Pool.ShardOrder

/-!
# Discovery under all schedules

When the pool list of a discovery is the same for every cut into windows and shards and every
order in which these complete. The logs of a pool that are spread over two blocks can be
reported from either of them first, so they must not be told apart by that.

Results:
* `steady_iff_fresh`, `steady_iff_cached`: when a pool is discovered alike by all schedules;
* `discoversAlike_iff`: the same for all pools;
* `swap_hides_creation`: a swap that is reported before the creation of its pool.
-/

namespace MevScout.Pool.Discovery

open Chain Firsts

section

variable {start stop : ℕ} {reads : DiscoveryReads} {logs : DiscoveryLogs start stop} {a : Address}
  {b : ℕ}

/-! ## Logs that every schedule reports alike -/

/-- Where a shard reports `report` if it holds block `b` and nothing otherwise, so does the
    discovery. -/
theorem discoverPools_eq_of_block (hb : Holds (start, stop) b) {sched : Schedule start stop}
    {report : Option DiscoveredPool}
    (h : ∀ r, discoverPoolsShard reads logs sched r a = if Holds r b then report else none) :
    discoverPools reads logs sched a = report := by
  unfold discoverPools
  by_cases hlen : (distributeBlocks start stop sched.alive).length ≤ 1
  · rw [if_pos hlen, h, if_pos hb]
  · rw [if_neg hlen, foldl_firstWins, Option.none_or, List.findSome?_map]
    have hshard : ((· a) ∘ fun shard : ProviderShard =>
        discoverPoolsShard reads logs sched (shard.start, shard.stop)) = fun shard =>
        if Holds (shard.start, shard.stop) b then report else none := funext fun shard => h _
    rw [hshard, findSome?_ite, if_pos]
    have hne : sched.alive ≠ [] := by
      intro hnil
      rw [hnil] at hlen
      exact hlen (Nat.zero_le 1)
    obtain ⟨shard, hshard, hholds⟩ := distributeBlocks_cover hne hb
    exact ⟨shard, sched.shards_perm.mem_iff.mpr hshard, hholds⟩

/-- Where every shard that reports a pool reports `p`, and one shard does, so does the discovery. -/
theorem discoverPools_eq_of_agree (hb : Holds (start, stop) b) {sched : Schedule start stop}
    {p : DiscoveredPool}
    (hagree : ∀ r, discoverPoolsShard reads logs sched r a = none ∨
      discoverPoolsShard reads logs sched r a = some p)
    (hsome : ∀ r, Holds r b → discoverPoolsShard reads logs sched r a = some p) :
    discoverPools reads logs sched a = some p := by
  unfold discoverPools
  by_cases hlen : (distributeBlocks start stop sched.alive).length ≤ 1
  · rw [if_pos hlen, hsome _ hb]
  · rw [if_neg hlen, foldl_firstWins, Option.none_or, List.findSome?_map]
    have hne : sched.alive ≠ [] := by
      intro hnil
      rw [hnil] at hlen
      exact hlen (Nat.zero_le 1)
    obtain ⟨shard, hshard, hholds⟩ := distributeBlocks_cover hne hb
    exact findSome?_eq_of_agree (sched.shards_perm.mem_iff.mpr hshard) (hsome _ hholds)
      fun _ _ => hagree _

/-- Where no shard reports a pool, the discovery does not. -/
theorem discoverPools_eq_none {sched : Schedule start stop}
    (h : ∀ r, discoverPoolsShard reads logs sched r a = none) :
    discoverPools reads logs sched a = none := by
  unfold discoverPools
  by_cases hlen : (distributeBlocks start stop sched.alive).length ≤ 1
  · rw [if_pos hlen, h]
  · rw [if_neg hlen, foldl_firstWins, Option.none_or, List.findSome?_map,
      List.findSome?_eq_none_iff]
    exact fun shard _ => h _

theorem holds_of_seenAt (h : logs.SeenAt a b) : Holds (start, stop) b := by
  rcases h with ⟨l, hl, -, rfl⟩ | ⟨c, hc, -, rfl⟩
  · exact logs.activity_range l hl
  · exact logs.creations_range c hc

theorem seenAt_of_reports (h : logs.Reports a b) : logs.SeenAt a b := by
  rcases h with hcreated | ⟨hit, hhit, -⟩
  · obtain ⟨fp, hfp⟩ := Option.ne_none_iff_exists'.mp hcreated
    obtain ⟨hholds, hseen, -⟩ := seenAt_of_created hfp
    rwa [holds_self_iff.mp hholds] at hseen
  · obtain ⟨b', hholds, hseen, -⟩ := seenAt_of_windowHit hhit
    rwa [holds_self_iff.mp hholds] at hseen

theorem reports_of_creation {c : CreationLog} (hc : c ∈ logs.creations)
    (haddr : c.pool.address = a) : logs.Reports a c.block :=
  .inl (created_ne_none hc haddr (holds_self_iff.mpr rfl))

/-- The hit of a block without creations is that of its activity. -/
theorem blockHit_eq_windowHit (h : logs.created a (b, b) = none) :
    logs.blockHit a b = logs.windowHit a (b, b) := by
  unfold DiscoveryLogs.blockHit
  rw [List.findSome?_eq_none_iff.mpr, Option.or_none]
  intro c hc
  by_contra hopens
  have hcreates := List.findSome?_eq_none_iff.mp h c hc
  rw [CreationLog.creates, if_pos (opens_ne_none hopens)] at hcreates
  cases hcreates

theorem blockReport_of_created {fp : DiscoveredPool} (h : logs.created a (b, b) = some fp) :
    blockReport reads logs a b = some (finishCreated reads a (logs.blockHit a b) fp) := by
  unfold blockReport
  rw [h]

theorem blockReport_of_none (h : logs.created a (b, b) = none) :
    blockReport reads logs a b = (logs.windowHit a (b, b)).bind (finishHit reads a) := by
  unfold blockReport
  rw [h, blockHit_eq_windowHit h]

theorem creationBlock_of_created {fp : DiscoveredPool} (h : logs.created a (b, b) = some fp)
    (hit : Option PoolHit) : (finishCreated reads a hit fp).creationBlock = b := by
  rw [(keepsMetadata_finishCreated ..).creationBlock]
  exact holds_self_iff.mp (seenAt_of_created h).1

/-- A block by itself reports a pool with this block, or with that of the cached row. -/
theorem blockReport_creationBlock {p : DiscoveredPool} (h : blockReport reads logs a b = some p) :
    p.creationBlock = b ∨ ∃ dp, reads.cached a = some dp ∧ dp.creationBlock = p.creationBlock := by
  cases hcreated : logs.created a (b, b) with
  | some fp =>
    rw [blockReport_of_created hcreated] at h
    obtain rfl := Option.some.inj h
    exact .inl (creationBlock_of_created hcreated _)
  | none =>
    rw [blockReport_of_none hcreated] at h
    obtain ⟨hit, hhit, hfinish⟩ := Option.bind_eq_some_iff.mp h
    cases hcached : reads.cached a with
    | some dp =>
      rw [finishHit_cached hcached] at hfinish
      obtain rfl := Option.some.inj hfinish
      exact .inr ⟨dp, rfl, rfl⟩
    | none =>
      have hspeaks : ¬Silent hit.dexType := by
        intro hsilent
        rw [finishHit_silent hcached hsilent] at hfinish
        cases hfinish
      obtain ⟨p', hp', hblock⟩ := finishHit_reports hcached hspeaks
      obtain ⟨b', hholds, -, hfirst⟩ := seenAt_of_windowHit hhit
      left
      rw [← Option.some.inj (hp'.symm.trans hfinish), hblock, hfirst, holds_self_iff.mp hholds]

theorem blockReport_fresh (hcached : reads.cached a = none) {p : DiscoveredPool}
    (h : blockReport reads logs a b = some p) : p.creationBlock = b := by
  rcases blockReport_creationBlock h with hblock | ⟨dp, hdp, -⟩
  · exact hblock
  · rw [hcached] at hdp
    cases hdp

theorem blockReport_ne_none (hcached : reads.cached a = none) (h : logs.Reports a b) :
    ∃ p, blockReport reads logs a b = some p := by
  cases hcreated : logs.created a (b, b) with
  | some fp => exact ⟨_, blockReport_of_created hcreated⟩
  | none =>
    obtain ⟨hit, hhit, hspeaks⟩ := h.resolve_left fun hne => hne hcreated
    obtain ⟨p, hp, -⟩ := finishHit_reports hcached hspeaks
    exact ⟨p, by rw [blockReport_of_none hcreated, hhit, Option.bind_some, hp]⟩

theorem firstAt_fresh (hcached : reads.cached a = none) :
    FirstAt reads logs a b ↔ logs.LowestAt a b := by
  refine ⟨fun h => h.resolve_right ?_, .inl⟩
  rintro ⟨dp, hdp, -⟩
  rw [hcached] at hdp
  cases hdp

theorem steady_of_block (hseen : logs.SeenAt a b) (hone : ∀ b', logs.SeenAt a b' → b' = b) :
    Steady reads logs a := by
  refine ⟨blockReport reads logs a b, fun sched => ?_, fun p hp => ?_, ?_⟩
  · exact discoverPools_eq_of_block (holds_of_seenAt hseen) (discoverPoolsShard_block hone sched)
  · rcases blockReport_creationBlock hp with hblock | hrow
    · exact .inl (hblock ▸ ⟨hseen, fun b' hb' => (hone b' hb').ge⟩)
    · exact .inr hrow
  · rintro ⟨c, hc, haddr⟩
    have hne : logs.created a (b, b) ≠ none :=
      hone _ (.inr ⟨c, hc, haddr, rfl⟩) ▸ created_ne_none hc haddr (holds_self_iff.mpr rfl)
    obtain ⟨fp, hfp⟩ := Option.ne_none_iff_exists'.mp hne
    obtain ⟨-, -, c', hc', haddr', rfl⟩ := seenAt_of_created hfp
    exact ⟨c', hc', haddr', _, blockReport_of_created hfp,
      keepsMetadata_finishCreated reads a (logs.blockHit a b) c'.pool⟩

theorem discoverPoolsShard_of_no_creation (hno : ∀ c ∈ logs.creations, c.pool.address ≠ a)
    (sched : Schedule start stop) (r : ℕ × ℕ) :
    discoverPoolsShard reads logs sched r a =
      ((coarseWindows sched r).findSome? (coarseHit logs sched a)).bind (finishHit reads a) := by
  have hcreated : (coarseWindows sched r).findSome? (logs.created a) = none := by
    refine List.findSome?_eq_none_iff.mpr fun coarse _ => ?_
    by_contra hne
    obtain ⟨fp, hfp⟩ := Option.ne_none_iff_exists'.mp hne
    obtain ⟨-, -, c, hc, haddr, -⟩ := seenAt_of_created hfp
    exact hno c hc haddr
  rw [discoverPoolsShard_apply, hcreated]

theorem steady_of_silent (hcached : reads.cached a = none) (hsilent : ∀ b, ¬logs.Reports a b) :
    Steady reads logs a := by
  have hno : ∀ c ∈ logs.creations, c.pool.address ≠ a := fun c hc haddr =>
    hsilent c.block (reports_of_creation hc haddr)
  refine ⟨none, fun sched => discoverPools_eq_none fun r => ?_, (fun p hp => nomatch hp), ?_⟩
  · rw [discoverPoolsShard_of_no_creation hno]
    cases hhit : (coarseWindows sched r).findSome? (coarseHit logs sched a) with
    | none => rfl
    | some hit =>
      rcases exists_block_of_shardHit hhit with ⟨b, -, hb⟩ | ⟨c, hc, -, hopens⟩
      · refine finishHit_silent hcached ?_
        by_contra hspeaks
        exact hsilent b (.inr ⟨hit, hb, hspeaks⟩)
      · exact absurd (opens_ne_none (by rw [hopens]; simp)) (hno c hc)
  · rintro ⟨c, hc, haddr⟩
    exact absurd haddr (hno c hc)

theorem steady_of_untouched (hcached : reads.cached a = none) {fp : DiscoveredPool}
    (hlow : logs.LowestAt a b) (hcreated : logs.created a (b, b) = some fp)
    (hothers : ∀ b', b' ≠ b → ¬logs.Reports a b')
    (huntouched : ∀ hit, logs.windowHit a (b, b) = some hit → Untouched reads a hit fp) :
    Steady reads logs a := by
  have hone : ∀ c ∈ logs.creations, c.pool.address = a → c.block = b := by
    intro c hc haddr
    by_contra hne
    exact hothers c.block hne (reports_of_creation hc haddr)
  have hsilent : ∀ b' hit, b' ≠ b → logs.windowHit a (b', b') = some hit → Silent hit.dexType := by
    intro b' hit hne hhit
    by_contra hspeaks
    exact hothers b' hne (.inr ⟨hit, hhit, hspeaks⟩)
  obtain ⟨hholds, -, c, hc, haddr, rfl⟩ := seenAt_of_created hcreated
  have hkeeps := keepsMetadata_finishCreated reads a none c.pool
  refine ⟨some (finishCreated reads a none c.pool), fun sched => ?_, fun p hp => ?_, fun _ =>
    ⟨c, hc, haddr, _, rfl, hkeeps⟩⟩
  · refine discoverPools_eq_of_block (holds_of_seenAt hlow.1) fun r => ?_
    rw [discoverPoolsShard_apply, shardCreated_eq_ite hone]
    cases hhit : (coarseWindows sched r).findSome? (coarseHit logs sched a) with
    | none => split_ifs <;> simp [hcreated]
    | some hit =>
      by_cases hr : Holds r b
      · rw [if_pos hr, if_pos hr, hcreated]
        refine congrArg some ?_
        rcases exists_block_of_shardHit hhit with ⟨b', -, hb'⟩ | ⟨c', -, -, hopens⟩
        · by_cases hbb : b' = b
          · exact (finishCreated_eq_iff hcached).mpr (huntouched hit (hbb ▸ hb'))
          · exact finishCreated_of_silent (hsilent b' hit hbb hb')
        · exact finishCreated_of_creation (hit_of_opens hopens)
      · rw [if_neg hr, if_neg hr]
        rcases exists_block_of_shardHit hhit with ⟨b', hb, hb'⟩ | ⟨c', hc', hb, hopens⟩
        · exact finishHit_silent hcached (hsilent b' hit (fun h => hr (h ▸ hb)) hb')
        · have hblock := hone c' hc' (opens_ne_none (by rw [hopens]; simp))
          exact absurd (hblock ▸ hb) hr
  · obtain rfl := Option.some.inj hp
    rw [hkeeps.creationBlock, holds_self_iff.mp hholds]
    exact .inl hlow

theorem steady_of_untornFresh (hcached : reads.cached a = none) (h : UntornFresh reads logs a) :
    Steady reads logs a := by
  rcases h with ⟨b, hone⟩ | hsilent | ⟨b, fp, hlow, hcreated, hothers, huntouched⟩
  · by_cases hseen : logs.SeenAt a b
    · exact steady_of_block hseen hone
    · refine steady_of_silent hcached fun b' hb' => hseen ?_
      exact hone b' (seenAt_of_reports hb') ▸ seenAt_of_reports hb'
  · exact steady_of_silent hcached hsilent
  · exact steady_of_untouched hcached hlow hcreated hothers huntouched

/-! ## Schedules that tell logs apart -/

/-- Providers whose shares leave block `b` to one of them. -/
def aliveAt (start b : ℕ) : List (ℕ × ℕ) :=
  if b = start then [(0, 1), (1, 0)] else [(0, b - start), (1, 1), (2, 0)]

/-- The shard of block `b` alone. -/
def blockShard (start b : ℕ) : ProviderShard where
  providerIdx := if b = start then 0 else 1
  start := b
  stop := b

theorem blockShard_mem (hb : Holds (start, stop) b) :
    blockShard start b ∈ distributeBlocks start stop (aliveAt start b) := by
  obtain ⟨hlow, hhigh⟩ := hb
  dsimp only at hlow hhigh
  unfold aliveAt blockShard
  by_cases hstart : b = start
  · rw [if_pos hstart, if_pos hstart]
    refine List.mem_cons.mpr (.inl ?_)
    rw [ProviderShard.mk.injEq]
    exact ⟨rfl, by omega, by show b = start + 0 + min (max 1 1) (stop - start + 1 - 0) - 1; omega⟩
  · rw [if_neg hstart, if_neg hstart]
    refine List.mem_cons_of_mem _ (List.mem_cons.mpr (.inl ?_))
    have hshare : min (max (b - start) 1) (stop - start + 1 - 0) = b - start := by omega
    rw [ProviderShard.mk.injEq]
    show 1 = 1 ∧ b = start + (0 + min (max (b - start) 1) (stop - start + 1 - 0)) ∧
      b = start + (0 + min (max (b - start) 1) (stop - start + 1 - 0)) +
        min (max 1 1) (stop - start + 1 - (0 + min (max (b - start) 1) (stop - start + 1 - 0))) - 1
    rw [hshare]
    omega

theorem length_aliveAt (start stop b : ℕ) :
    ¬(distributeBlocks start stop (aliveAt start b)).length ≤ 1 := by
  unfold aliveAt
  split_ifs <;> simp [distributeBlocks, shardsFrom]

/-- A schedule in which the shard of block `b` alone completes first. -/
def shardSchedule (hb : Holds (start, stop) b) : Schedule start stop where
  effectiveBatchSize := 1
  factoryBatchSize := 1
  alive := aliveAt start b
  shards := blockShard start b ::
    (distributeBlocks start stop (aliveAt start b)).erase (blockShard start b)
  shards_perm := (List.perm_cons_erase (blockShard_mem hb)).symm
  windows := fun coarse => blockWindows coarse.1 coarse.2 1
  windows_perm := fun _ => .refl _

/-- A schedule without shards in which the window of block `b` completes first. -/
def windowSchedule (start stop b : ℕ) : Schedule start stop where
  effectiveBatchSize := 1
  factoryBatchSize := stop - start + 1
  alive := []
  shards := []
  shards_perm := .refl _
  windows := fun coarse =>
    if (b, b) ∈ blockWindows coarse.1 coarse.2 1 then
      (b, b) :: (blockWindows coarse.1 coarse.2 1).erase (b, b)
    else blockWindows coarse.1 coarse.2 1
  windows_perm := by
    intro coarse
    split_ifs with hmem
    · exact (List.perm_cons_erase hmem).symm
    · exact .refl _

theorem discoverPoolsShard_self (sched : Schedule start stop) :
    discoverPoolsShard reads logs sched (b, b) a = blockReport reads logs a b := by
  have hwhole (batch : ℕ) : blockWindows b b batch = [(b, b)] :=
    blockWindows_whole le_rfl (by omega)
  have hcoarse : coarseWindows sched (b, b) = [(b, b)] := hwhole _
  have hwindows : sched.windows (b, b) = [(b, b)] :=
    List.perm_singleton.mp (hwhole sched.effectiveBatchSize ▸ sched.windows_perm (b, b))
  have hhit : coarseHit logs sched a (b, b) = logs.blockHit a b := by
    unfold coarseHit DiscoveryLogs.blockHit
    rw [hwindows, List.findSome?_singleton]
  rw [discoverPoolsShard_apply, hcoarse, List.findSome?_singleton, List.findSome?_singleton, hhit]
  rfl

theorem discoverPools_shardSchedule (hb : Holds (start, stop) b) {p : DiscoveredPool}
    (hp : blockReport reads logs a b = some p) :
    discoverPools reads logs (shardSchedule hb) a = some p := by
  have hlen : ¬(distributeBlocks start stop (shardSchedule hb).alive).length ≤ 1 :=
    length_aliveAt start stop b
  unfold discoverPools
  rw [if_neg hlen, foldl_firstWins, Option.none_or]
  show (List.map _ (blockShard start b :: _)).findSome? _ = _
  have hself : discoverPoolsShard reads logs (shardSchedule hb)
      ((blockShard start b).start, (blockShard start b).stop) a = some p :=
    (discoverPoolsShard_self _).trans hp
  rw [List.map_cons, List.findSome?_cons, hself]

theorem discoverPools_windowSchedule (reads : DiscoveryReads) (hb : Holds (start, stop) b)
    {hit : PoolHit} (hhit : logs.windowHit a (b, b) = some hit) :
    discoverPools reads logs (windowSchedule start stop b) a =
      match logs.created a (start, stop) with
      | some fp => some (finishCreated reads a (some hit) fp)
      | none => finishHit reads a hit := by
  have hle : start ≤ stop := hb.1.trans hb.2
  have hcoarse : coarseWindows (windowSchedule start stop b) (start, stop) = [(start, stop)] :=
    blockWindows_whole hle (by show stop - start < max (max (max (stop - start + 1) 1) 1) 1; omega)
  have hfirst : coarseHit logs (windowSchedule start stop b) a (start, stop) = some hit := by
    unfold coarseHit
    show (((if (b, b) ∈ blockWindows start stop 1 then _ else _ : List (ℕ × ℕ)).findSome?
      (logs.windowHit a)).or _) = _
    rw [if_pos (mem_blockWindows_one hb), List.findSome?_cons, hhit]
    rfl
  have hlen : (distributeBlocks start stop (windowSchedule start stop b).alive).length ≤ 1 :=
    Nat.zero_le 1
  unfold discoverPools
  rw [if_pos hlen, discoverPoolsShard_apply, hcoarse, List.findSome?_singleton,
    List.findSome?_singleton, hfirst]
  rfl

theorem untornFresh_of_steady (hcached : reads.cached a = none) (h : Steady reads logs a) :
    UntornFresh reads logs a := by
  obtain ⟨report, hall, hlow, -⟩ := h
  by_cases hone : ∃ b, ∀ b', logs.SeenAt a b' → b' = b
  · exact .inl hone
  by_cases hsilent : ∀ b, ¬logs.Reports a b
  · exact .inr (.inl hsilent)
  obtain ⟨b, hb⟩ := not_forall_not.mp hsilent
  obtain ⟨b', hseen', hne⟩ : ∃ b', logs.SeenAt a b' ∧ b' ≠ b := by
    by_contra hno
    exact hone ⟨b, fun b' hseen' => by_contra fun hne => hno ⟨b', hseen', hne⟩⟩
  have hreport : ∀ b, logs.Reports a b →
      report = blockReport reads logs a b ∧ logs.LowestAt a b := by
    intro b hb
    obtain ⟨p, hp⟩ := blockReport_ne_none hcached hb
    have hrange := holds_of_seenAt (seenAt_of_reports hb)
    have heq : report = some p := (hall _).symm.trans (discoverPools_shardSchedule hrange hp)
    have hfirst := (firstAt_fresh hcached).mp (hlow p heq)
    exact ⟨heq.trans hp.symm, blockReport_fresh hcached hp ▸ hfirst⟩
  have hothers : ∀ b', b' ≠ b → ¬logs.Reports a b' := by
    intro b' hne hb'
    have hle := (hreport b hb).2.2 b' (seenAt_of_reports hb')
    have hge := (hreport b' hb').2.2 b (seenAt_of_reports hb)
    omega
  have hcreations : ∀ c ∈ logs.creations, c.pool.address = a → c.block = b := by
    intro c hc haddr
    by_contra hne
    exact hothers c.block hne (reports_of_creation hc haddr)
  -- The other block has activity of a silent type, and its window can come first.
  obtain ⟨hit', hhit', hquiet⟩ : ∃ hit', logs.windowHit a (b', b') = some hit' ∧
      Silent hit'.dexType := by
    rcases hseen' with ⟨l, hl, hopens, rfl⟩ | ⟨c, hc, haddr, hblock⟩
    · obtain ⟨hit', hhit'⟩ := Option.ne_none_iff_exists'.mp
        (windowHit_ne_none hl hopens (holds_self_iff.mpr rfl))
      exact ⟨hit', hhit', by_contra fun hspeaks => hothers _ hne (.inr ⟨hit', hhit', hspeaks⟩)⟩
    · exact absurd (hblock.symm.trans (hcreations c hc haddr)) hne
  have hfirst := discoverPools_windowSchedule reads (holds_of_seenAt hseen') hhit'
  have hcreated : logs.created a (start, stop) = logs.created a (b, b) := by
    have hcut := creationsIn_eq_ite (f := CreationLog.creates a)
      (fun c hc hf => hcreations c hc (creates_ne_none hf)) (start, stop)
    rwa [if_pos (holds_of_seenAt (seenAt_of_reports hb))] at hcut
  rw [hall, hcreated, (hreport b hb).1] at hfirst
  cases hfp : logs.created a (b, b) with
  | none =>
    obtain ⟨p, hp⟩ := blockReport_ne_none hcached hb
    rw [hfp, hp] at hfirst
    have hnone := finishHit_silent hcached hquiet
    exact absurd (hfirst.trans hnone) (by simp)
  | some fp =>
    refine .inr (.inr ⟨b, fp, (hreport b hb).2, hfp, hothers, fun hit hhit => ?_⟩)
    have hblock : logs.blockHit a b = some hit := by
      unfold DiscoveryLogs.blockHit
      rw [hhit]
      rfl
    unfold blockReport at hfirst
    rw [hfp, hblock] at hfirst
    have heq : finishCreated reads a (some hit) fp = finishCreated reads a (some hit') fp :=
      Option.some.inj hfirst
    rw [finishCreated_of_silent hquiet] at heq
    exact (finishCreated_eq_iff hcached).mp heq

/-- A pool that is not cached is discovered alike by all schedules if and only if its logs cannot
    be torn apart. -/
theorem steady_iff_fresh (hcached : reads.cached a = none) :
    Steady reads logs a ↔ UntornFresh reads logs a :=
  ⟨untornFresh_of_steady hcached, steady_of_untornFresh hcached⟩

/-! ## Cached pools -/

theorem steady_of_unseen (hunseen : ∀ b, ¬logs.SeenAt a b) : Steady reads logs a := by
  have hno : ∀ c ∈ logs.creations, c.pool.address ≠ a := fun c hc haddr =>
    hunseen c.block (.inr ⟨c, hc, haddr, rfl⟩)
  refine ⟨none, fun sched => discoverPools_eq_none fun r => ?_, (fun p hp => nomatch hp), ?_⟩
  · rw [discoverPoolsShard_of_no_creation hno]
    cases hhit : (coarseWindows sched r).findSome? (coarseHit logs sched a) with
    | none => rfl
    | some hit =>
      rcases exists_block_of_shardHit hhit with ⟨b, -, hb⟩ | ⟨c, hc, -, hopens⟩
      · obtain ⟨b', -, hseen, -⟩ := seenAt_of_windowHit hb
        exact absurd hseen (hunseen b')
      · exact absurd (opens_ne_none (by rw [hopens]; simp)) (hno c hc)
  · rintro ⟨c, hc, haddr⟩
    exact absurd haddr (hno c hc)

variable {dp : DiscoveredPool}

theorem steady_of_row (hcached : reads.cached a = some dp)
    (hno : ∀ c ∈ logs.creations, c.pool.address ≠ a) : Steady reads logs a := by
  by_cases hseen : ∃ b, logs.SeenAt a b
  · obtain ⟨b, hseen⟩ := hseen
    have hwindow : logs.windowHit a (b, b) ≠ none := by
      rcases hseen with ⟨l, hl, hopens, rfl⟩ | ⟨c, hc, haddr, -⟩
      · exact windowHit_ne_none hl hopens (holds_self_iff.mpr rfl)
      · exact absurd haddr (hno c hc)
    refine ⟨some (named reads dp), fun sched => ?_, fun p hp => ?_, ?_⟩
    · refine discoverPools_eq_of_agree (holds_of_seenAt hseen) (fun r => ?_) fun r hr => ?_
      · rw [discoverPoolsShard_of_no_creation hno]
        cases (coarseWindows sched r).findSome? (coarseHit logs sched a) with
        | none => exact .inl rfl
        | some hit => exact .inr (finishHit_cached hcached hit)
      · obtain ⟨hit, hhit⟩ := exists_shardHit sched hr hwindow
        rw [discoverPoolsShard_of_no_creation hno, hhit, Option.bind_some, finishHit_cached hcached]
    · obtain rfl := Option.some.inj hp
      exact .inr ⟨dp, hcached, rfl⟩
    · rintro ⟨c, hc, haddr⟩
      exact absurd haddr (hno c hc)
  · exact steady_of_unseen fun b hb => hseen ⟨b, hb⟩

theorem finishCreated_blockHit {fp : DiscoveredPool} (h : logs.windowHit a (b, b) = none) :
    finishCreated reads a (logs.blockHit a b) fp = finishCreated reads a none fp := by
  unfold DiscoveryLogs.blockHit
  rw [h, Option.none_or]
  cases hcreation : (logs.creationsIn (b, b)).findSome? (·.opens a) with
  | none => rfl
  | some hit =>
    obtain ⟨c, -, hopens⟩ := List.exists_of_findSome?_eq_some hcreation
    exact finishCreated_of_creation (hit_of_opens hopens)

theorem steady_of_rewritten (hcached : reads.cached a = some dp) {fp : DiscoveredPool}
    (hcreated : logs.created a (b, b) = some fp)
    (hone : ∀ c ∈ logs.creations, c.pool.address = a → c.block = b)
    (hhits : ∀ b' hit, logs.windowHit a (b', b') = some hit →
      finishCreated reads a (some hit) fp = named reads dp)
    (hquiet : logs.windowHit a (b, b) = none → finishCreated reads a none fp = named reads dp) :
    Steady reads logs a := by
  obtain ⟨hholds, hseen, c, hc, haddr, rfl⟩ := seenAt_of_created hcreated
  rw [holds_self_iff.mp hholds] at hseen
  have hkeeps : KeepsMetadata c.pool (named reads dp) := by
    cases hwindow : logs.windowHit a (b, b) with
    | none => exact hquiet hwindow ▸ keepsMetadata_finishCreated ..
    | some hit => exact hhits b hit hwindow ▸ keepsMetadata_finishCreated ..
  refine ⟨some (named reads dp), fun sched => ?_, fun p hp => ?_, fun _ =>
    ⟨c, hc, haddr, _, rfl, hkeeps⟩⟩
  · have hsome : ∀ r, Holds r b →
        discoverPoolsShard reads logs sched r a = some (named reads dp) := by
      intro r hr
      rw [discoverPoolsShard_apply, shardCreated_eq_ite hone, if_pos hr, hcreated]
      refine congrArg some ?_
      by_cases hwindow : logs.windowHit a (b, b) = none
      · cases hhit : (coarseWindows sched r).findSome? (coarseHit logs sched a) with
        | none => exact hquiet hwindow
        | some hit =>
          rcases exists_block_of_shardHit hhit with ⟨b', -, hb'⟩ | ⟨c', -, -, hopens⟩
          · exact hhits b' hit hb'
          · rw [finishCreated_of_creation (hit_of_opens hopens), hquiet hwindow]
      · obtain ⟨hit, hhit⟩ := exists_shardHit sched hr hwindow
        obtain ⟨b', hb'⟩ := exists_block_of_activity hone hwindow hhit
        rw [hhit, hhits b' hit hb']
    refine discoverPools_eq_of_agree (holds_of_seenAt hseen) (fun r => ?_) hsome
    by_cases hr : Holds r b
    · exact .inr (hsome r hr)
    · rw [discoverPoolsShard_apply, shardCreated_eq_ite hone, if_neg hr]
      cases (coarseWindows sched r).findSome? (coarseHit logs sched a) with
      | none => exact .inl rfl
      | some hit => exact .inr (finishHit_cached hcached hit)
  · obtain rfl := Option.some.inj hp
    exact .inr ⟨dp, hcached, rfl⟩

theorem untornCached_of_steady (hcached : reads.cached a = some dp) (h : Steady reads logs a) :
    UntornCached reads logs a dp := by
  obtain ⟨report, hall, -, -⟩ := h
  by_cases hblock : logs.InOneBlock a
  · exact .inl hblock
  by_cases hno : ∀ c ∈ logs.creations, c.pool.address ≠ a
  · exact .inr (.inl hno)
  obtain ⟨c, hc, haddr⟩ : ∃ c ∈ logs.creations, c.pool.address = a := by
    by_contra hnone
    exact hno fun c hc haddr => hnone ⟨c, hc, haddr⟩
  have hreport : ∀ b p, Holds (start, stop) b → blockReport reads logs a b = some p →
      report = some p := fun b p hb hp =>
    (hall _).symm.trans (discoverPools_shardSchedule hb hp)
  have hcreation : ∀ c ∈ logs.creations, c.pool.address = a →
      ∃ fp, logs.created a (c.block, c.block) = some fp ∧
        report = some (finishCreated reads a (logs.blockHit a c.block) fp) := by
    intro c hc haddr
    obtain ⟨fp, hfp⟩ := Option.ne_none_iff_exists'.mp
      (created_ne_none hc haddr (holds_self_iff.mpr rfl))
    exact ⟨fp, hfp, hreport _ _ (logs.creations_range c hc) (blockReport_of_created hfp)⟩
  obtain ⟨fp, hfp, hmade⟩ := hcreation c hc haddr
  have hone : ∀ c' ∈ logs.creations, c'.pool.address = a → c'.block = c.block := by
    intro c' hc' haddr'
    obtain ⟨fp', hfp', hmade'⟩ := hcreation c' hc' haddr'
    have heq := Option.some.inj (hmade.symm.trans hmade')
    rw [← creationBlock_of_created hfp' (logs.blockHit a c'.block), ← heq,
      creationBlock_of_created hfp]
  obtain ⟨b', hseen', hne⟩ : ∃ b', logs.SeenAt a b' ∧ b' ≠ c.block := by
    by_contra hnone
    exact hblock ⟨c.block, fun b' hseen' => by_contra fun hne => hnone ⟨b', hseen', hne⟩⟩
  have hrow : report = some (named reads dp) := by
    rcases hseen' with ⟨l, hl, hopens, rfl⟩ | ⟨c', hc', haddr', hc'b⟩
    · obtain ⟨hit, hhit⟩ := Option.ne_none_iff_exists'.mp
        (windowHit_ne_none hl hopens (holds_self_iff.mpr rfl))
      have hnone : logs.created a (l.block, l.block) = none := by
        by_contra hcreated
        obtain ⟨fp', hfp'⟩ := Option.ne_none_iff_exists'.mp hcreated
        obtain ⟨hholds, -, c', hc', haddr', rfl⟩ := seenAt_of_created hfp'
        exact hne ((holds_self_iff.mp hholds).symm.trans (hone c' hc' haddr'))
      refine hreport l.block _ (logs.activity_range l hl) ?_
      rw [blockReport_of_none hnone, hhit, Option.bind_some, finishHit_cached hcached]
    · exact absurd (hc'b.symm.trans (hone c' hc' haddr')) hne
  refine .inr (.inr ⟨c.block, fp, hfp, hone, fun b hit hhit => ?_, fun hwindow => ?_⟩)
  · obtain ⟨b'', hholds, hseen, -⟩ := seenAt_of_windowHit hhit
    rw [holds_self_iff.mp hholds] at hseen
    have hfirst := discoverPools_windowSchedule reads (holds_of_seenAt hseen) hhit
    have hcreated : logs.created a (start, stop) = some fp := by
      have hcut := creationsIn_eq_ite (f := CreationLog.creates a)
        (fun c hc hf => hone c hc (creates_ne_none hf)) (start, stop)
      rw [if_pos (logs.creations_range c hc)] at hcut
      exact hcut.trans hfp
    rw [hall, hcreated, hrow] at hfirst
    exact (Option.some.inj hfirst).symm
  · rw [← finishCreated_blockHit hwindow]
    exact Option.some.inj (hmade.symm.trans hrow)

/-- A cached pool is discovered alike by all schedules if and only if its logs cannot be torn
    apart. -/
theorem steady_iff_cached (hcached : reads.cached a = some dp) :
    Steady reads logs a ↔ UntornCached reads logs a dp := by
  refine ⟨untornCached_of_steady hcached, ?_⟩
  rintro (⟨b, hone⟩ | hno | ⟨b, fp, hcreated, hone, hhits, hquiet⟩)
  · by_cases hseen : logs.SeenAt a b
    · exact steady_of_block hseen hone
    · exact steady_of_unseen fun b' hb' => hseen (hone b' hb' ▸ hb')
  · exact steady_of_row hcached hno
  · exact steady_of_rewritten hcached hcreated hone hhits hquiet

/-- **Main theorem.** Every pool is discovered alike by all schedules, with the block that it is
    first seen at and the metadata of its creation, if and only if no pool has logs that can be
    torn apart. -/
theorem discoversAlike_iff (reads : DiscoveryReads) (logs : DiscoveryLogs start stop) :
    DiscoversAlike reads logs ↔ ∀ a, Untorn reads logs a := by
  refine forall_congr' fun a => ?_
  unfold Untorn
  cases hcached : reads.cached a with
  | none => exact steady_iff_fresh hcached
  | some dp => exact steady_iff_cached hcached

end

/-! ## A swap that is reported before the creation of its pool -/

/-- The node answers the tokens of pool 9. -/
def pairReads : DiscoveryReads where
  vault := false
  balancerPool := fun _ => none
  curveTokens := fun _ => none
  cached := fun _ => none
  token0 := fun _ => some 1
  token1 := fun _ => some 2
  tokenX := fun _ => none
  tokenY := fun _ => none
  fee := fun _ => some 3000
  tickSpacing := fun _ => some 60
  pendleSy := fun _ => none
  symbol := fun _ => none
  dexName := fun _ _ => "Uniswap V3"
  v2FeeOverride := none

/-- The factory 7 creates pool 9 in block 3. -/
def creationAtThree : CreationLog where
  pool :=
    { address := 9
      token0 := 1
      token1 := 2
      fee := 3000
      tickSpacing := some 60
      dexType := .uniswapV3
      creationBlock := 3
      factory := some 7 }
  factory_ne := by simp
  poolId_ne := by simp

/-- Pool 9 swaps in block 10. -/
def swapAtTen : ActivityLog where
  log := { address := 9, topics := [v3SwapTopic], data := [] }
  block := 10
  topics_ne := by simp

/-- Blocks 1 to 10 with the two logs. -/
def createdThenSwapped : DiscoveryLogs 1 10 where
  activity := [swapAtTen]
  creations := [creationAtThree]
  sorted := List.pairwise_singleton ..
  activity_range := by simp [swapAtTen, Holds]
  creations_range := by simp [creationAtThree, CreationLog.block, Holds]

theorem candidate_swapAtTen : swapAtTen.candidate = some (.simple .uniswapV3) := by
  simp [ActivityLog.candidate, swapAtTen, classifyDexEvent, V2.classifyActivity,
    V3.classifyActivity, classifyByTopic, v2SwapTopic, v2SyncTopic, v3SwapTopic]

theorem windowHit_ten :
    createdThenSwapped.windowHit 9 (10, 10) = some (swapAtTen.hit (.simple .uniswapV3)) := by
  have hopens : swapAtTen.opens 9 = some (swapAtTen.hit (.simple .uniswapV3)) := by
    rw [ActivityLog.opens, candidate_swapAtTen]
    rfl
  have hwindow : createdThenSwapped.activityIn (10, 10) = [swapAtTen] := rfl
  unfold DiscoveryLogs.windowHit
  rw [hwindow, List.findSome?_singleton, hopens]

theorem holds_three : Holds (1, 10) 3 := by decide

theorem holds_ten : Holds (1, 10) 10 := by decide

/-- Two shards see a pool: where the one with the swap completes first, the pool goes out with
    block 10 and without its factory, and where the other one does, with block 3 and factory 7. -/
theorem swap_hides_creation :
    createdThenSwapped.LowestAt 9 3 ∧
      (discoverPools pairReads createdThenSwapped (shardSchedule holds_ten) 9).map
        (fun p => (p.creationBlock, p.factory)) = some (10, none) ∧
      (discoverPools pairReads createdThenSwapped (shardSchedule holds_three) 9).map
        (fun p => (p.creationBlock, p.factory)) = some (3, some 7) := by
  have hten : blockReport pairReads createdThenSwapped 9 10 =
      finishHit pairReads 9 (swapAtTen.hit (.simple .uniswapV3)) := by
    have hnone : createdThenSwapped.created 9 (10, 10) = none := rfl
    unfold blockReport
    rw [hnone, blockHit_eq_windowHit hnone, windowHit_ten]
    rfl
  have hthree : blockReport pairReads createdThenSwapped 9 3 =
      some (finishCreated pairReads 9 (createdThenSwapped.blockHit 9 3) creationAtThree.pool) := rfl
  refine ⟨⟨.inr ⟨creationAtThree, List.mem_singleton_self _, rfl, rfl⟩, ?_⟩, ?_, ?_⟩
  · rintro b (⟨l, hl, -, rfl⟩ | ⟨c, hc, -, rfl⟩)
    · obtain rfl := List.mem_singleton.mp hl
      decide
    · obtain rfl := List.mem_singleton.mp hc
      decide
  · rw [discoverPools_shardSchedule _ (hten.trans rfl)]
    rfl
  · rw [discoverPools_shardSchedule _ hthree]
    rw [Option.map_some, (keepsMetadata_finishCreated ..).creationBlock,
      (keepsMetadata_finishCreated ..).factory]
    rfl

end MevScout.Pool.Discovery
