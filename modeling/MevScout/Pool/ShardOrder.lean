import MevScout.Pool.Shards

/-!
# Discovery and the blocks of its logs

What it means that a discovery does not depend on its schedule, and what a shard reports in terms
of the blocks that the logs of a pool are in.

Results:
* `finishCreated_eq_iff`: when activity leaves a created pool as it is;
* `exists_block_of_shardHit`: where the hit of a shard comes from;
* `discoverPoolsShard_block`: what a shard reports of a pool that is seen in one block.
-/

namespace MevScout.Pool.Discovery

open Firsts

/-! ## What is expected of a discovery -/

/-- Pool types whose activity alone is not reported: there is no contract to ask (`metadata.rs`,
    lines 175–183). -/
def Silent (dexType : DexType) : Prop := dexType = .uniswapV4 ∨ dexType = .metric

instance (dexType : DexType) : Decidable (Silent dexType) := inferInstanceAs (Decidable (_ ∨ _))

/-- The fields that come from the creation log alone. -/
structure KeepsMetadata (created p : DiscoveredPool) : Prop where
  factory : p.factory = created.factory
  dexType : p.dexType = created.dexType
  creationBlock : p.creationBlock = created.creationBlock
  fee : p.fee = created.fee
  tickSpacing : p.tickSpacing = created.tickSpacing
  isStable : p.isStable = created.isStable
  balancerPoolType : p.balancerPoolType = created.balancerPoolType
  hookAddress : p.hookAddress = created.hookAddress
  binStep : p.binStep = created.binStep
  maturityTimestamp : p.maturityTimestamp = created.maturityTimestamp

section

variable {start stop : ℕ} (reads : DiscoveryReads) (logs : DiscoveryLogs start stop) (a : Address)

/-- Pool `a` has a log in block `b`. -/
def DiscoveryLogs.SeenAt (b : ℕ) : Prop :=
  (∃ l ∈ logs.activity, l.opens a ≠ none ∧ l.block = b) ∨
    ∃ c ∈ logs.creations, c.pool.address = a ∧ c.block = b

/-- The lowest block that pool `a` has a log in. -/
def DiscoveryLogs.LowestAt (b : ℕ) : Prop := logs.SeenAt a b ∧ ∀ b', logs.SeenAt a b' → b ≤ b'

/-- The hit that the logs of one block open for pool `a`. -/
def DiscoveryLogs.blockHit (b : ℕ) : Option PoolHit :=
  (logs.windowHit a (b, b)).or ((logs.creationsIn (b, b)).findSome? (·.opens a))

/-- The logs of block `b` alone make pool `a` known: a creation log, or activity that does not
    start with a log of a silent type. -/
def DiscoveryLogs.Reports (b : ℕ) : Prop :=
  logs.created a (b, b) ≠ none ∨ ∃ hit, logs.windowHit a (b, b) = some hit ∧ ¬Silent hit.dexType

/-- The block that pool `a` is first seen at: the lowest one with a log of it, or that of its row in
    the pool cache, if there is one. -/
def FirstAt (b : ℕ) : Prop :=
  logs.LowestAt a b ∨ ∃ dp, reads.cached a = some dp ∧ dp.creationBlock = b

/-- Pool `a` is discovered alike by all schedules, with the block that it is first seen at, and with
    the metadata of a creation log if there is one. -/
def Steady : Prop :=
  ∃ report, (∀ sched, discoverPools reads logs sched a = report) ∧
    (∀ p, report = some p → FirstAt reads logs a p.creationBlock) ∧
    ((∃ c ∈ logs.creations, c.pool.address = a) →
      ∃ c ∈ logs.creations, c.pool.address = a ∧ ∃ p, report = some p ∧ KeepsMetadata c.pool p)

/-- Every pool is discovered alike by all schedules. -/
def DiscoversAlike : Prop := ∀ a, Steady reads logs a

/-- All logs of pool `a` are in one block. -/
def DiscoveryLogs.InOneBlock : Prop := ∃ b, ∀ b', logs.SeenAt a b' → b' = b

/-- The activity that opened a hit changes nothing of a created pool: what the vault answers is what
    the pool has, and a Fluid pool without tokens is given none. -/
structure Untouched (hit : PoolHit) (fp : DiscoveredPool) : Prop where
  vault : reads.vault → AsksVault hit → ∀ poolId tokens,
    reads.balancerPool a = some (poolId, tokens) →
      resolvedCurve reads a
        { fp with poolId := some poolId, underlyingTokens := tokens.or fp.underlyingTokens } =
        resolvedCurve reads a fp
  fluid : hit.dexType = .fluid → ¬FullyCreated fp.dexType → fp.token0 = 0 ∧ fp.token1 = 0 →
    ∀ t0 t1, reads.token0 a = some t0 → reads.token1 a = some t1 → t0 = 0 ∧ t1 = 0

/-- The logs of a pool that is not cached cannot be torn apart: they are in one block, or no block
    reports the pool, or its lowest block has a creation log, no other block reports it, and the
    activity of the lowest block does not touch what is created there. -/
def UntornFresh : Prop :=
  logs.InOneBlock a ∨ (∀ b, ¬logs.Reports a b) ∨
    ∃ b fp, logs.LowestAt a b ∧ logs.created a (b, b) = some fp ∧
      (∀ b', b' ≠ b → ¬logs.Reports a b') ∧
      ∀ hit, logs.windowHit a (b, b) = some hit → Untouched reads a hit fp

/-- The logs of a pool with cached row `dp` cannot be torn apart: they are in one block, or the
    pool has no creation log, or one block creates it, and what goes out for the creation is
    what goes out for the row. -/
def UntornCached (dp : DiscoveredPool) : Prop :=
  logs.InOneBlock a ∨ (∀ c ∈ logs.creations, c.pool.address ≠ a) ∨
    ∃ b fp, logs.created a (b, b) = some fp ∧
      (∀ c ∈ logs.creations, c.pool.address = a → c.block = b) ∧
      (∀ b' hit, logs.windowHit a (b', b') = some hit →
        finishCreated reads a (some hit) fp = named reads dp) ∧
      (logs.windowHit a (b, b) = none → finishCreated reads a none fp = named reads dp)

/-- The logs of pool `a` cannot be torn apart. -/
def Untorn : Prop :=
  match reads.cached a with
  | none => UntornFresh reads logs a
  | some dp => UntornCached reads logs a dp

end

/-! ## Metadata -/

section

variable {reads : DiscoveryReads} {a : Address} {hit : PoolHit} {fp : DiscoveredPool}

theorem resolvedHit_eq (reads : DiscoveryReads) (a : Address) (hit : PoolHit) :
    ∃ poolId, resolvedHit reads a hit = { hit with poolId := poolId } := by
  unfold resolvedHit
  split_ifs
  · split
    · next poolId _ _ => exact ⟨some poolId, rfl⟩
    · exact ⟨hit.poolId, rfl⟩
  · exact ⟨hit.poolId, rfl⟩

theorem fetchPoolMetadata_eq_none_iff (dexType : DexType)
    (eventTokens factoryTokens : Option (Address × Address)) :
    fetchPoolMetadata reads a dexType eventTokens factoryTokens = none ↔ Silent dexType := by
  cases dexType <;> simp [fetchPoolMetadata, Silent]

/-- Activity of a silent type is not reported. -/
theorem finishHit_silent (hcached : reads.cached a = none) (h : Silent hit.dexType) :
    finishHit reads a hit = none := by
  obtain ⟨poolId, hresolved⟩ := resolvedHit_eq reads a hit
  unfold finishHit
  rw [hresolved, hcached]
  dsimp only
  rw [(fetchPoolMetadata_eq_none_iff _ _ _).mpr h]
  rfl

/-- Other activity is reported with the block of its hit. -/
theorem finishHit_reports (hcached : reads.cached a = none) (h : ¬Silent hit.dexType) :
    ∃ p, finishHit reads a hit = some p ∧ p.creationBlock = hit.firstSeenBlock := by
  obtain ⟨poolId, hresolved⟩ := resolvedHit_eq reads a hit
  unfold finishHit
  rw [hresolved, hcached]
  dsimp only
  cases hfetch : fetchPoolMetadata reads a hit.dexType hit.tokens none with
  | none => exact absurd ((fetchPoolMetadata_eq_none_iff _ _ _).mp hfetch) h
  | some r => exact ⟨_, rfl, rfl⟩

/-- Activity of a cached pool is reported with its row. -/
theorem finishHit_cached {dp : DiscoveredPool} (hcached : reads.cached a = some dp)
    (hit : PoolHit) : finishHit reads a hit = some (named reads dp) := by
  unfold finishHit
  rw [hcached]

theorem KeepsMetadata.trans {p q r : DiscoveredPool} (h : KeepsMetadata p q)
    (h' : KeepsMetadata q r) : KeepsMetadata p r :=
  ⟨h'.1.trans h.1, h'.2.trans h.2, h'.3.trans h.3, h'.4.trans h.4, h'.5.trans h.5,
    h'.6.trans h.6, h'.7.trans h.7, h'.8.trans h.8, h'.9.trans h.9, h'.10.trans h.10⟩

theorem keepsMetadata_refl (p : DiscoveredPool) : KeepsMetadata p p :=
  ⟨rfl, rfl, rfl, rfl, rfl, rfl, rfl, rfl, rfl, rfl⟩

/-- What a shard does to a created pool leaves its creation metadata. -/
theorem keepsMetadata_finishCreated (reads : DiscoveryReads) (a : Address) (hit : Option PoolHit)
    (fp : DiscoveredPool) : KeepsMetadata fp (finishCreated reads a hit fp) := by
  have hbalancer : KeepsMetadata fp (resolvedBalancer reads a hit fp) := by
    unfold resolvedBalancer
    split
    · exact keepsMetadata_refl fp
    · split_ifs
      · split
        · exact ⟨rfl, rfl, rfl, rfl, rfl, rfl, rfl, rfl, rfl, rfl⟩
        · exact keepsMetadata_refl fp
      · exact keepsMetadata_refl fp
  have hcurve (fp : DiscoveredPool) : KeepsMetadata fp (resolvedCurve reads a fp) := by
    unfold resolvedCurve
    split_ifs
    · exact ⟨rfl, rfl, rfl, rfl, rfl, rfl, rfl, rfl, rfl, rfl⟩
    · exact keepsMetadata_refl fp
  have hfluid (fp : DiscoveredPool) : KeepsMetadata fp (fluidTokens reads a hit fp) := by
    unfold fluidTokens
    split
    · exact keepsMetadata_refl fp
    · split
      · exact keepsMetadata_refl fp
      · split
        · split
          · exact ⟨rfl, rfl, rfl, rfl, rfl, rfl, rfl, rfl, rfl, rfl⟩
          · exact keepsMetadata_refl fp
        · exact keepsMetadata_refl fp
  have hnamed (fp : DiscoveredPool) : KeepsMetadata fp (named reads fp) :=
    ⟨rfl, rfl, rfl, rfl, rfl, rfl, rfl, rfl, rfl, rfl⟩
  exact ((hbalancer.trans (hcurve _)).trans (hfluid _)).trans (hnamed _)

theorem resolvedCurve_eq (reads : DiscoveryReads) (a : Address) (fp : DiscoveredPool) :
    ∃ tokens, resolvedCurve reads a fp = { fp with underlyingTokens := tokens } := by
  unfold resolvedCurve
  split_ifs
  · exact ⟨reads.curveTokens a, rfl⟩
  · exact ⟨fp.underlyingTokens, rfl⟩

/-- A hit that is no Fluid hit fills no tokens. -/
theorem fluidTokens_of_ne (hfluid : hit.dexType ≠ .fluid) :
    fluidTokens reads a (some hit) fp = fp :=
  if_pos (.inr (.inr hfluid))

/-- A hit that neither asks the vault nor is a Fluid hit leaves a created pool as it is. -/
theorem finishCreated_of_quiet (hask : ¬AsksVault hit) (hfluid : hit.dexType ≠ .fluid) :
    finishCreated reads a (some hit) fp = finishCreated reads a none fp := by
  have hbalancer : resolvedBalancer reads a (some hit) fp = resolvedBalancer reads a none fp :=
    if_neg fun h => hask h.2
  unfold finishCreated
  rw [hbalancer, fluidTokens_of_ne hfluid]
  rfl

theorem named_inj_ids {poolId poolId' : Option B256} {tokens tokens' : Option (List Address)}
    (h : named reads { fp with poolId := poolId, underlyingTokens := tokens } =
      named reads { fp with poolId := poolId', underlyingTokens := tokens' }) :
    { fp with poolId := poolId, underlyingTokens := tokens } =
      { fp with poolId := poolId', underlyingTokens := tokens' } := by
  obtain rfl : poolId = poolId' := congrArg DiscoveredPool.poolId h
  obtain rfl : tokens = tokens' := congrArg DiscoveredPool.underlyingTokens h
  rfl

/-- A hit that asks the vault changes a created pool by what the vault answers. -/
theorem finishCreated_vault_iff (hask : AsksVault hit) :
    finishCreated reads a (some hit) fp = finishCreated reads a none fp ↔
      (reads.vault → ∀ poolId tokens, reads.balancerPool a = some (poolId, tokens) →
        resolvedCurve reads a
          { fp with poolId := some poolId, underlyingTokens := tokens.or fp.underlyingTokens } =
          resolvedCurve reads a fp) := by
  have hfluid : hit.dexType ≠ .fluid := by
    rw [hask.1]
    decide
  unfold finishCreated
  rw [fluidTokens_of_ne hfluid]
  show named reads (resolvedCurve reads a (resolvedBalancer reads a (some hit) fp)) =
    named reads (resolvedCurve reads a fp) ↔ _
  unfold resolvedBalancer
  dsimp only
  by_cases hvault : reads.vault
  · rw [if_pos ⟨hvault, hask⟩]
    cases hpool : reads.balancerPool a with
    | none => simp
    | some answer =>
      obtain ⟨poolId, tokens⟩ := answer
      dsimp only
      constructor
      · intro h _ poolId' tokens' heq
        obtain ⟨rfl, rfl⟩ := Prod.mk.inj (Option.some.inj heq)
        obtain ⟨asked, hasked⟩ := resolvedCurve_eq reads a
          { fp with poolId := some poolId, underlyingTokens := tokens.or fp.underlyingTokens }
        obtain ⟨unasked, hunasked⟩ := resolvedCurve_eq reads a fp
        rw [hasked, hunasked] at h ⊢
        exact named_inj_ids h
      · exact fun h => congrArg (named reads) (h hvault poolId tokens rfl)
  · rw [if_neg fun h => hvault h.1]
    exact ⟨fun _ h => absurd h hvault, fun _ => rfl⟩

/-- A Fluid hit changes a created pool by the tokens that the pool contract answers. -/
theorem finishCreated_fluid_iff (hcached : reads.cached a = none) (hfluid : hit.dexType = .fluid) :
    finishCreated reads a (some hit) fp = finishCreated reads a none fp ↔
      (¬FullyCreated fp.dexType → fp.token0 = 0 ∧ fp.token1 = 0 → ∀ t0 t1,
        reads.token0 a = some t0 → reads.token1 a = some t1 → t0 = 0 ∧ t1 = 0) := by
  have hbalancer : resolvedBalancer reads a (some hit) fp = fp :=
    if_neg fun h => absurd (hfluid.symm.trans h.2.1) (by decide)
  unfold finishCreated
  rw [hbalancer]
  show named reads (fluidTokens reads a (some hit) (resolvedCurve reads a fp)) =
    named reads (resolvedCurve reads a fp) ↔ _
  obtain ⟨underlying, hcurve⟩ := resolvedCurve_eq reads a fp
  rw [hcurve]
  unfold fluidTokens
  dsimp only
  by_cases hfull : FullyCreated fp.dexType
  · rw [if_pos (.inl hfull)]
    exact ⟨fun _ h => absurd hfull h, fun _ => rfl⟩
  · rw [if_neg (by simp [hfull, hcached, hfluid]), hfluid]
    rw [show ∀ tokens, fetchPoolMetadata reads a .fluid hit.tokens tokens =
      some { token0 := reads.token0 a, token1 := reads.token1 a } from fun _ => rfl]
    cases h0 : reads.token0 a with
    | none => simp
    | some t0 =>
      cases h1 : reads.token1 a with
      | none => simp
      | some t1 =>
        dsimp only
        by_cases hzero : fp.token0 = 0 ∧ fp.token1 = 0
        · rw [if_pos hzero]
          constructor
          · intro h _ _ t0' t1' heq0 heq1
            obtain rfl := Option.some.inj heq0
            obtain rfl := Option.some.inj heq1
            have htoken0 : t0 = fp.token0 := congrArg DiscoveredPool.token0 h
            have htoken1 : t1 = fp.token1 := congrArg DiscoveredPool.token1 h
            exact ⟨htoken0.trans hzero.1, htoken1.trans hzero.2⟩
          · intro h
            obtain ⟨ht0, ht1⟩ := h hfull hzero t0 t1 rfl rfl
            rw [ht0.trans hzero.1.symm, ht1.trans hzero.2.symm]
        · rw [if_neg hzero]
          exact ⟨fun _ _ h => absurd h hzero, fun _ => rfl⟩

/-- Activity leaves a created pool as it is when it does not touch it. -/
theorem finishCreated_eq_iff (hcached : reads.cached a = none) :
    finishCreated reads a (some hit) fp = finishCreated reads a none fp ↔
      Untouched reads a hit fp := by
  by_cases hask : AsksVault hit
  · rw [finishCreated_vault_iff hask]
    refine ⟨fun h => ⟨fun hvault _ => h hvault, fun hfluid => ?_⟩,
      fun h hvault => h.vault hvault hask⟩
    rw [hask.1] at hfluid
    cases hfluid
  · by_cases hfluid : hit.dexType = .fluid
    · rw [finishCreated_fluid_iff hcached hfluid]
      exact ⟨fun h => ⟨fun _ h' => absurd h' hask, fun _ => h⟩, fun h => h.fluid hfluid⟩
    · exact ⟨fun _ => ⟨fun _ h => absurd h hask, fun h => absurd h hfluid⟩,
        fun _ => finishCreated_of_quiet hask hfluid⟩

theorem finishCreated_of_silent (h : Silent hit.dexType) :
    finishCreated reads a (some hit) fp = finishCreated reads a none fp := by
  refine finishCreated_of_quiet (fun hvault => ?_) fun hfluid => ?_
  · have hbalancer := hvault.1
    rcases h with h | h <;> rw [h] at hbalancer <;> cases hbalancer
  · rcases h with h | h <;> rw [h] at hfluid <;> cases hfluid

/-- The hits of the creation scanners are quiet. -/
theorem finishCreated_of_creation {c : CreationLog} (h : c.hit = some hit) :
    finishCreated reads a (some hit) fp = finishCreated reads a none fp := by
  unfold CreationLog.hit at h
  split_ifs at h with hmem
  obtain rfl := Option.some.inj h
  refine finishCreated_of_quiet (fun hvault => c.poolId_ne hvault.1 hvault.2) fun hfluid => ?_
  rw [show c.pool.dexType = .fluid from hfluid] at hmem
  exact absurd hmem (by decide)

end

/-! ## Windows and blocks -/

section

variable {start stop : ℕ} {logs : DiscoveryLogs start stop} {sched : Schedule start stop}
  {reads : DiscoveryReads} {a : Address} {b : ℕ} {w r : ℕ × ℕ}

theorem holds_self_iff {b b' : ℕ} : Holds (b, b) b' ↔ b' = b := by
  unfold Holds
  dsimp only
  omega

/-- The hit of a window is the hit of one of its blocks. -/
theorem exists_block_of_windowHit {hit : PoolHit} (h : logs.windowHit a w = some hit) :
    ∃ b, Holds w b ∧ logs.windowHit a (b, b) = some hit := by
  unfold DiscoveryLogs.windowHit at h
  obtain ⟨pre, l, post, heq, hopens, hpre⟩ := List.findSome?_eq_some_iff.mp h
  have hl : l ∈ logs.activityIn w := by simp [heq]
  have hw : Holds w l.block := of_decide_eq_true (List.mem_filter.mp hl).2
  refine ⟨l.block, hw, ?_⟩
  have hblock : logs.activityIn (l.block, l.block) =
      (logs.activityIn w).filter fun x => Holds (l.block, l.block) x.block := by
    unfold DiscoveryLogs.activityIn
    rw [List.filter_filter]
    refine List.filter_congr fun x _ => ?_
    by_cases hx : Holds (l.block, l.block) x.block
    · have hxw : Holds w x.block := (holds_self_iff.mp hx) ▸ hw
      simp [hx, hxw]
    · simp [hx]
  have hself : Holds (l.block, l.block) l.block := holds_self_iff.mpr rfl
  unfold DiscoveryLogs.windowHit
  rw [hblock, heq, List.filter_append, List.filter_cons_of_pos (by simpa using hself)]
  exact List.findSome?_eq_some_iff.mpr ⟨_, l, _, rfl, hopens, fun x hx =>
    hpre x (List.mem_of_mem_filter hx)⟩

theorem seenAt_of_windowHit {hit : PoolHit} (h : logs.windowHit a w = some hit) :
    ∃ b, Holds w b ∧ logs.SeenAt a b ∧ hit.firstSeenBlock = b := by
  unfold DiscoveryLogs.windowHit at h
  obtain ⟨l, hl, hopens⟩ := List.exists_of_findSome?_eq_some h
  obtain ⟨hmem, hw⟩ := List.mem_filter.mp hl
  exact ⟨l.block, of_decide_eq_true hw, .inl ⟨l, hmem, by rw [hopens]; simp, rfl⟩,
    ActivityLog.firstSeenBlock_of_opens hopens⟩

theorem seenAt_of_created {fp : DiscoveredPool} (h : logs.created a w = some fp) :
    Holds w fp.creationBlock ∧ logs.SeenAt a fp.creationBlock ∧
      ∃ c ∈ logs.creations, c.pool.address = a ∧ c.pool = fp := by
  unfold DiscoveryLogs.created at h
  obtain ⟨c, hc, hcreates⟩ := List.exists_of_findSome?_eq_some h
  obtain ⟨hmem, hw⟩ := List.mem_filter.mp hc
  unfold CreationLog.creates at hcreates
  split_ifs at hcreates with haddr
  obtain rfl := Option.some.inj hcreates
  exact ⟨of_decide_eq_true hw, .inr ⟨c, hmem, haddr, rfl⟩, c, hmem, haddr, rfl⟩

/-- A creation log makes its block report the pool. -/
theorem created_ne_none {c : CreationLog} (hc : c ∈ logs.creations) (haddr : c.pool.address = a)
    (hw : Holds w c.block) : logs.created a w ≠ none := by
  intro hnone
  have hcreates := List.findSome?_eq_none_iff.mp hnone c
    (List.mem_filter.mpr ⟨hc, decide_eq_true hw⟩)
  rw [CreationLog.creates, if_pos haddr] at hcreates
  cases hcreates

/-- Where all activity of a pool is in one block, a window has its hit or nothing. -/
theorem windowHit_eq_ite (hone : ∀ l ∈ logs.activity, l.opens a ≠ none → l.block = b)
    (w : ℕ × ℕ) : logs.windowHit a w = if Holds w b then logs.windowHit a (b, b) else none := by
  unfold DiscoveryLogs.windowHit
  split_ifs with hw
  · refine findSome?_filter_congr fun l hl hopens => ?_
    rw [hone l hl hopens]
    simp [hw, holds_self_iff.mpr rfl]
  · refine List.findSome?_eq_none_iff.mpr fun l hl => ?_
    obtain ⟨hmem, hlw⟩ := List.mem_filter.mp hl
    by_contra hopens
    exact hw (hone l hmem hopens ▸ of_decide_eq_true hlw)

/-- The same for creations, with whatever is read of them. -/
theorem creationsIn_eq_ite {v : Type} {f : CreationLog → Option v}
    (hone : ∀ c ∈ logs.creations, f c ≠ none → c.block = b) (w : ℕ × ℕ) :
    (logs.creationsIn w).findSome? f =
      if Holds w b then (logs.creationsIn (b, b)).findSome? f else none := by
  split_ifs with hw
  · refine findSome?_filter_congr fun c hc hf => ?_
    rw [hone c hc hf]
    simp [hw, holds_self_iff.mpr rfl]
  · refine List.findSome?_eq_none_iff.mpr fun c hc => ?_
    obtain ⟨hmem, hcw⟩ := List.mem_filter.mp hc
    by_contra hf
    exact hw (hone c hmem hf ▸ of_decide_eq_true hcw)

theorem opens_ne_none {c : CreationLog} (h : c.opens a ≠ none) : c.pool.address = a := by
  by_contra haddr
  exact h (if_neg haddr)

theorem creates_ne_none {c : CreationLog} (h : c.creates a ≠ none) : c.pool.address = a := by
  by_contra haddr
  exact h (if_neg haddr)

/-! ## Shards and blocks -/

theorem exists_window_iff (sched : Schedule start stop) (coarse : ℕ × ℕ) (b : ℕ) :
    (∃ w ∈ sched.windows coarse, Holds w b) ↔ Holds coarse b := by
  constructor
  · rintro ⟨w, hw, h1, h2⟩
    obtain ⟨h3, -, h4⟩ := blockWindows_inside ((sched.windows_perm coarse).mem_iff.mp hw)
    exact ⟨h3.trans h1, h2.trans h4⟩
  · intro h
    obtain ⟨w, hw, hb⟩ := blockWindows_cover sched.effectiveBatchSize h
    exact ⟨w, (sched.windows_perm coarse).mem_iff.mpr hw, hb⟩

theorem exists_coarse_iff (sched : Schedule start stop) (r : ℕ × ℕ) (b : ℕ) :
    (∃ coarse ∈ coarseWindows sched r, Holds coarse b) ↔ Holds r b := by
  constructor
  · rintro ⟨coarse, hcoarse, h1, h2⟩
    obtain ⟨h3, -, h4⟩ := blockWindows_inside hcoarse
    exact ⟨h3.trans h1, h2.trans h4⟩
  · exact fun h => blockWindows_cover _ h

theorem discoverPoolsShard_apply (reads : DiscoveryReads) (logs : DiscoveryLogs start stop)
    (sched : Schedule start stop) (r : ℕ × ℕ) (a : Address) :
    discoverPoolsShard reads logs sched r a =
      match (coarseWindows sched r).findSome? (logs.created a) with
      | some fp => some (finishCreated reads a
          ((coarseWindows sched r).findSome? (coarseHit logs sched a)) fp)
      | none => ((coarseWindows sched r).findSome? (coarseHit logs sched a)).bind
          (finishHit reads a) := by
  unfold discoverPoolsShard finishPools
  cases hcreated : (scanShard logs sched r).factoryPools a <;>
    simp only [← shardHits_eq, ← shardFactory_eq, hcreated]

/-- Where the creations of a pool are in one block, a shard has the first one or nothing. -/
theorem shardCreated_eq_ite (hone : ∀ c ∈ logs.creations, c.pool.address = a → c.block = b)
    (sched : Schedule start stop) (r : ℕ × ℕ) :
    (coarseWindows sched r).findSome? (logs.created a) =
      if Holds r b then logs.created a (b, b) else none := by
  have hcoarse : logs.created a = fun coarse =>
      if Holds coarse b then logs.created a (b, b) else none := by
    funext coarse
    exact creationsIn_eq_ite (fun c hc hf => hone c hc (creates_ne_none hf)) coarse
  rw [hcoarse, findSome?_ite]
  simp only [exists_coarse_iff, holds_self_iff.mpr rfl, if_true]

theorem hit_of_opens {c : CreationLog} {hit : PoolHit} (h : c.opens a = some hit) :
    c.hit = some hit := by
  have haddr : c.pool.address = a := opens_ne_none (by rw [h]; simp)
  rwa [CreationLog.opens, if_pos haddr] at h

/-- The hit of a shard is opened by the activity of one of its blocks, or by a creation log. -/
theorem exists_block_of_shardHit {hit : PoolHit}
    (h : (coarseWindows sched r).findSome? (coarseHit logs sched a) = some hit) :
    (∃ b, Holds r b ∧ logs.windowHit a (b, b) = some hit) ∨
      ∃ c ∈ logs.creations, Holds r c.block ∧ c.opens a = some hit := by
  obtain ⟨coarse, hcoarse, hhit⟩ := List.exists_of_findSome?_eq_some h
  unfold coarseHit at hhit
  rcases Option.or_eq_some_iff.mp hhit with hwindow | ⟨-, hcreation⟩
  · obtain ⟨w, hw, hwhit⟩ := List.exists_of_findSome?_eq_some hwindow
    obtain ⟨b, hb, hbhit⟩ := exists_block_of_windowHit hwhit
    have hbcoarse := (exists_window_iff sched coarse b).mp ⟨w, hw, hb⟩
    exact .inl ⟨b, (exists_coarse_iff sched r b).mp ⟨coarse, hcoarse, hbcoarse⟩, hbhit⟩
  · obtain ⟨c, hc, hopens⟩ := List.exists_of_findSome?_eq_some hcreation
    obtain ⟨hmem, hccoarse⟩ := List.mem_filter.mp hc
    exact .inr ⟨c, hmem, (exists_coarse_iff sched r _).mp
      ⟨coarse, hcoarse, of_decide_eq_true hccoarse⟩, hopens⟩

theorem windowHit_ne_none {l : ActivityLog} (hl : l ∈ logs.activity) (hopens : l.opens a ≠ none)
    (hw : Holds w l.block) : logs.windowHit a w ≠ none := by
  intro hnone
  exact hopens (List.findSome?_eq_none_iff.mp hnone l
    (List.mem_filter.mpr ⟨hl, decide_eq_true hw⟩))

/-- A window has a hit where one of its blocks does. -/
theorem windowHit_mono (hw : Holds w b) (h : logs.windowHit a (b, b) ≠ none) :
    logs.windowHit a w ≠ none := by
  obtain ⟨hit, hhit⟩ := Option.ne_none_iff_exists'.mp h
  obtain ⟨l, hl, hopens⟩ := List.exists_of_findSome?_eq_some hhit
  obtain ⟨hmem, hblock⟩ := List.mem_filter.mp hl
  refine windowHit_ne_none hmem (by rw [hopens]; simp) ?_
  rwa [holds_self_iff.mp (of_decide_eq_true hblock)]

/-- So does a coarse window, from its activity. -/
theorem coarseWindow_hit {coarse : ℕ × ℕ} (hcoarse : Holds coarse b)
    (h : logs.windowHit a (b, b) ≠ none) :
    (sched.windows coarse).findSome? (logs.windowHit a) ≠ none := by
  obtain ⟨w, hw, hb⟩ := (exists_window_iff sched coarse b).mpr hcoarse
  exact fun hnone => windowHit_mono hb h (List.findSome?_eq_none_iff.mp hnone w hw)

theorem exists_shardHit (sched : Schedule start stop) (hr : Holds r b)
    (h : logs.windowHit a (b, b) ≠ none) :
    ∃ hit, (coarseWindows sched r).findSome? (coarseHit logs sched a) = some hit := by
  obtain ⟨coarse, hcoarse, hb⟩ := (exists_coarse_iff sched r b).mpr hr
  refine Option.ne_none_iff_exists'.mp fun hnone => ?_
  have hcoarseHit := List.findSome?_eq_none_iff.mp hnone coarse hcoarse
  exact coarseWindow_hit hb h (Option.or_eq_none_iff.mp hcoarseHit).1

/-- Where the one block that creates a pool also has activity of it, every hit of a shard is opened
    by activity. -/
theorem exists_block_of_activity {hit : PoolHit}
    (hone : ∀ c ∈ logs.creations, c.pool.address = a → c.block = b)
    (hactive : logs.windowHit a (b, b) ≠ none)
    (h : (coarseWindows sched r).findSome? (coarseHit logs sched a) = some hit) :
    ∃ b', logs.windowHit a (b', b') = some hit := by
  obtain ⟨coarse, -, hhit⟩ := List.exists_of_findSome?_eq_some h
  unfold coarseHit at hhit
  rcases Option.or_eq_some_iff.mp hhit with hwindow | ⟨hnone, hcreation⟩
  · obtain ⟨w, -, hwhit⟩ := List.exists_of_findSome?_eq_some hwindow
    obtain ⟨b', -, hb'⟩ := exists_block_of_windowHit hwhit
    exact ⟨b', hb'⟩
  · obtain ⟨c, hc, hopens⟩ := List.exists_of_findSome?_eq_some hcreation
    obtain ⟨hmem, hcoarse⟩ := List.mem_filter.mp hc
    have hblock := hone c hmem (opens_ne_none (by rw [hopens]; simp))
    exact absurd hnone (coarseWindow_hit (hblock ▸ of_decide_eq_true hcoarse) hactive)

/-- What the logs of one block by themselves make of a pool. -/
def blockReport (reads : DiscoveryReads) (logs : DiscoveryLogs start stop) (a : Address) (b : ℕ) :
    Option DiscoveredPool :=
  match logs.created a (b, b) with
  | some fp => some (finishCreated reads a (logs.blockHit a b) fp)
  | none => (logs.blockHit a b).bind (finishHit reads a)

/-- Where a pool is seen in one block, a shard reports what that block makes of it, or nothing. -/
theorem discoverPoolsShard_block (hone : ∀ b', logs.SeenAt a b' → b' = b)
    (sched : Schedule start stop) (r : ℕ × ℕ) :
    discoverPoolsShard reads logs sched r a =
      if Holds r b then blockReport reads logs a b else none := by
  have hactivity : ∀ l ∈ logs.activity, l.opens a ≠ none → l.block = b :=
    fun l hl hopens => hone _ (.inl ⟨l, hl, hopens, rfl⟩)
  have hcreation : ∀ c ∈ logs.creations, c.pool.address = a → c.block = b :=
    fun c hc haddr => hone _ (.inr ⟨c, hc, haddr, rfl⟩)
  have hcoarse : coarseHit logs sched a = fun coarse =>
      if Holds coarse b then logs.blockHit a b else none := by
    funext coarse
    have hwindows : logs.windowHit a = fun w =>
        if Holds w b then logs.windowHit a (b, b) else none :=
      funext (windowHit_eq_ite hactivity)
    unfold coarseHit DiscoveryLogs.blockHit
    rw [creationsIn_eq_ite (fun c hc hf => hcreation c hc (opens_ne_none hf)) coarse]
    conv_lhs => rw [hwindows, findSome?_ite]
    simp only [exists_window_iff]
    split_ifs <;> rfl
  rw [discoverPoolsShard_apply, shardCreated_eq_ite hcreation, hcoarse, findSome?_ite]
  simp only [exists_coarse_iff]
  unfold blockReport
  split_ifs <;> rfl

end

end MevScout.Pool.Discovery
