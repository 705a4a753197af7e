import MevScout.Explorer.Live

/-!
# The checkpoint

What `run_range` and `run_live` (`core/src/explorer/ingest.rs`) leave of `sync_state.indexed_to`.
It is honest while every block from the first one ever indexed up to it is classified.

A range writes its end also when it has skipped blocks or does not continue the checkpoint, and
a live session writes the tip although it has left out the gap below it, so honesty is a
condition on the calls.

Results:
* `runRange_honest`, `poll_sound`: what one call and one poll leave of the checkpoint;
* `honest_of_vouches`: the same for a run of calls;
* `skipped_block_dishonest`: a call that vouches for a block it has skipped.
-/

namespace MevScout.Explorer

/-- Every block from the first one ever indexed and below `m` is classified. -/
def Vouched (st : SyncStore) (m : ℕ) : Prop := ∀ F, st.first = some F → st.Covers F m

/-- The checkpoint vouches for classified blocks only. -/
def Honest (st : SyncStore) : Prop := Vouched st (st.indexedTo + 1)

variable {st st' : SyncStore} {start m k : ℕ}

theorem Vouched.mono (h : Vouched st k) (hle : m ≤ k) : Vouched st m := fun F hF n hn hm =>
  h F hF n hn (by omega)

theorem Vouched.append (h : Vouched st m) (hc : st.Covers m k) : Vouched st k := by
  intro F hF n hn hk
  rcases Nat.lt_or_ge n m with hm | hm
  · exact h F hF n hn hm
  · exact hc n hm hk

/-- Blocks that are indexed from `start` on do not change what is vouched for below. -/
theorem Vouched.of_grown (h : Vouched st m) (hg : Grown st st' start) (hle : m ≤ start + 1) :
    Vouched st' m := by
  intro F hF n hn hm
  rcases hg.first F hF with hF | ⟨hstart, hmem⟩
  · exact hg.subset n (h F hF n hn hm)
  · obtain rfl : n = F := by omega
    exact hmem

/-- Nor do they above, if the first block ever indexed is none of them. -/
theorem Vouched.of_grown_of_first {F₀ : ℕ} (h : Vouched st m) (hg : Grown st st' start)
    (hfirst : st.first = some F₀) (hle : F₀ ≤ start) : Vouched st' m := by
  intro F hF n hn hm
  rcases hg.first F hF with hF | ⟨hstart, -⟩
  · exact hg.subset n (h F hF n hn hm)
  · exact hg.subset n (h F₀ hfirst n (by omega) hm)

/-! ## Ranges -/

variable {cfg : IngestConfig} {env : RangeEnv} {req : RangeRequest}

/-- The loop of a range call skips the block: it fails, or its chunk is not fetched. -/
def RangeEnv.Skips (env : RangeEnv) (cfg : IngestConfig) (req : RangeRequest)
    (missing : List ℕ) (block : ℕ) : Prop :=
  if req.cap missing ≤ 1 then env.attempt block = .failed
  else block ∈ env.skipped cfg (req.cap missing) missing

/-- The range continues the checkpoint, nothing of it is skipped, and nothing fails if it indexes
    below the first block ever indexed. -/
structure RangeMeets (cfg : IngestConfig) (env : RangeEnv) (req : RangeRequest) (st : SyncStore)
    (tip : ℕ) : Prop where
  below : Vouched st req.fromBlock
  forward : st.indexedTo ≤ req.stop cfg tip
  kept : ∀ b ∈ st.unclassifiedBlocks req.fromBlock (req.stop cfg tip),
    ¬ env.Skips cfg req (st.unclassifiedBlocks req.fromBlock (req.stop cfg tip)) b
  whole : (∃ F, st.first = some F ∧ F ≤ req.fromBlock) ∨ st.indexedTo < req.fromBlock ∨
    ∀ b ∈ st.unclassifiedBlocks req.fromBlock (req.stop cfg tip),
      env.priced req.fromBlock b = true ∧ ∃ hash, env.attempt b = .indexed hash

/-- The same for a call that may not come that far. -/
def RangeVouches (cfg : IngestConfig) (env : RangeEnv) (req : RangeRequest) (st : SyncStore) :
    Prop :=
  ∀ tip, env.tip = some tip → req.fromBlock ≤ req.stop cfg tip → RangeMeets cfg env req st tip

/-- A loop each of whose steps only indexes blocks, also the one it fails with. -/
theorem foldlM_grown {step : SyncStore → ℕ → Except SyncStore SyncStore} {l : List ℕ}
    (hstep : ∀ s, ∀ b ∈ l, ∀ s', step s b = .ok s' ∨ step s b = .error s' → Grown s s' start)
    (h : l.foldlM step st = .ok st' ∨ l.foldlM step st = .error st') : Grown st st' start := by
  induction l generalizing st with
  | nil =>
    rcases h with h | h
    · obtain rfl : st = st' := by simpa [pure, Except.pure] using h
      exact .rfl
    · cases h
  | cons b l ih =>
    rw [List.foldlM_cons] at h
    cases hb : step st b with
    | error s =>
      rw [hb] at h
      rcases h with h | h
      · cases h
      · obtain rfl := Except.error.inj h
        exact hstep st b (by simp) s (.inr hb)
    | ok s =>
      rw [hb] at h
      have hrest := ih (fun s c hc => hstep s c (List.mem_cons_of_mem _ hc)) h
      exact (hstep st b (by simp) s (.inl hb)).trans hrest le_rfl

/-- What a loop that completes has classified. -/
theorem foldlM_mem (start : ℕ) {step : SyncStore → ℕ → Except SyncStore SyncStore} {l : List ℕ}
    (hstep : ∀ s, ∀ b ∈ l, ∀ s', step s b = .ok s' → Grown s s' start ∧ b ∈ s'.classified)
    (h : l.foldlM step st = .ok st') : ∀ b ∈ l, b ∈ st'.classified := by
  induction l generalizing st with
  | nil => simp
  | cons b l ih =>
    rw [List.foldlM_cons, bind_eq_ok] at h
    obtain ⟨s, hb, hl⟩ := h
    have hrest : ∀ s, ∀ c ∈ l, ∀ s', step s c = .ok s' → Grown s s' start ∧ c ∈ s'.classified :=
      fun s c hc => hstep s c (List.mem_cons_of_mem _ hc)
    have hgrown : Grown s st' start := run_induct (I := fun t => Grown s t start)
      (fun c hc t t' ht htc => ht.trans (hrest t c hc t' htc).1 le_rfl) hl .rfl
    intro c hc
    rcases List.mem_cons.mp hc with rfl | hc
    · exact hgrown.subset c (hstep st c (by simp) s hb).2
    · exact ih hrest hl c hc

theorem SyncStore.mem_unclassifiedBlocks {stop b : ℕ} :
    b ∈ st.unclassifiedBlocks start stop ↔ (start ≤ b ∧ b ≤ stop) ∧ b ∉ st.classified := by
  rw [SyncStore.unclassifiedBlocks, List.mem_filter, List.mem_range'_1, decide_eq_true_eq]
  refine and_congr_left fun _ => ?_
  omega

/-- A step of the loop without concurrency. -/
theorem indexSerial_spec (env : RangeEnv) (st : SyncStore) {b : ℕ} (hb : start ≤ b) :
    (∀ s', indexSerial env start st b = .ok s' ∨ indexSerial env start st b = .error s' →
      Grown st s' start) ∧
    (∀ s', indexSerial env start st b = .ok s' → env.attempt b ≠ .failed → b ∈ s'.classified) ∧
    (env.priced start b = true → ∃ s', indexSerial env start st b = .ok s') := by
  obtain ⟨hgrown, -, hmem⟩ := indexBlock_spec st b (env.attempt b)
  unfold indexSerial
  by_cases hpriced : env.priced start b = true
  · rw [if_pos hpriced]
    refine ⟨fun s' h => ?_, fun s' h hne => ?_, fun _ => ⟨_, rfl⟩⟩
    · rcases h with h | h
      · obtain rfl := Except.ok.inj h
        exact hgrown.mono hb
      · cases h
    · obtain rfl := Except.ok.inj h
      exact hmem hne
  · rw [if_neg hpriced]
    refine ⟨fun s' h => ?_, fun s' h => (by cases h), fun h => absurd h hpriced⟩
    rcases h with h | h
    · cases h
    · obtain rfl := Except.error.inj h
      exact .rfl

/-- A step of the pipeline. -/
theorem indexPipelined_spec (env : RangeEnv) (skipped : List ℕ) (st : SyncStore) {b : ℕ}
    (hb : start ≤ b) :
    (∀ s', indexPipelined env start skipped st b = .ok s' ∨
      indexPipelined env start skipped st b = .error s' → Grown st s' start) ∧
    (∀ s', indexPipelined env start skipped st b = .ok s' → b ∉ skipped → b ∈ s'.classified) ∧
    (env.priced start b = true → (∃ hash, env.attempt b = .indexed hash) →
      ∃ s', indexPipelined env start skipped st b = .ok s') := by
  obtain ⟨hgrown, hmem, -⟩ := indexBlockFetched_spec st b (env.attempt b)
  unfold indexPipelined
  by_cases hskip : b ∈ skipped
  · rw [if_pos hskip]
    refine ⟨fun s' h => ?_, fun s' _ hne => absurd hskip hne, fun _ _ => ⟨_, rfl⟩⟩
    rcases h with h | h
    · obtain rfl := Except.ok.inj h
      exact .rfl
    · cases h
  rw [if_neg hskip]
  by_cases hpriced : env.priced start b = true
  · rw [if_pos hpriced]
    dsimp only
    by_cases hok : (st.indexBlockFetched b (env.attempt b)).2 = true
    · rw [if_pos hok]
      refine ⟨fun s' h => ?_, fun s' h _ => ?_, fun _ _ => ⟨_, rfl⟩⟩
      · rcases h with h | h
        · obtain rfl := Except.ok.inj h
          exact hgrown.mono hb
        · cases h
      · obtain rfl := Except.ok.inj h
        exact hmem hok
    · rw [if_neg hok]
      refine ⟨fun s' h => ?_, fun s' h => (by cases h), fun _ ⟨hash, hindexed⟩ => ?_⟩
      · rcases h with h | h
        · cases h
        · obtain rfl := Except.error.inj h
          exact hgrown.mono hb
      · rw [hindexed] at hok
        exact absurd rfl hok
  · rw [if_neg hpriced]
    refine ⟨fun s' h => ?_, fun s' h => (by cases h), fun h => absurd h hpriced⟩
    rcases h with h | h
    · cases h
    · obtain rfl := Except.error.inj h
      exact .rfl

/-- A loop none of whose steps fails completes. -/
theorem foldlM_ok {step : SyncStore → ℕ → Except SyncStore SyncStore} {l : List ℕ} (st : SyncStore)
    (hstep : ∀ s, ∀ b ∈ l, ∃ s', step s b = .ok s') : ∃ s', l.foldlM step st = .ok s' := by
  obtain ⟨s', hs', -⟩ := exists_run (I := fun _ => True) (s := st) (fun b hb s _ => by
    obtain ⟨t, ht⟩ := hstep s b hb
    exact ⟨t, ht, trivial⟩) trivial
  exact ⟨s', hs'⟩

/-- The blocks of a range call: what they leave in any case, what they classify if none is skipped,
    and when the call reaches the last one. -/
theorem indexMissing_spec (cfg : IngestConfig) (env : RangeEnv) (req : RangeRequest)
    (st : SyncStore) {missing : List ℕ} (hmissing : ∀ b ∈ missing, req.fromBlock ≤ b) :
    (∀ s', indexMissing cfg env req missing st = .ok s' ∨
      indexMissing cfg env req missing st = .error s' → Grown st s' req.fromBlock) ∧
    (∀ s', indexMissing cfg env req missing st = .ok s' →
      (∀ b ∈ missing, ¬ env.Skips cfg req missing b) → ∀ b ∈ missing, b ∈ s'.classified) ∧
    ((∀ b ∈ missing, env.priced req.fromBlock b = true ∧ ∃ hash, env.attempt b = .indexed hash) →
      ∃ s', indexMissing cfg env req missing st = .ok s') := by
  unfold indexMissing RangeEnv.Skips
  dsimp only
  split_ifs with hcap
  · refine ⟨fun s' h => foldlM_grown (fun s b hb => (indexSerial_spec env s (hmissing b hb)).1) h,
      fun s' h hkept => foldlM_mem req.fromBlock (fun s b hb s' hs => ?_) h, fun hall =>
      foldlM_ok st fun s b hb => (indexSerial_spec env s (hmissing b hb)).2.2 (hall b hb).1⟩
    obtain ⟨hgrown, hmem, -⟩ := indexSerial_spec env s (hmissing b hb)
    exact ⟨hgrown s' (.inl hs), hmem s' hs (hkept b hb)⟩
  · refine ⟨fun s' h =>
        foldlM_grown (fun s b hb => (indexPipelined_spec env _ s (hmissing b hb)).1) h,
      fun s' h hkept => foldlM_mem req.fromBlock (fun s b hb s' hs => ?_) h, fun hall =>
      foldlM_ok st fun s b hb =>
        (indexPipelined_spec env _ s (hmissing b hb)).2.2 (hall b hb).1 (hall b hb).2⟩
    obtain ⟨hgrown, hmem, -⟩ := indexPipelined_spec env
      (env.skipped cfg (req.cap missing) missing) s (hmissing b hb)
    exact ⟨hgrown s' (.inl hs), hmem s' hs (hkept b hb)⟩

/-- A range call that continues the checkpoint keeps it honest and does not move it back. -/
theorem runRange_honest (h : Honest st) (hmeets : RangeVouches cfg env req st) :
    Honest (runRange cfg env req st) ∧ st.indexedTo ≤ (runRange cfg env req st).indexedTo := by
  unfold runRange
  by_cases hempty : req.toBlock < req.fromBlock
  · rw [if_pos hempty]
    exact ⟨h, le_rfl⟩
  rw [if_neg hempty]
  cases htip : env.tip with
  | none => exact ⟨h, le_rfl⟩
  | some tip =>
    dsimp only
    by_cases hlag : req.stop cfg tip < req.fromBlock
    · rw [if_pos hlag]
      exact ⟨h, le_rfl⟩
    rw [if_neg hlag]
    by_cases hlisted : (env.listed && env.firstPrice) = true
    swap
    · rw [if_neg hlisted]
      exact ⟨h, le_rfl⟩
    rw [if_pos hlisted]
    have hle : req.fromBlock ≤ req.stop cfg tip := by omega
    have hok := hmeets tip htip hle
    obtain ⟨hgrown, hmem, hreach⟩ := indexMissing_spec cfg env req st
      fun b (hb : b ∈ st.unclassifiedBlocks req.fromBlock (req.stop cfg tip)) =>
        (SyncStore.mem_unclassifiedBlocks.mp hb).1.1
    cases hrun : indexMissing cfg env req
        (st.unclassifiedBlocks req.fromBlock (req.stop cfg tip)) st with
    | error s =>
      have hg := hgrown s (.inr hrun)
      refine ⟨?_, hg.indexedTo.ge⟩
      unfold Honest
      rw [hg.indexedTo]
      rcases hok.whole with ⟨F, hfirst, hF⟩ | hlt | hall
      · exact h.of_grown_of_first hg hfirst hF
      · exact h.of_grown hg (by omega)
      · obtain ⟨s', hs'⟩ := hreach hall
        rw [hrun] at hs'
        cases hs'
    | ok s =>
      have hg := hgrown s (.inl hrun)
      -- every block of the range is classified
      have hcovers : s.Covers req.fromBlock (req.stop cfg tip + 1) := fun n hn hstop => by
        by_cases hc : n ∈ st.classified
        · exact hg.subset n hc
        · exact hmem s hrun hok.kept n
            (SyncStore.mem_unclassifiedBlocks.mpr ⟨⟨hn, by omega⟩, hc⟩)
      have hvouched : Vouched s (req.stop cfg tip + 1) :=
        (hok.below.of_grown hg (Nat.le_succ _)).append hcovers
      dsimp only
      split_ifs
      · exact ⟨hvouched, hok.forward⟩
      · refine ⟨?_, hg.indexedTo.ge⟩
        unfold Honest
        rw [hg.indexedTo]
        exact hvouched.mono (by have := hok.forward; omega)

/-! ## Live sessions -/

variable {p : Poll} {cursor c : ℕ} {ls ls' : LiveState}

/-- The poll indexes what it has unwound from `f` up to the checkpoint. -/
def Reindexes (p : Poll) (f : ℕ) (ls : LiveState) : Prop :=
  ∀ b, f ≤ b → b ≤ ls.store.indexedTo → ∃ hash, p.attempt b = .indexed hash

/-- A poll that unwinds reaches its loop and indexes what it has unwound. -/
def Restores (cfg : IngestConfig) (p : Poll) (cursor : ℕ) (ls : LiveState) : Prop :=
  (∀ f, ls.tipOutcome cfg p cursor = .forked f → p.tip.unwound = true →
    p.nativePrice = true ∧ Reindexes p f ls ∧
      (ls.unwind f).sweepOutcome cfg p f ≠ .probeFailed ∧
      ∀ g, (ls.unwind f).sweepOutcome cfg p f = .forked g →
        p.sweep.unwound = true ∧ Reindexes p g ls) ∧
  (ls.tipOutcome cfg p cursor = .noReorg → ∀ g, ls.sweepOutcome cfg p cursor = .forked g →
    p.sweep.unwound = true → p.nativePrice = true ∧ Reindexes p g ls)

/-- A session starts at a tip above the checkpoint, and every block from the first one ever
    indexed and below that tip is classified; its polls restore what they unwind. -/
structure PollVouches (cfg : IngestConfig) (ls : LiveState) (p : Poll) : Prop where
  atTip : ∀ safe, ls.running = true → safeHead cfg p.head = some safe → ls.nextBlock = none →
    (ls.store.indexedTo = 0 ∨ ls.store.indexedTo < safe) ∧ Vouched ls.store safe
  restores : ∀ safe ls' cursor, ls.running = true → safeHead cfg p.head = some safe →
    ls.start p safe = .ok (ls', cursor) → cursor ≤ safe → Restores cfg p cursor ls'

/-- What a live session keeps: its next block is no lower than the checkpoint, and everything
    below is classified. -/
structure Sound (ls : LiveState) : Prop where
  honest : Honest ls.store
  next : ls.running = true → ∀ n, ls.nextBlock = some n →
    ls.store.indexedTo ≤ n ∧ Vouched ls.store n

/-- The checkpoint of a session that starts at the tip. -/
theorem tipJump_bounds {safe existing : ℕ} (h : existing = 0 ∨ existing < safe) (read : Bool) :
    existing ≤ tipJumpCheckpoint (if read then existing else 0) safe ∧
      tipJumpCheckpoint (if read then existing else 0) safe ≤ safe - 1 := by
  unfold tipJumpCheckpoint
  cases read with
  | false => simp; omega
  | true =>
    simp only [if_true]
    split_ifs with hzero <;> omega

theorem Vouched.of_prepared (h : Vouched ls.store cursor) (hprep : Prepared ls ls' cursor c) :
    Vouched ls'.store c := fun F hF n hn hc =>
  hprep.mem n hc (h F (hprep.first ▸ hF) n hn (by have := hprep.le; omega))

/-- The cursor of a poll is no lower than the checkpoint. -/
theorem start_sound {safe : ℕ} (h : Sound ls) (hrun : ls.running = true)
    (hsafe : safeHead cfg p.head = some safe) (hmeets : PollVouches cfg ls p)
    (hstart : ls.start p safe = .ok (ls', cursor)) :
    Honest ls'.store ∧ ls.store.indexedTo ≤ ls'.store.indexedTo ∧
      ls'.store.indexedTo ≤ cursor ∧ Vouched ls'.store cursor ∧
      ∀ n, ls'.nextBlock = some n → n = cursor := by
  rcases start_ok hstart with ⟨hnext, rfl⟩ | ⟨hnone, rfl, -, rfl⟩
  · obtain ⟨hle, hvouched⟩ := h.next hrun cursor hnext
    exact ⟨h.honest, le_rfl, hle, hvouched, fun n hn => by
      rw [hnext] at hn
      exact (Option.some.inj hn).symm⟩
  · obtain ⟨hbelow, hvouched⟩ := hmeets.atTip cursor hrun hsafe hnone
    obtain ⟨hforward, hbound⟩ := tipJump_bounds hbelow p.readStart
    have hvouched' : Vouched (ls.store.setSyncState cursor
        (tipJumpCheckpoint (ls.store.getIndexedTo p.readStart) cursor)) cursor := hvouched
    refine ⟨?_, hforward, hbound.trans (Nat.sub_le _ _), hvouched', fun n hn => ?_⟩
    · -- the checkpoint stays below the tip, or at the block 0 that it is at
      by_cases hzero : cursor = 0
      · subst hzero
        intro F hF n hn hm
        have hkeep : tipJumpCheckpoint (ls.store.getIndexedTo p.readStart) 0 ≤ 0 := hbound
        change n < tipJumpCheckpoint (ls.store.getIndexedTo p.readStart) 0 + 1 at hm
        exact h.honest F hF n hn (by omega)
      · refine Vouched.mono hvouched' ?_
        change tipJumpCheckpoint (ls.store.getIndexedTo p.readStart) cursor + 1 ≤ cursor
        have hkeep : tipJumpCheckpoint (ls.store.getIndexedTo p.readStart) cursor ≤ cursor - 1 :=
          hbound
        omega
    · exact absurd hn (by simp [hnone])

/-- What the loop of a poll leaves of the checkpoint: the poll has unwound nothing, or it indexes
    everything up to the checkpoint. -/
theorem indexTo_sound {safe : ℕ} (hvouched : Vouched ls.store c) (hc : c ≤ safe)
    (hsafe : ls.store.indexedTo ≤ safe)
    (h : Honest ls.store ∧ ls.store.indexedTo ≤ c ∨ Reindexes p c ls) :
    Sound (ls.indexTo p safe c) ∧ ls.store.indexedTo ≤ (ls.indexTo p safe c).store.indexedTo := by
  unfold LiveState.indexTo
  cases hloop : ls.indexFrom p.attempt (safe + 1 - c) c with
  | mk ls₁ done =>
    obtain ⟨stop, hstop, hindexed, hdone, hfail⟩ := indexFrom_spec hloop
    have hsame := hindexed.grown.indexedTo
    have hvouched₁ : Vouched ls₁.store stop :=
      (hvouched.of_grown hindexed.grown (Nat.le_succ _)).append hindexed.covers
    -- the loop does not stop at a block that it indexes again
    have hreach : Reindexes p c ls → ls.store.indexedTo < stop := by
      intro hre
      cases done with
      | true => rw [hdone rfl]; omega
      | false =>
        by_contra hlt
        obtain ⟨hash, hhash⟩ := hre stop hstop (by omega)
        exact (hfail rfl).2 hash hhash
    have hhonest₁ : Honest ls₁.store := by
      unfold Honest
      rw [hsame]
      rcases h with ⟨hhonest, hle⟩ | hre
      · exact hhonest.of_grown hindexed.grown (by omega)
      · exact hvouched₁.mono (hreach hre)
    have hbelow : ls.store.indexedTo ≤ stop := by
      rcases h with ⟨-, hle⟩ | hre
      · omega
      · exact (hreach hre).le
    cases done with
    | false =>
      refine ⟨⟨hhonest₁, fun _ n hn => ?_⟩, hsame.ge⟩
      obtain rfl : stop = n := Option.some.inj ((hfail rfl).1.symm.trans hn)
      exact ⟨hsame ▸ hbelow, hvouched₁⟩
    | true =>
      obtain rfl : stop = safe + 1 := by rw [hdone rfl]; omega
      change Sound (if p.saved = true then _ else ls₁.abort : LiveState) ∧
        _ ≤ (if p.saved = true then _ else ls₁.abort : LiveState).store.indexedTo
      split_ifs with hsaved
      · refine ⟨⟨hvouched₁, fun _ n hn => ?_⟩, hsafe⟩
        obtain rfl : safe + 1 = n := Option.some.inj hn
        exact ⟨Nat.le_succ _, hvouched₁⟩
      · exact ⟨⟨hhonest₁, fun hrun => absurd hrun (by simp [LiveState.abort])⟩, hsame.ge⟩

/-- A poll keeps the checkpoint honest and does not move it back. -/
theorem poll_sound (h : Sound ls) (hmeets : PollVouches cfg ls p) :
    Sound (ls.poll cfg p) ∧ ls.store.indexedTo ≤ (ls.poll cfg p).store.indexedTo := by
  have hpolled := poll_polled cfg ls p
  generalize ls.poll cfg p = ls' at hpolled ⊢
  cases hpolled with
  | idle => exact ⟨h, le_rfl⟩
  | refused hstart =>
    rw [start_error hstart]
    exact ⟨⟨h.honest, fun hrun => absurd hrun (by simp [LiveState.abort])⟩, le_rfl⟩
  | behind hrun hsafe hstart hlt =>
    obtain ⟨hhonest, hforward, hle, hvouched, -⟩ := start_sound h hrun hsafe hmeets hstart
    refine ⟨⟨hhonest, fun _ n hn => ?_⟩, hforward⟩
    rw [← Option.some.inj hn]
    exact ⟨hle, hvouched⟩
  | ended hrun hsafe hstart hcursor hprep =>
    obtain ⟨hhonest, hforward, hle, hvouched, hnext⟩ := start_sound h hrun hsafe hmeets hstart
    obtain ⟨htip, hsweep⟩ := hmeets.restores _ _ _ hrun hsafe hstart hcursor
    rcases prepare_error hprep with hsame | ⟨-, hlost⟩
    · refine ⟨⟨hsame.store ▸ hhonest, fun _ n hn => ?_⟩, hsame.store ▸ hforward⟩
      rw [hsame.nextBlock] at hn
      rw [hsame.store, hnext n hn]
      exact ⟨hle, hvouched⟩
    · -- the poll has unwound a fork and ends, which the condition excludes
      rcases hlost with ⟨f, hfork, hunwound, hprobe | ⟨⟨g, hg⟩, hno, -⟩ | hprice⟩ |
        ⟨g, hno, hfork, hunwound, hprice⟩
      · exact absurd hprobe (htip f hfork hunwound).2.2.1
      · rw [((htip f hfork hunwound).2.2.2 g hg).1] at hno
        cases hno
      · rw [(htip f hfork hunwound).1] at hprice
        cases hprice
      · rw [(hsweep hno g hfork hunwound).1] at hprice
        cases hprice
  | @followed safe cursor c ls₁ ls₂ hrun hsafe hstart hcursor hprep =>
    obtain ⟨hhonest, hforward, hle, hvouched, -⟩ := start_sound h hrun hsafe hmeets hstart
    obtain ⟨htip, hsweep⟩ := hmeets.restores _ _ _ hrun hsafe hstart hcursor
    have hprepared := prepare_prepared hprep
    have hsame := hprepared.indexedTo
    have hreindex : ∀ {f : ℕ}, Reindexes p f ls₁ → Reindexes p f ls₂ := fun hre b hb hI =>
      hre b hb (hsame ▸ hI)
    have hcase : Honest ls₂.store ∧ ls₂.store.indexedTo ≤ c ∨ Reindexes p c ls₂ := by
      rcases (prepare_ok hprep).2 with ⟨hno, ⟨rfl, hsession⟩ | ⟨hfork, hunwound, -⟩⟩ |
        ⟨f, hfork, hunwound, hrest⟩
      · exact .inl ⟨hsession.store ▸ hhonest, hsame ▸ hle⟩
      · exact .inr (hreindex (hsweep hno c hfork hunwound).2)
      · obtain ⟨-, hre, -, hsecond⟩ := htip f hfork hunwound
        rcases hrest with ⟨rfl, -⟩ | ⟨hsecondFork, -, -⟩
        · exact .inr (hreindex hre)
        · exact .inr (hreindex (hsecond c hsecondFork).2)
    obtain ⟨hsound, hrest⟩ := indexTo_sound (hvouched.of_prepared hprepared)
      (hprepared.le.trans hcursor) (hsame ▸ hle.trans hcursor) hcase
    exact ⟨hsound, hforward.trans (hsame ▸ hrest)⟩

/-! ## Runs -/

/-- A call of the indexer: a range, the start of a live session, or a poll of it. -/
inductive SyncStep where
  | range (env : RangeEnv) (req : RangeRequest)
  | session
  | poll (p : Poll)

/-- What a call leaves; a range call runs in no live session. -/
def LiveState.perform (cfg : IngestConfig) (ls : LiveState) : SyncStep → LiveState
  | .range env req => { store := runRange cfg env req ls.store, running := false }
  | .session => { store := ls.store }
  | .poll p => ls.poll cfg p

/-- The calls one after the other. -/
def runSteps (cfg : IngestConfig) (store : SyncStore) (steps : List SyncStep) : LiveState :=
  steps.foldl (LiveState.perform cfg) { store, running := false }

/-- The condition on a call. -/
def StepVouches (cfg : IngestConfig) (ls : LiveState) : SyncStep → Prop
  | .range env req => RangeVouches cfg env req ls.store
  | .session => True
  | .poll p => PollVouches cfg ls p

theorem perform_sound {s : SyncStep} (h : Sound ls) (hmeets : StepVouches cfg ls s) :
    Sound (ls.perform cfg s) ∧ ls.store.indexedTo ≤ (ls.perform cfg s).store.indexedTo := by
  cases s with
  | range env req =>
    obtain ⟨hhonest, hle⟩ := runRange_honest h.honest hmeets
    exact ⟨⟨hhonest, fun hrun => by cases hrun⟩, hle⟩
  | session => exact ⟨⟨h.honest, fun _ _ hn => by cases hn⟩, le_rfl⟩
  | poll p => exact poll_sound h hmeets

/-- **Main theorem.** In a run of range calls and live sessions that all meet the condition, from
    a store with an honest checkpoint, the checkpoint is honest after every step, and no step
    moves it back. -/
theorem honest_of_vouches (store : SyncStore) (steps : List SyncStep) (h : Honest store)
    (hmeets : ∀ pre s, pre ++ [s] <+: steps → StepVouches cfg (runSteps cfg store pre) s) :
    ∀ pre s, pre ++ [s] <+: steps → Honest (runSteps cfg store (pre ++ [s])).store ∧
      (runSteps cfg store pre).store.indexedTo ≤
        (runSteps cfg store (pre ++ [s])).store.indexedTo := by
  have hsnoc : ∀ pre s, runSteps cfg store (pre ++ [s]) = (runSteps cfg store pre).perform cfg s :=
    fun pre s => by rw [runSteps, List.foldl_append]; rfl
  have hsound : ∀ pre, pre <+: steps → Sound (runSteps cfg store pre) := by
    intro pre
    induction pre using List.reverseRecOn with
    | nil => exact fun _ => ⟨h, fun hrun => by cases hrun⟩
    | append_singleton pre s ih =>
      intro hpre
      rw [hsnoc]
      exact (perform_sound (ih ((List.prefix_append pre [s]).trans hpre)) (hmeets pre s hpre)).1
  intro pre s hpre
  obtain ⟨hs, hle⟩ := perform_sound (hsound pre ((List.prefix_append pre [s]).trans hpre))
    (hmeets pre s hpre)
  rw [hsnoc]
  exact ⟨hs.honest, hle⟩

/-- A range call over the blocks 1, 2 and 3 one by one, in which the block `lost` fails. -/
def exampleRange (lost : ℕ) : SyncStep :=
  .range { tip := some 3, attempt := fun b => if b = lost then .failed else .indexed 1 }
    { fromBlock := 1, toBlock := 3, blockConcurrency := 1 }

theorem honest_after_range_and_poll :
    Honest (runSteps exampleConfig {}
      [exampleRange 0, .session, .poll (examplePoll 4 1 true)]).store := by
  refine (honest_of_vouches {} ([exampleRange 0] ++ [.session] ++ [.poll (examplePoll 4 1 true)])
    (fun F hF => by cases hF) ?_ _ _ List.prefix_rfl).1
  rw [forall_prefix_concat, forall_prefix_concat]
  refine ⟨⟨(forall_prefix_concat (l := [])).mpr ⟨fun pre c h => by simp at h, ?_⟩, trivial⟩, ?_⟩
  · intro tip htip _
    obtain rfl : 3 = tip := Option.some.inj htip
    refine ⟨fun F hF => (by cases hF), by decide, fun b hb => ?_, .inr (.inl (by decide))⟩
    have hpos : 1 ≤ b := (SyncStore.mem_unclassifiedBlocks.mp hb).1.1
    have hindexed : (if b = 0 then Attempt.failed else .indexed 1) = .indexed 1 :=
      if_neg (by omega)
    rw [RangeEnv.Skips, if_pos (by decide)]
    change ¬ (if b = 0 then Attempt.failed else .indexed 1) = .failed
    rw [hindexed]
    simp
  · refine ⟨fun safe _ hsafe _ => ?_, fun safe ls' cursor _ hsafe hstart _ => ?_⟩
    · obtain rfl : 4 = safe := Option.some.inj hsafe
      refine ⟨.inr (by decide), fun F hF n hn hm => ?_⟩
      obtain rfl : 1 = F := Option.some.inj hF
      interval_cases n <;> decide
    · obtain rfl : 4 = safe := Option.some.inj hsafe
      rcases start_ok hstart with ⟨hnext, -⟩ | ⟨-, rfl, -, rfl⟩
      · cases hnext
      · exact ⟨fun f hf => ReorgOutcome.noConfusion hf, fun _ g hg => ReorgOutcome.noConfusion hg⟩

/-- Block 2 fails and is skipped, and the checkpoint says 3. -/
theorem skipped_block_dishonest :
    Honest {} ∧ ¬ Honest (runSteps exampleConfig {} [exampleRange 2]).store := by
  refine ⟨fun F hF => (by cases hF), fun h => ?_⟩
  exact absurd (h 1 rfl 2 (by decide) (by decide)) (by decide)

end MevScout.Explorer
