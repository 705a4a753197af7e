import MevScout.Common.Run
import MevScout.Explorer.Sync

/-!
# Live polls

What a poll of `run_live` (`core/src/explorer/ingest.rs`) leaves classified below the block that
the next poll starts at.

A poll that unwinds from a fork indexes the unwound blocks again, because its cursor goes back to
the fork. The block that the next poll starts at does not, so a poll that ends between the unwind
and its loop loses them.

Results:
* `indexFrom_spec`: what the loop over the blocks of a poll leaves;
* `checkReorg_le`: a fork is no later than the probed block;
* `covered_poll`: a poll that does not lose a fork keeps the session's blocks classified;
* `covered_of_keepsForks`: the same for a session;
* `price_failure_loses_fork`: a session that never indexes an unwound block again.
-/

namespace MevScout.Explorer

/-- The blocks from `a` and below `b` are classified. -/
def SyncStore.Covers (st : SyncStore) (a b : ℕ) : Prop := ∀ n, a ≤ n → n < b → n ∈ st.classified

theorem SyncStore.Covers.append {st : SyncStore} {a b c : ℕ} (h : st.Covers a b)
    (h' : st.Covers b c) : st.Covers a c := fun n ha hc => by
  rcases Nat.lt_or_ge n b with hn | hn
  · exact h n ha hn
  · exact h' n hn hc

theorem SyncStore.Covers.mono {st st' : SyncStore} {a b : ℕ} (h : st.Covers a b)
    (hsub : ∀ n, n < b → n ∈ st.classified → n ∈ st'.classified) : st'.Covers a b :=
  fun n ha hb => hsub n hb (h n ha hb)

theorem SyncStore.mem_unwindFrom {st : SyncStore} {f n : ℕ} :
    n ∈ (st.unwindFrom f).classified ↔ n ∈ st.classified ∧ n < f := Finset.mem_filter

/-! ## The loop over the blocks -/

theorem SyncStore.mem_insertBlock {st : SyncStore} {block n : ℕ} {hash : B256} :
    n ∈ (st.insertBlock block hash).classified ↔ n = block ∨ n ∈ st.classified :=
  Finset.mem_insert

/-- What indexing blocks from `start` on leaves of the store. -/
structure Grown (st st' : SyncStore) (start : ℕ) : Prop where
  subset : ∀ n, n ∈ st.classified → n ∈ st'.classified
  first : ∀ F, st'.first = some F → st.first = some F ∨ start ≤ F ∧ F ∈ st'.classified
  indexedTo : st'.indexedTo = st.indexedTo

theorem Grown.rfl {st : SyncStore} {start : ℕ} : Grown st st start :=
  ⟨fun _ hn => hn, fun _ hF => .inl hF, Eq.refl _⟩

theorem Grown.trans {st st₁ st₂ : SyncStore} {start start' : ℕ} (h : Grown st st₁ start)
    (h' : Grown st₁ st₂ start') (hle : start ≤ start') : Grown st st₂ start := by
  refine ⟨fun n hn => h'.subset n (h.subset n hn), fun F hF => ?_,
    h'.indexedTo.trans h.indexedTo⟩
  rcases h'.first F hF with hF | ⟨hstart, hmem⟩
  · exact (h.first F hF).imp_right fun ⟨hstart, hmem⟩ => ⟨hstart, h'.subset F hmem⟩
  · exact .inr ⟨hle.trans hstart, hmem⟩

theorem Grown.mono {st st' : SyncStore} {start start' : ℕ} (h : Grown st st' start')
    (hle : start ≤ start') : Grown st st' start :=
  Grown.rfl.trans h hle

theorem insertBlock_grown (st : SyncStore) (block : ℕ) (hash : B256) :
    Grown st (st.insertBlock block hash) block := by
  refine ⟨fun n hn => SyncStore.mem_insertBlock.mpr (.inr hn), fun F hF => ?_, Eq.refl _⟩
  cases hfirst : st.first with
  | none =>
    have hF' : block = F := by simpa [SyncStore.insertBlock, hfirst] using hF
    exact .inr ⟨hF'.le, SyncStore.mem_insertBlock.mpr (.inl hF'.symm)⟩
  | some F₀ =>
    have hF' : min block F₀ = F := by simpa [SyncStore.insertBlock, hfirst] using hF
    rcases min_choice block F₀ with hmin | hmin
    · exact .inr ⟨by omega, SyncStore.mem_insertBlock.mpr (.inl (by omega))⟩
    · exact .inl (by rw [← hF', hmin])

/-- An attempt succeeds only if the block is classified, and an attempt that indexes it does. -/
theorem indexBlockFetched_spec (st : SyncStore) (block : ℕ) (attempt : Attempt) :
    Grown st (st.indexBlockFetched block attempt).1 block ∧
      ((st.indexBlockFetched block attempt).2 = true →
        block ∈ (st.indexBlockFetched block attempt).1.classified) ∧
      (attempt ≠ .failed → block ∈ (st.indexBlockFetched block attempt).1.classified) := by
  have hinsert : ∀ hash, block ∈ (st.insertBlock block hash).classified := fun hash =>
    SyncStore.mem_insertBlock.mpr (.inl (Eq.refl _))
  cases attempt with
  | indexed hash =>
    exact ⟨insertBlock_grown st block hash, fun _ => hinsert hash, fun _ => hinsert hash⟩
  | failed => exact ⟨.rfl, fun h => (by cases h), fun h => absurd (Eq.refl _) h⟩
  | failedClassified hash =>
    exact ⟨insertBlock_grown st block hash, fun h => (by cases h), fun _ => hinsert hash⟩

theorem indexBlock_spec (st : SyncStore) (block : ℕ) (attempt : Attempt) :
    Grown st (st.indexBlock block attempt).1 block ∧
      ((st.indexBlock block attempt).2 = true →
        block ∈ (st.indexBlock block attempt).1.classified) ∧
      (attempt ≠ .failed → block ∈ (st.indexBlock block attempt).1.classified) := by
  unfold SyncStore.indexBlock
  split_ifs with hmem
  · exact ⟨.rfl, fun _ => hmem, fun _ => hmem⟩
  · exact indexBlockFetched_spec st block attempt

/-- What the loop over the blocks from `block` leaves when it stops before `stop`. -/
structure IndexedUpTo (st st' : LiveState) (block stop : ℕ) : Prop where
  grown : Grown st.store st'.store block
  covers : st'.store.Covers block stop
  forks : st'.forks = st.forks
  firstIndexed : ∀ s, st'.firstIndexed = some s → st.firstIndexed = some s ∨ block ≤ s

/-- The loop over `count` blocks completes, or stops at a block that fails and that the next poll
    starts at. -/
theorem indexFrom_spec {attempt : ℕ → Attempt} {count block : ℕ} {st st' : LiveState}
    {done : Bool} (h : st.indexFrom attempt count block = (st', done)) :
    ∃ stop, block ≤ stop ∧ IndexedUpTo st st' block stop ∧
      (done = true → stop = block + count) ∧
      (done = false → st'.nextBlock = some stop ∧ ∀ hash, attempt stop ≠ .indexed hash) := by
  induction count generalizing block st with
  | zero =>
    obtain ⟨rfl, rfl⟩ : st = st' ∧ true = done := by simpa [LiveState.indexFrom] using h
    exact ⟨block, le_rfl, ⟨.rfl, fun n ha hb => absurd ha (by omega), rfl, fun _ hs => .inl hs⟩,
      fun _ => rfl, fun hd => by cases hd⟩
  | succ count ih =>
    obtain ⟨hgrown, hmem, -⟩ := indexBlock_spec st.store block (attempt block)
    unfold LiveState.indexFrom at h
    dsimp only at h
    cases hok : (st.store.indexBlock block (attempt block)).2 with
    | true =>
      rw [hok, if_pos rfl] at h
      obtain ⟨stop, hle, hloop, hdone, hfail⟩ := ih h
      refine ⟨stop, by omega, ⟨hgrown.trans hloop.grown (Nat.le_succ _), ?_, hloop.forks, ?_⟩,
        fun hd => by rw [hdone hd]; omega, hfail⟩
      · intro n ha hb
        rcases Nat.eq_or_lt_of_le ha with rfl | ha
        · exact hloop.grown.subset _ (hmem hok)
        · exact hloop.covers n ha hb
      · intro s hs
        rcases hloop.firstIndexed s hs with hs | hs
        · cases hfirst : st.firstIndexed with
          | none =>
            rw [hfirst, Option.none_or] at hs
            exact .inr (Option.some.inj hs).le
          | some s₀ =>
            rw [hfirst, Option.some_or] at hs
            exact .inl hs
        · exact .inr (by omega)
    | false =>
      rw [hok, if_neg (by simp)] at h
      obtain ⟨rfl, rfl⟩ := Prod.mk.inj h
      refine ⟨block, le_rfl, ⟨hgrown, fun n ha hb => absurd ha (by omega), rfl,
        fun _ hs => .inl hs⟩, fun hd => absurd hd (by simp [afterBlockAttempt]),
        fun _ => ⟨rfl, fun hash heq => ?_⟩⟩
      rw [heq, SyncStore.indexBlock] at hok
      split_ifs at hok
      cases hok

/-! ## Forks -/

theorem forkBlockLoop_mem {fork : Option ℕ} {checks : List (ℕ × Option Bool)} {f : ℕ}
    (h : forkBlockLoop fork checks = some f) :
    fork = some f ∨ ∃ verdict, (f, verdict) ∈ checks := by
  induction checks generalizing fork with
  | nil => cases h
  | cons c checks ih =>
    obtain ⟨block, verdict⟩ := c
    match verdict, h with
    | some false, h =>
      rcases ih h with hf | ⟨verdict, hf⟩
      · exact .inr ⟨some false, by simp [Option.some.inj hf]⟩
      · exact .inr ⟨verdict, List.mem_cons_of_mem _ hf⟩
    | some true, h => exact .inl h
    | none, h => exact .inl h

theorem walkChecks_mem {st : SyncStore} {hashes : ℕ → Option B256} {blocks : List ℕ}
    {checks : List (ℕ × Option Bool)} (h : walkChecks st hashes blocks = some checks) :
    ∀ c ∈ checks, c.1 ∈ blocks := by
  induction blocks generalizing checks with
  | nil =>
    obtain rfl : [] = checks := by simpa [walkChecks] using h
    simp
  | cons block blocks ih =>
    unfold walkChecks at h
    split at h
    · obtain rfl := Option.some.inj h
      simp
    · split at h
      · cases h
      · split_ifs at h
        · obtain rfl := Option.some.inj h
          simp
        · obtain ⟨rest, hrest, rfl⟩ := Option.map_eq_some_iff.mp h
          intro c hc
          rcases List.mem_cons.mp hc with rfl | hc
          · exact List.mem_cons_self ..
          · exact List.mem_cons_of_mem _ (ih hrest c hc)

/-- A fork is no later than the probed block. -/
theorem checkReorg_le {st : SyncStore} {hashes : ℕ → Option B256} {block maxLookback f : ℕ}
    (h : checkReorg st hashes block maxLookback = .forked f) : f ≤ block := by
  unfold checkReorg at h
  split at h
  · cases h
  · split at h
    · cases h
    · split_ifs at h
      unfold walkToFork at h
      dsimp only at h
      split at h
      · cases h
      · rename_i checks hchecks
        split at h
        · rename_i fork hfork
          obtain rfl : fork = f := by simpa using h
          rcases forkBlockLoop_mem hfork with hf | ⟨verdict, hf⟩
          · cases hf
          · rcases List.mem_cons.mp hf with hf | hf
            · exact (Prod.mk.inj hf).1.le
            · have hmem := walkChecks_mem hchecks _ hf
              rw [List.mem_reverse, List.mem_range'_1] at hmem
              omega
        · cases h

/-! ## The probes of a poll -/

/-- The variables that the probes of a poll leave alone. -/
structure SameSession (st st' : LiveState) : Prop where
  store : st'.store = st.store
  nextBlock : st'.nextBlock = st.nextBlock
  firstIndexed : st'.firstIndexed = st.firstIndexed
  forks : st'.forks = st.forks

theorem SameSession.trans {st st₁ st₂ : LiveState} (h : SameSession st st₁)
    (h' : SameSession st₁ st₂) : SameSession st st₂ :=
  ⟨h'.store.trans h.store, h'.nextBlock.trans h.nextBlock,
    h'.firstIndexed.trans h.firstIndexed, h'.forks.trans h.forks⟩

theorem SameSession.unwind {st st' : LiveState} (h : SameSession st st') (f : ℕ) :
    SameSession (st.unwind f) (st'.unwind f) :=
  ⟨congrArg (SyncStore.unwindFrom · f) h.store, h.nextBlock, h.firstIndexed,
    congrArg (f :: ·) h.forks⟩

theorem skip_same (st : LiveState) : SameSession st st.skip := ⟨rfl, rfl, rfl, rfl⟩

theorem abort_same (st : LiveState) : SameSession st st.abort := ⟨rfl, rfl, rfl, rfl⟩

theorem skip_running {st : LiveState} (h : st.skip.running = true) :
    st.consecutiveFailures + 1 < maxConsecutiveLiveFailures := by
  simpa [LiveState.skip] using h

theorem countSweep_same (st : LiveState) : SameSession st st.countSweep := by
  unfold LiveState.countSweep
  split_ifs <;> exact ⟨rfl, rfl, rfl, rfl⟩

theorem countSweep_failures (st : LiveState) :
    st.countSweep.consecutiveFailures = st.consecutiveFailures := by
  unfold LiveState.countSweep
  split_ifs <;> rfl

theorem resolve_ok {outcome : ReorgOutcome} {unwound : Bool} {cursor c : ℕ} {st st' : LiveState}
    (h : st.resolve outcome unwound cursor = .ok (st', c)) :
    outcome = .noReorg ∧ st' = st ∧ c = cursor ∨
      outcome = .forked c ∧ unwound = true ∧ st' = st.unwind c := by
  cases outcome with
  | noReorg =>
    obtain ⟨rfl, rfl⟩ := Prod.mk.inj (Except.ok.inj h)
    exact .inl ⟨rfl, rfl, rfl⟩
  | forked f =>
    unfold LiveState.resolve at h
    dsimp only at h
    split_ifs at h with hunwound
    obtain ⟨rfl, rfl⟩ := Prod.mk.inj (Except.ok.inj h)
    exact .inr ⟨rfl, hunwound, rfl⟩
  | probeFailed => cases h

theorem resolve_error {outcome : ReorgOutcome} {unwound : Bool} {cursor : ℕ} {st st' : LiveState}
    (h : st.resolve outcome unwound cursor = .error st') :
    outcome = .probeFailed ∧ st' = st.skip ∨
      (∃ f, outcome = .forked f) ∧ unwound = false ∧ st' = st.abort := by
  cases outcome with
  | noReorg => cases h
  | forked f =>
    unfold LiveState.resolve at h
    dsimp only at h
    split_ifs at h with hunwound
    exact .inr ⟨⟨f, rfl⟩, by simpa using hunwound, (Except.error.inj h).symm⟩
  | probeFailed => exact .inl ⟨rfl, (Except.error.inj h).symm⟩

variable {cfg : IngestConfig} {p : Poll} {cursor c : ℕ} {st st' : LiveState}

/-- A sweep that the poll goes on after. -/
theorem verifySweep_ok (h : st.verifySweep cfg p cursor = .ok (st', c)) :
    st'.consecutiveFailures = st.consecutiveFailures ∧
      (st.sweepOutcome cfg p cursor = .noReorg ∧ c = cursor ∧ SameSession st st' ∨
        st.sweepOutcome cfg p cursor = .forked c ∧ p.sweep.unwound = true ∧
          SameSession (st.unwind c) st') := by
  unfold LiveState.verifySweep at h
  split at h
  · cases h
  · rcases resolve_ok h with ⟨houtcome, rfl, rfl⟩ | ⟨houtcome, hunwound, rfl⟩
    · exact ⟨countSweep_failures st, .inl ⟨houtcome, rfl, countSweep_same st⟩⟩
    · exact ⟨countSweep_failures st, .inr ⟨houtcome, hunwound, (countSweep_same st).unwind c⟩⟩

/-- A sweep that the poll ends with. -/
theorem verifySweep_error (h : st.verifySweep cfg p cursor = .error st') :
    SameSession st st' ∧
      (st.sweepOutcome cfg p cursor = .probeFailed ∧
          (st'.running = true → st.consecutiveFailures + 1 < maxConsecutiveLiveFailures) ∨
        (∃ f, st.sweepOutcome cfg p cursor = .forked f) ∧ p.sweep.unwound = false ∧
          st'.running = false) := by
  unfold LiveState.verifySweep at h
  split at h
  · rename_i hfailed
    obtain rfl := Except.error.inj h
    exact ⟨⟨rfl, rfl, rfl, rfl⟩, .inl ⟨hfailed, fun hrun => skip_running hrun⟩⟩
  · rename_i outcome hne
    rcases resolve_error h with ⟨houtcome, -⟩ | ⟨⟨f, houtcome⟩, hunwound, rfl⟩
    · exact absurd houtcome hne
    · exact ⟨(countSweep_same st).trans (abort_same _), .inr ⟨⟨f, houtcome⟩, hunwound, rfl⟩⟩

/-- A poll that reaches its loop has a price, and its cursor is the one it had or a fork that it
    has unwound from. -/
theorem prepare_ok (h : st.prepare cfg p cursor = .ok (st', c)) :
    p.nativePrice = true ∧
      (st.tipOutcome cfg p cursor = .noReorg ∧
          (c = cursor ∧ SameSession st st' ∨
            st.sweepOutcome cfg p cursor = .forked c ∧ p.sweep.unwound = true ∧
              SameSession (st.unwind c) st') ∨
        ∃ f, st.tipOutcome cfg p cursor = .forked f ∧ p.tip.unwound = true ∧
          (c = f ∧ SameSession (st.unwind f) st' ∨
            (st.unwind f).sweepOutcome cfg p f = .forked c ∧ p.sweep.unwound = true ∧
              SameSession ((st.unwind f).unwind c) st')) := by
  unfold LiveState.prepare at h
  obtain ⟨⟨st₁, c₁⟩, htip, h⟩ := bind_eq_ok.mp h
  obtain ⟨⟨st₂, c₂⟩, hsweep, h⟩ := bind_eq_ok.mp h
  dsimp only at hsweep h
  split_ifs at h with hprice
  obtain ⟨rfl, rfl⟩ := Prod.mk.inj (Except.ok.inj h)
  refine ⟨hprice, ?_⟩
  rcases resolve_ok htip with ⟨houtcome, rfl, rfl⟩ | ⟨houtcome, hunwound, rfl⟩
  · refine .inl ⟨houtcome, ?_⟩
    rcases (verifySweep_ok hsweep).2 with ⟨-, hc, hsame⟩ | hforked
    · exact .inl ⟨hc, hsame⟩
    · exact .inr hforked
  · refine .inr ⟨c₁, houtcome, hunwound, ?_⟩
    rcases (verifySweep_ok hsweep).2 with ⟨-, hc, hsame⟩ | hforked
    · exact .inl ⟨hc, hsame⟩
    · exact .inr hforked

/-- A poll that ends before its loop has unwound nothing, or it has unwound a fork and a later
    probe, its unwind or the price fails. -/
theorem prepare_error (h : st.prepare cfg p cursor = .error st') :
    SameSession st st' ∨
      (st'.running = true → st.consecutiveFailures + 1 < maxConsecutiveLiveFailures) ∧
        ((∃ f, st.tipOutcome cfg p cursor = .forked f ∧ p.tip.unwound = true ∧
            ((st.unwind f).sweepOutcome cfg p f = .probeFailed ∨
              (∃ g, (st.unwind f).sweepOutcome cfg p f = .forked g) ∧ p.sweep.unwound = false ∧
                st'.running = false ∨
              p.nativePrice = false)) ∨
          ∃ g, st.tipOutcome cfg p cursor = .noReorg ∧ st.sweepOutcome cfg p cursor = .forked g ∧
            p.sweep.unwound = true ∧ p.nativePrice = false) := by
  unfold LiveState.prepare at h
  cases htip : st.resolve (st.tipOutcome cfg p cursor) p.tip.unwound cursor with
  | error st₁ =>
    rw [htip] at h
    obtain rfl := Except.error.inj h
    rcases resolve_error htip with ⟨-, rfl⟩ | ⟨-, -, rfl⟩
    · exact .inl (skip_same st)
    · exact .inl (abort_same st)
  | ok sc =>
    obtain ⟨st₁, c₁⟩ := sc
    rw [htip] at h
    change (st₁.verifySweep cfg p c₁ >>= _) = _ at h
    cases hsweep : st₁.verifySweep cfg p c₁ with
    | error st₂ =>
      rw [hsweep] at h
      obtain rfl := Except.error.inj h
      obtain ⟨hsame, hcase⟩ := verifySweep_error hsweep
      rcases resolve_ok htip with ⟨-, rfl, rfl⟩ | ⟨houtcome, hunwound, rfl⟩
      · exact .inl hsame
      · rcases hcase with ⟨hfailed, hrun⟩ | ⟨hfork, hno, hstop⟩
        · exact .inr ⟨hrun, .inl ⟨c₁, houtcome, hunwound, .inl hfailed⟩⟩
        · exact .inr ⟨fun hrun => (by simp [hstop] at hrun),
            .inl ⟨c₁, houtcome, hunwound, .inr (.inl ⟨hfork, hno, hstop⟩)⟩⟩
    | ok sc =>
      obtain ⟨st₂, c₂⟩ := sc
      rw [hsweep] at h
      change (if p.nativePrice = true then _ else _) = _ at h
      split_ifs at h with hprice
      obtain rfl := Except.error.inj h
      have hnone : p.nativePrice = false := by simpa using hprice
      obtain ⟨hfailures, hcase⟩ := verifySweep_ok hsweep
      rcases resolve_ok htip with ⟨houtcome, rfl, rfl⟩ | ⟨houtcome, hunwound, rfl⟩
      · rcases hcase with ⟨-, -, hsame⟩ | ⟨hfork, hunwound, -⟩
        · exact .inl (hsame.trans (skip_same st₂))
        · exact .inr ⟨fun hrun => hfailures ▸ skip_running hrun,
            .inr ⟨c₂, houtcome, hfork, hunwound, hnone⟩⟩
      · exact .inr ⟨fun hrun => (hfailures ▸ skip_running hrun :
            (st.unwind c₁).consecutiveFailures + 1 < maxConsecutiveLiveFailures),
          .inl ⟨c₁, houtcome, hunwound, .inr (.inr hnone)⟩⟩

/-- What the probes of a poll leave below the cursor. -/
structure Prepared (st st' : LiveState) (cursor c : ℕ) : Prop where
  le : c ≤ cursor
  mem : ∀ n, n < c → n ∈ st.store.classified → n ∈ st'.store.classified
  first : st'.store.first = st.store.first
  indexedTo : st'.store.indexedTo = st.store.indexedTo
  nextBlock : st'.nextBlock = st.nextBlock
  firstIndexed : st'.firstIndexed = st.firstIndexed
  forks : ∀ f ∈ st'.forks, f ∈ st.forks ∨ c ≤ f

theorem Prepared.of_same (hsame : SameSession st st') : Prepared st st' cursor cursor :=
  ⟨le_rfl, fun _ _ hn => hsame.store ▸ hn, by rw [hsame.store], by rw [hsame.store],
    hsame.nextBlock, hsame.firstIndexed, fun _ hf => .inl (hsame.forks ▸ hf)⟩

theorem Prepared.of_unwind {f : ℕ} (hle : f ≤ cursor) (hsame : SameSession (st.unwind f) st') :
    Prepared st st' cursor f := by
  refine ⟨hle, fun n hn hmem => ?_, by rw [hsame.store]; rfl, by rw [hsame.store]; rfl,
    hsame.nextBlock, hsame.firstIndexed, fun g hg => ?_⟩
  · rw [hsame.store]
    exact SyncStore.mem_unwindFrom.mpr ⟨hmem, hn⟩
  · rw [hsame.forks] at hg
    rcases List.mem_cons.mp hg with rfl | hg
    · exact .inr le_rfl
    · exact .inl hg

theorem Prepared.trans {st₁ : LiveState} {c₁ : ℕ} (h : Prepared st st₁ cursor c₁)
    (h' : Prepared st₁ st' c₁ c) : Prepared st st' cursor c := by
  refine ⟨h'.le.trans h.le, fun n hn hmem => h'.mem n hn (h.mem n (by have := h'.le; omega) hmem),
    h'.first.trans h.first, h'.indexedTo.trans h.indexedTo, h'.nextBlock.trans h.nextBlock,
    h'.firstIndexed.trans h.firstIndexed, fun f hf => ?_⟩
  rcases h'.forks f hf with hf | hf
  · exact (h.forks f hf).imp_right fun hle => h'.le.trans hle
  · exact .inr hf

/-- The fork that the probe of the tip finds lies below the cursor. -/
theorem tipOutcome_le {f : ℕ} (h : st.tipOutcome cfg p cursor = .forked f) : f ≤ cursor := by
  unfold LiveState.tipOutcome at h
  dsimp only at h
  split_ifs at h with htip
  have hle := checkReorg_le h
  omega

theorem sweepOutcome_le {f : ℕ} (h : st.sweepOutcome cfg p cursor = .forked f) : f ≤ cursor := by
  unfold LiveState.sweepOutcome at h
  split_ifs at h
  have hle := checkReorg_le h
  omega

theorem prepare_prepared (h : st.prepare cfg p cursor = .ok (st', c)) :
    Prepared st st' cursor c := by
  rcases (prepare_ok h).2 with ⟨-, ⟨rfl, hsame⟩ | ⟨hfork, -, hsame⟩⟩ | ⟨f, htip, -, hrest⟩
  · exact .of_same hsame
  · exact .of_unwind (sweepOutcome_le hfork) hsame
  · have hunwind : Prepared st (st.unwind f) cursor f :=
      .of_unwind (tipOutcome_le htip) ⟨rfl, rfl, rfl, rfl⟩
    rcases hrest with ⟨rfl, hsame⟩ | ⟨hfork, -, hsame⟩
    · exact .of_unwind (tipOutcome_le htip) hsame
    · exact hunwind.trans (.of_unwind (sweepOutcome_le hfork) hsame)

/-- The cursor of a poll is the block that it starts at, or the tip. -/
theorem start_ok {safe : ℕ} (h : st.start p safe = .ok (st', cursor)) :
    st.nextBlock = some cursor ∧ st' = st ∨
      st.nextBlock = none ∧ cursor = safe ∧ p.savedStart = true ∧
        st' = { st with
          store := st.store.setSyncState safe
            (tipJumpCheckpoint (st.store.getIndexedTo p.readStart) safe) } := by
  unfold LiveState.start at h
  split at h
  · rename_i n hn
    obtain ⟨rfl, rfl⟩ := Prod.mk.inj (Except.ok.inj h)
    exact .inl ⟨hn, rfl⟩
  · rename_i hnone
    dsimp only at h
    split_ifs at h with hsaved
    obtain ⟨rfl, rfl⟩ := Prod.mk.inj (Except.ok.inj h)
    exact .inr ⟨hnone, rfl, hsaved, rfl⟩

theorem start_error {safe : ℕ} (h : st.start p safe = .error st') : st' = st.abort := by
  unfold LiveState.start at h
  split at h
  · cases h
  · dsimp only at h
    split_ifs at h
    exact (Except.error.inj h).symm

/-- The ways through a poll. -/
inductive Polled (cfg : IngestConfig) (st : LiveState) (p : Poll) : LiveState → Prop
  | idle : Polled cfg st p st
  | refused {safe : ℕ} {st' : LiveState} : st.start p safe = .error st' → Polled cfg st p st'
  | behind {safe cursor : ℕ} {st₁ : LiveState} : st.running = true →
      safeHead cfg p.head = some safe → st.start p safe = .ok (st₁, cursor) → safe < cursor →
      Polled cfg st p { st₁ with nextBlock := some cursor }
  | ended {safe cursor : ℕ} {st₁ st' : LiveState} : st.running = true →
      safeHead cfg p.head = some safe → st.start p safe = .ok (st₁, cursor) → cursor ≤ safe →
      st₁.prepare cfg p cursor = .error st' → Polled cfg st p st'
  | followed {safe cursor c : ℕ} {st₁ st₂ : LiveState} : st.running = true →
      safeHead cfg p.head = some safe → st.start p safe = .ok (st₁, cursor) → cursor ≤ safe →
      st₁.prepare cfg p cursor = .ok (st₂, c) → Polled cfg st p (st₂.indexTo p safe c)

theorem poll_polled (cfg : IngestConfig) (st : LiveState) (p : Poll) :
    Polled cfg st p (st.poll cfg p) := by
  unfold LiveState.poll
  split_ifs with hrun
  swap
  · exact .idle
  cases hsafe : safeHead cfg p.head with
  | none => exact .idle
  | some safe =>
    dsimp only
    cases hstart : st.start p safe with
    | error st₁ => exact .refused hstart
    | ok sc =>
      dsimp only
      split_ifs with hle
      · cases hprep : sc.1.prepare cfg p sc.2 with
        | error st₂ => exact .ended hrun hsafe hstart hle hprep
        | ok sc₂ => exact .followed hrun hsafe hstart hle hprep
      · exact .behind hrun hsafe hstart (by omega)

/-! ## Sessions -/

/-- The blocks that the session has indexed or unwound are classified below `b`. -/
def SessionCovers (st : LiveState) (b : ℕ) : Prop :=
  (∀ s, st.firstIndexed = some s → st.store.Covers s b) ∧ ∀ f ∈ st.forks, st.store.Covers f b

/-- The blocks that the session has indexed or unwound are classified below the block that the
    next poll starts at. Before there is such a block the session has done neither. -/
def Covered (st : LiveState) : Prop :=
  match st.nextBlock with
  | none => st.firstIndexed = none ∧ st.forks = []
  | some next => SessionCovers st next

/-- A poll that unwinds reaches its loop, or ends the session. -/
def KeepsForks (cfg : IngestConfig) (p : Poll) (cursor : ℕ) (st : LiveState) : Prop :=
  maxConsecutiveLiveFailures ≤ st.consecutiveFailures + 1 ∨
    (∀ f, st.tipOutcome cfg p cursor = .forked f → p.tip.unwound = true →
      p.nativePrice = true ∧ (st.unwind f).sweepOutcome cfg p f ≠ .probeFailed) ∧
    (st.tipOutcome cfg p cursor = .noReorg → ∀ f, st.sweepOutcome cfg p cursor = .forked f →
      p.sweep.unwound = true → p.nativePrice = true)

/-- The same for a poll that may not come that far. -/
def PollKeepsForks (cfg : IngestConfig) (st : LiveState) (p : Poll) : Prop :=
  ∀ safe st' cursor, st.running = true → safeHead cfg p.head = some safe →
    st.start p safe = .ok (st', cursor) → cursor ≤ safe → KeepsForks cfg p cursor st'

theorem Covered.of_same (h : Covered st) (hsame : SameSession st st') : Covered st' := by
  unfold Covered at h ⊢
  rw [hsame.nextBlock, hsame.firstIndexed, hsame.forks]
  cases hnext : st.nextBlock with
  | none => rwa [hnext] at h
  | some next =>
    rw [hnext] at h
    unfold SessionCovers at h ⊢
    rwa [hsame.store, hsame.firstIndexed, hsame.forks]

theorem SessionCovers.of_prepared (h : SessionCovers st cursor) (hprep : Prepared st st' cursor c) :
    SessionCovers st' c := by
  have hcovers : ∀ a, st.store.Covers a cursor → st'.store.Covers a c := fun a ha n hn hc =>
    hprep.mem n hc (ha n hn (by have := hprep.le; omega))
  refine ⟨fun s hs => hcovers s (h.1 s (hprep.firstIndexed ▸ hs)), fun f hf => ?_⟩
  rcases hprep.forks f hf with hf | hf
  · exact hcovers f (h.2 f hf)
  · exact fun n hn hc => absurd hn (by omega)

theorem SessionCovers.of_indexed {stop : ℕ} (h : SessionCovers st cursor)
    (hloop : IndexedUpTo st st' cursor stop) : SessionCovers st' stop := by
  have hcovers : ∀ a, st.store.Covers a cursor → st'.store.Covers a stop := fun a ha =>
    SyncStore.Covers.append (fun n hn hc => hloop.grown.subset n (ha n hn hc)) hloop.covers
  refine ⟨fun s hs => ?_, fun f hf => hcovers f (h.2 f (hloop.forks ▸ hf))⟩
  rcases hloop.firstIndexed s hs with hs | hs
  · exact hcovers s (h.1 s hs)
  · exact fun n hn hc => hloop.covers n (by omega) hc

/-- What the loop of a poll and its checkpoint leave. -/
theorem indexTo_covered {safe : ℕ} (h : SessionCovers st cursor) (hle : cursor ≤ safe) :
    (st.indexTo p safe cursor).running = true → Covered (st.indexTo p safe cursor) := by
  unfold LiveState.indexTo
  cases hloop : st.indexFrom p.attempt (safe + 1 - cursor) cursor with
  | mk st₁ done =>
    obtain ⟨stop, -, hindexed, hdone, hfail⟩ := indexFrom_spec hloop
    have hcovers := h.of_indexed hindexed
    cases done with
    | false =>
      intro _
      change Covered st₁
      unfold Covered
      rw [(hfail rfl).1]
      exact hcovers
    | true =>
      change (if p.saved = true then _ else st₁.abort : LiveState).running = true → Covered _
      split_ifs with hsaved
      · intro _
        obtain rfl : stop = safe + 1 := by rw [hdone rfl]; omega
        exact hcovers
      · exact fun hrun => absurd hrun (by simp [LiveState.abort])

/-- A poll that does not lose a fork keeps what the session has indexed. -/
theorem covered_poll (h : st.running = true → Covered st) (hkeep : PollKeepsForks cfg st p) :
    (st.poll cfg p).running = true → Covered (st.poll cfg p) := by
  have hstarted : ∀ {safe st₁ cursor}, st.running = true → st.start p safe = .ok (st₁, cursor) →
      SessionCovers st₁ cursor ∧ Covered st₁ := by
    intro safe st₁ cursor hrun hstart
    have hcov := h hrun
    unfold Covered at hcov ⊢
    rcases start_ok hstart with ⟨hnext, rfl⟩ | ⟨hnone, -, -, rfl⟩
    · rw [hnext] at hcov ⊢
      exact ⟨hcov, hcov⟩
    · rw [hnone] at hcov ⊢
      exact ⟨⟨fun s hs => by simp [hcov.1] at hs, fun f hf => by simp [hcov.2] at hf⟩, hcov⟩
  have hpolled := poll_polled cfg st p
  generalize st.poll cfg p = st' at hpolled ⊢
  cases hpolled with
  | idle => exact h
  | refused hstart =>
    rw [start_error hstart]
    exact fun hrun => absurd hrun (by simp [LiveState.abort])
  | behind hrun hsafe hstart hlt => exact fun _ => (hstarted hrun hstart).1
  | ended hrun hsafe hstart hle hprep =>
    intro hrun₂
    rcases prepare_error hprep with hsame | ⟨hfailures, hlost⟩
    · exact (hstarted hrun hstart).2.of_same hsame
    · -- the poll has unwound a fork and ends, which the condition excludes
      have hlt := hfailures hrun₂
      rcases hkeep _ _ _ hrun hsafe hstart hle with hge | ⟨htip, hsweep⟩
      · omega
      · rcases hlost with ⟨f, hfork, hunwound, hprobe | ⟨-, -, hstop⟩ | hprice⟩ |
          ⟨g, hno, hfork, hunwound, hprice⟩
        · exact absurd hprobe (htip f hfork hunwound).2
        · rw [hstop] at hrun₂
          cases hrun₂
        · rw [(htip f hfork hunwound).1] at hprice
          cases hprice
        · rw [hsweep hno g hfork hunwound] at hprice
          cases hprice
  | followed hrun hsafe hstart hle hprep =>
    have hprepared := prepare_prepared hprep
    exact indexTo_covered ((hstarted hrun hstart).1.of_prepared hprepared)
      (hprepared.le.trans hle)

/-- **Main theorem.** In a session whose polls lose no fork, the blocks that the session has
    indexed or unwound are classified at the start of every poll, below the block that it starts
    at. -/
theorem covered_of_keepsForks (store : SyncStore) (polls : List Poll)
    (h : ∀ pre p, pre ++ [p] <+: polls → PollKeepsForks cfg (runLive cfg store pre) p) :
    ∀ pre, pre <+: polls → (runLive cfg store pre).running = true →
      Covered (runLive cfg store pre) := by
  intro pre
  induction pre using List.reverseRecOn with
  | nil => exact fun _ _ => ⟨rfl, rfl⟩
  | append_singleton pre p ih =>
    intro hpre
    have hstep := covered_poll (ih ((List.prefix_append pre [p]).trans hpre)) (h pre p hpre)
    rwa [runLive, List.foldl_append]

/-- A poll with a price and no sweep loses no fork. -/
theorem pollKeepsForks_of_price (hprice : p.nativePrice = true)
    (hsince : st.sinceReorgCheck + 1 < reorgSweepBlocks) : PollKeepsForks cfg st p := by
  intro safe st₁ cursor _ _ hstart _
  have hcount : st₁.sinceReorgCheck = st.sinceReorgCheck := by
    rcases start_ok hstart with ⟨-, rfl⟩ | ⟨-, -, -, rfl⟩ <;> rfl
  refine .inr ⟨fun f _ _ => ⟨hprice, ?_⟩, fun _ _ _ _ => hprice⟩
  have hnot : ¬ reorgSweepBlocks ≤ (st₁.unwind f).sinceReorgCheck + 1 := by
    change ¬ reorgSweepBlocks ≤ st₁.sinceReorgCheck + 1
    omega
  rw [LiveState.sweepOutcome, if_neg hnot]
  simp

/-- A poll at `head` in which every block is indexed, on a node that serves `hash` for all. -/
def examplePoll (head : ℕ) (hash : B256) (nativePrice : Bool) : Poll :=
  { head := some head, tip := { hashes := fun _ => some hash }, nativePrice,
    attempt := fun _ => .indexed hash }

/-- A node without confirmations. -/
def exampleConfig : IngestConfig := { confirmations := 0, rpcBatchBlocks := 1 }

theorem covered_after_fork :
    Covered (runLive exampleConfig {} [examplePoll 10 1 true, examplePoll 11 2 true]) :=
  covered_of_keepsForks {} ([examplePoll 10 1 true] ++ [examplePoll 11 2 true])
    (forall_prefix_concat.mpr ⟨forall_prefix_concat (l := []).mpr
      ⟨fun pre c h => by simp at h, pollKeepsForks_of_price rfl (by decide)⟩,
      pollKeepsForks_of_price rfl (by decide)⟩) _ List.prefix_rfl (by decide)

/-- Block 10 is unwound in a poll without a price, and block 11 is indexed before it. -/
theorem price_failure_loses_fork :
    (runLive exampleConfig {} [examplePoll 10 1 true, examplePoll 11 2 false]).running = true ∧
      ¬ Covered (runLive exampleConfig {} [examplePoll 10 1 true, examplePoll 11 2 false]) ∧
      (runLive exampleConfig {} [examplePoll 10 1 true, examplePoll 11 2 false,
        examplePoll 11 2 true]).store.classified = {11} := by
  refine ⟨by decide, fun h => ?_, by decide⟩
  have hcovers : SessionCovers
      (runLive exampleConfig {} [examplePoll 10 1 true, examplePoll 11 2 false]) 11 := h
  exact absurd (hcovers.1 10 rfl 10 le_rfl (by decide)) (by decide)

end MevScout.Explorer
