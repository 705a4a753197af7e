import MevScout.Common.Chunks
import MevScout.Common.Map
import MevScout.Explorer.Sync

/-!
# The pipeline of a range call

Model of the loop of `run_range` that fetches chunks of blocks ahead of the block that it
indexes (`core/src/explorer/ingest.rs`, lines 1478–1600). Chunks complete in any order; their
blocks are indexed in the order of the chain, and the blocks of a chunk that is not fetched are
skipped.

Results:
* `Backfill.run_eq`: whatever the order of completion, the pipeline indexes the delivered
  blocks one by one, or fails where indexing one of them fails;
* `Backfill.run_complete`: when indexing succeeds it ends, and skips the failed chunks alone;
* `indexMissing_eq_run`: it is the loop that `indexMissing` describes.
-/

namespace MevScout.Explorer

open Std Map

variable {σ β : Type*}

/-! ## Model -/

/-- What the pipeline works on: the missing blocks in ascending order, the blocks of a POST and
    the POSTs in flight (lines 1435–1438 and 1479), what the node answers for one block and for
    a batch, which of the chunks in flight completes as the `k`-th, and what indexing a block
    makes of a store `σ` (lines 1536–1560), where an error is the store that the call ends
    with. -/
structure Backfill (σ β : Type*) where
  missing : List ℕ
  sorted : missing.Pairwise (· < ·)
  chunk : ℕ
  chunk_pos : 0 < chunk
  posts : ℕ
  posts_pos : 0 < posts
  fetchOne : ℕ → Option β
  fetchBatch : List ℕ → Option (List β)
  pick : ℕ → ℕ
  index : σ → ℕ → β → Except σ σ

/-- The variables of the loop (lines 1429–1434 and 1480–1484). `arrivals` counts the completed
    chunks and `indexed` lists the indexed blocks; no code reads them. The semaphore never
    makes a chunk wait: no more than `posts` are in flight. -/
structure PipeState (σ β : Type*) where
  nextSpawn : ℕ := 0
  nextPersist : ℕ := 0
  inflight : List (List ℕ) := []
  ready : ExtTreeMap ℕ β compare := ∅
  skipped : Finset ℕ := ∅
  store : σ
  arrivals : ℕ := 0
  indexed : List ℕ := []

/-- How the loop ends. -/
inductive PipeEnd (σ β : Type*) where
  | finished (s : PipeState σ β)
  | failed (store : σ)
  | stalled (need : ℕ)

namespace Backfill

variable (b : Backfill σ β)

/-- The rows of a chunk (lines 1500–1515): a batch of another length is an error. -/
def fetchRows (blocks : List ℕ) : Option (List (ℕ × β)) :=
  match blocks with
  | [block] => (b.fetchOne block).map fun bundle => [(block, bundle)]
  | blocks =>
    match b.fetchBatch blocks with
    | none => none
    | some fetched => if fetched.length ≠ blocks.length then none else some (blocks.zip fetched)

/-- Model of `spawn_one` (lines 1485–1526). -/
def spawnOne (s : PipeState σ β) : PipeState σ β :=
  if s.nextSpawn ≥ b.missing.length then s
  else
    let stop := min (s.nextSpawn + b.chunk) b.missing.length
    { s with
      nextSpawn := stop
      inflight := s.inflight ++ [(b.missing.drop s.nextSpawn).take (stop - s.nextSpawn)] }

theorem lt_nextSpawn_spawnOne {s : PipeState σ β} (h : s.nextSpawn < b.missing.length) :
    s.nextSpawn < (b.spawnOne s).nextSpawn ∧ (b.spawnOne s).nextSpawn ≤ b.missing.length := by
  have := b.chunk_pos
  rw [spawnOne, if_neg (by omega)]
  show s.nextSpawn < min (s.nextSpawn + b.chunk) b.missing.length ∧
    min (s.nextSpawn + b.chunk) b.missing.length ≤ b.missing.length
  omega

/-- The loop that spawns chunks until `posts` are in flight (lines 1528–1530, 1564–1566,
    1575–1577 and 1594–1596). -/
def refill (s : PipeState σ β) : PipeState σ β :=
  if s.nextSpawn < b.missing.length ∧ s.inflight.length < b.posts then refill (b.spawnOne s)
  else s
termination_by b.missing.length - s.nextSpawn
decreasing_by
  rename_i h
  have := b.lt_nextSpawn_spawnOne h.1
  omega

/-- A completed chunk (lines 1570–1591). -/
def arrive (s : PipeState σ β) (blocks : List ℕ) : PipeState σ β :=
  match b.fetchRows blocks with
  | some rows => { s with ready := insertAll (fun row => some row.1) Prod.snd s.ready rows }
  | none => { s with skipped := s.skipped ∪ blocks.toFinset }

/-- One turn of the loop (lines 1532–1600). -/
def turn (s : PipeState σ β) : Except (PipeEnd σ β) (PipeState σ β) :=
  match b.missing[s.nextPersist]? with
  | none => .error (.finished s)
  | some need =>
    if need ∈ s.skipped then .ok { s with nextPersist := s.nextPersist + 1 }
    else
      match s.ready[need]? with
      | some bundle =>
        match b.index s.store need bundle with
        | .error store => .error (.failed store)
        | .ok store =>
          .ok (b.refill
            { s with
              ready := s.ready.erase need
              store
              nextPersist := s.nextPersist + 1
              indexed := s.indexed ++ [need] })
      | none =>
        let i := b.pick s.arrivals % s.inflight.length
        match s.inflight[i]? with
        | none => .error (.stalled need)
        | some blocks =>
          .ok (b.refill (b.arrive
            { s with inflight := s.inflight.eraseIdx i, arrivals := s.arrivals + 1 } blocks))

/-- What is left to do: every turn of the loop does some of it. -/
def remaining (s : PipeState σ β) : ℕ :=
  (b.missing.length - s.nextPersist) + 2 * (b.missing.length - s.nextSpawn) + s.inflight.length

theorem remaining_refill (s : PipeState σ β) : b.remaining (b.refill s) ≤ b.remaining s := by
  induction s using refill.induct b with
  | case1 s h ih =>
    rw [refill, if_pos h]
    refine ih.trans ?_
    have hspawn := b.lt_nextSpawn_spawnOne h.1
    have hlen : (b.spawnOne s).inflight.length = s.inflight.length + 1 := by
      rw [spawnOne, if_neg (by omega)]
      simp
    have hpersist : (b.spawnOne s).nextPersist = s.nextPersist := by
      rw [spawnOne, if_neg (by omega)]
    unfold remaining
    omega
  | case2 s h => rw [refill, if_neg h]

theorem remaining_arrive (s : PipeState σ β) (blocks : List ℕ) :
    b.remaining (b.arrive s blocks) = b.remaining s := by
  unfold arrive
  cases b.fetchRows blocks <;> rfl

/-- What a turn does: it ends the loop, passes a skipped block, indexes the row that is ready, or
    takes up what arrives. -/
theorem turn_cases (s : PipeState σ β) :
    (b.missing[s.nextPersist]? = none ∧ b.turn s = .error (.finished s)) ∨
    ∃ need, b.missing[s.nextPersist]? = some need ∧
      ((need ∈ s.skipped ∧ b.turn s = .ok { s with nextPersist := s.nextPersist + 1 }) ∨
      (∃ bundle store, s.ready[need]? = some bundle ∧
        b.index s.store need bundle = .error store ∧ b.turn s = .error (.failed store)) ∨
      (∃ bundle store, s.ready[need]? = some bundle ∧ b.index s.store need bundle = .ok store ∧
        b.turn s = .ok (b.refill
          { s with
            ready := s.ready.erase need
            store
            nextPersist := s.nextPersist + 1
            indexed := s.indexed ++ [need] })) ∨
      (need ∉ s.skipped ∧ s.ready[need]? = none ∧
        s.inflight[b.pick s.arrivals % s.inflight.length]? = none ∧
        b.turn s = .error (.stalled need)) ∨
      ∃ blocks, s.inflight[b.pick s.arrivals % s.inflight.length]? = some blocks ∧
        b.turn s = .ok (b.refill (b.arrive
          { s with
            inflight := s.inflight.eraseIdx (b.pick s.arrivals % s.inflight.length)
            arrivals := s.arrivals + 1 } blocks))) := by
  unfold turn
  cases b.missing[s.nextPersist]? with
  | none => exact .inl ⟨rfl, rfl⟩
  | some need =>
    refine .inr ⟨need, rfl, ?_⟩
    dsimp only
    by_cases hskipped : need ∈ s.skipped
    · rw [if_pos hskipped]
      exact .inl ⟨hskipped, rfl⟩
    rw [if_neg hskipped]
    cases s.ready[need]? with
    | some bundle =>
      dsimp only
      cases hindex : b.index s.store need bundle with
      | error store => exact .inr (.inl ⟨bundle, store, rfl, hindex, rfl⟩)
      | ok store => exact .inr (.inr (.inl ⟨bundle, store, rfl, hindex, rfl⟩))
    | none =>
      dsimp only
      cases s.inflight[b.pick s.arrivals % s.inflight.length]? with
      | none => exact .inr (.inr (.inr (.inl ⟨hskipped, rfl, rfl, rfl⟩)))
      | some blocks => exact .inr (.inr (.inr (.inr ⟨blocks, rfl, rfl⟩)))

theorem remaining_turn {s s' : PipeState σ β} (h : b.turn s = .ok s') :
    b.remaining s' < b.remaining s := by
  rcases b.turn_cases s with ⟨-, hturn⟩ | ⟨need, hneed, ⟨-, hturn⟩ | ⟨bundle, store, -, -, hturn⟩ |
    ⟨bundle, store, -, -, hturn⟩ | ⟨-, -, -, hturn⟩ | ⟨blocks, hblocks, hturn⟩⟩
  all_goals
    rw [hturn] at h
    cases h
  · have hlt := (List.getElem?_eq_some_iff.mp hneed).1
    show (b.missing.length - (s.nextPersist + 1)) + 2 * (b.missing.length - s.nextSpawn) +
      s.inflight.length < b.remaining s
    unfold remaining
    omega
  · have hlt := (List.getElem?_eq_some_iff.mp hneed).1
    refine (b.remaining_refill _).trans_lt ?_
    show (b.missing.length - (s.nextPersist + 1)) + 2 * (b.missing.length - s.nextSpawn) +
      s.inflight.length < b.remaining s
    unfold remaining
    omega
  · refine (b.remaining_refill _).trans_lt ?_
    rw [remaining_arrive]
    have hidx := (List.getElem?_eq_some_iff.mp hblocks).1
    have herase := List.length_eraseIdx_of_lt hidx
    show (b.missing.length - s.nextPersist) + 2 * (b.missing.length - s.nextSpawn) +
      (s.inflight.eraseIdx _).length < b.remaining s
    unfold remaining
    omega

/-- The loop (lines 1532–1600). -/
def run (s : PipeState σ β) : PipeEnd σ β :=
  match _ : b.turn s with
  | .error e => e
  | .ok s' => run s'
termination_by b.remaining s
decreasing_by exact b.remaining_turn ‹_›

/-- The state before the loop (lines 1480–1530). -/
def start (store : σ) : PipeState σ β := b.refill { store }

/-! ## What the fetches deliver -/

/-- The chunks that the missing blocks are cut into. -/
def chunks : List (List ℕ) := chunksOf b.chunk b.missing

/-- The blocks of the chunks that are not fetched. -/
def failedBlocks : List ℕ := (b.chunks.filter fun c => (b.fetchRows c).isNone).flatten

/-- The blocks of the chunks that are fetched, with what was fetched for them. -/
def delivered : List (ℕ × β) := b.chunks.flatMap fun c => (b.fetchRows c).getD []

/-- Rows indexed one by one. -/
def indexRows (st : σ) (rows : List (ℕ × β)) : Except σ σ :=
  rows.foldlM (fun st row => b.index st row.1 row.2) st

theorem indexRows_append {st st' : σ} {done : List (ℕ × β)} (h : b.indexRows st done = .ok st')
    (rows : List (ℕ × β)) : b.indexRows st (done ++ rows) = b.indexRows st' rows := by
  unfold indexRows at h ⊢
  rw [List.foldlM_append, h]
  rfl

theorem nodup_missing : b.missing.Nodup := b.sorted.imp Nat.ne_of_lt

theorem fetchRows_keys {blocks : List ℕ} {rows : List (ℕ × β)}
    (h : b.fetchRows blocks = some rows) : rows.map Prod.fst = blocks := by
  unfold fetchRows at h
  split at h
  · obtain ⟨bundle, -, rfl⟩ := Option.map_eq_some_iff.mp h
    rfl
  · cases hfetch : b.fetchBatch blocks with
    | none =>
      rw [hfetch] at h
      cases h
    | some fetched =>
      rw [hfetch] at h
      dsimp only at h
      split_ifs at h with hlen
      obtain rfl := Option.some.inj h
      exact List.map_fst_zip (not_not.mp hlen).ge

theorem mem_failedBlocks_iff {blocks : List ℕ} (hc : blocks ∈ b.chunks) {block : ℕ}
    (hblock : block ∈ blocks) : block ∈ b.failedBlocks ↔ b.fetchRows blocks = none := by
  unfold failedBlocks
  rw [List.mem_flatten]
  constructor
  · rintro ⟨c, hfailed, hmem⟩
    obtain ⟨hcc, hnone⟩ := List.mem_filter.mp hfailed
    rw [eq_of_mem_chunksOf b.nodup_missing hc hcc hblock hmem]
    exact Option.isNone_iff_eq_none.mp hnone
  · intro hnone
    exact ⟨blocks, List.mem_filter.mpr ⟨hc, Option.isNone_iff_eq_none.mpr hnone⟩, hblock⟩

theorem mem_missing_of_mem_failedBlocks {block : ℕ} (h : block ∈ b.failedBlocks) :
    block ∈ b.missing := by
  obtain ⟨c, hc, hblock⟩ := List.mem_flatten.mp h
  exact mem_of_mem_chunksOf (List.mem_filter.mp hc).1 hblock

/-- The delivered blocks are the missing ones outside the failed chunks, in their order. -/
theorem delivered_keys :
    b.delivered.map Prod.fst = b.missing.filter fun block => block ∉ b.failedBlocks := by
  have hmissing : b.missing = b.chunks.flatten := (chunksOf_flatten _ _).symm
  rw [delivered, List.map_flatMap]
  conv_rhs => rw [hmissing, List.filter_flatten]
  rw [← List.flatMap_def]
  refine List.flatMap_congr fun c hc => ?_
  cases hrows : b.fetchRows c with
  | none =>
    symm
    refine List.filter_eq_nil_iff.mpr fun block hblock => ?_
    simpa using (b.mem_failedBlocks_iff hc hblock).mpr hrows
  | some rows =>
    rw [Option.getD_some, b.fetchRows_keys hrows]
    symm
    refine List.filter_eq_self.mpr fun block hblock => ?_
    have := (b.mem_failedBlocks_iff hc hblock).not.mpr (by rw [hrows]; simp)
    simpa using this

theorem mem_delivered {blocks : List ℕ} {rows : List (ℕ × β)} (hc : blocks ∈ b.chunks)
    (h : b.fetchRows blocks = some rows) {row : ℕ × β} (hrow : row ∈ rows) :
    row ∈ b.delivered :=
  List.mem_flatMap.mpr ⟨blocks, hc, by rw [h]; exact hrow⟩

/-! ## The invariant of the loop -/

/-- What holds before every turn of a loop that started from the store `st`. Every block that
    was spawned and not yet passed is skipped, ready or in flight. -/
structure Inv (st : σ) (s : PipeState σ β) : Prop where
  inflight : ∀ c ∈ s.inflight, c ∈ b.chunks
  rest : ∀ c ∈ chunksOf b.chunk (b.missing.drop s.nextSpawn), c ∈ b.chunks
  ready : ∀ block bundle, s.ready[block]? = some bundle → (block, bundle) ∈ b.delivered
  skipped : ∀ block ∈ s.skipped, block ∈ b.failedBlocks
  passed : ∀ block ∈ b.missing.take s.nextPersist, block ∈ b.failedBlocks → block ∈ s.skipped
  spawned : ∀ p block, s.nextPersist ≤ p → p < s.nextSpawn → b.missing[p]? = some block →
    block ∈ s.skipped ∨ s.ready[block]?.isSome ∨ ∃ c ∈ s.inflight, block ∈ c
  order : s.indexed = (b.missing.take s.nextPersist).filter fun block => block ∉ b.failedBlocks
  progress : ∃ done rest, b.delivered = done ++ rest ∧ done.map Prod.fst = s.indexed ∧
    b.indexRows st done = .ok s.store

/-- No more chunks can be spawned. -/
def Full (s : PipeState σ β) : Prop :=
  s.inflight.length < b.posts → b.missing.length ≤ s.nextSpawn

variable {b} {st : σ} {s : PipeState σ β}

theorem Inv.start (b : Backfill σ β) (st : σ) : b.Inv st { store := st } where
  inflight := by simp
  rest c hc := by simpa [chunks] using hc
  ready block bundle h := by simp at h
  skipped := by simp
  passed := by simp
  spawned p block _ hp := by
    have : p < 0 := hp
    omega
  order := by simp
  progress := ⟨[], b.delivered, rfl, rfl, rfl⟩

theorem Inv.spawnOne (h : b.Inv st s) (hlt : s.nextSpawn < b.missing.length) :
    b.Inv st (b.spawnOne s) := by
  have hchunk := b.chunk_pos
  set stop := min (s.nextSpawn + b.chunk) b.missing.length with hstop
  set c := (b.missing.drop s.nextSpawn).take (stop - s.nextSpawn) with hc
  have heq : b.spawnOne s = { s with nextSpawn := stop, inflight := s.inflight ++ [c] } := by
    rw [Backfill.spawnOne, if_neg (by omega)]
  -- the chunk that is spawned is the first one of the blocks that are left
  have hne : b.missing.drop s.nextSpawn ≠ [] := by
    rw [Ne, List.drop_eq_nil_iff]
    omega
  have hcut : chunksOf b.chunk (b.missing.drop s.nextSpawn) =
      c :: chunksOf b.chunk (b.missing.drop stop) := by
    rw [chunksOf_of_ne_nil hchunk hne, List.drop_drop]
    rcases Nat.lt_or_ge b.missing.length (s.nextSpawn + b.chunk) with hover | hfit
    · have hlen : (b.missing.drop s.nextSpawn).length ≤ b.chunk := by
        rw [List.length_drop]
        omega
      have hlen' : (b.missing.drop s.nextSpawn).length ≤ stop - s.nextSpawn := by
        rw [List.length_drop]
        omega
      have hend : b.missing.length ≤ stop := by omega
      rw [hc, List.take_of_length_le hlen, List.take_of_length_le hlen',
        List.drop_of_length_le hover.le, List.drop_of_length_le hend]
    · rw [hc, show stop = s.nextSpawn + b.chunk by omega, Nat.add_sub_cancel_left]
  rw [heq]
  refine { h with
    inflight := fun d hd => ?_
    rest := fun d hd => h.rest d (hcut ▸ List.mem_cons_of_mem _ hd)
    spawned := fun p block hp hpstop hblock => ?_ }
  · rcases List.mem_append.mp hd with hd | hd
    · exact h.inflight d hd
    · rw [List.mem_singleton.mp hd]
      exact h.rest c (hcut ▸ List.mem_cons_self)
  · change s.nextPersist ≤ p at hp
    change p < stop at hpstop
    rcases Nat.lt_or_ge p s.nextSpawn with hbefore | hafter
    · rcases h.spawned p block hp hbefore hblock with h1 | h2 | ⟨d, hd, hmem⟩
      · exact Or.inl h1
      · exact Or.inr (Or.inl h2)
      · exact Or.inr (Or.inr ⟨d, List.mem_append_left _ hd, hmem⟩)
    · refine Or.inr (Or.inr ⟨c, List.mem_append_right _ (List.mem_singleton_self c), ?_⟩)
      refine List.mem_of_getElem? (i := p - s.nextSpawn) ?_
      rw [hc, List.getElem?_take_of_lt (by omega), List.getElem?_drop,
        show s.nextSpawn + (p - s.nextSpawn) = p by omega]
      exact hblock

theorem Inv.refill (h : b.Inv st s) : b.Inv st (b.refill s) ∧ b.Full (b.refill s) := by
  induction s using refill.induct b with
  | case1 s hroom ih =>
    rw [Backfill.refill, if_pos hroom]
    exact ih (h.spawnOne hroom.1)
  | case2 s hfull =>
    rw [Backfill.refill, if_neg hfull]
    exact ⟨h, fun hlt => by omega⟩

theorem Inv.arrive (h : b.Inv st s) {i : ℕ} {blocks : List ℕ} (hi : s.inflight[i]? = some blocks)
    (k : ℕ) : b.Inv st (b.arrive { s with inflight := s.inflight.eraseIdx i, arrivals := k }
      blocks) := by
  have hblocks : blocks ∈ b.chunks := h.inflight blocks (List.mem_of_getElem? hi)
  have hrest : ∀ c ∈ s.inflight, c = blocks ∨ c ∈ s.inflight.eraseIdx i := by
    intro c hc
    obtain ⟨hlt, hget⟩ := List.getElem?_eq_some_iff.mp hi
    have := (List.getElem_cons_eraseIdx_perm hlt).mem_iff.mpr hc
    rw [hget] at this
    exact List.mem_cons.mp this
  have herase : ∀ c ∈ s.inflight.eraseIdx i, c ∈ b.chunks :=
    fun c hc => h.inflight c (List.mem_of_mem_eraseIdx hc)
  unfold Backfill.arrive
  cases hrows : b.fetchRows blocks with
  | some rows =>
    refine { h with inflight := herase, ready := ?_, spawned := ?_ }
    · intro block bundle hget
      rcases mem_of_getElem?_insertAll _ _ hget with ⟨row, hrow, hkey, hval⟩ | hold
      · have : row = (block, bundle) := Prod.ext (Option.some.inj hkey) hval.symm
        exact this ▸ b.mem_delivered hblocks hrows hrow
      · exact h.ready block bundle hold
    · intro p block hp hps hblock
      rcases h.spawned p block hp hps hblock with h1 | h2 | ⟨c, hc, hmem⟩
      · exact Or.inl h1
      · refine Or.inr (Or.inl ?_)
        show (insertAll _ _ s.ready rows)[block]?.isSome
        rw [getElem?_insertAll, Option.isSome_or, h2, Bool.or_true]
      · rcases hrest c hc with rfl | hc
        · refine Or.inr (Or.inl ?_)
          rw [← b.fetchRows_keys hrows] at hmem
          obtain ⟨row, hrow, rfl⟩ := List.mem_map.mp hmem
          obtain ⟨row', -, -, hget⟩ := exists_getElem?_insertAll (fun row : ℕ × β => some row.1)
            Prod.snd s.ready ⟨row, hrow, rfl⟩
          show (insertAll _ _ s.ready rows)[row.1]?.isSome
          rw [hget]
          rfl
        · exact Or.inr (Or.inr ⟨c, hc, hmem⟩)
  | none =>
    refine { h with inflight := herase, skipped := ?_, passed := ?_, spawned := ?_ }
    · intro block hblock
      rcases Finset.mem_union.mp hblock with hold | hnew
      · exact h.skipped block hold
      · exact (b.mem_failedBlocks_iff hblocks (List.mem_toFinset.mp hnew)).mpr hrows
    · exact fun block hblock hfailed => Finset.mem_union_left _ (h.passed block hblock hfailed)
    · intro p block hp hps hblock
      rcases h.spawned p block hp hps hblock with h1 | h2 | ⟨c, hc, hmem⟩
      · exact Or.inl (Finset.mem_union_left _ h1)
      · exact Or.inr (Or.inl h2)
      · rcases hrest c hc with rfl | hc
        · exact Or.inl (Finset.mem_union_right _ (List.mem_toFinset.mpr hmem))
        · exact Or.inr (Or.inr ⟨c, hc, hmem⟩)

/-- A row that is ready for the block that the loop needs is the next one of the delivered
    rows. -/
theorem Inv.next_row (h : b.Inv st s) {need : ℕ} {bundle : β}
    (hneed : b.missing[s.nextPersist]? = some need) (hready : s.ready[need]? = some bundle) :
    need ∉ b.failedBlocks ∧ ∃ done rest, b.delivered = done ++ (need, bundle) :: rest ∧
      done.map Prod.fst = s.indexed ∧
      b.indexRows st done = .ok s.store := by
  have hrow := h.ready need bundle hready
  have hkeys := b.delivered_keys
  have hnodup : (b.delivered.map Prod.fst).Nodup := by
    rw [hkeys]
    exact b.nodup_missing.filter _
  have hok : need ∉ b.failedBlocks := by
    have : need ∈ b.delivered.map Prod.fst := List.mem_map.mpr ⟨_, hrow, rfl⟩
    rw [hkeys] at this
    exact of_decide_eq_true (List.mem_filter.mp this).2
  refine ⟨hok, ?_⟩
  obtain ⟨done, rest, happend, hdone, hfold⟩ := h.progress
  obtain ⟨hlt, hget⟩ := List.getElem?_eq_some_iff.mp hneed
  have hrest : rest.map Prod.fst = need ::
      (b.missing.drop (s.nextPersist + 1)).filter fun block => block ∉ b.failedBlocks := by
    have hsplit : b.missing = b.missing.take s.nextPersist ++ b.missing.drop s.nextPersist :=
      (List.take_append_drop _ _).symm
    rw [happend, List.map_append, hdone, h.order] at hkeys
    conv_rhs at hkeys => rw [hsplit]
    rw [List.filter_append, List.append_cancel_left_eq, List.drop_eq_getElem_cons hlt, hget,
      List.filter_cons_of_pos (by simpa using hok)] at hkeys
    exact hkeys
  obtain ⟨row, rest', rfl, hrowkey, -⟩ := List.map_eq_cons_iff.mp hrest
  have hmem : row ∈ b.delivered := by
    rw [happend]
    exact List.mem_append_right _ List.mem_cons_self
  have : row = (need, bundle) := List.inj_on_of_nodup_map hnodup hmem hrow hrowkey
  exact ⟨done, rest', this ▸ happend, hdone, hfold⟩

/-- The loop never waits for a block that no fetch in flight can bring. -/
theorem Inv.not_stalled (h : b.Inv st s) (hfull : b.Full s) {need : ℕ}
    (hneed : b.missing[s.nextPersist]? = some need) (hskipped : need ∉ s.skipped)
    (hready : s.ready[need]? = none) : s.inflight ≠ [] := by
  intro hnil
  have hposts := b.posts_pos
  obtain ⟨hlt, -⟩ := List.getElem?_eq_some_iff.mp hneed
  have hspawned : b.missing.length ≤ s.nextSpawn := hfull (by rw [hnil]; exact hposts)
  rcases h.spawned s.nextPersist need le_rfl (by omega) hneed with h1 | h2 | ⟨c, hc, -⟩
  · exact hskipped h1
  · rw [hready] at h2
    cases h2
  · rw [hnil] at hc
    exact List.not_mem_nil hc

/-- The blocks before the next position, one further. -/
theorem take_succ_missing {p need : ℕ} (hneed : b.missing[p]? = some need) :
    b.missing.take (p + 1) = b.missing.take p ++ [need] := by
  obtain ⟨hlt, hget⟩ := List.getElem?_eq_some_iff.mp hneed
  rw [List.take_succ_eq_append_getElem hlt, hget]

/-- A turn that passes a skipped block keeps the invariant. -/
theorem Inv.skip (h : b.Inv st s) {need : ℕ} (hneed : b.missing[s.nextPersist]? = some need)
    (hskipped : need ∈ s.skipped) : b.Inv st { s with nextPersist := s.nextPersist + 1 } := by
  have hfailed := h.skipped need hskipped
  refine { h with passed := ?_, spawned := ?_, order := ?_ }
  · intro block hblock hb
    change block ∈ b.missing.take (s.nextPersist + 1) at hblock
    rw [take_succ_missing hneed] at hblock
    rcases List.mem_append.mp hblock with hold | hnew
    · exact h.passed block hold hb
    · rw [List.mem_singleton.mp hnew]
      exact hskipped
  · intro p block hp
    exact h.spawned p block ((Nat.le_succ _).trans hp)
  · show s.indexed = (b.missing.take (s.nextPersist + 1)).filter _
    rw [take_succ_missing hneed, List.filter_append, ← h.order,
      List.filter_cons_of_neg (by simpa using hfailed)]
    simp

/-- A turn that indexes the row that is ready keeps the invariant. -/
theorem Inv.persist (h : b.Inv st s) {need : ℕ} {bundle : β} {store : σ}
    (hneed : b.missing[s.nextPersist]? = some need) (hready : s.ready[need]? = some bundle)
    (hindex : b.index s.store need bundle = .ok store) :
    b.Inv st { s with
      ready := s.ready.erase need
      store
      nextPersist := s.nextPersist + 1
      indexed := s.indexed ++ [need] } := by
  obtain ⟨hok, done, rest, happend, hdone, hfold⟩ := h.next_row hneed hready
  obtain ⟨hlt, -⟩ := List.getElem?_eq_some_iff.mp hneed
  refine { h with ready := ?_, passed := ?_, spawned := ?_, order := ?_, progress := ?_ }
  · intro block bundle' hb
    change (s.ready.erase need)[block]? = some bundle' at hb
    rw [getElem?_erase_eq] at hb
    split_ifs at hb
    exact h.ready block bundle' hb
  · intro block hblock hb
    change block ∈ b.missing.take (s.nextPersist + 1) at hblock
    rw [take_succ_missing hneed] at hblock
    rcases List.mem_append.mp hblock with hold | hnew
    · exact h.passed block hold hb
    · rw [List.mem_singleton.mp hnew] at hb
      exact absurd hb hok
  · intro p block hp hps hblock
    change s.nextPersist + 1 ≤ p at hp
    rcases h.spawned p block (by omega) hps hblock with h1 | h2 | h3
    · exact Or.inl h1
    · refine Or.inr (Or.inl ?_)
      show (s.ready.erase need)[block]?.isSome
      have hne : need ≠ block := by
        intro heq
        have := (List.getElem?_inj hlt b.nodup_missing).mp
          (hneed.trans ((congrArg some heq).trans hblock.symm))
        omega
      rw [getElem?_erase_eq, if_neg hne]
      exact h2
    · exact Or.inr (Or.inr h3)
  · show s.indexed ++ [need] = (b.missing.take (s.nextPersist + 1)).filter _
    rw [take_succ_missing hneed, List.filter_append, ← h.order,
      List.filter_cons_of_pos (by simpa using hok), List.filter_nil]
  · refine ⟨done ++ [(need, bundle)], rest, by simp [happend], by simp [hdone], ?_⟩
    rw [b.indexRows_append hfold, indexRows, List.foldlM_cons, hindex]
    rfl

/-- What one turn keeps, and how the loop may end. -/
theorem Inv.turn (h : b.Inv st s) (hfull : b.Full s) :
    match b.turn s with
    | .ok s' => b.Inv st s' ∧ b.Full s'
    | .error (.finished s') => s' = s ∧ b.missing.length ≤ s.nextPersist
    | .error (.failed store) => b.indexRows st b.delivered = .error store
    | .error (.stalled _) => False := by
  rcases b.turn_cases s with ⟨hneed, hturn⟩ | ⟨need, hneed, ⟨hskipped, hturn⟩ |
    ⟨bundle, store, hready, hindex, hturn⟩ | ⟨bundle, store, hready, hindex, hturn⟩ |
    ⟨hskipped, hready, hnone, hturn⟩ | ⟨blocks, hblocks, hturn⟩⟩
  all_goals rw [hturn]
  · exact ⟨rfl, List.getElem?_eq_none_iff.mp hneed⟩
  · exact ⟨h.skip hneed hskipped, hfull⟩
  · obtain ⟨-, done, rest, happend, -, hfold⟩ := h.next_row hneed hready
    show b.indexRows st b.delivered = .error store
    rw [happend, b.indexRows_append hfold, indexRows, List.foldlM_cons, hindex]
    rfl
  · exact (h.persist hneed hready hindex).refill
  · have hne := h.not_stalled hfull hneed hskipped hready
    have hmod := Nat.mod_lt (b.pick s.arrivals) (List.length_pos_of_ne_nil hne)
    rw [List.getElem?_eq_getElem hmod] at hnone
    cases hnone
  · exact (h.arrive hblocks _).refill

/-! ## Runs -/

/-- How the loop ends from a state of its invariant. -/
theorem Inv.run (h : b.Inv st s) (hfull : b.Full s) :
    match b.run s with
    | .finished s' => b.Inv st s' ∧ b.missing.length ≤ s'.nextPersist
    | .failed store => b.indexRows st b.delivered = .error store
    | .stalled _ => False := by
  induction s using run.induct b with
  | case1 s e hturn =>
    have hspec := h.turn hfull
    rw [hturn] at hspec
    have hrun : b.run s = e := by
      rw [Backfill.run]
      split
      · rename_i e' he'
        exact Except.error.inj (he'.symm.trans hturn)
      · rename_i s' hs'
        rw [hturn] at hs'
        cases hs'
    rw [hrun]
    cases e with
    | finished s' =>
      obtain ⟨rfl, hend⟩ := hspec
      exact ⟨h, hend⟩
    | failed store => exact hspec
    | stalled need => exact hspec
  | case2 s s' hturn ih =>
    have hspec := h.turn hfull
    rw [hturn] at hspec
    have hrun : b.run s = b.run s' := by
      conv_lhs => rw [Backfill.run]
      split
      · rename_i e he
        rw [hturn] at he
        cases he
      · rename_i s'' hs''
        rw [Except.ok.inj (hs''.symm.trans hturn)]
    rw [hrun]
    exact ih hspec.1 hspec.2

/-- What a finished loop leaves. -/
theorem Inv.finished (h : b.Inv st s) (hend : b.missing.length ≤ s.nextPersist) :
    b.indexRows st b.delivered = .ok s.store ∧
      s.indexed = b.missing.filter (fun block => block ∉ b.failedBlocks) ∧
      s.skipped = b.failedBlocks.toFinset := by
  have horder := h.order
  rw [List.take_of_length_le hend] at horder
  refine ⟨?_, horder, ?_⟩
  · obtain ⟨done, rest, happend, hdone, hfold⟩ := h.progress
    have hlen := congrArg List.length (b.delivered_keys.trans horder.symm)
    rw [happend, List.map_append, hdone, List.length_append] at hlen
    have hrest : rest = [] := by
      have hzero : (rest.map Prod.fst).length = 0 := by omega
      rwa [List.length_map, List.length_eq_zero_iff] at hzero
    rw [happend, hrest, List.append_nil]
    exact hfold
  · ext block
    rw [List.mem_toFinset]
    refine ⟨h.skipped block, fun hfailed => h.passed block ?_ hfailed⟩
    rw [List.take_of_length_le hend]
    exact b.mem_missing_of_mem_failedBlocks hfailed

/-- **Whatever the order in which the chunks complete, the pipeline indexes the delivered
    blocks one by one**, and it ends with an error only where indexing one of them fails. -/
theorem run_eq (b : Backfill σ β) (st : σ) :
    match b.indexRows st b.delivered with
    | .ok st' => ∃ s, b.run (b.start st) = .finished s ∧ s.store = st' ∧
        s.indexed = b.missing.filter (fun block => block ∉ b.failedBlocks) ∧
        s.skipped = b.failedBlocks.toFinset
    | .error st' => b.run (b.start st) = .failed st' := by
  obtain ⟨hinv, hfull⟩ := (Inv.start b st).refill
  have hrun := hinv.run hfull
  change match b.run (b.start st) with
    | .finished s' => b.Inv st s' ∧ b.missing.length ≤ s'.nextPersist
    | .failed store => b.indexRows st b.delivered = .error store
    | .stalled _ => False at hrun
  cases hend : b.run (b.start st) with
  | finished s =>
    rw [hend] at hrun
    obtain ⟨hstore, hindexed, hskipped⟩ := hrun.1.finished hrun.2
    rw [hstore]
    exact ⟨s, rfl, rfl, hindexed, hskipped⟩
  | failed store =>
    rw [hend] at hrun
    rw [show b.indexRows st b.delivered = .error store from hrun]
  | stalled need =>
    rw [hend] at hrun
    exact hrun.elim

theorem indexRows_ok (hindex : ∀ st block bundle, ∃ st', b.index st block bundle = .ok st')
    (rows : List (ℕ × β)) (st : σ) : ∃ st', b.indexRows st rows = .ok st' := by
  induction rows generalizing st with
  | nil => exact ⟨st, rfl⟩
  | cons row rows ih =>
    obtain ⟨st', hst'⟩ := hindex st row.1 row.2
    obtain ⟨st'', hst''⟩ := ih st'
    refine ⟨st'', ?_⟩
    rw [indexRows, List.foldlM_cons, hst']
    exact hst''

/-- **Main theorem.** When indexing succeeds, the pipeline ends for every order of completion.
    It has then indexed the missing blocks outside the failed chunks, once and in ascending
    order, and it reports the blocks of the failed chunks. -/
theorem run_complete (b : Backfill σ β)
    (hindex : ∀ st block bundle, ∃ st', b.index st block bundle = .ok st') (st : σ) :
    ∃ s, b.run (b.start st) = .finished s ∧
      s.indexed = b.missing.filter (fun block => block ∉ b.failedBlocks) ∧
      s.indexed.Pairwise (· < ·) ∧ b.indexRows st b.delivered = .ok s.store ∧
      s.skipped = b.failedBlocks.toFinset := by
  obtain ⟨st', hst'⟩ := b.indexRows_ok hindex b.delivered st
  have hrun := b.run_eq st
  rw [hst'] at hrun
  obtain ⟨s, hs, rfl, hindexed, hskipped⟩ := hrun
  refine ⟨s, hs, hindexed, ?_, hst', hskipped⟩
  rw [hindexed]
  exact b.sorted.filter _

/-- Five missing blocks in chunks of two, of which the second is not fetched and the chunks
    complete in turns. -/
def gapBackfill : Backfill (List (ℕ × ℕ)) ℕ where
  missing := [3, 5, 8, 9, 12]
  sorted := by decide
  chunk := 2
  chunk_pos := by decide
  posts := 2
  posts_pos := by decide
  fetchOne block := some (10 * block)
  fetchBatch blocks := if 8 ∈ blocks then none else some (blocks.map (10 * ·))
  pick k := k
  index st block bundle := .ok (st ++ [(block, bundle)])

theorem gapBackfill_failedBlocks : gapBackfill.failedBlocks = [8, 9] := by
  simp [failedBlocks, chunks, gapBackfill, chunksOf, fetchRows]

theorem run_complete_gap : ∃ s, gapBackfill.run (gapBackfill.start []) = .finished s ∧
    s.indexed = [3, 5, 12] ∧ s.skipped = {8, 9} := by
  obtain ⟨s, hs, hindexed, -, -, hskipped⟩ :=
    gapBackfill.run_complete (fun _ _ _ => ⟨_, rfl⟩) []
  rw [gapBackfill_failedBlocks] at hindexed hskipped
  exact ⟨s, hs, hindexed, hskipped⟩

end Backfill

/-! ## The pipeline of a range call -/

/-- The missing blocks are listed in ascending order. -/
theorem SyncStore.pairwise_unclassifiedBlocks (st : SyncStore) (start stop : ℕ) :
    (st.unclassifiedBlocks start stop).Pairwise (· < ·) :=
  (List.pairwise_lt_range' ..).filter _

/-- The pipeline that a range call with concurrency starts (lines 1435–1438 and 1479). What is
    fetched for a block only matters for how indexing it ends, which `attempt` says. -/
def RangeEnv.backfill (cfg : IngestConfig) (env : RangeEnv) (req : RangeRequest)
    (missing : List ℕ) (sorted : missing.Pairwise (· < ·)) (hcap : 1 < req.cap missing)
    (pick : ℕ → ℕ) : Backfill SyncStore Unit where
  missing := missing
  sorted := sorted
  chunk := min (max cfg.rpcBatchBlocks 1) (req.cap missing)
  chunk_pos := by omega
  posts := max (req.cap missing / min (max cfg.rpcBatchBlocks 1) (req.cap missing)) 1
  posts_pos := by omega
  fetchOne block := if env.fetched [block] then some () else none
  fetchBatch blocks := if env.fetched blocks then some (blocks.map fun _ => ()) else none
  pick := pick
  index st block _ := indexPipelined env req.fromBlock [] st block

section

variable {cfg : IngestConfig} {env : RangeEnv} {req : RangeRequest} {missing : List ℕ}
  {sorted : missing.Pairwise (· < ·)} {hcap : 1 < req.cap missing} {pick : ℕ → ℕ}

theorem RangeEnv.backfill_fetchRows (blocks : List ℕ) :
    ((env.backfill cfg req missing sorted hcap pick).fetchRows blocks).isNone =
      !env.fetched blocks := by
  unfold Backfill.fetchRows RangeEnv.backfill
  dsimp only
  split
  · cases env.fetched _ <;> rfl
  · cases env.fetched blocks
    · rfl
    · simp

theorem RangeEnv.backfill_failedBlocks :
    (env.backfill cfg req missing sorted hcap pick).failedBlocks =
      env.skipped cfg (req.cap missing) missing := by
  have hchunk := (env.backfill cfg req missing sorted hcap pick).chunk_pos
  unfold Backfill.failedBlocks Backfill.chunks RangeEnv.skipped
  rw [toChunks_eq (n := min (max cfg.rpcBatchBlocks 1) (req.cap missing)) hchunk]
  congr 1
  exact List.filter_congr fun c _ => env.backfill_fetchRows c

theorem indexPipelined_of_not_mem {skipped : List ℕ} {block : ℕ} (h : block ∉ skipped)
    (fromBlock : ℕ) (st : SyncStore) :
    indexPipelined env fromBlock skipped st block = indexPipelined env fromBlock [] st block := by
  unfold indexPipelined
  rw [if_neg h, if_neg List.not_mem_nil]

/-- Skipping blocks one by one is leaving them out. -/
theorem foldlM_indexPipelined (fromBlock : ℕ) (skipped blocks : List ℕ) (st : SyncStore) :
    blocks.foldlM (indexPipelined env fromBlock skipped) st =
      (blocks.filter fun block => block ∉ skipped).foldlM (indexPipelined env fromBlock []) st := by
  induction blocks generalizing st with
  | nil => rfl
  | cons block blocks ih =>
    rw [List.foldlM_cons]
    by_cases hmem : block ∈ skipped
    · rw [List.filter_cons_of_neg (by simpa using hmem), indexPipelined, if_pos hmem]
      exact ih st
    · rw [List.filter_cons_of_pos (by simpa using hmem), List.foldlM_cons,
        indexPipelined_of_not_mem hmem]
      cases indexPipelined env fromBlock [] st block with
      | error st' => rfl
      | ok st' => exact ih st'

theorem RangeEnv.backfill_indexRows (rows : List (ℕ × Unit)) (st : SyncStore) :
    (env.backfill cfg req missing sorted hcap pick).indexRows st rows =
      (rows.map Prod.fst).foldlM (indexPipelined env req.fromBlock []) st := by
  unfold Backfill.indexRows
  rw [List.foldlM_map]
  rfl

/-- **The loop that `indexMissing` describes is the pipeline**, for every order in which the
    chunks complete. -/
theorem indexMissing_eq_run (st : SyncStore) :
    indexMissing cfg env req missing st =
      match (env.backfill cfg req missing sorted hcap pick).run
        ((env.backfill cfg req missing sorted hcap pick).start st) with
      | .finished s => .ok s.store
      | .failed st' => .error st'
      | .stalled _ => .error st := by
  set b := env.backfill cfg req missing sorted hcap pick with hb
  have hrows : indexMissing cfg env req missing st = b.indexRows st b.delivered := by
    rw [hb, RangeEnv.backfill_indexRows, Backfill.delivered_keys, RangeEnv.backfill_failedBlocks,
      indexMissing, if_neg (by omega)]
    exact foldlM_indexPipelined _ _ _ _
  have hrun := b.run_eq st
  rw [hrows]
  cases hend : b.indexRows st b.delivered with
  | ok st' =>
    rw [hend] at hrun
    obtain ⟨s, hs, hstore, -⟩ := hrun
    rw [hs, ← hstore]
  | error st' =>
    rw [hend] at hrun
    dsimp only at hrun
    rw [hrun]

end

end MevScout.Explorer
