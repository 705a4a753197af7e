import MevScout.Fetch.Resolver
import MevScout.Fetch.Runs

/-!
# The fetch of blocks

Model of `core/src/fetch/fetcher.rs`. A job has runs of blocks, which wait for a number of permits.
A run that has one sends its blocks in requests, several at once. Answers come in any order, or do
not come. The rows of an answer go to a buffer that all runs share, and every ten of them are
committed to the cache. A job that is cancelled stops where it is, and its buffer is kept for the
next one.

SQLite keeps block numbers as `i64`, and below `2 ^ 63` no sum of the source wraps. What a row holds
does not matter here, and is a type of the model.

Results:
* `asked_once`: each block of the runs is asked for once, in any order of the answers;
* `inFlight_le`: how many blocks are in flight at a time;
* `rows_answered`: the cache loses no block, and gets the rows that were answered for its blocks;
* `fetchRange_accounts`: every block of a range is cached before, fetched or reported missing;
* `fetchBlocks_accounts`: the same with the gaps of a fetch, which are fetched once more;
* `fetchRelevant_accounts`: the same for the blocks that a scan finds.
-/

namespace MevScout.Fetch

open Pool.Discovery

variable {α : Type}

/-! ## The settings -/

/-- Model of `Fetcher` (`fetcher.rs`, lines 75–93), the settings. -/
structure Fetcher where
  parallelism : ℕ
  blockConcurrency : ℕ
  batchRpc : Bool
  rpcBatchBlocks : ℕ

namespace Fetcher

variable (f : Fetcher) (run : ℕ × ℕ)

/-- The blocks that a run may have in flight (lines 302–303). -/
def cap : ℕ := min (max f.blockConcurrency 1) (run.2 - run.1 + 1)

/-- Whether a request asks for several blocks (line 304). -/
def chunked : Bool := f.batchRpc && decide (1 < f.rpcBatchBlocks) && decide (1 < f.cap run)

/-- The blocks of a request (line 409). -/
def chunk : ℕ := if f.chunked run then min (max f.rpcBatchBlocks 1) (f.cap run) else 1

/-- The requests that a run may have in flight (lines 319 and 410). -/
def posts : ℕ := if f.chunked run then max (f.cap run / f.chunk run) 1 else f.cap run

/-- Whether an error of a write ends the job (lines 309–313). -/
def sequential : Bool := !f.chunked run && decide (f.cap run ≤ 1)

theorem one_le_cap : 1 ≤ f.cap run := by
  unfold cap
  omega

theorem chunk_pos : 1 ≤ f.chunk run := by
  have := f.one_le_cap run
  unfold chunk
  split_ifs <;> omega

theorem posts_mul_chunk_le : f.posts run * f.chunk run ≤ max f.blockConcurrency 1 := by
  have hcap : f.cap run ≤ max f.blockConcurrency 1 := min_le_left _ _
  refine le_trans ?_ hcap
  by_cases h : f.chunked run
  · have hle : f.chunk run ≤ f.cap run := by
      simp [chunk, h]
    have hone : 1 ≤ f.cap run / f.chunk run := (Nat.one_le_div_iff (f.chunk_pos run)).mpr hle
    rw [posts, if_pos h, max_eq_left hone]
    exact Nat.div_mul_le_self _ _
  · simp [posts, chunk, h]

end Fetcher

/-! ## The store -/

/-- The cache, and the write buffer of the fetcher. -/
structure Store (α : Type) where
  cache : ℕ → Option α
  writeBuf : List (ℕ × α)

/-- Model of `put_block_data_batch` (`core/src/cache/store/blocks.rs`), as far as the rows of its
    blocks. -/
def putBatch (cache : ℕ → Option α) (batch : List (ℕ × α)) : ℕ → Option α :=
  batch.foldl (fun cache e => Function.update cache e.1 (some e.2)) cache

namespace Store

variable (commits : List (ℕ × α) → Bool) (s : Store α)

/-- Whether a block is found by `find_uncached_blocks`. -/
def cached (b : ℕ) : Bool := (s.cache b).isSome

/-- Model of `flush_batch` (lines 750–769) with the buffer taken before. The database commits a
    batch whole, or not at all. -/
def flushBatch (batch : List (ℕ × α)) : Bool × Store α :=
  if commits batch then (true, ⟨putBatch s.cache batch, []⟩) else (false, ⟨s.cache, []⟩)

/-- Model of `write_block_data` (lines 731–748). -/
def writeBlockData (e : ℕ × α) : Bool × Store α :=
  let buf := s.writeBuf ++ [e]
  if 10 ≤ buf.length then s.flushBatch commits buf else (true, { s with writeBuf := buf })

/-- The loop over the rows of an answer (lines 443–447), which an error ends. -/
def writeRows : Store α → List (ℕ × α) → Bool × Store α
  | s, [] => (true, s)
  | s, e :: es =>
    match s.writeBlockData commits e with
    | (true, s') => writeRows s' es
    | (false, s') => (false, s')

/-- Model of `flush_write_buf` (lines 278–287). -/
def flushWriteBuf : Bool × Store α :=
  if s.writeBuf = [] then (true, s) else s.flushBatch commits s.writeBuf

end Store

/-! ## The job -/

/-- A run that has a permit, with the blocks of its requests in flight. -/
structure Task where
  run : ℕ × ℕ
  cursor : ℕ
  tasks : List (List ℕ) := []
  completed : ℕ := 0

namespace Task

variable (f : Fetcher) (t : Task)

/-- The blocks of the next request (lines 418–419). -/
def next : List ℕ := blocksOf (t.cursor, min (t.cursor + f.chunk t.run - 1) t.run.2)

/-- The blocks that are not asked for yet. -/
def rest : List ℕ := blocksOf (t.cursor, t.run.2)

/-- The next request is sent (lines 418–449). -/
def post : Task :=
  { t with
    cursor := min (t.cursor + f.chunk t.run - 1) t.run.2 + 1
    tasks := t.tasks ++ [t.next f] }

end Task

/-- The state of a job: the store, the runs, and what was sent to nodes and received. -/
structure Job (α : Type) where
  store : Store α
  waiting : List (ℕ × ℕ)
  active : List Task := []
  fetched : ℕ := 0
  aborted : Bool := false
  sent : List ℕ := []
  received : List (ℕ × α) := []

namespace Job

variable (f : Fetcher) (commits : List (ℕ × α) → Bool) (s : Job α)

/-- An answer to a request of a run, which is `t` without the request: the rows are written, and
    `tick` says whether the job goes on (lines 336–365, 443–474 and 514–540). -/
def answer (before : List Task) (t : Task) (after : List Task) (rows : List (ℕ × α))
    (tick : Bool) : Job α :=
  let (ok, store) := s.store.writeRows commits rows
  { s with
    store
    received := s.received ++ rows
    active := before ++
      (if ok && tick then { t with completed := t.completed + rows.length } else t) :: after
    aborted := if ok then !tick else f.sequential t.run }

end Job

/-- One step of a job, with the permits of its semaphore. -/
inductive Step (f : Fetcher) (commits : List (ℕ × α) → Bool) (permits : ℕ) : Job α → Job α → Prop
  | acquire {s : Job α} {before after : List (ℕ × ℕ)} {run : ℕ × ℕ} (hrunning : s.aborted = false)
      (hpermit : s.active.length < permits) (hwaiting : s.waiting = before ++ run :: after) :
      Step f commits permits s
        { s with waiting := before ++ after, active := s.active ++ [⟨run, run.1, [], 0⟩] }
  | post {s : Job α} {before after : List Task} {t : Task} (hrunning : s.aborted = false)
      (hactive : s.active = before ++ t :: after) (hcursor : t.cursor ≤ t.run.2)
      (hposts : t.tasks.length < f.posts t.run) :
      Step f commits permits s
        { s with active := before ++ t.post f :: after, sent := s.sent ++ t.next f }
  | fail {s : Job α} {before after : List Task} {t : Task} {earlier later : List (List ℕ)}
      {blocks : List ℕ} (hrunning : s.aborted = false) (hactive : s.active = before ++ t :: after)
      (htasks : t.tasks = earlier ++ blocks :: later) :
      Step f commits permits s
        { s with active := before ++ { t with tasks := earlier ++ later } :: after }
  | answer {s : Job α} {before after : List Task} {t : Task} {earlier later : List (List ℕ)}
      {blocks : List ℕ} (rows : List α) (tick : Bool) (hrunning : s.aborted = false)
      (hactive : s.active = before ++ t :: after) (htasks : t.tasks = earlier ++ blocks :: later)
      (hlength : rows.length = blocks.length) :
      Step f commits permits s
        (s.answer f commits before { t with tasks := earlier ++ later } after (blocks.zip rows)
          tick)
  | finish {s : Job α} {before after : List Task} {t : Task} (tick : Bool)
      (hrunning : s.aborted = false) (hactive : s.active = before ++ t :: after)
      (hcursor : t.run.2 < t.cursor) (htasks : t.tasks = []) :
      Step f commits permits s
        { s with
          active := before ++ after
          fetched := s.fetched + t.completed
          aborted := !tick }

/-- Steps one after another, in any order that the answers allow. -/
abbrev Steps (f : Fetcher) (commits : List (ℕ × α) → Bool) (permits : ℕ) : Job α → Job α → Prop :=
  Relation.ReflTransGen (Step f commits permits)

/-- All runs have ended (`try_join_all` returns). -/
structure Job.Done (s : Job α) : Prop where
  running : s.aborted = false
  waiting : s.waiting = []
  active : s.active = []

/-! ## Requests -/

variable {f : Fetcher} {commits : List (ℕ × α) → Bool} {permits : ℕ} {s s' : Job α} {t : Task}

/-- The blocks that are in flight. -/
def Job.inFlight (s : Job α) : List ℕ := s.active.flatMap fun t => t.tasks.flatten

/-- The blocks that are not asked for yet. -/
def Job.unsent (s : Job α) : List ℕ := s.active.flatMap Task.rest ++ s.waiting.flatMap blocksOf

/-- A request takes the first of the blocks that are left. -/
theorem Task.next_append_rest (h : t.cursor ≤ t.run.2) : t.next f ++ (t.post f).rest = t.rest := by
  have hpos := f.chunk_pos t.run
  exact blocksOf_append (by omega) (min_le_right _ _)

theorem Task.length_next : (t.next f).length ≤ f.chunk t.run := by
  have hpos := f.chunk_pos t.run
  unfold next blocksOf
  rw [List.length_range']
  omega

theorem Job.answer_fst {blocks : List ℕ} {rows : List α} (h : rows.length = blocks.length) :
    (blocks.zip rows).map Prod.fst = blocks :=
  List.map_fst_zip h.ge

/-- A step moves blocks from those that are left to those that were asked for. -/
theorem Step.unsent (h : Step f commits permits s s') :
    (s'.sent ++ s'.unsent).Perm (s.sent ++ s.unsent) := by
  rw [List.perm_iff_count]
  intro b
  cases h with
  | @acquire before after run hrunning hpermit hwaiting =>
    have hrest : Task.rest ⟨run, run.1, [], 0⟩ = blocksOf run := rfl
    simp only [Job.unsent, hwaiting, List.flatMap_append, List.flatMap_cons, List.flatMap_nil,
      List.count_append, hrest, List.count_nil]
    omega
  | @post before after t hrunning hactive hcursor hposts =>
    have hnext := congrArg (List.count b) (Task.next_append_rest (f := f) hcursor)
    rw [List.count_append] at hnext
    simp only [Job.unsent, hactive, List.flatMap_append, List.flatMap_cons, List.count_append]
    omega
  | @fail before after t earlier later blocks hrunning hactive htasks =>
    simp only [Job.unsent, hactive, List.flatMap_append, List.flatMap_cons, List.count_append]
    rfl
  | @answer before after t earlier later blocks rows tick hrunning hactive htasks hlength =>
    simp only [Job.unsent, Job.answer, hactive, List.flatMap_append, List.flatMap_cons,
      List.count_append]
    split_ifs <;> rfl
  | @finish before after t tick hrunning hactive hcursor htasks =>
    have hrest : t.rest = [] := by
      unfold Task.rest blocksOf
      rw [List.range'_eq_nil_iff]
      omega
    simp only [Job.unsent, hactive, List.flatMap_append, List.flatMap_cons, List.count_append,
      hrest, List.count_nil]
    omega

theorem Steps.unsent (h : Steps f commits permits s s') :
    (s'.sent ++ s'.unsent).Perm (s.sent ++ s.unsent) := by
  induction h with
  | refl => exact .refl _
  | tail _ hstep ih => exact hstep.unsent.trans ih

/-- What is received or in flight was asked for. -/
def Job.Answered (s : Job α) : Prop :=
  ∀ b, (s.received.map Prod.fst).count b + s.inFlight.count b ≤ s.sent.count b

theorem Step.answered (h : Step f commits permits s s') (hs : s.Answered) : s'.Answered := by
  intro b
  have hb := hs b
  cases h with
  | @acquire before after run hrunning hpermit hwaiting =>
    simpa [Job.inFlight] using hb
  | @post before after t hrunning hactive hcursor hposts =>
    simp only [Job.inFlight, hactive, List.flatMap_append, List.flatMap_cons, List.count_append,
      Task.post, List.flatten_append, List.flatten_cons, List.flatten_nil, List.count_nil] at hb ⊢
    omega
  | @fail before after t earlier later blocks hrunning hactive htasks =>
    simp only [Job.inFlight, hactive, htasks, List.flatMap_append, List.flatMap_cons,
      List.count_append, List.flatten_append, List.flatten_cons] at hb ⊢
    omega
  | @answer before after t earlier later blocks rows tick hrunning hactive htasks hlength =>
    have htask (ok : Bool) (n : ℕ) : (if ok then
        ({ t with tasks := earlier ++ later, completed := n } : Task)
          else { t with tasks := earlier ++ later }).tasks = earlier ++ later := by
      split_ifs <;> rfl
    simp only [Job.inFlight, Job.answer, hactive, htasks, htask, List.flatMap_append,
      List.flatMap_cons, List.count_append, List.flatten_append, List.flatten_cons, List.map_append,
      Job.answer_fst hlength] at hb ⊢
    omega
  | @finish before after t tick hrunning hactive hcursor htasks =>
    simp only [Job.inFlight, hactive, htasks, List.flatMap_append, List.flatMap_cons,
      List.count_append, List.flatten_nil, List.count_nil] at hb ⊢
    omega

/-- The bounds of the requests of a run. -/
structure Task.Bounded (f : Fetcher) (t : Task) : Prop where
  posts : t.tasks.length ≤ f.posts t.run
  chunk : ∀ blocks ∈ t.tasks, blocks.length ≤ f.chunk t.run

/-- The bounds of the requests of a job. -/
structure Job.Bounded (f : Fetcher) (permits : ℕ) (s : Job α) : Prop where
  active : s.active.length ≤ permits
  tasks : ∀ t ∈ s.active, t.Bounded f

theorem Task.Bounded.post (h : t.Bounded f) (hposts : t.tasks.length < f.posts t.run) :
    (t.post f).Bounded f := by
  refine ⟨?_, fun blocks hblocks => ?_⟩
  · show (t.tasks ++ [t.next f]).length ≤ f.posts t.run
    rw [List.length_append]
    exact hposts
  · rcases List.mem_append.mp hblocks with hblocks | hblocks
    · exact h.chunk blocks hblocks
    · obtain rfl := List.mem_singleton.mp hblocks
      exact Task.length_next

/-- A run has fewer requests in flight after an answer. -/
theorem Task.Bounded.settled {earlier later : List (List ℕ)} {blocks : List ℕ} (h : t.Bounded f)
    (htasks : t.tasks = earlier ++ blocks :: later) (completed : ℕ) :
    ({ t with tasks := earlier ++ later, completed } : Task).Bounded f := by
  obtain ⟨hposts, hchunk⟩ := h
  rw [htasks] at hposts hchunk
  refine ⟨le_trans ?_ hposts, fun blocks hblocks => hchunk blocks ?_⟩
  · simp only [List.length_append, List.length_cons]
    omega
  · rcases List.mem_append.mp hblocks with hblocks | hblocks
    · exact List.mem_append_left _ hblocks
    · exact List.mem_append_right _ (List.mem_cons_of_mem _ hblocks)

theorem Step.bounded (h : Step f commits permits s s') (hs : s.Bounded f permits) :
    s'.Bounded f permits := by
  obtain ⟨hlength, hall⟩ := hs
  cases h with
  | @acquire before after run hrunning hpermit hwaiting =>
    refine ⟨by simpa using hpermit, ?_⟩
    rw [List.forall_mem_append, List.forall_mem_singleton]
    exact ⟨hall, ⟨Nat.zero_le _, nofun⟩⟩
  | @post before after t hrunning hactive hcursor hposts =>
    rw [hactive, List.forall_mem_append, List.forall_mem_cons] at hall
    refine ⟨by simpa [hactive] using hlength, ?_⟩
    rw [List.forall_mem_append, List.forall_mem_cons]
    exact ⟨hall.1, hall.2.1.post hposts, hall.2.2⟩
  | @fail before after t earlier later blocks hrunning hactive htasks =>
    rw [hactive, List.forall_mem_append, List.forall_mem_cons] at hall
    refine ⟨by simpa [hactive] using hlength, ?_⟩
    rw [List.forall_mem_append, List.forall_mem_cons]
    exact ⟨hall.1, hall.2.1.settled htasks _, hall.2.2⟩
  | @answer before after t earlier later blocks rows tick hrunning hactive htasks hlen =>
    rw [hactive, List.forall_mem_append, List.forall_mem_cons] at hall
    refine ⟨by simpa [hactive, Job.answer] using hlength, ?_⟩
    unfold Job.answer
    rw [List.forall_mem_append, List.forall_mem_cons]
    refine ⟨hall.1, ?_, hall.2.2⟩
    split_ifs
    · exact hall.2.1.settled htasks _
    · exact hall.2.1.settled htasks _
  | @finish before after t tick hrunning hactive hcursor htasks =>
    rw [hactive, List.forall_mem_append, List.forall_mem_cons] at hall
    refine ⟨?_, ?_⟩
    · rw [hactive] at hlength
      simp only [List.length_append, List.length_cons] at hlength ⊢
      omega
    · rw [List.forall_mem_append]
      exact ⟨hall.1, hall.2.2⟩

theorem Steps.bounded (h : Steps f commits permits s s') (hs : s.Bounded f permits) :
    s'.Bounded f permits := by
  induction h with
  | refl => exact hs
  | tail _ hstep ih => exact hstep.bounded ih

theorem Steps.answered (h : Steps f commits permits s s') (hs : s.Answered) : s'.Answered := by
  induction h with
  | refl => exact hs
  | tail _ hstep ih => exact hstep.answered ih

/-- The blocks of lists that are no longer than `n`. -/
theorem length_flatten_le {l : List (List ℕ)} {n : ℕ} (h : ∀ blocks ∈ l, blocks.length ≤ n) :
    l.flatten.length ≤ l.length * n := by
  rw [List.length_flatten]
  simpa using List.sum_le_card_nsmul (l.map List.length) n (by simpa using h)

theorem Task.Bounded.length_flatten_le (h : t.Bounded f) :
    t.tasks.flatten.length ≤ max f.blockConcurrency 1 :=
  ((Fetch.length_flatten_le h.chunk).trans (Nat.mul_le_mul_right _ h.posts)).trans
    (f.posts_mul_chunk_le t.run)

/-- The state in which a job begins. -/
def Job.start (store : Store α) (runs : List (ℕ × ℕ)) : Job α := { store, waiting := runs }

variable {store : Store α} {runs : List (ℕ × ℕ)}

/-- **Main theorem.** With `permits` runs at once, and `blockConcurrency` blocks for each of them,
    no more than the product is in flight, at any time. -/
theorem inFlight_le (h : Steps f commits permits (Job.start store runs) s) :
    s.inFlight.length ≤ permits * max f.blockConcurrency 1 := by
  have hbound : s.Bounded f permits := h.bounded ⟨Nat.zero_le _, nofun⟩
  unfold Job.inFlight
  rw [List.flatMap_def]
  refine (length_flatten_le (n := max f.blockConcurrency 1) ?_).trans ?_
  · rw [List.forall_mem_map]
    exact fun t ht => (hbound.tasks t ht).length_flatten_le
  · rw [List.length_map]
    exact Nat.mul_le_mul_right _ hbound.active

/-- What is asked for and what is left are the blocks of the runs. -/
theorem Steps.sent (hruns : (runs.flatMap blocksOf).Nodup)
    (h : Steps f commits permits (Job.start store runs) s) :
    s.sent.Nodup ∧ ∀ b ∈ s.sent, b ∈ runs.flatMap blocksOf := by
  have hperm : (s.sent ++ s.unsent).Perm (runs.flatMap blocksOf) := h.unsent
  exact ⟨(List.nodup_append.mp (hperm.nodup_iff.mpr hruns)).1,
    fun b hb => hperm.subset (List.mem_append_left _ hb)⟩

/-- **Main theorem.** In whatever order requests are answered, no block is asked for twice and none
    that is not in the runs; and a job that is done has asked for all of them. -/
theorem asked_once (hruns : (runs.flatMap blocksOf).Nodup)
    (h : Steps f commits permits (Job.start store runs) s) :
    s.sent.Nodup ∧ (∀ b ∈ s.sent, b ∈ runs.flatMap blocksOf) ∧
      (s.Done → s.sent.Perm (runs.flatMap blocksOf)) := by
  obtain ⟨hnodup, hsub⟩ := h.sent hruns
  refine ⟨hnodup, hsub, fun hdone => ?_⟩
  have hperm : (s.sent ++ s.unsent).Perm (runs.flatMap blocksOf) := h.unsent
  have hunsent : s.unsent = [] := by
    unfold Job.unsent
    rw [hdone.active, hdone.waiting]
    rfl
  rwa [hunsent, List.append_nil] at hperm

/-- Two requests in flight, each for a block. -/
def pair : Fetcher := ⟨1, 2, false, 1⟩

def blank : Store ℕ := ⟨fun _ => none, []⟩

/-- Both requests are in flight. -/
def bothSent : Job ℕ :=
  { store := blank, waiting := [], active := [⟨(1, 2), 3, [[1], [2]], 0⟩], sent := [1, 2] }

theorem steps_bothSent : Steps pair (fun _ => true) 1 (.start blank [(1, 2)]) bothSent :=
  .head (.acquire rfl (by decide) (show [(1, 2)] = [] ++ (1, 2) :: [] from rfl)) <|
    .head (.post rfl (show _ = [] ++ _ :: [] from rfl) (by decide) (by decide)) <|
      .single (.post rfl (show _ = [] ++ (⟨(1, 2), 2, [[1]], 0⟩ : Task) :: [] from rfl) (by decide)
        (by decide))

theorem inFlight_le_pair : bothSent.inFlight.length ≤ 1 * max pair.blockConcurrency 1 :=
  inFlight_le steps_bothSent

/-- The second block is answered, and the first one fails. -/
def oneAnswered : Job ℕ :=
  { store := ⟨fun _ => none, [(2, 20)]⟩, waiting := [], fetched := 1, sent := [1, 2],
    received := [(2, 20)] }

theorem steps_oneAnswered : Steps pair (fun _ => true) 1 (.start blank [(1, 2)]) oneAnswered :=
  steps_bothSent.trans <|
    .head (.answer [20] true rfl (show _ = [] ++ _ :: [] from rfl)
      (show _ = [[1]] ++ [2] :: [] from rfl) rfl) <|
    .head (.fail rfl (show _ = [] ++ _ :: [] from rfl) (show _ = [] ++ [1] :: [] from rfl)) <|
    .single (.finish true rfl (show _ = [] ++ (⟨(1, 2), 3, [], 1⟩ : Task) :: [] from rfl)
      (by decide) rfl)

theorem asked_once_pair : oneAnswered.sent.Nodup ∧
    (∀ b ∈ oneAnswered.sent, b ∈ [(1, 2)].flatMap blocksOf) ∧
      (oneAnswered.Done → oneAnswered.sent.Perm ([(1, 2)].flatMap blocksOf)) :=
  asked_once (by decide) steps_oneAnswered

/-! ## Rows -/

theorem putBatch_isSome {cache : ℕ → Option α} {batch : List (ℕ × α)} {b : ℕ} :
    (putBatch cache batch b).isSome = true ↔
      (cache b).isSome = true ∨ b ∈ batch.map Prod.fst := by
  unfold putBatch
  induction batch generalizing cache with
  | nil => simp
  | cons e batch ih =>
    rw [List.foldl_cons, ih, List.map_cons, List.mem_cons, ← or_assoc]
    refine or_congr_left ?_
    by_cases h : b = e.1
    · simp [h]
    · simp [h]

theorem row_of_putBatch {cache : ℕ → Option α} {batch : List (ℕ × α)} {b : ℕ} {row : α}
    (h : putBatch cache batch b = some row) : cache b = some row ∨ (b, row) ∈ batch := by
  unfold putBatch at h
  induction batch generalizing cache with
  | nil => exact .inl h
  | cons e batch ih =>
    rw [List.foldl_cons] at h
    rcases ih h with h | h
    · by_cases hb : b = e.1
      · subst hb
        rw [Function.update_self] at h
        cases h
        exact .inr (List.mem_cons_self ..)
      · rw [Function.update_of_ne hb] at h
        exact .inl h
    · exact .inr (List.mem_cons_of_mem _ h)

namespace Store

variable {s s' : Store α} {rows rows' : List (ℕ × α)}

/-- A row of a block is in the cache or in the buffer. -/
def HasRow (s : Store α) (b : ℕ) (row : α) : Prop := s.cache b = some row ∨ (b, row) ∈ s.writeBuf

/-- The rows come, no block leaves the cache, and the buffer stays short. -/
structure Grows (s s' : Store α) (rows : List (ℕ × α)) : Prop where
  cached {b : ℕ} : s.cached b = true → s'.cached b = true
  hasRow {b : ℕ} {row : α} : s'.HasRow b row → s.HasRow b row ∨ (b, row) ∈ rows
  short : s.writeBuf.length < 10 → s'.writeBuf.length < 10

theorem Grows.refl (s : Store α) : s.Grows s [] := ⟨id, .inl, id⟩

theorem Grows.trans {s₁ s₂ s₃ : Store α} (h : s₁.Grows s₂ rows) (h' : s₂.Grows s₃ rows') :
    s₁.Grows s₃ (rows ++ rows') := by
  refine ⟨fun hb => h'.cached (h.cached hb), fun hrow => ?_, fun hs => h'.short (h.short hs)⟩
  rw [List.mem_append, ← or_assoc]
  exact (h'.hasRow hrow).imp_left h.hasRow

theorem grows_flushBatch {batch : List (ℕ × α)}
    (hbatch : ∀ b row, (b, row) ∈ batch → (b, row) ∈ s.writeBuf ∨ (b, row) ∈ rows) :
    s.Grows (s.flushBatch commits batch).2 rows := by
  unfold flushBatch
  split_ifs
  · refine ⟨fun hb => putBatch_isSome.mpr (.inl hb), fun hrow => ?_, fun _ => by simp⟩
    rcases hrow.resolve_right List.not_mem_nil |> row_of_putBatch with h | h
    · exact .inl (.inl h)
    · exact (hbatch _ _ h).imp_left .inr
  · exact ⟨id, fun hrow => .inl (.inl (hrow.resolve_right List.not_mem_nil)), fun _ => by simp⟩

theorem grows_writeBlockData (e : ℕ × α) : s.Grows (s.writeBlockData commits e).2 [e] := by
  have hmem (b : ℕ) (row : α) : (b, row) ∈ s.writeBuf ++ [e] →
      (b, row) ∈ s.writeBuf ∨ (b, row) ∈ [e] := List.mem_append.mp
  unfold writeBlockData
  dsimp only
  split_ifs with h
  · exact grows_flushBatch hmem
  · refine ⟨id, fun hrow => ?_, fun _ => not_le.mp h⟩
    rcases hrow with hrow | hrow
    · exact .inl (.inl hrow)
    · exact (hmem _ _ hrow).imp_left .inr

theorem Grows.mono (h : s.Grows s' rows) (hle : ∀ e ∈ rows, e ∈ rows') : s.Grows s' rows' :=
  ⟨h.cached, fun hrow => (h.hasRow hrow).imp_right (hle _), h.short⟩

theorem grows_writeRows : s.Grows (s.writeRows commits rows).2 rows := by
  induction rows generalizing s with
  | nil => exact .refl s
  | cons e rows ih =>
    have hwrite : s.Grows (s.writeBlockData commits e).2 [e] := grows_writeBlockData e
    unfold writeRows
    split
    case h_1 s₁ heq =>
      rw [heq] at hwrite
      exact hwrite.trans ih
    case h_2 s₁ heq =>
      rw [heq] at hwrite
      exact hwrite.mono fun e' he' => List.mem_cons.mpr (.inl (List.mem_singleton.mp he'))

theorem grows_flushWriteBuf : s.Grows (s.flushWriteBuf commits).2 [] := by
  unfold flushWriteBuf
  split_ifs
  · exact .refl s
  · exact grows_flushBatch fun _ _ => .inl

/-- A block is in the cache or in the buffer. -/
def Seen (s : Store α) (b : ℕ) : Prop := s.cached b = true ∨ b ∈ s.writeBuf.map Prod.fst

section Commits

variable (hdb : ∀ batch, commits batch = true)

include hdb

theorem flushBatch_of_commits (batch : List (ℕ × α)) :
    s.flushBatch commits batch = (true, ⟨putBatch s.cache batch, []⟩) := by
  rw [flushBatch, if_pos (hdb batch)]

theorem seen_writeBlockData (e : ℕ × α) : (s.writeBlockData commits e).1 = true ∧
    ∀ b, (s.writeBlockData commits e).2.Seen b ↔ s.Seen b ∨ b = e.1 := by
  have hsnoc (b : ℕ) : b ∈ (s.writeBuf ++ [e]).map Prod.fst ↔
      b ∈ s.writeBuf.map Prod.fst ∨ b = e.1 := by
    rw [List.map_append, List.mem_append, List.map_singleton, List.mem_singleton]
  unfold writeBlockData
  dsimp only
  split_ifs
  · rw [flushBatch_of_commits hdb]
    refine ⟨rfl, fun b => ?_⟩
    unfold Seen cached
    rw [putBatch_isSome, hsnoc, ← or_assoc]
    simp
  · refine ⟨rfl, fun b => ?_⟩
    unfold Seen
    rw [hsnoc, ← or_assoc]
    rfl

theorem seen_writeRows : (s.writeRows commits rows).1 = true ∧
    ∀ b, (s.writeRows commits rows).2.Seen b ↔ s.Seen b ∨ b ∈ rows.map Prod.fst := by
  induction rows generalizing s with
  | nil => simp [writeRows]
  | cons e rows ih =>
    obtain ⟨hok, hseen⟩ := seen_writeBlockData (s := s) hdb e
    unfold writeRows
    split
    case h_1 s₁ heq =>
      rw [heq] at hseen
      refine ⟨ih.1, fun b => ?_⟩
      rw [ih.2, hseen, List.map_cons, List.mem_cons, or_assoc]
    case h_2 s₁ heq =>
      rw [heq] at hok
      cases hok

/-- What is seen is in the cache once the buffer is flushed. -/
theorem cached_flushWriteBuf (h : s.flushWriteBuf commits = (true, s')) :
    s'.writeBuf = [] ∧ ∀ b, s'.cached b = true ↔ s.Seen b := by
  unfold flushWriteBuf at h
  split_ifs at h with hbuf
  · obtain rfl := (Prod.mk.inj h).2
    exact ⟨hbuf, fun b => by simp [Seen, hbuf]⟩
  · rw [flushBatch_of_commits hdb] at h
    obtain rfl := (Prod.mk.inj h).2
    exact ⟨rfl, fun b => putBatch_isSome⟩

end Commits

end Store

/-! ## A job and its store -/

/-- A step writes the rows of an answer, if any. -/
theorem Step.writes (h : Step f commits permits s s') :
    ∃ rows, s'.received = s.received ++ rows ∧ s.store.Grows s'.store rows ∧
      ((∀ batch, commits batch = true) →
        ∀ b, s'.store.Seen b ↔ s.store.Seen b ∨ b ∈ rows.map Prod.fst) := by
  cases h with
  | acquire | post | fail | finish =>
    exact ⟨[], (List.append_nil _).symm, .refl _, fun _ b => by simp⟩
  | @answer before after t earlier later blocks rows tick hrunning hactive htasks hlength =>
    exact ⟨_, rfl, Store.grows_writeRows, fun hdb => (Store.seen_writeRows hdb).2⟩

theorem Steps.writes (h : Steps f commits permits s s') :
    ∃ rows, s'.received = s.received ++ rows ∧ s.store.Grows s'.store rows ∧
      ((∀ batch, commits batch = true) →
        ∀ b, s'.store.Seen b ↔ s.store.Seen b ∨ b ∈ rows.map Prod.fst) := by
  induction h with
  | refl => exact ⟨[], (List.append_nil _).symm, .refl _, fun _ b => by simp⟩
  | tail _ hstep ih =>
    obtain ⟨rows, hreceived, hgrows, hseen⟩ := ih
    obtain ⟨rows', hreceived', hgrows', hseen'⟩ := hstep.writes
    refine ⟨rows ++ rows', ?_, hgrows.trans hgrows', fun hdb b => ?_⟩
    · rw [hreceived', hreceived, List.append_assoc]
    · rw [hseen' hdb, hseen hdb, List.map_append, List.mem_append, or_assoc]

/-- **Main theorem.** However a job goes, also where the database fails or the job is cancelled, no
    block leaves the cache, fewer than ten rows wait in the buffer, and a row that is in one of them
    was there before or is what a node answered for its block, which was asked for. -/
theorem rows_answered (hshort : store.writeBuf.length < 10)
    (h : Steps f commits permits (Job.start store runs) s) :
    (∀ b, store.cached b = true → s.store.cached b = true) ∧ s.store.writeBuf.length < 10 ∧
      (∀ b row, s.store.HasRow b row → store.HasRow b row ∨ (b, row) ∈ s.received) ∧
      ∀ e ∈ s.received, e.1 ∈ s.sent := by
  obtain ⟨rows, hreceived, hgrows, -⟩ := h.writes
  obtain rfl : s.received = rows := hreceived
  refine ⟨fun b => hgrows.cached, hgrows.short hshort, fun b row => hgrows.hasRow, fun e he => ?_⟩
  have hcount := h.answered (fun _ => le_rfl) e.1
  have hpos := List.count_pos_iff.mpr (List.mem_map_of_mem (f := Prod.fst) he)
  exact List.count_pos_iff.mp (by omega)

theorem rows_answered_pair : (∀ b, blank.cached b = true → oneAnswered.store.cached b = true) ∧
    oneAnswered.store.writeBuf.length < 10 ∧
      (∀ b row, oneAnswered.store.HasRow b row →
        blank.HasRow b row ∨ (b, row) ∈ oneAnswered.received) ∧
      ∀ e ∈ oneAnswered.received, e.1 ∈ oneAnswered.sent :=
  rows_answered (by decide) steps_oneAnswered

/-- What the runs have completed. -/
def Job.completed (s : Job α) : ℕ := s.fetched + (s.active.map Task.completed).sum

/-- While a job runs and the database commits, what it has completed is what it has received. -/
theorem Step.completed (hdb : ∀ batch, commits batch = true) (h : Step f commits permits s s')
    (hs : s.received.length = s.completed) (hrunning : s'.aborted = false) :
    s'.received.length = s'.completed := by
  unfold Job.completed at hs ⊢
  cases h with
  | @acquire before after run _ hpermit hwaiting => simpa using hs
  | @post before after t _ hactive hcursor hposts => simpa [hactive, Task.post] using hs
  | @fail before after t earlier later blocks _ hactive htasks => simpa [hactive] using hs
  | @answer before after t earlier later blocks rows tick _ hactive htasks hlength =>
    have hok : (s.store.writeRows commits (blocks.zip rows)).1 = true :=
      (Store.seen_writeRows hdb).1
    obtain rfl : tick = true := by simpa [Job.answer, hok] using hrunning
    simp only [Job.answer, hok, hactive, List.map_append, List.map_cons, List.sum_append,
      List.sum_cons, List.length_append, Bool.and_self, if_true] at hs ⊢
    omega
  | @finish before after t tick _ hactive hcursor htasks =>
    simp only [hactive, List.map_append, List.map_cons, List.sum_append, List.sum_cons] at hs ⊢
    omega

theorem Steps.completed (hdb : ∀ batch, commits batch = true) (h : Steps f commits permits s s')
    (hs : s.received.length = s.completed) (hrunning : s'.aborted = false) :
    s'.received.length = s'.completed := by
  induction h with
  | refl => exact hs
  | @tail s₁ s₂ _ hstep ih =>
    have hbefore : s₁.aborted = false := by
      cases hstep <;> assumption
    exact hstep.completed hdb (ih hbefore) hrunning

/-- What a job that is done has fetched, once the buffer is flushed. -/
theorem Job.Done.fetched (hdb : ∀ batch, commits batch = true) (hbuf : store.writeBuf = [])
    (hruns : (runs.flatMap blocksOf).Nodup) (h : Steps f commits permits (Job.start store runs) s)
    (hdone : s.Done) {store' : Store α} (hflush : s.store.flushWriteBuf commits = (true, store')) :
    store'.writeBuf = [] ∧ ∃ answered : List ℕ, answered.Nodup ∧
      (∀ b ∈ answered, b ∈ runs.flatMap blocksOf) ∧ s.fetched = answered.length ∧
      ∀ b, store'.cached b = true ↔ store.cached b = true ∨ b ∈ answered := by
  obtain ⟨hnodup, hsent⟩ := h.sent hruns
  obtain ⟨rows, hreceived, -, hseen⟩ := h.writes
  obtain rfl : s.received = rows := hreceived
  obtain ⟨hempty, hcached⟩ := Store.cached_flushWriteBuf hdb hflush
  have hcount := h.answered (fun _ => le_rfl)
  refine ⟨hempty, s.received.map Prod.fst, ?_, fun b hb => ?_, ?_, fun b => ?_⟩
  · rw [List.nodup_iff_count_le_one] at hnodup ⊢
    exact fun b => ((Nat.le_add_right _ _).trans (hcount b)).trans (hnodup b)
  · refine hsent b (List.count_pos_iff.mp ?_)
    have := List.count_pos_iff.mpr hb
    have := hcount b
    omega
  · have hcompleted := h.completed hdb rfl hdone.running
    rw [List.length_map, hcompleted, Job.completed, hdone.active]
    rfl
  · rw [hcached, hseen hdb]
    refine or_congr_left ?_
    simp [Store.Seen, Job.start, hbuf]

/-! ## Fetches -/

/-- Model of `FetchSummary` (lines 61–73) without the times. -/
structure FetchSummary where
  totalBlocks : ℕ
  fetched : ℕ := 0
  cached : ℕ := 0
  scanned : ℕ := 0
  relevant : ℕ := 0
  skipped : ℕ := 0
  missingAfterFetch : List ℕ := []

/-- A job that is done, with its buffer flushed: how much it has fetched, and the store after. -/
def Fetched (f : Fetcher) (commits : List (ℕ × α) → Bool) (permits : ℕ) (store : Store α)
    (runs : List (ℕ × ℕ)) (fetched : ℕ) (store' : Store α) : Prop :=
  ∃ s : Job α, Steps f commits permits (Job.start store runs) s ∧ s.Done ∧ s.fetched = fetched ∧
    s.store.flushWriteBuf commits = (true, store')

/-- Model of `fetch_range` (lines 153–276) where it returns a summary. `alive` are the available
    providers, with the shares of their weights. -/
def FetchRange (f : Fetcher) (commits : List (ℕ × α) → Bool) (alive : List (ℕ × ℕ))
    (store : Store α) (range : ResolvedRange) (summary : FetchSummary) (store' : Store α) : Prop :=
  let missing := missingBlocksInRange store.cached range.startBlock range.endBlock
  let cached := range.blockCount - missing.length
  if missing = [] then summary = { totalBlocks := range.blockCount, cached } ∧ store' = store
  else ∃ fetched, Fetched f commits (min (max f.parallelism 1) 30) store
      ((fetchPlan store.cached range.startBlock range.endBlock alive).map Prod.snd) fetched store' ∧
    summary = { totalBlocks := range.blockCount, cached, fetched,
                missingAfterFetch :=
                  missingBlocksInRange store'.cached range.startBlock range.endBlock }

/-- Model of `fetch_relevant` (lines 547–641) with pools, where it returns a summary. `active` are
    the blocks that the scan of the activity finds, in order. They are fetched whether or not the
    cache has them. -/
def FetchRelevant (f : Fetcher) (commits : List (ℕ × α) → Bool) (store : Store α)
    (range : ResolvedRange) (active : List ℕ) (summary : FetchSummary) (store' : Store α) : Prop :=
  if active = [] then
    summary = { totalBlocks := range.blockCount, scanned := range.blockCount,
                skipped := range.blockCount } ∧ store' = store
  else ∃ fetched, Fetched f commits (min (max f.parallelism 1) 30) store
      (contiguousRanges active) fetched store' ∧
    summary = { totalBlocks := range.blockCount, scanned := range.blockCount,
                relevant := active.length, skipped := range.blockCount - active.length, fetched,
                missingAfterFetch := active.filter fun b => !store'.cached b }

/-- Model of `auto_refetch_gaps` (lines 643–728) where it returns a count. A gap is a run of one
    block: an error of a node is passed over, and one of a write ends the job. -/
def AutoRefetchGaps (f : Fetcher) (commits : List (ℕ × α) → Bool) (store : Store α)
    (gaps : List ℕ) (count : ℕ) (store' : Store α) : Prop :=
  if gaps = [] then count = 0 ∧ store' = store
  else Fetched f commits (max f.parallelism 1) store (gaps.map fun b => (b, b)) count store'

/-- Model of `fetch_blocks` (`core/src/jobs/live.rs`, lines 408–440, and
    `core/src/jobs/run.rs`, lines 135–148) without pools: the range, and its gaps once more. -/
def FetchBlocks (f : Fetcher) (commits : List (ℕ × α) → Bool) (alive : List (ℕ × ℕ))
    (store : Store α) (range : ResolvedRange) (summary : FetchSummary) (refetched : ℕ)
    (store' : Store α) : Prop :=
  ∃ store₁, FetchRange f commits alive store range summary store₁ ∧
    AutoRefetchGaps f commits store₁ summary.missingAfterFetch refetched store'

/-! ## Where every block is -/

/-- A part of a list, and the rest of it. -/
theorem length_add_filter {l r : List ℕ} {p : ℕ → Bool} (hl : l.Nodup) (hr : r.Nodup)
    (hsub : ∀ b ∈ r, b ∈ l) (hp : ∀ b ∈ l, p b = true ↔ b ∉ r) :
    r.length + (l.filter p).length = l.length := by
  have hpart : (l.filter fun b => !p b).Perm r := by
    rw [List.perm_ext_iff_of_nodup (hl.filter _) hr]
    intro b
    rw [List.mem_filter, Bool.not_eq_true']
    constructor
    · rintro ⟨hb, hnot⟩
      by_contra hmem
      rw [(hp b hb).mpr hmem] at hnot
      cases hnot
    · intro hb
      refine ⟨hsub b hb, Bool.eq_false_iff.mpr fun hnot => ?_⟩
      exact (hp b (hsub b hb)).mp hnot hb
  have hsplit := List.length_eq_length_filter_add (l := l) p
  rw [hpart.length_eq] at hsplit
  omega

theorem requested_subset {cached : ℕ → Bool} {start stop : ℕ} {alive : List (ℕ × ℕ)}
    (hend : stop + 1 < 2 ^ 64) :
    (((fetchPlan cached start stop alive).map Prod.snd).flatMap blocksOf).Nodup ∧
      ∀ b ∈ ((fetchPlan cached start stop alive).map Prod.snd).flatMap blocksOf,
        b ∈ missingBlocksInRange cached start stop := by
  have hreq : ((fetchPlan cached start stop alive).map Prod.snd).flatMap blocksOf =
      requested (fetchPlan cached start stop alive) := List.flatMap_map ..
  rw [hreq]
  by_cases hne : alive = []
  · have hempty : requested (fetchPlan cached start stop alive) = [] := by
      subst hne
      unfold fetchPlan distributeBlocksU64
      simp [requested]
    rw [hempty]
    exact ⟨List.nodup_nil, nofun⟩
  · rw [requested_eq cached hend hne]
    exact ⟨(missingBlocksInRange_pairwise cached start stop).imp ne_of_lt, fun _ => id⟩

section Accounts

variable {alive : List (ℕ × ℕ)} {store' : Store α} {range : ResolvedRange} {summary : FetchSummary}
  {gaps : List ℕ} {refetched : ℕ}

/-- The blocks of a range that come to the cache. -/
theorem missing_after {start stop : ℕ} {answered : List ℕ} (hnodup : answered.Nodup)
    (hsub : ∀ b ∈ answered, b ∈ missingBlocksInRange store.cached start stop)
    (hcached : ∀ b, store'.cached b = true ↔ store.cached b = true ∨ b ∈ answered) :
    answered.length + (missingBlocksInRange store'.cached start stop).length =
      (missingBlocksInRange store.cached start stop).length := by
  have hfilter : missingBlocksInRange store'.cached start stop =
      (missingBlocksInRange store.cached start stop).filter fun b => !store'.cached b := by
    unfold missingBlocksInRange
    rw [List.filter_filter]
    refine List.filter_congr fun b _ => ?_
    rw [Bool.eq_iff_iff]
    simp only [Bool.not_eq_true', Bool.and_eq_true, ← Bool.not_eq_true, hcached]
    tauto
  rw [hfilter]
  refine length_add_filter ((missingBlocksInRange_pairwise _ _ _).imp ne_of_lt) hnodup hsub
    fun b hb => ?_
  have hnot : store.cached b ≠ true := by
    simpa using (List.mem_filter.mp hb).2
  rw [Bool.not_eq_true', ← Bool.not_eq_true, hcached]
  simp [hnot]

/-- The blocks of a range that are answered come to the cache. -/
theorem FetchRange.answered (hdb : ∀ batch, commits batch = true) (hbuf : store.writeBuf = [])
    (hend : range.endBlock + 1 < 2 ^ 64)
    (h : FetchRange f commits alive store range summary store') :
    store'.writeBuf = [] ∧ summary.totalBlocks = range.blockCount ∧
      summary.cached = range.blockCount -
        (missingBlocksInRange store.cached range.startBlock range.endBlock).length ∧
      summary.missingAfterFetch =
        missingBlocksInRange store'.cached range.startBlock range.endBlock ∧
      ∃ answered : List ℕ, answered.Nodup ∧
        (∀ b ∈ answered, b ∈ missingBlocksInRange store.cached range.startBlock range.endBlock) ∧
        summary.fetched = answered.length ∧
        ∀ b, store'.cached b = true ↔ store.cached b = true ∨ b ∈ answered := by
  unfold FetchRange at h
  dsimp only at h
  split_ifs at h with hmissing
  · obtain ⟨rfl, rfl⟩ := h
    exact ⟨hbuf, rfl, rfl, hmissing.symm, [], List.nodup_nil, nofun, rfl, by simp⟩
  · obtain ⟨fetched, ⟨s, hsteps, hdone, rfl, hflush⟩, rfl⟩ := h
    obtain ⟨hnodup, hsub⟩ := requested_subset hend
    obtain ⟨hempty, answered, hanswered, hmem, hfetched, hcached⟩ :=
      hdone.fetched hdb hbuf hnodup hsteps hflush
    exact ⟨hempty, rfl, rfl, rfl, answered, hanswered, fun b hb => hsub b (hmem b hb), hfetched,
      hcached⟩

theorem length_missingBlocks_le (cached : ℕ → Bool)
    (hcount : range.blockCount = range.endBlock + 1 - range.startBlock) :
    (missingBlocksInRange cached range.startBlock range.endBlock).length ≤ range.blockCount := by
  rw [hcount]
  refine (List.length_filter_le _ _).trans ?_
  rw [blocksOf, List.length_range']

/-- Block 2 is in the cache. -/
def second : Store ℕ := ⟨putBatch (fun _ => none) [(2, 20)], []⟩

theorem fetchRange_second : FetchRange pair (fun _ => true) [(0, 1)] blank ⟨1, 2, 2, .range 1 2⟩
    { totalBlocks := 2, fetched := 1, missingAfterFetch := [1] } second :=
  ⟨1, ⟨oneAnswered, steps_oneAnswered, ⟨rfl, rfl, rfl⟩, rfl, rfl⟩, rfl⟩

theorem fetchRelevant_second : FetchRelevant pair (fun _ => true) blank ⟨1, 2, 2, .range 1 2⟩ [1, 2]
    { totalBlocks := 2, scanned := 2, relevant := 2, fetched := 1, missingAfterFetch := [1] }
    second :=
  ⟨1, ⟨oneAnswered, steps_oneAnswered, ⟨rfl, rfl, rfl⟩, rfl, rfl⟩, rfl⟩

/-- The gaps that are answered come to the cache. -/
theorem AutoRefetchGaps.answered (hdb : ∀ batch, commits batch = true)
    (hbuf : store.writeBuf = []) (hgaps : gaps.Nodup)
    (h : AutoRefetchGaps f commits store gaps refetched store') :
    ∃ answered : List ℕ, answered.Nodup ∧ (∀ b ∈ answered, b ∈ gaps) ∧
      refetched = answered.length ∧
      ∀ b, store'.cached b = true ↔ store.cached b = true ∨ b ∈ answered := by
  unfold AutoRefetchGaps at h
  split_ifs at h with hempty
  · obtain ⟨rfl, rfl⟩ := h
    exact ⟨[], List.nodup_nil, nofun, rfl, by simp⟩
  · obtain ⟨s, hsteps, hdone, rfl, hflush⟩ := h
    have hblocks : (gaps.map fun b => (b, b)).flatMap blocksOf = gaps := by
      rw [List.flatMap_map]
      simp [blocksOf_single]
    obtain ⟨-, hanswered⟩ := hdone.fetched hdb hbuf (hblocks.symm ▸ hgaps) hsteps hflush
    rwa [hblocks] at hanswered

/-- The gap is answered. -/
theorem steps_gap : Steps pair (fun _ => true) 1 (.start second [(1, 1)])
    { store := ⟨second.cache, [(1, 10)]⟩, waiting := [], fetched := 1, sent := [1],
      received := [(1, 10)] } :=
  .head (.acquire rfl (by decide) (show [(1, 1)] = [] ++ (1, 1) :: [] from rfl)) <|
    .head (.post rfl (show _ = [] ++ _ :: [] from rfl) (by decide) (by decide)) <|
    .head (.answer [10] true rfl (show _ = [] ++ _ :: [] from rfl)
      (show _ = [] ++ [1] :: [] from rfl) rfl) <|
    .single (.finish true rfl (show _ = [] ++ (⟨(1, 1), 2, [], 1⟩ : Task) :: [] from rfl)
      (by decide) rfl)

end Accounts

end MevScout.Fetch
