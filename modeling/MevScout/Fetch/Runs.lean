import MevScout.Common.Int
import MevScout.Pool.Windows

/-!
# The plan of a fetch

Models of the planning part of `fetch_range` (`core/src/fetch/fetcher.rs`), of
`contiguous_ranges` and `missing_blocks_in_range` (`core/src/cache/store/blocks.rs`) and of
`distribute_blocks` with its `u64` sums, which wrap in a release build. The range is cut into
shards first, one for each available provider, and the missing blocks of a shard into runs.

Results:
* `contiguousRanges_runs`: ascending blocks are cut into their maximal runs;
* `distributeBlocksU64_eq`: below the last `u64` no sum wraps;
* `shards_partition`: the shards follow each other and make up the range;
* `fetchPlan_covers_missing`: the plan requests the missing blocks, each once and in order;
* `fetchPlan_no_provider`: without an available provider it requests nothing.
-/

namespace MevScout.Fetch

open Pool.Discovery

/-- The blocks of a range, both ends included. -/
def blocksOf (r : ℕ × ℕ) : List ℕ := List.range' r.1 (r.2 + 1 - r.1)

theorem mem_blocksOf {r : ℕ × ℕ} {b : ℕ} : b ∈ blocksOf r ↔ Holds r b := by
  unfold blocksOf Holds
  rw [List.mem_range'_1]
  omega

/-! ## Model -/

/-- Model of `missing_blocks_in_range` (`blocks.rs`, lines 334–336) and `find_uncached_blocks`
    (`integrity.rs`, lines 4–44); `cached` holds of a block with a row in `blocks` and with its
    transactions. -/
def missingBlocksInRange (cached : ℕ → Bool) (start stop : ℕ) : List ℕ :=
  (blocksOf (start, stop)).filter fun b => !cached b

/-- One turn of the loop of `contiguous_ranges`. -/
def extendRanges (ranges : List (ℕ × ℕ)) (block : ℕ) : List (ℕ × ℕ) :=
  match ranges.getLast? with
  | some last =>
    if block = last.2 + 1 then ranges.dropLast ++ [(last.1, block)] else ranges ++ [(block, block)]
  | none => ranges ++ [(block, block)]

/-- Model of `contiguous_ranges` (`blocks.rs`, lines 338–347). -/
def contiguousRanges (blocks : List ℕ) : List (ℕ × ℕ) := blocks.foldl extendRanges []

/-- The loop of `distribute_blocks` (`client.rs`, lines 765–782) on `u64`. -/
def shardsFromU64 (start totalBlocks assigned : ℕ) : List (ℕ × ℕ) → List ProviderShard
  | [] => []
  | (providerIdx, raw) :: alive =>
    let share :=
      if alive.isEmpty then totalBlocks - assigned
      else min (max raw 1) (totalBlocks - assigned)
    let shardStart := wrappingAdd 64 start assigned
    { providerIdx, start := shardStart,
      stop := wrappingSub 64 (wrappingAdd 64 shardStart share) 1 } ::
      shardsFromU64 start totalBlocks (wrappingAdd 64 assigned share) alive

/-- Model of `distribute_blocks` (`client.rs`, lines 741–785) on `u64`. An available provider
    comes with the share that its weight gives it. -/
def distributeBlocksU64 (start stop : ℕ) (alive : List (ℕ × ℕ)) : List ProviderShard :=
  match alive with
  | [] => []
  | [(providerIdx, _)] => [{ providerIdx, start, stop }]
  | _ => shardsFromU64 start (wrappingAdd 64 (wrappingSub 64 stop start) 1) 0 alive

/-- The range of a shard. -/
def range (shard : ProviderShard) : ℕ × ℕ := (shard.start, shard.stop)

/-- The runs that a shard requests (`fetcher.rs`, lines 199–209). -/
def shardRuns (missing : List ℕ) (shard : ProviderShard) : List (ℕ × ℕ) :=
  contiguousRanges (missing.filter fun b => Holds (range shard) b)

/-- The plan of `fetch_range` (`fetcher.rs`, lines 161–212): the runs to fetch, each with the
    provider that it is pinned to. -/
def fetchPlan (cached : ℕ → Bool) (start stop : ℕ) (alive : List (ℕ × ℕ)) :
    List (ℕ × ℕ × ℕ) :=
  let missing := missingBlocksInRange cached start stop
  if missing.isEmpty then []
  else (distributeBlocksU64 start stop alive).flatMap fun shard =>
    (shardRuns missing shard).map fun run => (shard.providerIdx, run)

/-- The blocks that a plan requests. -/
def requested (plan : List (ℕ × ℕ × ℕ)) : List ℕ := plan.flatMap fun p => blocksOf p.2

/-! ## Runs -/

/-- `ranges` are the maximal runs of `blocks`: together they are its blocks in order, and a block
    is missing between any two of them. -/
structure MaximalRuns (blocks : List ℕ) (ranges : List (ℕ × ℕ)) : Prop where
  blocks_eq : ranges.flatMap blocksOf = blocks
  nonempty : ∀ r ∈ ranges, r.1 ≤ r.2
  apart : ranges.Pairwise fun r r' => r.2 + 1 < r'.1

theorem blocksOf_single (b : ℕ) : blocksOf (b, b) = [b] := by
  unfold blocksOf
  rw [Nat.add_sub_cancel_left]
  rfl

theorem blocksOf_succ {a b : ℕ} (h : a ≤ b) : blocksOf (a, b + 1) = blocksOf (a, b) ++ [b + 1] := by
  unfold blocksOf
  dsimp only
  rw [show b + 1 + 1 - a = b + 1 - a + 1 by omega, List.range'_1_concat,
    show a + (b + 1 - a) = b + 1 by omega]

theorem blocksOf_append {a b c : ℕ} (hab : a ≤ b + 1) (hbc : b ≤ c) :
    blocksOf (a, b) ++ blocksOf (b + 1, c) = blocksOf (a, c) := by
  obtain ⟨n, hn⟩ : ∃ n, b + 1 = a + n := ⟨b + 1 - a, by omega⟩
  unfold blocksOf
  dsimp only
  rw [hn, Nat.add_sub_cancel_left, List.range'_append_1]
  congr 1
  omega

/-- A run that starts with the next block of an ascending list. -/
theorem MaximalRuns.push {blocks : List ℕ} {ranges : List (ℕ × ℕ)} {b : ℕ}
    (h : MaximalRuns blocks ranges) (hgap : ∀ r ∈ ranges, r.2 + 1 < b) :
    MaximalRuns (blocks ++ [b]) (ranges ++ [(b, b)]) := by
  refine ⟨?_, ?_, ?_⟩
  · rw [List.flatMap_append, h.blocks_eq, List.flatMap_singleton, blocksOf_single]
  · intro r hr
    rcases List.mem_append.mp hr with hr | hr
    · exact h.nonempty r hr
    · obtain rfl := List.mem_singleton.mp hr
      exact le_rfl
  · rw [List.pairwise_append]
    refine ⟨h.apart, List.pairwise_singleton _ _, fun r hr r' hr' => ?_⟩
    obtain rfl := List.mem_singleton.mp hr'
    exact hgap r hr

/-- The last run takes the block behind it. -/
theorem MaximalRuns.extend {blocks : List ℕ} {ranges : List (ℕ × ℕ)} {a b : ℕ}
    (h : MaximalRuns blocks (ranges ++ [(a, b)])) :
    MaximalRuns (blocks ++ [b + 1]) (ranges ++ [(a, b + 1)]) := by
  have hab : a ≤ b := h.nonempty (a, b) (List.mem_append_right _ (List.mem_singleton_self _))
  have hapart := List.pairwise_append.mp h.apart
  refine ⟨?_, ?_, ?_⟩
  · have hblocks := h.blocks_eq
    rw [List.flatMap_append, List.flatMap_singleton] at hblocks ⊢
    rw [blocksOf_succ hab, ← hblocks, List.append_assoc]
  · intro r hr
    rcases List.mem_append.mp hr with hr | hr
    · exact h.nonempty r (List.mem_append_left _ hr)
    · obtain rfl := List.mem_singleton.mp hr
      exact hab.trans (Nat.le_succ b)
  · rw [List.pairwise_append]
    refine ⟨hapart.1, List.pairwise_singleton _ _, fun r hr r' hr' => ?_⟩
    obtain rfl := List.mem_singleton.mp hr'
    exact hapart.2.2 r hr (a, b) (List.mem_singleton_self _)

/-- Every run lies among the blocks. -/
theorem MaximalRuns.stop_mem {blocks : List ℕ} {ranges : List (ℕ × ℕ)}
    (h : MaximalRuns blocks ranges) {r : ℕ × ℕ} (hr : r ∈ ranges) : r.2 ∈ blocks := by
  rw [← h.blocks_eq, List.mem_flatMap]
  exact ⟨r, hr, mem_blocksOf.mpr ⟨h.nonempty r hr, le_rfl⟩⟩

/-- Ascending blocks are cut into their maximal runs. -/
theorem contiguousRanges_runs {blocks : List ℕ} (h : blocks.Pairwise (· < ·)) :
    MaximalRuns blocks (contiguousRanges blocks) := by
  induction blocks using List.reverseRecOn with
  | nil => exact ⟨rfl, fun r hr => absurd hr List.not_mem_nil, List.Pairwise.nil⟩
  | append_singleton blocks b ih =>
    rw [List.pairwise_append] at h
    have hruns := ih h.1
    have hlt {r : ℕ × ℕ} (hr : r ∈ contiguousRanges blocks) : r.2 < b :=
      h.2.2 _ (hruns.stop_mem hr) b (List.mem_singleton_self b)
    have hstep : contiguousRanges (blocks ++ [b]) = extendRanges (contiguousRanges blocks) b :=
      List.foldl_concat ..
    rw [hstep]
    rcases List.eq_nil_or_concat' (contiguousRanges blocks) with hnil | ⟨ranges, ⟨c, d⟩, hlast⟩
    · have hgap : ∀ r ∈ contiguousRanges blocks, r.2 + 1 < b := by
        rw [hnil]
        exact fun r hr => absurd hr List.not_mem_nil
      have hextend : extendRanges (contiguousRanges blocks) b =
          contiguousRanges blocks ++ [(b, b)] := by
        rw [hnil]
        rfl
      rw [hextend]
      exact hruns.push hgap
    · rw [hlast] at hruns hlt ⊢
      have hextend : extendRanges (ranges ++ [(c, d)]) b =
          if b = d + 1 then ranges ++ [(c, b)] else ranges ++ [(c, d)] ++ [(b, b)] := by
        unfold extendRanges
        rw [List.getLast?_concat, List.dropLast_concat]
      rw [hextend]
      split_ifs with hb
      · rw [hb]
        exact hruns.extend
      · have hd : d < b := hlt (List.mem_append_right _ (List.mem_singleton_self _))
        refine hruns.push fun r hr => ?_
        rcases List.mem_append.mp hr with hr | hr
        · have hcd : r.2 + 1 < c := (List.pairwise_append.mp hruns.apart).2.2 r hr (c, d)
            (List.mem_singleton_self _)
          have hle : c ≤ d := hruns.nonempty (c, d)
            (List.mem_append_right _ (List.mem_singleton_self _))
          omega
        · obtain rfl := List.mem_singleton.mp hr
          show d + 1 < b
          omega

/-! ## Shards -/

theorem shardsFromU64_eq {start total : ℕ} (hend : start + total < 2 ^ 64) (htotal : 0 < total)
    (alive : List (ℕ × ℕ)) {assigned : ℕ} (hassigned : assigned ≤ total) :
    shardsFromU64 start total assigned alive = shardsFrom start total assigned alive := by
  induction alive generalizing assigned with
  | nil => rfl
  | cons p alive ih =>
    obtain ⟨share, hshare, hle, hzero⟩ : ∃ share, (if alive.isEmpty then total - assigned
        else min (max p.2 1) (total - assigned)) = share ∧ share ≤ total - assigned ∧
        (share = 0 → total - assigned = 0) := by
      refine ⟨_, rfl, ?_, ?_⟩ <;> split_ifs <;> omega
    unfold shardsFromU64 shardsFrom
    dsimp only
    rw [hshare, wrappingAdd_eq (show start + assigned < 2 ^ 64 by omega),
      wrappingAdd_eq (show start + assigned + share < 2 ^ 64 by omega),
      wrappingAdd_eq (show assigned + share < 2 ^ 64 by omega),
      wrappingSub_eq (by omega) (by omega), ih (by omega)]

/-- Below the last `u64` the sums do not wrap. -/
theorem distributeBlocksU64_eq {start stop : ℕ} (hle : start ≤ stop) (hend : stop + 1 < 2 ^ 64)
    (alive : List (ℕ × ℕ)) :
    distributeBlocksU64 start stop alive = distributeBlocks start stop alive := by
  rcases alive with _ | ⟨p, _ | ⟨p', alive⟩⟩
  · rfl
  · rfl
  · show shardsFromU64 start (wrappingAdd 64 (wrappingSub 64 stop start) 1) 0 _ =
      shardsFrom start (stop - start + 1) 0 _
    rw [wrappingSub_eq hle (by omega), wrappingAdd_eq (by omega)]
    exact shardsFromU64_eq (by omega) (by omega) _ (Nat.zero_le _)

/-- The shards of one turn after another. -/
theorem shardsFrom_partition {start total : ℕ} (htotal : 0 < total) {alive : List (ℕ × ℕ)}
    (hne : alive ≠ []) {assigned : ℕ} (hassigned : assigned ≤ total) :
    (shardsFrom start total assigned alive).flatMap (fun s => blocksOf (range s)) =
      List.range' (start + assigned) (total - assigned) := by
  induction alive generalizing assigned with
  | nil => exact absurd rfl hne
  | cons p alive ih =>
    -- a shard without blocks starts behind the range and ends one block before its start
    have hblocks (share : ℕ) (hshare : share = 0 → 0 < start + assigned) :
        blocksOf (start + assigned, start + assigned + share - 1) =
          List.range' (start + assigned) share := by
      unfold blocksOf
      dsimp only
      congr 1
      omega
    cases alive with
    | nil =>
      show blocksOf (start + assigned, start + assigned + (total - assigned) - 1) ++ [] = _
      rw [hblocks _ (by omega), List.append_nil]
    | cons p' alive =>
      obtain ⟨share, hshare⟩ : ∃ share, share = min (max p.2 1) (total - assigned) := ⟨_, rfl⟩
      have hrest := ih (List.cons_ne_nil p' alive) (show assigned + share ≤ total by omega)
      rw [hshare] at hrest
      have hfirst := hblocks (min (max p.2 1) (total - assigned)) (by omega)
      refine (congrArg₂ (· ++ ·) hfirst hrest).trans ?_
      rw [← hshare, ← Nat.add_assoc, List.range'_append_1]
      congr 1
      omega

/-- The shards follow each other and make up the range. -/
theorem shards_partition {start stop : ℕ} {alive : List (ℕ × ℕ)} (hle : start ≤ stop)
    (hne : alive ≠ []) :
    (distributeBlocks start stop alive).flatMap (fun s => blocksOf (range s)) =
      blocksOf (start, stop) := by
  unfold distributeBlocks
  split
  · exact absurd rfl hne
  · exact List.append_nil _
  · rw [shardsFrom_partition (by omega) hne (Nat.zero_le _)]
    unfold blocksOf
    dsimp only
    congr 1
    omega

/-! ## Plans -/

theorem blocksOf_pairwise (r : ℕ × ℕ) : (blocksOf r).Pairwise (· < ·) := List.pairwise_lt_range'

/-- The part of a range that lies in a smaller range. -/
theorem filter_blocksOf {r r' : ℕ × ℕ} (h : ∀ b, Holds r' b → Holds r b) :
    (blocksOf r).filter (fun b => Holds r' b) = blocksOf r' := by
  have hleft := (blocksOf_pairwise r).filter (fun b => decide (Holds r' b))
  have hright := blocksOf_pairwise r'
  refine List.Perm.eq_of_pairwise ?_ hleft hright ?_
  · intro a b _ _ hab hba
    exact absurd hab (lt_asymm hba)
  rw [List.perm_ext_iff_of_nodup (hleft.imp ne_of_lt) (hright.imp ne_of_lt)]
  intro b
  rw [List.mem_filter, mem_blocksOf, mem_blocksOf, decide_eq_true_eq]
  exact ⟨fun hb => hb.2, fun hb => ⟨h b hb, hb⟩⟩

/-- The blocks that the runs of a shard hold. -/
theorem shardRuns_blocks {missing : List ℕ} (h : missing.Pairwise (· < ·)) (shard : ProviderShard) :
    (shardRuns missing shard).flatMap blocksOf =
      missing.filter fun b => Holds (range shard) b :=
  (contiguousRanges_runs (h.filter _)).blocks_eq

theorem missingBlocksInRange_pairwise (cached : ℕ → Bool) (start stop : ℕ) :
    (missingBlocksInRange cached start stop).Pairwise (· < ·) := (blocksOf_pairwise _).filter _

theorem requested_flatMap {α : Type} (f : α → List (ℕ × ℕ × ℕ)) (l : List α) :
    requested (l.flatMap f) = l.flatMap fun a => requested (f a) := List.flatMap_assoc

theorem requested_map (providerIdx : ℕ) (runs : List (ℕ × ℕ)) :
    requested (runs.map fun run => (providerIdx, run)) = runs.flatMap blocksOf :=
  List.flatMap_map ..

/-- The plan requests the missing blocks, in order. -/
theorem requested_eq (cached : ℕ → Bool) {start stop : ℕ} {alive : List (ℕ × ℕ)}
    (hend : stop + 1 < 2 ^ 64) (hne : alive ≠ []) :
    requested (fetchPlan cached start stop alive) = missingBlocksInRange cached start stop := by
  unfold fetchPlan
  dsimp only
  split_ifs with hempty
  · exact (List.isEmpty_iff.mp hempty).symm
  · have hle : start ≤ stop := by
      by_contra hgt
      refine hempty (List.isEmpty_iff.mpr ?_)
      unfold missingBlocksInRange blocksOf
      rw [show stop + 1 - start = 0 by omega]
      rfl
    have hpair := missingBlocksInRange_pairwise cached start stop
    have hshard (shard : ProviderShard) (h : shard ∈ distributeBlocks start stop alive) :
        requested ((shardRuns (missingBlocksInRange cached start stop) shard).map
          fun run => (shard.providerIdx, run)) =
          (blocksOf (range shard)).filter fun b => !cached b := by
      have hin (b : ℕ) (hb : Holds (range shard) b) : Holds (start, stop) b :=
        distributeBlocks_inside hle h hb
      rw [requested_map, shardRuns_blocks hpair, missingBlocksInRange, List.filter_comm,
        filter_blocksOf hin]
    rw [distributeBlocksU64_eq hle hend, requested_flatMap, List.flatMap_congr hshard,
      ← List.filter_flatMap, shards_partition hle hne]
    rfl

/-- **Main theorem.** With an available provider, and below the last `u64`, the plan of a fetch
    requests every missing block of the range once and no other block. The shards follow each
    other and make up the range, and the missing blocks of each are cut into their maximal
    runs. -/
theorem fetchPlan_covers_missing (cached : ℕ → Bool) (start stop : ℕ) (alive : List (ℕ × ℕ))
    (hend : stop + 1 < 2 ^ 64) (hne : alive ≠ []) :
    (∀ b, (requested (fetchPlan cached start stop alive)).count b =
      if Holds (start, stop) b ∧ cached b = false then 1 else 0) ∧
    (start ≤ stop → (distributeBlocksU64 start stop alive).flatMap (fun s => blocksOf (range s)) =
      blocksOf (start, stop)) ∧
    MaximalRuns (missingBlocksInRange cached start stop)
      (contiguousRanges (missingBlocksInRange cached start stop)) ∧
    ∀ shard ∈ distributeBlocksU64 start stop alive,
      MaximalRuns ((missingBlocksInRange cached start stop).filter fun b => Holds (range shard) b)
        (shardRuns (missingBlocksInRange cached start stop) shard) := by
  have hpair := missingBlocksInRange_pairwise cached start stop
  refine ⟨fun b => ?_, fun hle => ?_, contiguousRanges_runs hpair,
    fun shard _ => contiguousRanges_runs (hpair.filter _)⟩
  · have hmem : b ∈ missingBlocksInRange cached start stop ↔
        Holds (start, stop) b ∧ cached b = false := by
      unfold missingBlocksInRange
      rw [List.mem_filter, mem_blocksOf, Bool.not_eq_true']
    rw [requested_eq cached hend hne]
    split_ifs with h
    · exact List.count_eq_one_of_mem (hpair.imp ne_of_lt) (hmem.mpr h)
    · exact List.count_eq_zero_of_not_mem fun hb => h (hmem.mp hb)
  · rw [distributeBlocksU64_eq hle hend]
    exact shards_partition hle hne

/-- Blocks 3 to 9 with 5 in the cache, and two providers. -/
theorem fetchPlan_covers_missing_two :
    (requested (fetchPlan (fun b => b == 5) 3 9 [(0, 3), (1, 4)])).count 6 = 1 :=
  (fetchPlan_covers_missing (fun b => b == 5) 3 9 [(0, 3), (1, 4)] (by decide) (by decide)).1 6

/-- Without an available provider a missing block is not requested; and a range of one block at
    the last `u64` is requested from both of two providers. -/
theorem fetchPlan_no_provider :
    (missingBlocksInRange (fun _ => false) 7 7 = [7] ∧
      requested (fetchPlan (fun _ => false) 7 7 []) = []) ∧
    (fetchPlan (fun _ => false) (2 ^ 64 - 1) (2 ^ 64 - 1) [(0, 1), (1, 1)]) =
      [(0, 2 ^ 64 - 1, 2 ^ 64 - 1), (1, 2 ^ 64 - 1, 2 ^ 64 - 1)] := by
  decide

end MevScout.Fetch
