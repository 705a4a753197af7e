import Mathlib

/-!
# Windows and shards of a block range

Models of `block_windows` (`core/src/pool/discovery/mod.rs`) and of `distribute_blocks`
(`core/src/rpc/client.rs`), which cut a block range into windows and into shards of providers.

Results:
* `blockWindows_cover`, `blockWindows_inside`: the windows lie in the range and cover it;
* `distributeBlocks_cover`, `distributeBlocks_inside`: so do the shards.
-/

namespace MevScout.Pool.Discovery

/-- A range of blocks holds block `b`. -/
def Holds (r : ℕ × ℕ) (b : ℕ) : Prop := r.1 ≤ b ∧ b ≤ r.2

instance (r : ℕ × ℕ) (b : ℕ) : Decidable (Holds r b) := inferInstanceAs (Decidable (_ ∧ _))

/-! ## Windows -/

/-- The loop of `block_windows` (`discovery/mod.rs`, lines 1338–1346): `step` is one less than
    the batch. -/
def windowsFrom (step last current : ℕ) : List (ℕ × ℕ) :=
  if current ≤ last then
    let stop := min (current + step) last
    if stop = last then [(current, stop)] else (current, stop) :: windowsFrom step last (stop + 1)
  else []
  termination_by last + 1 - current

/-- Model of `block_windows` (`discovery/mod.rs`, lines 1332–1348). The loop over coarse windows
    in `discover_pools_shard` (lines 1500–1580) takes the same steps. -/
def blockWindows (start stop batch : ℕ) : List (ℕ × ℕ) :=
  if start > stop then [] else windowsFrom (max batch 1 - 1) stop start

theorem windowsFrom_cover (step last current : ℕ) {b : ℕ} (h : Holds (current, last) b) :
    ∃ w ∈ windowsFrom step last current, Holds w b := by
  induction current using windowsFrom.induct step last with
  | case1 current hle stop hstop =>
    rw [windowsFrom, if_pos hle]
    show ∃ w ∈ (if stop = last then _ else _), Holds w b
    rw [if_pos hstop]
    exact ⟨(current, stop), List.mem_singleton_self _, h.1, hstop ▸ h.2⟩
  | case2 current hle stop hstop ih =>
    rw [windowsFrom, if_pos hle]
    show ∃ w ∈ (if stop = last then _ else _), Holds w b
    rw [if_neg hstop]
    by_cases hb : b ≤ stop
    · exact ⟨(current, stop), List.mem_cons_self .., h.1, hb⟩
    · obtain ⟨w, hw, hholds⟩ := ih ⟨by show stop + 1 ≤ b; omega, h.2⟩
      exact ⟨w, List.mem_cons_of_mem _ hw, hholds⟩
  | case3 current hgt =>
    have hlt := h.1
    have hle := h.2
    dsimp only at hlt hle
    omega

theorem windowsFrom_inside (step last current : ℕ) {w : ℕ × ℕ}
    (h : w ∈ windowsFrom step last current) :
    current ≤ w.1 ∧ w.1 ≤ w.2 ∧ w.2 ≤ last := by
  induction current using windowsFrom.induct step last with
  | case1 current hle stop hstop =>
    rw [windowsFrom, if_pos hle] at h
    change w ∈ (if stop = last then _ else _) at h
    rw [if_pos hstop] at h
    obtain rfl := List.mem_singleton.mp h
    show current ≤ current ∧ current ≤ stop ∧ stop ≤ last
    omega
  | case2 current hle stop hstop ih =>
    have hbound : current ≤ stop ∧ stop ≤ last := by
      show current ≤ min (current + step) last ∧ min (current + step) last ≤ last
      omega
    rw [windowsFrom, if_pos hle] at h
    change w ∈ (if stop = last then _ else _) at h
    rw [if_neg hstop] at h
    rcases List.mem_cons.mp h with rfl | h
    · exact ⟨le_rfl, hbound⟩
    · obtain ⟨h1, h2, h3⟩ := ih h
      exact ⟨by omega, h2, h3⟩
  | case3 current hgt =>
    rw [windowsFrom, if_neg hgt] at h
    cases h

/-- A window is no longer than the batch. -/
theorem windowsFrom_width (step last current : ℕ) {w : ℕ × ℕ}
    (h : w ∈ windowsFrom step last current) : w.2 ≤ w.1 + step := by
  induction current using windowsFrom.induct step last with
  | case1 current hle stop hstop =>
    rw [windowsFrom, if_pos hle] at h
    change w ∈ (if stop = last then _ else _) at h
    rw [if_pos hstop] at h
    obtain rfl := List.mem_singleton.mp h
    exact min_le_left ..
  | case2 current hle stop hstop ih =>
    rw [windowsFrom, if_pos hle] at h
    change w ∈ (if stop = last then _ else _) at h
    rw [if_neg hstop] at h
    rcases List.mem_cons.mp h with rfl | h
    · exact min_le_left ..
    · exact ih h
  | case3 current hgt =>
    rw [windowsFrom, if_neg hgt] at h
    cases h

/-- A range that fits the batch is one window. -/
theorem blockWindows_whole {start stop batch : ℕ} (hle : start ≤ stop)
    (hfits : stop - start < max batch 1) : blockWindows start stop batch = [(start, stop)] := by
  have hstop : min (start + (max batch 1 - 1)) stop = stop := by omega
  rw [blockWindows, if_neg (by omega), windowsFrom, if_pos hle]
  dsimp only
  rw [hstop, if_pos rfl]

theorem blockWindows_cover {start stop b : ℕ} (batch : ℕ) (h : Holds (start, stop) b) :
    ∃ w ∈ blockWindows start stop batch, Holds w b := by
  have hle : start ≤ stop := h.1.trans h.2
  rw [blockWindows, if_neg (by omega)]
  exact windowsFrom_cover _ _ _ h

theorem blockWindows_inside {start stop batch : ℕ} {w : ℕ × ℕ}
    (h : w ∈ blockWindows start stop batch) : start ≤ w.1 ∧ w.1 ≤ w.2 ∧ w.2 ≤ stop := by
  unfold blockWindows at h
  split_ifs at h
  · cases h
  · exact windowsFrom_inside _ _ _ h

/-- The windows of one block are the blocks. -/
theorem mem_blockWindows_one {start stop b : ℕ} (h : Holds (start, stop) b) :
    (b, b) ∈ blockWindows start stop 1 := by
  obtain ⟨w, hw, hlow, hhigh⟩ := blockWindows_cover 1 h
  have hwidth : w.2 ≤ w.1 := by
    unfold blockWindows at hw
    split_ifs at hw
    · cases hw
    · exact windowsFrom_width _ _ _ hw
  have heq : w = (b, b) := Prod.ext (by show w.1 = b; omega) (by show w.2 = b; omega)
  exact heq ▸ hw

/-! ## Shards -/

/-- Model of `ProviderShard` (`client.rs`). -/
structure ProviderShard where
  providerIdx : ℕ
  start : ℕ
  stop : ℕ
  deriving DecidableEq

/-- The loop of `distribute_blocks` (`client.rs`, lines 765–782). Each provider comes with the
    share that its weight gives it, a product of floats; the last one takes the rest. -/
def shardsFrom (start totalBlocks assigned : ℕ) : List (ℕ × ℕ) → List ProviderShard
  | [] => []
  | (providerIdx, raw) :: alive =>
    let share :=
      if alive.isEmpty then totalBlocks - assigned
      else min (max raw 1) (totalBlocks - assigned)
    { providerIdx, start := start + assigned, stop := start + assigned + share - 1 } ::
      shardsFrom start totalBlocks (assigned + share) alive

/-- Model of `distribute_blocks` (`client.rs`, lines 741–785). -/
def distributeBlocks (start stop : ℕ) (alive : List (ℕ × ℕ)) : List ProviderShard :=
  match alive with
  | [] => []
  | [(providerIdx, _)] => [{ providerIdx, start, stop }]
  | _ => shardsFrom start (stop - start + 1) 0 alive

theorem shardsFrom_cover {start total : ℕ} {alive : List (ℕ × ℕ)} (hne : alive ≠ [])
    {assigned b : ℕ} (hlow : start + assigned ≤ b) (hhigh : b < start + total) :
    ∃ s ∈ shardsFrom start total assigned alive, Holds (s.start, s.stop) b := by
  induction alive generalizing assigned with
  | nil => exact absurd rfl hne
  | cons p alive ih =>
    cases alive with
    | nil =>
      refine ⟨_, List.mem_cons_self .., hlow, ?_⟩
      show b ≤ start + assigned + (total - assigned) - 1
      omega
    | cons p' alive =>
      have hne' : (p' :: alive) ≠ [] := List.cons_ne_nil _ _
      by_cases hb : b < start + (assigned + min (max p.2 1) (total - assigned))
      · refine ⟨_, List.mem_cons_self .., hlow, ?_⟩
        show b ≤ start + assigned + min (max p.2 1) (total - assigned) - 1
        omega
      · obtain ⟨s, hs, hholds⟩ := ih hne' (not_lt.mp hb)
        exact ⟨s, List.mem_cons_of_mem _ hs, hholds⟩

theorem shardsFrom_inside {start total : ℕ} {alive : List (ℕ × ℕ)} {assigned : ℕ}
    (htotal : 0 < total) (hassigned : assigned ≤ total) {s : ProviderShard}
    (hs : s ∈ shardsFrom start total assigned alive) {b : ℕ} (hb : Holds (s.start, s.stop) b) :
    start + assigned ≤ b ∧ b < start + total := by
  induction alive generalizing assigned with
  | nil => cases hs
  | cons p alive ih =>
    obtain ⟨share, hshare, hle, hzero⟩ : ∃ share, (if alive.isEmpty then total - assigned
        else min (max p.2 1) (total - assigned)) = share ∧ share ≤ total - assigned ∧
        (share = 0 → total - assigned = 0) := by
      refine ⟨_, rfl, ?_, ?_⟩ <;> split_ifs <;> omega
    unfold shardsFrom at hs
    rw [hshare] at hs
    rcases List.mem_cons.mp hs with rfl | hs
    · obtain ⟨hlow, hhigh⟩ := hb
      dsimp only at hlow hhigh
      omega
    · obtain ⟨h1, h2⟩ := ih (by omega) hs
      exact ⟨by omega, h2⟩

theorem distributeBlocks_cover {start stop b : ℕ} {alive : List (ℕ × ℕ)} (hne : alive ≠ [])
    (h : Holds (start, stop) b) :
    ∃ s ∈ distributeBlocks start stop alive, Holds (s.start, s.stop) b := by
  obtain ⟨hlow, hhigh⟩ := h
  dsimp only at hlow hhigh
  unfold distributeBlocks
  split
  · exact absurd rfl hne
  · exact ⟨_, List.mem_singleton_self _, hlow, hhigh⟩
  · exact shardsFrom_cover hne (by omega) (by omega)

theorem distributeBlocks_inside {start stop b : ℕ} {alive : List (ℕ × ℕ)} (hle : start ≤ stop)
    {s : ProviderShard} (hs : s ∈ distributeBlocks start stop alive)
    (hb : Holds (s.start, s.stop) b) : Holds (start, stop) b := by
  unfold distributeBlocks at hs
  split at hs
  · cases hs
  · obtain rfl := List.mem_singleton.mp hs
    exact hb
  · obtain ⟨h1, h2⟩ := shardsFrom_inside (by omega) (Nat.zero_le _) hs hb
    exact ⟨by show start ≤ b; omega, by show b ≤ stop; omega⟩

end MevScout.Pool.Discovery
