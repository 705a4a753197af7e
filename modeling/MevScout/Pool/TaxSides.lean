import MevScout.Pool.Taxes

/-!
# The two sides of a swap, for transfer taxes

What `learn_taxes_from_tx` (`core/src/pool/state/manager.rs`) learns from the V3 swaps of a
transaction, against the same transaction with the roles of the two tokens of a V3 pool
exchanged: token 0 of the pool becomes token 1, and its swap logs report the amounts in the other
order. The tokens themselves, and their transfers, stay as they are, so that the same tokens
should be flagged.

Results:
* `mem_learned`: the tokens that a transaction flags;
* `flaggedBy_mirror_swap`, `flaggedBy_mirror_other`: what the exchange of the roles does to the
  swaps of a pool;
* `sides_alike_iff`: the transactions whose swaps are treated alike on both sides;
* `oneForZero_not_checked`: a swap neither side of which is checked.
-/

namespace MevScout.Pool

open Chain

variable {rt : TaxRuntime} {pm pm' : PoolManager} {logs : List ExecutedLog} {log : ExecutedLog}
  {a t : Address}

/-! ## The flagged tokens -/

/-- The transfers into and out of the pools. -/
def totalsOf (pm : PoolManager) (logs : List ExecutedLog) : TransferTotals × TransferTotals :=
  logs.foldl pm.countTransfer (fun _ => 0, fun _ => 0)

/-- One side of a declaration falls short of the transfers. -/
def Short (rt : TaxRuntime) (totals : TransferTotals) (pool t : Address) (amount : ℕ) : Prop :=
  t ∉ rebaseTokens ∧ minTaxCheckAmount ≤ amount ∧ rt.shortfall (totals (pool, t)) amount = true

/-- A declaration flags `t`. -/
def Flags (rt : TaxRuntime) (totals : TransferTotals × TransferTotals) (d : SwapDeclaration)
    (t : Address) : Prop :=
  (d.tokenIn = some t ∧ Short rt totals.1 d.pool t d.amountIn) ∨
    (d.tokenOut = some t ∧ Short rt totals.2 d.pool t d.amountOut)

/-- A log flags `t`. -/
def FlaggedBy (rt : TaxRuntime) (pm : PoolManager) (totals : TransferTotals × TransferTotals)
    (log : ExecutedLog) (t : Address) : Prop :=
  ∃ ds, pm.declarations rt log = .ok ds ∧ ∃ d ∈ ds, Flags rt totals d t

theorem mem_checkSide {totals : TransferTotals} {pool : Address} {token : Option Address}
    {amount : ℕ} {set : Finset Address} :
    t ∈ PoolManager.checkSide rt totals pool token amount set ↔
      t ∈ set ∨ token = some t ∧ Short rt totals pool t amount := by
  unfold PoolManager.checkSide Short
  split_ifs with hmin
  · cases token with
    | none => simp
    | some t' =>
      show t ∈ PoolManager.flagIfShortfall _ _ _ _ _ ↔ _
      unfold PoolManager.flagIfShortfall
      split_ifs with hrebase hshort
      · refine (or_iff_left ?_).symm
        rintro ⟨heq, hnot, -, -⟩
        exact hnot (Option.some.inj heq ▸ hrebase)
      · rw [Finset.mem_insert, or_comm]
        refine or_congr_right ⟨?_, fun h => (Option.some.inj h.1).symm⟩
        rintro rfl
        exact ⟨rfl, hrebase, hmin, hshort⟩
      · refine (or_iff_left ?_).symm
        rintro ⟨heq, -, -, hs⟩
        exact hshort (Option.some.inj heq ▸ hs)
  · refine (or_iff_left ?_).symm
    rintro ⟨-, -, hge, -⟩
    exact hmin hge

theorem mem_foldl_checks {totals : TransferTotals × TransferTotals} {ds : List SwapDeclaration}
    {set : Finset Address} :
    t ∈ ds.foldl (fun set d => PoolManager.checkSide rt totals.2 d.pool d.tokenOut d.amountOut
        (PoolManager.checkSide rt totals.1 d.pool d.tokenIn d.amountIn set)) set ↔
      t ∈ set ∨ ∃ d ∈ ds, Flags rt totals d t := by
  induction ds generalizing set with
  | nil => simp
  | cons d ds ih =>
    rw [List.foldl_cons, ih, mem_checkSide, mem_checkSide, List.exists_mem_cons_iff, or_assoc,
      or_assoc, ← or_assoc (b := d.tokenOut = some t ∧ _)]
    rfl

/-- **The flagged tokens.** A token is flagged after a transaction when it was before, or when a
    log flags it. -/
theorem mem_learned (h : pm.learnTaxesFromTx rt logs = .ok pm') :
    t ∈ pm'.dynamicFot ↔
      t ∈ pm.dynamicFot ∨ ∃ log ∈ logs, FlaggedBy rt pm (totalsOf pm logs) log t := by
  unfold PoolManager.learnTaxesFromTx at h
  dsimp only at h
  rw [bind_eq_ok] at h
  obtain ⟨decls, hdecls, h⟩ := h
  obtain rfl := Except.ok.inj h
  exact mem_foldl_checks.trans (or_congr_right (exists_mem_flatten_iff hdecls))

/-! ## The exchange of the roles -/

/-- A pool whose tokens have exchanged their roles. -/
def mirrorInfo (info : PoolInfo) : PoolInfo :=
  { info with token0 := info.token1, token1 := info.token0 }

/-- The tokens of the pool at `a` exchange their roles. -/
def mirrorManager (pm : PoolManager) (a : Address) : PoolManager :=
  { pm with pools := pm.pools.modify a (PoolState.mapInfo mirrorInfo) }

/-- The first two words in the other order. -/
def swapWords (data : List UInt8) : List UInt8 :=
  slice data 32 64 ++ slice data 0 32 ++ data.drop 64

/-- The data of a swap log whose tokens have exchanged their roles: a V3 swap reports one amount
    for each token, and a V2 swap two. -/
def mirrorData (topic0 : Option B256) (data : List UInt8) : List UInt8 :=
  if topic0 = some v3SwapTopic ∧ 64 ≤ data.length then swapWords data
  else if (topic0 = some v2SwapTopic ∨ topic0 = some solidlySwapTopic) ∧ 128 ≤ data.length then
    swapWords (slice data 0 64) ++ swapWords (data.drop 64)
  else data

/-- A log after the tokens of the pool at `a` have exchanged their roles. -/
def mirrorLog (a : Address) (log : ExecutedLog) : ExecutedLog :=
  if log.address = a then { log with data := mirrorData log.topics.head? log.data } else log

@[simp] theorem mirrorLog_address (a : Address) (log : ExecutedLog) :
    (mirrorLog a log).address = log.address := by
  unfold mirrorLog
  split_ifs <;> rfl

@[simp] theorem mirrorLog_topics (a : Address) (log : ExecutedLog) :
    (mirrorLog a log).topics = log.topics := by
  unfold mirrorLog
  split_ifs <;> rfl

theorem mirrorLog_of_ne (h : log.address ≠ a) : mirrorLog a log = log := if_neg h

theorem mirrorLog_data (h : log.address = a) :
    (mirrorLog a log).data = mirrorData log.topics.head? log.data := by
  rw [mirrorLog, if_pos h]

/-- A log that is not a swap keeps its data. -/
theorem mirrorLog_of_topic (h3 : log.topics.head? ≠ some v3SwapTopic)
    (h2 : log.topics.head? ≠ some v2SwapTopic) (hs : log.topics.head? ≠ some solidlySwapTopic) :
    mirrorLog a log = log := by
  unfold mirrorLog mirrorData
  split_ifs with _ hv3 hv2
  · exact absurd hv3.1 h3
  · exact absurd hv2.1 (not_or_intro h2 hs)
  · rfl
  · rfl

/-! ### Words -/

theorem length_swapWords {data : List UInt8} (h : 64 ≤ data.length) :
    (swapWords data).length = data.length := by
  unfold swapWords
  rw [List.length_append, List.length_append, length_slice (by omega) h,
    length_slice (by omega) (by omega), List.length_drop]
  omega

theorem swapWords_first {data : List UInt8} (h : 64 ≤ data.length) {i j : ℕ} (hj : j ≤ 32) :
    slice (swapWords data) i j = slice data (32 + i) (32 + j) := by
  have hlen : (slice data 32 64).length = 32 := length_slice (by omega) h
  unfold swapWords
  rw [List.append_assoc, slice_append_left (by omega), slice_slice _ (by omega)]

theorem swapWords_second {data : List UInt8} (h : 64 ≤ data.length) {i j : ℕ} (hj : j ≤ 32) :
    slice (swapWords data) (32 + i) (32 + j) = slice data i j := by
  have hlen : (slice data 32 64).length = 32 := length_slice (by omega) h
  have hlen' : (slice data 0 32).length = 32 := length_slice (by omega) (by omega)
  unfold swapWords
  rw [List.append_assoc, slice_append_right (by omega), hlen, slice_append_left (by omega),
    Nat.add_sub_cancel_left, Nat.add_sub_cancel_left, slice_slice _ (by omega), Nat.zero_add,
    Nat.zero_add]

theorem swapWords_rest {data : List UInt8} (h : 64 ≤ data.length) {i j : ℕ} :
    slice (swapWords data) (64 + i) (64 + j) = slice data (64 + i) (64 + j) := by
  have hlen : (slice data 32 64).length = 32 := length_slice (by omega) h
  have hlen' : (slice data 0 32).length = 32 := length_slice (by omega) (by omega)
  have hboth : (slice data 32 64 ++ slice data 0 32).length = 64 := by
    rw [List.length_append, hlen, hlen']
  unfold swapWords
  rw [slice_append_right (by omega), hboth, Nat.add_sub_cancel_left, Nat.add_sub_cancel_left,
    slice_drop]

theorem length_mirrorData (topic0 : Option B256) (data : List UInt8) :
    (mirrorData topic0 data).length = data.length := by
  unfold mirrorData
  split_ifs with h3 h2
  · exact length_swapWords h3.2
  · have hlen : (slice data 0 64).length = 64 := length_slice (by omega) (by omega)
    have hdrop : (data.drop 64).length = data.length - 64 := List.length_drop
    rw [List.length_append, length_swapWords (by omega), length_swapWords (by omega)]
    omega
  · rfl

theorem length_mirrorLog (a : Address) (log : ExecutedLog) :
    (mirrorLog a log).data.length = log.data.length := by
  unfold mirrorLog
  split_ifs
  · exact length_mirrorData _ _
  · rfl

/-- The four amounts of a V2 swap, after the exchange. -/
theorem slice_swapPairs {data : List UInt8} (h : 128 ≤ data.length) :
    slice (swapWords (slice data 0 64) ++ swapWords (data.drop 64)) 0 32 = slice data 32 64 ∧
    slice (swapWords (slice data 0 64) ++ swapWords (data.drop 64)) 32 64 = slice data 0 32 ∧
    slice (swapWords (slice data 0 64) ++ swapWords (data.drop 64)) 64 96 = slice data 96 128 ∧
    slice (swapWords (slice data 0 64) ++ swapWords (data.drop 64)) 96 128 = slice data 64 96 := by
  have hlen : (slice data 0 64).length = 64 := length_slice (by omega) (by omega)
  have hswap : (swapWords (slice data 0 64)).length = 64 := by rw [length_swapWords hlen.ge, hlen]
  have hdrop : 64 ≤ (data.drop 64).length := by rw [List.length_drop]; omega
  have hfirst {i j : ℕ} (hj : j ≤ 32) : slice (swapWords (slice data 0 64)) i j =
      slice data (32 + i) (32 + j) := by
    rw [swapWords_first hlen.ge hj, slice_slice _ (by omega), Nat.zero_add, Nat.zero_add]
  have hsecond {i j : ℕ} (hj : j ≤ 32) :
      slice (swapWords (slice data 0 64)) (32 + i) (32 + j) = slice data i j := by
    rw [swapWords_second hlen.ge hj, slice_slice _ (by omega), Nat.zero_add, Nat.zero_add]
  have hthird {i j : ℕ} (hj : j ≤ 32) : slice (swapWords (data.drop 64)) i j =
      slice data (96 + i) (96 + j) := by
    rw [swapWords_first hdrop hj, slice_drop, ← Nat.add_assoc, ← Nat.add_assoc]
  have hfourth {i j : ℕ} (hj : j ≤ 32) :
      slice (swapWords (data.drop 64)) (32 + i) (32 + j) = slice data (64 + i) (64 + j) := by
    rw [swapWords_second hdrop hj, slice_drop]
  refine ⟨?_, ?_, ?_, ?_⟩
  · rw [slice_append_left (by omega), hfirst le_rfl]
  · rw [slice_append_left (by omega), hsecond (i := 0) (j := 32) le_rfl]
  · rw [slice_append_right (by omega), hswap, hthird (i := 0) (j := 32) le_rfl]
  · rw [slice_append_right (by omega), hswap, hfourth (i := 0) (j := 32) le_rfl]

/-- A swap that reports its amounts in the other order. -/
def V3SwapDecoded.mirror (d : V3SwapDecoded) : V3SwapDecoded :=
  { d with amount0 := d.amount1, amount1 := d.amount0 }

theorem decodeV3Swap_mirrorLog {d : V3SwapDecoded} (ha : log.address = a)
    (hd : decodeV3Swap log = some d) : decodeV3Swap (mirrorLog a log) = some d.mirror := by
  obtain ⟨htopic, hlen, rfl⟩ := decodeV3Swap_eq_some_iff.mp hd
  have hdata : (mirrorLog a log).data = swapWords log.data := by
    rw [mirrorLog_data ha, mirrorData, if_pos ⟨htopic, by omega⟩]
  have h64 : 64 ≤ log.data.length := by omega
  rw [decodeV3Swap_eq_some_iff, mirrorLog_topics, hdata, length_swapWords h64]
  refine ⟨htopic, hlen, ?_⟩
  have h0 : slice (swapWords log.data) 16 32 = slice log.data 48 64 :=
    swapWords_first h64 (i := 16) (j := 32) le_rfl
  have h1 : slice (swapWords log.data) 48 64 = slice log.data 16 32 :=
    swapWords_second h64 (i := 16) (j := 32) le_rfl
  have hprice : slice (swapWords log.data) 64 96 = slice log.data 64 96 :=
    swapWords_rest h64 (i := 0) (j := 32)
  have hliq : slice (swapWords log.data) 96 128 = slice log.data 96 128 :=
    swapWords_rest h64 (i := 32) (j := 64)
  have htick : slice (swapWords log.data) 156 160 = slice log.data 156 160 :=
    swapWords_rest h64 (i := 92) (j := 96)
  rw [h0, h1, hprice, hliq, htick]
  rfl

/-! ### Declarations -/

/-- The declarations of a V3 swap: a received amount of token 0 and a paid amount of token 1 are
    declared, and otherwise an amount of 0. -/
theorem declarations_v3Swap (rt : TaxRuntime) {p : PoolState} {d : V3SwapDecoded}
    (hp : pm.pools[log.address]? = some p) (hd : decodeV3Swap log = some d) :
    ∃ x, pm.declarations rt log = .ok [x] ∧ x.pool = log.address ∧
      x.tokenIn = some (if d.amount0 > 0 then p.info.token0 else p.info.token1) ∧
      x.amountIn = (if d.amount0 > 0 then d.amount0.natAbs else 0) ∧
      x.tokenOut = some (if d.amount1 < 0 then p.info.token1 else p.info.token0) ∧
      x.amountOut = (if d.amount1 < 0 then d.amount1.natAbs else 0) := by
  obtain ⟨rest, hl⟩ : ∃ rest, log.topics = v3SwapTopic :: rest :=
    List.head?_eq_some_iff.mp (decodeV3Swap_eq_some_iff.mp hd).1
  refine ⟨⟨log.address, some (if d.amount0 > 0 then p.info.token0 else p.info.token1),
    if d.amount0 > 0 then d.amount0.natAbs else 0,
    some (if d.amount1 < 0 then p.info.token1 else p.info.token0),
    if d.amount1 < 0 then d.amount1.natAbs else 0⟩, ?_, rfl, rfl, rfl, rfl, rfl⟩
  unfold PoolManager.declarations
  rw [hl, hp]
  dsimp only
  rw [if_neg (by decide), if_pos rfl, hd]
  dsimp only [Option.elim]
  split_ifs <;> rfl

/-- The tokens that a swap with the input `tokenIn` and the output `tokenOut` flags. -/
def SwapFlags (rt : TaxRuntime) (totals : TransferTotals × TransferTotals)
    (pool tokenIn tokenOut : Address) (amountIn amountOut : ℤ) (t : Address) : Prop :=
  (0 < amountIn ∧ t = tokenIn ∧ Short rt totals.1 pool t amountIn.natAbs) ∨
    (amountOut < 0 ∧ t = tokenOut ∧ Short rt totals.2 pool t amountOut.natAbs)

theorem not_short_zero {totals : TransferTotals} {pool : Address} : ¬Short rt totals pool t 0 :=
  fun h => absurd h.2.1 (by decide)

theorem flaggedBy_v3Swap {totals : TransferTotals × TransferTotals} {p : PoolState}
    {d : V3SwapDecoded} (hp : pm.pools[log.address]? = some p)
    (hd : decodeV3Swap log = some d) : FlaggedBy rt pm totals log t ↔
      SwapFlags rt totals log.address p.info.token0 p.info.token1 d.amount0 d.amount1 t := by
  obtain ⟨x, hx, hpool, hin, hain, hout, haout⟩ := declarations_v3Swap rt hp hd
  have hflags : FlaggedBy rt pm totals log t ↔ Flags rt totals x t := by
    constructor
    · rintro ⟨ds, hds, y, hy, hflag⟩
      obtain rfl := Except.ok.inj (hx.symm.trans hds)
      obtain rfl := List.mem_singleton.mp hy
      exact hflag
    · exact fun hflag => ⟨_, hx, x, List.mem_singleton_self x, hflag⟩
  rw [hflags]
  unfold Flags SwapFlags
  rw [hpool, hin, hain, hout, haout, Option.some_inj, Option.some_inj]
  refine or_congr ?_ ?_
  · split_ifs with h0
    · exact ⟨fun h => ⟨h0, h.1.symm, h.2⟩, fun h => ⟨h.2.1.symm, h.2.2⟩⟩
    · exact iff_of_false (fun h => not_short_zero h.2) fun h => h0 h.1
  · split_ifs with h1
    · exact ⟨fun h => ⟨h1, h.1.symm, h.2⟩, fun h => ⟨h.2.1.symm, h.2.2⟩⟩
    · exact iff_of_false (fun h => not_short_zero h.2) fun h => h1 h.1

theorem mirrorManager_pool {p : PoolState} (hp : pm.pools[a]? = some p) :
    (mirrorManager pm a).pools[a]? = some (p.mapInfo mirrorInfo) := by
  show (pm.pools.modify a (PoolState.mapInfo mirrorInfo))[a]? = _
  rw [Map.getElem?_modify_eq, if_pos rfl, hp]
  rfl

theorem mirrorManager_pool_of_ne {b : Address} (h : a ≠ b) :
    (mirrorManager pm a).pools[b]? = pm.pools[b]? := Map.getElem?_modify_of_ne _ h

/-- The swaps of the pool flag the same tokens as a swap in the other direction of the pool as
    it was. -/
theorem flaggedBy_mirror_swap {totals : TransferTotals × TransferTotals} {p : PoolState}
    {d : V3SwapDecoded} (hp : pm.pools[a]? = some p) (ha : log.address = a)
    (hd : decodeV3Swap log = some d) :
    FlaggedBy rt (mirrorManager pm a) totals (mirrorLog a log) t ↔
      SwapFlags rt totals a p.info.token1 p.info.token0 d.amount1 d.amount0 t := by
  have hp' : (mirrorManager pm a).pools[(mirrorLog a log).address]? =
      some (p.mapInfo mirrorInfo) := by
    rw [mirrorLog_address, ha]
    exact mirrorManager_pool hp
  rw [flaggedBy_v3Swap hp' (decodeV3Swap_mirrorLog ha hd), PoolState.info_mapInfo,
    mirrorLog_address, ha]
  rfl

/-- The V2 swap logs of the pool declare the same, in the other order. -/
theorem declarations_v2Swap_mirror {s : UniswapV3PoolState} {ds : List SwapDeclaration}
    (hp : pm.pools[a]? = some (.uniswapV3 s)) (ha : log.address = a) {topic0 : B256}
    {rest : List B256} (hl : log.topics = topic0 :: rest)
    (h2 : topic0 = v2SwapTopic ∨ topic0 = solidlySwapTopic)
    (h : pm.declarations rt log = .ok ds) :
    (mirrorManager pm a).declarations rt (mirrorLog a log) = .ok ds.reverse := by
  have hp' := mirrorManager_pool hp
  have h3 : topic0 ≠ v3SwapTopic := by rcases h2 with rfl | rfl <;> decide
  unfold PoolManager.declarations at h ⊢
  rw [mirrorLog_topics, mirrorLog_address, length_mirrorLog]
  rw [hl, ha, hp] at h
  rw [hl, ha, hp']
  dsimp only at h ⊢
  rw [if_pos h2] at h ⊢
  split_ifs at h ⊢ with hshort
  · obtain rfl := Except.ok.inj h
    rfl
  · have hdata : (mirrorLog a log).data =
        swapWords (slice log.data 0 64) ++ swapWords (log.data.drop 64) := by
      rw [mirrorLog_data ha, mirrorData, hl, List.head?_cons, if_neg, if_pos]
      · simp only [Option.some_inj]
        exact ⟨h2, not_lt.mp hshort⟩
      · simp only [Option.some_inj]
        exact fun h => h3 h.1
    obtain ⟨hin0, hin1, hout0, hout1⟩ := slice_swapPairs (not_lt.mp hshort)
    obtain rfl := Except.ok.inj h
    rw [hdata, hin0, hin1, hout0, hout1, PoolState.info_mapInfo]
    rfl

/-- The other logs declare the same. -/
theorem declarations_other_mirror {s : UniswapV3PoolState} {ds : List SwapDeclaration}
    (hp : pm.pools[a]? = some (.uniswapV3 s)) (hd : log.address = a → decodeV3Swap log = none)
    (h : pm.declarations rt log = .ok ds) :
    ∃ ds', (mirrorManager pm a).declarations rt (mirrorLog a log) = .ok ds' ∧
      ∀ x, x ∈ ds' ↔ x ∈ ds := by
  by_cases ha : log.address = a
  · have hp' := mirrorManager_pool hp
    cases hl : log.topics with
    | nil =>
      have hnil : pm.declarations rt log = .ok [] := by
        unfold PoolManager.declarations
        rw [hl]
      obtain rfl := Except.ok.inj (hnil.symm.trans h)
      refine ⟨[], ?_, fun _ => Iff.rfl⟩
      unfold PoolManager.declarations
      rw [mirrorLog_topics, hl]
    | cons topic0 rest =>
      by_cases h2 : topic0 = v2SwapTopic ∨ topic0 = solidlySwapTopic
      · exact ⟨_, declarations_v2Swap_mirror hp ha hl h2 h, fun x => List.mem_reverse⟩
      · refine ⟨ds, ?_, fun _ => Iff.rfl⟩
        by_cases h3 : topic0 = v3SwapTopic
        · have hnone : decodeV3Swap (mirrorLog a log) = none := by
            rw [Option.eq_none_iff_forall_ne_some]
            intro d hsome
            obtain ⟨htopic, hlen, -⟩ := decodeV3Swap_eq_some_iff.mp hsome
            rw [mirrorLog_topics] at htopic
            rw [length_mirrorLog] at hlen
            have hdecode := decodeV3Swap_eq_some_iff.mpr ⟨htopic, hlen, rfl⟩
            rw [hd ha] at hdecode
            cases hdecode
          rw [← h]
          unfold PoolManager.declarations
          rw [mirrorLog_topics, mirrorLog_address, hl, ha, hp, hp']
          dsimp only
          rw [if_neg h2, if_neg h2, if_pos h3, if_pos h3, hnone, hd ha]
          rfl
        · have hlog : mirrorLog a log = log := by
            apply mirrorLog_of_topic <;> rw [hl, List.head?_cons, Ne, Option.some_inj]
            · exact h3
            · exact fun h => h2 (.inl h)
            · exact fun h => h2 (.inr h)
          rw [hlog, ← h]
          unfold PoolManager.declarations
          rw [hl, ha, hp, hp']
          dsimp only [PoolState.mapInfo]
          rw [if_neg h2, if_neg h2, if_neg h3, if_neg h3]
  · refine ⟨ds, ?_, fun _ => Iff.rfl⟩
    rw [mirrorLog_of_ne ha, ← h]
    unfold PoolManager.declarations
    rw [mirrorManager_pool_of_ne (Ne.symm ha)]

/-- The transfers are counted as before. -/
theorem countTransfer_mirror (totals : TransferTotals × TransferTotals) :
    (mirrorManager pm a).countTransfer totals (mirrorLog a log) = pm.countTransfer totals log := by
  by_cases htopic : log.topics.head? = some transferTopic
  · have hlog : mirrorLog a log = log := by
      apply mirrorLog_of_topic <;> rw [htopic, Ne, Option.some_inj] <;> decide
    rw [hlog]
    rfl
  · have hskip (pm : PoolManager) {log : ExecutedLog}
        (h : log.topics.head? ≠ some transferTopic) : pm.countTransfer totals log = totals := by
      unfold PoolManager.countTransfer
      split
      · rename_i topic0 topic1 topic2 rest hl
        rw [if_pos (.inr fun heq => h (by rw [hl, heq, List.head?_cons]))]
      · rfl
    rw [hskip _ htopic, hskip _ (by rwa [mirrorLog_topics])]

theorem totalsOf_mirror (logs : List ExecutedLog) :
    totalsOf (mirrorManager pm a) (logs.map (mirrorLog a)) = totalsOf pm logs := by
  unfold totalsOf
  rw [List.foldl_map]
  congr 1
  funext totals log
  exact countTransfer_mirror totals

/-! ## Both sides -/

/-- A V3 pool, whose two tokens have different roles. -/
def V3At (pm : PoolManager) (a : Address) (s : UniswapV3PoolState) : Prop :=
  pm.pools[a]? = some (.uniswapV3 s) ∧ s.info.token0 ≠ s.info.token1

/-- What a swap of a pool receives and what it pays out, declared with its amount. -/
structure BothDeclared (info : PoolInfo) (d : V3SwapDecoded) (ds : List SwapDeclaration) :
    Prop where
  in0 : 0 < d.amount0 → ∃ x ∈ ds, x.tokenIn = some info.token0 ∧ x.amountIn = d.amount0.natAbs
  in1 : 0 < d.amount1 → ∃ x ∈ ds, x.tokenIn = some info.token1 ∧ x.amountIn = d.amount1.natAbs
  out0 : d.amount0 < 0 → ∃ x ∈ ds, x.tokenOut = some info.token0 ∧ x.amountOut = d.amount0.natAbs
  out1 : d.amount1 < 0 → ∃ x ∈ ds, x.tokenOut = some info.token1 ∧ x.amountOut = d.amount1.natAbs

/-- Learning treats both sides of the swaps of the V3 pools alike: the exchange of the roles in
    a pool flags the same tokens, and every swap has both sides declared. -/
def SidesAlike (rt : TaxRuntime) (pm : PoolManager) (logs : List ExecutedLog) : Prop :=
  ∀ pm', pm.learnTaxesFromTx rt logs = .ok pm' → ∀ a s, V3At pm a s →
    (∃ pm'', (mirrorManager pm a).learnTaxesFromTx rt (logs.map (mirrorLog a)) = .ok pm'' ∧
      pm''.dynamicFot = pm'.dynamicFot) ∧
    ∀ log ∈ logs, log.address = a → ∀ d, decodeV3Swap log = some d →
      ∃ ds, pm.declarations rt log = .ok ds ∧ BothDeclared s.info d ds

/-- Every swap of a V3 pool receives token 0 and pays out token 1, and flags only tokens that are
    flagged without the swaps of the pool. -/
def OneSided (rt : TaxRuntime) (pm : PoolManager) (logs : List ExecutedLog) : Prop :=
  ∀ a s, V3At pm a s → ∀ log ∈ logs, log.address = a → ∀ d, decodeV3Swap log = some d →
    0 ≤ d.amount0 ∧ d.amount1 ≤ 0 ∧
    ∀ t, SwapFlags rt (totalsOf pm logs) a s.info.token0 s.info.token1 d.amount0 d.amount1 t →
      t ∈ pm.dynamicFot ∨ ∃ other ∈ logs,
        (other.address = a → decodeV3Swap other = none) ∧
          FlaggedBy rt pm (totalsOf pm logs) other t

theorem bothDeclared_iff {s : UniswapV3PoolState} {d : V3SwapDecoded}
    (hs : V3At pm log.address s) (hd : decodeV3Swap log = some d) :
    (∃ ds, pm.declarations rt log = .ok ds ∧ BothDeclared s.info d ds) ↔
      0 ≤ d.amount0 ∧ d.amount1 ≤ 0 := by
  obtain ⟨x, hx, hpool, hin, hain, hout, haout⟩ := declarations_v3Swap rt hs.1 hd
  constructor
  · rintro ⟨ds, hds, hboth⟩
    obtain rfl := Except.ok.inj (hx.symm.trans hds)
    constructor
    · by_contra hneg
      obtain ⟨y, hy, htoken, hamount⟩ := hboth.out0 (not_le.mp hneg)
      obtain rfl := List.mem_singleton.mp hy
      rw [hout] at htoken
      rw [haout] at hamount
      split_ifs at htoken hamount with h1
      · exact hs.2 (Option.some.inj htoken).symm
      · omega
    · by_contra hpos
      obtain ⟨y, hy, htoken, hamount⟩ := hboth.in1 (not_le.mp hpos)
      obtain rfl := List.mem_singleton.mp hy
      rw [hin] at htoken
      rw [hain] at hamount
      split_ifs at htoken hamount with h0
      · exact hs.2 (Option.some.inj htoken)
      · omega
  · rintro ⟨h0, h1⟩
    refine ⟨_, hx, fun hpos => ⟨x, List.mem_singleton_self x, ?_, ?_⟩, fun hpos => absurd hpos
      (not_lt.mpr h1), fun hneg => absurd hneg (not_lt.mpr h0), fun hneg =>
      ⟨x, List.mem_singleton_self x, ?_, ?_⟩⟩
    · rw [hin, if_pos hpos]
      rfl
    · rw [hain, if_pos hpos]
    · rw [hout, if_pos hneg]
      rfl
    · rw [haout, if_pos hneg]

/-- A log of the pool is one of its swaps, or it is none. -/
theorem swap_or_other (a : Address) (log : ExecutedLog) :
    (log.address = a ∧ ∃ d, decodeV3Swap log = some d) ∨
      (log.address = a → decodeV3Swap log = none) := by
  by_cases ha : log.address = a
  · cases hd : decodeV3Swap log with
    | none => exact .inr fun _ => rfl
    | some d => exact .inl ⟨ha, d, rfl⟩
  · exact .inr fun h => absurd h ha

/-- The exchanged transaction returns when the transaction does. -/
theorem mirror_returns {s : UniswapV3PoolState} (hp : pm.pools[a]? = some (.uniswapV3 s))
    (h : pm.learnTaxesFromTx rt logs = .ok pm') :
    ∃ pm'', (mirrorManager pm a).learnTaxesFromTx rt (logs.map (mirrorLog a)) = .ok pm'' := by
  have hreturns := (PoolManager.learnTaxesFromTx_ok_iff rt).mp ⟨pm', h⟩
  rw [PoolManager.learnTaxesFromTx_ok_iff rt]
  intro log' hlog'
  obtain ⟨log, hlog, rfl⟩ := List.mem_map.mp hlog'
  rw [← PoolManager.declarations_ok_iff rt]
  rcases swap_or_other a log with ⟨ha, d, hd⟩ | hother
  · have hp' : (mirrorManager pm a).pools[(mirrorLog a log).address]? =
        some ((PoolState.uniswapV3 s).mapInfo mirrorInfo) := by
      rw [mirrorLog_address, ha]
      exact mirrorManager_pool hp
    obtain ⟨x, hx, -⟩ := declarations_v3Swap rt hp' (decodeV3Swap_mirrorLog ha hd)
    exact ⟨_, hx⟩
  · obtain ⟨ds, hds⟩ := (PoolManager.declarations_ok_iff rt).mpr (hreturns log hlog)
    obtain ⟨ds', hds', -⟩ := declarations_other_mirror hp hother hds
    exact ⟨ds', hds'⟩

/-- A log that is not a swap of the pool flags the same tokens. -/
theorem flaggedBy_mirror_other {totals : TransferTotals × TransferTotals} {s : UniswapV3PoolState}
    {ds : List SwapDeclaration} (hp : pm.pools[a]? = some (.uniswapV3 s))
    (hother : log.address = a → decodeV3Swap log = none) (hds : pm.declarations rt log = .ok ds) :
    FlaggedBy rt (mirrorManager pm a) totals (mirrorLog a log) t ↔
      FlaggedBy rt pm totals log t := by
  obtain ⟨ds', hds', hmem⟩ := declarations_other_mirror hp hother hds
  have hsame (pm : PoolManager) {log : ExecutedLog} {ds : List SwapDeclaration}
      (h : pm.declarations rt log = .ok ds) :
      FlaggedBy rt pm totals log t ↔ ∃ d ∈ ds, Flags rt totals d t := by
    unfold FlaggedBy
    rw [h]
    refine ⟨?_, fun hflag => ⟨ds, rfl, hflag⟩⟩
    rintro ⟨_, heq, hflag⟩
    obtain rfl := Except.ok.inj heq
    exact hflag
  rw [hsame _ hds', hsame _ hds]
  simp only [hmem]

/-- The tokens that the exchanged transaction flags: those of the other logs, and those that the
    swaps of the pool flag when they are read in the other direction. -/
theorem mem_mirrored {s : UniswapV3PoolState} {pm'' : PoolManager}
    (hp : pm.pools[a]? = some (.uniswapV3 s)) (h : pm.learnTaxesFromTx rt logs = .ok pm')
    (h' : (mirrorManager pm a).learnTaxesFromTx rt (logs.map (mirrorLog a)) = .ok pm'') :
    t ∈ pm''.dynamicFot ↔ t ∈ pm.dynamicFot ∨
      (∃ log ∈ logs, (log.address = a → decodeV3Swap log = none) ∧
        FlaggedBy rt pm (totalsOf pm logs) log t) ∨
      ∃ log ∈ logs, log.address = a ∧ ∃ d, decodeV3Swap log = some d ∧
        SwapFlags rt (totalsOf pm logs) a s.info.token1 s.info.token0 d.amount1 d.amount0 t := by
  have hreturns := (PoolManager.learnTaxesFromTx_ok_iff rt).mp ⟨pm', h⟩
  rw [mem_learned h', totalsOf_mirror]
  refine or_congr_right ⟨?_, ?_⟩
  · rintro ⟨log', hlog', hflag⟩
    obtain ⟨log, hlog, rfl⟩ := List.mem_map.mp hlog'
    rcases swap_or_other a log with ⟨ha, d, hd⟩ | hother
    · exact .inr ⟨log, hlog, ha, d, hd, (flaggedBy_mirror_swap hp ha hd).mp hflag⟩
    · obtain ⟨ds, hds⟩ := (PoolManager.declarations_ok_iff rt).mpr (hreturns log hlog)
      exact .inl ⟨log, hlog, hother, (flaggedBy_mirror_other hp hother hds).mp hflag⟩
  · rintro (⟨log, hlog, hother, hflag⟩ | ⟨log, hlog, ha, d, hd, hflag⟩)
    · obtain ⟨ds, hds⟩ := (PoolManager.declarations_ok_iff rt).mpr (hreturns log hlog)
      exact ⟨_, List.mem_map_of_mem hlog, (flaggedBy_mirror_other hp hother hds).mpr hflag⟩
    · exact ⟨_, List.mem_map_of_mem hlog, (flaggedBy_mirror_swap hp ha hd).mpr hflag⟩

/-- **Main theorem.** A transaction whose learning returns is treated alike on both sides exactly
    when the swaps of its V3 pools all receive token 0 and pay out token 1, and flag no token that
    is not flagged without them. -/
theorem sides_alike_iff (rt : TaxRuntime) (pm : PoolManager) (logs : List ExecutedLog) :
    SidesAlike rt pm logs ↔
      ((∀ log ∈ logs, log.address ∈ pm.pools → ∃ d, decodePendleSwap log = .ok d) →
        OneSided rt pm logs) := by
  rw [← PoolManager.learnTaxesFromTx_ok_iff rt]
  constructor
  · rintro halike ⟨pm', h⟩ a s hs log hlog rfl d hd
    obtain ⟨⟨pm'', h', hsame⟩, hboth⟩ := halike pm' h log.address s hs
    obtain ⟨h0, h1⟩ := (bothDeclared_iff hs hd).mp (hboth log hlog rfl d hd)
    refine ⟨h0, h1, fun t hflag => ?_⟩
    have hmem : t ∈ pm'.dynamicFot :=
      (mem_learned h).mpr (.inr ⟨log, hlog, (flaggedBy_v3Swap hs.1 hd).mpr hflag⟩)
    rw [← hsame, mem_mirrored hs.1 h h'] at hmem
    rcases hmem with hmem | ⟨other, hmem⟩ | ⟨other, hother, ha, d', hd', hback⟩
    · exact .inl hmem
    · exact .inr ⟨other, hmem⟩
    · -- no swap is read in the other direction
      have hs' : V3At pm other.address s := ha ▸ hs
      obtain ⟨h0', h1'⟩ := (bothDeclared_iff hs' hd').mp (hboth other hother ha d' hd')
      rcases hback with ⟨hpos, -⟩ | ⟨hneg, -⟩
      · exact absurd hpos (not_lt.mpr h1')
      · exact absurd hneg (not_lt.mpr h0')
  · intro hone pm' h a s hs
    have hone := hone ⟨pm', h⟩ a s hs
    refine ⟨?_, fun log hlog ha d hd => ?_⟩
    · obtain ⟨pm'', h'⟩ := mirror_returns hs.1 h
      refine ⟨pm'', h', ?_⟩
      ext t
      rw [mem_mirrored hs.1 h h', mem_learned h]
      constructor
      · rintro (hmem | ⟨log, hlog, -, hflag⟩ | ⟨log, hlog, ha, d, hd, hback⟩)
        · exact .inl hmem
        · exact .inr ⟨log, hlog, hflag⟩
        · obtain ⟨h0, h1, -⟩ := hone log hlog ha d hd
          rcases hback with ⟨hpos, -⟩ | ⟨hneg, -⟩
          · exact absurd hpos (not_lt.mpr h1)
          · exact absurd hneg (not_lt.mpr h0)
      · rintro (hmem | ⟨log, hlog, hflag⟩)
        · exact .inl hmem
        · rcases swap_or_other a log with ⟨ha, d, hd⟩ | hother
          · obtain ⟨-, -, hfree⟩ := hone log hlog ha d hd
            subst ha
            rcases hfree t ((flaggedBy_v3Swap hs.1 hd).mp hflag) with hmem | hmem
            · exact .inl hmem
            · exact .inr (.inl hmem)
          · exact .inr (.inl ⟨log, hlog, hother, hflag⟩)
    · obtain ⟨h0, h1, -⟩ := hone log hlog ha d hd
      subst ha
      exact (bothDeclared_iff hs hd).mpr ⟨h0, h1⟩

/-! ## A taxed input -/

/-- A comparison with a margin of one percent. -/
def percentRuntime : TaxRuntime where
  shortfall actual declared := actual * 100 < declared * 99
  visit _ := []

/-- A manager with a V3 pool of the tokens 2 and 3 at address 1. -/
def taxManager : PoolManager :=
  ({} : PoolManager).addPool (.uniswapV3
    { info := { address := 1, token0 := 2, token1 := 3, fee := 3000, dexType := .uniswapV3 } })

/-- A trader at address 9 sends 1000000 of token 3, of which 900000 arrive, for 1000000 of
    token 2. -/
def oneForZeroLogs : List ExecutedLog :=
  [{ address := 3, topics := [transferTopic, 9, 1], data := encodeWords [900000] },
    { address := 2, topics := [transferTopic, 1, 9], data := encodeWords [1000000] },
    { address := 1, topics := [v3SwapTopic],
      data := encodeWords [2 ^ 256 - 1000000, 1000000, 2 ^ 96, 5000, 0] }]

/-- The swap is declared with two amounts of 0, and nothing is flagged. After the exchange of the
    roles token 3 is. -/
theorem oneForZero_not_checked :
    oneForZeroLogs.mapM (taxManager.declarations percentRuntime) =
      .ok [[], [], [⟨1, some 3, 0, some 2, 0⟩]] ∧
    (taxManager.learnTaxesFromTx percentRuntime oneForZeroLogs).map (·.dynamicFot) = .ok ∅ ∧
    ((mirrorManager taxManager 1).learnTaxesFromTx percentRuntime
      (oneForZeroLogs.map (mirrorLog 1))).map (·.dynamicFot) = .ok {3} := by
  refine ⟨?_, ?_, ?_⟩ <;> decide +kernel

end MevScout.Pool
