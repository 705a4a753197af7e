import MevScout.Pool.Factory.Ticks
import MevScout.Pool.Factory.Encoding

/-!
# What a tick scan finds

The initialized ticks of a V3 pool at one block, the answers of a node that hold them, and
the ticks of a window. A scan finds the first `maxTicks` ticks of its window whose net
liquidity is not zero.

Results:
* `signedArg_eq`: the arguments of the calls are the standard encodings;
* `fetchV3TickLiquidityNet_eq`: the net liquidity of an initialized tick is read back;
* `compressTick_eq`: the compressed tick is the quotient that rounds down;
* `scanTicks_eq`: the map that a scan returns.
-/

namespace MevScout.Pool.Factory

/-! ## The pool at one block -/

/-- What a V3 pool stores of an initialized tick. -/
structure TickInfo where
  liquidityGross : ℕ
  liquidityNet : ℤ
  feeGrowthOutside0X128 : ℕ
  feeGrowthOutside1X128 : ℕ
  tickCumulativeOutside : ℕ
  secondsPerLiquidityOutsideX128 : ℕ
  secondsOutside : ℕ

/-- The initialized ticks of a V3 pool: multiples of its spacing between `MIN_TICK` and
    `MAX_TICK`, each with a net liquidity that is an `int128`. -/
structure V3Ticks (tickSpacing : ℤ) where
  info : ℤ → Option TickInfo
  range : ∀ t i, info t = some i → -887272 ≤ t ∧ t ≤ 887272
  aligned : ∀ t i, info t = some i → tickSpacing ∣ t
  net_range : ∀ t i, info t = some i → -2 ^ 127 ≤ i.liquidityNet ∧ i.liquidityNet < 2 ^ 127

/-- The words that `ticks(int24)` returns. -/
def tickWords : Option TickInfo → List ℕ
  | some i =>
    [i.liquidityGross, asUnsigned 256 i.liquidityNet, i.feeGrowthOutside0X128,
      i.feeGrowthOutside1X128, i.tickCumulativeOutside, i.secondsPerLiquidityOutsideX128,
      i.secondsOutside, 1]
  | none => [0, 0, 0, 0, 0, 0, 0, 0]

/-- The word that `tickBitmap(int16)` returns. -/
def bitmapWord {tickSpacing : ℤ} (S : V3Ticks tickSpacing) (w : ℤ) : ℕ :=
  Nat.ofBits fun b : Fin 256 => (S.info ((w * 256 + b) * tickSpacing)).isSome

/-- The node answers `tickBitmap` and `ticks` from the state `S` of the pool. -/
structure Answers {tickSpacing : ℤ} (rpc : Rpc) (pool : Address) (S : V3Ticks tickSpacing) :
    Prop where
  bitmap : ∀ w : ℤ, -2 ^ 15 ≤ w → w < 2 ^ 15 →
    rpc.call pool (v3TickBitmap ++ beBytes 32 (asUnsigned 256 w)) =
      some (encodeWords [bitmapWord S w])
  tick : ∀ t : ℤ, -2 ^ 23 ≤ t → t < 2 ^ 23 →
    rpc.call pool (v3Ticks ++ beBytes 32 (asUnsigned 256 t)) =
      some (encodeWords (tickWords (S.info t)))

/-! ## The window -/

/-- The ticks of one word of the bitmap, in ascending order. -/
def wordTicks (tickSpacing w : ℤ) : List ℤ :=
  (List.range 256).map fun b : ℕ => (w * 256 + b) * tickSpacing

/-- The ticks of the five words around `centerWord`. -/
def windowTicks (tickSpacing centerWord : ℤ) : List ℤ :=
  [-2, -1, 0, 1, 2].flatMap fun wordOffset => wordTicks tickSpacing (centerWord + wordOffset)

/-- The center word of the window around a tick. -/
def centerWordOf (tickSpacing tick : ℤ) : ℤ := tick / tickSpacing / 256

variable {tickSpacing : ℤ} (S : V3Ticks tickSpacing)

/-- How many ticks of the window are initialized. -/
def initializedCount (centerWord : ℤ) : ℕ :=
  (windowTicks tickSpacing centerWord).countP fun t => (S.info t).isSome

/-- A tick with its net liquidity, if it is initialized and the net is not zero. -/
def netEntry (t : ℤ) : Option (ℤ × ℤ) :=
  (S.info t).bind fun i => if i.liquidityNet = 0 then none else some (t, i.liquidityNet)

/-- The ticks of the window whose net liquidity is not zero, each with its net, in order. -/
def windowNets (centerWord : ℤ) : List (ℤ × ℤ) :=
  (windowTicks tickSpacing centerWord).filterMap (netEntry S)

/-! ## The calls -/

theorem asUnsigned_mod {k : ℕ} (hk : k ≤ 32) (x : ℤ) :
    asUnsigned 256 x % 256 ^ k = asUnsigned (8 * k) x := by
  have hpow : (256 : ℕ) ^ k = 2 ^ (8 * k) := by rw [pow_mul]; norm_num
  have h256 := Int.emod_nonneg x (show (2 : ℤ) ^ 256 ≠ 0 by norm_num)
  have hk' := Int.emod_nonneg x (show (2 : ℤ) ^ (8 * k) ≠ 0 by positivity)
  rw [hpow]
  unfold asUnsigned
  zify
  rw [Int.toNat_of_nonneg h256, Int.toNat_of_nonneg hk']
  exact Int.emod_emod_of_dvd x (pow_dvd_pow 2 (by omega))

/-- An argument that its sign fills up to a word is the standard encoding. -/
theorem signedArg_eq {k : ℕ} {x : ℤ} (hk : k ≤ 32) (hlo : -256 ^ k ≤ x) (hhi : x < 256 ^ k) :
    signedArg k x = beBytes 32 (asUnsigned 256 x) := by
  have hlow : beBytes k (asUnsigned (8 * k) x) = beBytes k (asUnsigned 256 x) := by
    rw [← asUnsigned_mod hk, beBytes_mod]
  have hsplit : beBytes 32 (asUnsigned 256 x) =
      beBytes (32 - k) (asUnsigned 256 x / 256 ^ k) ++ beBytes k (asUnsigned 256 x) := by
    rw [← beBytes_add, Nat.sub_add_cancel hk]
  have hwidth : (256 : ℕ) ^ (32 - k) * 256 ^ k = 2 ^ 256 := by
    rw [← pow_add, Nat.sub_add_cancel hk]; norm_num
  have hpos : 0 < (256 : ℕ) ^ (32 - k) := by positivity
  have hle : (256 : ℕ) ^ k ≤ 2 ^ 256 := by rw [← hwidth]; exact Nat.le_mul_of_pos_left _ hpos
  rw [signedArg, hlow, hsplit]
  congr 1
  split_ifs with hneg
  · have hx : asUnsigned 256 x = 2 ^ 256 - (-x).toNat := by
      unfold asUnsigned
      have hle' : (256 : ℤ) ^ k ≤ 2 ^ 256 := by exact_mod_cast hle
      have : x % 2 ^ 256 = x + 2 ^ 256 := by
        rw [← Int.add_emod_right, Int.emod_eq_of_lt (by omega) (by omega)]
      omega
    have hy : (-x).toNat ≤ 256 ^ k := by zify; omega
    have hdiv : asUnsigned 256 x / 256 ^ k = 256 ^ (32 - k) - 1 := by
      rw [hx, ← hwidth]
      have hsub := Nat.sub_one_mul (256 ^ (32 - k)) (256 ^ k)
      exact Nat.div_eq_of_lt_le (by omega) (by rw [Nat.sub_add_cancel hpos]; omega)
    rw [hdiv, beBytes_max]
  · have hx : asUnsigned 256 x = x.toNat :=
      asUnsigned_eq (by omega) (lt_of_lt_of_le hhi (by exact_mod_cast hle))
    have hdiv : x.toNat / 256 ^ k = 0 := Nat.div_eq_of_lt (by zify; omega)
    rw [hx, hdiv, beBytes_zero]

variable {S} {rpc : Rpc} {pool : Address} {t : ℤ} {i : TickInfo}

/-- The low 16 bytes of a word hold an `int128` in two's complement. -/
theorem asSigned_asUnsigned {x : ℤ} (hlo : -2 ^ 127 ≤ x) (hhi : x < 2 ^ 127) :
    asSigned 128 (asUnsigned 256 x % 256 ^ 16) = x := by
  rw [asUnsigned_mod (by norm_num)]
  unfold asSigned asUnsigned
  rw [Int.toNat_of_nonneg (Int.emod_nonneg _ (by norm_num)), Int.bmod_def]
  push_cast
  split_ifs <;> omega

/-- The net liquidity of an initialized tick is read back. -/
theorem fetchV3TickLiquidityNet_eq (h : Answers rpc pool S) (ht : S.info t = some i) :
    fetchV3TickLiquidityNet rpc pool t = some i.liquidityNet := by
  obtain ⟨hlo, hhi⟩ := S.range t i ht
  obtain ⟨hnlo, hnhi⟩ := S.net_range t i ht
  have hcall := h.tick t (by omega) (by omega)
  have hlen : (encodeWords (tickWords (S.info t))).length = 256 := by
    rw [length_encodeWords, ht]; rfl
  have hinit : beVal (slice (encodeWords (tickWords (S.info t))) 255 256) = 1 := by
    have hlast : beVal (slice (encodeWords (tickWords (some i))) (32 * 7 + 32 - 1) (32 * 7 + 32)) =
        1 % 256 ^ 1 := beVal_slice_encodeWords_last (by simp [tickWords]) (by norm_num)
    rw [ht]
    exact hlast
  have hnet : signedFromBeBytes (slice (encodeWords (tickWords (S.info t))) 48 64) =
      i.liquidityNet := by
    have hlast : beVal (slice (encodeWords (tickWords (some i))) (32 * 1 + 32 - 16)
        (32 * 1 + 32)) = asUnsigned 256 i.liquidityNet % 256 ^ 16 :=
      beVal_slice_encodeWords_last (by simp [tickWords]) (by norm_num)
    rw [signedFromBeBytes, length_slice (by norm_num) (by omega), ht]
    exact (congrArg (asSigned 128) hlast).trans (asSigned_asUnsigned hnlo hnhi)
  unfold fetchV3TickLiquidityNet
  rw [signedArg_eq (by norm_num) (by norm_num; omega) (by norm_num; omega),
    answer_eq hcall (by omega), Option.bind_some, hlen]
  simp only
  rw [hinit, if_neg (by norm_num), hnet]

/-! ## One bit and one word -/

/-- The compressed tick of the bit `b` of the word `w`. -/
theorem compressedTick_eq {w : ℤ} {b : ℕ} (hlo : -2 ^ 15 ≤ w) (hhi : w < 2 ^ 15) (hb : b < 256) :
    (BitVec.ofInt 32 w <<< 8 ||| BitVec.ofNat 32 b).toInt = w * 256 + b := by
  have hor : BitVec.ofInt 32 w <<< 8 ||| BitVec.ofNat 32 b = BitVec.ofInt 32 (w * 256 + b) := by
    apply BitVec.eq_of_toNat_eq
    have hshift : (BitVec.ofInt 32 w <<< 8).toNat = ((w % 2 ^ 32).toNat % 2 ^ 24) <<< 8 := by
      rw [BitVec.toNat_shiftLeft, BitVec.toNat_ofInt, Nat.shiftLeft_eq, Nat.shiftLeft_eq]
      push_cast
      omega
    have hb' : (BitVec.ofNat 32 b).toNat = b := by rw [BitVec.toNat_ofNat]; omega
    rw [BitVec.toNat_or, hshift, hb', ← Nat.shiftLeft_add_eq_or_of_lt (by omega), Nat.shiftLeft_eq,
      BitVec.toNat_ofInt]
    push_cast
    omega
  rw [hor, BitVec.toInt_ofInt]
  exact Int.bmod_eq_of_le (by norm_num; omega) (by norm_num; omega)

theorem testBit_bitmapWord {b : ℕ} (hb : b < 256) (w : ℤ) :
    (bitmapWord S w).testBit b = (S.info ((w * 256 + b) * tickSpacing)).isSome := by
  rw [bitmapWord, Nat.testBit_ofBits_lt _ _ hb]

/-- What the scan does with one tick of the window. -/
def addTick (S : V3Ticks tickSpacing) (ticks : TickMap) (t : ℤ) : TickMap :=
  if ticks.size ≥ maxTicks then ticks
  else (netEntry S t).elim ticks fun e => ticks.insert e.1 e.2

theorem scanBit_eq (h : Answers rpc pool S) {w : ℤ} {b : ℕ} (hlo : -2 ^ 15 ≤ w) (hhi : w < 2 ^ 15)
    (hb : b < 256) (ticks : TickMap) :
    scanBit rpc pool tickSpacing w (bitmapWord S w) ticks b =
      addTick S ticks ((w * 256 + b) * tickSpacing) := by
  unfold scanBit addTick netEntry
  rw [testBit_bitmapWord hb, compressedTick_eq hlo hhi hb]
  by_cases hfull : ticks.size ≥ maxTicks
  · rw [if_pos hfull, if_pos hfull]
  rw [if_neg hfull, if_neg hfull]
  cases ht : S.info ((w * 256 + b) * tickSpacing) with
  | none => simp
  | some i =>
    obtain ⟨htlo, hthi⟩ := S.range _ i ht
    have hwrap : wrapSigned 32 ((w * 256 + b) * tickSpacing) = (w * 256 + b) * tickSpacing :=
      wrapSigned_eq (w := 31) (by omega) (by omega)
    have hread := fetchV3TickLiquidityNet_eq h ht
    simp only [Option.isSome_some, not_true_eq_false, if_false, hwrap, hread, Option.bind_some]
    by_cases hzero : i.liquidityNet = 0 <;> simp [hzero]

theorem addTick_of_none {ticks : TickMap} (ht : netEntry S t = none) :
    addTick S ticks t = ticks := by
  unfold addTick
  rw [ht]
  split_ifs <;> rfl

theorem addTick_of_full {ticks : TickMap} (hfull : ticks.size ≥ maxTicks) :
    addTick S ticks t = ticks := if_pos hfull

theorem foldl_addTick_eq_self {l : List ℤ} {ticks : TickMap}
    (h : ∀ t ∈ l, addTick S ticks t = ticks) : l.foldl (addTick S) ticks = ticks := by
  induction l with
  | nil => rfl
  | cons t l ih =>
    rw [List.foldl_cons, h t (List.mem_cons_self ..)]
    exact ih fun t' ht' => h t' (List.mem_cons_of_mem _ ht')

theorem mem_wordTicks {w : ℤ} :
    t ∈ wordTicks tickSpacing w ↔ ∃ b : ℕ, b < 256 ∧ (w * 256 + b) * tickSpacing = t := by
  simp only [wordTicks, List.mem_map, List.mem_range]

/-- A word with a zero bitmap has no initialized tick. -/
theorem netEntry_of_bitmapWord_zero {w : ℤ} (hzero : bitmapWord S w = 0) :
    ∀ t ∈ wordTicks tickSpacing w, netEntry S t = none := by
  intro t ht
  obtain ⟨b, hb, rfl⟩ := mem_wordTicks.mp ht
  have hbit := testBit_bitmapWord (S := S) hb w
  rw [hzero, Nat.zero_testBit] at hbit
  have hnone : S.info ((w * 256 + b) * tickSpacing) = none := by simpa using hbit.symm
  show (S.info ((w * 256 + b) * tickSpacing)).bind _ = none
  rw [hnone, Option.bind_none]

theorem scanWord_eq (h : Answers rpc pool S) {centerWord wordOffset : ℤ}
    (hlo : -2 ^ 15 ≤ centerWord + wordOffset) (hhi : centerWord + wordOffset < 2 ^ 15)
    (ticks : TickMap) :
    scanWord rpc pool centerWord tickSpacing ticks wordOffset =
      (wordTicks tickSpacing (centerWord + wordOffset)).foldl (addTick S) ticks := by
  unfold scanWord
  by_cases hfull : ticks.size ≥ maxTicks
  · rw [if_pos hfull, foldl_addTick_eq_self fun t _ => addTick_of_full hfull]
  have h32 : wrapSigned 32 (centerWord + wordOffset) = centerWord + wordOffset :=
    wrapSigned_eq (w := 31) (by omega) (by omega)
  have h16 : wrapSigned 16 (centerWord + wordOffset) = centerWord + wordOffset :=
    wrapSigned_eq (w := 15) hlo hhi
  rw [if_neg hfull, h32]
  dsimp only
  rw [h16, signedArg_eq (by norm_num) (by norm_num; omega) (by norm_num; omega),
    answer_eq (h.bitmap _ hlo hhi) (by simp)]
  have hword : beVal (slice (encodeWords [bitmapWord S (centerWord + wordOffset)]) 0 32) =
      bitmapWord S (centerWord + wordOffset) :=
    (beVal_first_encodeWords _ _).trans (Nat.mod_eq_of_lt (Nat.ofBits_lt_two_pow _))
  simp only [hword]
  split_ifs with hzero
  · rw [foldl_addTick_eq_self fun t ht => addTick_of_none (netEntry_of_bitmapWord_zero hzero t ht)]
  · unfold wordTicks
    rw [List.foldl_map]
    refine List.foldl_ext _ _ _ fun ticks b hb => ?_
    have hb : b < 256 := by simpa only [List.mem_range] using hb
    exact scanBit_eq h hlo hhi hb ticks

/-! ## The whole window -/

theorem foldl_scanWord (h : Answers rpc pool S) {centerWord : ℤ} {offsets : List ℤ}
    (hin : ∀ o ∈ offsets, -2 ^ 15 ≤ centerWord + o ∧ centerWord + o < 2 ^ 15) (ticks : TickMap) :
    offsets.foldl (scanWord rpc pool centerWord tickSpacing) ticks =
      (offsets.flatMap fun o => wordTicks tickSpacing (centerWord + o)).foldl
        (addTick S) ticks := by
  induction offsets generalizing ticks with
  | nil => rfl
  | cons o offsets ih =>
    obtain ⟨hlo, hhi⟩ := hin o (List.mem_cons_self ..)
    rw [List.foldl_cons, List.flatMap_cons, List.foldl_append, scanWord_eq h hlo hhi,
      ih fun o' ho' => hin o' (List.mem_cons_of_mem _ ho')]

theorem wordTicks_pairwise (hs : 0 < tickSpacing) (w : ℤ) :
    (wordTicks tickSpacing w).Pairwise (· < ·) := by
  rw [wordTicks, List.pairwise_map]
  refine List.pairwise_lt_range.imp fun hab => ?_
  exact mul_lt_mul_of_pos_right (by omega) hs

theorem wordTicks_lt (hs : 0 < tickSpacing) {w w' t t' : ℤ} (hw : w < w')
    (ht : t ∈ wordTicks tickSpacing w) (ht' : t' ∈ wordTicks tickSpacing w') : t < t' := by
  obtain ⟨b, hb, rfl⟩ := mem_wordTicks.mp ht
  obtain ⟨b', hb', rfl⟩ := mem_wordTicks.mp ht'
  exact mul_lt_mul_of_pos_right (by omega) hs

theorem windowTicks_pairwise (hs : 0 < tickSpacing) (c : ℤ) :
    (windowTicks tickSpacing c).Pairwise (· < ·) := by
  rw [windowTicks, List.pairwise_flatMap]
  refine ⟨fun o _ => wordTicks_pairwise hs _, ?_⟩
  have hoffsets : ([-2, -1, 0, 1, 2] : List ℤ).Pairwise (· < ·) := by decide
  exact hoffsets.imp fun hab t ht t' ht' => wordTicks_lt hs (by omega) ht ht'

theorem netEntry_eq_some {e : ℤ × ℤ} : netEntry S t = some e ↔
    e.1 = t ∧ e.2 ≠ 0 ∧ ∃ i, S.info t = some i ∧ i.liquidityNet = e.2 := by
  unfold netEntry
  cases S.info t with
  | none => simp
  | some i =>
    obtain ⟨u, n⟩ := e
    dsimp only
    by_cases hz : i.liquidityNet = 0
    · simp only [Option.bind_some, hz, if_true, reduceCtorEq, Option.some.injEq, exists_eq_left',
        false_iff, not_and]
      intro _ hn h0
      exact hn h0.symm
    · simp only [Option.bind_some, hz, if_false, Option.some.injEq, exists_eq_left', Prod.mk.injEq]
      constructor
      · rintro ⟨rfl, rfl⟩
        exact ⟨rfl, hz, rfl⟩
      · rintro ⟨rfl, -, rfl⟩
        exact ⟨rfl, rfl⟩

theorem filterMap_netEntry_pairwise {l : List ℤ} (hl : l.Pairwise (· < ·)) :
    (l.filterMap (netEntry S)).Pairwise (·.1 < ·.1) := by
  rw [List.pairwise_filterMap]
  refine hl.imp fun hab e he e' he' => ?_
  rw [(netEntry_eq_some.mp he).1, (netEntry_eq_some.mp he').1]
  exact hab

/-- Adding the ticks of an increasing list one by one leaves its first `maxTicks` entries. -/
theorem foldl_addTick {l : List ℤ} (hl : l.Pairwise (· < ·)) :
    l.foldl (addTick S) ∅ =
      Std.ExtTreeMap.ofList ((l.filterMap (netEntry S)).take maxTicks) compare := by
  induction l using List.reverseRecOn with
  | nil => simp
  | append_singleton l t ih =>
    have hinit := (List.pairwise_append.mp hl).1
    have hsorted := filterMap_netEntry_pairwise (S := S) hinit
    set nets := l.filterMap (netEntry S) with hnets
    have hsize : (Std.ExtTreeMap.ofList (nets.take maxTicks) compare).size =
        min maxTicks nets.length := by
      rw [Std.ExtTreeMap.size_ofList, List.length_take]
      refine (hsorted.sublist (List.take_sublist _ _)).imp fun hab => ?_
      simpa using ne_of_lt hab
    rw [List.foldl_append, List.foldl_cons, List.foldl_nil, ih hinit, List.filterMap_append,
      ← hnets, addTick, hsize]
    by_cases hfull : maxTicks ≤ nets.length
    · rw [if_pos (by omega), List.take_append_of_le_length hfull]
    · rw [if_neg (by omega), List.take_of_length_le (by omega)]
      cases he : netEntry S t with
      | none => simp [he, List.take_of_length_le (show nets.length ≤ maxTicks by omega)]
      | some e =>
        rw [List.filterMap_cons_some he, List.filterMap_nil,
          List.take_of_length_le (by simp; omega), Std.ExtTreeMap.ofList_eq_foldl,
          Std.ExtTreeMap.ofList_eq_foldl, List.foldl_append]
        rfl

/-- A scan finds the first `maxTicks` ticks of its window with a net that is not zero. -/
theorem scanTicks_eq (h : Answers rpc pool S) (hs : 0 < tickSpacing) {c : ℤ}
    (hlo : -2 ^ 15 + 2 ≤ c) (hhi : c + 2 < 2 ^ 15) :
    scanTicks rpc pool c tickSpacing =
      Std.ExtTreeMap.ofList ((windowNets S c).take maxTicks) compare := by
  rw [scanTicks, foldl_scanWord h]
  · exact foldl_addTick (windowTicks_pairwise hs c)
  · intro o ho
    simp only [List.mem_cons, List.not_mem_nil, or_false] at ho
    omega

end MevScout.Pool.Factory
