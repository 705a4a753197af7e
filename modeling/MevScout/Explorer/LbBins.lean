import MevScout.Explorer.Decode
import MevScout.Rpc.Aggregate3

/-!
# Liquidity book bins

Models of `decode_lb_bins_liquidity` and of its readers (`core/src/explorer/decode/jit.rs`, lines
71–191), which decode a deposit or a withdrawal of liquidity into a range of bins. The offsets of
both arrays are words of the log, which any contract may write.

Results:
* `decodeArraySlots_eq_ok_iff`: an array is read exactly when its offset is not one of the last 32
  numbers of 64 bits, and then what stands in the data;
* `decodeLbBinsLiquidity_returns_iff`: when the decoder returns.
-/

namespace MevScout.Explorer

open MevScout.Chain MevScout.Pool MevScout.Rpc

/-! ## Readers -/

/-- Model of `LB_DEPOSITED_TO_BINS_TOPIC` (`pool/decoders.rs`, lines 18–19). -/
def lbDepositedToBinsTopic : B256 :=
  0x87f1f9dcf5e8089a3e00811b6a008d8f30293a3da878cb1fe8c90ca376402f8a

/-- Model of `LB_WITHDRAWN_FROM_BINS_TOPIC` (`pool/decoders.rs`, lines 22–23). -/
def lbWithdrawnFromBinsTopic : B256 :=
  0xa32e146844d6144a22e94c586715a1317d58a8aa3581ec33d040113ddcb24350

/-- Model of `u256_to_i32_bin` (lines 117–120). -/
def u256ToI32Bin (v : ℕ) : Option ℤ := if v < 2 ^ 31 then some v else none

/-- Model of `u256_to_usize` (lines 122–125). -/
def u256ToUsize (v : ℕ) : Option ℕ := if v < 2 ^ 64 then some v else none

/-- The loop over the slots of an array, for `n` slots from the slot `i` on (lines 147–153 and
    179–189). -/
def readSlots (checks : Bool) (data : List UInt8) (rel : ℕ) :
    ℕ → ℕ → Except Panic (List (List UInt8))
  | 0, _ => .ok []
  | n + 1, i => do
    let start ← arithUnsigned checks 64 (rel + 32 + i * 32)
    let stop ← arithUnsigned checks 64 (start + 32)
    if data.length < stop then return []
    else
      let slot ← sliceRange data start stop
      return slot :: (← readSlots checks data rel n (i + 1))

/-- The slots of the array whose offset stands at `headOff` (lines 133–154 and 167–189). -/
def decodeArraySlots (checks : Bool) (data : List UInt8) (headOff : ℕ) :
    Except Panic (Option (List (List UInt8))) := do
  let headEnd ← arithUnsigned checks 64 (headOff + 32)
  if data.length < headEnd then return none
  else
    match u256ToUsize (beVal (← sliceRange data headOff headEnd)) with
    | none => return none
    | some rel =>
      let relEnd ← arithUnsigned checks 64 (rel + 32)
      if data.length < relEnd then return none
      else
        match u256ToUsize (beVal (← sliceRange data rel relEnd)) with
        | none => return none
        | some len =>
          if len > 64 then return none
          else return some (← readSlots checks data rel len 0)

/-- Model of `decode_abi_u256_array` (lines 133–155). -/
def decodeAbiU256Array (checks : Bool) (data : List UInt8) (headWord : ℕ) :
    Except Panic (Option (List ℕ)) := do
  let headOff ← arithUnsigned checks 64 (headWord * 32)
  return (← decodeArraySlots checks data headOff).map (·.map beVal)

/-- One slot of the amounts: its low and its high half are added (lines 184–188). -/
def addAmountsXy (acc : ℕ × ℕ) (slot : List UInt8) : ℕ × ℕ :=
  (saturatingAdd 256 acc.1 (beVal (slice slot 16 32)),
    saturatingAdd 256 acc.2 (beVal (slice slot 0 16)))

/-- Model of `decode_lb_amounts_xy` (lines 166–191). -/
def decodeLbAmountsXy (checks : Bool) (data : List UInt8) : Except Panic (Option (ℕ × ℕ)) := do
  return (← decodeArraySlots checks data 32).map (·.foldl addAmountsXy (0, 0))

/-- The least and the greatest bin of a list (lines 88–97). -/
def binRange (ids : List ℕ) : Option (ℤ × ℤ) :=
  (ids.mapM u256ToI32Bin).map fun bins =>
    (bins.foldl min (2 ^ 31 - 1), bins.foldl max (-2 ^ 31))

/-- Model of `decode_lb_bins_liquidity` (lines 74–115), with `amount0` and `amount1`. -/
def decodeLbBinsLiquidity (checks : Bool) (log : ExecutedLog) :
    Except Panic (Option (JitFact × ℕ × ℕ)) :=
  match log.topics with
  | [] => .ok none
  | topic0 :: _ => do
    let isMint : Bool := topic0 = lbDepositedToBinsTopic
    let isBurn : Bool := topic0 = lbWithdrawnFromBinsTopic
    if !isMint ∧ !isBurn then return none
    else if log.topics.length < 3 ∨ log.data.length < 64 then return none
    else
      match ← decodeAbiU256Array checks log.data 0 with
      | none => return none
      | some ids =>
        if ids = [] then return none
        else
          match binRange ids with
          | none => return none
          | some (minId, maxId) =>
            if minId = 2 ^ 31 - 1 then return none
            else
              let amounts := (← decodeLbAmountsXy checks log.data).getD (0, 0)
              return some
                ({ pool := log.address
                   owner := topicAddress (log.topics.getD 2 0)
                   tickLower := minId
                   tickUpper := maxId
                   isMint := isMint
                   liquidity := ids.length
                   binAmm := true }, amounts)

/-! ## What stands in the data -/

/-- The slot `i` of the array at `rel`. -/
def slotAt (data : List UInt8) (rel i : ℕ) : List UInt8 :=
  slice data (rel + 32 + i * 32) (rel + 32 + i * 32 + 32)

/-- The slots of the array at `rel` that lie in the data, of the `n` that it declares. -/
def slotsAt (data : List UInt8) (rel n : ℕ) : List (List UInt8) :=
  (List.range (min n ((data.length - (rel + 32)) / 32))).map (slotAt data rel)

/-- The slots of the array whose offset stands at `headOff`. -/
def arraySlots (data : List UInt8) (headOff : ℕ) : Option (List (List UInt8)) :=
  let rel := word data headOff
  if data.length < headOff + 32 ∨ data.length < rel + 32 ∨ 64 < word data rel then none
  else some (slotsAt data rel (word data rel))

/-- The offset that stands at `headOff` is one of the last 32 numbers of 64 bits, so that its sum
    with 32 wraps. -/
def OffsetWraps (data : List UInt8) (headOff : ℕ) : Prop :=
  headOff + 32 ≤ data.length ∧ 2 ^ 64 - 32 ≤ word data headOff ∧ word data headOff < 2 ^ 64

/-- A log of bins, of the length that the decoder asks for. -/
def IsBinsLog (log : ExecutedLog) : Prop :=
  (log.topics.head? = some lbDepositedToBinsTopic ∨
      log.topics.head? = some lbWithdrawnFromBinsTopic) ∧
    3 ≤ log.topics.length ∧ 64 ≤ log.data.length

/-- The first array names bins, so that the amounts are read too. -/
def NamesBins (data : List UInt8) : Prop :=
  ∃ slots, arraySlots data 0 = some slots ∧ (∀ slot ∈ slots, beVal slot < 2 ^ 31) ∧
    ∃ slot ∈ slots, beVal slot < 2 ^ 31 - 1

/-! ## Arrays -/

variable {checks : Bool} {data : List UInt8} {rel headOff i n : ℕ}

/-- The loop reads the slots that lie in the data. -/
theorem readSlots_eq (hlen : data.length < 2 ^ 63) (hrel : rel + 32 ≤ data.length)
    (hn : i + n ≤ 64) :
    readSlots checks data rel n i =
      .ok ((List.range' i (min (i + n) ((data.length - (rel + 32)) / 32) - i)).map
        (slotAt data rel)) := by
  induction n generalizing i with
  | zero =>
    rw [show min (i + 0) ((data.length - (rel + 32)) / 32) - i = 0 by omega]
    rfl
  | succ n ih =>
    rw [readSlots, arithUnsigned_eq (by omega), ok_bind, arithUnsigned_eq (by omega), ok_bind]
    by_cases hin : data.length < rel + 32 + i * 32 + 32
    · rw [if_pos hin, show min (i + (n + 1)) ((data.length - (rel + 32)) / 32) - i = 0 by omega]
      rfl
    · rw [if_neg hin, sliceRange_eq (by omega) (by omega), ok_bind, ih (by omega), ok_bind,
        show min (i + (n + 1)) ((data.length - (rel + 32)) / 32) - i =
          min (i + 1 + n) ((data.length - (rel + 32)) / 32) - (i + 1) + 1 by omega,
        List.range'_succ, List.map_cons]
      rfl

/-- An array is read exactly when its offset does not wrap, to what stands in the data. -/
theorem decodeArraySlots_eq_ok_iff (hlen : data.length < 2 ^ 63) (hhead : headOff ≤ 32)
    {r : Option (List (List UInt8))} :
    decodeArraySlots checks data headOff = .ok r ↔
      ¬OffsetWraps data headOff ∧ arraySlots data headOff = r := by
  unfold decodeArraySlots
  rw [arithUnsigned_eq (by omega), ok_bind]
  by_cases hhead' : data.length < headOff + 32
  case pos =>
    rw [if_pos hhead']
    exact ok_eq_ok_iff (fun h => absurd h.1 (by omega)) (if_pos (.inl hhead'))
  have hword : beVal (slice data headOff (headOff + 32)) = word data headOff := rfl
  rw [if_neg hhead', sliceRange_eq (by omega) (by omega), ok_bind, hword]
  unfold u256ToUsize
  by_cases hoff : word data headOff < 2 ^ 64
  case neg =>
    rw [if_neg hoff]
    exact ok_eq_ok_iff (fun h => hoff h.2.2) (if_pos (.inr (.inl (by omega))))
  rw [if_pos hoff]
  dsimp only
  by_cases hwrap : word data headOff + 32 < 2 ^ 64
  case neg =>
    exact overflow_eq_ok_iff (not_not_intro ⟨by omega, by omega, hoff⟩) (not_lt.mp hwrap)
      (by omega) (by omega)
  have hfits : ¬OffsetWraps data headOff := fun h => absurd h.2.1 (by omega)
  rw [arithUnsigned_eq hwrap, ok_bind]
  by_cases hin : data.length < word data headOff + 32
  case pos =>
    rw [if_pos hin]
    exact ok_eq_ok_iff hfits (if_pos (.inr (.inl hin)))
  have hcount : beVal (slice data (word data headOff) (word data headOff + 32)) =
      word data (word data headOff) := rfl
  rw [if_neg hin, sliceRange_eq (by omega) (by omega), ok_bind, hcount]
  by_cases hsize : word data (word data headOff) < 2 ^ 64
  case neg =>
    rw [if_neg hsize]
    exact ok_eq_ok_iff hfits (if_pos (.inr (.inr (by omega))))
  rw [if_pos hsize]
  dsimp only
  by_cases hmany : word data (word data headOff) > 64
  · rw [if_pos hmany]
    exact ok_eq_ok_iff hfits (if_pos (.inr (.inr hmany)))
  · rw [if_neg hmany, readSlots_eq hlen (by omega) (by omega), ok_bind]
    refine ok_eq_ok_iff hfits ?_
    have hnot : ¬(data.length < headOff + 32 ∨ data.length < word data headOff + 32 ∨
        64 < word data (word data headOff)) := by omega
    unfold arraySlots
    dsimp only
    rw [if_neg hnot, slotsAt, List.range_eq_range', Nat.zero_add, Nat.sub_zero]

/-- To map what an array holds leaves open only whether it is read. -/
theorem map_arraySlots_returns_iff {β : Type} (checks : Bool) (hlen : data.length < 2 ^ 63)
    (hhead : headOff ≤ 32) (f : List (List UInt8) → β) :
    (∃ r, (do return (← decodeArraySlots checks data headOff).map f :
      Except Panic (Option β)) = .ok r) ↔ ¬OffsetWraps data headOff := by
  constructor
  · rintro ⟨r, hr⟩
    obtain ⟨slots, hslots, -⟩ := bind_eq_ok.mp hr
    exact ((decodeArraySlots_eq_ok_iff hlen hhead).mp hslots).1
  · intro h
    exact ⟨_, bind_eq_ok.mpr ⟨_, (decodeArraySlots_eq_ok_iff hlen hhead).mpr ⟨h, rfl⟩, rfl⟩⟩

/-! ## The decoder -/

theorem decodeAbiU256Array_eq (hlen : data.length < 2 ^ 63) (h : ¬OffsetWraps data 0) :
    decodeAbiU256Array checks data 0 = .ok ((arraySlots data 0).map (·.map beVal)) := by
  rw [decodeAbiU256Array, arithUnsigned_eq (by norm_num), ok_bind, Nat.zero_mul,
    (decodeArraySlots_eq_ok_iff hlen (Nat.zero_le 32)).mpr ⟨h, rfl⟩, ok_bind]
  rfl

theorem decodeAbiU256Array_returns_iff (hlen : data.length < 2 ^ 63) :
    (∃ r, decodeAbiU256Array checks data 0 = .ok r) ↔ ¬OffsetWraps data 0 := by
  rw [← map_arraySlots_returns_iff checks hlen (Nat.zero_le 32) (·.map beVal),
    decodeAbiU256Array, arithUnsigned_eq (by norm_num), ok_bind, Nat.zero_mul]

theorem decodeLbAmountsXy_returns_iff (hlen : data.length < 2 ^ 63) :
    (∃ r, decodeLbAmountsXy checks data = .ok r) ↔ ¬OffsetWraps data 32 :=
  map_arraySlots_returns_iff checks hlen le_rfl _

theorem mapM_u256ToI32Bin (ids : List ℕ) :
    ids.mapM u256ToI32Bin =
      if ∀ id ∈ ids, id < 2 ^ 31 then some (ids.map Int.ofNat) else none := by
  induction ids with
  | nil => rfl
  | cons id ids ih =>
    rw [List.mapM_cons, u256ToI32Bin, ih, List.map_cons]
    simp only [List.forall_mem_cons]
    split_ifs <;> grind

theorem le_foldl_min_iff {l : List ℤ} {a c : ℤ} :
    c ≤ l.foldl min a ↔ c ≤ a ∧ ∀ x ∈ l, c ≤ x := by
  induction l generalizing a with
  | nil => simp
  | cons x l ih => rw [List.foldl_cons, ih, le_min_iff, List.forall_mem_cons, and_assoc]

/-- The first array names bins exactly when a range comes out that does not start at `i32::MAX`. -/
theorem namesBins_iff {slots : List (List UInt8)} (h : arraySlots data 0 = some slots) :
    NamesBins data ↔
      ∃ range, binRange (slots.map beVal) = some range ∧ range.1 ≠ 2 ^ 31 - 1 := by
  have hnames : NamesBins data ↔ (∀ slot ∈ slots, beVal slot < 2 ^ 31) ∧
      ∃ slot ∈ slots, beVal slot < 2 ^ 31 - 1 := by
    unfold NamesBins
    rw [h]
    exact ⟨fun ⟨_, h, hs⟩ => Option.some.inj h ▸ hs, fun hs => ⟨slots, rfl, hs⟩⟩
  rw [hnames, binRange, mapM_u256ToI32Bin]
  by_cases hall : ∀ slot ∈ slots, beVal slot < 2 ^ 31
  case neg =>
    rw [if_neg fun h => hall (List.forall_mem_map.mp h)]
    exact iff_of_false (fun h => hall h.1) fun ⟨_, h, _⟩ => by cases h
  rw [if_pos (List.forall_mem_map.mpr hall)]
  have hmin : ((slots.map beVal).map Int.ofNat).foldl min (2 ^ 31 - 1) = 2 ^ 31 - 1 ↔
      ∀ slot ∈ slots, 2 ^ 31 - 1 ≤ beVal slot := by
    have hle := (le_foldl_min_iff (l := (slots.map beVal).map Int.ofNat)
      (a := 2 ^ 31 - 1) (c := _)).mp le_rfl
    rw [← hle.1.ge_iff_eq, le_foldl_min_iff, List.forall_mem_map, List.forall_mem_map]
    refine ⟨fun h slot hslot => ?_, fun h => ⟨le_rfl, fun slot hslot => ?_⟩⟩
    · have hslot' : (2 : ℤ) ^ 31 - 1 ≤ beVal slot := h.2 slot hslot
      omega
    · show (2 : ℤ) ^ 31 - 1 ≤ beVal slot
      have := h slot hslot
      omega
  constructor
  · rintro ⟨-, slot, hslot, hlt⟩
    exact ⟨_, rfl, fun heq => absurd (hmin.mp heq slot hslot) (by omega)⟩
  · rintro ⟨range, hrange, hne⟩
    obtain rfl := Option.some.inj hrange
    have hnot := mt hmin.mpr hne
    push Not at hnot
    exact ⟨hall, hnot⟩

/-- A log that names no bins is passed over. -/
theorem decodeLbBinsLiquidity_of_not {log : ExecutedLog} (h : ¬IsBinsLog log) :
    decodeLbBinsLiquidity checks log = .ok none := by
  unfold IsBinsLog at h
  unfold decodeLbBinsLiquidity
  cases htopics : log.topics with
  | nil => rfl
  | cons topic0 rest =>
    rw [htopics, List.head?_cons, Option.some_inj, Option.some_inj] at h
    dsimp only
    split_ifs with htopic hshort
    · rfl
    · rfl
    · simp only [Bool.not_eq_true', decide_eq_false_iff_not] at htopic
      exact absurd ⟨by tauto, by omega⟩ h

/-- A log of bins is decoded by reading the bins, and the amounts where bins are named. -/
theorem decodeLbBinsLiquidity_returns {log : ExecutedLog} (h : IsBinsLog log) :
    (∃ r, decodeLbBinsLiquidity checks log = .ok r) ↔
      ∃ ids, decodeAbiU256Array checks log.data 0 = .ok ids ∧
        ∀ range ∈ ids.bind binRange, range.1 ≠ 2 ^ 31 - 1 →
          ∃ amounts, decodeLbAmountsXy checks log.data = .ok amounts := by
  unfold IsBinsLog at h
  unfold decodeLbBinsLiquidity
  cases htopics : log.topics with
  | nil => exact absurd h.2.1 (by simp [htopics])
  | cons topic0 rest =>
  rw [htopics, List.head?_cons, Option.some_inj, Option.some_inj] at h
  dsimp only
  rw [if_neg (by simp; tauto), if_neg (by omega)]
  cases hids : decodeAbiU256Array checks log.data 0 with
  | error e =>
    exact iff_of_false (fun ⟨_, h⟩ => by cases h) fun ⟨_, h, _⟩ => by cases h
  | ok ids =>
  rw [ok_bind]
  simp only [Except.ok.injEq, exists_eq_left']
  cases ids with
  | none => exact iff_of_true ⟨none, rfl⟩ fun _ h => by cases h
  | some ids =>
  dsimp only
  rw [Option.bind_some]
  split_ifs with hempty
  · subst hempty
    refine iff_of_true ⟨none, rfl⟩ fun range hrange hne => ?_
    exact absurd (congrArg Prod.fst (Option.some.inj hrange)).symm hne
  cases hrange : binRange ids with
  | none => exact iff_of_true ⟨none, rfl⟩ fun _ h => by cases h
  | some range =>
  dsimp only
  simp only [Option.mem_def, Option.some_inj, forall_eq']
  split_ifs with hmax
  · exact iff_of_true ⟨none, rfl⟩ fun h => absurd hmax h
  · rw [imp_iff_right hmax]
    constructor
    · rintro ⟨r, hr⟩
      obtain ⟨amounts, hamounts, -⟩ := bind_eq_ok.mp hr
      exact ⟨amounts, hamounts⟩
    · rintro ⟨amounts, hamounts⟩
      rw [hamounts]
      exact ⟨_, rfl⟩

/-- **Main theorem.** In either build, the readers return exactly when their offset does not wrap,
    and the decoder when no offset that it reads does: that of the bins, on every log of bins, and
    that of the amounts where bins are named. -/
theorem decodeLbBinsLiquidity_returns_iff (checks : Bool) (log : ExecutedLog)
    (hlen : log.data.length < 2 ^ 63) :
    ((∃ r, decodeAbiU256Array checks log.data 0 = .ok r) ↔ ¬OffsetWraps log.data 0) ∧
    ((∃ r, decodeLbAmountsXy checks log.data = .ok r) ↔ ¬OffsetWraps log.data 32) ∧
    ((∃ r, decodeLbBinsLiquidity checks log = .ok r) ↔
      (IsBinsLog log → ¬OffsetWraps log.data 0 ∧
        (NamesBins log.data → ¬OffsetWraps log.data 32))) := by
  refine ⟨decodeAbiU256Array_returns_iff hlen, decodeLbAmountsXy_returns_iff hlen, ?_⟩
  by_cases hlog : IsBinsLog log
  case neg => exact iff_of_true ⟨none, decodeLbBinsLiquidity_of_not hlog⟩ fun h => absurd h hlog
  rw [decodeLbBinsLiquidity_returns hlog, imp_iff_right hlog, decodeLbAmountsXy_returns_iff hlen]
  by_cases hwrap : OffsetWraps log.data 0
  · refine iff_of_false (fun ⟨ids, hids, _⟩ => ?_) fun h => h.1 hwrap
    exact (decodeAbiU256Array_returns_iff hlen).mp ⟨ids, hids⟩ hwrap
  rw [decodeAbiU256Array_eq hlen hwrap, and_iff_right hwrap]
  simp only [Except.ok.injEq, exists_eq_left']
  cases hslots : arraySlots log.data 0 with
  | none => exact iff_of_true (fun _ h => by cases h) fun ⟨_, h, _⟩ => by simp [hslots] at h
  | some slots =>
    rw [namesBins_iff hslots]
    exact ⟨fun h ⟨range, hrange, hne⟩ => h range hrange hne, fun h range hrange hne =>
      h ⟨range, hrange, hne⟩⟩

/-- A deposit by a log of these words. -/
def depositLog (words : List ℕ) : ExecutedLog :=
  { address := 1, topics := [lbDepositedToBinsTopic, 0, 0], data := encodeWords words }

/-- A deposit of two amounts into the bins 7 and 9. -/
theorem decodeLbBinsLiquidity_returns_two :
    ((∃ r, decodeAbiU256Array true (depositLog [64, 160, 2, 7, 9, 2, 5, 6]).data 0 = .ok r) ↔
      ¬OffsetWraps (depositLog [64, 160, 2, 7, 9, 2, 5, 6]).data 0) ∧
    ((∃ r, decodeLbAmountsXy true (depositLog [64, 160, 2, 7, 9, 2, 5, 6]).data = .ok r) ↔
      ¬OffsetWraps (depositLog [64, 160, 2, 7, 9, 2, 5, 6]).data 32) ∧
    ((∃ r, decodeLbBinsLiquidity true (depositLog [64, 160, 2, 7, 9, 2, 5, 6]) = .ok r) ↔
      (IsBinsLog (depositLog [64, 160, 2, 7, 9, 2, 5, 6]) →
        ¬OffsetWraps (depositLog [64, 160, 2, 7, 9, 2, 5, 6]).data 0 ∧
          (NamesBins (depositLog [64, 160, 2, 7, 9, 2, 5, 6]).data →
            ¬OffsetWraps (depositLog [64, 160, 2, 7, 9, 2, 5, 6]).data 32))) :=
  decodeLbBinsLiquidity_returns_iff true _ (by decide +kernel)

example : decodeLbBinsLiquidity true (depositLog [64, 160, 2, 7, 9, 2, 5, 6]) =
    .ok (some ({ pool := 1, owner := 0, tickLower := 7, tickUpper := 9, isMint := true,
                 liquidity := 2, binAmm := true }, 11, 0)) := by
  decide +kernel

/-- The offset `2 ^ 64 - 1`, of the bins or of the amounts, stops both builds. -/
theorem hostile_bins_panic :
    decodeLbBinsLiquidity true (depositLog [2 ^ 64 - 1, 0]) = .error .overflow ∧
    decodeLbBinsLiquidity false (depositLog [2 ^ 64 - 1, 0]) = .error .slice ∧
    decodeLbBinsLiquidity true (depositLog [64, 2 ^ 64 - 1, 1, 7]) = .error .overflow ∧
    decodeLbBinsLiquidity false (depositLog [64, 2 ^ 64 - 1, 1, 7]) = .error .slice := by
  refine ⟨?_, ?_, ?_, ?_⟩ <;> decide +kernel

end MevScout.Explorer
