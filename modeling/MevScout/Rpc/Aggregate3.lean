import MevScout.Common.Bytes
import MevScout.Common.Checked
import MevScout.Pool.Factory.Fetch
import MevScout.Rpc.Multicall

/-!
# Multicall3 answers

Model of `decode_aggregate3` (`core/src/rpc/multicall.rs`) on any answer of a node. Its offsets,
its count and its lengths are words of the answer, narrowed to a `usize` of 64 bits and added
before they are compared with the length of the answer. In a build with overflow checks
(`checks`) such a sum panics where it wraps in one without, and there the slice that follows
panics, or the vector that is reserved.

Results:
* `decodeAggregate3_eq_ok_iff`: the decoder returns exactly when the sums fit, and then what
  stands in the answer;
* `decodeAggregate3_returns_iff`: **main theorem**, when it returns;
* `hostile_answers_panic`: three answers that stop it.
-/

namespace MevScout.Rpc

open MevScout.Pool.Factory (withCapacity)

/-! ## The decoder -/

/-- Model of `word_to_u64` (`multicall.rs`, lines 100–106). -/
def wordToU64 (word : List UInt8) : Option ℕ :=
  if word.length ≠ 32 ∨ (word.take 24).any (· ≠ 0) then none else some (beVal (slice word 24 32))

/-- `&data[start..stop]`. -/
def sliceRange (data : List UInt8) (start stop : ℕ) : Except Panic (List UInt8) :=
  if start ≤ stop ∧ stop ≤ data.length then .ok (slice data start stop) else .error .slice

/-- One turn of the loop of `decode_aggregate3` (`multicall.rs`, lines 127–147); `none` is the
    early return. -/
def decodeSlot (checks : Bool) (result : List UInt8) (arrOff i : ℕ) :
    Except Panic (Option (Option (List UInt8))) := do
  -- The offset words lie within the answer, so that their places do not overflow.
  let offPos := arrOff + 32 + 32 * i
  match wordToU64 (← sliceRange result offPos (offPos + 32)) with
  | none => return none
  | some rel =>
    let abs ← arithUnsigned checks 64 (arrOff + rel)
    let start ← arithUnsigned checks 64 (abs + 32)
    if result.length < start then return some none
    else
      match wordToU64 (← sliceRange result abs start) with
      | none => return none
      | some len =>
        if len = 0 then return some none
        else
          let stop ← arithUnsigned checks 64 (start + len)
          if stop > result.length then return some none
          else return some (some (← sliceRange result start stop))

/-- The loop of `decode_aggregate3`, for `n` slots from the slot `i` on. -/
def decodeSlots (checks : Bool) (result : List UInt8) (arrOff : ℕ) :
    ℕ → ℕ → Except Panic (Option Slots)
  | 0, _ => .ok (some [])
  | n + 1, i => do
    match ← decodeSlot checks result arrOff i with
    | none => return none
    | some slot => return (← decodeSlots checks result arrOff n (i + 1)).map (slot :: ·)

/-- Model of `decode_aggregate3` (`multicall.rs`, lines 108–150). -/
def decodeAggregate3 (checks : Bool) (result : List UInt8) : Except Panic (Option Slots) := do
  if result.length < 64 then return none
  else
    match wordToU64 (← sliceRange result 32 64) with
    | none => return none
    | some arrOff =>
      let offsetsStart ← arithUnsigned checks 64 (arrOff + 32)
      if result.length < offsetsStart then return none
      else
        match wordToU64 (← sliceRange result arrOff offsetsStart) with
        | none => return none
        | some count =>
          let size ← arithUnsigned checks 64 (count * 32)
          let stop ← arithUnsigned checks 64 (offsetsStart + size)
          if result.length < stop then return none
          else
            -- An `Option<Bytes>` takes 32 bytes.
            withCapacity 32 count
            decodeSlots checks result arrOff count 0

/-! ## What stands in an answer -/

/-- The word at a byte. -/
def word (data : List UInt8) (pos : ℕ) : ℕ := beVal (slice data pos (pos + 32))

/-- The offset of the slot `i` of the array at `a`. -/
def relOf (data : List UInt8) (a i : ℕ) : ℕ := word data (a + 32 + 32 * i)

/-- The place of the slot `i` of the array at `a`. -/
def absOf (data : List UInt8) (a i : ℕ) : ℕ := (a + relOf data a i) % 2 ^ 64

/-- The slot `i` of the array at `a`, if its offset and its length are numbers of 64 bits. -/
def slotOf (data : List UInt8) (a i : ℕ) : Option (Option (List UInt8)) :=
  let abs := absOf data a i
  if 2 ^ 64 ≤ relOf data a i then none
  else if data.length < abs + 32 then some none
  else if 2 ^ 64 ≤ word data abs then none
  else if word data abs = 0 ∨ data.length < abs + 32 + word data abs then some none
  else some (some (slice data (abs + 32) (abs + 32 + word data abs)))

/-- The `n` slots from the slot `i` on. -/
def slotsOf (data : List UInt8) (a : ℕ) : ℕ → ℕ → Option Slots
  | 0, _ => some []
  | n + 1, i => (slotOf data a i).bind fun slot => (slotsOf data a n (i + 1)).map (slot :: ·)

/-- The slots of an answer. -/
def readout (data : List UInt8) : Option Slots :=
  let a := word data 32
  if data.length < 64 ∨ 2 ^ 64 ≤ a then none
  else if data.length < a + 32 ∨ 2 ^ 64 ≤ word data a then none
  else if data.length < a + 32 + 32 * word data a then none
  else slotsOf data a (word data a) 0

/-! ## When the sums fit -/

/-- The offset of a slot and the length there, if there is one, are numbers of 64 bits. -/
def Readable (data : List UInt8) (a i : ℕ) : Prop :=
  relOf data a i < 2 ^ 64 ∧
    (absOf data a i + 32 ≤ data.length → word data (absOf data a i) < 2 ^ 64)

/-- The place of a slot and its end are numbers of 64 bits; without overflow checks, the sum that
    is its place may wrap. -/
def SlotFits (checks : Bool) (data : List UInt8) (a i : ℕ) : Prop :=
  relOf data a i < 2 ^ 64 →
    (checks = true → a + relOf data a i < 2 ^ 64) ∧ absOf data a i + 32 < 2 ^ 64 ∧
    (absOf data a i + 32 ≤ data.length → word data (absOf data a i) < 2 ^ 64 →
      absOf data a i + 32 + word data (absOf data a i) < 2 ^ 64)

/-- The sums over the count of the array at `a` fit, or they wrap past the end of the answer; and
    so do those of every slot up to the first one that is not readable. -/
def ArrayFits (checks : Bool) (data : List UInt8) (a : ℕ) : Prop :=
  (a + 32 + 32 * word data a < 2 ^ 64 ∨
    (checks = false ∧ data.length < (a + 32 + 32 * word data a) % 2 ^ 64)) ∧
  (a + 32 + 32 * word data a ≤ data.length →
    ∀ i < word data a, (∀ j < i, Readable data a j) → SlotFits checks data a i)

/-- The offset of the array is a number whose end fits, and so do the sums of its array. -/
def DecodeFits (checks : Bool) (data : List UInt8) : Prop :=
  64 ≤ data.length → word data 32 < 2 ^ 64 →
    word data 32 + 32 < 2 ^ 64 ∧
    (word data 32 + 32 ≤ data.length → word data (word data 32) < 2 ^ 64 →
      ArrayFits checks data (word data 32))

/-! ## One slot -/

variable {checks : Bool} {data : List UInt8} {a i n p q : ℕ}

theorem sliceRange_eq (hpq : p ≤ q) (hq : q ≤ data.length) :
    sliceRange data p q = .ok (slice data p q) :=
  if_pos ⟨hpq, hq⟩

theorem sliceRange_of_lt (h : q < p) : sliceRange data p q = .error .slice :=
  if_neg fun h' => absurd h'.1 (by omega)

/-- A word is narrowed when its value fits. -/
theorem wordToU64_eq (h : p + 32 ≤ data.length) :
    wordToU64 (slice data p (p + 32)) =
      if word data p < 2 ^ 64 then some (word data p) else none := by
  have hlen : (slice data p (p + 32)).length = 32 := by
    rw [length_slice (by omega) h]
    omega
  have hsplit : word data p =
      beVal ((slice data p (p + 32)).take 24) * 256 ^ 8 +
        beVal (slice (slice data p (p + 32)) 24 32) := by
    have hdrop : slice (slice data p (p + 32)) 24 32 = (slice data p (p + 32)).drop 24 :=
      List.take_of_length_le (by rw [List.length_drop, hlen])
    rw [word, hdrop]
    conv_lhs => rw [← List.take_append_drop 24 (slice data p (p + 32)), beVal_append]
    rw [List.length_drop, hlen]
  have hlow : beVal (slice (slice data p (p + 32)) 24 32) < 256 ^ 8 := by
    have hlt := beVal_lt (slice (slice data p (p + 32)) 24 32)
    rwa [length_slice (by omega) (by omega)] at hlt
  unfold wordToU64
  by_cases hzero : ∀ b ∈ (slice data p (p + 32)).take 24, b = 0
  · have hany : ¬((slice data p (p + 32)).take 24).any (· ≠ 0) = true := by
      rw [List.any_eq_true]
      rintro ⟨b, hb, hne⟩
      exact absurd (hzero b hb) (by simpa using hne)
    rw [beVal_eq_zero_iff.mpr hzero, Nat.zero_mul, Nat.zero_add] at hsplit
    rw [if_neg (not_or.mpr ⟨not_not_intro hlen, hany⟩), ← hsplit, if_pos]
    rw [hsplit]
    exact hlow.trans_le (by norm_num)
  · have hany : ((slice data p (p + 32)).take 24).any (· ≠ 0) = true := by
      push Not at hzero
      obtain ⟨b, hb, hne⟩ := hzero
      exact List.any_eq_true.mpr ⟨b, hb, by simpa using hne⟩
    have hpos : beVal ((slice data p (p + 32)).take 24) ≠ 0 := mt beVal_eq_zero_iff.mp hzero
    rw [if_pos (.inr hany), if_neg]
    have hge : 256 ^ 8 ≤ beVal ((slice data p (p + 32)).take 24) * 256 ^ 8 :=
      Nat.le_mul_of_pos_left _ (Nat.pos_of_ne_zero hpos)
    rw [show (256 : ℕ) ^ 8 = 2 ^ 64 by norm_num] at hge hsplit
    omega

/-- A range whose end wraps in front of its start is not read: its end panics in a build with
    overflow checks, and the range in one without. -/
theorem overflow_eq_ok_iff {β : Type} {x : Except Panic β}
    {f : ℕ → List UInt8 → Except Panic β} {P : Prop} {v r : β} (hP : ¬P)
    (hover : 2 ^ 64 ≤ q) (hwrap : q % 2 ^ 64 < p) (hin : q % 2 ^ 64 ≤ data.length) :
    (arithUnsigned checks 64 q >>= fun stop =>
        if data.length < stop then x else sliceRange data p stop >>= f stop) = .ok r ↔
      P ∧ v = r := by
  rw [arithUnsigned_of_le hover]
  cases checks with
  | false =>
    rw [if_neg Bool.false_ne_true, ok_bind, if_neg (by omega), sliceRange_of_lt hwrap, error_bind]
    exact error_eq_ok_iff hP
  | true =>
    rw [if_pos rfl, error_bind]
    exact error_eq_ok_iff hP

/-- A slot is decoded exactly when its sums fit, to what stands in the answer. -/
theorem decodeSlot_eq_ok_iff (hlen : data.length < 2 ^ 63) (hi : a + 32 + 32 * i + 32 ≤ data.length)
    {r : Option (Option (List UInt8))} :
    decodeSlot checks data a i = .ok r ↔ SlotFits checks data a i ∧ slotOf data a i = r := by
  have hrelword : word data (a + 32 + 32 * i) = relOf data a i := rfl
  unfold decodeSlot
  dsimp only
  rw [sliceRange_eq (by omega) hi, ok_bind, wordToU64_eq hi, hrelword]
  by_cases hrel : relOf data a i < 2 ^ 64
  case neg =>
    rw [if_neg hrel]
    exact ok_eq_ok_iff (fun h => absurd h hrel) (if_pos (not_lt.mp hrel))
  rw [if_pos hrel]
  dsimp only
  by_cases hsum : checks = true ∧ 2 ^ 64 ≤ a + relOf data a i
  case pos =>
    obtain ⟨rfl, hle⟩ := hsum
    rw [arithUnsigned_of_le hle, if_pos rfl, error_bind]
    exact error_eq_ok_iff fun h => absurd ((h hrel).1 rfl) (by omega)
  have habs : arithUnsigned checks 64 (a + relOf data a i) = .ok (absOf data a i) := if_neg hsum
  have hsum' : checks = true → a + relOf data a i < 2 ^ 64 :=
    fun hc => not_le.mp fun hle => hsum ⟨hc, hle⟩
  rw [habs, ok_bind]
  by_cases hstart : absOf data a i + 32 < 2 ^ 64
  case neg =>
    have habs_lt : absOf data a i < 2 ^ 64 := Nat.mod_lt _ (by positivity)
    exact overflow_eq_ok_iff (fun h => hstart (h hrel).2.1) (not_lt.mp hstart) (by omega) (by omega)
  rw [arithUnsigned_eq hstart, ok_bind]
  by_cases hin : data.length < absOf data a i + 32
  case pos =>
    rw [if_pos hin]
    refine ok_eq_ok_iff (fun _ => ⟨hsum', hstart, fun h => absurd h (by omega)⟩) ?_
    unfold slotOf
    dsimp only
    rw [if_neg (by omega), if_pos hin]
  rw [if_neg hin, sliceRange_eq (by omega) (by omega), ok_bind, wordToU64_eq (by omega)]
  by_cases hword : word data (absOf data a i) < 2 ^ 64
  case neg =>
    rw [if_neg hword]
    refine ok_eq_ok_iff (fun _ => ⟨hsum', hstart, fun _ h => absurd h hword⟩) ?_
    unfold slotOf
    dsimp only
    rw [if_neg (by omega), if_neg hin, if_pos (not_lt.mp hword)]
  rw [if_pos hword]
  dsimp only
  have hslot : slotOf data a i =
      if word data (absOf data a i) = 0 ∨
        data.length < absOf data a i + 32 + word data (absOf data a i) then some none
      else some (some (slice data (absOf data a i + 32)
        (absOf data a i + 32 + word data (absOf data a i)))) := by
    unfold slotOf
    dsimp only
    rw [if_neg (by omega), if_neg hin, if_neg (by omega)]
  by_cases hzero : word data (absOf data a i) = 0
  case pos =>
    rw [if_pos hzero]
    refine ok_eq_ok_iff (fun _ => ⟨hsum', hstart, fun _ _ => by omega⟩) ?_
    rw [hslot, if_pos (.inl hzero)]
  rw [if_neg hzero]
  by_cases hstop : absOf data a i + 32 + word data (absOf data a i) < 2 ^ 64
  case neg =>
    exact overflow_eq_ok_iff (fun h => hstop ((h hrel).2.2 (by omega) hword)) (not_lt.mp hstop)
      (by omega) (by omega)
  have hfits : SlotFits checks data a i := fun _ => ⟨hsum', hstart, fun _ _ => hstop⟩
  rw [arithUnsigned_eq hstop, ok_bind]
  by_cases hend : absOf data a i + 32 + word data (absOf data a i) > data.length
  · rw [if_pos hend]
    refine ok_eq_ok_iff hfits ?_
    rw [hslot, if_pos (.inr hend)]
  · rw [if_neg hend, sliceRange_eq (by omega) (by omega), ok_bind]
    refine ok_eq_ok_iff hfits ?_
    rw [hslot, if_neg (not_or.mpr ⟨hzero, hend⟩)]

theorem slotOf_eq_none_iff : slotOf data a i = none ↔ ¬Readable data a i := by
  unfold slotOf Readable
  dsimp only
  split_ifs with hrel hin hword hlen
  · exact iff_of_true rfl fun h => by omega
  · exact iff_of_false (by simp) (not_not_intro ⟨by omega, fun h => by omega⟩)
  · exact iff_of_true rfl fun h => by
      have := h.2 (by omega)
      omega
  · exact iff_of_false (by simp) (not_not_intro ⟨by omega, fun _ => by omega⟩)
  · exact iff_of_false (by simp) (not_not_intro ⟨by omega, fun _ => by omega⟩)

/-! ## All slots -/

/-- What is asked of the steps that are reached, one step at a time. -/
theorem forall_reached_succ_iff {R F : ℕ → Prop} :
    (∀ k, i ≤ k → k < i + (n + 1) → (∀ j, i ≤ j → j < k → R j) → F k) ↔
      F i ∧ (R i →
        ∀ k, i + 1 ≤ k → k < i + 1 + n → (∀ j, i + 1 ≤ j → j < k → R j) → F k) := by
  constructor
  · intro h
    refine ⟨h i le_rfl (by omega) fun j hj hj' => by omega, fun hR k hk hk' hreach => ?_⟩
    refine h k (by omega) (by omega) fun j hj hj' => ?_
    rcases eq_or_lt_of_le hj with rfl | hlt
    · exact hR
    · exact hreach j hlt hj'
  · rintro ⟨hi, hrest⟩ k hk hk' hreach
    rcases eq_or_lt_of_le hk with rfl | hlt
    · exact hi
    · exact hrest (hreach i le_rfl hlt) k hlt (by omega) fun j hj hj' => hreach j (by omega) hj'

/-- The loop returns exactly when the sums of every slot that it reaches fit. -/
theorem decodeSlots_eq_ok_iff (hlen : data.length < 2 ^ 63) {r : Option Slots}
    (hn : a + 32 + 32 * (i + n) ≤ data.length) :
    decodeSlots checks data a n i = .ok r ↔
      (∀ k, i ≤ k → k < i + n → (∀ j, i ≤ j → j < k → Readable data a j) →
        SlotFits checks data a k) ∧ slotsOf data a n i = r := by
  induction n generalizing i r with
  | zero =>
    exact ⟨fun h => ⟨fun k hk hk' => absurd hk' (by omega), Except.ok.inj h⟩,
      fun h => congrArg Except.ok h.2⟩
  | succ n ih =>
    rw [decodeSlots, bind_eq_ok, forall_reached_succ_iff, slotsOf]
    have hslot {x : Option (Option (List UInt8))} :
        decodeSlot checks data a i = .ok x ↔ SlotFits checks data a i ∧ slotOf data a i = x :=
      decodeSlot_eq_ok_iff hlen (by omega)
    cases hs : slotOf data a i with
    | none =>
      rw [hs] at hslot
      have hR := slotOf_eq_none_iff.mp hs
      constructor
      · rintro ⟨x, hx, hr⟩
        obtain ⟨hfits, rfl⟩ := hslot.mp hx
        exact ⟨⟨hfits, fun h => absurd h hR⟩, Except.ok.inj hr⟩
      · rintro ⟨⟨hfits, -⟩, rfl⟩
        exact ⟨none, hslot.mpr ⟨hfits, rfl⟩, rfl⟩
    | some slot =>
      rw [hs] at hslot
      have hR : Readable data a i := not_not.mp fun h => by
        rw [slotOf_eq_none_iff.mpr h] at hs
        cases hs
      constructor
      · rintro ⟨x, hx, hr⟩
        obtain ⟨hfits, rfl⟩ := hslot.mp hx
        obtain ⟨slots, hslots, hr⟩ := bind_eq_ok.mp hr
        obtain ⟨hrest, rfl⟩ := (ih (by omega)).mp hslots
        exact ⟨⟨hfits, fun _ => hrest⟩, Except.ok.inj hr⟩
      · rintro ⟨⟨hfits, hrest⟩, rfl⟩
        exact ⟨some slot, hslot.mpr ⟨hfits, rfl⟩,
          bind_eq_ok.mpr ⟨_, (ih (by omega)).mpr ⟨hrest hR, rfl⟩, rfl⟩⟩

/-- **Main lemma.** The decoder returns exactly when the sums fit, and then what stands in the
    answer. -/
theorem decodeAggregate3_eq_ok_iff (hlen : data.length < 2 ^ 63) {r : Option Slots} :
    decodeAggregate3 checks data = .ok r ↔ DecodeFits checks data ∧ readout data = r := by
  unfold decodeAggregate3
  by_cases hshort : data.length < 64
  case pos =>
    rw [if_pos hshort]
    exact ok_eq_ok_iff (fun h => absurd h (by omega)) (if_pos (.inl hshort))
  rw [if_neg hshort, sliceRange_eq (by omega) (by omega), ok_bind,
    show (64 : ℕ) = 32 + 32 from rfl, wordToU64_eq (by omega)]
  by_cases ha : word data 32 < 2 ^ 64
  case neg =>
    rw [if_neg ha]
    exact ok_eq_ok_iff (fun _ h => absurd h ha) (if_pos (.inr (not_lt.mp ha)))
  rw [if_pos ha]
  dsimp only
  have hfits_iff : DecodeFits checks data ↔ word data 32 + 32 < 2 ^ 64 ∧
      (word data 32 + 32 ≤ data.length → word data (word data 32) < 2 ^ 64 →
        ArrayFits checks data (word data 32)) :=
    ⟨fun h => h (by omega) ha, fun h _ _ => h⟩
  have hread : readout data =
      if data.length < word data 32 + 32 ∨ 2 ^ 64 ≤ word data (word data 32) then none
      else if data.length < word data 32 + 32 + 32 * word data (word data 32) then none
      else slotsOf data (word data 32) (word data (word data 32)) 0 :=
    if_neg (by omega)
  rw [hfits_iff, hread]
  generalize word data 32 = a at *
  by_cases hhead : a + 32 < 2 ^ 64
  case neg =>
    exact overflow_eq_ok_iff (fun h => hhead h.1) (not_lt.mp hhead) (by omega) (by omega)
  rw [arithUnsigned_eq hhead, ok_bind]
  by_cases hin : data.length < a + 32
  case pos =>
    rw [if_pos hin]
    exact ok_eq_ok_iff ⟨hhead, fun h => absurd h (by omega)⟩ (if_pos (.inl hin))
  rw [if_neg hin, sliceRange_eq (by omega) (by omega), ok_bind, wordToU64_eq (by omega)]
  by_cases hcount : word data a < 2 ^ 64
  case neg =>
    rw [if_neg hcount]
    exact ok_eq_ok_iff ⟨hhead, fun _ h => absurd h hcount⟩ (if_pos (.inr (not_lt.mp hcount)))
  rw [if_pos hcount]
  dsimp only
  rw [if_neg (not_or.mpr ⟨hin, not_le.mpr hcount⟩)]
  have harray : (a + 32 < 2 ^ 64 ∧ (a + 32 ≤ data.length → word data a < 2 ^ 64 →
      ArrayFits checks data a)) ↔ ArrayFits checks data a :=
    ⟨fun h => h.2 (by omega) hcount, fun h => ⟨hhead, fun _ _ => h⟩⟩
  rw [harray]
  by_cases hsum : a + 32 + 32 * word data a < 2 ^ 64
  case pos =>
    rw [arithUnsigned_eq (by omega), ok_bind, arithUnsigned_eq (by omega), ok_bind,
      Nat.mul_comm (word data a) 32]
    by_cases hend : data.length < a + 32 + 32 * word data a
    · rw [if_pos hend]
      exact ok_eq_ok_iff ⟨.inl hsum, fun h => absurd h (by omega)⟩ (if_pos hend)
    · have hcapacity : withCapacity 32 (word data a) = .ok () := if_pos (by omega)
      rw [if_neg hend, hcapacity, ok_bind, decodeSlots_eq_ok_iff hlen (by omega), if_neg hend]
      refine and_congr_left' ⟨fun h => ⟨.inl hsum, fun _ k hk hreach => ?_⟩, fun h => ?_⟩
      · exact h k (Nat.zero_le k) (by omega) fun j _ hj => hreach j hj
      · intro k _ hk hreach
        exact h.2 (by omega) k (by omega) fun j hj => hreach j (Nat.zero_le j) hj
  cases checks
  case true =>
    have hfits : ¬ArrayFits true data a := fun h => h.1.elim hsum fun h => by cases h.1
    by_cases hsize : word data a * 32 < 2 ^ 64
    · rw [arithUnsigned_eq hsize, ok_bind, arithUnsigned_of_le (by omega), if_pos rfl, error_bind]
      exact error_eq_ok_iff hfits
    · rw [arithUnsigned_of_le (not_lt.mp hsize), if_pos rfl, error_bind]
      exact error_eq_ok_iff hfits
  case false =>
    have hstop : (a + 32 + word data a * 32 % 2 ^ 64) % 2 ^ 64 =
        (a + 32 + 32 * word data a) % 2 ^ 64 := by omega
    rw [arithUnsigned_false, ok_bind, arithUnsigned_false, ok_bind, hstop]
    by_cases hend : data.length < (a + 32 + 32 * word data a) % 2 ^ 64
    · rw [if_pos hend]
      exact ok_eq_ok_iff ⟨.inr ⟨rfl, hend⟩, fun h => absurd h (by omega)⟩ (if_pos (by omega))
    · have hcapacity : withCapacity 32 (word data a) = .error .capacity := if_neg (by omega)
      rw [if_neg hend, hcapacity, error_bind]
      exact error_eq_ok_iff fun h => h.1.elim hsum fun h => hend h.2

/-- **Main theorem.** In either build, the decoder returns on an answer exactly when its sums
    fit. -/
theorem decodeAggregate3_returns_iff (checks : Bool) (data : List UInt8)
    (hlen : data.length < 2 ^ 63) :
    (∃ slots, decodeAggregate3 checks data = .ok slots) ↔ DecodeFits checks data := by
  simp only [decodeAggregate3_eq_ok_iff hlen, exists_and_left, exists_eq', and_true]

/-- The answer of two slots, one with the byte `0xab` and one empty. -/
theorem decodeAggregate3_returns_two :
    (∃ slots, decodeAggregate3 true
      (encodeWords [1, 64, 2, 96, 160, 1, 0xab * 256 ^ 31, 0]) = .ok slots) ↔
    DecodeFits true (encodeWords [1, 64, 2, 96, 160, 1, 0xab * 256 ^ 31, 0]) :=
  decodeAggregate3_returns_iff true _ (by decide +kernel)

/-- An offset of the array, a count and an offset of a slot that wrap stop both builds. -/
theorem hostile_answers_panic :
    decodeAggregate3 true (encodeWords [1, 2 ^ 64 - 1]) = .error .overflow ∧
    decodeAggregate3 false (encodeWords [1, 2 ^ 64 - 1]) = .error .slice ∧
    decodeAggregate3 true (encodeWords [1, 64, 2 ^ 59]) = .error .overflow ∧
    decodeAggregate3 false (encodeWords [1, 64, 2 ^ 59]) = .error .capacity ∧
    decodeAggregate3 true (encodeWords [1, 64, 1, 2 ^ 64 - 65]) = .error .overflow ∧
    decodeAggregate3 false (encodeWords [1, 64, 1, 2 ^ 64 - 65]) = .error .slice := by
  refine ⟨?_, ?_, ?_, ?_, ?_, ?_⟩ <;> decide +kernel

end MevScout.Rpc
