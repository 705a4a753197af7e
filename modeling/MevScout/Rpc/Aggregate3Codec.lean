import MevScout.Common.Abi
import MevScout.Rpc.Aggregate3

/-!
# The codec of `aggregate3`

Model of `encode_aggregate3` (`core/src/rpc/multicall.rs`), beside the standard encodings of the
calls and of the results of `aggregate3((address,bool,bytes)[]) returns ((bool,bytes)[])`.

The encoder lays the calls out as static tuples with one shared tail area, so that the offsets of
the tuples are missing. The decoder reads an answer as `(bool, bytes[])`: it takes the number of
results for the offset of an array.

Results:
* `standardCalls_decode`, `standardResults_decode`: the standard encodings are read back;
* `encodeAggregate3_eq_iff`: the calls whose encoding is the standard one;
* `length_eq_of_readout`: only lists of 32 results are read back, as far as their length goes;
* `decode_standardResults_iff`: the results that the decoder reads back from their standard
  encoding;
* `aggregate3_codec_iff`: **main theorem**, both.
-/

namespace MevScout.Rpc

open Abi

/-! ## The encoder -/

/-- `AGGREGATE3_SELECTOR`. -/
def aggregate3Selector : List UInt8 := [0x82, 0xad, 0x56, 0xcb]

/-- Model of `push_word_u64` (`multicall.rs`, lines 55–58). -/
def pushWordU64 (v : ℕ) : List UInt8 := List.replicate 24 0 ++ beBytes 8 v

/-- The bytes of a tail: a length word and the padded data. -/
def tailSize (call : SubCall) : ℕ := 32 + 32 * wordCount call.data.length

/-- The `tail_offsets` of the calls, from `offset` on. -/
def tailOffsets : ℕ → List SubCall → List ℕ
  | _, [] => []
  | offset, call :: calls => offset :: tailOffsets (offset + tailSize call) calls

/-- The head of a call. -/
def encodeHead (call : SubCall) (tailOffset : ℕ) : List UInt8 :=
  List.replicate 12 0 ++ beBytes 20 call.target.toNat ++ List.replicate 31 0 ++ [1] ++
    pushWordU64 tailOffset

/-- The tail of a call. -/
def encodeTail (call : SubCall) : List UInt8 := pushWordU64 call.data.length ++ padded call.data

/-- Model of `encode_aggregate3` (`multicall.rs`, lines 60–97). -/
def encodeAggregate3 (calls : List SubCall) : List UInt8 :=
  aggregate3Selector ++ pushWordU64 0x20 ++ pushWordU64 calls.length ++
    (List.zipWith encodeHead calls (tailOffsets (96 * calls.length) calls)).flatten ++
    calls.flatMap encodeTail

/-! ## The standard encodings -/

/-- `(address,bool,bytes)`. -/
def callFields : Fields (Address × Bool × List UInt8 × Unit) :=
  .cons .address <| .cons .bool <| .cons .bytes .nil

/-- The argument of `aggregate3`: `(address,bool,bytes)[]`. -/
def callsFields : Fields (List (Address × Bool × List UInt8 × Unit) × Unit) :=
  .cons callFields.tuple.array .nil

/-- `(bool,bytes)`. -/
def resultFields : Fields (Bool × List UInt8 × Unit) := .cons .bool <| .cons .bytes .nil

/-- The answer of `aggregate3`: `(bool,bytes)[]`. -/
def resultsFields : Fields (List (Bool × List UInt8 × Unit) × Unit) :=
  .cons resultFields.tuple.array .nil

/-- A call as the argument has it; failures are always allowed. -/
def callValue (call : SubCall) : Address × Bool × List UInt8 × Unit :=
  (call.target, true, call.data, ())

/-- A result as the answer has it. -/
def resultValue (r : Bool × List UInt8) : Bool × List UInt8 × Unit := (r.1, r.2, ())

/-- The standard calldata of `aggregate3`. -/
def standardCalls (calls : List SubCall) : List UInt8 :=
  aggregate3Selector ++ encodeWords (callsFields.tuple.encode (calls.map callValue, ()))

/-- The standard answer of `aggregate3`. -/
def standardResults (results : List (Bool × List UInt8)) : List UInt8 :=
  encodeWords (resultsFields.tuple.encode (results.map resultValue, ()))

/-- The words of a call. -/
def callWords (call : SubCall) : List ℕ :=
  [call.target.toNat, 1, 96, call.data.length] ++ packed call.data

/-- The words of a result. -/
def resultWords (r : Bool × List UInt8) : List ℕ :=
  [r.1.toNat, 64, r.2.length] ++ packed r.2

theorem encode_callValue (call : SubCall) :
    callFields.tuple.encode (callValue call) = callWords call := by
  show layout [⟨false, [call.target.toNat]⟩, ⟨false, [1]⟩,
    ⟨true, call.data.length :: packed call.data⟩] = callWords call
  simp [layout, heads, tails, headSizes, Abi.Part.headSize, callWords]

theorem encode_resultValue (r : Bool × List UInt8) :
    resultFields.tuple.encode (resultValue r) = resultWords r := by
  show layout [⟨false, [r.1.toNat]⟩, ⟨true, r.2.length :: packed r.2⟩] = resultWords r
  simp [layout, heads, tails, headSizes, Abi.Part.headSize, resultWords]

/-- The words of an array of dynamic tuples that stands alone. -/
def arrayWords (tuples : List (List ℕ)) : List ℕ :=
  32 :: tuples.length ::
    (heads tuples.length (tuples.map (Abi.Part.mk true)) ++ tuples.flatten)

/-- An array of dynamic components that stands alone. -/
theorem encode_array {α : Type} (c : Codec α) (hc : c.dynamic = true) (xs : List α) :
    (Fields.cons c.array .nil).tuple.encode (xs, ()) = arrayWords (xs.map c.encode) := by
  have hdyn : ∀ p ∈ xs.map c.part, p.dynamic = true := by
    intro p hp
    obtain ⟨x, -, rfl⟩ := List.mem_map.mp hp
    exact hc
  have hparts : xs.map c.part = (xs.map c.encode).map (Abi.Part.mk true) := by
    rw [List.map_map]
    exact List.map_congr_left fun x _ => by rw [Codec.part, hc]; rfl
  have hwords : (xs.map c.part).flatMap Abi.Part.words = (xs.map c.encode).flatten := by
    rw [List.flatMap_map, ← List.flatMap_def]
    rfl
  show layout [⟨true, xs.length :: layout (xs.map c.part)⟩] = _
  rw [layout_of_dynamic hdyn, hwords, hparts, arrayWords]
  simp [layout, heads, tails, headSizes, Abi.Part.headSize]

theorem map_encode_callValue (calls : List SubCall) :
    (calls.map callValue).map callFields.tuple.encode = calls.map callWords := by
  rw [List.map_map]
  exact List.map_congr_left fun call _ => encode_callValue call

theorem map_encode_resultValue (results : List (Bool × List UInt8)) :
    (results.map resultValue).map resultFields.tuple.encode = results.map resultWords := by
  rw [List.map_map]
  exact List.map_congr_left fun r _ => encode_resultValue r

theorem standardCalls_eq (calls : List SubCall) :
    standardCalls calls =
      aggregate3Selector ++ encodeWords (arrayWords (calls.map callWords)) := by
  rw [standardCalls, callsFields, encode_array _ rfl, map_encode_callValue]

theorem standardResults_eq (results : List (Bool × List UInt8)) :
    standardResults results = encodeWords (arrayWords (results.map resultWords)) := by
  rw [standardResults, resultsFields, encode_array _ rfl, map_encode_resultValue]

theorem length_arrayWords (tuples : List (List ℕ)) :
    (arrayWords tuples).length = 2 + tuples.length + tuples.flatten.length := by
  have hheads : (heads tuples.length (tuples.map (Abi.Part.mk true))).length = tuples.length := by
    rw [length_heads, headSizes, List.map_map]
    simp [Function.comp_def, Abi.Part.headSize]
  simp only [arrayWords, List.length_cons, List.length_append, hheads]
  omega

/-- An array of dynamic components that stands alone is read back, if its components are valid. -/
theorem decode_array {α : Type} (c : Codec α) (hc : c.dynamic = true) {xs : List α}
    (hlen : 32 * (arrayWords (xs.map c.encode)).length < 2 ^ 64)
    (hvalid : ∀ x ∈ xs, 32 * (c.encode x).length < 2 ^ 64 → c.Valid x) :
    (Fields.cons c.array .nil).tuple.decode (encodeWords (arrayWords (xs.map c.encode))) 0 =
      some (xs, ()) := by
  have hencode := encode_array c hc xs
  have hwords := hlen
  rw [length_arrayWords, List.length_map] at hwords
  rw [← hencode] at hlen ⊢
  refine Codec.decode_encode _ ⟨⟨?_, fun x hx => hvalid x hx ?_⟩, trivial⟩
    (hlen.trans (by norm_num))
  · show xs.length < 2 ^ 256
    omega
  · have hmem : c.encode x ∈ xs.map c.encode := List.mem_map_of_mem hx
    have hle := (List.sublist_flatten_of_mem hmem).length_le
    omega

/-- The standard decoder reads the calls back. -/
theorem standardCalls_decode (calls : List SubCall)
    (hlen : (standardCalls calls).length < 2 ^ 63) :
    callsFields.tuple.decode ((standardCalls calls).drop 4) 0 =
      some (calls.map callValue, ()) := by
  have hmap := map_encode_callValue calls
  rw [standardCalls_eq, List.length_append, length_encodeWords] at hlen
  rw [standardCalls_eq, ← hmap]
  refine decode_array callFields.tuple rfl (by rw [hmap]; omega) fun x hx hsize => ?_
  obtain ⟨call, -, rfl⟩ := List.mem_map.mp hx
  rw [encode_callValue, callWords, List.length_append, length_packed, wordCount] at hsize
  refine ⟨call.target.isLt, trivial, ?_, trivial⟩
  show call.data.length < 2 ^ 256
  omega

/-- The standard decoder reads the results back. -/
theorem standardResults_decode (results : List (Bool × List UInt8))
    (hlen : (standardResults results).length < 2 ^ 63) :
    resultsFields.tuple.decode (standardResults results) 0 =
      some (results.map resultValue, ()) := by
  have hmap := map_encode_resultValue results
  rw [standardResults_eq, length_encodeWords] at hlen
  rw [standardResults_eq, ← hmap]
  refine decode_array resultFields.tuple rfl (by rw [hmap]; omega) fun x hx hsize => ?_
  obtain ⟨r, -, rfl⟩ := List.mem_map.mp hx
  rw [encode_resultValue, resultWords, List.length_append, length_packed, wordCount] at hsize
  refine ⟨trivial, ?_, trivial⟩
  show r.2.length < 2 ^ 256
  omega

/-! ## The encoder and the standard -/

theorem length_pushWordU64 (v : ℕ) : (pushWordU64 v).length = 32 := by
  simp [pushWordU64]

theorem length_encodeHeads (offset : ℕ) (calls : List SubCall) :
    (List.zipWith encodeHead calls (tailOffsets offset calls)).flatten.length =
      96 * calls.length := by
  induction calls generalizing offset with
  | nil => rfl
  | cons call calls ih =>
    rw [tailOffsets, List.zipWith_cons_cons, List.flatten_cons, List.length_append, ih,
      List.length_cons]
    simp only [encodeHead, List.length_append, List.length_replicate, length_beBytes,
      List.length_singleton, length_pushWordU64]
    omega

/-- The code's encoding is shorter than the standard one, by a word for each call. -/
theorem length_standardCalls (calls : List SubCall) :
    (standardCalls calls).length = (encodeAggregate3 calls).length + 32 * calls.length := by
  have htails : 32 * (calls.map callWords).flatten.length =
      (calls.flatMap encodeTail).length + 96 * calls.length := by
    induction calls with
    | nil => rfl
    | cons call calls ih =>
      simp only [List.map_cons, List.flatten_cons, List.flatMap_cons, List.length_append,
        List.length_cons, callWords, encodeTail, length_packed, length_padded,
        length_pushWordU64, List.length_nil] at ih ⊢
      omega
  rw [standardCalls_eq, List.length_append, length_encodeWords, length_arrayWords, encodeAggregate3]
  simp only [List.length_append, length_encodeHeads, length_pushWordU64, List.length_map]
  omega

/-- The encoder writes the standard encoding of no call, and of no other list. -/
theorem encodeAggregate3_eq_iff (calls : List SubCall) :
    encodeAggregate3 calls = standardCalls calls ↔ calls = [] := by
  constructor
  · intro h
    have hlen := length_standardCalls calls
    rw [← h] at hlen
    exact List.length_eq_zero_iff.mp (by omega)
  · rintro rfl
    decide

/-! ## Words of the standard answer -/

section Words

variable {ws : List ℕ} {k r x y : ℕ}

theorem word_aligned (hx : ws[k]? = some x) : word (encodeWords ws) (32 * k) = x % 2 ^ 256 := by
  obtain ⟨hk, rfl⟩ := List.getElem?_eq_some_iff.mp hx
  exact beVal_slice_encodeWords hk

theorem word_unaligned (hr : r ≤ 32) (hx : ws[k]? = some x) (hy : ws[k + 1]? = some y) :
    word (encodeWords ws) (32 * k + r) =
      x % 256 ^ (32 - r) * 256 ^ r + y % 2 ^ 256 / 256 ^ (32 - r) := by
  obtain ⟨hk, rfl⟩ := List.getElem?_eq_some_iff.mp hx
  obtain ⟨hk', rfl⟩ := List.getElem?_eq_some_iff.mp hy
  exact beVal_slice_encodeWords_unaligned hk' hr

/-- A read that starts well inside a word, some low bytes of which are not zero, is too large. -/
theorem le_word_unaligned (hr : 8 ≤ r) (hr' : r ≤ 32) (hx : ws[k]? = some x)
    (hy : ws[k + 1]? = some y) (hlow : x % 256 ^ (32 - r) ≠ 0) :
    2 ^ 64 ≤ word (encodeWords ws) (32 * k + r) := by
  rw [word_unaligned hr' hx hy]
  have hpow : 2 ^ 64 ≤ 256 ^ r := by
    rw [show (2 : ℕ) ^ 64 = 256 ^ 8 by norm_num]
    exact Nat.pow_le_pow_right (by norm_num) hr
  have hmul : 256 ^ r ≤ x % 256 ^ (32 - r) * 256 ^ r :=
    Nat.le_mul_of_pos_left _ (Nat.pos_of_ne_zero hlow)
  exact hpow.trans (hmul.trans (Nat.le_add_right _ _))

/-- A read that starts early inside a word gives more than a byte over the word. -/
theorem lt_word_unaligned (hr : 0 < r) (hr' : r < 8) (hx : ws[k]? = some x)
    (hy : ws[k + 1]? = some y) (hpos : 0 < x) (hlt : x < 2 ^ 63) :
    256 * x ≤ word (encodeWords ws) (32 * k + r) := by
  rw [word_unaligned (by omega) hx hy]
  have hpow : 2 ^ 63 ≤ 256 ^ (32 - r) := by
    refine le_trans (by norm_num : 2 ^ 63 ≤ 256 ^ 24) ?_
    exact Nat.pow_le_pow_right (by norm_num) (by omega)
  have hmul : 256 * x ≤ x * 256 ^ r := by
    rw [Nat.mul_comm]
    refine Nat.mul_le_mul_left x ?_
    calc 256 = 256 ^ 1 := by norm_num
      _ ≤ 256 ^ r := Nat.pow_le_pow_right (by norm_num) hr
  rw [Nat.mod_eq_of_lt (by omega)]
  exact hmul.trans (Nat.le_add_right _ _)

end Words

variable {tuples : List (List ℕ)} {results : List (Bool × List UInt8)}

/-- The offset of a tuple, in the array. -/
theorem getElem?_arrayWords_offset (tuples : List (List ℕ)) {i : ℕ} (hi : i < tuples.length) :
    (arrayWords tuples)[2 + i]? =
      some (32 * (tuples.length + (tuples.take i).flatten.length)) := by
  have hheads : (heads tuples.length (tuples.map (Abi.Part.mk true)))[i]? =
      some (32 * (tuples.length + (tuples.take i).flatten.length)) := by
    rw [getElem?_heads (by simp) _ (by simpa using hi), ← List.map_take, List.flatMap_map]
    rw [List.flatMap_def, List.map_id'']
    exact fun _ => rfl
  obtain ⟨hlt, -⟩ := List.getElem?_eq_some_iff.mp hheads
  rw [arrayWords, show 2 + i = i + 1 + 1 by omega, List.getElem?_cons_succ,
    List.getElem?_cons_succ, List.getElem?_append_left hlt, hheads]

/-- The words of the tuples follow the offsets. -/
theorem getElem?_arrayWords_tuples (j : ℕ) :
    (arrayWords tuples)[2 + tuples.length + j]? = tuples.flatten[j]? := by
  have hheads : (heads tuples.length (tuples.map (Abi.Part.mk true))).length = tuples.length := by
    rw [length_heads, headSizes, List.map_map]
    simp [Function.comp_def, Abi.Part.headSize]
  rw [arrayWords, show 2 + tuples.length + j = tuples.length + j + 1 + 1 by omega,
    List.getElem?_cons_succ, List.getElem?_cons_succ, List.getElem?_append_right (by omega), hheads,
    Nat.add_sub_cancel_left]

/-- The tuples stand behind the number of them and their offsets. -/
theorem arrayWords_eq_append (tuples : List (List ℕ)) :
    ∃ pre, arrayWords tuples = pre ++ tuples.flatten ∧ pre.length = 2 + tuples.length := by
  refine ⟨32 :: tuples.length :: heads tuples.length (tuples.map (Abi.Part.mk true)), rfl, ?_⟩
  rw [List.length_cons, List.length_cons, length_heads, headSizes, List.map_map]
  simp only [Function.comp_def, Abi.Part.headSize, if_true, List.map_const', List.sum_replicate,
    smul_eq_mul, Nat.mul_one]
  omega

/-! ## The number of results -/

/-- The offsets of an answer of at most `isize::MAX` bytes are as small. -/
theorem offset_lt (hlen : (encodeWords (arrayWords tuples)).length < 2 ^ 63) (i : ℕ) :
    32 * (tuples.length + (tuples.take i).flatten.length) < 2 ^ 63 := by
  have hflatten : (tuples.take i).flatten.length ≤ tuples.flatten.length := by
    conv_rhs => rw [← List.take_append_drop i tuples, List.flatten_append, List.length_append]
    exact Nat.le_add_right _ _
  rw [length_encodeWords, length_arrayWords] at hlen
  omega

/-- Every slot of an answer that is read is readable. -/
theorem readable_of_slotsOf {data : List UInt8} {a n i k : ℕ} {slots : Slots}
    (h : slotsOf data a n i = some slots) (hk : i ≤ k) (hk' : k < i + n) : Readable data a k := by
  induction n generalizing i slots with
  | zero => omega
  | succ n ih =>
    rw [slotsOf, Option.bind_eq_some_iff] at h
    obtain ⟨slot, hslot, hrest⟩ := h
    obtain ⟨slots', hslots', -⟩ := Option.map_eq_some_iff.mp hrest
    rcases eq_or_lt_of_le hk with rfl | hlt
    · exact not_not.mp fun hR => by
        rw [slotOf_eq_none_iff.mpr hR] at hslot
        cases hslot
    · exact ih hslots' hlt (by omega)

theorem length_of_slotsOf {data : List UInt8} {a n i : ℕ} {slots : Slots}
    (h : slotsOf data a n i = some slots) : slots.length = n := by
  induction n generalizing i slots with
  | zero =>
    obtain rfl := Option.some.inj h
    rfl
  | succ n ih =>
    rw [slotsOf, Option.bind_eq_some_iff] at h
    obtain ⟨slot, -, hrest⟩ := h
    obtain ⟨slots', hslots', rfl⟩ := Option.map_eq_some_iff.mp hrest
    rw [List.length_cons, ih hslots']

theorem readout_eq_some {data : List UInt8} {slots : Slots} (h : readout data = some slots) :
    word data (word data 32) < 2 ^ 64 ∧
      slotsOf data (word data 32) (word data (word data 32)) 0 = some slots := by
  unfold readout at h
  dsimp only at h
  split_ifs at h with h₁ h₂ h₃
  exact ⟨by omega, h⟩

/-- The word that holds `n`, `n ≥ 2` words after the start of an array of `n ≥ 32` tuples. -/
theorem offset_word {k : ℕ} (hlen : (encodeWords (arrayWords tuples)).length < 2 ^ 63)
    (hk : 2 ≤ k) (hk' : k < 2 + tuples.length) :
    ∃ x, (arrayWords tuples)[k]? = some x ∧ 32 * tuples.length ≤ x ∧ x < 2 ^ 63 := by
  obtain ⟨i, rfl⟩ := Nat.exists_eq_add_of_le hk
  refine ⟨_, getElem?_arrayWords_offset tuples (by omega), ?_, offset_lt hlen i⟩
  exact Nat.mul_le_mul_left 32 (Nat.le_add_right _ _)

/-- The word of the array at `k` is not zero, and is at least the number of tuples from the second
    word on. -/
theorem array_word {k : ℕ} (hlen : (encodeWords (arrayWords tuples)).length < 2 ^ 63)
    (hk : k < 2 + tuples.length) (hn : 0 < tuples.length) :
    ∃ x, (arrayWords tuples)[k]? = some x ∧ 0 < x ∧ x < 2 ^ 63 ∧ (1 ≤ k → tuples.length ≤ x) ∧
      (k = 0 → x = 32) ∧ (k = 1 → x = tuples.length) ∧ (2 ≤ k → 32 * tuples.length ≤ x) := by
  have hlength := hlen
  rw [length_encodeWords, length_arrayWords] at hlength
  rcases Nat.lt_or_ge k 2 with h2 | h2
  · rcases Nat.lt_or_ge k 1 with h1 | h1
    · obtain rfl : k = 0 := by omega
      exact ⟨32, rfl, by omega, by norm_num, by omega, fun _ => rfl, by omega, by omega⟩
    · obtain rfl : k = 1 := by omega
      exact ⟨tuples.length, rfl, by omega, by omega, fun _ => le_rfl, by omega, fun _ => rfl,
        by omega⟩
  · obtain ⟨x, hx, hle, hlt⟩ := offset_word hlen h2 hk
    exact ⟨x, hx, by omega, hlt, by omega, by omega, by omega, fun _ => hle⟩

/-- What is read of an array whose slots are as many as its tuples: the offset of the array is the
    number of tuples, and so is the count that stands there. -/
theorem count_of_readout {slots : Slots}
    (hlen : (encodeWords (arrayWords tuples)).length < 2 ^ 63)
    (h : readout (encodeWords (arrayWords tuples)) = some slots)
    (hslots : slots.length = tuples.length) :
    0 < tuples.length ∧ word (encodeWords (arrayWords tuples)) tuples.length = tuples.length ∧
      slotsOf (encodeWords (arrayWords tuples)) tuples.length tuples.length 0 = some slots := by
  have hlength := hlen
  rw [length_encodeWords, length_arrayWords] at hlength
  have hoff : word (encodeWords (arrayWords tuples)) 32 = tuples.length := by
    have hword : word (encodeWords (arrayWords tuples)) (32 * 1) = tuples.length % 2 ^ 256 :=
      word_aligned rfl
    rwa [Nat.mul_one, Nat.mod_eq_of_lt (by omega)] at hword
  obtain ⟨-, hread⟩ := readout_eq_some h
  rw [hoff] at hread
  have hcount : word (encodeWords (arrayWords tuples)) tuples.length = tuples.length :=
    (length_of_slotsOf hread).symm.trans hslots
  rw [hcount] at hread
  refine ⟨?_, hcount, hread⟩
  by_contra hzero
  have hword : word (encodeWords (arrayWords tuples)) (32 * 0) = 32 % 2 ^ 256 :=
    word_aligned rfl
  rw [Nat.mul_zero, ← show tuples.length = 0 by omega, hcount] at hword
  omega

/-- At an aligned place, the word is the count only when it is the second one. -/
theorem aligned_count {k : ℕ} (hlen : (encodeWords (arrayWords tuples)).length < 2 ^ 63)
    (hn : 0 < tuples.length) (hk : tuples.length = 32 * k)
    (hcount : word (encodeWords (arrayWords tuples)) tuples.length = tuples.length) :
    tuples.length = 32 := by
  obtain ⟨x, hx, -, hlt, -, hx0, -, hx2⟩ := array_word (k := k) hlen (by omega) hn
  have hword := word_aligned hx
  rw [Nat.mod_eq_of_lt (by omega), ← hk, hcount] at hword
  rcases Nat.lt_or_ge k 2 with h2 | h2
  · omega
  · have := hx2 h2
    omega

/-- At a place early in a word, the read gives more than a byte over a word that is at least the
    count. -/
theorem early_count {k r : ℕ} (hlen : (encodeWords (arrayWords tuples)).length < 2 ^ 63)
    (hr : 0 < r) (hr' : r < 8) (hkr : tuples.length = 32 * k + r) :
    word (encodeWords (arrayWords tuples)) tuples.length ≠ tuples.length := by
  intro hcount
  obtain ⟨x, hx, hpos, hlt, hge, hx0, -⟩ := array_word (k := k) hlen (by omega) (by omega)
  obtain ⟨y, hy, -⟩ := array_word (k := k + 1) hlen (by omega) (by omega)
  have hword := lt_word_unaligned hr hr' hx hy hpos hlt
  rw [← hkr, hcount] at hword
  rcases Nat.eq_zero_or_pos k with rfl | hk
  · have := hx0 rfl
    omega
  · have := hge hk
    omega

theorem byte_le_pow {k r : ℕ} (h : r + k ≤ 32) : 256 ^ k ≤ 256 ^ (32 - r) :=
  Nat.pow_le_pow_right (by norm_num) (by omega)

/-- At a place late in one of the first words, the read is too large: the word is small, and no
    multiple of 256. -/
theorem late_count {k r : ℕ} (hlen : (encodeWords (arrayWords tuples)).length < 2 ^ 63)
    (hr : 8 ≤ r) (hr' : r < 32) (hk : k < 3) (hkr : tuples.length = 32 * k + r) :
    2 ^ 64 ≤ word (encodeWords (arrayWords tuples)) tuples.length := by
  obtain ⟨x, hx, hpos, -, -, hx0, hx1, -⟩ := array_word (k := k) hlen (by omega) (by omega)
  obtain ⟨y, hy, -⟩ := array_word (k := k + 1) hlen (by omega) (by omega)
  have hbyte : 256 ^ 1 ≤ 256 ^ (32 - r) := byte_le_pow (by omega)
  rw [hkr]
  refine le_word_unaligned hr (by omega) hx hy ?_
  rcases Nat.lt_or_ge k 2 with h2 | h2
  · have hsmall : x < 256 := by
      rcases Nat.eq_zero_or_pos k with rfl | hk
      · have := hx0 rfl
        omega
      · have := hx1 (by omega)
        omega
    rw [Nat.mod_eq_of_lt (by omega)]
    omega
  · obtain rfl : k = 2 := by omega
    have hoffset := getElem?_arrayWords_offset tuples (show 0 < tuples.length by omega)
    rw [List.take_zero, List.flatten_nil, List.length_nil, Nat.add_zero] at hoffset
    obtain rfl : x = 32 * tuples.length := Option.some.inj (hx.symm.trans hoffset)
    rcases eq_or_ne r 31 with rfl | hne
    · rw [hkr]
      norm_num
    · have hshort : 256 ^ 2 ≤ 256 ^ (32 - r) := byte_le_pow (by omega)
      rw [Nat.mod_eq_of_lt (by omega)]
      omega

/-- At a place late in a later word, a slot takes its offset from the constant 64 of the first
    tuple, and is not readable. -/
theorem late_slot {k r : ℕ} (hhead : ∀ t ∈ tuples, ∃ s n rest, t = s :: 64 :: n :: rest)
    (hr : 8 ≤ r) (hr' : r < 32) (hkr : tuples.length = 32 * k + r) :
    ¬Readable (encodeWords (arrayWords tuples)) tuples.length (tuples.length + 2 - k) := by
  obtain ⟨t, rest, ht⟩ := List.exists_cons_of_length_pos (show 0 < tuples.length by omega)
  obtain ⟨s, n, rest', rfl⟩ := hhead t (by rw [ht]; exact List.mem_cons_self ..)
  have h64 : (arrayWords tuples)[tuples.length + 3]? = some 64 := by
    rw [show tuples.length + 3 = 2 + tuples.length + 1 by omega, getElem?_arrayWords_tuples, ht]
    rfl
  have hnext : (arrayWords tuples)[tuples.length + 3 + 1]? = some n := by
    rw [show tuples.length + 3 + 1 = 2 + tuples.length + 2 by omega, getElem?_arrayWords_tuples, ht]
    rfl
  have hbyte : 256 ^ 1 ≤ 256 ^ (32 - r) := byte_le_pow (by omega)
  have hlarge := le_word_unaligned hr (by omega) h64 hnext
    (by rw [Nat.mod_eq_of_lt (by omega)]; norm_num)
  have hplace : tuples.length + 32 + 32 * (tuples.length + 2 - k) =
      32 * (tuples.length + 3) + r := by omega
  rintro ⟨hrel, -⟩
  rw [relOf, hplace] at hrel
  omega

/-- A list of results is read back, as far as its length goes, only if it has 32 entries. -/
theorem length_eq_of_readout {slots : Slots}
    (hlen : (encodeWords (arrayWords tuples)).length < 2 ^ 63)
    (hhead : ∀ t ∈ tuples, ∃ s n rest, t = s :: 64 :: n :: rest)
    (h : readout (encodeWords (arrayWords tuples)) = some slots)
    (hslots : slots.length = tuples.length) : tuples.length = 32 := by
  have hlength := hlen
  rw [length_encodeWords, length_arrayWords] at hlength
  obtain ⟨hn, hcount, hread⟩ := count_of_readout hlen h hslots
  obtain ⟨k, r, hr, hkr⟩ : ∃ k r, r < 32 ∧ tuples.length = 32 * k + r :=
    ⟨tuples.length / 32, tuples.length % 32, Nat.mod_lt _ (by norm_num), by omega⟩
  rcases Nat.eq_zero_or_pos r with rfl | hrpos
  · exact aligned_count hlen hn hkr hcount
  rcases Nat.lt_or_ge r 8 with hr8 | hr8
  · exact absurd hcount (early_count hlen hrpos hr8 hkr)
  rcases Nat.lt_or_ge k 3 with h3 | h3
  · have hlarge := late_count hlen hr8 hr h3 hkr
    omega
  · exact absurd (readable_of_slotsOf hread (Nat.zero_le _) (by omega))
      (late_slot hhead hr8 hr hkr)

/-! ## Results that are read back -/

/-- The slot that a result should fill: its data when it succeeded. -/
def slotValue (r : Bool × List UInt8) : Option (List UInt8) := if r.1 then some r.2 else none

/-- The last word of the padded data, if there is one. -/
def lastWord (bs : List UInt8) : ℕ := (packed bs).getLastD 0

/-- The bytes of the tuples of some results. -/
def resultsSize (rs : List (Bool × List UInt8)) : ℕ :=
  (rs.map fun r => 96 + 32 * wordCount r.2.length).sum

/-- A result whose tuple starts at byte `p`, with the word `w` in front of it and the results
    `rest` behind it, is read back: the decoder takes `w` for the length of the data, and the tuple
    for the data. -/
def Survives (p w : ℕ) (r : Bool × List UInt8) (rest : List (Bool × List UInt8)) : Prop :=
  p + w < 2 ^ 64 ∧
    if r.1 then w = r.2.length ∧ 0 < w ∧ r.2 <+: encodeWords [1, 64, w] ++ r.2
    else w = 0 ∨ resultsSize (r :: rest) < w

instance (p w : ℕ) (r : Bool × List UInt8) (rest : List (Bool × List UInt8)) :
    Decidable (Survives p w r rest) :=
  inferInstanceAs (Decidable (_ ∧ ite _ _ _))

/-- All results are read back, of which the first starts at byte `p` behind the word `w`. -/
def ReadBackFrom : ℕ → ℕ → List (Bool × List UInt8) → Prop
  | _, _, [] => True
  | p, w, r :: rest =>
    Survives p w r rest ∧ ReadBackFrom (p + resultsSize [r]) (lastWord r.2) rest

instance decidableReadBackFrom :
    ∀ (p w : ℕ) (rs : List (Bool × List UInt8)), Decidable (ReadBackFrom p w rs)
  | _, _, [] => isTrue trivial
  | p, w, r :: rest =>
    haveI := decidableReadBackFrom (p + resultsSize [r]) (lastWord r.2) rest
    inferInstanceAs (Decidable (Survives p w r rest ∧ _))

/-- There are 32 results, and each is read back; in front of the first stands the offset of the
    last. -/
def ReadBack (results : List (Bool × List UInt8)) : Prop :=
  results.length = 32 ∧ ReadBackFrom 1088 (1024 + resultsSize results.dropLast) results

instance (results : List (Bool × List UInt8)) : Decidable (ReadBack results) :=
  inferInstanceAs (Decidable (_ ∧ _))

theorem length_resultWords (rs : List (Bool × List UInt8)) :
    32 * (rs.flatMap resultWords).length = resultsSize rs := by
  induction rs with
  | nil => rfl
  | cons r rs ih =>
    rw [List.flatMap_cons, List.length_append, Nat.mul_add, ih, resultsSize, resultsSize,
      List.map_cons, List.sum_cons, resultWords]
    simp only [List.length_append, List.length_cons, List.length_nil, length_packed]
    omega

/-- The last word of a tuple. -/
theorem getLast?_resultWords (r : Bool × List UInt8) :
    (resultWords r).getLast? = some (lastWord r.2) := by
  unfold resultWords lastWord
  rcases List.eq_nil_or_concat' (packed r.2) with hnil | ⟨init, last, hlast⟩
  · have hzero : r.2.length = 0 := by
      have hlen := length_packed r.2
      rw [hnil, List.length_nil, wordCount] at hlen
      omega
    rw [hnil, hzero]
    rfl
  · rw [hlast, ← List.append_assoc, List.getLast?_concat]
    simp

theorem resultWords_lt {r : Bool × List UInt8} (hr : r.2.length < 2 ^ 256) :
    ∀ x ∈ resultWords r, x < 2 ^ 256 := by
  intro x hx
  rcases List.mem_append.mp hx with hx | hx
  · simp only [List.mem_cons, List.not_mem_nil, or_false] at hx
    rcases hx with rfl | rfl | rfl
    · exact r.1.toNat_lt.trans_le (by norm_num)
    · norm_num
    · exact hr
  · exact wordsOf_lt x hx

/-- As many bytes of a tuple as its data has: the head of the tuple, then the data. -/
theorem take_tuple (d : List UInt8) (rest : List ℕ) :
    (encodeWords (resultWords (true, d) ++ rest)).take d.length =
      (encodeWords [1, 64, d.length] ++ d).take d.length := by
  show (encodeWords (([1, 64, d.length] ++ packed d) ++ rest)).take d.length = _
  rw [encodeWords_append, encodeWords_append, encodeWords_packed, padded, List.append_assoc,
    List.append_assoc, ← List.append_assoc, List.take_append_of_le_length]
  simp only [List.length_append]
  omega

section Behind

variable {pre : List ℕ} {i w : ℕ} {r : Bool × List UInt8} {rest : List (Bool × List UInt8)}

theorem length_answer (pre : List ℕ) (rs : List (Bool × List UInt8)) :
    (encodeWords (pre ++ rs.flatMap resultWords)).length = 32 * pre.length + resultsSize rs := by
  rw [length_encodeWords, List.length_append, Nat.mul_add, length_resultWords]

/-- The words in front of a tuple: its offset, and the one that is taken for the length. -/
theorem words_behind
    (hlen : (encodeWords (pre ++ (r :: rest).flatMap resultWords)).length < 2 ^ 63)
    (hw : pre.getLast? = some w) (hw' : w < 2 ^ 256) (hi : 2 + i < pre.length)
    (hrel : pre[2 + i]? = some (32 * (pre.length - 2))) :
    relOf (encodeWords (pre ++ (r :: rest).flatMap resultWords)) 32 i = 32 * (pre.length - 2) ∧
      absOf (encodeWords (pre ++ (r :: rest).flatMap resultWords)) 32 i = 32 * (pre.length - 1) ∧
      word (encodeWords (pre ++ (r :: rest).flatMap resultWords)) (32 * (pre.length - 1)) = w := by
  have hsize := length_answer pre (r :: rest)
  have hrelOf : relOf (encodeWords (pre ++ (r :: rest).flatMap resultWords)) 32 i =
      32 * (pre.length - 2) := by
    have hget : (pre ++ (r :: rest).flatMap resultWords)[2 + i]? =
        some (32 * (pre.length - 2)) := by
      rw [List.getElem?_append_left hi, hrel]
    have hword := word_aligned hget
    rw [Nat.mod_eq_of_lt (by omega)] at hword
    rw [relOf, ← hword]
    congr 1
    omega
  refine ⟨hrelOf, ?_, ?_⟩
  · rw [absOf, hrelOf]
    omega
  · have hget : (pre ++ (r :: rest).flatMap resultWords)[pre.length - 1]? = some w := by
      rw [List.getElem?_append_left (by omega), ← List.getLast?_eq_getElem?, hw]
    rw [word_aligned hget, Nat.mod_eq_of_lt hw']

/-- The slot of a tuple is what stands behind its length word. -/
theorem slotOf_behind
    (hlen : (encodeWords (pre ++ (r :: rest).flatMap resultWords)).length < 2 ^ 63)
    (hw : pre.getLast? = some w) (hw' : w < 2 ^ 256) (hi : 2 + i < pre.length)
    (hrel : pre[2 + i]? = some (32 * (pre.length - 2))) :
    slotOf (encodeWords (pre ++ (r :: rest).flatMap resultWords)) 32 i =
      if 2 ^ 64 ≤ w then none else if w = 0 ∨ resultsSize (r :: rest) < w then some none
      else some (some ((encodeWords (resultWords r ++ rest.flatMap resultWords)).take w)) := by
  have hsize := length_answer pre (r :: rest)
  obtain ⟨hrelOf, habs, hword⟩ := words_behind hlen hw hw' hi hrel
  have hstart : 32 * (pre.length - 1) + 32 = 32 * pre.length := by omega
  have hslice : slice (encodeWords (pre ++ (r :: rest).flatMap resultWords)) (32 * pre.length)
      (32 * pre.length + w) = (encodeWords (resultWords r ++ rest.flatMap resultWords)).take w := by
    rw [encodeWords_append, slice_append_right (by rw [length_encodeWords]), length_encodeWords,
      Nat.sub_self, Nat.add_sub_cancel_left, List.flatMap_cons]
    unfold slice
    rw [List.drop_zero, Nat.sub_zero]
  unfold slotOf
  dsimp only
  rw [hrelOf, habs, hword, hstart, hslice, if_neg (by omega), if_neg (by omega), hsize]
  simp only [Nat.add_lt_add_iff_left]

/-- The sums of the slot fit exactly when its data ends below `2 ^ 64`. -/
theorem slotFits_behind (checks : Bool)
    (hlen : (encodeWords (pre ++ (r :: rest).flatMap resultWords)).length < 2 ^ 63)
    (hw : pre.getLast? = some w) (hw' : w < 2 ^ 256) (hi : 2 + i < pre.length)
    (hrel : pre[2 + i]? = some (32 * (pre.length - 2))) :
    SlotFits checks (encodeWords (pre ++ (r :: rest).flatMap resultWords)) 32 i ↔
      (w < 2 ^ 64 → 32 * pre.length + w < 2 ^ 64) := by
  have hsize := length_answer pre (r :: rest)
  obtain ⟨hrelOf, habs, hword⟩ := words_behind hlen hw hw' hi hrel
  have hstart : 32 * (pre.length - 1) + 32 = 32 * pre.length := by omega
  unfold SlotFits
  rw [hrelOf, habs, hword, hstart]
  exact ⟨fun h => (h (by omega)).2.2 (by omega),
    fun h _ => ⟨fun _ => by omega, by omega, fun _ => h⟩⟩

/-- As many bytes as `w` of a tuple and what follows are the data of the tuple. -/
theorem take_tuple_eq_iff {d : List UInt8} (hroom : w ≤ resultsSize ((true, d) :: rest)) :
    (encodeWords (resultWords (true, d) ++ rest.flatMap resultWords)).take w = d ↔
      w = d.length ∧ d <+: encodeWords [1, 64, w] ++ d := by
  have hlen_take : ((encodeWords (resultWords (true, d) ++ rest.flatMap resultWords)).take
      w).length = w := by
    rw [List.length_take, ← List.flatMap_cons (f := resultWords), length_encodeWords,
      length_resultWords]
    omega
  constructor
  · intro h
    have hwd : w = d.length := by rw [← hlen_take, h]
    subst hwd
    rw [take_tuple] at h
    exact ⟨rfl, List.prefix_iff_eq_take.mpr h.symm⟩
  · rintro ⟨rfl, hprefix⟩
    rw [take_tuple]
    exact (List.prefix_iff_eq_take.mp hprefix).symm

/-- The slot of a tuple that starts behind the words `pre`, the last of which is `w`. -/
theorem decodeSlot_eq_iff (checks : Bool)
    (hlen : (encodeWords (pre ++ (r :: rest).flatMap resultWords)).length < 2 ^ 63)
    (hw : pre.getLast? = some w) (hw' : w < 2 ^ 256) (hi : 2 + i < pre.length)
    (hrel : pre[2 + i]? = some (32 * (pre.length - 2))) :
    decodeSlot checks (encodeWords (pre ++ (r :: rest).flatMap resultWords)) 32 i =
        .ok (some (slotValue r)) ↔
      Survives (32 * pre.length) w r rest := by
  have hsize := length_answer pre (r :: rest)
  rw [decodeSlot_eq_ok_iff hlen (by omega), slotFits_behind checks hlen hw hw' hi hrel,
    slotOf_behind hlen hw hw' hi hrel, Survives]
  by_cases hwide : 2 ^ 64 ≤ w
  · rw [if_pos hwide]
    exact iff_of_false (fun h => by cases h.2) fun h => by omega
  rw [if_neg hwide]
  have hsum : (w < 2 ^ 64 → 32 * pre.length + w < 2 ^ 64) ↔ 32 * pre.length + w < 2 ^ 64 :=
    ⟨fun h => h (by omega), fun h _ => h⟩
  rw [hsum]
  refine and_congr_right' ?_
  obtain ⟨s, d⟩ := r
  cases s with
  | false =>
    show (if w = 0 ∨ resultsSize ((false, d) :: rest) < w then some none else _) = some none ↔
      (w = 0 ∨ resultsSize ((false, d) :: rest) < w)
    split_ifs with hnone
    · exact iff_of_true rfl hnone
    · exact iff_of_false (by simp) hnone
  | true =>
    show _ = some (some d) ↔ w = d.length ∧ 0 < w ∧ d <+: encodeWords [1, 64, w] ++ d
    have hroom : d.length ≤ resultsSize ((true, d) :: rest) := by
      unfold resultsSize wordCount
      rw [List.map_cons, List.sum_cons]
      dsimp only
      omega
    by_cases hnone : w = 0 ∨ resultsSize ((true, d) :: rest) < w
    · rw [if_pos hnone]
      exact iff_of_false (by simp) fun h => by omega
    · rw [if_neg hnone, Option.some_inj, Option.some_inj, take_tuple_eq_iff (by omega)]
      exact and_congr_right' (iff_and_self.mpr fun _ => by omega)

end Behind

theorem decodeSlots_succ_eq_iff {checks : Bool} {data : List UInt8} {a n i : ℕ}
    {slot : Option (List UInt8)} {slots : Slots} :
    decodeSlots checks data a (n + 1) i = .ok (some (slot :: slots)) ↔
      decodeSlot checks data a i = .ok (some slot) ∧
        decodeSlots checks data a n (i + 1) = .ok (some slots) := by
  rw [decodeSlots, bind_eq_ok]
  constructor
  · rintro ⟨x, hx, hrest⟩
    cases x with
    | none => cases hrest
    | some slot' =>
      obtain ⟨y, hy, h⟩ := bind_eq_ok.mp hrest
      cases y with
      | none => cases h
      | some slots' =>
        cases h
        exact ⟨hx, hy⟩
  · rintro ⟨hslot, hslots⟩
    exact ⟨some slot, hslot, bind_eq_ok.mpr ⟨some slots, hslots, rfl⟩⟩

/-- The slots of results that stand behind the words `pre`, the last of which is `w`. -/
theorem decodeSlots_eq_iff (checks : Bool) {pre : List ℕ} {i w : ℕ}
    {rs : List (Bool × List UInt8)}
    (hlen : (encodeWords (pre ++ rs.flatMap resultWords)).length < 2 ^ 63)
    (hw : pre.getLast? = some w) (hw' : w < 2 ^ 256) (hi : 2 + i + rs.length ≤ pre.length)
    (hrel : ∀ j < rs.length, pre[2 + i + j]? =
      some (32 * (pre.length + ((rs.take j).flatMap resultWords).length - 2))) :
    decodeSlots checks (encodeWords (pre ++ rs.flatMap resultWords)) 32 rs.length i =
        .ok (some (rs.map slotValue)) ↔
      ReadBackFrom (32 * pre.length) w rs := by
  induction rs generalizing pre i w with
  | nil => exact iff_of_true rfl trivial
  | cons r rest ih =>
    rw [List.length_cons] at hi
    have hdata : pre ++ (r :: rest).flatMap resultWords =
        (pre ++ resultWords r) ++ rest.flatMap resultWords := by
      rw [List.flatMap_cons, List.append_assoc]
    have hrlen : r.2.length < 2 ^ 256 := by
      have hle : wordCount r.2.length ≤ (pre ++ (r :: rest).flatMap resultWords).length := by
        rw [hdata]
        simp only [List.length_append, resultWords, length_packed]
        omega
      rw [length_encodeWords] at hlen
      unfold wordCount at hle
      omega
    have hlast : lastWord r.2 < 2 ^ 256 :=
      resultWords_lt hrlen _ (List.mem_of_getLast? (getLast?_resultWords r))
    have hlast' : (pre ++ resultWords r).getLast? = some (lastWord r.2) := by
      rw [List.getLast?_append, getLast?_resultWords]
      rfl
    have hsize : 32 * (pre ++ resultWords r).length = 32 * pre.length + resultsSize [r] := by
      rw [List.length_append, Nat.mul_add, ← length_resultWords, List.flatMap_singleton]
    have hfirst := decodeSlot_eq_iff checks hlen hw hw' (i := i) (by omega) (by
      have h := hrel 0 (by simp)
      rwa [List.take_zero, List.flatMap_nil, List.length_nil, Nat.add_zero, Nat.add_zero] at h)
    rw [hdata] at hlen
    have hrest := ih hlen hlast' hlast (i := i + 1)
      (by rw [List.length_append]; omega) (by
        intro j hj
        have h := hrel (j + 1) (by simpa using hj)
        rw [List.take_succ_cons, List.flatMap_cons, List.length_append] at h
        rw [List.getElem?_append_left (by omega), List.length_append,
          show 2 + (i + 1) + j = 2 + i + (j + 1) by omega, h, Nat.add_assoc])
    rw [← hdata, hsize] at hrest
    rw [List.length_cons, List.map_cons, decodeSlots_succ_eq_iff, hfirst, hrest, ReadBackFrom]

/-- An answer whose second word is 32 is an array of as many slots, if it is that long. -/
theorem decodeAggregate3_of_32 {checks : Bool} {data : List UInt8} (h : word data 32 = 32)
    (hlen : 1088 ≤ data.length) :
    decodeAggregate3 checks data = decodeSlots checks data 32 32 0 := by
  have hcapacity : Pool.Factory.withCapacity 32 32 = .ok () := by decide
  unfold decodeAggregate3
  rw [if_neg (by omega), sliceRange_eq (by omega) (by omega), ok_bind,
    show (64 : ℕ) = 32 + 32 from rfl, wordToU64_eq (by omega), h, if_pos (by norm_num)]
  dsimp only
  rw [arithUnsigned_eq (by norm_num), ok_bind, if_neg (by omega),
    sliceRange_eq (by omega) (by omega), ok_bind, wordToU64_eq (by omega), h, if_pos (by norm_num)]
  dsimp only
  rw [arithUnsigned_eq (by norm_num), ok_bind, arithUnsigned_eq (by norm_num), ok_bind,
    if_neg (by omega), hcapacity, ok_bind]

/-- As many slots as results are decoded only of 32 results. -/
theorem length_eq_of_decode {checks : Bool} {slots : Slots}
    (hlen : (encodeWords (arrayWords (results.map resultWords))).length < 2 ^ 63)
    (hslots : slots.length = results.length)
    (h : decodeAggregate3 checks (encodeWords (arrayWords (results.map resultWords))) =
      .ok (some slots)) : results.length = 32 := by
  have hread := ((decodeAggregate3_eq_ok_iff hlen).mp h).2
  have h32 := length_eq_of_readout hlen (fun t ht => ?_) hread (by simpa using hslots)
  · simpa using h32
  · obtain ⟨r, -, rfl⟩ := List.mem_map.mp ht
    exact ⟨_, _, _, rfl⟩

/-- The decoder reads the standard answer back exactly when there are 32 results and each is read
    back behind the word that stands in front of its tuple. -/
theorem decode_standardResults_iff (checks : Bool) (results : List (Bool × List UInt8))
    (hlen : (standardResults results).length < 2 ^ 63) :
    decodeAggregate3 checks (standardResults results) = .ok (some (results.map slotValue)) ↔
      ReadBack results := by
  have hflatten : (results.map resultWords).flatten = results.flatMap resultWords :=
    (List.flatMap_def ..).symm
  rw [standardResults_eq] at hlen ⊢
  by_cases h32 : results.length = 32
  case neg =>
    refine iff_of_false (fun h => h32 (length_eq_of_decode hlen ?_ h)) fun h => h32 h.1
    exact List.length_map ..
  have htuples : (results.map resultWords).length = 32 := by rw [List.length_map, h32]
  have htake (j : ℕ) : ((results.map resultWords).take j).flatten =
      (results.take j).flatMap resultWords := by
    rw [← List.map_take, ← List.flatMap_def]
  obtain ⟨pre, hpre, hpre_len⟩ := arrayWords_eq_append (results.map resultWords)
  rw [hflatten] at hpre
  rw [htuples] at hpre_len
  have hoffset : ∀ j < 32, pre[2 + j]? =
      some (32 * (32 + ((results.take j).flatMap resultWords).length)) := by
    intro j hj
    have h := getElem?_arrayWords_offset (results.map resultWords)
      (show j < (results.map resultWords).length by omega)
    rwa [hpre, List.getElem?_append_left (by omega), htuples, htake] at h
  have hlast : pre.getLast? = some (1024 + resultsSize results.dropLast) := by
    rw [List.getLast?_eq_getElem?, hpre_len, show 2 + 32 - 1 = 2 + 31 from rfl,
      hoffset 31 (by omega), Nat.mul_add, length_resultWords, List.dropLast_eq_take, h32]
  have hcount : word (encodeWords (arrayWords (results.map resultWords))) 32 = 32 := by
    have hword : word (encodeWords (arrayWords (results.map resultWords))) (32 * 1) =
        (results.map resultWords).length % 2 ^ 256 := word_aligned rfl
    rwa [Nat.mul_one, htuples, Nat.mod_eq_of_lt (by norm_num)] at hword
  have hlength : 1088 ≤ (encodeWords (arrayWords (results.map resultWords))).length := by
    rw [length_encodeWords, length_arrayWords, htuples]
    omega
  have hsmall : 1024 + resultsSize results.dropLast < 2 ^ 256 := by
    have h := offset_lt hlen 31
    rw [htuples, htake, Nat.mul_add, length_resultWords] at h
    rw [List.dropLast_eq_take, h32, show 32 - 1 = 31 from rfl]
    omega
  rw [hpre] at hlen hcount hlength ⊢
  have hslots := decodeSlots_eq_iff checks hlen hlast hsmall (i := 0) (by omega) (by
    intro j hj
    rw [Nat.add_zero, hoffset j (by omega), hpre_len]
    congr 2
    omega)
  rw [h32, hpre_len] at hslots
  rw [decodeAggregate3_of_32 hcount hlength, hslots, ReadBack]
  exact (and_iff_right h32).symm

/-- **Main theorem.** The encoder writes the standard encoding of the empty list of calls and of
    no other; and in either build the decoder reads a list of results back from its standard
    encoding exactly when `ReadBack` holds. -/
theorem aggregate3_codec_iff (checks : Bool) (calls : List SubCall)
    (results : List (Bool × List UInt8)) (hlen : (standardResults results).length < 2 ^ 63) :
    (encodeAggregate3 calls = standardCalls calls ↔ calls = []) ∧
    (decodeAggregate3 checks (standardResults results) = .ok (some (results.map slotValue)) ↔
      ReadBack results) :=
  ⟨encodeAggregate3_eq_iff calls, decode_standardResults_iff checks results hlen⟩

/-- 32 failures without data are read back. -/
theorem aggregate3_codec_failures :
    ReadBack (List.replicate 32 (false, [])) ∧
    decodeAggregate3 true (standardResults (List.replicate 32 (false, []))) =
      .ok (some ((List.replicate 32 (false, [])).map slotValue)) := by
  have hback : ReadBack (List.replicate 32 (false, [])) := by decide +kernel
  exact ⟨hback, ((aggregate3_codec_iff true [] _ (by decide +kernel)).2).mpr hback⟩

section Misread

/-- The words of 32 answers with the number 18. -/
def misreadWords : List ℕ := arrayWords (List.replicate 32 [1, 64, 32, 18])

/-- What is read of them: the first slot has the last offset as its length, and every other one the
    number of the answer before it. -/
theorem misread_words {i : ℕ} (hi : i < 32) :
    relOf (encodeWords misreadWords) 32 i = 1024 + 128 * i ∧
      absOf (encodeWords misreadWords) 32 i = 1056 + 128 * i ∧
      word (encodeWords misreadWords) (1056 + 128 * i) = if i = 0 then 4992 else 18 := by
  have hoffsets : ∀ i < 32, misreadWords[2 + i]? = some (1024 + 128 * i) := by decide
  have hlengths : ∀ i < 32, misreadWords[33 + 4 * i]? = some (if i = 0 then 4992 else 18) := by
    decide
  have hrel : relOf (encodeWords misreadWords) 32 i = 1024 + 128 * i := by
    rw [relOf, show 32 + 32 + 32 * i = 32 * (2 + i) by ring, word_aligned (hoffsets i hi)]
    omega
  refine ⟨hrel, ?_, ?_⟩
  · rw [absOf, hrel]
    omega
  · rw [show 1056 + 128 * i = 32 * (33 + 4 * i) by ring, word_aligned (hlengths i hi)]
    split_ifs <;> norm_num

theorem length_misread : (encodeWords misreadWords).length = 5184 := by
  rw [length_encodeWords, show misreadWords.length = 162 by decide +kernel]

theorem misread_slotOf {i : ℕ} (hi : i < 32) :
    slotOf (encodeWords misreadWords) 32 i =
      some (if i = 0 then none else some (List.replicate 18 0)) := by
  obtain ⟨hrel, habs, hword⟩ := misread_words hi
  have hdata : ∀ i < 32, misreadWords[34 + 4 * i]? = some 1 := by decide
  unfold slotOf
  dsimp only
  rw [hrel, habs, hword, length_misread, if_neg (by omega), if_neg (by omega),
    if_neg (by split_ifs <;> omega)]
  by_cases hzero : i = 0
  · rw [if_pos hzero, if_pos hzero, if_pos (.inr (by omega))]
  · obtain ⟨hlt, hone⟩ := List.getElem?_eq_some_iff.mp (hdata i hi)
    have hslice : slice (encodeWords misreadWords) (1056 + 128 * i + 32)
        (1056 + 128 * i + 32 + 18) = (beBytes 32 1).take 18 := by
      rw [← hone, ← slice_encodeWords hlt, show 1056 + 128 * i + 32 = 32 * (34 + 4 * i) by ring]
      unfold slice
      rw [List.take_take, Nat.add_sub_cancel_left, Nat.add_sub_cancel_left]
      rfl
    simp only [if_neg hzero]
    have hinside : ¬(18 = 0 ∨ 5184 < 1056 + 128 * i + 32 + 18) := by omega
    rw [if_neg hinside, hslice]
    rfl

theorem misread_slotsOf {n i : ℕ} (h : i + n ≤ 32) :
    slotsOf (encodeWords misreadWords) 32 n i =
      some ((List.range' i n).map fun i => if i = 0 then none else some (List.replicate 18 0)) := by
  induction n generalizing i with
  | zero => rfl
  | succ n ih =>
    rw [slotsOf, misread_slotOf (by omega), Option.bind_some, ih (by omega)]
    rfl

theorem misread_offset : word (encodeWords misreadWords) 32 = 32 :=
  word_aligned (k := 1) (x := 32) (by decide)

theorem misread_fits (checks : Bool) : DecodeFits checks (encodeWords misreadWords) := by
  intro _ _
  rw [misread_offset, misread_offset]
  refine ⟨by norm_num, fun _ _ => ⟨.inl (by rw [misread_offset]; norm_num), fun _ i hi _ _ => ?_⟩⟩
  obtain ⟨hrel, habs, hword⟩ := misread_words (hi.trans_eq misread_offset)
  rw [hrel, habs, hword]
  refine ⟨fun _ => by omega, by omega, fun _ _ => ?_⟩
  split_ifs <;> omega

end Misread

/-- One call is not encoded as the standard has it; the answer to it is refused; and of 32 answers
    with the number 18, one is lost and the others are read as 18 zero bytes. -/
theorem aggregate3_codec_wrong :
    encodeAggregate3 [⟨1, decimalsSelector⟩] ≠ standardCalls [⟨1, decimalsSelector⟩] ∧
    (∀ checks, decodeAggregate3 checks (standardResults [(true, beBytes 32 18)]) = .ok none) ∧
    ∀ checks, decodeAggregate3 checks
        (standardResults (List.replicate 32 (true, beBytes 32 18))) =
      .ok (some (none :: List.replicate 31 (some (List.replicate 18 0)))) := by
  refine ⟨by decide +kernel, by decide +kernel, fun checks => ?_⟩
  have hwords : standardResults (List.replicate 32 (true, beBytes 32 18)) =
      encodeWords misreadWords := by
    rw [standardResults_eq, misreadWords, List.map_replicate,
      show resultWords (true, beBytes 32 18) = [1, 64, 32, 18] by decide +kernel]
  rw [hwords]
  have hlength := length_misread
  refine (decodeAggregate3_eq_ok_iff (by omega)).mpr ⟨misread_fits checks, ?_⟩
  unfold readout
  dsimp only
  rw [misread_offset, misread_offset, if_neg (by omega), if_neg (by omega), if_neg (by omega),
    misread_slotsOf (by norm_num)]
  rfl

end MevScout.Rpc
