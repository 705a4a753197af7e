import MevScout.Common.Abi
import MevScout.Rpc.Aggregate3

/-!
# Token symbols

Model of `decode_abi_string` (`core/src/pool/discovery/mod.rs`, lines 491–516), which reads the
answer of a token to `symbol()`. The offset and the length of the string are words of the answer;
`Uint::to` narrows them to a `usize` of 64 bits and panics where they do not fit.

Results:
* `decodeAbiString_eq_ok_iff`: the decoder returns exactly when its sums fit, and then what stands
  in the answer;
* `decodeAbiString_standardString`: a string is read back from its standard encoding;
* `decodeAbiString_iff`: **main theorem**, both.
-/

namespace MevScout.Pool

open MevScout.Abi MevScout.Rpc

/-! ## The decoder -/

/-- `to::<usize>()`. -/
def toUsize (v : ℕ) : Except Panic ℕ := if v < 2 ^ 64 then .ok v else .error .conversion

/-- Model of `rposition`. -/
def rposition (p : UInt8 → Bool) (bytes : List UInt8) : Option ℕ :=
  (bytes.reverse.findIdx? p).map (bytes.length - 1 - ·)

/-- The bytes up to the last one that is not zero (lines 510–514). Where there is none, all of
    them stay. -/
def trimNulls (bytes : List UInt8) : List UInt8 :=
  ((rposition (· ≠ 0) bytes).map fun i => bytes.take (i + 1)).getD bytes

/-- Model of `decode_abi_string` (lines 491–516). -/
def decodeAbiString (checks : Bool) (data : List UInt8) : Except Panic (Option String) := do
  if data.length < 32 then return none
  else
    let offset ← toUsize (beVal (← sliceRange data 0 32))
    let start ← arithUnsigned checks 64 (offset + 32)
    if data.length < start then return none
    else
      let len ← toUsize (beVal (← sliceRange data offset start))
      let stop ← arithUnsigned checks 64 (start + len)
      if data.length < stop then return none
      else
        let bytes ← sliceRange data start stop
        return String.fromUTF8? (trimNulls bytes).toByteArray

/-! ## What stands in the answer -/

/-- The string of an answer. -/
def symbolOf (data : List UInt8) : Option String :=
  let offset := word data 0
  if data.length < 32 ∨ data.length < offset + 32 ∨
      data.length < offset + 32 + word data offset then none
  else
    String.fromUTF8?
      (trimNulls (slice data (offset + 32) (offset + 32 + word data offset))).toByteArray

/-- The end of the offset is a number of 64 bits, and so is the end of the string, where its
    length lies in the answer. -/
def SymbolFits (data : List UInt8) : Prop :=
  32 ≤ data.length → word data 0 + 32 < 2 ^ 64 ∧
    (word data 0 + 32 ≤ data.length → word data 0 + 32 + word data (word data 0) < 2 ^ 64)

variable {checks : Bool} {data : List UInt8}

/-- The decoder returns exactly when its sums fit, to what stands in the answer. -/
theorem decodeAbiString_eq_ok_iff {r : Option String} :
    decodeAbiString checks data = .ok r ↔ SymbolFits data ∧ symbolOf data = r := by
  unfold decodeAbiString
  by_cases hshort : data.length < 32
  case pos =>
    rw [if_pos hshort]
    exact ok_eq_ok_iff (fun h => absurd h (by omega)) (if_pos (.inl hshort))
  have hword : beVal (slice data 0 32) = word data 0 := rfl
  rw [if_neg hshort, sliceRange_eq (by omega) (by omega), ok_bind, hword, toUsize]
  by_cases hoff : word data 0 < 2 ^ 64
  case neg =>
    rw [if_neg hoff, error_bind]
    exact error_eq_ok_iff fun h => absurd (h (by omega)).1 (by omega)
  rw [if_pos hoff, ok_bind]
  by_cases hstart : word data 0 + 32 < 2 ^ 64
  case neg =>
    exact overflow_eq_ok_iff (fun h => hstart (h (by omega)).1) (not_lt.mp hstart) (by omega)
      (by omega)
  rw [arithUnsigned_eq hstart, ok_bind]
  by_cases hin : data.length < word data 0 + 32
  case pos =>
    rw [if_pos hin]
    exact ok_eq_ok_iff (fun _ => ⟨hstart, fun h => absurd h (by omega)⟩) (if_pos (.inr (.inl hin)))
  have hlen : beVal (slice data (word data 0) (word data 0 + 32)) = word data (word data 0) := rfl
  rw [if_neg hin, sliceRange_eq (by omega) (by omega), ok_bind, hlen, toUsize]
  by_cases hsize : word data (word data 0) < 2 ^ 64
  case neg =>
    rw [if_neg hsize, error_bind]
    exact error_eq_ok_iff fun h => absurd ((h (by omega)).2 (by omega)) (by omega)
  rw [if_pos hsize, ok_bind]
  by_cases hstop : word data 0 + 32 + word data (word data 0) < 2 ^ 64
  case neg =>
    exact overflow_eq_ok_iff (fun h => hstop ((h (by omega)).2 (by omega))) (not_lt.mp hstop)
      (by omega) (by omega)
  have hfits : SymbolFits data := fun _ => ⟨hstart, fun _ => hstop⟩
  rw [arithUnsigned_eq hstop, ok_bind]
  by_cases hend : data.length < word data 0 + 32 + word data (word data 0)
  · rw [if_pos hend]
    exact ok_eq_ok_iff hfits (if_pos (.inr (.inr hend)))
  · rw [if_neg hend, sliceRange_eq (by omega) (by omega), ok_bind]
    exact ok_eq_ok_iff hfits (if_neg (by omega))

theorem decodeAbiString_returns_iff :
    (∃ r, decodeAbiString checks data = .ok r) ↔ SymbolFits data := by
  simp only [decodeAbiString_eq_ok_iff, exists_and_left, exists_eq', and_true]

/-! ## Strings -/

/-- The bytes of a string. -/
def utf8Bytes (s : String) : List UInt8 := s.toByteArray.data.toList

/-- The standard encoding of a string. -/
def standardString (s : String) : List UInt8 :=
  encodeWords ((Fields.tuple (.cons .bytes .nil)).encode (utf8Bytes s, ()))

/-- The string does not end in the character zero. -/
def NoTrailingNul (s : String) : Prop := s.toList.getLast? ≠ some (Char.ofNat 0)

theorem utf8Bytes_eq (s : String) : utf8Bytes s = s.toList.flatMap String.utf8EncodeChar := by
  unfold utf8Bytes
  conv_lhs => rw [← s.ofList_toList]
  rw [String.toByteArray_ofList, List.utf8Encode, List.data_toByteArray]

theorem fromUTF8?_utf8Bytes (s : String) :
    String.fromUTF8? (utf8Bytes s).toByteArray = some s := by
  have hbytes : (utf8Bytes s).toByteArray = s.toByteArray :=
    ByteArray.ext (by rw [List.data_toByteArray, utf8Bytes, Array.toArray_toList])
  unfold String.fromUTF8?
  rw [hbytes, dif_pos s.isValidUTF8]
  rfl

/-- Bytes that do not end in zero stay as they are. -/
theorem trimNulls_append {pre : List UInt8} {b : UInt8} (hb : b ≠ 0) :
    trimNulls (pre ++ [b]) = pre ++ [b] := by
  have hlast : rposition (· ≠ 0) (pre ++ [b]) = some pre.length := by
    unfold rposition
    rw [List.reverse_append, List.reverse_singleton, List.singleton_append, List.findIdx?_cons,
      if_pos (by simpa using hb)]
    simp
  rw [trimNulls, hlast]
  exact List.take_of_length_le (by simp)

/-- The last byte of a character is zero only for the character zero. -/
theorem utf8EncodeChar_eq_append {c : Char} (hc : c ≠ Char.ofNat 0) :
    ∃ pre b, String.utf8EncodeChar c = pre ++ [b] ∧ b ≠ 0 := by
  have hpos : c.val.toNat ≠ 0 := fun h => hc (Char.ext (UInt32.toNat_inj.mp h))
  have hbyte {n : ℕ} (hn : n ≠ 0) (hlt : n < 256) : UInt8.ofNat n ≠ 0 := by
    intro h
    have hval := congrArg UInt8.toNat h
    rw [UInt8.toNat_ofNat_of_lt' hlt] at hval
    exact hn hval
  unfold String.utf8EncodeChar
  dsimp only
  split_ifs with h1 h2 h3
  · exact ⟨[], _, rfl, hbyte hpos (by omega)⟩
  · exact ⟨[_], _, rfl, hbyte (by omega) (by omega)⟩
  · exact ⟨[_, _], _, rfl, hbyte (by omega) (by omega)⟩
  · exact ⟨[_, _, _], _, rfl, hbyte (by omega) (by omega)⟩

theorem trimNulls_utf8Bytes {s : String} (h : NoTrailingNul s) :
    trimNulls (utf8Bytes s) = utf8Bytes s := by
  unfold NoTrailingNul at h
  rw [utf8Bytes_eq]
  rcases s.toList.eq_nil_or_concat with hnil | ⟨front, c, hlast⟩
  · rw [hnil]
    rfl
  · rw [List.concat_eq_append] at hlast
    rw [hlast, List.getLast?_concat] at h
    obtain ⟨pre, b, hc, hb⟩ := utf8EncodeChar_eq_append fun h' => h (congrArg some h')
    rw [hlast, List.flatMap_append, List.flatMap_singleton, hc,
      ← List.append_assoc]
    exact trimNulls_append hb

/-! ## Standard encodings -/

theorem standardString_eq (s : String) :
    standardString s = encodeWords [32, (utf8Bytes s).length] ++ padded (utf8Bytes s) := by
  have hlayout : standardString s =
      encodeWords ([32] ++ ((utf8Bytes s).length :: packed (utf8Bytes s) ++ [])) := rfl
  rw [hlayout, List.append_nil, ← encodeWords_packed, ← encodeWords_append]
  rfl

theorem length_standardString (s : String) :
    (standardString s).length = 64 + 32 * wordCount (utf8Bytes s).length := by
  rw [standardString_eq, List.length_append, length_encodeWords, length_padded]
  rfl

theorem word_standardString_zero (s : String) : word (standardString s) 0 = 32 := by
  rw [standardString_eq, word, slice_append_left (by simp)]
  have hhead : 0 < [32, (utf8Bytes s).length].length := by simp
  exact beVal_slice_encodeWords hhead

theorem word_standardString_length {s : String} (h : (utf8Bytes s).length < 2 ^ 256) :
    word (standardString s) 32 = (utf8Bytes s).length := by
  rw [standardString_eq, word, slice_append_left (by simp)]
  have hhead : 1 < [32, (utf8Bytes s).length].length := by simp
  refine (beVal_slice_encodeWords hhead).trans ?_
  exact Nat.mod_eq_of_lt h

theorem slice_standardString (s : String) :
    slice (standardString s) 64 (64 + (utf8Bytes s).length) = utf8Bytes s := by
  have hhead : (encodeWords [32, (utf8Bytes s).length]).length = 64 := length_encodeWords _
  rw [standardString_eq, slice_append_right (by omega), hhead, Nat.sub_self,
    Nat.add_sub_cancel_left, padded, slice_append_left le_rfl]
  unfold slice
  rw [List.drop_zero, Nat.sub_zero, List.take_length]

/-- A string that does not end in the character zero is read back from its standard encoding. -/
theorem decodeAbiString_standardString {s : String} (hlen : (standardString s).length < 2 ^ 63)
    (hnul : NoTrailingNul s) : decodeAbiString checks (standardString s) = .ok (some s) := by
  have hsize := length_standardString s
  have hcount : (utf8Bytes s).length ≤ 32 * wordCount (utf8Bytes s).length := by
    unfold wordCount
    omega
  have hlength := word_standardString_length (s := s) (by omega)
  have hoff := word_standardString_zero s
  refine decodeAbiString_eq_ok_iff.mpr ⟨fun _ => ?_, ?_⟩
  · rw [hoff, hlength]
    exact ⟨by norm_num, fun _ => by omega⟩
  · unfold symbolOf
    dsimp only
    rw [hoff, hlength, if_neg (by omega), slice_standardString, trimNulls_utf8Bytes hnul,
      fromUTF8?_utf8Bytes]

/-- **Main theorem.** In either build, the decoder returns on an answer exactly when its sums fit;
    and every string that does not end in the character zero, and whose encoding is no longer than
    a vector may be, is read back from its standard encoding. -/
theorem decodeAbiString_iff (checks : Bool) :
    (∀ data, (∃ r, decodeAbiString checks data = .ok r) ↔ SymbolFits data) ∧
      ∀ s, (standardString s).length < 2 ^ 63 → NoTrailingNul s →
        decodeAbiString checks (standardString s) = .ok (some s) :=
  ⟨fun _ => decodeAbiString_returns_iff, fun _ => decodeAbiString_standardString⟩

/-- The symbol `USDC` is read back. -/
theorem decodeAbiString_usdc :
    decodeAbiString true (standardString "USDC") = .ok (some "USDC") :=
  (decodeAbiString_iff true).2 "USDC" (by decide +kernel) (by unfold NoTrailingNul; decide)

/-- A symbol of type `bytes32`, here `MKR`, stops both builds, since its word is read as an offset;
    and so do an offset and a length of 64 bits that wrap. -/
theorem bytes32_symbol_panics :
    decodeAbiString true ([77, 75, 82] ++ List.replicate 29 0) = .error .conversion ∧
    decodeAbiString false ([77, 75, 82] ++ List.replicate 29 0) = .error .conversion ∧
    decodeAbiString true (encodeWords [2 ^ 64 - 1]) = .error .overflow ∧
    decodeAbiString false (encodeWords [2 ^ 64 - 1]) = .error .slice ∧
    decodeAbiString true (encodeWords [32, 2 ^ 64 - 1]) = .error .overflow ∧
    decodeAbiString false (encodeWords [32, 2 ^ 64 - 1]) = .error .slice := by
  refine ⟨?_, ?_, ?_, ?_, ?_, ?_⟩ <;> decide +kernel

end MevScout.Pool
