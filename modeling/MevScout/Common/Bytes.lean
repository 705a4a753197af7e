import Mathlib

/-!
# Big-endian bytes and ABI words

Byte strings are lists of `UInt8`. The decoders cut them into 32-byte words and
read each word as a big-endian number, whole or by its last bytes. The encoding
of a sequence of static values is the concatenation of their words, so a decoder
that reads at a multiple of 32 reads one entry of the sequence.

Results:
* `beVal_beBytes`: reading back what was written, modulo the width;
* `beBytes_add`: the high bytes of a number, then its low bytes;
* `beBytes_beVal`: writing back what was read;
* `beVal_drop`, `beVal_take`: the last bytes of a byte string hold its low part, the first ones
  its high part;
* `slice_append_left`, `slice_append_right`, `slice_slice`, `slice_drop`: slices of parts;
* `slice_encodeWords`: the slice at byte `32 * i` is the `i`-th word;
* `beVal_slice_encodeWords_unaligned`: a read between two words gives the low part of the one
  and the high part of the other;
* `encodeWords_packed`: the words of a byte string that is filled up with zeros;
* `beVal_slice_encodeWords_last`: the last bytes of a word hold its low part.
-/

namespace MevScout

/-- The number whose big-endian digits in base 256 are `bs`. -/
def beVal (bs : List UInt8) : ℕ := Nat.ofDigits 256 (bs.reverse.map UInt8.toNat)

/-- The last `k` big-endian bytes of `n` (`to_be_bytes`). -/
def beBytes (k n : ℕ) : List UInt8 :=
  ((List.range k).map fun i => UInt8.ofNat (n / 256 ^ i)).reverse

/-- `&data[a..b]`, for a range that lies within `data`. -/
def slice (data : List UInt8) (a b : ℕ) : List UInt8 := (data.drop a).take (b - a)

/-- Concatenated 32-byte words: the ABI encoding of static values. -/
def encodeWords (ws : List ℕ) : List UInt8 := ws.flatMap (beBytes 32)

/-! ## Numbers and bytes -/

theorem beVal_append (a b : List UInt8) : beVal (a ++ b) = beVal a * 256 ^ b.length + beVal b := by
  unfold beVal
  rw [List.reverse_append, List.map_append, Nat.ofDigits_append]
  simp only [List.length_map, List.length_reverse]
  ring

theorem beVal_lt (bs : List UInt8) : beVal bs < 256 ^ bs.length := by
  have h := Nat.ofDigits_lt_base_pow_length (b := 256) (l := bs.reverse.map UInt8.toNat)
    (by norm_num) (by
      intro x hx
      obtain ⟨b, -, rfl⟩ := List.mem_map.mp hx
      exact b.toNat_lt)
  simpa [beVal] using h

theorem beVal_cons (b : UInt8) (bs : List UInt8) :
    beVal (b :: bs) = b.toNat * 256 ^ bs.length + beVal bs := by
  have hone : beVal [b] = b.toNat := by simp [beVal]
  rw [← List.singleton_append, beVal_append, hone]

/-- Only zero bytes are worth nothing. -/
theorem beVal_eq_zero_iff {bs : List UInt8} : beVal bs = 0 ↔ ∀ b ∈ bs, b = 0 := by
  induction bs with
  | nil => exact iff_of_true rfl (by simp)
  | cons b bs ih =>
    have hb : b.toNat * 256 ^ bs.length = 0 ↔ b = 0 := by
      rw [Nat.mul_eq_zero, or_iff_left (by positivity), ← UInt8.toNat_inj]
      rfl
    rw [beVal_cons, Nat.add_eq_zero_iff, hb, ih, List.forall_mem_cons]

@[simp] theorem length_beBytes (k n : ℕ) : (beBytes k n).length = k := by simp [beBytes]

/-- Writing `n` on `k` bytes and reading it back keeps `n` modulo `256 ^ k`. -/
theorem beVal_beBytes (k n : ℕ) : beVal (beBytes k n) = n % 256 ^ k := by
  unfold beVal beBytes
  rw [List.reverse_reverse, List.map_map]
  induction k with
  | zero => simp [Nat.mod_one]
  | succ k ih =>
    rw [List.range_succ, List.map_append, Nat.ofDigits_append, ih, Nat.mod_pow_succ]
    simp

/-- The bytes of `n` are those of its high part followed by those of its low part. -/
theorem beBytes_add (m k n : ℕ) : beBytes (m + k) n = beBytes m (n / 256 ^ k) ++ beBytes k n := by
  unfold beBytes
  rw [← List.reverse_append, Nat.add_comm m k, List.range_add, List.map_append, List.map_map]
  congr 2
  apply List.map_congr_left
  intro i _
  rw [Function.comp_apply, Nat.div_div_eq_div_mul, pow_add]

/-- Only the low part of `n` is written. -/
theorem beBytes_mod (k n : ℕ) : beBytes k (n % 256 ^ k) = beBytes k n := by
  unfold beBytes
  congr 1
  apply List.map_congr_left
  intro i hi
  obtain ⟨j, rfl⟩ := Nat.exists_eq_add_of_lt (List.mem_range.mp hi)
  apply UInt8.toNat.inj
  rw [UInt8.toNat_ofNat', UInt8.toNat_ofNat', show i + j + 1 = i + (j + 1) by ring, pow_add,
    Nat.mod_mul_right_div_self, pow_succ']
  exact Nat.mod_mod_of_dvd _ (dvd_mul_right 256 _)

theorem beBytes_zero (k : ℕ) : beBytes k 0 = List.replicate k 0 := by
  unfold beBytes
  simp

/-- The bytes of the largest number of a width are all `0xff`. -/
theorem beBytes_max (k : ℕ) : beBytes k (256 ^ k - 1) = List.replicate k 0xff := by
  induction k with
  | zero => rfl
  | succ k ih =>
    have hhigh : (256 ^ (1 + k) - 1) / 256 ^ k = 255 := by
      have hpos : 0 < 256 ^ k := by positivity
      rw [pow_add, pow_one]
      exact Nat.div_eq_of_lt_le (by omega) (by omega)
    have hlow : (256 ^ (1 + k) - 1) % 256 ^ k = 256 ^ k - 1 := by
      have hpos : 0 < 256 ^ k := by positivity
      rw [pow_add, pow_one, show 256 * 256 ^ k - 1 = 256 ^ k - 1 + 256 ^ k * 255 by omega,
        Nat.add_mul_mod_self_left]
      exact Nat.mod_eq_of_lt (by omega)
    rw [Nat.add_comm k 1, beBytes_add, hhigh, ← beBytes_mod k (256 ^ (1 + k) - 1), hlow, ih,
      List.replicate_add]
    rfl

/-- A byte string is written back from its value. -/
theorem beBytes_beVal {bs : List UInt8} {k : ℕ} (h : bs.length = k) :
    beBytes k (beVal bs) = bs := by
  induction bs generalizing k with
  | nil =>
    subst h
    rfl
  | cons b bs ih =>
    subst h
    have hlt := beVal_lt bs
    have hpos : 0 < 256 ^ bs.length := by positivity
    have hhigh : beVal (b :: bs) / 256 ^ bs.length = b.toNat := by
      rw [beVal_cons, Nat.add_comm, Nat.add_mul_div_right _ _ hpos, Nat.div_eq_of_lt hlt,
        Nat.zero_add]
    have hlow : beVal (b :: bs) % 256 ^ bs.length = beVal bs := by
      rw [beVal_cons, Nat.add_comm, Nat.add_mul_mod_self_right, Nat.mod_eq_of_lt hlt]
    have hone : beBytes 1 b.toNat = [b] := by simp [beBytes]
    rw [List.length_cons, Nat.add_comm, beBytes_add, hhigh, hone, ← beBytes_mod bs.length, hlow,
      ih rfl, List.singleton_append]

/-- The first bytes of a byte string hold its high part. -/
theorem beVal_take (bs : List UInt8) {k : ℕ} (hk : k ≤ bs.length) :
    beVal (bs.take k) = beVal bs / 256 ^ (bs.length - k) := by
  have hlt := beVal_lt (bs.drop k)
  have hpos : 0 < 256 ^ (bs.length - k) := by positivity
  rw [List.length_drop] at hlt
  conv_rhs => rw [← List.take_append_drop k bs, beVal_append]
  rw [List.length_append, List.length_take, List.length_drop, Nat.min_eq_left hk,
    Nat.add_sub_cancel_left, Nat.add_comm, Nat.add_mul_div_right _ _ hpos, Nat.div_eq_of_lt hlt,
    Nat.zero_add]

/-- The last `k` bytes of a byte string hold its value modulo `256 ^ k`. -/
theorem beVal_drop (bs : List UInt8) (k : ℕ) :
    beVal (bs.drop (bs.length - k)) = beVal bs % 256 ^ k := by
  rcases le_total bs.length k with h | h
  · rw [Nat.sub_eq_zero_of_le h, List.drop_zero, Nat.mod_eq_of_lt]
    exact (beVal_lt bs).trans_le (Nat.pow_le_pow_right (by norm_num) h)
  · have hlen : (bs.drop (bs.length - k)).length = k := by rw [List.length_drop]; omega
    have hlt := beVal_lt (bs.drop (bs.length - k))
    conv_rhs => rw [← List.take_append_drop (bs.length - k) bs, beVal_append]
    rw [hlen] at hlt ⊢
    rw [Nat.mul_add_mod', Nat.mod_eq_of_lt hlt]

/-! ## Slices and words -/

theorem length_slice {data : List UInt8} {a b : ℕ} (hab : a ≤ b) (hb : b ≤ data.length) :
    (slice data a b).length = b - a := by
  unfold slice; rw [List.length_take, List.length_drop]; omega

theorem slice_append_left {x y : List UInt8} {a b : ℕ} (hb : b ≤ x.length) :
    slice (x ++ y) a b = slice x a b := by
  unfold slice
  rcases Nat.le_total b a with hab | hab
  · rw [Nat.sub_eq_zero_of_le hab, List.take_zero, List.take_zero]
  · rw [List.drop_append_of_le_length (hab.trans hb), List.take_append_of_le_length]
    rw [List.length_drop]
    omega

theorem slice_append_right {x y : List UInt8} {a b : ℕ} (ha : x.length ≤ a) :
    slice (x ++ y) a b = slice y (a - x.length) (b - x.length) := by
  unfold slice
  rw [List.drop_append, List.drop_of_length_le ha, List.nil_append,
    show b - x.length - (a - x.length) = b - a by omega]

theorem slice_slice (data : List UInt8) {p q a b : ℕ} (hb : p + b ≤ q) :
    slice (slice data p q) a b = slice data (p + a) (p + b) := by
  unfold slice
  rw [List.drop_take, List.take_take, List.drop_drop]
  congr 1
  omega

theorem slice_drop (data : List UInt8) (k a b : ℕ) :
    slice (data.drop k) a b = slice data (k + a) (k + b) := by
  unfold slice
  rw [List.drop_drop, Nat.add_sub_add_left]

@[simp] theorem length_encodeWords (ws : List ℕ) : (encodeWords ws).length = 32 * ws.length := by
  induction ws with
  | nil => rfl
  | cons w ws ih =>
    have : (encodeWords (w :: ws)).length = 32 + (encodeWords ws).length := by simp [encodeWords]
    rw [this, ih, List.length_cons]; ring

theorem encodeWords_cons (w : ℕ) (ws : List ℕ) :
    encodeWords (w :: ws) = beBytes 32 w ++ encodeWords ws := rfl

/-- The slice at byte `32 * i` of an encoding is its `i`-th word. -/
theorem slice_encodeWords {ws : List ℕ} {i : ℕ} (hi : i < ws.length) :
    slice (encodeWords ws) (32 * i) (32 * i + 32) = beBytes 32 ws[i] := by
  unfold slice
  rw [Nat.add_sub_cancel_left]
  induction ws generalizing i with
  | nil => simp at hi
  | cons w ws ih =>
    rw [encodeWords_cons]
    cases i with
    | zero => simp [List.take_left']
    | succ i =>
      rw [show 32 * (i + 1) = (beBytes 32 w).length + 32 * i by rw [length_beBytes]; ring,
        List.drop_append, List.drop_of_length_le (Nat.le_add_right _ _), Nat.add_sub_cancel_left,
        List.nil_append, List.getElem_cons_succ]
      exact ih (by simpa using hi)

/-- Reading the word at byte `32 * i` of an encoding gives its `i`-th entry. -/
theorem beVal_slice_encodeWords {ws : List ℕ} {i : ℕ} (hi : i < ws.length) :
    beVal (slice (encodeWords ws) (32 * i) (32 * i + 32)) = ws[i] % 2 ^ 256 := by
  rw [slice_encodeWords hi, beVal_beBytes, show (256 : ℕ) ^ 32 = 2 ^ 256 by norm_num]

/-- The last `k` bytes of the word at byte `32 * i` hold its entry modulo `256 ^ k`. -/
theorem beVal_slice_encodeWords_last {ws : List ℕ} {i k : ℕ} (hi : i < ws.length) (hk : k ≤ 32) :
    beVal (slice (encodeWords ws) (32 * i + 32 - k) (32 * i + 32)) = ws[i] % 256 ^ k := by
  have hdrop : slice (encodeWords ws) (32 * i + 32 - k) (32 * i + 32) =
      (slice (encodeWords ws) (32 * i) (32 * i + 32)).drop (32 - k) := by
    unfold slice
    rw [List.drop_take, List.drop_drop, show 32 * i + (32 - k) = 32 * i + 32 - k by omega,
      show 32 * i + 32 - 32 * i - (32 - k) = 32 * i + 32 - (32 * i + 32 - k) by omega]
  have hlast := beVal_drop (slice (encodeWords ws) (32 * i) (32 * i + 32)) k
  rw [slice_encodeWords hi, length_beBytes] at hlast
  rw [hdrop, slice_encodeWords hi, hlast, beVal_beBytes]
  exact Nat.mod_mod_of_dvd _ (pow_dvd_pow 256 hk)

/-- Two slices that meet. -/
theorem slice_append_slice (data : List UInt8) {a b c : ℕ} (hab : a ≤ b) (hbc : b ≤ c) :
    slice data a b ++ slice data b c = slice data a c := by
  unfold slice
  rw [show c - a = b - a + (c - b) by omega, List.take_add, List.drop_drop,
    Nat.add_sub_cancel' hab]

/-- A read between two words gives the low part of the one and the high part of the other. -/
theorem beVal_slice_encodeWords_unaligned {ws : List ℕ} {k r : ℕ} (hk : k + 1 < ws.length)
    (hr : r ≤ 32) :
    beVal (slice (encodeWords ws) (32 * k + r) (32 * k + r + 32)) =
      ws[k] % 256 ^ (32 - r) * 256 ^ r + ws[k + 1] % 2 ^ 256 / 256 ^ (32 - r) := by
  have hlow : beVal (slice (encodeWords ws) (32 * k + 32 - (32 - r)) (32 * k + 32)) =
      ws[k] % 256 ^ (32 - r) := beVal_slice_encodeWords_last (by omega) (by omega)
  have hhigh : beVal (slice (encodeWords ws) (32 * k + 32) (32 * k + 32 + r)) =
      ws[k + 1] % 2 ^ 256 / 256 ^ (32 - r) := by
    have htake : slice (encodeWords ws) (32 * k + 32) (32 * k + 32 + r) =
        (slice (encodeWords ws) (32 * (k + 1)) (32 * (k + 1) + 32)).take r := by
      unfold slice
      rw [List.take_take, Nat.mul_add, Nat.add_sub_cancel_left, Nat.add_sub_cancel_left,
        Nat.min_eq_left hr]
    have hword := beVal_slice_encodeWords hk
    rw [slice_encodeWords hk] at htake hword
    rw [htake, beVal_take _ (by rw [length_beBytes]; exact hr), hword, length_beBytes]
  have hlen : (slice (encodeWords ws) (32 * k + 32) (32 * k + 32 + r)).length = r := by
    rw [length_slice (by omega) (by rw [length_encodeWords]; omega)]
    omega
  rw [show 32 * k + 32 - (32 - r) = 32 * k + r by omega] at hlow
  rw [show 32 * k + r + 32 = 32 * k + 32 + r by omega,
    ← slice_append_slice (encodeWords ws) (show 32 * k + r ≤ 32 * k + 32 by omega)
      (show 32 * k + 32 ≤ 32 * k + 32 + r by omega), beVal_append, hlow, hhigh, hlen]

theorem encodeWords_append (ws vs : List ℕ) :
    encodeWords (ws ++ vs) = encodeWords ws ++ encodeWords vs :=
  List.flatMap_append

/-! ## Byte strings as words -/

/-- `n.div_ceil(32)`. -/
def wordCount (n : ℕ) : ℕ := (n + 31) / 32

/-- `bs.resize(bs.len().div_ceil(32) * 32, 0)`. -/
def padded (bs : List UInt8) : List UInt8 :=
  bs ++ List.replicate (32 * wordCount bs.length - bs.length) 0

/-- The first `n` words of a byte string. -/
def wordsOf : ℕ → List UInt8 → List ℕ
  | 0, _ => []
  | n + 1, bs => beVal (bs.take 32) :: wordsOf n (bs.drop 32)

/-- The words of a byte string, filled up with zeros. -/
def packed (bs : List UInt8) : List ℕ := wordsOf (wordCount bs.length) (padded bs)

theorem length_padded (bs : List UInt8) : (padded bs).length = 32 * wordCount bs.length := by
  unfold padded wordCount
  rw [List.length_append, List.length_replicate]
  omega

theorem length_wordsOf (n : ℕ) (bs : List UInt8) : (wordsOf n bs).length = n := by
  induction n generalizing bs with
  | zero => rfl
  | succ n ih => rw [wordsOf, List.length_cons, ih]

@[simp] theorem length_packed (bs : List UInt8) : (packed bs).length = wordCount bs.length :=
  length_wordsOf _ _

theorem encodeWords_wordsOf {n : ℕ} {bs : List UInt8} (h : bs.length = 32 * n) :
    encodeWords (wordsOf n bs) = bs := by
  induction n generalizing bs with
  | zero =>
    rw [List.length_eq_zero_iff.mp (by omega : bs.length = 0)]
    rfl
  | succ n ih =>
    have htake : (bs.take 32).length = 32 := by
      rw [List.length_take]
      omega
    rw [wordsOf, encodeWords_cons, beBytes_beVal htake,
      ih (by rw [List.length_drop]; omega), List.take_append_drop]

theorem encodeWords_packed (bs : List UInt8) : encodeWords (packed bs) = padded bs :=
  encodeWords_wordsOf (length_padded bs)

theorem wordsOf_lt {n : ℕ} {bs : List UInt8} : ∀ w ∈ wordsOf n bs, w < 2 ^ 256 := by
  induction n generalizing bs with
  | zero => exact fun _ h => by cases h
  | succ n ih =>
    intro w hw
    rcases List.mem_cons.mp hw with rfl | hw
    · refine (beVal_lt _).trans_le ?_
      rw [show (2 : ℕ) ^ 256 = 256 ^ 32 by norm_num]
      exact Nat.pow_le_pow_right (by norm_num) (by rw [List.length_take]; omega)
    · exact ih w hw

end MevScout
