import MevScout.Chain.Events
import MevScout.Common.Bytes
import MevScout.Common.Int

/-!
# Executed logs and word readers

Models of `ExecutedLog` (`core/src/data/types.rs`) and of the readers of
`core/src/utils.rs` that the decoders share.

Results:
* `u128FromBeBytes_eq`: a word is read modulo `2 ^ 128`;
* `u128FromBeBytes_encodeWords`: the same for the `i`-th encoded word;
* `i24FromTopic_ofInt`: every `int24` is read back from its topic.
-/

namespace MevScout

/-- Model of `ExecutedLog` (`data/types.rs`, lines 127–131). -/
structure ExecutedLog where
  address : Address
  topics : List B256
  data : List UInt8
  deriving DecidableEq

/-- Model of `u128_from_be_bytes` (`utils.rs`, lines 16–21): the last 16 bytes, or all
    of a shorter slice. -/
def u128FromBeBytes (bytes : List UInt8) : ℕ :=
  let len := min bytes.length 16
  beVal (bytes.drop (bytes.length - len))

/-- `U256::from_be_slice` of a slice of at most 32 bytes. -/
def u256FromBeSlice (bytes : List UInt8) : ℕ := beVal bytes

/-- `i{8 * n}::from_be_bytes` of an `n`-byte slice. -/
def signedFromBeBytes (bytes : List UInt8) : ℤ := asSigned (8 * bytes.length) (beVal bytes)

/-- Model of `abi_decode_u128` (`utils.rs`, lines 24–29). -/
def abiDecodeU128 (data : List UInt8) (offset : ℕ) : Option ℕ :=
  if offset + 32 > data.length then none
  else some (u128FromBeBytes (slice data offset (offset + 32)))

/-- `Address::from_slice` of a 20-byte slice. -/
def addressFromSlice (bytes : List UInt8) : Address := BitVec.ofNat 160 (beVal bytes)

/-- Model of `abi_decode_address` (`utils.rs`, lines 79–84). -/
def abiDecodeAddress (data : List UInt8) (offset : ℕ) : Option Address :=
  if offset + 32 > data.length then none
  else some (addressFromSlice (slice data (offset + 12) (offset + 32)))

/-- Model of `topic_address` (`utils.rs`, lines 72–76) on a 32-byte topic, and of
    `Address::from_word`: the last 20 bytes. -/
def topicAddress (word : B256) : Address := word.setWidth 160

/-- Model of `i24_from_topic` (`utils.rs`, lines 87–94). -/
def i24FromTopic (word : B256) : ℤ :=
  let raw : ℕ := (word.toNat % 2 ^ 32) &&& 0x00ffffff
  if raw &&& 0x00800000 ≠ 0 then (raw : ℤ) - 0x01000000 else raw

/-! ## Reading words -/

theorem u128FromBeBytes_eq (bytes : List UInt8) :
    u128FromBeBytes bytes = beVal bytes % 2 ^ 128 := by
  have h : bytes.length - min bytes.length 16 = bytes.length - 16 := by omega
  rw [u128FromBeBytes, h, beVal_drop, show (256 : ℕ) ^ 16 = 2 ^ 128 by norm_num]

theorem u128FromBeBytes_lt (bytes : List UInt8) : u128FromBeBytes bytes < 2 ^ 128 := by
  rw [u128FromBeBytes_eq]
  exact Nat.mod_lt _ (by positivity)

theorem u128FromBeBytes_encodeWords {ws : List ℕ} {i : ℕ} (hi : i < ws.length) :
    u128FromBeBytes (slice (encodeWords ws) (32 * i) (32 * i + 32)) = ws[i] % 2 ^ 128 := by
  rw [u128FromBeBytes_eq, beVal_slice_encodeWords hi]
  exact Nat.mod_mod_of_dvd _ (pow_dvd_pow 2 (by norm_num))

theorem i24FromTopic_eq (word : B256) : i24FromTopic word = Int.bmod word.toNat (2 ^ 24) := by
  have hmask : (word.toNat % 2 ^ 32) &&& 0x00ffffff = word.toNat % 2 ^ 24 := by
    rw [show (0x00ffffff : ℕ) = 2 ^ 24 - 1 by norm_num, Nat.and_two_pow_sub_one_eq_mod]
    exact Nat.mod_mod_of_dvd _ (by norm_num)
  have hbit : ∀ n < 2 ^ 24, (n &&& 0x00800000 ≠ 0 ↔ 2 ^ 23 ≤ n) := by
    intro n hn
    rw [show (0x00800000 : ℕ) = 2 ^ 23 by norm_num, Nat.and_two_pow,
      Nat.testBit_eq_decide_div_mod_eq]
    have hdiv : n / 2 ^ 23 % 2 = 1 ↔ 2 ^ 23 ≤ n := by omega
    simp only [hdiv]
    simp
  have hlt := Nat.mod_lt word.toNat (show 0 < 2 ^ 24 by norm_num)
  unfold i24FromTopic
  simp only [hmask, hbit _ hlt, Int.bmod_def]
  split_ifs <;> omega

/-- Every `int24` is read back from the topic that holds it sign-extended. -/
theorem i24FromTopic_ofInt {t : ℤ} (hlo : -2 ^ 23 ≤ t) (hhi : t < 2 ^ 23) :
    i24FromTopic (BitVec.ofInt 256 t) = t := by
  rw [i24FromTopic_eq, BitVec.toNat_ofInt, Int.toNat_of_nonneg (Int.emod_nonneg _ (by norm_num)),
    Int.bmod_def]
  push_cast
  split_ifs <;> omega

end MevScout
