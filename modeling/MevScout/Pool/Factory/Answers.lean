import MevScout.Common.NoOverflow
import MevScout.Pool.Factory.Encoding
import MevScout.Pool.Symbol

/-!
# The arrays of any answer

The five readers of dynamic arrays in `fetch_balancer_state` and `fetch_curve_state`
(`core/src/pool/state/factory.rs`) and in `decode_get_pool_tokens`
(`core/src/pool/discovery/balancer.rs`), on every answer that a node or a contract may give. Their
offsets and counts are words of the answer, and none of the readers bounds them before it adds,
reserves or slices.

The readers of `Pool/Factory/Fetch` do the same in a build without overflow checks; here a build
may check.

Results:
* `readEntries_eq_ok_iff`: a loop over the entries of an array;
* `readArrayIn_eq_ok_iff`, `decodePoolTokensIn_eq_ok_iff`, `decodeGetPoolTokens_eq_ok_iff`: when a
  reader returns, and what;
* `arrayReaders_return_iff`: **main theorem**, the five readers;
* `hostile_arrays_panic`: one answer that stops them all.
-/

namespace MevScout.Pool.Factory

open MevScout.Rpc (sliceRange sliceRange_eq word)

/-! ## The readers -/

/-- The byte offset of the entry `i` of an array that starts at `start`. -/
def entryOffsetIn (checks : Bool) (start i : ℕ) : Except Panic ℕ := do
  let bytes ← arithUnsigned checks 64 (i * 32)
  arithUnsigned checks 64 (start + bytes)

/-- `&data[pos..pos + 32]` as a word. -/
def wordIn (checks : Bool) (data : List UInt8) (pos : ℕ) : Except Panic ℕ := do
  let stop ← arithUnsigned checks 64 (pos + 32)
  return beVal (← sliceRange data pos stop)

/-- The low limb of the word at `pos`, which is sliced without a test (`factory.rs`, lines
    1431–1434). -/
def limbIn (checks : Bool) (data : List UInt8) (pos : ℕ) : Except Panic (Option ℕ) := do
  return some (limb0 (← wordIn checks data pos))

/-- The low limb of the word at `pos`, if it lies in the data. -/
def limbWithin (checks : Bool) (data : List UInt8) (pos : ℕ) : Except Panic (Option ℕ) := do
  let stop ← arithUnsigned checks 64 (pos + 32)
  if stop > data.length then return none
  else limbIn checks data pos

/-- Model of `abi_decode_address` (`utils.rs`, lines 79–84): the address in the word at `pos`, if
    it lies in the data. -/
def addressWithin (checks : Bool) (data : List UInt8) (pos : ℕ) :
    Except Panic (Option Address) := do
  let stop ← arithUnsigned checks 64 (pos + 32)
  if stop > data.length then return none
  else
    let start ← arithUnsigned checks 64 (pos + 12)
    return some (addressFromSlice (← sliceRange data start stop))

/-- The loop over the `n` entries of an array that starts at `start`. -/
def readEntries {α : Type} (checks : Bool) (read : ℕ → Except Panic (Option α)) (start n : ℕ) :
    Except Panic (List α) := do
  let entries ← (List.range n).mapM fun i => do read (← entryOffsetIn checks start i)
  return entries.reduceOption

/-- The count at `off`, which ends at `head`; zero where it does not lie in the data. -/
def readCount (checks : Bool) (data : List UInt8) (off head : ℕ) : Except Panic ℕ :=
  if head ≤ data.length then limb0 <$> wordIn checks data off else .ok 0

/-- The array that the weights, the scaling factors and the price scales share. -/
def readArrayIn (checks : Bool) (data : List UInt8) : Except Panic (List ℕ) := do
  let off := firstLimb data
  let head ← arithUnsigned checks 64 (off + 32)
  let count ← readCount checks data off head
  withCapacity 16 count
  readEntries checks (limbWithin checks data) head count

/-- The array of an answer of at least `len` bytes. -/
def arrayAnswer (checks : Bool) (len : ℕ) (data : List UInt8) : Except Panic (List ℕ) :=
  if len ≤ data.length then readArrayIn checks data else .ok []

/-- The normalized weights of `fetch_balancer_state` (`factory.rs`, lines 1446–1464). -/
def decodeNormalizedWeights (checks : Bool) : List UInt8 → Except Panic (List ℕ) :=
  arrayAnswer checks 32

/-- The scaling factors of `fetch_balancer_state` (`factory.rs`, lines 1485–1505). -/
def decodeScalingFactors (checks : Bool) : List UInt8 → Except Panic (List ℕ) :=
  arrayAnswer checks 64

/-- The price scales of `fetch_curve_state` (`factory.rs`, lines 2092–2111). -/
def decodePriceScale (checks : Bool) : List UInt8 → Except Panic (List ℕ) := arrayAnswer checks 64

/-- The tokens, the balances and the count of `getPoolTokens` (`factory.rs`, lines 1411–1434). -/
def decodePoolTokensIn (checks : Bool) (returnData : List UInt8) :
    Except Panic (List Address × List ℕ × ℕ) := do
  let tokensOffset ← wordIn checks returnData 0
  let balancesOffset ← wordIn checks returnData 32
  let tokensLenOffset ← arithUnsigned checks 64 (32 + limb0 tokensOffset)
  let tokenCount ← limb0 <$> wordIn checks returnData tokensLenOffset
  let tokensStart ← arithUnsigned checks 64 (tokensLenOffset + 32)
  withCapacity 20 tokenCount
  let tokens ← readEntries checks (addressWithin checks returnData) tokensStart tokenCount
  let balancesHead ← arithUnsigned checks 64 (64 + limb0 balancesOffset)
  let balancesStart ← arithUnsigned checks 64 (balancesHead + 32)
  withCapacity 16 tokenCount
  let balances ← readEntries checks (limbIn checks returnData) balancesStart tokenCount
  return (tokens, balances, tokenCount)

/-- The answer to `getPoolTokens` in `fetch_balancer_state` (`factory.rs`, lines 1405–1438). -/
def decodeBalancerTokens (checks : Bool) (returnData : List UInt8) :
    Except Panic (Except FetchError (List Address × List ℕ × ℕ)) :=
  if returnData.length < 96 then .ok (.error .tooShort)
  else do
    let (tokens, balances, tokenCount) ← decodePoolTokensIn checks returnData
    if balances.length < 2 then return .error .fewTokens
    else return .ok (tokens, balances, tokenCount)

/-- Model of `decode_get_pool_tokens` (`discovery/balancer.rs`, lines 140–157). -/
def decodeGetPoolTokens (checks : Bool) (data : List UInt8) :
    Except Panic (Option (List Address)) := do
  if data.length < 64 then return none
  else
    let offset ← toUsize (← wordIn checks data 32)
    let head ← arithUnsigned checks 64 (offset + 32)
    if data.length < head then return none
    else
      let len ← toUsize (← wordIn checks data offset)
      withCapacity 20 len
      let tokens ← readEntries checks (addressWithin checks data) head len
      return if tokens = [] then none else some tokens

/-! ## What stands in an answer -/

/-- The low limb of the word at `pos`, if it lies in the data. -/
def limbAt (data : List UInt8) (pos : ℕ) : Option ℕ :=
  if data.length < pos + 32 then none else some (limb0 (word data pos))

/-- The entries of an array of `n` entries that starts at `start`, without those that are not
    there. -/
def entriesAt {α : Type} (f : ℕ → Option α) (start n : ℕ) : List α :=
  ((List.range n).map fun i => f (start + 32 * i)).reduceOption

/-- The count of the array whose offset is `off`. -/
def countAt (data : List UInt8) (off : ℕ) : ℕ :=
  if data.length < off + 32 then 0 else limb0 (word data off)

/-- The array of an answer. -/
def arrayOf (data : List UInt8) : List ℕ :=
  entriesAt (limbAt data) (firstLimb data + 32) (countAt data (firstLimb data))

/-- The end of the array is a number of 64 bits. -/
def ArrayFits (data : List UInt8) : Prop :=
  firstLimb data + 32 + 32 * countAt data (firstLimb data) < 2 ^ 64

instance (data : List UInt8) : Decidable (ArrayFits data) := inferInstanceAs (Decidable (_ < _))

/-- Where the code takes the count of the tokens from: 32 bytes behind their offset. -/
def tokensLenAt (data : List UInt8) : ℕ := 32 + limb0 (word data 0)

/-- Where the code takes the balances from: two words behind the head of their array. -/
def balancesAt (data : List UInt8) : ℕ := limb0 (word data 32) + 96

/-- The count that the code takes for that of the tokens. -/
def tokenCountAt (data : List UInt8) : ℕ := limb0 (word data (tokensLenAt data))

/-- What `fetch_balancer_state` reads from `getPoolTokens`. -/
def poolTokensOf (data : List UInt8) : List Address × List ℕ × ℕ :=
  (entriesAt (abiDecodeAddress data) (tokensLenAt data + 32) (tokenCountAt data),
    entriesAt (fun pos => some (limb0 (word data pos))) (balancesAt data) (tokenCountAt data),
    tokenCountAt data)

/-- The count lies in the answer, the start of the balances is a number of 64 bits, and all the
    balances lie in the answer. -/
structure PoolTokensFit (data : List UInt8) : Prop where
  count_in : tokensLenAt data + 32 ≤ data.length
  start_lt : balancesAt data < 2 ^ 64
  balances_in : tokenCountAt data = 0 ∨
    balancesAt data + 32 * tokenCountAt data ≤ data.length

/-- The tokens of an answer to `getPool`. -/
def getPoolTokensOf (data : List UInt8) : Option (List Address) :=
  let off := word data 32
  if data.length < 64 ∨ data.length < off + 32 then none
  else
    let tokens := entriesAt (abiDecodeAddress data) (off + 32) (word data off)
    if tokens = [] then none else some tokens

/-- The end of the offset is a number of 64 bits; and where the count lies in the answer, the vector
    may be reserved and the end of the array is a number of 64 bits. -/
structure GetPoolFits (data : List UInt8) : Prop where
  head_lt : word data 32 + 32 < 2 ^ 64
  capacity : word data 32 + 32 ≤ data.length → 20 * word data (word data 32) < 2 ^ 63
  stop_lt : word data 32 + 32 ≤ data.length →
    word data 32 + 32 + 32 * word data (word data 32) < 2 ^ 64

/-! ## Entries -/

variable {α : Type} {data : List UInt8} {read : ℕ → Except Panic (Option α)} {f : ℕ → Option α}
  {limit start n pos : ℕ}

/-- A reader returns exactly for the words that end at `limit` or before. -/
def ReadsUpTo (limit : ℕ) (read : ℕ → Except Panic (Option α)) (f : ℕ → Option α) : Prop :=
  ∀ pos r, read pos = .ok r ↔ pos + 32 ≤ limit ∧ f pos = r

theorem entryOffsetIn_true_iff {i r : ℕ} :
    entryOffsetIn true start i = .ok r ↔ start + 32 * i < 2 ^ 64 ∧ start + 32 * i = r := by
  unfold entryOffsetIn
  simp only [bind_eq_ok, arithUnsigned_true_iff]
  constructor
  · rintro ⟨bytes, ⟨hbytes, rfl⟩, hlt, rfl⟩
    exact ⟨by omega, by omega⟩
  · rintro ⟨hlt, rfl⟩
    exact ⟨i * 32, ⟨by omega, rfl⟩, by omega, by omega⟩

/-- A loop over the entries returns exactly when there are none or the last one is read. -/
theorem readEntries_eq_ok_iff (hlimit : limit < 2 ^ 64) (hread : ReadsUpTo limit read f)
    {r : List α} :
    readEntries true read start n = .ok r ↔
      (n = 0 ∨ start + 32 * n ≤ limit) ∧ entriesAt f start n = r := by
  have hentry : ∀ i ∈ List.range n, ∀ b,
      (do read (← entryOffsetIn true start i)) = .ok b ↔
        start + 32 * i + 32 ≤ limit ∧ f (start + 32 * i) = b := by
    intro i _ b
    simp only [bind_eq_ok, entryOffsetIn_true_iff, hread _ b]
    constructor
    · rintro ⟨p, ⟨-, rfl⟩, hb⟩
      exact hb
    · rintro ⟨hin, hb⟩
      exact ⟨_, ⟨by omega, rfl⟩, hin, hb⟩
  have hlast : (∀ i ∈ List.range n, start + 32 * i + 32 ≤ limit) ↔
      (n = 0 ∨ start + 32 * n ≤ limit) := by
    constructor
    · intro h
      rcases Nat.eq_zero_or_pos n with h0 | hpos
      · exact .inl h0
      · have := h (n - 1) (List.mem_range.mpr (by omega))
        omega
    · intro h i hi
      have := List.mem_range.mp hi
      omega
  unfold readEntries
  simp only [bind_eq_ok, mapM_eq_ok_iff hentry, hlast]
  constructor
  · rintro ⟨entries, ⟨hin, rfl⟩, hr⟩
    exact ⟨hin, Except.ok.inj hr⟩
  · rintro ⟨hin, rfl⟩
    exact ⟨_, ⟨hin, rfl⟩, rfl⟩

theorem length_entriesAt_le (f : ℕ → Option α) (start n : ℕ) :
    (entriesAt f start n).length ≤ n := by
  refine (List.reduceOption_length_le _).trans ?_
  rw [List.length_map, List.length_range]

theorem entriesAt_some (f : ℕ → α) (start n : ℕ) :
    entriesAt (fun pos => some (f pos)) start n =
      (List.range n).map fun i => f (start + 32 * i) := by
  unfold entriesAt List.reduceOption
  rw [List.filterMap_map]
  exact congrFun List.filterMap_eq_map _

theorem length_entriesAt_some (f : ℕ → α) (start n : ℕ) :
    (entriesAt (fun pos => some (f pos)) start n).length = n := by
  rw [entriesAt_some, List.length_map, List.length_range]

/-! ## Words -/

theorem wordIn_true_iff (hlen : data.length < 2 ^ 63) {r : ℕ} :
    wordIn true data pos = .ok r ↔ pos + 32 ≤ data.length ∧ word data pos = r := by
  unfold wordIn
  simp only [bind_eq_ok, arithUnsigned_true_iff]
  constructor
  · rintro ⟨stop, ⟨hlt, rfl⟩, bytes, hbytes, hr⟩
    unfold sliceRange at hbytes
    split_ifs at hbytes with hin
    obtain rfl := Except.ok.inj hbytes
    exact ⟨hin.2, Except.ok.inj hr⟩
  · rintro ⟨hin, rfl⟩
    exact ⟨_, ⟨by omega, rfl⟩, _, sliceRange_eq (by omega) hin, rfl⟩

theorem limb0_wordIn_true_iff (hlen : data.length < 2 ^ 63) {r : ℕ} :
    limb0 <$> wordIn true data pos = .ok r ↔
      pos + 32 ≤ data.length ∧ limb0 (word data pos) = r := by
  rw [map_eq_pure_bind, bind_eq_ok]
  simp only [wordIn_true_iff hlen]
  constructor
  · rintro ⟨a, ⟨hin, rfl⟩, hr⟩
    exact ⟨hin, Except.ok.inj hr⟩
  · rintro ⟨hin, rfl⟩
    exact ⟨_, ⟨hin, rfl⟩, rfl⟩

theorem limbIn_readsUpTo (hlen : data.length < 2 ^ 63) :
    ReadsUpTo data.length (limbIn true data) fun pos => some (limb0 (word data pos)) := by
  intro pos r
  unfold limbIn
  simp only [bind_eq_ok, wordIn_true_iff hlen]
  constructor
  · rintro ⟨a, ⟨hin, rfl⟩, hr⟩
    exact ⟨hin, Except.ok.inj hr⟩
  · rintro ⟨hin, rfl⟩
    exact ⟨_, ⟨hin, rfl⟩, rfl⟩

theorem limbWithin_readsUpTo (hlen : data.length < 2 ^ 63) :
    ReadsUpTo (2 ^ 64 - 1) (limbWithin true data) (limbAt data) := by
  intro pos r
  unfold limbWithin limbAt
  rcases Nat.lt_or_ge (pos + 32) (2 ^ 64) with hlt | hge
  · rw [arithUnsigned_eq hlt, ok_bind, and_iff_right (by omega)]
    split_ifs with hout
    · exact ⟨Except.ok.inj, congrArg Except.ok⟩
    · rw [limbIn_readsUpTo hlen, and_iff_right (by omega)]
  · rw [arithUnsigned_of_le hge, if_pos rfl, error_bind]
    exact iff_of_false (fun h => by cases h) fun h => absurd h.1 (by omega)

theorem addressWithin_readsUpTo (data : List UInt8) :
    ReadsUpTo (2 ^ 64 - 1) (addressWithin true data) (abiDecodeAddress data) := by
  intro pos r
  unfold addressWithin abiDecodeAddress
  rcases Nat.lt_or_ge (pos + 32) (2 ^ 64) with hlt | hge
  · rw [arithUnsigned_eq hlt, ok_bind, and_iff_right (by omega)]
    split_ifs with hout
    · exact ⟨Except.ok.inj, congrArg Except.ok⟩
    · rw [arithUnsigned_eq (by omega), ok_bind, sliceRange_eq (by omega) (by omega), ok_bind]
      exact ⟨Except.ok.inj, congrArg Except.ok⟩
  · rw [arithUnsigned_of_le hge, if_pos rfl, error_bind]
    exact iff_of_false (fun h => by cases h) fun h => absurd h.1 (by omega)

theorem withCapacity_ok_iff {size n : ℕ} {u : Unit} :
    withCapacity size n = .ok u ↔ size * n < 2 ^ 63 := by
  unfold withCapacity
  split_ifs with h
  · exact iff_of_true rfl h
  · exact iff_of_false (fun h' => by cases h') h

/-! ## The readers -/

theorem readCount_eq_ok_iff (hlen : data.length < 2 ^ 63) {off c : ℕ} :
    readCount true data off (off + 32) = .ok c ↔ countAt data off = c := by
  unfold readCount countAt
  split_ifs with hin hout hout
  · omega
  · rw [limb0_wordIn_true_iff hlen, and_iff_right hin]
  · exact ⟨Except.ok.inj, congrArg Except.ok⟩
  · omega

/-- The array is read exactly when its end is a number of 64 bits, and then as it stands. -/
theorem readArrayIn_eq_ok_iff (hlen : data.length < 2 ^ 63) {r : List ℕ} :
    readArrayIn true data = .ok r ↔ ArrayFits data ∧ arrayOf data = r := by
  unfold readArrayIn ArrayFits arrayOf
  dsimp only
  simp only [bind_eq_ok, arithUnsigned_true_iff, withCapacity_ok_iff,
    readEntries_eq_ok_iff (show 2 ^ 64 - 1 < 2 ^ 64 by norm_num) (limbWithin_readsUpTo hlen)]
  constructor
  · rintro ⟨_, ⟨hhead, rfl⟩, count, hcount, -, -, hstop, rfl⟩
    obtain rfl := (readCount_eq_ok_iff hlen).mp hcount
    exact ⟨by omega, rfl⟩
  · rintro ⟨hfits, rfl⟩
    exact ⟨_, ⟨by omega, rfl⟩, _, (readCount_eq_ok_iff hlen).mpr rfl, (), by omega,
      .inr (by omega), rfl⟩

theorem arrayAnswer_eq_ok_iff (hlen : data.length < 2 ^ 63) (len : ℕ) :
    (∃ r, arrayAnswer true len data = .ok r ∧ r.length ≤ countAt data (firstLimb data)) ↔
      (len ≤ data.length → ArrayFits data) := by
  unfold arrayAnswer
  split_ifs with h
  · simp only [readArrayIn_eq_ok_iff hlen, imp_iff_right h]
    exact ⟨fun ⟨_, ⟨hfits, _⟩, _⟩ => hfits,
      fun hfits => ⟨_, ⟨hfits, rfl⟩, length_entriesAt_le ..⟩⟩
  · exact iff_of_true ⟨[], rfl, Nat.zero_le _⟩ fun h' => absurd h' h

/-- The tokens and balances of `getPoolTokens` are read exactly when their places fit. -/
theorem decodePoolTokensIn_eq_ok_iff (hlen : data.length < 2 ^ 63) (hlong : 96 ≤ data.length)
    {r : List Address × List ℕ × ℕ} :
    decodePoolTokensIn true data = .ok r ↔ PoolTokensFit data ∧ poolTokensOf data = r := by
  unfold decodePoolTokensIn
  simp only [bind_eq_ok, arithUnsigned_true_iff, withCapacity_ok_iff, wordIn_true_iff hlen,
    limb0_wordIn_true_iff hlen,
    readEntries_eq_ok_iff (show 2 ^ 64 - 1 < 2 ^ 64 by norm_num) (addressWithin_readsUpTo data),
    readEntries_eq_ok_iff (show data.length < 2 ^ 64 by omega) (limbIn_readsUpTo hlen)]
  constructor
  · rintro ⟨_, ⟨-, rfl⟩, _, ⟨-, rfl⟩, _, ⟨-, rfl⟩, _, ⟨hcount, rfl⟩, _, ⟨-, rfl⟩, -, -, _,
      ⟨-, rfl⟩, _, ⟨-, rfl⟩, _, ⟨hstart, rfl⟩, -, -, _, ⟨hin, rfl⟩, hr⟩
    have hhead : 64 + limb0 (word data 32) + 32 = balancesAt data := by
      unfold balancesAt
      omega
    rw [hhead] at hstart hin hr
    exact ⟨⟨hcount, hstart, hin⟩, Except.ok.inj hr⟩
  · rintro ⟨⟨hcount, hstart, hin⟩, rfl⟩
    unfold poolTokensOf tokenCountAt at *
    unfold tokensLenAt balancesAt at *
    have hhead : 64 + limb0 (word data 32) + 32 = limb0 (word data 32) + 96 := by omega
    refine ⟨_, ⟨by omega, rfl⟩, _, ⟨by omega, rfl⟩, _, ⟨by omega, rfl⟩, _, ⟨hcount, rfl⟩, _,
      ⟨by omega, rfl⟩, (), by omega, _, ⟨by omega, rfl⟩, _, ⟨by omega, rfl⟩, _,
      ⟨by omega, rfl⟩, (), by omega, _, ⟨by omega, rfl⟩, ?_⟩
    rw [hhead]
    rfl

theorem decodeBalancerTokens_returns_iff (hlen : data.length < 2 ^ 63) :
    (∃ r, decodeBalancerTokens true data = .ok r ∧ ∀ t, r = .ok t →
        t.1.length ≤ tokenCountAt data ∧ t.2.1.length = tokenCountAt data) ↔
      (96 ≤ data.length → PoolTokensFit data) := by
  unfold decodeBalancerTokens
  split_ifs with hshort
  · exact iff_of_true ⟨_, rfl, fun t ht => by cases ht⟩ fun h => absurd h (by omega)
  rw [imp_iff_right (by omega)]
  constructor
  · rintro ⟨r, hr, -⟩
    obtain ⟨t, ht, -⟩ := bind_eq_ok.mp hr
    exact ((decodePoolTokensIn_eq_ok_iff hlen (by omega)).mp ht).1
  · intro hfits
    rw [(decodePoolTokensIn_eq_ok_iff hlen (by omega)).mpr ⟨hfits, rfl⟩, ok_bind]
    unfold poolTokensOf
    dsimp only
    split_ifs
    · exact ⟨_, rfl, fun t ht => by cases ht⟩
    · refine ⟨_, rfl, fun t ht => ?_⟩
      obtain rfl := Except.ok.inj ht
      exact ⟨length_entriesAt_le _ _ _,
        length_entriesAt_some (fun pos => limb0 (word data pos)) _ _⟩

theorem toUsize_eq_ok_iff {v r : ℕ} : toUsize v = .ok r ↔ v < 2 ^ 64 ∧ v = r := by
  unfold toUsize
  split_ifs with h
  · exact ⟨fun hr => ⟨h, Except.ok.inj hr⟩, fun hr => congrArg Except.ok hr.2⟩
  · exact iff_of_false (fun hr => by cases hr) fun hr => h hr.1

/-- The tokens of `getPool` are read exactly when the vector may be reserved and its end is a number
    of 64 bits. -/
theorem decodeGetPoolTokens_eq_ok_iff (hlen : data.length < 2 ^ 63)
    {r : Option (List Address)} :
    decodeGetPoolTokens true data = .ok r ↔
      (64 ≤ data.length → GetPoolFits data) ∧ getPoolTokensOf data = r := by
  unfold decodeGetPoolTokens getPoolTokensOf
  by_cases hshort : data.length < 64
  case pos =>
    rw [if_pos hshort]
    exact ok_eq_ok_iff (fun h => absurd h (by omega)) (if_pos (.inl hshort))
  rw [if_neg hshort, imp_iff_right (by omega)]
  simp only [bind_eq_ok, wordIn_true_iff hlen, toUsize_eq_ok_iff, arithUnsigned_true_iff]
  by_cases hin : data.length < word data 32 + 32
  case pos =>
    rw [if_pos (.inr hin)]
    constructor
    · rintro ⟨_, ⟨-, rfl⟩, _, ⟨-, rfl⟩, _, ⟨hhead, rfl⟩, hr⟩
      rw [if_pos hin] at hr
      exact ⟨⟨hhead, fun h => absurd h (by omega), fun h => absurd h (by omega)⟩,
        Except.ok.inj hr⟩
    · rintro ⟨hfits, rfl⟩
      have hhead := hfits.head_lt
      refine ⟨word data 32, ⟨by omega, rfl⟩, word data 32, ⟨by omega, rfl⟩, word data 32 + 32,
        ⟨hhead, rfl⟩, ?_⟩
      rw [if_pos hin]
      rfl
  have hnot : ¬(data.length < 64 ∨ data.length < word data 32 + 32) := by omega
  have hentries : ∀ {head n : ℕ} {l : List Address},
      readEntries true (addressWithin true data) head n = .ok l ↔
        (n = 0 ∨ head + 32 * n ≤ 2 ^ 64 - 1) ∧ entriesAt (abiDecodeAddress data) head n = l :=
    readEntries_eq_ok_iff (by norm_num) (addressWithin_readsUpTo data)
  rw [if_neg hnot]
  constructor
  · rintro ⟨_, ⟨-, rfl⟩, _, ⟨-, rfl⟩, _, ⟨hhead, rfl⟩, hr⟩
    rw [if_neg hin] at hr
    simp only [bind_eq_ok, wordIn_true_iff hlen, toUsize_eq_ok_iff, withCapacity_ok_iff,
      hentries] at hr
    obtain ⟨_, ⟨-, rfl⟩, _, ⟨-, rfl⟩, -, hcap, _, ⟨hstop, rfl⟩, hr⟩ := hr
    exact ⟨⟨hhead, fun _ => hcap, fun _ => by omega⟩, Except.ok.inj hr⟩
  · rintro ⟨⟨hhead, hcap, hstop⟩, rfl⟩
    have hcap := hcap (by omega)
    have hstop := hstop (by omega)
    refine ⟨word data 32, ⟨by omega, rfl⟩, word data 32, ⟨by omega, rfl⟩, word data 32 + 32,
      ⟨hhead, rfl⟩, ?_⟩
    rw [if_neg hin]
    simp only [bind_eq_ok, wordIn_true_iff hlen, toUsize_eq_ok_iff, withCapacity_ok_iff, hentries]
    exact ⟨word data (word data 32), ⟨by omega, rfl⟩, word data (word data 32), ⟨by omega, rfl⟩,
      (), hcap, _, ⟨.inr (by omega), rfl⟩, rfl⟩

theorem length_getPoolTokensOf_le {l : List Address} (h : getPoolTokensOf data = some l) :
    l.length ≤ word data (word data 32) := by
  unfold getPoolTokensOf at h
  dsimp only at h
  split_ifs at h
  obtain rfl := Option.some.inj h
  exact length_entriesAt_le ..

/-! ## A build without checks -/

theorem readWord_eq (h : pos + 32 ≤ data.length) : readWord data pos = .ok (word data pos) :=
  if_neg (by omega)

/-- Where the array fits, a build without checks reads it too. -/
theorem readArray_of_fits (hfits : ArrayFits data) : readArray data = .ok (arrayOf data) := by
  unfold ArrayFits at hfits
  have hhead : wrappingAdd 64 (firstLimb data) 32 = firstLimb data + 32 :=
    wrappingAdd_eq (by omega)
  have hentries : ∀ j ∈ List.range (countAt data (firstLimb data)),
      (if wrappingAdd 64 (entryOffset (firstLimb data + 32) j) 32 ≤ data.length then
        (some ∘ limb0) <$> readWord data (entryOffset (firstLimb data + 32) j) else .ok none) =
      .ok (limbAt data (firstLimb data + 32 + 32 * j)) := by
    intro j hj
    have hj := List.mem_range.mp hj
    rw [entryOffset_eq (by omega), wrappingAdd_eq (by omega)]
    unfold limbAt
    split_ifs with hin hout hout
    · omega
    · rw [readWord_eq hin]
      rfl
    · rfl
    · omega
  have hloop := mapM_eq_ok hentries
  have hcapacity : withCapacity 16 (countAt data (firstLimb data)) = .ok () :=
    withCapacity_ok_iff.mpr (by omega)
  unfold readArray
  simp only [hhead]
  split_ifs with hin
  · have hcount :
        limb0 <$> readWord data (firstLimb data) = .ok (countAt data (firstLimb data)) := by
      rw [countAt, if_neg (by omega), readWord_eq hin]
      rfl
    rw [hcount, ok_bind, hcapacity, ok_bind, hloop]
    rfl
  · have hcount : countAt data (firstLimb data) = 0 := if_pos (by omega)
    rw [hcount] at hcapacity hloop
    rw [ok_bind, hcapacity, ok_bind, hloop, arrayOf, hcount]
    rfl

/-- Where the tokens and balances fit, a build without checks reads them too. -/
theorem decodePoolTokens_of_fits (hlen : data.length < 2 ^ 63) (hlong : 96 ≤ data.length)
    (hfits : PoolTokensFit data) : decodePoolTokens data = .ok (poolTokensOf data) := by
  obtain ⟨hcount, hstart, hin⟩ := hfits
  unfold poolTokensOf
  unfold tokenCountAt at *
  unfold tokensLenAt balancesAt at *
  have hlenAt : wrappingAdd 64 32 (limb0 (word data 0)) = 32 + limb0 (word data 0) :=
    wrappingAdd_eq (by omega)
  have hstartAt : wrappingAdd 64 (32 + limb0 (word data 0)) 32 = 32 + limb0 (word data 0) + 32 :=
    wrappingAdd_eq (by omega)
  have hbalances : wrappingAdd 64 (wrappingAdd 64 64 (limb0 (word data 32))) 32 =
      limb0 (word data 32) + 96 := by
    rw [wrappingAdd_eq (a := 64) (by omega), wrappingAdd_eq (by omega)]
    omega
  have hread : limb0 <$> readWord data (32 + limb0 (word data 0)) =
      .ok (limb0 (word data (32 + limb0 (word data 0)))) := by
    rw [readWord_eq hcount]
    rfl
  unfold decodePoolTokens
  rw [readWord_eq (by omega), ok_bind, readWord_eq (by omega), ok_bind]
  simp only [hlenAt, hstartAt, hbalances, hread]
  rw [ok_bind]
  generalize limb0 (word data (32 + limb0 (word data 0))) = n at *
  have htokens : (List.range n).map (fun i =>
      abiDecodeAddress data (entryOffset (32 + limb0 (word data 0) + 32) i)) =
      (List.range n).map fun i =>
        abiDecodeAddress data (32 + limb0 (word data 0) + 32 + 32 * i) := by
    refine List.map_congr_left fun i hi => ?_
    have hi := List.mem_range.mp hi
    rw [entryOffset_eq (by omega)]
  have hloop : (List.range n).mapM (fun i =>
      limb0 <$> readWord data (entryOffset (limb0 (word data 32) + 96) i)) =
      .ok ((List.range n).map fun i => limb0 (word data (limb0 (word data 32) + 96 + 32 * i))) := by
    refine mapM_eq_ok fun i hi => ?_
    have hi := List.mem_range.mp hi
    rw [entryOffset_eq (by omega), readWord_eq (by omega)]
    rfl
  have hcapacity {size : ℕ} (hsize : size ≤ 32) : withCapacity size n = .ok () :=
    withCapacity_ok_iff.mpr (lt_of_le_of_lt (Nat.mul_le_mul_right n hsize) (by omega))
  rw [hcapacity (by norm_num), ok_bind, hcapacity (by norm_num), ok_bind, hloop, ok_bind, htokens,
    entriesAt_some]
  rfl

/-- **Main theorem.** The five readers end without a panic, with an error or with no more entries
    than the answer counts, exactly when the places that it names fit. -/
theorem arrayReaders_return_iff (data : List UInt8) (hlen : data.length < 2 ^ 63) :
    ((∃ r, decodeBalancerTokens true data = .ok r ∧ ∀ t, r = .ok t →
        t.1.length ≤ tokenCountAt data ∧ t.2.1.length = tokenCountAt data) ↔
      (96 ≤ data.length → PoolTokensFit data)) ∧
    ((∃ r, decodeNormalizedWeights true data = .ok r ∧
        r.length ≤ countAt data (firstLimb data)) ↔ (32 ≤ data.length → ArrayFits data)) ∧
    ((∃ r, decodeScalingFactors true data = .ok r ∧
        r.length ≤ countAt data (firstLimb data)) ↔ (64 ≤ data.length → ArrayFits data)) ∧
    ((∃ r, decodePriceScale true data = .ok r ∧
        r.length ≤ countAt data (firstLimb data)) ↔ (64 ≤ data.length → ArrayFits data)) ∧
    ((∃ r, decodeGetPoolTokens true data = .ok r ∧ ∀ l, r = some l →
        l.length ≤ word data (word data 32)) ↔ (64 ≤ data.length → GetPoolFits data)) := by
  refine ⟨decodeBalancerTokens_returns_iff hlen, arrayAnswer_eq_ok_iff hlen 32,
    arrayAnswer_eq_ok_iff hlen 64, arrayAnswer_eq_ok_iff hlen 64, ?_⟩
  simp only [decodeGetPoolTokens_eq_ok_iff hlen]
  constructor
  · rintro ⟨_, ⟨hfits, -⟩, -⟩
    exact hfits
  · intro hfits
    exact ⟨_, ⟨hfits, rfl⟩, fun l hl => length_getPoolTokensOf_le hl⟩

/-- An answer of two words of weights. -/
theorem arrayReaders_return_two :
    ((∃ r, decodeBalancerTokens true (encodeArray [3, 4]) = .ok r ∧ ∀ t, r = .ok t →
        t.1.length ≤ tokenCountAt (encodeArray [3, 4]) ∧
          t.2.1.length = tokenCountAt (encodeArray [3, 4])) ↔
      (96 ≤ (encodeArray [3, 4]).length → PoolTokensFit (encodeArray [3, 4]))) ∧
    ((∃ r, decodeNormalizedWeights true (encodeArray [3, 4]) = .ok r ∧
        r.length ≤ countAt (encodeArray [3, 4]) (firstLimb (encodeArray [3, 4]))) ↔
      (32 ≤ (encodeArray [3, 4]).length → ArrayFits (encodeArray [3, 4]))) ∧
    ((∃ r, decodeScalingFactors true (encodeArray [3, 4]) = .ok r ∧
        r.length ≤ countAt (encodeArray [3, 4]) (firstLimb (encodeArray [3, 4]))) ↔
      (64 ≤ (encodeArray [3, 4]).length → ArrayFits (encodeArray [3, 4]))) ∧
    ((∃ r, decodePriceScale true (encodeArray [3, 4]) = .ok r ∧
        r.length ≤ countAt (encodeArray [3, 4]) (firstLimb (encodeArray [3, 4]))) ↔
      (64 ≤ (encodeArray [3, 4]).length → ArrayFits (encodeArray [3, 4]))) ∧
    ((∃ r, decodeGetPoolTokens true (encodeArray [3, 4]) = .ok r ∧ ∀ l, r = some l →
        l.length ≤ word (encodeArray [3, 4]) (word (encodeArray [3, 4]) 32)) ↔
      (64 ≤ (encodeArray [3, 4]).length → GetPoolFits (encodeArray [3, 4]))) :=
  arrayReaders_return_iff (encodeArray [3, 4]) (by decide +kernel)

example : decodeNormalizedWeights true (encodeArray [3, 4]) = .ok [3, 4] := by decide +kernel

/-- An answer of 96 bytes `0xff` stops each of the readers, in either build; and the vault's own
    encoding of a pool of two tokens stops the first, which takes a token for the count. -/
theorem hostile_arrays_panic :
    (∀ checks, ∀ r, decodeBalancerTokens checks (List.replicate 96 0xff) ≠ .ok r) ∧
    (∀ checks, ∀ r, decodeNormalizedWeights checks (List.replicate 96 0xff) ≠ .ok r) ∧
    (∀ checks, ∀ r, decodeScalingFactors checks (List.replicate 96 0xff) ≠ .ok r) ∧
    (∀ checks, ∀ r, decodePriceScale checks (List.replicate 96 0xff) ≠ .ok r) ∧
    (∀ checks, ∀ r, decodeGetPoolTokens checks (List.replicate 96 0xff) ≠ .ok r) ∧
    ∀ checks, ∀ r, decodeBalancerTokens checks
      (encodePoolTokens [0xba100000625a3754423978a60c9317c58a424e3d,
        0xc02aaa39b223fe8d0a0e5c4f27ead9083c756cc2] [10 ^ 18, 10 ^ 18] 1) ≠ .ok r := by
  have hstops {α : Type} {f : Bool → Except Panic α} (e₁ e₂ : Panic) (h₁ : f true = .error e₁)
      (h₂ : f false = .error e₂) : ∀ checks, ∀ r, f checks ≠ .ok r := by
    rintro (- | -) r hr
    · rw [h₂] at hr
      cases hr
    · rw [h₁] at hr
      cases hr
  refine ⟨hstops .overflow .capacity ?_ ?_, hstops .overflow .slice ?_ ?_,
    hstops .overflow .slice ?_ ?_, hstops .overflow .slice ?_ ?_,
    hstops .conversion .conversion ?_ ?_, hstops .capacity .capacity ?_ ?_⟩ <;> decide +kernel

end MevScout.Pool.Factory
