import MevScout.Common.Bytes

/-!
# ABI codecs

The contract ABI lays the components of a tuple out as heads and tails: a static component stands in
the head itself, a dynamic one in the tails, and the head holds its offset from the start of the
tuple. A codec carries the encoder of a type, its decoder and the proof that the decoder finds the
value wherever the encoding stands in the data. Codecs of tuples and arrays are built from those of
their components, with the canonical name of the type.

Results:
* `wordAt_of_at`: the word at a place of an encoding;
* `Codec.decodeField_of_at`: a component is read back from its head and tail;
* `Codec.decode_encode`: what stands alone is decoded.
-/

namespace MevScout.Abi

/-! ## Words in the data -/

/-- The word that starts at a byte. -/
def wordAt (data : List UInt8) (pos : ℕ) : Option ℕ :=
  if pos + 32 ≤ data.length then some (beVal (slice data pos (pos + 32))) else none

/-- The words `xs` stand at word `i` of `ws`. -/
def At (ws : List ℕ) (i : ℕ) (xs : List ℕ) : Prop :=
  ∃ pre post, pre.length = i ∧ ws = pre ++ xs ++ post

variable {ws xs ys : List ℕ} {i : ℕ}

theorem At.self (ws : List ℕ) : At ws 0 ws :=
  ⟨[], [], rfl, by rw [List.nil_append, List.append_nil]⟩

theorem At.left (h : At ws i (xs ++ ys)) : At ws i xs := by
  obtain ⟨pre, post, hpre, rfl⟩ := h
  exact ⟨pre, ys ++ post, hpre, by simp⟩

theorem At.right (h : At ws i (xs ++ ys)) : At ws (i + xs.length) ys := by
  obtain ⟨pre, post, hpre, rfl⟩ := h
  exact ⟨pre ++ xs, post, by rw [List.length_append, hpre], by simp⟩

theorem At.length_le (h : At ws i xs) : i + xs.length ≤ ws.length := by
  obtain ⟨pre, post, hpre, rfl⟩ := h
  simp only [List.length_append]
  omega

/-- The word at a place of an encoding. -/
theorem wordAt_of_at {x : ℕ} (h : At ws i (x :: xs)) (hx : x < 2 ^ 256) :
    wordAt (encodeWords ws) (32 * i) = some x := by
  have hle := h.length_le
  rw [List.length_cons] at hle
  unfold wordAt
  rw [if_pos (by rw [length_encodeWords]; omega), beVal_slice_encodeWords (by omega)]
  obtain ⟨pre, post, rfl, rfl⟩ := h
  simpa using hx

/-! ## Heads and tails -/

/-- The encoding of a component, and whether it stands in the tails. -/
structure Part where
  dynamic : Bool
  words : List ℕ

/-- The words of a component in the head. -/
def Part.headSize (p : Part) : ℕ := if p.dynamic then 1 else p.words.length

/-- The words of the head. -/
def headSizes (ps : List Part) : ℕ := (ps.map Part.headSize).sum

/-- The head, where the tails start at word `off`. -/
def heads : ℕ → List Part → List ℕ
  | _, [] => []
  | off, p :: ps =>
    if p.dynamic then 32 * off :: heads (off + p.words.length) ps else p.words ++ heads off ps

def tails : List Part → List ℕ
  | [] => []
  | p :: ps => if p.dynamic then p.words ++ tails ps else tails ps

/-- The encoding of a tuple. -/
def layout (ps : List Part) : List ℕ := heads (headSizes ps) ps ++ tails ps

theorem length_heads (off : ℕ) (ps : List Part) : (heads off ps).length = headSizes ps := by
  induction ps generalizing off with
  | nil => rfl
  | cons p ps ih =>
    unfold heads
    rw [headSizes, List.map_cons, List.sum_cons, Part.headSize]
    split_ifs
    · rw [List.length_cons, ih, headSizes, Nat.add_comm]
    · rw [List.length_append, ih, headSizes]

/-- Static components stand one after the other. -/
theorem layout_of_static {ps : List Part} (h : ∀ p ∈ ps, p.dynamic = false) :
    layout ps = ps.flatMap Part.words := by
  unfold layout
  generalize headSizes ps = off
  induction ps with
  | nil => rfl
  | cons p ps ih =>
    have hp : ¬p.dynamic = true := by
      rw [h p (List.mem_cons_self ..)]
      exact Bool.false_ne_true
    rw [heads, if_neg hp, tails, if_neg hp, List.append_assoc,
      ih fun q hq => h q (List.mem_cons_of_mem _ hq), List.flatMap_cons]

/-- Dynamic components have one word each in the head, and follow each other in the tails. -/
theorem layout_of_dynamic {ps : List Part} (h : ∀ p ∈ ps, p.dynamic = true) :
    layout ps = heads ps.length ps ++ ps.flatMap Part.words := by
  have hsizes : headSizes ps = ps.length := by
    have hone : ps.map Part.headSize = ps.map fun _ => 1 :=
      List.map_congr_left fun p hp => if_pos (h p hp)
    rw [headSizes, hone]
    simp
  have htails : tails ps = ps.flatMap Part.words := by
    clear hsizes
    induction ps with
    | nil => rfl
    | cons p ps ih =>
      rw [tails, if_pos (h p (List.mem_cons_self ..)),
        ih fun q hq => h q (List.mem_cons_of_mem _ hq), List.flatMap_cons]
  rw [layout, hsizes, htails]

/-- The head of a dynamic component holds its offset. -/
theorem getElem?_heads {ps : List Part} (h : ∀ p ∈ ps, p.dynamic = true) (off : ℕ) {i : ℕ}
    (hi : i < ps.length) :
    (heads off ps)[i]? = some (32 * (off + ((ps.take i).flatMap Part.words).length)) := by
  induction ps generalizing off i with
  | nil => cases hi
  | cons p ps ih =>
    have hp := h p (List.mem_cons_self ..)
    rw [heads, if_pos hp]
    cases i with
    | zero => rfl
    | succ i =>
      rw [List.getElem?_cons_succ, ih (fun q hq => h q (List.mem_cons_of_mem _ hq)) _
        (by simpa using hi), List.take_succ_cons, List.flatMap_cons, List.length_append,
        Nat.add_assoc]

/-- The heads stand at word `head`, and the tails at the offsets that the heads name, counted from
    word `base`. -/
def PartsAt (ws : List ℕ) (base head off : ℕ) (ps : List Part) : Prop :=
  At ws head (heads off ps) ∧ At ws (base + off) (tails ps)

theorem partsAt_of_layout {ps : List Part} (h : At ws i (layout ps)) :
    PartsAt ws i i (headSizes ps) ps :=
  ⟨h.left, by simpa only [length_heads] using h.right⟩

/-! ## Codecs -/

/-- A type of the ABI: its name, its encoding, and a decoder that finds the encoding in the data. -/
structure Codec (α : Type) where
  name : String
  dynamic : Bool
  /-- The words of a static value. -/
  size : ℕ
  Valid : α → Prop
  encode : α → List ℕ
  decode : List UInt8 → ℕ → Option α
  length_encode : ∀ {x}, dynamic = false → Valid x → (encode x).length = size
  decode_of_at : ∀ {ws i x}, 32 * ws.length < 2 ^ 256 → Valid x → At ws i (encode x) →
    decode (encodeWords ws) (32 * i) = some x

namespace Codec

variable {α β : Type} (c : Codec α)

/-- What stands alone is decoded. -/
theorem decode_encode {x : α} (hx : c.Valid x) (hlen : 32 * (c.encode x).length < 2 ^ 256) :
    c.decode (encodeWords (c.encode x)) 0 = some x :=
  c.decode_of_at (i := 0) hlen hx (.self _)

/-- `uintN`. -/
def uint (bits : ℕ) (hbits : bits ≤ 256) : Codec ℕ where
  name := "uint" ++ toString bits
  dynamic := false
  size := 1
  Valid x := x < 2 ^ bits
  encode x := [x]
  decode data pos := (wordAt data pos).bind fun w => if w < 2 ^ bits then some w else none
  length_encode _ _ := rfl
  decode_of_at := by
    intro ws i x _ hx h
    have hle : 2 ^ bits ≤ 2 ^ 256 := Nat.pow_le_pow_right (by decide) hbits
    rw [wordAt_of_at h (lt_of_lt_of_le hx hle), Option.bind_some, if_pos hx]

/-- The codec of a type whose values are written as those of another one. -/
def map (toFun : α → β) (inv : β → α) (hinv : ∀ y, toFun (inv y) = y) : Codec β where
  name := c.name
  dynamic := c.dynamic
  size := c.size
  Valid y := c.Valid (inv y)
  encode y := c.encode (inv y)
  decode data pos := (c.decode data pos).map toFun
  length_encode := c.length_encode
  decode_of_at := by
    intro ws i y hws hy h
    rw [c.decode_of_at hws hy h, Option.map_some, hinv]

/-- `address`. -/
def address : Codec (BitVec 160) :=
  { (uint 160 (by decide)).map (BitVec.ofNat 160) BitVec.toNat fun a => by simp with
    name := "address" }

/-- `bool`. -/
def bool : Codec Bool where
  name := "bool"
  dynamic := false
  size := 1
  Valid _ := True
  encode b := [b.toNat]
  decode data pos := (wordAt data pos).bind fun w =>
    if w = 0 then some false else if w = 1 then some true else none
  length_encode _ _ := rfl
  decode_of_at := by
    intro ws i b _ _ h
    rw [wordAt_of_at h (lt_of_lt_of_le b.toNat_lt (by norm_num)), Option.bind_some]
    cases b <;> rfl

/-- `bytes`. -/
def bytes : Codec (List UInt8) where
  name := "bytes"
  dynamic := true
  size := 1
  Valid bs := bs.length < 2 ^ 256
  encode bs := bs.length :: packed bs
  decode data pos := (wordAt data pos).bind fun n =>
    if pos + 32 + n ≤ data.length then some (slice data (pos + 32) (pos + 32 + n)) else none
  length_encode h := nomatch h
  decode_of_at := by
    intro ws i bs _ hbs h
    rw [wordAt_of_at h hbs, Option.bind_some]
    have hbody : At ws (i + 1) (packed bs) :=
      (show At ws i ([bs.length] ++ packed bs) from h).right
    obtain ⟨pre, post, hpre, rfl⟩ := hbody
    have hlen : (encodeWords pre).length = 32 * i + 32 := by
      rw [length_encodeWords, hpre]
      omega
    rw [encodeWords_append, encodeWords_append, encodeWords_packed, List.append_assoc,
      slice_append_right (by omega), hlen, Nat.sub_self, Nat.add_sub_cancel_left, padded,
      List.append_assoc, slice_append_left le_rfl, if_pos]
    · unfold slice
      rw [List.drop_zero, Nat.sub_zero, List.take_length]
    · simp only [List.length_append, hlen]
      omega

/-! ### Components -/

/-- A value as a component of a tuple. -/
def part (x : α) : Part := ⟨c.dynamic, c.encode x⟩

/-- The words of a component in the head. -/
def headSize : ℕ := if c.dynamic then 1 else c.size

/-- Reads a component whose head starts at byte `head` of a tuple that starts at byte `base`. -/
def decodeField (data : List UInt8) (base head : ℕ) : Option α :=
  if c.dynamic then (wordAt data head).bind fun off => c.decode data (base + off)
  else c.decode data head

/-- A component is read back, and the others follow it. -/
theorem decodeField_of_at {base head off : ℕ} {ps : List Part} {x : α}
    (hws : 32 * ws.length < 2 ^ 256) (hx : c.Valid x)
    (h : PartsAt ws base head off (c.part x :: ps)) :
    c.decodeField (encodeWords ws) (32 * base) (32 * head) = some x ∧
      ∃ off', PartsAt ws base (head + c.headSize) off' ps := by
  obtain ⟨hheads, htails⟩ := h
  unfold heads at hheads
  unfold tails at htails
  unfold decodeField headSize
  by_cases hdyn : c.dynamic = true
  · rw [if_pos (show (c.part x).dynamic = true from hdyn)] at hheads htails
    rw [if_pos hdyn, if_pos hdyn]
    have hle := htails.length_le
    rw [wordAt_of_at hheads (by omega), Option.bind_some, ← Nat.mul_add]
    refine ⟨c.decode_of_at hws hx htails.left, off + (c.part x).words.length, ?_, ?_⟩
    · exact (show At ws head ([32 * off] ++ heads _ ps) from hheads).right
    · rw [← Nat.add_assoc]
      exact htails.right
  · rw [if_neg (show ¬(c.part x).dynamic = true from hdyn)] at hheads htails
    rw [if_neg hdyn, if_neg hdyn]
    refine ⟨c.decode_of_at hws hx hheads.left, off, ?_, htails⟩
    rw [← c.length_encode (by simpa using hdyn) hx]
    exact hheads.right

/-! ### Arrays -/

/-- Reads `n` components one after the other. -/
def decodeElems (data : List UInt8) (base : ℕ) : ℕ → ℕ → Option (List α)
  | 0, _ => some []
  | n + 1, head => do
    let x ← c.decodeField data base head
    let xs ← decodeElems data base n (head + 32 * c.headSize)
    some (x :: xs)

theorem decodeElems_of_at {base head off : ℕ} {xs : List α} (hws : 32 * ws.length < 2 ^ 256)
    (hxs : ∀ x ∈ xs, c.Valid x) (h : PartsAt ws base head off (xs.map c.part)) :
    c.decodeElems (encodeWords ws) (32 * base) xs.length (32 * head) = some xs := by
  induction xs generalizing head off with
  | nil => rfl
  | cons x xs ih =>
    obtain ⟨hx, off', hrest⟩ := c.decodeField_of_at hws (hxs x (List.mem_cons_self ..)) h
    have hih := ih (fun y hy => hxs y (List.mem_cons_of_mem _ hy)) hrest
    rw [Nat.mul_add] at hih
    rw [List.length_cons, decodeElems, hx, Option.bind_eq_bind, Option.bind_some, hih]
    rfl

/-- `T[]`. -/
def array : Codec (List α) where
  name := c.name ++ "[]"
  dynamic := true
  size := 1
  Valid xs := xs.length < 2 ^ 256 ∧ ∀ x ∈ xs, c.Valid x
  encode xs := xs.length :: layout (xs.map c.part)
  decode data pos :=
    (wordAt data pos).bind fun n => c.decodeElems data (pos + 32) n (pos + 32)
  length_encode h := nomatch h
  decode_of_at := by
    intro ws i xs hws hxs h
    rw [wordAt_of_at h hxs.1, Option.bind_some]
    have hlayout : At ws (i + 1) (layout (xs.map c.part)) :=
      (show At ws i ([xs.length] ++ layout (xs.map c.part)) from h).right
    exact c.decodeElems_of_at hws hxs.2 (partsAt_of_layout hlayout)

end Codec

/-! ## Tuples -/

/-- The components of a tuple. -/
structure Fields (α : Type) where
  names : List String
  dynamic : Bool
  /-- The words of a static tuple. -/
  size : ℕ
  Valid : α → Prop
  parts : α → List Part
  decode : List UInt8 → ℕ → ℕ → Option α
  length_layout : ∀ {x}, dynamic = false → Valid x → (layout (parts x)).length = size
  decode_of_at : ∀ {ws base head off x}, 32 * ws.length < 2 ^ 256 → Valid x →
    PartsAt ws base head off (parts x) →
    decode (encodeWords ws) (32 * base) (32 * head) = some x

namespace Fields

variable {α β : Type}

/-- No components. -/
def nil : Fields Unit where
  names := []
  dynamic := false
  size := 0
  Valid _ := True
  parts _ := []
  decode _ _ _ := some ()
  length_layout _ _ := rfl
  decode_of_at _ _ _ := rfl

theorem length_layout_cons {p : Part} {ps : List Part} (h : p.dynamic = false) :
    (layout (p :: ps)).length = p.words.length + (layout ps).length := by
  unfold layout
  rw [List.length_append, List.length_append, length_heads, length_heads, tails, h,
    if_neg Bool.false_ne_true, headSizes, headSizes, List.map_cons, List.sum_cons, Part.headSize, h,
    if_neg Bool.false_ne_true, Nat.add_assoc]

/-- One component more, in front. -/
def cons (c : Codec α) (f : Fields β) : Fields (α × β) where
  names := c.name :: f.names
  dynamic := c.dynamic || f.dynamic
  size := c.size + f.size
  Valid x := c.Valid x.1 ∧ f.Valid x.2
  parts x := c.part x.1 :: f.parts x.2
  decode data base head := do
    let x ← c.decodeField data base head
    let y ← f.decode data base (head + 32 * c.headSize)
    some (x, y)
  length_layout := by
    intro x hdyn hx
    obtain ⟨hc, hf⟩ := Bool.or_eq_false_iff.mp hdyn
    rw [length_layout_cons hc, f.length_layout hf hx.2]
    exact congrArg (· + f.size) (c.length_encode hc hx.1)
  decode_of_at := by
    intro ws base head off x hws hx h
    obtain ⟨hfst, off', hrest⟩ := c.decodeField_of_at hws hx.1 h
    have hsnd := f.decode_of_at hws hx.2 hrest
    rw [Nat.mul_add] at hsnd
    rw [hfst, Option.bind_eq_bind, Option.bind_some, hsnd]
    rfl

/-- The tuple of some components. -/
def tuple (f : Fields α) : Codec α where
  name := "(" ++ ",".intercalate f.names ++ ")"
  dynamic := f.dynamic
  size := f.size
  Valid := f.Valid
  encode x := layout (f.parts x)
  decode data pos := f.decode data pos pos
  length_encode := f.length_layout
  decode_of_at hws hx h := f.decode_of_at hws hx (partsAt_of_layout h)

end Fields

end MevScout.Abi
