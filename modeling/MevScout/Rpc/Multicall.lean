import MevScout.Chain.Events
import MevScout.Common.Map

/-!
# Decimals by Multicall3

Models of `core/src/rpc/multicall.rs`: the decimals of many tokens are asked for in batches
that run at the same time. The answers are collected in the order in which the batches
complete and are then zipped with the batches. The node with the ABI of its answers is a
parameter.

Results:
* `resolve_own_iff`: when every token gets the answer of its own subcall;
* `decimals_swapped`: two batches that complete in the other order.
-/

namespace MevScout.Rpc

/-! ## Batches -/

/-- Model of `SubCall` (`multicall.rs`, lines 50–53). -/
structure SubCall where
  target : Address
  data : List UInt8
  deriving DecidableEq

/-- `DECIMALS_SELECTOR`. -/
def decimalsSelector : List UInt8 := [0x31, 0x3c, 0xe5, 0x67]

/-- `TOKENS_PER_BATCH`. -/
def tokensPerBatch : ℕ := 100

/-- The slots of an answer. -/
abbrev Slots := List (Option (List UInt8))

/-- `slice::chunks(n)`. -/
def chunks {α : Type*} (n : ℕ) (l : List α) : List (List α) :=
  (List.range ((l.length + n - 1) / n)).map fun k => (l.drop (k * n)).take n

/-- The groups of tokens of the batches. -/
def batches (tokens : List Address) : List (List Address) := chunks tokensPerBatch tokens

/-- The subcalls of a batch. -/
def batchCalls (group : List Address) : List SubCall :=
  group.map fun t => { target := t, data := decimalsSelector }

/-- Model of `decode_decimals_word` (`multicall.rs`, lines 275–287). -/
def decodeDecimalsWord (b : List UInt8) : Option ℕ :=
  if b.length < 32 then none
  else if (b.take 31).all (· = 0) then b[31]?.map UInt8.toNat
  else none

/-- The entries that the answer of a batch gives to a group of tokens (`multicall.rs`,
    lines 340–350). -/
def batchWrites (group : List Address) (slot : Option Slots) : List (Address × ℕ) :=
  match slot with
  | none => []
  | some slots =>
    (group.zip slots).filterMap fun p => (p.2.bind decodeDecimalsWord).map (p.1, ·)

/-- The loop that zips the groups with the answers (`multicall.rs`, lines 338–351). -/
def collect (groups : List (List Address)) (results : List (Option Slots)) :
    Std.ExtTreeMap Address ℕ compare :=
  ((groups.zip results).flatMap fun p => batchWrites p.1 p.2).foldl
    (fun out w => out.insert w.1 w.2) ∅

/-! ## Completion -/

/-- An order in which `buffer_unordered` yields `n` futures of which `concurrency` run at a
    time: a future starts when all but so many of the earlier ones have been yielded. -/
structure Completion (concurrency n : ℕ) where
  order : List ℕ
  perm : order.Perm (List.range n)
  window : ∀ p i, order[p]? = some i → i < p + max concurrency 1

/-- Model of `resolve_token_decimals` (`multicall.rs`, lines 289–353). `runBatch i` is
    `run_batch` as it runs for the batch with the index `i`. -/
def resolveTokenDecimals (runBatch : ℕ → List SubCall → Option Slots) {concurrency : ℕ}
    (tokens : List Address) (c : Completion concurrency (batches tokens).length) :
    Std.ExtTreeMap Address ℕ compare :=
  if tokens = [] then ∅
  else
    let calls := (batches tokens).map batchCalls
    let results := c.order.map fun i => runBatch i (calls.getD i [])
    collect (batches tokens) results

/-- The decimals that the tokens' own subcalls return. -/
def ownDecimals (runBatch : ℕ → List SubCall → Option Slots) (tokens : List Address) :
    Std.ExtTreeMap Address ℕ compare :=
  collect (batches tokens) ((batches tokens).mapIdx fun i group => runBatch i (batchCalls group))

/-! ## Orders -/

/-- An order that is not the order of submission has a last future that is yielded late. -/
theorem eq_range_or_late {n : ℕ} {order : List ℕ} (h : order.Perm (List.range n)) :
    order = List.range n ∨ ∃ k j p : ℕ, j < k ∧ p < k ∧ order[k]? = some j ∧ order[p]? = some k ∧
      k < n := by
  induction n generalizing order with
  | zero => exact Or.inl (by simpa using h)
  | succ n ih =>
    have hlen : order.length = n + 1 := by simpa using h.length_eq
    obtain rfl | ⟨init, last, rfl⟩ := List.eq_nil_or_concat' order
    · simp at hlen
    · have hinit : init.length = n := by simpa using hlen
      by_cases hlast : last = n
      · subst hlast
        rw [List.range_succ] at h ⊢
        rcases ih ((List.perm_append_right_iff _).mp h) with hr | ⟨k, j, p, hjk, hpk, hk, hp, hn⟩
        · exact Or.inl (by rw [hr])
        · refine Or.inr ⟨k, j, p, hjk, hpk, ?_, ?_, by omega⟩
          · rw [List.getElem?_append_left (by omega)]
            exact hk
          · rw [List.getElem?_append_left (by omega)]
            exact hp
      · have hlt : last < n + 1 := List.mem_range.mp (h.mem_iff.mp (by simp))
        have hmem : n ∈ init := by
          have := h.mem_iff.mpr (List.mem_range.mpr (Nat.lt_succ_self n))
          rcases List.mem_append.mp this with hm | hm
          · exact hm
          · exact absurd (List.mem_singleton.mp hm).symm hlast
        obtain ⟨p, hp, hpn⟩ := List.getElem_of_mem hmem
        refine Or.inr ⟨n, last, p, by omega, by omega, ?_, ?_, by omega⟩
        · rw [← hinit]
          simp
        · rw [List.getElem?_append_left hp, List.getElem?_eq_getElem hp, hpn]

/-- One future at a time completes in the order of submission. -/
theorem Completion.order_eq_range {concurrency n : ℕ} (c : Completion concurrency n)
    (h : concurrency ≤ 1) : c.order = List.range n := by
  rcases eq_range_or_late c.perm with hr | ⟨k, j, p, -, hpk, -, hp, -⟩
  · exact hr
  · have := c.window p k hp
    omega

/-! ## Entries -/

theorem length_batches (tokens : List Address) :
    (batches tokens).length = (tokens.length + tokensPerBatch - 1) / tokensPerBatch := by
  simp [batches, chunks]

/-- A batch has a token. -/
theorem getElem?_batches {tokens : List Address} {k : ℕ} (hk : k < (batches tokens).length) :
    ∃ t group, (batches tokens)[k]? = some (t :: group) := by
  have hpos : 0 < ((batches tokens)[k]).length := by
    rw [length_batches] at hk
    unfold batches chunks tokensPerBatch at *
    rw [List.getElem_map, List.getElem_range, List.length_take, List.length_drop]
    omega
  obtain ⟨t, group, hcons⟩ := List.exists_cons_of_length_pos hpos
  exact ⟨t, group, by rw [List.getElem?_eq_getElem hk, hcons]⟩

/-- A token has the last decimals that are written for it. -/
theorem getElem?_collect (groups : List (List Address)) (results : List (Option Slots))
    (t : Address) :
    (collect groups results)[t]? = ((((groups.zip results).flatMap fun p =>
      batchWrites p.1 p.2).filter (·.1 = t)).getLast?.map (·.2)) := by
  have h := Map.getElem?_insertAll (fun w : Address × ℕ => some w.1) (·.2)
    (∅ : Std.ExtTreeMap Address ℕ compare)
    ((groups.zip results).flatMap fun p => batchWrites p.1 p.2) t
  simpa [collect, Map.insertAll] using h

/-- The last batch with an answer decides about the token that it writes. -/
theorem getElem?_collect_last {groups : List (List Address)} {results : List (Option Slots)}
    {k d : ℕ} {t : Address} {group : List Address} {slot : Option Slots}
    (hgroup : groups[k]? = some group) (hslot : results[k]? = some slot)
    (hk : batchWrites group slot = [(t, d)])
    (hlast : ∀ i, k < i → ∀ s, results[i]? = some s → s = none) :
    (collect groups results)[t]? = some d := by
  have hzip : (groups.zip results)[k]? = some (group, slot) := by
    rw [List.getElem?_zip_eq_some]
    exact ⟨hgroup, hslot⟩
  obtain ⟨hlt, hget⟩ := List.getElem?_eq_some_iff.mp hzip
  have hsplit := List.take_append_drop k (groups.zip results)
  rw [List.drop_eq_getElem_cons hlt, hget] at hsplit
  have htail : ((groups.zip results).drop (k + 1)).flatMap (fun p => batchWrites p.1 p.2) = [] := by
    rw [List.flatMap_eq_nil_iff]
    intro p hp
    obtain ⟨i, hi⟩ := List.getElem?_of_mem hp
    rw [List.getElem?_drop, List.getElem?_zip_eq_some] at hi
    rw [hlast _ (by omega) _ hi.2]
    rfl
  rw [getElem?_collect, ← hsplit, List.flatMap_append, List.flatMap_cons, hk, htail,
    List.filter_append]
  simp

/-- An answer with the number `d` for the first token and nothing for the others. -/
def answer (d : ℕ) : Slots := [some (List.replicate 31 0 ++ [UInt8.ofNat d])]

theorem batchWrites_answer (t : Address) (group : List Address) {d : ℕ} (hd : d < 256) :
    batchWrites (t :: group) (some (answer d)) = [(t, d)] := by
  have hword : decodeDecimalsWord (List.replicate 31 0 ++ [UInt8.ofNat d]) = some d := by
    unfold decodeDecimalsWord
    rw [if_neg (by simp), if_pos (by simp)]
    simp [Nat.mod_eq_of_lt hd]
  unfold batchWrites answer
  generalize List.replicate 31 0 ++ [UInt8.ofNat d] = word at hword
  simp [hword]

/-! ## Main results -/

/-- In the order of submission the answers meet their own groups. -/
theorem resolve_of_order {concurrency : ℕ} {tokens : List Address}
    {c : Completion concurrency (batches tokens).length}
    (h : c.order = List.range (batches tokens).length)
    (runBatch : ℕ → List SubCall → Option Slots) :
    resolveTokenDecimals runBatch tokens c = ownDecimals runBatch tokens := by
  unfold resolveTokenDecimals ownDecimals
  split
  · rename_i hnil
    subst hnil
    rfl
  · dsimp only
    rw [h]
    congr 1
    refine List.ext_getElem ?_ fun i hi hi' => ?_
    · rw [List.length_map, List.length_range, List.length_mapIdx]
    · rw [List.length_mapIdx] at hi'
      simp [hi']

/-- **Main theorem.** Every token has the answer of its own subcall, whatever the node answers,
    if and only if the batches complete in the order of submission. -/
theorem resolve_own_iff {concurrency : ℕ} (tokens : List Address)
    (c : Completion concurrency (batches tokens).length) :
    (∀ runBatch, resolveTokenDecimals runBatch tokens c = ownDecimals runBatch tokens) ↔
      c.order = List.range (batches tokens).length := by
  constructor
  · intro hall
    rcases eq_range_or_late c.perm with hr | ⟨k, j, p, hjk, hpk, hk, hp, hkn⟩
    · exact hr
    exfalso
    -- the batch `k` answers 2 and the batch `j`, which takes its place, answers 1
    let runBatch : ℕ → List SubCall → Option Slots := fun i _ =>
      if i = k then some (answer 2) else if i = j then some (answer 1) else none
    obtain ⟨t, group, hgroup⟩ := getElem?_batches hkn
    have hown : (ownDecimals runBatch tokens)[t]? = some 2 := by
      refine getElem?_collect_last hgroup ?_
        (batchWrites_answer (d := 2) t group (by omega)) ?_
      · simp [hgroup, runBatch]
      · intro i hi s hs
        rw [List.getElem?_mapIdx] at hs
        obtain ⟨_, -, rfl⟩ := Option.map_eq_some_iff.mp hs
        show (if i = k then _ else if i = j then _ else none) = none
        rw [if_neg (by omega), if_neg (by omega)]
    have hresolve : (resolveTokenDecimals runBatch tokens c)[t]? = some 1 := by
      unfold resolveTokenDecimals
      rw [if_neg (by rintro rfl; simp [batches, chunks, tokensPerBatch] at hkn)]
      refine getElem?_collect_last hgroup ?_
        (batchWrites_answer (d := 1) t group (by omega)) ?_
      · have : j ≠ k := by omega
        simp [hk, runBatch, this]
      · intro i hi s hs
        rw [List.getElem?_map] at hs
        obtain ⟨m, hm, rfl⟩ := Option.map_eq_some_iff.mp hs
        have hnodup : c.order.Nodup := c.perm.nodup_iff.mpr List.nodup_range
        have hne : ∀ {a b : ℕ} {x : ℕ}, c.order[a]? = some x → c.order[b]? = some x → a = b := by
          intro a b x ha hb
          obtain ⟨hlt, -⟩ := List.getElem?_eq_some_iff.mp ha
          exact (List.getElem?_inj hlt hnodup).mp (ha.trans hb.symm)
        show (if m = k then _ else if m = j then _ else none) = none
        rw [if_neg ?_, if_neg ?_]
        · rintro rfl
          have := hne hm hk
          omega
        · rintro rfl
          have := hne hm hp
          omega
    rw [hall runBatch, hown] at hresolve
    simp at hresolve
  · exact resolve_of_order

/-- Two batches that complete in the other order: their tokens have each other's decimals. -/
theorem decimals_swapped :
    let tokens : List Address := (List.range 101).map fun i => BitVec.ofNat 160 (i + 1)
    let runBatch : ℕ → List SubCall → Option Slots := fun _ calls =>
      if calls.length = tokensPerBatch then some (answer 18) else some (answer 6)
    let c : Completion 4 (batches tokens).length :=
      { order := [1, 0], perm := by decide, window := by
          intro p i h
          have : i < 2 := by
            have := List.mem_of_getElem? h
            simp at this
            omega
          omega }
    (resolveTokenDecimals runBatch tokens c)[(1 : Address)]? = some 6 ∧
      (ownDecimals runBatch tokens)[(1 : Address)]? = some 18 ∧
      (resolveTokenDecimals runBatch tokens c)[(101 : Address)]? = some 18 ∧
      (ownDecimals runBatch tokens)[(101 : Address)]? = some 6 := by
  decide +kernel

end MevScout.Rpc
