import MevScout.Pool.Manager
import MevScout.Pool.Quote

/-!
# Normalizing an amount to the native token

Models of `normalize_to_native` and `normalize_to_native_multi_hop`
(`core/src/pool/state/manager.rs`), which call each other without a bound or a set of visited
tokens: `normalizeToNative` takes the number of calls it may make.

A call makes at most one further call, since the result of the first intermediate token that
qualifies is returned whatever it is. So the calls form a chain of hops; it is two hops long
where the native pool of the first intermediate token quotes, and it need not end where native
pools cannot quote.

Results:
* `normalizeToNative_succ`: a call returns its own result, or that of its hop;
* `calls_of_runsOut`, `normalizeToNative_of_runsOut`: where the hops run out;
* `twoHops_iff`: when the recursion ends, revisits no token and takes two hops at most;
* `empty_native_pools_loop`: two tokens that are normalized through each other for ever.
-/

namespace MevScout.Pool

variable {Q : FloatQuotes} {pm : PoolManager} {c c' : Address × ℕ} {fuel : ℕ} {v : ℕ}
  {r : Option ℕ} {seen : List Address}

/-! ## The two functions -/

/-- Model of `find_pair_pool` (`manager.rs`, lines 357–368). -/
def findPairPool (pm : PoolManager) (tokenA tokenB : Address) : Option Address := do
  let poolsA ← pm.tokenIndex[tokenA]?
  let poolsB ← pm.tokenIndex[tokenB]?
  let (smaller, larger) :=
    if poolsA.length < poolsB.length then (poolsA, poolsB) else (poolsB, poolsA)
  smaller.find? (· ∈ larger)

/-- The direct quote of `normalize_to_native` (`manager.rs`, lines 738–745). -/
def directQuote (Q : FloatQuotes) (pm : PoolManager) (native token : Address) (amount : ℕ) :
    Option ℕ := do
  let poolAddr ← findPairPool pm token native
  let pool ← pm.pools[poolAddr]?
  quoteExactIn Q pool token native amount

/-- What a turn of the loop of `normalize_to_native_multi_hop` does: `continue`, `return None`, or
    a call for an intermediate token and the amount of it. -/
inductive HopTurn where
  | skip
  | stop
  | hop (intermediate : Address) (midAmount : ℕ)
  deriving DecidableEq

/-- The body of the loop of `normalize_to_native_multi_hop` (`manager.rs`, lines 765–787). -/
def hopTurn (Q : FloatQuotes) (pm : PoolManager) (token : Address) (amount : ℕ)
    (native poolAddr : Address) : HopTurn :=
  match pm.pools[poolAddr]? with
  | none => .stop
  | some pool =>
    let intermediate := if pool.info.token0 = token then pool.info.token1 else pool.info.token0
    if intermediate = 0 ∨ intermediate = native then .skip
    else if findPairPool pm intermediate native = none then .skip
    else
      let hopWith (midAmount : ℕ) : HopTurn :=
        if midAmount = 0 then .skip else .hop intermediate midAmount
      match pool with
      | .uniswapV2 v2 =>
        let (reserveToken, reserveIntermediate) :=
          if v2.info.token0 = token then (v2.reserve0, v2.reserve1) else (v2.reserve1, v2.reserve0)
        if reserveToken = 0 then .skip
        else hopWith (saturatingMul 128 amount reserveIntermediate / reserveToken)
      | other =>
        match quoteExactIn Q other token intermediate amount with
        | none => .stop
        | some midAmount => hopWith midAmount

/-- The loop of `normalize_to_native_multi_hop`, which leaves with the result of `normalize`, a
    call of `normalize_to_native`. -/
def hopLoop (Q : FloatQuotes) (pm : PoolManager) (normalize : Address × ℕ → Option (Option ℕ))
    (token : Address) (amount : ℕ) (native : Address) : List Address → Option (Option ℕ)
  | [] => some none
  | poolAddr :: rest =>
    match hopTurn Q pm token amount native poolAddr with
    | .skip => hopLoop Q pm normalize token amount native rest
    | .stop => some none
    | .hop intermediate midAmount => normalize (intermediate, midAmount)

/-- Model of `normalize_to_native_multi_hop` (`manager.rs`, lines 755–792). -/
def normalizeToNativeMultiHop (Q : FloatQuotes) (pm : PoolManager)
    (normalize : Address × ℕ → Option (Option ℕ)) (token : Address) (amount : ℕ)
    (native : Address) : Option (Option ℕ) :=
  match pm.tokenIndex[token]? with
  | none => some none
  | some tokenPools => hopLoop Q pm normalize token amount native (tokenPools.take 10)

/-- Model of `normalize_to_native` (`manager.rs`, lines 732–750), for a token and an amount, with
    at most `fuel` nested calls; `none` where they are not enough. -/
def normalizeToNative (Q : FloatQuotes) (pm : PoolManager) : ℕ → Address × ℕ → Option (Option ℕ)
  | 0, _ => none
  | fuel + 1, (token, amount) =>
    match pm.wrappedNative with
    | none => some none
    | some native =>
      if token = native then some (some amount)
      else
        match directQuote Q pm native token amount with
        | some result => some (some result)
        | none =>
          normalizeToNativeMultiHop Q pm (normalizeToNative Q pm fuel) token amount native

/-! ## Hops -/

/-- The call that the loop makes. -/
def firstHop (Q : FloatQuotes) (pm : PoolManager) (token : Address) (amount : ℕ)
    (native : Address) : List Address → Option (Address × ℕ)
  | [] => none
  | poolAddr :: rest =>
    match hopTurn Q pm token amount native poolAddr with
    | .skip => firstHop Q pm token amount native rest
    | .stop => none
    | .hop intermediate midAmount => some (intermediate, midAmount)

/-- The call that a call of `normalize_to_native` makes, if it makes one: no direct quote, and an
    intermediate token that qualifies. -/
def hopFrom (Q : FloatQuotes) (pm : PoolManager) (c : Address × ℕ) : Option (Address × ℕ) := do
  let native ← pm.wrappedNative
  if c.1 = native then none
  else
    match directQuote Q pm native c.1 c.2 with
    | some _ => none
    | none => firstHop Q pm c.1 c.2 native ((pm.tokenIndex[c.1]?.getD []).take 10)

/-- The result of a call that makes no further call. -/
def ownResult (Q : FloatQuotes) (pm : PoolManager) (c : Address × ℕ) : Option ℕ := do
  let native ← pm.wrappedNative
  if c.1 = native then some c.2 else directQuote Q pm native c.1 c.2

theorem hopLoop_eq (normalize : Address × ℕ → Option (Option ℕ)) (token : Address) (amount : ℕ)
    (native : Address) (l : List Address) :
    hopLoop Q pm normalize token amount native l =
      match firstHop Q pm token amount native l with
      | some c => normalize c
      | none => some none := by
  induction l with
  | nil => rfl
  | cons poolAddr rest ih =>
    unfold hopLoop firstHop
    cases hopTurn Q pm token amount native poolAddr with
    | skip => exact ih
    | stop => rfl
    | hop intermediate midAmount => rfl

/-- **A call returns its own result, or that of its hop.** -/
theorem normalizeToNative_succ (fuel : ℕ) (c : Address × ℕ) :
    normalizeToNative Q pm (fuel + 1) c =
      match hopFrom Q pm c with
      | some c' => normalizeToNative Q pm fuel c'
      | none => some (ownResult Q pm c) := by
  obtain ⟨token, amount⟩ := c
  rw [normalizeToNative]
  generalize normalizeToNative Q pm fuel = normalize
  unfold hopFrom ownResult
  cases pm.wrappedNative with
  | none => rfl
  | some native =>
    dsimp only [Option.bind_eq_bind, Option.bind_some]
    by_cases htoken : token = native
    · rw [if_pos htoken, if_pos htoken, if_pos htoken]
    · rw [if_neg htoken, if_neg htoken, if_neg htoken]
      cases directQuote Q pm native token amount with
      | some result => rfl
      | none =>
        dsimp only
        unfold normalizeToNativeMultiHop
        cases pm.tokenIndex[token]? with
        | none => rfl
        | some tokenPools => exact hopLoop_eq _ _ _ _ _

/-- The calls of `normalize_to_native`, the first `fuel` of them. -/
def calls (Q : FloatQuotes) (pm : PoolManager) : ℕ → Address × ℕ → List (Address × ℕ)
  | 0, _ => []
  | fuel + 1, c =>
    c :: match hopFrom Q pm c with
      | some c' => calls Q pm fuel c'
      | none => []

@[simp] theorem calls_zero (c : Address × ℕ) : calls Q pm 0 c = [] := rfl

theorem calls_of_hop (h : hopFrom Q pm c = some c') (fuel : ℕ) :
    calls Q pm (fuel + 1) c = c :: calls Q pm fuel c' := by
  rw [calls, h]

theorem calls_of_no_hop (h : hopFrom Q pm c = none) (fuel : ℕ) :
    calls Q pm (fuel + 1) c = [c] := by
  rw [calls, h]

theorem normalizeToNative_of_hop (h : hopFrom Q pm c = some c') (fuel : ℕ) :
    normalizeToNative Q pm (fuel + 1) c = normalizeToNative Q pm fuel c' := by
  rw [normalizeToNative_succ, h]

theorem normalizeToNative_of_no_hop (h : hopFrom Q pm c = none) (fuel : ℕ) :
    normalizeToNative Q pm (fuel + 1) c = some (ownResult Q pm c) := by
  rw [normalizeToNative_succ, h]

/-- More calls than are needed give the same result. -/
theorem normalizeToNative_mono {fuel' : ℕ} (h : normalizeToNative Q pm fuel c = some r)
    (hle : fuel ≤ fuel') : normalizeToNative Q pm fuel' c = some r := by
  induction fuel generalizing c fuel' with
  | zero => cases h
  | succ fuel ih =>
    obtain ⟨fuel', rfl⟩ : ∃ k, fuel' = k + 1 := ⟨fuel' - 1, by omega⟩
    cases hhop : hopFrom Q pm c with
    | none =>
      rw [normalizeToNative_of_no_hop hhop] at h ⊢
      exact h
    | some c' =>
      rw [normalizeToNative_of_hop hhop] at h ⊢
      exact ih h (by omega)

theorem normalizeToNative_unique {fuel' : ℕ} {r' : Option ℕ}
    (h : normalizeToNative Q pm fuel c = some r) (h' : normalizeToNative Q pm fuel' c = some r') :
    r = r' := by
  have hmax := normalizeToNative_mono h (le_max_left fuel fuel')
  have hmax' := normalizeToNative_mono h' (le_max_right fuel fuel')
  rw [hmax] at hmax'
  exact Option.some.inj hmax'

/-! ## Where the hops run out -/

/-- The hops from `c` lead to tokens that are not in `seen` and do not come back to one of their
    own, and they run out without a result. -/
inductive RunsOut (Q : FloatQuotes) (pm : PoolManager) : List Address → Address × ℕ → Prop where
  | bare {seen : List Address} {c : Address × ℕ} (hop : hopFrom Q pm c = none)
      (result : ownResult Q pm c = none) : RunsOut Q pm seen c
  | hop {seen : List Address} {c c' : Address × ℕ} (hop : hopFrom Q pm c = some c')
      (fresh : c'.1 ∉ c.1 :: seen) (rest : RunsOut Q pm (c.1 :: seen) c') : RunsOut Q pm seen c

/-- Where the hops run out, the recursion ends without a result. -/
theorem normalizeToNative_of_runsOut (h : RunsOut Q pm seen c) :
    ∃ fuel, normalizeToNative Q pm fuel c = some none := by
  induction h with
  | bare hop result => exact ⟨1, by rw [normalizeToNative_of_no_hop hop, result]⟩
  | hop hop _ _ ih =>
    obtain ⟨fuel, hfuel⟩ := ih
    exact ⟨fuel + 1, by rw [normalizeToNative_of_hop hop, hfuel]⟩

/-- Where the hops run out, no token is called on twice. -/
theorem calls_of_runsOut (h : RunsOut Q pm seen c) (fuel : ℕ) :
    ((calls Q pm fuel c).map Prod.fst).Nodup ∧
      (c.1 ∉ seen → ∀ token ∈ (calls Q pm fuel c).map Prod.fst, token ∉ seen) := by
  induction h generalizing fuel with
  | bare hop result =>
    cases fuel with
    | zero => exact ⟨List.nodup_nil, nofun⟩
    | succ fuel =>
      rw [calls_of_no_hop hop]
      refine ⟨List.nodup_singleton _, fun hc token htoken => ?_⟩
      rw [List.mem_singleton.mp htoken]
      exact hc
  | @hop seen c c' hop fresh _ ih =>
    cases fuel with
    | zero => exact ⟨List.nodup_nil, nofun⟩
    | succ fuel =>
      obtain ⟨hnodup, hseen⟩ := ih fuel
      have hseen := hseen fresh
      rw [calls_of_hop hop, List.map_cons, List.nodup_cons]
      refine ⟨⟨fun hmem => hseen _ hmem (List.mem_cons_self ..), hnodup⟩, fun hc token htoken => ?_⟩
      rcases List.mem_cons.mp htoken with rfl | htoken
      · exact hc
      · exact fun hmem => hseen token htoken (List.mem_cons_of_mem _ hmem)

/-- A recursion that ends without a result and calls on no token twice runs out of hops. -/
theorem runsOut_of_calls (h : normalizeToNative Q pm fuel c = some none)
    (hnodup : ∀ fuel, ((calls Q pm fuel c).map Prod.fst).Nodup)
    (hseen : ∀ fuel, ∀ token ∈ (calls Q pm fuel c).map Prod.fst, token ∉ seen) :
    RunsOut Q pm seen c := by
  induction fuel generalizing c seen with
  | zero => cases h
  | succ fuel ih =>
    cases hhop : hopFrom Q pm c with
    | none =>
      rw [normalizeToNative_of_no_hop hhop] at h
      exact .bare hhop (Option.some.inj h)
    | some c' =>
      rw [normalizeToNative_of_hop hhop] at h
      have hcalls (k : ℕ) : ((calls Q pm k c').map Prod.fst).Nodup ∧
          ∀ token ∈ (calls Q pm k c').map Prod.fst, token ∉ c.1 :: seen := by
        have hk := hnodup (k + 1)
        have hk' := hseen (k + 1)
        rw [calls_of_hop hhop, List.map_cons] at hk hk'
        rw [List.nodup_cons] at hk
        refine ⟨hk.2, fun token htoken hmem => ?_⟩
        rcases List.mem_cons.mp hmem with rfl | hmem
        · exact hk.1 htoken
        · exact hk' token (List.mem_cons_of_mem _ htoken) hmem
      have hfresh : c'.1 ∈ (calls Q pm 1 c').map Prod.fst := List.mem_cons_self ..
      exact .hop hhop ((hcalls 1).2 _ hfresh)
        (ih h (fun k => (hcalls k).1) fun k => (hcalls k).2)

/-! ## Two hops -/

/-- The recursion ends, calls on no token twice, and a result takes two hops at most: one to an
    intermediate token, and one to the native token. -/
structure TwoHops (Q : FloatQuotes) (pm : PoolManager) (c : Address × ℕ) : Prop where
  terminates : ∃ fuel r, normalizeToNative Q pm fuel c = some r
  distinct : ∀ fuel, ((calls Q pm fuel c).map Prod.fst).Nodup
  hops : ∀ fuel v, normalizeToNative Q pm fuel c = some (some v) → (calls Q pm fuel c).length ≤ 2

/-- A hop, if there is one, leads to another token, from which there is no further hop or
    the hops run out. -/
def HopsEnd (Q : FloatQuotes) (pm : PoolManager) (c : Address × ℕ) : Prop :=
  ∀ c', hopFrom Q pm c = some c' →
    c'.1 ≠ c.1 ∧ (hopFrom Q pm c' = none ∨ RunsOut Q pm [c.1] c')

theorem HopsEnd.twoHops (h : HopsEnd Q pm c) : TwoHops Q pm c := by
  cases hhop : hopFrom Q pm c with
  | none =>
    refine ⟨⟨1, _, normalizeToNative_of_no_hop hhop 0⟩, fun fuel => ?_, fun fuel v _ => ?_⟩ <;>
      cases fuel <;> simp [calls_of_no_hop hhop]
  | some c' =>
    obtain ⟨hne, hend | hend⟩ := h c' hhop
    · refine ⟨⟨2, _, (normalizeToNative_of_hop hhop 1).trans (normalizeToNative_of_no_hop hend 0)⟩,
        fun fuel => ?_, fun fuel v _ => ?_⟩
      · rcases fuel with - | - | fuel
        · exact List.nodup_nil
        · simp [calls_of_hop hhop]
        · simp [calls_of_hop hhop, calls_of_no_hop hend, hne.symm]
      · rcases fuel with - | - | fuel
        · simp
        · simp [calls_of_hop hhop]
        · simp [calls_of_hop hhop, calls_of_no_hop hend]
    · have hruns : RunsOut Q pm [] c := .hop hhop (by simpa using hne) hend
      obtain ⟨fuel, hfuel⟩ := normalizeToNative_of_runsOut hruns
      refine ⟨⟨fuel, none, hfuel⟩, fun k => (calls_of_runsOut hruns k).1, fun k v hv => ?_⟩
      cases normalizeToNative_unique hfuel hv

/-- **Main theorem.** The recursion ends, calls on no token twice and gives no result of more than
    two hops, exactly when the hop of the token, if there is one, leads to another token from
    which there is no further hop, or from which the hops run out without a result. -/
theorem twoHops_iff (Q : FloatQuotes) (pm : PoolManager) (c : Address × ℕ) :
    TwoHops Q pm c ↔ HopsEnd Q pm c := by
  refine ⟨fun h c' hhop => ?_, HopsEnd.twoHops⟩
  have hcalls (k : ℕ) : c.1 ∉ (calls Q pm k c').map Prod.fst ∧
      ((calls Q pm k c').map Prod.fst).Nodup := by
    have hk := h.distinct (k + 1)
    rw [calls_of_hop hhop, List.map_cons, List.nodup_cons] at hk
    exact hk
  refine ⟨fun heq => (hcalls 1).1 (by rw [← heq]; exact List.mem_cons_self ..), ?_⟩
  cases hhop' : hopFrom Q pm c' with
  | none => exact .inl rfl
  | some c'' =>
    obtain ⟨fuel, r, hfuel⟩ := h.terminates
    have hlarge := normalizeToNative_mono hfuel (Nat.le_add_right fuel 3)
    have hnone : r = none := by
      cases r with
      | none => rfl
      | some v =>
        have hlength := h.hops (fuel + 3) v hlarge
        rw [calls_of_hop hhop, calls_of_hop hhop'] at hlength
        unfold calls at hlength
        simp at hlength
    subst hnone
    rw [normalizeToNative_of_hop hhop] at hlarge
    refine .inr (runsOut_of_calls hlarge (fun k => (hcalls k).2) fun k token htoken hmem => ?_)
    rw [List.mem_singleton.mp hmem] at htoken
    exact (hcalls k).1 htoken

/-! ## Two tokens that pair with each other -/

def noFloatQuotes : FloatQuotes := ⟨fun _ _ _ _ => none, fun _ _ _ _ => none⟩

/-- A V2 pool with the same reserve on both sides. -/
def evenPool (address token0 token1 : Address) (reserve : ℕ) : PoolState :=
  .uniswapV2
    { info := { address := address, token0 := token0, token1 := token1, fee := 30 }
      reserve0 := reserve
      reserve1 := reserve }

/-- The tokens 2 and 3 pair with each other; their pools with the native token 1 are empty. -/
def loopManager : PoolManager :=
  ((({ wrappedNative := some 1 } : PoolManager).addPool (evenPool 11 2 3 (10 ^ 18))).addPool
    (evenPool 12 2 1 1)).addPool (evenPool 13 3 1 1)

/-- **Two tokens that are normalized through each other for ever.** -/
theorem empty_native_pools_loop (fuel : ℕ) :
    normalizeToNative noFloatQuotes loopManager fuel (2, 10 ^ 18) = none ∧
      normalizeToNative noFloatQuotes loopManager fuel (3, 10 ^ 18) = none := by
  have hop₂ : hopFrom noFloatQuotes loopManager (2, 10 ^ 18) = some (3, 10 ^ 18) := by
    decide +kernel
  have hop₃ : hopFrom noFloatQuotes loopManager (3, 10 ^ 18) = some (2, 10 ^ 18) := by
    decide +kernel
  induction fuel with
  | zero => exact ⟨rfl, rfl⟩
  | succ fuel ih =>
    rw [normalizeToNative_of_hop hop₂, normalizeToNative_of_hop hop₃]
    exact ⟨ih.2, ih.1⟩

theorem loopManager_not_twoHops : ¬TwoHops noFloatQuotes loopManager (2, 10 ^ 18) := by
  intro h
  obtain ⟨fuel, r, hfuel⟩ := h.terminates
  rw [(empty_native_pools_loop fuel).1] at hfuel
  cases hfuel

end MevScout.Pool
