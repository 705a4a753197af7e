import Mathlib.Data.List.Perm.Subperm
import MevScout.Rpc.Health

/-!
# Calls over several providers

Model of `retry_call_impl` (`core/src/rpc/client.rs`, lines 547–734), which tries the providers of
a scope one after the other. What the call finds each time it looks outside (the time, what other
tasks have made of the providers, the order they come in, the answer of one) is given by a
`World`, and what it does is written into a trace.

Results:
* `runPass_result`: what one pass over the candidates does;
* `retryLoop_concludes`: the passes end, and what their result says about the trace;
* `retryCallImpl_spec`: **main theorem**, for a whole call.
-/

namespace MevScout.Rpc

/-! ## Errors -/

/-- `m.contains(pat)`. -/
def containsText (m : List Char) (pat : String) : Bool := m.tails.any (pat.toList.isPrefixOf ·)

/-- `msg.to_ascii_lowercase()`. -/
def lowercase (msg : String) : List Char := msg.toList.map Char.toLower

/-- `is_ascii_hexdigit`. -/
def isHexDigit (c : Char) : Bool :=
  c.isDigit || ('a' ≤ c && c ≤ 'f') || ('A' ≤ c && c ≤ 'F')

/-- Model of `has_http_status` (lines 58–70). No byte of a character outside ASCII is a digit, so
    that characters stand for bytes. -/
def hasHttpStatus (m : List Char) (code : String) : Bool :=
  (List.range (m.length + 1 - code.toList.length)).any fun i =>
    (m.drop i).take code.toList.length = code.toList &&
      (i = 0 || !(m[i - 1]?.any isHexDigit)) &&
      !(m[i + code.toList.length]?.any isHexDigit)

/-- Model of `is_rate_limit_error` (lines 75–83). -/
def isRateLimitError (msg : String) : Bool :=
  ["429", "402"].any (hasHttpStatus (lowercase msg)) ||
    ["too many requests", "rate limit", "throttl", "out of cu"].any (containsText (lowercase msg))

/-- Model of `is_transport_error` (lines 43–54). -/
def isTransportError (msg : String) : Bool :=
  ["connection", "error sending request", "send request", "timed out", "timeout", "reset",
      "refused", "closed"].any (containsText (lowercase msg)) ||
    isRateLimitError msg

/-- Model of `is_state_unavailable_error` (lines 95–107). -/
def isStateUnavailableError (msg : String) : Bool :=
  ["historical state", "state is not available", "state not available", "no state available",
    "missing trie node", "missing trie", "trie node", "cannot fetch a block number in the future",
    "header not found", "no header for hash"].any (containsText (lowercase msg))

/-- `err_msg.contains("execution reverted")`. -/
def isEvmRevert (msg : String) : Bool := containsText msg.toList "execution reverted"

/-- An attempt that fails so is repeated on the same provider (lines 594–596). -/
def isTransient (msg : String) : Bool := !isEvmRevert msg && isTransportError msg

/-! ## What a call sees and does -/

/-- Model of `ProviderScope` (lines 480–489). -/
inductive ProviderScope where
  | any
  | archive
  | stateCapable
  deriving DecidableEq

/-- What a call finds when it looks outside for the `k`th time: the time, what other tasks have made
    of the providers by then, the order in which the providers are sorted, and the answer of a
    provider, or the text of its error. -/
structure World (T : Type) where
  clock : ℕ → ℕ
  others : ℕ → List ProviderState → List ProviderState
  order : ℕ → TryOrder
  answer : ℕ → ℕ → Except String T
  length_others : ∀ k provs, (others k provs).length = provs.length

/-- What a call does: it reads the candidates by `providers_for`; it tries a provider, where the
    errors are those of the attempts that were repeated, and the result is that of the last one; it
    waits for a cooldown. -/
inductive CallEvent (T : Type) where
  | snapshot (sorted : List ℕ)
  | tried (idx : ℕ) (errors : List String) (result : Except String T)
  | wait (duration : ℕ)

/-- The variables of a call, the providers as it knows them, and its trace, newest event first. -/
structure Call (T : Type) where
  looks : ℕ := 0
  providers : List ProviderState
  tried : List ℕ := []
  lastErr : Option String := none
  trace : List (CallEvent T) := []

variable {T : Type} (w : World T)

/-- The locked providers. -/
def Call.look (c : Call T) : Call T :=
  { c with looks := c.looks + 1, providers := w.others c.looks c.providers }

/-- Writes to the trace. -/
def Call.log (c : Call T) (e : CallEvent T) : Call T := { c with trace := e :: c.trace }

/-! ## Candidates -/

/-- The available providers of a kind, in the order they are tried in (lines 348–365, 401–423 and
    432–449). -/
def sortedBy (kind : ProviderState → Bool) (c : Call T) : List ℕ × Call T :=
  let provs := w.others c.looks c.providers
  let keep (p : ProviderState) : Bool := p.isAvailable (w.clock c.looks) && kind p
  ((w.order c.looks).toFun (indicesWhere keep provs), c.look w)

/-- Model of `providers_for` (lines 518–545). -/
def providersFor (scope : ProviderScope) (fallbackWhenEmpty : Bool) (c : Call T) :
    List ℕ × Call T :=
  match scope with
  | .stateCapable =>
    let state := sortedBy w (·.stateCapable) c
    if state.1 = [] ∧ fallbackWhenEmpty then sortedBy w (fun _ => true) state.2 else state
  | .archive =>
    let arch := sortedBy w (·.archive) c
    if arch.1 = [] ∧ fallbackWhenEmpty then sortedBy w (fun _ => true) arch.2 else arch
  | .any => sortedBy w (fun _ => true) c

/-- Model of `shortest_archive_cooldown_wait` (lines 456–473). -/
def shortestArchiveCooldownWait (now : ℕ) (provs : List ProviderState) : Option ℕ :=
  let archives := provs.filter fun p => p.archive && p.isAlive
  if archives = [] ∨ archives.any (·.isAvailable now) then none
  else
    let left := archives.filterMap fun p => p.cooldownUntil.map (· - now)
    some (min (left.min?.getD 0) (2 * nanosPerSec))

/-! ## Attempts -/

/-- The attempts on a provider (lines 582–610), where `retries` may still follow and `errors` are
    those so far; with the number of looks. -/
def attemptLoop (idx : ℕ) : ℕ → List String → ℕ → Except String T × List String × ℕ
  | retries, errors, looks =>
    match w.answer looks idx, retries with
    | .ok val, _ => (.ok val, errors, looks + 1)
    | .error msg, 0 => (.error msg, errors, looks + 1)
    | .error msg, retries + 1 =>
      if isTransient msg then attemptLoop idx retries (errors ++ [msg]) (looks + 1)
      else (.error msg, errors, looks + 1)

/-- What a provider is told about its last attempt (lines 612–675). -/
def settleAttempt (now : ℕ) (result : Except String T) (p : ProviderState) : ProviderState :=
  match result with
  | .ok _ => p.recordSuccess
  | .error msg =>
    let stateUnavailable := !isEvmRevert msg && isStateUnavailableError msg
    let rateLimited := !isEvmRevert msg && !stateUnavailable && isRateLimitError msg
    if isEvmRevert msg then p
    else if rateLimited then p.recordRateLimited now
    else if stateUnavailable then p.markStateUnavailable
    else p.recordFailure now

/-- The attempts on the provider `idx`, and what becomes of them (lines 576–676). -/
def tryProvider (idx : ℕ) (c : Call T) : Except String T × Call T :=
  let r := attemptLoop w idx 2 [] c.looks
  (r.1,
    { looks := r.2.2 + 1
      providers := (w.others r.2.2 c.providers).modify idx (settleAttempt (w.clock r.2.2) r.1)
      tried := idx :: c.tried
      lastErr := match r.1 with | .ok _ => c.lastErr | .error msg => some msg
      trace := .tried idx r.2.1 r.1 :: c.trace })

/-- One pass over the candidates (lines 564–677), with what it returns, if an attempt succeeds, and
    whether it tried one; `len` is `sorted.len()`. -/
def runPass (len : ℕ) : List ℕ → Call T → Option T × Bool × Call T
  | [], c => (none, false, c)
  | idx :: rest, c =>
    if idx ∈ c.tried then runPass len rest c
    else if len ≤ c.tried.length then (none, false, c)
    else
      match tryProvider w idx c with
      | (.ok val, c') => (some val, true, c')
      | (.error _, c') =>
        let r := runPass len rest c'
        (r.1, true, r.2.2)

/-- The text of the error (lines 702–733). -/
def exhaustedText (scope : ProviderScope) (c : Call T) : String :=
  let which := if scope = .archive then "archive RPC" else "RPC"
  match c.lastErr with
  | some e => "all " ++ which ++ " providers failed: " ++ e
  | none =>
    let provs := w.others c.looks c.providers
    let archiveTotal := (provs.filter fun p => p.archive && p.isAlive).length
    let archiveAlive := (provs.filter fun p =>
      p.archive && p.isAvailable (w.clock c.looks)).length
    if scope = .archive ∧ archiveTotal = 0 then
      "no archive-capable RPC provider is available — this operation requires historical state " ++
        "via eth_getProof. Add a genuine archive RPC endpoint (e.g. Alchemy, QuickNode, " ++
        "Chainstack, Infura) to the config and retry"
    else if scope = .archive ∧ archiveAlive = 0 then
      "archive-capable RPC providers exist (" ++ toString archiveTotal ++
        ") but none are currently available (all in cooldown) — retry after the cooldown expires"
    else "all " ++ which ++ " providers exhausted or in cooldown"

/-- The passes (lines 562–700), at most `fuel` of them; `waits` is `cooldown_waits`. -/
def retryLoop (scope : ProviderScope) :
    ℕ → List ℕ → ℕ → Call T → Option (Except String T × Call T)
  | 0, _, _, _ => none
  | fuel + 1, sorted, waits, c =>
    match runPass w sorted.length sorted c with
    | (some val, _, c') => some (.ok val, c')
    | (none, true, c') =>
      let next := providersFor w scope false c'
      retryLoop scope fuel next.1 waits (next.2.log (.snapshot next.1))
    | (none, false, c') =>
      if scope = .archive ∧ waits < 3 then
        match shortestArchiveCooldownWait (w.clock c'.looks) (c'.look w).providers with
        | some duration =>
          let next := sortedBy w (·.archive) { (c'.look w).log (.wait duration) with tried := [] }
          retryLoop scope fuel next.1 (waits + 1) next.2
        | none => some (.error (exhaustedText w scope (c'.look w)), c'.look w)
      else some (.error (exhaustedText w scope c'), c')

/-- Model of `retry_call_impl` (lines 547–734), with the last state of the call. -/
def retryCallImpl (fuel : ℕ) (scope : ProviderScope) (providers : List ProviderState) :
    Option (Except String T × Call T) :=
  let first := providersFor w scope true { providers }
  retryLoop w scope fuel first.1 0 (first.2.log (.snapshot first.1))

/-! ## Traces -/

/-- The providers that a trace tries. -/
def triedIn : List (CallEvent T) → List ℕ
  | [] => []
  | .tried idx _ _ :: before => idx :: triedIn before
  | .snapshot _ :: before => triedIn before
  | .wait _ :: before => triedIn before

/-- The providers that a trace has tried since its last wait. -/
def sinceWait : List (CallEvent T) → List ℕ
  | [] => []
  | .tried idx _ _ :: before => idx :: sinceWait before
  | .snapshot _ :: before => sinceWait before
  | .wait _ :: _ => []

/-- The last candidates read by `providers_for`, and the trace before. -/
def lastSnapshot : List (CallEvent T) → Option (List ℕ × List (CallEvent T))
  | [] => none
  | .snapshot sorted :: before => some (sorted, before)
  | .tried _ _ _ :: before => lastSnapshot before
  | .wait _ :: before => lastSnapshot before

/-- Between two waits, no provider is tried twice. -/
def TriesOnce (trace : List (CallEvent T)) : Prop :=
  ∀ post seg pre, trace = post ++ seg ++ pre → (∀ duration, .wait duration ∉ seg) →
    (triedIn seg).Nodup

/-- A provider is asked again at most twice, and only after a transient error. -/
def RepeatsTransient (trace : List (CallEvent T)) : Prop :=
  ∀ idx errors result, .tried idx errors result ∈ trace →
    errors.length ≤ 2 ∧ ∀ msg ∈ errors, isTransient msg = true

/-- Every provider of the last candidates has been tried. -/
def Exhausts (trace : List (CallEvent T)) : Prop :=
  ∀ last ∈ lastSnapshot trace, ∀ idx ∈ last.1, idx ∈ triedIn trace

/-- The last candidates hold a provider that has not been tried, but are no more than those tried
    since the last wait. -/
def StopsShort (trace : List (CallEvent T)) : Prop :=
  ∃ last ∈ lastSnapshot trace, last.1.length ≤ (sinceWait last.2).length ∧
    ∃ idx ∈ last.1, idx ∉ triedIn last.2

/-- Every attempt of a trace is on a provider not tried since the last wait, and is repeated as it
    should be. -/
def WellTried : List (CallEvent T) → Prop
  | [] => True
  | .tried idx errors _ :: before =>
    (idx ∉ sinceWait before ∧ errors.length ≤ 2 ∧ ∀ msg ∈ errors, isTransient msg = true) ∧
      WellTried before
  | .snapshot _ :: before => WellTried before
  | .wait _ :: before => WellTried before

variable {w : World T} {c : Call T} {trace before : List (CallEvent T)} {n idx : ℕ}
  {scope : ProviderScope} {sorted : List ℕ}

theorem nodup_sinceWait (h : WellTried trace) : (sinceWait trace).Nodup := by
  induction trace with
  | nil => exact List.nodup_nil
  | cons e before ih =>
    cases e with
    | snapshot sorted => exact ih h
    | tried idx errors result => exact List.nodup_cons.mpr ⟨h.1.1, ih h.2⟩
    | wait duration => exact List.nodup_nil

theorem sinceWait_append {seg : List (CallEvent T)} (h : ∀ duration, .wait duration ∉ seg) :
    sinceWait (seg ++ before) = triedIn seg ++ sinceWait before := by
  induction seg with
  | nil => rfl
  | cons e seg ih =>
    have hseg := ih fun duration hmem => h duration (List.mem_cons_of_mem _ hmem)
    cases e with
    | snapshot sorted => exact hseg
    | tried idx errors result => exact congrArg (idx :: ·) hseg
    | wait duration => exact absurd List.mem_cons_self (h duration)

theorem WellTried.of_append {post : List (CallEvent T)} (h : WellTried (post ++ before)) :
    WellTried before := by
  induction post with
  | nil => exact h
  | cons e post ih =>
    cases e with
    | snapshot sorted => exact ih h
    | tried idx errors result => exact ih h.2
    | wait duration => exact ih h

theorem WellTried.triesOnce (h : WellTried trace) : TriesOnce trace := by
  rintro post seg pre rfl hwait
  rw [List.append_assoc] at h
  have hnodup := nodup_sinceWait h.of_append
  rw [sinceWait_append hwait] at hnodup
  exact (List.nodup_append.mp hnodup).1

theorem WellTried.repeatsTransient (h : WellTried trace) : RepeatsTransient trace := by
  intro idx errors result hmem
  obtain ⟨post, before, rfl⟩ := List.append_of_mem hmem
  exact h.of_append.1.2

/-- What a trace has tried since its last wait, it has tried. -/
theorem sinceWait_subset : sinceWait trace ⊆ triedIn trace := by
  induction trace with
  | nil => exact List.Subset.refl _
  | cons e before ih =>
    cases e with
    | snapshot sorted => exact ih
    | tried idx errors result => exact List.cons_subset_cons idx ih
    | wait duration => exact List.nil_subset _

/-- To wait changes nothing about the last candidates. -/
theorem settled_wait {duration : ℕ} (h : Exhausts trace ↔ ¬StopsShort trace) :
    Exhausts (.wait duration :: trace) ↔ ¬StopsShort (.wait duration :: trace) :=
  h

/-- Candidates that a pass leaves as they are have been tried, or the call stops short. -/
theorem settled_snapshot
    (h : (∀ idx ∈ sorted, idx ∈ sinceWait before) ∨ sorted.length ≤ (sinceWait before).length) :
    Exhausts (.snapshot sorted :: before) ↔ ¬StopsShort (.snapshot sorted :: before) := by
  have hexhausts : Exhausts (.snapshot sorted :: before) ↔
      ∀ idx ∈ sorted, idx ∈ triedIn before :=
    ⟨fun h => h (sorted, before) rfl, fun h last hlast => by
      obtain rfl := Option.some.inj hlast
      exact h⟩
  have hstops : StopsShort (.snapshot sorted :: before) ↔
      sorted.length ≤ (sinceWait before).length ∧ ∃ idx ∈ sorted, idx ∉ triedIn before :=
    ⟨fun ⟨last, hlast, h⟩ => by
      obtain rfl := Option.some.inj hlast
      exact h, fun h => ⟨(sorted, before), rfl, h⟩⟩
  rw [hexhausts, hstops]
  constructor
  · rintro hall ⟨-, idx, hidx, hnot⟩
    exact hnot (hall idx hidx)
  · intro hnot
    rcases h with hall | hle
    · exact fun idx hidx => sinceWait_subset (hall idx hidx)
    · by_contra hsome
      push Not at hsome
      exact hnot ⟨hle, hsome⟩

/-! ## One pass -/

/-- What holds of a call over `n` providers, as long as no attempt has succeeded. -/
structure Call.Inv (n : ℕ) (c : Call T) : Prop where
  length : c.providers.length = n
  tried_eq : c.tried = sinceWait c.trace
  bounded : ∀ idx ∈ c.tried, idx < n
  wellTried : WellTried c.trace
  noSuccess : ∀ idx errors val, .tried idx errors (.ok val) ∉ c.trace

/-- A call has tried at most all providers since its last wait. -/
theorem Call.Inv.tried_le (h : c.Inv n) : c.tried.length ≤ n := by
  have hnodup : c.tried.Nodup := by
    rw [h.tried_eq]
    exact nodup_sinceWait h.wellTried
  have hsub : c.tried ⊆ List.range n := fun idx hidx => List.mem_range.mpr (h.bounded idx hidx)
  simpa using (hnodup.subperm hsub).length_le

theorem inv_start (providers : List ProviderState) :
    ({ providers } : Call T).Inv providers.length where
  length := rfl
  tried_eq := rfl
  bounded _ h := by cases h
  wellTried := trivial
  noSuccess _ _ _ h := by cases h

theorem Call.Inv.look (h : c.Inv n) : (c.look w).Inv n where
  length := (w.length_others _ _).trans h.length
  tried_eq := h.tried_eq
  bounded := h.bounded
  wellTried := h.wellTried
  noSuccess := h.noSuccess

theorem Call.Inv.snapshot (h : c.Inv n) (sorted : List ℕ) : (c.log (.snapshot sorted)).Inv n where
  length := h.length
  tried_eq := h.tried_eq
  bounded := h.bounded
  wellTried := h.wellTried
  noSuccess _ _ _ hmem := (List.mem_cons.mp hmem).elim (fun h => by cases h) (h.noSuccess _ _ _)

theorem Call.Inv.wait (h : c.Inv n) (duration : ℕ) :
    ({ c.log (.wait duration) with tried := [] } : Call T).Inv n where
  length := h.length
  tried_eq := rfl
  bounded _ hidx := by cases hidx
  wellTried := h.wellTried
  noSuccess _ _ _ hmem := (List.mem_cons.mp hmem).elim (fun h => by cases h) (h.noSuccess _ _ _)

variable (w idx) in
/-- The attempts that are repeated are as many as may be, and failed on the way. -/
theorem attemptLoop_errors (retries : ℕ) (errors : List String) (looks : ℕ) :
    ∃ more, (attemptLoop w idx retries errors looks).2.1 = errors ++ more ∧
      more.length ≤ retries ∧ ∀ msg ∈ more, isTransient msg = true := by
  induction retries generalizing errors looks with
  | zero =>
    refine ⟨[], ?_, le_rfl, fun _ h => by cases h⟩
    unfold attemptLoop
    rw [List.append_nil]
    cases w.answer looks idx <;> rfl
  | succ retries ih =>
    unfold attemptLoop
    cases w.answer looks idx with
    | ok val => exact ⟨[], (List.append_nil _).symm, Nat.zero_le _, fun _ h => by cases h⟩
    | error msg =>
      dsimp only
      split_ifs with htransient
      · obtain ⟨more, heq, hle, hmore⟩ := ih (errors ++ [msg]) (looks + 1)
        refine ⟨msg :: more, ?_, Nat.succ_le_succ hle, List.forall_mem_cons.mpr ⟨htransient, hmore⟩⟩
        rw [heq, List.append_assoc]
        rfl
      · exact ⟨[], (List.append_nil _).symm, Nat.zero_le _, fun _ h => by cases h⟩

/-- To try a provider is written into the trace. -/
theorem tryProvider_trace (h : WellTried c.trace) (hidx : idx ∉ sinceWait c.trace) :
    ∃ errors, (tryProvider w idx c).2.trace =
        .tried idx errors (tryProvider w idx c).1 :: c.trace ∧
      WellTried (tryProvider w idx c).2.trace := by
  obtain ⟨more, heq, hle, hmore⟩ := attemptLoop_errors w idx 2 [] c.looks
  rw [List.nil_append] at heq
  refine ⟨_, rfl, ⟨hidx, ?_, ?_⟩, h⟩
  · rw [heq]
    exact hle
  · rw [heq]
    exact hmore

/-- A provider that fails leaves the call as it should be. -/
theorem Call.Inv.tryProvider (h : c.Inv n) (hidx : idx < n) (hnot : idx ∉ c.tried) {msg : String}
    (hr : (tryProvider w idx c).1 = .error msg) : (tryProvider w idx c).2.Inv n := by
  obtain ⟨errors, htrace, hwell⟩ := tryProvider_trace (w := w) h.wellTried (h.tried_eq ▸ hnot)
  refine ⟨?_, ?_, List.forall_mem_cons.mpr ⟨hidx, h.bounded⟩, hwell, ?_⟩
  · exact (List.length_modify _ _ _).trans ((w.length_others _ _).trans h.length)
  · exact congrArg (idx :: ·) h.tried_eq
  · intro idx' errors' val hmem
    rw [htrace, hr] at hmem
    exact (List.mem_cons.mp hmem).elim (fun h => by cases h) (h.noSuccess _ _ _)

/-- What a pass over some candidates does: an attempt succeeds; or all that it makes fail; or it
    makes none, since all candidates have been tried or too many providers have. -/
inductive PassResult (n len : ℕ) (l : List ℕ) (c : Call T) : Option T × Bool × Call T → Prop
  | done {idx : ℕ} {errors : List String} {val : T} {c' : Call T} {before : List (CallEvent T)}
      (trace_eq : c'.trace = .tried idx errors (.ok val) :: before)
      (wellTried : WellTried c'.trace)
      (noSuccess : ∀ idx errors val, .tried idx errors (.ok val) ∉ before) :
      PassResult n len l c (some val, true, c')
  | moved {c' : Call T} (inv : c'.Inv n) (lt : c.tried.length < c'.tried.length) :
      PassResult n len l c (none, true, c')
  | stuck (h : (∀ idx ∈ l, idx ∈ c.tried) ∨ len ≤ c.tried.length) :
      PassResult n len l c (none, false, c)

theorem runPass_result (len : ℕ) {l : List ℕ} (hl : ∀ idx ∈ l, idx < n) (h : c.Inv n) :
    PassResult n len l c (runPass w len l c) := by
  induction l generalizing c with
  | nil => exact .stuck (.inl fun _ h => by cases h)
  | cons idx rest ih =>
    obtain ⟨hidx, hrest⟩ := List.forall_mem_cons.mp hl
    unfold runPass
    split_ifs with hmem hlen
    · have hpass := ih hrest h
      generalize runPass w len rest c = r at hpass ⊢
      cases hpass with
      | done trace_eq wellTried noSuccess => exact .done trace_eq wellTried noSuccess
      | moved inv lt => exact .moved inv lt
      | stuck hstuck =>
        exact .stuck (hstuck.imp_left fun hall => List.forall_mem_cons.mpr ⟨hmem, hall⟩)
    · exact .stuck (.inr hlen)
    · have htrace := tryProvider_trace (w := w) h.wellTried (h.tried_eq ▸ hmem)
      have hinv {msg : String} (hr : (tryProvider w idx c).1 = .error msg) :=
        h.tryProvider hidx hmem hr
      have htried : (tryProvider w idx c).2.tried = idx :: c.tried := rfl
      generalize tryProvider w idx c = r at htrace hinv htried ⊢
      obtain ⟨result, c'⟩ := r
      obtain ⟨errors, htrace, hwell⟩ := htrace
      have hlt : c.tried.length < c'.tried.length := by
        rw [htried, List.length_cons]
        omega
      cases result with
      | ok val => exact .done htrace hwell h.noSuccess
      | error msg =>
        have hpass := ih hrest (hinv rfl)
        dsimp only
        generalize runPass w len rest c' = r at hpass ⊢
        cases hpass with
        | done trace_eq wellTried noSuccess => exact .done trace_eq wellTried noSuccess
        | moved inv lt => exact .moved inv (hlt.trans lt)
        | stuck _ => exact .moved (hinv rfl) hlt

/-! ## The call -/

/-- The candidates are providers of the call, and to read them tries none. -/
structure Reads (n : ℕ) (c : Call T) (r : List ℕ × Call T) : Prop where
  bounded : ∀ idx ∈ r.1, idx < n
  inv : r.2.Inv n
  tried_eq : r.2.tried = c.tried
  trace_eq : r.2.trace = c.trace

theorem sortedBy_reads (kind : ProviderState → Bool) (h : c.Inv n) :
    Reads n c (sortedBy w kind c) where
  bounded idx hidx := by
    rw [sortedBy, ((w.order c.looks).perm _).mem_iff, mem_indicesWhere] at hidx
    obtain ⟨p, hp, -⟩ := hidx
    have hlt := (List.getElem?_eq_some_iff.mp hp).1
    rwa [w.length_others, h.length] at hlt
  inv := h.look
  tried_eq := rfl
  trace_eq := rfl

theorem Reads.fallback {r : List ℕ × Call T} (h : Reads n c r) (fallback : Bool) :
    Reads n c (if r.1 = [] ∧ fallback = true then sortedBy w (fun _ => true) r.2 else r) := by
  split_ifs
  · have hall := sortedBy_reads (w := w) (fun _ => true) h.inv
    exact ⟨hall.bounded, hall.inv, hall.tried_eq.trans h.tried_eq, hall.trace_eq.trans h.trace_eq⟩
  · exact h

variable (w scope) in
theorem providersFor_reads (fallback : Bool) (h : c.Inv n) :
    Reads n c (providersFor w scope fallback c) := by
  cases scope with
  | any => exact sortedBy_reads _ h
  | archive => exact (sortedBy_reads _ h).fallback fallback
  | stateCapable => exact (sortedBy_reads _ h).fallback fallback

/-- What the result of a call says about its trace. -/
structure Concludes (r : Except String T × Call T) : Prop where
  ok_iff : ∀ val, r.1 = .ok val ↔ ∃ idx errors, .tried idx errors (.ok val) ∈ r.2.trace
  wellTried : WellTried r.2.trace
  settled : (∃ msg, r.1 = .error msg) → (Exhausts r.2.trace ↔ ¬StopsShort r.2.trace)

theorem concludes_error (h : c.Inv n) (hsettled : Exhausts c.trace ↔ ¬StopsShort c.trace)
    (msg : String) : Concludes (.error msg, c) where
  ok_iff val := iff_of_false (fun h => by cases h) fun ⟨idx, errors, hmem⟩ =>
    h.noSuccess idx errors val hmem
  wellTried := h.wellTried
  settled _ := hsettled

theorem concludes_ok {errors : List String} {val : T}
    (htrace : c.trace = .tried idx errors (.ok val) :: before) (hwell : WellTried c.trace)
    (hnot : ∀ idx errors val, .tried idx errors (.ok val) ∉ before) :
    Concludes (.ok val, c) where
  ok_iff val' := by
    constructor
    · intro h
      obtain rfl := Except.ok.inj h
      exact ⟨idx, errors, htrace ▸ List.mem_cons_self⟩
    · rintro ⟨idx', errors', hmem⟩
      rw [htrace] at hmem
      rcases List.mem_cons.mp hmem with h | h
      · cases h
        rfl
      · exact absurd h (hnot _ _ _)
  wellTried := hwell
  settled := fun ⟨_, h⟩ => by cases h

/-- How many passes a call over `n` providers may still make. -/
def passesLeft (n waits : ℕ) (c : Call T) : ℕ := (3 - waits) * (n + 2) + (n + 1 - c.tried.length)

/-- A pass that tries a provider leaves fewer passes. -/
theorem passesLeft_moved {waits : ℕ} {c' next : Call T} (h : c'.Inv n)
    (hlt : c.tried.length < c'.tried.length) (hnext : next.tried = c'.tried) :
    passesLeft n waits next < passesLeft n waits c := by
  have hle := h.tried_le
  unfold passesLeft
  rw [hnext]
  omega

/-- A wait pays for a pass over every provider. -/
theorem passesLeft_wait {waits : ℕ} {next : Call T} (h : c.Inv n) (hwaits : waits < 3)
    (hnext : next.tried = []) : passesLeft n (waits + 1) next < passesLeft n waits c := by
  have hle := h.tried_le
  have hleft : 3 - waits = 3 - (waits + 1) + 1 := by omega
  unfold passesLeft
  rw [hnext, hleft, Nat.succ_mul, List.length_nil]
  omega

/-- What holds of every pass with fuel holds of every fuel. -/
theorem forall_fuel {β : Type*} {f : ℕ → β} {x : β} {m : ℕ}
    (h : ∀ fuel, m < fuel → f (fuel + 1) = x) : ∀ fuel, m + 1 < fuel → f fuel = x := by
  intro fuel hlt
  obtain ⟨fuel, rfl⟩ := Nat.exists_eq_add_one.mpr (Nat.zero_lt_of_lt hlt)
  exact h fuel (Nat.lt_of_succ_lt_succ hlt)

variable (w scope) in
/-- The passes end before they run out, and the result says about the trace what it should. -/
theorem retryLoop_concludes {m waits : ℕ} (hm : passesLeft n waits c ≤ m)
    (hsorted : ∀ idx ∈ sorted, idx < n) (h : c.Inv n)
    (hlast : (∃ before, c.trace = .snapshot sorted :: before) ∨
      (Exhausts c.trace ↔ ¬StopsShort c.trace)) :
    ∃ r, Concludes r ∧ ∀ fuel, m < fuel → retryLoop w scope fuel sorted waits c = some r := by
  induction m generalizing sorted waits c with
  | zero =>
    have := h.tried_le
    unfold passesLeft at hm
    omega
  | succ m ih =>
    have hpass := runPass_result (w := w) sorted.length hsorted h
    generalize hr : runPass w sorted.length sorted c = r at hpass
    cases hpass with
    | done trace_eq wellTried noSuccess =>
      refine ⟨_, concludes_ok trace_eq wellTried noSuccess, forall_fuel fun fuel _ => ?_⟩
      rw [retryLoop, hr]
    | @moved c' inv lt =>
      have hreads := providersFor_reads w scope false inv
      have hlogged : ((providersFor w scope false c').2.log
          (.snapshot (providersFor w scope false c').1)).tried = c'.tried := hreads.tried_eq
      have hleft := (passesLeft_moved inv lt hlogged).trans_le hm
      obtain ⟨r, hconcludes, hfuel⟩ := ih (Nat.le_of_lt_succ hleft) hreads.bounded
        (hreads.inv.snapshot _) (.inl ⟨_, rfl⟩)
      refine ⟨r, hconcludes, forall_fuel fun fuel hlt => ?_⟩
      rw [retryLoop, hr]
      exact hfuel fuel hlt
    | stuck hstuck =>
      have hsettled : Exhausts c.trace ↔ ¬StopsShort c.trace := by
        rcases hlast with ⟨before, htrace⟩ | hsettled
        · rw [h.tried_eq, htrace] at hstuck
          rw [htrace]
          exact settled_snapshot hstuck
        · exact hsettled
      by_cases hwait : scope = .archive ∧ waits < 3
      case neg =>
        refine ⟨_, concludes_error h hsettled (exhaustedText w scope c),
          forall_fuel fun fuel _ => ?_⟩
        rw [retryLoop, hr]
        exact if_neg hwait
      cases hduration : shortestArchiveCooldownWait (w.clock c.looks) (c.look w).providers with
      | none =>
        refine ⟨_, concludes_error (h.look (w := w)) hsettled (exhaustedText w scope (c.look w)),
          forall_fuel fun fuel _ => ?_⟩
        rw [retryLoop, hr]
        dsimp only
        rw [if_pos hwait, hduration]
      | some duration =>
        have hreads := sortedBy_reads (w := w) (·.archive) ((h.look (w := w)).wait duration)
        have hleft := (passesLeft_wait h hwait.2 hreads.tried_eq).trans_le hm
        obtain ⟨r, hconcludes, hfuel⟩ := ih (Nat.le_of_lt_succ hleft) hreads.bounded hreads.inv
          (.inr (hreads.trace_eq ▸ settled_wait hsettled))
        refine ⟨r, hconcludes, forall_fuel fun fuel hlt => ?_⟩
        rw [retryLoop, hr]
        dsimp only
        rw [if_pos hwait, hduration]
        exact hfuel fuel hlt

/-- **Main theorem.** In whatever world, a call ends. It returns a value exactly when that is the
    answer to one of its attempts; it tries no provider twice between two waits, transient errors
    apart; and when it fails, every provider of its last candidates has been tried exactly when it
    does not stop short. -/
theorem retryCallImpl_spec (w : World T) (scope : ProviderScope)
    (providers : List ProviderState) :
    ∃ (passes : ℕ) (result : Except String T) (c : Call T),
      (∀ fuel, passes ≤ fuel → retryCallImpl w fuel scope providers = some (result, c)) ∧
      (∀ val, result = .ok val ↔ ∃ idx errors, .tried idx errors (.ok val) ∈ c.trace) ∧
      TriesOnce c.trace ∧ RepeatsTransient c.trace ∧
      ((∃ msg, result = .error msg) → (Exhausts c.trace ↔ ¬StopsShort c.trace)) := by
  have hreads := providersFor_reads w scope true (inv_start providers)
  obtain ⟨⟨result, c⟩, hconcludes, hfuel⟩ := retryLoop_concludes w scope
    (Nat.le_refl (passesLeft _ 0 _)) hreads.bounded (hreads.inv.snapshot _) (.inl ⟨_, rfl⟩)
  exact ⟨_ + 1, result, c, fun fuel hle => hfuel fuel hle, hconcludes.ok_iff,
    hconcludes.wellTried.triesOnce, hconcludes.wellTried.repeatsTransient, hconcludes.settled⟩

/-- A rate limit is transient unless its digits are part of a hash; the state of a pruned node is
    not. -/
example : (["HTTP 429 Too Many", "missing trie node b64297", "execution reverted: timeout"].map
    isTransient, isStateUnavailableError "missing trie node b64297") =
    ([true, false, false], true) := by
  decide +kernel

/-- The provider 0 fails. By then the provider 1 has left its cooldown, and the candidates are that
    one alone; but one has been tried. -/
def recoveringWorld : World ℕ where
  clock looks := looks * nanosPerSec
  others _ provs := provs
  order _ := ⟨id, fun _ => .rfl⟩
  answer _ idx := if idx = 1 then .ok 7 else .error "boom"
  length_others _ _ := rfl

/-- The call fails, with an available provider that it never tries. -/
theorem recovered_provider_untried :
    (retryCallImpl recoveringWorld 3 .any
        [.new none, { ProviderState.new none with cooldownUntil := some nanosPerSec }]).map
      (fun r => (r.1, (lastSnapshot r.2.trace).map Prod.fst, triedIn r.2.trace)) =
    some (.error "all RPC providers failed: boom", some [1], [0]) := by
  decide +kernel

end MevScout.Rpc
