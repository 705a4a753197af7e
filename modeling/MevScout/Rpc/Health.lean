import Mathlib.Algebra.Order.Field.Rat
import Mathlib.Data.List.Induction
import Mathlib.Tactic.Linarith

/-!
# Provider health

Models of `ProviderState` (`core/src/rpc/middleware.rs`, lines 74–249), of `sorted_available` and
of `validate_all` (`core/src/rpc/client.rs`, lines 347–365 and 792–838). Instants are nanoseconds,
and weights are rational numbers.

Results:
* `isAlive_runEvents_iff`: when a provider is alive after a run of events;
* `runEvents_weight`: its weight never leaves its range;
* `health_iff`: **main theorem**, when it is available, and when one that failed validation is
  selected again.
-/

namespace MevScout.Rpc

/-! ## Providers -/

/-- A second, in nanoseconds. -/
def nanosPerSec : ℕ := 10 ^ 9

/-- Model of `DEAD_PROVIDER_COOLDOWN_SECS` (`rpc/consts.rs`, line 2). -/
def deadProviderCooldownSecs : ℕ := 300

/-- Model of `MAX_BACKOFF_SECS` (`rpc/consts.rs`, line 3). -/
def maxBackoffSecs : ℕ := 300

/-- Model of `ProviderState` (lines 74–101), with the fields that decide whether a provider is
    selected. -/
structure ProviderState where
  weight : ℚ
  originalWeight : ℚ
  isAlive : Bool := true
  cooldownUntil : Option ℕ := none
  consecutiveFailures : ℕ := 0
  archive : Bool := true
  stateCapable : Bool := true
  unlimited : Bool := false
  deriving DecidableEq

namespace ProviderState

variable (now : ℕ) (p : ProviderState)

/-- Model of `new` (lines 104–121). -/
def new (rps : Option ℚ) : ProviderState :=
  { weight := max (rps.getD 1) (1 / 10), originalWeight := max (rps.getD 1) (1 / 10) }

/-- The limit that `with_provider_rps` sets (`client.rs`, lines 265–275); `10000` is
    `UNLIMITED_PROVIDER_WEIGHT`. -/
def setRps (rps : ℚ) : ProviderState :=
  if 0 < rps then { p with weight := rps, originalWeight := rps, unlimited := false }
  else { p with weight := 10000, originalWeight := 10000, unlimited := true }

/-- Model of `mark_state_unavailable` (lines 172–174). -/
def markStateUnavailable : ProviderState := { p with stateCapable := false }

/-- The weight after a failure (lines 206 and 236). -/
def halved : ℚ := max (p.weight * (1 / 2)) (p.originalWeight * (1 / 10))

/-- `self.consecutive_failures += 1`, in a build without overflow checks. -/
def nextFailures : ℕ := (p.consecutiveFailures + 1) % 2 ^ 64

/-- Model of `mark_dead` (lines 202–207). -/
def markDead (cooldown : ℕ) : ProviderState :=
  { p with
    isAlive := false
    consecutiveFailures := p.nextFailures
    cooldownUntil := some (now + cooldown)
    weight := p.halved }

/-- Model of `is_available` (lines 211–219). -/
def isAvailable : Bool := p.isAlive && p.cooldownUntil.all (· ≤ now)

/-- Model of `record_success` (lines 221–227). -/
def recordSuccess : ProviderState :=
  { p with
    consecutiveFailures := 0
    isAlive := true
    cooldownUntil := none
    weight := min (p.weight * (3 / 2)) p.originalWeight }

/-- The seconds that a provider is put aside for (lines 231–233). -/
def backoffSecs (failures : ℕ) : ℕ :=
  min (min (2 ^ (failures % 2 ^ 32)) (2 ^ 64 - 1)) maxBackoffSecs

/-- Model of `record_failure` (lines 229–237). -/
def recordFailure : ProviderState :=
  { p with
    consecutiveFailures := p.nextFailures
    cooldownUntil := some (now + backoffSecs p.nextFailures * nanosPerSec)
    weight := p.halved }

/-- Model of `record_rate_limited` (lines 245–249). -/
def recordRateLimited : ProviderState :=
  { p with
    weight := max (p.weight * (7 / 10)) (p.originalWeight * (1 / 10))
    cooldownUntil := some (now + nanosPerSec / 2) }

end ProviderState

/-! ## Runs of events -/

/-- What the client records about a provider. -/
inductive HealthEvent where
  | recordSuccess
  | recordFailure
  | recordRateLimited
  | markDead (cooldown : ℕ)
  deriving DecidableEq

/-- A provider after an event. -/
def ProviderState.apply (now : ℕ) (p : ProviderState) : HealthEvent → ProviderState
  | .recordSuccess => p.recordSuccess
  | .recordFailure => p.recordFailure now
  | .recordRateLimited => p.recordRateLimited now
  | .markDead cooldown => p.markDead now cooldown

/-- A provider after a run of events, each at its instant. -/
def ProviderState.runEvents (p : ProviderState) (evs : List (ℕ × HealthEvent)) : ProviderState :=
  evs.foldl (fun p e => p.apply e.1 e.2) p

/-- A provider as it was configured. -/
structure ProviderState.Fresh (p : ProviderState) : Prop where
  alive : p.isAlive = true
  pos : 0 < p.originalWeight
  weight_eq : p.weight = p.originalWeight

/-- Every validation that fails is followed by a call that succeeds. -/
def Revived (evs : List (ℕ × HealthEvent)) : Prop :=
  ∀ pre now cooldown post, evs = pre ++ (now, .markDead cooldown) :: post →
    ∃ later, (later, .recordSuccess) ∈ post

/-! ## Pools -/

/-- The indices of the providers that are kept. -/
def indicesWhere (keep : ProviderState → Bool) (provs : List ProviderState) : List ℕ :=
  (provs.zipIdx.filter fun e => keep e.1).map Prod.snd

/-- The order in which providers are tried: they are sorted by `effective_weight`, a floating-point
    number, and rotated by a counter (`client.rs`, lines 336–391). -/
structure TryOrder where
  toFun : List ℕ → List ℕ
  perm : ∀ l, (toFun l).Perm l

/-- Model of `sorted_available` (`client.rs`, lines 347–365). -/
def sortedAvailable (order : TryOrder) (now : ℕ) (provs : List ProviderState) : List ℕ :=
  order.toFun (indicesWhere (·.isAvailable now) provs)

/-- Model of `validate_all` (`client.rs`, lines 792–838), where `failed i` is the error of the
    provider `i`, if its check fails. -/
def validateAll (now : ℕ) (failed : ℕ → Option String) (provs : List ProviderState) :
    List ProviderState × List (Option String) :=
  (provs.mapIdx fun i p =>
      if (failed i).isSome then p.markDead now (deadProviderCooldownSecs * nanosPerSec) else p,
    (List.range provs.length).map failed)

/-! ## Liveness -/

variable {p : ProviderState} {now i : ℕ} {evs : List (ℕ × HealthEvent)} {e : ℕ × HealthEvent}

theorem fresh_new (rps : Option ℚ) : (ProviderState.new rps).Fresh where
  alive := rfl
  pos := lt_max_of_lt_right (by norm_num)
  weight_eq := rfl

theorem ProviderState.Fresh.setRps (h : p.Fresh) (rps : ℚ) : (p.setRps rps).Fresh := by
  unfold ProviderState.setRps
  split_ifs with hrps
  · exact ⟨h.alive, hrps, rfl⟩
  · exact ⟨h.alive, by norm_num, rfl⟩

theorem runEvents_concat : p.runEvents (evs ++ [e]) = (p.runEvents evs).apply e.1 e.2 := by
  rw [ProviderState.runEvents, List.foldl_append]
  rfl

/-- A run is revived by a success, and any other event but a failed validation leaves that as it
    is. -/
theorem revived_concat :
    Revived (evs ++ [e]) ↔
      e.2 = .recordSuccess ∨ (∀ cooldown, e.2 ≠ .markDead cooldown) ∧ Revived evs := by
  constructor
  · intro h
    by_cases hsucc : e.2 = .recordSuccess
    · exact .inl hsucc
    refine .inr ⟨fun cooldown he => ?_, fun pre now cooldown post hevs => ?_⟩
    · obtain ⟨_, hmem⟩ := h evs e.1 cooldown [] (by rw [← he])
      cases hmem
    · have hconcat : evs ++ [e] = pre ++ (now, .markDead cooldown) :: (post ++ [e]) := by
        rw [hevs, List.append_assoc]
        rfl
      obtain ⟨later, hmem⟩ := h pre now cooldown (post ++ [e]) hconcat
      rcases List.mem_append.mp hmem with hmem | hmem
      · exact ⟨later, hmem⟩
      · exact absurd (congrArg Prod.snd (List.mem_singleton.mp hmem)).symm hsucc
  · rintro h pre now cooldown post hevs
    rcases post.eq_nil_or_concat with rfl | ⟨post, e', rfl⟩
    · obtain ⟨-, hlast⟩ := List.append_inj' hevs rfl
      have he := (List.cons.inj hlast).1
      rcases h with h | h
      · rw [he] at h
        cases h
      · exact absurd (congrArg Prod.snd he) (h.1 cooldown)
    · rw [List.concat_eq_append, ← List.cons_append, ← List.append_assoc] at hevs
      obtain ⟨hevs, hlast⟩ := List.append_inj' hevs rfl
      have he := (List.cons.inj hlast).1
      rw [List.concat_eq_append, ← he]
      rcases h with h | h
      · exact ⟨e.1, List.mem_append_right _ (List.mem_singleton.mpr (Prod.ext rfl h.symm))⟩
      · obtain ⟨later, hmem⟩ := h.2 pre now cooldown post hevs
        exact ⟨later, List.mem_append_left _ hmem⟩

/-- A provider is alive exactly when every failed validation was followed by a success, and it was
    alive before or has had a success since. -/
theorem isAlive_runEvents_iff :
    (p.runEvents evs).isAlive = true ↔
      Revived evs ∧ (p.isAlive = true ∨ ∃ now, (now, .recordSuccess) ∈ evs) := by
  induction evs using List.reverseRecOn with
  | nil =>
    refine ⟨fun h => ⟨fun pre now cooldown post h => ?_, .inl h⟩, fun h => ?_⟩
    · exact absurd h (by simp)
    · exact h.2.resolve_right fun ⟨_, h⟩ => by cases h
  | append_singleton evs e ih =>
    have hmem : (∃ now, (now, .recordSuccess) ∈ evs ++ [e]) ↔
        (∃ now, (now, .recordSuccess) ∈ evs) ∨ e.2 = .recordSuccess := by
      constructor
      · rintro ⟨now, h⟩
        rcases List.mem_append.mp h with h | h
        · exact .inl ⟨now, h⟩
        · exact .inr (congrArg Prod.snd (List.mem_singleton.mp h)).symm
      · rintro (⟨now, h⟩ | h)
        · exact ⟨now, List.mem_append_left _ h⟩
        · exact ⟨e.1, List.mem_append_right _ (List.mem_singleton.mpr (Prod.ext rfl h.symm))⟩
    rw [runEvents_concat, revived_concat, hmem]
    obtain ⟨now, event⟩ := e
    cases event with
    | recordSuccess => exact iff_of_true rfl ⟨.inl rfl, .inr (.inr rfl)⟩
    | recordFailure => exact ih.trans (by simp)
    | recordRateLimited => exact ih.trans (by simp)
    | markDead cooldown => exact iff_of_false (by simp [ProviderState.apply,
        ProviderState.markDead]) (by simp)

/-! ## Weights -/

/-- The weight of a provider is in its range. -/
def ProviderState.WeightInRange (p : ProviderState) : Prop :=
  0 < p.originalWeight ∧ p.originalWeight / 10 ≤ p.weight ∧ p.weight ≤ p.originalWeight

/-- A weight is lowered to a part of it, but not below the range. -/
theorem inRange_lowered {w original c : ℚ} (hpos : 0 < original) (hw : 0 ≤ w) (hle : w ≤ original)
    (hc : c ≤ 1) :
    original / 10 ≤ max (w * c) (original * (1 / 10)) ∧
      max (w * c) (original * (1 / 10)) ≤ original := by
  refine ⟨le_max_of_le_right (by linarith), max_le ?_ (by linarith)⟩
  exact (mul_le_of_le_one_right hw hc).trans hle

theorem ProviderState.WeightInRange.apply (h : p.WeightInRange) (event : HealthEvent) :
    (p.apply now event).WeightInRange := by
  obtain ⟨hpos, hlo, hhi⟩ := h
  have hw : 0 ≤ p.weight := le_trans (by linarith) hlo
  cases event with
  | recordSuccess =>
    refine ⟨hpos, le_min ?_ ?_, min_le_right _ _⟩
    · show p.originalWeight / 10 ≤ p.weight * (3 / 2)
      linarith
    · show p.originalWeight / 10 ≤ p.originalWeight
      linarith
  | recordFailure => exact ⟨hpos, inRange_lowered hpos hw hhi (by norm_num)⟩
  | recordRateLimited => exact ⟨hpos, inRange_lowered hpos hw hhi (by norm_num)⟩
  | markDead cooldown => exact ⟨hpos, inRange_lowered hpos hw hhi (by norm_num)⟩

theorem originalWeight_apply (event : HealthEvent) :
    (p.apply now event).originalWeight = p.originalWeight := by
  cases event <;> rfl

theorem originalWeight_runEvents : (p.runEvents evs).originalWeight = p.originalWeight := by
  induction evs using List.reverseRecOn with
  | nil => rfl
  | append_singleton evs e ih => rw [runEvents_concat, originalWeight_apply, ih]

/-- The weight never leaves its range. -/
theorem runEvents_weight (h : p.WeightInRange) (evs : List (ℕ × HealthEvent)) :
    (p.runEvents evs).WeightInRange := by
  induction evs using List.reverseRecOn with
  | nil => exact h
  | append_singleton evs e ih =>
    rw [runEvents_concat]
    exact ih.apply e.2

theorem ProviderState.Fresh.weightInRange (h : p.Fresh) : p.WeightInRange := by
  have hpos := h.pos
  refine ⟨hpos, ?_, h.weight_eq.le⟩
  rw [h.weight_eq]
  linarith

/-! ## Availability -/

/-- From the end of its cooldown on, a provider is available exactly when it is alive. -/
theorem available_after_cooldown_iff :
    (∀ now, (∀ stop ∈ p.cooldownUntil, stop ≤ now) → p.isAvailable now = true) ↔
      p.isAlive = true := by
  constructor
  · intro h
    have hend := h (p.cooldownUntil.getD 0) fun stop hstop => by rw [hstop]; rfl
    exact (Bool.and_eq_true_iff.mp hend).1
  · intro halive now hstop
    refine Bool.and_eq_true_iff.mpr ⟨halive, ?_⟩
    rw [Option.all_eq_true]
    exact fun stop h => decide_eq_true (hstop stop h)

theorem mem_indicesWhere {keep : ProviderState → Bool} {provs : List ProviderState} :
    i ∈ indicesWhere keep provs ↔ ∃ p, provs[i]? = some p ∧ keep p = true := by
  unfold indicesWhere
  simp only [List.mem_map, List.mem_filter, List.mem_zipIdx_iff_getElem?, Prod.exists,
    exists_eq_right]

theorem mem_sortedAvailable {order : TryOrder} {provs : List ProviderState} :
    i ∈ sortedAvailable order now provs ↔ ∃ p, provs[i]? = some p ∧ p.isAvailable now = true := by
  rw [sortedAvailable, (order.perm _).mem_iff, mem_indicesWhere]

/-- The pool after a validation that the provider `i` failed, and a run of events on it. -/
def afterValidation (start i : ℕ) (failed : ℕ → Option String) (provs : List ProviderState)
    (evs : List (ℕ × HealthEvent)) : List ProviderState :=
  (validateAll start failed provs).1.modify i (·.runEvents evs)

theorem getElem?_afterValidation {start : ℕ} {failed : ℕ → Option String}
    {provs : List ProviderState} (hp : provs[i]? = some p) (hfailed : (failed i).isSome = true) :
    (afterValidation start i failed provs evs)[i]? =
      some (p.runEvents ((start, .markDead (deadProviderCooldownSecs * nanosPerSec)) :: evs)) := by
  unfold afterValidation validateAll
  rw [List.getElem?_modify_eq, List.getElem?_mapIdx, hp, Option.map_some, if_pos hfailed]
  rfl

/-- A provider that failed validation is selected from the end of its cooldown on exactly when a
    call has succeeded since. -/
theorem selected_after_validation_iff {start : ℕ} {failed : ℕ → Option String}
    {provs : List ProviderState} (order : TryOrder) (hp : provs[i]? = some p)
    (hfailed : (failed i).isSome = true) :
    (∀ now, (∀ q ∈ (afterValidation start i failed provs evs)[i]?,
        ∀ stop ∈ q.cooldownUntil, stop ≤ now) →
        i ∈ sortedAvailable order now (afterValidation start i failed provs evs)) ↔
      Revived ((start, .markDead (deadProviderCooldownSecs * nanosPerSec)) :: evs) := by
  simp only [mem_sortedAvailable, getElem?_afterValidation hp hfailed, Option.mem_some_iff,
    Option.some.injEq, forall_eq', exists_eq_left']
  rw [available_after_cooldown_iff, isAlive_runEvents_iff]
  refine and_iff_left_of_imp fun h => .inr ?_
  obtain ⟨later, hmem⟩ := h [] start _ evs rfl
  exact ⟨later, List.mem_cons_of_mem _ hmem⟩

/-- **Main theorem.** After every run of events, the weight of a provider is in its range; it is
    available from the end of its cooldown on exactly when every failed validation was followed by
    a success; and so is a provider that failed validation selected again. -/
theorem health_iff (hp : p.Fresh) (evs : List (ℕ × HealthEvent)) :
    ((∀ now, (∀ stop ∈ (p.runEvents evs).cooldownUntil, stop ≤ now) →
        (p.runEvents evs).isAvailable now = true) ↔ Revived evs) ∧
    (p.originalWeight / 10 ≤ (p.runEvents evs).weight ∧
      (p.runEvents evs).weight ≤ p.originalWeight) ∧
    ∀ (start i : ℕ) (failed : ℕ → Option String) (provs : List ProviderState) (order : TryOrder),
      i < provs.length → (failed i).isSome = true →
      ((∀ now, (∀ q ∈ (afterValidation start i failed provs evs)[i]?,
          ∀ stop ∈ q.cooldownUntil, stop ≤ now) →
          i ∈ sortedAvailable order now (afterValidation start i failed provs evs)) ↔
        Revived ((start, .markDead (deadProviderCooldownSecs * nanosPerSec)) :: evs)) := by
  refine ⟨?_, ?_, fun start i failed provs order hi hfailed => ?_⟩
  · rw [available_after_cooldown_iff, isAlive_runEvents_iff]
    exact and_iff_left (.inl hp.alive)
  · have hweight := (runEvents_weight hp.weightInRange evs).2
    rwa [originalWeight_runEvents] at hweight
  · exact selected_after_validation_iff order (List.getElem?_eq_getElem hi) hfailed

/-- A call that fails, and one that succeeds a second later. -/
def recoveredRun : List (ℕ × HealthEvent) := [(0, .recordFailure), (nanosPerSec, .recordSuccess)]

/-- A new provider recovers from a call that fails, and from a validation too. -/
theorem recoveredRun_health :
    ((∀ now, (∀ stop ∈ ((ProviderState.new none).runEvents recoveredRun).cooldownUntil,
        stop ≤ now) → ((ProviderState.new none).runEvents recoveredRun).isAvailable now = true) ↔
      Revived recoveredRun) ∧
    ((ProviderState.new none).originalWeight / 10 ≤
        ((ProviderState.new none).runEvents recoveredRun).weight ∧
      ((ProviderState.new none).runEvents recoveredRun).weight ≤
        (ProviderState.new none).originalWeight) ∧
    ((∀ now, (∀ q ∈ (afterValidation 0 0 (fun _ => some "unreachable") [.new none]
          recoveredRun)[0]?, ∀ stop ∈ q.cooldownUntil, stop ≤ now) →
        0 ∈ sortedAvailable ⟨id, fun _ => .rfl⟩ now
          (afterValidation 0 0 (fun _ => some "unreachable") [.new none] recoveredRun)) ↔
      Revived ((0, .markDead (deadProviderCooldownSecs * nanosPerSec)) :: recoveredRun)) :=
  have h := health_iff (fresh_new none) recoveredRun
  ⟨h.1, h.2.1, h.2.2 0 0 _ [.new none] _ (by decide) rfl⟩

/-- A new provider that failed validation once is not available a year later, long after its
    cooldown of 300 seconds, and it is not selected. -/
theorem dead_provider_stays_out :
    ((ProviderState.new none).runEvents [(0, .markDead (300 * nanosPerSec))]).cooldownUntil =
      some (300 * nanosPerSec) ∧
    ((ProviderState.new none).runEvents [(0, .markDead (300 * nanosPerSec))]).isAvailable
      (31536000 * nanosPerSec) = false ∧
    sortedAvailable ⟨id, fun _ => .rfl⟩ (31536000 * nanosPerSec)
      (validateAll 0 (fun i => if i = 0 then some "unreachable" else none)
        [.new none, .new none]).1 = [1] := by
  refine ⟨?_, ?_, ?_⟩ <;> decide +kernel

end MevScout.Rpc
