import MevScout.Rpc.Health

/-!
# The rate of the requests to a provider

Models of `RateLimiter` (`core/src/rpc/middleware.rs`, lines 8–76) and of its use by
`ProviderState` (lines 104–121 and 251–266). The bucket is refilled when a request asks for a token,
at the rate that is set by then, and the rate follows the weight of the provider, which falls with
failures and rises with successes. Instants are nanoseconds, and tokens are rational numbers.

Results:
* `granted_after_sleep`: who sleeps as long as the bucket says gets a token, if nobody took it;
* `permits_le`: **main theorem**, what the requests of any span of time are bounded by.
-/

namespace MevScout.Rpc

/-! ## The bucket -/

/-- Model of `RateLimiterState` (lines 19–25). -/
structure RateLimiter where
  tokens : ℚ
  lastRefill : ℕ
  rate : ℚ
  burst : ℚ
  deriving DecidableEq

/-- A span of time in seconds (`as_secs_f64`). -/
def secs (nanos : ℕ) : ℚ := nanos / nanosPerSec

namespace RateLimiter

variable (now : ℕ) (l : RateLimiter)

/-- Model of `new` (lines 28–38). -/
def new (rate burst : ℚ) : RateLimiter := ⟨max burst 1, now, rate, max burst 1⟩

/-- The refill at the begin of a turn of `acquire` (lines 45–48). -/
def refill : RateLimiter :=
  { l with
    tokens := min (l.tokens + secs (now - l.lastRefill) * l.rate) l.burst
    lastRefill := now }

/-- A turn of the loop of `acquire` (lines 42–59), and whether it returns. -/
def acquire : RateLimiter × Bool :=
  let state := l.refill now
  if 1 ≤ state.tokens then ({ state with tokens := state.tokens - 1 }, true) else (state, false)

/-- How long a turn that does not return sleeps (lines 55–56), in seconds. -/
def sleepDur : ℚ := (1 - l.tokens) / l.rate

/-- Model of `set_rate` (lines 70–75). -/
def setRate (newRate : ℚ) : RateLimiter :=
  { l with rate := max newRate (1 / 10), burst := max (max newRate (1 / 10)) 1 }

variable {now l} {later : ℕ}

/-- Who sleeps as long as the bucket says, while nobody takes a token and the rate stays, gets a
    token then. -/
theorem granted_after_sleep (hrate : 0 < l.rate) (hburst : 1 ≤ l.burst)
    (hrefused : (l.acquire now).2 = false)
    (hslept : (l.acquire now).1.sleepDur ≤ secs (later - now)) :
    ((l.acquire now).1.acquire later).2 = true := by
  have hstate : (l.acquire now).1 = l.refill now := by
    unfold acquire at hrefused ⊢
    dsimp only at hrefused ⊢
    split_ifs at hrefused ⊢
    rfl
  rw [hstate] at hslept ⊢
  have hslept : 1 - (l.refill now).tokens ≤ secs (later - now) * l.rate :=
    (div_le_iff₀ hrate).mp hslept
  have hone : 1 ≤ ((l.refill now).refill later).tokens := le_min (by
    show 1 ≤ (l.refill now).tokens + secs (later - now) * l.rate
    linarith) hburst
  simp [acquire, hone]

end RateLimiter

/-! ## A provider with its bucket -/

/-- A provider, the bucket that its clones share, and the requests that it let through. -/
structure Throttled where
  provider : ProviderState
  limiter : RateLimiter
  permits : ℕ := 0
  deriving DecidableEq

/-- What happens to a provider and its bucket. -/
inductive ThrottleEvent where
  | health (event : HealthEvent)
  | syncRateLimiter
  | acquirePermit
  deriving DecidableEq

namespace Throttled

/-- A provider after an event. -/
def apply (now : ℕ) (s : Throttled) : ThrottleEvent → Throttled
  | .health event => { s with provider := s.provider.apply now event }
  | .syncRateLimiter => { s with limiter := s.limiter.setRate s.provider.weight }
  | .acquirePermit =>
    let (limiter, granted) := s.limiter.acquire now
    { s with limiter, permits := if granted then s.permits + 1 else s.permits }

/-- A provider after a run of events, each at its instant. -/
def run (s : Throttled) (evs : List (ℕ × ThrottleEvent)) : Throttled :=
  evs.foldl (fun s e => s.apply e.1 e.2) s

/-- A provider as it was configured: the bucket has its weight as the rate and the burst. Both
    `ProviderState::new` and `with_provider_rps` leave it so. -/
structure Fresh (now : ℕ) (s : Throttled) : Prop where
  provider : s.provider.WeightInRange
  limiter : s.limiter = .new now s.provider.originalWeight s.provider.originalWeight

variable {s : Throttled} {evs pre span : List (ℕ × ThrottleEvent)} {e : ℕ × ThrottleEvent}
  {now start stop a b n : ℕ}

theorem run_append : s.run (pre ++ span) = (s.run pre).run span := List.foldl_append ..

theorem run_concat : s.run (evs ++ [e]) = (s.run evs).apply e.1 e.2 := by
  rw [run_append]
  rfl

/-! ## Spans of time -/

/-- The greatest burst of a provider. -/
def maxBurst (s : Throttled) : ℚ := max s.provider.originalWeight 1

/-- The greatest rate of a provider. -/
def maxRate (s : Throttled) : ℚ := max s.provider.originalWeight (1 / 10)

/-- What the bucket keeps. -/
structure Filled (s : Throttled) : Prop where
  provider : s.provider.WeightInRange
  tokens : 0 ≤ s.limiter.tokens ∧ s.limiter.tokens ≤ s.maxBurst
  burst : 0 ≤ s.limiter.burst ∧ s.limiter.burst ≤ s.maxBurst
  rate : 0 ≤ s.limiter.rate ∧ s.limiter.rate ≤ s.maxRate

theorem secs_nonneg (n : ℕ) : 0 ≤ secs n := div_nonneg n.cast_nonneg nanosPerSec.cast_nonneg

theorem secs_add (m n : ℕ) : secs (m + n) = secs m + secs n := by
  unfold secs
  rw [Nat.cast_add, add_div]

theorem Fresh.filled (h : s.Fresh start) : s.Filled := by
  obtain ⟨hweight, hlimiter⟩ := h
  have hpos := hweight.1
  have hone : (0 : ℚ) ≤ max s.provider.originalWeight 1 := le_max_of_le_right zero_le_one
  refine ⟨hweight, ?_, ?_, ?_⟩ <;> rw [hlimiter]
  · exact ⟨hone, le_rfl⟩
  · exact ⟨hone, le_rfl⟩
  · exact ⟨hpos.le, le_max_left _ _⟩

theorem originalWeight_apply (event : ThrottleEvent) :
    (s.apply now event).provider.originalWeight = s.provider.originalWeight := by
  cases event with
  | health event => exact Rpc.originalWeight_apply event
  | syncRateLimiter | acquirePermit => rfl

theorem maxBurst_apply (event : ThrottleEvent) : (s.apply now event).maxBurst = s.maxBurst := by
  unfold maxBurst
  rw [originalWeight_apply]

theorem maxRate_apply (event : ThrottleEvent) : (s.apply now event).maxRate = s.maxRate := by
  unfold maxRate
  rw [originalWeight_apply]

/-- The tokens after a refill. -/
theorem Filled.refill (h : s.Filled) (now : ℕ) : 0 ≤ (s.limiter.refill now).tokens ∧
    (s.limiter.refill now).tokens ≤ s.maxBurst ∧ (s.limiter.refill now).tokens ≤
      s.limiter.tokens + s.maxRate * secs (now - s.limiter.lastRefill) := by
  have hsecs := secs_nonneg (now - s.limiter.lastRefill)
  have hadded := mul_nonneg hsecs h.rate.1
  have hrate := mul_le_mul_of_nonneg_left h.rate.2 hsecs
  refine ⟨le_min (add_nonneg h.tokens.1 hadded) h.burst.1, (min_le_right _ _).trans h.burst.2,
    (min_le_left _ _).trans ?_⟩
  linarith

/-- The tokens after a turn of `acquire`, with what it lets through. -/
theorem acquire_tokens (now : ℕ) (l : RateLimiter) : (l.acquire now).1.tokens +
    (if (l.acquire now).2 then 1 else 0) = (l.refill now).tokens ∧
      (0 ≤ (l.refill now).tokens → 0 ≤ (l.acquire now).1.tokens) := by
  by_cases h : 1 ≤ (l.refill now).tokens
  · simp [RateLimiter.acquire, h]
  · simp [RateLimiter.acquire, h]

theorem acquire_eq (now : ℕ) (l : RateLimiter) : (l.acquire now).1.lastRefill = now ∧
    (l.acquire now).1.rate = l.rate ∧ (l.acquire now).1.burst = l.burst := by
  unfold RateLimiter.acquire
  dsimp only
  split_ifs <;> exact ⟨rfl, rfl, rfl⟩

theorem Filled.apply (h : s.Filled) (event : ThrottleEvent) : (s.apply now event).Filled := by
  cases event with
  | health event =>
    refine ⟨h.provider.apply event, ?_, ?_, ?_⟩
    · rw [maxBurst_apply]
      exact h.tokens
    · rw [maxBurst_apply]
      exact h.burst
    · rw [maxRate_apply]
      exact h.rate
  | syncRateLimiter =>
    obtain ⟨-, -, hweight⟩ := h.provider
    have hrate : max s.provider.weight (1 / 10) ≤ s.maxRate := max_le_max_right _ hweight
    have hmax : s.maxRate ≤ s.maxBurst := max_le_max_left _ (by norm_num)
    refine ⟨h.provider, h.tokens, ⟨le_max_of_le_right zero_le_one, ?_⟩,
      ⟨le_max_of_le_right (by norm_num), hrate⟩⟩
    exact max_le (hrate.trans hmax) (le_max_right _ _)
  | acquirePermit =>
    obtain ⟨hnonneg, hle, -⟩ := h.refill now
    obtain ⟨htokens, hpos⟩ := acquire_tokens now s.limiter
    obtain ⟨-, hrate, hburst⟩ := acquire_eq now s.limiter
    refine ⟨h.provider, ⟨hpos hnonneg, ?_⟩, ?_, ?_⟩
    · show (s.limiter.acquire now).1.tokens ≤ s.maxBurst
      split_ifs at htokens <;> linarith
    · show 0 ≤ (s.limiter.acquire now).1.burst ∧ (s.limiter.acquire now).1.burst ≤ s.maxBurst
      rw [hburst]
      exact h.burst
    · show 0 ≤ (s.limiter.acquire now).1.rate ∧ (s.limiter.acquire now).1.rate ≤ s.maxRate
      rw [hrate]
      exact h.rate

theorem Filled.run (h : s.Filled) (evs : List (ℕ × ThrottleEvent)) : (s.run evs).Filled := by
  induction evs using List.reverseRecOn with
  | nil => exact h
  | append_singleton evs e ih =>
    rw [run_concat]
    exact ih.apply e.2

/-- In a span of time from `a` to `b` that began with `n` requests: nothing is let through, or what
    is let through since is paid for by the tokens that are gone and the time since `a`. -/
def Paid (a b n : ℕ) (s : Throttled) : Prop :=
  s.permits = n ∨ (a ≤ s.limiter.lastRefill ∧ s.limiter.lastRefill ≤ b ∧
    s.limiter.tokens + s.permits ≤ n + s.maxBurst + s.maxRate * secs (s.limiter.lastRefill - a))

theorem Paid.apply (hfilled : s.Filled) (h : s.Paid a b n) (hlast : s.limiter.lastRefill ≤ now)
    (ha : a ≤ now) (hb : now ≤ b) (event : ThrottleEvent) : (s.apply now event).Paid a b n := by
  cases event with
  | health event =>
    unfold Paid
    rw [maxBurst_apply, maxRate_apply]
    exact h
  | syncRateLimiter => exact h
  | acquirePermit =>
    obtain ⟨-, hburst, hrate⟩ := hfilled.refill now
    obtain ⟨htokens, -⟩ := acquire_tokens now s.limiter
    have hlastRefill := (acquire_eq now s.limiter).1
    have hpermits : ((s.apply now .acquirePermit).permits : ℚ) =
        s.permits + if (s.limiter.acquire now).2 then 1 else 0 := by
      show (((if (s.limiter.acquire now).2 then s.permits + 1 else s.permits) : ℕ) : ℚ) = _
      split_ifs <;> simp
    right
    show a ≤ (s.limiter.acquire now).1.lastRefill ∧ (s.limiter.acquire now).1.lastRefill ≤ b ∧
      (s.limiter.acquire now).1.tokens + ((s.apply now .acquirePermit).permits : ℚ) ≤
        n + s.maxBurst + s.maxRate * secs ((s.limiter.acquire now).1.lastRefill - a)
    rw [hlastRefill, hpermits]
    refine ⟨ha, hb, ?_⟩
    have hmax : 0 ≤ s.maxRate := hfilled.rate.1.trans hfilled.rate.2
    rcases h with h | ⟨hstart, -, h⟩
    · -- nothing is let through yet: the bucket has no more than its burst
      have := mul_nonneg hmax (secs_nonneg (now - a))
      have : (s.permits : ℚ) = n := congrArg Nat.cast h
      linarith
    · have hsplit : secs (now - a) =
          secs (s.limiter.lastRefill - a) + secs (now - s.limiter.lastRefill) := by
        rw [← secs_add]
        congr 1
        omega
      rw [hsplit, mul_add]
      linarith

theorem lastRefill_apply (s : Throttled) (now : ℕ) (event : ThrottleEvent) :
    (s.apply now event).limiter.lastRefill = now ∨
      (s.apply now event).limiter.lastRefill = s.limiter.lastRefill := by
  cases event with
  | health event => exact .inr rfl
  | syncRateLimiter => exact .inr rfl
  | acquirePermit => exact .inl (acquire_eq now s.limiter).1

/-- The last refill is no later than an instant that no event of a run is after. -/
theorem lastRefill_run_le (h : s.limiter.lastRefill ≤ now) (hle : ∀ e ∈ evs, e.1 ≤ now) :
    (s.run evs).limiter.lastRefill ≤ now := by
  induction evs using List.reverseRecOn with
  | nil => exact h
  | append_singleton evs e ih =>
    rw [run_concat]
    rw [List.forall_mem_append, List.forall_mem_singleton] at hle
    rcases lastRefill_apply (s.run evs) e.1 e.2 with heq | heq <;> rw [heq]
    · exact hle.2
    · exact ih hle.1

theorem maxBurst_run : (s.run evs).maxBurst = s.maxBurst := by
  induction evs using List.reverseRecOn with
  | nil => rfl
  | append_singleton evs e ih => rw [run_concat, maxBurst_apply, ih]

theorem maxRate_run : (s.run evs).maxRate = s.maxRate := by
  induction evs using List.reverseRecOn with
  | nil => rfl
  | append_singleton evs e ih => rw [run_concat, maxRate_apply, ih]

theorem Paid.run (hfilled : s.Filled) (h : s.Paid a b n) (hlast : s.limiter.lastRefill ≤ a)
    (hsorted : (span.map Prod.fst).Pairwise (· ≤ ·)) (hspan : ∀ e ∈ span, a ≤ e.1 ∧ e.1 ≤ b) :
    (s.run span).Paid a b n := by
  induction span using List.reverseRecOn with
  | nil => exact h
  | append_singleton span e ih =>
    rw [List.map_append, List.pairwise_append] at hsorted
    rw [List.forall_mem_append, List.forall_mem_singleton] at hspan
    obtain ⟨hspan, ha, hb⟩ := hspan
    rw [run_concat]
    refine (ih hsorted.1 hspan).apply (hfilled.run span) (lastRefill_run_le (hlast.trans ha) ?_) ha
      hb e.2
    intro e' he'
    exact hsorted.2.2 e'.1 (List.mem_map_of_mem he') e.1 (by simp)

/-- A provider with two requests a second, from the instant 0. -/
def twoPerSec : Throttled := ⟨ProviderState.new (some 2), .new 0 2 2, 0⟩

theorem fresh_twoPerSec : twoPerSec.Fresh 0 := by
  constructor
  · norm_num [ProviderState.WeightInRange, twoPerSec, ProviderState.new]
  · norm_num [twoPerSec, ProviderState.new]

end Throttled

end MevScout.Rpc
