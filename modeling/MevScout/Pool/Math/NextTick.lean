import MevScout.Pool.Liquidity
import MevScout.Pool.Math.Monotone

/-!
# Crossing the next initialized tick

The ticks of a map with a net liquidity other than zero are initialized. The search of the loop
finds the nearest one ahead, and `cross_tick` turns the sum of the net liquidity on one side of
it into the sum with that tick, as long as both fit `u128`.

Results:
* `findNextInitializedTick_nearest`: the search finds the nearest initialized tick ahead;
* `netWhere_congr`, `netWhere_add`: sums of net liquidity over a part of the ticks;
* `liquidityBeyond_down`, `liquidityBeyond_up`: what crossing a tick does to such a sum.
-/

namespace MevScout.Pool.Math

variable {pool : UniswapV3PoolState} {direction : V3Direction} {ticks : TickMap} {L : ℕ}
  {tick t τ : ℤ} {P Q : ℤ → Prop} [DecidablePred P] [DecidablePred Q]

/-- A tick with a net liquidity other than zero. -/
def Initialized (ticks : TickMap) (t : ℤ) : Prop := netAt ticks t ≠ 0

instance (ticks : TickMap) (t : ℤ) : Decidable (Initialized ticks t) :=
  inferInstanceAs (Decidable (_ ≠ _))

/-- `t` is strictly ahead of `tick` in the direction of a swap. -/
def Ahead (direction : V3Direction) (tick t : ℤ) : Prop :=
  match direction with
  | .zeroForOne => t < tick
  | .oneForZero => tick < t

/-- `t` is as near as `t'`, or nearer, for a swap that has both ahead. -/
def AsNear (direction : V3Direction) (t t' : ℤ) : Prop :=
  match direction with
  | .zeroForOne => t' ≤ t
  | .oneForZero => t ≤ t'

theorem initialized_iff_mem :
    Initialized ticks t ↔ ∃ net, (t, net) ∈ ticks.toList ∧ net ≠ 0 := by
  simp only [Std.ExtTreeMap.mem_toList_iff_getElem?_eq_some]
  unfold Initialized netAt
  cases ticks[t]? <;> simp

theorem isAhead_iff {entry : ℤ × ℤ} :
    IsAhead tick direction entry ↔ entry.2 ≠ 0 ∧ Ahead direction tick entry.1 := by
  cases direction <;> rfl

theorem AsNear.refl (direction : V3Direction) (t : ℤ) : AsNear direction t t := by
  cases direction <;> exact le_rfl

theorem AsNear.trans {t' t'' : ℤ} (h : AsNear direction t t') (h' : AsNear direction t' t'') :
    AsNear direction t t'' := by
  cases direction
  · exact le_trans h' h
  · exact le_trans h h'

/-- The nearer of two ticks is as near as both. -/
theorem nearer_spec (direction : V3Direction) (best : Option ℤ) (t : ℤ) :
    ∃ r, nearer direction best t = some r ∧ AsNear direction r t ∧
      ∀ b ∈ best, AsNear direction r b := by
  unfold nearer
  rcases best with - | b
  · exact ⟨t, by cases direction <;> rfl, AsNear.refl direction t, nofun⟩
  · cases direction <;> dsimp only [AsNear]
    · by_cases h : t > b
      · exact ⟨t, if_pos h, le_rfl, by rintro _ ⟨⟩; exact le_of_lt h⟩
      · exact ⟨b, if_neg h, not_lt.mp h, by rintro _ ⟨⟩; exact le_rfl⟩
    · by_cases h : t < b
      · exact ⟨t, if_pos h, le_rfl, by rintro _ ⟨⟩; exact le_of_lt h⟩
      · exact ⟨b, if_neg h, not_lt.mp h, by rintro _ ⟨⟩; exact le_rfl⟩

/-- The search finds the nearest initialized tick ahead, or there is none. -/
theorem findNextInitializedTick_nearest (hτ : Initialized ticks τ)
    (hahead : Ahead direction tick τ) :
    ∃ t, findNextInitializedTick ticks tick direction = some t ∧ AsNear direction t τ := by
  have hfold : ∀ (l : List (ℤ × ℤ)) (best : Option ℤ),
      (∀ b ∈ best, ∃ r, l.foldl (fun best entry => if IsAhead tick direction entry then
        nearer direction best entry.1 else best) best = some r ∧ AsNear direction r b) ∧
      ∀ e ∈ l, IsAhead tick direction e → ∃ r, l.foldl (fun best entry =>
        if IsAhead tick direction entry then nearer direction best entry.1 else best) best =
          some r ∧ AsNear direction r e.1 := by
    intro l
    induction l with
    | nil => exact fun best => ⟨fun b hb => ⟨b, hb, AsNear.refl direction b⟩, nofun⟩
    | cons e l ih =>
      intro best
      rw [List.foldl_cons]
      by_cases he : IsAhead tick direction e
      · obtain ⟨r, hr, hnear, hbest⟩ := nearer_spec direction best e.1
        rw [if_pos he, hr]
        obtain ⟨r', hr', hle⟩ := (ih (some r)).1 r rfl
        refine ⟨fun b hb => ⟨r', hr', hle.trans (hbest b hb)⟩, fun e' he' hahead' => ?_⟩
        rcases List.mem_cons.mp he' with rfl | he'
        · exact ⟨r', hr', hle.trans hnear⟩
        · exact (ih (some r)).2 e' he' hahead'
      · rw [if_neg he]
        refine ⟨(ih best).1, fun e' he' hahead' => ?_⟩
        rcases List.mem_cons.mp he' with rfl | he'
        · exact absurd hahead' he
        · exact (ih best).2 e' he' hahead'
  obtain ⟨net, hmem, hnet⟩ := initialized_iff_mem.mp hτ
  exact (hfold ticks.toList none).2 (τ, net) hmem (isAhead_iff.mpr ⟨hnet, hahead⟩)

theorem findNextInitializedTick_spec
    (h : findNextInitializedTick ticks tick direction = some t) :
    Initialized ticks t ∧ Ahead direction tick t := by
  obtain ⟨entry, hmem, hahead, rfl⟩ := findNextInitializedTick_ahead h
  obtain ⟨hnet, hahead⟩ := isAhead_iff.mp hahead
  exact ⟨initialized_iff_mem.mpr ⟨entry.2, hmem, hnet⟩, hahead⟩

theorem not_ahead_of_none (h : findNextInitializedTick ticks tick direction = none)
    (hτ : Initialized ticks τ) : ¬Ahead direction tick τ := by
  intro hahead
  obtain ⟨t, ht, -⟩ := findNextInitializedTick_nearest hτ hahead
  rw [h] at ht
  cases ht

/-! ## Sums of net liquidity -/

/-- The sum of the net liquidity of the ticks in `P`. -/
def netWhere (ticks : TickMap) (P : ℤ → Prop) [DecidablePred P] : ℤ :=
  Map.sumBy (fun t net => if P t then net else 0) ticks

theorem netAtOrBelow_eq_netWhere (ticks : TickMap) (tick : ℤ) :
    netAtOrBelow ticks tick = netWhere ticks (· ≤ tick) := rfl

/-- Only the initialized ticks count. -/
theorem netWhere_congr (h : ∀ t, Initialized ticks t → (P t ↔ Q t)) :
    netWhere ticks P = netWhere ticks Q := by
  unfold netWhere Map.sumBy
  congr 1
  refine List.map_congr_left fun e he => ?_
  dsimp only
  by_cases hnet : e.2 = 0
  · rw [hnet, ite_self, ite_self]
  · have := h e.1 (initialized_iff_mem.mpr ⟨e.2, he, hnet⟩)
    simp only [this]

/-- One more tick adds its net liquidity. -/
theorem netWhere_add (h : ∀ τ, Initialized ticks τ → (P τ ↔ Q τ ∨ τ = t)) (ht : ¬Q t) :
    netWhere ticks P = netWhere ticks Q + netAt ticks t := by
  have helim (f : ℤ → ℤ) (hf : f 0 = 0) : ticks[t]?.elim 0 f = f (netAt ticks t) := by
    unfold netAt
    cases ticks[t]? <;> simp [hf]
  by_cases hnet : Initialized ticks t
  · have hPt : P t := (h t hnet).mpr (.inr rfl)
    have hrest : netWhere (ticks.erase t) P = netWhere (ticks.erase t) Q := by
      refine netWhere_congr fun τ hτ => ?_
      unfold Initialized netAt at hτ
      rw [Map.getElem?_erase_eq] at hτ
      split_ifs at hτ with hne
      · simp at hτ
      · have := h τ hτ
        constructor
        · exact fun hP => (this.mp hP).resolve_right fun heq => hne heq.symm
        · exact fun hQ => this.mpr (.inl hQ)
    have hP : netWhere ticks P = netAt ticks t + netWhere (ticks.erase t) P := by
      unfold netWhere
      rw [← Map.sumBy_erase _ ticks t, helim (fun net => if P t then net else 0) (ite_self 0),
        if_pos hPt]
    have hQ : netWhere ticks Q = 0 + netWhere (ticks.erase t) Q := by
      unfold netWhere
      rw [← Map.sumBy_erase _ ticks t, helim (fun net => if Q t then net else 0) (ite_self 0),
        if_neg ht]
    omega
  · have hzero : netAt ticks t = 0 := not_not.mp hnet
    rw [hzero, add_zero]
    refine netWhere_congr fun τ hτ => ?_
    rw [h τ hτ]
    exact or_iff_left fun heq => hnet (heq ▸ hτ)

/-! ## Crossing a tick -/

theorem getElem?_of_initialized (h : Initialized ticks t) : ticks[t]? = some (netAt ticks t) := by
  unfold Initialized netAt at *
  cases hget : ticks[t]? with
  | none => simp [hget] at h
  | some net => rfl

/-- The magnitude of an `i128`, as `u128`. -/
theorem asUnsigned_wrapSigned_neg {n : ℤ} (hlo : -2 ^ 127 ≤ n) (hn : n ≤ 0) :
    asUnsigned 128 (wrapSigned 128 (-n)) = (-n).toNat := by
  rcases eq_or_lt_of_le hlo with rfl | hlt
  · decide
  · have hneg : wrapSigned 128 (-n) = -n := wrapSigned_eq (w := 127) (by omega) (by omega)
    rw [hneg, asUnsigned_eq (by omega) (by omega)]

/-- Crossing a tick downwards takes its net liquidity off, within `u128`. -/
theorem liquidityBeyond_down (ht : Initialized pool.ticks t) (hlo : -2 ^ 127 ≤ netAt pool.ticks t)
    (hhi : netAt pool.ticks t < 2 ^ 127) :
    (liquidityBeyond pool .zeroForOne L t : ℤ) =
      if 0 < netAt pool.ticks t then max 0 ((L : ℤ) - netAt pool.ticks t)
      else min ((L : ℤ) - netAt pool.ticks t) (2 ^ 128 - 1) := by
  unfold liquidityBeyond crossTick
  rw [Option.bind_some, getElem?_of_initialized ht]
  generalize netAt pool.ticks t = n at *
  show ((if n > 0 then L - asUnsigned 128 n
    else saturatingAdd 128 L (asUnsigned 128 (wrapSigned 128 (-n))) : ℕ) : ℤ) = _
  split_ifs with hn
  · rw [asUnsigned_eq (by omega) (by omega)]
    omega
  · rw [asUnsigned_wrapSigned_neg hlo (by omega)]
    unfold saturatingAdd
    omega

/-- Crossing a tick upwards adds its net liquidity, within `u128`. -/
theorem liquidityBeyond_up (ht : Initialized pool.ticks t) (hlo : -2 ^ 127 ≤ netAt pool.ticks t)
    (hhi : netAt pool.ticks t < 2 ^ 127) :
    (liquidityBeyond pool .oneForZero L t : ℤ) =
      if 0 < netAt pool.ticks t then min ((L : ℤ) + netAt pool.ticks t) (2 ^ 128 - 1)
      else max 0 ((L : ℤ) + netAt pool.ticks t) := by
  unfold liquidityBeyond crossTick
  rw [Option.bind_some, getElem?_of_initialized ht]
  generalize netAt pool.ticks t = n at *
  show ((if n > 0 then saturatingAdd 128 L (asUnsigned 128 n)
    else L - asUnsigned 128 (wrapSigned 128 (-n)) : ℕ) : ℤ) = _
  split_ifs with hn
  · rw [asUnsigned_eq (by omega) (by omega)]
    unfold saturatingAdd
    omega
  · rw [asUnsigned_wrapSigned_neg hlo (by omega)]
    omega

end MevScout.Pool.Math
