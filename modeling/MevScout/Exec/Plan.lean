import MevScout.Exec.Session

/-!
# Flash-loan plans

Models of `core/src/exec/plan.rs`: an opportunity becomes a list of legs that the executor contract
runs one after the other. Each leg takes the other token of its pool. Nothing asks whether the
last leg comes back to the borrowed token, and the pools of the path come without repetitions.

Results:
* `planLegs_chained`: the legs follow each other from the first token on;
* `Chained.even_count_iff`: a chain of legs is closed exactly when it meets every token an even
  number of times;
* `closedRoute_iff`: when a plan is a closed route through the path of its opportunity;
* `open_route_planned`: a plan of one leg, and one that leaves out the way back.
-/

namespace MevScout.Exec

open Paper Pool

/-! ## The model -/

/-- Model of `FlashLoanProvider` (`types/strategy.rs`, lines 16–25). -/
inductive FlashLoanProvider where
  | auto | balancer | aave | uniswap
  deriving DecidableEq, Repr

/-- `LEG_V2` and `LEG_V3` (`plan.rs`, lines 10–12). -/
def legV2 : ℕ := 0
def legV3 : ℕ := 1

/-- Model of `ExecLeg` (`plan.rs`, lines 14–21). -/
structure ExecLeg where
  pool : Address
  tokenIn : Address
  tokenOut : Address
  kind : ℕ
  fee : ℕ
  deriving DecidableEq

/-- Model of `ExecPlan` (`plan.rs`, lines 23–32). -/
structure ExecPlan where
  vault : Address
  borrowToken : Address
  amount : ℕ
  minProfit : ℕ
  deadline : ℕ
  legs : List ExecLeg
  provider : FlashLoanProvider
  deriving DecidableEq

/-- Model of `other_token` (`plan.rs`, lines 148–157). -/
def otherToken (state : PoolState) (tokenIn : Address) : Option Address :=
  if state.info.token0 = tokenIn then some state.info.token1
  else if state.info.token1 = tokenIn then some state.info.token0
  else none

/-- The fee of a V2 leg (`plan.rs`, lines 126–130). -/
def v2LegFee : FeeTier → Option ℕ
  | .bps b => if 1 ≤ b ∧ b < 10000 then some b else none
  | .unset | .free => some 30
  | .ppm _ => none

/-- The fee of a V3 leg (`plan.rs`, lines 134–137). -/
def v3LegFee : FeeTier → Option ℕ
  | .ppm p => if p ≤ 0xffffff then some p else none
  | .unset | .free | .bps _ => none

/-- Model of `classify_leg` (`plan.rs`, lines 114–146), whose errors are all the same. -/
def classifyLeg (state : PoolState) (tokenIn : Address) : Option (ℕ × ℕ × Address) :=
  if state.info.isStable = some true then none
  else
    (otherToken state tokenIn).bind fun tokenOut =>
      match state with
      | .uniswapV2 s =>
        if s.info.dexType = .uniswapV2 ∨ s.info.dexType = .solidly ∨ s.info.dexType = .camelot then
          (v2LegFee s.info.feeTier).map fun fee => (legV2, fee, tokenOut)
        else none
      | .uniswapV3 s =>
        if s.info.dexType = .uniswapV3 then
          (v3LegFee s.info.feeTier).map fun fee => (legV3, fee, tokenOut)
        else none
      | _ => none

/-- The loop of `plan_from_opportunity` over the path (`plan.rs`, lines 89–101). -/
def planLegs (pools : PoolMap) : List Address → Address → Option (List ExecLeg)
  | [], _ => some []
  | pool :: path, tokenIn => do
    let state ← pools[pool]?
    let (kind, fee, tokenOut) ← classifyLeg state tokenIn
    let legs ← planLegs pools path tokenOut
    some (⟨pool, tokenIn, tokenOut, kind, fee⟩ :: legs)

/-- Model of `plan_from_opportunity` (`plan.rs`, lines 57–112). -/
def planFromOpportunity (opp : MevOpportunity) (pools : PoolMap) (vault : Address)
    (provider : FlashLoanProvider) (minProfit deadline : ℕ) : Except PlanError ExecPlan :=
  if opp.strategy ≠ .twoHopArb ∧ opp.strategy ≠ .multiHopArb ∧ opp.strategy ≠ .backrun then
    .error .strategyUnsupported
  else if provider ≠ .auto ∧ provider ≠ .balancer then .error .providerUnsupported
  else if vault = 0 then .error .noVault
  else if opp.inputAmount = 0 then .error .zeroAmount
  else if poolsOfOpp opp = [] then .error .pathUnavailable
  else if opp.tokenIn = 0 then .error .pathUnavailable
  else
    match planLegs pools (poolsOfOpp opp) opp.tokenIn with
    | none => .error .pathUnavailable
    | some legs => .ok
      { vault
        borrowToken := opp.tokenIn
        amount := opp.inputAmount
        minProfit
        deadline
        legs
        provider }

/-! ## Chains of legs -/

variable {pools : PoolMap} {path : List Address} {legs : List ExecLeg} {a b token : Address}
  {opp : MevOpportunity} {plan : ExecPlan}

/-- The legs lead from `a` to `b`, each from the token that the one before it leaves. -/
def Chained : Address → List ExecLeg → Address → Prop
  | a, [], b => a = b
  | a, leg :: legs, b => leg.tokenIn = a ∧ Chained leg.tokenOut legs b

/-- The tokens of a pool: the two of its information. -/
def pairOf (pools : PoolMap) (pool : Address) : List Address :=
  match pools[pool]? with
  | some state => [state.info.token0, state.info.token1]
  | none => []

theorem otherToken_perm {state : PoolState} (h : otherToken state a = some b) :
    [a, b].Perm [state.info.token0, state.info.token1] := by
  unfold otherToken at h
  split_ifs at h with h₀ h₁
  · rw [← Option.some.inj h, ← h₀]
  · rw [← Option.some.inj h, ← h₁]
    exact List.Perm.swap ..

theorem classifyLeg_tokenOut {state : PoolState} {x : ℕ × ℕ × Address}
    (h : classifyLeg state a = some x) : otherToken state a = some x.2.2 := by
  obtain ⟨-, h⟩ := Option.ite_none_left_eq_some.mp h
  obtain ⟨tokenOut, hother, h⟩ := Option.bind_eq_some_iff.mp h
  have hmap {kind : ℕ} {fee : Option ℕ}
      (h : (fee.map fun fee => (kind, fee, tokenOut)) = some x) : tokenOut = x.2.2 := by
    obtain ⟨fee, -, rfl⟩ := Option.map_eq_some_iff.mp h
    rfl
  rw [hother]
  congr 1
  cases state with
  | uniswapV2 s => exact hmap (Option.ite_none_right_eq_some.mp h).2
  | uniswapV3 s => exact hmap (Option.ite_none_right_eq_some.mp h).2
  | _ => cases h

/-- The legs of a path follow each other, through the pools of the path. -/
theorem planLegs_chained (h : planLegs pools path a = some legs) :
    legs.map ExecLeg.pool = path ∧ (∃ b, Chained a legs b) ∧
      (legs.flatMap fun leg => [leg.tokenIn, leg.tokenOut]).Perm (path.flatMap (pairOf pools)) := by
  induction path generalizing a legs with
  | nil =>
    obtain rfl := Option.some.inj h
    exact ⟨rfl, ⟨a, rfl⟩, List.Perm.refl _⟩
  | cons pool path ih =>
    obtain ⟨state, hstate, h⟩ := Option.bind_eq_some_iff.mp h
    obtain ⟨⟨kind, fee, tokenOut⟩, hleg, h⟩ := Option.bind_eq_some_iff.mp h
    obtain ⟨rest, hrest, h⟩ := Option.bind_eq_some_iff.mp h
    obtain rfl := Option.some.inj h
    obtain ⟨hpools, ⟨b, hchain⟩, hperm⟩ := ih hrest
    have hpair : pairOf pools pool = [state.info.token0, state.info.token1] := by
      unfold pairOf
      rw [hstate]
    refine ⟨by rw [List.map_cons, hpools], ⟨b, rfl, hchain⟩, ?_⟩
    rw [List.flatMap_cons, List.flatMap_cons, hpair]
    exact (otherToken_perm (classifyLeg_tokenOut hleg)).append hperm

/-- A chain meets every token an even number of times, counting its two ends once more. -/
theorem Chained.even_count (h : Chained a legs b) (x : Address) :
    Even ((legs.flatMap fun leg => [leg.tokenIn, leg.tokenOut]).count x +
      [a].count x + [b].count x) := by
  induction legs generalizing a with
  | nil =>
    obtain rfl : a = b := h
    exact ⟨[a].count x, by rw [List.flatMap_nil, List.count_nil, zero_add]⟩
  | cons leg legs ih =>
    obtain ⟨rfl, h⟩ := h
    obtain ⟨k, hk⟩ := ih h
    refine ⟨k + [leg.tokenIn].count x, ?_⟩
    rw [List.flatMap_cons, List.count_append,
      show [leg.tokenIn, leg.tokenOut] = [leg.tokenIn] ++ [leg.tokenOut] from rfl,
      List.count_append]
    omega

/-- **A chain is closed exactly when it meets every token an even number of times.** -/
theorem Chained.even_count_iff (h : Chained a legs b) :
    (∀ x, Even ((legs.flatMap fun leg => [leg.tokenIn, leg.tokenOut]).count x)) ↔ a = b := by
  constructor
  · intro heven
    by_contra hne
    have hsum := h.even_count a
    rw [List.count_singleton_self, List.count_singleton,
      if_neg (by simpa using Ne.symm hne)] at hsum
    have := heven a
    rw [Nat.even_iff] at hsum this
    omega
  · rintro rfl x
    have hsum := h.even_count x
    rw [Nat.even_iff] at hsum ⊢
    omega

/-! ## Closed routes -/

/-- The path of an opportunity: the pools of its `path`, else its two pools. The zero address is no
    pool. -/
def route (opp : MevOpportunity) : List Address :=
  let path := (opp.path.getD []).filter (· ≠ 0)
  if path = [] then [opp.poolA, opp.poolB].filter (· ≠ 0) else path

/-- The legs visit the pools of the path in order, follow each other, and lead from the borrowed
    token back to it. -/
structure ClosedRoute (opp : MevOpportunity) (plan : ExecPlan) : Prop where
  pools : plan.legs.map ExecLeg.pool = route opp
  chain : plan.legs.IsChain fun l l' => l'.tokenIn = l.tokenOut
  starts : plan.legs.head?.map ExecLeg.tokenIn = some plan.borrowToken
  ends : plan.legs.getLast?.map ExecLeg.tokenOut = some plan.borrowToken

theorem nodup_foldl_addPool {l acc : List Address} (h : acc.Nodup) :
    (l.foldl addPool acc).Nodup := by
  induction l generalizing acc with
  | nil => exact h
  | cons p l ih =>
    refine ih ?_
    unfold addPool
    split_ifs with hp
    · exact h
    · rw [List.nodup_append]
      refine ⟨h, List.nodup_singleton p, fun a ha b hb hab => ?_⟩
      obtain rfl := List.mem_singleton.mp hb
      exact hp (.inr (hab ▸ ha))

/-- Pools without repetition are all taken, in order. -/
theorem foldl_addPool_of_nodup {l acc : List Address} (h : (acc ++ l.filter (· ≠ 0)).Nodup) :
    l.foldl addPool acc = acc ++ l.filter (· ≠ 0) := by
  induction l generalizing acc with
  | nil => simp
  | cons p l ih =>
    rw [List.foldl_cons]
    by_cases hp : p = 0
    · rw [List.filter_cons_of_neg (by simpa using hp)] at h ⊢
      rw [show addPool acc p = acc from if_pos (.inl hp)]
      exact ih h
    · rw [List.filter_cons_of_pos (by simpa using hp)] at h ⊢
      have hmem : p ∉ acc := by
        intro hmem
        exact (List.nodup_append.mp h).2.2 p hmem p (List.mem_cons_self ..) rfl
      rw [show addPool acc p = acc ++ [p] from if_neg (by tauto)]
      rw [List.append_cons] at h
      rw [ih h, List.append_assoc]
      rfl

theorem foldl_addPool_eq_nil {l : List Address} (h : l.filter (· ≠ 0) = []) :
    l.foldl addPool [] = [] := by
  rw [foldl_addPool_of_nodup (by rw [h]; exact List.nodup_nil), h]
  rfl

theorem filter_eq_nil_of_foldl_addPool {l acc : List Address} (h : l.foldl addPool acc = []) :
    l.filter (· ≠ 0) = [] := by
  have hgrow (l acc : List Address) : ∀ q ∈ acc, q ∈ l.foldl addPool acc := by
    induction l generalizing acc with
    | nil => exact fun q hq => hq
    | cons p l ih =>
      intro q hq
      refine ih _ q ?_
      unfold addPool
      split_ifs
      · exact hq
      · exact List.mem_append_left _ hq
  induction l generalizing acc with
  | nil => rfl
  | cons p l ih =>
    rw [List.foldl_cons] at h
    by_cases hp : p = 0
    · rw [List.filter_cons_of_neg (by simpa using hp)]
      exact ih h
    · have hmem : p ∈ addPool acc p := by
        unfold addPool
        split_ifs with hacc
        · exact hacc.resolve_left hp
        · exact List.mem_append_right _ (List.mem_singleton.mpr rfl)
      have := hgrow l _ p hmem
      rw [h] at this
      cases this

/-- The pools of an opportunity are its path exactly when the path has no pool twice. -/
theorem poolsOfOpp_eq_route_iff (opp : MevOpportunity) :
    poolsOfOpp opp = route opp ↔ (route opp).Nodup := by
  have hpair : addPool (addPool [] opp.poolA) opp.poolB =
      [opp.poolA, opp.poolB].foldl addPool [] := rfl
  unfold poolsOfOpp route
  dsimp only
  rw [hpair]
  by_cases hpath : (opp.path.getD []).filter (· ≠ 0) = []
  · rw [if_pos hpath, if_pos (foldl_addPool_eq_nil hpath)]
    constructor
    · intro h
      rw [← h]
      exact nodup_foldl_addPool List.nodup_nil
    · exact fun h => foldl_addPool_of_nodup h
  · rw [if_neg hpath, if_neg fun h => hpath (filter_eq_nil_of_foldl_addPool h)]
    constructor
    · intro h
      rw [← h]
      exact nodup_foldl_addPool List.nodup_nil
    · exact fun h => foldl_addPool_of_nodup h

/-- What an accepted plan is made of. -/
theorem planFromOpportunity_ok {vault : Address} {provider : FlashLoanProvider}
    {minProfit deadline : ℕ}
    (h : planFromOpportunity opp pools vault provider minProfit deadline = .ok plan) :
    poolsOfOpp opp ≠ [] ∧ planLegs pools (poolsOfOpp opp) opp.tokenIn = some plan.legs ∧
      plan = ⟨vault, opp.tokenIn, opp.inputAmount, minProfit, deadline, plan.legs, provider⟩ := by
  unfold planFromOpportunity at h
  split_ifs at h with h₁ h₂ h₃ h₄ hpath h₆
  cases hlegs : planLegs pools (poolsOfOpp opp) opp.tokenIn with
  | none =>
    rw [hlegs] at h
    cases h
  | some legs =>
    rw [hlegs] at h
    obtain rfl := Except.ok.inj h
    exact ⟨hpath, rfl, rfl⟩

theorem Chained.isChain (h : Chained a legs b) :
    legs.IsChain fun l l' => l'.tokenIn = l.tokenOut := by
  induction legs generalizing a with
  | nil => exact List.isChain_nil
  | cons leg legs ih =>
    obtain ⟨-, h⟩ := h
    cases legs with
    | nil => exact List.isChain_singleton _
    | cons next legs => exact List.isChain_cons_cons.mpr ⟨h.1, ih h⟩

theorem Chained.head? (h : Chained a legs b) (hne : legs ≠ []) :
    legs.head?.map ExecLeg.tokenIn = some a := by
  cases legs with
  | nil => exact absurd rfl hne
  | cons leg legs => exact congrArg some h.1

theorem Chained.getLast? (h : Chained a legs b) (hne : legs ≠ []) :
    legs.getLast?.map ExecLeg.tokenOut = some b := by
  induction legs generalizing a with
  | nil => exact absurd rfl hne
  | cons leg legs ih =>
    obtain ⟨-, h⟩ := h
    cases legs with
    | nil => exact congrArg some h
    | cons next legs =>
      rw [List.getLast?_cons_cons]
      exact ih h (List.cons_ne_nil _ _)

/-- **Main theorem.** An accepted plan is a closed route exactly when its path has no pool twice,
    and every token occurs an even number of times among the pairs of its pools. -/
theorem closedRoute_iff {vault : Address} {provider : FlashLoanProvider} {minProfit deadline : ℕ}
    (h : planFromOpportunity opp pools vault provider minProfit deadline = .ok plan) :
    ClosedRoute opp plan ↔
      (route opp).Nodup ∧ ∀ token, Even (((route opp).flatMap (pairOf pools)).count token) := by
  obtain ⟨hpath, hlegs, hplan⟩ := planFromOpportunity_ok h
  obtain ⟨hpools, ⟨b, hchain⟩, hperm⟩ := planLegs_chained hlegs
  have hborrow : plan.borrowToken = opp.tokenIn := by rw [hplan]
  have hne : plan.legs ≠ [] := by
    rintro hnil
    rw [hnil] at hpools
    exact hpath hpools.symm
  have heven : (∀ token, Even (((poolsOfOpp opp).flatMap (pairOf pools)).count token)) ↔
      opp.tokenIn = b := by
    rw [← hchain.even_count_iff]
    simp only [hperm.count_eq]
  constructor
  · intro hclosed
    have hroute : poolsOfOpp opp = route opp := hpools.symm.trans hclosed.pools
    refine ⟨(poolsOfOpp_eq_route_iff opp).mp hroute, ?_⟩
    rw [← hroute, heven]
    have hends := hclosed.ends
    rw [hchain.getLast? hne, hborrow] at hends
    exact (Option.some.inj hends).symm
  · rintro ⟨hnodup, hall⟩
    have hroute := (poolsOfOpp_eq_route_iff opp).mpr hnodup
    rw [← hroute, heven] at hall
    refine ⟨hpools.trans hroute, hchain.isChain, ?_, ?_⟩
    · rw [hchain.head? hne, hborrow]
    · rw [hchain.getLast? hne, hborrow, hall]

/-! ## Two pools of one pair -/

/-- A V2 pool of the tokens 1 and 2. -/
def pairPool (addr : Address) : PoolState :=
  .uniswapV2
    { info := { address := addr, token0 := 1, token1 := 2, fee := 30 }
      reserve0 := 10 ^ 6
      reserve1 := 10 ^ 6 }

/-- The pools at 11 and 12 are of the tokens 1 and 2. -/
def twoPools : PoolMap := {(11, pairPool 11), (12, pairPool 12)}

/-- An opportunity that borrows 1000 of the token 1. -/
def borrowOpp (path : List Address) : MevOpportunity :=
  { blockNumber := 1
    txIndex := 0
    strategy := .multiHopArb
    tokenIn := 1
    inputAmount := 1000
    gasCostWei_lt := noGas_lt
    path := some path }

/-- A V2 leg through a pool of the tokens 1 and 2. -/
def pairLeg (pool tokenIn tokenOut : Address) : ExecLeg := ⟨pool, tokenIn, tokenOut, legV2, 30⟩

/-- The plan of `borrowOpp` with some legs. -/
def borrowPlan (legs : List ExecLeg) : ExecPlan := ⟨9, 1, 1000, 1, 12, legs, .auto⟩

/-- Out through the pool at 11 and back through the one at 12. -/
theorem two_pools_closed :
    planFromOpportunity (borrowOpp [11, 12]) twoPools 9 .auto 1 12 =
        .ok (borrowPlan [pairLeg 11 1 2, pairLeg 12 2 1]) ∧
      ClosedRoute (borrowOpp [11, 12]) (borrowPlan [pairLeg 11 1 2, pairLeg 12 2 1]) := by
  have hplan : planFromOpportunity (borrowOpp [11, 12]) twoPools 9 .auto 1 12 =
      .ok (borrowPlan [pairLeg 11 1 2, pairLeg 12 2 1]) := by decide +kernel
  refine ⟨hplan, (closedRoute_iff hplan).mpr ⟨by decide +kernel, fun token => ?_⟩⟩
  have hpairs : (route (borrowOpp [11, 12])).flatMap (pairOf twoPools) = [1, 2] ++ [1, 2] := by
    decide +kernel
  rw [hpairs, List.count_append]
  exact ⟨_, rfl⟩

/-- The way out alone is a plan, and so is the way out twice through one pool, whose second leg,
    the way back, is left out. -/
theorem open_route_planned :
    planFromOpportunity (borrowOpp [11]) twoPools 9 .auto 1 12 =
        .ok (borrowPlan [pairLeg 11 1 2]) ∧
      ¬ClosedRoute (borrowOpp [11]) (borrowPlan [pairLeg 11 1 2]) ∧
      planFromOpportunity (borrowOpp [11, 11]) twoPools 9 .auto 1 12 =
        .ok (borrowPlan [pairLeg 11 1 2]) ∧
      ¬ClosedRoute (borrowOpp [11, 11]) (borrowPlan [pairLeg 11 1 2]) := by
  have hopen (path : List Address) :
      ¬ClosedRoute (borrowOpp path) (borrowPlan [pairLeg 11 1 2]) := fun h =>
    absurd (Option.some.inj h.ends : (2 : Address) = 1) (by decide)
  exact ⟨by decide +kernel, hopen _, by decide +kernel, hopen _⟩

end MevScout.Exec
