import MevScout.Common.Abi
import MevScout.Exec.Executor

/-!
# Calldata of a plan

Models of `core/src/exec/calldata.rs` and of the types of `execute` in
`contracts/src/FlashArbExecutor.sol`. The encoder writes its words one by one; the contract decodes
them with the codec of its argument types. What stands in the calldata of an accepted plan is the
encoding of that plan, so the contract reads the plan back.

`keccak256` is a parameter; both sides take four bytes of the hash of one signature.

Results:
* `executeSig_eq`: the signature is that of the contract's types;
* `encodeExecute_eq`: the calldata is the selector and the encoding of the arguments;
* `decodeExecute_encodeExecute`: the contract reads the plan back.
-/

namespace MevScout.Exec

open Abi Paper Pool

/-! ## The encoder -/

/-- `EXECUTE_SIG` (`calldata.rs`, lines 11–12). -/
def executeSig : String :=
  "execute((address,address,uint256,uint256,uint256,(address,address,address,uint8,uint24)[]))"

/-- The first four bytes of the hash of a signature. -/
def selectorOf (keccak256 : List UInt8 → B256) (sig : String) : List UInt8 :=
  (beBytes 32 (keccak256 sig.toUTF8.data.toList).toNat).take 4

/-- Model of `execute_selector` (`calldata.rs`, lines 14–19). -/
def executeSelector (keccak256 : List UInt8 → B256) : List UInt8 := selectorOf keccak256 executeSig

/-- Model of `word_addr` (`calldata.rs`, lines 45–49). -/
def wordAddr (addr : Address) : List UInt8 := List.replicate 12 0 ++ beBytes 20 addr.toNat

/-- Model of `word_u256` (`calldata.rs`, lines 51–53). -/
def wordU256 (v : ℕ) : List UInt8 := beBytes 32 v

/-- Model of `word_u64` (`calldata.rs`, lines 55–59). -/
def wordU64 (v : ℕ) : List UInt8 := List.replicate 24 0 ++ beBytes 8 v

/-- Model of `encode_execute` (`calldata.rs`, lines 21–43). -/
def encodeExecute (keccak256 : List UInt8 → B256) (plan : ExecPlan) : List UInt8 :=
  executeSelector keccak256 ++ wordU64 32 ++
    wordAddr plan.vault ++ wordAddr plan.borrowToken ++
    wordU256 plan.amount ++ wordU256 plan.minProfit ++ wordU64 plan.deadline ++
    wordU64 (32 * 6) ++ wordU64 (plan.legs.length % 2 ^ 64) ++
    plan.legs.flatMap fun leg =>
      wordAddr leg.pool ++ wordAddr leg.tokenIn ++ wordAddr leg.tokenOut ++
        wordU64 leg.kind ++ wordU64 leg.fee

/-! ## The types of the contract -/

/-- `Leg` (`FlashArbExecutor.sol`, lines 75–82). -/
def legCodec : Codec ExecLeg :=
  (Fields.cons .address <| .cons .address <| .cons .address <|
    .cons (.uint 8 (by decide)) <| .cons (.uint 24 (by decide)) .nil).tuple.map
    (fun (pool, tokenIn, tokenOut, kind, fee, ()) => ⟨pool, tokenIn, tokenOut, kind, fee⟩)
    (fun leg => (leg.pool, leg.tokenIn, leg.tokenOut, leg.kind, leg.fee, ())) fun _ => rfl

/-- Model of `Plan` (`FlashArbExecutor.sol`, lines 84–91). -/
structure ContractPlan where
  vault : Address
  borrowToken : Address
  amount : ℕ
  minProfit : ℕ
  deadline : ℕ
  legs : List ExecLeg
  deriving DecidableEq

/-- `Plan` as a type of the ABI. -/
def planCodec : Codec ContractPlan :=
  (Fields.cons .address <| .cons .address <| .cons (.uint 256 le_rfl) <|
    .cons (.uint 256 le_rfl) <| .cons (.uint 256 le_rfl) <| .cons legCodec.array .nil).tuple.map
    (fun (vault, borrowToken, amount, minProfit, deadline, legs, ()) =>
      ⟨vault, borrowToken, amount, minProfit, deadline, legs⟩)
    (fun plan => (plan.vault, plan.borrowToken, plan.amount, plan.minProfit, plan.deadline,
      plan.legs, ())) fun _ => rfl

/-- The arguments of `execute`. -/
def executeArgs : Codec ContractPlan :=
  (Fields.cons planCodec .nil).tuple.map Prod.fst (·, ()) fun _ => rfl

/-- The call that the contract takes for one of `execute`, decoded. -/
def decodeExecute (keccak256 : List UInt8 → B256) (data : List UInt8) : Option ContractPlan :=
  if data.take 4 = selectorOf keccak256 ("execute" ++ executeArgs.name) then
    executeArgs.decode (data.drop 4) 0
  else none

/-- What the contract reads of a plan. -/
def contractPlan (plan : ExecPlan) : ContractPlan :=
  ⟨plan.vault, plan.borrowToken, plan.amount, plan.minProfit, plan.deadline, plan.legs⟩

/-- The signature is the one of the contract's types. -/
theorem executeSig_eq : executeSig = "execute" ++ executeArgs.name := by decide +kernel

/-! ## The calldata of a plan -/

theorem replicate_append_beBytes {m k n : ℕ} (h : n < 256 ^ k) :
    List.replicate m 0 ++ beBytes k n = beBytes (m + k) n := by
  rw [beBytes_add, Nat.div_eq_of_lt h, beBytes_zero]

theorem wordAddr_eq (addr : Address) : wordAddr addr = beBytes 32 addr.toNat :=
  replicate_append_beBytes (lt_of_lt_of_le addr.isLt (by decide))

theorem wordU64_eq {v : ℕ} (h : v < 2 ^ 64) : wordU64 v = beBytes 32 v :=
  replicate_append_beBytes (lt_of_lt_of_le h (by decide))

theorem encode_legCodec (leg : ExecLeg) : legCodec.encode leg =
    [leg.pool.toNat, leg.tokenIn.toNat, leg.tokenOut.toNat, leg.kind, leg.fee] := rfl

theorem encode_executeArgs (plan : ContractPlan) : executeArgs.encode plan =
    [32, plan.vault.toNat, plan.borrowToken.toNat, plan.amount, plan.minProfit, plan.deadline,
      32 * 6, plan.legs.length] ++ plan.legs.flatMap legCodec.encode := by
  have hlegs : layout (plan.legs.map legCodec.part) = plan.legs.flatMap legCodec.encode := by
    rw [layout_of_static, List.flatMap_map]
    · rfl
    · intro p hp
      obtain ⟨leg, -, rfl⟩ := List.mem_map.mp hp
      rfl
  -- the tails of the plan and of the arguments end with those of no further component
  have hencode : executeArgs.encode plan =
      [32] ++ (([plan.vault.toNat, plan.borrowToken.toNat, plan.amount, plan.minProfit,
        plan.deadline, 32 * 6] ++
          ((plan.legs.length :: layout (plan.legs.map legCodec.part)) ++ [])) ++ []) := rfl
  rw [hencode, hlegs]
  simp

/-- The legs have fields of the contract's widths. -/
structure Fits (plan : ExecPlan) : Prop where
  amount : plan.amount < 2 ^ 256
  minProfit : plan.minProfit < 2 ^ 256
  deadline : plan.deadline < 2 ^ 64
  length : plan.legs.length < 2 ^ 64
  kind : ∀ leg ∈ plan.legs, leg.kind < 2 ^ 8
  fee : ∀ leg ∈ plan.legs, leg.fee < 2 ^ 24

variable {keccak256 : List UInt8 → B256} {plan : ExecPlan} {opp : MevOpportunity}
  {pools : PoolMap} {leg : ExecLeg}

theorem encodeExecute_eq (h : Fits plan) : encodeExecute keccak256 plan =
    executeSelector keccak256 ++ encodeWords (executeArgs.encode (contractPlan plan)) := by
  have hlegs : (plan.legs.flatMap fun leg => wordAddr leg.pool ++ wordAddr leg.tokenIn ++
      wordAddr leg.tokenOut ++ wordU64 leg.kind ++ wordU64 leg.fee) =
      encodeWords (plan.legs.flatMap legCodec.encode) := by
    rw [encodeWords, List.flatMap_assoc]
    refine List.flatMap_congr fun leg hleg => ?_
    have hkind := h.kind leg hleg
    have hfee := h.fee leg hleg
    rw [encode_legCodec, wordU64_eq (by omega), wordU64_eq (by omega)]
    simp [wordAddr_eq, List.append_assoc]
  unfold encodeExecute
  rw [hlegs, encode_executeArgs, encodeWords, encodeWords, List.flatMap_append,
    Nat.mod_eq_of_lt h.length, wordU64_eq h.length, wordU64_eq h.deadline, wordU64_eq (by decide),
    wordU64_eq (by decide)]
  simp [wordAddr_eq, wordU256, contractPlan, List.append_assoc]

/-- The kind and the fee of a leg. -/
theorem classifyLeg_range {state : PoolState} {a tokenOut : Address} {kind fee : ℕ}
    (h : classifyLeg state a = some (kind, fee, tokenOut)) :
    (kind = legV2 ∨ kind = legV3) ∧ fee < 2 ^ 24 := by
  obtain ⟨-, h⟩ := Option.ite_none_left_eq_some.mp h
  obtain ⟨other, -, h⟩ := Option.bind_eq_some_iff.mp h
  cases state with
  | uniswapV2 s =>
    obtain ⟨-, h⟩ := Option.ite_none_right_eq_some.mp h
    obtain ⟨fee', hfee, heq⟩ := Option.map_eq_some_iff.mp h
    simp only [Prod.mk.injEq] at heq
    obtain ⟨rfl, rfl, -⟩ := heq
    refine ⟨.inl rfl, ?_⟩
    unfold v2LegFee at hfee
    split at hfee
    · obtain ⟨hrange, hsome⟩ := Option.ite_none_right_eq_some.mp hfee
      rw [← Option.some.inj hsome]
      omega
    · rw [← Option.some.inj hfee]
      decide
    · rw [← Option.some.inj hfee]
      decide
    · cases hfee
  | uniswapV3 s =>
    obtain ⟨-, h⟩ := Option.ite_none_right_eq_some.mp h
    obtain ⟨fee', hfee, heq⟩ := Option.map_eq_some_iff.mp h
    simp only [Prod.mk.injEq] at heq
    obtain ⟨rfl, rfl, -⟩ := heq
    refine ⟨.inr rfl, ?_⟩
    unfold v3LegFee at hfee
    split at hfee
    · obtain ⟨hrange, hsome⟩ := Option.ite_none_right_eq_some.mp hfee
      rw [← Option.some.inj hsome]
      omega
    all_goals cases hfee
  | _ => cases h

theorem fits_of_plan {vault : Address} {provider : FlashLoanProvider} {minProfit deadline : ℕ}
    (h : planFromOpportunity opp pools vault provider minProfit deadline = .ok plan)
    (hamount : opp.inputAmount < 2 ^ 256) (hprofit : minProfit < 2 ^ 256)
    (hdeadline : deadline < 2 ^ 64) (hlen : plan.legs.length < 2 ^ 64) : Fits plan := by
  obtain ⟨-, hlegs, hplan⟩ := planFromOpportunity_ok h
  have hrange (leg : ExecLeg) (hleg : leg ∈ plan.legs) :
      (leg.kind = legV2 ∨ leg.kind = legV3) ∧ leg.fee < 2 ^ 24 := by
    obtain ⟨state, -, hclass⟩ := classifyLeg_of_mem hlegs hleg
    exact classifyLeg_range hclass
  refine ⟨by rwa [hplan], by rwa [hplan], by rwa [hplan], hlen, fun leg hleg => ?_,
    fun leg hleg => (hrange leg hleg).2⟩
  rcases (hrange leg hleg).1 with hkind | hkind <;> rw [hkind] <;> decide

theorem valid_executeArgs (h : Fits plan) : executeArgs.Valid (contractPlan plan) := by
  have haddr (a : Address) : a.toNat < 2 ^ 160 := a.isLt
  have hdeadline := h.deadline
  have hlength := h.length
  refine ⟨⟨haddr _, haddr _, h.amount, h.minProfit, ?_, ⟨?_, fun leg hleg => ?_⟩, trivial⟩,
    trivial⟩
  · show plan.deadline < 2 ^ 256
    omega
  · show plan.legs.length < 2 ^ 256
    omega
  · exact ⟨haddr _, haddr _, haddr _, h.kind leg hleg, h.fee leg hleg, trivial⟩

/-- **Main theorem.** The contract decodes the calldata of an accepted plan to that plan. The
    bounds are those of `U256`, `u64` and of the length of a `Vec`. -/
theorem decodeExecute_encodeExecute (keccak256 : List UInt8 → B256) {vault : Address}
    {provider : FlashLoanProvider} {minProfit deadline : ℕ}
    (hplan : planFromOpportunity opp pools vault provider minProfit deadline = .ok plan)
    (hamount : opp.inputAmount < 2 ^ 256) (hprofit : minProfit < 2 ^ 256)
    (hdeadline : deadline < 2 ^ 64) (hlen : plan.legs.length < 2 ^ 64) :
    decodeExecute keccak256 (encodeExecute keccak256 plan) =
      some ⟨plan.vault, plan.borrowToken, plan.amount, plan.minProfit, plan.deadline,
        plan.legs⟩ := by
  have hfits := fits_of_plan hplan hamount hprofit hdeadline hlen
  have hselector : (executeSelector keccak256).length = 4 := by
    rw [executeSelector, selectorOf, List.length_take, length_beBytes]
    rfl
  unfold decodeExecute
  rw [encodeExecute_eq hfits, List.take_left' hselector, List.drop_left' hselector, ← executeSig_eq,
    if_pos (show executeSelector keccak256 = selectorOf keccak256 executeSig from rfl)]
  refine executeArgs.decode_encode (valid_executeArgs hfits) ?_
  have hlegs : (plan.legs.flatMap legCodec.encode).length = 5 * plan.legs.length := by
    rw [List.length_flatMap, show (fun leg => (legCodec.encode leg).length) = fun _ => 5 from rfl,
      List.map_const', List.sum_replicate, smul_eq_mul, Nat.mul_comm]
  rw [encode_executeArgs, List.length_append]
  show 32 * (8 + (plan.legs.flatMap legCodec.encode).length) < 2 ^ 256
  omega

/-- A hash that is right for the signature. -/
def sigHash (_ : List UInt8) : B256 :=
  0x8f6e89440a55f2244b2283a1afd9d74e1ab5700514ddb694880ae326850d0770

/-- Out through one pool and back through the other one. -/
theorem two_pools_decoded :
    decodeExecute sigHash (encodeExecute sigHash
        (borrowPlan [pairLeg 11 1 2, pairLeg 12 2 1])) =
      some ⟨9, 1, 1000, 1, 12, [pairLeg 11 1 2, pairLeg 12 2 1]⟩ := by
  have hplan : planFromOpportunity (borrowOpp [11, 12]) twoPools 9 .auto 1 12 =
      .ok (borrowPlan [pairLeg 11 1 2, pairLeg 12 2 1]) := by decide +kernel
  exact decodeExecute_encodeExecute sigHash hplan (by decide) (by decide) (by decide) (by decide)

end MevScout.Exec
