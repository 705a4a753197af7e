import MevScout.Explorer.Decode

/-!
# The tokens of decoded swaps

Models of `attach_swap_tokens` (`core/src/explorer/decode/attach.rs`), which gives a decoded swap
its tokens: from the pool registry where the log names the side, else from the transfers of the
transaction around the log.

Results:
* `decodeSwap_sided`: the log of a pool names nothing, the token that comes in, or both tokens;
* `attachSwapTokens_right`: a direction that the log names is that of the registered pair, other
  tokens are those of transfers through the pool, the window never gives both sides one token, and
  the source is the registry exactly when it gave both tokens.
-/

namespace MevScout.Explorer

open MevScout.Chain MevScout.Pool

/-! ## Sides -/

/-- A transfer with its position in the receipt, which only the pairing reads (`types.rs`, line
    327). -/
structure PlacedTransfer extends TransferFact where
  logIndex : ℕ

/-- Model of `LegSource` (`types.rs`, lines 393–401). -/
inductive LegSource where
  | registry | transfer | proximity
  deriving DecidableEq

/-- A swap with its `token_source` (`types.rs`, line 428). -/
structure AttachedSwap extends SwapFact where
  tokenSource : LegSource

/-- Model of `SideHow` (lines 15–20). -/
inductive SideHow where
  | registry | transfer | proximity
  deriving DecidableEq

/-- Model of `combine_leg_source` (lines 22–30). -/
def combineLegSource : Option SideHow → Option SideHow → LegSource
  | some .proximity, _ | _, some .proximity | none, _ | _, none => .proximity
  | some .transfer, _ | _, some .transfer => .transfer
  | some .registry, some .registry => .registry

/-- The token of a side and how it was bound. -/
structure Side where
  token : Address
  how : Option SideHow

/-- A side as it is decoded (lines 72–81). -/
def Side.decoded (token : Address) : Side where
  token := token
  how := if isUnresolvedToken token then none else some .proximity

/-- A side that is still open is bound to the token that was found for it. -/
def Side.bind (x : Side) (found : Option Address) (how : SideHow) : Side :=
  if isUnresolvedToken x.token then found.elim x fun token => ⟨token, some how⟩ else x

/-! ## The registry -/

/-- A sentinel is mapped to its token of the pair (lines 87–96). -/
def mapSentinel (pair : Address × Address) (t : Address) : Address :=
  if t = token0Sentinel then pair.1 else if t = token1Sentinel then pair.2 else t

/-- An open side becomes the other token of the pair (lines 97–102). -/
def complementToken (pair : Address × Address) (t other : Address) : Address :=
  if isUnresolvedToken t ∧ !isUnresolvedToken other then
    if other = pair.1 then pair.2 else pair.1
  else t

/-- The tokens that the registry gives (lines 85–102). -/
def registryTokens (pair : Address × Address) (tokenIn tokenOut : Address) : Address × Address :=
  let tokenIn := mapSentinel pair tokenIn
  let tokenOut := mapSentinel pair tokenOut
  let tokenIn := complementToken pair tokenIn tokenOut
  (tokenIn, complementToken pair tokenOut tokenIn)

/-- A side that the registry changed to a resolved token is bound by it (lines 103–108). -/
def Side.registered (x : Side) (token : Address) : Side where
  token := token
  how := if token ≠ x.token ∧ !isUnresolvedToken token then some .registry else x.how

/-- The registry stage (lines 84–109). -/
def registryStage (pair : Option (Address × Address)) (x : Side × Side) : Side × Side :=
  pair.elim x fun pair =>
    let tokens := registryTokens pair x.1.token x.2.token
    (x.1.registered tokens.1, x.2.registered tokens.2)

/-! ## The transfers -/

/-- The entry of the pool in `by_counterparty` (lines 57–63). -/
def counterpartyTransfers (transfers : List PlacedTransfer) (pool : Address) :
    List PlacedTransfer :=
  transfers.filter fun t => t.sender = pool ∨ t.recipient = pool

/-- The signed distance of a transfer from the log of a swap, in `i64`. -/
def logDistance (s : SwapFact) (t : PlacedTransfer) : ℤ :=
  wrapSigned 64 (asSigned 64 t.logIndex - asSigned 64 s.logIndex)

/-- `dist.abs()` of an `i64`. -/
def logGap (s : SwapFact) (t : PlacedTransfer) : ℤ := wrapSigned 64 |logDistance s t|

/-- The nearer of two transfers, the earlier one of equally near ones (lines 127–134). -/
def nearerTransfer (s : SwapFact) (best : Option (ℤ × PlacedTransfer)) (t : PlacedTransfer) :
    Option (ℤ × PlacedTransfer) :=
  match best with
  | some (d, b) => if d ≤ logGap s t then some (d, b) else some (logGap s t, t)
  | none => some (logGap s t, t)

/-- The nearest of the transfers that pass a test. -/
def nearest (s : SwapFact) (ok : PlacedTransfer → Bool) (candidates : List PlacedTransfer) :
    Option PlacedTransfer :=
  ((candidates.filter ok).foldl (nearerTransfer s) none).map Prod.snd

/-- The nearest transfer into the pool before the log (line 125). -/
def nearestBefore (s : SwapFact) (candidates : List PlacedTransfer) : Option PlacedTransfer :=
  nearest s (fun t => logDistance s t < 0 ∧ t.recipient = s.pool) candidates

/-- The nearest transfer out of the pool after the log (line 135). -/
def nearestAfter (s : SwapFact) (candidates : List PlacedTransfer) : Option PlacedTransfer :=
  nearest s (fun t => 0 < logDistance s t ∧ t.sender = s.pool) candidates

/-- The pairing stage (lines 111–156). -/
def transferStage (s : SwapFact) (candidates : List PlacedTransfer) (x : Side × Side) :
    Side × Side :=
  (x.1.bind (((nearestBefore s candidates).map (·.token)).filter (· ≠ 0)) .transfer,
    x.2.bind (((nearestAfter s candidates).map (·.token)).filter (· ≠ 0)) .transfer)

/-- Model of `PROXIMITY_LOG_WINDOW` (line 13). -/
def proximityLogWindow : ℤ := 24

/-- A transfer in the window whose token is not the one of the other side (lines 164–172 and
    187–195). -/
def inWindow (s : SwapFact) (other : Address) (t : PlacedTransfer) : Bool :=
  logGap s t ≠ 0 ∧ logGap s t ≤ proximityLogWindow ∧ t.token ≠ 0 ∧ t.token ≠ other

/-- The window stage for the output side (lines 161–182). -/
def windowOut (s : SwapFact) (candidates : List PlacedTransfer) (x : Side × Side) : Side × Side :=
  (x.1, x.2.bind ((nearest s (fun t => t.sender = s.pool ∧ inWindow s x.1.token t)
    candidates).map (·.token)) .proximity)

/-- The window stage for the input side (lines 183–206). -/
def windowIn (s : SwapFact) (candidates : List PlacedTransfer) (x : Side × Side) : Side × Side :=
  if x.2.token = 0 then x
  else (x.1.bind ((nearest s (fun t => t.recipient = s.pool ∧ inWindow s x.2.token t)
    candidates).map (·.token)) .proximity, x.2)

/-! ## Attachment -/

/-- Both sides after all stages. -/
def attachSides (transfers : List PlacedTransfer) (pair : Option (Address × Address))
    (s : SwapFact) : Side × Side :=
  let candidates := counterpartyTransfers transfers s.pool
  windowIn s candidates (windowOut s candidates (transferStage s candidates
    (registryStage pair (.decoded s.tokenIn, .decoded s.tokenOut))))

/-- The body of the loop of `attach_swap_tokens` (lines 65–208). -/
def attachSwap (transfers : List PlacedTransfer)
    (poolTokens : Address → Option (Address × Address)) (s : SwapFact) : AttachedSwap :=
  if s.amm = .balancer then { s with tokenSource := .proximity }
  else
    let x := attachSides transfers (poolTokens s.pool) s
    { s with
      tokenIn := x.1.token
      tokenOut := x.2.token
      owner := s.owner <|>
        (nearestBefore s (counterpartyTransfers transfers s.pool)).map (·.sender)
      tokenSource := combineLegSource x.1.how x.2.how }

/-- Model of `attach_swap_tokens` (lines 49–209). -/
def attachSwapTokens (swaps : List SwapFact) (transfers : List PlacedTransfer)
    (poolTokens : Address → Option (Address × Address)) : List AttachedSwap :=
  swaps.map (attachSwap transfers poolTokens)

/-! ## The sides that a log names -/

/-- What the log of a pool names: nothing, the token that comes in, or both tokens. -/
def SwapFact.Sided (s : SwapFact) : Prop :=
  (s.tokenIn = 0 ∧ s.tokenOut = 0) ∨
    (s.tokenIn = token0Sentinel ∧ (s.tokenOut = 0 ∨ s.tokenOut = token1Sentinel)) ∨
    (s.tokenIn = token1Sentinel ∧ (s.tokenOut = 0 ∨ s.tokenOut = token0Sentinel))

section

variable {log : ExecutedLog} {amm amm' : Amm} {fact : SwapFact} {pool : Address}

theorem signedSides_sided {s : SwapFact} (a0 a1 : ℤ) (hout : s.tokenOut = 0) :
    (signedSides s a0 a1).Sided := by
  unfold signedSides
  split_ifs
  · exact .inr (.inl ⟨rfl, .inl hout⟩)
  · exact .inr (.inr ⟨rfl, .inl hout⟩)

theorem sentinelSides_sided (s : SwapFact) (zeroForOne : Bool) :
    (sentinelSides s zeroForOne).Sided := by
  unfold sentinelSides
  split_ifs
  · exact .inr (.inl ⟨rfl, .inr rfl⟩)
  · exact .inr (.inr ⟨rfl, .inr rfl⟩)

theorem applyV2Sides_sided {s : SwapFact} (hin : s.tokenIn = 0) (hout : s.tokenOut = 0)
    (a0i a1i a0o a1o : ℕ) : (applyV2Sides s a0i a1i a0o a1o).Sided := by
  unfold applyV2Sides
  split_ifs
  · exact .inr (.inl ⟨rfl, .inr rfl⟩)
  · exact .inr (.inr ⟨rfl, .inr rfl⟩)
  · exact .inl ⟨hin, hout⟩

theorem decodeV2Like_sided (h : decodeV2Like log amm = some (amm', fact)) : fact.Sided := by
  unfold decodeV2Like at h
  dsimp only at h
  split_ifs at h
  obtain ⟨-, rfl⟩ := Prod.mk.inj (Option.some.inj h)
  exact applyV2Sides_sided rfl rfl _ _ _ _

theorem signedDeltas_sided {s fact' : SwapFact} {data : List UInt8} {a0 a1 : ℤ}
    (hout : s.tokenOut = 0)
    (h : (if a0 = 0 ∧ a1 = 0 then none
      else if data.length ≥ 160 then
        some { signedSides s a0 a1 with tick := some (signedFromBeBytes (slice data 156 160)) }
      else some (signedSides s a0 a1)) = some fact') : fact'.Sided := by
  split_ifs at h
  · obtain rfl := Option.some.inj h
    exact signedSides_sided a0 a1 hout
  · obtain rfl := Option.some.inj h
    exact signedSides_sided a0 a1 hout

theorem decodeSignedAt_sided (h : decodeSignedAt log amm pool = some (amm', fact)) :
    fact.Sided := by
  obtain ⟨fact', hfact, heq⟩ := Option.map_eq_some_iff.mp h
  obtain ⟨-, rfl⟩ := Prod.mk.inj heq
  unfold applySignedDeltas at hfact
  by_cases hlen : log.data.length < 64
  · rw [if_pos hlen] at hfact
    cases hfact
  · rw [if_neg hlen] at hfact
    exact signedDeltas_sided rfl hfact

theorem decodePoolIdSigned_sided (h : decodePoolIdSigned log amm = some (amm', fact)) :
    fact.Sided := by
  unfold decodePoolIdSigned at h
  split at h
  · exact decodeSignedAt_sided h
  · cases h

theorem decodeCurve_sided (h : decodeCurve log = some (amm', fact)) : fact.Sided := by
  unfold decodeCurve at h
  split_ifs at h
  have hfact := (Prod.mk.inj (Option.some.inj h)).2
  rw [← hfact]
  exact .inl ⟨rfl, rfl⟩

theorem decodeLb_sided (h : decodeLb log = some (amm', fact)) : fact.Sided := by
  unfold decodeLb at h
  dsimp only at h
  split_ifs at h
  obtain ⟨-, rfl⟩ := Prod.mk.inj (Option.some.inj h)
  exact sentinelSides_sided _ _

theorem decodeLbLegacy_sided (h : decodeLbLegacy log = some (amm', fact)) : fact.Sided := by
  unfold decodeLbLegacy at h
  dsimp only at h
  split_ifs at h <;> dsimp only at h <;> split_ifs at h <;>
    obtain ⟨-, rfl⟩ := Prod.mk.inj (Option.some.inj h) <;> exact sentinelSides_sided _ _

theorem decodePendle_sided (h : decodePendle log = some (amm', fact)) : fact.Sided := by
  unfold decodePendle at h
  dsimp only at h
  split_ifs at h
  obtain ⟨-, rfl⟩ := Prod.mk.inj (Option.some.inj h)
  exact .inl ⟨rfl, rfl⟩

theorem decodeFluid_sided (h : decodeFluid log = some (amm', fact)) : fact.Sided := by
  unfold decodeFluid at h
  dsimp only at h
  split_ifs at h
  obtain ⟨-, rfl⟩ := Prod.mk.inj (Option.some.inj h)
  exact sentinelSides_sided _ _

theorem decodeMetric_sided (h : decodeMetric log = some (amm', fact)) : fact.Sided := by
  unfold decodeMetric at h
  dsimp only at h
  split_ifs at h
  obtain ⟨-, rfl⟩ := Prod.mk.inj (Option.some.inj h)
  exact signedSides_sided _ _ rfl

theorem decodeBalancer_amm (h : decodeBalancer log = some (amm, fact)) : amm = .balancer := by
  unfold decodeBalancer at h
  split at h
  · split_ifs at h
    exact (Prod.mk.inj (Option.some.inj h)).1.symm
  · cases h

theorem decodeAggregatorSwap_amm (h : decodeAggregatorSwap log = some (amm, fact)) :
    amm = .aggregator := by
  unfold decodeAggregatorSwap at h
  dsimp only at h
  repeat' split at h
  all_goals first
    | exact (Prod.mk.inj (Option.some.inj h)).1.symm
    | cases h

/-- Every decoder of a pool's log names nothing, the token that comes in, or both tokens. -/
theorem decodeSwap_sided (h : decodeSwap log = some (amm, fact)) (hb : amm ≠ .balancer)
    (ha : amm ≠ .aggregator) : fact.Sided := by
  cases htopics : log.topics with
  | nil =>
    unfold decodeSwap at h
    rw [htopics] at h
    cases h
  | cons topic0 rest =>
    have hby := decodedBy_decodeSwap htopics
    rw [h] at hby
    generalize hd : some (amm, fact) = d at hby
    cases hby with
    | v2Like => exact decodeV2Like_sided hd.symm
    | signed => exact decodeSignedAt_sided hd.symm
    | poolId => exact decodePoolIdSigned_sided hd.symm
    | curve => exact decodeCurve_sided hd.symm
    | balancer => exact absurd (decodeBalancer_amm hd.symm) hb
    | lb => exact decodeLb_sided hd.symm
    | lbLegacy => exact decodeLbLegacy_sided hd.symm
    | pendle => exact decodePendle_sided hd.symm
    | fluid => exact decodeFluid_sided hd.symm
    | metric => exact decodeMetric_sided hd.symm
    | aggregator => exact absurd (decodeAggregatorSwap_amm hd.symm) ha

end

/-! ## Stages -/

section

variable {s : SwapFact} {x y : Side × Side} {side : Side} {found : Option Address}
  {how : SideHow} {pair : Address × Address} {tokenIn tokenOut : Address}
  {candidates transfers : List PlacedTransfer}

theorem Side.bind_resolved (h : isUnresolvedToken side.token = false) :
    side.bind found how = side := by
  unfold Side.bind
  rw [h, if_neg Bool.false_ne_true]

/-- What binding a side can do. -/
theorem Side.bind_cases (side : Side) (found : Option Address) (how : SideHow) :
    side.bind found how = side ∧ (found = none ∨ isUnresolvedToken side.token = false) ∨
      isUnresolvedToken side.token = true ∧
        ∃ token, found = some token ∧ side.bind found how = ⟨token, some how⟩ := by
  cases hopen : isUnresolvedToken side.token with
  | false => exact .inl ⟨Side.bind_resolved hopen, .inr rfl⟩
  | true =>
    unfold Side.bind
    rw [if_pos hopen]
    cases found with
    | none => exact .inl ⟨rfl, .inl rfl⟩
    | some token => exact .inr ⟨rfl, token, rfl, rfl⟩

theorem foldl_nearerTransfer_mem {l : List PlacedTransfer} {best : Option (ℤ × PlacedTransfer)}
    {b : ℤ × PlacedTransfer} (h : l.foldl (nearerTransfer s) best = some b) :
    best = some b ∨ b.2 ∈ l := by
  induction l generalizing best with
  | nil => exact .inl h
  | cons t l ih =>
    rcases ih h with hbest | hmem
    · unfold nearerTransfer at hbest
      rcases best with _ | ⟨d, b'⟩
      · obtain rfl := Option.some.inj hbest
        exact .inr (List.mem_cons_self ..)
      · dsimp only at hbest
        split_ifs at hbest
        · exact .inl hbest
        · obtain rfl := Option.some.inj hbest
          exact .inr (List.mem_cons_self ..)
    · exact .inr (List.mem_cons_of_mem _ hmem)

theorem nearest_mem {ok : PlacedTransfer → Bool} {t : PlacedTransfer}
    (h : nearest s ok candidates = some t) : t ∈ candidates ∧ ok t = true := by
  obtain ⟨b, hb, rfl⟩ := Option.map_eq_some_iff.mp h
  rcases foldl_nearerTransfer_mem hb with hnone | hmem
  · cases hnone
  · exact List.mem_filter.mp hmem

theorem mapSentinel_resolved {t : Address} (h : isUnresolvedToken t = false) :
    mapSentinel pair t = t := by
  simp only [isUnresolvedToken, Bool.or_eq_false_iff, beq_eq_false_iff_ne] at h
  rw [mapSentinel, if_neg h.1.2, if_neg h.2]

theorem complementToken_resolved {t other : Address} (h : isUnresolvedToken t = false) :
    complementToken pair t other = t := by
  rw [complementToken, if_neg (by simp [h])]

variable (pair tokenIn tokenOut) in
/-- The registry leaves a token alone that the log gives. -/
theorem registryTokens_fst_resolved (h : isUnresolvedToken tokenIn = false) :
    (registryTokens pair tokenIn tokenOut).1 = tokenIn := by
  unfold registryTokens
  dsimp only
  rw [mapSentinel_resolved h, complementToken_resolved h]

variable (pair tokenIn tokenOut) in
theorem registryTokens_snd_resolved (h : isUnresolvedToken tokenOut = false) :
    (registryTokens pair tokenIn tokenOut).2 = tokenOut := by
  unfold registryTokens
  dsimp only
  rw [mapSentinel_resolved h, complementToken_resolved h]

/-- A side that the registry binds was open and is resolved. -/
theorem Side.how_registered {t token : Address}
    (hkeep : isUnresolvedToken t = false → token = t) :
    ((Side.decoded t).registered token).how = some .registry ↔
      isUnresolvedToken t = true ∧ isUnresolvedToken token = false := by
  unfold Side.registered Side.decoded
  dsimp only
  cases hopen : isUnresolvedToken t with
  | false =>
    rw [hkeep hopen]
    simp
  | true =>
    have hne : isUnresolvedToken token = false → token ≠ t := by
      rintro h rfl
      rw [h] at hopen
      cases hopen
    cases htoken : isUnresolvedToken token with
    | false => simp [hne htoken]
    | true => simp

/-- An open side may have been filled with the token of a transfer that passes a test. -/
def Side.FilledFrom (transfers : List PlacedTransfer) (ok : PlacedTransfer → Prop)
    (x y : Side) : Prop :=
  y = x ∨ isUnresolvedToken x.token = true ∧ y.how ≠ some .registry ∧
    ∃ t ∈ transfers, ok t ∧ y.token = t.token

theorem Side.FilledFrom.trans {ok : PlacedTransfer → Prop} {x y z : Side}
    (h : x.FilledFrom transfers ok y) (h' : y.FilledFrom transfers ok z) :
    x.FilledFrom transfers ok z := by
  rcases h' with rfl | ⟨hopen', hhow, ht⟩
  · exact h
  · rcases h with rfl | ⟨hopen, -, -⟩
    · exact .inr ⟨hopen', hhow, ht⟩
    · exact .inr ⟨hopen, hhow, ht⟩

theorem Side.FilledFrom.eq_of_resolved {ok : PlacedTransfer → Prop} {x y : Side}
    (h : x.FilledFrom transfers ok y) (hx : isUnresolvedToken x.token = false) : y = x := by
  rcases h with heq | ⟨hopen, -⟩
  · exact heq
  · rw [hx] at hopen
    cases hopen

/-- A side that the registry binds is not filled. -/
theorem Side.FilledFrom.how_eq {ok : PlacedTransfer → Prop} {x y : Side}
    (h : x.FilledFrom transfers ok y)
    (hx : x.how = some .registry → isUnresolvedToken x.token = false) :
    y.how = some .registry ↔ x.how = some .registry := by
  rcases h with rfl | ⟨hopen, hhow, -⟩
  · rfl
  · refine ⟨fun hy => absurd hy hhow, fun hreg => ?_⟩
    rw [hx hreg] at hopen
    cases hopen

theorem Side.filledFrom_bind {ok : PlacedTransfer → Prop} (hhow : how ≠ .registry)
    (hfound : ∀ token, found = some token → ∃ t ∈ transfers, ok t ∧ token = t.token) :
    side.FilledFrom transfers ok (side.bind found how) := by
  rcases Side.bind_cases side found how with ⟨heq, -⟩ | ⟨hopen, token, hsome, heq⟩
  · exact .inl heq
  · refine .inr ⟨hopen, ?_, ?_⟩
    · rw [heq]
      simpa using hhow
    · rw [heq]
      exact hfound token hsome

/-- The token that a scan of the pool's transfers finds is that of a transfer. -/
theorem exists_of_nearest {ok : PlacedTransfer → Bool} {ok' : PlacedTransfer → Prop}
    {token : Address} (hok : ∀ t, ok t = true → ok' t)
    (h : (nearest s ok (counterpartyTransfers transfers s.pool)).map (·.token) = some token) :
    ∃ t ∈ transfers, ok' t ∧ token = t.token := by
  obtain ⟨t, hnearest, rfl⟩ := Option.map_eq_some_iff.mp h
  obtain ⟨hmem, ht⟩ := nearest_mem hnearest
  exact ⟨t, (List.mem_filter.mp hmem).1, hok t ht, rfl⟩

/-- What the stages after the registry can do to the input side. -/
theorem attachSides_fst (transfers : List PlacedTransfer) (pair : Option (Address × Address))
    (s : SwapFact) :
    (registryStage pair (.decoded s.tokenIn, .decoded s.tokenOut)).1.FilledFrom transfers
      (·.recipient = s.pool) (attachSides transfers pair s).1 := by
  unfold attachSides
  dsimp only
  generalize registryStage pair (.decoded s.tokenIn, .decoded s.tokenOut) = x
  have hpaired : x.1.FilledFrom transfers (·.recipient = s.pool)
      (transferStage s (counterpartyTransfers transfers s.pool) x).1 := by
    refine Side.filledFrom_bind nofun fun token htoken => ?_
    rw [Option.filter_eq_some_iff] at htoken
    exact exists_of_nearest (fun t ht => (of_decide_eq_true ht).2) htoken.1
  refine hpaired.trans ?_
  unfold windowIn windowOut
  dsimp only
  split_ifs
  · exact .inl rfl
  · exact Side.filledFrom_bind nofun fun token htoken =>
      exists_of_nearest (fun t ht => (of_decide_eq_true ht).1) htoken

/-- What the stages after the registry can do to the output side. -/
theorem attachSides_snd (transfers : List PlacedTransfer) (pair : Option (Address × Address))
    (s : SwapFact) :
    (registryStage pair (.decoded s.tokenIn, .decoded s.tokenOut)).2.FilledFrom transfers
      (·.sender = s.pool) (attachSides transfers pair s).2 := by
  unfold attachSides
  dsimp only
  generalize registryStage pair (.decoded s.tokenIn, .decoded s.tokenOut) = x
  have hpaired : x.2.FilledFrom transfers (·.sender = s.pool)
      (transferStage s (counterpartyTransfers transfers s.pool) x).2 := by
    refine Side.filledFrom_bind nofun fun token htoken => ?_
    rw [Option.filter_eq_some_iff] at htoken
    exact exists_of_nearest (fun t ht => (of_decide_eq_true ht).2) htoken.1
  have hsnd (y : Side × Side) :
      (windowIn s (counterpartyTransfers transfers s.pool) y).2 = y.2 := by
    unfold windowIn
    split_ifs <;> rfl
  rw [hsnd]
  exact hpaired.trans (Side.filledFrom_bind nofun fun token htoken =>
    exists_of_nearest (fun t ht => (of_decide_eq_true ht).1) htoken)

/-- The registry gives the pair to a log that names its first token as the one that comes in. -/
theorem registryTokens_token0 (h0 : isUnresolvedToken pair.1 = false)
    (h1 : isUnresolvedToken pair.2 = false) (hout : tokenOut = 0 ∨ tokenOut = token1Sentinel) :
    registryTokens pair token0Sentinel tokenOut = pair := by
  unfold registryTokens
  dsimp only
  rw [mapSentinel, if_pos rfl, complementToken_resolved h0]
  rcases hout with rfl | rfl
  · rw [mapSentinel, if_neg (by decide), if_neg (by decide), complementToken,
      if_pos (by simp [h0]; decide), if_pos rfl]
  · rw [mapSentinel, if_neg (by decide), if_pos rfl, complementToken_resolved h1]

/-- The registry gives the reversed pair to a log that names its second token. -/
theorem registryTokens_token1 (h0 : isUnresolvedToken pair.1 = false)
    (h1 : isUnresolvedToken pair.2 = false) (hout : tokenOut = 0 ∨ tokenOut = token0Sentinel) :
    registryTokens pair token1Sentinel tokenOut = (pair.2, pair.1) := by
  unfold registryTokens
  dsimp only
  rw [mapSentinel, if_neg (by decide), if_pos rfl, complementToken_resolved h1]
  rcases hout with rfl | rfl
  · rw [mapSentinel, if_neg (by decide), if_neg (by decide), complementToken,
      if_pos (by simp [h1]; decide)]
    split_ifs with heq
    · rw [heq]
    · rfl
  · rw [mapSentinel, if_pos rfl, complementToken_resolved h0]

/-- The sides before the window is searched. -/
def pairedSides (transfers : List PlacedTransfer) (pair : Option (Address × Address))
    (s : SwapFact) : Side × Side :=
  transferStage s (counterpartyTransfers transfers s.pool)
    (registryStage pair (.decoded s.tokenIn, .decoded s.tokenOut))

theorem nearest_ne {ok : PlacedTransfer → Bool} {other token : Address}
    (hok : ∀ t, ok t = true → inWindow s other t = true)
    (h : (nearest s ok candidates).map (·.token) = some token) : token ≠ other := by
  obtain ⟨t, hnearest, rfl⟩ := Option.map_eq_some_iff.mp h
  exact (of_decide_eq_true (hok t (nearest_mem hnearest).2)).2.2.2

/-- Where the window is searched, it does not give both sides one token. -/
theorem window_ne (s : SwapFact) (candidates : List PlacedTransfer) {y : Side × Side}
    (hopen : isUnresolvedToken y.1.token = true ∨ isUnresolvedToken y.2.token = true)
    (hin : isUnresolvedToken (windowIn s candidates (windowOut s candidates y)).1.token = false)
    (hout : isUnresolvedToken (windowIn s candidates (windowOut s candidates y)).2.token = false) :
    (windowIn s candidates (windowOut s candidates y)).1.token ≠
      (windowIn s candidates (windowOut s candidates y)).2.token := by
  have hzero : (windowOut s candidates y).2.token ≠ 0 := by
    intro h0
    rw [windowIn, if_pos h0, h0] at hout
    exact absurd hout (by decide)
  rw [windowIn, if_neg hzero] at hin hout ⊢
  dsimp only at hin hout ⊢
  have hfst : (windowOut s candidates y).1 = y.1 := rfl
  rw [hfst] at hin ⊢
  rcases Side.bind_cases y.1 _ .proximity with ⟨heq, -⟩ | ⟨-, token, hfound, heq⟩
  · -- the input was bound before, so it is the output that the window binds
    rw [heq] at hin ⊢
    have hopen' : isUnresolvedToken y.2.token = true :=
      hopen.resolve_left (by rw [hin]; exact Bool.false_ne_true)
    unfold windowOut at hout ⊢
    rcases Side.bind_cases y.2 _ .proximity with ⟨heq', -⟩ | ⟨-, token, hfound, heq'⟩
    · rw [heq', hopen'] at hout
      cases hout
    · rw [heq']
      exact (nearest_ne (fun t ht => (of_decide_eq_true ht).2) hfound).symm
  · rw [heq]
    exact nearest_ne (fun t ht => (of_decide_eq_true ht).2) hfound

end

/-! ## What attachment gives -/

/-- A swap as `push_swap` records it (`classify/mod.rs`, lines 425–432), not one of Balancer. -/
def SwapFact.Decoded (s : SwapFact) : Prop :=
  ∃ log amm fact, decodeSwap log = some (amm, fact) ∧ amm ≠ .balancer ∧
    s = { fact with amm := amm, logIndex := s.logIndex }

/-- What a swap is after its tokens are attached. -/
structure AttachedRight (transfers : List PlacedTransfer)
    (poolTokens : Address → Option (Address × Address)) (s : SwapFact) (a : AttachedSwap) :
    Prop where
  kept : a.toSwapFact =
    { s with tokenIn := a.tokenIn, tokenOut := a.tokenOut, owner := a.owner }
  /-- A direction that the log of a pool names is that of the registered pair. -/
  named : s.amm ≠ .aggregator → s.tokenIn ≠ 0 → ∀ t0 t1,
    poolTokens s.pool = some (t0, t1) → isUnresolvedToken t0 = false →
    isUnresolvedToken t1 = false →
    (a.tokenIn, a.tokenOut) = if s.tokenIn = token0Sentinel then (t0, t1) else (t1, t0)
  /-- Other tokens that come in are those of transfers into the pool. -/
  filledIn : a.tokenIn ≠ s.tokenIn →
    (∀ pair, poolTokens s.pool = some pair →
      a.tokenIn ≠ (registryTokens pair s.tokenIn s.tokenOut).1) →
    ∃ t ∈ transfers, t.recipient = s.pool ∧ a.tokenIn = t.token
  /-- Other tokens that go out are those of transfers out of the pool. -/
  filledOut : a.tokenOut ≠ s.tokenOut →
    (∀ pair, poolTokens s.pool = some pair →
      a.tokenOut ≠ (registryTokens pair s.tokenIn s.tokenOut).2) →
    ∃ t ∈ transfers, t.sender = s.pool ∧ a.tokenOut = t.token
  /-- The window never gives both sides one token. -/
  window : isUnresolvedToken a.tokenIn = false → isUnresolvedToken a.tokenOut = false →
    isUnresolvedToken (pairedSides transfers (poolTokens s.pool) s).1.token = true ∨
      isUnresolvedToken (pairedSides transfers (poolTokens s.pool) s).2.token = true →
    a.tokenIn ≠ a.tokenOut
  /-- The source is the registry exactly when it gave both tokens. -/
  source : a.tokenSource = .registry ↔ ∃ pair, poolTokens s.pool = some pair ∧
    (isUnresolvedToken s.tokenIn = true ∧
      isUnresolvedToken (registryTokens pair s.tokenIn s.tokenOut).1 = false) ∧
    (isUnresolvedToken s.tokenOut = true ∧
      isUnresolvedToken (registryTokens pair s.tokenIn s.tokenOut).2 = false) ∧
    (a.tokenIn, a.tokenOut) = registryTokens pair s.tokenIn s.tokenOut

theorem combineLegSource_eq_registry {a b : Option SideHow} :
    combineLegSource a b = .registry ↔ a = some .registry ∧ b = some .registry := by
  rcases a with _ | _ | _ | _ <;> rcases b with _ | _ | _ | _ <;> simp [combineLegSource]

section

variable {transfers : List PlacedTransfer} {poolTokens : Address → Option (Address × Address)}
  {s : SwapFact}

variable (transfers poolTokens) in
theorem attachSwap_eq (hb : s.amm ≠ .balancer) :
    (attachSwap transfers poolTokens s).tokenIn =
        (attachSides transfers (poolTokens s.pool) s).1.token ∧
      (attachSwap transfers poolTokens s).tokenOut =
        (attachSides transfers (poolTokens s.pool) s).2.token ∧
      (attachSwap transfers poolTokens s).tokenSource =
        combineLegSource (attachSides transfers (poolTokens s.pool) s).1.how
          (attachSides transfers (poolTokens s.pool) s).2.how := by
  unfold attachSwap
  rw [if_neg hb]
  exact ⟨rfl, rfl, rfl⟩

/-- The decoded swap of a pool that names a direction gets the registered pair. -/
theorem attachSwap_named (hsided : s.Sided) (hb : s.amm ≠ .balancer) (hin : s.tokenIn ≠ 0)
    {t0 t1 : Address} (hpair : poolTokens s.pool = some (t0, t1))
    (h0 : isUnresolvedToken t0 = false) (h1 : isUnresolvedToken t1 = false) :
    ((attachSwap transfers poolTokens s).tokenIn, (attachSwap transfers poolTokens s).tokenOut) =
      if s.tokenIn = token0Sentinel then (t0, t1) else (t1, t0) := by
  have htokens : registryTokens (t0, t1) s.tokenIn s.tokenOut =
      if s.tokenIn = token0Sentinel then (t0, t1) else (t1, t0) := by
    rcases hsided with ⟨hzero, -⟩ | ⟨htoken, hout⟩ | ⟨htoken, hout⟩
    · exact absurd hzero hin
    · rw [htoken, if_pos rfl, registryTokens_token0 h0 h1 hout]
    · rw [htoken, if_neg (by decide), registryTokens_token1 h0 h1 hout]
  have hresolved : isUnresolvedToken (registryTokens (t0, t1) s.tokenIn s.tokenOut).1 = false ∧
      isUnresolvedToken (registryTokens (t0, t1) s.tokenIn s.tokenOut).2 = false := by
    rw [htokens]
    split_ifs
    · exact ⟨h0, h1⟩
    · exact ⟨h1, h0⟩
  have hfst := (attachSides_fst transfers (poolTokens s.pool) s).eq_of_resolved
    (by rw [hpair]; exact hresolved.1)
  have hsnd := (attachSides_snd transfers (poolTokens s.pool) s).eq_of_resolved
    (by rw [hpair]; exact hresolved.2)
  obtain ⟨hin', hout', -⟩ := attachSwap_eq transfers poolTokens hb
  rw [hin', hout', hfst, hsnd, hpair, ← htokens]
  rfl

/-- The provenance of both tokens is the registry exactly when it bound both. -/
theorem attachSwap_source (hb : s.amm ≠ .balancer) :
    (attachSwap transfers poolTokens s).tokenSource = .registry ↔
      ∃ pair, poolTokens s.pool = some pair ∧
        (isUnresolvedToken s.tokenIn = true ∧
          isUnresolvedToken (registryTokens pair s.tokenIn s.tokenOut).1 = false) ∧
        (isUnresolvedToken s.tokenOut = true ∧
          isUnresolvedToken (registryTokens pair s.tokenIn s.tokenOut).2 = false) ∧
        ((attachSwap transfers poolTokens s).tokenIn,
          (attachSwap transfers poolTokens s).tokenOut) =
            registryTokens pair s.tokenIn s.tokenOut := by
  obtain ⟨hin, hout, hsource⟩ := attachSwap_eq transfers poolTokens hb
  rw [hsource, combineLegSource_eq_registry]
  have hfst := attachSides_fst transfers (poolTokens s.pool) s
  have hsnd := attachSides_snd transfers (poolTokens s.pool) s
  cases hpair : poolTokens s.pool with
  | none =>
    have hdecoded (t : Address) : (Side.decoded t).how ≠ some .registry := by
      unfold Side.decoded
      dsimp only
      split_ifs <;> simp
    rw [hpair] at hfst
    rw [hfst.how_eq fun h => absurd h (hdecoded _)]
    simp only [registryStage, Option.elim_none, hdecoded, false_and, reduceCtorEq, exists_const]
  | some pair =>
    have hin' := Side.how_registered
      (registryTokens_fst_resolved pair s.tokenIn s.tokenOut)
    have hout' := Side.how_registered
      (registryTokens_snd_resolved pair s.tokenIn s.tokenOut)
    rw [hpair] at hfst hsnd hin hout
    rw [hfst.how_eq fun h => (hin'.mp h).2, hsnd.how_eq fun h => (hout'.mp h).2]
    constructor
    · rintro ⟨hregIn, hregOut⟩
      refine ⟨pair, rfl, hin'.mp hregIn, hout'.mp hregOut, ?_⟩
      rw [hin, hout, hfst.eq_of_resolved (hin'.mp hregIn).2,
        hsnd.eq_of_resolved (hout'.mp hregOut).2]
      rfl
    · rintro ⟨pair', heq, hregIn, hregOut, -⟩
      obtain rfl := Option.some.inj heq
      exact ⟨hin'.mpr hregIn, hout'.mpr hregOut⟩

/-- A token that comes in and that neither the log nor the registry gives is that of a
    transfer. -/
theorem attachSides_filledIn {pair : Option (Address × Address)}
    (hne : (attachSides transfers pair s).1.token ≠ s.tokenIn)
    (hregistry : ∀ p, pair = some p →
      (attachSides transfers pair s).1.token ≠ (registryTokens p s.tokenIn s.tokenOut).1) :
    ∃ t ∈ transfers, t.recipient = s.pool ∧ (attachSides transfers pair s).1.token = t.token := by
  rcases attachSides_fst transfers pair s with heq | ⟨-, -, ht⟩
  · rw [heq] at hne hregistry
    cases pair with
    | none => exact absurd rfl hne
    | some p => exact absurd rfl (hregistry p rfl)
  · exact ht

theorem attachSides_filledOut {pair : Option (Address × Address)}
    (hne : (attachSides transfers pair s).2.token ≠ s.tokenOut)
    (hregistry : ∀ p, pair = some p →
      (attachSides transfers pair s).2.token ≠ (registryTokens p s.tokenIn s.tokenOut).2) :
    ∃ t ∈ transfers, t.sender = s.pool ∧ (attachSides transfers pair s).2.token = t.token := by
  rcases attachSides_snd transfers pair s with heq | ⟨-, -, ht⟩
  · rw [heq] at hne hregistry
    cases pair with
    | none => exact absurd rfl hne
    | some p => exact absurd rfl (hregistry p rfl)
  · exact ht

theorem attachedRight_attachSwap (hs : s.Decoded) :
    AttachedRight transfers poolTokens s (attachSwap transfers poolTokens s) := by
  obtain ⟨log, amm, fact, hdecode, hamm, hfact⟩ := hs
  have hsamm : s.amm = amm := by rw [hfact]
  have hb : s.amm ≠ .balancer := hsamm ▸ hamm
  obtain ⟨hin, hout, -⟩ := attachSwap_eq transfers poolTokens hb
  refine ⟨?_, fun ha hne t0 t1 hpair h0 h1 => ?_, fun hne hregistry => ?_,
    fun hne hregistry => ?_, fun hrin hrout hopen => ?_, attachSwap_source hb⟩
  · unfold attachSwap
    rw [if_neg hb]
  · have hsided : fact.Sided := decodeSwap_sided hdecode hamm (hsamm ▸ ha)
    refine attachSwap_named ?_ hb hne hpair h0 h1
    rw [hfact]
    exact hsided
  · rw [hin] at hne hregistry ⊢
    exact attachSides_filledIn hne hregistry
  · rw [hout] at hne hregistry ⊢
    exact attachSides_filledOut hne hregistry
  · rw [hin] at hrin ⊢
    rw [hout] at hrout ⊢
    exact window_ne s _ hopen hrin hrout

end

/-- A swap of `5` for `4` units on the Curve pool `7`, whose log names no side. -/
def curveLog : ExecutedLog where
  address := 7
  topics := [curveTokenExchangeTopic]
  data := List.replicate 63 0 ++ [5] ++ List.replicate 63 0 ++ [4]

def curveSwap : SwapFact :=
  { blankSwap .curve 7 with amountIn := 5, amountOut := 4, logIndex := 1 }

/-- The swap pays in token `3` and takes out token `4`. -/
def curveTransfers : List PlacedTransfer :=
  [{ token := 3, sender := 9, recipient := 7, amount := 5, logIndex := 0 },
    { token := 4, sender := 7, recipient := 9, amount := 4, logIndex := 2 }]

theorem curveSwap_decoded : curveSwap.Decoded :=
  ⟨curveLog, .curve, { blankSwap .curve 7 with amountIn := 5, amountOut := 4 },
    by decide +kernel, by decide, rfl⟩

end MevScout.Explorer
