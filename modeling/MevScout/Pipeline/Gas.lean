import MevScout.Common.Int
import MevScout.Common.Rank
import MevScout.Common.Run

/-!
# Gas price percentiles

`GasPriceDistribution` (`core/src/pipeline/gas.rs`) collects the gas prices of the transactions,
sorts them at the end of a block and trims them when they are too many. The trim drops the lowest
prices, where the base fees of the blocks are dropped by age.

The prices are values of `u128`. The quotient of `f64` that is kept beside a base fee is a
parameter.

Results:
* `tracksRecent_iff`: the prices are the recent ones, in order, exactly while every step of the
  run meets its condition, for single calls and for whole blocks;
* `tracksRecent_of_length_le`: they are until there is something to trim;
* `percentile_ge_recent`: a percentile after a block is never below that of the recent prices;
* `baseFees_latest`: the base fees are those of the last blocks.
-/

namespace MevScout.Pipeline

open Rank

/-- Model of `GasPriceDistribution` (`core/src/pipeline/gas.rs`, lines 15–22). -/
structure GasPriceDistribution (R : Type) where
  maxBlocks : ℕ
  prices : List ℕ
  baseFees : List (ℕ × R)

variable {R : Type} (ratioOf : ℕ → ℕ → R) (half : R)

/-- The loop of `record_block` that removes the first element while there are too many. -/
def removeFirst {β : Type*} (limit : ℕ) : List β → List β
  | [] => []
  | a :: l => if limit < (a :: l).length then removeFirst limit l else a :: l

namespace GasPriceDistribution

/-- Model of `new` (lines 26–32). -/
def new (maxBlocks : ℕ) : GasPriceDistribution R := ⟨max maxBlocks 10, [], []⟩

/-- Model of `add_tx_gas_price` (lines 35–37). -/
def addTxGasPrice (g : GasPriceDistribution R) (price : ℕ) : GasPriceDistribution R :=
  { g with prices := g.prices ++ [price] }

/-- Model of `record_block` (lines 40–50). -/
def recordBlock (g : GasPriceDistribution R) (baseFee gasUsed gasLimit : ℕ) :
    GasPriceDistribution R :=
  let ratio := if 0 < gasLimit then ratioOf gasUsed gasLimit else half
  { g with baseFees := removeFirst g.maxBlocks (g.baseFees ++ [(baseFee, ratio)]) }

/-- Model of `finalize_block` (lines 53–59). -/
def finalizeBlock (g : GasPriceDistribution R) : GasPriceDistribution R :=
  let prices := g.prices.insertionSort (· ≤ ·)
  if saturatingMul 64 g.maxBlocks 200 < prices.length then
    let keep := prices.length - saturatingMul 64 g.maxBlocks 100
    { g with prices := prices.drop keep }
  else { g with prices := prices }

/-- Model of `percentile` (lines 63–77). -/
def percentile (g : GasPriceDistribution R) (p : ℕ) : Option ℕ :=
  if g.prices = [] then none
  else
    let p := min p 100
    if p = 0 then g.prices.head?
    else if 100 ≤ p then g.prices.getLast?
    else g.prices[saturatingMul 64 (g.prices.length - 1) p / 100]?

end GasPriceDistribution

/-- What `feed_gas_distribution` reads of a block. -/
structure GasHeader where
  baseFeePerGas : Option ℕ
  gasUsed : ℕ
  gasLimit : ℕ

/-- Model of `feed_gas_distribution` (`core/src/pipeline/runner.rs`, lines 607–626); `loaded` is
    what `load_block_data` returns. -/
def feedGasDistribution (g : GasPriceDistribution R) (blockPrices : List ℕ)
    (loaded : Option GasHeader) : GasPriceDistribution R :=
  let g := blockPrices.foldl GasPriceDistribution.addTxGasPrice g
  let g := match loaded with
    | some block =>
      g.recordBlock ratioOf half (block.baseFeePerGas.getD 0) block.gasUsed block.gasLimit
    | none => g.recordBlock ratioOf half 0 0 30000000
  g.finalizeBlock

/-! ## What the calls do -/

/-- How many of `n` prices the trim drops. -/
def trimmed (maxBlocks n : ℕ) : ℕ :=
  if saturatingMul 64 maxBlocks 200 < n then n - saturatingMul 64 maxBlocks 100 else 0

theorem trimmed_le (maxBlocks n : ℕ) : trimmed maxBlocks n ≤ n := by
  unfold trimmed
  split_ifs <;> omega

/-- What the trim leaves is all, or a hundred prices for each block. -/
theorem le_sub_trimmed (maxBlocks n : ℕ) :
    min n (saturatingMul 64 maxBlocks 100) ≤ n - trimmed maxBlocks n := by
  unfold trimmed
  split_ifs <;> omega

theorem removeFirst_eq_latest {β : Type*} (limit : ℕ) (l : List β) :
    removeFirst limit l = latest limit l := by
  induction l with
  | nil => rw [removeFirst, latest, List.drop_nil]
  | cons a l ih =>
    rw [removeFirst]
    split_ifs with h
    · rw [ih, latest, latest, show (a :: l).length - limit = l.length - limit + 1 by
        rw [List.length_cons] at h ⊢; omega, List.drop_succ_cons]
    · rw [latest, Nat.sub_eq_zero_of_le (not_lt.mp h), List.drop_zero]

variable {ratioOf half} {g : GasPriceDistribution R} {seen : List ℕ}

theorem finalizeBlock_eq (g : GasPriceDistribution R) : g.finalizeBlock =
    { g with prices :=
        (g.prices.insertionSort (· ≤ ·)).drop (trimmed g.maxBlocks g.prices.length) } := by
  simp only [GasPriceDistribution.finalizeBlock, trimmed, List.length_insertionSort]
  split_ifs <;> rfl

theorem finalizeBlock_sorted (g : GasPriceDistribution R) :
    g.finalizeBlock.prices.Pairwise (· ≤ ·) := by
  rw [finalizeBlock_eq]
  exact (List.pairwise_insertionSort ..).drop

theorem foldl_addTxGasPrice (g : GasPriceDistribution R) (blockPrices : List ℕ) :
    blockPrices.foldl GasPriceDistribution.addTxGasPrice g =
      { g with prices := g.prices ++ blockPrices } := by
  induction blockPrices generalizing g with
  | nil => rw [List.foldl_nil, List.append_nil]
  | cons price blockPrices ih =>
    rw [List.foldl_cons, ih, GasPriceDistribution.addTxGasPrice, List.append_assoc]
    rfl

/-- For the prices, a block is fed as all of them at once and a call to `finalize_block`. -/
theorem feedGasDistribution_eq (g : GasPriceDistribution R) (blockPrices : List ℕ)
    (loaded : Option GasHeader) : feedGasDistribution ratioOf half g blockPrices loaded =
      { GasPriceDistribution.finalizeBlock { g with prices := g.prices ++ blockPrices } with
        baseFees := (feedGasDistribution ratioOf half g blockPrices loaded).baseFees } := by
  simp only [feedGasDistribution, foldl_addTxGasPrice, finalizeBlock_eq]
  cases loaded <;> rfl

/-! ## Percentiles -/

/-- The rank of the `p`-th percentile of `n` prices, in `usize`. -/
def percentileRank (n p : ℕ) : ℕ :=
  if 100 ≤ p then n - 1 else saturatingMul 64 (n - 1) p / 100

/-- `read` is the `p`-th percentile of the prices `recent`, which are in any order; there is none
    of no prices. -/
def IsPercentile (recent : List ℕ) (p : ℕ) : Option ℕ → Prop
  | none => recent = []
  | some price => IsRank recent (percentileRank recent.length p) price

/-- The rank is exact unless the product exceeds `usize`. -/
theorem percentileRank_eq {n p : ℕ} (h : (n - 1) * p < 2 ^ 64) :
    percentileRank n p = (n - 1) * min p 100 / 100 := by
  unfold percentileRank saturatingMul
  split_ifs with hp
  · rw [Nat.min_eq_right hp, Nat.mul_div_cancel _ (by norm_num)]
  · rw [Nat.min_eq_left (by omega), Nat.min_eq_left (by omega)]

theorem percentileRank_lt {n : ℕ} (hn : 0 < n) (p : ℕ) : percentileRank n p < n := by
  unfold percentileRank saturatingMul
  split_ifs with hp
  · omega
  · have hmul : (n - 1) * p ≤ (n - 1) * 100 := Nat.mul_le_mul_left _ (by omega)
    omega

theorem percentile_eq_getElem (g : GasPriceDistribution R) (p : ℕ) :
    g.percentile p = g.prices[percentileRank g.prices.length p]? := by
  unfold percentileRank
  simp only [GasPriceDistribution.percentile]
  by_cases hnil : g.prices = []
  · rw [if_pos hnil, hnil, List.getElem?_nil]
  rw [if_neg hnil]
  rcases Nat.lt_or_ge p 100 with hp | hp
  · rw [Nat.min_eq_left hp.le, if_neg (not_le.mpr hp), if_neg (not_le.mpr hp)]
    split_ifs with h0
    · rw [h0, saturatingMul, Nat.mul_zero, Nat.zero_min, Nat.zero_div, List.head?_eq_getElem?]
    · rfl
  · rw [Nat.min_eq_right hp, if_neg (by omega), if_pos le_rfl, if_pos hp, List.getLast?_eq_getElem?]

theorem isPercentile_percentile (hsorted : g.prices.Pairwise (· ≤ ·)) {recent : List ℕ}
    (hperm : g.prices.Perm recent) (p : ℕ) : IsPercentile recent p (g.percentile p) := by
  rw [percentile_eq_getElem]
  rcases Nat.eq_zero_or_pos g.prices.length with hnil | hpos
  · have hempty : recent = [] := by
      rw [← List.length_eq_zero_iff, ← hperm.length_eq, hnil]
    rw [List.length_eq_zero_iff.mp hnil, List.getElem?_nil]
    exact hempty
  · rw [List.getElem?_eq_getElem (percentileRank_lt hpos p)]
    show IsRank recent (percentileRank recent.length p) _
    rw [← hperm.length_eq]
    exact (isRank_getElem hsorted (percentileRank_lt hpos p)).of_perm hperm

/-! ## Runs -/

/-- The calls that feed a distribution. -/
inductive GasCall where
  | addTxGasPrice (price : ℕ)
  | recordBlock (baseFee gasUsed gasLimit : ℕ)
  | finalizeBlock

/-- The price that a call observes. -/
def GasCall.observed : GasCall → List ℕ
  | addTxGasPrice price => [price]
  | recordBlock .. | finalizeBlock => []

variable (ratioOf half) in
/-- What a call makes of the distribution. -/
def GasCall.run (g : GasPriceDistribution R) : GasCall → GasPriceDistribution R
  | addTxGasPrice price => g.addTxGasPrice price
  | recordBlock baseFee gasUsed gasLimit => g.recordBlock ratioOf half baseFee gasUsed gasLimit
  | finalizeBlock => g.finalizeBlock

/-- The recent prices, of those seen so far, that the distribution should retain. -/
def GasPriceDistribution.recent (g : GasPriceDistribution R) (seen : List ℕ) : List ℕ :=
  latest g.prices.length seen

/-- The distribution retains the recent prices: all that it has seen, or at least a hundred for
    each block. -/
structure RetainsRecent (g : GasPriceDistribution R) (seen : List ℕ) : Prop where
  le_seen : g.prices.length ≤ seen.length
  size : min seen.length (saturatingMul 64 g.maxBlocks 100) ≤ g.prices.length
  retained : g.prices.Perm (g.recent seen)

/-- The distribution retains the recent prices, in order, and its percentiles are theirs. -/
structure TracksRecent (g : GasPriceDistribution R) (seen : List ℕ) : Prop where
  retains : RetainsRecent g seen
  sorted : g.prices.Pairwise (· ≤ ·)
  reads : ∀ p, IsPercentile (g.recent seen) p (g.percentile p)

/-- None of the prices that the trim should drop, the oldest ones, is above one that it should
    leave. -/
def AgeOrdered (maxBlocks : ℕ) (recent : List ℕ) : Prop :=
  ∀ old ∈ recent.take (trimmed maxBlocks recent.length),
    ∀ price ∈ recent.drop (trimmed maxBlocks recent.length), old ≤ price

theorem tracksRecent_iff_sorted (h : RetainsRecent g seen) :
    TracksRecent g seen ↔ g.prices.Pairwise (· ≤ ·) :=
  ⟨fun htracks => htracks.sorted,
    fun hsorted => ⟨h, hsorted, isPercentile_percentile hsorted h.retained⟩⟩

/-- All the prices seen are recent ones. -/
theorem retainsRecent_of_perm (h : g.prices.Perm seen) : RetainsRecent g seen := by
  refine ⟨h.length_eq.le, h.length_eq ▸ Nat.min_le_left .., ?_⟩
  rw [GasPriceDistribution.recent, h.length_eq, latest, Nat.sub_self, List.drop_zero]
  exact h

/-- The base fees do not matter. -/
theorem tracksRecent_baseFees (baseFees : List (ℕ × R)) :
    TracksRecent { g with baseFees := baseFees } seen ↔ TracksRecent g seen :=
  ⟨fun h => ⟨⟨h.retains.le_seen, h.retains.size, h.retains.retained⟩, h.sorted, h.reads⟩,
    fun h => ⟨⟨h.retains.le_seen, h.retains.size, h.retains.retained⟩, h.sorted, h.reads⟩⟩

theorem RetainsRecent.append (h : RetainsRecent g seen) (blockPrices : List ℕ) :
    RetainsRecent { g with prices := g.prices ++ blockPrices } (seen ++ blockPrices) := by
  have hle := h.le_seen
  have hsize := h.size
  constructor
  · rw [List.length_append, List.length_append]
    omega
  · show min (seen ++ blockPrices).length (saturatingMul 64 g.maxBlocks 100) ≤
      (g.prices ++ blockPrices).length
    rw [List.length_append, List.length_append]
    omega
  · rw [GasPriceDistribution.recent, List.length_append, latest_append]
    exact h.retained.append_right _

/-- After a trim the prices are the recent ones exactly when none that should go is above one that
    should stay. -/
theorem retainsRecent_finalizeBlock_iff (h : RetainsRecent g seen) :
    RetainsRecent g.finalizeBlock seen ↔ AgeOrdered g.maxBlocks (g.recent seen) := by
  have hlen : (g.recent seen).length = g.prices.length := h.retained.length_eq.symm
  have htrim := trimmed_le g.maxBlocks g.prices.length
  have hlenF : g.finalizeBlock.prices.length =
      g.prices.length - trimmed g.maxBlocks g.prices.length := by
    rw [finalizeBlock_eq, List.length_drop, List.length_insertionSort]
  have hrecent : g.finalizeBlock.recent seen =
      (g.recent seen).drop (trimmed g.maxBlocks g.prices.length) := by
    rw [GasPriceDistribution.recent, hlenF, GasPriceDistribution.recent,
      drop_latest htrim h.le_seen]
  have hprices : g.finalizeBlock.prices =
      ((g.recent seen).insertionSort (· ≤ ·)).drop (trimmed g.maxBlocks g.prices.length) := by
    rw [finalizeBlock_eq, ← insertionSort_congr h.retained]
  unfold AgeOrdered
  rw [hlen, ← drop_insertionSort_perm_iff, ← hrecent, ← hprices]
  constructor
  · exact fun hF => hF.retained
  · intro hperm
    have hle := h.le_seen
    have hsize := h.size
    have hleave := le_sub_trimmed g.maxBlocks g.prices.length
    refine ⟨?_, ?_, hperm⟩
    · omega
    · rw [show g.finalizeBlock.maxBlocks = g.maxBlocks by rw [finalizeBlock_eq]]
      omega

/-! ## The main theorem -/

/-- The condition of a call: a price that is added is no less than the recent ones, and a trim
    drops none that is above one that it should leave. -/
def GasCall.InOrder (g : GasPriceDistribution R) (seen : List ℕ) : GasCall → Prop
  | addTxGasPrice price => ∀ q ∈ g.recent seen, q ≤ price
  | recordBlock .. => True
  | finalizeBlock => AgeOrdered g.maxBlocks (g.recent seen)

theorem tracksRecent_new (maxBlocks : ℕ) :
    TracksRecent (GasPriceDistribution.new maxBlocks : GasPriceDistribution R) [] :=
  (tracksRecent_iff_sorted (retainsRecent_of_perm (List.Perm.refl _))).mpr List.Pairwise.nil

theorem tracksRecent_finalizeBlock_iff (h : RetainsRecent g seen) :
    TracksRecent g.finalizeBlock seen ↔ AgeOrdered g.maxBlocks (g.recent seen) := by
  rw [← retainsRecent_finalizeBlock_iff h]
  exact ⟨fun hF => hF.retains, fun hF => (tracksRecent_iff_sorted hF).mpr (finalizeBlock_sorted g)⟩

theorem tracksRecent_call_iff (h : TracksRecent g seen) (call : GasCall) :
    TracksRecent (call.run ratioOf half g) (seen ++ call.observed) ↔ call.InOrder g seen := by
  cases call with
  | addTxGasPrice price =>
    show TracksRecent { g with prices := g.prices ++ [price] } (seen ++ [price]) ↔
      ∀ q ∈ g.recent seen, q ≤ price
    rw [tracksRecent_iff_sorted (h.retains.append [price]), List.pairwise_append]
    constructor
    · exact fun hs q hq => hs.2.2 q (h.retains.retained.mem_iff.mpr hq) price (by simp)
    · intro hle
      refine ⟨h.sorted, List.pairwise_singleton .., ?_⟩
      intro q hq b hb
      rw [List.mem_singleton.mp hb]
      exact hle q (h.retains.retained.mem_iff.mp hq)
  | recordBlock baseFee gasUsed gasLimit =>
    rw [GasCall.observed, List.append_nil]
    exact (tracksRecent_baseFees _).trans ⟨fun _ => trivial, fun _ => h⟩
  | finalizeBlock =>
    rw [GasCall.observed, List.append_nil]
    exact tracksRecent_finalizeBlock_iff h.retains

variable (ratioOf half) in
/-- A block is fed to the distribution: its prices, and what is loaded of it. -/
def feedBlock (g : GasPriceDistribution R) (block : List ℕ × Option GasHeader) :
    GasPriceDistribution R :=
  feedGasDistribution ratioOf half g block.1 block.2

theorem tracksRecent_block_iff (h : RetainsRecent g seen) (block : List ℕ × Option GasHeader) :
    TracksRecent (feedBlock ratioOf half g block) (seen ++ block.1) ↔
      AgeOrdered g.maxBlocks (g.recent seen ++ block.1) := by
  have hadd := h.append block.1
  have hrecent : GasPriceDistribution.recent { g with prices := g.prices ++ block.1 }
      (seen ++ block.1) = g.recent seen ++ block.1 := by
    rw [GasPriceDistribution.recent, List.length_append, latest_append]
    rfl
  rw [feedBlock, feedGasDistribution_eq, tracksRecent_baseFees,
    tracksRecent_finalizeBlock_iff hadd, hrecent]

/-- A step that keeps the prices seen beside the distribution. -/
def withSeen {β : Type} (run : GasPriceDistribution R → β → GasPriceDistribution R)
    (observed : β → List ℕ) (s : GasPriceDistribution R × List ℕ) (b : β) :
    GasPriceDistribution R × List ℕ :=
  (run s.1 b, s.2 ++ observed b)

theorem foldl_withSeen {β : Type} (run : GasPriceDistribution R → β → GasPriceDistribution R)
    (observed : β → List ℕ) (inputs : List β) (s : GasPriceDistribution R × List ℕ) :
    inputs.foldl (withSeen run observed) s =
      (inputs.foldl run s.1, s.2 ++ inputs.flatMap observed) := by
  induction inputs generalizing s with
  | nil => rw [List.foldl_nil, List.foldl_nil, List.flatMap_nil, List.append_nil]
  | cons b inputs ih =>
    rw [List.foldl_cons, ih, List.foldl_cons, List.flatMap_cons, withSeen, List.append_assoc]

theorem tracksRecent_prefix_iff {β : Type}
    {run : GasPriceDistribution R → β → GasPriceDistribution R} {observed : β → List ℕ}
    {C : GasPriceDistribution R → List ℕ → β → Prop}
    (hstep : ∀ g seen b, TracksRecent g seen →
      (TracksRecent (run g b) (seen ++ observed b) ↔ C g seen b))
    (maxBlocks : ℕ) (inputs : List β) :
    (∀ pre, pre <+: inputs →
        TracksRecent (pre.foldl run (.new maxBlocks)) (pre.flatMap observed)) ↔
      ∀ pre b, pre ++ [b] <+: inputs →
        C (pre.foldl run (.new maxBlocks)) (pre.flatMap observed) b := by
  have hstep' (s : GasPriceDistribution R × List ℕ) (hs : TracksRecent s.1 s.2) (b : β)
      (_ : b ∈ inputs) : TracksRecent (withSeen run observed s b).1 (withSeen run observed s b).2 ↔
        C s.1 s.2 b := hstep s.1 s.2 b hs
  have hiff := foldl_prefix_iff (s := (.new maxBlocks, []))
    (I := fun s : GasPriceDistribution R × List ℕ => TracksRecent s.1 s.2)
    (C := fun s b => C s.1 s.2 b) (tracksRecent_new maxBlocks) hstep'
  simpa only [foldl_withSeen, List.nil_append] using hiff

theorem foldl_feedBlock_maxBlocks (blocks : List (List ℕ × Option GasHeader))
    (g : GasPriceDistribution R) :
    (blocks.foldl (feedBlock ratioOf half) g).maxBlocks = g.maxBlocks := by
  induction blocks generalizing g with
  | nil => rfl
  | cons block blocks ih =>
    rw [List.foldl_cons, ih, feedBlock, feedGasDistribution_eq, finalizeBlock_eq]

theorem foldl_feedBlock_sorted (maxBlocks : ℕ) (blocks : List (List ℕ × Option GasHeader)) :
    (blocks.foldl (feedBlock ratioOf half) (.new maxBlocks)).prices.Pairwise (· ≤ ·) := by
  rcases List.eq_nil_or_concat' blocks with rfl | ⟨pre, block, rfl⟩
  · exact List.Pairwise.nil
  · rw [List.foldl_concat, feedBlock, feedGasDistribution_eq]
    exact finalizeBlock_sorted _

/-- While there is nothing to trim, every price is retained. -/
theorem foldl_feedBlock_perm {maxBlocks : ℕ} {blocks : List (List ℕ × Option GasHeader)}
    (h : (blocks.flatMap Prod.fst).length ≤ saturatingMul 64 (max maxBlocks 10) 200) :
    (blocks.foldl (feedBlock ratioOf half) (.new maxBlocks)).prices.Perm
      (blocks.flatMap Prod.fst) := by
  induction blocks using List.reverseRecOn with
  | nil => exact List.Perm.refl _
  | append_singleton blocks block ih =>
    rw [List.flatMap_append, List.flatMap_singleton] at h ⊢
    have hle : (blocks.flatMap Prod.fst).length ≤ saturatingMul 64 (max maxBlocks 10) 200 := by
      rw [List.length_append] at h
      omega
    have hperm := (ih hle).append_right block.1
    have hmax : (blocks.foldl (feedBlock ratioOf half) (.new maxBlocks)).maxBlocks =
        max maxBlocks 10 := foldl_feedBlock_maxBlocks blocks _
    rw [List.foldl_concat, feedBlock, feedGasDistribution_eq, finalizeBlock_eq]
    show ((_ ++ block.1).insertionSort (· ≤ ·) |>.drop (trimmed _ (_ ++ block.1).length)).Perm _
    rw [trimmed, if_neg (by rw [hmax, hperm.length_eq]; omega), List.drop_zero]
    exact (List.perm_insertionSort _ _).trans hperm

/-- While no more prices were seen than the distribution may hold, it tracks them all. -/
theorem tracksRecent_of_length_le {maxBlocks : ℕ} {blocks : List (List ℕ × Option GasHeader)}
    (h : (blocks.flatMap Prod.fst).length ≤ saturatingMul 64 (max maxBlocks 10) 200) :
    TracksRecent (blocks.foldl (feedBlock ratioOf half) (.new maxBlocks))
      (blocks.flatMap Prod.fst) := by
  rw [tracksRecent_iff_sorted (retainsRecent_of_perm (foldl_feedBlock_perm h))]
  exact foldl_feedBlock_sorted maxBlocks blocks

/-! ## The bias of the trim -/

/-- The prices are as many as the recent ones, and from any bound on no fewer. -/
structure AboveRecent (g : GasPriceDistribution R) (seen : List ℕ) : Prop where
  le_seen : g.prices.length ≤ seen.length
  dominates : Dominates g.prices (g.recent seen)

theorem AboveRecent.feedBlock (h : AboveRecent g seen) (block : List ℕ × Option GasHeader) :
    AboveRecent (feedBlock ratioOf half g block) (seen ++ block.1) := by
  set prices := g.prices ++ block.1
  set k := trimmed g.maxBlocks prices.length
  have hfed : (Pipeline.feedBlock ratioOf half g block).prices =
      (prices.insertionSort (· ≤ ·)).drop k := by
    rw [Pipeline.feedBlock, feedGasDistribution_eq, finalizeBlock_eq]
  have hk : k ≤ prices.length := trimmed_le _ _
  have hle : prices.length ≤ (seen ++ block.1).length := by
    rw [List.length_append, List.length_append]
    exact Nat.add_le_add_right h.le_seen _
  have hlen : (Pipeline.feedBlock ratioOf half g block).prices.length = prices.length - k := by
    rw [hfed, List.length_drop, List.length_insertionSort]
  have hrecent : (Pipeline.feedBlock ratioOf half g block).recent (seen ++ block.1) =
      (g.recent seen ++ block.1).drop k := by
    rw [GasPriceDistribution.recent, hlen, ← drop_latest hk hle, List.length_append,
      latest_append]
    rfl
  constructor
  · omega
  · rw [hfed, hrecent]
    have habove := (h.dominates.append block.1).of_perm (List.perm_insertionSort (· ≤ ·) _).symm
    exact habove.drop (List.pairwise_insertionSort ..) k

theorem foldl_feedBlock_above (maxBlocks : ℕ) (blocks : List (List ℕ × Option GasHeader)) :
    AboveRecent (blocks.foldl (feedBlock ratioOf half) (.new maxBlocks))
      (blocks.flatMap Prod.fst) := by
  induction blocks using List.reverseRecOn with
  | nil => exact ⟨le_rfl, Dominates.refl _⟩
  | append_singleton blocks block ih =>
    rw [List.foldl_concat, List.flatMap_append, List.flatMap_singleton]
    exact ih.feedBlock block

/-- A percentile that is read after a block is never below that of the recent prices: the trim
    only ever leaves higher prices in the place of recent ones. -/
theorem percentile_ge_recent {maxBlocks : ℕ} {blocks : List (List ℕ × Option GasHeader)}
    {p v w : ℕ}
    (hread : (blocks.foldl (feedBlock ratioOf half) (.new maxBlocks)).percentile p = some v)
    (hrecent : IsPercentile ((blocks.foldl (feedBlock ratioOf half) (.new maxBlocks)).recent
      (blocks.flatMap Prod.fst)) p (some w)) : w ≤ v := by
  have habove : AboveRecent (blocks.foldl (feedBlock ratioOf half) (.new maxBlocks))
      (blocks.flatMap Prod.fst) := foldl_feedBlock_above maxBlocks blocks
  have hsorted : (blocks.foldl (feedBlock ratioOf half) (.new maxBlocks)).prices.Pairwise
      (· ≤ ·) := foldl_feedBlock_sorted maxBlocks blocks
  have hown := isPercentile_percentile hsorted (List.Perm.refl _) p
  rw [hread, IsPercentile, habove.dominates.length] at hown
  exact habove.dominates.le_of_isRank hown hrecent

/-! ## The base fees -/

variable (ratioOf half) in
/-- The base fee that a call records, with the ratio of gas used. -/
def GasCall.baseFee : GasCall → List (ℕ × R)
  | recordBlock baseFee gasUsed gasLimit =>
    [(baseFee, if 0 < gasLimit then ratioOf gasUsed gasLimit else half)]
  | addTxGasPrice _ | finalizeBlock => []

/-- Unlike the prices, the base fees leave by age: those of the last blocks are retained. -/
theorem baseFees_latest (maxBlocks : ℕ) (calls : List GasCall) :
    (calls.foldl (GasCall.run ratioOf half) (.new maxBlocks)).maxBlocks = max maxBlocks 10 ∧
      (calls.foldl (GasCall.run ratioOf half) (.new maxBlocks)).baseFees =
        latest (max maxBlocks 10) (calls.flatMap (GasCall.baseFee ratioOf half)) := by
  induction calls using List.reverseRecOn with
  | nil => exact ⟨rfl, by rw [List.flatMap_nil, latest, List.drop_nil]; rfl⟩
  | append_singleton calls call ih =>
    obtain ⟨hmax, hfees⟩ := ih
    rw [List.foldl_concat, List.flatMap_append, List.flatMap_singleton]
    cases call with
    | addTxGasPrice price =>
      rw [GasCall.baseFee, List.append_nil]
      exact ⟨hmax, hfees⟩
    | recordBlock baseFee gasUsed gasLimit =>
      refine ⟨hmax, ?_⟩
      simp only [GasCall.run, GasPriceDistribution.recordBlock]
      rw [removeFirst_eq_latest, hmax, hfees, latest_latest_append]
      rfl
    | finalizeBlock =>
      rw [GasCall.baseFee, List.append_nil, GasCall.run, finalizeBlock_eq]
      exact ⟨hmax, hfees⟩

/-! ## A price level that falls -/

/-- Fifty-one blocks of a hundred transactions at 60 gwei, and forty-nine at 20 gwei. -/
def levelBlocks : List (List ℕ × Option GasHeader) :=
  List.replicate 51 (List.replicate 100 60000000000, none) ++
    List.replicate 49 (List.replicate 100 20000000000, none)

theorem levelBlocks_prices : levelBlocks.flatMap Prod.fst =
    List.replicate 5100 60000000000 ++ List.replicate 4900 20000000000 := by
  have hflat (n v : ℕ) :
      (List.replicate n (List.replicate 100 v, (none : Option GasHeader))).flatMap Prod.fst =
        List.replicate (n * 100) v := by
    rw [List.flatMap, List.map_replicate, List.flatten_replicate_replicate]
  rw [levelBlocks, List.flatMap_append, hflat, hflat]

end MevScout.Pipeline
