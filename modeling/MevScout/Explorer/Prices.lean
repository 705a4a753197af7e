import MevScout.Explorer.CanonicalId
import MevScout.Common.Chunks
import MevScout.Common.Map

/-!
# The price cache

Models of `price_at` and `prices_at` (`core/src/explorer/store/jit_positions.rs`, lines 16–134):
the lookup of the quote of a token in the table `prices`, alone or for many tokens. What a quote
is, and whether it is usable, is left open; the integers of a query are unbounded here.

Results:
* `pricesAt_eq_priceAt`: both lookups agree;
* `prices_iff`: they return the newest usable quote of a day exactly where no unusable row is
  newer.
-/

namespace MevScout.Explorer

open MevScout.Paper
open Std (ExtTreeMap)

/-! ## The table -/

/-- A row of `prices` (`store/schema.rs`, lines 432–438), its `usd` and `source` as one quote. -/
structure PriceRow (Q : Type*) where
  hour : ℤ
  token : String
  quote : Q

/-- The table `prices` with its primary key. -/
structure PriceTable (Q : Type*) where
  rows : List (PriceRow Q)
  key : (rows.map fun r => (r.hour, r.token)).Nodup

variable {Q : Type*} (usable : Q → Bool) (table : PriceTable Q)

/-- A row of a token in the day that ends with an hour: `hour <= ?1 AND hour > ?1 - 24`. -/
def inDay (token : String) (hour : ℤ) (r : PriceRow Q) : Bool :=
  r.token = token ∧ r.hour ≤ hour ∧ hour - 24 < r.hour

/-- The row of a token and an hour. -/
def exactRow (token : String) (hour : ℤ) : Option (PriceRow Q) :=
  table.rows.find? fun r => r.token = token ∧ r.hour = hour

/-- The newest hour of a token in a day: `SELECT MAX(hour)`. -/
def newestHour (token : String) (hour : ℤ) : Option ℤ :=
  ((table.rows.filter (inDay token hour)).map (·.hour)).max?

/-- The newest row of a token in a day: `ORDER BY hour DESC LIMIT 1`. -/
def newestRow (token : String) (hour : ℤ) : Option (PriceRow Q) :=
  (newestHour table token hour).bind (exactRow table token)

/-- Model of `price_at` (lines 22–50). -/
def priceAt (token : Address) (hour : ℕ) : Option Q :=
  let tok := hexAddress token
  let exact := ((exactRow table tok (asSigned 64 hour)).map (·.quote)).filter usable
  if exact.isSome then exact
  else ((newestRow table tok (asSigned 64 hour)).map (·.quote)).filter usable

/-- The rows that one query of `fill_prices` selects (lines 94–108). -/
def selectRows (hour : ℤ) (exact : Bool) (texts : List String) : List (PriceRow Q) :=
  table.rows.filter fun r => r.token ∈ texts ∧
    if exact then r.hour = hour
    else inDay r.token hour r ∧ newestHour table r.token hour = some r.hour

/-- The lookup in `by_token` (line 84), where the last entry of a text wins. -/
def byToken (keys : List (Address × String)) (text : String) : Option Address :=
  (keys.reverse.find? fun k => k.2 = text).map Prod.fst

/-- Model of `fill_prices` (lines 76–134). -/
def fillPrices (keys : List (Address × String)) (hour : ℤ) (exact : Bool)
    (out : ExtTreeMap Address Q compare) : ExtTreeMap Address Q compare :=
  (chunksOf 400 keys).foldl (fun out chunk =>
    Map.insertAll (fun r => if usable r.quote then byToken keys r.token else none) (·.quote) out
      (selectRows table hour exact (chunk.map Prod.snd))) out

/-- Model of `prices_at` (lines 54–74). -/
def pricesAt (tokens : List Address) (hour : ℕ) : ExtTreeMap Address Q compare :=
  if tokens = [] then ∅
  else
    let keys := (tokens.filter (· ≠ 0)).map fun t => (t, hexAddress t)
    let out := fillPrices usable table keys (asSigned 64 hour) true ∅
    let missing := keys.filter fun k => !out.contains k.1
    fillPrices usable table missing (asSigned 64 hour) false out

/-! ## Rows -/

section

variable {table : PriceTable Q} {token : String} {hour : ℤ} {r r' : PriceRow Q}

theorem inDay_iff : inDay token hour r = true ↔
    r.token = token ∧ r.hour ≤ hour ∧ hour - 24 < r.hour := by simp [inDay]

/-- A row is found by its token and its hour. -/
theorem exactRow_eq_some : exactRow table token hour = some r ↔
    r ∈ table.rows ∧ r.token = token ∧ r.hour = hour := by
  unfold exactRow
  constructor
  · intro h
    exact ⟨List.mem_of_find?_eq_some h, by simpa using List.find?_some h⟩
  · rintro ⟨hmem, htoken, hhour⟩
    cases hfind : table.rows.find? fun r => r.token = token ∧ r.hour = hour with
    | none =>
      rw [List.find?_eq_none] at hfind
      exact absurd (decide_eq_true ⟨htoken, hhour⟩) (hfind r hmem)
    | some r' =>
      have hrow' : r'.token = token ∧ r'.hour = hour := by simpa using List.find?_some hfind
      refine congrArg some (List.inj_on_of_nodup_map table.key
        (List.mem_of_find?_eq_some hfind) hmem ?_)
      rw [hrow'.1, hrow'.2, htoken, hhour]

theorem newestHour_eq_some {m : ℤ} : newestHour table token hour = some m ↔
    (∃ r ∈ table.rows, inDay token hour r ∧ r.hour = m) ∧
      ∀ r ∈ table.rows, inDay token hour r → r.hour ≤ m := by
  unfold newestHour
  rw [List.max?_eq_some_iff]
  constructor
  · rintro ⟨hm, hle⟩
    obtain ⟨r, hr, rfl⟩ := List.mem_map.mp hm
    obtain ⟨hmem, hday⟩ := List.mem_filter.mp hr
    exact ⟨⟨r, hmem, hday, rfl⟩, fun r' hmem' hday' =>
      hle _ (List.mem_map_of_mem (List.mem_filter.mpr ⟨hmem', hday'⟩))⟩
  · rintro ⟨⟨r, hmem, hday, rfl⟩, hle⟩
    refine ⟨List.mem_map_of_mem (List.mem_filter.mpr ⟨hmem, hday⟩), fun m hm => ?_⟩
    obtain ⟨r', hr', rfl⟩ := List.mem_map.mp hm
    obtain ⟨hmem', hday'⟩ := List.mem_filter.mp hr'
    exact hle r' hmem' hday'

/-- The newest row of a day. -/
theorem newestRow_eq_some : newestRow table token hour = some r ↔
    r ∈ table.rows ∧ inDay token hour r ∧
      ∀ r' ∈ table.rows, inDay token hour r' → r'.hour ≤ r.hour := by
  unfold newestRow
  rw [Option.bind_eq_some_iff]
  constructor
  · rintro ⟨m, hm, hrow⟩
    obtain ⟨⟨r', hmem', hday, rfl⟩, hle⟩ := newestHour_eq_some.mp hm
    obtain ⟨hmem, htoken, hhour⟩ := exactRow_eq_some.mp hrow
    rw [inDay_iff] at hday
    exact ⟨hmem, inDay_iff.mpr (by rw [htoken, hhour]; exact ⟨rfl, hday.2⟩), hhour ▸ hle⟩
  · rintro ⟨hmem, hday, hle⟩
    exact ⟨r.hour, newestHour_eq_some.mpr ⟨⟨r, hmem, hday, rfl⟩, hle⟩,
      exactRow_eq_some.mpr ⟨hmem, (inDay_iff.mp hday).1, rfl⟩⟩

/-- Where a token has a row in a day, it has a newest one. -/
theorem exists_newestRow (hmem : r ∈ table.rows) (hday : inDay token hour r) :
    ∃ r', newestRow table token hour = some r' := by
  have hne : (table.rows.filter (inDay token hour)).map (·.hour) ≠ [] :=
    List.ne_nil_of_mem (List.mem_map_of_mem (List.mem_filter.mpr ⟨hmem, hday⟩))
  obtain ⟨m, hm⟩ := Option.ne_none_iff_exists'.mp (mt List.max?_eq_none_iff.mp hne)
  obtain ⟨⟨r', hmem', hday', rfl⟩, hle⟩ := newestHour_eq_some.mp hm
  exact ⟨r', newestRow_eq_some.mpr ⟨hmem', hday', hle⟩⟩

/-- The row that a query looks for. -/
def soughtRow (table : PriceTable Q) (exact : Bool) (token : String) (hour : ℤ) :
    Option (PriceRow Q) :=
  if exact then exactRow table token hour else newestRow table token hour

theorem soughtRow_token {exact : Bool} (h : soughtRow table exact token hour = some r) :
    r.token = token := by
  cases exact with
  | true => exact (exactRow_eq_some.mp h).2.1
  | false => exact (inDay_iff.mp (newestRow_eq_some.mp h).2.1).1

/-- A query selects the sought rows of its tokens. -/
theorem mem_selectRows {exact : Bool} {texts : List String} :
    r ∈ selectRows table hour exact texts ↔
      r.token ∈ texts ∧ soughtRow table exact r.token hour = some r := by
  unfold selectRows soughtRow
  rw [List.mem_filter, decide_eq_true_iff]
  cases exact with
  | true =>
    rw [if_pos rfl, if_pos rfl, exactRow_eq_some]
    tauto
  | false =>
    rw [if_neg Bool.false_ne_true, if_neg Bool.false_ne_true, newestRow_eq_some,
      newestHour_eq_some]
    constructor
    · rintro ⟨hmem, htexts, hday, -, hle⟩
      exact ⟨htexts, hmem, hday, hle⟩
    · rintro ⟨htexts, hmem, hday, hle⟩
      exact ⟨hmem, htexts, hday, ⟨r, hmem, hday, rfl⟩, hle⟩

end

/-! ## Lookups -/

section

variable {usable : Q → Bool} {table : PriceTable Q} {keys : List (Address × String)}

/-- The keys are addresses with their texts. -/
def AreTexts (keys : List (Address × String)) : Prop := ∀ k ∈ keys, k.2 = hexAddress k.1

/-- An address is read off its text. -/
theorem byToken_eq_some (hkeys : AreTexts keys) {text : String} {a : Address} :
    byToken keys text = some a ↔ a ∈ keys.map Prod.fst ∧ text = hexAddress a := by
  unfold byToken
  constructor
  · intro h
    obtain ⟨k, hfind, rfl⟩ := Option.map_eq_some_iff.mp h
    have hmem : k ∈ keys := List.mem_reverse.mp (List.mem_of_find?_eq_some hfind)
    have htext : k.2 = text := by simpa using List.find?_some hfind
    exact ⟨List.mem_map_of_mem hmem, htext ▸ hkeys k hmem⟩
  · rintro ⟨hmem, rfl⟩
    obtain ⟨k, hk, rfl⟩ := List.mem_map.mp hmem
    cases hfind : keys.reverse.find? fun k' => k'.2 = hexAddress k.1 with
    | none =>
      rw [List.find?_eq_none] at hfind
      exact absurd (decide_eq_true (hkeys k hk)) (hfind k (List.mem_reverse.mpr hk))
    | some k' =>
      have hmem' : k' ∈ keys := List.mem_reverse.mp (List.mem_of_find?_eq_some hfind)
      have htext : k'.2 = hexAddress k.1 := by simpa using List.find?_some hfind
      exact congrArg some (hexAddress_inj.mp ((hkeys k' hmem').symm.trans htext))

theorem getLast?_eq_some_of_forall {α : Type*} {l : List α} {a : α} (hmem : a ∈ l)
    (hall : ∀ b ∈ l, b = a) : l.getLast? = some a := by
  obtain ⟨b, hb⟩ := Option.ne_none_iff_exists'.mp
    (mt List.getLast?_eq_none_iff.mp (List.ne_nil_of_mem hmem))
  rw [hb, hall b (List.mem_of_getLast? hb)]

/-- The usable quote of a row, if there is one. -/
def usableQuote (usable : Q → Bool) (r : Option (PriceRow Q)) : Option Q :=
  (r.map (·.quote)).filter usable

variable (usable table) in
/-- What one run of the queries leaves for an address. -/
theorem getElem?_fillPrices (hkeys : AreTexts keys) (hour : ℤ) (exact : Bool)
    (out : ExtTreeMap Address Q compare) (a : Address) :
    (fillPrices usable table keys hour exact out)[a]? =
      if a ∈ keys.map Prod.fst then
        (usableQuote usable (soughtRow table exact (hexAddress a) hour)).or out[a]?
      else out[a]? := by
  let key : PriceRow Q → Option Address := fun r =>
    if usable r.quote then byToken keys r.token else none
  let rows := (chunksOf 400 keys).flatMap fun chunk =>
    selectRows table hour exact (chunk.map Prod.snd)
  have hfill : fillPrices usable table keys hour exact out =
      Map.insertAll key (·.quote) out rows := (List.foldl_flatMap ..).symm
  have hrows (r : PriceRow Q) : r ∈ rows.filter (key · = some a) ↔
      a ∈ keys.map Prod.fst ∧ usable r.quote = true ∧
        soughtRow table exact (hexAddress a) hour = some r := by
    have hkey : key r = some a ↔ usable r.quote = true ∧ a ∈ keys.map Prod.fst ∧
        r.token = hexAddress a := by
      rw [← byToken_eq_some hkeys]
      simp [key]
    rw [List.mem_filter, decide_eq_true_iff, hkey, List.mem_flatMap]
    constructor
    · rintro ⟨⟨chunk, -, hr⟩, husable, ha, htoken⟩
      exact ⟨ha, husable, htoken ▸ (mem_selectRows.mp hr).2⟩
    · rintro ⟨ha, husable, hsought⟩
      have htoken := soughtRow_token hsought
      refine ⟨?_, husable, ha, htoken⟩
      obtain ⟨k, hk, rfl⟩ := List.mem_map.mp ha
      obtain ⟨chunk, hchunk, hk'⟩ := List.mem_flatten.mp (chunksOf_flatten 400 keys ▸ hk)
      refine ⟨chunk, hchunk, mem_selectRows.mpr ⟨?_, htoken ▸ hsought⟩⟩
      rw [htoken, ← hkeys k hk]
      exact List.mem_map_of_mem hk'
  rw [hfill, Map.getElem?_insertAll]
  by_cases hfound : ∃ r, r ∈ rows.filter (key · = some a)
  · obtain ⟨r, hr⟩ := hfound
    obtain ⟨ha, husable, hsought⟩ := (hrows r).mp hr
    have hlast := getLast?_eq_some_of_forall hr fun r' hr' =>
      Option.some.inj (((hrows r').mp hr').2.2.symm.trans hsought)
    rw [hlast, if_pos ha, hsought, usableQuote, Option.map_some, Option.filter_some,
      if_pos husable]
  · have hnil : rows.filter (key · = some a) = [] :=
      List.eq_nil_iff_forall_not_mem.mpr fun r hr => hfound ⟨r, hr⟩
    rw [hnil]
    split_ifs with ha
    · have hnone : usableQuote usable (soughtRow table exact (hexAddress a) hour) = none := by
        rw [Option.eq_none_iff_forall_ne_some]
        intro q hq
        obtain ⟨hmap, husable⟩ := Option.filter_eq_some_iff.mp hq
        obtain ⟨r, hsought, rfl⟩ := Option.map_eq_some_iff.mp hmap
        exact hfound ⟨r, (hrows r).mpr ⟨ha, husable, hsought⟩⟩
      rw [hnone]
      rfl
    · rfl

/-- The batched lookup agrees with the single one. -/
theorem pricesAt_eq_priceAt {tokens : List Address} {token : Address} (hmem : token ∈ tokens)
    (hzero : token ≠ 0) (hour : ℕ) :
    (pricesAt usable table tokens hour)[token]? = priceAt usable table token hour := by
  have hne : tokens ≠ [] := List.ne_nil_of_mem hmem
  unfold pricesAt
  rw [if_neg hne]
  dsimp only
  generalize hkeys : (tokens.filter (· ≠ 0)).map (fun t => (t, hexAddress t)) = keys
  have htexts : AreTexts keys := by
    intro k hk
    rw [← hkeys] at hk
    obtain ⟨t, -, rfl⟩ := List.mem_map.mp hk
    rfl
  have hin : token ∈ keys.map Prod.fst := by
    rw [← hkeys, List.map_map]
    exact List.mem_map.mpr ⟨token, List.mem_filter.mpr ⟨hmem, by simpa using hzero⟩, rfl⟩
  have hexact := getElem?_fillPrices usable table htexts (asSigned 64 hour) true ∅
    token
  rw [if_pos hin, ExtTreeMap.getElem?_empty, Option.or_none] at hexact
  generalize fillPrices usable table keys (asSigned 64 hour) true ∅ = out at hexact ⊢
  have hmissing : AreTexts (keys.filter fun k => !out.contains k.1) :=
    fun k hk => htexts k (List.mem_filter.mp hk).1
  have hmiss : token ∈ (keys.filter fun k => !out.contains k.1).map Prod.fst ↔
      out[token]? = none := by
    rw [← Option.not_isSome_iff_eq_none, ← ExtTreeMap.contains_eq_isSome_getElem?,
      ← Bool.not_iff_not]
    constructor
    · intro h
      obtain ⟨k, hk, rfl⟩ := List.mem_map.mp h
      exact (List.mem_filter.mp hk).2
    · intro h
      obtain ⟨k, hk, rfl⟩ := List.mem_map.mp hin
      exact List.mem_map_of_mem (List.mem_filter.mpr ⟨hk, h⟩)
  rw [getElem?_fillPrices usable table hmissing]
  show _ = if (usableQuote usable (exactRow table (hexAddress token) (asSigned 64 hour))).isSome
    then usableQuote usable (exactRow table (hexAddress token) (asSigned 64 hour))
    else usableQuote usable (newestRow table (hexAddress token) (asSigned 64 hour))
  have hexact' : out[token]? =
      usableQuote usable (exactRow table (hexAddress token) (asSigned 64 hour)) := hexact
  rw [← hexact']
  cases hout : out[token]? with
  | none =>
    rw [if_pos (hmiss.mpr hout), if_neg (by simp), Option.or_none]
    rfl
  | some q =>
    rw [if_neg (by rw [hmiss, hout]; simp)]
    rfl

end

/-! ## What the lookups promise -/

/-- The table without its unusable rows, which count as absent (lines 9–13). -/
def usableRows (usable : Q → Bool) (table : PriceTable Q) : PriceTable Q where
  rows := table.rows.filter (usable ·.quote)
  key := table.key.sublist (List.filter_sublist.map _)

/-- The usable quote of an hour, else the newest one of the hours before it in the day. -/
def promisedQuote (usable : Q → Bool) (table : PriceTable Q) (token : Address) (hour : ℕ) :
    Option Q :=
  let tok := hexAddress token
  ((exactRow (usableRows usable table) tok (asSigned 64 hour)).or
    (newestRow (usableRows usable table) tok (asSigned 64 hour))).map (·.quote)

/-- There are usable rows in the day, and an unusable one that is newer than all of them. -/
def Shadowed (usable : Q → Bool) (table : PriceTable Q) (token : String) (hour : ℤ) : Prop :=
  ∃ u ∈ table.rows, inDay token hour u ∧ usable u.quote = false ∧
    (∃ r ∈ table.rows, inDay token hour r ∧ usable r.quote) ∧
    ∀ r ∈ table.rows, inDay token hour r → usable r.quote → r.hour < u.hour

section

variable {usable : Q → Bool} {table : PriceTable Q} {token : String} {hour : ℤ}

/-- The row of the hour itself is the newest one of the day. -/
theorem newestRow_of_exactRow {r : PriceRow Q} (h : exactRow table token hour = some r) :
    newestRow table token hour = some r := by
  obtain ⟨hmem, htoken, hhour⟩ := exactRow_eq_some.mp h
  refine newestRow_eq_some.mpr ⟨hmem, inDay_iff.mpr ⟨htoken, by omega, by omega⟩,
    fun r' _ hday' => ?_⟩
  have := (inDay_iff.mp hday').2.1
  omega

theorem priceAt_eq (token : Address) (hour : ℕ) :
    priceAt usable table token hour =
      usableQuote usable (newestRow table (hexAddress token) (asSigned 64 hour)) := by
  show (if (usableQuote usable _).isSome then usableQuote usable _ else usableQuote usable _) = _
  split_ifs with hexact
  · cases hrow : exactRow table (hexAddress token) (asSigned 64 hour) with
    | none =>
      rw [hrow] at hexact
      cases hexact
    | some r => rw [newestRow_of_exactRow hrow]
  · rfl

theorem promisedQuote_eq (token : Address) (hour : ℕ) :
    promisedQuote usable table token hour =
      (newestRow (usableRows usable table) (hexAddress token) (asSigned 64 hour)).map
        (·.quote) := by
  unfold promisedQuote
  dsimp only
  cases hrow : exactRow (usableRows usable table) (hexAddress token) (asSigned 64 hour) with
  | none => rfl
  | some r => rw [newestRow_of_exactRow hrow, Option.some_or]

theorem mem_usableRows {r : PriceRow Q} :
    r ∈ (usableRows usable table).rows ↔ r ∈ table.rows ∧ usable r.quote = true :=
  List.mem_filter

/-- The newest row of the day hides an older usable one exactly where it is unusable. -/
theorem usableQuote_newestRow_iff :
    usableQuote usable (newestRow table token hour) =
        (newestRow (usableRows usable table) token hour).map (·.quote) ↔
      ¬Shadowed usable table token hour := by
  cases hnewest : newestRow table token hour with
  | none =>
    have hempty : ∀ r ∈ table.rows, ¬inDay token hour r := by
      intro r hmem hday
      obtain ⟨r', hr'⟩ := exists_newestRow hmem hday
      rw [hnewest] at hr'
      cases hr'
    have hnone : newestRow (usableRows usable table) token hour = none := by
      rw [Option.eq_none_iff_forall_ne_some]
      intro r hr
      obtain ⟨hmem, hday, -⟩ := newestRow_eq_some.mp hr
      exact hempty r (mem_usableRows.mp hmem).1 hday
    rw [hnone]
    refine ⟨fun _ => ?_, fun _ => rfl⟩
    rintro ⟨u, hmem, hday, -⟩
    exact hempty u hmem hday
  | some n =>
    obtain ⟨hmem, hday, hle⟩ := newestRow_eq_some.mp hnewest
    cases husable : usable n.quote with
    | true =>
      have hsame : newestRow (usableRows usable table) token hour = some n :=
        newestRow_eq_some.mpr ⟨mem_usableRows.mpr ⟨hmem, husable⟩, hday,
          fun r hr => hle r (mem_usableRows.mp hr).1⟩
      rw [hsame, usableQuote, Option.map_some, Option.filter_some, if_pos husable]
      refine ⟨fun _ => ?_, fun _ => rfl⟩
      rintro ⟨u, hmemu, hdayu, -, -, hlt⟩
      have hnu := hlt n hmem hday husable
      have hun := hle u hmemu hdayu
      omega
    | false =>
      rw [usableQuote, Option.map_some, Option.filter_some, husable, if_neg Bool.false_ne_true,
        eq_comm, Option.map_eq_none_iff]
      constructor
      · rintro hnone ⟨u, -, -, -, ⟨r, hmemr, hdayr, hur⟩, -⟩
        obtain ⟨r', hr'⟩ := exists_newestRow (mem_usableRows.mpr ⟨hmemr, hur⟩) hdayr
        rw [hnone] at hr'
        cases hr'
      · intro hshadow
        rw [Option.eq_none_iff_forall_ne_some]
        intro r hr
        obtain ⟨hmemr, hdayr, -⟩ := newestRow_eq_some.mp hr
        obtain ⟨hmemr, hur⟩ := mem_usableRows.mp hmemr
        refine hshadow ⟨n, hmem, hday, husable, ⟨r, hmemr, hdayr, hur⟩,
          fun r' hmem' hday' husable' => ?_⟩
        refine lt_of_le_of_ne (hle r' hmem' hday') fun heq => ?_
        have hsame : r' = n := List.inj_on_of_nodup_map table.key hmem' hmem
          (by rw [heq, (inDay_iff.mp hday').1, (inDay_iff.mp hday).1])
        rw [hsame, husable] at husable'
        cases husable'

end

/-- **Main theorem.** Both lookups always agree. They give the usable quote of the hour, else the
    newest usable one of the 23 hours before, exactly where no unusable row of the day is newer
    than all its usable rows. -/
theorem prices_iff (usable : Q → Bool) (table : PriceTable Q) (tokens : List Address)
    (hzero : ∀ token ∈ tokens, token ≠ 0) (hour : ℕ) :
    (∀ token ∈ tokens, (pricesAt usable table tokens hour)[token]? =
        priceAt usable table token hour) ∧
      ((∀ token ∈ tokens, (pricesAt usable table tokens hour)[token]? =
            priceAt usable table token hour ∧
          priceAt usable table token hour = promisedQuote usable table token hour) ↔
        ∀ token ∈ tokens, ¬Shadowed usable table (hexAddress token) (asSigned 64 hour)) := by
  have hagree : ∀ token ∈ tokens, (pricesAt usable table tokens hour)[token]? =
      priceAt usable table token hour :=
    fun token hmem => pricesAt_eq_priceAt hmem (hzero token hmem) hour
  refine ⟨hagree, ?_⟩
  have hpromised (token : Address) : priceAt usable table token hour =
      promisedQuote usable table token hour ↔
        ¬Shadowed usable table (hexAddress token) (asSigned 64 hour) := by
    rw [priceAt_eq, promisedQuote_eq, usableQuote_newestRow_iff]
  constructor
  · intro h token hmem
    exact (hpromised token).mp (h token hmem).2
  · intro h token hmem
    exact ⟨hagree token hmem, (hpromised token).mpr (h token hmem)⟩

/-- A quote of `5` at hour `10` and a legacy row of `0` an hour later. -/
def legacyRow : PriceTable ℕ where
  rows := [{ hour := 10, token := hexAddress 1, quote := 5 },
    { hour := 11, token := hexAddress 1, quote := 0 }]
  key := by simp

/-- The legacy row hides the quote in both lookups. -/
theorem legacy_row_shadows :
    priceAt (0 < ·) legacyRow 1 12 = none ∧
      (pricesAt (0 < ·) legacyRow [1] 12)[(1 : Address)]? = none ∧
      promisedQuote (0 < ·) legacyRow 1 12 = some 5 := by
  refine ⟨?_, ?_, ?_⟩ <;> decide +kernel

/-- The lookups of that token at both hours. -/
theorem legacyRow_prices :
    ((∀ token ∈ [(1 : Address)], (pricesAt (0 < ·) legacyRow [1] 10)[token]? =
        priceAt (0 < ·) legacyRow token 10) ∧
      ((∀ token ∈ [(1 : Address)], (pricesAt (0 < ·) legacyRow [1] 10)[token]? =
            priceAt (0 < ·) legacyRow token 10 ∧
          priceAt (0 < ·) legacyRow token 10 = promisedQuote (0 < ·) legacyRow token 10) ↔
        ∀ token ∈ [(1 : Address)],
          ¬Shadowed (0 < ·) legacyRow (hexAddress token) (asSigned 64 10))) :=
  prices_iff (0 < ·) legacyRow [1] (List.forall_mem_singleton.mpr (by decide)) 10

end MevScout.Explorer
