import MevScout.Common.Memo
import MevScout.Pool.Factory.Fetch

/-!
# The tick bootstrap of V3 pools

Model of `fetch_v3_initialized_ticks` (`core/src/pool/state/factory.rs`) and of the store
behind it (`core/src/cache/store/ticks.rs`): five words of the tick bitmap around the
current tick are scanned, and the net liquidity of every tick found there is read. The map
is stored under the pool and the center word and is served to later calls of that window.
-/

namespace MevScout.Pool.Factory

def v3TickBitmap : List UInt8 := [0x53, 0x39, 0xc2, 0x96]
def v3Ticks : List UInt8 := [0xf3, 0x0d, 0xba, 0x93]

/-! ## The store -/

instance instEquivBEqTickKey : EquivBEq (Address × ℤ) := inferInstance

instance instLawfulHashableTickKey : LawfulHashable (Address × ℤ) := inferInstance

/-- The table `v3_tick_cache`: the spacing and the ticks by address and center word. -/
abbrev TickCache := Std.ExtHashMap (Address × ℤ) (ℤ × TickMap)

/-- Model of `get_v3_tick_cache` (`ticks.rs`, lines 12–34). -/
def getV3TickCache (cache : TickCache) (address : Address) (centerWord : ℤ) :
    Option (ℤ × TickMap) :=
  cache[(address, centerWord)]?

/-- Model of `put_v3_tick_cache` (`ticks.rs`, lines 39–64). -/
def putV3TickCache (cache : TickCache) (address : Address) (centerWord tickSpacing : ℤ)
    (ticks : TickMap) : TickCache :=
  if ticks.isEmpty then cache else cache.insert (address, centerWord) (tickSpacing, ticks)

/-! ## The scan -/

/-- A signed argument on `k` bytes, filled up to a word by its sign. -/
def signedArg (k : ℕ) (x : ℤ) : List UInt8 :=
  List.replicate (32 - k) (if x < 0 then 0xff else 0) ++ beBytes k (asUnsigned (8 * k) x)

/-- Model of `fetch_v3_tick_liquidity_net` (`factory.rs`, lines 1304–1344). -/
def fetchV3TickLiquidityNet (rpc : Rpc) (pool : Address) (tick : ℤ) : Option ℤ :=
  (rpc.answer 64 pool (v3Ticks ++ signedArg 3 tick)).bind fun result =>
    let initByte := beVal (slice result (result.length - 1) result.length)
    if initByte = 0 then none else some (signedFromBeBytes (slice result 48 64))

/-- The most ticks that one scan reads. -/
def maxTicks : ℕ := 200

/-- One bit of the bitmap of the word `w` (`factory.rs`, lines 1255–1280). The source clears
    each bit that it has seen, which no later turn reads. -/
def scanBit (rpc : Rpc) (pool : Address) (tickSpacing w : ℤ) (bitmap : ℕ) (ticks : TickMap)
    (bitPos : ℕ) : TickMap :=
  if ticks.size ≥ maxTicks then ticks
  else if ¬bitmap.testBit bitPos then ticks
  else
    let compressedTick := (BitVec.ofInt 32 w <<< 8 ||| BitVec.ofNat 32 bitPos).toInt
    let actualTick := wrapSigned 32 (compressedTick * tickSpacing)
    match fetchV3TickLiquidityNet rpc pool actualTick with
    | some liqNet => if liqNet ≠ 0 then ticks.insert actualTick liqNet else ticks
    | none => ticks

/-- One word of the scan (`factory.rs`, lines 1226–1281). -/
def scanWord (rpc : Rpc) (pool : Address) (centerWord tickSpacing : ℤ) (ticks : TickMap)
    (wordOffset : ℤ) : TickMap :=
  if ticks.size ≥ maxTicks then ticks
  else
    let w := wrapSigned 32 (centerWord + wordOffset)
    match rpc.answer 32 pool (v3TickBitmap ++ signedArg 2 (wrapSigned 16 w)) with
    | none => ticks
    | some bitmapBytes =>
      let bitmap := beVal (slice bitmapBytes 0 32)
      if bitmap = 0 then ticks
      else (List.range 256).foldl (scanBit rpc pool tickSpacing w bitmap) ticks

/-- The five words of the scan. -/
def scanTicks (rpc : Rpc) (pool : Address) (centerWord tickSpacing : ℤ) : TickMap :=
  [-2, -1, 0, 1, 2].foldl (scanWord rpc pool centerWord tickSpacing) ∅

/-- The compressed tick: division that rounds down (`factory.rs`, lines 1201–1205). -/
def compressTick (currentTick tickSpacing : ℤ) : Except Panic ℤ :=
  if tickSpacing = 0 then .error .divByZero
  else if currentTick < 0 ∧ currentTick.tmod tickSpacing ≠ 0 then
    .ok (currentTick.tdiv tickSpacing - 1)
  else .ok (currentTick.tdiv tickSpacing)

/-- The stored ticks of a window, if they are of this spacing and not empty. -/
def cachedTicks (cache : Option TickCache) (pool : Address) (centerWord tickSpacing : ℤ) :
    Option TickMap :=
  (cache.bind (getV3TickCache · pool centerWord)).bind fun (cachedSpacing, cached) =>
    if cachedSpacing = tickSpacing ∧ ¬cached.isEmpty then some cached else none

/-- Model of `fetch_v3_initialized_ticks` (`factory.rs`, lines 1190–1301), with the store
    after the call. -/
def fetchV3InitializedTicks (rpc : Rpc) (pool : Address) (currentTick tickSpacing : ℤ)
    (cache : Option TickCache) : Except Panic (TickMap × Option TickCache) := do
  let compressed ← compressTick currentTick tickSpacing
  let centerWord := compressed >>> (8 : ℕ)
  match cachedTicks cache pool centerWord tickSpacing with
  | some cached => return (cached, cache)
  | none =>
    let ticks := scanTicks rpc pool centerWord tickSpacing
    return (ticks, cache.map (putV3TickCache · pool centerWord tickSpacing ticks))

/-! ## A session -/

/-- One call of the bootstrap: the block it reads at and the current tick of the pool. -/
structure TickCall where
  block : ℕ
  currentTick : ℤ
  deriving DecidableEq, Repr

/-- A sequence of calls over one store, with the node at each block. -/
def fetchAll (node : ℕ → Rpc) (pool : Address) (tickSpacing : ℤ) :
    List TickCall → Option TickCache → Except Panic (List TickMap)
  | [], _ => .ok []
  | call :: calls, cache => do
    let (ticks, cache) ←
      fetchV3InitializedTicks (node call.block) pool call.currentTick tickSpacing cache
    let rest ← fetchAll node pool tickSpacing calls cache
    return ticks :: rest

end MevScout.Pool.Factory
