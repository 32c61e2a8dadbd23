import TigerBeetle.PackedArray
import TigerBeetle.SetAssociativeCache
import TigerBeetle.Machine

namespace TigerBeetle.Packed

abbrev Tag := BitVec 16

-- The layout of a cache, with the sizes of the keys and values that it is for.
structure Layout where
  ways : Nat := 16
  tagBits : Nat := 8
  clockBits : Nat := 2
  cacheLineSize : Nat := 64
  keySize : Nat
  valueSize : Nat
  deriving DecidableEq, Repr

structure SetAssociativeCacheSpec (K V : Type) where
  keyFromValue : V → K
  hash : K → BitVec 64

structure Metrics where
  hits : Nat := 0
  misses : Nat := 0
  valueCount : Nat := 0
  deriving DecidableEq, Repr

-- The location within the cache that comes from the hash of a key.
structure AssociatedSet where
  tag : Tag
  offset : Nat

structure SetAssociativeCache (V : Type) where
  sets : Nat
  metrics : Metrics
  tags : List Tag
  values : List V
  counts : PackedUnsignedIntegerArray
  clocks : PackedUnsignedIntegerArray
  deriving DecidableEq, Repr

structure Upserted (V : Type) where
  index : Nat
  updated : UpdateOrInsert
  evicted : Option V

def mul (a b : Nat) : Result Nat := do
  assert (a * b < 2 ^ 64) "attempt to multiply with overflow"
  return a * b

def clockHandBits (ways : Nat) : Result Nat := do
  assert (isPowerOfTwo ways) "ways.is_power_of_two()"
  let bits := ways.log2
  assert (isPowerOfTwo bits) "bits.is_power_of_two()"
  assert (1 <<< bits = ways) "(1_u64 << bits) == ways"
  return bits

def element {α : Type} [Inhabited α] (xs : List α) (index : Nat) : Result α := do
  assert (index < xs.length) "index out of bounds"
  return xs.getD index default

def setElement {α : Type} (xs : List α) (index : Nat) (x : α) : Result (List α) := do
  assert (index < xs.length) "index out of bounds"
  return xs.set index x

namespace Layout

variable (layout : Layout)

def valueCountMaxMultiple : Nat :=
  max
    (max layout.valueSize layout.cacheLineSize / min layout.valueSize layout.cacheLineSize *
      layout.ways)
    (layout.cacheLineSize * 8 / layout.clockBits)

def validateLayout : Result Unit := do
  assert (isPowerOfTwo layout.keySize) "size_of::<S::Key>().is_power_of_two()"
  assert (isPowerOfTwo layout.valueSize) "size_of::<S::Value>().is_power_of_two()"
  assert (layout.ways = 2 ∨ layout.ways = 4 ∨ layout.ways = 16)
    "ways must be 2, 4 or 16 for optimal CLOCK hand size."
  assert (layout.tagBits = 8 ∨ layout.tagBits = 16) "tag_bits must be 8 or 16."
  assert (layout.clockBits = 1 ∨ layout.clockBits = 2 ∨ layout.clockBits = 4)
    "clock_bits must be 1, 2 or 4."
  assert (isPowerOfTwo layout.ways) "S::WAYS.is_power_of_two()"
  assert (isPowerOfTwo layout.tagBits) "S::TAG_BITS.is_power_of_two()"
  assert (isPowerOfTwo layout.clockBits) "S::CLOCK_BITS.is_power_of_two()"
  assert (isPowerOfTwo layout.cacheLineSize) "S::CACHE_LINE_SIZE.is_power_of_two()"
  assert (layout.keySize ≤ layout.valueSize) "key_size <= value_size"
  assert (layout.keySize < layout.cacheLineSize) "key_size < S::CACHE_LINE_SIZE"
  assert (layout.cacheLineSize % layout.keySize = 0) "S::CACHE_LINE_SIZE.is_multiple_of(key_size)"
  if layout.valueSize < layout.cacheLineSize then
    assert (layout.cacheLineSize % layout.valueSize = 0)
      "S::CACHE_LINE_SIZE.is_multiple_of(value_size)"
  else
    assert (layout.valueSize % layout.cacheLineSize = 0)
      "value_size.is_multiple_of(S::CACHE_LINE_SIZE)"
  let handBits ← clockHandBits layout.ways
  let bitsPerLine ← mul layout.cacheLineSize 8
  assert (0 < bitsPerLine / (layout.ways * layout.tagBits)) "tags_per_line > 0"
  assert (0 < bitsPerLine / (layout.ways * layout.clockBits)) "clocks_per_line > 0"
  assert (0 < bitsPerLine / handBits) "clock_hands_per_line > 0"

end Layout

namespace SetAssociativeCache

variable {K V : Type}

def reset (cache : SetAssociativeCache V) : SetAssociativeCache V :=
  { cache with
    tags := cache.tags.map fun _ => 0
    counts := cache.counts.reset
    clocks := cache.clocks.reset
    metrics := {} }

def new [Inhabited V] (layout : Layout) (valueCountMax : Nat) : Result (SetAssociativeCache V) := do
  layout.validateLayout
  let sets := valueCountMax / layout.ways
  assert (0 < valueCountMax) "value_count_max > 0"
  assert (layout.ways ≤ valueCountMax) "value_count_max >= S::WAYS"
  assert (valueCountMax % layout.ways = 0) "value_count_max.is_multiple_of(S::WAYS)"
  let valuesSizeMax ← mul valueCountMax layout.valueSize
  assert (layout.cacheLineSize ≤ valuesSizeMax) "values_size_max >= S::CACHE_LINE_SIZE"
  assert (valuesSizeMax % layout.cacheLineSize = 0)
    "values_size_max.is_multiple_of(S::CACHE_LINE_SIZE)"
  let countsSize := (← mul valueCountMax layout.clockBits) / 8
  assert (layout.cacheLineSize ≤ countsSize) "counts_size >= S::CACHE_LINE_SIZE"
  assert (countsSize % layout.cacheLineSize = 0) "counts_size.is_multiple_of(S::CACHE_LINE_SIZE)"
  let handBits ← clockHandBits layout.ways
  let clocksSize := (← mul sets handBits) / 8
  assert (valueCountMax % layout.valueCountMaxMultiple = 0)
    "value_count_max.is_multiple_of(value_count_max_multiple())"
  let cache : SetAssociativeCache V := {
    sets
    metrics := {}
    tags := List.replicate valueCountMax 0
    values := List.replicate valueCountMax default
    counts := ← PackedUnsignedIntegerArray.new layout.clockBits countsSize
    clocks := ← PackedUnsignedIntegerArray.new handBits clocksSize
  }
  return cache.reset

-- The bits of the ways that have the same tag.
def searchTags (tags : List Tag) (tag : Tag) (ways : Nat) : BitVec 16 :=
  (tags.take ways).zipIdx.foldl (fun bits (t, i) => if t = tag then bits ||| 1#16 <<< i else bits) 0

variable (layout : Layout) (spec : SetAssociativeCacheSpec K V) (cache : SetAssociativeCache V)

def associate (key : K) : AssociatedSet :=
  let entropy := spec.hash key
  let tagMask := 1#64 <<< layout.tagBits - 1#64
  let index := fastrange entropy.toNat cache.sets
  { tag := (entropy &&& tagMask).setWidth 16, offset := index * layout.ways }

variable [DecidableEq K] [Inhabited V]

def holds (set : AssociatedSet) (ways : BitVec 16) (key : K) (way : Nat) : Result Bool := do
  if ways >>> way &&& 1#16 = 1#16 then
    if 0 < (← cache.counts.get (set.offset + way)) then
      return spec.keyFromValue (← element cache.values (set.offset + way)) = key
  return false

def searchWays (set : AssociatedSet) (ways : BitVec 16) (key : K) : List Nat → Result (Option Nat)
  | [] => return none
  | way :: rest => do
    if ← cache.holds spec set ways key way then
      return some way
    else
      searchWays set ways key rest

def search (set : AssociatedSet) (key : K) : Result (Option Nat) := do
  assert (set.offset + layout.ways ≤ cache.tags.length) "range end index out of range for slice"
  let ways := searchTags (cache.tags.drop set.offset) set.tag layout.ways
  if ways = 0 then
    return none
  cache.searchWays spec set ways key (List.range layout.ways)

def getIndex (key : K) : Result (Option Nat × SetAssociativeCache V) := do
  let set := cache.associate layout spec key
  match ← cache.search layout spec set key with
  | some way =>
    let index := set.offset + way
    let count := min ((← cache.counts.get index) + 1) cache.counts.mask.toNat
    return (some index, { cache with
      counts := ← cache.counts.set index count
      metrics.hits := cache.metrics.hits + 1 })
  | none => return (none, { cache with metrics.misses := cache.metrics.misses + 1 })

def get (key : K) : Result (Option V × SetAssociativeCache V) := do
  match ← cache.getIndex layout spec key with
  | (some index, cache) => return (some (← element cache.values index), cache)
  | (none, cache) => return (none, cache)

def remove (key : K) : Result (Option V × SetAssociativeCache V) := do
  let set := cache.associate layout spec key
  match ← cache.search layout spec set key with
  | some way =>
    let removed ← element cache.values (set.offset + way)
    let counts ← cache.counts.set (set.offset + way) 0
    assert (0 < cache.metrics.valueCount) "attempt to subtract with overflow"
    return (some removed, { cache with
      counts, metrics.valueCount := cache.metrics.valueCount - 1 })
  | none => return (none, cache)

def demote (key : K) : Result (SetAssociativeCache V) := do
  let set := cache.associate layout spec key
  match ← cache.search layout spec set key with
  | some way => return { cache with counts := ← cache.counts.set (set.offset + way) 1 }
  | none => return cache

-- The hand of a set's clock, with the iterations that it has left. It returns the way that is free,
-- the value that had to go for it, and the counts that are left.
def evict (ways : Nat) (values : List V) (offset : Nat) : (iterations way : Nat) →
    PackedUnsignedIntegerArray → Result (Nat × Option V × PackedUnsignedIntegerArray)
  | 0, _, _ => abort "clock did not terminate"
  | iterations + 1, way, counts => do
    let count ← counts.get (offset + way)
    if count = 0 then
      return (way, none, counts)
    else
      let counts ← counts.set (offset + way) (count - 1)
      if count - 1 = 0 then
        return (way, some (← element values (offset + way)), counts)
      else
        evict ways values offset iterations ((way + 1) % ways) counts

def upsert (value : V) : Result (Upserted V × SetAssociativeCache V) := do
  let key := spec.keyFromValue value
  let set := cache.associate layout spec key
  match ← cache.search layout spec set key with
  | some way =>
    let index := set.offset + way
    let counts ← cache.counts.set index 1
    let evicted ← element cache.values index
    let values ← setElement cache.values index value
    return ({ index, updated := .update, evicted := some evicted }, { cache with counts, values })
  | none =>
    let clockIndex := set.offset / layout.ways
    let countMax := 2 ^ layout.clockBits - 1
    let clockIterationsMax := layout.ways * (countMax - 1)
    let hand ← cache.clocks.get clockIndex
    let (way, evicted, counts) ←
      evict layout.ways cache.values set.offset (clockIterationsMax + 1) hand cache.counts
    let index := set.offset + way
    assert ((← counts.get index) = 0) "self.counts.get(set.offset + way) == 0"
    let tags ← setElement cache.tags index set.tag
    let values ← setElement cache.values index value
    let counts ← counts.set index 1
    let clocks ← cache.clocks.set clockIndex ((way + 1) % layout.ways)
    let metrics := match evicted with
      | none => { cache.metrics with valueCount := cache.metrics.valueCount + 1 }
      | some _ => cache.metrics
    return ({ index, updated := .insert, evicted },
      { cache with tags, values, counts, clocks, metrics })

end SetAssociativeCache

-- The operations on a cache.
inductive Call (K V : Type)
  | upsert (value : V)
  | get (key : K)
  | remove (key : K)
  | demote (key : K)
  | reset

variable {K V : Type} [DecidableEq K] [Inhabited V]

def machine (layout : Layout) (spec : SetAssociativeCacheSpec K V) (valueCountMax : Nat) :
    Machine (SetAssociativeCache V) (Call K V) Fault where
  init cache := SetAssociativeCache.new layout valueCountMax = .ok cache
  step cache
    | .upsert value => do return (← cache.upsert layout spec value).2
    | .get key => do return (← cache.get layout spec key).2
    | .remove key => do return (← cache.remove layout spec key).2
    | .demote key => cache.demote layout spec key
    | .reset => return cache.reset

end TigerBeetle.Packed
