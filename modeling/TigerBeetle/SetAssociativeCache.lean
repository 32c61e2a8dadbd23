import TigerBeetle.Constants

namespace TigerBeetle

-- The function that spreads the keys over a cache.
class Hasher where
  hashInline : Nat → Nat

-- The values of a cache. Each carries its own key, and one of its bits marks it as a tombstone.
class CacheMapSpec (K : outParam Type) (V : Type) where
  keyFromValue : V → K
  hash : K → Nat
  tombstone : V → Bool

export CacheMapSpec (keyFromValue)

namespace Layout

def ways : Nat := 16

def tagBits : Nat := 8

def clockBits : Nat := 2

end Layout

open Layout

def fastrange (word p : Nat) : Nat :=
  word * p / 2 ^ 64

-- A way of a set. Its value is absent while the count is zero.
structure Slot (V : Type) where
  tag : Nat
  value : V
  count : Nat

structure SetAssociativeCache (V : Type) where
  sets : Nat
  slots : Nat → Slot V
  clocks : Nat → Nat

inductive UpdateOrInsert
  | update
  | insert
  deriving DecidableEq, Repr

structure Upserted (V : Type) where
  updated : UpdateOrInsert
  evicted : Option V
  cache : SetAssociativeCache V

namespace SetAssociativeCache

variable {K V : Type}

def new [Inhabited V] (valueCountMax : Nat) : SetAssociativeCache V where
  sets := valueCountMax / ways
  slots _ := { tag := 0, value := default, count := 0 }
  clocks _ := 0

variable (cache : SetAssociativeCache V)

def setSlot (index : Nat) (slot : Slot V) : SetAssociativeCache V :=
  { cache with slots := Function.update cache.slots index slot }

def setCount (index count : Nat) : SetAssociativeCache V :=
  cache.setSlot index { cache.slots index with count }

-- The most often that the clock hand can pass an occupied way before one becomes free.
def clockIterationsMax : Nat :=
  ways * (2 ^ clockBits - 1 - 1)

-- The hand of a set's clock, with the iterations that it has left. It returns the way that is free
-- and the value that had to go for it.
def evict (offset : Nat) : (iterations way : Nat) → SetAssociativeCache V →
    Result (Nat × Option V × SetAssociativeCache V)
  | 0, _, _ => abort "clock did not terminate"
  | iterations + 1, way, cache =>
    let slot := cache.slots (offset + way)
    if slot.count = 0 then
      return (way, none, cache)
    else if slot.count - 1 = 0 then
      return (way, some slot.value, cache.setCount (offset + way) 0)
    else
      evict offset iterations ((way + 1) % ways) (cache.setCount (offset + way) (slot.count - 1))

variable [DecidableEq K] [CacheMapSpec K V]

def tagOf (V : Type) [CacheMapSpec K V] (key : K) : Nat :=
  CacheMapSpec.hash V key % 2 ^ tagBits

def offsetOf (key : K) : Nat :=
  fastrange (CacheMapSpec.hash V key) cache.sets * ways

-- The index of the occupied slot that holds `key`.
def search (key : K) : Option Nat :=
  let offset := cache.offsetOf key
  (List.range' offset ways).find? fun index =>
    let slot := cache.slots index
    slot.tag = tagOf V key ∧ 0 < slot.count ∧ keyFromValue slot.value = key

def get (key : K) : Option V × SetAssociativeCache V :=
  match cache.search key with
  | some index =>
    let slot := cache.slots index
    (some slot.value, cache.setCount index (min (slot.count + 1) (2 ^ clockBits - 1)))
  | none => (none, cache)

def remove (key : K) : Option V × SetAssociativeCache V :=
  match cache.search key with
  | some index => (some (cache.slots index).value, cache.setCount index 0)
  | none => (none, cache)

def upsert (value : V) : Result (Upserted V) := do
  let key := keyFromValue value
  match cache.search key with
  | some index =>
    let slot := cache.slots index
    return {
      updated := .update
      evicted := some slot.value
      cache := cache.setSlot index { slot with value, count := 1 }
    }
  | none => do
    let offset := cache.offsetOf key
    let clock := offset / ways
    let (way, evicted, cache) ← evict offset (clockIterationsMax + 1) (cache.clocks clock) cache
    assert ((cache.slots (offset + way)).count = 0) "counts.get(set.offset + way) == 0"
    let cache := cache.setSlot (offset + way) { tag := tagOf V key, value, count := 1 }
    return {
      updated := .insert
      evicted := evicted
      cache := { cache with clocks := Function.update cache.clocks clock ((way + 1) % ways) }
    }

end SetAssociativeCache

end TigerBeetle
