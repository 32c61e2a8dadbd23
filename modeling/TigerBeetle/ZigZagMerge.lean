import TigerBeetle.KWayMerge

namespace TigerBeetle

open SegmentedArray (read)
open TournamentTree (write)

structure ZigZagMergeSpec (Key Value : Type) where
  streamsMax : Nat
  keyFromValue : Value → Key

-- The values that are left in a stream, of which the loaded ones have been read. When these have been
-- consumed the stream is pending until it is refilled, unless it has been seen to end.
structure ZigZagStream (Value : Type) where
  loaded : List Value
  unloaded : List Value
  ended : Bool
  deriving DecidableEq, Repr

structure ZigZagStream.Pending where
  deriving DecidableEq, Repr

namespace ZigZagStream

variable {Key Value : Type} (stream : ZigZagStream Value)

def peek (keyFromValue : Value → Key) : Except Pending (Option Key) :=
  match stream.loaded with
  | value :: _ => .ok (some (keyFromValue value))
  | [] => if stream.ended then .ok none else .error {}

def probe [LinearOrder Key] (keyFromValue : Value → Key) (direction : Direction) (probeKey : Key) :
    ZigZagStream Value :=
  let passed := fun value => direction.cmpLt (keyFromValue value) probeKey
  { stream with loaded := stream.loaded.dropWhile passed, unloaded := stream.unloaded.dropWhile passed }

def refill (count : Nat) (seen : Bool) : ZigZagStream Value :=
  let unloaded := stream.unloaded.drop count
  { loaded := stream.loaded ++ stream.unloaded.take count, unloaded
    ended := stream.ended || seen && unloaded.isEmpty }

end ZigZagStream

structure ZigZagMergeIterator (Key Value : Type) where
  context : List (ZigZagStream Value)
  streamsCount : Nat
  direction : Direction
  keyPopped : Option Key
  keyPeeked : Option Key
  deriving DecidableEq, Repr

structure Tour (Key : Type) where
  candidate : Key
  pending : List Bool
  pendingCount : Nat
  total : Nat
  equal : Nat
  pendingTotal : Nat
  index : Nat
  deriving DecidableEq, Repr

namespace ZigZagMergeIterator

def pendingBitsetWidth : Nat := 256

variable {Key Value : Type} (spec : ZigZagMergeSpec Key Value)

section Streams

variable (context : List (ZigZagStream Value)) (streamIndex : Nat)

def streamPeek : Result (Except ZigZagStream.Pending (Option Key)) := do
  return (← read context streamIndex).peek spec.keyFromValue

def streamPop : Result (Value × List (ZigZagStream Value)) := do
  let stream ← read context streamIndex
  match stream.loaded with
  | [] => abort "the stream is empty or pending"
  | value :: rest => return (value, context.set streamIndex { stream with loaded := rest })

def streamProbe [LinearOrder Key] (direction : Direction) (probeKey : Key) :
    Result (List (ZigZagStream Value)) := do
  let stream ← read context streamIndex
  return context.set streamIndex (stream.probe spec.keyFromValue direction probeKey)

end Streams

def new (context : List (ZigZagStream Value)) (streamsCount : Nat) (direction : Direction) :
    Result (ZigZagMergeIterator Key Value) := do
  assert (streamsCount ≤ spec.streamsMax) "streams_count as usize <= S::STREAMS_MAX"
  assert (streamsCount > 1) "streams_count > 1"
  return { context, streamsCount, direction, keyPopped := none, keyPeeked := none }

variable (iterator : ZigZagMergeIterator Key Value)

def reset : ZigZagMergeIterator Key Value :=
  iterator

variable [LinearOrder Key]

def gallopKey (streamIndex : Nat) (candidate : Key) :
    Result (Except ZigZagStream.Pending (Option Key) × ZigZagMergeIterator Key Value) := do
  assert (streamIndex < iterator.streamsCount) "stream_index < self.streams_count"
  match ← streamPeek spec iterator.context streamIndex with
  | .error pending => return (.error pending, iterator)
  | .ok none => return (.ok none, iterator)
  | .ok (some key) => do
    assert (∀ keyPeeked ∈ iterator.keyPeeked, iterator.direction.cmpLe keyPeeked key)
      "self.direction.cmp_le(&key_peeked, &key)"
    if iterator.direction.cmpLt key candidate then do
      let context ← streamProbe spec iterator.context streamIndex iterator.direction candidate
      let iterator := { iterator with context }
      match ← streamPeek spec iterator.context streamIndex with
      | .error pending => return (.error pending, iterator)
      | .ok none => return (.ok none, iterator)
      | .ok (some key) => do
        assert (iterator.direction.cmpLe candidate key) "self.direction.cmp_le(&candidate, &key)"
        assert (∀ keyPeeked ∈ iterator.keyPeeked, iterator.direction.cmpLe keyPeeked key)
          "self.direction.cmp_le(&key_peeked, &key)"
        return (.ok (some key), iterator)
    else
      return (.ok (some key), iterator)

-- Goes around the streams until all of them are pending or agree on the candidate, and gives nothing
-- when a stream has come to its end.
def goAround : (rounds : Nat) → ZigZagMergeIterator Key Value → Tour Key →
    Result (Option (Tour Key) × ZigZagMergeIterator Key Value)
  | 0, _, _ => abort "out of rounds"
  | rounds + 1, iterator, tour =>
    if tour.total < iterator.streamsCount then do
      assert (tour.total = tour.equal + tour.pendingTotal) "tour_total == tour_equal + tour_pending"
      let index := (tour.index + 1) % iterator.streamsCount
      let isPending ← read tour.pending tour.index
      if isPending then
        goAround rounds iterator
          { tour with total := tour.total + 1, pendingTotal := tour.pendingTotal + 1, index }
      else do
        match ← iterator.gallopKey spec tour.index tour.candidate with
        | (.error _, iterator) => do
          assert (!isPending) "!pending[index]"
          let pending ← write tour.pending tour.index true
          goAround rounds iterator {
            tour with pending, pendingCount := tour.pendingCount + 1, total := tour.total + 1
                      pendingTotal := tour.pendingTotal + 1, index }
        | (.ok none, iterator) => return (none, iterator)
        | (.ok (some key), iterator) =>
          if iterator.direction.cmpLt tour.candidate key then
            goAround rounds iterator
              { tour with candidate := key, total := 1, equal := 1, pendingTotal := 0, index }
          else do
            assert (tour.candidate = key) "candidate == key"
            goAround rounds iterator
              { tour with total := tour.total + 1, equal := tour.equal + 1, index }
    else
      return (some tour, iterator)

-- The streams that are pending are probed once the candidate is known.
def probePending (direction : Direction) (candidate : Key) :
    (ids : List Nat) → List (ZigZagStream Value) → (pending : List Bool) → (pendingCount : Nat) →
    Result (List (ZigZagStream Value) × Nat)
  | [], context, _, pendingCount => return (context, pendingCount)
  | id :: ids, context, pending, pendingCount => do
    if ← read pending id then do
      let pending ← write pending id false
      assert (0 < pendingCount) "attempt to subtract with overflow"
      let context ← streamProbe spec context id direction candidate
      let answer ← streamPeek spec context id
      assert (answer matches .error _)
        "matches!(S::stream_peek(self.context, stream_index), Err(Pending))"
      probePending direction candidate ids context pending (pendingCount - 1)
    else do
      match ← streamPeek spec context id with
      | .ok (some key) => do
        assert (key = candidate) "key == candidate"
        probePending direction candidate ids context pending pendingCount
      | _ => abort "settled stream must hold the candidate key"

def popOthers [DecidableEq Value] (key : Key) (value : Value) :
    (ids : List Nat) → List (ZigZagStream Value) → Result (List (ZigZagStream Value))
  | [], context => return context
  | id :: ids, context => do
    let (valueOther, context) ← streamPop context id
    assert (spec.keyFromValue valueOther = key) "S::key_from_value(&value_other) == key"
    assert (value = valueOther) "value == value_other"
    popOthers key value ids context

variable [BoundedOrder Key]

def firstCandidate : Direction → Key
  | .ascending => ⊥
  | .descending => ⊤

def valuesLeft (context : List (ZigZagStream Value)) : Nat :=
  (context.map fun stream => stream.loaded.length + stream.unloaded.length).sum

def peekKey :
    Result (Except ZigZagStream.Pending (Option Key) × ZigZagMergeIterator Key Value) := do
  assert (iterator.streamsCount > 1) "self.streams_count > 1"
  assert (iterator.streamsCount ≤ spec.streamsMax) "self.streams_count as usize <= S::STREAMS_MAX"
  assert (iterator.streamsCount < 2 ^ 8) "u8::try_from(self.streams_count).is_ok()"
  let tour : Tour Key := {
    candidate := firstCandidate iterator.direction
    pending := List.replicate pendingBitsetWidth false
    pendingCount := 0, total := 0, equal := 0, pendingTotal := 0, index := 0
  }
  -- Each tour but the first one begins at a value that is strictly ahead of the last candidate.
  let rounds := (valuesLeft iterator.context + 1) * iterator.streamsCount + 1
  match ← goAround spec rounds iterator tour with
  | (none, iterator) => return (.ok none, iterator)
  | (some tour, iterator) => do
    assert (tour.total = tour.equal + tour.pendingTotal) "tour_total == tour_equal + tour_pending"
    assert (tour.total = iterator.streamsCount) "tour_total == self.streams_count"
    assert (tour.pendingTotal = tour.pendingCount) "tour_pending == pending_count"
    if tour.pendingTotal = iterator.streamsCount then
      return (.error {}, iterator)
    else do
      let (context, pendingCount) ← probePending spec iterator.direction tour.candidate
        (List.range iterator.streamsCount) iterator.context tour.pending tour.pendingCount
      assert (pendingCount = 0) "pending_count == 0"
      let iterator := { iterator with context }
      if tour.pendingTotal > 0 then
        return (.error {}, iterator)
      else do
        assert (∀ keyPeeked ∈ iterator.keyPeeked, iterator.direction.cmpLe keyPeeked tour.candidate)
          "self.direction.cmp_le(&key_peeked, &candidate)"
        return (.ok (some tour.candidate), { iterator with keyPeeked := some tour.candidate })

def pop [DecidableEq Value] :
    Result (Except ZigZagStream.Pending (Option Value) × ZigZagMergeIterator Key Value) := do
  match ← iterator.peekKey spec with
  | (.error pending, iterator) => return (.error pending, iterator)
  | (.ok none, iterator) => return (.ok none, iterator)
  | (.ok (some key), iterator) => do
    assert (∀ previous ∈ iterator.keyPopped, iterator.direction.cmpLt previous key)
      "self.direction.cmp_lt(&previous, &key)"
    let (value, context) ← streamPop iterator.context 0
    assert (spec.keyFromValue value = key) "S::key_from_value(&value) == key"
    let context ← popOthers spec key value (List.range' 1 (iterator.streamsCount - 1)) context
    return (.ok (some value), { iterator with context, keyPopped := some key })

end ZigZagMergeIterator

end TigerBeetle
