import TigerBeetle.Constants
import TigerBeetle.Direction

namespace TigerBeetle

structure SegmentedArraySpec (Key Value : Type) where
  sorted : Bool
  elementCountMax : Nat
  nodeCapacity : Nat
  keyFromValue : Value → Key

structure Cursor where
  node : Nat
  relativeIndex : Nat
  deriving DecidableEq, Repr

-- The nodes are buffers of the node capacity, of which only the front is in use. The index of a node
-- is the absolute one of its first element, and one more index is the number of all elements.
structure SegmentedArray (Value : Type) where
  nodes : List (List Value)
  indexes : List Nat
  nodeCountMax : Nat

namespace SegmentedArray

variable {Key Value : Type}

section Slices

variable {α : Type}

def slice (buffer : List α) (start stop : Nat) : List α :=
  (buffer.take stop).drop start

def copyFrom (buffer : List α) (start : Nat) (values : List α) : Result (List α) := do
  assert (start + values.length ≤ buffer.length) "range end index out of range for slice"
  return buffer.take start ++ values ++ buffer.drop (start + values.length)

def copyWithin (buffer : List α) (start stop dest : Nat) : Result (List α) :=
  copyFrom buffer dest (slice buffer start stop)

def read (values : List α) (i : Nat) : Result α :=
  match values[i]? with
  | some value => return value
  | none => abort "index out of bounds"

-- The fronts of two buffers are written as one buffer.
def copyBackwardsTwo (a b : List α) (aLen bLen cursor : Nat) (source : List α) :
    Result (List α × List α) := do
  assert (cursor + source.length ≤ aLen + bLen) "cursor + source.len() <= a.len() + b.len()"
  if cursor < aLen then do
    let take := min source.length (aLen - cursor)
    let a ← copyFrom a cursor (source.take take)
    if source.drop take ≠ [] then do
      let b ← copyFrom b (cursor + take - aLen) (source.drop take)
      return (a, b)
    else
      return (a, b)
  else if source ≠ [] then do
    let b ← copyFrom b (cursor - aLen) source
    return (a, b)
  else
    return (a, b)

end Slices

def maxNodes (elementCountMax nodeCapacity : Nat) : Result Nat := do
  let elementsPerNodeMin := nodeCapacity / 2
  assert (elementsPerNodeMin ≠ 0) "attempt to divide by zero"
  let naive := (elementCountMax + elementsPerNodeMin - 1) / elementsPerNodeMin
  let splitBudget := nodeCapacity + 1 + (naive - 3) * (nodeCapacity / 2) + 1
  return if elementCountMax ≥ splitBudget then naive else naive - 1

variable (spec : SegmentedArraySpec Key Value)

def new : Result (SegmentedArray Value) := do
  assert (spec.elementCountMax > spec.nodeCapacity) "ELEMENT_COUNT_MAX > NODE_CAPACITY"
  let nodeCountMax ← maxNodes spec.elementCountMax spec.nodeCapacity
  return { nodes := [], indexes := List.replicate (nodeCountMax + 1) 0, nodeCountMax }

variable (array : SegmentedArray Value)

def nodeCount : Nat :=
  array.nodes.length

def count (node : Nat) : Result Nat := do
  let start ← read array.indexes node
  let stop ← read array.indexes (node + 1)
  assert (start ≤ stop) "attempt to subtract with overflow"
  assert (stop - start ≤ spec.nodeCapacity) "result <= NODE_CAPACITY"
  return stop - start

def nodeElements (node : Nat) : Result (List Value) := do
  let buffer ← read array.nodes node
  return buffer.take (← array.count spec node)

def verifyCounts : List Nat → Result Unit
  | [] => return
  | node :: nodes => do
    let c ← array.count spec node
    assert (c ≤ spec.nodeCapacity) "c <= NODE_CAPACITY"
    assert (node < array.nodeCount - 1 → c ≥ spec.nodeCapacity / 2) "c >= NODE_CAPACITY / 2"
    verifyCounts nodes

def verifySorted [LinearOrder Key] : (keyPriorOrNone : Option Key) → List Value → Result Unit
  | _, [] => return
  | keyPriorOrNone, value :: values => do
    let key := spec.keyFromValue value
    assert (∀ keyPrior ∈ keyPriorOrNone, keyPrior ≤ key) "key_prior <= key"
    verifySorted (some key) values

def verify [LinearOrder Key] : Result Unit := do
  assert (array.nodeCount ≤ array.nodeCountMax) "node_count <= node_count_max"
  verifyCounts spec array (List.range array.nodeCount)
  if spec.sorted then do
    let elements ← (List.range array.nodeCount).mapM (array.nodeElements spec)
    verifySorted spec none elements.flatten

def reset [LinearOrder Key] : Result (SegmentedArray Value) := do
  array.verify spec
  let array := { array with nodes := [], indexes := array.indexes.map fun _ => 0 }
  array.verify spec
  return array

def len : Result Nat := do
  let result ← read array.indexes array.nodeCount
  assert (result ≤ spec.elementCountMax) "result <= ELEMENT_COUNT_MAX"
  return result

def incrementIndexesAfter (node delta : Nat) : SegmentedArray Value :=
  { array with indexes := array.indexes.mapIdx fun i index =>
      if node < i ∧ i ≤ array.nodeCount then index + delta else index }

def decrementIndexesAfter (node delta : Nat) : Result (SegmentedArray Value) := do
  assert ((slice array.indexes (node + 1) (array.nodeCount + 1)).all fun index => delta ≤ index)
    "attempt to subtract with overflow"
  return { array with indexes := array.indexes.mapIdx fun i index =>
      if node < i ∧ i ≤ array.nodeCount then index - delta else index }

def absoluteIndexForCursor (cursor : Cursor) : Result Nat := do
  if array.nodeCount = 0 then do
    assert (cursor.node = 0) "cursor.node == 0"
    assert (cursor.relativeIndex = 0) "cursor.relative_index == 0"
    return 0
  else do
    assert (cursor.node < array.nodeCount) "cursor.node < node_count"
    let c ← array.count spec cursor.node
    if cursor.node = array.nodeCount - 1 then
      assert (cursor.relativeIndex ≤ c) "cursor.relative_index <= count(cursor.node)"
    else
      assert (cursor.relativeIndex < c) "cursor.relative_index < count(cursor.node)"
    return (← read array.indexes cursor.node) + cursor.relativeIndex

def cursorForAbsoluteIndex (absoluteIndex : Nat) : Result Cursor := do
  assert (array.nodeCount > 0) "node_count > 0"
  assert (absoluteIndex < spec.elementCountMax) "absolute_index < ELEMENT_COUNT_MAX"
  let len ← array.len spec
  assert (absoluteIndex ≤ len) "absolute_index <= len()"
  let starts := array.indexes.take array.nodeCount
  -- The partition point: the indexes are in ascending order.
  let index := starts.findIdx fun start => absoluteIndex ≤ start
  if starts[index]? = some absoluteIndex then
    return ⟨index, 0⟩
  else do
    assert (index ≠ 0) "attempt to subtract with overflow"
    let node := index - 1
    let start ← read array.indexes node
    assert (start ≤ absoluteIndex) "attempt to subtract with overflow"
    let relativeIndex := absoluteIndex - start
    let c ← array.count spec node
    if node = array.nodeCount - 1 then
      assert (relativeIndex ≤ c) "relative_index <= count(node)"
    else
      assert (relativeIndex < c) "relative_index < count(node)"
    return ⟨node, relativeIndex⟩

section Insert

variable [Inhabited Value]

def insertEmptyNodeAt (node : Nat) : Result (SegmentedArray Value) := do
  assert (node ≤ array.nodeCount) "node <= node_count"
  assert (array.nodeCount < array.nodeCountMax) "node_count < node_count_max"
  let indexes ← copyWithin (array.indexes ++ [0]) node (array.nodeCount + 1) (node + 1)
  let nodes := array.nodes.insertIdx node (List.replicate spec.nodeCapacity default)
  assert (indexes[node]? = indexes[node + 1]?) "indexes[node] == indexes[node + 1]"
  return { array with nodes, indexes }

-- The elements are put behind the first `rel` ones of node `a`, the rest of which makes room for them.
-- What is too much for it goes to the new node `b`.
def split (a b : List Value) (aCount rel aHalf bHalf : Nat) (elements : List Value) :
    Result (List Value × List Value) := do
  let suffix := slice a rel aCount
  let (a, b) ← copyBackwardsTwo a b aHalf bHalf (rel + elements.length) suffix
  let b ← if aHalf < rel then copyFrom b 0 (slice a aHalf rel) else pure b
  copyBackwardsTwo a b aHalf bHalf rel elements

def insertElementsBatch (absoluteIndex : Nat) (elements : List Value) :
    Result (SegmentedArray Value) := do
  assert (elements ≠ []) "!elements.is_empty()"
  assert (elements.length ≤ spec.nodeCapacity) "elements.len() <= NODE_CAPACITY"
  assert (absoluteIndex + elements.length ≤ spec.elementCountMax)
    "absolute_index + elements.len() <= ELEMENT_COUNT_MAX"
  let array ← if array.nodeCount = 0 then do
      assert (absoluteIndex = 0) "absolute_index == 0"
      let array ← array.insertEmptyNodeAt spec 0
      assert (array.nodeCount = 1) "self.node_count == 1"
      assert ((← read array.indexes 0) = 0) "self.indexes[0] == 0"
      assert ((← read array.indexes 1) = 0) "self.indexes[1] == 0"
      pure array
    else
      pure array
  let cursor ← array.cursorForAbsoluteIndex spec absoluteIndex
  assert (cursor.node < array.nodeCount) "cursor.node < node_count"
  let a := cursor.node
  let aCount ← array.count spec a
  let rel := cursor.relativeIndex
  assert (rel ≤ aCount) "cursor.relative_index <= a_count"
  let total := aCount + elements.length
  if total ≤ spec.nodeCapacity then do
    let node ← read array.nodes a
    let node ← copyWithin node rel aCount (rel + elements.length)
    let node ← copyFrom node rel elements
    return { array with nodes := array.nodes.set a node }.incrementIndexesAfter a elements.length
  else do
    let b := a + 1
    let array ← array.insertEmptyNodeAt spec b
    let aHalf := (total + 1) / 2
    let bHalf := total - aHalf
    assert (aHalf ≥ bHalf) "a_half >= b_half"
    let (nodeA, nodeB) ← split (← read array.nodes a) (← read array.nodes b) aCount rel aHalf bHalf
      elements
    let start ← read array.indexes a
    return { array with
      nodes := (array.nodes.set a nodeA).set b nodeB
      indexes := array.indexes.set b (start + aHalf) }.incrementIndexesAfter b elements.length

-- The elements are inserted in batches of at most a node.
def insertBatches (absoluteIndex : Nat) : (fuel : Nat) → (elements : List Value) →
    SegmentedArray Value → Result (SegmentedArray Value)
  | 0, _, array => return array
  | fuel + 1, elements, array =>
    if elements = [] then
      return array
    else do
      let batch := min spec.nodeCapacity elements.length
      let array ← array.insertElementsBatch spec absoluteIndex (elements.take batch)
      insertBatches (absoluteIndex + batch) fuel (elements.drop batch) array

def insertElementsAtAbsoluteIndex (absoluteIndex : Nat) (elements : List Value) :
    Result (SegmentedArray Value) := do
  assert (elements ≠ []) "!elements.is_empty()"
  assert (absoluteIndex + elements.length ≤ spec.elementCountMax)
    "absolute_index + elements.len() <= ELEMENT_COUNT_MAX"
  insertBatches spec absoluteIndex elements.length elements array

def insertElements [LinearOrder Key] (absoluteIndex : Nat) (elements : List Value) :
    Result (SegmentedArray Value) := do
  assert (!spec.sorted) "!SORTED"
  array.verify spec
  let countBefore ← array.len spec
  let array ← array.insertElementsAtAbsoluteIndex spec absoluteIndex elements
  assert ((← array.len spec) = countBefore + elements.length) "len() == count_before + elements.len()"
  array.verify spec
  return array

end Insert

def removeEmptyNodeAt (node : Nat) : Result (SegmentedArray Value) := do
  assert (array.nodeCount > 0) "node_count > 0"
  assert (node < array.nodeCount) "node < node_count"
  assert ((← array.count spec node) = 0) "count(node) == 0"
  let indexes ← copyWithin array.indexes (node + 1) (array.nodeCount + 1) node
  return { array with nodes := array.nodes.eraseIdx node, indexes := indexes.dropLast }

-- Node `a` is joined with what is to be the content of the next node.
def maybeMergeNodes (a : Nat) (bElements : List Value) (inPlace : Bool) :
    Result (SegmentedArray Value) := do
  let half := spec.nodeCapacity / 2
  let aCount ← array.count spec a
  let b := a + 1
  let bCount ← array.count spec b
  assert (bElements.length = bCount) "b_elements.len() == b_count"
  assert (bElements ≠ []) "!b_elements.is_empty()"
  assert (bElements.length ≥ half ∨ b = array.nodeCount - 1)
    "b_elements.len() >= half || b == node_count - 1"
  assert (bElements.length ≤ spec.nodeCapacity) "b_elements.len() <= NODE_CAPACITY"
  assert (¬(aCount = 0 ∧ inPlace)) "!(a_count == 0 && in_place)"
  let total := aCount + bElements.length
  if total ≤ spec.nodeCapacity then do
    let nodeA ← copyFrom (← read array.nodes a) aCount bElements
    let stop ← read array.indexes (b + 1)
    let array := { array with
      nodes := array.nodes.set a nodeA
      indexes := array.indexes.set b stop }
    let array ← array.removeEmptyNodeAt spec b
    assert ((← array.count spec a) ≥ half ∨ a = array.nodeCount - 1)
      "count(a) >= half || a == node_count - 1"
    return array
  else if aCount < half then do
    let aHalf := (total + 1) / 2
    let bHalf := total - aHalf
    assert (aHalf ≥ bHalf) "a_half >= b_half"
    let nodeA ← copyFrom (← read array.nodes a) aCount (bElements.take (aHalf - aCount))
    let nodeB ← copyFrom (← read array.nodes b) 0 (bElements.drop (aHalf - aCount))
    let start ← read array.indexes a
    let array := { array with
      nodes := (array.nodes.set a nodeA).set b nodeB
      indexes := array.indexes.set b (start + aHalf) }
    assert ((← array.count spec a) ≥ half) "count(a) >= half"
    assert ((← array.count spec b) ≥ half) "count(b) >= half"
    return array
  else do
    assert inPlace "in_place"
    return array

def maybeRemoveOrMergeNodeWithNext (node : Nat) : Result (SegmentedArray Value) := do
  assert (node < array.nodeCount) "node < node_count"
  let c ← array.count spec node
  if c = 0 then
    array.removeEmptyNodeAt spec node
  else if node = array.nodeCount - 1 then
    return array
  else do
    let nextCount ← array.count spec (node + 1)
    let nextElements := (← read array.nodes (node + 1)).take nextCount
    array.maybeMergeNodes spec node nextElements true

def removeElementsBatch (absoluteIndex removeCount : Nat) : Result (SegmentedArray Value) := do
  assert (array.nodeCount > 0) "node_count > 0"
  let half := spec.nodeCapacity / 2
  assert (removeCount ≤ half) "remove_count <= half"
  assert (removeCount > 0) "remove_count > 0"
  assert (absoluteIndex + removeCount ≤ spec.elementCountMax)
    "absolute_index + remove_count <= ELEMENT_COUNT_MAX"
  assert (absoluteIndex + removeCount ≤ (← read array.indexes array.nodeCount))
    "removal past the end of the array"
  let cursor ← array.cursorForAbsoluteIndex spec absoluteIndex
  assert (cursor.node < array.nodeCount) "cursor.node < node_count"
  let a := cursor.node
  let aCount ← array.count spec a
  let aRemaining := cursor.relativeIndex
  if aRemaining + removeCount ≤ aCount then do
    -- The elements are in one node.
    let nodeA ← copyWithin (← read array.nodes a) (aRemaining + removeCount) aCount aRemaining
    let array ← { array with nodes := array.nodes.set a nodeA }.decrementIndexesAfter a removeCount
    array.maybeRemoveOrMergeNodeWithNext spec a
  else do
    -- They are in two nodes.
    let b := a + 1
    let bCount ← array.count spec b
    let offsetInB := removeCount - (aCount - aRemaining)
    assert (offsetInB > 0) "offset_in_b > 0"
    let bRemaining := slice (← read array.nodes b) offsetInB bCount
    assert (aRemaining > 0 ∨ bRemaining ≠ []) "a_remaining > 0 || !b_remaining.is_empty()"
    let start ← read array.indexes a
    if aRemaining ≥ half then do
      let nodeB ← copyFrom (← read array.nodes b) 0 bRemaining
      let array ← { array with
        nodes := array.nodes.set b nodeB
        indexes := array.indexes.set b (start + aRemaining) }.decrementIndexesAfter b removeCount
      array.maybeRemoveOrMergeNodeWithNext spec b
    else if bRemaining.length ≥ half then do
      let array ← { array with
        indexes := array.indexes.set b (start + aRemaining) }.decrementIndexesAfter b removeCount
      array.maybeMergeNodes spec a bRemaining false
    else do
      assert (aRemaining + bRemaining.length ≤ spec.nodeCapacity)
        "a_remaining + b_remaining.len() <= NODE_CAPACITY"
      let nodeA ← copyFrom (← read array.nodes a) aRemaining bRemaining
      let array ← { array with
        nodes := array.nodes.set a nodeA
        indexes := array.indexes.set b (start + (aRemaining + bRemaining.length))
        }.decrementIndexesAfter b removeCount
      let array ← array.removeEmptyNodeAt spec b
      assert (b = array.nodeCount ∨ (← array.count spec a) ≥ half) "b == node_count || count(a) >= half"
      return array

-- The elements are removed in batches of at most half a node.
def removeBatches (absoluteIndex : Nat) : (fuel removeCount : Nat) → SegmentedArray Value →
    Result (SegmentedArray Value)
  | 0, _, array => return array
  | fuel + 1, removeCount, array =>
    if removeCount = 0 then
      return array
    else do
      let batch := min (spec.nodeCapacity / 2) removeCount
      let array ← array.removeElementsBatch spec absoluteIndex batch
      removeBatches absoluteIndex fuel (removeCount - batch) array

def removeElements [LinearOrder Key] (absoluteIndex removeCount : Nat) :
    Result (SegmentedArray Value) := do
  array.verify spec
  assert (array.nodeCount > 0) "node_count > 0"
  assert (removeCount > 0) "remove_count > 0"
  assert (absoluteIndex + removeCount ≤ spec.elementCountMax)
    "absolute_index + remove_count <= ELEMENT_COUNT_MAX"
  assert (absoluteIndex + removeCount ≤ (← read array.indexes array.nodeCount))
    "absolute_index + remove_count <= indexes[node_count]"
  let array ← removeBatches spec absoluteIndex removeCount removeCount array
  array.verify spec
  return array

section Search

variable [LinearOrder Key]

-- What the binary search asserts of the values outside of its window, and of the one it has found.
def lowerBound (values : List Value) (key : Key) (offset length : Nat) : Prop :=
  (∀ value ∈ (if offset = 0 then none else values[offset - 1]?), spec.keyFromValue value < key) ∧
    ∀ value ∈ values[offset + length]?, key ≤ spec.keyFromValue value

instance (values : List Value) (key : Key) (offset length : Nat) :
    Decidable (lowerBound spec values key offset length) :=
  inferInstanceAs (Decidable (_ ∧ _))

def binarySearchValues (values : List Value) (key : Key) : (fuel offset length : Nat) → Result Nat
  | 0, offset, _ => return offset
  | fuel + 1, offset, length =>
    if length > 1 then do
      assert (lowerBound spec values key offset length) "key_from_value(&values[offset - 1]) < key"
      let half := length / 2
      let mid := offset + half
      let value ← read values mid
      binarySearchValues values key fuel (if spec.keyFromValue value < key then mid else offset)
        (length - half)
    else do
      assert (length = 1) "length == 1"
      assert (lowerBound spec values key offset length) "key_from_value(&values[offset - 1]) < key"
      let value ← read values offset
      let offset := if spec.keyFromValue value < key then offset + 1 else offset
      assert (lowerBound spec values key offset 1) "key_from_value(&values[offset - 1]) < key"
      assert (∀ value ∈ values[offset]?, key ≤ spec.keyFromValue value)
        "key <= key_from_value(&values[offset])"
      return offset

def binarySearchValuesUpsertIndex (values : List Value) (key : Key) : Result Nat :=
  if values = [] then
    return 0
  else
    binarySearchValues spec values key values.length 0 values.length

-- The search among the first elements of the nodes.
def searchNode (key : Key) : (fuel offset length : Nat) → Result Nat
  | 0, offset, _ => return offset
  | fuel + 1, offset, length =>
    if length > 1 then do
      let half := length / 2
      let mid := offset + half
      let nodeFirst ← read (← array.nodeElements spec mid) 0
      searchNode key fuel (if spec.keyFromValue nodeFirst < key then mid else offset) (length - half)
    else
      return offset

def search (key : Key) : Result Cursor := do
  assert spec.sorted "SORTED"
  if array.nodeCount = 0 then
    return ⟨0, 0⟩
  else do
    let node ← array.searchNode spec key array.nodeCount 0 array.nodeCount
    assert (node < array.nodeCount) "node < node_count"
    let relativeIndex ← binarySearchValuesUpsertIndex spec (← array.nodeElements spec node) key
    if node + 1 < array.nodeCount ∧ relativeIndex = (← array.count spec node) then
      return ⟨node + 1, 0⟩
    else
      return ⟨node, relativeIndex⟩

def insertElement [Inhabited Value] (element : Value) : Result (Nat × SegmentedArray Value) := do
  assert spec.sorted "SORTED"
  array.verify spec
  let countBefore ← array.len spec
  let cursor ← array.search spec (spec.keyFromValue element)
  let absoluteIndex ← array.absoluteIndexForCursor spec cursor
  let array ← array.insertElementsAtAbsoluteIndex spec absoluteIndex [element]
  array.verify spec
  assert ((← array.len spec) = countBefore + 1) "len() == count_before + 1"
  return (absoluteIndex, array)

end Search

def elementAtCursor (cursor : Cursor) : Result Value := do
  read (← array.nodeElements spec cursor.node) cursor.relativeIndex

def first : Cursor :=
  ⟨0, 0⟩

def last : Result Cursor := do
  if array.nodeCount = 0 then
    return first
  else do
    let c ← array.count spec (array.nodeCount - 1)
    assert (c ≠ 0) "attempt to subtract with overflow"
    return ⟨array.nodeCount - 1, c - 1⟩

structure Iterator where
  direction : Direction
  cursor : Cursor
  done : Bool

def iteratorFromCursor (cursor : Cursor) (direction : Direction) : Result Iterator := do
  if array.nodeCount = 0 then do
    assert (cursor.node = 0) "cursor.node == 0"
    assert (cursor.relativeIndex = 0) "cursor.relative_index == 0"
    return { direction, cursor := ⟨0, 0⟩, done := true }
  else
    let atEnd ← if cursor.node = array.nodeCount - 1 then do
        pure (decide (cursor.relativeIndex = (← array.count spec cursor.node)))
      else
        pure false
    if atEnd then
      match direction with
      | .ascending => return { direction, cursor, done := true }
      | .descending => do
        assert (cursor.relativeIndex ≠ 0) "attempt to subtract with overflow"
        return { direction, cursor := ⟨cursor.node, cursor.relativeIndex - 1⟩, done := false }
    else do
      assert (cursor.node < array.nodeCount) "cursor.node < node_count"
      assert (cursor.relativeIndex < (← array.count spec cursor.node))
        "cursor.relative_index < count(cursor.node)"
      return { direction, cursor, done := false }

def iteratorFromIndex (absoluteIndex : Nat) (direction : Direction) : Result Iterator := do
  assert (absoluteIndex < spec.elementCountMax) "absolute_index < ELEMENT_COUNT_MAX"
  if array.nodeCount = 0 then do
    assert (absoluteIndex = 0) "absolute_index == 0"
    return { direction, cursor := ⟨0, 0⟩, done := true }
  else do
    assert (absoluteIndex < (← array.len spec)) "absolute_index < len()"
    let cursor ← array.cursorForAbsoluteIndex spec absoluteIndex
    return { direction, cursor, done := false }

def Iterator.next (iterator : Iterator) : Result (Option (Value × Iterator)) := do
  if iterator.done then
    return none
  else do
    let cursor := iterator.cursor
    assert (cursor.node < array.nodeCount) "cursor.node < node_count"
    let elements ← array.nodeElements spec cursor.node
    let element ← read elements cursor.relativeIndex
    match iterator.direction with
    | .ascending =>
      if cursor.relativeIndex = elements.length - 1 then
        if cursor.node = array.nodeCount - 1 then
          return some (element, { iterator with done := true })
        else
          return some (element, { iterator with cursor := ⟨cursor.node + 1, 0⟩ })
      else
        return some (element, { iterator with cursor := ⟨cursor.node, cursor.relativeIndex + 1⟩ })
    | .descending =>
      if cursor.relativeIndex = 0 then
        if cursor.node = 0 then
          return some (element, { iterator with done := true })
        else do
          let c ← array.count spec (cursor.node - 1)
          assert (c ≠ 0) "attempt to subtract with overflow"
          return some (element, { iterator with cursor := ⟨cursor.node - 1, c - 1⟩ })
      else
        return some (element, { iterator with cursor := ⟨cursor.node, cursor.relativeIndex - 1⟩ })

-- What an iterator yields, at most `fuel` elements.
def Iterator.collect : (fuel : Nat) → Iterator → Result (List Value)
  | 0, _ => return []
  | fuel + 1, iterator => do
    match ← iterator.next spec array with
    | none => return []
    | some (element, iterator) => return element :: (← collect fuel iterator)

end SegmentedArray

end TigerBeetle
