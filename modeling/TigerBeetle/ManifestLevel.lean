import TigerBeetle.Radix
import TigerBeetle.SegmentedArray

namespace TigerBeetle

def snapshotLatest : Nat := 2 ^ 64 - 2

-- A key of a table, of which a part is the high half of the sort key.
class TableKey (Key : Type) where
  toSortKeyHigh : Key → Nat

instance tableKeyU64 : TableKey (Fin (2 ^ 64)) where
  toSortKeyHigh key := key.val

instance tableKeyU128 : TableKey (Fin (2 ^ 128)) where
  toSortKeyHigh key := key.val % 2 ^ 64

instance tableKeyU256 : TableKey U256 where
  toSortKeyHigh key := key.hi.val >>> 64

structure TableInfo (Key : Type) where
  checksum : Nat
  address : Nat
  snapshotMin : Nat
  snapshotMax : Nat
  keyMin : Key
  keyMax : Key
  valueCount : Nat
  deriving DecidableEq, Repr

instance {Key : Type} [Inhabited Key] : Inhabited (TableInfo Key) where
  default := {
    checksum := 0
    address := 0
    snapshotMin := 0
    snapshotMax := 2 ^ 64 - 1
    keyMin := default
    keyMax := default
    valueCount := 0 }

structure KeyRange (Key : Type) where
  keyMin : Key
  keyMax : Key
  deriving DecidableEq, Repr

structure TableInfoReference (Key : Type) where
  tableInfo : TableInfo Key
  generation : Nat

inductive Visibility
  | visible
  | invisible
  deriving DecidableEq, Repr

namespace TableInfo

variable {Key : Type} (table : TableInfo Key)

def visible (snapshot : Nat) : Result Bool := do
  assert (table.address ≠ 0) "self.address() != 0"
  assert (table.snapshotMin ≤ table.snapshotMax) "self.snapshot_min() <= self.snapshot_max()"
  assert (snapshot ≤ snapshotLatest) "snapshot <= SNAPSHOT_LATEST"
  return table.snapshotMin ≤ snapshot ∧ snapshot ≤ table.snapshotMax

def visibleAny : (snapshots : List Nat) → Result Bool
  | [] => return false
  | snapshot :: snapshots => do
    if ← table.visible snapshot then
      return true
    else
      visibleAny snapshots

def invisible (snapshots : List Nat) : Result Bool := do
  if ← table.visible snapshotLatest then
    return false
  else if ← table.visibleAny snapshots then
    return false
  else do
    assert (table.snapshotMax < 2 ^ 64 - 1) "self.snapshot_max() < u64::MAX"
    return true

def tableSortKey [TableKey Key] : Nat :=
  TableKey.toSortKeyHigh table.keyMax <<< 64 ||| table.snapshotMin

end TableInfo

structure ManifestLevelSpec where
  tableCountMaxTree : Nat
  keysNodeCapacity : Nat
  tablesNodeCapacity : Nat

namespace ManifestLevelSpec

variable {Key : Type} (spec : ManifestLevelSpec)

def keysSpec : SegmentedArraySpec Key Key where
  sorted := true
  elementCountMax := spec.tableCountMaxTree
  nodeCapacity := spec.keysNodeCapacity
  keyFromValue := id

def tablesSpec [TableKey Key] : SegmentedArraySpec Nat (TableInfo Key) where
  sorted := true
  elementCountMax := spec.tableCountMaxTree
  nodeCapacity := spec.tablesNodeCapacity
  keyFromValue := fun table => table.tableSortKey

end ManifestLevelSpec

open SegmentedArray in
def SegmentedArray.elementMut {Key Value : Type} (spec : SegmentedArraySpec Key Value)
    (array : SegmentedArray Value) (absoluteIndex : Nat) (update : Value → Value) :
    Result (SegmentedArray Value) := do
  assert (array.nodeCount > 0) "node_count > 0"
  assert (absoluteIndex < (← array.len spec)) "absolute_index < len()"
  let cursor ← array.cursorForAbsoluteIndex spec absoluteIndex
  let node ← read array.nodes cursor.node
  let value ← read node cursor.relativeIndex
  return { array with
    nodes := array.nodes.set cursor.node (node.set cursor.relativeIndex (update value)) }

structure ManifestLevel (Key : Type) where
  keys : SegmentedArray Key
  tables : SegmentedArray (TableInfo Key)
  keyRangeLatest : Option (KeyRange Key)
  tableCountVisible : Nat
  valueCountVisible : Nat
  generation : Nat

namespace ManifestLevel

open SegmentedArray

variable {Key : Type} [LinearOrder Key] [TableKey Key] [Inhabited Key] (spec : ManifestLevelSpec)

def new : Result (ManifestLevel Key) := do
  return {
    keys := ← SegmentedArray.new spec.keysSpec
    tables := ← SegmentedArray.new spec.tablesSpec
    keyRangeLatest := none
    tableCountVisible := 0
    valueCountVisible := 0
    generation := 0 }

variable (level : ManifestLevel Key)

def findLive (table : TableInfo Key) : Result (Option (Nat × TableInfo Key)) := do
  let tableCursor ← level.tables.search spec.tablesSpec table.tableSortKey
  let index ← level.tables.absoluteIndexForCursor spec.tablesSpec tableCursor
  if index = (← level.tables.len spec.tablesSpec) then
    return none
  else do
    let levelTable ← level.tables.elementAtCursor spec.tablesSpec tableCursor
    if levelTable.address = table.address ∧ levelTable.checksum = table.checksum then
      return some (index, levelTable)
    else
      return none

def find (table : TableInfo Key) : Result (Option (TableInfoReference Key)) := do
  match ← level.findLive spec table with
  | none => return none
  | some (_, found) => return some { tableInfo := found, generation := level.generation }

def contains (table : TableInfo Key) : Result Bool := do
  match ← level.find spec table with
  | none => return false
  | some found => do
    let tableExact := decide (table.snapshotMax = found.tableInfo.snapshotMax)
    assert (tableExact = decide (table = found.tableInfo))
      "table_exact == table.equal(&found.table_info)"
    return tableExact

section Iterators

-- The cursor moves against the direction as long as the key stays the same.
def boundaryLoop (startKey : Key) : (fuel : Nat) → (adjusted : Cursor) → Iterator →
    Result (Cursor × Bool)
  | 0, adjusted, _ => return (adjusted, true)
  | fuel + 1, adjusted, reverse => do
    match ← reverse.next spec.keysSpec level.keys with
    | none => return (adjusted, true)
    | some (k, reverse') =>
      if startKey ≠ k then
        return (adjusted, false)
      else
        boundaryLoop startKey fuel reverse.cursor reverse'

def iteratorStartBoundary (keyCursor : Cursor) (direction : Direction) : Result Cursor := do
  let reverse ← level.keys.iteratorFromCursor spec.keysSpec keyCursor direction.reverse
  assert (reverse.cursor = keyCursor) "reverse.cursor() == key_cursor"
  match ← reverse.next spec.keysSpec level.keys with
  | none => abort "non-empty by caller"
  | some (startKey, reverse') => do
    assert (startKey = (← level.keys.elementAtCursor spec.keysSpec reverse.cursor))
      "start_key == keys.element_at_cursor(adjusted)"
    let (adjusted, ranToEnd) ← level.boundaryLoop spec startKey
      (← level.keys.len spec.keysSpec) reverse.cursor reverse'
    if ranToEnd then
      match direction with
      | .ascending => assert (adjusted = first) "adjusted == keys.first()"
      | .descending => assert (adjusted = (← level.keys.last spec.keysSpec)) "adjusted == keys.last()"
    assert (startKey = (← level.keys.elementAtCursor spec.keysSpec adjusted))
      "start_key == keys.element_at_cursor(adjusted)"
    return adjusted

def iteratorStart (keyMin keyMax : Key) (direction : Direction) : Result (Option Cursor) := do
  assert (keyMin ≤ keyMax) "key_min <= key_max"
  assert ((← level.keys.len spec.keysSpec) = (← level.tables.len spec.tablesSpec))
    "keys.len() == tables.len()"
  if (← level.keys.len spec.keysSpec) = 0 then
    return none
  else do
    let target ← level.keys.search spec.keysSpec (match direction with
      | .ascending => keyMin
      | .descending => keyMax)
    assert (target.node ≤ level.keys.nodeCount) "target.node <= keys.node_count()"
    if (← level.keys.absoluteIndexForCursor spec.keysSpec target) =
        (← level.keys.len spec.keysSpec) then
      match direction with
      | .ascending => return none
      | .descending => return some (← level.keys.last spec.keysSpec)
    else
      return some (← level.iteratorStartBoundary spec target direction)

structure LevelIterator (Key : Type) where
  inner : Iterator
  visibility : Visibility
  snapshots : List Nat
  direction : Direction
  keyRange : Option (KeyRange Key)

def iterator (visibility : Visibility) (snapshots : List Nat) (direction : Direction)
    (keyRange : Option (KeyRange Key)) : Result (LevelIterator Key) := do
  assert (∀ snapshot ∈ snapshots, snapshot ≤ snapshotLatest) "snapshot <= SNAPSHOT_LATEST"
  let inner ← match keyRange with
    | some range => do
      assert (range.keyMin ≤ range.keyMax) "range.key_min <= range.key_max"
      match ← level.iteratorStart spec range.keyMin range.keyMax direction with
      | some start => do
        let absoluteIndex ← level.keys.absoluteIndexForCursor spec.keysSpec start
        level.tables.iteratorFromIndex spec.tablesSpec absoluteIndex direction
      | none => pure { direction, cursor := ⟨0, 0⟩, done := true }
    | none =>
      match direction with
      | .ascending => level.tables.iteratorFromIndex spec.tablesSpec 0 .ascending
      | .descending => do
        level.tables.iteratorFromCursor spec.tablesSpec (← level.tables.last spec.tablesSpec)
          .descending
  return { inner, visibility, snapshots, direction, keyRange }

-- The tables that do not match are skipped.
def LevelIterator.next : (fuel : Nat) → LevelIterator Key →
    Result (Option (TableInfo Key × LevelIterator Key))
  | 0, _ => return none
  | fuel + 1, iterator => do
    match ← iterator.inner.next spec.tablesSpec level.tables with
    | none => return none
    | some (table, inner) =>
      let matchesVisibility ← match iterator.visibility with
        | .invisible => table.invisible iterator.snapshots
        | .visible => table.visibleAny iterator.snapshots
      if ¬matchesVisibility then
        next fuel { iterator with inner }
      else
        match iterator.keyRange, iterator.direction with
        | some keyRange, .ascending => do
          assert (keyRange.keyMin ≤ table.keyMax) "key_range.key_min <= table.key_max()"
          if table.keyMin > keyRange.keyMax then
            return none
          else
            return some (table, { iterator with inner })
        | some keyRange, .descending =>
          if table.keyMin > keyRange.keyMax then
            next fuel { iterator with inner }
          else if table.keyMax < keyRange.keyMin then
            return none
          else
            return some (table, { iterator with inner })
        | none, _ => return some (table, { iterator with inner })

end Iterators

def keyRangeLatestInclude (includeRange : KeyRange Key) : Result (ManifestLevel Key) := do
  let range := match level.keyRangeLatest with
    | some levelRange => {
        keyMin := if includeRange.keyMin < levelRange.keyMin then includeRange.keyMin else levelRange.keyMin
        keyMax := if includeRange.keyMax > levelRange.keyMax then includeRange.keyMax else levelRange.keyMax }
    | none => includeRange
  assert (range.keyMin ≤ range.keyMax) "range.key_min <= range.key_max"
  assert (range.keyMin ≤ includeRange.keyMin ∧ includeRange.keyMax ≤ range.keyMax)
    "range.key_min <= include_range.key_min && include_range.key_max <= range.key_max"
  return { level with keyRangeLatest := some range }

-- The first table that is visible now, in a direction.
def firstVisible (direction : Direction) : Result (TableInfo Key) := do
  let itr ← level.iterator spec .visible [snapshotLatest] direction none
  match ← itr.next spec level (← level.tables.len spec.tablesSpec) with
  | some (table, _) => return table
  | none => abort "at least one visible table remains"

def keyRangeLatestExclude (excludeRange : KeyRange Key) : Result (ManifestLevel Key) := do
  match level.keyRangeLatest with
  | none => abort "key_range_latest.is_some()"
  | some current =>
    if level.tableCountVisible = 0 then
      return { level with keyRangeLatest := none }
    else do
      let keyMax ← if excludeRange.keyMax = current.keyMax then do
          pure (← level.firstVisible spec .descending).keyMax
        else
          pure current.keyMax
      let keyMin ← if excludeRange.keyMin = current.keyMin then do
          pure (← level.firstVisible spec .ascending).keyMin
        else
          pure current.keyMin
      assert (keyMin ≤ keyMax) "current.key_min <= current.key_max"
      return { level with keyRangeLatest := some ⟨keyMin, keyMax⟩ }

-- A table that has been visible no longer is.
def uncount (table : TableInfo Key) : Result (ManifestLevel Key) := do
  assert (1 ≤ level.tableCountVisible) "attempt to subtract with overflow"
  assert (table.valueCount ≤ level.valueCountVisible) "attempt to subtract with overflow"
  { level with
    tableCountVisible := level.tableCountVisible - 1
    valueCountVisible := level.valueCountVisible - table.valueCount
    }.keyRangeLatestExclude spec ⟨table.keyMin, table.keyMax⟩

def insertTable (table : TableInfo Key) : Result (ManifestLevel Key) := do
  assert ((← level.contains spec table) = false) "!self.contains(table)"
  assert ((← level.keys.len spec.keysSpec) = (← level.tables.len spec.tablesSpec))
    "keys.len() == tables.len()"
  let (absoluteIndexKeys, keys) ← level.keys.insertElement spec.keysSpec table.keyMax
  assert (absoluteIndexKeys < (← keys.len spec.keysSpec)) "absolute_index_keys < keys.len()"
  let (absoluteIndexTables, tables) ← level.tables.insertElement spec.tablesSpec table
  assert (absoluteIndexTables < (← tables.len spec.tablesSpec)) "absolute_index_tables < tables.len()"
  let visible ← table.visible snapshotLatest
  let level ← { level with
    keys
    tables
    tableCountVisible := if visible then level.tableCountVisible + 1 else level.tableCountVisible
    valueCountVisible :=
      if visible then level.valueCountVisible + table.valueCount else level.valueCountVisible
    generation := (level.generation + 1) % 2 ^ 32
    }.keyRangeLatestInclude ⟨table.keyMin, table.keyMax⟩
  assert ((← level.contains spec table) = true) "self.contains(table)"
  let cursorKeys ← keys.cursorForAbsoluteIndex spec.keysSpec absoluteIndexKeys
  assert ((← keys.elementAtCursor spec.keysSpec cursorKeys) = table.keyMax)
    "keys.element_at_cursor(..) == table.key_max()"
  let cursorTables ← tables.cursorForAbsoluteIndex spec.tablesSpec absoluteIndexTables
  assert ((← tables.elementAtCursor spec.tablesSpec cursorTables) = table)
    "tables.element_at_cursor(..) == *table"
  assert ((← keys.len spec.keysSpec) = (← tables.len spec.tablesSpec)) "keys.len() == tables.len()"
  return level

def setSnapshotMax (snapshot : Nat) (tableRef : TableInfoReference Key) :
    Result (ManifestLevel Key) := do
  assert (tableRef.generation = level.generation) "table_ref.generation == self.generation"
  assert ((← level.contains spec tableRef.tableInfo) = true) "self.contains(&table_ref.table_info)"
  assert (snapshot < snapshotLatest) "snapshot < SNAPSHOT_LATEST"
  assert (tableRef.tableInfo.snapshotMax = 2 ^ 64 - 1) "table_info.snapshot_max() == u64::MAX"
  let table := tableRef.tableInfo
  assert (table.keyMin ≤ table.keyMax) "table.key_min() <= table.key_max()"
  match ← level.findLive spec table with
  | none => abort "set_snapshot_max: table not found at its sort-key position"
  | some (index, element) => do
    assert (element.snapshotMax = 2 ^ 64 - 1) "element.snapshot_max() == u64::MAX"
    let tables ← level.tables.elementMut spec.tablesSpec index fun element =>
      { element with snapshotMax := snapshot }
    { level with tables }.uncount spec table

-- The table is searched for from an index on.
def removeIndex (table : TableInfo Key) : (fuel i : Nat) → Iterator → Result Nat
  | 0, _, _ => abort "ManifestLevel.remove_table: table not found"
  | fuel + 1, i, tables => do
    match ← tables.next spec.tablesSpec level.tables with
    | none => abort "ManifestLevel.remove_table: table not found"
    | some (levelTable, tables) =>
      if levelTable = table then
        return i
      else do
        assert (levelTable.checksum ≠ table.checksum) "level_table.checksum() != table.checksum()"
        assert (levelTable.address ≠ table.address) "level_table.address() != table.address()"
        removeIndex table fuel (i + 1) tables

def removeTable (table : TableInfo Key) : Result (ManifestLevel Key) := do
  assert ((← level.keys.len spec.keysSpec) = (← level.tables.len spec.tablesSpec))
    "keys.len() == tables.len()"
  assert (table.keyMin ≤ table.keyMax) "table.key_min() <= table.key_max()"
  match ← level.iteratorStart spec table.keyMin table.keyMin .ascending with
  | none => abort "remove_table: level is empty"
  | some cursorStart => do
    let i ← level.keys.absoluteIndexForCursor spec.keysSpec cursorStart
    let iterator ← level.tables.iteratorFromIndex spec.tablesSpec i .ascending
    let tableIndexAbsolute ← level.removeIndex spec table
      (← level.tables.len spec.tablesSpec) i iterator
    let keys ← level.keys.removeElements spec.keysSpec tableIndexAbsolute 1
    let tables ← level.tables.removeElements spec.tablesSpec tableIndexAbsolute 1
    assert ((← keys.len spec.keysSpec) = (← tables.len spec.tablesSpec)) "keys.len() == tables.len()"
    let level := { level with keys, tables, generation := (level.generation + 1) % 2 ^ 32 }
    if ← table.visible snapshotLatest then
      level.uncount spec table
    else
      return level

end ManifestLevel

end TigerBeetle
