import TigerBeetle.Manifest

namespace TigerBeetle

def lsmGrowthFactor : Nat := 8

def lsmTableCoalescingThresholdPercent : Nat := 50

-- The tables that intersect with a range, which is extended to cover them.
structure OverlapRange (Key : Type) where
  keyMin : Key
  keyMax : Key
  tables : List (TableInfoReference Key)

structure CompactionRange (Key : Type) where
  keyMin : Key
  keyMax : Key
  tables : OverlapRange Key

namespace ManifestLevel

open SegmentedArray

variable {Key : Type} [LinearOrder Key] [TableKey Key] [Inhabited Key] (spec : ManifestLevelSpec)
variable (level : ManifestLevel Key)

-- The range with the next of the tables that overlap with it.
def extend (range : OverlapRange Key) (table : TableInfo Key) : OverlapRange Key where
  keyMin := if table.keyMin < range.keyMin then table.keyMin else range.keyMin
  keyMax := if table.keyMax > range.keyMax then table.keyMax else range.keyMax
  tables := range.tables ++ [⟨table, level.generation⟩]

def tablesOverlappingLoop (maxOverlappingTables fuel : Nat) : (count : Nat) → LevelIterator Key →
    OverlapRange Key → Result (Option (OverlapRange Key))
  | 0, _, range => return some range
  | count + 1, it, range => do
    match ← it.next spec level fuel with
    | none => return some range
    | some (table, it) => do
      assert ((← table.visible snapshotLatest) = true) "table.visible(SNAPSHOT_LATEST)"
      assert (table.keyMin ≤ table.keyMax) "table.key_min() <= table.key_max()"
      assert (range.keyMin ≤ table.keyMax) "range.key_min <= table.key_max()"
      assert (table.keyMin ≤ range.keyMax) "table.key_min() <= range.key_max"
      if range.tables.length < maxOverlappingTables then
        tablesOverlappingLoop maxOverlappingTables fuel count it (level.extend range table)
      else
        return none

def tablesOverlappingWithKeyRange (keyMin keyMax : Key) (snapshot maxOverlappingTables : Nat) :
    Result (Option (OverlapRange Key)) := do
  assert (maxOverlappingTables ≤ lsmGrowthFactor) "max_overlapping_tables <= LSM_GROWTH_FACTOR_USIZE"
  let it ← level.iterator spec .visible [snapshot] .ascending (some ⟨keyMin, keyMax⟩)
  let fuel ← level.tables.len spec.tablesSpec
  let range := ⟨keyMin, keyMax, []⟩
  match ← level.tablesOverlappingLoop spec maxOverlappingTables fuel (fuel + 1) it range with
  | none => return none
  | some range => do
    assert (range.keyMin ≤ range.keyMax) "range.key_min <= range.key_max"
    assert (range.keyMin ≤ keyMin) "range.key_min <= key_min"
    assert (range.tables.length ≤ maxOverlappingTables) "range.tables.count() <= max_overlapping_tables"
    assert (keyMax ≤ range.keyMax) "key_max <= range.key_max"
    return some range

end ManifestLevel

namespace Manifest

variable {Key : Type} [LinearOrder Key] [TableKey Key] [Inhabited Key] [BoundedOrder Key]
variable (spec : ManifestLevelSpec) (manifest : Manifest Key)

-- What is known while tables are coalesced.
structure Coalescing (Key : Type) where
  range : OverlapRange Key
  valueCountOutput : Nat
  coalescedSmallTable : Bool

def Coalescing.keyExclusive (state : Coalescing Key) : Direction → Key
  | .descending => state.range.keyMin
  | .ascending => state.range.keyMax

-- The next table in a direction becomes part of the range.
def Coalescing.add (state : Coalescing Key) (tableNext : TableInfo Key)
    (generation valueCountTarget : Nat) (direction : Direction) : Coalescing Key where
  range := match direction with
    | .descending => { state.range with
      keyMin := tableNext.keyMin
      tables := ⟨tableNext, generation⟩ :: state.range.tables }
    | .ascending => { state.range with
      keyMax := tableNext.keyMax
      tables := state.range.tables ++ [⟨tableNext, generation⟩] }
  valueCountOutput := state.valueCountOutput + tableNext.valueCount
  coalescedSmallTable := state.coalescedSmallTable || tableNext.valueCount < valueCountTarget

def coalesce (level : ManifestLevel Key) (valueCountTarget valueCountMax : Nat) (direction : Direction) :
    (count : Nat) → Coalescing Key → Result (Coalescing Key)
  | 0, state => return state
  | count + 1, state =>
    if state.range.tables.length = lsmGrowthFactor ∨ state.valueCountOutput ≥ valueCountTarget then
      return state
    else do
      match ← level.nextTable spec
        ⟨snapshotLatest, ⊥, ⊤, some (state.keyExclusive direction), direction⟩ with
      | none => return state
      | some tableNext => do
        assert (tableNext.valueCount > 0) "next_value_count > 0"
        assert (state.valueCountOutput + tableNext.valueCount < 2 ^ 32) "attempt to add with overflow"
        if state.valueCountOutput + tableNext.valueCount ≤ valueCountMax then
          coalesce level valueCountTarget valueCountMax direction count
            (state.add tableNext level.generation valueCountTarget direction)
        else
          return state

def assertDisjoint : List (TableInfoReference Key) → Result Unit
  | a :: b :: rest => do
    assert (a.tableInfo.keyMax < b.tableInfo.keyMin)
      "pair[0].table_info.key_max() < pair[1].table_info.key_min()"
    assertDisjoint (b :: rest)
  | _ => return ()

def immutableTableCompactionRange (keyMin keyMax : Key) (valueCount valueCountMax : Nat) :
    Result (CompactionRange Key) := do
  assert (keyMin ≤ keyMax) "key_min <= key_max"
  assert (valueCount > 0) "value_count > 0"
  assert (valueCount ≤ valueCountMax) "value_count <= value_count_max"
  let manifestLevel := manifest.levels ⟨0, by decide⟩
  assert (manifestLevel.tableCountVisible ≤ lsmGrowthFactor)
    "manifest_level.table_count_visible() <= LSM_GROWTH_FACTOR"
  match ← manifestLevel.tablesOverlappingWithKeyRange spec keyMin keyMax snapshotLatest
    lsmGrowthFactor with
  | none => abort "level 0 has at most lsm_growth_factor tables, so overlap must be non-empty"
  | some rangeOverlap => do
    let valueCountTarget := (valueCountMax * lsmTableCoalescingThresholdPercent + 99) / 100
    assert (valueCountTarget < 2 ^ 32) "value_count_target overflows u32"
    assert (valueCountTarget > 1) "value_count_target > 1"
    assert (valueCountTarget < valueCountMax) "value_count_target < value_count_max"
    let valueCountOutput := valueCount +
      (rangeOverlap.tables.map fun reference => reference.tableInfo.valueCount).sum
    assert (valueCountOutput < 2 ^ 32) "attempt to add with overflow"
    let start := ⟨rangeOverlap, valueCountOutput, decide (valueCountOutput < valueCountTarget)⟩
    let left ← coalesce spec manifestLevel valueCountTarget valueCountMax .descending lsmGrowthFactor
      start
    let state ← coalesce spec manifestLevel valueCountTarget valueCountMax .ascending lsmGrowthFactor
      left
    let range := state.range
    if ¬(range.tables.length > rangeOverlap.tables.length ∧ state.coalescedSmallTable) then
      assert (range.tables.length = rangeOverlap.tables.length)
        "range.tables.count() == overlap_tables_count"
    assert (range.keyMin ≤ range.keyMax) "range.key_min <= range.key_max"
    assert (range.keyMin ≤ keyMin) "range.key_min <= key_min"
    assert (keyMax ≤ range.keyMax) "key_max <= range.key_max"
    assertDisjoint range.tables
    return ⟨range.keyMin, range.keyMax, range⟩

end Manifest

end TigerBeetle
