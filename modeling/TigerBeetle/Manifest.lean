import TigerBeetle.ManifestLevel

namespace TigerBeetle

def lsmLevels : Nat := 7

structure NextTableParameters (Key : Type) where
  snapshot : Nat
  keyMin : Key
  keyMax : Key
  keyExclusive : Option Key
  direction : Direction

namespace ManifestLevel

open SegmentedArray

variable {Key : Type} [LinearOrder Key] [TableKey Key] [Inhabited Key] (spec : ManifestLevelSpec)
variable (level : ManifestLevel Key)

-- The tables that an iterator yields, each of which it finds in `fuel` steps at most.
def LevelIterator.collect (fuel : Nat) : (count : Nat) → LevelIterator Key →
    Result (List (TableInfo Key))
  | 0, _ => return []
  | count + 1, iterator => do
    match ← iterator.next spec level fuel with
    | none => return []
    | some (table, iterator) => return table :: (← collect fuel count iterator)

-- The first of the tables behind the excluded key.
def nextTableExclusive (parameters : NextTableParameters Key) (keyMin keyMax keyExclusive : Key)
    (fuel : Nat) : (count : Nat) → LevelIterator Key → Result (Option (TableInfo Key))
  | 0, _ => return none
  | count + 1, iterator => do
    match ← iterator.next spec level fuel with
    | none => return none
    | some (table, iterator) => do
      assert ((← table.visible parameters.snapshot) = true) "table.visible(snapshot)"
      assert (table.keyMin ≤ table.keyMax) "table.key_min() <= table.key_max()"
      assert (keyMin ≤ table.keyMax) "key_min_exclusive <= table.key_max()"
      assert (table.keyMin ≤ keyMax) "table.key_min() <= key_max_exclusive"
      let isNext := match parameters.direction with
        | .ascending => decide (table.keyMin > keyExclusive)
        | .descending => decide (table.keyMax < keyExclusive)
      if isNext then
        return some table
      else
        nextTableExclusive parameters keyMin keyMax keyExclusive fuel count iterator

def nextTable (parameters : NextTableParameters Key) : Result (Option (TableInfo Key)) := do
  assert (parameters.keyMin ≤ parameters.keyMax) "key_min <= key_max"
  let fuel ← level.tables.len spec.tablesSpec
  match parameters.keyExclusive with
  | none => do
    let it ← level.iterator spec .visible [parameters.snapshot] parameters.direction
      (some ⟨parameters.keyMin, parameters.keyMax⟩)
    return (← it.next spec level fuel).map Prod.fst
  | some keyExclusive => do
    assert (parameters.keyMin ≤ keyExclusive) "key_min <= key_exclusive"
    assert (keyExclusive ≤ parameters.keyMax) "key_exclusive <= key_max"
    let keyMin := if parameters.direction = .ascending then keyExclusive else parameters.keyMin
    let keyMax := if parameters.direction = .descending then keyExclusive else parameters.keyMax
    assert (keyMin ≤ keyMax) "key_min_exclusive <= key_max_exclusive"
    let it ← level.iterator spec .visible [parameters.snapshot] parameters.direction
      (some ⟨keyMin, keyMax⟩)
    level.nextTableExclusive spec parameters keyMin keyMax keyExclusive fuel fuel it

def keyRangeLatestContains (key : Key) : Bool :=
  match level.keyRangeLatest with
  | some range => range.keyMin ≤ key ∧ key ≤ range.keyMax
  | none => false

def keyRangeContains (snapshot : Nat) (key : Key) : Result Bool := do
  assert (snapshot < snapshotLatest) "snapshot < SNAPSHOT_LATEST"
  return level.keyRangeLatestContains key

end ManifestLevel

structure Manifest (Key : Type) where
  levels : Fin lsmLevels → ManifestLevel Key

namespace Manifest

variable {Key : Type} [LinearOrder Key] [TableKey Key] [Inhabited Key] (spec : ManifestLevelSpec)
variable (manifest : Manifest Key)

-- The levels from `levelC` on.
def compactionLevels (levelB : Nat) (range : KeyRange Key) : (count : Nat) → (levelC : Nat) → Result Bool
  | 0, levelC => do
    assert (levelC = lsmLevels) "level_c == LSM_LEVELS"
    return true
  | count + 1, levelC =>
    if h : levelC < lsmLevels then do
      let found ← (manifest.levels ⟨levelC, h⟩).nextTable spec {
        snapshot := snapshotLatest
        keyMin := range.keyMin
        keyMax := range.keyMax
        keyExclusive := none
        direction := .ascending }
      if found.isSome then do
        assert (levelB ≠ lsmLevels - 1) "level_b != LSM_LEVELS - 1"
        return false
      else
        compactionLevels levelB range count (levelC + 1)
    else do
      assert (levelC = lsmLevels) "level_c == LSM_LEVELS"
      return true

def compactionMustDropTombstones (levelB : Nat) (range : KeyRange Key) : Result Bool := do
  assert (levelB < lsmLevels) "level_b < LSM_LEVELS"
  assert (range.keyMin ≤ range.keyMax) "range.key_min <= range.key_max"
  manifest.compactionLevels spec levelB range lsmLevels (levelB + 1)

structure ManifestLookupIterator (Key : Type) where
  snapshot : Nat
  key : Key
  level : Nat

def ManifestLookupIterator.keyInRange (iterator : ManifestLookupIterator Key)
    (level : ManifestLevel Key) : Result Bool :=
  if iterator.snapshot < snapshotLatest then
    level.keyRangeContains iterator.snapshot iterator.key
  else
    return level.keyRangeLatestContains iterator.key

-- The table of a level, if it is looked for there.
def lookupLevel (iterator : ManifestLookupIterator Key) (level : ManifestLevel Key) :
    Result (Option (TableInfo Key)) := do
  if ¬(← iterator.keyInRange level) then
    return none
  else do
    let fuel ← level.tables.len spec.tablesSpec
    let inner ← level.iterator spec .visible [iterator.snapshot] .ascending
      (some ⟨iterator.key, iterator.key⟩)
    match ← inner.next spec level fuel with
    | none => return none
    | some (table, inner) => do
      assert ((← table.visible iterator.snapshot) = true) "table.visible(self.snapshot)"
      assert (table.keyMin ≤ iterator.key) "table.key_min() <= self.key"
      assert (iterator.key ≤ table.keyMax) "self.key <= table.key_max()"
      assert ((← inner.next spec level fuel).isNone) "inner.next().is_none()"
      return some table

-- The next table is that of the first level that has one.
def ManifestLookupIterator.next : (count : Nat) → ManifestLookupIterator Key →
    Result (Option (TableInfo Key × ManifestLookupIterator Key))
  | 0, iterator => do
    assert (iterator.level = lsmLevels) "self.level == LSM_LEVELS"
    return none
  | count + 1, iterator =>
    if h : iterator.level < lsmLevels then do
      match ← lookupLevel spec iterator (manifest.levels ⟨iterator.level, h⟩) with
      | some table => return some (table, { iterator with level := iterator.level + 1 })
      | none => next count { iterator with level := iterator.level + 1 }
    else do
      assert (iterator.level = lsmLevels) "self.level == LSM_LEVELS"
      return none

def ManifestLookupIterator.collect : (count : Nat) → ManifestLookupIterator Key →
    Result (List (TableInfo Key))
  | 0, _ => return []
  | count + 1, iterator => do
    match ← iterator.next spec manifest lsmLevels with
    | none => return []
    | some (table, iterator) => return table :: (← collect count iterator)

def lookup (snapshot : Nat) (key : Key) (levelMin : Nat) : ManifestLookupIterator Key where
  snapshot
  key
  level := levelMin

end Manifest

end TigerBeetle
