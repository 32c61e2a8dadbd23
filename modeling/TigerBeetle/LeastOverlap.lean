import TigerBeetle.Overlap

namespace TigerBeetle

structure LeastOverlapTable (Key : Type) where
  table : TableInfoReference Key
  range : OverlapRange Key

structure CompactionTableRange (Key : Type) where
  tableA : TableInfoReference Key
  rangeB : CompactionRange Key

def tableCountMaxForLevel (growthFactor level : Nat) : Result Nat := do
  assert (level < lsmLevels) "level < LSM_LEVELS"
  assert (growthFactor ^ (level + 1) < 2 ^ 32) "growth_factor^(level+1) overflows u32"
  return growthFactor ^ (level + 1)

namespace ManifestLevel

open SegmentedArray

variable {Key : Type} [LinearOrder Key] [TableKey Key] [Inhabited Key] (spec : ManifestLevelSpec)

-- A pointer into the other level: the table that it stands at and how many tables are behind it.
structure Pointer (Key : Type) where
  iterator : LevelIterator Key
  count : Nat
  table : Option (TableInfo Key)

-- The pointer moves forward over the tables that it is to pass.
def Pointer.advance (levelB : ManifestLevel Key) (fuel : Nat) (passes : TableInfo Key → Bool) :
    (steps : Nat) → Pointer Key → Result (Pointer Key)
  | 0, pointer => return pointer
  | steps + 1, pointer =>
    match pointer.table with
    | none => return pointer
    | some table =>
      if ¬passes table then
        return pointer
      else do
        match ← pointer.iterator.next spec levelB fuel with
        | none =>
          advance levelB fuel passes steps ⟨pointer.iterator, pointer.count + 1, none⟩
        | some (table, iterator) =>
          advance levelB fuel passes steps ⟨iterator, pointer.count + 1, some table⟩

def Pointer.start (levelB : ManifestLevel Key) (fuel : Nat) (iterator : LevelIterator Key) :
    Result (Pointer Key) := do
  match ← iterator.next spec levelB fuel with
  | none => return ⟨iterator, 0, none⟩
  | some (table, iterator) => return ⟨iterator, 0, some table⟩

-- The optimal table so far, and how many tables it overlaps with.
structure Optimal (Key : Type) where
  table : Option (TableInfo Key)
  overlap : Nat
  iterations : Nat

def leastOverlapLoop (levelA levelB : ManifestLevel Key) (maxOverlappingTables fuelA fuelB : Nat) :
    (count : Nat) → LevelIterator Key → (lower upper : Pointer Key) → Optimal Key → Result (Optimal Key)
  | 0, _, _, _, optimal => return optimal
  | count + 1, iterator, lower, upper, optimal => do
    match ← iterator.next spec levelA fuelA with
    | none => return optimal
    | some (aTable, iterator) => do
      let lower ← lower.advance spec levelB fuelB (fun table => table.keyMax < aTable.keyMin) (fuelB + 1)
      assert (∀ table ∈ lower.table, aTable.keyMin ≤ table.keyMax) "a_table.key_min() <= lower.key_max()"
      let upper ← upper.advance spec levelB fuelB (fun table => table.keyMin ≤ aTable.keyMax) (fuelB + 1)
      assert (∀ table ∈ upper.table, aTable.keyMax < table.keyMin) "a_table.key_max() < upper.key_min()"
      assert (lower.count ≤ upper.count) "attempt to subtract with overflow"
      let overlap := upper.count - lower.count
      let iterations := optimal.iterations + 1
      if overlap > maxOverlappingTables then
        leastOverlapLoop levelA levelB maxOverlappingTables fuelA fuelB count iterator lower upper
          { optimal with iterations }
      else if optimal.overlap = 0 then
        return { optimal with iterations }
      else if overlap < optimal.overlap then
        leastOverlapLoop levelA levelB maxOverlappingTables fuelA fuelB count iterator lower upper
          ⟨some aTable, overlap, iterations⟩
      else
        leastOverlapLoop levelA levelB maxOverlappingTables fuelA fuelB count iterator lower upper
          { optimal with iterations }

def tableWithLeastOverlap (levelA levelB : ManifestLevel Key) (snapshot maxOverlappingTables : Nat) :
    Result (LeastOverlapTable Key) := do
  assert (maxOverlappingTables ≤ lsmGrowthFactor) "max_overlapping_tables <= LSM_GROWTH_FACTOR_USIZE"
  assert (levelA.tableCountVisible > 0) "self.table_count_visible > 0"
  let fuelA ← levelA.tables.len spec.tablesSpec
  let fuelB ← levelB.tables.len spec.tablesSpec
  let aIterator ← levelA.iterator spec .visible [snapshot] .ascending none
  let bLowerIterator ← levelB.iterator spec .visible [snapshot] .ascending none
  let bLower ← Pointer.start spec levelB fuelB bLowerIterator
  let bUpperIterator ← levelB.iterator spec .visible [snapshot] .ascending none
  let bUpper ← Pointer.start spec levelB fuelB bUpperIterator
  let optimal ← leastOverlapLoop spec levelA levelB maxOverlappingTables fuelA fuelB (fuelA + 1) aIterator
    bLower bUpper ⟨none, maxOverlappingTables + 1, 0⟩
  assert (optimal.iterations > 0) "iterations > 0"
  assert (optimal.iterations = levelA.tableCountVisible ∨ optimal.overlap = 0)
    "iterations == self.table_count_visible || optimal_overlap == 0"
  assert (optimal.overlap ≤ maxOverlappingTables) "optimal_overlap <= max_overlapping_tables"
  match optimal.table with
  | none => abort "the overlap bound guarantees at least one candidate"
  | some table => do
    match ← levelB.tablesOverlappingWithKeyRange spec table.keyMin table.keyMax snapshot
      maxOverlappingTables with
    | none => abort "the chosen table's overlap fits the budget"
    | some range => do
      assert (range.tables.length = optimal.overlap) "range.tables.count() == optimal.1"
      assert (range.tables.length ≤ maxOverlappingTables) "range.tables.count() <= max_overlapping_tables"
      return ⟨⟨table, levelA.generation⟩, range⟩

end ManifestLevel

namespace Manifest

variable {Key : Type} [LinearOrder Key] [TableKey Key] [Inhabited Key] (spec : ManifestLevelSpec)

-- The level that comes after another one.
def nextLevel (levelA : Fin (lsmLevels - 1)) : Fin lsmLevels :=
  ⟨levelA.val + 1, Nat.add_lt_of_lt_sub levelA.isLt⟩

def compactionTable (manifest : Manifest Key) (levelA : Nat) :
    Result (Option (CompactionTableRange Key)) := do
  if h : levelA < lsmLevels - 1 then do
    let tableCountVisibleMax ← tableCountMaxForLevel lsmGrowthFactor levelA
    assert (tableCountVisibleMax > 0) "table_count_visible_max > 0"
    let levelARef := manifest.levels ⟨levelA, h.trans (by decide)⟩
    let levelNextRef := manifest.levels (nextLevel ⟨levelA, h⟩)
    assert (levelARef.tableCountVisible ≤ tableCountVisibleMax + 1)
      "level_a_ref.table_count_visible() <= table_count_visible_max + 1"
    if levelARef.tableCountVisible < tableCountVisibleMax then
      return none
    else do
      assert (levelARef.tableCountVisible > 0) "level_a_ref.table_count_visible() > 0"
      let leastOverlap ← levelARef.tableWithLeastOverlap spec levelNextRef snapshotLatest lsmGrowthFactor
      assert (leastOverlap.range.tables.length ≤ lsmGrowthFactor)
        "least_overlap.range.tables.count() <= LSM_GROWTH_FACTOR"
      return some ⟨leastOverlap.table, leastOverlap.range.keyMin, leastOverlap.range.keyMax,
        leastOverlap.range⟩
  else
    abort "level_a < LSM_LEVELS - 1"

end Manifest

end TigerBeetle
