import TigerBeetle.Theorems.ManifestLevel

namespace TigerBeetle

open Fallible

-- The elements of an array, in their order.
def SegmentedArray.toList {Key Value : Type} (spec : SegmentedArraySpec Key Value)
    (array : SegmentedArray Value) : Result (List Value) := do
  return (← (List.range array.nodeCount).mapM (array.nodeElements spec)).flatten

theorem SegmentedArray.Stands.toList {Key Value : Type} [LinearOrder Key]
    {spec : SegmentedArraySpec Key Value} {array : SegmentedArray Value} {list : List Value}
    (h : Stands spec array list) : array.toList spec = .ok list := by
  obtain ⟨contents, r, rfl, _⟩ := h
  unfold SegmentedArray.toList
  rw [r.elements]
  rfl

theorem SegmentedArray.Refines.iteratorFromIndex_ok {Key Value : Type}
    {spec : SegmentedArraySpec Key Value} {array : SegmentedArray Value} {contents : List (List Value)}
    {i : Nat} {direction : Direction} {iterator : Iterator} (r : Refines spec array contents)
    (h : array.iteratorFromIndex spec i direction = .ok iterator) :
    iterator.direction = direction ∧ (At contents iterator i ∨ iterator.done = true) := by
  unfold SegmentedArray.iteratorFromIndex at h
  obtain ⟨_, h⟩ := assert_ok h
  split at h
  case isTrue =>
    obtain ⟨_, h⟩ := assert_ok h
    cases h
    exact ⟨rfl, .inr rfl⟩
  case isFalse hcount =>
    rw [r.holds.len r.bound, ok_bind] at h
    obtain ⟨hi, h⟩ := assert_ok h
    obtain ⟨cursor, before, xs, after, hcur, hloc⟩ := r.cursorForAbsoluteIndex hi
    rw [hcur, ok_bind] at h
    cases h
    exact ⟨rfl, .inl ⟨rfl, before, xs, after, hloc, hloc.lt_length hi⟩⟩

namespace ManifestLevel

open SegmentedArray

variable {Key : Type} [LinearOrder Key] [TableKey Key] {spec : ManifestLevelSpec}
variable {level level' : ManifestLevel Key} {table : TableInfo Key} {tables : List (TableInfo Key)}
variable {i : Nat}

-- The two arrays of a level are parallel.
structure Agrees (spec : ManifestLevelSpec) (level : ManifestLevel Key)
    (tables : List (TableInfo Key)) : Prop where
  keys : Stands spec.keysSpec level.keys (tables.map TableInfo.keyMax)
  tables : Stands spec.tablesSpec level.tables tables

-- The sort key of a table compares with those of others as its greatest key does.
def Comparable (tables : List (TableInfo Key)) (table : TableInfo Key) : Prop :=
  ∀ other ∈ tables, (other.tableSortKey < table.tableSortKey → other.keyMax ≤ table.keyMax) ∧
    (table.tableSortKey ≤ other.tableSortKey → table.keyMax ≤ other.keyMax)

abbrev position (spec : ManifestLevelSpec) (table : TableInfo Key) (tables : List (TableInfo Key)) : Nat :=
  lowerBoundIndex spec.tablesSpec table.tableSortKey tables

def inserted (spec : ManifestLevelSpec) (table : TableInfo Key) (tables : List (TableInfo Key)) :
    List (TableInfo Key) :=
  tables.take (position spec table tables) ++ [table] ++ tables.drop (position spec table tables)

theorem perm_insert {α : Type} {list : List α} {a : α} {n : Nat} :
    (list.take n ++ [a] ++ list.drop n).Perm (a :: list) := by
  rw [List.append_assoc, List.singleton_append]
  exact List.perm_middle.trans (.cons _ (.of_eq (List.take_append_drop ..)))

theorem map_inserted (hk : (tables.map TableInfo.keyMax).Pairwise (· ≤ ·))
    (ht : Ascending spec.tablesSpec tables) (hc : Comparable tables table) :
    (inserted spec table tables).map TableInfo.keyMax =
      (tables.map TableInfo.keyMax).take (lowerBoundIndex spec.keysSpec table.keyMax
        (tables.map TableInfo.keyMax)) ++ [table.keyMax] ++
      (tables.map TableInfo.keyMax).drop (lowerBoundIndex spec.keysSpec table.keyMax
        (tables.map TableInfo.keyMax)) := by
  have hperm : ((inserted spec table tables).map TableInfo.keyMax).Perm
      ((tables.map TableInfo.keyMax).take (lowerBoundIndex spec.keysSpec table.keyMax
        (tables.map TableInfo.keyMax)) ++ [table.keyMax] ++
      (tables.map TableInfo.keyMax).drop (lowerBoundIndex spec.keysSpec table.keyMax
        (tables.map TableInfo.keyMax))) := by
    exact (perm_insert.map TableInfo.keyMax).trans perm_insert.symm
  refine hperm.eq_of_pairwise (fun a b _ _ => le_antisymm) ?_ ?_
  · unfold inserted
    rw [List.append_assoc, List.map_append, List.map_append, List.map_singleton]
    have hsub := List.pairwise_map.mp hk
    refine List.pairwise_append.mpr ⟨List.pairwise_map.mpr (hsub.sublist (List.take_sublist ..)),
      List.pairwise_cons.mpr ⟨fun b hb => ?_,
        List.pairwise_map.mpr (hsub.sublist (List.drop_sublist ..))⟩, fun a ha b hb => ?_⟩
    · obtain ⟨t, ht', rfl⟩ := List.mem_map.mp hb
      exact (hc t (List.mem_of_mem_drop ht')).2
        (@Refines.le_of_mem_drop _ _ spec.tablesSpec _ table.tableSortKey tables ht t ht')
    · obtain ⟨s, hs', rfl⟩ := List.mem_map.mp ha
      have hle : s.keyMax ≤ table.keyMax := (hc s (List.mem_of_mem_take hs')).1
        (@Refines.lt_of_mem_take _ _ spec.tablesSpec _ table.tableSortKey tables s hs')
      obtain rfl | hb := List.mem_cons.mp hb
      · exact hle
      · obtain ⟨t, ht', rfl⟩ := List.mem_map.mp hb
        exact hle.trans ((hc t (List.mem_of_mem_drop ht')).2
          (@Refines.le_of_mem_drop _ _ spec.tablesSpec _ table.tableSortKey tables ht t ht'))
  · exact @Refines.ordered_insert _ _ spec.keysSpec _ _ table.keyMax hk

theorem insertTable_ok [Inhabited Key] (h : level.insertTable spec table = .ok level') :
    ∃ iKeys keys iTables tables visible,
      level.keys.insertElement spec.keysSpec table.keyMax = .ok (iKeys, keys) ∧
      level.tables.insertElement spec.tablesSpec table = .ok (iTables, tables) ∧
      table.visible snapshotLatest = .ok visible ∧
      { level with
        keys
        tables
        tableCountVisible := if visible then level.tableCountVisible + 1 else level.tableCountVisible
        valueCountVisible :=
          if visible then level.valueCountVisible + table.valueCount else level.valueCountVisible
        generation := (level.generation + 1) % 2 ^ 32
        }.keyRangeLatestInclude ⟨table.keyMin, table.keyMax⟩ = .ok level' := by
  unfold insertTable at h
  obtain ⟨_, _, h⟩ := bind_eq_ok.mp h
  obtain ⟨_, h⟩ := assert_ok h
  obtain ⟨_, _, h⟩ := bind_eq_ok.mp h
  obtain ⟨_, _, h⟩ := bind_eq_ok.mp h
  obtain ⟨_, h⟩ := assert_ok h
  obtain ⟨⟨iKeys, keys⟩, hkeys, h⟩ := bind_eq_ok.mp h
  obtain ⟨_, _, h⟩ := bind_eq_ok.mp h
  obtain ⟨_, h⟩ := assert_ok h
  obtain ⟨⟨iTables, tables⟩, htables, h⟩ := bind_eq_ok.mp h
  obtain ⟨_, _, h⟩ := bind_eq_ok.mp h
  obtain ⟨_, h⟩ := assert_ok h
  obtain ⟨visible, hvisible, h⟩ := bind_eq_ok.mp h
  obtain ⟨level₁, hlevel, h⟩ := bind_eq_ok.mp h
  obtain ⟨_, _, h⟩ := bind_eq_ok.mp h
  obtain ⟨_, h⟩ := assert_ok h
  obtain ⟨_, _, h⟩ := bind_eq_ok.mp h
  obtain ⟨_, _, h⟩ := bind_eq_ok.mp h
  obtain ⟨_, h⟩ := assert_ok h
  obtain ⟨_, _, h⟩ := bind_eq_ok.mp h
  obtain ⟨_, _, h⟩ := bind_eq_ok.mp h
  obtain ⟨_, h⟩ := assert_ok h
  obtain ⟨_, _, h⟩ := bind_eq_ok.mp h
  obtain ⟨_, _, h⟩ := bind_eq_ok.mp h
  obtain ⟨_, h⟩ := assert_ok h
  cases h
  exact ⟨iKeys, keys, iTables, tables, visible, hkeys, htables, hvisible, hlevel⟩

-- The hull of two ranges.
def hull (range : Option (KeyRange Key)) (added : KeyRange Key) : KeyRange Key :=
  match range with
  | some range => ⟨min range.keyMin added.keyMin, max range.keyMax added.keyMax⟩
  | none       => added

omit [TableKey Key] in
theorem keyRangeLatestInclude_ok {range : KeyRange Key}
    (h : level.keyRangeLatestInclude range = .ok level') :
    level' = { level with keyRangeLatest := some (hull level.keyRangeLatest range) } := by
  unfold keyRangeLatestInclude at h
  obtain ⟨_, h⟩ := assert_ok h
  obtain ⟨_, h⟩ := assert_ok h
  cases h
  cases level.keyRangeLatest with
  | none => rfl
  | some current =>
    unfold hull
    dsimp only
    congr 3
    · rcases lt_or_ge range.keyMin current.keyMin with hlt | hge
      · rw [if_pos hlt, min_eq_right hlt.le]
      · rw [if_neg (not_lt.mpr hge), min_eq_left hge]
    · rcases lt_or_ge current.keyMax range.keyMax with hlt | hge
      · rw [if_pos hlt, max_eq_right hlt.le]
      · rw [if_neg (not_lt.mpr hge), max_eq_left hge]

-- The range is left alone but at the ends that it has in common with the excluded one.
structure Excluded (spec : ManifestLevelSpec) (level : ManifestLevel Key)
    (current range after : KeyRange Key) : Prop where
  keyMax : if range.keyMax = current.keyMax then
      ∃ first, level.firstVisible spec .descending = .ok first ∧ after.keyMax = first.keyMax
    else
      after.keyMax = current.keyMax
  keyMin : if range.keyMin = current.keyMin then
      ∃ first, level.firstVisible spec .ascending = .ok first ∧ after.keyMin = first.keyMin
    else
      after.keyMin = current.keyMin

theorem keyRangeLatestExclude_ok {range : KeyRange Key}
    (h : level.keyRangeLatestExclude spec range = .ok level') :
    ∃ current, level.keyRangeLatest = some current ∧
      (level.tableCountVisible = 0 ∧ level' = { level with keyRangeLatest := none } ∨
        level.tableCountVisible ≠ 0 ∧ ∃ after, Excluded spec level current range after ∧
          level' = { level with keyRangeLatest := some after }) := by
  unfold keyRangeLatestExclude at h
  split at h
  case h_1 => cases h
  case h_2 current hcurrent =>
    refine ⟨current, hcurrent, ?_⟩
    by_cases hzero : level.tableCountVisible = 0
    case pos =>
      rw [if_pos hzero] at h
      cases h
      exact .inl ⟨hzero, rfl⟩
    case neg =>
      rw [if_neg hzero] at h
      refine .inr ⟨hzero, ?_⟩
      by_cases hmax : range.keyMax = current.keyMax <;> by_cases hmin : range.keyMin = current.keyMin
      · rw [if_pos hmax] at h
        obtain ⟨last, hlast, h⟩ := bind_eq_ok.mp h
        obtain ⟨_, heq, h⟩ := bind_eq_ok.mp h
        cases heq
        dsimp only at h
        rw [if_pos hmin] at h
        obtain ⟨first, hfirst, h⟩ := bind_eq_ok.mp h
        obtain ⟨_, heq, h⟩ := bind_eq_ok.mp h
        cases heq
        obtain ⟨_, h⟩ := assert_ok h
        cases h
        exact ⟨_, ⟨by rw [if_pos hmax]; exact ⟨last, hlast, rfl⟩,
          by rw [if_pos hmin]; exact ⟨first, hfirst, rfl⟩⟩, rfl⟩
      · rw [if_pos hmax] at h
        obtain ⟨last, hlast, h⟩ := bind_eq_ok.mp h
        obtain ⟨_, heq, h⟩ := bind_eq_ok.mp h
        cases heq
        dsimp only at h
        rw [if_neg hmin] at h
        obtain ⟨_, heq, h⟩ := bind_eq_ok.mp h
        cases heq
        obtain ⟨_, h⟩ := assert_ok h
        cases h
        exact ⟨_, ⟨by rw [if_pos hmax]; exact ⟨last, hlast, rfl⟩, by rw [if_neg hmin]⟩, rfl⟩
      · rw [if_neg hmax] at h
        obtain ⟨_, heq, h⟩ := bind_eq_ok.mp h
        cases heq
        dsimp only at h
        rw [if_pos hmin] at h
        obtain ⟨first, hfirst, h⟩ := bind_eq_ok.mp h
        obtain ⟨_, heq, h⟩ := bind_eq_ok.mp h
        cases heq
        obtain ⟨_, h⟩ := assert_ok h
        cases h
        exact ⟨_, ⟨by rw [if_neg hmax], by rw [if_pos hmin]; exact ⟨first, hfirst, rfl⟩⟩, rfl⟩
      · rw [if_neg hmax] at h
        obtain ⟨_, heq, h⟩ := bind_eq_ok.mp h
        cases heq
        dsimp only at h
        rw [if_neg hmin] at h
        obtain ⟨_, heq, h⟩ := bind_eq_ok.mp h
        cases heq
        obtain ⟨_, h⟩ := assert_ok h
        cases h
        exact ⟨_, ⟨by rw [if_neg hmax], by rw [if_neg hmin]⟩, rfl⟩

theorem uncount_ok (h : level.uncount spec table = .ok level') :
    1 ≤ level.tableCountVisible ∧ table.valueCount ≤ level.valueCountVisible ∧
      { level with
        tableCountVisible := level.tableCountVisible - 1
        valueCountVisible := level.valueCountVisible - table.valueCount
        }.keyRangeLatestExclude spec ⟨table.keyMin, table.keyMax⟩ = .ok level' := by
  unfold uncount at h
  obtain ⟨hcount, h⟩ := assert_ok h
  obtain ⟨hvalues, h⟩ := assert_ok h
  exact ⟨hcount, hvalues, h⟩

theorem uncount_arrays (h : level.uncount spec table = .ok level') :
    level'.keys = level.keys ∧ level'.tables = level.tables := by
  obtain ⟨_, _, h⟩ := uncount_ok h
  obtain ⟨_, _, ⟨_, rfl⟩ | ⟨_, _, _, rfl⟩⟩ := keyRangeLatestExclude_ok h
  · exact ⟨rfl, rfl⟩
  · exact ⟨rfl, rfl⟩

omit [LinearOrder Key] in
theorem findLive_ok {found : TableInfo Key} (ha : Stands spec.tablesSpec level.tables tables)
    (h : level.findLive spec table = .ok (some (i, found))) : tables[i]? = some found := by
  obtain ⟨cursor, hsearch, hindex⟩ := ha.search rfl table.tableSortKey
  unfold findLive at h
  rw [hsearch, ok_bind, hindex, ok_bind, ha.len, ok_bind] at h
  split at h
  case isTrue => cases h
  case isFalse hne =>
    have hlt : lowerBoundIndex spec.tablesSpec table.tableSortKey tables < tables.length :=
      lt_of_le_of_ne Refines.lowerBoundIndex_le hne
    have hv := List.getElem?_eq_getElem hlt
    rw [ha.elementAtCursor hv hindex, ok_bind] at h
    split at h
    case isTrue =>
      cases h
      exact hv
    case isFalse => cases h

-- A table that is contained is the one that is found.
theorem contains_ok (h : level.contains spec table = .ok true) :
    ∃ i, level.findLive spec table = .ok (some (i, table)) := by
  unfold contains find at h
  obtain ⟨found?, hfind, h⟩ := bind_eq_ok.mp h
  obtain ⟨live?, hlive, hfind⟩ := bind_eq_ok.mp hfind
  cases live? with
  | none =>
    cases hfind
    cases h
  | some live =>
    cases hfind
    obtain ⟨heq, h⟩ := assert_ok h
    have hexact := Except.ok.inj h
    rw [heq] at hexact
    obtain ⟨i, found⟩ := live
    obtain rfl : table = found := of_decide_eq_true hexact
    exact ⟨i, hlive⟩

variable {snapshot : Nat}

theorem setSnapshotMax_ok {tableRef : TableInfoReference Key}
    (h : level.setSnapshotMax spec snapshot tableRef = .ok level') :
    snapshot < snapshotLatest ∧ tableRef.tableInfo.snapshotMax = 2 ^ 64 - 1 ∧
      ∃ i tables', level.findLive spec tableRef.tableInfo = .ok (some (i, tableRef.tableInfo)) ∧
        level.tables.elementMut spec.tablesSpec i (fun element =>
          { element with snapshotMax := snapshot }) = .ok tables' ∧
        { level with tables := tables' }.uncount spec tableRef.tableInfo = .ok level' := by
  unfold setSnapshotMax at h
  obtain ⟨_, h⟩ := assert_ok h
  obtain ⟨contained, hcontains, h⟩ := bind_eq_ok.mp h
  obtain ⟨htrue, h⟩ := assert_ok h
  rw [htrue] at hcontains
  obtain ⟨hsnapshot, h⟩ := assert_ok h
  obtain ⟨hmax, h⟩ := assert_ok h
  dsimp only at h
  obtain ⟨_, h⟩ := assert_ok h
  obtain ⟨i, hlive⟩ := contains_ok hcontains
  rw [hlive, ok_bind] at h
  obtain ⟨_, h⟩ := assert_ok h
  obtain ⟨tables', htables, h⟩ := bind_eq_ok.mp h
  exact ⟨hsnapshot, hmax, i, tables', hlive, htables, h⟩

theorem removeIndex_ok {contents : List (List (TableInfo Key))} {iterator : Iterator} {k : Nat}
    (fuel : Nat) (r : Refines spec.tablesSpec level.tables contents)
    (hat : At contents iterator i ∨ iterator.done = true) (hd : iterator.direction = .ascending)
    (h : level.removeIndex spec table fuel i iterator = .ok k) :
    contents.flatten[k]? = some table := by
  induction fuel generalizing iterator i with
  | zero => cases h
  | succ fuel ih =>
    unfold removeIndex at h
    obtain hat | hdone := hat
    case inl =>
      obtain ⟨value, iterator', hn, hv, hd', hnext⟩ := r.next_ascending hat hd
      rw [hn, ok_bind] at h
      dsimp only at h
      split at h
      case isTrue heq =>
        cases h
        exact heq ▸ hv
      case isFalse =>
        obtain ⟨_, h⟩ := assert_ok h
        obtain ⟨_, h⟩ := assert_ok h
        refine ih ?_ hd' h
        split at hnext
        case isTrue => exact .inr hnext
        case isFalse => exact .inl hnext
    case inr =>
      unfold Iterator.next at h
      rw [if_pos hdone] at h
      cases h

theorem removeTable_ok (ha : Stands spec.tablesSpec level.tables tables)
    (h : level.removeTable spec table = .ok level') :
    ∃ i keys' tables' visible, tables[i]? = some table ∧
      level.keys.removeElements spec.keysSpec i 1 = .ok keys' ∧
      level.tables.removeElements spec.tablesSpec i 1 = .ok tables' ∧
      table.visible snapshotLatest = .ok visible ∧
      (if visible then
        { level with
          keys := keys'
          tables := tables'
          generation := (level.generation + 1) % 2 ^ 32 }.uncount spec table
      else
        .ok { level with
          keys := keys'
          tables := tables'
          generation := (level.generation + 1) % 2 ^ 32 }) = .ok level' := by
  unfold removeTable at h
  obtain ⟨_, _, h⟩ := bind_eq_ok.mp h
  obtain ⟨_, _, h⟩ := bind_eq_ok.mp h
  obtain ⟨_, h⟩ := assert_ok h
  obtain ⟨_, h⟩ := assert_ok h
  obtain ⟨start, _, h⟩ := bind_eq_ok.mp h
  cases start with
  | none => cases h
  | some cursorStart =>
    obtain ⟨i₀, _, h⟩ := bind_eq_ok.mp h
    obtain ⟨iterator, hiterator, h⟩ := bind_eq_ok.mp h
    obtain ⟨_, _, h⟩ := bind_eq_ok.mp h
    obtain ⟨i, hindex, h⟩ := bind_eq_ok.mp h
    obtain ⟨keys', hkeys, h⟩ := bind_eq_ok.mp h
    obtain ⟨tables', htables, h⟩ := bind_eq_ok.mp h
    obtain ⟨_, _, h⟩ := bind_eq_ok.mp h
    obtain ⟨_, _, h⟩ := bind_eq_ok.mp h
    obtain ⟨_, h⟩ := assert_ok h
    obtain ⟨visible, hvisible, h⟩ := bind_eq_ok.mp h
    refine ⟨i, keys', tables', visible, ?_, hkeys, htables, hvisible, h⟩
    obtain ⟨contents, r, rfl, _⟩ := ha
    obtain ⟨hd, hat⟩ := r.iteratorFromIndex_ok hiterator
    exact removeIndex_ok _ r hat hd hindex

theorem new_agrees (h : ManifestLevel.new spec = .ok level) : Agrees spec level [] := by
  unfold ManifestLevel.new at h
  obtain ⟨keys, hkeys, h⟩ := bind_eq_ok.mp h
  obtain ⟨tables, htables, h⟩ := bind_eq_ok.mp h
  cases h
  exact ⟨.new hkeys, .new htables⟩

theorem Agrees.sorted (ha : Agrees spec level tables) :
    (tables.map TableInfo.keyMax).Pairwise (· ≤ ·) := by
  obtain ⟨_, _, _, ho⟩ := ha.keys
  exact ho rfl

theorem Agrees.ascending (ha : Agrees spec level tables) : Ascending spec.tablesSpec tables := by
  obtain ⟨_, _, _, ho⟩ := ha.tables
  exact ho rfl

theorem Agrees.removeTable (ha : Agrees spec level tables)
    (h : level.removeTable spec table = .ok level') :
    ∃ i keys' tables' generation visible, tables[i]? = some table ∧
      table.visible snapshotLatest = .ok visible ∧
      Agrees spec { level with keys := keys', tables := tables', generation }
        (tables.take i ++ tables.drop (i + 1)) ∧
      (if visible then
        { level with keys := keys', tables := tables', generation }.uncount spec table
      else
        .ok { level with keys := keys', tables := tables', generation }) = .ok level' := by
  obtain ⟨i, keys', tables', visible, hv, hkeys, htables, hvisible, h⟩ := removeTable_ok ha.tables h
  have hkeys' := (ha.keys.removeElements hkeys).2
  rw [← List.map_take, ← List.map_drop, ← List.map_append] at hkeys'
  exact ⟨i, keys', tables', _, visible, hv, hvisible, ⟨hkeys', (ha.tables.removeElements htables).2⟩, h⟩

omit [LinearOrder Key] in
theorem keyFromValue_update : spec.tablesSpec.keyFromValue { table with snapshotMax := snapshot } =
      spec.tablesSpec.keyFromValue table := by
  simp only [ManifestLevelSpec.tablesSpec, TableInfo.tableSortKey]

theorem Agrees.of_uncount (ha : Agrees spec level tables) (h : level.uncount spec table = .ok level') :
    Agrees spec level' tables := by
  obtain ⟨hkeys, htables⟩ := uncount_arrays h
  exact ⟨by rw [hkeys]; exact ha.keys, by rw [htables]; exact ha.tables⟩

theorem Agrees.setSnapshotMax {tableRef : TableInfoReference Key}
    (ha : Agrees spec level tables) (h : level.setSnapshotMax spec snapshot tableRef = .ok level') :
    ∃ i tables', tables[i]? = some tableRef.tableInfo ∧
      Agrees spec { level with tables := tables' }
        (tables.set i { tableRef.tableInfo with snapshotMax := snapshot }) ∧
      { level with tables := tables' }.uncount spec tableRef.tableInfo = .ok level' := by
  obtain ⟨i, tables', hlive, htables, h⟩ := (setSnapshotMax_ok h).2.2
  have hv := findLive_ok ha.tables hlive
  have hstands := @Stands.elementMut _ _ _ _ _ _ _ _ _ ha.tables
    (fun element => { element with snapshotMax := snapshot }) hv keyFromValue_update htables
  refine ⟨i, tables', hv, ⟨?_, hstands⟩, h⟩
  have hsame : (tables.map TableInfo.keyMax).set i tableRef.tableInfo.keyMax =
      tables.map TableInfo.keyMax := by
    refine List.ext_getElem? fun j => ?_
    rw [List.getElem?_set]
    split
    case isTrue heq =>
      subst heq
      rw [if_pos (by rw [List.length_map]; exact (List.getElem?_eq_some_iff.mp hv).1),
        List.getElem?_map, hv]
      rfl
    case isFalse => rfl
  rw [List.map_set]
  show Stands spec.keysSpec level.keys
    ((tables.map TableInfo.keyMax).set i tableRef.tableInfo.keyMax)
  rw [hsame]
  exact ha.keys

-- The arrays are parallel, in the order of the keys, and a search in the keys finds the first table
-- that ends at a key or behind it.
structure Parallel (spec : ManifestLevelSpec) (level : ManifestLevel Key)
    (list : List (TableInfo Key)) : Prop where
  tables : level.tables.toList spec.tablesSpec = .ok list
  keys : level.keys.toList spec.keysSpec = .ok (list.map TableInfo.keyMax)
  sorted : list.Pairwise fun a b => a.keyMax ≤ b.keyMax
  lookup : ∀ key, ∃ cursor, level.keys.search spec.keysSpec key = .ok cursor ∧
    level.keys.absoluteIndexForCursor spec.keysSpec cursor =
      .ok (list.findIdx fun table => key ≤ table.keyMax)

theorem Agrees.parallel (ha : Agrees spec level tables) : Parallel spec level tables := by
  refine ⟨ha.tables.toList, ha.keys.toList, List.pairwise_map.mp ha.sorted, fun key => ?_⟩
  obtain ⟨cursor, hsearch, hindex⟩ := ha.keys.search rfl key
  refine ⟨cursor, hsearch, hindex.trans ?_⟩
  unfold lowerBoundIndex
  rw [List.findIdx_map]
  rfl

section Runs

variable [Inhabited Key]

-- The levels that a sequence of operations leads to. What is inserted and updated is what the callers
-- are to see to.
inductive Reaches (spec : ManifestLevelSpec)
    (Inserts : List (TableInfo Key) → ManifestLevel Key → TableInfo Key → Prop)
    (Updates : Nat → TableInfo Key → Prop) : ManifestLevel Key → Prop
  | new {level : ManifestLevel Key} : ManifestLevel.new spec = .ok level →
    Reaches spec Inserts Updates level
  | insertTable {level level' : ManifestLevel Key} {table : TableInfo Key}
    {tables : List (TableInfo Key)} :
    Reaches spec Inserts Updates level → level.tables.toList spec.tablesSpec = .ok tables →
    tables.length < spec.tableCountMaxTree → Inserts tables level table →
    level.insertTable spec table = .ok level' → Reaches spec Inserts Updates level'
  | setSnapshotMax {level level' : ManifestLevel Key} {snapshot : Nat}
    {tableRef : TableInfoReference Key} :
    Reaches spec Inserts Updates level → Updates snapshot tableRef.tableInfo →
    level.setSnapshotMax spec snapshot tableRef = .ok level' → Reaches spec Inserts Updates level'
  | removeTable {level level' : ManifestLevel Key} {table : TableInfo Key} :
    Reaches spec Inserts Updates level → level.removeTable spec table = .ok level' →
    Reaches spec Inserts Updates level'

theorem Agrees.insertTable (ha : Agrees spec level tables) (hlt : tables.length < spec.tableCountMaxTree)
    (hc : Comparable tables table) (h : level.insertTable spec table = .ok level') :
    Agrees spec level' (inserted spec table tables) := by
  obtain ⟨iKeys, keys, iTables, tables', visible, hkeys, htables, hvisible, h⟩ := insertTable_ok h
  obtain rfl := keyRangeLatestInclude_ok h
  obtain ⟨keys', hkeys', hstands⟩ := ha.keys.insertElement rfl
    (by rw [List.length_map]; exact hlt) table.keyMax
  cases hkeys.symm.trans hkeys'
  obtain ⟨tables'', htables', hstands'⟩ := ha.tables.insertElement rfl hlt table
  cases htables.symm.trans htables'
  refine ⟨?_, hstands'⟩
  rw [map_inserted ha.sorted ha.ascending hc]
  exact hstands

theorem Reaches.agrees {Inserts : List (TableInfo Key) → ManifestLevel Key → TableInfo Key → Prop}
    {Updates : Nat → TableInfo Key → Prop}
    (hi : ∀ tables level table, Inserts tables level table → Comparable tables table)
    (h : Reaches spec Inserts Updates level) : ∃ tables, Agrees spec level tables := by
  induction h with
  | new hnew => exact ⟨[], new_agrees hnew⟩
  | insertTable _ hlist hlt hinserts hop ih =>
    obtain ⟨tables, ha⟩ := ih
    cases hlist.symm.trans ha.tables.toList
    exact ⟨_, ha.insertTable hlt (hi _ _ _ hinserts) hop⟩
  | setSnapshotMax _ _ hop ih =>
    obtain ⟨tables, ha⟩ := ih
    obtain ⟨_, _, _, ha', hop'⟩ := ha.setSnapshotMax hop
    exact ⟨_, ha'.of_uncount hop'⟩
  | removeTable _ hop ih =>
    obtain ⟨tables, ha⟩ := ih
    obtain ⟨_, _, _, _, _, _, _, ha', hop'⟩ := ha.removeTable hop
    split at hop'
    case isTrue => exact ⟨_, ha'.of_uncount hop'⟩
    case isFalse =>
      cases hop'
      exact ⟨_, ha'⟩

-- In every run whose insertions are comparable the two arrays stay parallel.
theorem parallel_of_comparable
    (h : Reaches spec (fun tables _ table => Comparable tables table) (fun _ _ => True) level) :
    ∃ tables, Parallel spec level tables := by
  obtain ⟨tables, ha⟩ := h.agrees fun _ _ _ hc => hc
  exact ⟨tables, ha.parallel⟩

-- A table whose keys no other table covers that is visible at the same time.
def Apart (tables : List (TableInfo Key)) (table : TableInfo Key) : Prop :=
  table.keyMin ≤ table.keyMax ∧ ∀ other ∈ tables,
    max table.snapshotMin other.snapshotMin ≤ min table.snapshotMax other.snapshotMax →
    table.keyMax < other.keyMin ∨ other.keyMax < table.keyMin

end Runs

theorem le_of_packed_le {a b s t n : Nat} (ht : t < n) (h : a * n + s ≤ b * n + t) : a ≤ b := by
  by_contra hlt
  have hmul : (b + 1) * n ≤ a * n := Nat.mul_le_mul_right n (by omega)
  rw [Nat.add_mul, Nat.one_mul] at hmul
  omega

-- The sort key of a table with a 64-bit key is all of it.
theorem comparable_u64 {tables : List (TableInfo (Fin (2 ^ 64)))} {table : TableInfo (Fin (2 ^ 64))}
    (ht : table.snapshotMin < 2 ^ 64) (hall : ∀ other ∈ tables, other.snapshotMin < 2 ^ 64) :
    Comparable tables table := by
  have hkey : ∀ t : TableInfo (Fin (2 ^ 64)), t.snapshotMin < 2 ^ 64 →
      t.tableSortKey = t.keyMax.val * 2 ^ 64 + t.snapshotMin := fun t hlt => by
    rw [TableInfo.tableSortKey, ← Nat.shiftLeft_add_eq_or_of_lt hlt, Nat.shiftLeft_eq]
    rfl
  intro other hm
  rw [hkey _ ht, hkey _ (hall other hm)]
  exact ⟨fun hlt => Fin.le_def.mpr (le_of_packed_le ht hlt.le),
    fun hle => Fin.le_def.mpr (le_of_packed_le (hall other hm) hle)⟩

section Drift

theorem neZero_word : NeZero (2 ^ 64) :=
  ⟨by decide⟩

theorem neZero_wide : NeZero (2 ^ 128) :=
  ⟨by decide⟩

theorem word_lt_wide : 2 ^ 64 < 2 ^ 128 := by
  decide

attribute [local instance] neZero_word neZero_wide

def driftSpec : ManifestLevelSpec where
  tableCountMaxTree := 8
  keysNodeCapacity := 4
  tablesNodeCapacity := 4

-- A table of one key.
def single (id : Nat) (key : Fin (2 ^ 128)) : TableInfo (Fin (2 ^ 128)) where
  checksum := id
  address := id
  snapshotMin := 1
  snapshotMax := 2 ^ 64 - 1
  keyMin := key
  keyMax := key
  valueCount := 1

def drift : Result (ManifestLevel (Fin (2 ^ 128))) := do
  let level ← new driftSpec
  let level ← level.insertTable driftSpec (single 1 ⟨2 ^ 64, word_lt_wide⟩)
  level.insertTable driftSpec (single 2 1)

def listsOf (result : Result (ManifestLevel (Fin (2 ^ 128)))) :
    Result (List (Fin (2 ^ 128)) × List (TableInfo (Fin (2 ^ 128)))) := do
  let level ← result
  return (← level.keys.toList driftSpec.keysSpec, ← level.tables.toList driftSpec.tablesSpec)

theorem drift_lists : listsOf drift = .ok ([1, ⟨2 ^ 64, by decide⟩],
    [single 1 ⟨2 ^ 64, by decide⟩, single 2 1]) := by
  decide

theorem apart_single : Apart [single 1 ⟨2 ^ 64, by decide⟩] (single 2 1) := by
  refine ⟨le_refl _, fun other hm _ => .inl ?_⟩
  rw [List.mem_singleton.mp hm]
  decide

-- Two tables of which the one with the smaller key has the greater low half.
theorem not_parallel : ¬∀ (spec : ManifestLevelSpec) (level : ManifestLevel (Fin (2 ^ 128))),
    Reaches spec (fun tables _ table => Apart tables table) (fun _ _ => True) level →
    ∃ tables, Parallel spec level tables := by
  intro hclaim
  have hlists := drift_lists
  obtain ⟨level₂, hdrift, hlists⟩ := bind_eq_ok.mp hlists
  obtain ⟨level₀, hnew, hdrift'⟩ := bind_eq_ok.mp hdrift
  obtain ⟨level₁, hfirst, hsecond⟩ := bind_eq_ok.mp hdrift'
  have hapart : Apart [] (single 1 ⟨2 ^ 64, by decide⟩) := ⟨le_refl _, nofun⟩
  have hreaches₁ : Reaches driftSpec (fun tables _ table => Apart tables table) (fun _ _ => True)
      level₁ := .insertTable (.new hnew) (new_agrees hnew).tables.toList (by decide) hapart hfirst
  have hagrees₁ := (new_agrees hnew).insertTable (by decide) nofun hfirst
  have hreaches₂ : Reaches driftSpec (fun tables _ table => Apart tables table) (fun _ _ => True)
      level₂ := .insertTable hreaches₁ hagrees₁.tables.toList (by decide) apart_single hsecond
  obtain ⟨tables, hp⟩ := hclaim driftSpec level₂ hreaches₂
  rw [hp.keys, ok_bind, hp.tables, ok_bind] at hlists
  have heq := Prod.ext_iff.mp (Except.ok.inj hlists)
  have hkeys : tables.map TableInfo.keyMax = [1, ⟨2 ^ 64, by decide⟩] := heq.1
  have htables : tables = [single 1 ⟨2 ^ 64, by decide⟩, single 2 1] := heq.2
  rw [htables] at hkeys
  exact absurd hkeys (by decide)

def tidy : Result (ManifestLevel (Fin (2 ^ 128))) := do
  let level ← new driftSpec
  let level ← level.insertTable driftSpec (single 1 5)
  level.insertTable driftSpec (single 2 3)

theorem tidy_lists : listsOf tidy = .ok ([3, 5], [single 2 3, single 1 5]) := by
  decide

theorem comparable_single : Comparable [single 1 5] (single 2 3) := by
  intro other hm
  rw [List.mem_singleton.mp hm]
  decide

theorem parallel_of_comparable_tidy :
    ∃ level, tidy = .ok level ∧ ∃ tables, Parallel driftSpec level tables := by
  obtain ⟨level₂, htidy, _⟩ := bind_eq_ok.mp tidy_lists
  obtain ⟨level₀, hnew, htidy'⟩ := bind_eq_ok.mp htidy
  obtain ⟨level₁, hfirst, hsecond⟩ := bind_eq_ok.mp htidy'
  have hagrees₁ := (new_agrees hnew).insertTable (by decide) nofun hfirst
  exact ⟨level₂, htidy, parallel_of_comparable (.insertTable
    (.insertTable (.new hnew) (new_agrees hnew).tables.toList (by decide) nofun hfirst)
    hagrees₁.tables.toList (by decide) comparable_single hsecond)⟩

end Drift

end ManifestLevel

end TigerBeetle
