import TigerBeetle.Theorems.Overlap

namespace TigerBeetle

open Fallible

namespace ManifestLevel

open SegmentedArray

variable {Key : Type} [LinearOrder Key] [TableKey Key] {spec : ManifestLevelSpec}
variable {level level' : ManifestLevel Key} {table : TableInfo Key} {tables : List (TableInfo Key)}
variable {i snapshot : Nat}

-- A table that is not empty, with ordered keys and apart from those that are visible now, and whose sort
-- key compares with theirs as its greatest key does.
structure Separate (tables : List (TableInfo Key)) (table : TableInfo Key) : Prop where
  comparable : Comparable tables table
  ordered : table.keyMin ≤ table.keyMax
  apart : ∀ other ∈ tables, LiveApart table other
  filled : 0 < table.valueCount

-- The tables of a level, of which the visible ones are counted.
structure Tallied (spec : ManifestLevelSpec) (level : ManifestLevel Key) (tables : List (TableInfo Key)) :
    Prop where
  agrees : Agrees spec level tables
  count : level.tableCountVisible = liveCount tables
  checked : ∀ table ∈ tables, table.address ≠ 0 ∧ table.snapshotMin ≤ table.snapshotMax
  ordered : ∀ table ∈ tables, table.keyMin ≤ table.keyMax

-- What the operations keep.
structure Kept (spec : ManifestLevelSpec) (level : ManifestLevel Key) (tables : List (TableInfo Key)) :
    Prop where
  agrees : Agrees spec level tables
  disjoint : Disjoint tables
  count : level.tableCountVisible = liveCount tables
  checked : ∀ table ∈ tables, table.address ≠ 0 ∧ table.snapshotMin ≤ table.snapshotMax
  filled : ∀ table ∈ tables, 0 < table.valueCount

omit [LinearOrder Key] [TableKey Key] in
theorem visible_checked {visible : Bool} (h : table.visible snapshot = .ok visible) :
    table.address ≠ 0 ∧ table.snapshotMin ≤ table.snapshotMax := by
  unfold TableInfo.visible at h
  obtain ⟨haddress, h⟩ := assert_ok h
  obtain ⟨hsnapshots, _⟩ := assert_ok h
  exact ⟨haddress, hsnapshots⟩

theorem uncount_count (h : level.uncount spec table = .ok level') :
    level'.tableCountVisible + 1 = level.tableCountVisible := by
  obtain ⟨hpos, _, h⟩ := uncount_ok h
  obtain ⟨_, _, ⟨_, rfl⟩ | ⟨_, _, _, rfl⟩⟩ := keyRangeLatestExclude_ok h
  · exact Nat.sub_add_cancel hpos
  · exact Nat.sub_add_cancel hpos

namespace Tallied

theorem new (h : ManifestLevel.new spec = .ok level) : Tallied spec level [] := by
  refine ⟨new_agrees h, ?_, nofun, nofun⟩
  unfold ManifestLevel.new at h
  obtain ⟨_, _, h⟩ := bind_eq_ok.mp h
  obtain ⟨_, _, h⟩ := bind_eq_ok.mp h
  cases h
  rfl

theorem insertTable [Inhabited Key] (hk : Tallied spec level tables)
    (hlt : tables.length < spec.tableCountMaxTree) (hc : Comparable tables table)
    (hordered : table.keyMin ≤ table.keyMax) (h : level.insertTable spec table = .ok level') :
    Tallied spec level' (inserted spec table tables) := by
  have hagrees := hk.agrees.insertTable hlt hc h
  obtain ⟨_, keys, _, tables', visible, _, _, hvisible, h⟩ := insertTable_ok h
  obtain rfl := keyRangeLatestInclude_ok h
  obtain rfl := visible_ok hvisible
  have hperm : (inserted spec table tables).Perm (table :: tables) := perm_insert
  have hmem : ∀ {P : TableInfo Key → Prop}, P table → (∀ t ∈ tables, P t) →
      ∀ t ∈ inserted spec table tables, P t := fun hp hall t ht' =>
    List.forall_mem_cons.mpr ⟨hp, hall⟩ t (hperm.subset ht')
  refine ⟨hagrees, ?_, hmem (visible_checked hvisible) hk.checked, hmem hordered hk.ordered⟩
  rw [liveCount_perm hperm, ← hk.count]

theorem setSnapshotMax {tableRef : TableInfoReference Key} (hk : Tallied spec level tables)
    (hu : Updatable snapshot tableRef.tableInfo)
    (h : level.setSnapshotMax spec snapshot tableRef = .ok level') :
    ∃ i, tables[i]? = some tableRef.tableInfo ∧
      Tallied spec level' (tables.set i { tableRef.tableInfo with snapshotMax := snapshot }) := by
  obtain ⟨i, tables', hv, ha', hop⟩ := hk.agrees.setSnapshotMax h
  have hok := setSnapshotMax_ok h
  have hlive := live_of_updatable hu hok.1 hok.2.1
  have hdead := @dead_of_updated _ tableRef.tableInfo snapshot hok.1
  have hbefore := perm_eraseIdx hv
  have hafter := List.set_perm_cons_eraseIdx (List.getElem?_eq_some_iff.mp hv).1
    { tableRef.tableInfo with snapshotMax := snapshot }
  have hin := List.mem_of_getElem? hv
  have hmem : ∀ {P : TableInfo Key → Prop}, P { tableRef.tableInfo with snapshotMax := snapshot } →
      (∀ t ∈ tables, P t) →
      ∀ t ∈ tables.set i { tableRef.tableInfo with snapshotMax := snapshot }, P t :=
    fun hp hall t ht => (List.mem_or_eq_of_mem_set ht).elim (hall t) fun heq => heq ▸ hp
  have haddress := (hk.checked _ hin).1
  have hordered := hk.ordered _ hin
  refine ⟨i, hv, ha'.of_uncount hop, ?_, hmem ⟨haddress, hu⟩ hk.checked, hmem hordered hk.ordered⟩
  have hcount := uncount_count hop
  have hk' := hk.count
  rw [liveCount_perm hbefore, if_pos hlive] at hk'
  rw [liveCount_perm hafter, hdead, if_neg Bool.false_ne_true]
  exact Nat.succ.inj (hcount.trans hk')

theorem removeTable (hk : Tallied spec level tables) (h : level.removeTable spec table = .ok level') :
    ∃ i, tables[i]? = some table ∧ Tallied spec level' (tables.take i ++ tables.drop (i + 1)) := by
  obtain ⟨i, keys', tables', generation, visible, hv, hvisible, ha', hop⟩ := hk.agrees.removeTable h
  obtain rfl := visible_ok hvisible
  have hbefore := erase_perm hv
  have hmem : ∀ {P : TableInfo Key → Prop}, (∀ t ∈ tables, P t) →
      ∀ t ∈ tables.take i ++ tables.drop (i + 1), P t := fun hall t ht =>
    hall t (hbefore.mem_iff.mpr (List.mem_cons_of_mem _ ht))
  have hcount := hk.count
  rw [liveCount_perm hbefore] at hcount
  by_cases hlive : live table = true
  · rw [if_pos hlive] at hop hcount
    exact ⟨i, hv, ha'.of_uncount hop, Nat.succ.inj ((uncount_count hop).trans hcount), hmem hk.checked,
      hmem hk.ordered⟩
  · rw [if_neg hlive] at hop hcount
    cases hop
    exact ⟨i, hv, ha', hcount, hmem hk.checked, hmem hk.ordered⟩

end Tallied

-- A table whose sort key compares with those of the others as its greatest key does, with ordered keys.
structure Sortable (tables : List (TableInfo Key)) (table : TableInfo Key) : Prop where
  comparable : Comparable tables table
  ordered : table.keyMin ≤ table.keyMax

-- Every run whose insertions are sortable is tallied.
theorem tallied_of_sortable [Inhabited Key]
    (h : Reaches spec (fun tables _ table => Sortable tables table) Updatable level) :
    ∃ tables, Tallied spec level tables := by
  induction h with
  | new hnew => exact ⟨[], .new hnew⟩
  | insertTable _ hlist hlt hsortable hop ih =>
    obtain ⟨tables, hk⟩ := ih
    cases hlist.symm.trans hk.agrees.tables.toList
    exact ⟨_, hk.insertTable hlt hsortable.comparable hsortable.ordered hop⟩
  | setSnapshotMax _ hupdatable hop ih =>
    obtain ⟨tables, hk⟩ := ih
    obtain ⟨_, _, hk'⟩ := hk.setSnapshotMax hupdatable hop
    exact ⟨_, hk'⟩
  | removeTable _ hop ih =>
    obtain ⟨tables, hk⟩ := ih
    obtain ⟨_, _, hk'⟩ := hk.removeTable hop
    exact ⟨_, hk'⟩

theorem Tallied.stocked (hk : Tallied spec level tables) (hd : DisjointAt snapshotLatest tables) :
    Stocked spec level tables where
  arrays := hk.agrees
  sound := fun table ht => ⟨(hk.checked table ht).1, (hk.checked table ht).2, hk.ordered table ht⟩
  disjoint := hd

namespace Kept

theorem tallied (hk : Kept spec level tables) : Tallied spec level tables :=
  ⟨hk.agrees, hk.count, hk.checked, hk.disjoint.ordered⟩

theorem new (h : ManifestLevel.new spec = .ok level) : Kept spec level [] :=
  have hk := Tallied.new h
  ⟨hk.agrees, ⟨nofun, .nil⟩, hk.count, nofun, nofun⟩

theorem insertTable [Inhabited Key] (hk : Kept spec level tables)
    (hlt : tables.length < spec.tableCountMaxTree) (ht : Separate tables table)
    (h : level.insertTable spec table = .ok level') :
    Kept spec level' (inserted spec table tables) := by
  have hk' := hk.tallied.insertTable hlt ht.comparable ht.ordered h
  have hperm : (inserted spec table tables).Perm (table :: tables) := perm_insert
  refine ⟨hk'.agrees, hk.disjoint.of_perm hperm ht.ordered ht.apart, hk'.count, hk'.checked,
    fun t ht' => ?_⟩
  obtain rfl | ht' := List.mem_cons.mp (hperm.subset ht')
  · exact ht.filled
  · exact hk.filled t ht'

theorem setSnapshotMax {tableRef : TableInfoReference Key} (hk : Kept spec level tables)
    (hu : Updatable snapshot tableRef.tableInfo)
    (h : level.setSnapshotMax spec snapshot tableRef = .ok level') :
    ∃ after, Kept spec level' after := by
  obtain ⟨i, hv, hk'⟩ := hk.tallied.setSnapshotMax hu h
  have hdead := @dead_of_updated _ tableRef.tableInfo snapshot (setSnapshotMax_ok h).1
  obtain ⟨hlt, _⟩ := List.getElem?_eq_some_iff.mp hv
  have hafter := List.set_perm_cons_eraseIdx hlt
    { tableRef.tableInfo with snapshotMax := snapshot }
  have hin := List.mem_of_getElem? hv
  have hordered := hk.disjoint.ordered _ hin
  have hfilled := hk.filled _ hin
  have hbefore := erase_perm hv
  rw [← List.eraseIdx_eq_take_drop_succ] at hbefore
  have hdisjoint := (hk.disjoint.rest hbefore).of_perm hafter hordered
    fun _ _ hl => by rw [hdead] at hl; cases hl
  refine ⟨_, hk'.agrees, hdisjoint, hk'.count, hk'.checked, fun t ht => ?_⟩
  obtain ht | rfl := List.mem_or_eq_of_mem_set ht
  · exact hk.filled t ht
  · exact hfilled

theorem removeTable (hk : Kept spec level tables) (h : level.removeTable spec table = .ok level') :
    ∃ after, Kept spec level' after := by
  obtain ⟨i, hv, hk'⟩ := hk.tallied.removeTable h
  have hbefore := erase_perm hv
  exact ⟨_, hk'.agrees, hk.disjoint.rest hbefore, hk'.count, hk'.checked, fun t ht =>
    hk.filled t (hbefore.mem_iff.mpr (List.mem_cons_of_mem _ ht))⟩

end Kept

theorem kept_of_separate [Inhabited Key]
    (h : Reaches spec (fun tables _ table => Separate tables table) Updatable level) :
    ∃ tables, Kept spec level tables := by
  induction h with
  | new hnew => exact ⟨[], .new hnew⟩
  | insertTable _ hlist hlt hseparate hop ih =>
    obtain ⟨tables, hk⟩ := ih
    cases hlist.symm.trans hk.agrees.tables.toList
    exact ⟨_, hk.insertTable hlt hseparate hop⟩
  | setSnapshotMax _ hupdatable hop ih =>
    obtain ⟨tables, hk⟩ := ih
    exact hk.setSnapshotMax hupdatable hop
  | removeTable _ hop ih =>
    obtain ⟨tables, hk⟩ := ih
    exact hk.removeTable hop

omit [LinearOrder Key] [TableKey Key] in
theorem live_iff : live table = true ↔ VisibleAt snapshotLatest table :=
  decide_eq_true_iff

theorem Kept.stocked (hk : Kept spec level tables) : Stocked spec level tables :=
  hk.tallied.stocked (hk.disjoint.apart.imp fun h ha hb => h (live_iff.mpr ha) (live_iff.mpr hb))

end ManifestLevel

end TigerBeetle
