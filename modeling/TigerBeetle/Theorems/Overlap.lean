import TigerBeetle.Overlap
import TigerBeetle.Theorems.LevelIteration

namespace TigerBeetle

open Fallible

namespace ManifestLevel

open SegmentedArray Scan

variable {Key : Type} [LinearOrder Key] [TableKey Key] [Inhabited Key] {spec : ManifestLevelSpec}
variable {level : ManifestLevel Key} {table : TableInfo Key} {keys : List Key}
variable {tables window out : List (TableInfo Key)} {snapshot fuel count : Nat} {direction : Direction}
variable {iterator : LevelIterator Key} {r : KeyRange Key}

-- An iterator that is to yield the tables of a list, one after the other.
def Yields (spec : ManifestLevelSpec) (level : ManifestLevel Key) (fuel : Nat) :
    LevelIterator Key → List (TableInfo Key) → Prop
  | iterator, []            => iterator.next spec level fuel = .ok none
  | iterator, table :: rest => ∃ iterator',
    iterator.next spec level fuel = .ok (some (table, iterator')) ∧ Yields spec level fuel iterator' rest

omit [Inhabited Key] in
theorem yields_of_scan {inner : Iterator} {range : Option (KeyRange Key)}
    (hf : Feeds spec.tablesSpec level.tables inner window) (hsound : ∀ table ∈ window, Sound table)
    (hl : snapshot ≤ snapshotLatest) (hlen : window.length ≤ fuel)
    (hscan : scan (verdict snapshot direction range) window = some out) :
    Yields spec level fuel (filtered inner snapshot direction range) out := by
  induction out generalizing inner window with
  | nil =>
    have hnext := @next_follows _ _ _ spec level _ snapshot direction range fuel inner hf hsound hl hlen
    rw [scan_eq_next] at hscan
    cases hs : Scan.next (verdict snapshot direction range) window with
    | none =>
      rw [hs] at hscan
      cases hscan
    | some found =>
      rw [hs] at hnext hscan
      cases found with
      | none => exact hnext
      | some found =>
        obtain ⟨_, hrest, hcons⟩ := Option.map_eq_some_iff.mp hscan
        cases hcons
  | cons table out ih =>
    have hnext := @next_follows _ _ _ spec level _ snapshot direction range fuel inner hf hsound hl hlen
    rw [scan_eq_next] at hscan
    cases hs : Scan.next (verdict snapshot direction range) window with
    | none =>
      rw [hs] at hscan
      cases hscan
    | some found =>
      rw [hs] at hnext hscan
      cases found with
      | none => cases hscan
      | some found =>
        obtain ⟨first, rest⟩ := found
        obtain ⟨inner', hf', hfound⟩ := hnext
        obtain ⟨_, hrest, hcons⟩ := Option.map_eq_some_iff.mp hscan
        obtain ⟨rfl, rfl⟩ := List.cons.inj hcons
        have hless := next_length hs
        exact ⟨_, hfound, ih hf' (fun t ht => hsound t (next_subset hs ht)) (by omega) hrest⟩

-- A level whose keys are those of its tables, and in which the tables that the latest snapshot sees are
-- disjoint.
structure Stocked (spec : ManifestLevelSpec) (level : ManifestLevel Key) (tables : List (TableInfo Key)) :
    Prop where
  arrays : Agrees spec level tables
  sound : ∀ table ∈ tables, Sound table
  disjoint : DisjointAt snapshotLatest tables

-- The tables that the latest snapshot sees.
def Live (tables : List (TableInfo Key)) (table : TableInfo Key) : Prop :=
  table ∈ tables ∧ VisibleAt snapshotLatest table

namespace Stocked

variable (hs : Stocked spec level tables)

include hs

theorem iterator_yields (direction : Direction) {range : Option (KeyRange Key)}
    (hr : ∀ r ∈ range, r.keyMin ≤ r.keyMax) :
    ∃ iterator, level.iterator spec .visible [snapshotLatest] direction range = .ok iterator ∧
      Yields spec level tables.length iterator
        ((windowOf (tables.map TableInfo.keyMax) tables direction range).filter
          fun table => Wanted snapshotLatest range table) := by
  obtain ⟨inner, hiterator, hfeeds⟩ :=
    @iterator_feeds _ _ _ _ _ _ _ _ direction _ _ hs.arrays.holding le_rfl hr
  refine ⟨_, hiterator, yields_of_scan hfeeds (fun t ht => hs.sound t (window_subset ht)) le_rfl
    window_length ?_⟩
  rw [← takable_eq]
  refine scan_eq_takable_iff.mpr ?_
  cases direction with
  | ascending  => exact (aligned_ascending hs.arrays.sorted hs.sound hs.disjoint).clean
  | descending => exact clean_descending hs.arrays.sorted hs.sound hs.disjoint

omit [TableKey Key] [Inhabited Key] hs in
theorem filter_ascending (hsorted : (tables.map TableInfo.keyMax).Pairwise (· ≤ ·))
    (hsound : ∀ table ∈ tables, Sound table) (hd : DisjointAt snapshot tables) :
    (windowOf (tables.map TableInfo.keyMax) tables .ascending (some r)).filter
        (fun table => Wanted snapshot (some r) table) =
      tables.filter fun table => Wanted snapshot (some r) table :=
  window_filter (aligned_ascending hsorted hsound hd).front

omit [Inhabited Key] in
theorem apart {a b : TableInfo Key} (ha : Live tables a) (hb : Live tables b) :
    a = b ∨ a.keyMax < b.keyMin ∨ b.keyMax < a.keyMin := by
  have hforward : tables.Pairwise fun a b => VisibleAt snapshotLatest a → VisibleAt snapshotLatest b →
      a = b ∨ a.keyMax < b.keyMin ∨ b.keyMax < a.keyMin :=
    hs.disjoint.imp fun h hva hvb => .inr (h hva hvb)
  have hbackward : tables.Pairwise (flip fun a b => VisibleAt snapshotLatest a →
      VisibleAt snapshotLatest b → a = b ∨ a.keyMax < b.keyMin ∨ b.keyMax < a.keyMin) :=
    hs.disjoint.imp fun h hvb hva => .inr (h hva hvb).symm
  exact List.Pairwise.forall_of_forall_of_flip (fun _ _ _ _ => .inl rfl) hforward hbackward
    ha.1 hb.1 ha.2 hb.2

end Stocked

section Overlap

-- The tables of a range.
def infos (range : OverlapRange Key) : List (TableInfo Key) :=
  range.tables.map TableInfoReference.tableInfo

-- A range with the tables of it: all tables that the latest snapshot sees in it, in their order, and none
-- reaches out of it.
structure Closed (tables : List (TableInfo Key)) (range : OverlapRange Key) : Prop where
  le : range.keyMin ≤ range.keyMax
  ordered : range.tables.Pairwise fun a b => a.tableInfo.keyMax < b.tableInfo.keyMin
  exact : ∀ table, table ∈ infos range ↔
    Live tables table ∧ Meeting (some ⟨range.keyMin, range.keyMax⟩) table
  within : ∀ table ∈ infos range, range.keyMin ≤ table.keyMin ∧ table.keyMax ≤ range.keyMax

-- Some of the tables that meet a range have been taken into it.
structure Extended (r : KeyRange Key) (range : OverlapRange Key) : Prop where
  keyMin : range.keyMin ≤ r.keyMin
  keyMax : r.keyMax ≤ range.keyMax
  within : ∀ reference ∈ range.tables,
    range.keyMin ≤ reference.tableInfo.keyMin ∧ reference.tableInfo.keyMax ≤ range.keyMax
  least : range.keyMin = r.keyMin ∨ ∃ reference ∈ range.tables, reference.tableInfo.keyMin = range.keyMin
  most : range.keyMax = r.keyMax ∨ ∃ reference ∈ range.tables, reference.tableInfo.keyMax = range.keyMax

omit [TableKey Key] [Inhabited Key] in
theorem Extended.extend {range : OverlapRange Key} (h : Extended r range) :
    Extended r (level.extend range table) where
  keyMin := by
    unfold ManifestLevel.extend
    dsimp only
    split
    case isTrue hlt => exact hlt.le.trans h.keyMin
    case isFalse => exact h.keyMin
  keyMax := by
    unfold ManifestLevel.extend
    dsimp only
    split
    case isTrue hlt => exact h.keyMax.trans hlt.le
    case isFalse => exact h.keyMax
  within := by
    intro reference hm
    unfold ManifestLevel.extend at hm ⊢
    dsimp only at hm ⊢
    have hmin : (if table.keyMin < range.keyMin then table.keyMin else range.keyMin) =
      min table.keyMin range.keyMin := by
      split
      case isTrue hlt => exact (min_eq_left hlt.le).symm
      case isFalse hge => exact (min_eq_right (not_lt.mp hge)).symm
    have hmax : (if table.keyMax > range.keyMax then table.keyMax else range.keyMax) =
      max table.keyMax range.keyMax := by
      split
      case isTrue hlt => exact (max_eq_left hlt.le).symm
      case isFalse hge => exact (max_eq_right (not_lt.mp hge)).symm
    rw [hmin, hmax]
    obtain hm | hm := List.mem_append.mp hm
    · have hw := h.within reference hm
      exact ⟨(min_le_right _ _).trans hw.1, hw.2.trans (le_max_right _ _)⟩
    · rw [List.mem_singleton.mp hm]
      exact ⟨min_le_left _ _, le_max_left _ _⟩
  least := by
    unfold ManifestLevel.extend
    dsimp only
    split
    case isTrue =>
      exact .inr ⟨⟨table, level.generation⟩, List.mem_append_right _ (List.mem_singleton_self _), rfl⟩
    case isFalse =>
      obtain heq | ⟨reference, hm, heq⟩ := h.least
      · exact .inl heq
      · exact .inr ⟨reference, List.mem_append_left _ hm, heq⟩
  most := by
    unfold ManifestLevel.extend
    dsimp only
    split
    case isTrue =>
      exact .inr ⟨⟨table, level.generation⟩, List.mem_append_right _ (List.mem_singleton_self _), rfl⟩
    case isFalse =>
      obtain heq | ⟨reference, hm, heq⟩ := h.most
      · exact .inl heq
      · exact .inr ⟨reference, List.mem_append_left _ hm, heq⟩

omit [Inhabited Key] in
-- The loop takes all tables if there are not too many.
theorem tablesOverlappingLoop_eq {range : OverlapRange Key} {maxOverlappingTables : Nat}
    (hy : Yields spec level fuel iterator out) (hsound : ∀ table ∈ out, Sound table)
    (hwanted : ∀ table ∈ out, Wanted snapshotLatest (some r) table) (hx : Extended r range)
    (hcount : out.length < count) (hfits : range.tables.length + out.length ≤ maxOverlappingTables) :
    ∃ range', Extended r range' ∧
      range'.tables = range.tables ++ out.map (fun table => ⟨table, level.generation⟩) ∧
      level.tablesOverlappingLoop spec maxOverlappingTables fuel count iterator range =
        .ok (some range') := by
  induction out generalizing iterator range count with
  | nil =>
    obtain ⟨count, rfl⟩ : ∃ n, count = n + 1 := ⟨count - 1, by omega⟩
    refine ⟨range, hx, (List.append_nil _).symm, ?_⟩
    unfold tablesOverlappingLoop
    rw [show iterator.next spec level fuel = .ok none from hy]
    rfl
  | cons table out ih =>
    obtain ⟨count, rfl⟩ : ∃ n, count = n + 1 := ⟨count - 1, by omega⟩
    obtain ⟨iterator', hnext, hy'⟩ := hy
    have hs := hsound table List.mem_cons_self
    obtain ⟨hv, hmeet⟩ := hwanted table List.mem_cons_self
    obtain ⟨hmin, hmax⟩ := hmeet r rfl
    have hlen : (level.extend range table).tables.length = range.tables.length + 1 := by
      unfold ManifestLevel.extend
      exact List.length_append
    rw [List.length_cons] at hcount hfits
    obtain ⟨range', hrange, htables, hloop⟩ := ih hy' (fun t ht => hsound t (List.mem_cons_of_mem _ ht))
      (fun t ht => hwanted t (List.mem_cons_of_mem _ ht)) hx.extend (Nat.lt_of_succ_lt_succ hcount)
      (by rw [hlen]; omega)
    refine ⟨range', hrange, ?_, ?_⟩
    · rw [htables]
      unfold ManifestLevel.extend
      exact List.append_assoc ..
    · unfold tablesOverlappingLoop
      rw [hnext, ok_bind]
      dsimp only
      rw [visible_eq hs le_rfl, ok_bind, assert_of (decide_eq_true hv), ok_bind, assert_of hs.keys,
        ok_bind, assert_of (hx.keyMin.trans hmax), ok_bind, assert_of (hmin.trans hx.keyMax), ok_bind,
        if_pos (by omega), hloop]

-- All tables that overlap with a range, and the range extended to them.
theorem tablesOverlapping_eq (hs : Stocked spec level tables) (hr : r.keyMin ≤ r.keyMax)
    {maxOverlappingTables : Nat} (hmax : maxOverlappingTables ≤ lsmGrowthFactor)
    (hfits : (tables.filter fun table => Wanted snapshotLatest (some r) table).length ≤
      maxOverlappingTables) :
    ∃ range, Closed tables range ∧ Extended r range ∧
      infos range = tables.filter (fun table => Wanted snapshotLatest (some r) table) ∧
      level.tablesOverlappingWithKeyRange spec r.keyMin r.keyMax snapshotLatest maxOverlappingTables =
        .ok (some range) := by
  have hrange : ∀ r' ∈ some r, r'.keyMin ≤ r'.keyMax := fun _ h => Option.some.inj h ▸ hr
  obtain ⟨iterator, hiterator, hy⟩ := hs.iterator_yields .ascending hrange
  rw [Stocked.filter_ascending hs.arrays.sorted hs.sound hs.disjoint] at hy
  have hmem : ∀ table, table ∈ tables.filter (fun table => Wanted snapshotLatest (some r) table) ↔
      table ∈ tables ∧ decide (Wanted snapshotLatest (some r) table) = true := fun _ => List.mem_filter
  have hwanted : ∀ table ∈ tables.filter (fun table => Wanted snapshotLatest (some r) table),
      Wanted snapshotLatest (some r) table := fun table ht => of_decide_eq_true ((hmem table).mp ht).2
  have hsound : ∀ table ∈ tables.filter (fun table => Wanted snapshotLatest (some r) table),
      Sound table :=
    fun table ht => hs.sound table ((hmem table).mp ht).1
  have hstart : Extended r ⟨r.keyMin, r.keyMax, []⟩ := ⟨le_rfl, le_rfl, nofun, .inl rfl, .inl rfl⟩
  have hcount : (tables.filter fun table => Wanted snapshotLatest (some r) table).length <
      tables.length + 1 := Nat.lt_succ_of_le (List.length_filter_le ..)
  have hroom : ([] : List (TableInfoReference Key)).length +
      (tables.filter fun table => Wanted snapshotLatest (some r) table).length ≤ maxOverlappingTables :=
    (Nat.zero_add _).le.trans hfits
  obtain ⟨range, hx, htables, hloop⟩ := tablesOverlappingLoop_eq hy hsound hwanted hstart hcount hroom
  rw [List.nil_append] at htables
  have hinfos : infos range = tables.filter fun table => Wanted snapshotLatest (some r) table := by
    unfold infos
    rw [htables, List.map_map]
    exact List.map_id _
  have hwithin : ∀ table ∈ infos range, range.keyMin ≤ table.keyMin ∧ table.keyMax ≤ range.keyMax := by
    intro table ht
    obtain ⟨reference, hm, rfl⟩ := List.mem_map.mp ht
    exact hx.within reference hm
  refine ⟨range, ⟨hx.keyMin.trans (hr.trans hx.keyMax), ?_,
    fun table => ⟨fun ht => ?_, fun ⟨hlive, hmeet⟩ => ?_⟩, hwithin⟩, hx, hinfos, ?_⟩
  · have hordered := @ordered_of_parallel _ _ _ _ (some r) hs.arrays.sorted hs.sound hs.disjoint
    rw [← hinfos] at hordered
    exact List.pairwise_map.mp hordered
  · have hbounds := hwithin table ht
    rw [hinfos] at ht
    obtain ⟨hm, hw⟩ := (hmem table).mp ht
    have hkeys := (hs.sound table hm).keys
    refine ⟨⟨hm, (of_decide_eq_true hw).1⟩, fun _ hr' => ?_⟩
    rw [← Option.some.inj hr']
    exact ⟨hkeys.trans hbounds.2, hbounds.1.trans hkeys⟩
  · rw [hinfos]
    refine (hmem table).mpr ⟨hlive.1, decide_eq_true ⟨hlive.2, fun _ hr' => ?_⟩⟩
    rw [← Option.some.inj hr']
    obtain ⟨hmin, hmax'⟩ := hmeet _ rfl
    have hlive' : ∀ reference ∈ range.tables, Live tables reference.tableInfo ∧
        Meeting (some r) reference.tableInfo := fun reference hm => by
      have hin : reference.tableInfo ∈ infos range := List.mem_map_of_mem hm
      rw [hinfos] at hin
      obtain ⟨hin, hw⟩ := (hmem _).mp hin
      exact ⟨⟨hin, (of_decide_eq_true hw).1⟩, (of_decide_eq_true hw).2⟩
    have hkeys := (hs.sound table hlive.1).keys
    constructor
    · -- a table behind the range is not reached by one that meets it
      refine not_lt.mp fun hlt => ?_
      obtain heq | ⟨reference, hm, heq⟩ := hx.most
      · exact absurd (heq ▸ hmin) (not_le.mpr hlt)
      · obtain ⟨hother, hmeet'⟩ := hlive' reference hm
        have hstart := (hmeet' r rfl).1
        dsimp only at hmin
        rw [← heq] at hmin
        obtain rfl | hbelow | habove := hs.apart hlive hother
        · exact absurd hstart (not_le.mpr hlt)
        · exact absurd (hlt.trans_le (hkeys.trans hbelow.le)) (not_lt.mpr hstart)
        · exact absurd hmin (not_le.mpr habove)
    · refine not_lt.mp fun hlt => ?_
      obtain heq | ⟨reference, hm, heq⟩ := hx.least
      · exact absurd (heq ▸ hmax') (not_le.mpr hlt)
      · obtain ⟨hother, hmeet'⟩ := hlive' reference hm
        have hend := (hmeet' r rfl).2
        dsimp only at hmax'
        rw [← heq] at hmax'
        obtain rfl | hbelow | habove := hs.apart hlive hother
        · exact absurd hend (not_le.mpr hlt)
        · exact absurd hmax' (not_le.mpr hbelow)
        · exact absurd (habove.trans_le (hkeys.trans hlt.le)) (not_lt.mpr hend)
  · unfold tablesOverlappingWithKeyRange
    have hlen := congrArg List.length hinfos
    unfold infos at hlen
    rw [List.length_map] at hlen
    rw [assert_of hmax, ok_bind, show (some (⟨r.keyMin, r.keyMax⟩ : KeyRange Key)) = some r from rfl,
      hiterator, ok_bind, hs.arrays.tables.len, ok_bind]
    dsimp only
    rw [hloop, ok_bind]
    dsimp only
    rw [assert_of (hx.keyMin.trans (hr.trans hx.keyMax)), ok_bind, assert_of hx.keyMin, ok_bind,
      assert_of (hlen.le.trans hfits), ok_bind, assert_of hx.keyMax]
    rfl

end Overlap

section Next

variable {keyExclusive : Key}

-- What lies in a direction behind a key.
def Behind (direction : Direction) (keyExclusive : Key) (table : TableInfo Key) : Prop :=
  match direction with
  | .ascending  => keyExclusive < table.keyMin
  | .descending => table.keyMax < keyExclusive

instance : DecidablePred (Behind direction keyExclusive) := fun table =>
  match direction with
  | .ascending  => inferInstanceAs (Decidable (keyExclusive < table.keyMin))
  | .descending => inferInstanceAs (Decidable (table.keyMax < keyExclusive))

omit [Inhabited Key] in
-- The first of the tables that are yielded behind the excluded key.
theorem nextTableExclusive_eq {least most keyMin keyMax : Key} {excluded : Option Key}
    (hy : Yields spec level fuel iterator out) (hsound : ∀ table ∈ out, Sound table)
    (hwanted : ∀ table ∈ out, Wanted snapshotLatest (some ⟨keyMin, keyMax⟩) table)
    (hcount : out.length ≤ count) :
    level.nextTableExclusive spec ⟨snapshotLatest, least, most, excluded, direction⟩ keyMin keyMax
      keyExclusive fuel count iterator =
        .ok (out.find? fun table => Behind direction keyExclusive table) := by
  induction out generalizing iterator count with
  | nil =>
    cases count with
    | zero => rfl
    | succ count =>
      unfold nextTableExclusive
      rw [show iterator.next spec level fuel = .ok none from hy]
      rfl
  | cons table out ih =>
    obtain ⟨count, rfl⟩ : ∃ n, count = n + 1 := ⟨count - 1, by rw [List.length_cons] at hcount; omega⟩
    obtain ⟨iterator', hnext, hy'⟩ := hy
    have hs := hsound table List.mem_cons_self
    obtain ⟨hv, hmeet⟩ := hwanted table List.mem_cons_self
    obtain ⟨hmin, hmax⟩ := hmeet _ rfl
    have hrest := ih hy' (fun t ht => hsound t (List.mem_cons_of_mem _ ht))
      (fun t ht => hwanted t (List.mem_cons_of_mem _ ht)) (Nat.le_of_succ_le_succ hcount)
    unfold nextTableExclusive
    rw [hnext, ok_bind]
    dsimp only
    rw [visible_eq hs le_rfl, ok_bind, assert_of (decide_eq_true hv), ok_bind, assert_of hs.keys,
      ok_bind, assert_of hmax, ok_bind, assert_of hmin, ok_bind, List.find?_cons]
    by_cases hbehind : Behind direction keyExclusive table
    · rw [decide_eq_true hbehind]
      cases direction with
      | ascending  => exact if_pos (decide_eq_true hbehind)
      | descending => exact if_pos (decide_eq_true hbehind)
    · rw [decide_eq_false hbehind]
      cases direction with
      | ascending  => exact (if_neg fun h => hbehind (of_decide_eq_true h)).trans hrest
      | descending => exact (if_neg fun h => hbehind (of_decide_eq_true h)).trans hrest

-- The next table behind a key: no other one that is visible stands between the two.
def Nearest (tables : List (TableInfo Key)) (direction : Direction) (keyExclusive : Key) :
    Option (TableInfo Key) → Prop
  | none       => ∀ table, Live tables table → ¬Behind direction keyExclusive table
  | some table => Live tables table ∧ Behind direction keyExclusive table ∧
    ∀ other, Live tables other → Behind direction keyExclusive other →
      other = table ∨ Ahead direction table other

variable [BoundedOrder Key]

omit [TableKey Key] [Inhabited Key] [BoundedOrder Key] in
theorem window_ahead (hs : (tables.map TableInfo.keyMax).Pairwise (· ≤ ·))
    (hsound : ∀ table ∈ tables, Sound table) (hd : DisjointAt snapshot tables) :
    ((windowOf (tables.map TableInfo.keyMax) tables direction (some r)).filter
      fun table => Wanted snapshot (some r) table).Pairwise (Ahead direction) := by
  have hordered := visible_ordered hs hsound hd
  have hvisible : ∀ {list : List (TableInfo Key)} {a : TableInfo Key},
      a ∈ list.filter (fun table => Wanted snapshot (some r) table) → VisibleAt snapshot a :=
    fun ha => (of_decide_eq_true (List.mem_filter.mp ha).2).1
  cases direction with
  | ascending =>
    exact (hordered.sublist (List.filter_sublist.trans (List.drop_sublist _ _))).imp_of_mem
      fun ha hb h => h (hvisible ha) (hvisible hb)
  | descending =>
    have hreverse := List.pairwise_reverse.mpr (hordered.sublist (List.take_sublist
      (startIndex (tables.map TableInfo.keyMax) r .descending + 1) tables))
    exact (hreverse.sublist List.filter_sublist).imp_of_mem
      fun ha hb h => h (hvisible hb) (hvisible ha)

omit [TableKey Key] [Inhabited Key] [BoundedOrder Key] in
-- The first one behind a key is the nearest one if all of them are yielded in their order.
theorem nearest_of_find (hordered : out.Pairwise (Ahead direction))
    (hlive : ∀ table ∈ out, Live tables table)
    (hall : ∀ table, Live tables table → Behind direction keyExclusive table → table ∈ out) :
    Nearest tables direction keyExclusive
      (out.find? fun table => Behind direction keyExclusive table) := by
  cases hfind : out.find? fun table => Behind direction keyExclusive table with
  | none =>
    intro table hl hb
    have hnot := List.find?_eq_none.mp hfind table (hall table hl hb)
    exact hnot (decide_eq_true hb)
  | some table =>
    obtain ⟨hbehind, before, after, heq, hbefore⟩ := List.find?_eq_some_iff_append.mp hfind
    refine ⟨hlive table (List.mem_of_find?_eq_some hfind), of_decide_eq_true hbehind,
      fun other hl hb => ?_⟩
    have hmem := hall other hl hb
    rw [heq] at hmem hordered
    obtain hm | hm := List.mem_append.mp hmem
    · exact absurd hb (by simpa using hbefore other hm)
    · obtain rfl | hm := List.mem_cons.mp hm
      · exact .inl rfl
      · exact .inr ((List.pairwise_cons.mp (List.pairwise_append.mp hordered).2.1).1 other hm)

theorem nextTable_nearest (hs : Stocked spec level tables) :
    ∃ found, level.nextTable spec ⟨snapshotLatest, ⊥, ⊤, some keyExclusive, direction⟩ = .ok found ∧
      Nearest tables direction keyExclusive found := by
  have hmem : ∀ {r : KeyRange Key} {table : TableInfo Key},
      table ∈ (windowOf (tables.map TableInfo.keyMax) tables direction (some r)).filter
        (fun table => Wanted snapshotLatest (some r) table) →
      table ∈ tables ∧ Wanted snapshotLatest (some r) table := fun ht =>
    ⟨window_subset (List.mem_filter.mp ht).1, of_decide_eq_true (List.mem_filter.mp ht).2⟩
  have hrun : ∀ r : KeyRange Key, r.keyMin ≤ r.keyMax →
      (∀ table, Live tables table → Behind direction keyExclusive table →
        table ∈ windowOf (tables.map TableInfo.keyMax) tables direction (some r) ∧
          Meeting (some r) table) →
      ∃ found, (do
        let it ← level.iterator spec .visible [snapshotLatest] direction (some r)
        level.nextTableExclusive spec ⟨snapshotLatest, ⊥, ⊤, some keyExclusive, direction⟩ r.keyMin
          r.keyMax keyExclusive tables.length tables.length it) = .ok found ∧
        Nearest tables direction keyExclusive found := fun r hr hall => by
    have hrange : ∀ r' ∈ some r, r'.keyMin ≤ r'.keyMax := fun _ h => Option.some.inj h ▸ hr
    obtain ⟨iterator, hiterator, hy⟩ := hs.iterator_yields direction hrange
    have hlen : ((windowOf (tables.map TableInfo.keyMax) tables direction (some r)).filter
        fun table => Wanted snapshotLatest (some r) table).length ≤ tables.length :=
      (List.length_filter_le ..).trans window_length
    rw [hiterator, ok_bind, nextTableExclusive_eq hy (fun t ht => hs.sound t (hmem ht).1)
      (fun t ht => (hmem ht).2) hlen]
    exact ⟨_, rfl, nearest_of_find (window_ahead hs.arrays.sorted hs.sound hs.disjoint)
      (fun t ht => ⟨(hmem ht).1, (hmem ht).2.1⟩) fun t hl hb => List.mem_filter.mpr
        ⟨(hall t hl hb).1, decide_eq_true ⟨hl.2, (hall t hl hb).2⟩⟩⟩
  unfold nextTable
  rw [assert_of bot_le, ok_bind, hs.arrays.tables.len, ok_bind]
  dsimp only
  rw [assert_of bot_le, ok_bind, assert_of le_top, ok_bind]
  cases direction with
  | ascending =>
    have hfront := (@aligned_ascending _ _ _ _ (some ⟨keyExclusive, ⊤⟩) hs.arrays.sorted hs.sound
      hs.disjoint).front
    obtain ⟨found, hfound, hnearest⟩ := hrun ⟨keyExclusive, ⊤⟩ le_top fun table hl hb => by
      have hmeet : Meeting (some ⟨keyExclusive, ⊤⟩) table := fun _ hr => by
        rw [← Option.some.inj hr]
        exact ⟨le_top, hb.le.trans (hs.sound table hl.1).keys⟩
      have hin := (@window_perm _ _ (tables.map TableInfo.keyMax) tables .ascending
        (some ⟨keyExclusive, ⊤⟩)).symm.subset hl.1
      obtain hin | hin := List.mem_append.mp hin
      · exact ⟨hin, hmeet⟩
      · exact absurd ⟨hl.2, hmeet⟩ (hfront table hin)
    refine ⟨found, ?_, hnearest⟩
    rw [if_pos rfl, if_neg nofun, assert_of le_top, ok_bind]
    exact hfound
  | descending =>
    obtain ⟨found, hfound, hnearest⟩ := hrun ⟨⊥, keyExclusive⟩ bot_le fun table hl hb => by
      have hmeet : Meeting (some ⟨⊥, keyExclusive⟩) table := fun _ hr => by
        rw [← Option.some.inj hr]
        exact ⟨(hs.sound table hl.1).keys.trans hb.le, bot_le⟩
      have hin := (@window_perm _ _ (tables.map TableInfo.keyMax) tables .descending
        (some ⟨⊥, keyExclusive⟩)).symm.subset hl.1
      obtain hin | hin := List.mem_append.mp hin
      · exact ⟨hin, hmeet⟩
      · obtain ⟨other, _, hge, hlt⟩ := lt_of_mem_rest hs.arrays.sorted hin
        exact absurd (hge.trans_lt hlt) (not_lt.mpr hb.le)
    refine ⟨found, ?_, hnearest⟩
    rw [if_neg nofun, if_pos rfl, assert_of bot_le, ok_bind]
    exact hfound

end Next

end ManifestLevel

end TigerBeetle
