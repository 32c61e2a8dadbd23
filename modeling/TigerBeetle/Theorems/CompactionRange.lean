import TigerBeetle.Theorems.KeptLevels

namespace TigerBeetle

open Fallible

namespace Manifest

open ManifestLevel SegmentedArray

variable {Key : Type} [LinearOrder Key] [TableKey Key] [Inhabited Key] [BoundedOrder Key]
variable {spec : ManifestLevelSpec} {manifest : Manifest Key} {level : ManifestLevel Key}
variable {tables : List (TableInfo Key)} {table : TableInfo Key} {r : KeyRange Key}
variable {range : OverlapRange Key} {state : Coalescing Key} {direction : Direction}
variable {valueCount valueCountMax valueCountTarget overlapCount generation : Nat}

-- The values of all tables that the latest snapshot sees.
def visibleValues (tables : List (TableInfo Key)) : Nat :=
  ((tables.filter fun table => VisibleAt snapshotLatest table).map TableInfo.valueCount).sum

def values (tables : List (TableInfo Key)) : Nat :=
  (tables.map TableInfo.valueCount).sum

-- What holds of level 0: it has at most as many visible tables as the growth factor, and none is empty.
structure LevelZero (spec : ManifestLevelSpec) (level : ManifestLevel Key)
    (tables : List (TableInfo Key)) : Prop where
  stocked : Stocked spec level tables
  filled : ∀ table ∈ tables, 0 < table.valueCount
  visible : level.tableCountVisible = liveCount tables
  count : liveCount tables ≤ lsmGrowthFactor

omit [Inhabited Key] [BoundedOrder Key] in
-- Different tables of a level have no more values than all of its tables.
theorem values_le (hs : Stocked spec level tables) {list : List (TableInfo Key)}
    (hlive : ∀ table ∈ list, Live tables table)
    (hordered : list.Pairwise fun a b => a.keyMax < b.keyMin) : values list ≤ visibleValues tables := by
  have hnodup : list.Nodup := hordered.imp_of_mem fun {a b} ha _ hlt heq => by
    subst heq
    exact absurd hlt (not_lt.mpr (hs.sound a (hlive a ha).1).keys)
  have hsub : list ⊆ tables.filter fun table => VisibleAt snapshotLatest table := fun t ht =>
    List.mem_filter.mpr ⟨(hlive t ht).1, decide_eq_true (hlive t ht).2⟩
  obtain ⟨between, hperm, hsublist⟩ := List.subperm_of_subset hnodup hsub
  unfold values visibleValues
  rw [← (hperm.map TableInfo.valueCount).sum_eq]
  exact (hsublist.map TableInfo.valueCount).sum_le_sum fun _ _ => Nat.zero_le _

omit [Inhabited Key] [BoundedOrder Key] in
theorem values_closed (hs : Stocked spec level tables) (hc : Closed tables range) :
    values (infos range) ≤ visibleValues tables :=
  values_le hs (fun t ht => ((hc.exact t).mp ht).1) (List.pairwise_map.mpr hc.ordered)

-- What holds while tables are coalesced.
structure Grown (tables : List (TableInfo Key)) (r : KeyRange Key)
    (valueCount valueCountMax valueCountTarget overlapCount : Nat) (state : Coalescing Key) : Prop where
  closed : Closed tables state.range
  covers : state.range.keyMin ≤ r.keyMin ∧ r.keyMax ≤ state.range.keyMax
  count : overlapCount ≤ state.range.tables.length ∧ state.range.tables.length ≤ lsmGrowthFactor
  output : state.valueCountOutput = valueCount + values (infos state.range)
  bound : (∃ table ∈ infos state.range, ¬Meeting (some r) table) → state.valueCountOutput ≤ valueCountMax
  small : state.coalescedSmallTable = true ∨
    valueCountTarget ≤ state.valueCountOutput ∧ state.range.tables.length = overlapCount

omit [LinearOrder Key] [TableKey Key] [Inhabited Key] [BoundedOrder Key] in
theorem infos_add : infos (state.add table generation valueCountTarget direction).range =
    match direction with
    | .descending => table :: infos state.range
    | .ascending  => infos state.range ++ [table] := by
  cases direction with
  | descending => rfl
  | ascending  => exact List.map_append

omit [TableKey Key] [Inhabited Key] [BoundedOrder Key] in
-- A closed range stays closed if the nearest table becomes part of it.
theorem closed_add (hc : Closed tables state.range) (hsound : ∀ table ∈ tables, Sound table)
    (hn : Nearest tables direction (state.keyExclusive direction) (some table)) :
    Closed tables (state.add table generation valueCountTarget direction).range := by
  obtain ⟨hlive, hbehind, hnearest⟩ := hn
  have hkeys := (hsound table hlive.1).keys
  have hinner : ∀ other ∈ infos state.range, Live tables other ∧ state.range.keyMin ≤ other.keyMin ∧
      other.keyMin ≤ other.keyMax ∧ other.keyMax ≤ state.range.keyMax :=
    fun other ho => by
      have hother := ((hc.exact other).mp ho).1
      exact ⟨hother, (hc.within other ho).1, (hsound other hother.1).keys, (hc.within other ho).2⟩
  cases direction with
  | descending =>
    have hlt : table.keyMax < state.range.keyMin := hbehind
    refine ⟨?_, ?_, fun other => ?_, ?_⟩
    · exact hkeys.trans (hlt.le.trans hc.le)
    · refine List.pairwise_cons.mpr ⟨fun reference hm => ?_, hc.ordered⟩
      exact hlt.trans_le (hc.within _ (List.mem_map_of_mem hm)).1
    · rw [infos_add]
      constructor
      · intro ho
        obtain rfl | ho := List.mem_cons.mp ho
        · refine ⟨hlive, fun _ hr => ?_⟩
          rw [← Option.some.inj hr]
          exact ⟨hkeys.trans (hlt.le.trans hc.le), hkeys⟩
        · obtain ⟨hother, hmin, hle, hmax⟩ := hinner other ho
          refine ⟨hother, fun _ hr => ?_⟩
          rw [← Option.some.inj hr]
          exact ⟨hle.trans hmax, hkeys.trans (hlt.le.trans (hmin.trans hle))⟩
      · rintro ⟨hother, hmeet⟩
        obtain ⟨hmin, hmax⟩ := hmeet _ rfl
        by_cases hin : state.range.keyMin ≤ other.keyMax
        · refine List.mem_cons_of_mem _ ((hc.exact other).mpr ⟨hother, fun _ hr => ?_⟩)
          rw [← Option.some.inj hr]
          exact ⟨hmin, hin⟩
        · obtain rfl | hahead := hnearest other hother (not_le.mp hin)
          · exact List.mem_cons_self
          · exact absurd hmax (not_le.mpr hahead)
    · intro other ho
      rw [infos_add] at ho
      obtain rfl | ho := List.mem_cons.mp ho
      · exact ⟨le_rfl, hlt.le.trans hc.le⟩
      · obtain ⟨_, hmin, _, hmax⟩ := hinner other ho
        exact ⟨hkeys.trans (hlt.le.trans hmin), hmax⟩
  | ascending =>
    have hlt : state.range.keyMax < table.keyMin := hbehind
    refine ⟨?_, ?_, fun other => ?_, ?_⟩
    · exact hc.le.trans (hlt.le.trans hkeys)
    · refine List.pairwise_append.mpr ⟨hc.ordered, List.pairwise_singleton _ _,
        fun reference hm _ hm' => ?_⟩
      rw [List.mem_singleton.mp hm']
      exact (hc.within _ (List.mem_map_of_mem hm)).2.trans_lt hlt
    · rw [infos_add]
      constructor
      · intro ho
        obtain ho | ho := List.mem_append.mp ho
        · obtain ⟨hother, hmin, hle, hmax⟩ := hinner other ho
          refine ⟨hother, fun _ hr => ?_⟩
          rw [← Option.some.inj hr]
          exact ⟨hle.trans (hmax.trans (hlt.le.trans hkeys)), hmin.trans hle⟩
        · rw [List.mem_singleton.mp ho]
          refine ⟨hlive, fun _ hr => ?_⟩
          rw [← Option.some.inj hr]
          exact ⟨hkeys, hc.le.trans (hlt.le.trans hkeys)⟩
      · rintro ⟨hother, hmeet⟩
        obtain ⟨hmin, hmax⟩ := hmeet _ rfl
        by_cases hin : other.keyMin ≤ state.range.keyMax
        · refine List.mem_append_left _ ((hc.exact other).mpr ⟨hother, fun _ hr => ?_⟩)
          rw [← Option.some.inj hr]
          exact ⟨hin, hmax⟩
        · obtain rfl | hahead := hnearest other hother (not_le.mp hin)
          · exact List.mem_append_right _ (List.mem_singleton_self _)
          · exact absurd hmin (not_le.mpr hahead)
    · intro other ho
      rw [infos_add] at ho
      obtain ho | ho := List.mem_append.mp ho
      · obtain ⟨_, hmin, _, hmax⟩ := hinner other ho
        exact ⟨hmin, hmax.trans (hlt.le.trans hkeys)⟩
      · rw [List.mem_singleton.mp ho]
        exact ⟨hc.le.trans hlt.le, le_rfl⟩

omit [LinearOrder Key] [TableKey Key] [Inhabited Key] [BoundedOrder Key] in
theorem values_add : values (infos (state.add table generation valueCountTarget direction).range) =
    values (infos state.range) + table.valueCount := by
  rw [infos_add]
  unfold values
  cases direction with
  | descending => exact Nat.add_comm _ _
  | ascending  => rw [List.map_append, List.sum_append, List.map_singleton, List.sum_singleton]

omit [LinearOrder Key] [TableKey Key] [Inhabited Key] [BoundedOrder Key] in
theorem length_add : (state.add table generation valueCountTarget direction).range.tables.length =
    state.range.tables.length + 1 := by
  cases direction with
  | descending => rfl
  | ascending  => exact List.length_append

omit [TableKey Key] [Inhabited Key] [BoundedOrder Key] in
theorem Grown.add (hg : Grown tables r valueCount valueCountMax valueCountTarget overlapCount state)
    (hsound : ∀ table ∈ tables, Sound table)
    (hn : Nearest tables direction (state.keyExclusive direction) (some table))
    (hroom : state.range.tables.length ≠ lsmGrowthFactor)
    (htarget : state.valueCountOutput < valueCountTarget)
    (hfits : state.valueCountOutput + table.valueCount ≤ valueCountMax) :
    Grown tables r valueCount valueCountMax valueCountTarget overlapCount
      (state.add table generation valueCountTarget direction) where
  closed := closed_add hg.closed hsound hn
  covers := by
    have hkeys := (hsound table hn.1.1).keys
    have hle := hg.closed.le
    cases direction with
    | descending =>
      have hlt : table.keyMax < state.range.keyMin := hn.2.1
      exact ⟨hkeys.trans (hlt.le.trans hg.covers.1), hg.covers.2⟩
    | ascending =>
      have hlt : state.range.keyMax < table.keyMin := hn.2.1
      exact ⟨hg.covers.1, hg.covers.2.trans (hlt.le.trans hkeys)⟩
  count := by
    have hcount := hg.count
    rw [length_add]
    omega
  output := by
    rw [values_add, ← Nat.add_assoc, ← hg.output]
    rfl
  bound := fun _ => hfits
  small := by
    have hsmall : state.coalescedSmallTable = true := hg.small.resolve_right fun h => by omega
    refine .inl ?_
    unfold Coalescing.add
    rw [hsmall]
    rfl

theorem coalesce_grown (hs : Stocked spec level tables) (direction : Direction) (count : Nat)
    (hfilled : ∀ table ∈ tables, 0 < table.valueCount)
    (hvalues : valueCount + visibleValues tables < 2 ^ 32)
    (hg : Grown tables r valueCount valueCountMax valueCountTarget overlapCount state) :
    ∃ state', coalesce spec level valueCountTarget valueCountMax direction count state = .ok state' ∧
      Grown tables r valueCount valueCountMax valueCountTarget overlapCount state' := by
  induction count generalizing state with
  | zero => exact ⟨state, rfl, hg⟩
  | succ count ih =>
    unfold coalesce
    by_cases hstop : state.range.tables.length = lsmGrowthFactor ∨
        state.valueCountOutput ≥ valueCountTarget
    case pos =>
      rw [if_pos hstop]
      exact ⟨state, rfl, hg⟩
    case neg =>
      rw [if_neg hstop]
      obtain ⟨hroom, htarget⟩ := not_or.mp hstop
      obtain ⟨found, hfound, hnearest⟩ := @nextTable_nearest _ _ _ _ spec level tables direction
        (state.keyExclusive direction) _ hs
      rw [hfound, ok_bind]
      cases found with
      | none => exact ⟨state, rfl, hg⟩
      | some table =>
        have hpos := hfilled table hnearest.1.1
        have hclosed : Closed tables (state.add table 0 0 direction).range :=
          closed_add hg.closed hs.sound hnearest
        have hall := values_closed hs hclosed
        have hless : state.valueCountOutput + table.valueCount < 2 ^ 32 := by
          rw [values_add] at hall
          have houtput := hg.output
          omega
        dsimp only
        rw [assert_of hpos, ok_bind, assert_of hless, ok_bind]
        by_cases hfits : state.valueCountOutput + table.valueCount ≤ valueCountMax
        case pos =>
          rw [if_pos hfits]
          exact ih (hg.add hs.sound hnearest hroom (not_le.mp htarget) hfits)
        case neg =>
          rw [if_neg hfits]
          exact ⟨state, rfl, hg⟩

omit [TableKey Key] [Inhabited Key] [BoundedOrder Key] in
theorem assertDisjoint_of {list : List (TableInfoReference Key)}
    (h : list.Pairwise fun a b => a.tableInfo.keyMax < b.tableInfo.keyMin) :
    assertDisjoint list = .ok () := by
  induction list with
  | nil => rfl
  | cons a list ih =>
    cases list with
    | nil => rfl
    | cons b rest =>
      obtain ⟨hhead, htail⟩ := List.pairwise_cons.mp h
      unfold assertDisjoint
      rw [assert_of (hhead b List.mem_cons_self), ok_bind]
      exact ih htail

-- The range contains the one of the immutable table and comes with exactly the tables that the latest
-- snapshot sees in it, which are not too many. If it was extended to further tables, all values fit.
structure Compactable (tables : List (TableInfo Key)) (r : KeyRange Key) (valueCount valueCountMax : Nat)
    (range : CompactionRange Key) : Prop where
  covers : range.keyMin ≤ r.keyMin ∧ r.keyMax ≤ range.keyMax
  exact : ∀ table, table ∈ infos range.tables ↔
    Live tables table ∧ Meeting (some ⟨range.keyMin, range.keyMax⟩) table
  ordered : (infos range.tables).Pairwise fun a b => a.keyMax < b.keyMin
  count : (infos range.tables).length ≤ lsmGrowthFactor
  bound : (∃ table ∈ infos range.tables, ¬Meeting (some r) table) →
    valueCount + values (infos range.tables) ≤ valueCountMax

theorem immutableTableCompactionRange_compactable
    (hz : LevelZero spec (manifest.levels ⟨0, by decide⟩) tables) (hr : r.keyMin ≤ r.keyMax)
    (hcount : 0 < valueCount ∧ valueCount ≤ valueCountMax)
    (hmax : 2 < valueCountMax ∧ valueCountMax < 2 ^ 32)
    (hvalues : valueCount + visibleValues tables < 2 ^ 32) :
    ∃ range, manifest.immutableTableCompactionRange spec r.keyMin r.keyMax valueCount valueCountMax =
      .ok range ∧ Compactable tables r valueCount valueCountMax range := by
  have hs := hz.stocked
  have hfew : (tables.filter fun table => Wanted snapshotLatest (some r) table).length ≤
      lsmGrowthFactor := by
    refine Nat.le_trans ?_ hz.count
    unfold liveCount
    rw [List.countP_eq_length_filter]
    refine (List.monotone_filter_right tables fun table hw => ?_).length_le
    have hv := (of_decide_eq_true hw).1
    exact decide_eq_true hv
  obtain ⟨overlap, hclosed, hextended, hinfos, hoverlap⟩ := tablesOverlapping_eq hs hr le_rfl hfew
  have htarget : (valueCountMax * lsmTableCoalescingThresholdPercent + 99) / 100 < valueCountMax ∧
      1 < (valueCountMax * lsmTableCoalescingThresholdPercent + 99) / 100 := by
    unfold lsmTableCoalescingThresholdPercent
    omega
  generalize htargetEq : (valueCountMax * lsmTableCoalescingThresholdPercent + 99) / 100 = target
    at htarget
  have hsum : (overlap.tables.map fun reference => reference.tableInfo.valueCount).sum =
      values (infos overlap) := by
    unfold values infos
    rw [List.map_map]
    rfl
  have hall := values_closed hs hclosed
  have hlength : overlap.tables.length ≤ lsmGrowthFactor := by
    have hlen := congrArg List.length hinfos
    unfold infos at hlen
    rw [List.length_map] at hlen
    exact hlen.le.trans hfew
  have hstart : Grown tables r valueCount valueCountMax target overlap.tables.length
      ⟨overlap, valueCount + values (infos overlap),
        decide (valueCount + values (infos overlap) < target)⟩ := by
    refine ⟨hclosed, ⟨hextended.keyMin, hextended.keyMax⟩, ⟨le_rfl, hlength⟩, rfl, ?_, ?_⟩
    · rintro ⟨table, ht, hmeet⟩
      dsimp only at ht
      rw [hinfos] at ht
      exact absurd (of_decide_eq_true (List.mem_filter.mp ht).2).2 hmeet
    · by_cases hsmall : valueCount + values (infos overlap) < target
      · exact .inl (decide_eq_true hsmall)
      · exact .inr ⟨not_lt.mp hsmall, rfl⟩
  obtain ⟨left, hleft, hgleft⟩ := coalesce_grown hs .descending lsmGrowthFactor hz.filled hvalues hstart
  obtain ⟨state, hstate, hg⟩ := coalesce_grown hs .ascending lsmGrowthFactor hz.filled hvalues hgleft
  refine ⟨⟨state.range.keyMin, state.range.keyMax, state.range⟩, ?_, hg.covers, hg.closed.exact,
    List.pairwise_map.mpr hg.closed.ordered, (List.length_map ..).le.trans hg.count.2, fun h => ?_⟩
  · unfold immutableTableCompactionRange
    rw [assert_of hr, ok_bind, assert_of hcount.1, ok_bind, assert_of hcount.2, ok_bind]
    dsimp only
    rw [assert_of (hz.visible.le.trans hz.count), ok_bind, hoverlap, ok_bind]
    dsimp only
    have hsize : target < 2 ^ 32 := by omega
    have hless : valueCount + values (infos overlap) < 2 ^ 32 := by omega
    rw [htargetEq, assert_of hsize, ok_bind, assert_of htarget.2, ok_bind, assert_of htarget.1,
      ok_bind, hsum, assert_of hless, ok_bind, hleft, ok_bind, hstate, ok_bind]
    -- a table is only coalesced if the values were too few before
    by_cases hcoalesced : state.range.tables.length > overlap.tables.length ∧
        state.coalescedSmallTable = true
    case pos =>
      rw [if_neg (not_not.mpr hcoalesced), assert_of hg.closed.le, ok_bind, assert_of hg.covers.1,
        ok_bind, assert_of hg.covers.2, ok_bind, assertDisjoint_of hg.closed.ordered]
      rfl
    case neg =>
      have hsame : state.range.tables.length = overlap.tables.length := by
        obtain hsmall | hsmall := hg.small
        · have hnot : ¬state.range.tables.length > overlap.tables.length :=
            fun h => hcoalesced ⟨h, hsmall⟩
          have hle := hg.count.1
          omega
        · exact hsmall.2
      rw [if_pos hcoalesced, assert_of hsame, ok_bind, assert_of hg.closed.le, ok_bind,
        assert_of hg.covers.1, ok_bind, assert_of hg.covers.2, ok_bind, assertDisjoint_of hg.closed.ordered]
      rfl
  · have hbound := hg.bound h
    rw [hg.output] at hbound
    exact hbound

theorem zero_lt_lsmLevels : 0 < lsmLevels := by
  decide

-- What the compaction of an immutable table relies on, for every table that may come: the range that is
-- returned is compactable, if there are not too many tables and their values can be counted.
def Compacts (spec : ManifestLevelSpec) (manifest : Manifest Key) (tables : List (TableInfo Key)) :
    Prop :=
  ∀ (r : KeyRange Key) (valueCount valueCountMax : Nat), r.keyMin ≤ r.keyMax →
    0 < valueCount ∧ valueCount ≤ valueCountMax → 2 < valueCountMax ∧ valueCountMax < 2 ^ 32 →
    (manifest.levels ⟨0, zero_lt_lsmLevels⟩).tableCountVisible ≤ lsmGrowthFactor →
    valueCount + visibleValues tables < 2 ^ 32 →
    ∃ range, manifest.immutableTableCompactionRange spec r.keyMin r.keyMax valueCount valueCountMax =
      .ok range ∧ Compactable tables r valueCount valueCountMax range

-- In every run whose insertions are separate the range is compactable.
theorem compacts_of_separate
    (h : Reaches spec (fun tables _ table => Separate tables table) Updatable
      (manifest.levels ⟨0, by decide⟩)) :
    ∃ tables, (manifest.levels ⟨0, by decide⟩).tables.toList spec.tablesSpec = .ok tables ∧
      DisjointAt snapshotLatest tables ∧ Compacts spec manifest tables := by
  obtain ⟨tables, hk⟩ := kept_of_separate h
  refine ⟨tables, hk.agrees.tables.toList, hk.stocked.disjoint,
    fun r valueCount valueCountMax hr hcount hmax hfew hvalues => ?_⟩
  exact immutableTableCompactionRange_compactable
    ⟨hk.stocked, hk.filled, hk.count, hk.count.symm.le.trans hfew⟩ hr hcount hmax hvalues

section Missed

attribute [local instance] neZero_word neZero_wide

def lower : TableInfo (Fin (2 ^ 64)) :=
  between 1 10 20 (2 ^ 64 - 1)

def upper : TableInfo (Fin (2 ^ 64)) :=
  between 2 30 40 (2 ^ 64 - 1)

def neighbours : Result (ManifestLevel (Fin (2 ^ 64))) := do
  let level ← new driftSpec
  let level ← level.insertTable driftSpec lower
  level.insertTable driftSpec upper

theorem neighbours_tables :
    (do (← neighbours).tables.toList driftSpec.tablesSpec) = .ok [lower, upper] := by
  decide

theorem compacts_of_separate_current : ∃ manifest : Manifest (Fin (2 ^ 64)),
    (manifest.levels ⟨0, by decide⟩).tables.toList driftSpec.tablesSpec = .ok [lower, upper] ∧
      DisjointAt snapshotLatest [lower, upper] ∧ Compacts driftSpec manifest [lower, upper] := by
  obtain ⟨level₂, hlevel, htables⟩ := bind_eq_ok.mp neighbours_tables
  obtain ⟨level₀, hnew, hlevel⟩ := bind_eq_ok.mp hlevel
  obtain ⟨level₁, hfirst, hsecond⟩ := bind_eq_ok.mp hlevel
  have hagrees := (new_agrees hnew).insertTable (by decide) nofun hfirst
  have hlower : Separate [] lower := ⟨nofun, by decide, nofun, by decide⟩
  have hupper : Separate [lower] upper :=
    ⟨List.forall_mem_singleton.mpr (by decide), by decide,
      List.forall_mem_singleton.mpr fun _ _ => .inr (by decide), by decide⟩
  have hreaches : Reaches driftSpec (fun tables _ table => Separate tables table) Updatable level₂ :=
    .insertTable (.insertTable (.new hnew) (new_agrees hnew).tables.toList (by decide) hlower hfirst)
      hagrees.tables.toList (by decide) hupper hsecond
  obtain ⟨tables, hlist, hcompacts⟩ := @compacts_of_separate _ _ _ _ _ _ ⟨fun _ => level₂⟩ hreaches
  cases hlist.symm.trans htables
  exact ⟨⟨fun _ => level₂⟩, htables, hcompacts⟩
def missedRange : Result (Fin (2 ^ 128) × Fin (2 ^ 128) × List (TableInfo (Fin (2 ^ 128)))) := do
  let level ← drift
  assert (level.tableCountVisible ≤ lsmGrowthFactor) "table_count_visible() <= LSM_GROWTH_FACTOR"
  let range ← (Manifest.mk fun _ => level).immutableTableCompactionRange driftSpec 1 1 9 10
  return (range.keyMin, range.keyMax, infos range.tables)

theorem missed_range : missedRange = .ok (1, 1, []) := by
  decide

-- A table with the key of the immutable one is not in the range: the tables are not in the order of their
-- keys.
theorem not_compacts : ¬∀ (spec : ManifestLevelSpec) (manifest : Manifest (Fin (2 ^ 128)))
    (tables : List (TableInfo (Fin (2 ^ 128)))),
    Reaches spec (fun tables _ table => Apart tables table) Updatable (manifest.levels ⟨0, by decide⟩) →
    (manifest.levels ⟨0, by decide⟩).tables.toList spec.tablesSpec = .ok tables →
    DisjointAt snapshotLatest tables → Compacts spec manifest tables := by
  intro hclaim
  obtain ⟨level₂, hdrift, hmissed⟩ := bind_eq_ok.mp missed_range
  obtain ⟨hfew, hmissed⟩ := assert_ok hmissed
  obtain ⟨range, hrun, hmissed⟩ := bind_eq_ok.mp hmissed
  have hrange := Prod.ext_iff.mp (Except.ok.inj hmissed)
  have hends := Prod.ext_iff.mp hrange.2
  have hmin : range.keyMin = 1 := hrange.1
  have hmax : range.keyMax = 1 := hends.1
  have hnone : infos range.tables = [] := hends.2
  have hlists := drift_lists
  unfold listsOf at hlists
  rw [hdrift, ok_bind] at hlists
  obtain ⟨_, _, hlists⟩ := bind_eq_ok.mp hlists
  obtain ⟨list, hlist, hlists⟩ := bind_eq_ok.mp hlists
  cases hlists
  obtain ⟨level₀, hnew, hdrift'⟩ := bind_eq_ok.mp hdrift
  obtain ⟨level₁, hfirst, hsecond⟩ := bind_eq_ok.mp hdrift'
  have hreaches₁ : Reaches driftSpec (fun tables _ table => Apart tables table) Updatable level₁ :=
    .insertTable (.new hnew) (new_agrees hnew).tables.toList (by decide) ⟨le_refl _, nofun⟩ hfirst
  have hagrees₁ := (new_agrees hnew).insertTable (by decide) nofun hfirst
  have hreaches₂ : Reaches driftSpec (fun tables _ table => Apart tables table) Updatable level₂ :=
    .insertTable hreaches₁ hagrees₁.tables.toList (by decide) apart_single hsecond
  have hdisjoint : DisjointAt snapshotLatest [single 1 ⟨2 ^ 64, by decide⟩, single 2 1] :=
    List.pairwise_pair.mpr fun _ _ => .inr (by decide)
  obtain ⟨range', hrun', hcompactable⟩ := hclaim driftSpec ⟨fun _ => level₂⟩ _ hreaches₂ hlist hdisjoint
    ⟨1, 1⟩ 9 10 le_rfl (by decide) (by decide) hfew (by decide)
  cases hrun.symm.trans hrun'
  have hmem := (hcompactable.exact (single 2 1)).mpr
    ⟨⟨List.mem_cons_of_mem _ List.mem_cons_self, by decide⟩, fun _ hr => by
      rw [← Option.some.inj hr, hmin, hmax]
      decide⟩
  rw [hnone] at hmem
  cases hmem

end Missed

end Manifest

end TigerBeetle
