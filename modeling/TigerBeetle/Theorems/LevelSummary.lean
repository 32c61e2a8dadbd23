import TigerBeetle.Theorems.ParallelArrays

namespace TigerBeetle

open Fallible

namespace SegmentedArray

variable {Key Value : Type} {spec : SegmentedArraySpec Key Value} {array : SegmentedArray Value}
variable {contents before after : List (List Value)} {xs : List Value} {i : Nat} {cursor : Cursor}
variable {iterator : Iterator} {direction : Direction}

theorem Refines.iteratorFromCursor_at (r : Refines spec array contents)
    (hloc : Located contents cursor i before xs after) (hlt : cursor.relativeIndex < xs.length)
    (h : array.iteratorFromCursor spec cursor direction = .ok iterator) :
    iterator.direction = direction ∧ At contents iterator i := by
  have hx : contents[cursor.node]? = some xs := by
    rw [hloc.split, hloc.node]
    exact getElem?_split
  have hcount : contents.length ≠ 0 := by
    rw [hloc.split]
    simp
  unfold iteratorFromCursor at h
  rw [r.holds.nodeCount, if_neg hcount, r.holds.count hx] at h
  have hgo : ∀ message message' : String, (do
      assert (cursor.node < contents.length) message
      assert (cursor.relativeIndex < xs.length) message'
      return { direction, cursor, done := false } : Result Iterator) = .ok iterator →
      iterator.direction = direction ∧ At contents iterator i := fun message message' hret => by
    obtain ⟨_, hret⟩ := assert_ok hret
    obtain ⟨_, hret⟩ := assert_ok hret
    cases hret
    exact ⟨rfl, rfl, before, xs, after, hloc, hlt⟩
  by_cases hlast : cursor.node = contents.length - 1
  case pos =>
    rw [if_pos hlast, ok_bind, decide_eq_false hlt.ne] at h
    exact hgo _ _ h
  case neg =>
    rw [if_neg hlast] at h
    exact hgo _ _ h

theorem Refines.iteratorFromLast_ok (r : Refines spec array contents)
    (hl : array.last spec = .ok cursor)
    (h : array.iteratorFromCursor spec cursor direction = .ok iterator) :
    iterator.done = true ∨ iterator.direction = direction ∧
      At contents iterator (contents.flatten.length - 1) := by
  cases hrev : contents.reverse with
  | nil =>
    obtain rfl := List.reverse_eq_nil_iff.mp hrev
    have hcount : array.nodeCount = 0 := r.holds.nodeCount
    unfold iteratorFromCursor at h
    rw [hcount, if_pos rfl] at h
    obtain ⟨_, h⟩ := assert_ok h
    obtain ⟨_, h⟩ := assert_ok h
    cases h
    exact .inl rfl
  | cons xs rest =>
    obtain rfl : contents = rest.reverse ++ [xs] := by simpa using congrArg List.reverse hrev
    have hpos := List.length_pos_iff.mpr (r.packed.ne_nil (List.mem_append_right _
      (List.mem_singleton_self xs)))
    have hnode : (rest.reverse ++ [xs]).length - 1 = rest.reverse.length := by simp
    unfold SegmentedArray.last at hl
    rw [r.holds.nodeCount, if_neg (by simp), hnode, r.holds.count getElem?_split, ok_bind] at hl
    obtain ⟨_, hl⟩ := assert_ok hl
    cases hl
    have hindex : (rest.reverse ++ [xs]).flatten.length - 1 =
        rest.reverse.flatten.length + (xs.length - 1) := by
      rw [List.flatten_append, List.length_append]
      simp only [List.flatten_cons, List.flatten_nil, List.append_nil]
      omega
    refine .inr (r.iteratorFromCursor_at ⟨rfl, rfl, hindex, ?_, fun h => absurd rfl h⟩ ?_ h)
    all_goals
      dsimp only
      omega

end SegmentedArray

namespace ManifestLevel

open SegmentedArray

variable {Key : Type} [LinearOrder Key] [TableKey Key] {spec : ManifestLevelSpec}
variable {level level' : ManifestLevel Key} {table : TableInfo Key} {tables : List (TableInfo Key)}
variable {i : Nat}

-- Whether a table is visible now.
def live (table : TableInfo Key) : Bool :=
  table.snapshotMin ≤ snapshotLatest ∧ snapshotLatest ≤ table.snapshotMax

omit [LinearOrder Key] [TableKey Key] in
theorem visible_ok {visible : Bool} (h : table.visible snapshotLatest = .ok visible) :
    visible = live table := by
  unfold TableInfo.visible at h
  obtain ⟨_, h⟩ := assert_ok h
  obtain ⟨_, h⟩ := assert_ok h
  obtain ⟨_, h⟩ := assert_ok h
  exact (Except.ok.inj h).symm

omit [LinearOrder Key] [TableKey Key] in
theorem visibleAny_ok {visible : Bool} (h : table.visibleAny [snapshotLatest] = .ok visible) :
    visible = live table := by
  unfold TableInfo.visibleAny at h
  obtain ⟨v, hv, h⟩ := bind_eq_ok.mp h
  rw [← visible_ok hv]
  cases v with
  | true  => exact (Except.ok.inj h).symm
  | false => exact (Except.ok.inj h).symm

theorem next_done {iterator : LevelIterator Key} (fuel : Nat) (h : iterator.inner.done = true) :
    iterator.next spec level fuel = .ok none := by
  cases fuel with
  | zero => rfl
  | succ fuel =>
    unfold LevelIterator.next Iterator.next
    rw [if_pos h]
    rfl

-- An iterator over the tables that are visible now.
def liveIterator (inner : Iterator) (direction : Direction) : LevelIterator Key where
  inner
  visibility := .visible
  snapshots := [snapshotLatest]
  direction
  keyRange := none

variable {direction : Direction}

theorem next_live {inner inner' : Iterator} {value : TableInfo Key}
    {after : LevelIterator Key} {fuel : Nat}
    (hn : inner.next spec.tablesSpec level.tables = .ok (some (value, inner')))
    (h : (liveIterator inner direction).next spec level (fuel + 1) = .ok (some (table, after))) :
    live value = true ∧ value = table ∨ live value = false ∧
      (liveIterator inner' direction).next spec level fuel = .ok (some (table, after)) := by
  unfold liveIterator LevelIterator.next at h
  rw [hn, ok_bind] at h
  dsimp only at h
  obtain ⟨matched, hm, h⟩ := bind_eq_ok.mp h
  obtain rfl := visibleAny_ok hm
  cases hlive : live value with
  | false =>
    rw [hlive, if_pos (by decide)] at h
    exact .inr ⟨rfl, h⟩
  | true =>
    rw [hlive, if_neg (by decide)] at h
    cases h
    exact .inl ⟨rfl, rfl⟩

theorem next_ok {contents : List (List (TableInfo Key))} {inner : Iterator}
    {after : LevelIterator Key} (fuel : Nat) (r : Refines spec.tablesSpec level.tables contents)
    (hat : At contents inner i ∨ inner.done = true)
    (h : (liveIterator inner direction).next spec level fuel = .ok (some (table, after))) :
    ∃ k, contents.flatten[k]? = some table ∧ live table = true ∧
      match inner.direction with
      | .ascending  => i ≤ k ∧ ∀ j x, i ≤ j → j < k → contents.flatten[j]? = some x → live x = false
      | .descending => k ≤ i ∧ ∀ j x, k < j → j ≤ i → contents.flatten[j]? = some x → live x = false := by
  induction fuel generalizing inner i with
  | zero => cases h
  | succ fuel ih =>
    obtain hat | hdone := hat
    case inr =>
      rw [next_done _ hdone] at h
      cases h
    case inl =>
      cases hd : inner.direction with
      | ascending =>
        obtain ⟨value, inner', hn, hvalue, hd', hnext⟩ := r.next_ascending hat hd
        obtain ⟨hlive, rfl⟩ | ⟨hdead, hrest⟩ := next_live hn h
        case inl => exact ⟨i, hvalue, hlive, Nat.le_refl _, fun j x hij hji => by omega⟩
        case inr =>
          have hat' : At contents inner' (i + 1) ∨ inner'.done = true := by
            split at hnext
            case isTrue => exact .inr hnext
            case isFalse => exact .inl hnext
          obtain ⟨k, hk, hlive, hbetween⟩ := ih hat' hrest
          rw [hd'] at hbetween
          refine ⟨k, hk, hlive, by have := hbetween.1; omega, fun j x hij hjk hx => ?_⟩
          obtain rfl | hlt := Nat.eq_or_lt_of_le hij
          · cases hvalue.symm.trans hx
            exact hdead
          · exact hbetween.2 j x hlt hjk hx
      | descending =>
        obtain ⟨value, inner', hn, hvalue, hd', hnext⟩ := r.next_descending hat hd
        obtain ⟨hlive, rfl⟩ | ⟨hdead, hrest⟩ := next_live hn h
        case inl => exact ⟨i, hvalue, hlive, Nat.le_refl _, fun j x hij hji => by omega⟩
        case inr =>
          split at hnext
          case isTrue =>
            rw [next_done _ hnext] at hrest
            cases hrest
          case isFalse hne =>
            obtain ⟨k, hk, hlive, hbetween⟩ := ih (.inl hnext) hrest
            rw [hd'] at hbetween
            refine ⟨k, hk, hlive, by have := hbetween.1; omega, fun j x hkj hji hx => ?_⟩
            obtain rfl | hlt := Nat.eq_or_lt_of_le hji
            · cases hvalue.symm.trans hx
              exact hdead
            · exact hbetween.2 j x hkj (by omega) hx

theorem firstVisible_ok (ha : Stands spec.tablesSpec level.tables tables)
    (h : level.firstVisible spec direction = .ok table) :
    ∃ k, tables[k]? = some table ∧ live table = true ∧
      match direction with
      | .ascending  => ∀ (j : Nat) (x : TableInfo Key), j < k → tables[j]? = some x → live x = false
      | .descending => ∀ (j : Nat) (x : TableInfo Key), k < j → tables[j]? = some x → live x = false := by
  obtain ⟨contents, r, rfl, _⟩ := ha
  unfold firstVisible at h
  obtain ⟨itr, hitr, h⟩ := bind_eq_ok.mp h
  obtain ⟨_, _, h⟩ := bind_eq_ok.mp h
  obtain ⟨found, hnext, h⟩ := bind_eq_ok.mp h
  cases found with
  | none => cases h
  | some found =>
    obtain ⟨found, after⟩ := found
    cases h
    unfold iterator at hitr
    obtain ⟨_, hitr⟩ := assert_ok hitr
    dsimp only at hitr
    cases direction with
    | ascending =>
      obtain ⟨inner, hinner, hitr⟩ := bind_eq_ok.mp hitr
      cases hitr
      obtain ⟨hd, hat⟩ := r.iteratorFromIndex_ok hinner
      obtain ⟨k, hk, hlive, hbefore⟩ := @next_ok _ _ _ _ _ _ 0 .ascending contents inner _ _ r hat hnext
      rw [hd] at hbefore
      exact ⟨k, hk, hlive, fun j x hjk hx => hbefore.2 j x (Nat.zero_le _) hjk hx⟩
    | descending =>
      obtain ⟨cursor, hcursor, hitr⟩ := bind_eq_ok.mp hitr
      obtain ⟨inner, hinner, hitr⟩ := bind_eq_ok.mp hitr
      cases hitr
      obtain hdone | ⟨hd, hat⟩ := r.iteratorFromLast_ok hcursor hinner
      case inl =>
        cases hnext.symm.trans (next_done _ hdone)
      case inr =>
        obtain ⟨k, hk, hlive, hbehind⟩ :=
          @next_ok _ _ _ _ _ _ (contents.flatten.length - 1) .descending contents inner _ _ r (.inl hat)
            hnext
        rw [hd] at hbehind
        refine ⟨k, hk, hlive, fun j x hkj hx => hbehind.2 j x hkj ?_ hx⟩
        have := (List.getElem?_eq_some_iff.mp hx).1
        omega

-- No other table covers the keys of a table that is visible now.
def LiveApart (a b : TableInfo Key) : Prop :=
  live a = true → live b = true → a.keyMax < b.keyMin ∨ b.keyMax < a.keyMin

-- The range is the smallest one that covers the tables that are visible now.
def Covers (tables : List (TableInfo Key)) : Option (KeyRange Key) → Prop
  | none       => ∀ table ∈ tables, live table = false
  | some range =>
    (∃ table ∈ tables, live table = true ∧ table.keyMin = range.keyMin) ∧
    (∃ table ∈ tables, live table = true ∧ table.keyMax = range.keyMax) ∧
    ∀ table ∈ tables, live table = true → range.keyMin ≤ table.keyMin ∧ table.keyMax ≤ range.keyMax

def liveCount (tables : List (TableInfo Key)) : Nat :=
  tables.countP live

def liveValues (tables : List (TableInfo Key)) : Nat :=
  ((tables.filter live).map TableInfo.valueCount).sum

structure Summary (level : ManifestLevel Key) (tables : List (TableInfo Key)) : Prop where
  range : Covers tables level.keyRangeLatest
  count : level.tableCountVisible = liveCount tables
  values : level.valueCountVisible = liveValues tables

-- What holds of the tables of a level.
structure Disjoint (tables : List (TableInfo Key)) : Prop where
  ordered : ∀ table ∈ tables, table.keyMin ≤ table.keyMax
  apart : tables.Pairwise LiveApart

variable {after : List (TableInfo Key)}

section Summaries

omit [TableKey Key]

theorem LiveApart.symm {a b : TableInfo Key} (h : LiveApart a b) : LiveApart b a :=
  fun hb ha => (h ha hb).symm

theorem Covers.insert {range : Option (KeyRange Key)}
    (hc : Covers tables range) (hperm : after.Perm (table :: tables))
    (hok : live table = true ∨ ∃ current, range = some current ∧
      current.keyMin ≤ table.keyMin ∧ table.keyMax ≤ current.keyMax) :
    Covers after (some (hull range ⟨table.keyMin, table.keyMax⟩)) := by
  have hmem : ∀ t, t ∈ after ↔ t = table ∨ t ∈ tables := fun t => by
    rw [hperm.mem_iff, List.mem_cons]
  cases range with
  | none =>
    have hlive : live table = true := by
      obtain hlive | ⟨_, hnone, _⟩ := hok
      · exact hlive
      · cases hnone
    refine ⟨⟨table, (hmem _).mpr (.inl rfl), hlive, rfl⟩, ⟨table, (hmem _).mpr (.inl rfl), hlive, rfl⟩,
      fun t ht hl => ?_⟩
    obtain rfl | ht := (hmem t).mp ht
    · exact ⟨le_refl _, le_refl _⟩
    · rw [hc t ht] at hl
      cases hl
  | some current =>
    obtain ⟨⟨a, ha, hla, hmin⟩, ⟨b, hb, hlb, hmax⟩, hall⟩ := hc
    unfold hull
    dsimp only
    refine ⟨?_, ?_, fun t ht hl => ?_⟩
    · rcases le_or_gt current.keyMin table.keyMin with hle | hgt
      · exact ⟨a, (hmem _).mpr (.inr ha), hla, by rw [hmin, min_eq_left hle]⟩
      · obtain hlive | ⟨_, heq, hle, _⟩ := hok
        · exact ⟨table, (hmem _).mpr (.inl rfl), hlive, (min_eq_right hgt.le).symm⟩
        · cases heq
          exact absurd hle (not_le.mpr hgt)
    · rcases le_or_gt table.keyMax current.keyMax with hle | hgt
      · exact ⟨b, (hmem _).mpr (.inr hb), hlb, by rw [hmax, max_eq_left hle]⟩
      · obtain hlive | ⟨_, heq, _, hle⟩ := hok
        · exact ⟨table, (hmem _).mpr (.inl rfl), hlive, (max_eq_right hgt.le).symm⟩
        · cases heq
          exact absurd hle (not_le.mpr hgt)
    · obtain rfl | ht := (hmem t).mp ht
      · exact ⟨min_le_right _ _, le_max_right _ _⟩
      · obtain ⟨h₁, h₂⟩ := hall t ht hl
        exact ⟨(min_le_left _ _).trans h₁, h₂.trans (le_max_left _ _)⟩

theorem Covers.of_mem {range : Option (KeyRange Key)}
    (hc : Covers tables range) (hmem : ∀ t, live t = true → (t ∈ tables ↔ t ∈ after)) :
    Covers after range := by
  cases range with
  | none =>
    intro t ht
    by_contra hl
    have hlive := Bool.eq_true_of_not_eq_false hl
    exact hl (hc t ((hmem t hlive).mpr ht))
  | some current =>
    obtain ⟨⟨a, ha, hla, hmin⟩, ⟨b, hb, hlb, hmax⟩, hall⟩ := hc
    exact ⟨⟨a, (hmem a hla).mp ha, hla, hmin⟩, ⟨b, (hmem b hlb).mp hb, hlb, hmax⟩,
      fun t ht hl => hall t ((hmem t hl).mpr ht) hl⟩

-- The first visible tables of what is left mark the ends of the range.
theorem Covers.exclude {current after : KeyRange Key} {rest : List (TableInfo Key)}
    (hc : Covers tables (some current))
    (hmem : ∀ t, live t = true → (t ∈ tables ↔ t = table ∨ t ∈ rest))
    (hmax : if table.keyMax = current.keyMax then
        ∃ last ∈ rest, live last = true ∧ after.keyMax = last.keyMax ∧
          ∀ t ∈ rest, live t = true → t.keyMax ≤ last.keyMax
      else after.keyMax = current.keyMax)
    (hmin : if table.keyMin = current.keyMin then
        ∃ first ∈ rest, live first = true ∧ after.keyMin = first.keyMin ∧
          ∀ t ∈ rest, live t = true → first.keyMin ≤ t.keyMin
      else after.keyMin = current.keyMin) : Covers rest (some after) := by
  obtain ⟨⟨a, ha, hla, hamin⟩, ⟨b, hb, hlb, hbmax⟩, hall⟩ := hc
  have hends : (∃ t ∈ rest, live t = true ∧ t.keyMin = after.keyMin) ∧
      ∀ t ∈ rest, live t = true → after.keyMin ≤ t.keyMin := by
    split at hmin
    case isTrue =>
      obtain ⟨first, hf, hlf, heq, hle⟩ := hmin
      exact ⟨⟨first, hf, hlf, heq.symm⟩, fun t ht hl => heq ▸ hle t ht hl⟩
    case isFalse hne =>
      refine ⟨⟨a, ((hmem a hla).mp ha).resolve_left fun h => hne (h ▸ hamin), hla, hamin.trans hmin.symm⟩,
        fun t ht hl => hmin ▸ (hall t ((hmem t hl).mpr (.inr ht)) hl).1⟩
  have hends' : (∃ t ∈ rest, live t = true ∧ t.keyMax = after.keyMax) ∧
      ∀ t ∈ rest, live t = true → t.keyMax ≤ after.keyMax := by
    split at hmax
    case isTrue =>
      obtain ⟨last, hf, hlf, heq, hle⟩ := hmax
      exact ⟨⟨last, hf, hlf, heq.symm⟩, fun t ht hl => heq ▸ hle t ht hl⟩
    case isFalse hne =>
      refine ⟨⟨b, ((hmem b hlb).mp hb).resolve_left fun h => hne (h ▸ hbmax), hlb, hbmax.trans hmax.symm⟩,
        fun t ht hl => hmax ▸ (hall t ((hmem t hl).mpr (.inr ht)) hl).2⟩
  exact ⟨hends.1, hends'.1, fun t ht hl => ⟨hends.2 t ht hl, hends'.2 t ht hl⟩⟩

omit [LinearOrder Key] in
theorem liveCount_perm (hperm : after.Perm (table :: tables)) :
    liveCount after = if live table then liveCount tables + 1 else liveCount tables := by
  unfold liveCount
  rw [hperm.countP_eq, List.countP_cons]
  split <;> rfl

omit [LinearOrder Key] in
theorem liveValues_perm (hperm : after.Perm (table :: tables)) :
    liveValues after =
      if live table then liveValues tables + table.valueCount else liveValues tables := by
  unfold liveValues
  rw [((hperm.filter live).map TableInfo.valueCount).sum_nat, List.filter_cons]
  split
  · rw [List.map_cons, List.sum_cons, Nat.add_comm]
  · rfl

end Summaries

theorem last_of_firstVisible {last : TableInfo Key}
    (ha : Agrees spec level after) (h : level.firstVisible spec .descending = .ok last) :
    last ∈ after ∧ live last = true ∧ ∀ t ∈ after, live t = true → t.keyMax ≤ last.keyMax := by
  obtain ⟨k, hk, hlive, hbehind⟩ := firstVisible_ok ha.tables h
  refine ⟨List.mem_of_getElem? hk, hlive, fun t ht hl => ?_⟩
  obtain ⟨j, hj⟩ := List.mem_iff_getElem?.mp ht
  have hjk : j ≤ k := by
    by_contra hlt
    rw [hbehind j t (by omega) hj] at hl
    cases hl
  obtain rfl | hlt := Nat.eq_or_lt_of_le hjk
  · cases hj.symm.trans hk
    exact le_refl _
  · obtain ⟨hj', rfl⟩ := List.getElem?_eq_some_iff.mp hj
    obtain ⟨hk', rfl⟩ := List.getElem?_eq_some_iff.mp hk
    exact List.pairwise_iff_getElem.mp (List.pairwise_map.mp ha.sorted) j k hj' hk' hlt

theorem first_of_firstVisible {first : TableInfo Key}
    (ha : Agrees spec level after) (hd : Disjoint after)
    (h : level.firstVisible spec .ascending = .ok first) :
    first ∈ after ∧ live first = true ∧ ∀ t ∈ after, live t = true → first.keyMin ≤ t.keyMin := by
  obtain ⟨k, hk, hlive, hbefore⟩ := firstVisible_ok ha.tables h
  refine ⟨List.mem_of_getElem? hk, hlive, fun t ht hl => ?_⟩
  obtain ⟨j, hj⟩ := List.mem_iff_getElem?.mp ht
  have hkj : k ≤ j := by
    by_contra hlt
    rw [hbefore j t (by omega) hj] at hl
    cases hl
  obtain rfl | hlt := Nat.eq_or_lt_of_le hkj
  · cases hj.symm.trans hk
    exact le_refl _
  · have hfirst := hd.ordered first (List.mem_of_getElem? hk)
    obtain ⟨hj', rfl⟩ := List.getElem?_eq_some_iff.mp hj
    obtain ⟨hk', rfl⟩ := List.getElem?_eq_some_iff.mp hk
    have hsorted := List.pairwise_iff_getElem.mp (List.pairwise_map.mp ha.sorted) k j hk' hj' hlt
    obtain hapart | hapart := List.pairwise_iff_getElem.mp hd.apart k j hk' hj' hlt hlive hl
    · exact hfirst.trans hapart.le
    · exact absurd (hapart.trans_le (hfirst.trans hsorted)) (lt_irrefl _)

-- A table that is no longer visible leaves the summary of the others.
theorem uncount_summary (ha : Agrees spec level after)
    (hd : Disjoint after) (hc : Covers tables level.keyRangeLatest)
    (hmem : ∀ t, live t = true → (t ∈ tables ↔ t = table ∨ t ∈ after))
    (hcount : level.tableCountVisible = liveCount after + 1)
    (hvalues : level.valueCountVisible = liveValues after + table.valueCount)
    (h : level.uncount spec table = .ok level') : Summary level' after := by
  obtain ⟨_, _, h⟩ := uncount_ok h
  obtain ⟨current, hcurrent, hafter⟩ := keyRangeLatestExclude_ok h
  dsimp only at hcurrent hafter
  rw [hcurrent] at hc
  rw [hcount, hvalues, Nat.add_sub_cancel, Nat.add_sub_cancel] at hafter
  obtain ⟨hzero, rfl⟩ | ⟨_, range, hex, rfl⟩ := hafter
  case inl =>
    refine ⟨fun t ht => ?_, rfl, rfl⟩
    unfold liveCount at hzero
    simpa using List.countP_eq_zero.mp hzero t ht
  case inr =>
    have ha' : Agrees spec { level with
        tableCountVisible := liveCount after
        valueCountVisible := liveValues after } after := ⟨ha.keys, ha.tables⟩
    refine ⟨hc.exclude hmem ?_ ?_, rfl, rfl⟩
    · have hkeyMax := hex.keyMax
      split at hkeyMax
      case isTrue heq =>
        obtain ⟨last, hlast, hrange⟩ := hkeyMax
        obtain ⟨hm, hlive, hle⟩ := last_of_firstVisible ha' hlast
        rw [if_pos heq]
        exact ⟨last, hm, hlive, hrange, hle⟩
      case isFalse hne => rwa [if_neg hne]
    · have hkeyMin := hex.keyMin
      split at hkeyMin
      case isTrue heq =>
        obtain ⟨first, hfirst, hrange⟩ := hkeyMin
        obtain ⟨hm, hlive, hle⟩ := first_of_firstVisible ha' hd hfirst
        rw [if_pos heq]
        exact ⟨first, hm, hlive, hrange, hle⟩
      case isFalse hne => rwa [if_neg hne]

omit [TableKey Key] in
-- The tables after a step are those that are left, and one more.
theorem Disjoint.of_perm (hd : Disjoint tables)
    (hperm : after.Perm (table :: tables)) (ho : table.keyMin ≤ table.keyMax)
    (hapart : ∀ other ∈ tables, LiveApart table other) : Disjoint after := by
  refine ⟨fun t ht => ?_, (hperm.pairwise_iff LiveApart.symm).mpr
    (List.pairwise_cons.mpr ⟨hapart, hd.apart⟩)⟩
  obtain rfl | ht := List.mem_cons.mp (hperm.mem_iff.mp ht)
  · exact ho
  · exact hd.ordered t ht

omit [TableKey Key] in
theorem Disjoint.rest (hd : Disjoint tables)
    (hperm : tables.Perm (table :: after)) : Disjoint after := by
  refine ⟨fun t ht => hd.ordered t (hperm.mem_iff.mpr (List.mem_cons_of_mem _ ht)), ?_⟩
  exact (List.pairwise_cons.mp ((hperm.pairwise_iff LiveApart.symm).mp hd.apart)).2

-- A table is replaced from a snapshot on that it has been visible in.
def Updatable (snapshot : Nat) (table : TableInfo Key) : Prop :=
  table.snapshotMin ≤ snapshot

variable {snapshot : Nat}

omit [LinearOrder Key] [TableKey Key] in
theorem live_of_updatable (hu : Updatable snapshot table) (hs : snapshot < snapshotLatest)
    (hm : table.snapshotMax = 2 ^ 64 - 1) : live table = true := by
  unfold live
  rw [hm]
  exact decide_eq_true ⟨hu.trans hs.le, by decide⟩

omit [LinearOrder Key] [TableKey Key] in
theorem dead_of_updated (hs : snapshot < snapshotLatest) :
    live { table with snapshotMax := snapshot } = false := by
  unfold live
  exact decide_eq_false fun h => absurd h.2 (not_le.mpr hs)

omit [LinearOrder Key] [TableKey Key] in
theorem perm_eraseIdx (hv : tables[i]? = some table) : tables.Perm (table :: tables.eraseIdx i) := by
  obtain ⟨hlt, hget⟩ := List.getElem?_eq_some_iff.mp hv
  have hperm := List.getElem_cons_eraseIdx_perm hlt
  rw [hget] at hperm
  exact hperm.symm

omit [LinearOrder Key] [TableKey Key] in
theorem erase_perm (hv : tables[i]? = some table) :
    tables.Perm (table :: (tables.take i ++ tables.drop (i + 1))) := by
  rw [← List.eraseIdx_eq_take_drop_succ]
  exact perm_eraseIdx hv

theorem Summary.setSnapshotMax {tableRef : TableInfoReference Key}
    (ha : Agrees spec level tables) (hd : Disjoint tables) (hs : Summary level tables)
    (hu : Updatable snapshot tableRef.tableInfo)
    (h : level.setSnapshotMax spec snapshot tableRef = .ok level') :
    ∃ after, Agrees spec level' after ∧ Disjoint after ∧ Summary level' after := by
  obtain ⟨i, tables', hv, ha', hop⟩ := ha.setSnapshotMax h
  have hok := setSnapshotMax_ok h
  have hlive := live_of_updatable hu hok.1 hok.2.1
  have hdead := @dead_of_updated _ tableRef.tableInfo snapshot hok.1
  have hbefore := perm_eraseIdx hv
  have hafter := List.set_perm_cons_eraseIdx (List.getElem?_eq_some_iff.mp hv).1
    { tableRef.tableInfo with snapshotMax := snapshot }
  have hordered := hd.ordered _ (List.mem_of_getElem? hv)
  have hd' := (hd.rest hbefore).of_perm hafter hordered
    fun _ _ hl => by rw [hdead] at hl; cases hl
  refine ⟨_, ha'.of_uncount hop, hd', uncount_summary ha' hd' hs.range (fun t hl => ?_) ?_ ?_ hop⟩
  · rw [hbefore.mem_iff, hafter.mem_iff, List.mem_cons, List.mem_cons]
    refine or_congr_right ⟨.inr, fun ht => ht.resolve_left fun heq => ?_⟩
    rw [heq, hdead] at hl
    cases hl
  · rw [liveCount_perm hafter, hdead, if_neg Bool.false_ne_true, hs.count, liveCount_perm hbefore,
      if_pos hlive]
  · rw [liveValues_perm hafter, hdead, if_neg Bool.false_ne_true, hs.values, liveValues_perm hbefore,
      if_pos hlive]

theorem Summary.removeTable (ha : Agrees spec level tables) (hd : Disjoint tables)
    (hs : Summary level tables) (h : level.removeTable spec table = .ok level') :
    ∃ after, Agrees spec level' after ∧ Disjoint after ∧ Summary level' after := by
  obtain ⟨i, keys', tables', generation, visible, hv, hvisible, ha', hop⟩ := ha.removeTable h
  obtain rfl := visible_ok hvisible
  have hbefore := erase_perm hv
  have hd' := hd.rest hbefore
  refine ⟨_, ?_, hd', ?_⟩
  · split at hop
    case isTrue => exact ha'.of_uncount hop
    case isFalse =>
      cases hop
      exact ha'
  · split at hop
    case isTrue hlive =>
      refine uncount_summary ha' hd' hs.range (fun t _ => ?_) ?_ ?_ hop
      · rw [hbefore.mem_iff, List.mem_cons]
      · exact hs.count.trans (by rw [liveCount_perm hbefore, if_pos hlive])
      · exact hs.values.trans (by rw [liveValues_perm hbefore, if_pos hlive])
    case isFalse hdead =>
      cases hop
      refine ⟨?_, ?_, ?_⟩
      · refine hs.range.of_mem fun t hl => ?_
        rw [hbefore.mem_iff, List.mem_cons]
        exact ⟨fun ht => ht.resolve_left fun heq => hdead (heq ▸ hl), .inr⟩
      · exact hs.count.trans (by rw [liveCount_perm hbefore, if_neg hdead])
      · exact hs.values.trans (by rw [liveValues_perm hbefore, if_neg hdead])

section Runs

variable [Inhabited Key]

-- A table with ordered keys, apart from those that are visible now. It is visible as well, or within
-- the range of the level.
structure Insertable (tables : List (TableInfo Key)) (level : ManifestLevel Key)
    (table : TableInfo Key) : Prop where
  comparable : Comparable tables table
  ordered : table.keyMin ≤ table.keyMax
  apart : ∀ other ∈ tables, LiveApart table other
  covered : live table = true ∨ ∃ current, level.keyRangeLatest = some current ∧
    current.keyMin ≤ table.keyMin ∧ table.keyMax ≤ current.keyMax

theorem Summary.insertTable (hs : Summary level tables)
    (hi : Insertable tables level table) (h : level.insertTable spec table = .ok level') :
    Summary level' (inserted spec table tables) := by
  obtain ⟨_, keys, _, tables', visible, _, _, hvisible, h⟩ := insertTable_ok h
  obtain rfl := keyRangeLatestInclude_ok h
  obtain rfl := visible_ok hvisible
  have hperm : (inserted spec table tables).Perm (table :: tables) := perm_insert
  refine ⟨hs.range.insert hperm hi.covered, ?_, ?_⟩
  · rw [liveCount_perm hperm, ← hs.count]
  · rw [liveValues_perm hperm, ← hs.values]

theorem summary_of_insertable (h : Reaches spec Insertable Updatable level) :
    ∃ tables, level.tables.toList spec.tablesSpec = .ok tables ∧ Summary level tables := by
  have hinv : ∃ tables, Agrees spec level tables ∧ Disjoint tables ∧ Summary level tables := by
    induction h with
    | new hnew =>
      refine ⟨[], new_agrees hnew, ⟨nofun, .nil⟩, ?_⟩
      unfold ManifestLevel.new at hnew
      obtain ⟨_, _, hnew⟩ := bind_eq_ok.mp hnew
      obtain ⟨_, _, hnew⟩ := bind_eq_ok.mp hnew
      cases hnew
      exact ⟨nofun, rfl, rfl⟩
    | insertTable _ hlist hlt hinsertable hop ih =>
      obtain ⟨tables, ha, hd, hs⟩ := ih
      cases hlist.symm.trans ha.tables.toList
      exact ⟨_, ha.insertTable hlt hinsertable.comparable hop,
        hd.of_perm perm_insert hinsertable.ordered hinsertable.apart, hs.insertTable hinsertable hop⟩
    | setSnapshotMax _ hupdatable hop ih =>
      obtain ⟨tables, ha, hd, hs⟩ := ih
      exact hs.setSnapshotMax ha hd hupdatable hop
    | removeTable _ hop ih =>
      obtain ⟨tables, ha, hd, hs⟩ := ih
      exact hs.removeTable ha hd hop
  obtain ⟨tables, ha, _, hs⟩ := hinv
  exact ⟨tables, ha.tables.toList, hs⟩

end Runs

section Stale

attribute [local instance] neZero_word neZero_wide

-- A table of which only the last snapshot differs.
def between (id : Nat) (keyMin keyMax : Fin (2 ^ 64)) (snapshotMax : Nat) :
    TableInfo (Fin (2 ^ 64)) where
  checksum := id
  address := id
  snapshotMin := 1
  snapshotMax
  keyMin
  keyMax
  valueCount := 1

def stale : Result (ManifestLevel (Fin (2 ^ 64))) := do
  let level ← new driftSpec
  let level ← level.insertTable driftSpec (between 1 10 20 (2 ^ 64 - 1))
  level.insertTable driftSpec (between 2 30 40 50)

def summaryOf (result : Result (ManifestLevel (Fin (2 ^ 64)))) :
    Result (Option (KeyRange (Fin (2 ^ 64))) × List (TableInfo (Fin (2 ^ 64)))) := do
  let level ← result
  return (level.keyRangeLatest, ← level.tables.toList driftSpec.tablesSpec)

theorem stale_summary : summaryOf stale = .ok (some ⟨10, 40⟩,
    [between 1 10 20 (2 ^ 64 - 1), between 2 30 40 50]) := by
  decide

theorem apart_stale : Apart [between 1 10 20 (2 ^ 64 - 1)] (between 2 30 40 50) := by
  refine ⟨by decide, fun other hm _ => .inr ?_⟩
  rw [List.mem_singleton.mp hm]
  decide

-- A table that is no longer visible when it is inserted.
theorem not_summary : ¬∀ (spec : ManifestLevelSpec) (level : ManifestLevel (Fin (2 ^ 64))),
    Reaches spec (fun tables _ table => Apart tables table) Updatable level →
    ∃ tables, level.tables.toList spec.tablesSpec = .ok tables ∧ Summary level tables := by
  intro hclaim
  obtain ⟨level₂, hstale, hsummary⟩ := bind_eq_ok.mp stale_summary
  obtain ⟨level₀, hnew, hstale'⟩ := bind_eq_ok.mp hstale
  obtain ⟨level₁, hfirst, hsecond⟩ := bind_eq_ok.mp hstale'
  have hapart : Apart [] (between 1 10 20 (2 ^ 64 - 1)) := ⟨by decide, nofun⟩
  have hreaches₁ : Reaches driftSpec (fun tables _ table => Apart tables table) Updatable level₁ :=
    .insertTable (.new hnew) (new_agrees hnew).tables.toList (by decide) hapart hfirst
  have hagrees₁ := (new_agrees hnew).insertTable (by decide) nofun hfirst
  have hreaches₂ : Reaches driftSpec (fun tables _ table => Apart tables table) Updatable level₂ :=
    .insertTable hreaches₁ hagrees₁.tables.toList (by decide) apart_stale hsecond
  obtain ⟨tables, hlist, hs⟩ := hclaim driftSpec level₂ hreaches₂
  rw [hlist, ok_bind] at hsummary
  have heq := Prod.ext_iff.mp (Except.ok.inj hsummary)
  have hrange : level₂.keyRangeLatest = some ⟨10, 40⟩ := heq.1
  have htables : tables = [between 1 10 20 (2 ^ 64 - 1), between 2 30 40 50] := heq.2
  have hcovers := hs.range
  rw [hrange, htables] at hcovers
  obtain ⟨t, ht, hlive, hmax⟩ := hcovers.2.1
  have hcheck : ∀ t ∈ [between 1 10 20 (2 ^ 64 - 1), between 2 30 40 50], live t = true →
      t.keyMax ≠ 40 := by
    decide
  exact hcheck t ht hlive hmax

def current : Result (ManifestLevel (Fin (2 ^ 64))) := do
  let level ← new driftSpec
  let level ← level.insertTable driftSpec (between 1 10 20 (2 ^ 64 - 1))
  level.setSnapshotMax driftSpec 5 ⟨between 1 10 20 (2 ^ 64 - 1), 1⟩

theorem current_summary : summaryOf current = .ok (none, [between 1 10 20 5]) := by
  decide

theorem summary_of_insertable_current : ∃ level, current = .ok level ∧
    ∃ tables, level.tables.toList driftSpec.tablesSpec = .ok tables ∧ Summary level tables := by
  obtain ⟨level₂, hcurrent, _⟩ := bind_eq_ok.mp current_summary
  obtain ⟨level₀, hnew, hcurrent'⟩ := bind_eq_ok.mp hcurrent
  obtain ⟨level₁, hfirst, hsecond⟩ := bind_eq_ok.mp hcurrent'
  have hinsertable : Insertable [] level₀ (between 1 10 20 (2 ^ 64 - 1)) :=
    ⟨nofun, by decide, nofun, .inl (by decide)⟩
  have hupdatable : Updatable 5 (between 1 10 20 (2 ^ 64 - 1)) := (by decide : 1 ≤ 5)
  exact ⟨level₂, hcurrent, summary_of_insertable (.setSnapshotMax
    (.insertTable (.new hnew) (new_agrees hnew).tables.toList (by decide) hinsertable hfirst)
    hupdatable hsecond)⟩

end Stale

end ManifestLevel

end TigerBeetle
