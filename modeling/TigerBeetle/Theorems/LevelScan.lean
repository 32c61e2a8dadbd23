import TigerBeetle.Scan
import TigerBeetle.Manifest
import TigerBeetle.Theorems.LevelSummary

namespace TigerBeetle

open Fallible

namespace SegmentedArray

variable {Key Value : Type} {spec : SegmentedArraySpec Key Value} {array : SegmentedArray Value}
variable {contents : List (List Value)} {list : List Value} {i : Nat} {iterator : Iterator}
variable {direction : Direction} {cursor : Cursor}

-- An iterator that is to yield the elements of a list, one after the other.
def Feeds (spec : SegmentedArraySpec Key Value) (array : SegmentedArray Value) :
    Iterator → List Value → Prop
  | iterator, []              => iterator.next spec array = .ok none
  | iterator, value :: values => ∃ iterator', iterator.next spec array = .ok (some (value, iterator')) ∧
    Feeds spec array iterator' values

theorem feeds_done (h : iterator.done = true) : Feeds spec array iterator [] := by
  show iterator.next spec array = .ok none
  unfold Iterator.next
  rw [if_pos h]
  rfl

namespace Refines

theorem feeds_ascending (r : Refines spec array contents) (h : At contents iterator i)
    (hd : iterator.direction = .ascending) :
    Feeds spec array iterator (contents.flatten.drop i) := by
  have hi := lt_of_at h
  obtain ⟨n, hn⟩ : ∃ n, contents.flatten.length - i = n + 1 := ⟨_, (Nat.sub_add_cancel (by omega)).symm⟩
  induction n generalizing iterator i with
  | zero =>
    obtain ⟨value, iterator', hnext, hv, _, hmore⟩ := r.next_ascending h hd
    obtain ⟨_, hv'⟩ := List.getElem?_eq_some_iff.mp hv
    rw [if_pos (by omega)] at hmore
    rw [List.drop_eq_getElem_cons hi, hv', List.drop_of_length_le (by omega)]
    exact ⟨iterator', hnext, feeds_done hmore⟩
  | succ n ih =>
    obtain ⟨value, iterator', hnext, hv, hd', hmore⟩ := r.next_ascending h hd
    obtain ⟨_, hv'⟩ := List.getElem?_eq_some_iff.mp hv
    rw [if_neg (by omega)] at hmore
    rw [List.drop_eq_getElem_cons hi, hv']
    exact ⟨iterator', hnext, ih hmore hd' (lt_of_at hmore) (by omega)⟩

theorem feeds_descending (r : Refines spec array contents) (h : At contents iterator i)
    (hd : iterator.direction = .descending) :
    Feeds spec array iterator (contents.flatten.take (i + 1)).reverse := by
  induction i generalizing iterator with
  | zero =>
    obtain ⟨value, iterator', hnext, hv, _, hmore⟩ := r.next_descending h hd
    rw [if_pos rfl] at hmore
    rw [List.take_add_one, hv, Option.toList_some, List.reverse_append]
    exact ⟨iterator', hnext, feeds_done hmore⟩
  | succ i ih =>
    obtain ⟨value, iterator', hnext, hv, hd', hmore⟩ := r.next_descending h hd
    rw [if_neg (Nat.succ_ne_zero _), Nat.add_sub_cancel] at hmore
    rw [List.take_add_one, hv, Option.toList_some, List.reverse_append]
    exact ⟨iterator', hnext, ih hmore hd'⟩

theorem feeds (r : Refines spec array contents) (h : At contents iterator i) :
    Feeds spec array iterator (yielded contents.flatten i iterator.direction) := by
  cases hd : iterator.direction with
  | ascending  => exact r.feeds_ascending h hd
  | descending => exact r.feeds_descending h hd

end Refines

-- A cursor of an element.
def Points (contents : List (List Value)) (cursor : Cursor) (i : Nat) : Prop :=
  ∃ before xs after, Located contents cursor i before xs after ∧ cursor.relativeIndex < xs.length

theorem Points.lt (h : Points contents cursor i) : i < contents.flatten.length :=
  Refines.lt_of_at (show At contents ⟨.ascending, cursor, false⟩ i from ⟨rfl, h⟩)

namespace Refines

section

variable (r : Refines spec array contents)

include r

theorem points [LinearOrder Key]
    (h : array.absoluteIndexForCursor spec cursor = .ok i) (hi : i < contents.flatten.length) :
    Points contents cursor i := by
  have hne : contents ≠ [] := by
    rintro rfl
    simp at hi
  obtain ⟨before, xs, after, hloc⟩ := r.located hne h
  exact ⟨before, xs, after, hloc, hloc.lt_length hi⟩

theorem iteratorFromCursor_points (h : Points contents cursor i) :
    array.iteratorFromCursor spec cursor direction = .ok ⟨direction, cursor, false⟩ := by
  obtain ⟨before, xs, after, hloc, hlt⟩ := h
  have hx : contents[cursor.node]? = some xs := by
    rw [hloc.split, hloc.node]
    exact getElem?_split
  have hnode := (List.getElem?_eq_some_iff.mp hx).1
  unfold iteratorFromCursor
  rw [r.holds.nodeCount, if_neg (by omega), r.holds.count hx]
  by_cases hlast : cursor.node = contents.length - 1
  case pos =>
    rw [if_pos hlast, ok_bind, decide_eq_false hlt.ne]
    show (assert (cursor.node < contents.length) _ >>= _) = _
    rw [assert_of hnode, ok_bind, ok_bind, assert_of hlt]
    rfl
  case neg =>
    rw [if_neg hlast]
    show (assert (cursor.node < contents.length) _ >>= _) = _
    rw [assert_of hnode, ok_bind, ok_bind, assert_of hlt]
    rfl

theorem iteratorFromIndex_points [LinearOrder Key]
    (direction : Direction) (hi : i < contents.flatten.length) : ∃ cursor, Points contents cursor i ∧
      array.iteratorFromIndex spec i direction = .ok ⟨direction, cursor, false⟩ := by
  have hne : contents ≠ [] := by
    rintro rfl
    simp at hi
  have hpos := List.length_pos_iff.mpr hne
  obtain ⟨cursor, before, xs, after, hcur, hloc⟩ := r.holds.cursorForAbsoluteIndex hne r.nonempty r.bound
    hi.le (hi.trans_le r.bound)
  refine ⟨cursor, ⟨before, xs, after, hloc, hloc.lt_length hi⟩, ?_⟩
  unfold iteratorFromIndex
  rw [assert_of (hi.trans_le r.bound), ok_bind, r.holds.nodeCount, if_neg (by omega),
    r.holds.len r.bound, ok_bind, assert_of hi, ok_bind, hcur]
  rfl

theorem exists_points [LinearOrder Key]
    (hi : i < contents.flatten.length) : ∃ cursor, Points contents cursor i := by
  obtain ⟨cursor, hpoints, _⟩ := r.iteratorFromIndex_points .ascending hi
  exact ⟨cursor, hpoints⟩

theorem elementAtCursor_points {value : Value}
    (h : Points contents cursor i) (hv : contents.flatten[i]? = some value) :
    array.elementAtCursor spec cursor = .ok value := by
  obtain ⟨before, xs, after, hloc, hlt⟩ := h
  have hx : contents[cursor.node]? = some xs := by
    rw [hloc.split, hloc.node]
    exact getElem?_split
  unfold SegmentedArray.elementAtCursor
  rw [r.holds.nodeElements hx, ok_bind]
  exact read_eq_ok.mpr ((hloc.element hlt).symm.trans hv)

-- The cursors of the first and of the last element.
theorem first_of_points (h : Points contents cursor 0) : cursor = first := by
  obtain ⟨before, xs, after, hloc, _⟩ := h
  have hindex := hloc.index
  have hbefore : before = [] := by
    refine List.eq_nil_iff_forall_not_mem.mpr fun ys hm => ?_
    have hys := List.length_pos_iff.mpr (r.packed.ne_nil
      (show ys ∈ contents by rw [hloc.split]; exact List.mem_append_left _ hm))
    have hle := (List.sublist_flatten_of_mem hm).length_le
    omega
  have hnode := hloc.node
  subst hbefore
  obtain ⟨node, relativeIndex⟩ := cursor
  rw [List.flatten_nil, List.length_nil] at hindex
  rw [List.length_nil] at hnode
  dsimp only at hnode hindex
  unfold first
  congr
  omega

theorem last_of_points
    (h : Points contents cursor (contents.flatten.length - 1)) : array.last spec = .ok cursor := by
  obtain ⟨before, xs, after, hloc, hlt⟩ := h
  have hindex := hloc.index
  have hlen : contents.flatten.length = before.flatten.length + xs.length + after.flatten.length := by
    rw [hloc.split]
    simp [List.length_flatten, Nat.add_assoc]
  have hafter : after = [] := by
    refine List.eq_nil_iff_forall_not_mem.mpr fun ys hm => ?_
    have hys := List.length_pos_iff.mpr (r.packed.ne_nil
      (show ys ∈ contents by rw [hloc.split]; exact List.mem_append_right _ (List.mem_cons_of_mem _ hm)))
    have hle := (List.sublist_flatten_of_mem hm).length_le
    omega
  have hnode := hloc.node
  have hsplit := hloc.split
  subst hafter hsplit
  rw [List.flatten_nil, List.length_nil] at hlen
  have hcount : (before ++ [xs]).length - 1 = before.length := by simp
  unfold SegmentedArray.last
  rw [r.holds.nodeCount, if_neg (by simp), hcount, r.holds.count getElem?_split, ok_bind,
    assert_of (by omega)]
  obtain ⟨node, relativeIndex⟩ := cursor
  dsimp only at hnode hindex
  rw [hnode, show relativeIndex = xs.length - 1 by omega]
  rfl

end

end Refines

end SegmentedArray

namespace ManifestLevel

open SegmentedArray Scan

variable {Key : Type} [LinearOrder Key] [TableKey Key] {spec : ManifestLevelSpec}
variable {level : ManifestLevel Key} {table : TableInfo Key} {keys : List Key}
variable {tables window : List (TableInfo Key)} {snapshot : Nat} {direction : Direction}
variable {range : Option (KeyRange Key)}

-- What a table is checked for when its visibility is asked for, and the order of its keys.
structure Sound (table : TableInfo Key) : Prop where
  address : table.address ≠ 0
  snapshots : table.snapshotMin ≤ table.snapshotMax
  keys : table.keyMin ≤ table.keyMax

-- Whether a table is visible to a snapshot.
def VisibleAt (snapshot : Nat) (table : TableInfo Key) : Prop :=
  table.snapshotMin ≤ snapshot ∧ snapshot ≤ table.snapshotMax

instance : DecidablePred (VisibleAt snapshot : TableInfo Key → Prop) := fun table =>
  inferInstanceAs (Decidable (table.snapshotMin ≤ snapshot ∧ snapshot ≤ table.snapshotMax))

-- Whether the keys of a table intersect a range.
def Meeting (range : Option (KeyRange Key)) (table : TableInfo Key) : Prop :=
  ∀ r ∈ range, table.keyMin ≤ r.keyMax ∧ r.keyMin ≤ table.keyMax

instance : DecidablePred (Meeting range) := fun table =>
  match range with
  | none   => .isTrue nofun
  | some r => decidable_of_iff (table.keyMin ≤ r.keyMax ∧ r.keyMin ≤ table.keyMax)
    ⟨fun h _ hr => Option.some.inj hr ▸ h, fun h => h r rfl⟩

-- What the iterator does with a table.
def verdict (snapshot : Nat) (direction : Direction) (range : Option (KeyRange Key))
    (table : TableInfo Key) : Verdict :=
  if ¬VisibleAt snapshot table then
    .skip
  else
    match range, direction with
    | none, _ => .take
    | some r, .ascending =>
      if table.keyMax < r.keyMin then .fault else if r.keyMax < table.keyMin then .stop else .take
    | some r, .descending =>
      if r.keyMax < table.keyMin then .skip else if table.keyMax < r.keyMin then .stop else .take

omit [TableKey Key] in
theorem visible_eq (hs : Sound table) (hl : snapshot ≤ snapshotLatest) :
    table.visible snapshot = .ok (decide (VisibleAt snapshot table)) := by
  unfold TableInfo.visible
  rw [assert_of hs.address, ok_bind, assert_of hs.snapshots, ok_bind, assert_of hl]
  rfl

omit [TableKey Key] in
theorem visibleAny_eq (hs : Sound table) (hl : snapshot ≤ snapshotLatest) :
    table.visibleAny [snapshot] = .ok (decide (VisibleAt snapshot table)) := by
  unfold TableInfo.visibleAny
  rw [visible_eq hs hl, ok_bind]
  by_cases h : VisibleAt snapshot table
  · rw [if_pos (decide_eq_true h), decide_eq_true h]
    rfl
  · rw [if_neg (by simpa using h), decide_eq_false h]
    rfl

-- The iterator of an inner one.
abbrev filtered (inner : Iterator) (snapshot : Nat) (direction : Direction)
    (range : Option (KeyRange Key)) : LevelIterator Key where
  inner
  visibility := .visible
  snapshots := [snapshot]
  direction
  keyRange := range

-- What the iterator returns for an outcome of the scan, and what it is fed with then.
def Follows (spec : ManifestLevelSpec) (level : ManifestLevel Key) (snapshot : Nat)
    (direction : Direction) (range : Option (KeyRange Key)) :
    Option (Option (TableInfo Key × List (TableInfo Key))) →
    Result (Option (TableInfo Key × LevelIterator Key)) → Prop
  | none, result                      => ∃ fault, result = .error fault
  | some none, result                 => result = .ok none
  | some (some (table, rest)), result => ∃ inner, Feeds spec.tablesSpec level.tables inner rest ∧
    result = .ok (some (table, filtered inner snapshot direction range))

variable {fuel : Nat}

-- The iterator goes through the tables that it is fed with.
theorem next_follows {inner : Iterator}
    (hf : Feeds spec.tablesSpec level.tables inner window) (hsound : ∀ table ∈ window, Sound table)
    (hl : snapshot ≤ snapshotLatest) (hlen : window.length ≤ fuel) :
    Follows spec level snapshot direction range (Scan.next (verdict snapshot direction range) window)
      ((filtered inner snapshot direction range).next spec level fuel) := by
  induction window generalizing inner fuel with
  | nil =>
    show (filtered inner snapshot direction range).next spec level fuel = .ok none
    cases fuel with
    | zero => rfl
    | succ fuel =>
      unfold LevelIterator.next
      rw [show inner.next spec.tablesSpec level.tables = .ok none from hf]
      rfl
  | cons table window ih =>
    obtain ⟨inner', hnext, hf'⟩ := hf
    obtain ⟨fuel, rfl⟩ : ∃ n, fuel = n + 1 := ⟨fuel - 1, by rw [List.length_cons] at hlen; omega⟩
    have hrest := ih hf' (fun t ht => hsound t (List.mem_cons_of_mem _ ht)) (Nat.le_of_succ_le_succ hlen)
    have hvisible := visibleAny_eq (hsound table List.mem_cons_self) hl
    unfold LevelIterator.next
    rw [hnext, ok_bind]
    dsimp only
    rw [hvisible, ok_bind, Scan.next]
    by_cases hv : VisibleAt snapshot table
    case neg =>
      rw [show verdict snapshot direction range table = .skip from if_pos hv, if_pos (by simpa using hv)]
      exact hrest
    case pos =>
      rw [if_neg (by simpa using hv)]
      unfold verdict
      rw [if_neg (not_not.mpr hv)]
      cases range with
      | none => exact ⟨inner', hf', rfl⟩
      | some r =>
        cases direction with
        | ascending =>
          dsimp only
          by_cases hbelow : table.keyMax < r.keyMin
          case pos =>
            rw [if_pos hbelow, assert, assertOn, if_neg (not_le.mpr hbelow)]
            exact ⟨_, rfl⟩
          case neg =>
            rw [if_neg hbelow, assert_of (not_lt.mp hbelow), ok_bind]
            by_cases habove : r.keyMax < table.keyMin
            · rw [if_pos habove, if_pos habove]
              rfl
            · rw [if_neg habove, if_neg habove]
              exact ⟨inner', hf', rfl⟩
        | descending =>
          dsimp only
          by_cases habove : r.keyMax < table.keyMin
          · rw [if_pos habove, if_pos habove]
            exact hrest
          · rw [if_neg habove, if_neg habove]
            by_cases hbelow : table.keyMax < r.keyMin
            · rw [if_pos hbelow, if_pos hbelow]
              rfl
            · rw [if_neg hbelow, if_neg hbelow]
              exact ⟨inner', hf', rfl⟩

-- All tables that the iterator yields are those that the scan takes.
theorem collect_scan {inner : Iterator} {count : Nat}
    (hf : Feeds spec.tablesSpec level.tables inner window) (hsound : ∀ table ∈ window, Sound table)
    (hl : snapshot ≤ snapshotLatest) (hlen : window.length ≤ fuel) (hcount : window.length < count) :
    match scan (verdict snapshot direction range) window with
    | none       => ∃ fault,
      (filtered inner snapshot direction range).collect spec level fuel count = .error fault
    | some taken =>
      (filtered inner snapshot direction range).collect spec level fuel count = .ok taken := by
  induction count generalizing inner window with
  | zero => omega
  | succ count ih =>
    have hnext := @next_follows _ _ _ _ level _ snapshot direction range fuel _ hf hsound hl hlen
    rw [scan_eq_next]
    unfold LevelIterator.collect
    cases hs : Scan.next (verdict snapshot direction range) window with
    | none =>
      rw [hs] at hnext
      obtain ⟨fault, hfault⟩ := hnext
      dsimp only
      rw [hfault]
      exact ⟨fault, rfl⟩
    | some found =>
      rw [hs] at hnext
      cases found with
      | none =>
        dsimp only
        rw [show _ = _ from hnext]
        rfl
      | some found =>
        obtain ⟨table, rest⟩ := found
        obtain ⟨inner', hf', hfound⟩ := hnext
        have hless := next_length hs
        have hsub := next_subset hs
        have hrest := ih hf' (fun t ht => hsound t (hsub ht)) (by omega) (by omega)
        dsimp only
        rw [hfound, ok_bind]
        dsimp only
        cases hrun : scan (verdict snapshot direction range) rest with
        | none =>
          rw [hrun] at hrest
          obtain ⟨fault, hfault⟩ := hrest
          rw [Option.map_none]
          dsimp only
          rw [hfault]
          exact ⟨fault, rfl⟩
        | some taken =>
          rw [hrun] at hrest
          rw [Option.map_some]
          dsimp only at hrest ⊢
          rw [hrest]
          rfl

section Start

variable {contents : List (List Key)} {i : Nat} {cursor : Cursor} {startKey : Key} {inner : Iterator}

-- The index of the last key that is the same as the one of an index.
def lastSame (keys : List Key) (i : Nat) : Nat :=
  i + ((keys.drop (i + 1)).takeWhile fun key => some key = keys[i]?).length

-- The index in the keys from which a range is iterated over. If all keys are smaller than the range there
-- is nothing to find behind them.
def startIndex (keys : List Key) (r : KeyRange Key) : Direction → Nat
  | .ascending  => keys.findIdx fun key => r.keyMin ≤ key
  | .descending =>
    let i := keys.findIdx fun key => r.keyMax ≤ key
    if i = keys.length then keys.length - 1 else lastSame keys i

omit [LinearOrder Key] [TableKey Key] in
theorem takeWhile_drop_of_ne [DecidableEq Key] {p : Key → Bool} {key : Key} (h : keys[i]? = some key)
    (hp : p key = false) : (keys.drop i).takeWhile p = [] := by
  have hi := (List.getElem?_eq_some_iff.mp h).1
  rw [List.drop_eq_getElem_cons hi, (List.getElem?_eq_some_iff.mp h).2, List.takeWhile_cons, hp]
  rfl

omit [TableKey Key] in
-- The loop moves upwards over the keys that are the same.
theorem boundaryLoop_ascending
    (r : Refines (spec.keysSpec : SegmentedArraySpec Key Key) level.keys contents)
    (hp : Points contents cursor i) (hd : inner.direction = .ascending)
    (hinner : if i + 1 = contents.flatten.length then inner.done = true else At contents inner (i + 1))
    (hf : contents.flatten.length ≤ i + fuel) :
    ∃ adjusted, ∃ n, n = ((contents.flatten.drop (i + 1)).takeWhile fun key => key = startKey).length ∧
      Points contents adjusted (i + n) ∧
      level.boundaryLoop spec startKey fuel cursor inner =
        .ok (adjusted, decide (i + n + 1 = contents.flatten.length)) := by
  induction fuel generalizing i cursor inner with
  | zero =>
    have hlt := hp.lt
    omega
  | succ fuel ih =>
    have hlt := hp.lt
    unfold boundaryLoop
    by_cases hend : i + 1 = contents.flatten.length
    case pos =>
      rw [if_pos hend] at hinner
      refine ⟨cursor, 0, ?_, hp, ?_⟩
      · rw [List.drop_of_length_le (by omega)]
        rfl
      · rw [show inner.next spec.keysSpec level.keys = .ok none from feeds_done hinner, ok_bind,
          decide_eq_true (show i + 0 + 1 = contents.flatten.length from hend)]
        rfl
    case neg =>
      rw [if_neg hend] at hinner
      obtain ⟨key, inner', hnext, hkey, hd', hmore⟩ := r.next_ascending hinner hd
      rw [hnext, ok_bind]
      dsimp only
      by_cases hne : startKey ≠ key
      case pos =>
        rw [if_pos hne]
        refine ⟨cursor, 0, ?_, hp, ?_⟩
        · rw [takeWhile_drop_of_ne hkey (decide_eq_false (Ne.symm hne))]
          rfl
        · rw [decide_eq_false (show ¬i + 0 + 1 = contents.flatten.length from hend)]
          rfl
      case neg =>
        obtain rfl := not_not.mp hne
        rw [if_neg hne]
        obtain ⟨adjusted, n, hn, hadjusted, hloop⟩ := ih hinner.2 hd' hmore (by omega)
        have hi := (List.getElem?_eq_some_iff.mp hkey).1
        refine ⟨adjusted, n + 1, ?_, ?_, ?_⟩
        · rw [List.drop_eq_getElem_cons hi, (List.getElem?_eq_some_iff.mp hkey).2, List.takeWhile_cons,
            decide_eq_true rfl, if_pos rfl, List.length_cons, hn]
        · rwa [show i + (n + 1) = i + 1 + n by omega]
        · rw [hloop, show i + 1 + n = i + (n + 1) by omega]

omit [TableKey Key] in
theorem boundaryLoop_descending
    (r : Refines (spec.keysSpec : SegmentedArraySpec Key Key) level.keys contents)
    (hd : inner.direction = .descending)
    (hinner : if i = 0 then inner.done = true else At contents inner (i - 1))
    (hfirst : ∀ j key, j < i → contents.flatten[j]? = some key → key ≠ startKey) (hf : 0 < fuel) :
    level.boundaryLoop spec startKey fuel cursor inner = .ok (cursor, decide (i = 0)) := by
  obtain ⟨fuel, rfl⟩ : ∃ n, fuel = n + 1 := ⟨fuel - 1, by omega⟩
  unfold boundaryLoop
  by_cases hzero : i = 0
  case pos =>
    rw [if_pos hzero] at hinner
    rw [show inner.next spec.keysSpec level.keys = .ok none from feeds_done hinner, ok_bind,
      decide_eq_true hzero]
    rfl
  case neg =>
    rw [if_neg hzero] at hinner
    obtain ⟨key, inner', hnext, hkey, _, _⟩ := r.next_descending hinner hd
    have hne := hfirst (i - 1) key (by omega) hkey
    rw [hnext, ok_bind]
    dsimp only
    rw [if_pos hne.symm, decide_eq_false hzero]
    rfl

omit [TableKey Key] in
theorem lastSame_eq (hkey : keys[i]? = some startKey) :
    lastSame keys i = i + ((keys.drop (i + 1)).takeWhile fun key => key = startKey).length := by
  unfold lastSame
  rw [hkey]
  simp only [Option.some.injEq]

omit [TableKey Key] in
theorem lastSame_getElem (hkey : keys[i]? = some startKey) :
    keys[lastSame keys i]? = some startKey := by
  rw [lastSame_eq hkey]
  generalize htw : ((keys.drop (i + 1)).takeWhile fun key => key = startKey) = same
  obtain ⟨rest, hrest⟩ := @List.takeWhile_prefix _ (keys.drop (i + 1)) fun key => decide (key = startKey)
  rw [htw] at hrest
  cases hlen : same.length with
  | zero => exact hkey
  | succ n =>
    have hn : n < same.length := by omega
    have hmem : decide (same[n] = startKey) = true :=
      @List.mem_takeWhile_imp _ (fun key => decide (key = startKey)) (keys.drop (i + 1)) _
        (by rw [htw]; exact List.getElem_mem hn)
    rw [show i + (n + 1) = i + 1 + n by omega, ← List.getElem?_drop, ← hrest,
      List.getElem?_append_left hn, List.getElem?_eq_getElem hn, of_decide_eq_true hmem]

omit [TableKey Key] in
theorem iteratorStartBoundary_ascending
    (r : Refines (spec.keysSpec : SegmentedArraySpec Key Key) level.keys contents)
    (hp : Points contents cursor i)
    (hfirst : ∀ j key, j < i → contents.flatten[j]? = some key → contents.flatten[i]? ≠ some key) :
    level.iteratorStartBoundary spec cursor .ascending = .ok cursor := by
  have hlt := hp.lt
  have hat : At contents ⟨.descending, cursor, false⟩ i := ⟨rfl, hp⟩
  obtain ⟨startKey, reverse, hnext, hkey, hd, hmore⟩ := r.next_descending hat rfl
  have hpos : 0 < contents.flatten.length := by omega
  have hloop : level.boundaryLoop spec startKey contents.flatten.length cursor reverse =
      .ok (cursor, decide (i = 0)) :=
    boundaryLoop_descending r hd hmore (fun j key hj hjkey heq => hfirst j key hj hjkey (heq ▸ hkey)) hpos
  have helement := r.elementAtCursor_points hp hkey
  unfold iteratorStartBoundary
  rw [show Direction.ascending.reverse = .descending from rfl, r.iteratorFromCursor_points hp, ok_bind,
    assert_of rfl, ok_bind, hnext, ok_bind]
  dsimp only
  rw [helement, ok_bind, assert_of rfl, ok_bind, r.holds.len r.bound, ok_bind, hloop, ok_bind]
  dsimp only
  by_cases hzero : i = 0
  · subst hzero
    rw [if_pos (decide_eq_true rfl), assert_of (r.first_of_points hp), ok_bind, helement, ok_bind,
      assert_of rfl]
    rfl
  · rw [if_neg (by simpa using hzero), helement, ok_bind, assert_of rfl]
    rfl

omit [TableKey Key] in
theorem iteratorStartBoundary_descending
    (r : Refines (spec.keysSpec : SegmentedArraySpec Key Key) level.keys contents)
    (hp : Points contents cursor i) :
    ∃ adjusted, Points contents adjusted (lastSame contents.flatten i) ∧
      level.iteratorStartBoundary spec cursor .descending = .ok adjusted := by
  have hlt := hp.lt
  have hat : At contents ⟨.ascending, cursor, false⟩ i := ⟨rfl, hp⟩
  obtain ⟨startKey, reverse, hnext, hkey, hd, hmore⟩ := r.next_ascending hat rfl
  have hfuel : contents.flatten.length ≤ i + contents.flatten.length := Nat.le_add_left _ _
  obtain ⟨adjusted, n, hn, hadjusted, hloop⟩ := boundaryLoop_ascending r hp hd hmore hfuel
  have hsame := lastSame_eq hkey
  rw [← hn] at hsame
  rw [← hsame] at hadjusted hloop
  have hadjustedKey : contents.flatten[lastSame contents.flatten i]? = some startKey :=
    lastSame_getElem hkey
  have helement := r.elementAtCursor_points hadjusted hadjustedKey
  refine ⟨adjusted, hadjusted, ?_⟩
  unfold iteratorStartBoundary
  rw [show Direction.descending.reverse = .ascending from rfl, r.iteratorFromCursor_points hp, ok_bind,
    assert_of rfl, ok_bind, hnext, ok_bind]
  dsimp only
  rw [r.elementAtCursor_points hp hkey, ok_bind, assert_of rfl, ok_bind, r.holds.len r.bound, ok_bind,
    hloop, ok_bind]
  dsimp only
  by_cases hend : lastSame contents.flatten i + 1 = contents.flatten.length
  · have hlast := r.last_of_points (show Points contents adjusted (contents.flatten.length - 1) by
      rwa [← hend, Nat.add_sub_cancel])
    rw [if_pos (decide_eq_true hend), hlast, ok_bind, assert_of rfl, ok_bind, helement, ok_bind,
      assert_of rfl]
    rfl
  · rw [if_neg (by simpa using hend), helement, ok_bind, assert_of rfl]
    rfl

-- What a range is iterated over: all tables from the start on.
def windowOf (keys : List Key) (tables : List (TableInfo Key)) (direction : Direction) :
    Option (KeyRange Key) → List (TableInfo Key)
  | some r => yielded tables (startIndex keys r direction) direction
  | none   => match direction with
    | .ascending  => tables
    | .descending => tables.reverse

-- The two arrays of a level, of which the keys need not be those of the tables.
structure Holding (spec : ManifestLevelSpec) (level : ManifestLevel Key) (keys : List Key)
    (tables : List (TableInfo Key)) : Prop where
  length : keys.length = tables.length
  keys : Stands spec.keysSpec level.keys keys
  tables : Stands spec.tablesSpec level.tables tables

-- The start of an iteration over a range. There is none if nothing is left to be iterated over.
theorem iteratorStart_eq [Inhabited Key] (hh : Holding spec level keys tables) {r : KeyRange Key}
    (hle : r.keyMin ≤ r.keyMax) : ∃ start,
      level.iteratorStart spec r.keyMin r.keyMax direction = .ok start ∧
      match start with
      | none        => windowOf keys tables direction (some r) = []
      | some cursor => startIndex keys r direction < keys.length ∧
        level.keys.absoluteIndexForCursor spec.keysSpec cursor = .ok (startIndex keys r direction) := by
  obtain ⟨contents, refines, rfl, hordered⟩ := hh.keys
  have hlen : level.keys.len spec.keysSpec = .ok contents.flatten.length :=
    refines.holds.len refines.bound
  unfold iteratorStart
  rw [assert_of hle, ok_bind, hlen, ok_bind, hh.tables.len, ok_bind, assert_of hh.length, ok_bind,
    ok_bind]
  by_cases hzero : contents.flatten.length = 0
  case pos =>
    rw [if_pos hzero]
    refine ⟨none, rfl, ?_⟩
    obtain rfl := List.eq_nil_of_length_eq_zero (hh.length.symm.trans hzero)
    cases direction with
    | ascending  => exact List.drop_nil
    | descending => exact congrArg List.reverse List.take_nil
  case neg =>
    rw [if_neg hzero]
    have hne : contents ≠ [] := by
      rintro rfl
      exact hzero rfl
    cases direction with
    | ascending =>
      obtain ⟨target, hsearch, hindex⟩ := hh.keys.search rfl r.keyMin
      obtain ⟨_, _, _, hloc⟩ := refines.located hne hindex
      have hnode : target.node ≤ level.keys.nodeCount := by
        rw [refines.holds.nodeCount, hloc.split, hloc.node, List.length_append]
        exact Nat.le_add_right _ _
      dsimp only
      rw [hsearch, ok_bind, assert_of hnode, ok_bind, hindex, ok_bind, ok_bind]
      by_cases hend : lowerBoundIndex spec.keysSpec r.keyMin contents.flatten = contents.flatten.length
      case pos =>
        rw [if_pos hend]
        refine ⟨none, rfl, ?_⟩
        show tables.drop (lowerBoundIndex spec.keysSpec r.keyMin contents.flatten) = []
        exact List.drop_of_length_le (by rw [hend, hh.length])
      case neg =>
        have hlt := Nat.lt_of_le_of_ne
          (@Refines.lowerBoundIndex_le _ _ spec.keysSpec _ r.keyMin contents.flatten) hend
        have hpoints := refines.points hindex hlt
        have hstart := iteratorStartBoundary_ascending refines hpoints
          fun j key hj hkey heq => by
            have hsmaller := @Refines.lt_of_mem_take _ _ spec.keysSpec _ r.keyMin contents.flatten key
              (List.mem_of_getElem? ((List.getElem?_take_of_lt hj).trans hkey))
            have hnot := @Refines.le_of_mem_drop _ _ spec.keysSpec _ r.keyMin contents.flatten
              (hordered rfl) key (List.mem_of_getElem? (i := 0) (List.getElem?_drop.trans heq))
            exact not_lt.mpr hnot hsmaller
        rw [if_neg hend, hstart]
        exact ⟨some target, rfl, hlt, hindex⟩
    | descending =>
      obtain ⟨target, hsearch, hindex⟩ := hh.keys.search rfl r.keyMax
      obtain ⟨_, _, _, hloc⟩ := refines.located hne hindex
      have hnode : target.node ≤ level.keys.nodeCount := by
        rw [refines.holds.nodeCount, hloc.split, hloc.node, List.length_append]
        exact Nat.le_add_right _ _
      have hstartIndex : startIndex contents.flatten r .descending =
          if lowerBoundIndex spec.keysSpec r.keyMax contents.flatten = contents.flatten.length then
            contents.flatten.length - 1
          else lastSame contents.flatten (lowerBoundIndex spec.keysSpec r.keyMax contents.flatten) := rfl
      have hindexOf : ∀ {cursor i}, Points contents cursor i →
          level.keys.absoluteIndexForCursor spec.keysSpec cursor = .ok i := by
        rintro cursor i ⟨_, _, _, hloc, _⟩
        exact refines.absoluteIndexForCursor_eq hloc
      dsimp only
      rw [hsearch, ok_bind, assert_of hnode, ok_bind, hindex, ok_bind, ok_bind, hstartIndex]
      by_cases hend : lowerBoundIndex spec.keysSpec r.keyMax contents.flatten = contents.flatten.length
      case pos =>
        obtain ⟨cursor, hpoints⟩ := refines.exists_points
          (show contents.flatten.length - 1 < contents.flatten.length by omega)
        rw [if_pos hend, refines.last_of_points hpoints, if_pos hend]
        exact ⟨some cursor, rfl, by omega, hindexOf hpoints⟩
      case neg =>
        have hlt := Nat.lt_of_le_of_ne
          (@Refines.lowerBoundIndex_le _ _ spec.keysSpec _ r.keyMax contents.flatten) hend
        have hpoints := refines.points hindex hlt
        obtain ⟨adjusted, hadjusted, hstart⟩ := iteratorStartBoundary_descending refines
          hpoints
        rw [if_neg hend, hstart, if_neg hend]
        exact ⟨some adjusted, rfl, hadjusted.lt, hindexOf hadjusted⟩

end Start

section Iteration

variable [Inhabited Key]

omit [LinearOrder Key] [Inhabited Key] in
theorem nodeCount_of_nil {contents : List (List (TableInfo Key))}
    (r : Refines spec.tablesSpec level.tables contents) (h : contents.flatten = []) :
    level.tables.nodeCount = 0 := by
  rw [r.holds.nodeCount]
  cases contents with
  | nil => rfl
  | cons xs rest =>
    rw [List.flatten_cons] at h
    exact absurd (List.append_eq_nil_iff.mp h).1 (r.packed.ne_nil List.mem_cons_self)

theorem iterator_feeds (hh : Holding spec level keys tables) (hl : snapshot ≤ snapshotLatest)
    (hr : ∀ r ∈ range, r.keyMin ≤ r.keyMax) : ∃ inner,
      level.iterator spec .visible [snapshot] direction range = .ok
        (filtered inner snapshot direction range) ∧
        Feeds spec.tablesSpec level.tables inner (windowOf keys tables direction range) := by
  have hsnapshots : ∀ s ∈ [snapshot], s ≤ snapshotLatest := by simpa using hl
  obtain ⟨contents, refines, rfl, _⟩ := hh.tables
  unfold iterator
  rw [assert_of hsnapshots, ok_bind]
  cases range with
  | some r =>
    have hle := hr r rfl
    obtain ⟨start, hstart, hwindow⟩ := @iteratorStart_eq _ _ _ _ _ _ _ direction _ hh _ hle
    dsimp only
    rw [assert_of hle, ok_bind, hstart, ok_bind]
    cases start with
    | none =>
      dsimp only at hwindow
      rw [hwindow]
      exact ⟨_, rfl, feeds_done rfl⟩
    | some cursor =>
      obtain ⟨hlt, hindex⟩ := hwindow
      obtain ⟨cursor', hpoints, hiterator⟩ := refines.iteratorFromIndex_points direction (hh.length ▸ hlt)
      dsimp only
      rw [hindex, ok_bind, hiterator]
      exact ⟨_, rfl, refines.feeds ⟨rfl, hpoints⟩⟩
  | none =>
    by_cases hnil : contents.flatten = []
    case pos =>
      have hcount := nodeCount_of_nil refines hnil
      have hmax : 0 < (spec.tablesSpec : SegmentedArraySpec Nat (TableInfo Key)).elementCountMax :=
        (Nat.zero_le _).trans_lt refines.element
      cases direction with
      | ascending =>
        refine ⟨⟨.ascending, ⟨0, 0⟩, true⟩, ?_, ?_⟩
        · unfold iteratorFromIndex
          dsimp only
          rw [assert_of hmax, ok_bind, if_pos hcount, assert_of rfl]
          rfl
        · rw [hnil]
          exact feeds_done rfl
      | descending =>
        refine ⟨⟨.descending, ⟨0, 0⟩, true⟩, ?_, ?_⟩
        · unfold iteratorFromCursor SegmentedArray.last
          dsimp only
          rw [if_pos hcount, pure_bind, if_pos hcount, assert_of (show first.node = 0 from rfl), ok_bind,
            assert_of (show first.relativeIndex = 0 from rfl)]
          rfl
        · rw [hnil]
          exact feeds_done rfl
    case neg =>
      have hpos := List.length_pos_iff.mpr hnil
      cases direction with
      | ascending =>
        obtain ⟨cursor, hpoints, hiterator⟩ := refines.iteratorFromIndex_points .ascending hpos
        have hat : At contents ⟨.ascending, cursor, false⟩ 0 := ⟨rfl, hpoints⟩
        have hfeeds := refines.feeds_ascending hat rfl
        dsimp only
        rw [hiterator]
        exact ⟨_, rfl, hfeeds⟩
      | descending =>
        obtain ⟨cursor, hpoints⟩ := refines.exists_points
          (show contents.flatten.length - 1 < contents.flatten.length by omega)
        have hat : At contents ⟨.descending, cursor, false⟩ (contents.flatten.length - 1) :=
          ⟨rfl, hpoints⟩
        have hfeeds := refines.feeds_descending hat rfl
        rw [Nat.sub_add_cancel hpos, List.take_length] at hfeeds
        dsimp only
        rw [refines.last_of_points hpoints, ok_bind, refines.iteratorFromCursor_points hpoints]
        exact ⟨_, rfl, hfeeds⟩

end Iteration

end ManifestLevel

end TigerBeetle
