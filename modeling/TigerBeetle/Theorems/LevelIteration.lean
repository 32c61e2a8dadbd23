import TigerBeetle.Theorems.LevelScan

namespace TigerBeetle

open Fallible

namespace ManifestLevel

open SegmentedArray Scan

variable {Key : Type} [LinearOrder Key] [TableKey Key] [Inhabited Key] {spec : ManifestLevelSpec}
variable {level : ManifestLevel Key} {table a b : TableInfo Key} {keys : List Key}
variable {tables : List (TableInfo Key)} {snapshot : Nat} {direction : Direction}
variable {range : Option (KeyRange Key)}

-- Whether a table is to be yielded.
def Wanted (snapshot : Nat) (range : Option (KeyRange Key)) (table : TableInfo Key) : Prop :=
  VisibleAt snapshot table ∧ Meeting range table

instance : DecidablePred (Wanted snapshot range) := fun table =>
  inferInstanceAs (Decidable (VisibleAt snapshot table ∧ Meeting range table))

-- Whether a table is yielded before another one.
def Ahead : Direction → TableInfo Key → TableInfo Key → Prop
  | .ascending, a, b  => a.keyMax < b.keyMin
  | .descending, a, b => b.keyMax < a.keyMin

-- Iterations yield exactly the wanted tables in the order of their keys.
def Exact (spec : ManifestLevelSpec) (level : ManifestLevel Key) (tables : List (TableInfo Key))
    (snapshot : Nat) (direction : Direction) (range : Option (KeyRange Key)) : Prop :=
  ∃ iterator out, level.iterator spec .visible [snapshot] direction range = .ok iterator ∧
    (∀ fuel count, tables.length ≤ fuel → tables.length < count →
      iterator.collect spec level fuel count = .ok out) ∧
    out.Perm (tables.filter fun table => Wanted snapshot range table) ∧ out.Pairwise (Ahead direction)

-- The tables in front of the start of an iteration.
def restOf (keys : List Key) (tables : List (TableInfo Key)) (direction : Direction) :
    Option (KeyRange Key) → List (TableInfo Key)
  | none   => []
  | some r => match direction with
    | .ascending  => tables.take (startIndex keys r .ascending)
    | .descending => tables.drop (startIndex keys r .descending + 1)

-- The wanted tables stand behind the start in the order of their keys, and no other visible table keeps
-- the iteration from them.
structure Aligned (keys : List Key) (tables : List (TableInfo Key)) (snapshot : Nat)
    (direction : Direction) (range : Option (KeyRange Key)) : Prop where
  front : ∀ table ∈ restOf keys tables direction range, ¬Wanted snapshot range table
  clean : Clean (verdict snapshot direction range) (windowOf keys tables direction range)
  ordered : (tables.filter fun table => Wanted snapshot range table).Pairwise
    fun a b => a.keyMax < b.keyMin

omit [TableKey Key] [Inhabited Key] in
theorem verdict_take : verdict snapshot direction range table = .take ↔ Wanted snapshot range table := by
  unfold verdict Wanted
  by_cases hv : VisibleAt snapshot table
  case neg => simp [hv]
  case pos =>
    cases range with
    | none => simp [hv, Meeting]
    | some r =>
      cases direction with
      | ascending =>
        by_cases hbelow : table.keyMax < r.keyMin
        · simp [hv, hbelow, Meeting]
        · by_cases habove : r.keyMax < table.keyMin
          · simp [hv, hbelow, habove, Meeting]
          · simp [hv, hbelow, habove, Meeting, not_lt.mp hbelow, not_lt.mp habove]
      | descending =>
        by_cases hbelow : table.keyMax < r.keyMin
        · by_cases habove : r.keyMax < table.keyMin
          · simp [hv, habove, Meeting]
          · simp [hv, hbelow, habove, Meeting]
        · by_cases habove : r.keyMax < table.keyMin
          · simp [hv, habove, Meeting]
          · simp [hv, hbelow, habove, Meeting, not_lt.mp hbelow, not_lt.mp habove]

omit [TableKey Key] [Inhabited Key] in
theorem takable_eq {list : List (TableInfo Key)} : takable (verdict snapshot direction range) list =
    list.filter fun table => Wanted snapshot range table := by
  unfold takable
  exact List.filter_congr fun table _ => decide_eq_decide.mpr verdict_take

omit [TableKey Key] [Inhabited Key] in
theorem window_perm : (windowOf keys tables direction range ++ restOf keys tables direction range).Perm
    tables := by
  cases range with
  | none =>
    cases direction with
    | ascending  => exact List.Perm.of_eq (List.append_nil tables)
    | descending => exact (List.Perm.of_eq (List.append_nil _)).trans (List.reverse_perm tables)
  | some r =>
    cases direction with
    | ascending =>
      exact List.perm_append_comm.trans (List.Perm.of_eq (List.take_append_drop ..))
    | descending =>
      exact ((List.reverse_perm _).append_right _).trans (List.Perm.of_eq (List.take_append_drop ..))

omit [TableKey Key] [Inhabited Key] in
theorem window_length : (windowOf keys tables direction range).length ≤ tables.length := by
  have hlen := (@window_perm _ _ keys tables direction range).length_eq
  rw [List.length_append] at hlen
  omega

omit [TableKey Key] [Inhabited Key] in
theorem window_subset : windowOf keys tables direction range ⊆ tables := fun _ h =>
  window_perm.subset (List.mem_append_left _ h)

omit [TableKey Key] [Inhabited Key] in
-- If there is nothing in front of the start, the window has the wanted tables in the order of the level.
theorem window_filter (h : ∀ table ∈ restOf keys tables direction range, ¬Wanted snapshot range table) :
    (windowOf keys tables direction range).filter (fun table => Wanted snapshot range table) =
      match direction with
      | .ascending  => tables.filter fun table => Wanted snapshot range table
      | .descending => (tables.filter fun table => Wanted snapshot range table).reverse := by
  have hnil : (restOf keys tables direction range).filter
      (fun table => Wanted snapshot range table) = [] :=
    List.filter_eq_nil_iff.mpr fun table ht => by simpa using h table ht
  cases range with
  | none =>
    cases direction with
    | ascending  => rfl
    | descending => exact List.filter_reverse ..
  | some r =>
    cases direction with
    | ascending =>
      have hsplit := congrArg (List.filter fun table => decide (Wanted snapshot (some r) table))
        (List.take_append_drop (startIndex keys r .ascending) tables)
      rw [List.filter_append] at hsplit
      dsimp only [restOf] at hnil
      rw [hnil, List.nil_append] at hsplit
      exact hsplit
    | descending =>
      have hsplit := congrArg (List.filter fun table => decide (Wanted snapshot (some r) table))
        (List.take_append_drop (startIndex keys r .descending + 1) tables)
      rw [List.filter_append] at hsplit
      dsimp only [restOf] at hnil
      rw [hnil, List.append_nil] at hsplit
      show List.filter _ (List.take _ tables).reverse = _
      rw [List.filter_reverse, hsplit]

omit [TableKey Key] [Inhabited Key] in
theorem ordered_window (h : ∀ table ∈ restOf keys tables direction range, ¬Wanted snapshot range table) :
    ((windowOf keys tables direction range).filter fun table => Wanted snapshot range table).Pairwise
        (Ahead direction) ↔
      (tables.filter fun table => Wanted snapshot range table).Pairwise
        fun a b => a.keyMax < b.keyMin := by
  rw [window_filter h]
  cases direction with
  | ascending  => exact Iff.rfl
  | descending => exact List.pairwise_reverse

omit [TableKey Key] [Inhabited Key] in
-- A level is aligned if and only if a scan of the window takes exactly the wanted tables, in their order.
theorem aligned_iff_scan : Aligned keys tables snapshot direction range ↔
    ∃ out, scan (verdict snapshot direction range) (windowOf keys tables direction range) = some out ∧
      out.Perm (tables.filter fun table => Wanted snapshot range table) ∧
      out.Pairwise (Ahead direction) := by
  constructor
  · intro h
    refine ⟨_, scan_eq_takable_iff.mpr h.clean, ?_, ?_⟩
    · rw [takable_eq, window_filter h.front]
      cases direction with
      | ascending  => exact List.Perm.refl _
      | descending => exact List.reverse_perm _
    · rw [takable_eq]
      exact (ordered_window h.front).mpr h.ordered
  · rintro ⟨out, hscan, hperm, hpairwise⟩
    -- nothing but a prefix of the wanted tables of the window is taken
    have hpre := scan_prefix hscan
    rw [takable_eq] at hpre
    have hsplit := (@window_perm _ _ keys tables direction range).filter
      fun table => decide (Wanted snapshot range table)
    rw [List.filter_append] at hsplit
    have hlength := hperm.length_eq.trans hsplit.length_eq.symm
    rw [List.length_append] at hlength
    have hle := hpre.length_le
    have hnone : ((restOf keys tables direction range).filter
        fun table => decide (Wanted snapshot range table)).length ≤ 0 := by
      omega
    have hrest := List.eq_nil_of_length_eq_zero (Nat.le_zero.mp hnone)
    have hwhole := hpre.eq_of_length (by rw [hrest, List.length_nil] at hlength; exact hlength)
    have hfront : ∀ table ∈ restOf keys tables direction range, ¬Wanted snapshot range table :=
      fun table ht => by simpa using List.filter_eq_nil_iff.mp hrest table ht
    refine ⟨hfront, scan_eq_takable_iff.mp (by rw [hscan, takable_eq, hwhole]), ?_⟩
    rw [hwhole] at hpairwise
    exact (ordered_window hfront).mp hpairwise

-- Iterations are exact if and only if the level is aligned to them.
theorem exact_iff_aligned (hh : Holding spec level keys tables) (hsound : ∀ table ∈ tables, Sound table)
    (hl : snapshot ≤ snapshotLatest) (hr : ∀ r ∈ range, r.keyMin ≤ r.keyMax) :
    Exact spec level tables snapshot direction range ↔ Aligned keys tables snapshot direction range := by
  obtain ⟨inner, hiterator, hfeeds⟩ := @iterator_feeds _ _ _ _ _ _ _ _ direction _ _ hh hl hr
  have hcollect := fun fuel count (hfuel : tables.length ≤ fuel) (hcount : tables.length < count) =>
    @collect_scan _ _ _ _ level _ snapshot direction range fuel inner count hfeeds
      (fun table ht => hsound table (window_subset ht)) hl (window_length.trans hfuel)
      (window_length.trans_lt hcount)
  rw [aligned_iff_scan]
  constructor
  · rintro ⟨iterator, out, hiterator', hout, hexact⟩
    obtain rfl := Except.ok.inj (hiterator.symm.trans hiterator')
    have hrun := hout tables.length (tables.length + 1) le_rfl (Nat.lt_succ_self _)
    have hmatch := hcollect tables.length (tables.length + 1) le_rfl (Nat.lt_succ_self _)
    revert hmatch
    cases scan (verdict snapshot direction range) (windowOf keys tables direction range) with
    | none =>
      rintro ⟨fault, hfault⟩
      cases hfault.symm.trans hrun
    | some taken =>
      intro htaken
      exact ⟨out, congrArg some (Except.ok.inj (htaken.symm.trans hrun)), hexact⟩
  · rintro ⟨out, hscan, hexact⟩
    refine ⟨_, out, hiterator, fun fuel count hfuel hcount => ?_, hexact⟩
    have hmatch := hcollect fuel count hfuel hcount
    rw [hscan] at hmatch
    exact hmatch

section Parallel

-- The keys of the tables that are visible to a snapshot do not overlap.
def DisjointAt (snapshot : Nat) (tables : List (TableInfo Key)) : Prop :=
  tables.Pairwise fun a b => VisibleAt snapshot a → VisibleAt snapshot b →
    a.keyMax < b.keyMin ∨ b.keyMax < a.keyMin

-- Downwards no table, visible or not, ends between the end of the range and the end of the visible table
-- that the range ends in.
def Unhidden (tables : List (TableInfo Key)) (snapshot : Nat) : Direction → Option (KeyRange Key) → Prop
  | .descending, some r => ∀ table ∈ tables, VisibleAt snapshot table → table.keyMin ≤ r.keyMax →
    ∀ other ∈ tables, r.keyMax ≤ other.keyMax → table.keyMax ≤ other.keyMax
  | _, _                => True

variable {r : KeyRange Key} {key startKey : Key} {i : Nat}

omit [TableKey Key] [Inhabited Key] in
theorem visible_ordered (hs : (tables.map TableInfo.keyMax).Pairwise (· ≤ ·))
    (hsound : ∀ table ∈ tables, Sound table) (hd : DisjointAt snapshot tables) :
    tables.Pairwise fun a b => VisibleAt snapshot a → VisibleAt snapshot b → a.keyMax < b.keyMin := by
  refine ((List.pairwise_map.mp hs).and hd).imp_of_mem fun {a b} ha _ h hva hvb => ?_
  obtain habove | hbelow := h.2 hva hvb
  · exact habove
  · exact absurd (h.1.trans_lt (hbelow.trans_le (hsound a ha).keys)) (lt_irrefl _)

omit [TableKey Key] [Inhabited Key] in
theorem lt_of_mem_drop_lastSame (hs : keys.Pairwise (· ≤ ·)) (hkey : keys[i]? = some startKey)
    (h : key ∈ keys.drop (lastSame keys i + 1)) : startKey < key := by
  obtain ⟨hi, hget⟩ := List.getElem?_eq_some_iff.mp hkey
  have hdrop := hs.sublist (List.drop_sublist i keys)
  rw [List.drop_eq_getElem_cons hi, hget] at hdrop
  have hsplit := @List.takeWhile_append_dropWhile _ (fun key => decide (key = startKey))
    (keys.drop (i + 1))
  have hrest : keys.drop (lastSame keys i + 1) =
      (keys.drop (i + 1)).dropWhile fun key => decide (key = startKey) := by
    rw [lastSame_eq hkey, show ∀ n, i + n + 1 = i + 1 + n from fun n => by omega, ← List.drop_drop]
    exact (congrArg _ hsplit.symm).trans List.drop_left
  have hsub : (keys.drop (lastSame keys i + 1)).Sublist (keys.drop (i + 1)) := by
    rw [hrest]
    exact List.dropWhile_sublist _
  rw [List.pairwise_cons] at hdrop
  have hpairwise := hdrop.2.sublist hsub
  have hge := fun k hk => hdrop.1 k (hsub.subset hk)
  have hhead := @List.head?_dropWhile_not _ (fun key => decide (key = startKey)) (keys.drop (i + 1))
  rw [← hrest] at hhead
  revert h hpairwise hge hhead
  generalize keys.drop (lastSame keys i + 1) = rest
  intro h hpairwise hge hhead
  cases rest with
  | nil => cases h
  | cons k rest =>
    have hk : startKey < k :=
      lt_of_le_of_ne (hge k List.mem_cons_self) (Ne.symm (of_decide_eq_false hhead))
    obtain rfl | h := List.mem_cons.mp h
    · exact hk
    · exact hk.trans_le ((List.pairwise_cons.mp hpairwise).1 key h)

omit [TableKey Key] [Inhabited Key] in
theorem le_of_mem_take (hs : keys.Pairwise (· ≤ ·)) (hkey : keys[i]? = some startKey)
    (h : key ∈ keys.take (i + 1)) : key ≤ startKey := by
  obtain ⟨hi, hget⟩ := List.getElem?_eq_some_iff.mp hkey
  rw [List.take_add_one, hkey] at h
  obtain h | h := List.mem_append.mp h
  · have hsplit := hs
    rw [← List.take_append_drop i keys] at hsplit
    refine (List.pairwise_append.mp hsplit).2.2 key h startKey ?_
    rw [List.drop_eq_getElem_cons hi, hget]
    exact List.mem_cons_self
  · rw [List.mem_singleton.mp h]

omit [LinearOrder Key] [TableKey Key] [Inhabited Key] in
theorem mem_take_or_drop {list : List (TableInfo Key)} (n : Nat) (h : table ∈ list) :
    table ∈ list.take n ∨ table ∈ list.drop n := by
  rw [← List.mem_append, List.take_append_drop]
  exact h

omit [LinearOrder Key] [TableKey Key] [Inhabited Key] in
theorem keyMax_mem_take {n : Nat} (h : table ∈ tables.take n) :
    table.keyMax ∈ (tables.map TableInfo.keyMax).take n := by
  rw [← List.map_take]
  exact List.mem_map_of_mem h

omit [LinearOrder Key] [TableKey Key] [Inhabited Key] in
theorem keyMax_mem_drop {n : Nat} (h : table ∈ tables.drop n) :
    table.keyMax ∈ (tables.map TableInfo.keyMax).drop n := by
  rw [← List.map_drop]
  exact List.mem_map_of_mem h

-- The keys in front of a search result are smaller than the key, and those from it on are not.
omit [TableKey Key] [Inhabited Key] in
theorem lt_of_mem_take_findIdx (h : key ∈ keys.take (keys.findIdx fun k => startKey ≤ k)) :
    key < startKey :=
  @Refines.lt_of_mem_take _ _ (ManifestLevelSpec.keysSpec ⟨0, 0, 0⟩ : SegmentedArraySpec Key Key) _
    startKey keys key h

omit [TableKey Key] [Inhabited Key] in
theorem le_of_mem_drop_findIdx (hs : keys.Pairwise (· ≤ ·))
    (h : key ∈ keys.drop (keys.findIdx fun k => startKey ≤ k)) : startKey ≤ key :=
  @Refines.le_of_mem_drop _ _ (ManifestLevelSpec.keysSpec ⟨0, 0, 0⟩ : SegmentedArraySpec Key Key) _
    startKey keys hs key h

omit [TableKey Key] [Inhabited Key] in
theorem startIndex_descending {keys : List Key} : startIndex keys r .descending =
    if keys.findIdx (fun key => r.keyMax ≤ key) = keys.length then keys.length - 1
    else lastSame keys (keys.findIdx fun key => r.keyMax ≤ key) :=
  rfl

omit [TableKey Key] [Inhabited Key] in
-- What stands behind the start of a descending iteration ends behind the range.
theorem lt_of_mem_rest (hs : (tables.map TableInfo.keyMax).Pairwise (· ≤ ·))
    (ht : table ∈ restOf (tables.map TableInfo.keyMax) tables .descending (some r)) :
    ∃ other ∈ tables, r.keyMax ≤ other.keyMax ∧ other.keyMax < table.keyMax := by
  dsimp only [restOf] at ht
  rw [startIndex_descending] at ht
  by_cases hend : (tables.map TableInfo.keyMax).findIdx (fun key => r.keyMax ≤ key) =
      (tables.map TableInfo.keyMax).length
  · rw [if_pos hend, List.drop_of_length_le (by rw [List.length_map]; omega)] at ht
    cases ht
  · rw [if_neg hend] at ht
    have hn := Nat.lt_of_le_of_ne List.findIdx_le_length hend
    have hkey := List.getElem?_eq_getElem hn
    have hlt := lt_of_mem_drop_lastSame hs hkey (keyMax_mem_drop ht)
    obtain ⟨other, ho, hother⟩ := List.mem_map.mp (List.getElem_mem hn)
    have hge := of_decide_eq_true (@List.findIdx_getElem _ (fun key => decide (r.keyMax ≤ key)) _ hn)
    rw [← hother] at hlt hge
    exact ⟨other, ho, hge, hlt⟩

section Sorted

variable (hs : (tables.map TableInfo.keyMax).Pairwise (· ≤ ·)) (hsound : ∀ table ∈ tables, Sound table)
  (hd : DisjointAt snapshot tables)

include hs hsound hd

omit [TableKey Key] [Inhabited Key] in
theorem ordered_of_parallel : (tables.filter fun table => Wanted snapshot range table).Pairwise
    fun a b => a.keyMax < b.keyMin := by
  refine ((visible_ordered hs hsound hd).sublist List.filter_sublist).imp_of_mem
    fun {a b} ha hb h => ?_
  exact h (of_decide_eq_true (List.mem_filter.mp ha).2).1 (of_decide_eq_true (List.mem_filter.mp hb).2).1

omit [TableKey Key] [Inhabited Key] in
theorem aligned_ascending : Aligned (tables.map TableInfo.keyMax) tables snapshot .ascending range := by
  refine ⟨fun table ht hw => ?_, ⟨fun before a after heq hstop b hb htake => ?_,
    fun before a after heq hfault => ?_⟩, ordered_of_parallel hs hsound hd⟩
  · cases range with
    | none => cases ht
    | some r =>
      exact absurd (hw.2 r rfl).2 (not_le.mpr (lt_of_mem_take_findIdx (keyMax_mem_take ht)))
  · have hpairwise : (windowOf (tables.map TableInfo.keyMax) tables .ascending range).Pairwise
        fun a b => VisibleAt snapshot a → VisibleAt snapshot b → a.keyMax < b.keyMin := by
      refine (visible_ordered hs hsound hd).sublist ?_
      cases range with
      | none => exact List.Sublist.refl _
      | some r => exact List.drop_sublist _ _
    rw [heq] at hpairwise
    have hab := (List.pairwise_cons.mp (List.pairwise_append.mp hpairwise).2.1).1 b hb
    have ha := hsound a (window_subset (heq ▸ List.mem_append_right _ List.mem_cons_self))
    obtain ⟨hvb, hmeet⟩ := verdict_take.mp htake
    unfold verdict at hstop
    by_cases hva : VisibleAt snapshot a
    · rw [if_neg (not_not.mpr hva)] at hstop
      cases range with
      | none => cases hstop
      | some r =>
        have hbmin := (hmeet r rfl).1
        have hlt := hab hva hvb
        dsimp only at hstop
        split at hstop
        · cases hstop
        · split at hstop
          case isTrue h => exact absurd (h.trans_le (ha.keys.trans hlt.le)) (not_lt.mpr hbmin)
          case isFalse => cases hstop
    · rw [if_pos hva] at hstop
      cases hstop
  · have hmem : a ∈ windowOf (tables.map TableInfo.keyMax) tables .ascending range :=
      heq ▸ List.mem_append_right _ List.mem_cons_self
    unfold verdict at hfault
    split at hfault
    case isTrue => cases hfault
    case isFalse =>
      cases range with
      | none => cases hfault
      | some r =>
        have hge := le_of_mem_drop_findIdx hs (keyMax_mem_drop hmem)
        dsimp only at hfault
        rw [if_neg (not_lt.mpr hge)] at hfault
        split at hfault
        case isTrue => cases hfault
        case isFalse => cases hfault

omit [TableKey Key] [Inhabited Key] in
theorem clean_descending : Clean (verdict snapshot .descending range)
    (windowOf (tables.map TableInfo.keyMax) tables .descending range) := by
  refine ⟨fun before a after heq hstop b hb htake => ?_, fun before a after heq hfault => ?_⟩
  · have hpairwise : (windowOf (tables.map TableInfo.keyMax) tables .descending range).Pairwise
        fun a b => VisibleAt snapshot b → VisibleAt snapshot a → b.keyMax < a.keyMin := by
      cases range with
      | none => exact List.pairwise_reverse.mpr (visible_ordered hs hsound hd)
      | some r =>
        exact List.pairwise_reverse.mpr ((visible_ordered hs hsound hd).sublist (List.take_sublist _ _))
    rw [heq] at hpairwise
    have hab := (List.pairwise_cons.mp (List.pairwise_append.mp hpairwise).2.1).1 b hb
    have ha := hsound a (window_subset (heq ▸ List.mem_append_right _ List.mem_cons_self))
    obtain ⟨hvb, hmeet⟩ := verdict_take.mp htake
    unfold verdict at hstop
    by_cases hva : VisibleAt snapshot a
    · rw [if_neg (not_not.mpr hva)] at hstop
      cases range with
      | none => cases hstop
      | some r =>
        have hbmax := (hmeet r rfl).2
        have hlt := hab hvb hva
        dsimp only at hstop
        split at hstop
        · cases hstop
        · split at hstop
          case isTrue h => exact absurd ((hlt.trans_le ha.keys).trans h) (not_lt.mpr hbmax)
          case isFalse => cases hstop
    · rw [if_pos hva] at hstop
      cases hstop
  · unfold verdict at hfault
    split at hfault
    case isTrue => cases hfault
    case isFalse =>
      cases range with
      | none => cases hfault
      | some r =>
        dsimp only at hfault
        split at hfault
        case isTrue => cases hfault
        case isFalse =>
          split at hfault
          case isTrue => cases hfault
          case isFalse => cases hfault

omit [TableKey Key] [Inhabited Key] in
-- Downwards the start must come to the table that the range ends in.
theorem aligned_descending_iff (hr : ∀ r ∈ range, r.keyMin ≤ r.keyMax) :
    Aligned (tables.map TableInfo.keyMax) tables snapshot .descending range ↔
      Unhidden tables snapshot .descending range := by
  have haligned : (∀ table ∈ restOf (tables.map TableInfo.keyMax) tables .descending range,
      ¬Wanted snapshot range table) →
      Aligned (tables.map TableInfo.keyMax) tables snapshot .descending range :=
    fun h => ⟨h, clean_descending hs hsound hd, ordered_of_parallel hs hsound hd⟩
  cases range with
  | none => exact iff_of_true (haligned nofun) trivial
  | some r =>
    have hle := hr r rfl
    constructor
    · intro h table ht hv hmin other ho hmax
      refine not_lt.mp fun hlt => ?_
      have hn : (tables.map TableInfo.keyMax).findIdx (fun key => r.keyMax ≤ key) <
          (tables.map TableInfo.keyMax).length :=
        List.findIdx_lt_length_of_exists ⟨other.keyMax, List.mem_map_of_mem ho, by simpa using hmax⟩
      obtain htake | hdrop := mem_take_or_drop
        (startIndex (tables.map TableInfo.keyMax) r .descending + 1) ht
      · rw [startIndex_descending, if_neg hn.ne] at htake
        have hkey := List.getElem?_eq_getElem hn
        have hle₁ := le_of_mem_take hs (lastSame_getElem hkey) (keyMax_mem_take htake)
        obtain hbefore | hfrom := mem_take_or_drop
          ((tables.map TableInfo.keyMax).findIdx fun key => r.keyMax ≤ key) ho
        · exact absurd (lt_of_mem_take_findIdx (keyMax_mem_take hbefore)) (not_lt.mpr hmax)
        · have hsorted := hs.sublist (List.drop_sublist
            ((tables.map TableInfo.keyMax).findIdx fun key => r.keyMax ≤ key) _)
          have hother := keyMax_mem_drop hfrom
          rw [List.drop_eq_getElem_cons hn] at hsorted hother
          have hle₂ : (tables.map TableInfo.keyMax)[
              (tables.map TableInfo.keyMax).findIdx fun key => r.keyMax ≤ key] ≤ other.keyMax := by
            obtain heq | hmem := List.mem_cons.mp hother
            · exact heq.ge
            · exact (List.pairwise_cons.mp hsorted).1 _ hmem
          exact absurd (hle₁.trans hle₂) (not_le.mpr hlt)
      · refine h.front table hdrop ⟨hv, fun r' hr' => ?_⟩
        obtain rfl := Option.some.inj hr'
        exact ⟨hmin, hle.trans (hmax.trans hlt.le)⟩
    · refine fun h => haligned fun table ht hw => ?_
      have hmem := (List.drop_sublist _ _).subset ht
      obtain ⟨other, ho, hge, hlt⟩ := lt_of_mem_rest hs ht
      exact absurd (h table hmem hw.1 (hw.2 r rfl).1 other ho hge) (not_le.mpr hlt)

end Sorted

omit [TableKey Key] [Inhabited Key] in
theorem aligned_iff_unhidden (hs : (tables.map TableInfo.keyMax).Pairwise (· ≤ ·))
    (hsound : ∀ table ∈ tables, Sound table) (hd : DisjointAt snapshot tables)
    (hr : ∀ r ∈ range, r.keyMin ≤ r.keyMax) :
    Aligned (tables.map TableInfo.keyMax) tables snapshot direction range ↔
      Unhidden tables snapshot direction range := by
  cases direction with
  | ascending  => exact iff_of_true (aligned_ascending hs hsound hd) trivial
  | descending => exact aligned_descending_iff hs hsound hd hr

-- Iterations are exact if and only if the level is aligned to them. If its keys are those of its tables
-- it always is upwards, and downwards it is unless another table hides the one that the range ends in.
theorem iterator_exact_iff (hh : Holding spec level keys tables) (hsound : ∀ table ∈ tables, Sound table)
    (hd : DisjointAt snapshot tables) (hl : snapshot ≤ snapshotLatest)
    (hr : ∀ r ∈ range, r.keyMin ≤ r.keyMax) :
    (Exact spec level tables snapshot direction range ↔ Aligned keys tables snapshot direction range) ∧
      (keys = tables.map TableInfo.keyMax →
        (Exact spec level tables snapshot direction range ↔
          Unhidden tables snapshot direction range)) := by
  have haligned : Exact spec level tables snapshot direction range ↔
      Aligned keys tables snapshot direction range := exact_iff_aligned hh hsound hl hr
  refine ⟨haligned, fun heq => haligned.trans ?_⟩
  subst heq
  obtain ⟨_, _, _, hs⟩ := hh.keys
  exact aligned_iff_unhidden (hs rfl) hsound hd hr

end Parallel

omit [Inhabited Key] in
theorem Agrees.holding (ha : Agrees spec level tables) :
    Holding spec level (tables.map TableInfo.keyMax) tables :=
  ⟨List.length_map .., ha.keys, ha.tables⟩

section Hidden

attribute [local instance] neZero_word neZero_wide

-- A table that replaces another one from a snapshot on and is wider than it.
def wider : TableInfo (Fin (2 ^ 64)) :=
  { between 2 0 20 (2 ^ 64 - 1) with snapshotMin := 5 }

def hidden : Result (ManifestLevel (Fin (2 ^ 64)) × ManifestLevel (Fin (2 ^ 64))) := do
  let level ← new driftSpec
  let level ← level.insertTable driftSpec (between 1 0 10 (2 ^ 64 - 1))
  let level ← level.setSnapshotMax driftSpec 4 ⟨between 1 0 10 (2 ^ 64 - 1), 1⟩
  return (level, ← level.insertTable driftSpec wider)

def hiddenLists : Result (List (TableInfo (Fin (2 ^ 64))) × List (TableInfo (Fin (2 ^ 64)))) := do
  let (level, level') ← hidden
  return (← level.tables.toList driftSpec.tablesSpec, ← level'.tables.toList driftSpec.tablesSpec)

theorem hidden_lists : hiddenLists = .ok ([between 1 0 10 4], [between 1 0 10 4, wider]) := by
  decide

-- A run to a level whose tables are those of the lists.
theorem hidden_reaches : ∃ level, Agrees driftSpec level [between 1 0 10 4, wider] ∧
    Reaches driftSpec (fun tables _ table => Apart tables table) Updatable level := by
  obtain ⟨⟨level₂, level₃⟩, hhidden, hlists⟩ := bind_eq_ok.mp hidden_lists
  obtain ⟨list₂, hlist₂, hlists⟩ := bind_eq_ok.mp hlists
  obtain ⟨list₃, hlist₃, hlists⟩ := bind_eq_ok.mp hlists
  cases hlists
  obtain ⟨level₀, hnew, hhidden⟩ := bind_eq_ok.mp hhidden
  obtain ⟨level₁, hfirst, hhidden⟩ := bind_eq_ok.mp hhidden
  obtain ⟨level₂', hset, hhidden⟩ := bind_eq_ok.mp hhidden
  obtain ⟨level₃', hsecond, hhidden⟩ := bind_eq_ok.mp hhidden
  cases hhidden
  have hreaches₁ : Reaches driftSpec (fun tables _ table => Apart tables table) Updatable level₁ :=
    .insertTable (.new hnew) (new_agrees hnew).tables.toList (by decide) ⟨by decide, nofun⟩ hfirst
  have hagrees₁ := (new_agrees hnew).insertTable (by decide) nofun hfirst
  have hupdatable : Updatable 4 (between 1 0 10 (2 ^ 64 - 1)) := (by decide : 1 ≤ 4)
  have hreaches₂ : Reaches driftSpec (fun tables _ table => Apart tables table) Updatable level₂ :=
    .setSnapshotMax hreaches₁ hupdatable hset
  obtain ⟨_, _, _, ha₂, hop⟩ := hagrees₁.setSnapshotMax hset
  have hagrees₂ := ha₂.of_uncount hop
  rw [Except.ok.inj (hagrees₂.tables.toList.symm.trans hlist₂)] at hagrees₂
  have hcomparable : Comparable [between 1 0 10 4] wider := fun other hm => by
    rw [List.mem_singleton.mp hm]
    decide
  have happart : Apart [between 1 0 10 4] wider :=
    ⟨by decide, fun other hm hboth => by
      rw [List.mem_singleton.mp hm] at hboth
      exact absurd hboth (by decide)⟩
  have hagrees₃ := hagrees₂.insertTable (by decide) hcomparable hsecond
  rw [Except.ok.inj (hagrees₃.tables.toList.symm.trans hlist₃)] at hagrees₃
  exact ⟨level₃, hagrees₃, .insertTable hreaches₂ hlist₂ (by decide) happart hsecond⟩

theorem hidden_tables : (∀ table ∈ [between 1 0 10 4, wider], Sound table) ∧
    DisjointAt 5 [between 1 0 10 4, wider] := by
  refine ⟨fun table ht => ?_, ?_⟩
  · obtain rfl | ht := List.mem_cons.mp ht
    · exact ⟨by decide, by decide, by decide⟩
    · rw [List.mem_singleton.mp ht]
      exact ⟨by decide, by decide, by decide⟩
  · refine List.pairwise_pair.mpr fun hv _ => ?_
    exact absurd hv (by decide)

-- The table that is visible is not found: the one that it replaces ends behind the range, too.
theorem iterator_misses : ¬∀ (spec : ManifestLevelSpec) (level : ManifestLevel (Fin (2 ^ 64)))
    (tables : List (TableInfo (Fin (2 ^ 64)))) (snapshot : Nat) (direction : Direction)
    (range : Option (KeyRange (Fin (2 ^ 64)))),
    Reaches spec (fun tables _ table => Apart tables table) Updatable level →
    level.tables.toList spec.tablesSpec = .ok tables → DisjointAt snapshot tables →
    snapshot ≤ snapshotLatest → (∀ r ∈ range, r.keyMin ≤ r.keyMax) →
    Exact spec level tables snapshot direction range := by
  intro hclaim
  obtain ⟨level, hagrees, hreaches⟩ := hidden_reaches
  have hrange : ∀ r ∈ some (⟨5, 8⟩ : KeyRange (Fin (2 ^ 64))), r.keyMin ≤ r.keyMax := fun r hr => by
    rw [← Option.some.inj hr]
    decide
  have hexact := hclaim driftSpec level _ 5 .descending (some ⟨5, 8⟩) hreaches hagrees.tables.toList
    hidden_tables.2 (by decide) hrange
  have haligned := (exact_iff_aligned hagrees.holding hidden_tables.1 (by decide) hrange).mp hexact
  exact haligned.front wider (by decide) (by decide)

-- Upwards it is found.
theorem iterator_exact_iff_of_hidden : ∃ level : ManifestLevel (Fin (2 ^ 64)),
    Exact driftSpec level [between 1 0 10 4, wider] 5 .ascending (some ⟨5, 8⟩) := by
  obtain ⟨level, hagrees, _⟩ := hidden_reaches
  have hrange : ∀ r ∈ some (⟨5, 8⟩ : KeyRange (Fin (2 ^ 64))), r.keyMin ≤ r.keyMax := fun r hr => by
    rw [← Option.some.inj hr]
    decide
  exact ⟨level, ((iterator_exact_iff hagrees.holding hidden_tables.1 hidden_tables.2 (by decide)
    hrange).2 rfl).mpr trivial⟩

end Hidden

end ManifestLevel

end TigerBeetle
