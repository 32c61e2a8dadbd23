import TigerBeetle.Theorems.LevelIteration

namespace TigerBeetle

open Fallible

namespace ManifestLevel

open SegmentedArray Scan

variable {Key : Type} [LinearOrder Key] [TableKey Key] [Inhabited Key] {spec : ManifestLevelSpec}
variable {level : ManifestLevel Key} {table : TableInfo Key} {keys : List Key}
variable {tables : List (TableInfo Key)} {snapshot : Nat} {direction : Direction} {key : Key}
variable {range : Option (KeyRange Key)}

-- The range of a single key.
abbrev point (key : Key) : Option (KeyRange Key) :=
  some ⟨key, key⟩

-- The tables of a level that a lookup is to yield. As they are disjoint there is at most one.
def holders (tables : List (TableInfo Key)) (snapshot : Nat) (key : Key) : List (TableInfo Key) :=
  tables.filter fun table => Wanted snapshot (point key) table

omit [TableKey Key] [Inhabited Key] in
theorem mem_holders : table ∈ holders tables snapshot key ↔
    table ∈ tables ∧ Wanted snapshot (point key) table := by
  simp [holders]

omit [TableKey Key] [Inhabited Key] in
theorem wanted_point : Wanted snapshot (point key) table ↔
    VisibleAt snapshot table ∧ table.keyMin ≤ key ∧ key ≤ table.keyMax :=
  and_congr_right fun _ => ⟨fun h => h _ rfl, fun h _ hr => Option.some.inj hr ▸ h⟩

omit [TableKey Key] [Inhabited Key] in
theorem holders_length (hd : DisjointAt snapshot tables) :
    (holders tables snapshot key).length ≤ 1 := by
  have hpairwise := hd.sublist
    (@List.filter_sublist _ (fun t => decide (Wanted snapshot (point key) t)) tables)
  match hlist : holders tables snapshot key with
  | [] => exact Nat.zero_le _
  | [_] => exact le_rfl
  | a :: b :: rest =>
    unfold holders at hlist
    rw [hlist] at hpairwise
    have ha := wanted_point.mp (mem_holders.mp (show a ∈ holders tables snapshot key by
      unfold holders; rw [hlist]; exact List.mem_cons_self)).2
    have hb := wanted_point.mp (mem_holders.mp (show b ∈ holders tables snapshot key by
      unfold holders; rw [hlist]; exact List.mem_cons_of_mem _ List.mem_cons_self)).2
    obtain habove | hbelow := (List.pairwise_cons.mp hpairwise).1 b List.mem_cons_self ha.1 hb.1
    · exact absurd (ha.2.2.trans_lt (habove.trans_le hb.2.1)) (lt_irrefl _)
    · exact absurd (hb.2.2.trans_lt (hbelow.trans_le ha.2.1)) (lt_irrefl _)

end ManifestLevel

namespace Manifest

open ManifestLevel SegmentedArray Scan

variable {Key : Type} [LinearOrder Key] [TableKey Key] [Inhabited Key] {spec : ManifestLevelSpec}

section Level

variable {level : ManifestLevel Key} {table : TableInfo Key} {keys : List Key}
variable {tables : List (TableInfo Key)} {iterator : ManifestLookupIterator Key}

omit [TableKey Key] [Inhabited Key] in
-- The range of the latest snapshot is asked for every snapshot.
theorem keyInRange_eq :
    iterator.keyInRange level = .ok (level.keyRangeLatestContains iterator.key) := by
  unfold ManifestLookupIterator.keyInRange
  by_cases hlt : iterator.snapshot < snapshotLatest
  · rw [if_pos hlt]
    unfold keyRangeContains
    rw [assert_of hlt]
    rfl
  · rw [if_neg hlt]
    rfl

omit [Inhabited Key] in
theorem lookupLevel_skip (hcontains : level.keyRangeLatestContains iterator.key = false) :
    lookupLevel spec iterator level = .ok none := by
  unfold lookupLevel
  rw [keyInRange_eq, ok_bind, hcontains]
  rfl

-- What a lookup does with a level that it does not skip: there must be nothing behind the first table.
theorem lookupLevel_eq (hh : Holding spec level keys tables) (hsound : ∀ table ∈ tables, Sound table)
    (hl : iterator.snapshot ≤ snapshotLatest)
    (hcontains : level.keyRangeLatestContains iterator.key = true) :
    match Scan.next (verdict iterator.snapshot .ascending (point iterator.key))
        (windowOf keys tables .ascending (point iterator.key)) with
    | none                      => ∃ fault, lookupLevel spec iterator level = .error fault
    | some none                 => lookupLevel spec iterator level = .ok none
    | some (some (table, rest)) =>
      match Scan.next (verdict iterator.snapshot .ascending (point iterator.key)) rest with
      | some none => lookupLevel spec iterator level = .ok (some table)
      | _         => ∃ fault, lookupLevel spec iterator level = .error fault := by
  have hpoint : ∀ r ∈ point iterator.key, r.keyMin ≤ r.keyMax := fun r hr => by
    rw [← Option.some.inj hr]
  obtain ⟨inner, hiterator, hfeeds⟩ := @iterator_feeds _ _ _ _ _ _ _ _ .ascending _ _ hh hl hpoint
  have hsub := @window_subset _ _ keys tables .ascending (point iterator.key)
  have hlen := @window_length _ _ keys tables .ascending (point iterator.key)
  have hfirst := @next_follows _ _ _ spec level _ iterator.snapshot .ascending (point iterator.key)
    tables.length inner hfeeds (fun table ht => hsound table (hsub ht)) hl hlen
  unfold lookupLevel
  rw [keyInRange_eq, ok_bind, hcontains, if_neg (by simp), hh.tables.len, ok_bind, hiterator, ok_bind]
  cases hnext : Scan.next (verdict iterator.snapshot .ascending (point iterator.key))
      (windowOf keys tables .ascending (point iterator.key)) with
  | none =>
    rw [hnext] at hfirst
    obtain ⟨fault, hfault⟩ := hfirst
    dsimp only
    rw [hfault]
    exact ⟨fault, rfl⟩
  | some found =>
    rw [hnext] at hfirst
    cases found with
    | none =>
      dsimp only
      rw [show _ = _ from hfirst]
      rfl
    | some found =>
      obtain ⟨table, rest⟩ := found
      obtain ⟨inner', hrest, hfound⟩ := hfirst
      obtain ⟨hmem, htake⟩ := mem_of_next hnext
      obtain ⟨hvisible, hmin, hmax⟩ := wanted_point.mp (verdict_take.mp htake)
      have hless := next_length hnext
      have hsecond := @next_follows _ _ _ spec level _ iterator.snapshot .ascending (point iterator.key)
        tables.length inner' hrest (fun t ht => hsound t (hsub (next_subset hnext ht))) hl (by omega)
      dsimp only
      rw [hfound, ok_bind]
      dsimp only
      rw [visible_eq (hsound table (hsub hmem)) hl, ok_bind, assert_of (decide_eq_true hvisible), ok_bind,
        assert_of hmin, ok_bind, assert_of hmax, ok_bind]
      cases hnext' : Scan.next (verdict iterator.snapshot .ascending (point iterator.key)) rest with
      | none =>
        rw [hnext'] at hsecond
        obtain ⟨fault, hfault⟩ := hsecond
        dsimp only
        rw [hfault]
        exact ⟨fault, rfl⟩
      | some found' =>
        rw [hnext'] at hsecond
        cases found' with
        | none =>
          dsimp only
          rw [show _ = _ from hsecond]
          rfl
        | some found' =>
          obtain ⟨_, _, hfound'⟩ := hsecond
          dsimp only
          rw [hfound']
          exact ⟨_, rfl⟩

-- A lookup finds what a scan takes if this is not more than one table.
theorem lookupLevel_iff_scan (hh : Holding spec level keys tables)
    (hsound : ∀ table ∈ tables, Sound table) (hl : iterator.snapshot ≤ snapshotLatest)
    (hcontains : level.keyRangeLatestContains iterator.key = true) {found : Option (TableInfo Key)} :
    lookupLevel spec iterator level = .ok found ↔
      scan (verdict iterator.snapshot .ascending (point iterator.key))
        (windowOf keys tables .ascending (point iterator.key)) = some found.toList := by
  have heq := lookupLevel_eq hh hsound hl hcontains
  rw [scan_eq_next]
  cases hnext : Scan.next (verdict iterator.snapshot .ascending (point iterator.key))
      (windowOf keys tables .ascending (point iterator.key)) with
  | none =>
    rw [hnext] at heq
    obtain ⟨fault, hfault⟩ := heq
    rw [hfault]
    exact iff_of_false nofun nofun
  | some first =>
    rw [hnext] at heq
    cases first with
    | none =>
      dsimp only at heq ⊢
      rw [heq]
      cases found with
      | none => simp
      | some table => simp
    | some first =>
      obtain ⟨table, rest⟩ := first
      dsimp only at heq ⊢
      rw [scan_eq_next]
      cases hnext' : Scan.next (verdict iterator.snapshot .ascending (point iterator.key)) rest with
      | none =>
        rw [hnext'] at heq
        obtain ⟨fault, hfault⟩ := heq
        rw [hfault]
        exact iff_of_false nofun nofun
      | some second =>
        rw [hnext'] at heq
        cases second with
        | none =>
          dsimp only at heq ⊢
          rw [heq]
          cases found with
          | none => simp
          | some other => simp
        | some second =>
          obtain ⟨fault, hfault⟩ := heq
          rw [hfault]
          refine iff_of_false nofun fun h => ?_
          dsimp only at h
          cases hscan : scan (verdict iterator.snapshot .ascending (point iterator.key)) second.2 with
          | none =>
            rw [hscan] at h
            cases h
          | some taken =>
            rw [hscan] at h
            cases found with
            | none => cases h
            | some other => cases h

-- The point iteration finds the table of a level, or the level is skipped for having none.
def Reliable (level : ManifestLevel Key) (keys : List Key) (tables : List (TableInfo Key))
    (snapshot : Nat) (key : Key) : Prop :=
  if level.keyRangeLatestContains key then
    Aligned keys tables snapshot .ascending (point key)
  else
    ∀ table ∈ tables, ¬Wanted snapshot (point key) table

omit [TableKey Key] [Inhabited Key] in
theorem holders_toList {snapshot : Nat} {key : Key} (hd : DisjointAt snapshot tables) :
    (holders tables snapshot key).head?.toList = holders tables snapshot key := by
  have hlen := @holders_length _ _ _ _ key hd
  cases hlist : holders tables snapshot key with
  | nil => rfl
  | cons table rest =>
    rw [hlist, List.length_cons] at hlen
    rw [List.eq_nil_of_length_eq_zero (show rest.length = 0 by omega)]
    rfl

omit [TableKey Key] [Inhabited Key] in
theorem aligned_iff_holders {snapshot : Nat} {key : Key} (hd : DisjointAt snapshot tables) :
    Aligned keys tables snapshot .ascending (point key) ↔
      scan (verdict snapshot .ascending (point key)) (windowOf keys tables .ascending (point key)) =
        some (holders tables snapshot key) := by
  have hlen := @holders_length _ _ _ _ key hd
  rw [aligned_iff_scan]
  constructor
  · rintro ⟨out, hscan, hperm, _⟩
    rw [hscan]
    change out.Perm (holders tables snapshot key) at hperm
    cases hlist : holders tables snapshot key with
    | nil =>
      rw [hlist] at hperm
      rw [hperm.eq_nil]
    | cons table rest =>
      rw [hlist, List.length_cons] at hlen
      rw [hlist, List.eq_nil_of_length_eq_zero (show rest.length = 0 by omega)] at hperm
      rw [List.eq_nil_of_length_eq_zero (show rest.length = 0 by omega), List.perm_singleton.mp hperm]
  · intro hscan
    refine ⟨_, hscan, List.Perm.refl _, ?_⟩
    cases hlist : holders tables snapshot key with
    | nil => exact List.Pairwise.nil
    | cons table rest =>
      rw [hlist, List.length_cons] at hlen
      rw [List.eq_nil_of_length_eq_zero (show rest.length = 0 by omega)]
      exact List.pairwise_singleton _ _

-- The table of a level is found if and only if the level is reliable.
theorem lookupLevel_iff_reliable (hh : Holding spec level keys tables)
    (hsound : ∀ table ∈ tables, Sound table) (hd : DisjointAt iterator.snapshot tables)
    (hl : iterator.snapshot ≤ snapshotLatest) :
    lookupLevel spec iterator level = .ok (holders tables iterator.snapshot iterator.key).head? ↔
      Reliable level keys tables iterator.snapshot iterator.key := by
  unfold Reliable
  cases hcontains : level.keyRangeLatestContains iterator.key with
  | true =>
    rw [if_pos rfl, lookupLevel_iff_scan hh hsound hl hcontains, holders_toList hd,
      aligned_iff_holders hd]
  | false =>
    rw [if_neg Bool.false_ne_true, lookupLevel_skip hcontains]
    constructor
    · intro h table ht hw
      have hnil := List.head?_eq_none_iff.mp (Except.ok.inj h).symm
      have hmem := mem_holders.mpr ⟨ht, hw⟩
      rw [hnil] at hmem
      cases hmem
    · intro h
      have hnil : holders tables iterator.snapshot iterator.key = [] :=
        List.eq_nil_iff_forall_not_mem.mpr fun table ht =>
          h table (mem_holders.mp ht).1 (mem_holders.mp ht).2
      rw [hnil]
      rfl

theorem lookupLevel_sound (hh : Holding spec level keys tables)
    (hsound : ∀ table ∈ tables, Sound table) (hl : iterator.snapshot ≤ snapshotLatest)
    (h : lookupLevel spec iterator level = .ok (some table)) :
    table ∈ holders tables iterator.snapshot iterator.key := by
  cases hcontains : level.keyRangeLatestContains iterator.key with
  | true =>
    have hpre := scan_prefix ((lookupLevel_iff_scan hh hsound hl hcontains).mp h)
    obtain ⟨hmem, htake⟩ := mem_takable.mp (hpre.subset (List.mem_singleton_self table))
    exact mem_holders.mpr ⟨window_subset hmem, verdict_take.mp htake⟩
  | false => cases (lookupLevel_skip hcontains).symm.trans h

end Level

section Levels

variable {manifest : Manifest Key} {keys : Fin lsmLevels → List Key}
variable {tables : Fin lsmLevels → List (TableInfo Key)} {snapshot levelMin : Nat} {key : Key}

-- The levels of a manifest, of which the tables that a snapshot sees are disjoint.
structure Holds (spec : ManifestLevelSpec) (manifest : Manifest Key) (keys : Fin lsmLevels → List Key)
    (tables : Fin lsmLevels → List (TableInfo Key)) (snapshot : Nat) : Prop where
  levels : ∀ level, Holding spec (manifest.levels level) (keys level) (tables level)
  sound : ∀ level, ∀ table ∈ tables level, Sound table
  disjoint : ∀ level, DisjointAt snapshot (tables level)

-- The tables that are to be found in the levels from one on, from the first level to the last one.
def holdersFrom (tables : Fin lsmLevels → List (TableInfo Key)) (snapshot : Nat) (key : Key)
    (levelMin : Nat) : List (TableInfo Key) :=
  ((List.finRange lsmLevels).drop levelMin).flatMap fun level => holders (tables level) snapshot key

-- What a lookup goes through.
def sweep (spec : ManifestLevelSpec) (manifest : Manifest Key) (snapshot : Nat) (key : Key) :
    List (Fin lsmLevels) → Result (List (TableInfo Key))
  | []              => return []
  | level :: levels => do
    match ← lookupLevel spec ⟨snapshot, key, level⟩ (manifest.levels level) with
    | none       => sweep spec manifest snapshot key levels
    | some table => return table :: (← sweep spec manifest snapshot key levels)

omit [LinearOrder Key] [TableKey Key] [Inhabited Key] in
theorem drop_finRange {n level : Nat} (h : level < n) :
    (List.finRange n).drop level = ⟨level, h⟩ :: (List.finRange n).drop (level + 1) := by
  rw [List.drop_eq_getElem_cons (by rw [List.length_finRange]; exact h), List.getElem_finRange]
  rfl

omit [Inhabited Key] in
-- A lookup yields what the levels give, one after the other.
theorem collect_eq_sweep {rest fuel count : Nat} (hrest : levelMin + rest = lsmLevels)
    (hfuel : rest ≤ fuel) (hcount : rest ≤ count) :
    (do
      match ← (⟨snapshot, key, levelMin⟩ : ManifestLookupIterator Key).next spec manifest fuel with
      | none                   => return []
      | some (table, iterator) => return table :: (← iterator.collect spec manifest count)) =
      sweep spec manifest snapshot key ((List.finRange lsmLevels).drop levelMin) := by
  induction rest generalizing levelMin fuel count with
  | zero =>
    have hend : levelMin = lsmLevels := hrest
    rw [hend, List.drop_of_length_le (by rw [List.length_finRange])]
    cases fuel with
    | zero =>
      unfold ManifestLookupIterator.next
      rw [assert_of rfl]
      rfl
    | succ fuel =>
      unfold ManifestLookupIterator.next
      rw [dif_neg (Nat.lt_irrefl _), assert_of rfl]
      rfl
  | succ rest ih =>
    obtain ⟨fuel, rfl⟩ : ∃ n, fuel = n + 1 := ⟨fuel - 1, by omega⟩
    obtain ⟨count, rfl⟩ : ∃ n, count = n + 1 := ⟨count - 1, by omega⟩
    have hlt : levelMin < lsmLevels := by omega
    rw [drop_finRange hlt, sweep]
    unfold ManifestLookupIterator.next
    rw [dif_pos hlt]
    dsimp only
    cases hlookup : lookupLevel spec ⟨snapshot, key, levelMin⟩ (manifest.levels ⟨levelMin, hlt⟩) with
    | error fault => rfl
    | ok found =>
      rw [ok_bind, ok_bind]
      cases found with
      | none => exact ih (by omega) (by omega) (by omega)
      | some table =>
        have hnext := @ih (levelMin + 1) lsmLevels count (by omega) (by omega) (by omega)
        dsimp only
        rw [← hnext]
        rfl

omit [Inhabited Key] in
theorem collect_lookup {count : Nat} (hm : levelMin ≤ lsmLevels) (hcount : lsmLevels < count) :
    (lookup snapshot key levelMin).collect spec manifest count =
      sweep spec manifest snapshot key ((List.finRange lsmLevels).drop levelMin) := by
  obtain ⟨count, rfl⟩ : ∃ n, count = n + 1 := ⟨count - 1, by omega⟩
  exact collect_eq_sweep (Nat.add_sub_cancel' hm) (Nat.sub_le _ _)
    ((Nat.sub_le _ _).trans (Nat.le_of_lt_succ hcount))

variable (hw : Holds spec manifest keys tables snapshot) (hl : snapshot ≤ snapshotLatest)

include hw hl

theorem lookupLevel_cases {level : Fin lsmLevels} {found : Option (TableInfo Key)}
    (h : lookupLevel spec ⟨snapshot, key, level⟩ (manifest.levels level) = .ok found) :
    found.toList = holders (tables level) snapshot key ∨
      found = none ∧ 0 < (holders (tables level) snapshot key).length := by
  have hlen := @holders_length _ _ _ _ key (hw.disjoint level)
  cases hlist : holders (tables level) snapshot key with
  | nil =>
    cases found with
    | none => exact .inl rfl
    | some table =>
      have hmem := lookupLevel_sound (hw.levels level) (hw.sound level) hl h
      rw [hlist] at hmem
      cases hmem
  | cons table rest =>
    rw [hlist, List.length_cons] at hlen
    rw [List.eq_nil_of_length_eq_zero (show rest.length = 0 by omega)] at hlist ⊢
    cases found with
    | none => exact .inr ⟨rfl, Nat.one_pos⟩
    | some found =>
      have hmem := lookupLevel_sound (hw.levels level) (hw.sound level) hl h
      rw [hlist] at hmem
      rw [List.mem_singleton.mp hmem]
      exact .inl rfl

theorem sweep_length {levels : List (Fin lsmLevels)} {out : List (TableInfo Key)}
    (h : sweep spec manifest snapshot key levels = .ok out) :
    out.length ≤ (levels.flatMap fun level => holders (tables level) snapshot key).length := by
  induction levels generalizing out with
  | nil =>
    cases h
    exact Nat.zero_le _
  | cons level levels ih =>
    rw [sweep] at h
    obtain ⟨found, hfound, h⟩ := bind_eq_ok.mp h
    have hcases := lookupLevel_cases hw hl hfound
    rw [List.flatMap_cons, List.length_append]
    cases found with
    | none => exact (ih h).trans (Nat.le_add_left _ _)
    | some table =>
      obtain ⟨rest, hrest, h⟩ := bind_eq_ok.mp h
      cases h
      obtain hlist | ⟨hnone, _⟩ := hcases
      · rw [← hlist, List.length_cons, Option.toList_some, List.length_singleton, Nat.add_comm 1]
        exact Nat.succ_le_succ (ih hrest)
      · cases hnone

-- Everything is found if and only if all levels are reliable.
theorem sweep_iff {levels : List (Fin lsmLevels)} :
    sweep spec manifest snapshot key levels =
        .ok (levels.flatMap fun level => holders (tables level) snapshot key) ↔
      ∀ level ∈ levels, Reliable (manifest.levels level) (keys level) (tables level) snapshot key := by
  induction levels with
  | nil => exact iff_of_true rfl nofun
  | cons level levels ih =>
    have hreliable := @lookupLevel_iff_reliable _ _ _ _ spec _ _ _ ⟨snapshot, key, level⟩
      (hw.levels level) (hw.sound level) (hw.disjoint level) hl
    rw [List.forall_mem_cons, ← hreliable, ← ih, sweep, List.flatMap_cons]
    cases hlookup : lookupLevel spec ⟨snapshot, key, level⟩ (manifest.levels level) with
    | error fault => exact iff_of_false nofun fun h => nomatch h.1
    | ok found =>
      rw [ok_bind]
      obtain hlist | ⟨rfl, hpos⟩ := lookupLevel_cases hw hl hlookup
      · have hhead : (holders (tables level) snapshot key).head? = found := by
          rw [← hlist]
          cases found with
          | none => rfl
          | some table => rfl
        dsimp only
        rw [hhead, and_iff_right rfl, ← hlist]
        cases found with
        | none => exact Iff.rfl
        | some table =>
          constructor
          · intro h
            obtain ⟨rest, hrest, h⟩ := bind_eq_ok.mp h
            rw [hrest]
            exact congrArg Except.ok (List.cons.inj (Except.ok.inj h)).2
          · intro h
            dsimp only
            rw [h]
            rfl
      · refine iff_of_false (fun h => ?_) fun h => ?_
        · have hle := sweep_length hw hl (show sweep spec manifest snapshot key levels = .ok _ from h)
          rw [List.length_append] at hle
          omega
        · have hnil := List.head?_eq_none_iff.mp (Except.ok.inj h.1).symm
          rw [hnil] at hpos
          exact absurd hpos (Nat.lt_irrefl _)

-- A lookup yields the tables that are to be found, from the first of the levels to the last one.
def Complete (spec : ManifestLevelSpec) (manifest : Manifest Key)
    (tables : Fin lsmLevels → List (TableInfo Key)) (snapshot : Nat) (key : Key) (levelMin : Nat) :
    Prop :=
  ∀ count, lsmLevels < count → (lookup snapshot key levelMin).collect spec manifest count =
    .ok (holdersFrom tables snapshot key levelMin)

omit [LinearOrder Key] [TableKey Key] [Inhabited Key] hw hl in
theorem mem_drop_finRange {n : Nat} {level : Fin n} :
    level ∈ (List.finRange n).drop levelMin ↔ levelMin ≤ level.val := by
  rw [List.mem_drop_iff_getElem]
  constructor
  · rintro ⟨i, hi, rfl⟩
    rw [List.getElem_finRange]
    exact Nat.le_add_right _ _
  · intro hle
    refine ⟨level.val - levelMin, ?_, ?_⟩
    · rw [List.length_finRange]
      omega
    · rw [List.getElem_finRange]
      exact Fin.ext (Nat.add_sub_cancel' hle)

theorem complete_iff_reliable (hm : levelMin ≤ lsmLevels) :
    Complete spec manifest tables snapshot key levelMin ↔ ∀ level : Fin lsmLevels, levelMin ≤ level.val →
      Reliable (manifest.levels level) (keys level) (tables level) snapshot key := by
  have hsweep := @sweep_iff _ _ _ _ _ _ _ _ _ key hw hl ((List.finRange lsmLevels).drop levelMin)
  constructor
  · intro h level hlevel
    have hrun := h (lsmLevels + 1) (Nat.lt_succ_self _)
    rw [collect_lookup hm (Nat.lt_succ_self _)] at hrun
    exact hsweep.mp hrun level (mem_drop_finRange.mpr hlevel)
  · intro h count hcount
    rw [collect_lookup hm hcount]
    exact hsweep.mpr fun level hlevel => h level (mem_drop_finRange.mp hlevel)

omit [Inhabited Key] hl in
-- If the keys of a level are those of its tables it is reliable unless a table is outside of the range of
-- the latest snapshot.
theorem reliable_iff_contains (level : Fin lsmLevels)
    (heq : keys level = (tables level).map TableInfo.keyMax) :
    Reliable (manifest.levels level) (keys level) (tables level) snapshot key ↔
      ∀ table ∈ tables level, Wanted snapshot (point key) table →
        (manifest.levels level).keyRangeLatestContains key = true := by
  unfold Reliable
  cases hcontains : (manifest.levels level).keyRangeLatestContains key with
  | true =>
    rw [if_pos rfl, heq]
    obtain ⟨_, _, _, hs⟩ := (hw.levels level).keys
    have hsorted := hs rfl
    rw [heq] at hsorted
    exact iff_of_true (aligned_ascending hsorted (hw.sound level) (hw.disjoint level))
      fun _ _ _ => rfl
  | false =>
    rw [if_neg Bool.false_ne_true]
    exact forall₂_congr fun _ _ => ⟨fun h hwanted => absurd hwanted h, fun h hwanted => nomatch h hwanted⟩

-- Lookups are complete if and only if all levels are reliable. If the keys of the levels are those of
-- their tables this is so unless a table to be found is outside of the range of the latest snapshot.
theorem lookup_complete_iff (hm : levelMin ≤ lsmLevels) :
    (Complete spec manifest tables snapshot key levelMin ↔ ∀ level : Fin lsmLevels, levelMin ≤ level.val →
        Reliable (manifest.levels level) (keys level) (tables level) snapshot key) ∧
      ((∀ level, keys level = (tables level).map TableInfo.keyMax) →
        (Complete spec manifest tables snapshot key levelMin ↔
          ∀ level : Fin lsmLevels, levelMin ≤ level.val → ∀ table ∈ tables level,
            Wanted snapshot (point key) table →
              (manifest.levels level).keyRangeLatestContains key = true)) ∧
      ∀ level, (holders (tables level) snapshot key).length ≤ 1 := by
  have hreliable := @complete_iff_reliable _ _ _ _ _ _ _ _ _ levelMin key hw hl hm
  refine ⟨hreliable, fun heq => ?_, fun level => holders_length (hw.disjoint level)⟩
  rw [hreliable]
  exact forall₂_congr fun level _ => reliable_iff_contains hw level (heq level)

end Levels

section Outdated

attribute [local instance] neZero_word neZero_wide

-- A manifest of one table, which is no longer visible to the latest snapshot.
def outdated (level empty : ManifestLevel (Fin (2 ^ 64))) : Manifest (Fin (2 ^ 64)) where
  levels i := if i.val = 0 then level else empty

def outdatedTables (i : Fin lsmLevels) : List (TableInfo (Fin (2 ^ 64))) :=
  if i.val = 0 then [between 1 10 20 5] else []

theorem current_reaches : ∃ level, Agrees driftSpec level [between 1 10 20 5] ∧
    level.keyRangeLatest = none ∧
    Reaches driftSpec (fun tables _ table => Apart tables table) Updatable level := by
  obtain ⟨level₂, hcurrent, hsummary⟩ := bind_eq_ok.mp current_summary
  obtain ⟨list, hlist, hsummary⟩ := bind_eq_ok.mp hsummary
  have heq := Prod.ext_iff.mp (Except.ok.inj hsummary)
  obtain ⟨level₀, hnew, hcurrent⟩ := bind_eq_ok.mp hcurrent
  obtain ⟨level₁, hfirst, hset⟩ := bind_eq_ok.mp hcurrent
  have hreaches₁ : Reaches driftSpec (fun tables _ table => Apart tables table) Updatable level₁ :=
    .insertTable (.new hnew) (new_agrees hnew).tables.toList (by decide) ⟨by decide, nofun⟩ hfirst
  have hagrees₁ := (new_agrees hnew).insertTable (by decide) nofun hfirst
  have hupdatable : Updatable 5 (between 1 10 20 (2 ^ 64 - 1)) := (by decide : 1 ≤ 5)
  obtain ⟨_, _, _, ha₂, hop⟩ := hagrees₁.setSnapshotMax hset
  have hagrees₂ := ha₂.of_uncount hop
  have htables : list = [between 1 10 20 5] := heq.2
  rw [Except.ok.inj (hagrees₂.tables.toList.symm.trans hlist), htables] at hagrees₂
  exact ⟨level₂, hagrees₂, heq.1, .setSnapshotMax hreaches₁ hupdatable hset⟩

theorem new_reaches : ∃ level : ManifestLevel (Fin (2 ^ 64)), Agrees driftSpec level [] ∧
    Reaches driftSpec (fun tables _ table => Apart tables table) Updatable level := by
  obtain ⟨level₂, hcurrent, _⟩ := bind_eq_ok.mp current_summary
  obtain ⟨level₀, hnew, _⟩ := bind_eq_ok.mp hcurrent
  exact ⟨level₀, new_agrees hnew, .new hnew⟩

variable {level empty : ManifestLevel (Fin (2 ^ 64))}

theorem outdated_forall {P : ManifestLevel (Fin (2 ^ 64)) → List (TableInfo (Fin (2 ^ 64))) → Prop}
    (hlevel : P level [between 1 10 20 5]) (hempty : P empty []) (i : Fin lsmLevels) :
    P ((outdated level empty).levels i) (outdatedTables i) := by
  unfold outdated outdatedTables
  dsimp only
  by_cases hi : i.val = 0
  · rw [if_pos hi, if_pos hi]
    exact hlevel
  · rw [if_neg hi, if_neg hi]
    exact hempty

theorem outdated_holds (hlevel : Agrees driftSpec level [between 1 10 20 5])
    (hempty : Agrees driftSpec empty []) (snapshot : Nat) : Holds driftSpec (outdated level empty)
      (fun i => (outdatedTables i).map TableInfo.keyMax) outdatedTables snapshot where
  levels := @outdated_forall level empty (fun level tables =>
    Holding driftSpec level (tables.map TableInfo.keyMax) tables) hlevel.holding hempty.holding
  sound := @outdated_forall level empty (fun _ tables => ∀ table ∈ tables, Sound table)
    (fun _ ht => List.mem_singleton.mp ht ▸ ⟨by decide, by decide, by decide⟩) nofun
  disjoint := @outdated_forall level empty (fun _ tables => DisjointAt snapshot tables)
    (List.pairwise_singleton _ _) .nil

-- The table is not found by the snapshots that still see it.
theorem not_complete : ¬∀ (spec : ManifestLevelSpec) (manifest : Manifest (Fin (2 ^ 64)))
    (tables : Fin lsmLevels → List (TableInfo (Fin (2 ^ 64)))) (snapshot : Nat) (key : Fin (2 ^ 64)),
    (∀ level, Reaches spec (fun tables _ table => Apart tables table) Updatable (manifest.levels level)) →
    (∀ level, (manifest.levels level).tables.toList spec.tablesSpec = .ok (tables level)) →
    (∀ level, DisjointAt snapshot (tables level)) → snapshot ≤ snapshotLatest →
    Complete spec manifest tables snapshot key 0 := by
  intro hclaim
  obtain ⟨level, hagrees, hrange, hreaches⟩ := current_reaches
  obtain ⟨empty, hagrees', hreaches'⟩ := new_reaches
  have hholds := outdated_holds hagrees hagrees' 3
  have hcomplete := hclaim driftSpec (outdated level empty) outdatedTables 3 15
    (@outdated_forall level empty (fun level _ =>
      Reaches driftSpec (fun tables _ table => Apart tables table) Updatable level) hreaches hreaches')
    (@outdated_forall level empty (fun level tables =>
      level.tables.toList driftSpec.tablesSpec = .ok tables) hagrees.tables.toList hagrees'.tables.toList)
    hholds.disjoint (by decide)
  have hreliable := (complete_iff_reliable hholds (by decide) (Nat.zero_le _)).mp hcomplete
    ⟨0, by decide⟩ le_rfl
  have hcontains := (reliable_iff_contains hholds ⟨0, by decide⟩ rfl).mp hreliable (between 1 10 20 5)
    List.mem_cons_self (by decide)
  have hnone : level.keyRangeLatestContains 15 = false := by
    unfold keyRangeLatestContains
    rw [hrange]
  exact Bool.false_ne_true (hnone.symm.trans hcontains)

-- Behind its level nothing is missing.
theorem lookup_complete_iff_outdated : ∃ manifest : Manifest (Fin (2 ^ 64)),
    Complete driftSpec manifest outdatedTables 3 15 1 := by
  obtain ⟨level, hagrees, _, _⟩ := current_reaches
  obtain ⟨empty, hagrees', _⟩ := new_reaches
  refine ⟨outdated level empty, ((lookup_complete_iff (outdated_holds hagrees hagrees' 3) (by decide)
    (by decide)).2.1 fun _ => rfl).mpr fun level hlevel table ht _ => ?_⟩
  unfold outdatedTables at ht
  rw [if_neg (by omega)] at ht
  cases ht

end Outdated

end Manifest

end TigerBeetle
