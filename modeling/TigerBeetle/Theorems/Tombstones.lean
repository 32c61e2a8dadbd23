import TigerBeetle.Theorems.Lookup

namespace TigerBeetle

open Fallible

namespace Manifest

open ManifestLevel SegmentedArray Scan

variable {Key : Type} [LinearOrder Key] [TableKey Key] [Inhabited Key] {spec : ManifestLevelSpec}
variable {range : KeyRange Key}

section Level

variable {level : ManifestLevel Key} {table : TableInfo Key} {keys : List Key}
variable {tables window : List (TableInfo Key)} {snapshot : Nat}

-- The first visible table from the start on.
def firstFrom (keys : List Key) (tables : List (TableInfo Key)) (snapshot : Nat) (range : KeyRange Key) :
    Option (TableInfo Key) :=
  (windowOf keys tables .ascending (some range)).find? fun table => VisibleAt snapshot table

-- That table meets the range.
def Finds (keys : List Key) (tables : List (TableInfo Key)) (snapshot : Nat) (range : KeyRange Key) :
    Prop :=
  ∃ table ∈ firstFrom keys tables snapshot range, Meeting (some range) table

-- That table ends in front of the range.
def Breaks (keys : List Key) (tables : List (TableInfo Key)) (snapshot : Nat) (range : KeyRange Key) :
    Prop :=
  ∃ table ∈ firstFrom keys tables snapshot range, table.keyMax < range.keyMin

omit [TableKey Key] [Inhabited Key] in
-- The next table of a scan is the first one that is visible.
theorem next_eq_find : Scan.next (verdict snapshot .ascending (some range)) window =
    match window.find? fun table => VisibleAt snapshot table with
    | none       => some none
    | some table =>
      if table.keyMax < range.keyMin then none
      else if range.keyMax < table.keyMin then some none
      else some (some (table, (window.dropWhile fun table => ¬VisibleAt snapshot table).tail)) := by
  induction window with
  | nil => rfl
  | cons a window ih =>
    rw [Scan.next, List.find?_cons, List.dropWhile_cons]
    unfold verdict
    by_cases hv : VisibleAt snapshot a
    · rw [if_neg (not_not.mpr hv), decide_eq_true hv]
      dsimp only
      by_cases hbelow : a.keyMax < range.keyMin
      · rw [if_pos hbelow, if_pos hbelow]
      · rw [if_neg hbelow, if_neg hbelow]
        by_cases habove : range.keyMax < a.keyMin
        · rw [if_pos habove, if_pos habove]
        · rw [if_neg habove, if_neg habove, if_neg (by simpa using hv)]
          rfl
    · rw [if_pos hv, decide_eq_false hv, if_pos (by simpa using hv)]
      exact ih

theorem nextTable_eq (hh : Holding spec level keys tables) (hsound : ∀ table ∈ tables, Sound table)
    (hl : snapshot ≤ snapshotLatest) (hr : range.keyMin ≤ range.keyMax) :
    match Scan.next (verdict snapshot .ascending (some range))
        (windowOf keys tables .ascending (some range)) with
    | none       => ∃ fault,
      level.nextTable spec ⟨snapshot, range.keyMin, range.keyMax, none, .ascending⟩ = .error fault
    | some found => level.nextTable spec ⟨snapshot, range.keyMin, range.keyMax, none, .ascending⟩ =
      .ok (found.map Prod.fst) := by
  have hrange : ∀ r ∈ some range, r.keyMin ≤ r.keyMax := fun r h => Option.some.inj h ▸ hr
  obtain ⟨inner, hiterator, hfeeds⟩ := @iterator_feeds _ _ _ _ _ _ _ _ .ascending _ _ hh hl hrange
  have hnext := @next_follows _ _ _ spec level _ snapshot .ascending (some range) tables.length inner
    hfeeds (fun table ht => hsound table (window_subset ht)) hl window_length
  unfold nextTable
  rw [assert_of hr, ok_bind, hh.tables.len, ok_bind]
  dsimp only
  rw [hiterator, ok_bind]
  cases hs : Scan.next (verdict snapshot .ascending (some range))
      (windowOf keys tables .ascending (some range)) with
  | none =>
    rw [hs] at hnext
    obtain ⟨fault, hfault⟩ := hnext
    dsimp only
    rw [hfault]
    exact ⟨fault, rfl⟩
  | some found =>
    rw [hs] at hnext
    cases found with
    | none =>
      dsimp only
      rw [show _ = _ from hnext]
      rfl
    | some found =>
      obtain ⟨inner', _, hfound⟩ := hnext
      dsimp only
      rw [hfound]
      rfl

theorem nextTable_cases (hh : Holding spec level keys tables) (hsound : ∀ table ∈ tables, Sound table)
    (hl : snapshot ≤ snapshotLatest) (hr : range.keyMin ≤ range.keyMax) :
    (Breaks keys tables snapshot range ∧ ¬Finds keys tables snapshot range ∧ ∃ fault,
      level.nextTable spec ⟨snapshot, range.keyMin, range.keyMax, none, .ascending⟩ = .error fault) ∨
    (¬Breaks keys tables snapshot range ∧ Finds keys tables snapshot range ∧ ∃ table,
      level.nextTable spec ⟨snapshot, range.keyMin, range.keyMax, none, .ascending⟩ = .ok (some table)) ∨
    (¬Breaks keys tables snapshot range ∧ ¬Finds keys tables snapshot range ∧
      level.nextTable spec ⟨snapshot, range.keyMin, range.keyMax, none, .ascending⟩ = .ok none) := by
  have hnext := nextTable_eq hh hsound hl hr
  rw [next_eq_find] at hnext
  unfold Breaks Finds firstFrom
  cases hfind : (windowOf keys tables .ascending (some range)).find?
      fun table => VisibleAt snapshot table with
  | none =>
    rw [hfind] at hnext
    exact .inr (.inr ⟨nofun, nofun, hnext⟩)
  | some table =>
    rw [hfind] at hnext
    dsimp only at hnext
    have hbreaks : (∃ t ∈ some table, t.keyMax < range.keyMin) ↔ table.keyMax < range.keyMin :=
      ⟨fun ⟨_, ht, h⟩ => Option.some.inj ht ▸ h, fun h => ⟨table, rfl, h⟩⟩
    have hfinds : (∃ t ∈ some table, Meeting (some range) t) ↔
        table.keyMin ≤ range.keyMax ∧ range.keyMin ≤ table.keyMax :=
      ⟨fun ⟨_, ht, h⟩ => Option.some.inj ht ▸ h range rfl,
        fun h => ⟨table, rfl, fun _ hr => Option.some.inj hr ▸ h⟩⟩
    rw [hbreaks, hfinds]
    by_cases hbelow : table.keyMax < range.keyMin
    · rw [if_pos hbelow] at hnext
      exact .inl ⟨hbelow, fun h => absurd hbelow (not_lt.mpr h.2), hnext⟩
    · rw [if_neg hbelow] at hnext
      by_cases habove : range.keyMax < table.keyMin
      · rw [if_pos habove] at hnext
        exact .inr (.inr ⟨hbelow, fun h => absurd habove (not_lt.mpr h.1), hnext⟩)
      · rw [if_neg habove] at hnext
        exact .inr (.inl ⟨hbelow, ⟨not_lt.mp habove, not_lt.mp hbelow⟩, table, hnext⟩)

omit [TableKey Key] [Inhabited Key] in
theorem wanted_of_finds (h : Finds keys tables snapshot range) :
    ∃ table ∈ tables, Wanted snapshot (some range) table := by
  obtain ⟨table, hfirst, hmeeting⟩ := h
  have hvisible := @List.find?_some _ (fun t => decide (VisibleAt snapshot t)) table _ hfirst
  exact ⟨table, window_subset (List.mem_of_find?_eq_some hfirst), of_decide_eq_true hvisible, hmeeting⟩

omit [TableKey Key] [Inhabited Key] in
-- An aligned level does not break, and what is in it is found.
theorem finds_of_aligned (h : Aligned keys tables snapshot .ascending (some range)) :
    ¬Breaks keys tables snapshot range ∧
      ((∃ table ∈ tables, Wanted snapshot (some range) table) → Finds keys tables snapshot range) := by
  obtain ⟨out, hscan, hperm, _⟩ := aligned_iff_scan.mp h
  rw [scan_eq_next, next_eq_find] at hscan
  unfold Breaks Finds firstFrom
  cases hfind : (windowOf keys tables .ascending (some range)).find?
      fun table => VisibleAt snapshot table with
  | none =>
    rw [hfind] at hscan
    cases hscan
    refine ⟨nofun, fun ⟨table, ht, hw⟩ => ?_⟩
    have hmem := hperm.symm.subset (List.mem_filter.mpr ⟨ht, decide_eq_true hw⟩)
    cases hmem
  | some table =>
    rw [hfind] at hscan
    dsimp only at hscan
    by_cases hbelow : table.keyMax < range.keyMin
    · rw [if_pos hbelow] at hscan
      cases hscan
    · refine ⟨fun ⟨_, ht, hlt⟩ => hbelow (Option.some.inj ht ▸ hlt), fun ⟨other, ho, hw⟩ => ?_⟩
      rw [if_neg hbelow] at hscan
      by_cases habove : range.keyMax < table.keyMin
      · rw [if_pos habove] at hscan
        cases hscan
        have hmem := hperm.symm.subset (List.mem_filter.mpr ⟨ho, decide_eq_true hw⟩)
        cases hmem
      · exact ⟨table, rfl, fun _ hr => Option.some.inj hr ▸ ⟨not_lt.mp habove, not_lt.mp hbelow⟩⟩

end Level

section Levels

variable {manifest : Manifest Key} {keys : Fin lsmLevels → List Key} {levelB : Nat}
variable {tables : Fin lsmLevels → List (TableInfo Key)}

-- Whether there is nothing that is visible to the latest snapshot in the levels below.
def Bottom (tables : Fin lsmLevels → List (TableInfo Key)) (levelB : Nat) (range : KeyRange Key) : Prop :=
  ∀ level : Fin lsmLevels, levelB < level.val → ∀ table ∈ tables level,
    ¬Wanted snapshotLatest (some range) table

-- Either there is nothing below and no level breaks, or there is a level that finds its table and none of
-- those above it breaks.
def Decided (keys : Fin lsmLevels → List Key) (tables : Fin lsmLevels → List (TableInfo Key))
    (levelB : Nat) (range : KeyRange Key) : Prop :=
  (Bottom tables levelB range ∧ ∀ level : Fin lsmLevels, levelB < level.val →
      ¬Breaks (keys level) (tables level) snapshotLatest range) ∨
    ∃ level : Fin lsmLevels, levelB < level.val ∧ Finds (keys level) (tables level) snapshotLatest range ∧
      ∀ above : Fin lsmLevels, levelB < above.val → above < level →
        ¬Breaks (keys above) (tables above) snapshotLatest range

-- The answer is right.
def Answers (spec : ManifestLevelSpec) (manifest : Manifest Key)
    (tables : Fin lsmLevels → List (TableInfo Key)) (levelB : Nat) (range : KeyRange Key) : Prop :=
  ∃ answer, manifest.compactionMustDropTombstones spec levelB range = .ok answer ∧
    (answer = true ↔ Bottom tables levelB range)

variable (hw : Holds spec manifest keys tables snapshotLatest) (hr : range.keyMin ≤ range.keyMax)

include hw hr

-- The levels from one on: either one of them is the first to find something, or they all find nothing.
theorem compactionLevels_cases {rest count levelC : Nat} (hrest : levelC + rest = lsmLevels)
    (hcount : rest ≤ count) (hb : levelB < levelC) :
    (manifest.compactionLevels spec levelB range count levelC = .ok true ↔
      ∀ level : Fin lsmLevels, levelC ≤ level.val →
        ¬Finds (keys level) (tables level) snapshotLatest range ∧
        ¬Breaks (keys level) (tables level) snapshotLatest range) ∧
    (manifest.compactionLevels spec levelB range count levelC = .ok false ↔
      ∃ level : Fin lsmLevels, levelC ≤ level.val ∧
        Finds (keys level) (tables level) snapshotLatest range ∧
        ∀ above : Fin lsmLevels, levelC ≤ above.val → above < level →
          ¬Breaks (keys above) (tables above) snapshotLatest range) := by
  induction rest generalizing levelC count with
  | zero =>
    have hend : levelC = lsmLevels := hrest
    have hrun : manifest.compactionLevels spec levelB range count levelC = .ok true := by
      cases count with
      | zero =>
        unfold compactionLevels
        rw [assert_of hend]
        rfl
      | succ count =>
        unfold compactionLevels
        rw [dif_neg (by omega), assert_of hend]
        rfl
    rw [hrun]
    refine ⟨iff_of_true rfl fun level hle => ?_, iff_of_false nofun ?_⟩
    · have hlt := level.isLt
      omega
    · rintro ⟨level, hle, _⟩
      have hlt := level.isLt
      omega
  | succ rest ih =>
    obtain ⟨count, rfl⟩ : ∃ n, count = n + 1 := ⟨count - 1, by omega⟩
    have hlt : levelC < lsmLevels := by omega
    have hrun := ih (show levelC + 1 + rest = lsmLevels by omega) (show rest ≤ count by omega) (by omega)
    have hsplit : ∀ level : Fin lsmLevels, levelC ≤ level.val ↔
        level = ⟨levelC, hlt⟩ ∨ levelC + 1 ≤ level.val := fun level => by
      rw [Fin.ext_iff]
      dsimp only
      omega
    have hcases := nextTable_cases (hw.levels ⟨levelC, hlt⟩) (hw.sound ⟨levelC, hlt⟩) le_rfl hr
    unfold compactionLevels
    rw [dif_pos hlt]
    obtain ⟨hbreaks, hfinds, fault, hnext⟩ | ⟨hbreaks, hfinds, table, hnext⟩ |
      ⟨hbreaks, hfinds, hnext⟩ := hcases
    · rw [hnext]
      refine ⟨iff_of_false nofun fun h => (h ⟨levelC, hlt⟩ le_rfl).2 hbreaks, iff_of_false nofun ?_⟩
      rintro ⟨level, hle, hfound, habove⟩
      obtain rfl | hle := (hsplit level).mp hle
      · exact hfinds hfound
      · exact habove ⟨levelC, hlt⟩ le_rfl hle hbreaks
    · rw [hnext, ok_bind, if_pos Option.isSome_some, assert_of (by omega)]
      refine ⟨iff_of_false nofun fun h => (h ⟨levelC, hlt⟩ le_rfl).1 hfinds, iff_of_true rfl ?_⟩
      exact ⟨⟨levelC, hlt⟩, le_rfl, hfinds, fun above hle habove =>
        absurd habove (not_lt.mpr (Fin.le_def.mpr hle))⟩
    · rw [hnext, ok_bind, if_neg (by simp)]
      refine ⟨hrun.1.trans ⟨fun h level hle => ?_, fun h level hle => h level (by omega)⟩,
        hrun.2.trans ⟨?_, ?_⟩⟩
      · obtain rfl | hle := (hsplit level).mp hle
        · exact ⟨hfinds, hbreaks⟩
        · exact h level hle
      · rintro ⟨level, hle, hfound, habove⟩
        refine ⟨level, by omega, hfound, fun above hle' hlt' => ?_⟩
        obtain rfl | hle' := (hsplit above).mp hle'
        · exact hbreaks
        · exact habove above hle' hlt'
      · rintro ⟨level, hle, hfound, habove⟩
        obtain rfl | hle := (hsplit level).mp hle
        · exact absurd hfound hfinds
        · exact ⟨level, hle, hfound, fun above hle' hlt' => habove above (by omega) hlt'⟩

-- The answer is right if and only if it is decided by the levels below.
theorem answers_iff_decided (hb : levelB < lsmLevels) :
    Answers spec manifest tables levelB range ↔ Decided keys tables levelB range := by
  obtain ⟨htrue, hfalse⟩ := @compactionLevels_cases _ _ _ _ spec range manifest keys levelB tables hw hr
    (lsmLevels - (levelB + 1)) lsmLevels (levelB + 1) (Nat.add_sub_cancel' hb) (Nat.sub_le _ _)
    (Nat.lt_succ_self _)
  unfold Answers compactionMustDropTombstones
  rw [assert_of hb, ok_bind, assert_of hr, ok_bind]
  constructor
  · rintro ⟨answer, hrun, hanswer⟩
    cases answer with
    | true  => exact .inl ⟨hanswer.mp rfl, fun level hlevel => (htrue.mp hrun level hlevel).2⟩
    | false => exact .inr (hfalse.mp hrun)
  · rintro (⟨hbottom, hbreaks⟩ | ⟨level, hlevel, hfinds, habove⟩)
    · refine ⟨true, htrue.mpr fun level hlevel => ⟨fun hfinds => ?_, hbreaks level hlevel⟩,
        iff_of_true rfl hbottom⟩
      obtain ⟨table, ht, hwanted⟩ := wanted_of_finds hfinds
      exact hbottom level hlevel table ht hwanted
    · refine ⟨false, hfalse.mpr ⟨level, hlevel, hfinds, habove⟩, iff_of_false nofun fun hbottom => ?_⟩
      obtain ⟨table, ht, hwanted⟩ := wanted_of_finds hfinds
      exact hbottom level hlevel table ht hwanted

omit [Inhabited Key] hr in
theorem decided_of_parallel (heq : ∀ level, keys level = (tables level).map TableInfo.keyMax) :
    Decided keys tables levelB range := by
  have haligned : ∀ level, Aligned (keys level) (tables level) snapshotLatest .ascending (some range) :=
    fun level => by
      obtain ⟨_, _, _, hs⟩ := (hw.levels level).keys
      have hsorted := hs rfl
      rw [heq level] at hsorted ⊢
      exact aligned_ascending hsorted (hw.sound level) (hw.disjoint level)
  have hbreaks := fun level => (finds_of_aligned (haligned level)).1
  by_cases hbottom : Bottom tables levelB range
  case pos => exact .inl ⟨hbottom, fun level _ => hbreaks level⟩
  case neg =>
    simp only [Bottom, not_forall, not_not, exists_prop] at hbottom
    obtain ⟨level, hlevel, table, ht, hwanted⟩ := hbottom
    exact .inr ⟨level, hlevel, (finds_of_aligned (haligned level)).2 ⟨table, ht, hwanted⟩,
      fun above _ _ => hbreaks above⟩

-- The answer is right if and only if it is decided by the levels below, as it always is if the keys of
-- the levels are those of their tables.
theorem compactionMustDropTombstones_iff (hb : levelB < lsmLevels) :
    (Answers spec manifest tables levelB range ↔ Decided keys tables levelB range) ∧
      ((∀ level, keys level = (tables level).map TableInfo.keyMax) →
        Answers spec manifest tables levelB range) := by
  have hdecided := answers_iff_decided hw hr hb
  exact ⟨hdecided, fun heq => hdecided.mpr (decided_of_parallel hw heq)⟩

end Levels

theorem compactionMustDropTombstones_iff_outdated : ∃ manifest : Manifest (Fin (2 ^ 64)),
    Answers driftSpec manifest outdatedTables 0 ⟨12, 15⟩ := by
  obtain ⟨level, hagrees, _, _⟩ := current_reaches
  obtain ⟨empty, hagrees', _⟩ := new_reaches
  have hle : (12 : Fin (2 ^ 64)) ≤ 15 := by decide
  exact ⟨outdated level empty, (compactionMustDropTombstones_iff (outdated_holds hagrees hagrees' _) hle
    (by decide)).2 fun _ => rfl⟩

section Dropped

attribute [local instance] neZero_word neZero_wide

-- A manifest with two tables in the level below, which do not stand in the order of their keys.
def misordered (level empty : ManifestLevel (Fin (2 ^ 128))) : Manifest (Fin (2 ^ 128)) where
  levels i := if i.val = 1 then level else empty

def misorderedTables (i : Fin lsmLevels) : List (TableInfo (Fin (2 ^ 128))) :=
  if i.val = 1 then [single 1 ⟨2 ^ 64, word_lt_wide⟩, single 2 1] else []

def misorderedAnswer : Result Bool := do
  let level ← drift
  let empty ← ManifestLevel.new driftSpec
  (misordered level empty).compactionMustDropTombstones driftSpec 0 ⟨1, 1⟩

theorem misordered_answer : misorderedAnswer = .ok true := by
  decide

variable {level empty : ManifestLevel (Fin (2 ^ 128))}

theorem misordered_forall {P : ManifestLevel (Fin (2 ^ 128)) → List (TableInfo (Fin (2 ^ 128))) → Prop}
    (hlevel : P level [single 1 ⟨2 ^ 64, by decide⟩, single 2 1]) (hempty : P empty [])
    (i : Fin lsmLevels) :
    P ((misordered level empty).levels i) (misorderedTables i) := by
  unfold misordered misorderedTables
  dsimp only
  by_cases hi : i.val = 1
  · rw [if_pos hi, if_pos hi]
    exact hlevel
  · rw [if_neg hi, if_neg hi]
    exact hempty

-- Tombstones are to be dropped although the level below has a table with the key.
theorem not_answers : ¬∀ (spec : ManifestLevelSpec) (manifest : Manifest (Fin (2 ^ 128)))
    (tables : Fin lsmLevels → List (TableInfo (Fin (2 ^ 128)))) (levelB : Nat)
    (range : KeyRange (Fin (2 ^ 128))),
    (∀ level, Reaches spec (fun tables _ table => Apart tables table) (fun _ _ => True)
      (manifest.levels level)) →
    (∀ level, (manifest.levels level).tables.toList spec.tablesSpec = .ok (tables level)) →
    (∀ level, DisjointAt snapshotLatest (tables level)) → range.keyMin ≤ range.keyMax →
    levelB < lsmLevels → Answers spec manifest tables levelB range := by
  intro hclaim
  obtain ⟨level₂, hdrift, hanswer⟩ := bind_eq_ok.mp misordered_answer
  obtain ⟨empty, hempty, hanswer⟩ := bind_eq_ok.mp hanswer
  have hlists := drift_lists
  unfold listsOf at hlists
  rw [hdrift, ok_bind] at hlists
  obtain ⟨_, _, hlists⟩ := bind_eq_ok.mp hlists
  obtain ⟨list, hlist, hlists⟩ := bind_eq_ok.mp hlists
  cases hlists
  obtain ⟨level₀, hnew, hdrift'⟩ := bind_eq_ok.mp hdrift
  obtain ⟨level₁, hfirst, hsecond⟩ := bind_eq_ok.mp hdrift'
  have hreaches₁ : Reaches driftSpec (fun tables _ table => Apart tables table) (fun _ _ => True)
      level₁ :=
    .insertTable (.new hnew) (new_agrees hnew).tables.toList (by decide) ⟨le_refl _, nofun⟩ hfirst
  have hagrees₁ := (new_agrees hnew).insertTable (by decide) nofun hfirst
  have hreaches₂ : Reaches driftSpec (fun tables _ table => Apart tables table) (fun _ _ => True)
      level₂ := .insertTable hreaches₁ hagrees₁.tables.toList (by decide) apart_single hsecond
  obtain ⟨answer, hrun, hright⟩ := hclaim driftSpec (misordered level₂ empty) misorderedTables 0 ⟨1, 1⟩
    (@misordered_forall level₂ empty (fun level _ => Reaches driftSpec
      (fun tables _ table => Apart tables table) (fun _ _ => True) level) hreaches₂ (.new hempty))
    (@misordered_forall level₂ empty (fun level tables =>
      level.tables.toList driftSpec.tablesSpec = .ok tables) hlist (new_agrees hempty).tables.toList)
    (@misordered_forall level₂ empty (fun _ tables => DisjointAt snapshotLatest tables)
      (List.pairwise_pair.mpr fun _ _ => .inr (by decide)) .nil)
    le_rfl (by decide)
  cases hanswer.symm.trans hrun
  exact hright.mp rfl ⟨1, by decide⟩ Nat.one_pos (single 2 1) (List.mem_cons_of_mem _ List.mem_cons_self)
    (by decide)

end Dropped

end Manifest

end TigerBeetle
