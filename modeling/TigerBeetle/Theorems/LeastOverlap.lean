import TigerBeetle.Intervals
import TigerBeetle.LeastOverlap
import TigerBeetle.Theorems.KeptLevels

namespace TigerBeetle

open Fallible

namespace ManifestLevel

open SegmentedArray Scan Intervals

variable {Key : Type} [LinearOrder Key] [TableKey Key] [Inhabited Key] {spec : ManifestLevelSpec}
variable {levelA levelB : ManifestLevel Key} {table : TableInfo Key}
variable {tables tablesA tablesB as bs before rest : List (TableInfo Key)} {fuel fuelA fuelB steps : Nat}
variable {pointer lower upper : Pointer Key} {passes : TableInfo Key → Bool}

section Pointers

-- A pointer between the tables that are behind it and those that it still has to go over.
structure Passed (spec : ManifestLevelSpec) (levelB : ManifestLevel Key) (fuel : Nat)
    (before rest : List (TableInfo Key)) (pointer : Pointer Key) : Prop where
  count : pointer.count = before.length
  table : pointer.table = rest.head?
  yields : rest ≠ [] → Yields spec levelB fuel pointer.iterator rest.tail

omit [Inhabited Key] in
theorem advance_passed (h : Passed spec levelB fuel before rest pointer) (hsteps : rest.length < steps) :
    ∃ pointer', pointer.advance spec levelB fuel passes steps = .ok pointer' ∧
      Passed spec levelB fuel (before ++ rest.takeWhile passes) (rest.dropWhile passes) pointer' := by
  induction rest generalizing before pointer steps with
  | nil =>
    obtain ⟨steps, rfl⟩ : ∃ n, steps = n + 1 := ⟨steps - 1, by omega⟩
    refine ⟨pointer, ?_, ?_⟩
    · unfold Pointer.advance
      rw [h.table]
      rfl
    · rw [List.takeWhile_nil, List.append_nil]
      exact h
  | cons table rest ih =>
    obtain ⟨steps, rfl⟩ : ∃ n, steps = n + 1 := ⟨steps - 1, by omega⟩
    rw [List.length_cons] at hsteps
    unfold Pointer.advance
    rw [h.table, List.head?_cons]
    dsimp only
    cases hp : passes table with
    | false =>
      rw [if_pos (by simp), List.takeWhile_cons, List.dropWhile_cons, hp, if_neg Bool.false_ne_true,
        if_neg Bool.false_ne_true, List.append_nil]
      exact ⟨pointer, rfl, h⟩
    | true =>
      have hy := h.yields (List.cons_ne_nil _ _)
      rw [if_neg (by simp), List.takeWhile_cons, List.dropWhile_cons, hp, if_pos rfl, if_pos rfl]
      have hcount : pointer.count + 1 = (before ++ [table]).length := by
        rw [h.count, List.length_append]
        rfl
      cases rest with
      | nil =>
        have hnone : Passed spec levelB fuel (before ++ [table]) []
            ⟨pointer.iterator, pointer.count + 1, none⟩ := ⟨hcount, rfl, fun hne => absurd rfl hne⟩
        have hmore : ([] : List (TableInfo Key)).length < steps := Nat.lt_of_succ_lt_succ hsteps
        obtain ⟨pointer', hrun, hpassed⟩ := ih hnone hmore
        rw [List.append_assoc] at hpassed
        rw [show pointer.iterator.next spec levelB fuel = .ok none from hy]
        exact ⟨pointer', hrun, hpassed⟩
      | cons next rest =>
        obtain ⟨iterator', hnext, hy'⟩ := hy
        have hsome : Passed spec levelB fuel (before ++ [table]) (next :: rest)
            ⟨iterator', pointer.count + 1, some next⟩ := ⟨hcount, rfl, fun _ => hy'⟩
        have hmore : (next :: rest).length < steps := Nat.lt_of_succ_lt_succ hsteps
        obtain ⟨pointer', hrun, hpassed⟩ := ih hsome hmore
        rw [List.append_assoc] at hpassed
        rw [hnext]
        exact ⟨pointer', hrun, hpassed⟩

omit [Inhabited Key] in
-- If everything behind the pointer is to be passed, it ends up behind all that is.
theorem advance_takeWhile (h : Passed spec levelB fuel before rest pointer) (hbs : bs = before ++ rest)
    (hbefore : ∀ table ∈ before, passes table = true) (hsteps : bs.length < steps) :
    ∃ pointer', pointer.advance spec levelB fuel passes steps = .ok pointer' ∧
      Passed spec levelB fuel (bs.takeWhile passes) (bs.dropWhile passes) pointer' := by
  subst hbs
  rw [List.length_append] at hsteps
  have hmore : rest.length < steps := by omega
  obtain ⟨pointer', hrun, hpassed⟩ := @advance_passed _ _ _ _ _ _ _ _ _ _ passes h hmore
  rw [List.takeWhile_append_of_pos hbefore, List.dropWhile_append_of_pos hbefore]
  exact ⟨pointer', hrun, hpassed⟩

omit [Inhabited Key] in
theorem start_passed {iterator : LevelIterator Key} (hy : Yields spec levelB fuel iterator bs) :
    ∃ pointer, Pointer.start spec levelB fuel iterator = .ok pointer ∧
      Passed spec levelB fuel [] bs pointer := by
  unfold Pointer.start
  cases bs with
  | nil =>
    rw [show iterator.next spec levelB fuel = .ok none from hy]
    exact ⟨_, rfl, rfl, rfl, fun hne => absurd rfl hne⟩
  | cons table bs =>
    obtain ⟨iterator', hnext, hy'⟩ := hy
    rw [hnext]
    exact ⟨_, rfl, rfl, rfl, fun _ => hy'⟩

end Pointers

section Loop

-- How many tables of the other level a table overlaps with.
abbrev overlapsOf (bs : List (TableInfo Key)) (table : TableInfo Key) : Nat :=
  overlaps TableInfo.keyMin TableInfo.keyMax bs table

-- The best of the tables that have been looked at, if one of them does not overlap with too many.
def Best (bs looked : List (TableInfo Key)) (maxOverlappingTables : Nat) (optimal : Optimal Key) : Prop :=
  (optimal.table = none ∧ optimal.overlap = maxOverlappingTables + 1 ∧
      ∀ a ∈ looked, maxOverlappingTables < overlapsOf bs a) ∨
    ∃ t ∈ looked, optimal.table = some t ∧ optimal.overlap = overlapsOf bs t ∧
      overlapsOf bs t ≤ maxOverlappingTables ∧ ∀ a ∈ looked, overlapsOf bs t ≤ overlapsOf bs a

variable {looked : List (TableInfo Key)} {maxOverlappingTables iterations : Nat} {optimal : Optimal Key}

section

variable (h : Best bs looked maxOverlappingTables optimal)

include h

omit [TableKey Key] [Inhabited Key] in
theorem Best.skip (hover : maxOverlappingTables < overlapsOf bs table) :
    Best bs (looked ++ [table]) maxOverlappingTables { optimal with iterations } := by
  obtain ⟨hnone, hmany, hall⟩ | ⟨t, ht, hsome, hoverlap, hle, hall⟩ := h
  · refine .inl ⟨hnone, hmany, fun a ha => ?_⟩
    obtain ha | ha := List.mem_append.mp ha
    · exact hall a ha
    · exact List.mem_singleton.mp ha ▸ hover
  · refine .inr ⟨t, List.mem_append_left _ ht, hsome, hoverlap, hle, fun a ha => ?_⟩
    obtain ha | ha := List.mem_append.mp ha
    · exact hall a ha
    · exact List.mem_singleton.mp ha ▸ hle.trans hover.le

omit [TableKey Key] [Inhabited Key] in
theorem Best.keep
    (hfits : overlapsOf bs table ≤ maxOverlappingTables) (hge : optimal.overlap ≤ overlapsOf bs table) :
    Best bs (looked ++ [table]) maxOverlappingTables { optimal with iterations } := by
  obtain ⟨_, hmany, _⟩ | ⟨t, ht, hsome, hoverlap, hle, hall⟩ := h
  · omega
  · refine .inr ⟨t, List.mem_append_left _ ht, hsome, hoverlap, hle, fun a ha => ?_⟩
    obtain ha | ha := List.mem_append.mp ha
    · exact hall a ha
    · exact List.mem_singleton.mp ha ▸ hoverlap.symm.le.trans hge

omit [TableKey Key] [Inhabited Key] in
theorem Best.replace
    (hfits : overlapsOf bs table ≤ maxOverlappingTables) (hlt : overlapsOf bs table < optimal.overlap) :
    Best bs (looked ++ [table]) maxOverlappingTables ⟨some table, overlapsOf bs table, iterations⟩ := by
  refine .inr ⟨table, List.mem_append_right _ (List.mem_singleton_self _), rfl, rfl, hfits, fun a ha => ?_⟩
  obtain ha | ha := List.mem_append.mp ha
  · obtain ⟨_, _, hall⟩ | ⟨t, _, _, hoverlap, _, hall⟩ := h
    · exact hfits.trans (hall a ha).le
    · exact (hlt.trans_eq hoverlap).le.trans (hall a ha)
  · rw [List.mem_singleton.mp ha]

omit [TableKey Key] [Inhabited Key] in
-- Where no table is overlapped with there is nothing better to come.
theorem Best.stop (hzero : optimal.overlap = 0) :
    Best bs (looked ++ as) maxOverlappingTables { optimal with iterations } := by
  obtain ⟨_, hmany, _⟩ | ⟨t, ht, hsome, hoverlap, hle, _⟩ := h
  · omega
  · exact .inr ⟨t, List.mem_append_left _ ht, hsome, hoverlap, hle, fun a _ => by omega⟩

end

omit [LinearOrder Key] [TableKey Key] [Inhabited Key] in
theorem head_dropWhile : ∀ table ∈ (bs.dropWhile passes).head?, passes table = false := by
  intro table ht
  have hnot := @List.head?_dropWhile_not _ passes bs
  rw [ht] at hnot
  exact hnot

omit [LinearOrder Key] [TableKey Key] [Inhabited Key] in
theorem of_mem_takeWhile (h : table ∈ bs.takeWhile passes) : passes table = true :=
  List.mem_takeWhile_imp h

omit [Inhabited Key] in
-- The loop finds the best of all tables, and stops early only if none can be better.
theorem leastOverlapLoop_best {iterator : LevelIterator Key} {count : Nat}
    {lowerBefore lowerRest upperBefore upperRest : List (TableInfo Key)}
    (hy : Yields spec levelA fuelA iterator as) (ha : ∀ a ∈ as, a.keyMin ≤ a.keyMax)
    (hb : ∀ b ∈ bs, b.keyMin ≤ b.keyMax) (has : Ordered TableInfo.keyMin TableInfo.keyMax as)
    (hbs : Ordered TableInfo.keyMin TableInfo.keyMax bs) (hfuel : bs.length ≤ fuelB)
    (hcount : as.length < count)
    (hlower : Passed spec levelB fuelB lowerBefore lowerRest lower) (hlowerBs : bs = lowerBefore ++ lowerRest)
    (hlowerAll : ∀ a ∈ as, ∀ b ∈ lowerBefore, b.keyMax < a.keyMin)
    (hupper : Passed spec levelB fuelB upperBefore upperRest upper) (hupperBs : bs = upperBefore ++ upperRest)
    (hupperAll : ∀ a ∈ as, ∀ b ∈ upperBefore, b.keyMin ≤ a.keyMax)
    (hbest : Best bs looked maxOverlappingTables optimal) (hiterations : optimal.iterations = looked.length) :
    ∃ optimal', leastOverlapLoop spec levelA levelB maxOverlappingTables fuelA fuelB count iterator lower
        upper optimal = .ok optimal' ∧ Best bs (looked ++ as) maxOverlappingTables optimal' ∧
      looked.length ≤ optimal'.iterations ∧ (as ≠ [] → 0 < optimal'.iterations) ∧
      (optimal'.iterations = (looked ++ as).length ∨ optimal'.overlap = 0) := by
  induction as generalizing iterator count lower upper lowerBefore lowerRest upperBefore upperRest optimal
      looked with
  | nil =>
    obtain ⟨count, rfl⟩ : ∃ n, count = n + 1 := ⟨count - 1, by omega⟩
    refine ⟨optimal, ?_, ?_, hiterations.symm.le, fun hne => absurd rfl hne, .inl ?_⟩
    · unfold leastOverlapLoop
      rw [show iterator.next spec levelA fuelA = .ok none from hy]
      rfl
    · rw [List.append_nil]
      exact hbest
    · rw [List.append_nil]
      exact hiterations
  | cons a as ih =>
    obtain ⟨count, rfl⟩ : ∃ n, count = n + 1 := ⟨count - 1, by omega⟩
    rw [List.length_cons] at hcount
    obtain ⟨iterator', hnext, hy'⟩ := hy
    obtain ⟨hhead, htail⟩ := List.pairwise_cons.mp has
    have hkeys := ha a List.mem_cons_self
    have hsteps : bs.length < fuelB + 1 := Nat.lt_succ_of_le hfuel
    obtain ⟨lower', hadvance, hlower'⟩ := @advance_takeWhile _ _ _ _ _ _ _ _ _ _ _
      (fun table => decide (table.keyMax < a.keyMin)) hlower hlowerBs
      (fun b hb => decide_eq_true (hlowerAll a List.mem_cons_self b hb)) hsteps
    obtain ⟨upper', hadvance', hupper'⟩ := @advance_takeWhile _ _ _ _ _ _ _ _ _ _ _
      (fun table => decide (table.keyMin ≤ a.keyMax)) hupper hupperBs
      (fun b hb => decide_eq_true (hupperAll a List.mem_cons_self b hb)) hsteps
    have hended : lower'.count = ended TableInfo.keyMax bs a.keyMin :=
      hlower'.count.trans (length_takeWhile_ended hb hbs)
    have hbegun : upper'.count = begun TableInfo.keyMin bs a.keyMax :=
      hupper'.count.trans (length_takeWhile_begun hb hbs)
    have hoverlaps := overlaps_add_ended hb hkeys
    rw [← hended, ← hbegun] at hoverlaps
    have hoverlap : upper'.count - lower'.count = overlapsOf bs a := by
      show _ = overlaps TableInfo.keyMin TableInfo.keyMax bs a
      omega
    have hlowerTable : ∀ table ∈ lower'.table, a.keyMin ≤ table.keyMax := fun table ht => by
      rw [hlower'.table] at ht
      exact not_lt.mp (of_decide_eq_false (head_dropWhile table ht))
    have hupperTable : ∀ table ∈ upper'.table, a.keyMax < table.keyMin := fun table ht => by
      rw [hupper'.table] at ht
      exact not_le.mp (of_decide_eq_false (head_dropWhile table ht))
    have hnextLower : ∀ c ∈ as, ∀ b ∈ bs.takeWhile fun table => decide (table.keyMax < a.keyMin),
        b.keyMax < c.keyMin := fun c hc b hb' => by
      have hpasses := of_mem_takeWhile hb'
      exact (of_decide_eq_true hpasses).trans_le (hkeys.trans (hhead c hc).le)
    have hnextUpper : ∀ c ∈ as, ∀ b ∈ bs.takeWhile fun table => decide (table.keyMin ≤ a.keyMax),
        b.keyMin ≤ c.keyMax := fun c hc b hb' => by
      have hpasses := of_mem_takeWhile hb'
      exact (of_decide_eq_true hpasses).trans
        ((hhead c hc).le.trans (ha c (List.mem_cons_of_mem _ hc)))
    have hsplit : ∀ p : TableInfo Key → Bool, bs = bs.takeWhile p ++ bs.dropWhile p := fun p =>
      List.takeWhile_append_dropWhile.symm
    have hlen : ∀ optimal' : Optimal Key, optimal'.iterations = optimal.iterations + 1 →
        optimal'.iterations = (looked ++ [a]).length := fun optimal' h => by
      rw [h, hiterations, List.length_append]
      rfl
    have hgo : ∀ optimal' : Optimal Key, Best bs (looked ++ [a]) maxOverlappingTables optimal' →
        optimal'.iterations = optimal.iterations + 1 → ∃ result,
          leastOverlapLoop spec levelA levelB maxOverlappingTables fuelA fuelB count iterator' lower' upper'
            optimal' = .ok result ∧ Best bs (looked ++ a :: as) maxOverlappingTables result ∧
          looked.length ≤ result.iterations ∧ (a :: as ≠ [] → 0 < result.iterations) ∧
          (result.iterations = (looked ++ a :: as).length ∨ result.overlap = 0) := fun optimal' hb' hi => by
      obtain ⟨result, hrun, hresult, hmore, _, hdone⟩ := ih hy' (fun c hc => ha c (List.mem_cons_of_mem _ hc))
        htail (Nat.lt_of_succ_lt_succ hcount) hlower' (hsplit _) hnextLower hupper' (hsplit _) hnextUpper hb'
        (hlen optimal' hi)
      rw [List.length_append, List.length_singleton] at hmore
      rw [List.append_assoc] at hresult hdone
      exact ⟨result, hrun, hresult, by omega, fun _ => by omega, hdone⟩
    unfold leastOverlapLoop
    rw [hnext, ok_bind]
    dsimp only
    rw [hadvance, ok_bind, assert_of hlowerTable, ok_bind, hadvance', ok_bind, assert_of hupperTable, ok_bind,
      assert_of (by omega), ok_bind, hoverlap]
    by_cases hover : overlapsOf bs a > maxOverlappingTables
    case pos =>
      rw [if_pos hover]
      exact hgo _ (hbest.skip hover) rfl
    case neg =>
      rw [if_neg hover]
      by_cases hzero : optimal.overlap = 0
      case pos =>
        rw [if_pos hzero]
        refine ⟨_, rfl, hbest.stop hzero, ?_, fun _ => Nat.succ_pos _, .inr hzero⟩
        exact hiterations.symm.le.trans (Nat.le_succ _)
      case neg =>
        rw [if_neg hzero]
        by_cases hless : overlapsOf bs a < optimal.overlap
        case pos =>
          rw [if_pos hless]
          exact hgo _ (hbest.replace (not_lt.mp hover) hless) rfl
        case neg =>
          rw [if_neg hless]
          exact hgo _ (hbest.keep (not_lt.mp hover) (not_lt.mp hless)) rfl

end Loop

section Least

-- The tables that the latest snapshot sees, in their order.
def visibleOf (tables : List (TableInfo Key)) : List (TableInfo Key) :=
  tables.filter fun table => Wanted snapshotLatest none table

-- Those that intersect with a table.
def overlapping (tables : List (TableInfo Key)) (table : TableInfo Key) : List (TableInfo Key) :=
  tables.filter fun other => Wanted snapshotLatest (some ⟨table.keyMin, table.keyMax⟩) other

omit [TableKey Key] [Inhabited Key] in
theorem mem_visibleOf : table ∈ visibleOf tables ↔ Live tables table := by
  refine List.mem_filter.trans (and_congr_right fun _ => ?_)
  exact decide_eq_true_iff.trans ⟨fun h => h.1, fun h => ⟨h, fun _ h => absurd h (Option.not_mem_none _)⟩⟩

omit [TableKey Key] [Inhabited Key] in
theorem length_visibleOf : (visibleOf tables).length = liveCount tables := by
  unfold visibleOf liveCount
  rw [List.countP_eq_length_filter]
  refine congrArg List.length (List.filter_congr fun table _ => ?_)
  exact decide_eq_decide.mpr ⟨fun h => h.1, fun h => ⟨h, fun _ h => absurd h (Option.not_mem_none _)⟩⟩

omit [TableKey Key] [Inhabited Key] in
theorem overlapsOf_visibleOf : overlapsOf (visibleOf tables) table = (overlapping tables table).length := by
  unfold overlapsOf overlaps visibleOf overlapping
  rw [List.countP_filter, List.countP_eq_length_filter]
  refine congrArg List.length (List.filter_congr fun other _ => ?_)
  rw [← Bool.decide_and]
  refine decide_eq_decide.mpr ⟨fun h => ⟨h.2.1, fun _ hr => ?_⟩, fun h =>
    ⟨h.2 _ rfl, h.1, fun _ hr => absurd hr (Option.not_mem_none _)⟩⟩
  rw [← Option.some.inj hr]
  exact h.1

-- A table that the latest snapshot sees and that intersects with no more tables of the other level than
-- any such table does, with exactly these tables and the hull of it and them.
structure LeastOverlaps (tablesA tablesB : List (TableInfo Key)) (result : LeastOverlapTable Key) :
    Prop where
  live : Live tablesA result.table.tableInfo
  least : ∀ other, Live tablesA other →
    (overlapping tablesB result.table.tableInfo).length ≤ (overlapping tablesB other).length
  exact : infos result.range = overlapping tablesB result.table.tableInfo
  hull : Extended ⟨result.table.tableInfo.keyMin, result.table.tableInfo.keyMax⟩ result.range

variable {maxOverlappingTables : Nat}

omit [Inhabited Key] in
theorem Stocked.keys_le (h : Stocked spec levelA tablesA) :
    ∀ table ∈ visibleOf tablesA, table.keyMin ≤ table.keyMax :=
  fun table ht => (h.sound table (mem_visibleOf.mp ht).1).keys

omit [Inhabited Key] in
theorem Stocked.ordered (h : Stocked spec levelA tablesA) :
    Ordered TableInfo.keyMin TableInfo.keyMax (visibleOf tablesA) :=
  ordered_of_parallel h.arrays.sorted h.sound h.disjoint

theorem tableWithLeastOverlap_least (ha : Stocked spec levelA tablesA) (hb : Stocked spec levelB tablesB)
    (hvisible : levelA.tableCountVisible = liveCount tablesA) (hmax : maxOverlappingTables ≤ lsmGrowthFactor)
    (hfits : ∃ table, Live tablesA table ∧ (overlapping tablesB table).length ≤ maxOverlappingTables) :
    ∃ result, levelA.tableWithLeastOverlap spec levelB snapshotLatest maxOverlappingTables = .ok result ∧
      LeastOverlaps tablesA tablesB result ∧ result.range.tables.length ≤ maxOverlappingTables := by
  obtain ⟨fit, hfit, hfew⟩ := hfits
  have hnone : ∀ r ∈ (none : Option (KeyRange Key)), r.keyMin ≤ r.keyMax :=
    fun _ h => absurd h (Option.not_mem_none _)
  obtain ⟨iterator, hiterator, hyA⟩ := @Stocked.iterator_yields _ _ _ _ _ _ _ ha .ascending none hnone
  obtain ⟨iteratorB, hiteratorB, hyB⟩ := @Stocked.iterator_yields _ _ _ _ _ _ _ hb .ascending none hnone
  obtain ⟨start, hstart, hpassed⟩ := start_passed hyB
  have hempty : Best (visibleOf tablesB) [] maxOverlappingTables ⟨none, maxOverlappingTables + 1, 0⟩ :=
    .inl ⟨rfl, rfl, fun _ h => absurd h List.not_mem_nil⟩
  have hsteps : (visibleOf tablesA).length < tablesA.length + 1 :=
    Nat.lt_succ_of_le (List.length_filter_le ..)
  obtain ⟨optimal, hloop, hbest, _, hsome, hdone⟩ := leastOverlapLoop_best hyA ha.keys_le hb.keys_le ha.ordered
    hb.ordered (List.length_filter_le ..) hsteps hpassed rfl
    (fun _ _ _ h => absurd h List.not_mem_nil) hpassed rfl (fun _ _ _ h => absurd h List.not_mem_nil)
    hempty rfl
  have hmem := mem_visibleOf.mpr hfit
  have hpos : levelA.tableCountVisible > 0 := by
    rw [hvisible, ← length_visibleOf]
    exact List.length_pos_of_mem hmem
  rw [List.nil_append] at hbest hdone
  rw [← overlapsOf_visibleOf] at hfew
  obtain ⟨_, _, hall⟩ | ⟨table, ht, htable, hoverlap, hle, hall⟩ := hbest
  · exact absurd hfew (not_le.mpr (hall fit hmem))
  · have hlive := mem_visibleOf.mp ht
    rw [overlapsOf_visibleOf] at hoverlap hle
    obtain ⟨range, _, hextended, hinfos, hrange⟩ := tablesOverlapping_eq
      (r := ⟨table.keyMin, table.keyMax⟩) hb (ha.keys_le table ht) hmax hle
    have hlength : range.tables.length = (overlapping tablesB table).length := by
      have hlen := congrArg List.length hinfos
      unfold infos at hlen
      rw [List.length_map] at hlen
      exact hlen
    refine ⟨⟨⟨table, levelA.generation⟩, range⟩, ?_, ⟨hlive, fun other hother => ?_, hinfos, hextended⟩,
      hlength.le.trans hle⟩
    · unfold tableWithLeastOverlap
      rw [assert_of hmax, ok_bind, assert_of hpos, ok_bind, ha.arrays.tables.len, ok_bind,
        hb.arrays.tables.len, ok_bind, hiterator, ok_bind, hiteratorB, ok_bind, hstart, ok_bind,
        ok_bind, hstart, ok_bind, hloop, ok_bind, assert_of (hsome (List.ne_nil_of_mem hmem)), ok_bind,
        assert_of (hdone.imp_left fun h => h.trans (length_visibleOf.trans hvisible.symm)), ok_bind,
        assert_of (hoverlap.le.trans hle), ok_bind, htable]
      dsimp only
      rw [hrange, ok_bind]
      dsimp only
      rw [assert_of (hlength.trans hoverlap.symm), ok_bind, assert_of (hlength.le.trans hle)]
      rfl
    · have hless := hall other (mem_visibleOf.mpr hother)
      rw [overlapsOf_visibleOf, overlapsOf_visibleOf] at hless
      exact hless

end Least

end ManifestLevel

namespace Manifest

open ManifestLevel Intervals

variable {Key : Type} [LinearOrder Key] [TableKey Key] [Inhabited Key] {spec : ManifestLevelSpec}
variable {manifest : Manifest Key} {levelA levelB : ManifestLevel Key}
variable {tablesA tablesB : List (TableInfo Key)}

omit [Inhabited Key] in
-- If the other level holds at most the growth factor times the tables of a level, one of these does not
-- intersect with more of them than the growth factor.
theorem exists_few_overlapping (ha : Stocked spec levelA tablesA) (hb : Stocked spec levelB tablesB)
    (hpos : 0 < liveCount tablesA) (hcount : liveCount tablesB ≤ lsmGrowthFactor * liveCount tablesA) :
    ∃ table, Live tablesA table ∧ (overlapping tablesB table).length ≤ lsmGrowthFactor := by
  rw [← length_visibleOf, ← length_visibleOf] at hcount
  rw [← length_visibleOf] at hpos
  obtain ⟨table, ht, hle⟩ := exists_overlaps_le hb.keys_le hb.ordered ha.keys_le ha.ordered
    (List.ne_nil_of_length_pos hpos) hcount
  exact ⟨table, mem_visibleOf.mp ht, overlapsOf_visibleOf.symm.le.trans hle⟩

-- A table is chosen from a level whenever one of its tables does not intersect with too many.
def Chooses (spec : ManifestLevelSpec) (levelA levelB : ManifestLevel Key)
    (tablesA tablesB : List (TableInfo Key)) : Prop :=
  ∀ maxOverlappingTables ≤ lsmGrowthFactor,
    (∃ table, Live tablesA table ∧ (overlapping tablesB table).length ≤ maxOverlappingTables) →
    ∃ result, levelA.tableWithLeastOverlap spec levelB snapshotLatest maxOverlappingTables = .ok result ∧
      LeastOverlaps tablesA tablesB result ∧ result.range.tables.length ≤ maxOverlappingTables

-- What is compacted from a full level: a table that is chosen with the growth factor.
def Selects (spec : ManifestLevelSpec) (manifest : Manifest Key) (level : Fin (lsmLevels - 1))
    (tablesA tablesB : List (TableInfo Key)) : Prop :=
  lsmGrowthFactor ^ (level.val + 1) ≤ liveCount tablesA →
  liveCount tablesA ≤ lsmGrowthFactor ^ (level.val + 1) + 1 →
  liveCount tablesB ≤ lsmGrowthFactor ^ (level.val + 2) →
  ∃ result, manifest.compactionTable spec level.val =
    .ok (some ⟨result.table, result.range.keyMin, result.range.keyMax, result.range⟩) ∧
      LeastOverlaps tablesA tablesB result ∧ result.range.tables.length ≤ lsmGrowthFactor

theorem compactionTable_selects {level : Fin (lsmLevels - 1)}
    (ha : Stocked spec (manifest.levels ⟨level.val, level.isLt.trans (by decide)⟩) tablesA)
    (hb : Stocked spec (manifest.levels (nextLevel level)) tablesB)
    (hvisible : (manifest.levels ⟨level.val, level.isLt.trans (by decide)⟩).tableCountVisible =
      liveCount tablesA) :
    Selects spec manifest level tablesA tablesB := by
  intro hfull hless hother
  have hmaxPos : 0 < lsmGrowthFactor ^ (level.val + 1) := Nat.pow_pos (by decide)
  have hmul : liveCount tablesB ≤ lsmGrowthFactor * liveCount tablesA := by
    refine hother.trans ?_
    rw [Nat.pow_succ, Nat.mul_comm]
    exact Nat.mul_le_mul_left _ hfull
  obtain ⟨result, hrun, hleast, hfew⟩ := tableWithLeastOverlap_least ha hb hvisible le_rfl
    (exists_few_overlapping ha hb (hmaxPos.trans_le hfull) hmul)
  have hlevels : level.val < lsmLevels := level.isLt.trans (by decide)
  have hpow : lsmGrowthFactor ^ (level.val + 1) < 2 ^ 32 :=
    (Nat.pow_le_pow_right (by decide) level.isLt).trans_lt (by decide)
  refine ⟨result, ?_, hleast, hfew⟩
  unfold compactionTable tableCountMaxForLevel
  rw [dif_pos level.isLt, assert_of hlevels, ok_bind, assert_of hpow, ok_bind]
  dsimp only [pure, Except.pure]
  rw [ok_bind, assert_of hmaxPos, ok_bind, hvisible, assert_of hless, ok_bind, if_neg (not_lt.mpr hfull),
    assert_of (hmaxPos.trans_le hfull), ok_bind, hrun, ok_bind, assert_of hfew]
  rfl

-- In every run whose insertions are sortable the right table is chosen from a level, if the visible tables
-- of it and of the next one do not overlap.
theorem selects_of_sortable (level : Fin (lsmLevels - 1))
    (hreachesA : Reaches spec (fun tables _ table => Sortable tables table) Updatable
      (manifest.levels ⟨level.val, level.isLt.trans (by decide)⟩))
    (hreachesB : Reaches spec (fun tables _ table => Sortable tables table) Updatable
      (manifest.levels (nextLevel level)))
    (hlistA : (manifest.levels ⟨level.val, level.isLt.trans (by decide)⟩).tables.toList spec.tablesSpec =
      .ok tablesA)
    (hlistB : (manifest.levels (nextLevel level)).tables.toList spec.tablesSpec = .ok tablesB)
    (hdisjointA : DisjointAt snapshotLatest tablesA) (hdisjointB : DisjointAt snapshotLatest tablesB) :
    Chooses spec (manifest.levels ⟨level.val, level.isLt.trans (by decide)⟩)
        (manifest.levels (nextLevel level)) tablesA tablesB ∧
      Selects spec manifest level tablesA tablesB := by
  obtain ⟨_, hA⟩ := tallied_of_sortable hreachesA
  cases hlistA.symm.trans hA.agrees.tables.toList
  obtain ⟨_, hB⟩ := tallied_of_sortable hreachesB
  cases hlistB.symm.trans hB.agrees.tables.toList
  have hstockedA := hA.stocked hdisjointA
  have hstockedB := hB.stocked hdisjointB
  refine ⟨fun maxOverlappingTables hmax hfits => ?_, ?_⟩
  · exact tableWithLeastOverlap_least hstockedA hstockedB hA.count hmax hfits
  · exact compactionTable_selects hstockedA hstockedB hA.count

section Crowded

attribute [local instance] neZero_word neZero_wide

def wideSpec : ManifestLevelSpec where
  tableCountMaxTree := 16
  keysNodeCapacity := 4
  tablesNodeCapacity := 4

def insertAll (spec : ManifestLevelSpec) (level : ManifestLevel Key) (list : List (TableInfo Key)) :
    Result (ManifestLevel Key) :=
  list.foldlM (fun level table => level.insertTable spec table) level

theorem insertAll_reaches {level level' : ManifestLevel (Fin (2 ^ 64))}
    {tables list : List (TableInfo (Fin (2 ^ 64)))}
    (hr : Reaches spec (fun tables _ table => Sortable tables table) Updatable level)
    (hk : Tallied spec level tables) (hsnapshots : ∀ table ∈ list ++ tables, table.snapshotMin < 2 ^ 64)
    (hkeys : ∀ table ∈ list, table.keyMin ≤ table.keyMax)
    (hroom : list.length + tables.length ≤ spec.tableCountMaxTree)
    (h : insertAll spec level list = .ok level') :
    Reaches spec (fun tables _ table => Sortable tables table) Updatable level' ∧
      ∃ tables', Tallied spec level' tables' ∧ tables'.Perm (list ++ tables) := by
  induction list generalizing level tables with
  | nil =>
    cases h
    exact ⟨hr, tables, hk, .refl _⟩
  | cons table list ih =>
    unfold insertAll at h
    rw [List.foldlM_cons] at h
    obtain ⟨next, hinsert, h⟩ := bind_eq_ok.mp h
    rw [List.length_cons] at hroom
    have hlt : tables.length < spec.tableCountMaxTree := by omega
    have hcomparable : Comparable tables table :=
      comparable_u64 (hsnapshots table List.mem_cons_self) fun other ho =>
        hsnapshots other (List.mem_append_right _ ho)
    have hsortable : Sortable tables table := ⟨hcomparable, hkeys table List.mem_cons_self⟩
    have hperm : (inserted spec table tables).Perm (table :: tables) := perm_insert
    have hmiddle : (list ++ inserted spec table tables).Perm (table :: list ++ tables) :=
      (hperm.append_left list).trans List.perm_middle
    obtain ⟨hr', tables', hk', hperm'⟩ := ih
      (.insertTable hr hk.agrees.tables.toList hlt hsortable hinsert)
      (hk.insertTable hlt hcomparable hsortable.ordered hinsert)
      (fun other ho => hsnapshots other (hmiddle.subset ho))
      (fun other ho => hkeys other (List.mem_cons_of_mem _ ho))
      (by rw [hperm.length_eq, List.length_cons]; omega) h
    exact ⟨hr', tables', hk', hperm'.trans hmiddle⟩

-- Nine tables, and one that intersects with all of them.
def nine : List (TableInfo (Fin (2 ^ 64))) :=
  (List.range 9).map fun i => between (i + 1) (Fin.ofNat _ (10 * i)) (Fin.ofNat _ (10 * i)) (2 ^ 64 - 1)

def broad : TableInfo (Fin (2 ^ 64)) :=
  between 10 0 100 (2 ^ 64 - 1)

def crowded : Result Bool := do
  let level ← ManifestLevel.new wideSpec
  let levelA ← insertAll wideSpec level [broad]
  let levelB ← insertAll wideSpec level nine
  match levelA.tableWithLeastOverlap wideSpec levelB snapshotLatest lsmGrowthFactor with
  | .ok _    => return true
  | .error _ => return false

theorem crowded_fails : crowded = .ok false := by
  decide

omit [TableKey Key] [Inhabited Key] in
theorem disjointAt_perm {tables after : List (TableInfo Key)} (hperm : after.Perm tables)
    (hd : DisjointAt snapshotLatest tables) : DisjointAt snapshotLatest after :=
  (hperm.pairwise_iff fun h hb ha => (h ha hb).symm).mpr hd

theorem crowded_tables : (∀ table ∈ nine ++ [], table.snapshotMin < 2 ^ 64) ∧
    (∀ table ∈ nine, table.keyMin ≤ table.keyMax) ∧ (∀ table ∈ [broad] ++ [], table.snapshotMin < 2 ^ 64) ∧
    (∀ table ∈ [broad], table.keyMin ≤ table.keyMax) ∧ DisjointAt snapshotLatest (nine ++ []) := by
  unfold DisjointAt
  decide

-- A level of one table, and the next one with nine tables in its range.
theorem crowded_reaches : ∃ (levelA levelB : ManifestLevel (Fin (2 ^ 64)))
    (tablesA tablesB : List (TableInfo (Fin (2 ^ 64)))),
    (Reaches wideSpec (fun tables _ table => Sortable tables table) Updatable levelA ∧
      levelA.tables.toList wideSpec.tablesSpec = .ok tablesA ∧ DisjointAt snapshotLatest tablesA) ∧
    (Reaches wideSpec (fun tables _ table => Sortable tables table) Updatable levelB ∧
      levelB.tables.toList wideSpec.tablesSpec = .ok tablesB ∧ DisjointAt snapshotLatest tablesB) ∧
    Live tablesA broad ∧
    ∀ result, levelA.tableWithLeastOverlap wideSpec levelB snapshotLatest lsmGrowthFactor ≠ .ok result := by
  obtain ⟨level, hnew, hcrowded⟩ := bind_eq_ok.mp crowded_fails
  obtain ⟨levelA, hinsertA, hcrowded⟩ := bind_eq_ok.mp hcrowded
  obtain ⟨levelB, hinsertB, hcrowded⟩ := bind_eq_ok.mp hcrowded
  obtain ⟨hsmall, hkeys, hsmallA, hkeysA, hdisjoint⟩ := crowded_tables
  obtain ⟨hreachesA, tablesA, hA, hpermA⟩ := insertAll_reaches (.new hnew) (.new hnew) hsmallA hkeysA
    (by decide) hinsertA
  obtain ⟨hreachesB, tablesB, hB, hpermB⟩ := insertAll_reaches (.new hnew) (.new hnew) hsmall hkeys
    (by decide) hinsertB
  refine ⟨levelA, levelB, tablesA, tablesB, ⟨hreachesA, hA.agrees.tables.toList, ?_⟩,
    ⟨hreachesB, hB.agrees.tables.toList, disjointAt_perm hpermB hdisjoint⟩,
    ⟨hpermA.mem_iff.mpr List.mem_cons_self, by decide⟩, fun result hresult => ?_⟩
  · exact disjointAt_perm hpermA (List.pairwise_singleton _ _)
  · rw [hresult] at hcrowded
    cases hcrowded

-- Nothing is chosen if every table intersects with too many.
theorem not_chooses : ¬∀ (spec : ManifestLevelSpec) (levelA levelB : ManifestLevel (Fin (2 ^ 64)))
    (tablesA tablesB : List (TableInfo (Fin (2 ^ 64)))),
    Reaches spec (fun tables _ table => Sortable tables table) Updatable levelA →
    Reaches spec (fun tables _ table => Sortable tables table) Updatable levelB →
    levelA.tables.toList spec.tablesSpec = .ok tablesA → levelB.tables.toList spec.tablesSpec = .ok tablesB →
    DisjointAt snapshotLatest tablesA → DisjointAt snapshotLatest tablesB →
    (∃ table, Live tablesA table) →
    ∃ result, levelA.tableWithLeastOverlap spec levelB snapshotLatest lsmGrowthFactor = .ok result ∧
      LeastOverlaps tablesA tablesB result := by
  intro hclaim
  obtain ⟨levelA, levelB, tablesA, tablesB, hA, hB, hlive, hfails⟩ := crowded_reaches
  obtain ⟨result, hresult, _⟩ := hclaim wideSpec levelA levelB tablesA tablesB hA.1 hB.1 hA.2.1 hB.2.1
    hA.2.2 hB.2.2 ⟨broad, hlive⟩
  exact hfails result hresult

-- The other way round each of the nine tables intersects with one.
theorem selects_of_sortable_crowded : ∃ (manifest : Manifest (Fin (2 ^ 64)))
    (tablesA tablesB : List (TableInfo (Fin (2 ^ 64)))),
    Chooses wideSpec (manifest.levels ⟨0, by decide⟩) (manifest.levels (nextLevel ⟨0, by decide⟩))
        tablesA tablesB ∧
      Selects wideSpec manifest ⟨0, by decide⟩ tablesA tablesB := by
  obtain ⟨levelA, levelB, tablesA, tablesB, hA, hB, _, _⟩ := crowded_reaches
  exact ⟨⟨fun level => if level.val = 0 then levelB else levelA⟩, tablesB, tablesA,
    selects_of_sortable ⟨0, by decide⟩ hB.1 hA.1 hB.2.1 hA.2.1 hB.2.2 hA.2.2⟩

end Crowded

end Manifest

end TigerBeetle
