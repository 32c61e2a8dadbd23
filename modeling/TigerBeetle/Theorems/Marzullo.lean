import TigerBeetle.Marzullo

namespace TigerBeetle.Marzullo

open Fallible

theorem ensure_of {p : Prop} [Decidable p] {message : String} (h : p) : ensure p message = .ok () :=
  if_pos h

theorem of_ensure {p : Prop} [Decidable p] {message : String} {u : Unit}
    (h : ensure p message = .ok u) : p := by
  by_contra hp
  rw [show ensure p message = .error (.panic message) from if_neg hp] at h
  cases h

theorem i64_meets {value : Int} {Q : Int → Prop} (h : Q value) :
    Meets (· = .overflow) Q (i64 value) := by
  unfold i64
  split
  · exact h
  · exact rfl

section Order

variable {a b c : Tuple} {tuples : List Tuple}

-- The order of the tuples: by offset, then lower bounds first, then by source.
def Before (a b : Tuple) : Prop :=
  a.offset < b.offset ∨ a.offset = b.offset ∧
    (a.bound = .lower ∧ b.bound = .upper ∨ a.bound = b.bound ∧ a.source < b.source)

theorem Before.trans (h : Before a b) (h' : Before b c) : Before a c := by
  unfold Before at *
  grind

theorem Before.asymm (h : Before a b) : ¬Before b a := by
  unfold Before at *
  grind

theorem Before.irrefl : ¬Before a a := by
  unfold Before
  grind

theorem before_trichotomy : Before a b ∨ a = b ∨ Before b a := by
  cases a with
  | mk source offset bound =>
    cases b with
    | mk source' offset' bound' =>
      unfold Before
      simp only [Tuple.mk.injEq]
      cases bound <;> cases bound' <;> simp <;> omega

theorem Before.offset_le (h : Before a b) : a.offset ≤ b.offset := by
  unfold Before at h
  omega

theorem lessThan_ne_gt : lessThan a b ≠ .gt ↔ Before a b ∨ a = b := by
  have hgt : lessThan a b = .gt ↔ Before b a := by
    cases a with
    | mk source offset bound =>
      cases b with
      | mk source' offset' bound' =>
        unfold lessThan Before
        cases bound <;> cases bound' <;> simp <;> grind [Nat.compare_eq_gt]
  have htri := @before_trichotomy a b
  rw [ne_eq, hgt]
  constructor
  · intro h
    tauto
  · rintro (h | rfl)
    · exact h.asymm
    · exact Before.irrefl

instance : Std.Total fun a b : Tuple => lessThan a b ≠ .gt where
  total a b := by
    rw [lessThan_ne_gt, lessThan_ne_gt]
    have htri := @before_trichotomy a b
    tauto

instance : IsTrans Tuple fun a b => lessThan a b ≠ .gt where
  trans a b c h h' := by
    rw [lessThan_ne_gt] at h h' ⊢
    obtain h | rfl := h
    · obtain h' | rfl := h'
      · exact .inl (h.trans h')
      · exact .inl h
    · exact h'

theorem sort_perm : (sort tuples).Perm tuples :=
  List.perm_insertionSort _ _

theorem pairwise_sort (h : tuples.Nodup) : (sort tuples).Pairwise Before := by
  have hle := List.pairwise_insertionSort (fun a b : Tuple => lessThan a b ≠ .gt) tuples
  have hne : (sort tuples).Pairwise (· ≠ ·) := (sort_perm.nodup_iff).mpr h
  exact (hle.and hne).imp fun h => (lessThan_ne_gt.mp h.1).resolve_right h.2

end Order

section Sweep

-- The end points of the intervals of some sources.
variable {sources : Nat} {low high : Fin sources → Int}

def lowerOf (low : Fin sources → Int) (source : Fin sources) : Tuple :=
  ⟨source, low source, .lower⟩

def upperOf (high : Fin sources → Int) (source : Fin sources) : Tuple :=
  ⟨source, high source, .upper⟩

theorem before_upperOf {source : Fin sources} (h : low source ≤ high source) :
    Before (lowerOf low source) (upperOf high source) := by
  unfold Before lowerOf upperOf
  simp only [reduceCtorEq, and_true, false_and, or_false]
  omega

variable {source' : Fin sources}

theorem lowerOf_inj {source : Fin sources} (h : lowerOf low source = lowerOf low source') :
    source = source' :=
  Fin.ext (congrArg Tuple.source h)

theorem upperOf_inj {source : Fin sources} (h : upperOf high source = upperOf high source') :
    source = source' :=
  Fin.ext (congrArg Tuple.source h)

theorem lowerOf_ne_upperOf {source : Fin sources} : lowerOf low source ≠ upperOf high source' := by
  simp [lowerOf, upperOf]

-- The tuples are swept up to those in `rest`.
structure Swept (low high : Fin sources → Int) (done rest : List Tuple) : Prop where
  ordered : ∀ source, low source ≤ high source
  sorted : (done ++ rest).Pairwise Before
  mem_iff : ∀ tuple, tuple ∈ done ++ rest ↔
    ∃ source, tuple = lowerOf low source ∨ tuple = upperOf high source

-- The sources whose intervals have begun, but not ended.
def overlapping (low high : Fin sources → Int) (done rest : List Tuple) : Finset (Fin sources) :=
  Finset.univ.filter fun source => lowerOf low source ∈ done ∧ upperOf high source ∈ rest

variable {done rest : List Tuple} {tuple : Tuple} {source : Fin sources}

theorem mem_overlapping : source ∈ overlapping low high done rest ↔
    lowerOf low source ∈ done ∧ upperOf high source ∈ rest := by
  simp [overlapping]

theorem mem_overlapping_cons : source ∈ overlapping low high done (tuple :: rest) ↔
    lowerOf low source ∈ done ∧ (upperOf high source = tuple ∨ upperOf high source ∈ rest) := by
  rw [mem_overlapping, List.mem_cons]

theorem mem_overlapping_shift : source ∈ overlapping low high (done ++ [tuple]) rest ↔
    (lowerOf low source ∈ done ∨ lowerOf low source = tuple) ∧ upperOf high source ∈ rest := by
  rw [mem_overlapping, List.mem_append, List.mem_singleton]

variable {next : Tuple}

namespace Swept

theorem shift (h : Swept low high done (tuple :: rest)) : Swept low high (done ++ [tuple]) rest where
  ordered := h.ordered
  sorted := by simpa using h.sorted
  mem_iff := by simpa using h.mem_iff

theorem before_of_done (h : Swept low high done (tuple :: rest)) {other : Tuple}
    (ho : other ∈ done) : Before other tuple :=
  (List.pairwise_append.mp h.sorted).2.2 other ho tuple List.mem_cons_self

theorem before_of_rest (h : Swept low high done (tuple :: rest)) {other : Tuple}
    (ho : other ∈ rest) : Before tuple other :=
  List.rel_of_pairwise_cons (List.pairwise_append.mp h.sorted).2.1 ho

theorem mem_lowerOf (h : Swept low high done rest) (source : Fin sources) :
    lowerOf low source ∈ done ++ rest :=
  (h.mem_iff _).mpr ⟨source, .inl rfl⟩

theorem mem_upperOf (h : Swept low high done rest) (source : Fin sources) :
    upperOf high source ∈ done ++ rest :=
  (h.mem_iff _).mpr ⟨source, .inr rfl⟩

-- The interval that begins is a new one, and it does not end yet.
theorem overlapping_lower (h : Swept low high done (lowerOf low source :: rest)) :
    source ∉ overlapping low high done (lowerOf low source :: rest) ∧
      overlapping low high (done ++ [lowerOf low source]) rest =
        insert source (overlapping low high done (lowerOf low source :: rest)) := by
  refine ⟨fun hmem => (h.before_of_done (mem_overlapping.mp hmem).1).irrefl, ?_⟩
  ext other
  rw [mem_overlapping_shift, Finset.mem_insert, mem_overlapping_cons]
  constructor
  · rintro ⟨hlow | hlow, hhigh⟩
    · exact .inr ⟨hlow, .inr hhigh⟩
    · exact .inl (lowerOf_inj hlow)
  · rintro (rfl | ⟨hlow, hhigh⟩)
    · refine ⟨.inr rfl, ?_⟩
      have hmem := h.mem_upperOf other
      simp only [List.mem_append, List.mem_cons] at hmem
      obtain hdone | heq | hrest := hmem
      · exact absurd (before_upperOf (h.ordered other)) (h.before_of_done hdone).asymm
      · exact absurd heq.symm lowerOf_ne_upperOf
      · exact hrest
    · exact ⟨.inl hlow, hhigh.resolve_left fun he => lowerOf_ne_upperOf he.symm⟩

theorem overlapping_upper (h : Swept low high done (upperOf high source :: rest)) :
    source ∈ overlapping low high done (upperOf high source :: rest) ∧
      overlapping low high (done ++ [upperOf high source]) rest =
        (overlapping low high done (upperOf high source :: rest)).erase source := by
  have hmem := h.mem_lowerOf source
  simp only [List.mem_append, List.mem_cons] at hmem
  refine ⟨mem_overlapping.mpr ⟨?_, List.mem_cons_self⟩, ?_⟩
  · obtain hdone | heq | hrest := hmem
    · exact hdone
    · exact absurd heq lowerOf_ne_upperOf
    · exact absurd (before_upperOf (h.ordered source)) (h.before_of_rest hrest).asymm
  · ext other
    rw [mem_overlapping_shift, Finset.mem_erase, mem_overlapping_cons]
    constructor
    · rintro ⟨hlow, hhigh⟩
      refine ⟨?_, hlow.resolve_right lowerOf_ne_upperOf, .inr hhigh⟩
      rintro rfl
      exact (h.before_of_rest hhigh).irrefl
    · rintro ⟨hne, hlow, hhigh⟩
      exact ⟨.inl hlow, hhigh.resolve_left fun he => hne (upperOf_inj he)⟩

-- The count is the number of the intervals that overlap.
theorem countAfter (h : Swept low high done (tuple :: rest)) :
    Marzullo.countAfter (overlapping low high done (tuple :: rest)).card tuple =
      (overlapping low high (done ++ [tuple]) rest).card := by
  have ⟨source, hsource⟩ := (h.mem_iff tuple).mp (by simp)
  obtain rfl | rfl := hsource
  · have ⟨hmem, heq⟩ := h.overlapping_lower
    rw [heq, Finset.card_insert_of_notMem hmem]
    rfl
  · have ⟨hmem, heq⟩ := h.overlapping_upper
    have hpos := Finset.card_pos.mpr ⟨_, hmem⟩
    rw [heq, Finset.card_erase_of_mem hmem, Int.natCast_sub hpos]
    rfl

-- The intervals that overlap after a tuple reach up to the next one.
theorem contained (h : Swept low high done (tuple :: rest))
    (hnext : rest.head? = some next) :
    overlapping low high (done ++ [tuple]) rest ⊆
      Finset.univ.filter fun source => low source ≤ tuple.offset ∧ next.offset ≤ high source := by
  intro source hsource
  have ⟨hlow, hhigh⟩ := mem_overlapping.mp hsource
  have ⟨tail, hrest⟩ := List.head?_eq_some_iff.mp hnext
  subst hrest
  refine Finset.mem_filter.mpr ⟨Finset.mem_univ source, ?_, ?_⟩
  · simp only [List.mem_append, List.mem_singleton] at hlow
    obtain hdone | rfl := hlow
    · exact (h.before_of_done hdone).offset_le
    · exact le_rfl
  · obtain heq | htail := List.mem_cons.mp hhigh
    · exact heq ▸ le_rfl
    · exact (h.shift.before_of_rest htail).offset_le

theorem next_le (h : Swept low high done (tuple :: rest))
    (hnext : rest.head? = some next) : tuple.offset ≤ next.offset :=
  (h.before_of_rest (List.mem_of_mem_head? hnext)).offset_le

theorem exists_next (hpos : 0 < (overlapping low high done rest).card) :
    ∃ next, rest.head? = some next := by
  have ⟨source, hsource⟩ := Finset.card_pos.mp hpos
  have hmem := (mem_overlapping.mp hsource).2
  cases rest with
  | nil => cases hmem
  | cons next => exact ⟨next, rfl⟩

theorem first_pos (h : Swept low high [] (tuple :: rest)) :
    0 < (overlapping low high [tuple] rest).card := by
  have ⟨source, hsource⟩ := (h.mem_iff tuple).mp (by simp)
  obtain rfl | rfl := hsource
  · have heq := h.overlapping_lower.2
    rw [List.nil_append] at heq
    rw [heq]
    exact Finset.card_pos.mpr (Finset.insert_nonempty ..)
  · exact absurd (mem_overlapping.mp h.overlapping_upper.1).1 List.not_mem_nil

theorem last_upper (h : Swept low high done []) {last : Tuple} (hlast : done.getLast? = some last) :
    last.bound = .upper := by
  have ⟨front, hdone⟩ := List.getLast?_eq_some_iff.mp hlast
  subst hdone
  have ⟨source, hsource⟩ := (h.mem_iff last).mp (by simp)
  obtain rfl | rfl := hsource
  · have h' : Swept low high front [lowerOf low source] :=
      ⟨h.ordered, by simpa using h.sorted, by simpa using h.mem_iff⟩
    have hmem := h'.overlapping_lower.2 ▸ Finset.mem_insert_self source _
    exact absurd (mem_overlapping.mp hmem).2 List.not_mem_nil
  · rfl

theorem verify_meets {E : Failure → Prop} (h : Swept low high done (tuple :: rest)) :
    Meets E (fun _ => True) (verify done.getLast? tuple) := by
  unfold verify
  split
  case h_1 => trivial
  case h_2 previous hlast =>
    have hbefore := h.before_of_done (List.mem_of_getLast? hlast)
    rw [ensure_of hbefore.offset_le, ok_bind]
    unfold Before at hbefore
    split
    case isTrue heq =>
      split
      case isTrue hbound =>
        rw [ensure_of (by grind)]
        trivial
      case isFalse hbound =>
        rw [ensure_of (by grind)]
        trivial
    case isFalse => trivial

end Swept

-- The sources whose intervals contain the given one.
def containing (low high : Fin sources → Int) (interval : Interval) : Finset (Fin sources) :=
  Finset.univ.filter fun source =>
    low source ≤ interval.lowerBound ∧ interval.upperBound ≤ high source

-- As many sources as `best` agree on the interval.
structure Agreed (low high : Fin sources → Int) (best : Int) (interval : Interval) : Prop where
  nonneg : 0 ≤ best
  le_sources : best ≤ sources
  ordered : interval.lowerBound ≤ interval.upperBound
  contained : best ≤ (containing low high interval).card

variable {best count : Int} {interval : Interval}

theorem Agreed.of_overlapping (h : Swept low high done (tuple :: rest))
    (hnext : rest.head? = some next)
    (hcount : count = (overlapping low high (done ++ [tuple]) rest).card) :
    Agreed low high count
      { interval with lowerBound := tuple.offset, upperBound := next.offset } where
  nonneg := by omega
  le_sources := by
    have hle := Finset.card_le_univ (overlapping low high (done ++ [tuple]) rest)
    rw [Fintype.card_fin] at hle
    omega
  ordered := h.next_le hnext
  contained := by
    rw [hcount]
    exact_mod_cast Finset.card_le_card (h.contained hnext)

theorem next_eq (h : rest.head? = some next) : Marzullo.next rest = .ok next := by
  have ⟨tail, hrest⟩ := List.head?_eq_some_iff.mp h
  subst hrest
  rfl

-- The best interval gets better with a tuple, or it stays as it is.
theorem improve_meets (h : Swept low high done (tuple :: rest)) (ha : Agreed low high best interval)
    (hcount : count = (overlapping low high (done ++ [tuple]) rest).card)
    (hstarted : done ≠ [] → 1 ≤ best) :
    Meets (· = .overflow) (fun improved => Agreed low high improved.1 improved.2 ∧ 1 ≤ improved.1)
      (improve best count interval tuple rest) := by
  have hnonneg := ha.nonneg
  have hbest : best < count ∨ 1 ≤ best := by
    by_cases hd : done = []
    · subst hd
      have hpos := h.first_pos
      rw [List.nil_append] at hcount
      omega
    · exact .inr (hstarted hd)
  unfold improve
  split
  case isTrue hlt =>
    have ⟨next, hnext⟩ := @Swept.exists_next _ low high (done ++ [tuple]) rest (by omega)
    rw [next_eq hnext]
    exact ⟨.of_overlapping h hnext hcount, by omega⟩
  case isFalse hlt =>
    have hpos : 1 ≤ best := hbest.resolve_left hlt
    split
    case isTrue heq =>
      have ⟨next, hnext⟩ := @Swept.exists_next _ low high (done ++ [tuple]) rest (by omega)
      rw [next_eq hnext]
      simp only [ok_bind]
      split
      case isTrue =>
        refine Meets.bind (@i64_meets _ (fun _ => True) trivial) fun alternative _ => ?_
        refine Meets.bind (@i64_meets _ (fun _ => True) trivial) fun width _ => ?_
        split
        case isTrue => exact ⟨heq ▸ .of_overlapping h hnext hcount, hpos⟩
        case isFalse => exact ⟨ha, hpos⟩
      case isFalse => exact ⟨ha, hpos⟩
    case isFalse => exact ⟨ha, hpos⟩

theorem sweep_meets (h : Swept low high done rest) (ha : Agreed low high best interval)
    (hcount : count = (overlapping low high done rest).card) (hstarted : done ≠ [] → 1 ≤ best) :
    Meets (· = .overflow) (fun (previous, best, interval) =>
        previous = (done ++ rest).getLast? ∧ Agreed low high best interval ∧
          Swept low high (done ++ rest) [])
      (sweep done.getLast? best count interval rest) := by
  induction rest generalizing done best count interval with
  | nil =>
    rw [List.append_nil]
    exact ⟨rfl, ha, h⟩
  | cons tuple rest ih =>
    have hcount' : countAfter count tuple = (overlapping low high (done ++ [tuple]) rest).card := by
      rw [hcount, h.countAfter]
    rw [sweep]
    refine Meets.bind h.verify_meets fun _ _ => ?_
    refine Meets.bind (improve_meets h ha hcount' hstarted) fun improved ⟨ha', hpos⟩ => ?_
    have hrun := ih h.shift ha' hcount' fun _ => hpos
    rwa [List.getLast?_concat, List.append_assoc] at hrun

end Sweep

section SmallestInterval

variable {sources : Nat} {low high : Fin sources → Int} {tuples : List Tuple}

-- The end points of all intervals.
def bounds (low high : Fin sources → Int) : List Tuple :=
  (List.finRange sources).flatMap fun source => [lowerOf low source, upperOf high source]

theorem mem_bounds {tuple : Tuple} : tuple ∈ bounds low high ↔
    ∃ source, tuple = lowerOf low source ∨ tuple = upperOf high source := by
  simp [bounds]

theorem length_bounds : (bounds low high).length = 2 * sources := by
  simp [bounds, List.length_flatMap, Nat.mul_comm]

theorem nodup_bounds : (bounds low high).Nodup := by
  refine List.nodup_flatMap.mpr ⟨fun source _ => by simp [lowerOf_ne_upperOf], ?_⟩
  refine (List.nodup_finRange sources).imp fun {a b} hne => ?_
  simp only [Function.onFun, List.disjoint_cons_left, List.mem_cons, List.not_mem_nil, or_false,
    not_or, List.disjoint_nil_left, and_true]
  exact ⟨⟨fun he => hne (lowerOf_inj he), lowerOf_ne_upperOf⟩,
    lowerOf_ne_upperOf.symm, fun he => hne (upperOf_inj he)⟩

theorem swept_sort (ho : ∀ source, low source ≤ high source) :
    Swept low high [] (sort (bounds low high)) where
  ordered := ho
  sorted := pairwise_sort nodup_bounds
  mem_iff tuple := by
    rw [List.nil_append, sort_perm.mem_iff, mem_bounds]

-- The smallest interval is in order, and it is contained in the intervals of as many sources as it
-- says to be true.
theorem smallestInterval_meets (ho : ∀ source, low source ≤ high source) (hpos : 0 < sources)
    (hmax : sources ≤ 255) :
    Meets (· = .overflow) (fun (interval, tuples) =>
        interval.lowerBound ≤ interval.upperBound ∧
        interval.sourcesTrue ≤ (containing low high interval).card ∧
        tuples.length = 2 * sources)
      (smallestInterval (bounds low high)) := by
  have hlen : (bounds low high).length = 2 * sources := length_bounds
  have hhalf : (bounds low high).length / 2 = sources := by omega
  have hinitial : Agreed low high 0 .zero := ⟨le_rfl, by omega, le_rfl, by omega⟩
  have hzero : (0 : Int) = (overlapping low high [] (sort (bounds low high))).card := by
    simp [overlapping]
  unfold smallestInterval
  rw [ensure_of (by omega), ensure_of (by omega)]
  simp only [ok_bind, hhalf, Nat.ne_of_gt hpos, ↓reduceIte]
  refine Meets.bind (sweep_meets (swept_sort ho) hinitial hzero fun h => absurd rfl h) ?_
  rintro ⟨previous, best, interval⟩ ⟨hprevious, ha, hswept⟩
  rw [List.nil_append] at hprevious hswept
  have hsorted : (sort (bounds low high)).length = 2 * sources := by rw [sort_perm.length_eq, hlen]
  have ⟨last, hlast⟩ : ∃ last, (sort (bounds low high)).getLast? = some last := by
    refine Option.isSome_iff_exists.mp (List.getLast?_isSome.mpr fun hnil => ?_)
    rw [hnil] at hsorted
    simp only [List.length_nil] at hsorted
    omega
  have hupper := hswept.last_upper hlast
  have hnonneg : 0 ≤ best := ha.nonneg
  have hle : best ≤ sources := ha.le_sources
  have hbound : previous.map Tuple.bound = some .upper := by
    rw [hprevious, hlast, Option.map_some, hupper]
  have hsum : best.toNat + (sources - best.toNat) = sources := by omega
  simp only [ensure_of hbound, ensure_of hnonneg, ensure_of hle, ensure_of hsum, ok_bind]
  refine ⟨ha.ordered, ?_, hsorted⟩
  have hcontained := ha.contained
  show best.toNat ≤ (containing low high interval).card
  omega

end SmallestInterval

end TigerBeetle.Marzullo
