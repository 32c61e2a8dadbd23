import TigerBeetle.Theorems.Marzullo

namespace TigerBeetle.Marzullo

open Fallible

section Regions

variable {ι : Type} {sources : Finset ι} {low high : ι → Int} {l u : Int} {count : Nat}

-- The sources whose intervals contain a given one, end points included.
def agreeing (sources : Finset ι) (low high : ι → Int) (l u : Int) : Finset ι :=
  sources.filter fun source => low source ≤ l ∧ u ≤ high source

-- An interval in which as many sources agree as `count` and that has no wider one of this kind around.
structure Region (sources : Finset ι) (low high : ι → Int) (count : Nat) (l u : Int) : Prop where
  ordered : l ≤ u
  agreed : (agreeing sources low high l u).card = count
  widest : ∀ l' u', l' ≤ l → u ≤ u' → (agreeing sources low high l' u').card = count → l' = l ∧ u' = u

-- No interval is contained in more intervals of sources, and no region that is contained in as many is
-- smaller.
structure Optimal (sources : Finset ι) (low high : ι → Int) (count : Nat) (l u : Int) : Prop where
  ordered : l ≤ u
  agreed : (agreeing sources low high l u).card = count
  most : ∀ l' u', l' ≤ u' → (agreeing sources low high l' u').card ≤ count
  region : sources.Nonempty → Region sources low high count l u
  smallest : ∀ l' u', Region sources low high count l' u' → u - l ≤ u' - l'

theorem mem_agreeing {source : ι} : source ∈ agreeing sources low high l u ↔
    source ∈ sources ∧ low source ≤ l ∧ u ≤ high source :=
  Finset.mem_filter

theorem agreeing_mono {l' u' : Int} (hl : l' ≤ l) (hu : u ≤ u') :
    agreeing sources low high l' u' ⊆ agreeing sources low high l u := by
  intro source hm
  have ⟨hs, hlow, hhigh⟩ := mem_agreeing.mp hm
  exact mem_agreeing.mpr ⟨hs, hlow.trans hl, hu.trans hhigh⟩

variable {ι' : Type} {sources' : Finset ι'} {low' high' : ι' → Int}

theorem Region.congr (hcard : ∀ l u, (agreeing sources low high l u).card =
    (agreeing sources' low' high' l u).card) (h : Region sources low high count l u) :
    Region sources' low' high' count l u where
  ordered := h.ordered
  agreed := (hcard l u).symm.trans h.agreed
  widest l' u' hl hu heq := h.widest l' u' hl hu ((hcard l' u').trans heq)

-- What is optimal depends on how many sources agree only.
theorem Optimal.congr (hcard : ∀ l u, (agreeing sources low high l u).card =
    (agreeing sources' low' high' l u).card) (hne : sources.Nonempty)
    (h : Optimal sources low high count l u) : Optimal sources' low' high' count l u where
  ordered := h.ordered
  agreed := (hcard l u).symm.trans h.agreed
  most l' u' hle := (hcard l' u').symm.le.trans (h.most l' u' hle)
  region _ := (h.region hne).congr hcard
  smallest l' u' hr := h.smallest l' u' (hr.congr fun l u => (hcard l u).symm)

end Regions

section Sweep

variable {sources : Nat} {low high : Fin sources → Int} {all pre post done rest : List Tuple}
variable {tuple next : Tuple} {source : Fin sources} {interval : Interval}

-- Two tuples next to each other, and how many intervals overlap between them.
structure Gap (low high : Fin sources → Int) (all pre : List Tuple) (tuple next : Tuple)
    (post : List Tuple) (count : Nat) : Prop where
  split : all = pre ++ tuple :: next :: post
  overlap : (overlapping low high (pre ++ [tuple]) (next :: post)).card = count

-- What the sweep knows of the gaps that it has passed.
structure Passed (low high : Fin sources → Int) (all done : List Tuple) (best : Int)
    (interval : Interval) : Prop where
  most : ∀ pre tuple next post (count : Nat), Gap low high all pre tuple next post count →
    pre.length < done.length → count ≤ best ∧ (count = best → next.bound = .upper →
      interval.upperBound - interval.lowerBound ≤ next.offset - tuple.offset)
  started : done ≠ [] → 1 ≤ best
  found : done = [] ∧ best = 0 ∨ ∃ pre tuple next post, ∃ count : Nat,
    Gap low high all pre tuple next post count ∧ count = best ∧
      interval.lowerBound = tuple.offset ∧ interval.upperBound = next.offset

namespace Gap

variable {count : Nat}

section

variable (g : Gap low high all pre tuple next post count)

include g

theorem swept (h : Swept low high all []) :
    Swept low high pre (tuple :: next :: post) where
  ordered := h.ordered
  sorted := by simpa [g.split] using h.sorted
  mem_iff := by simpa [g.split] using h.mem_iff

theorem offset_le (h : Swept low high all []) : tuple.offset ≤ next.offset :=
  (g.swept h).next_le rfl

theorem mem_left : tuple ∈ all := by
  simp [g.split]

theorem mem_right : next ∈ all := by
  simp [g.split]

end

end Gap

-- Two of the offsets are further apart than a machine integer can tell.
def Apart (all : List Tuple) : Prop :=
  ∃ a ∈ all, ∃ b ∈ all, i64Max < b.offset - a.offset

theorem sub_meets {a b : Tuple} (ha : a ∈ all) (hb : b ∈ all) (hle : a.offset ≤ b.offset) :
    Meets (fun e => e = .overflow ∧ Apart all) (fun width => width = b.offset - a.offset)
      (i64 (b.offset - a.offset)) := by
  unfold i64
  split
  · rfl
  · next hout => exact ⟨rfl, a, ha, b, hb, by unfold i64Min i64Max at *; omega⟩

variable {best count : Int}

-- A gap is passed, or it is the one after the tuple.
theorem Gap.passed_cases {tuple' : Tuple} {c : Nat} (hall : all = done ++ tuple :: rest)
    (g : Gap low high all pre tuple' next post c) (hlt : pre.length < (done ++ [tuple]).length) :
    pre.length < done.length ∨ pre = done ∧ tuple' = tuple ∧ rest = next :: post := by
  rw [List.length_append, List.length_singleton] at hlt
  obtain hlt | heq := Nat.lt_or_eq_of_le (Nat.lt_succ_iff.mp hlt)
  · exact .inl hlt
  · have ⟨hpre, hrest⟩ := List.append_inj (g.split.symm.trans hall) heq
    have ⟨htuple, hnext⟩ := List.cons.inj hrest
    exact .inr ⟨hpre, htuple, hnext.symm⟩

theorem Passed.nonneg (hp : Passed low high all done best interval) : 0 ≤ best := by
  obtain ⟨_, rfl⟩ | ⟨_, _, _, _, c, _, hc, _⟩ := hp.found
  · exact Int.le_refl _
  · omega

-- The best interval stays as it is if the next gap is no better.
theorem Passed.keep (hp : Passed low high all done best interval) (hall : all = done ++ tuple :: rest)
    (hcount : count = (overlapping low high (done ++ [tuple]) rest).card) (hle : count ≤ best)
    (hpos : 1 ≤ best) (hwidth : ∀ next post, rest = next :: post → count = best →
      next.bound = .upper → interval.upperBound - interval.lowerBound ≤ next.offset - tuple.offset) :
    Passed low high all (done ++ [tuple]) best interval where
  most pre tuple' next post c g hlt := by
    obtain hlt | ⟨rfl, rfl, rfl⟩ := g.passed_cases hall hlt
    · exact hp.most pre tuple' next post c g hlt
    · have hc : (c : Int) = count := by rw [hcount, g.overlap]
      exact ⟨hc ▸ hle, fun heq => hwidth next post rfl (hc ▸ heq)⟩
  started _ := hpos
  found := by
    obtain ⟨_, rfl⟩ | hfound := hp.found
    · omega
    · exact .inr hfound

theorem Passed.replace (hp : Passed low high all done best interval) {post : List Tuple}
    (hall : all = done ++ tuple :: next :: post)
    (hcount : count = (overlapping low high (done ++ [tuple]) (next :: post)).card)
    (hle : best ≤ count) (hpos : 1 ≤ count) (hwidth : best = count →
      next.offset - tuple.offset ≤ interval.upperBound - interval.lowerBound) :
    Passed low high all (done ++ [tuple]) count
      { interval with lowerBound := tuple.offset, upperBound := next.offset } where
  most pre tuple' next' post' c g hlt := by
    obtain hlt | ⟨rfl, rfl, heq⟩ := g.passed_cases hall hlt
    · have ⟨hc, hsmall⟩ := hp.most pre tuple' next' post' c g hlt
      refine ⟨hc.trans hle, fun heq hbound => ?_⟩
      have hbest : best = count := Int.le_antisymm hle (heq ▸ hc)
      exact (hwidth hbest).trans (hsmall (heq.trans hbest.symm) hbound)
    · obtain ⟨rfl, rfl⟩ := List.cons.inj heq
      exact ⟨by rw [hcount, g.overlap], fun _ _ => Int.le_refl _⟩
  started _ := hpos
  found := .inr ⟨done, tuple, next, post, _, ⟨hall, rfl⟩, hcount.symm, rfl, rfl⟩

theorem improve_passed (h : Swept low high all []) (hall : all = done ++ tuple :: rest)
    (hp : Passed low high all done best interval)
    (hcount : count = (overlapping low high (done ++ [tuple]) rest).card) :
    Meets (fun e => e = .overflow ∧ Apart all)
      (fun improved => Passed low high all (done ++ [tuple]) improved.1 improved.2)
      (improve best count interval tuple rest) := by
  have hswept : Swept low high done (tuple :: rest) :=
    ⟨h.ordered, by simpa [hall] using h.sorted, by simpa [hall] using h.mem_iff⟩
  have hnonneg := hp.nonneg
  have hbest : best < count ∨ 1 ≤ best := by
    by_cases hd : done = []
    · subst hd
      have hpos := hswept.first_pos
      rw [List.nil_append] at hcount
      omega
    · exact .inr (hp.started hd)
  unfold improve
  split
  case isTrue hlt =>
    have ⟨next, hnext⟩ := @Swept.exists_next _ low high (done ++ [tuple]) rest (by omega)
    obtain ⟨post, rfl⟩ := List.head?_eq_some_iff.mp hnext
    exact hp.replace hall hcount (by omega) (by omega) (by omega)
  case isFalse hlt =>
    have hpos : 1 ≤ best := hbest.resolve_left hlt
    split
    case isTrue heq =>
      have ⟨next, hnext⟩ := @Swept.exists_next _ low high (done ++ [tuple]) rest (by omega)
      obtain ⟨post, rfl⟩ := List.head?_eq_some_iff.mp hnext
      rw [next_eq hnext, ok_bind]
      split
      case isTrue =>
        obtain ⟨_, rfl⟩ | ⟨_, _, _, _, _, g, _, hlower, hupper⟩ := hp.found
        · omega
        have hlast : tuple ∈ all := by simp [hall]
        have hfirst : next ∈ all := by simp [hall]
        refine Meets.bind (sub_meets hlast hfirst (hswept.next_le hnext)) fun alternative ha => ?_
        rw [hlower, hupper]
        refine Meets.bind (sub_meets g.mem_left g.mem_right (g.offset_le h)) fun width hw => ?_
        rw [← hlower, ← hupper] at hw
        subst ha hw
        split
        case isTrue hsmaller =>
          subst heq
          exact hp.replace hall hcount (Int.le_refl _) hpos fun _ => hsmaller.le
        case isFalse hge =>
          refine hp.keep hall hcount heq.le hpos fun next' post' hrest _ _ => ?_
          obtain ⟨rfl, rfl⟩ := List.cons.inj hrest
          exact Int.not_lt.mp hge
      case isFalse hbound =>
        refine hp.keep hall hcount heq.le hpos fun next' post' hrest _ hupper => ?_
        obtain ⟨rfl, rfl⟩ := List.cons.inj hrest
        exact absurd hupper hbound
    case isFalse hne =>
      exact hp.keep hall hcount (Int.not_lt.mp hlt) hpos fun _ _ _ heq => absurd heq hne

theorem sweep_passed (h : Swept low high all []) (hall : all = done ++ rest)
    (hp : Passed low high all done best interval)
    (hcount : count = (overlapping low high done rest).card) :
    Meets (fun e => e = .overflow ∧ Apart all)
      (fun (previous, best, interval) => previous = all.getLast? ∧ Passed low high all all best interval)
      (sweep done.getLast? best count interval rest) := by
  induction rest generalizing done best count interval with
  | nil =>
    rw [List.append_nil] at hall
    subst hall
    exact ⟨rfl, hp⟩
  | cons tuple rest ih =>
    have hswept : Swept low high done (tuple :: rest) :=
      ⟨h.ordered, by simpa [hall] using h.sorted, by simpa [hall] using h.mem_iff⟩
    have hcount' : countAfter count tuple = (overlapping low high (done ++ [tuple]) rest).card := by
      rw [hcount, hswept.countAfter]
    rw [sweep]
    refine Meets.bind hswept.verify_meets fun _ _ => ?_
    refine Meets.bind (improve_passed h hall hp hcount') fun improved hp' => ?_
    have hrun := ih (by rw [hall, List.append_assoc]; rfl) hp' hcount'
    rwa [List.getLast?_concat] at hrun

section Gaps

variable {count : Nat}

theorem Gap.contained (g : Gap low high all pre tuple next post count) (h : Swept low high all []) :
    overlapping low high (pre ++ [tuple]) (next :: post) ⊆
      agreeing Finset.univ low high tuple.offset next.offset :=
  (g.swept h).contained rfl

-- A gap after an upper bound is overlapped by fewer intervals than the one before it, and a gap before a
-- lower bound by fewer than the one after it, so that the best one has other ends.
theorem Gap.lower_of_best (g : Gap low high all pre tuple next post count) (h : Swept low high all [])
    (hp : Passed low high all all best interval) (hbest : count = best) :
    ∃ source ∈ overlapping low high (pre ++ [tuple]) (next :: post), tuple = lowerOf low source := by
  have hs := g.swept h
  obtain ⟨source, rfl | rfl⟩ := (hs.mem_iff tuple).mp (by simp)
  · exact ⟨source, hs.overlapping_lower.2 ▸ Finset.mem_insert_self .., rfl⟩
  · have ⟨hmem, heq⟩ := hs.overlapping_upper
    have hcard := Finset.card_erase_add_one hmem
    rw [← heq, g.overlap] at hcard
    have hne : pre ≠ [] := List.ne_nil_of_mem (mem_overlapping.mp hmem).1
    have hpre := List.dropLast_concat_getLast hne
    have hprevious : Gap low high all pre.dropLast (pre.getLast hne) (upperOf high source)
        (next :: post) (count + 1) := by
      refine ⟨?_, ?_⟩
      · rw [g.split]
        conv_lhs => rw [← hpre, List.append_assoc]
        rfl
      · rw [hpre, hcard]
    have hlt : pre.dropLast.length < all.length := by
      rw [g.split, List.length_dropLast]
      simp only [List.length_append, List.length_cons]
      omega
    have hle := (hp.most _ _ _ _ _ hprevious hlt).1
    omega

theorem Gap.upper_of_best (g : Gap low high all pre tuple next post count) (h : Swept low high all [])
    (hp : Passed low high all all best interval) (hbest : count = best) :
    ∃ source ∈ overlapping low high (pre ++ [tuple]) (next :: post), next = upperOf high source := by
  have hs := (g.swept h).shift
  obtain ⟨source, rfl | rfl⟩ := (hs.mem_iff next).mp (by simp)
  · have ⟨hmem, heq⟩ := hs.overlapping_lower
    have hcard := Finset.card_insert_of_notMem hmem
    rw [← heq, g.overlap] at hcard
    have hlast := (mem_overlapping.mp (heq ▸ Finset.mem_insert_self source _)).2
    obtain ⟨next', post', rfl⟩ := List.exists_cons_of_ne_nil (List.ne_nil_of_mem hlast)
    have hnext : Gap low high all (pre ++ [tuple]) (lowerOf low source) next' post' (count + 1) := by
      refine ⟨?_, hcard⟩
      rw [g.split, List.append_assoc]
      rfl
    have hlt : (pre ++ [tuple]).length < all.length := by
      rw [g.split]
      simp
    have hle := (hp.most _ _ _ _ _ hnext hlt).1
    omega
  · exact ⟨source, hs.overlapping_upper.1, rfl⟩

-- Intervals with a common point overlap after the last of their lower bounds.
theorem exists_gap (h : Swept low high all []) {agreed : Finset (Fin sources)} (hne : agreed.Nonempty)
    {l u : Int} (hle : l ≤ u) (hagreed : ∀ source ∈ agreed, low source ≤ l ∧ u ≤ high source) :
    ∃ pre tuple next post, ∃ count : Nat, Gap low high all pre tuple next post count ∧
      tuple.offset ≤ l ∧ agreed ⊆ overlapping low high (pre ++ [tuple]) (next :: post) := by
  obtain ⟨last, hlast, hmax⟩ := Finset.exists_max_image agreed
    (fun source => toLex (low source, source)) hne
  have hmem := h.mem_lowerOf last
  rw [List.append_nil] at hmem
  obtain ⟨pre, rest, hall⟩ := List.append_of_mem hmem
  have hs : Swept low high pre (lowerOf low last :: rest) :=
    ⟨h.ordered, by simpa [hall] using h.sorted, by simpa [hall] using h.mem_iff⟩
  have hsub : agreed ⊆ overlapping low high (pre ++ [lowerOf low last]) rest := by
    intro source hm
    have hlower := hs.mem_lowerOf source
    have hupper := hs.mem_upperOf source
    have ⟨_, hhigh⟩ := hagreed source hm
    have ⟨hlow, _⟩ := hagreed last hlast
    simp only [List.mem_append, List.mem_cons] at hlower hupper
    refine mem_overlapping_shift.mpr ⟨?_, ?_⟩
    · obtain hpre | heq | hrest := hlower
      · exact .inl hpre
      · exact .inr heq
      · have hbefore := hs.before_of_rest hrest
        have hlex := Prod.Lex.le_iff.mp (hmax source hm)
        unfold Before lowerOf at hbefore
        simp only [ofLex_toLex, reduceCtorEq, and_false, false_or, true_and, Fin.val_fin_lt] at hlex hbefore
        omega
    · obtain hpre | heq | hrest := hupper
      · have hbefore := hs.before_of_done hpre
        unfold Before lowerOf upperOf at hbefore
        simp only [reduceCtorEq, false_and, or_false, and_false] at hbefore
        omega
      · exact absurd heq.symm lowerOf_ne_upperOf
      · exact hrest
  obtain ⟨source, hsource⟩ := hne
  have hrest := (mem_overlapping.mp (hsub hsource)).2
  obtain ⟨next, post, rfl⟩ := List.exists_cons_of_ne_nil (List.ne_nil_of_mem hrest)
  exact ⟨pre, _, next, post, _, ⟨hall, rfl⟩, (hagreed last hlast).1, hsub⟩

-- No interval is contained in more intervals than overlap in the best gap.
theorem Passed.agreeing_le (hp : Passed low high all all best interval) (h : Swept low high all [])
    {l u : Int} (hle : l ≤ u) : (agreeing Finset.univ low high l u).card ≤ best := by
  obtain heq | hne := Finset.eq_empty_or_nonempty (agreeing Finset.univ low high l u)
  · rw [heq]
    exact hp.nonneg
  · obtain ⟨pre, tuple, next, post, count, g, _, hsub⟩ :=
      exists_gap h hne hle fun source hm => (mem_agreeing.mp hm).2
    have hcard := Finset.card_le_card hsub
    have hmost := (hp.most _ _ _ _ _ g (by rw [g.split]; simp)).1
    rw [g.overlap] at hcard
    omega

-- The gap with the best count is exactly what is agreed on by as many sources.
theorem Gap.agreeing_eq (g : Gap low high all pre tuple next post count) (h : Swept low high all [])
    (hp : Passed low high all all best interval) (hbest : count = best) :
    overlapping low high (pre ++ [tuple]) (next :: post) =
      agreeing Finset.univ low high tuple.offset next.offset := by
  refine Finset.eq_of_subset_of_card_le (g.contained h) ?_
  rw [g.overlap]
  exact_mod_cast hbest ▸ hp.agreeing_le h (g.offset_le h)

theorem Gap.region (g : Gap low high all pre tuple next post count) (h : Swept low high all [])
    (hp : Passed low high all all best interval) (hbest : count = best) :
    Region Finset.univ low high count tuple.offset next.offset where
  ordered := g.offset_le h
  agreed := by rw [← g.agreeing_eq h hp hbest, g.overlap]
  widest l' u' hl hu hcard := by
    have heq := g.agreeing_eq h hp hbest
    have hsame : agreeing Finset.univ low high l' u' =
        overlapping low high (pre ++ [tuple]) (next :: post) := by
      refine Finset.eq_of_subset_of_card_le (heq ▸ agreeing_mono hl hu) ?_
      rw [g.overlap, hcard]
    obtain ⟨a, ha, rfl⟩ := g.lower_of_best h hp hbest
    obtain ⟨b, hb, rfl⟩ := g.upper_of_best h hp hbest
    have ⟨_, hlow, _⟩ := mem_agreeing.mp (hsame ▸ ha)
    have ⟨_, _, hhigh⟩ := mem_agreeing.mp (hsame ▸ hb)
    exact ⟨le_antisymm hl hlow, le_antisymm hhigh hu⟩

-- Once all gaps are passed, the best interval is optimal.
theorem Passed.optimal (hp : Passed low high all all best interval) (h : Swept low high all [])
    (hpos : 0 < sources) : Optimal Finset.univ low high best.toNat interval.lowerBound
      interval.upperBound := by
  have hnonneg := hp.nonneg
  have hmem := h.mem_lowerOf ⟨0, hpos⟩
  rw [List.append_nil] at hmem
  have hne := List.ne_nil_of_mem hmem
  obtain ⟨hnil, _⟩ | ⟨pre, tuple, next, post, count, g, hbest, hlower, hupper⟩ := hp.found
  · exact absurd hnil hne
  obtain rfl : count = best.toNat := by omega
  have hregion := g.region h hp hbest
  rw [hlower, hupper]
  refine ⟨hregion.ordered, hregion.agreed, fun l' u' hle => ?_, fun _ => hregion, fun l' u' hr => ?_⟩
  · have hle := hp.agreeing_le h hle
    omega
  · have hstarted := hp.started hne
    have hcard := hr.agreed
    have hsome : (agreeing Finset.univ low high l' u').Nonempty := Finset.card_pos.mp (by omega)
    obtain ⟨pre', tuple', next', post', count', g', hoffset, hsub⟩ :=
      exists_gap h hsome hr.ordered fun source hm => (mem_agreeing.mp hm).2
    have hcount' : count' = best.toNat := by
      have hle := Finset.card_le_card hsub
      have hmost := (hp.most _ _ _ _ _ g' (by rw [g'.split]; simp)).1
      rw [hcard, g'.overlap] at hle
      omega
    have hbest' : (count' : Int) = best := by omega
    have hsame := Finset.eq_of_subset_of_card_le hsub (by rw [g'.overlap, hcard, hcount'])
    obtain ⟨b, hb, hnext⟩ := g'.upper_of_best h hp hbest'
    have hhigh : u' ≤ next'.offset := by
      rw [← hsame] at hb
      rw [hnext]
      exact (mem_agreeing.mp hb).2.2
    have ⟨hl, hu⟩ := hr.widest _ _ hoffset hhigh ((g'.region h hp hbest').agreed.trans hcount')
    have hsmall := (hp.most _ _ _ _ _ g' (by rw [g'.split]; simp)).2 hbest' (hnext ▸ rfl)
    omega

end Gaps

end Sweep

section Relabelling

variable {f : Nat → Nat} {tuples rest : List Tuple} {a b tuple : Tuple}

-- The source has another identifier.
def relabel (f : Nat → Nat) (tuple : Tuple) : Tuple :=
  { tuple with source := f tuple.source }

-- The identifiers keep their order.
def Keeps (f : Nat → Nat) (tuples : List Tuple) : Prop :=
  ∀ a ∈ tuples, ∀ b ∈ tuples, f a.source < f b.source ↔ a.source < b.source

theorem lessThan_relabel (h : Keeps f tuples) (ha : a ∈ tuples) (hb : b ∈ tuples) :
    lessThan (relabel f a) (relabel f b) = lessThan a b := by
  have hlt := h a ha b hb
  have hgt := h b hb a ha
  have hsource : compare (f a.source) (f b.source) = compare a.source b.source := by
    obtain hc | heq | hc := Nat.lt_trichotomy a.source b.source
    · rw [Nat.compare_eq_lt.mpr hc, Nat.compare_eq_lt.mpr (hlt.mpr hc)]
    · rw [heq, Nat.compare_eq_eq.mpr rfl, Nat.compare_eq_eq.mpr rfl]
    · rw [Nat.compare_eq_gt.mpr hc, Nat.compare_eq_gt.mpr (hgt.mpr hc)]
  unfold lessThan relabel
  dsimp only
  rw [hsource]

theorem sort_relabel (h : Keeps f tuples) :
    sort (tuples.map (relabel f)) = (sort tuples).map (relabel f) := by
  refine (List.map_insertionSort _ _ (relabel f) tuples fun a ha b hb => ?_).symm
  rw [lessThan_relabel h ha hb]

-- The order in which the tuples come does not matter.
theorem sort_eq_of_perm {tuples' : List Tuple} (hp : tuples.Perm tuples') (hn : tuples.Nodup) :
    sort tuples = sort tuples' := by
  refine List.Perm.eq_of_pairwise (fun a b _ _ hab hba => absurd hba hab.asymm) (pairwise_sort hn)
    (pairwise_sort (hp.nodup_iff.mp hn)) ?_
  exact sort_perm.trans (hp.trans sort_perm.symm)

theorem verify_relabel {previous : Option Tuple}
    (h : ∀ p ∈ previous, f p.source < f tuple.source ↔ p.source < tuple.source) :
    verify (previous.map (relabel f)) (relabel f tuple) = verify previous tuple := by
  cases previous with
  | none => rfl
  | some p =>
    unfold verify relabel
    dsimp only [Option.map_some]
    simp only [h p rfl]

theorem improve_relabel {best count : Int} {interval : Interval} :
    improve best count interval (relabel f tuple) (rest.map (relabel f)) =
      improve best count interval tuple rest := by
  cases rest <;> rfl

theorem sweep_relabel {previous : Option Tuple} {best count : Int} {interval : Interval}
    (h : Keeps f (previous.toList ++ rest)) :
    sweep (previous.map (relabel f)) best count interval (rest.map (relabel f)) =
      (sweep previous best count interval rest).map fun (previous, best, interval) =>
        (previous.map (relabel f), best, interval) := by
  induction rest generalizing previous best count interval with
  | nil => rfl
  | cons tuple rest ih =>
    have hverify := @verify_relabel f tuple previous fun p hp =>
      h p (by simp [Option.mem_def.mp hp]) tuple (by simp)
    have hrest : Keeps f ((some tuple).toList ++ rest) := fun a ha b hb =>
      h a (List.mem_append_right _ ha) b (List.mem_append_right _ hb)
    rw [List.map_cons, sweep, sweep, hverify]
    cases verify previous tuple with
    | error e => rfl
    | ok =>
      show (improve best (countAfter count tuple) interval (relabel f tuple) _ >>= _) =
        Except.map _ (improve best (countAfter count tuple) interval tuple rest >>= _)
      rw [improve_relabel]
      cases improve best (countAfter count tuple) interval tuple rest with
      | error e => rfl
      | ok improved => exact ih hrest

end Relabelling

section SmallestInterval

variable {sources : Finset Nat} {low high : Nat → Int} {tuples : List Tuple}

-- One lower and one upper bound of each source, in any order.
structure Sampled (tuples : List Tuple) (sources : Finset Nat) (low high : Nat → Int) : Prop where
  ordered : ∀ source ∈ sources, low source ≤ high source
  nodup : tuples.Nodup
  mem_iff : ∀ tuple, tuple ∈ tuples ↔
    ∃ source ∈ sources, tuple = ⟨source, low source, .lower⟩ ∨ tuple = ⟨source, high source, .upper⟩

namespace Sampled

-- The identifiers of the sources, in their order.
def identify (sources : Finset Nat) (i : Nat) : Nat :=
  if h : i < sources.card then sources.orderIsoOfFin rfl ⟨i, h⟩ else i

variable {i : Fin sources.card}

theorem identify_eq : identify sources i = sources.orderIsoOfFin rfl i :=
  dif_pos i.isLt

theorem identify_mem : identify sources i ∈ sources := by
  rw [identify_eq]
  exact (sources.orderIsoOfFin rfl i).2

theorem identify_lt {j : Fin sources.card} : identify sources i < identify sources j ↔ i < j := by
  rw [identify_eq, identify_eq, Subtype.coe_lt_coe]
  exact (sources.orderIsoOfFin rfl).lt_iff_lt

theorem exists_identify {source : Nat} (h : source ∈ sources) :
    ∃ i : Fin sources.card, identify sources i = source := by
  refine ⟨(sources.orderIsoOfFin rfl).symm ⟨source, h⟩, ?_⟩
  rw [identify_eq, OrderIso.apply_symm_apply]

theorem keeps : Keeps (identify sources)
    (bounds (fun i : Fin sources.card => low (identify sources i)) fun i => high (identify sources i)) := by
  have hsource : ∀ tuple ∈ bounds (fun i : Fin sources.card => low (identify sources i))
      (fun i => high (identify sources i)), tuple.source < sources.card := by
    intro tuple hm
    obtain ⟨i, rfl | rfl⟩ := mem_bounds.mp hm
    · exact i.isLt
    · exact i.isLt
  intro a ha b hb
  exact @identify_lt sources ⟨a.source, hsource a ha⟩ ⟨b.source, hsource b hb⟩

-- The bounds are those of as many sources whose identifiers are the first ones.
theorem perm (h : Sampled tuples sources low high) : tuples.Perm
    ((bounds (fun i : Fin sources.card => low (identify sources i))
      fun i => high (identify sources i)).map (relabel (identify sources))) := by
  refine (List.perm_ext_iff_of_nodup h.nodup ?_).mpr fun tuple => ?_
  · refine List.Nodup.map_on (fun a ha b hb heq => ?_) nodup_bounds
    have hlt := keeps a ha b hb
    have hgt := keeps b hb a ha
    cases a
    cases b
    simp only [relabel, Tuple.mk.injEq] at heq hlt hgt ⊢
    exact ⟨by omega, heq.2⟩
  · rw [h.mem_iff, List.mem_map]
    constructor
    · rintro ⟨source, hs, heq⟩
      obtain ⟨i, rfl⟩ := exists_identify hs
      obtain rfl | rfl := heq
      · exact ⟨_, mem_bounds.mpr ⟨i, .inl rfl⟩, rfl⟩
      · exact ⟨_, mem_bounds.mpr ⟨i, .inr rfl⟩, rfl⟩
    · rintro ⟨_, hm, rfl⟩
      obtain ⟨i, rfl | rfl⟩ := mem_bounds.mp hm
      · exact ⟨_, identify_mem, .inl rfl⟩
      · exact ⟨_, identify_mem, .inr rfl⟩

theorem length (h : Sampled tuples sources low high) : tuples.length = 2 * sources.card := by
  rw [h.perm.length_eq, List.length_map, length_bounds]

theorem card_agreeing {l u : Int} : (agreeing Finset.univ (fun i : Fin sources.card =>
    low (identify sources i)) (fun i => high (identify sources i)) l u).card =
      (agreeing sources low high l u).card := by
  have hinj : Function.Injective fun i : Fin sources.card => identify sources i := by
    intro i j heq
    have hlt := @identify_lt sources i j
    have hgt := @identify_lt sources j i
    dsimp only at heq
    omega
  rw [← Finset.card_image_of_injective _ hinj]
  congr 1
  ext source
  rw [Finset.mem_image, mem_agreeing]
  constructor
  · rintro ⟨i, hm, rfl⟩
    exact ⟨identify_mem, (mem_agreeing.mp hm).2⟩
  · rintro ⟨hs, hagreed⟩
    obtain ⟨i, rfl⟩ := exists_identify hs
    exact ⟨i, mem_agreeing.mpr ⟨Finset.mem_univ i, hagreed⟩, rfl⟩

end Sampled

-- The smallest interval is the best one, whatever the order of the bounds is. It is not found only if
-- two of the bounds are further apart than a machine integer can tell.
theorem smallestInterval_optimal (h : Sampled tuples sources low high) (hmax : sources.card ≤ 255) :
    Meets (fun e => e = .overflow ∧ Apart tuples)
      (fun (interval, _) =>
        Optimal sources low high interval.sourcesTrue interval.lowerBound interval.upperBound ∧
          interval.sourcesTrue + interval.sourcesFalse = sources.card)
      (smallestInterval tuples) := by
  have hlen := h.length
  have hhalf : tuples.length / 2 = sources.card := by omega
  unfold smallestInterval
  rw [ensure_of (by omega), ok_bind, ensure_of (by omega), ok_bind, hhalf]
  dsimp only
  split
  case isTrue hzero =>
    obtain rfl := Finset.card_eq_zero.mp hzero
    refine ⟨⟨Int.le_refl _, rfl, fun _ _ _ => Nat.le_refl _, fun h => ?_, fun l u hr => ?_⟩, rfl⟩
    · exact absurd h Finset.not_nonempty_empty
    · have hordered := hr.ordered
      show (0 : Int) - 0 ≤ u - l
      omega
  case isFalse hne =>
    have hpos : 0 < sources.card := Nat.pos_of_ne_zero hne
    generalize hlow' : (fun i : Fin sources.card => low (Sampled.identify sources i)) = low'
    generalize hhigh' : (fun i : Fin sources.card => high (Sampled.identify sources i)) = high'
    have hperm := h.perm
    have hkeeps := @Sampled.keeps sources low high
    have hcard := @Sampled.card_agreeing sources low high
    rw [hlow', hhigh'] at hperm hkeeps hcard
    have hordered : ∀ i, low' i ≤ high' i := by
      subst hlow' hhigh'
      exact fun i => h.ordered _ Sampled.identify_mem
    have hsorted := swept_sort hordered
    have hswept : Swept low' high' (sort (bounds low' high')) [] :=
      ⟨hordered, by simpa using hsorted.sorted, by simpa using hsorted.mem_iff⟩
    have hinitial : Passed low' high' (sort (bounds low' high')) [] 0 .zero :=
      ⟨fun _ _ _ _ _ _ hlt => absurd hlt (Nat.not_lt_zero _), fun hnil => absurd rfl hnil, .inl ⟨rfl, rfl⟩⟩
    have hrun := sweep_passed hswept (List.nil_append _).symm hinitial
      (show (0 : Int) = _ by simp [overlapping])
    have hsort : sort tuples = (sort (bounds low' high')).map (relabel (Sampled.identify sources)) :=
      (sort_eq_of_perm hperm h.nodup).trans (sort_relabel hkeeps)
    have hsweep := @sweep_relabel (Sampled.identify sources) (sort (bounds low' high')) none 0 0 .zero
      fun a ha b hb => hkeeps a (sort_perm.mem_iff.mp ha) b (sort_perm.mem_iff.mp hb)
    have happart : Apart (sort (bounds low' high')) → Apart tuples := by
      rintro ⟨a, ha, b, hb, hlt⟩
      have hmem : ∀ t ∈ sort (bounds low' high'), relabel (Sampled.identify sources) t ∈ tuples :=
        fun t ht => hperm.mem_iff.mpr (List.mem_map_of_mem (sort_perm.mem_iff.mp ht))
      exact ⟨_, hmem a ha, _, hmem b hb, hlt⟩
    rw [hsort]
    refine Meets.bind (R := fun swept : Option Tuple × Int × Interval =>
      swept.1.map Tuple.bound = some .upper ∧
        Passed low' high' (sort (bounds low' high')) (sort (bounds low' high')) swept.2.1 swept.2.2) ?_ ?_
    · rw [show (none : Option Tuple) = Option.map (relabel (Sampled.identify sources)) none from rfl,
        hsweep]
      refine Meets.map_iff.mpr (hrun.mono ?_ fun e he => ⟨he.1, happart he.2⟩)
      rintro ⟨previous, best, interval⟩ ⟨hprevious, hp⟩
      refine ⟨?_, hp⟩
      dsimp only
      have hmem := hswept.mem_lowerOf ⟨0, hpos⟩
      rw [List.append_nil] at hmem
      have hlast := List.getLast?_eq_some_getLast (List.ne_nil_of_mem hmem)
      have hupper := hswept.last_upper hlast
      rw [hprevious, hlast, Option.map_some, Option.map_some]
      exact congrArg some hupper
    · rintro ⟨previous, best, interval⟩ ⟨hbound, hp⟩
      dsimp only at hbound hp
      have hnonneg := hp.nonneg
      have hoptimal := hp.optimal hswept hpos
      have hle : best ≤ sources.card := by
        have hagreed := hoptimal.agreed
        have huniv := Finset.card_le_univ (agreeing Finset.univ low' high' interval.lowerBound
          interval.upperBound)
        rw [Fintype.card_fin] at huniv
        omega
      have hsum : best.toNat + (sources.card - best.toNat) = sources.card := by omega
      dsimp only at hbound ⊢
      rw [ensure_of hbound, ok_bind, ensure_of hnonneg, ok_bind, ensure_of hle, ok_bind, ensure_of hsum]
      exact ⟨hoptimal.congr (fun _ _ => hcard) ⟨⟨0, hpos⟩, Finset.mem_univ _⟩, hsum⟩

-- Two sources whose intervals touch, and a third one apart from them.
theorem smallestInterval_optimal_of_three : ∃ interval, ∃ sorted : List Tuple,
    smallestInterval [⟨7, 10, .upper⟩, ⟨2, 10, .lower⟩, ⟨5, 30, .lower⟩, ⟨7, -5, .lower⟩,
        ⟨5, 31, .upper⟩, ⟨2, 20, .upper⟩] = .ok (interval, sorted) ∧
      Optimal {2, 5, 7} (fun source => if source = 2 then 10 else if source = 5 then 30 else -5)
        (fun source => if source = 2 then 20 else if source = 5 then 31 else 10)
        interval.sourcesTrue interval.lowerBound interval.upperBound := by
  have hsampled : Sampled [⟨7, 10, .upper⟩, ⟨2, 10, .lower⟩, ⟨5, 30, .lower⟩, ⟨7, -5, .lower⟩,
      ⟨5, 31, .upper⟩, ⟨2, 20, .upper⟩] {2, 5, 7}
        (fun source => if source = 2 then 10 else if source = 5 then 30 else -5)
        (fun source => if source = 2 then 20 else if source = 5 then 31 else 10) := by
    refine ⟨by decide, by decide, fun tuple => ?_⟩
    simp only [List.mem_cons, List.not_mem_nil, or_false, Finset.mem_insert, Finset.mem_singleton,
      exists_eq_or_imp, exists_eq_left]
    tauto
  have h := smallestInterval_optimal hsampled (by decide)
  have hnear : ¬Apart [⟨7, 10, .upper⟩, ⟨2, 10, .lower⟩, ⟨5, 30, .lower⟩, ⟨7, -5, .lower⟩,
      ⟨5, 31, .upper⟩, ⟨2, 20, .upper⟩] := by
    unfold Apart i64Max
    decide
  obtain ⟨⟨interval, sorted⟩, hrun, hoptimal, _⟩ :=
    Meets.iff_exists.mp (h.mono (fun _ h => h) fun _ he => hnear he.2)
  exact ⟨interval, sorted, hrun, hoptimal⟩

-- As many sources as there are identifiers are one too many.
theorem smallestInterval_of_all : ¬∀ (tuples : List Tuple) (sources : Finset Nat)
    (low high : Nat → Int), Sampled tuples sources low high → (∀ source ∈ sources, source < 2 ^ 8) →
    ¬Apart tuples → (smallestInterval tuples).isOk = true := by
  intro h
  have hsampled : Sampled ((List.range 256).flatMap fun source =>
      [⟨source, 0, .lower⟩, ⟨source, 0, .upper⟩]) (Finset.range 256) (fun _ => 0) fun _ => 0 := by
    refine ⟨fun _ _ => Int.le_refl _, ?_, fun tuple => ?_⟩
    · refine List.nodup_flatMap.mpr ⟨fun source _ => by simp, ?_⟩
      refine List.nodup_range.imp fun {a b} hne => ?_
      simp [Function.onFun, hne.symm]
    · simp [List.mem_flatMap]
  have hnear : ¬Apart ((List.range 256).flatMap fun source =>
      [⟨source, 0, .lower⟩, ⟨source, 0, .upper⟩]) := by
    rintro ⟨a, ha, b, hb, hlt⟩
    have hzero : ∀ tuple ∈ (List.range 256).flatMap fun source =>
        [⟨source, 0, .lower⟩, (⟨source, 0, .upper⟩ : Tuple)], tuple.offset = 0 := fun tuple hm => by
      obtain ⟨_, _, rfl | rfl⟩ := (hsampled.mem_iff tuple).mp hm <;> rfl
    rw [hzero a ha, hzero b hb] at hlt
    exact absurd hlt (by decide)
  have hrun := h _ _ _ _ hsampled (fun source hs => Finset.mem_range.mp hs) hnear
  have hlen := hsampled.length
  rw [Finset.card_range] at hlen
  unfold smallestInterval at hrun
  rw [ensure_of (by omega), ok_bind, ensure, if_neg (by omega)] at hrun
  cases hrun

end SmallestInterval

end TigerBeetle.Marzullo
