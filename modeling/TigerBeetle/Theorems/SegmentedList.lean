import TigerBeetle.Theorems.SegmentedArray

namespace TigerBeetle.SegmentedArray

open Fallible

variable {Key Value : Type} {spec : SegmentedArraySpec Key Value} {array : SegmentedArray Value}
variable {contents before after : List (List Value)} {xs es list : List Value} {i n : Nat}

section Bounds

variable {elementCountMax cap max a b : Nat}

theorem three_le_naive (hc : cap / 2 ≠ 0) (hm : cap < elementCountMax) :
    3 ≤ (elementCountMax + cap / 2 - 1) / (cap / 2) := by
  rw [Nat.le_div_iff_mul_le (Nat.pos_of_ne_zero hc)]
  omega

theorem maxNodes_eq (h : maxNodes elementCountMax cap = .ok max) : cap / 2 ≠ 0 ∧
    max = if elementCountMax ≥ cap + 1 +
      ((elementCountMax + cap / 2 - 1) / (cap / 2) - 3) * (cap / 2) + 1
    then (elementCountMax + cap / 2 - 1) / (cap / 2)
    else (elementCountMax + cap / 2 - 1) / (cap / 2) - 1 := by
  unfold maxNodes at h
  dsimp only at h
  have ⟨_, ha, hr⟩ := bind_eq_ok.mp h
  have hc : cap / 2 ≠ 0 := by
    by_contra hc
    rw [show assert (cap / 2 ≠ 0) "attempt to divide by zero" = abort "attempt to divide by zero" from
      if_neg (not_not.mpr hc)] at ha
    cases ha
  exact ⟨hc, (Except.ok.inj hr).symm⟩

theorem maxNodes_pos (h : maxNodes elementCountMax cap = .ok max) (hm : cap < elementCountMax) :
    0 < max := by
  have ⟨hc, heq⟩ := maxNodes_eq h
  have := three_le_naive hc hm
  rw [heq]
  split <;> omega

-- A node is split only where its elements and those of the other nodes leave room for one node more:
-- there are `b` nodes in front of it and `a` ones behind it, and it is full.
theorem maxNodes_room (h : maxNodes elementCountMax cap = .ok max) (hm : cap < elementCountMax)
    (hl : b * (cap / 2) + (cap + 1) + (if a = 0 then 0 else (a - 1) * (cap / 2) + 1) ≤
      elementCountMax) : b + a + 2 ≤ max := by
  have ⟨hc, heq⟩ := maxNodes_eq h
  have hthree := three_le_naive hc hm
  have hle : ∀ n, n * (cap / 2) ≤ elementCountMax + cap / 2 - 1 →
      n ≤ (elementCountMax + cap / 2 - 1) / (cap / 2) := fun n hn =>
    (Nat.le_div_iff_mul_le (Nat.pos_of_ne_zero hc)).mpr hn
  have htwice : 2 * (cap / 2) ≤ cap := Nat.mul_div_le cap 2
  generalize (elementCountMax + cap / 2 - 1) / (cap / 2) = naive at heq hthree hle
  generalize cap / 2 = half at *
  rw [heq]
  split
  case isTrue hbudget =>
    refine hle _ ?_
    rw [Nat.add_mul, Nat.add_mul]
    cases a with
    | zero   => simp at hl ⊢; omega
    | succ a => simp [Nat.add_mul] at hl ⊢; omega
  case isFalse hbudget =>
    by_contra hlt
    have hmul : (naive - 3) * half ≤ (b + a - 1) * half := Nat.mul_le_mul_right half (by omega)
    cases a with
    | zero =>
      cases b with
      | zero   => omega
      | succ b => simp [Nat.add_mul] at hl hmul; omega
    | succ a => simp [Nat.add_mul, ← Nat.add_assoc] at hl hmul; omega

end Bounds

theorem length_flatten_ge {half : Nat} (h : ∀ ys ∈ before, ys ≠ [] ∧ half ≤ ys.length) :
    before.length * half ≤ before.flatten.length := by
  induction before with
  | nil => simp
  | cons ys before ih =>
    have hy := (h ys List.mem_cons_self).2
    have := ih fun zs hz => h zs (List.mem_cons_of_mem _ hz)
    rw [List.length_cons, Nat.add_mul, List.flatten_cons, List.length_append]
    omega

theorem Packed.length_flatten_ge {half : Nat} (h : Packed half after) :
    (if after.length = 0 then 0 else (after.length - 1) * half + 1) ≤ after.flatten.length := by
  induction after with
  | nil => simp
  | cons xs after ih =>
    have ⟨hx, hhalf, ha⟩ := h
    have hpos := List.length_pos_iff.mpr hx
    have := ih ha
    rw [List.length_cons, if_neg (by omega), List.flatten_cons, List.length_append]
    cases after with
    | nil => simp; omega
    | cons ys after =>
      have := hhalf (by simp)
      simp only [List.length_cons, Nat.add_sub_cancel, Nat.add_mul, if_neg (Nat.succ_ne_zero _)] at this ⊢ ih
      have := ih ha
      omega

-- The invariant of an array.
structure Refines (spec : SegmentedArraySpec Key Value) (array : SegmentedArray Value)
    (contents : List (List Value)) : Prop where
  holds : Holds spec array contents
  packed : Packed (spec.nodeCapacity / 2) contents
  count : contents.length ≤ array.nodeCountMax
  bound : contents.flatten.length ≤ spec.elementCountMax
  max : maxNodes spec.elementCountMax spec.nodeCapacity = .ok array.nodeCountMax
  element : spec.nodeCapacity < spec.elementCountMax

-- The elements of a sorted array are in the order of their keys.
def Ordered [LinearOrder Key] (spec : SegmentedArraySpec Key Value) (list : List Value) : Prop :=
  spec.sorted = true → list.Pairwise fun a b => spec.keyFromValue a ≤ spec.keyFromValue b

-- A result is an array of a list.
def Returns (spec : SegmentedArraySpec Key Value) (list : List Value)
    (result : Result (SegmentedArray Value)) : Prop :=
  ∃ array contents, result = .ok array ∧ Refines spec array contents ∧ contents.flatten = list

namespace Refines

section

variable (r : Refines spec array contents)

include r

theorem half_pos : 0 < spec.nodeCapacity / 2 :=
  Nat.pos_of_ne_zero (maxNodes_eq r.max).1

theorem nonempty (j : Nat) (xs : List Value)
    (_ : j + 1 < contents.length) (hx : contents[j]? = some xs) : xs ≠ [] :=
  r.packed.ne_nil (List.mem_of_getElem? hx)

theorem cursorForAbsoluteIndex (hi : i < contents.flatten.length) :
    ∃ cursor before xs after, array.cursorForAbsoluteIndex spec i = .ok cursor ∧
      Located contents cursor i before xs after := by
  have hne : contents ≠ [] := by
    rintro rfl
    simp at hi
  exact r.holds.cursorForAbsoluteIndex hne r.nonempty r.bound hi.le (hi.trans_le r.bound)

theorem half_full (hi : i + 1 < contents.length)
    (hx : contents[i]? = some xs) : spec.nodeCapacity / 2 ≤ xs.length := by
  obtain ⟨ys, hy, hsplit⟩ := split_at (show i < contents.length by omega)
  cases hx.symm.trans hy
  have hp := r.packed
  rw [hsplit] at hp
  refine (packed_append.mp hp).2.2.1 fun hnil => ?_
  have := congrArg List.length hnil
  rw [List.length_drop, List.length_nil] at this
  omega

end

section Insert

variable [Inhabited Value]

theorem insertElementsBatch (r : Refines spec array contents) (hne : es ≠ [])
    (hes : es.length ≤ spec.nodeCapacity) (hi : i ≤ contents.flatten.length)
    (hm : contents.flatten.length + es.length ≤ spec.elementCountMax) :
    Returns spec (contents.flatten.take i ++ es ++ contents.flatten.drop i)
      (array.insertElementsBatch spec i es) := by
  have hpos := List.length_pos_iff.mpr hne
  cases contents with
  | nil =>
    have hzero : i = 0 := by simpa using hi
    subst hzero
    have hstart : Holds spec array ([] ++ []) := r.holds
    obtain ⟨array₁, ha, h₁, hmax⟩ := hstart.insertEmptyNodeAt (maxNodes_pos r.max r.element)
    rw [List.nil_append] at h₁
    have hcount : array.nodeCount = 0 := r.holds.nodeCount
    have hcount₁ : array₁.nodeCount = 1 := h₁.nodeCount
    have hfirst : read array₁.indexes 0 = .ok 0 := read_eq_ok.mpr (h₁.indexes 0 (Nat.zero_le _))
    have hsecond : read array₁.indexes 1 = .ok 0 := read_eq_ok.mpr (h₁.indexes 1 (Nat.le_refl _))
    -- The empty array first gets an empty node.
    have hsame : array.insertElementsBatch spec 0 es = array₁.insertElementsBatch spec 0 es := by
      unfold SegmentedArray.insertElementsBatch
      rw [hcount, hcount₁, if_pos rfl, if_neg Nat.one_ne_zero, assert_of rfl, ok_bind,
        show array.insertEmptyNodeAt spec 0 = .ok array₁ from ha, ok_bind, assert_of hcount₁,
        ok_bind, hfirst, ok_bind, assert_of rfl, ok_bind, hsecond, ok_bind, assert_of rfl]
      rfl
    obtain ⟨cursor, before, xs, after, hcur, hloc⟩ := h₁.cursorForAbsoluteIndex (i := 0) (by simp)
      (fun _ _ hj => by simp at hj) (Nat.zero_le _) (Nat.zero_le _) (by omega)
    obtain ⟨rfl, rfl, rfl⟩ : before = [] ∧ xs = [] ∧ after = [] := by
      have hsplit := hloc.split
      cases before with
      | nil => simpa [eq_comm] using hsplit
      | cons => simp at hsplit
    obtain ⟨array', hr, h', hmax'⟩ := h₁.insertElementsAt hloc hcur hne hes (by simpa using hm)
      (fun hlt => by simp at hlt; omega)
    have hone : [] ++ spread spec.nodeCapacity (([] : List Value).take cursor.relativeIndex ++ es ++
        ([] : List Value).drop cursor.relativeIndex) ++ [] = [es] := by
      simpa [spread] using hes
    rw [hone] at h'
    refine ⟨array', [es], hsame.trans hr, ⟨h', ⟨hne, fun h => absurd rfl h, trivial⟩, ?_, by simpa using hm,
      ?_, r.element⟩, by simp⟩
    · rw [hmax', hmax]
      exact maxNodes_pos r.max r.element
    · rw [hmax', hmax]
      exact r.max
  | cons ys rest =>
    obtain ⟨cursor, before, xs, after, hcur, hloc⟩ := r.holds.cursorForAbsoluteIndex (i := i) (by simp)
      r.nonempty r.bound hi (by omega)
    have htake := hloc.take
    have hdrop := @Located.drop _ _ _ _ _ _ _ 0 hloc
    have hsplit := hloc.split
    have hle := hloc.le
    generalize ys :: rest = contents at *
    subst hsplit
    obtain ⟨hb, hx, hhalf, ha⟩ := packed_append.mp r.packed
    have hlen : (before ++ xs :: after).flatten.length =
        before.flatten.length + xs.length + after.flatten.length := by
      simp [List.length_flatten, Nat.add_assoc]
    have hroom : spec.nodeCapacity < xs.length + es.length →
        (before ++ xs :: after).length < array.nodeCountMax := fun hfull => by
      have hbefore := SegmentedArray.length_flatten_ge hb
      have hafter := ha.length_flatten_ge
      have := @maxNodes_room _ _ _ after.length before.length r.max r.element (by omega)
      rw [List.length_append, List.length_cons]
      omega
    obtain ⟨array', hr, h', hmax⟩ := r.holds.insertElementsAt hloc hcur hne hes (by omega) hroom
    have hl : (xs.take cursor.relativeIndex ++ es ++ xs.drop cursor.relativeIndex).length =
        xs.length + es.length := by
      simp
      omega
    have hpacked := @packed_spread _ before after
      (xs.take cursor.relativeIndex ++ es ++ xs.drop cursor.relativeIndex) _ hb r.half_pos
      (List.length_pos_iff.mp (by omega)) (fun h => by have := hhalf h; omega) ha
    have hflat : (before ++ spread spec.nodeCapacity (xs.take cursor.relativeIndex ++ es ++
        xs.drop cursor.relativeIndex) ++ after).flatten = (before ++ xs :: after).flatten.take i ++ es ++
        (before ++ xs :: after).flatten.drop i := by
      rw [Nat.add_zero, Nat.add_zero, Nat.sub_eq_zero_of_le hle, List.drop_zero] at hdrop
      rw [htake, hdrop, List.flatten_append, List.flatten_append, flatten_spread]
      simp
    refine ⟨array', _, hr, ⟨h', hpacked, ?_, ?_, by rw [hmax]; exact r.max, r.element⟩, hflat⟩
    · rw [hmax, List.append_assoc, List.length_append, List.length_append]
      have hcount := r.count
      rw [List.length_append, List.length_cons] at hcount hroom
      unfold spread
      split
      · simp
        omega
      · simp
        omega
    · rw [hflat, List.length_append, List.length_append, List.length_take_of_le hi, List.length_drop]
      omega

theorem insertBatches (fuel : Nat) (r : Refines spec array contents) (hf : es.length ≤ fuel)
    (hi : i ≤ contents.flatten.length)
    (hm : contents.flatten.length + es.length ≤ spec.elementCountMax) :
    Returns spec (contents.flatten.take i ++ es ++ contents.flatten.drop i)
      (SegmentedArray.insertBatches spec i fuel es array) := by
  induction fuel generalizing i es array contents with
  | zero =>
    have hnil := List.eq_nil_of_length_eq_zero (Nat.le_zero.mp hf)
    subst hnil
    exact ⟨array, contents, rfl, r, by simp⟩
  | succ fuel ih =>
    unfold SegmentedArray.insertBatches
    by_cases hnil : es = []
    case pos =>
      subst hnil
      exact ⟨array, contents, by rw [if_pos rfl]; rfl, r, by simp⟩
    case neg =>
      have hpos := List.length_pos_iff.mpr hnil
      have hhalf := r.half_pos
      have hbatch : 0 < min spec.nodeCapacity es.length := by omega
      have htake : (es.take (min spec.nodeCapacity es.length)).length =
          min spec.nodeCapacity es.length := List.length_take_of_le (by omega)
      have hdrop : (es.drop (min spec.nodeCapacity es.length)).length =
          es.length - min spec.nodeCapacity es.length := List.length_drop
      obtain ⟨array₁, contents₁, h₁, r₁, hl₁⟩ := @insertElementsBatch _ _ _ _ _
        (es.take (min spec.nodeCapacity es.length)) i _ r (List.length_pos_iff.mp (by omega))
        (by omega) hi (by omega)
      rw [if_neg hnil]
      dsimp only
      rw [h₁, ok_bind]
      generalize hbatch' : min spec.nodeCapacity es.length = batch at *
      have hlen₁ : contents₁.flatten.length = contents.flatten.length + batch := by
        rw [hl₁, List.length_append, List.length_append, htake, List.length_take_of_le hi,
          List.length_drop]
        omega
      obtain ⟨array', contents', h', r', hl'⟩ := @ih array₁ contents₁ (es.drop batch) (i + batch) r₁
        (by omega) (by omega) (by omega)
      refine ⟨array', contents', h', r', ?_⟩
      have hfront : (contents.flatten.take i ++ es.take batch).length = i + batch := by
        rw [List.length_append, htake, List.length_take_of_le hi]
      rw [hl', hl₁, List.take_left' hfront, List.drop_left' hfront, List.append_assoc _ (es.take batch),
        List.take_append_drop]

theorem insertElementsAtAbsoluteIndex (r : Refines spec array contents) (hne : es ≠ [])
    (hi : i ≤ contents.flatten.length)
    (hm : contents.flatten.length + es.length ≤ spec.elementCountMax) :
    Returns spec (contents.flatten.take i ++ es ++ contents.flatten.drop i)
      (array.insertElementsAtAbsoluteIndex spec i es) := by
  unfold SegmentedArray.insertElementsAtAbsoluteIndex
  rw [assert_of hne, ok_bind, assert_of (by omega), ok_bind]
  exact r.insertBatches _ (Nat.le_refl _) hi hm

end Insert

theorem removeElementsBatch (r : Refines spec array contents) (hn : 0 < n)
    (hnh : n ≤ spec.nodeCapacity / 2) (hi : i + n ≤ contents.flatten.length) :
    Returns spec (contents.flatten.take i ++ contents.flatten.drop (i + n))
      (array.removeElementsBatch spec i n) := by
  have ⟨contents', ⟨array', hr, h', hmax⟩, hp, hc, hl⟩ :=
    r.holds.removeElementsBatch r.half_pos r.packed hn hnh r.bound hi
  refine ⟨array', contents', hr, ⟨h', hp, ?_, ?_, by rw [hmax]; exact r.max, r.element⟩, hl⟩
  · rw [hmax]
    exact hc.trans r.count
  · have := r.bound
    rw [hl, List.length_append, List.length_take_of_le (by omega), List.length_drop]
    omega

theorem removeBatches (fuel : Nat) (r : Refines spec array contents) (hf : n ≤ fuel)
    (hi : i + n ≤ contents.flatten.length) :
    Returns spec (contents.flatten.take i ++ contents.flatten.drop (i + n))
      (SegmentedArray.removeBatches spec i fuel n array) := by
  induction fuel generalizing n array contents with
  | zero =>
    obtain rfl := Nat.le_zero.mp hf
    exact ⟨array, contents, rfl, r, by simp⟩
  | succ fuel ih =>
    unfold SegmentedArray.removeBatches
    by_cases hzero : n = 0
    case pos =>
      subst hzero
      exact ⟨array, contents, by rw [if_pos rfl]; rfl, r, by simp⟩
    case neg =>
      have hhalf := r.half_pos
      obtain ⟨array₁, contents₁, h₁, r₁, hl₁⟩ := @removeElementsBatch _ _ _ _ _ i
        (min (spec.nodeCapacity / 2) n) r (by omega) (by omega) (by omega)
      rw [if_neg hzero]
      dsimp only
      rw [h₁, ok_bind]
      generalize hbatch : min (spec.nodeCapacity / 2) n = batch at *
      have hfront : (contents.flatten.take i).length = i := List.length_take_of_le (by omega)
      have hlen₁ : contents₁.flatten.length = contents.flatten.length - batch := by
        rw [hl₁, List.length_append, hfront, List.length_drop]
        omega
      obtain ⟨array', contents', h', r', hl'⟩ := @ih array₁ contents₁ (n - batch) r₁ (by omega) (by omega)
      refine ⟨array', contents', h', r', ?_⟩
      rw [hl', hl₁, List.take_left' hfront, List.drop_append, hfront, List.drop_of_length_le (by omega),
        List.drop_drop, List.nil_append]
      congr 2
      omega

section Verify

theorem verifyCounts (r : Refines spec array contents) {nodes : List Nat}
    (hn : ∀ node ∈ nodes, node < contents.length) : array.verifyCounts spec nodes = .ok () := by
  induction nodes with
  | nil => rfl
  | cons node nodes ih =>
    have hlt := hn node List.mem_cons_self
    have ⟨xs, hx, _⟩ := split_at hlt
    have hhalf : node < contents.length - 1 → xs.length ≥ spec.nodeCapacity / 2 := fun hlast =>
      r.half_full (by omega) hx
    unfold SegmentedArray.verifyCounts
    rw [r.holds.count hx, ok_bind, assert_of (r.holds.le hx), ok_bind, r.holds.nodeCount,
      assert_of hhalf, ok_bind]
    exact ih fun node hm => hn node (List.mem_cons_of_mem _ hm)

theorem mapM_nodeElements (r : Refines spec array contents) {nodes : List Nat}
    (hn : ∀ node ∈ nodes, node < contents.length) :
    nodes.mapM (array.nodeElements spec) = .ok (nodes.map fun node => contents[node]?.getD []) := by
  induction nodes with
  | nil => rfl
  | cons node nodes ih =>
    have hx := List.getElem?_eq_getElem (hn node List.mem_cons_self)
    rw [List.mapM_cons, r.holds.nodeElements hx, ok_bind,
      ih fun node hm => hn node (List.mem_cons_of_mem _ hm), ok_bind, List.map_cons, hx]
    rfl

theorem elements (r : Refines spec array contents) :
    (List.range array.nodeCount).mapM (array.nodeElements spec) = .ok contents := by
  rw [r.holds.nodeCount, r.mapM_nodeElements fun node hm => List.mem_range.mp hm]
  congr 1
  refine List.ext_getElem? fun i => ?_
  rw [List.getElem?_map]
  by_cases hi : i < contents.length
  · rw [List.getElem?_range hi, List.getElem?_eq_getElem hi]
    simp [hi]
  · rw [List.getElem?_eq_none (by simpa using hi), List.getElem?_eq_none (by omega)]
    rfl

variable [LinearOrder Key]

theorem verifySorted {keyPrior : Option Key} {values : List Value}
    (hp : ∀ k ∈ keyPrior, ∀ value ∈ values, k ≤ spec.keyFromValue value)
    (hs : values.Pairwise fun a b => spec.keyFromValue a ≤ spec.keyFromValue b) :
    SegmentedArray.verifySorted spec keyPrior values = .ok () := by
  induction values generalizing keyPrior with
  | nil => rfl
  | cons value values ih =>
    have ⟨hle, hrest⟩ := List.pairwise_cons.mp hs
    unfold SegmentedArray.verifySorted
    dsimp only
    rw [assert_of fun k hk => hp k hk value List.mem_cons_self, ok_bind]
    refine ih (fun k hk v hv => ?_) hrest
    cases hk
    exact hle v hv

theorem verify (r : Refines spec array contents) (ho : Ordered spec contents.flatten) :
    array.verify spec = .ok () := by
  unfold SegmentedArray.verify
  rw [r.holds.nodeCount, assert_of r.count, ok_bind,
    r.verifyCounts fun node hm => List.mem_range.mp hm, ok_bind, ← r.holds.nodeCount, r.elements]
  split
  case isTrue hs =>
    rw [ok_bind]
    exact verifySorted nofun (ho hs)
  case isFalse => rfl

theorem insertElements [Inhabited Value] (r : Refines spec array contents) (hs : spec.sorted = false)
    (hne : es ≠ []) (hi : i ≤ contents.flatten.length)
    (hm : contents.flatten.length + es.length ≤ spec.elementCountMax) :
    Returns spec (contents.flatten.take i ++ es ++ contents.flatten.drop i)
      (array.insertElements spec i es) := by
  have hunsorted : ∀ list, Ordered spec list := fun list h => by
    rw [hs] at h
    cases h
  obtain ⟨array', contents', h', r', hl'⟩ := r.insertElementsAtAbsoluteIndex hne hi hm
  have hlen : contents'.flatten.length = contents.flatten.length + es.length := by
    rw [hl', List.length_append, List.length_append, List.length_take_of_le hi, List.length_drop]
    omega
  unfold SegmentedArray.insertElements
  rw [assert_of (by simp [hs]), ok_bind, r.verify (hunsorted _), ok_bind, r.holds.len r.bound, ok_bind,
    h', ok_bind, r'.holds.len r'.bound, ok_bind, assert_of hlen, ok_bind, r'.verify (hunsorted _),
    ok_bind]
  exact ⟨array', contents', rfl, r', hl'⟩

theorem ordered_remove {list : List Value} (ho : Ordered spec list) :
    Ordered spec (list.take i ++ list.drop (i + n)) := fun hs => by
  have happ : (list.take i ++ list.drop (i + n)).Sublist (list.take i ++ list.drop i) := by
    rw [← List.drop_drop]
    exact (List.Sublist.refl _).append (List.drop_sublist ..)
  rw [List.take_append_drop] at happ
  exact (ho hs).sublist happ

theorem removeElements (r : Refines spec array contents) (ho : Ordered spec contents.flatten)
    (hn : 0 < n) (hi : i + n ≤ contents.flatten.length) :
    Returns spec (contents.flatten.take i ++ contents.flatten.drop (i + n))
      (array.removeElements spec i n) := by
  have hne : contents.length > 0 := List.length_pos_iff.mpr fun hnil => by
    subst hnil
    rw [List.flatten_nil, List.length_nil] at hi
    omega
  have hread : read array.indexes contents.length = .ok contents.flatten.length := by
    rw [r.holds.start (Nat.le_refl _), List.take_length]
  obtain ⟨array', contents', h', r', hl'⟩ := r.removeBatches n (Nat.le_refl _) hi
  have ho' : Ordered spec contents'.flatten := hl' ▸ ordered_remove ho
  unfold SegmentedArray.removeElements
  rw [r.verify ho, ok_bind, r.holds.nodeCount, assert_of hne, ok_bind, assert_of hn, ok_bind,
    assert_of (hi.trans r.bound), ok_bind, hread, ok_bind, assert_of hi, ok_bind, h', ok_bind,
    r'.verify ho', ok_bind]
  exact ⟨array', contents', rfl, r', hl'⟩

end Verify

end Refines

theorem read_of_lt {α : Type} {as : List α} (hi : i < as.length) :
    ∃ a, read as i = .ok a ∧ as[i]? = some a :=
  ⟨as[i], read_eq_ok.mpr (List.getElem?_eq_getElem hi), List.getElem?_eq_getElem hi⟩

namespace Refines

theorem readFirst (r : Refines spec array contents) (hi : i < contents.length) :
    ∃ xs x, contents[i]? = some xs ∧ xs[0]? = some x ∧ array.nodeElements spec i = .ok xs ∧
      read xs 0 = .ok x := by
  have hx := List.getElem?_eq_getElem hi
  have hne := r.packed.ne_nil (List.mem_of_getElem? hx)
  have ⟨x, hr, hx'⟩ := @read_of_lt 0 _ contents[i] (List.length_pos_iff.mpr hne)
  exact ⟨_, x, hx, hx', r.holds.nodeElements hx, hr⟩

theorem absoluteIndexForCursor_eq {cursor : Cursor} (r : Refines spec array contents)
    (hloc : Located contents cursor i before xs after) :
    array.absoluteIndexForCursor spec cursor = .ok i := by
  have hsplit := hloc.split
  subst hsplit
  have hcount : ¬(before ++ xs :: after).length = 0 := by simp
  unfold absoluteIndexForCursor
  rw [r.holds.nodeCount, if_neg hcount, hloc.node, assert_of (by simp), ok_bind,
    r.holds.count getElem?_split, ok_bind]
  by_cases hlast : before.length = (before ++ xs :: after).length - 1
  case pos =>
    rw [if_pos hlast, assert_of hloc.le, ok_bind, r.holds.start_split, ok_bind, hloc.index]
    rfl
  case neg =>
    have hafter : after ≠ [] := by
      rintro rfl
      simp at hlast
    rw [if_neg hlast, assert_of (hloc.lt hafter), ok_bind, r.holds.start_split, ok_bind, hloc.index]
    rfl

theorem absoluteIndexForCursor_nil (r : Refines spec array []) :
    array.absoluteIndexForCursor spec ⟨0, 0⟩ = .ok 0 := by
  have hcount : array.nodeCount = 0 := r.holds.nodeCount
  unfold absoluteIndexForCursor
  rw [hcount, if_pos rfl, assert_of rfl, ok_bind, assert_of rfl, ok_bind]
  rfl

end Refines

section Search

variable [LinearOrder Key] {key : Key} {values : List Value}

-- The index of the first element that is not smaller than a key.
def lowerBoundIndex (spec : SegmentedArraySpec Key Value) (key : Key) (list : List Value) : Nat :=
  list.findIdx fun value => key ≤ spec.keyFromValue value

theorem lowerBoundIndex_append {front back : List Value} (hf : ∀ v ∈ front, spec.keyFromValue v < key)
    (hb : ∀ v ∈ back.head?, key ≤ spec.keyFromValue v) :
    lowerBoundIndex spec key (front ++ back) = front.length := by
  unfold lowerBoundIndex
  rw [List.findIdx_append, List.findIdx_eq_length.mpr fun v hv => by simpa using hf v hv,
    if_neg (Nat.lt_irrefl _)]
  cases back with
  | nil => simp
  | cons v back =>
    have := hb v rfl
    simp [List.findIdx_cons, this]

abbrev Ascending (spec : SegmentedArraySpec Key Value) (values : List Value) : Prop :=
  values.Pairwise fun a b => spec.keyFromValue a ≤ spec.keyFromValue b

theorem Ascending.le (hs : Ascending spec values) {a b : Nat} {v w : Value} (hab : a ≤ b)
    (hv : values[a]? = some v) (hw : values[b]? = some w) :
    spec.keyFromValue v ≤ spec.keyFromValue w := by
  obtain rfl | hlt := Nat.eq_or_lt_of_le hab
  · rw [Option.some_inj.mp (hv.symm.trans hw)]
  · have ⟨ha, hv'⟩ := List.getElem?_eq_some_iff.mp hv
    have ⟨hb, hw'⟩ := List.getElem?_eq_some_iff.mp hw
    rw [← hv', ← hw']
    exact List.pairwise_iff_getElem.mp hs a b ha hb hlt

-- What a binary search keeps: the elements in front of the window are smaller, those behind it are
-- not.
structure Window (spec : SegmentedArraySpec Key Value) (values : List Value) (key : Key)
    (offset length : Nat) : Prop where
  pos : 0 < length
  le : offset + length ≤ values.length
  below : ∀ v, offset ≠ 0 → values[offset - 1]? = some v → spec.keyFromValue v < key
  above : ∀ v, values[offset + length]? = some v → key ≤ spec.keyFromValue v

variable {offset length : Nat}

theorem Window.lowerBound (w : Window spec values key offset length) :
    SegmentedArray.lowerBound spec values key offset length := by
  refine ⟨fun v hv => ?_, fun v hv => w.above v hv⟩
  split at hv
  case isTrue => cases hv
  case isFalse hne => exact w.below v hne hv

theorem Window.narrow {value : Value} (w : Window spec values key offset length)
    (hs : Ascending spec values) (hlong : 1 < length)
    (hv : values[offset + length / 2]? = some value) :
    Window spec values key (if spec.keyFromValue value < key then offset + length / 2 else offset)
      (length - length / 2) := by
  have hle := w.le
  split
  case isTrue hlt =>
    refine ⟨by omega, by omega, fun v _ hv' => ?_, fun v hv' => w.above v ?_⟩
    · exact (hs.le (by omega) hv' hv).trans_lt hlt
    · rwa [show offset + length / 2 + (length - length / 2) = offset + length by omega] at hv'
  case isFalse hge =>
    refine ⟨by omega, by omega, w.below, fun v hv' => ?_⟩
    exact (not_lt.mp hge).trans (hs.le (by omega) hv hv')

theorem binarySearchValues_eq (fuel : Nat) (hs : Ascending spec values)
    (w : Window spec values key offset length) (hf : length ≤ fuel) :
    ∃ index ≤ values.length, binarySearchValues spec values key fuel offset length = .ok index ∧
      (∀ v ∈ values.take index, spec.keyFromValue v < key) ∧
      ∀ v ∈ values[index]?, key ≤ spec.keyFromValue v := by
  induction fuel generalizing offset length with
  | zero => exact absurd (w.pos.trans_le hf) (Nat.lt_irrefl _)
  | succ fuel ih =>
    have hle := w.le
    have hpos := w.pos
    unfold binarySearchValues
    by_cases hlong : length > 1
    case pos =>
      obtain ⟨value, hr, hv⟩ := @read_of_lt (offset + length / 2) _ values (by omega)
      rw [if_pos hlong, assert_of w.lowerBound, ok_bind]
      dsimp only
      rw [hr, ok_bind]
      exact ih (w.narrow hs hlong hv) (by omega)
    case neg =>
      obtain rfl : length = 1 := by omega
      obtain ⟨value, hr, hv⟩ := @read_of_lt offset _ values (by omega)
      rw [if_neg hlong, assert_of rfl, ok_bind, assert_of w.lowerBound, ok_bind, hr, ok_bind]
      dsimp only
      have hsmaller : ∀ index ≤ values.length,
          (∀ v, index ≠ 0 → values[index - 1]? = some v → spec.keyFromValue v < key) →
          ∀ v ∈ values.take index, spec.keyFromValue v < key := fun index hi hb v hm => by
        obtain ⟨j, hj⟩ := List.mem_iff_getElem?.mp hm
        rw [List.getElem?_take] at hj
        split at hj
        case isFalse => cases hj
        case isTrue hlt =>
          have hlast := List.getElem?_eq_getElem (show index - 1 < values.length by omega)
          exact (hs.le (by omega) hj hlast).trans_lt (hb _ (by omega) hlast)
      by_cases hlt : spec.keyFromValue value < key
      case pos =>
        have hb : ∀ v, offset + 1 ≠ 0 → values[offset + 1 - 1]? = some v →
            spec.keyFromValue v < key := fun v _ hv' => by
          rw [Nat.add_sub_cancel, hv] at hv'
          exact Option.some_inj.mp hv' ▸ hlt
        have hbound : SegmentedArray.lowerBound spec values key (offset + 1) 1 := by
          refine ⟨fun v hv' => ?_, fun v hv' => ?_⟩
          · rw [if_neg (Nat.succ_ne_zero _)] at hv'
            exact hb v (Nat.succ_ne_zero _) hv'
          · have hlt' := (List.getElem?_eq_some_iff.mp hv').1
            have hnext := List.getElem?_eq_getElem (show offset + 1 < values.length by omega)
            exact (w.above _ hnext).trans (hs.le (by omega) hnext hv')
        have hfirst : ∀ v ∈ values[offset + 1]?, key ≤ spec.keyFromValue v := fun v hv' =>
          w.above v hv'
        rw [if_pos hlt, assert_of hbound, ok_bind, assert_of hfirst, ok_bind]
        exact ⟨offset + 1, hle, rfl, hsmaller _ hle hb, hfirst⟩
      case neg =>
        have hfirst : ∀ v ∈ values[offset]?, key ≤ spec.keyFromValue v := fun v hv' => by
          cases hv.symm.trans hv'
          exact not_lt.mp hlt
        rw [if_neg hlt, assert_of w.lowerBound, ok_bind, assert_of hfirst, ok_bind]
        exact ⟨offset, by omega, rfl, hsmaller _ (by omega) w.below, hfirst⟩

theorem binarySearchValuesUpsertIndex_eq (hs : Ascending spec values) :
    ∃ index ≤ values.length, binarySearchValuesUpsertIndex spec values key = .ok index ∧
      (∀ v ∈ values.take index, spec.keyFromValue v < key) ∧
      ∀ v ∈ values[index]?, key ≤ spec.keyFromValue v := by
  unfold binarySearchValuesUpsertIndex
  by_cases hnil : values = []
  case pos =>
    subst hnil
    exact ⟨0, Nat.le_refl _, if_pos rfl, by simp, by simp⟩
  case neg =>
    rw [if_neg hnil]
    refine binarySearchValues_eq _ hs ⟨List.length_pos_iff.mpr hnil, by omega, nofun, fun v hv => ?_⟩
      (Nat.le_refl _)
    rw [Nat.zero_add, List.getElem?_eq_none (Nat.le_refl _)] at hv
    cases hv

theorem first_le {j k : Nat} {ys : List Value} {x y : Value} (hs : Ascending spec contents.flatten)
    (hjk : j ≤ k) (hx : contents[j]? = some xs) (hy : contents[k]? = some ys)
    (hx' : xs[0]? = some x) (hy' : ys[0]? = some y) : spec.keyFromValue x ≤ spec.keyFromValue y := by
  obtain rfl | hlt := Nat.eq_or_lt_of_le hjk
  · cases hx.symm.trans hy
    cases hx'.symm.trans hy'
    exact le_refl _
  · have ⟨_, hpair⟩ := List.pairwise_flatten.mp hs
    have ⟨hj, hxj⟩ := List.getElem?_eq_some_iff.mp hx
    have ⟨hk, hyk⟩ := List.getElem?_eq_some_iff.mp hy
    have := List.pairwise_iff_getElem.mp hpair j k hj hk hlt
    rw [hxj, hyk] at this
    exact this x (List.mem_of_getElem? hx') y (List.mem_of_getElem? hy')

namespace Refines

theorem searchNode_eq (fuel : Nat) (r : Refines spec array contents)
    (hs : Ascending spec contents.flatten) (hpos : 0 < length) (hle : offset + length ≤ contents.length)
    (hbelow : ∀ xs x, offset ≠ 0 → contents[offset]? = some xs → xs[0]? = some x →
      spec.keyFromValue x < key)
    (habove : ∀ xs x, contents[offset + length]? = some xs → xs[0]? = some x →
      key ≤ spec.keyFromValue x) (hf : length ≤ fuel) :
    ∃ node < contents.length, array.searchNode spec key fuel offset length = .ok node ∧
      (∀ xs x, node ≠ 0 → contents[node]? = some xs → xs[0]? = some x → spec.keyFromValue x < key) ∧
      ∀ xs x, contents[node + 1]? = some xs → xs[0]? = some x → key ≤ spec.keyFromValue x := by
  induction fuel generalizing offset length with
  | zero => exact absurd (hpos.trans_le hf) (Nat.lt_irrefl _)
  | succ fuel ih =>
    unfold searchNode
    by_cases hlong : length > 1
    case pos =>
      obtain ⟨xs, x, hx, hx', hn, hr⟩ := @readFirst _ _ _ _ _ (offset + length / 2) r (by omega)
      rw [if_pos hlong]
      dsimp only
      rw [hn, ok_bind, hr, ok_bind]
      by_cases hlt : spec.keyFromValue x < key
      case pos =>
        rw [if_pos hlt]
        refine ih (by omega) (by omega) (fun ys y _ hy hy' => ?_) (fun ys y hy => habove ys y ?_)
          (by omega)
        · cases hx.symm.trans hy
          cases hx'.symm.trans hy'
          exact hlt
        · rwa [show offset + length / 2 + (length - length / 2) = offset + length by omega] at hy
      case neg =>
        rw [if_neg hlt]
        exact ih (by omega) (by omega) hbelow (fun ys y hy hy' =>
          (not_lt.mp hlt).trans (first_le hs (by omega) hx hy hx' hy')) (by omega)
    case neg =>
      obtain rfl : length = 1 := by omega
      rw [if_neg hlong]
      exact ⟨offset, by omega, rfl, hbelow, habove⟩

theorem search_eq (r : Refines spec array contents) (hsorted : spec.sorted = true)
    (hs : Ascending spec contents.flatten) :
    ∃ cursor, array.search spec key = .ok cursor ∧ array.absoluteIndexForCursor spec cursor =
      .ok (lowerBoundIndex spec key contents.flatten) := by
  unfold search
  rw [assert_of hsorted, ok_bind, r.holds.nodeCount]
  by_cases hnil : contents = []
  case pos =>
    subst hnil
    exact ⟨⟨0, 0⟩, if_pos rfl, r.absoluteIndexForCursor_nil⟩
  case neg =>
    have hpos := List.length_pos_iff.mpr hnil
    rw [if_neg (by omega)]
    obtain ⟨node, hlt, hsearch, hbelow, habove⟩ := @searchNode_eq _ _ _ _ _ _ key 0 contents.length
      contents.length r hs hpos (by omega) nofun
      (fun xs x hx => by rw [Nat.zero_add, List.getElem?_eq_none (Nat.le_refl _)] at hx; cases hx)
      (Nat.le_refl _)
    obtain ⟨xs, hx, hsplit⟩ := split_at hlt
    have hnode : (contents.take node).length = node := List.length_take_of_le hlt.le
    generalize contents.take node = before at hsplit hnode
    generalize contents.drop (node + 1) = after at hsplit
    subst hsplit hnode
    rw [hsearch, ok_bind, assert_of hlt, ok_bind, r.holds.nodeElements hx, ok_bind]
    have hs' := hs
    rw [List.flatten_append, List.flatten_cons] at hs'
    have ⟨hsb, hsa, hba⟩ := List.pairwise_append.mp hs'
    have ⟨hsx, hsr, hxr⟩ := List.pairwise_append.mp hsa
    obtain ⟨rel, hrel, hbin, hfront, hfirst⟩ := @binarySearchValuesUpsertIndex_eq _ _ spec _ key _ hsx
    rw [hbin, ok_bind, r.holds.count hx, ok_bind]
    have hxne := r.packed.ne_nil (List.mem_of_getElem? hx)
    -- The elements in front of the node are not greater than its first one.
    have hbefore : ∀ v ∈ before.flatten, spec.keyFromValue v < key := fun v hv => by
      have hne : before.length ≠ 0 := fun h0 => by
        rw [List.eq_nil_of_length_eq_zero h0] at hv
        cases hv
      obtain ⟨x, rest, rfl⟩ := List.exists_cons_of_ne_nil hxne
      exact (hba v hv x (by simp)).trans_lt (hbelow _ x hne hx rfl)
    have hflat : (before ++ xs :: after).flatten =
        (before.flatten ++ xs.take rel) ++ (xs.drop rel ++ after.flatten) := by
      rw [← List.append_assoc, List.append_assoc _ (xs.take rel), List.take_append_drop]
      simp
    have hlen : (before.flatten ++ xs.take rel).length = before.flatten.length + rel := by
      rw [List.length_append, List.length_take_of_le hrel]
    have hsmaller : ∀ v ∈ before.flatten ++ xs.take rel, spec.keyFromValue v < key := fun v hv =>
      (List.mem_append.mp hv).elim (hbefore v) (hfront v)
    by_cases hnext : before.length + 1 < (before ++ xs :: after).length ∧ rel = xs.length
    case pos =>
      obtain ⟨hmore, rfl⟩ := hnext
      cases after with
      | nil => simp at hmore
      | cons ys rest =>
        obtain ⟨y, ys', rfl⟩ := List.exists_cons_of_ne_nil
          (r.packed.ne_nil (List.mem_of_getElem? (@getElem?_split_succ _ before rest xs ys)))
        have hbound : lowerBoundIndex spec key (before ++ xs :: (y :: ys') :: rest).flatten =
            before.flatten.length + xs.length := by
          rw [hflat, lowerBoundIndex_append hsmaller, hlen]
          intro v hv
          rw [List.drop_length, List.nil_append] at hv
          cases hv
          exact habove _ y getElem?_split_succ rfl
        rw [if_pos ⟨hmore, rfl⟩, hbound]
        refine ⟨_, rfl, r.absoluteIndexForCursor_eq
          ⟨show _ = (before ++ [xs]) ++ (y :: ys') :: rest by simp, by simp, by simp, by simp,
            fun _ => by simp⟩⟩
    case neg =>
      have hbound : lowerBoundIndex spec key (before ++ xs :: after).flatten =
          before.flatten.length + rel := by
        rw [hflat, lowerBoundIndex_append hsmaller, hlen]
        intro v hv
        by_cases hin : rel < xs.length
        · rw [List.drop_eq_getElem_cons hin, List.cons_append] at hv
          cases hv
          exact hfirst _ (List.getElem?_eq_getElem hin)
        · cases after with
          | nil =>
            rw [List.drop_of_length_le (by omega)] at hv
            cases hv
          | cons => exact absurd ⟨by simp, by omega⟩ hnext
      rw [if_neg hnext, hbound]
      refine ⟨_, rfl, r.absoluteIndexForCursor_eq ⟨rfl, rfl, rfl, hrel, fun hafter => ?_⟩⟩
      have := List.length_pos_iff.mpr hafter
      by_contra hge
      exact hnext ⟨by rw [List.length_append, List.length_cons]; omega, Nat.le_antisymm hrel (not_lt.mp hge)⟩

theorem lowerBoundIndex_le {list : List Value} : lowerBoundIndex spec key list ≤ list.length :=
  List.findIdx_le_length

theorem lt_of_mem_take {list : List Value} :
    ∀ a ∈ list.take (lowerBoundIndex spec key list), spec.keyFromValue a < key := fun a ha => by
  obtain ⟨j, hj⟩ := List.mem_iff_getElem?.mp ha
  rw [List.getElem?_take] at hj
  split at hj
  case isFalse => cases hj
  case isTrue hlt =>
    have hnot := List.not_of_lt_findIdx hlt
    rw [(List.getElem?_eq_some_iff.mp hj).2] at hnot
    simpa using hnot

theorem le_of_mem_drop {list : List Value} (hs : Ascending spec list) :
    ∀ a ∈ list.drop (lowerBoundIndex spec key list), key ≤ spec.keyFromValue a := fun a ha => by
  obtain ⟨j, hj⟩ := List.mem_iff_getElem?.mp ha
  rw [List.getElem?_drop] at hj
  have hj' := (List.getElem?_eq_some_iff.mp hj).1
  have hlt : lowerBoundIndex spec key list < list.length := by omega
  have hfirst := @List.findIdx_getElem _ (fun v => decide (key ≤ spec.keyFromValue v)) list hlt
  exact (of_decide_eq_true hfirst).trans
    (hs.le (Nat.le_add_right ..) (List.getElem?_eq_getElem hlt) hj)

-- An element goes in front of the first one that is not smaller.
theorem ordered_insert {list : List Value} {value : Value} (hs : Ascending spec list) :
    Ascending spec (list.take (lowerBoundIndex spec (spec.keyFromValue value) list) ++ [value] ++
      list.drop (lowerBoundIndex spec (spec.keyFromValue value) list)) := by
  have hfront := fun a ha => (@lt_of_mem_take _ _ spec _ (spec.keyFromValue value) list a ha).le
  have hback := fun b hb => @le_of_mem_drop _ _ spec _ (spec.keyFromValue value) list hs b hb
  rw [List.append_assoc]
  refine List.pairwise_append.mpr ⟨hs.sublist (List.take_sublist ..),
    List.pairwise_cons.mpr ⟨hback, hs.sublist (List.drop_sublist ..)⟩, fun a ha b hb => ?_⟩
  obtain rfl | hb := List.mem_cons.mp hb
  · exact hfront a ha
  · exact (hfront a ha).trans (hback b hb)

theorem insertElement [Inhabited Value] {value : Value} (r : Refines spec array contents)
    (hsorted : spec.sorted = true) (hs : Ascending spec contents.flatten)
    (hm : contents.flatten.length + 1 ≤ spec.elementCountMax) :
    ∃ array' contents', array.insertElement spec value =
        .ok (lowerBoundIndex spec (spec.keyFromValue value) contents.flatten, array') ∧
      Refines spec array' contents' ∧ contents'.flatten =
        contents.flatten.take (lowerBoundIndex spec (spec.keyFromValue value) contents.flatten) ++
          [value] ++ contents.flatten.drop
            (lowerBoundIndex spec (spec.keyFromValue value) contents.flatten) := by
  obtain ⟨cursor, hsearch, hindex⟩ := @search_eq _ _ _ _ _ _ (spec.keyFromValue value) r hsorted hs
  obtain ⟨array', contents', h', r', hl'⟩ := @insertElementsAtAbsoluteIndex _ _ _ _ _
    [value] _ _ r (by simp) (@lowerBoundIndex_le _ _ spec _ (spec.keyFromValue value) _) hm
  have hlen : contents'.flatten.length = contents.flatten.length + 1 := by
    rw [hl', List.length_append, List.length_append, List.length_take_of_le lowerBoundIndex_le,
      List.length_drop, List.length_singleton]
    have := @lowerBoundIndex_le _ _ spec _ (spec.keyFromValue value) contents.flatten
    omega
  have ho' : Ordered spec contents'.flatten := fun _ => hl' ▸ ordered_insert hs
  refine ⟨array', contents', ?_, r', hl'⟩
  unfold SegmentedArray.insertElement
  rw [assert_of hsorted, ok_bind, r.verify fun _ => hs, ok_bind, r.holds.len r.bound, ok_bind, hsearch,
    ok_bind, hindex, ok_bind, h', ok_bind, r'.verify ho', ok_bind, r'.holds.len r'.bound, ok_bind,
    assert_of hlen, ok_bind]
  rfl

end Refines

end Search

end TigerBeetle.SegmentedArray
