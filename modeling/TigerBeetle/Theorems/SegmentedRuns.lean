import TigerBeetle.Theorems.SegmentedList

namespace TigerBeetle.SegmentedArray

open Fallible

variable {Key Value : Type} {spec : SegmentedArraySpec Key Value} {array : SegmentedArray Value}
variable {contents before after : List (List Value)} {xs list : List Value} {i : Nat}
variable {iterator : Iterator} {direction : Direction} {cursor : Cursor}

-- What an iteration from an index yields.
def yielded (list : List Value) (i : Nat) : Direction → List Value
  | .ascending  => list.drop i
  | .descending => (list.take (i + 1)).reverse

-- An iterator that is to yield the element of an index next.
def At (contents : List (List Value)) (iterator : Iterator) (i : Nat) : Prop :=
  iterator.done = false ∧ ∃ before xs after, Located contents iterator.cursor i before xs after ∧
    iterator.cursor.relativeIndex < xs.length

-- An iterator yields what is to be yielded from an index.
def Yielding (spec : SegmentedArraySpec Key Value) (array : SegmentedArray Value) (list : List Value)
    (i : Nat) (direction : Direction) (result : Result Iterator) : Prop :=
  ∃ iterator, result = .ok iterator ∧
    ∀ fuel ≥ list.length, iterator.collect spec array fuel = .ok (yielded list i direction)

theorem Located.element (hloc : Located contents cursor i before xs after)
    (hlt : cursor.relativeIndex < xs.length) :
    contents.flatten[i]? = xs[cursor.relativeIndex]? := by
  rw [hloc.split, hloc.index, List.flatten_append, List.flatten_cons,
    List.getElem?_append_right (Nat.le_add_right ..), Nat.add_sub_cancel_left,
    List.getElem?_append_left hlt]

namespace Refines

theorem next_ascending (r : Refines spec array contents) (h : At contents iterator i)
    (hd : iterator.direction = .ascending) : ∃ value iterator',
      iterator.next spec array = .ok (some (value, iterator')) ∧ contents.flatten[i]? = some value ∧
      iterator'.direction = .ascending ∧
      if i + 1 = contents.flatten.length then iterator'.done = true else At contents iterator' (i + 1) := by
  obtain ⟨hgo, before, xs, after, hloc, hlt⟩ := h
  have hsplit := hloc.split
  have hnode := hloc.node
  have hindex := hloc.index
  have ⟨value, hr, hv⟩ := read_of_lt hlt
  have hvalue := (hloc.element hlt).trans hv
  subst hsplit
  have hlen : (before ++ xs :: after).flatten.length =
      before.flatten.length + xs.length + after.flatten.length := by
    simp [List.length_flatten, Nat.add_assoc]
  unfold Iterator.next
  dsimp only
  rw [if_neg (by simp [hgo]), r.holds.nodeCount, hnode, assert_of (by simp), ok_bind,
    r.holds.nodeElements getElem?_split, ok_bind, hr, ok_bind, hd]
  dsimp only
  by_cases hend : iterator.cursor.relativeIndex = xs.length - 1
  case pos =>
    rw [if_pos hend]
    cases after with
    | nil =>
      rw [List.flatten_nil, List.length_nil] at hlen
      rw [if_pos (by simp)]
      refine ⟨value, _, rfl, hvalue, rfl, ?_⟩
      rw [if_pos (by omega)]
    | cons ys rest =>
      have hys := List.length_pos_iff.mpr
        (r.packed.ne_nil (List.mem_of_getElem? (@getElem?_split_succ _ before rest xs ys)))
      rw [List.flatten_cons, List.length_append] at hlen
      rw [if_neg (by simp)]
      refine ⟨value, _, rfl, hvalue, rfl, ?_⟩
      rw [if_neg (by omega)]
      refine ⟨hgo, before ++ [xs], ys, rest, ⟨by simp, by simp, ?_, Nat.zero_le _, fun _ => hys⟩, hys⟩
      rw [List.flatten_append, List.length_append]
      simp only [List.flatten_cons, List.flatten_nil, List.append_nil]
      omega
  case neg =>
    have hmore : i + 1 ≠ (before ++ xs :: after).flatten.length := by omega
    rw [if_neg hend]
    refine ⟨value, _, rfl, hvalue, rfl, ?_⟩
    rw [if_neg hmore]
    refine ⟨hgo, before, xs, after, ⟨rfl, rfl, ?_, ?_, fun _ => ?_⟩, ?_⟩
    all_goals
      dsimp only
      omega

theorem next_descending (r : Refines spec array contents) (h : At contents iterator i)
    (hd : iterator.direction = .descending) : ∃ value iterator',
      iterator.next spec array = .ok (some (value, iterator')) ∧ contents.flatten[i]? = some value ∧
      iterator'.direction = .descending ∧
      if i = 0 then iterator'.done = true else At contents iterator' (i - 1) := by
  obtain ⟨hgo, before, xs, after, hloc, hlt⟩ := h
  have hsplit := hloc.split
  have hnode := hloc.node
  have hindex := hloc.index
  have ⟨value, hr, hv⟩ := read_of_lt hlt
  have hvalue := (hloc.element hlt).trans hv
  subst hsplit
  unfold Iterator.next
  dsimp only
  rw [if_neg (by simp [hgo]), r.holds.nodeCount, hnode, assert_of (by simp), ok_bind,
    r.holds.nodeElements getElem?_split, ok_bind, hr, ok_bind, hd]
  dsimp only
  by_cases hstart : iterator.cursor.relativeIndex = 0
  case pos =>
    rw [if_pos hstart]
    cases hrev : before.reverse with
    | nil =>
      obtain rfl := List.reverse_eq_nil_iff.mp hrev
      rw [List.flatten_nil, List.length_nil] at hindex
      rw [if_pos List.length_nil]
      refine ⟨value, _, rfl, hvalue, rfl, ?_⟩
      rw [if_pos (by omega)]
    | cons zs rest =>
      obtain rfl : before = rest.reverse ++ [zs] := by simpa using congrArg List.reverse hrev
      have hlast : (rest.reverse ++ [zs] ++ xs :: after)[rest.length]? = some zs := by
        simp
      have hzs := List.length_pos_iff.mpr (r.packed.ne_nil (List.mem_of_getElem? hlast))
      have hprev : (rest.reverse ++ [zs]).length - 1 = rest.length := by simp
      rw [List.flatten_append, List.length_append] at hindex
      simp only [List.flatten_cons, List.flatten_nil, List.append_nil] at hindex
      rw [if_neg (by simp), hprev, r.holds.count hlast, ok_bind, assert_of (by omega), ok_bind]
      refine ⟨value, _, rfl, hvalue, rfl, ?_⟩
      rw [if_neg (by omega)]
      refine ⟨hgo, rest.reverse, zs, xs :: after, ⟨by simp, by simp, ?_, ?_, fun _ => ?_⟩, ?_⟩
      all_goals
        dsimp only
        omega
  case neg =>
    rw [if_neg hstart]
    refine ⟨value, _, rfl, hvalue, rfl, ?_⟩
    rw [if_neg (by omega)]
    refine ⟨hgo, before, xs, after, ⟨rfl, rfl, ?_, ?_, fun _ => ?_⟩, ?_⟩
    all_goals
      dsimp only
      omega

theorem collect_done (fuel : Nat) (h : iterator.done = true) :
    iterator.collect spec array fuel = .ok [] := by
  cases fuel with
  | zero => rfl
  | succ fuel =>
    unfold Iterator.collect Iterator.next
    rw [if_pos h]
    rfl

theorem lt_of_at (h : At contents iterator i) : i < contents.flatten.length := by
  obtain ⟨_, before, xs, after, hloc, hlt⟩ := h
  have hx := (hloc.element hlt).trans (List.getElem?_eq_getElem hlt)
  exact (List.getElem?_eq_some_iff.mp hx).1

theorem collect_ascending (fuel : Nat) (r : Refines spec array contents) (h : At contents iterator i)
    (hd : iterator.direction = .ascending) (hf : contents.flatten.length - i ≤ fuel) :
    iterator.collect spec array fuel = .ok (contents.flatten.drop i) := by
  have hi := lt_of_at h
  induction fuel generalizing iterator i with
  | zero => omega
  | succ fuel ih =>
    obtain ⟨value, iterator', hn, hv, hd', hnext⟩ := r.next_ascending h hd
    obtain ⟨_, hv'⟩ := List.getElem?_eq_some_iff.mp hv
    unfold Iterator.collect
    rw [hn, ok_bind, List.drop_eq_getElem_cons hi, hv']
    dsimp only
    split at hnext
    case isTrue hlast =>
      rw [collect_done fuel hnext, ok_bind, List.drop_of_length_le (by omega)]
      rfl
    case isFalse hmore =>
      rw [ih hnext hd' (by omega) (lt_of_at hnext), ok_bind]
      rfl

theorem collect_descending (fuel : Nat) (r : Refines spec array contents) (h : At contents iterator i)
    (hd : iterator.direction = .descending) (hf : i < fuel) :
    iterator.collect spec array fuel = .ok (contents.flatten.take (i + 1)).reverse := by
  have hi := lt_of_at h
  induction fuel generalizing iterator i with
  | zero => omega
  | succ fuel ih =>
    obtain ⟨value, iterator', hn, hv, hd', hnext⟩ := r.next_descending h hd
    unfold Iterator.collect
    rw [hn, ok_bind, List.take_add_one, hv, Option.toList_some, List.reverse_append]
    dsimp only
    split at hnext
    case isTrue hfirst =>
      subst hfirst
      rw [collect_done fuel hnext, ok_bind]
      rfl
    case isFalse hmore =>
      obtain ⟨j, rfl⟩ : ∃ j, i = j + 1 := Nat.exists_eq_succ_of_ne_zero hmore
      rw [Nat.add_sub_cancel] at hnext
      rw [ih hnext hd' (by omega) (lt_of_at hnext), ok_bind]
      rfl

theorem collect_eq (fuel : Nat) (r : Refines spec array contents) (h : At contents iterator i)
    (hf : contents.flatten.length ≤ fuel) :
    iterator.collect spec array fuel = .ok (yielded contents.flatten i iterator.direction) := by
  have hi := lt_of_at h
  cases hd : iterator.direction with
  | ascending  => exact r.collect_ascending fuel h hd (by omega)
  | descending => exact r.collect_descending fuel h hd (by omega)

theorem yielded_end (h : contents.flatten.length ≤ i) :
    yielded contents.flatten i .ascending = [] :=
  List.drop_of_length_le h

theorem located (r : Refines spec array contents) (hne : contents ≠ [])
    (h : array.absoluteIndexForCursor spec cursor = .ok i) :
    ∃ before xs after, Located contents cursor i before xs after := by
  have hpos := List.length_pos_iff.mpr hne
  unfold absoluteIndexForCursor at h
  rw [r.holds.nodeCount, if_neg (by omega)] at h
  obtain ⟨hlt, h⟩ := assert_ok h
  obtain ⟨xs, hx, hsplit⟩ := split_at hlt
  have hnode : (contents.take cursor.node).length = cursor.node := List.length_take_of_le hlt.le
  rw [r.holds.count hx, ok_bind] at h
  have hindex : ∀ k, (do return (← read array.indexes cursor.node) + cursor.relativeIndex : Result Nat) =
      .ok k → k = (contents.take cursor.node).flatten.length + cursor.relativeIndex := fun k hk => by
    rw [r.holds.start hlt.le, ok_bind] at hk
    exact (Except.ok.inj hk).symm
  refine ⟨contents.take cursor.node, xs, contents.drop (cursor.node + 1), ?_⟩
  by_cases hlast : cursor.node = contents.length - 1
  case pos =>
    rw [if_pos hlast] at h
    obtain ⟨hle, h⟩ := assert_ok h
    exact ⟨hsplit, hnode.symm, hindex i h, hle, fun hafter =>
      absurd (List.drop_of_length_le (by omega)) hafter⟩
  case neg =>
    rw [if_neg hlast] at h
    obtain ⟨hlt', h⟩ := assert_ok h
    exact ⟨hsplit, hnode.symm, hindex i h, hlt'.le, fun _ => hlt'⟩

theorem iteratorFromCursor_eq (r : Refines spec array contents)
    (h : array.absoluteIndexForCursor spec cursor = .ok i) :
    Yielding spec array contents.flatten i direction
      (array.iteratorFromCursor spec cursor direction) := by
  unfold iteratorFromCursor
  rw [r.holds.nodeCount]
  by_cases hnil : contents = []
  case pos =>
    subst hnil
    have hcount : array.nodeCount = 0 := r.holds.nodeCount
    unfold absoluteIndexForCursor at h
    rw [hcount, if_pos rfl] at h
    obtain ⟨hnode, h⟩ := assert_ok h
    obtain ⟨hrel, h⟩ := assert_ok h
    rw [if_pos List.length_nil, assert_of hnode, ok_bind, assert_of hrel, ok_bind]
    refine ⟨_, rfl, fun fuel _ => ?_⟩
    rw [collect_done fuel rfl]
    cases direction <;> simp [yielded]
  case neg =>
    have hpos := List.length_pos_iff.mpr hnil
    obtain ⟨before, xs, after, hloc⟩ := r.located hnil h
    have hx : contents[cursor.node]? = some xs := by
      rw [hloc.split, hloc.node]
      exact getElem?_split
    have hlen : contents.flatten.length =
        before.flatten.length + xs.length + after.flatten.length := by
      rw [hloc.split]
      simp [List.length_flatten, Nat.add_assoc]
    have hcount : contents.length = before.length + 1 + after.length := by
      rw [hloc.split]
      simp
      omega
    have hnode := hloc.node
    have hindex := hloc.index
    have hle := hloc.le
    have hxpos := List.length_pos_iff.mpr (r.packed.ne_nil (List.mem_of_getElem? hx))
    rw [if_neg (by omega), r.holds.count hx]
    by_cases hend : cursor.node = contents.length - 1 ∧ cursor.relativeIndex = xs.length
    case pos =>
      obtain ⟨hlast, hrel⟩ := hend
      obtain rfl : after = [] := List.eq_nil_of_length_eq_zero (by omega)
      rw [List.flatten_nil, List.length_nil] at hlen
      rw [if_pos hlast, ok_bind, hrel, decide_eq_true rfl]
      cases direction with
      | ascending =>
        refine ⟨_, rfl, fun fuel _ => ?_⟩
        rw [collect_done fuel rfl, yielded_end (by omega)]
      | descending =>
        have hat : At contents
            { direction := .descending, cursor := ⟨cursor.node, xs.length - 1⟩, done := false }
            (i - 1) := by
          refine ⟨rfl, before, xs, [], ⟨hloc.split, hnode, ?_, ?_, fun h => absurd rfl h⟩, ?_⟩
          all_goals
            dsimp only
            omega
        have hall : yielded contents.flatten i .descending =
            yielded contents.flatten (i - 1) .descending := by
          unfold yielded
          rw [List.take_of_length_le (by omega), List.take_of_length_le (by omega)]
        refine ⟨_, ?_, fun fuel hf => hall ▸ r.collect_eq fuel hat hf⟩
        show (do assert (xs.length ≠ 0) "attempt to subtract with overflow"; _ : Result Iterator) = _
        rw [assert_of (by omega), ok_bind]
        rfl
    case neg =>
      have hlt : cursor.relativeIndex < xs.length := by
        by_contra hge
        refine hend ⟨?_, by omega⟩
        have : after = [] := by
          by_contra hafter
          exact hge (hloc.lt hafter)
        subst this
        rw [List.length_nil] at hcount
        omega
      have hat : At contents { direction, cursor, done := false } i :=
        ⟨rfl, before, xs, after, hloc, hlt⟩
      have hgo : ∀ message message' : String, (do
          assert (cursor.node < contents.length) message
          assert (cursor.relativeIndex < xs.length) message'
          return { direction, cursor, done := false } : Result Iterator) =
            .ok { direction, cursor, done := false } := fun message message' => by
        rw [assert_of (by omega), ok_bind, assert_of hlt, ok_bind]
        rfl
      refine ⟨_, ?_, fun fuel hf => r.collect_eq fuel hat hf⟩
      by_cases hlast : cursor.node = contents.length - 1
      case pos =>
        rw [if_pos hlast, ok_bind, decide_eq_false fun heq => hend ⟨hlast, heq⟩]
        exact hgo _ _
      case neg =>
        rw [if_neg hlast]
        exact hgo _ _

theorem iteratorFromIndex_eq (r : Refines spec array contents) (hi : i < contents.flatten.length) :
    Yielding spec array contents.flatten i direction (array.iteratorFromIndex spec i direction) := by
  have hne : contents ≠ [] := by
    rintro rfl
    simp at hi
  have hpos := List.length_pos_iff.mpr hne
  obtain ⟨cursor, before, xs, after, hcur, hloc⟩ := r.holds.cursorForAbsoluteIndex hne r.nonempty r.bound
    hi.le (hi.trans_le r.bound)
  have hlt : cursor.relativeIndex < xs.length := by
    by_contra hge
    have hafter : after = [] := by
      by_contra hafter
      exact hge (hloc.lt hafter)
    have hindex := hloc.index
    rw [hloc.split, hafter] at hi
    rw [List.flatten_append, List.length_append] at hi
    simp only [List.flatten_cons, List.flatten_nil, List.append_nil] at hi
    omega
  unfold iteratorFromIndex
  rw [assert_of (hi.trans_le r.bound), ok_bind, r.holds.nodeCount, if_neg (by omega),
    r.holds.len r.bound, ok_bind, assert_of hi, ok_bind, hcur, ok_bind]
  refine ⟨_, rfl, fun fuel hf => r.collect_eq fuel ⟨rfl, before, xs, after, hloc, hlt⟩ hf⟩

end Refines

theorem new_refines (h : new spec = .ok array) : Refines spec array [] := by
  unfold new at h
  obtain ⟨hm, h⟩ := assert_ok h
  obtain ⟨max, hmax, heq⟩ := bind_eq_ok.mp h
  obtain rfl := Except.ok.inj heq
  refine ⟨⟨.nil, fun i hi => ?_⟩, trivial, Nat.zero_le _, Nat.zero_le _, hmax, hm⟩
  obtain rfl := Nat.le_zero.mp hi
  simp

section Runs

variable [LinearOrder Key] [Inhabited Value]

-- The arrays that a sequence of operations leads to, beside the lists that the same insertions and
-- removals lead to.
inductive Reaches (spec : SegmentedArraySpec Key Value) : SegmentedArray Value → List Value → Prop
  | new {array : SegmentedArray Value} : new spec = .ok array → Reaches spec array []
  | insertElement {array array' : SegmentedArray Value} {list : List Value} {element : Value} {index : Nat} :
    Reaches spec array list → spec.sorted = true → list.length + 1 ≤ spec.elementCountMax →
    array.insertElement spec element = .ok (index, array') →
    Reaches spec array' (list.take index ++ [element] ++ list.drop index)
  | insertElements {array array' : SegmentedArray Value} {list elements : List Value} {absoluteIndex : Nat} :
    Reaches spec array list → spec.sorted = false → elements ≠ [] → absoluteIndex ≤ list.length →
    list.length + elements.length ≤ spec.elementCountMax →
    array.insertElements spec absoluteIndex elements = .ok array' →
    Reaches spec array' (list.take absoluteIndex ++ elements ++ list.drop absoluteIndex)
  | removeElements {array array' : SegmentedArray Value} {list : List Value}
      {absoluteIndex removeCount : Nat} :
    Reaches spec array list → 0 < removeCount → absoluteIndex + removeCount ≤ list.length →
    array.removeElements spec absoluteIndex removeCount = .ok array' →
    Reaches spec array' (list.take absoluteIndex ++ list.drop (absoluteIndex + removeCount))

theorem Reaches.refines (h : Reaches spec array list) :
    ∃ contents, Refines spec array contents ∧ contents.flatten = list ∧ Ordered spec list := by
  induction h with
  | new hnew => exact ⟨[], new_refines hnew, rfl, fun _ => .nil⟩
  | @insertElement array array' list element index _ hsorted hm hop ih =>
    obtain ⟨contents, r, rfl, ho⟩ := ih
    obtain ⟨array'', contents', h', r', hl'⟩ :=
      @Refines.insertElement _ _ _ _ _ _ _ element r hsorted (ho hsorted) hm
    cases hop.symm.trans h'
    exact ⟨contents', r', hl', fun _ => Refines.ordered_insert (ho hsorted)⟩
  | insertElements _ hsorted hne hi hm hop ih =>
    obtain ⟨contents, r, rfl, ho⟩ := ih
    obtain ⟨array'', contents', h', r', hl'⟩ := r.insertElements hsorted hne hi hm
    cases hop.symm.trans h'
    exact ⟨contents', r', hl', fun hs => by rw [hsorted] at hs; cases hs⟩
  | @removeElements array array' list i n _ hn hi hop ih =>
    obtain ⟨contents, r, rfl, ho⟩ := ih
    obtain ⟨array'', contents', h', r', hl'⟩ := r.removeElements ho hn hi
    cases hop.symm.trans h'
    exact ⟨contents', r', hl', Refines.ordered_remove ho⟩

-- An array stands for a list.
structure Represents (spec : SegmentedArraySpec Key Value) (array : SegmentedArray Value)
    (list : List Value) : Prop where
  iterates : ∀ cursor i direction, array.absoluteIndexForCursor spec cursor = .ok i →
    Yielding spec array list i direction (array.iteratorFromCursor spec cursor direction)
  iteratesFrom : ∀ i direction, i < list.length →
    Yielding spec array list i direction (array.iteratorFromIndex spec i direction)
  cursors : ∀ i < list.length, ∃ cursor, array.cursorForAbsoluteIndex spec i = .ok cursor ∧
    array.absoluteIndexForCursor spec cursor = .ok i
  nodes : ∃ contents : List (List Value),
    (List.range array.nodeCount).mapM (array.nodeElements spec) = .ok contents ∧
    contents.flatten = list ∧
    (∀ node ≤ array.nodeCount, array.indexes[node]? = some (contents.take node).flatten.length) ∧
    ∀ node xs, node + 1 < array.nodeCount → contents[node]? = some xs →
      spec.nodeCapacity / 2 ≤ xs.length
  bounded : array.nodeCount ≤ array.nodeCountMax
  insertElement : spec.sorted = true → list.length + 1 ≤ spec.elementCountMax → ∀ element, ∃ array',
    array.insertElement spec element =
      .ok (lowerBoundIndex spec (spec.keyFromValue element) list, array')
  insertElements : spec.sorted = false → ∀ absoluteIndex elements, elements ≠ [] →
    absoluteIndex ≤ list.length → list.length + elements.length ≤ spec.elementCountMax →
    ∃ array', array.insertElements spec absoluteIndex elements = .ok array'
  removeElements : ∀ absoluteIndex removeCount, 0 < removeCount →
    absoluteIndex + removeCount ≤ list.length →
    ∃ array', array.removeElements spec absoluteIndex removeCount = .ok array'

theorem represents_of_reaches (h : Reaches spec array list) : Represents spec array list := by
  obtain ⟨contents, r, rfl, ho⟩ := h.refines
  exact {
    iterates := fun _ _ _ hc => r.iteratorFromCursor_eq hc
    iteratesFrom := fun _ _ hi => r.iteratorFromIndex_eq hi
    cursors := fun i hi => by
      obtain ⟨cursor, before, xs, after, hcur, hloc⟩ := r.cursorForAbsoluteIndex hi
      exact ⟨cursor, hcur, r.absoluteIndexForCursor_eq hloc⟩
    nodes := by
      refine ⟨contents, r.elements, rfl, fun node hn => ?_, fun node xs hn hx => ?_⟩
      · rw [r.holds.nodeCount] at hn
        exact read_eq_ok.mp (r.holds.start hn)
      · rw [r.holds.nodeCount] at hn
        exact r.half_full hn hx
    bounded := r.holds.nodeCount ▸ r.count
    insertElement := fun hs hm element => by
      obtain ⟨array', _, h', _⟩ := @Refines.insertElement _ _ _ _ _ _ _ element r hs (ho hs) hm
      exact ⟨array', h'⟩
    insertElements := fun hs i es hne hi hm => by
      obtain ⟨array', _, h', _⟩ := r.insertElements hs hne hi hm
      exact ⟨array', h'⟩
    removeElements := fun i n hn hi => by
      obtain ⟨array', _, h', _⟩ := r.removeElements ho hn hi
      exact ⟨array', h'⟩ }

end Runs

-- Two nodes of two elements each, the third of which is removed again.
theorem represents_of_reaches_removed : ∃ array : SegmentedArray Nat,
    Represents { sorted := false, elementCountMax := 8, nodeCapacity := 2, keyFromValue := id } array
      [5, 6, 8] :=
  ⟨_, represents_of_reaches (@Reaches.removeElements _ _ _ _ _ _ _ _ 2 1
    (@Reaches.insertElements _ _ _ _ _ _ _ _ [5, 6, 7, 8] 0 (.new rfl) rfl (by decide) (by decide)
      (by decide) rfl) (by decide) (by decide) rfl)⟩

end TigerBeetle.SegmentedArray
