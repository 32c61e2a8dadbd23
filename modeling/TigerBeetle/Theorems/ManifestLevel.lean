import TigerBeetle.ManifestLevel
import TigerBeetle.Theorems.SegmentedRuns

namespace TigerBeetle

open Fallible

namespace SegmentedArray

variable {Key Value : Type} [LinearOrder Key] {spec : SegmentedArraySpec Key Value}
variable {array array' : SegmentedArray Value} {list : List Value} {i n : Nat} {value : Value}

theorem Located.lt_length {contents before after : List (List Value)} {xs : List Value} {cursor : Cursor}
    (hloc : Located contents cursor i before xs after) (hi : i < contents.flatten.length) :
    cursor.relativeIndex < xs.length := by
  by_contra hge
  have hafter : after = [] := by
    by_contra hafter
    exact hge (hloc.lt hafter)
  have hindex := hloc.index
  rw [hloc.split, hafter, List.flatten_append, List.length_append] at hi
  simp only [List.flatten_cons, List.flatten_nil, List.append_nil] at hi
  omega

-- An array that holds a list, in the order of the keys.
def Stands (spec : SegmentedArraySpec Key Value) (array : SegmentedArray Value) (list : List Value) :
    Prop :=
  ∃ contents, Refines spec array contents ∧ contents.flatten = list ∧ Ordered spec list

namespace Stands

theorem new (h : SegmentedArray.new spec = .ok array) : Stands spec array [] :=
  ⟨[], new_refines h, rfl, fun _ => .nil⟩

section

variable (h : Stands spec array list)

include h

theorem len : array.len spec = .ok list.length := by
  obtain ⟨contents, r, rfl, _⟩ := h
  exact r.holds.len r.bound

theorem insertElement [Inhabited Value] (hs : spec.sorted = true)
    (hm : list.length < spec.elementCountMax) (value : Value) : ∃ array',
      array.insertElement spec value = .ok (lowerBoundIndex spec (spec.keyFromValue value) list, array') ∧
      Stands spec array' (list.take (lowerBoundIndex spec (spec.keyFromValue value) list) ++ [value] ++
        list.drop (lowerBoundIndex spec (spec.keyFromValue value) list)) := by
  obtain ⟨contents, r, rfl, ho⟩ := h
  obtain ⟨array', contents', h', r', hl'⟩ :=
    @Refines.insertElement _ _ _ _ _ _ _ value r hs (ho hs) hm
  exact ⟨array', h', contents', r', hl', fun _ => Refines.ordered_insert (ho hs)⟩

theorem removeElements (hr : array.removeElements spec i n = .ok array') :
    i + n ≤ list.length ∧ Stands spec array' (list.take i ++ list.drop (i + n)) := by
  obtain ⟨contents, r, rfl, ho⟩ := h
  have hread : read array.indexes array.nodeCount = .ok contents.flatten.length := by
    rw [r.holds.nodeCount, r.holds.start (Nat.le_refl _), List.take_length]
  have hchecked : 0 < n ∧ i + n ≤ contents.flatten.length := by
    unfold SegmentedArray.removeElements at hr
    rw [r.verify ho, ok_bind] at hr
    obtain ⟨_, hr⟩ := assert_ok hr
    obtain ⟨hn, hr⟩ := assert_ok hr
    obtain ⟨_, hr⟩ := assert_ok hr
    rw [hread, ok_bind] at hr
    exact ⟨hn, (assert_ok hr).1⟩
  obtain ⟨array'', contents', h', r', hl'⟩ := r.removeElements ho hchecked.1 hchecked.2
  cases hr.symm.trans h'
  exact ⟨hchecked.2, contents', r', hl', Refines.ordered_remove ho⟩

theorem elementAtCursor {cursor : Cursor} (hv : list[i]? = some value)
    (hc : array.absoluteIndexForCursor spec cursor = .ok i) :
    array.elementAtCursor spec cursor = .ok value := by
  obtain ⟨contents, r, rfl, ho⟩ := h
  have hne : contents ≠ [] := by
    rintro rfl
    simp at hv
  obtain ⟨before, xs, after, hloc⟩ := r.located hne hc
  have hlt := hloc.lt_length (List.getElem?_eq_some_iff.mp hv).1
  have hx : contents[cursor.node]? = some xs := by
    rw [hloc.split, hloc.node]
    exact getElem?_split
  unfold SegmentedArray.elementAtCursor
  rw [r.holds.nodeElements hx, ok_bind]
  exact read_eq_ok.mpr ((hloc.element hlt).symm.trans hv)

theorem search (hs : spec.sorted = true) (key : Key) :
    ∃ cursor, array.search spec key = .ok cursor ∧
      array.absoluteIndexForCursor spec cursor = .ok (lowerBoundIndex spec key list) := by
  obtain ⟨contents, r, rfl, ho⟩ := h
  exact r.search_eq hs (ho hs)

theorem elementMut {update : Value → Value} (hv : list[i]? = some value)
    (hk : spec.keyFromValue (update value) = spec.keyFromValue value)
    (hu : array.elementMut spec i update = .ok array') :
    Stands spec array' (list.set i (update value)) := by
  obtain ⟨contents, r, rfl, ho⟩ := h
  have hi := (List.getElem?_eq_some_iff.mp hv).1
  obtain ⟨cursor, before, xs, after, hcur, hloc⟩ := r.cursorForAbsoluteIndex hi
  have hlt := hloc.lt_length hi
  have helement := (hloc.element hlt).symm.trans hv
  have hindex := hloc.index
  have hsplit := hloc.split
  subst hsplit
  have ⟨buffer, hb, hst⟩ := r.holds.stores getElem?_split
  have hread : read buffer cursor.relativeIndex = .ok value :=
    read_eq_ok.mpr ((hst.get _ hlt).trans helement)
  have hst' : Stores spec.nodeCapacity (buffer.set cursor.relativeIndex (update value))
      (xs.set cursor.relativeIndex (update value)) := by
    refine ⟨by rw [List.length_set]; exact hst.length, by rw [List.length_set]; exact hst.le,
      fun j hj => ?_⟩
    rw [List.length_set] at hj
    have hlen := hst.length
    have hle := hst.le
    rw [List.getElem?_set, List.getElem?_set, hst.get j hj]
    grind
  unfold SegmentedArray.elementMut at hu
  rw [r.holds.nodeCount] at hu
  obtain ⟨_, hu⟩ := assert_ok hu
  rw [r.holds.len r.bound, ok_bind] at hu
  obtain ⟨_, hu⟩ := assert_ok hu
  rw [hcur, ok_bind, hloc.node, hb, ok_bind, hread, ok_bind] at hu
  cases hu
  have hp := packed_append.mp r.packed
  have hflat : (before ++ xs.set cursor.relativeIndex (update value) :: after).flatten =
      (before ++ xs :: after).flatten.set i (update value) := by
    rw [hindex]
    simp [hlt]
  refine ⟨before ++ xs.set cursor.relativeIndex (update value) :: after,
    ⟨⟨?_, ?_⟩, packed_append.mpr ⟨hp.1, ?_, ?_, hp.2.2.2⟩, ?_, ?_, r.max, r.element⟩, hflat, ?_⟩
  · have hset := @forall₂_set _ _ _ _ _ _ _ before.length r.holds.nodes hst'
    simpa using hset
  · simpa using r.holds.indexes
  · simpa using hp.2.1
  · simpa using hp.2.2.1
  · simpa using r.count
  · rw [hflat, List.length_set]
    exact r.bound
  · intro hs
    have hmap : ((before ++ xs :: after).flatten.set i (update value)).map spec.keyFromValue =
        (before ++ xs :: after).flatten.map spec.keyFromValue := by
      rw [List.map_set, hk]
      refine List.ext_getElem? fun j => ?_
      rw [List.getElem?_set]
      split
      case isTrue heq =>
        subst heq
        rw [if_pos (by rw [List.length_map]; exact hi), List.getElem?_map, hv]
        rfl
      case isFalse => rfl
    have hle := List.pairwise_map.mpr (ho hs)
    rw [← hmap] at hle
    exact List.pairwise_map.mp hle

end

end Stands

end SegmentedArray

end TigerBeetle
