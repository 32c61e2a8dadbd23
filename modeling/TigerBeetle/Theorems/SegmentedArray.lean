import TigerBeetle.Theorems.SegmentedNodes

namespace TigerBeetle.SegmentedArray

open Fallible

variable {Key Value : Type} {spec : SegmentedArraySpec Key Value} {array : SegmentedArray Value}
variable {contents before after : List (List Value)} {xs ys es : List Value} {i rel : Nat}

-- What the nodes of an array contain.
structure Holds (spec : SegmentedArraySpec Key Value) (array : SegmentedArray Value)
    (contents : List (List Value)) : Prop where
  nodes : List.Forall₂ (Stores spec.nodeCapacity) array.nodes contents
  indexes : Prefixes array.indexes (contents.map List.length)

theorem forall₂_set {α β : Type} {R : α → β → Prop} {as : List α} {bs : List β} {a : α} {b : β}
    {n : Nat} (h : List.Forall₂ R as bs) (hr : R a b) : List.Forall₂ R (as.set n a) (bs.set n b) := by
  induction h generalizing n with
  | nil => exact .nil
  | cons hab hrest ih =>
    cases n with
    | zero   => exact .cons hr hrest
    | succ n => exact .cons hab ih

theorem forall₂_insertIdx {α β : Type} {R : α → β → Prop} {as : List α} {bs : List β} {a : α} {b : β}
    {n : Nat} (h : List.Forall₂ R as bs) (hr : R a b) :
    List.Forall₂ R (as.insertIdx n a) (bs.insertIdx n b) := by
  induction h generalizing n with
  | nil =>
    cases n with
    | zero   => exact .cons hr .nil
    | succ n => exact .nil
  | cons hab hrest ih =>
    cases n with
    | zero   => exact .cons hr (.cons hab hrest)
    | succ n => exact .cons hab ih

theorem forall₂_eraseIdx {α β : Type} {R : α → β → Prop} {as : List α} {bs : List β} {n : Nat}
    (h : List.Forall₂ R as bs) : List.Forall₂ R (as.eraseIdx n) (bs.eraseIdx n) := by
  induction h generalizing n with
  | nil => exact .nil
  | cons hab hrest ih =>
    cases n with
    | zero   => exact hrest
    | succ n => exact .cons hab ih

theorem forall₂_getElem? {α β : Type} {R : α → β → Prop} {as : List α} {bs : List β} {b : β} {n : Nat}
    (h : List.Forall₂ R as bs) (hb : bs[n]? = some b) : ∃ a, as[n]? = some a ∧ R a b := by
  induction h generalizing n with
  | nil => simp at hb
  | cons hab hrest ih =>
    cases n with
    | zero   => exact ⟨_, rfl, by simpa using (by simpa using hb : _ = b) ▸ hab⟩
    | succ n => simpa using ih (by simpa using hb)

theorem getElem?_split : (before ++ xs :: after)[before.length]? = some xs := by
  simp

theorem getElem?_split_succ : (before ++ xs :: ys :: after)[before.length + 1]? = some ys := by
  simp

namespace Holds

theorem nodeCount (h : Holds spec array contents) : array.nodeCount = contents.length :=
  h.nodes.length_eq

theorem start (h : Holds spec array contents) (hi : i ≤ contents.length) :
    read array.indexes i = .ok (contents.take i).flatten.length := by
  rw [h.indexes.read (by simpa using hi), List.length_flatten, List.map_take]

theorem start_split (h : Holds spec array (before ++ after)) :
    read array.indexes before.length = .ok before.flatten.length := by
  rw [h.start (by simp), List.take_left]

section

variable (h : Holds spec array contents)

include h

theorem stores (hx : contents[i]? = some xs) :
    ∃ buffer, read array.nodes i = .ok buffer ∧ Stores spec.nodeCapacity buffer xs := by
  have ⟨buffer, hb, hs⟩ := forall₂_getElem? h.nodes hx
  refine ⟨buffer, ?_, hs⟩
  rw [read, hb]
  rfl

theorem le (hx : contents[i]? = some xs) : xs.length ≤ spec.nodeCapacity :=
  have ⟨_, _, hs⟩ := h.stores hx
  hs.le

theorem count (hx : contents[i]? = some xs) : array.count spec i = .ok xs.length := by
  have hlt : i < contents.length := (List.getElem?_eq_some_iff.mp hx).1
  have hsum : (contents.take (i + 1)).flatten.length = (contents.take i).flatten.length + xs.length := by
    rw [List.take_add_one, hx]
    simp
  unfold SegmentedArray.count
  rw [h.start (by omega), ok_bind, h.start (by omega), ok_bind, hsum, assert_of (Nat.le_add_right ..),
    ok_bind, Nat.add_sub_cancel_left, assert_of (h.le hx), ok_bind]
  rfl

theorem nodeElements (hx : contents[i]? = some xs) : array.nodeElements spec i = .ok xs := by
  have ⟨buffer, hb, hs⟩ := h.stores hx
  unfold SegmentedArray.nodeElements
  rw [hb, ok_bind, h.count hx, ok_bind, hs.take]
  rfl

theorem len (hl : contents.flatten.length ≤ spec.elementCountMax) :
    array.len spec = .ok contents.flatten.length := by
  unfold SegmentedArray.len
  rw [h.nodeCount, h.start (Nat.le_refl _), List.take_length, ok_bind, assert_of hl, ok_bind]
  rfl

end

theorem indexes_split (h : Holds spec array (before ++ xs :: after)) :
    Prefixes array.indexes (before.map List.length ++ xs.length :: after.map List.length) := by
  simpa using h.indexes

end Holds

-- Every node but the last one is half full, and no node is empty.
def Packed (half : Nat) : List (List Value) → Prop
  | [] => True
  | xs :: rest => xs ≠ [] ∧ (rest ≠ [] → half ≤ xs.length) ∧ Packed half rest

theorem packed_append {half : Nat} : Packed half (before ++ xs :: after) ↔
    (∀ ys ∈ before, ys ≠ [] ∧ half ≤ ys.length) ∧ xs ≠ [] ∧ (after ≠ [] → half ≤ xs.length) ∧
      Packed half after := by
  induction before with
  | nil => simp [Packed]
  | cons ys before ih =>
    rw [List.cons_append, Packed, ih]
    simp
    tauto

-- The cursor of an absolute index: it points behind the elements of the last node at most.
structure Located (contents : List (List Value)) (cursor : Cursor) (i : Nat)
    (before : List (List Value)) (xs : List Value) (after : List (List Value)) : Prop where
  split : contents = before ++ xs :: after
  node : cursor.node = before.length
  index : i = before.flatten.length + cursor.relativeIndex
  le : cursor.relativeIndex ≤ xs.length
  lt : after ≠ [] → cursor.relativeIndex < xs.length

theorem split_at (hi : i < contents.length) :
    ∃ xs, contents[i]? = some xs ∧ contents = contents.take i ++ xs :: contents.drop (i + 1) := by
  refine ⟨contents[i], List.getElem?_eq_getElem hi, ?_⟩
  rw [← List.drop_eq_getElem_cons hi, List.take_append_drop]

theorem Holds.cursorForAbsoluteIndex (h : Holds spec array contents) (hne : contents ≠ [])
    (hfull : ∀ j xs, j + 1 < contents.length → contents[j]? = some xs → xs ≠ [])
    (hl : contents.flatten.length ≤ spec.elementCountMax) (hi : i ≤ contents.flatten.length)
    (hm : i < spec.elementCountMax) : ∃ cursor before xs after,
      array.cursorForAbsoluteIndex spec i = .ok cursor ∧ Located contents cursor i before xs after := by
  have hpos := List.length_pos_iff.mpr hne
  unfold SegmentedArray.cursorForAbsoluteIndex
  dsimp only
  rw [h.nodeCount, assert_of hpos, ok_bind, assert_of hm, ok_bind, h.len hl, ok_bind, assert_of hi,
    ok_bind]
  have hstart : ∀ j, (array.indexes.take contents.length)[j]? =
      if j < contents.length then some (contents.take j).flatten.length else none := fun j => by
    rw [List.getElem?_take]
    split
    case isTrue hj =>
      rw [h.indexes j (by simpa using hj.le), ← List.map_take, ← List.length_flatten]
    case isFalse => rfl
  have hlen : (array.indexes.take contents.length).length = contents.length := by
    have := h.indexes.length
    rw [List.length_map] at this
    exact List.length_take_of_le this.le
  generalize array.indexes.take contents.length = starts at hstart hlen ⊢
  -- The starts in front of the partition point are smaller than the index, the one at it is not.
  have hbelow : ∀ j < starts.findIdx fun start => decide (i ≤ start),
      (contents.take j).flatten.length < i := fun j hj => by
    have hlt : j < starts.length := hj.trans_le List.findIdx_le_length
    have hp := List.not_of_lt_findIdx hj
    have hs := hstart j
    rw [List.getElem?_eq_getElem hlt, if_pos (hlen ▸ hlt)] at hs
    have heq := Option.some_inj.mp hs
    rw [heq] at hp
    simpa using hp
  have habove : (starts.findIdx fun start => decide (i ≤ start)) < starts.length →
      i ≤ (contents.take (starts.findIdx fun start => decide (i ≤ start))).flatten.length := fun hj => by
    have hp := @List.findIdx_getElem _ (fun start => decide (i ≤ start)) starts hj
    have hs := hstart (starts.findIdx fun start => decide (i ≤ start))
    rw [List.getElem?_eq_getElem hj, if_pos (hlen ▸ hj)] at hs
    rw [Option.some_inj.mp hs] at hp
    simpa using hp
  have hindex : (starts.findIdx fun start => decide (i ≤ start)) ≤ starts.length :=
    List.findIdx_le_length
  generalize (starts.findIdx fun start => decide (i ≤ start)) = index at hbelow habove hindex ⊢
  rw [hlen] at habove hindex
  by_cases hexact : starts[index]? = some i
  case pos =>
    rw [if_pos hexact]
    rw [hstart index] at hexact
    have hlt : index < contents.length := by
      by_contra hge
      rw [if_neg hge] at hexact
      cases hexact
    rw [if_pos hlt] at hexact
    have ⟨xs, hx, hsplit⟩ := split_at hlt
    refine ⟨⟨index, 0⟩, _, xs, _, rfl, hsplit, (List.length_take_of_le hlt.le).symm, ?_,
      Nat.zero_le _, fun hafter => ?_⟩
    · exact (Option.some_inj.mp hexact).symm
    · have hlast : index + 1 < contents.length := by
        by_contra hge
        exact hafter (List.drop_of_length_le (by omega))
      exact List.length_pos_iff.mpr (hfull index xs hlast hx)
  case neg =>
    rw [if_neg hexact]
    have hzero : index ≠ 0 := by
      rintro rfl
      have := habove hpos
      rw [hstart 0, if_pos hpos] at hexact
      simp at this hexact
      omega
    have hbound : i < (contents.take index).flatten.length ∨ index = contents.length := by
      by_cases hlt : index < contents.length
      · rw [hstart index, if_pos hlt] at hexact
        have := habove hlt
        have hne : (contents.take index).flatten.length ≠ i := fun heq => hexact (by rw [heq])
        omega
      · exact .inr (by omega)
    obtain ⟨node, rfl⟩ : ∃ node, index = node + 1 := Nat.exists_eq_succ_of_ne_zero hzero
    have hlow := hbelow node (Nat.lt_succ_self _)
    have ⟨xs, hx, hsplit⟩ := split_at (show node < contents.length by omega)
    have hnode : (contents.take node).length = node := List.length_take_of_le (by omega)
    have hsum : (contents.take (node + 1)).flatten.length =
        (contents.take node).flatten.length + xs.length := by
      rw [List.take_add_one, hx]
      simp
    rw [assert_of hzero, ok_bind, Nat.add_sub_cancel, h.start (by omega), ok_bind, assert_of hlow.le,
      ok_bind, h.count hx, ok_bind]
    by_cases hlast : node = contents.length - 1
    case pos =>
      have hall : contents.take (node + 1) = contents := List.take_of_length_le (by omega)
      rw [hall] at hsum
      have hle : i - (contents.take node).flatten.length ≤ xs.length := by omega
      rw [if_pos hlast, assert_of hle, ok_bind]
      refine ⟨⟨node, _⟩, _, xs, _, rfl, hsplit, hnode.symm, ?_, hle,
        fun hafter => absurd (List.drop_of_length_le (by omega)) hafter⟩
      dsimp only
      omega
    case neg =>
      have hlt : i - (contents.take node).flatten.length < xs.length := by omega
      rw [if_neg hlast, assert_of hlt, ok_bind]
      refine ⟨⟨node, _⟩, _, xs, _, rfl, hsplit, hnode.symm, ?_, hlt.le,
        fun _ => hlt⟩
      dsimp only
      omega

-- The elements of a node, or of two nodes when they are too many for one.
def spread (cap : Nat) (xs : List Value) : List (List Value) :=
  if xs.length ≤ cap then [xs] else [xs.take ((xs.length + 1) / 2), xs.drop ((xs.length + 1) / 2)]

theorem flatten_spread {cap : Nat} : (spread cap xs).flatten = xs := by
  unfold spread
  split <;> simp

-- An operation returns an array with the given contents.
def Yields (spec : SegmentedArraySpec Key Value) (nodeCountMax : Nat)
    (contents : List (List Value)) (result : Result (SegmentedArray Value)) : Prop :=
  ∃ array, result = .ok array ∧ Holds spec array contents ∧ array.nodeCountMax = nodeCountMax

theorem insertIdx_split {α : Type} {front back : List α} {a : α} :
    (front ++ back).insertIdx front.length a = front ++ a :: back := by
  induction front with
  | nil => rfl
  | cons b front ih => simpa using ih

theorem eraseIdx_split {α : Type} {front back : List α} {a : α} :
    (front ++ a :: back).eraseIdx front.length = front ++ back := by
  induction front with
  | nil => rfl
  | cons b front ih => simpa using ih

section Insert

variable [Inhabited Value]

theorem Holds.insertEmptyNodeAt (h : Holds spec array (before ++ after))
    (hlt : (before ++ after).length < array.nodeCountMax) :
    Yields spec array.nodeCountMax (before ++ [] :: after)
      (array.insertEmptyNodeAt spec before.length) := by
  have hp : Prefixes array.indexes (before.map List.length ++ after.map List.length) := by
    simpa using h.indexes
  have ⟨indexes, hi, hp'⟩ := hp.insertEmpty
  have hsame : indexes[before.length]? = indexes[before.length + 1]? := by
    rw [hp' before.length (by simp), hp' (before.length + 1) (by simp), sum_take_append,
      sum_take_append, sum_take_cons, sum_take_cons,
      @sum_take_of_ge (before.map List.length) before.length (by simp),
      @sum_take_of_ge (before.map List.length) (before.length + 1) (by simp)]
    simp
  unfold SegmentedArray.insertEmptyNodeAt
  rw [h.nodeCount, assert_of (by simp), ok_bind, assert_of hlt, ok_bind]
  rw [List.length_map, ← List.map_append, List.length_map] at hi
  rw [hi, ok_bind]
  dsimp only
  rw [assert_of hsame, ok_bind]
  refine ⟨_, rfl, ⟨?_, by simpa using hp'⟩, rfl⟩
  rw [← insertIdx_split]
  exact forall₂_insertIdx h.nodes .empty

-- The elements are put into the node of the cursor.
theorem Holds.insertElementsAt {cursor : Cursor} (h : Holds spec array contents)
    (hc : Located contents cursor i before xs after) (hcur : array.cursorForAbsoluteIndex spec i = .ok cursor)
    (hne : es ≠ []) (hes : es.length ≤ spec.nodeCapacity) (hm : i + es.length ≤ spec.elementCountMax)
    (hroom : spec.nodeCapacity < xs.length + es.length → contents.length < array.nodeCountMax) :
    Yields spec array.nodeCountMax
      (before ++ spread spec.nodeCapacity
        (xs.take cursor.relativeIndex ++ es ++ xs.drop cursor.relativeIndex) ++ after)
      (array.insertElementsBatch spec i es) := by
  have hsplit := hc.split
  subst hsplit
  have hle := hc.le
  have hcap := h.le getElem?_split
  have hl : (xs.take cursor.relativeIndex ++ es ++ xs.drop cursor.relativeIndex).length =
      xs.length + es.length := by
    simp
    omega
  unfold SegmentedArray.insertElementsBatch
  rw [assert_of hne, ok_bind, assert_of hes, ok_bind, assert_of hm, ok_bind, h.nodeCount,
    if_neg (by simp)]
  dsimp only
  rw [show (pure array : Result (SegmentedArray Value)) = .ok array from rfl, ok_bind, hcur,
    ok_bind, h.nodeCount, hc.node, assert_of (by simp), ok_bind, h.count getElem?_split, ok_bind,
    assert_of hle, ok_bind]
  by_cases hfit : xs.length + es.length ≤ spec.nodeCapacity
  case pos =>
    rw [if_pos hfit, spread, if_pos (by omega)]
    have ⟨buffer, hb, hs⟩ := h.stores getElem?_split
    have ⟨b₁, b₂, h₁, h₂, hs'⟩ := hs.insert hle hfit
    rw [hb, ok_bind, h₁, ok_bind, h₂, ok_bind]
    generalize xs.take cursor.relativeIndex ++ es ++ xs.drop cursor.relativeIndex = zs at hl hs' ⊢
    refine ⟨_, rfl, ⟨?_, ?_⟩, rfl⟩
    · have hset := @forall₂_set _ _ _ _ _ _ _ before.length h.nodes hs'
      simpa [incrementIndexesAfter] using hset
    · have hp := @Prefixes.increment _ _ _ _ es.length h.indexes_split
      have hcount : (array.nodes.set before.length b₂).length = (before ++ xs :: after).length := by
        rw [List.length_set]
        exact h.nodeCount
      unfold incrementIndexesAfter SegmentedArray.nodeCount
      dsimp only
      rw [hcount]
      simpa [hl] using hp
  case neg =>
    rw [if_neg hfit, spread, if_neg (by omega), hl]
    have hcontents : before ++ xs :: after = (before ++ [xs]) ++ after := by simp
    have hb : before.length + 1 = (before ++ [xs]).length := by simp
    have ⟨array', ha, h', hmax⟩ := (hcontents ▸ h).insertEmptyNodeAt (by
      rw [← hcontents]; exact hroom (by omega))
    have hassoc : (before ++ [xs]) ++ [] :: after = before ++ xs :: [] :: after := by simp
    rw [hassoc] at h'
    have ⟨bufferA, hba, hsa⟩ := h'.stores getElem?_split
    have ⟨bufferB, hbb, hsb⟩ := h'.stores getElem?_split_succ
    have hhalves : (xs.length + es.length - (xs.length + es.length + 1) / 2) ≤
        (xs.length + es.length + 1) / 2 := by omega
    have ⟨nodeA, nodeB, hsp, hA, hB⟩ := @split_eq _ _ cursor.relativeIndex
      ((xs.length + es.length + 1) / 2) (xs.length + es.length - (xs.length + es.length + 1) / 2)
      _ _ xs es hsa hsb.length hle (by omega) (by omega) (by omega) hhalves
    rw [hb, ha, ok_bind, assert_of hhalves, ok_bind, ← hb, hba, ok_bind, hbb, ok_bind, hsp, ok_bind]
    rw [h'.start_split, ok_bind]
    generalize xs.take cursor.relativeIndex ++ es ++ xs.drop cursor.relativeIndex = zs at hl hA hB ⊢
    refine ⟨_, rfl, ⟨?_, ?_⟩, hmax⟩
    · have hset := @forall₂_set _ _ _ _ _ _ _ (before.length + 1)
        (@forall₂_set _ _ _ _ _ _ _ before.length h'.nodes hA) hB
      simpa [incrementIndexesAfter] using hset
    · have hp := @Prefixes.moveIncrement _ _ _ _ es.length 0 ((xs.length + es.length + 1) / 2)
        (xs.length + es.length - (xs.length + es.length + 1) / 2) (by simpa using h'.indexes) (by omega)
      have hcount : ((array'.nodes.set before.length nodeA).set (before.length + 1) nodeB).length =
          (before ++ xs :: [] :: after).length := by
        rw [List.length_set, List.length_set]
        exact h'.nodeCount
      unfold incrementIndexesAfter SegmentedArray.nodeCount
      dsimp only
      rw [hcount]
      have hmin : min ((xs.length + es.length + 1) / 2) (xs.length + es.length) =
          (xs.length + es.length + 1) / 2 := by omega
      simpa [List.length_flatten, hmin, hl] using hp

end Insert

theorem forall₂_set_right {α β : Type} {R : α → β → Prop} {as : List α} {bs : List β} {b : β} {n : Nat}
    (h : List.Forall₂ R as bs) (hr : ∀ a, as[n]? = some a → R a b) :
    List.Forall₂ R as (bs.set n b) := by
  induction h generalizing n with
  | nil => exact .nil
  | cons hab hrest ih =>
    cases n with
    | zero   => exact .cons (hr _ rfl) hrest
    | succ n => exact .cons hab (ih hr)

theorem Stores.front {α : Type} {cap : Nat} {buffer as bs : List α} (h : Stores cap buffer as)
    (hp : bs <+: as) : Stores cap buffer bs := by
  refine ⟨h.length, hp.length_le.trans h.le, fun i hi => ?_⟩
  obtain ⟨rest, rfl⟩ := hp
  rw [h.get i (by rw [List.length_append]; omega), List.getElem?_append_left hi]

theorem Holds.removeEmptyNodeAt (h : Holds spec array (before ++ [] :: after)) :
    Yields spec array.nodeCountMax (before ++ after) (array.removeEmptyNodeAt spec before.length) := by
  have hp : Prefixes array.indexes (before.map List.length ++ 0 :: after.map List.length) := by
    simpa using h.indexes
  have ⟨indexes, hi, hp'⟩ := hp.removeEmpty
  have hlen : (before.map List.length ++ 0 :: after.map List.length).length =
      (before ++ ([] : List Value) :: after).length := by simp
  rw [List.length_map, hlen] at hi
  unfold SegmentedArray.removeEmptyNodeAt
  rw [h.nodeCount, assert_of (by grind), ok_bind, assert_of (by simp), ok_bind,
    h.count getElem?_split, ok_bind, assert_of List.length_nil, ok_bind, hi, ok_bind]
  refine ⟨_, rfl, ⟨?_, by simpa using hp'⟩, rfl⟩
  rw [← @eraseIdx_split _ before after []]
  exact forall₂_eraseIdx h.nodes

-- Two neighbours become one node if they fit into one, and are balanced if the first one is short.
theorem Holds.maybeMergeNodes {zs : List Value} {inPlace : Bool}
    (h : Holds spec array (before ++ xs :: zs :: after))
    (hlen : ys.length = zs.length) (hys : ys ≠ []) (hin : inPlace = true → ys = zs)
    (hhalf : after ≠ [] → spec.nodeCapacity / 2 ≤ ys.length) (hzero : inPlace = true → xs ≠ [])
    (hout : inPlace = false → xs.length < spec.nodeCapacity / 2) :
    Yields spec array.nodeCountMax (before ++ (if xs.length < spec.nodeCapacity / 2 ∨
      xs.length + ys.length ≤ spec.nodeCapacity then spread spec.nodeCapacity (xs ++ ys) else [xs, ys]) ++
      after) (array.maybeMergeNodes spec before.length ys inPlace) := by
  have hcap := h.le getElem?_split_succ
  have hzero' : ¬(xs.length = 0 ∧ inPlace = true) := fun ⟨hx, hi⟩ =>
    hzero hi (List.eq_nil_of_length_eq_zero hx)
  have hlast : ys.length ≥ spec.nodeCapacity / 2 ∨
      before.length + 1 = (before ++ xs :: zs :: after).length - 1 := by
    cases after with
    | nil => exact .inr (by simp)
    | cons => exact .inl (hhalf (by simp))
  have ⟨bufferA, hba, hsa⟩ := h.stores getElem?_split
  have ⟨bufferB, hbb, hsb⟩ := h.stores getElem?_split_succ
  unfold SegmentedArray.maybeMergeNodes
  dsimp only
  rw [h.count getElem?_split, ok_bind, h.count getElem?_split_succ, ok_bind, assert_of hlen, ok_bind,
    assert_of hys, ok_bind, h.nodeCount, assert_of hlast, ok_bind, assert_of (hlen ▸ hcap), ok_bind,
    assert_of hzero', ok_bind]
  have hmap : Prefixes array.indexes
      (before.map List.length ++ xs.length :: zs.length :: after.map List.length) := by
    simpa using h.indexes
  by_cases hfit : xs.length + ys.length ≤ spec.nodeCapacity
  case pos =>
    rw [if_pos hfit, if_pos (.inr hfit), spread, if_pos (by simpa using hfit)]
    have ⟨nodeA, ha, hsa'⟩ := hsa.append hfit
    have hstop : read array.indexes (before.length + 1 + 1) =
        .ok (before.flatten.length + (xs.length + ys.length)) := by
      rw [h.start (by grind), List.take_append, List.take_of_length_le (by omega)]
      simp [Nat.add_assoc, hlen]
    rw [hba, ok_bind, ha, ok_bind, hstop, ok_bind]
    have hmid : Holds spec { array with
        nodes := array.nodes.set before.length nodeA
        indexes := array.indexes.set (before.length + 1) (before.flatten.length +
          (xs.length + ys.length)) } ((before ++ [xs ++ ys]) ++ [] :: after) := by
      constructor
      · have hset := forall₂_set_right (@forall₂_set _ _ _ _ _ _ _ before.length h.nodes hsa')
          (fun buffer hb => (?_ : Stores spec.nodeCapacity buffer []))
          (n := before.length + 1)
        · simpa using hset
        · have ⟨_, hb', hs'⟩ := forall₂_getElem? h.nodes (@getElem?_split_succ _ before after xs zs)
          rw [List.getElem?_set_ne (by omega)] at hb
          cases hb.symm.trans hb'
          exact hs'.front (List.nil_prefix ..)
      · have hp := @Prefixes.move _ _ _ _ _ (xs.length + ys.length) 0 hmap (by omega)
        simpa [List.length_flatten] using hp
    have ⟨array', hr, h', hmax⟩ := hmid.removeEmptyNodeAt
    rw [List.length_append, List.length_singleton] at hr
    rw [hr, ok_bind]
    have h'' : Holds spec array' (before ++ (xs ++ ys) :: after) := by simpa using h'
    have hdone : (xs ++ ys).length ≥ spec.nodeCapacity / 2 ∨
        before.length = array'.nodeCount - 1 := by
      rw [h''.nodeCount]
      cases after with
      | nil => exact .inr (by simp)
      | cons =>
        have := hhalf (by simp)
        exact .inl (by rw [List.length_append]; omega)
    rw [h''.count getElem?_split, ok_bind, assert_of hdone, ok_bind]
    exact ⟨array', rfl, by simpa using h', hmax⟩
  case neg =>
    rw [if_neg hfit]
    by_cases hshort : xs.length < spec.nodeCapacity / 2
    case pos =>
      have hl : (xs ++ ys).length = xs.length + ys.length := List.length_append
      have hhalves : xs.length + ys.length - (xs.length + ys.length + 1) / 2 ≤
        (xs.length + ys.length + 1) / 2 := by omega
      have htake : (ys.take ((xs.length + ys.length + 1) / 2 - xs.length)).length =
          (xs.length + ys.length + 1) / 2 - xs.length := List.length_take_of_le (by omega)
      have hdrop : (ys.drop ((xs.length + ys.length + 1) / 2 - xs.length)).length =
          ys.length - ((xs.length + ys.length + 1) / 2 - xs.length) := List.length_drop
      have ⟨nodeA, ha, hsa'⟩ := @Stores.append _ _ _
        (ys.take ((xs.length + ys.length + 1) / 2 - xs.length)) _ hsa (by omega)
      have ⟨nodeB, hb, hsb'⟩ := @Stores.overwrite _ _ _
        (ys.drop ((xs.length + ys.length + 1) / 2 - xs.length)) _ hsb (by omega)
      rw [if_pos hshort, if_pos (.inl hshort), spread, if_neg (by omega), hl, assert_of hhalves, ok_bind,
        hba, ok_bind, ha, ok_bind, hbb, ok_bind, hb, ok_bind, h.start_split, ok_bind]
      have h' : Holds spec { array with
          nodes := (array.nodes.set before.length nodeA).set (before.length + 1) nodeB
          indexes := array.indexes.set (before.length + 1)
            (before.flatten.length + (xs.length + ys.length + 1) / 2) }
          (before ++ (xs ++ ys.take ((xs.length + ys.length + 1) / 2 - xs.length)) ::
            (ys.drop ((xs.length + ys.length + 1) / 2 - xs.length)) :: after) := by
        constructor
        · have hset := @forall₂_set _ _ _ _ _ _ _ (before.length + 1)
            (@forall₂_set _ _ _ _ _ _ _ before.length h.nodes hsa') hsb'
          simpa using hset
        · have hp := @Prefixes.move _ _ _ _ _ ((xs.length + ys.length + 1) / 2)
            (xs.length + ys.length - (xs.length + ys.length + 1) / 2) hmap (by omega)
          rw [List.map_append, List.map_cons, List.map_cons, List.length_append, htake, hdrop,
            List.length_flatten, show xs.length + ((xs.length + ys.length + 1) / 2 - xs.length) =
              (xs.length + ys.length + 1) / 2 by omega,
            show ys.length - ((xs.length + ys.length + 1) / 2 - xs.length) =
              xs.length + ys.length - (xs.length + ys.length + 1) / 2 by omega]
          rw [List.length_map] at hp
          exact hp
      have hca := h'.count getElem?_split
      have hcb := h'.count getElem?_split_succ
      rw [List.length_append, htake] at hca
      rw [hdrop] at hcb
      rw [hca, ok_bind, assert_of (by omega), ok_bind, hcb, ok_bind, assert_of (by omega), ok_bind]
      refine ⟨_, rfl, ?_, rfl⟩
      have hsplit : (xs ++ ys).take ((xs.length + ys.length + 1) / 2) =
          xs ++ ys.take ((xs.length + ys.length + 1) / 2 - xs.length) := by
        rw [List.take_append, List.take_of_length_le (by omega)]
      have hsplit' : (xs ++ ys).drop ((xs.length + ys.length + 1) / 2) =
          ys.drop ((xs.length + ys.length + 1) / 2 - xs.length) := by
        rw [List.drop_append, List.drop_of_length_le (by omega), List.nil_append]
      rw [hsplit, hsplit']
      simpa using h'
    case neg =>
      have hplace : inPlace = true := by
        cases inPlace with
        | true  => rfl
        | false => exact absurd (hout rfl) hshort
      rw [if_neg hshort, if_neg (by omega), assert_of hplace, ok_bind]
      exact ⟨array, rfl, by simpa [hin hplace] using h, rfl⟩

-- A node that has lost elements, and those behind it.
def joined (cap : Nat) (xs : List Value) : List (List Value) → List (List Value)
  | [] => if xs = [] then [] else [xs]
  | ys :: rest =>
    if xs = [] then
      ys :: rest
    else if xs.length < cap / 2 ∨ xs.length + ys.length ≤ cap then
      spread cap (xs ++ ys) ++ rest
    else
      xs :: ys :: rest

theorem flatten_joined {cap : Nat} : (joined cap xs after).flatten = xs ++ after.flatten := by
  cases after with
  | nil =>
    rw [joined]
    split
    case isTrue hx => simp [hx]
    case isFalse => simp
  | cons ys rest =>
    rw [joined]
    split
    case isTrue hx => simp [hx]
    case isFalse =>
      split
      · simp [flatten_spread]
      · simp

theorem length_spread_le {cap : Nat} : (spread cap xs).length ≤ 2 := by
  unfold spread
  split <;> simp

theorem length_joined_le {cap : Nat} : (joined cap xs after).length ≤ (xs :: after).length := by
  cases after with
  | nil =>
    rw [joined]
    split <;> simp
  | cons ys rest =>
    rw [joined]
    split
    · simp
    · split
      · have := @length_spread_le _ (xs ++ ys) cap
        simp only [List.length_append, List.length_cons]
        omega
      · simp

theorem packed_spread {cap : Nat} (hb : ∀ ys ∈ before, ys ≠ [] ∧ cap / 2 ≤ ys.length)
    (hc : 0 < cap / 2) (hx : xs ≠ []) (hhalf : after ≠ [] → cap / 2 ≤ xs.length)
    (ha : Packed (cap / 2) after) : Packed (cap / 2) (before ++ spread cap xs ++ after) := by
  unfold spread
  split
  case isTrue => simpa using packed_append.mpr ⟨hb, hx, hhalf, ha⟩
  case isFalse hgt =>
    have htake : (xs.take ((xs.length + 1) / 2)).length = (xs.length + 1) / 2 :=
      List.length_take_of_le (by omega)
    have hdrop : (xs.drop ((xs.length + 1) / 2)).length = xs.length - (xs.length + 1) / 2 :=
      List.length_drop
    have hfirst : xs.take ((xs.length + 1) / 2) ≠ [] := List.length_pos_iff.mp (by omega)
    have hsecond : xs.drop ((xs.length + 1) / 2) ≠ [] := List.length_pos_iff.mp (by omega)
    rw [List.append_assoc]
    refine packed_append.mpr ⟨hb, hfirst, fun _ => by omega, hsecond, fun _ => by omega, ha⟩

theorem packed_joined {cap : Nat} (hb : ∀ ys ∈ before, ys ≠ [] ∧ cap / 2 ≤ ys.length)
    (hc : 0 < cap / 2) (ha : Packed (cap / 2) after) :
    Packed (cap / 2) (before ++ joined cap xs after) := by
  cases after with
  | nil =>
    rw [joined]
    split
    case isTrue =>
      cases hl : before.reverse with
      | nil => simp [List.reverse_eq_nil_iff.mp hl, Packed]
      | cons ys rest =>
        have hsplit : before = rest.reverse ++ [ys] := by simpa using congrArg List.reverse hl
        rw [List.append_nil, hsplit]
        have hy := hb ys (by simp [hsplit])
        exact packed_append.mpr ⟨fun zs hz => hb zs (by simp [hsplit, List.mem_reverse.mp hz]),
          hy.1, fun h => absurd rfl h, trivial⟩
    case isFalse hx => exact packed_append.mpr ⟨hb, hx, fun h => absurd rfl h, trivial⟩
  | cons ys rest =>
    have ⟨hy, hhalf, hrest⟩ := ha
    rw [joined]
    split
    case isTrue => exact packed_append.mpr ⟨hb, hy, hhalf, hrest⟩
    case isFalse hx =>
      split
      case isTrue =>
        rw [← List.append_assoc]
        refine packed_spread hb hc (by simp [hx]) (fun h => ?_) hrest
        have := hhalf h
        rw [List.length_append]
        omega
      case isFalse hlong =>
        exact packed_append.mpr ⟨hb, hx, fun _ => by omega, hy, hhalf, hrest⟩

theorem Holds.maybeRemoveOrMerge (h : Holds spec array (before ++ xs :: after))
    (ha : Packed (spec.nodeCapacity / 2) after) :
    Yields spec array.nodeCountMax (before ++ joined spec.nodeCapacity xs after)
      (array.maybeRemoveOrMergeNodeWithNext spec before.length) := by
  unfold maybeRemoveOrMergeNodeWithNext
  rw [h.nodeCount, assert_of (by simp), ok_bind, h.count getElem?_split, ok_bind]
  by_cases hx : xs = []
  case pos =>
    subst hx
    rw [if_pos List.length_nil]
    have hj : joined spec.nodeCapacity [] after = after := by
      cases after <;> simp [joined]
    rw [hj]
    exact h.removeEmptyNodeAt
  case neg =>
    rw [if_neg fun h0 => hx (List.eq_nil_of_length_eq_zero h0)]
    cases after with
    | nil =>
      rw [if_pos (by simp), joined, if_neg hx]
      exact ⟨array, rfl, h, rfl⟩
    | cons ys rest =>
      have ⟨hy, hhalf, hrest⟩ := ha
      have ⟨buffer, hb, hs⟩ := h.stores getElem?_split_succ
      have hmerge := @maybeMergeNodes _ _ _ _ _ _ _ ys ys true h rfl hy (fun _ => rfl) hhalf
        (fun _ => hx) nofun
      rw [if_neg (by simp), h.count getElem?_split_succ, ok_bind, hb, ok_bind, hs.take]
      rw [joined, if_neg hx]
      split
      case isTrue hshort => simpa [if_pos hshort] using hmerge
      case isFalse hlong => simpa [if_neg hlong] using hmerge

theorem read_eq_ok {α : Type} {values : List α} {value : α} :
    read values i = .ok value ↔ values[i]? = some value := by
  unfold read
  split
  case h_1 heq => simp [heq, pure, Except.pure]
  case h_2 heq => simp [heq, abort]

-- Two nodes lose elements at the border between them.
theorem Holds.shrink {nodes : List (List Value)} {xs' ys' : List Value} {n : Nat}
    (h : Holds spec array (before ++ xs :: ys :: after))
    (hn : List.Forall₂ (Stores spec.nodeCapacity) nodes (before ++ xs' :: ys' :: after))
    (hsum : xs'.length + ys'.length + n = xs.length + ys.length) :
    Yields spec array.nodeCountMax (before ++ xs' :: ys' :: after) ({ array with
      nodes
      indexes := array.indexes.set (before.length + 1) (before.flatten.length + xs'.length)
      }.decrementIndexesAfter (before.length + 1) n) := by
  have hmap : Prefixes array.indexes
      (before.map List.length ++ xs.length :: ys.length :: after.map List.length) := by
    simpa using h.indexes
  have hcount : nodes.length = (before ++ xs :: ys :: after).length := by
    rw [hn.length_eq]
    simp
  have hall := @Prefixes.le_of_mem_slice_set _ _ _ _ n _ (before.flatten.length + xs'.length) hmap
    (by omega)
  have hp := @Prefixes.moveDecrement _ _ _ _ n _ xs'.length ys'.length hmap hsum
  unfold decrementIndexesAfter SegmentedArray.nodeCount
  dsimp only
  rw [hcount]
  rw [List.length_map] at hall
  rw [assert_of (by simpa using hall), ok_bind]
  refine ⟨_, rfl, ⟨hn, ?_⟩, rfl⟩
  simpa [List.length_flatten] using hp

theorem Packed.ne_nil {half : Nat} (h : Packed half contents) (hx : xs ∈ contents) : xs ≠ [] := by
  obtain ⟨before, after, rfl⟩ := List.append_of_mem hx
  exact (packed_append.mp h).2.1

theorem Located.take (hc : Located contents cursor i before xs after) :
    contents.flatten.take i = before.flatten ++ xs.take cursor.relativeIndex := by
  have hle := hc.le
  rw [hc.split, hc.index]
  simp [List.take_append, List.take_of_length_le, Nat.sub_eq_zero_of_le hle]

theorem Located.drop {n : Nat} (hc : Located contents cursor i before xs after) :
    contents.flatten.drop (i + n) = xs.drop (cursor.relativeIndex + n) ++
      after.flatten.drop (cursor.relativeIndex + n - xs.length) := by
  rw [hc.split, hc.index]
  simp [List.drop_append, Nat.add_assoc]

theorem Holds.removeElementsBatch {n : Nat} (h : Holds spec array contents)
    (hc : 0 < spec.nodeCapacity / 2) (hp : Packed (spec.nodeCapacity / 2) contents) (hn : 0 < n)
    (hnh : n ≤ spec.nodeCapacity / 2) (hl : contents.flatten.length ≤ spec.elementCountMax)
    (hi : i + n ≤ contents.flatten.length) : ∃ contents',
      Yields spec array.nodeCountMax contents' (array.removeElementsBatch spec i n) ∧
      Packed (spec.nodeCapacity / 2) contents' ∧ contents'.length ≤ contents.length ∧
      contents'.flatten = contents.flatten.take i ++ contents.flatten.drop (i + n) := by
  have hne : contents ≠ [] := by
    rintro rfl
    simp at hi
    omega
  obtain ⟨cursor, before, xs, after, hcur, hloc⟩ := h.cursorForAbsoluteIndex (i := i) hne
    (fun _ _ _ hx => hp.ne_nil (List.mem_of_getElem? hx)) hl (by omega) (by omega)
  have htake := hloc.take
  have hdrop := @Located.drop _ _ _ _ _ _ _ n hloc
  have hnode := hloc.node
  have hindex := hloc.index
  have hle := hloc.le
  have hsplit := hloc.split
  subst hsplit
  have ⟨hb, hx, hhalf, ha⟩ := packed_append.mp hp
  have hlen : (before ++ xs :: after).flatten.length =
      before.flatten.length + xs.length + after.flatten.length := by
    simp [List.length_flatten, Nat.add_assoc]
  have hrel : (xs.take cursor.relativeIndex).length = cursor.relativeIndex :=
    List.length_take_of_le hle
  have hread : read array.indexes (before ++ xs :: after).length =
      .ok (before ++ xs :: after).flatten.length := by
    rw [h.start (Nat.le_refl _), List.take_length]
  have ⟨bufferA, hba, hsa⟩ := h.stores getElem?_split
  unfold SegmentedArray.removeElementsBatch
  dsimp only
  rw [h.nodeCount, assert_of (List.length_pos_iff.mpr hne), ok_bind, assert_of hnh, ok_bind,
    assert_of hn, ok_bind,
    assert_of (hi.trans hl), ok_bind, hread, ok_bind, assert_of hi, ok_bind, hcur, ok_bind, hnode,
    assert_of (by simp), ok_bind, h.count getElem?_split, ok_bind]
  by_cases hone : cursor.relativeIndex + n ≤ xs.length
  case pos =>
    have ⟨nodeA, hr, hsa'⟩ := hsa.remove hone
    have hl' : (xs.take cursor.relativeIndex ++ xs.drop (cursor.relativeIndex + n)).length =
        xs.length - n := by
      rw [List.length_append, hrel, List.length_drop]
      omega
    rw [if_pos hone, hba, ok_bind, hr, ok_bind]
    have hdec : Yields spec array.nodeCountMax (before ++ (xs.take cursor.relativeIndex ++
        xs.drop (cursor.relativeIndex + n)) :: after) ({ array with
          nodes := array.nodes.set before.length nodeA }.decrementIndexesAfter before.length n) := by
      have hall := h.indexes_split.le_of_mem_slice (show n ≤ xs.length by omega)
      have hp' := @Prefixes.decrement _ _ _ _ n h.indexes_split (by omega)
      have hcount : (array.nodes.set before.length nodeA).length =
          (before ++ xs :: after).length := by
        rw [List.length_set]
        exact h.nodeCount
      have hset := @forall₂_set _ _ _ _ _ _ _ before.length h.nodes hsa'
      unfold decrementIndexesAfter SegmentedArray.nodeCount
      dsimp only
      rw [hcount]
      rw [List.length_map] at hall
      rw [assert_of (by simpa using hall), ok_bind]
      refine ⟨_, rfl, ⟨by simpa using hset, ?_⟩, rfl⟩
      rw [List.map_append, List.map_cons, hl']
      simpa using hp'
    obtain ⟨array', hd, h', hmax⟩ := hdec
    rw [hd, ok_bind]
    refine ⟨_, hmax ▸ h'.maybeRemoveOrMerge ha, packed_joined hb hc ha, ?_, ?_⟩
    · have := @length_joined_le _ after
        (xs.take cursor.relativeIndex ++ xs.drop (cursor.relativeIndex + n)) spec.nodeCapacity
      simp only [List.length_append, List.length_cons] at this ⊢
      omega
    · rw [htake, hdrop, List.flatten_append, flatten_joined, Nat.sub_eq_zero_of_le hone,
        List.drop_zero]
      simp
  case neg =>
    rw [if_neg hone]
    cases after with
    | nil =>
      rw [List.flatten_nil, List.length_nil] at hlen
      omega
    | cons ys rest =>
      have ⟨hy, hyhalf, hrest⟩ := ha
      have hxhalf := hhalf (by simp)
      have ⟨bufferB, hbb, hsb⟩ := h.stores getElem?_split_succ
      have hoff : n - (xs.length - cursor.relativeIndex) ≤ ys.length := by
        cases rest with
        | nil =>
          rw [List.flatten_cons, List.flatten_nil, List.append_nil] at hlen
          omega
        | cons =>
          have := hyhalf (by simp)
          omega
      have hrem : cursor.relativeIndex + n - xs.length = n - (xs.length - cursor.relativeIndex) := by
        omega
      have hdrop' : (before ++ xs :: ys :: rest).flatten.drop (i + n) =
          ys.drop (n - (xs.length - cursor.relativeIndex)) ++ rest.flatten := by
        rw [hdrop, hrem, List.drop_of_length_le (by omega), List.flatten_cons, List.nil_append,
          List.drop_append, Nat.sub_eq_zero_of_le hoff, List.drop_zero]
      have hlb : (ys.drop (n - (xs.length - cursor.relativeIndex))).length =
          ys.length - (n - (xs.length - cursor.relativeIndex)) := List.length_drop
      have hpos := List.length_pos_iff.mpr hy
      have hsome : cursor.relativeIndex > 0 ∨
          ys.drop (n - (xs.length - cursor.relativeIndex)) ≠ [] := by
        by_contra hnot
        rw [not_or, not_not] at hnot
        have := congrArg List.length hnot.2
        rw [hlb, List.length_nil] at this
        omega
      have hfirst : Stores spec.nodeCapacity bufferA (xs.take cursor.relativeIndex) :=
        hsa.front (List.take_prefix ..)
      rw [h.count getElem?_split_succ, ok_bind, assert_of (by omega), ok_bind, hbb, ok_bind,
        hsb.slice_length, assert_of hsome, ok_bind, h.start_split, ok_bind]
      rw [htake, hdrop']
      generalize ys.drop (n - (xs.length - cursor.relativeIndex)) = bs at hlb hsome ⊢
      generalize xs.take cursor.relativeIndex = as at hrel hfirst ⊢
      rw [← hrel] at hsome ⊢
      have hsum : as.length + bs.length + n = xs.length + ys.length := by omega
      have hlong : (as ++ bs).length = as.length + bs.length := List.length_append
      have hflat : ∀ zss : List (List Value), zss.flatten = as ++ bs ++ rest.flatten →
          (before ++ zss).flatten = before.flatten ++ as ++ (bs ++ rest.flatten) := fun zss hz => by
        rw [List.flatten_append, hz]
        simp
      have hfront : List.Forall₂ (Stores spec.nodeCapacity) array.nodes
          (before ++ as :: ys :: rest) := by
        have hset := @forall₂_set_right _ _ _ _ _ as before.length h.nodes fun buffer hb' => by
          cases hb'.symm.trans (read_eq_ok.mp hba)
          exact hfirst
        simpa using hset
      have hbs : bs.length ≤ ys.length := by omega
      have hcapB := hsb.le
      by_cases hkeep : spec.nodeCapacity / 2 ≤ as.length
      case pos =>
        -- Enough is left in the first node.
        have ⟨nodeB, hw, hsb'⟩ := hsb.overwrite (hbs.trans hcapB)
        obtain ⟨array', hd, h', hmax⟩ := @shrink _ _ _ _ _ _ _ _
          (array.nodes.set (before.length + 1) nodeB) as bs n h (by
            have hset := @forall₂_set _ _ _ _ _ _ _ (before.length + 1) hfront hsb'
            simpa using hset) hsum
        have happ : before ++ as :: bs :: rest = (before ++ [as]) ++ bs :: rest := by simp
        have hlast : before.length + 1 = (before ++ [as]).length := by simp
        rw [happ] at h'
        have hb' : ∀ zs ∈ before ++ [as], zs ≠ [] ∧ spec.nodeCapacity / 2 ≤ zs.length := by
          intro zs hz
          obtain hz | rfl := List.mem_append.mp hz |>.imp id List.mem_singleton.mp
          · exact hb zs hz
          · exact ⟨List.length_pos_iff.mp (by omega), hkeep⟩
        rw [if_pos hkeep, ok_bind, hw, ok_bind, hd, ok_bind, hlast]
        refine ⟨_, hmax ▸ h'.maybeRemoveOrMerge hrest, packed_joined hb' hc hrest, ?_, ?_⟩
        · have := @length_joined_le _ rest bs spec.nodeCapacity
          simp only [List.length_append, List.length_cons, List.length_nil] at this ⊢
          omega
        · rw [List.append_assoc]
          exact hflat _ (by simp [flatten_joined])
      case neg =>
        rw [if_neg hkeep]
        have hnew : as ++ bs ≠ [] := by
          rw [Ne, List.append_eq_nil_iff, ← List.length_eq_zero_iff]
          rintro ⟨h0, h1⟩
          exact hsome.elim (fun hp => by omega) fun hne => hne h1
        have hfull : rest ≠ [] → spec.nodeCapacity / 2 ≤ (as ++ bs).length := fun hr => by
          have := hyhalf hr
          omega
        have hpacked := packed_spread hb hc hnew hfull hrest
        have hcount : (before ++ spread spec.nodeCapacity (as ++ bs) ++ rest).length ≤
            (before ++ xs :: ys :: rest).length := by
          have := @length_spread_le _ (as ++ bs) spec.nodeCapacity
          simp only [List.length_append, List.length_cons]
          omega
        have hflat' : (before ++ spread spec.nodeCapacity (as ++ bs) ++ rest).flatten =
            before.flatten ++ as ++ (bs ++ rest.flatten) := by
          rw [List.append_assoc]
          exact hflat _ (by rw [List.flatten_append, flatten_spread])
        refine ⟨_, ?_, hpacked, hcount, hflat'⟩
        by_cases hlongB : bs.length ≥ spec.nodeCapacity / 2
        case pos =>
          -- Enough is left in the second node, which the first one is joined with.
          have hlt : (ys.take bs.length).length = bs.length := List.length_take_of_le hbs
          obtain ⟨array', hd, h', hmax⟩ := @shrink _ _ _ _ _ _ _ _ array.nodes as
            (ys.take bs.length) n h (by
              have hset := @forall₂_set_right _ _ _ _ _ (ys.take bs.length) (before.length + 1) hfront
                fun buffer hb' => by
                  cases hb'.symm.trans (read_eq_ok.mp hbb)
                  exact hsb.front (List.take_prefix ..)
              simpa using hset) (by omega)
          have hmerge := @maybeMergeNodes _ _ _ _ _ _ _ bs _ false h' hlt.symm
            (List.length_pos_iff.mp (by omega)) nofun (fun _ => hlongB) nofun fun _ => by omega
          rw [if_pos hlongB, hd, ok_bind]
          rw [if_pos (.inl (by omega)), hmax] at hmerge
          exact hmerge
        case neg =>
          -- What is left of both nodes fits into the first one.
          have hfit : as.length + bs.length ≤ spec.nodeCapacity := by omega
          have ⟨nodeA, hw, hsa'⟩ := hfirst.append hfit
          obtain ⟨array', hd, h', hmax⟩ := @shrink _ _ _ _ _ _ _ _
            (array.nodes.set before.length nodeA) (as ++ bs) [] n h (by
              have hset := @forall₂_set_right _ _ _ _ _ [] (before.length + 1)
                (@forall₂_set _ _ _ _ _ _ _ before.length h.nodes hsa') fun buffer hb' => by
                  rw [List.getElem?_set_ne (by omega)] at hb'
                  cases hb'.symm.trans (read_eq_ok.mp hbb)
                  exact hsb.front (List.nil_prefix ..)
              simpa using hset) (by rw [hlong, List.length_nil]; omega)
          rw [hlong] at hd
          have happ : before ++ (as ++ bs) :: [] :: rest = (before ++ [as ++ bs]) ++ [] :: rest := by
            simp
          rw [happ] at h'
          obtain ⟨array'', hr, h'', hmax'⟩ := h'.removeEmptyNodeAt
          have hlast : (before ++ [as ++ bs]).length = before.length + 1 := by simp
          have hdone : Holds spec array'' (before ++ (as ++ bs) :: rest) := by simpa using h''
          rw [if_neg hlongB, assert_of hfit, ok_bind, hba, ok_bind, hw, ok_bind, hd, ok_bind, ← hlast, hr,
            ok_bind, hdone.count getElem?_split, ok_bind, hdone.nodeCount, assert_of, ok_bind]
          · refine ⟨array'', rfl, ?_, hmax'.trans hmax⟩
            rw [spread, if_pos (by omega)]
            exact h''
          · cases rest with
            | nil => exact .inl (by simp)
            | cons => exact .inr (hfull (by simp))

end TigerBeetle.SegmentedArray
