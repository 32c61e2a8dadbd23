import TigerBeetle.SegmentedArray

namespace TigerBeetle.SegmentedArray

open Fallible

section Slices

variable {α : Type} {buffer values after xs ys : List α} {start stop i cap : Nat}

-- What a copy into a buffer leaves behind.
structure Copied (buffer : List α) (start : Nat) (values after : List α) : Prop where
  length : after.length = buffer.length
  get : ∀ i, after[i]? =
    if start ≤ i ∧ i < start + values.length then values[i - start]? else buffer[i]?

theorem copyFrom_eq (h : start + values.length ≤ buffer.length) :
    ∃ after, copyFrom buffer start values = .ok after ∧ Copied buffer start values after := by
  refine ⟨_, by rw [copyFrom, assert_of h]; rfl, ?_, fun i => ?_⟩
  · simp
    omega
  · have hlen : (buffer.take start).length = start := List.length_take_of_le (by omega)
    rw [List.append_assoc, List.getElem?_append, List.getElem?_append, hlen, List.getElem?_take,
      List.getElem?_drop]
    split
    case isTrue hlt => rw [if_neg (by omega)]
    case isFalse hge =>
      by_cases hin : i - start < values.length
      · rw [if_pos hin, if_pos (by omega)]
      · rw [if_neg hin, if_neg (by omega)]
        congr 1
        omega

theorem getElem?_slice : (slice buffer start stop)[i]? =
    if start + i < stop then buffer[start + i]? else none := by
  rw [slice, List.getElem?_drop, List.getElem?_take]

theorem length_slice : (slice buffer start stop).length = min stop buffer.length - start := by
  rw [slice, List.length_drop, List.length_take]

-- A buffer of a node, the front of which holds the node's elements.
structure Stores (cap : Nat) (buffer xs : List α) : Prop where
  length : buffer.length = cap
  le : xs.length ≤ cap
  get : ∀ i < xs.length, buffer[i]? = xs[i]?

namespace Stores

theorem take (h : Stores cap buffer xs) : buffer.take xs.length = xs := by
  refine List.ext_getElem? fun i => ?_
  rw [List.getElem?_take]
  split
  case isTrue hi => exact h.get i hi
  case isFalse hi => exact (List.getElem?_eq_none (Nat.not_lt.mp hi)).symm

theorem slice (h : Stores cap buffer xs) (hs : stop ≤ xs.length) :
    SegmentedArray.slice buffer start stop = SegmentedArray.slice xs start stop := by
  refine List.ext_getElem? fun i => ?_
  rw [getElem?_slice, getElem?_slice]
  split
  · exact h.get _ (by omega)
  · rfl

theorem slice_length (h : Stores cap buffer xs) :
    SegmentedArray.slice buffer start xs.length = xs.drop start := by
  rw [h.slice (Nat.le_refl _), SegmentedArray.slice, List.take_length]

theorem empty [Inhabited α] : Stores cap (List.replicate cap (default : α)) [] :=
  ⟨List.length_replicate, Nat.zero_le _, nofun⟩

theorem insert {rel : Nat} (h : Stores cap buffer xs) (hr : rel ≤ xs.length)
    (hl : xs.length + ys.length ≤ cap) :
    ∃ b₁ b₂, copyWithin buffer rel xs.length (rel + ys.length) = .ok b₁ ∧
      copyFrom b₁ rel ys = .ok b₂ ∧ Stores cap b₂ (xs.take rel ++ ys ++ xs.drop rel) := by
  have hb := h.length
  have hs : (SegmentedArray.slice buffer rel xs.length).length = xs.length - rel := by
    rw [length_slice]
    omega
  obtain ⟨b₁, h₁, hc₁⟩ := @copyFrom_eq _ buffer (SegmentedArray.slice buffer rel xs.length)
    (rel + ys.length) (by omega)
  obtain ⟨b₂, h₂, hc₂⟩ := @copyFrom_eq _ b₁ ys rel (by rw [hc₁.length]; omega)
  refine ⟨b₁, b₂, h₁, h₂, hc₂.length.trans (hc₁.length.trans hb), ?_, fun i hi => ?_⟩
  · simp
    omega
  · simp at hi
    rw [hc₂.get, hc₁.get, List.append_assoc, List.getElem?_append, List.getElem?_append,
      List.getElem?_take, List.getElem?_drop, List.length_take_of_le hr, h.slice_length,
      List.length_drop, List.getElem?_drop]
    have hget := h.get i
    grind

theorem append (h : Stores cap buffer xs) (hl : xs.length + ys.length ≤ cap) :
    ∃ after, copyFrom buffer xs.length ys = .ok after ∧ Stores cap after (xs ++ ys) := by
  have hb := h.length
  obtain ⟨after, ha, hc⟩ := @copyFrom_eq _ buffer ys xs.length (by omega)
  refine ⟨after, ha, hc.length.trans hb, by simpa using hl, fun i hi => ?_⟩
  rw [List.length_append] at hi
  rw [hc.get, List.getElem?_append]
  have hget := h.get i
  grind

theorem overwrite (h : Stores cap buffer xs) (hl : ys.length ≤ cap) :
    ∃ after, copyFrom buffer 0 ys = .ok after ∧ Stores cap after ys := by
  have hb := h.length
  obtain ⟨after, ha, hc⟩ := @copyFrom_eq _ buffer ys 0 (by omega)
  refine ⟨after, ha, hc.length.trans hb, hl, fun i hi => ?_⟩
  rw [hc.get, if_pos (by omega), Nat.sub_zero]

theorem remove {rel n : Nat} (h : Stores cap buffer xs) (hr : rel + n ≤ xs.length) :
    ∃ after, copyWithin buffer (rel + n) xs.length rel = .ok after ∧
      Stores cap after (xs.take rel ++ xs.drop (rel + n)) := by
  have hb := h.length
  have hle := h.le
  have hs : (SegmentedArray.slice buffer (rel + n) xs.length).length = xs.length - (rel + n) := by
    rw [length_slice]
    omega
  obtain ⟨after, ha, hc⟩ := @copyFrom_eq _ buffer
    (SegmentedArray.slice buffer (rel + n) xs.length) rel (by omega)
  refine ⟨after, ha, hc.length.trans hb, ?_, fun i hi => ?_⟩
  · simp
    omega
  · simp at hi
    rw [hc.get, List.getElem?_append, List.length_take_of_le (by omega), List.getElem?_take,
      h.slice_length, List.length_drop, List.getElem?_drop]
    have hget := h.get i
    grind

end Stores

theorem copyBackwardsTwo_eq {a b source : List α} {aLen bLen cursor : Nat} (ha : aLen ≤ a.length)
    (hb : bLen ≤ b.length) (hl : cursor + source.length ≤ aLen + bLen) :
    ∃ a' b', copyBackwardsTwo a b aLen bLen cursor source = .ok (a', b') ∧
      a'.length = a.length ∧ b'.length = b.length ∧
      (∀ i < aLen, a'[i]? =
        if cursor ≤ i ∧ i < cursor + source.length then source[i - cursor]? else a[i]?) ∧
      (∀ i, aLen ≤ i → a'[i]? = a[i]?) ∧
      ∀ i, b'[i]? = if cursor ≤ aLen + i ∧ aLen + i < cursor + source.length then
        source[aLen + i - cursor]? else b[i]? := by
  unfold copyBackwardsTwo
  rw [assert_of hl, ok_bind]
  split
  case isTrue hlt =>
    dsimp only
    have htake : (source.take (min source.length (aLen - cursor))).length =
        min source.length (aLen - cursor) := List.length_take_of_le (Nat.min_le_left ..)
    obtain ⟨a', ha', hca⟩ := @copyFrom_eq _ a (source.take (min source.length (aLen - cursor)))
      cursor (by omega)
    rw [ha', ok_bind]
    have hrest : (source.drop (min source.length (aLen - cursor))).length =
        source.length - min source.length (aLen - cursor) := List.length_drop
    have hgeta : ∀ i, a'[i]? = if cursor ≤ i ∧ i < cursor + source.length ∧ i < aLen then
        source[i - cursor]? else a[i]? := by
      intro i
      rw [hca.get, htake, List.getElem?_take]
      grind
    split
    case isTrue hne =>
      obtain ⟨b', hb', hcb⟩ := @copyFrom_eq _ b
        (source.drop (min source.length (aLen - cursor)))
        (cursor + min source.length (aLen - cursor) - aLen) (by omega)
      rw [hb', ok_bind]
      refine ⟨a', b', rfl, hca.length, hcb.length, fun i hi => ?_, fun i hi => ?_, fun i => ?_⟩
      · rw [hgeta]
        grind
      · rw [hgeta, if_neg (by omega)]
      · have hpos := List.length_pos_iff.mpr hne
        rw [hcb.get, hrest, List.getElem?_drop]
        grind
    case isFalse heq =>
      have hnil : source.length - min source.length (aLen - cursor) = 0 := by
        rw [← hrest, not_not.mp heq]
        rfl
      refine ⟨a', b, rfl, hca.length, rfl, fun i hi => ?_, fun i hi => ?_, fun i => ?_⟩
      · rw [hgeta]
        grind
      · rw [hgeta, if_neg (by omega)]
      · rw [if_neg (by omega)]
  case isFalse hge =>
    split
    case isTrue hne =>
      obtain ⟨b', hb', hcb⟩ := @copyFrom_eq _ b source (cursor - aLen) (by omega)
      rw [hb', ok_bind]
      refine ⟨a, b', rfl, rfl, hcb.length, fun i hi => ?_, fun i hi => rfl, fun i => ?_⟩
      · rw [if_neg (by omega)]
      · rw [hcb.get]
        grind
    case isFalse heq =>
      have hnil := not_not.mp heq
      subst hnil
      refine ⟨a, b, rfl, rfl, rfl, fun i hi => ?_, fun _ _ => rfl, fun i => ?_⟩
      · rw [if_neg (by simp)]
      · rw [if_neg (by simp)]

-- A full node is divided: its elements and the new ones fill the fronts of both nodes.
theorem split_eq {cap rel aHalf bHalf : Nat} {a b xs es : List α} (ha : Stores cap a xs)
    (hb : b.length = cap) (hr : rel ≤ xs.length) (hsum : aHalf + bHalf = xs.length + es.length)
    (hale : aHalf ≤ cap) (hble : bHalf ≤ cap) (hhalf : bHalf ≤ aHalf) :
    ∃ a' b', split a b xs.length rel aHalf bHalf es = .ok (a', b') ∧
      Stores cap a' ((xs.take rel ++ es ++ xs.drop rel).take aHalf) ∧
      Stores cap b' ((xs.take rel ++ es ++ xs.drop rel).drop aHalf) := by
  have hla := ha.length
  have hxs := ha.le
  have hsuffix : (xs.drop rel).length = xs.length - rel := List.length_drop
  obtain ⟨a₁, b₁, h₁, hla₁, hlb₁, hga₁, hga₁', hgb₁⟩ := @copyBackwardsTwo_eq _ a b (xs.drop rel) aHalf
    bHalf (rel + es.length) (by omega) (by omega) (by omega)
  -- What is in front of the insertion point but does not fit into the first half.
  have hmove : ∃ b₂, (if aHalf < rel then copyFrom b₁ 0 (slice a₁ aHalf rel) else pure b₁) =
      .ok b₂ ∧ b₂.length = b₁.length ∧ ∀ i, b₂[i]? = if aHalf + i < rel then xs[aHalf + i]? else b₁[i]? := by
    split
    case isTrue hlt =>
      have hls : (slice a₁ aHalf rel).length = rel - aHalf := by
        rw [length_slice]
        omega
      obtain ⟨b₂, h₂, hc₂⟩ := @copyFrom_eq _ b₁ (slice a₁ aHalf rel) 0 (by omega)
      refine ⟨b₂, h₂, hc₂.length, fun i => ?_⟩
      rw [hc₂.get, getElem?_slice]
      have hget := ha.get (aHalf + i)
      have hsame := hga₁' (aHalf + i) (by omega)
      grind
    case isFalse hge =>
      exact ⟨b₁, rfl, rfl, fun i => by rw [if_neg (by omega)]⟩
  obtain ⟨b₂, h₂, hlb₂, hgb₂⟩ := hmove
  obtain ⟨a₃, b₃, h₃, hla₃, hlb₃, hga₃, _, hgb₃⟩ := @copyBackwardsTwo_eq _ a₁ b₂ es aHalf bHalf rel
    (by omega) (by omega) (by omega)
  refine ⟨a₃, b₃, ?_, ⟨by omega, ?_, fun i hi => ?_⟩, by omega, ?_, fun i hi => ?_⟩
  · unfold split
    dsimp only
    rw [ha.slice_length, h₁, ok_bind]
    dsimp only
    by_cases hlt : aHalf < rel
    · rw [if_pos hlt] at h₂ ⊢
      rw [h₂, ok_bind, h₃]
    · rw [if_neg hlt] at h₂ ⊢
      rw [h₂, ok_bind, h₃]
  · simp
    omega
  · simp at hi
    rw [hga₃ i (by omega), hga₁ i (by omega), List.getElem?_take, List.append_assoc,
      List.getElem?_append, List.getElem?_append, List.getElem?_take, List.getElem?_drop,
      List.getElem?_drop, List.length_take_of_le hr, hsuffix]
    have hget := ha.get i
    grind
  · simp
    omega
  · simp at hi
    have htarget : ((xs.take rel ++ es ++ xs.drop rel).drop aHalf)[i]? =
        if aHalf + i < rel then xs[aHalf + i]? else if aHalf + i - rel < es.length then
          es[aHalf + i - rel]? else xs[rel + (aHalf + i - rel - es.length)]? := by
      rw [List.getElem?_drop, List.append_assoc, List.getElem?_append, List.getElem?_append,
        List.getElem?_take, List.getElem?_drop, List.length_take_of_le hr]
      grind
    rw [htarget, hgb₃, hgb₂, hgb₁, hsuffix, List.getElem?_drop]
    grind

end Slices

section Prefixes

variable {indexes before after : List Nat} {c delta i : Nat}

-- The indexes of the nodes are the running totals of their counts.
def Prefixes (indexes counts : List Nat) : Prop :=
  ∀ i ≤ counts.length, indexes[i]? = some (counts.take i).sum

theorem sum_take_append : ((before ++ after).take i).sum =
    (before.take i).sum + (after.take (i - before.length)).sum := by
  rw [List.take_append, List.sum_append]

theorem sum_take_cons : ((c :: after).take i).sum = if i = 0 then 0 else c + (after.take (i - 1)).sum := by
  cases i with
  | zero   => rfl
  | succ i => simp

theorem sum_take_of_ge (h : before.length ≤ i) : (before.take i).sum = before.sum := by
  rw [List.take_of_length_le h]

namespace Prefixes

variable {counts : List Nat}

theorem read (h : Prefixes indexes counts) (hi : i ≤ counts.length) :
    SegmentedArray.read indexes i = .ok (counts.take i).sum := by
  rw [SegmentedArray.read, h i hi]
  rfl

theorem length (h : Prefixes indexes counts) : counts.length < indexes.length := by
  by_contra hlt
  have hget := h counts.length (Nat.le_refl _)
  rw [List.getElem?_eq_none (Nat.not_lt.mp hlt)] at hget
  cases hget

theorem increment (h : Prefixes indexes (before ++ c :: after)) :
    Prefixes (indexes.mapIdx fun i index =>
      if before.length < i ∧ i ≤ (before ++ c :: after).length then index + delta else index)
      (before ++ (c + delta) :: after) := by
  intro i hi
  have hlen : (before ++ (c + delta) :: after).length = (before ++ c :: after).length := by simp
  rw [hlen] at hi
  rw [List.getElem?_mapIdx, h i hi, sum_take_append, sum_take_append, sum_take_cons, sum_take_cons]
  grind

theorem decrement (h : Prefixes indexes (before ++ c :: after)) (hd : delta ≤ c) :
    Prefixes (indexes.mapIdx fun i index =>
      if before.length < i ∧ i ≤ (before ++ c :: after).length then index - delta else index)
      (before ++ (c - delta) :: after) := by
  intro i hi
  have hlen : (before ++ (c - delta) :: after).length = (before ++ c :: after).length := by simp
  rw [hlen] at hi
  rw [List.getElem?_mapIdx, h i hi, sum_take_append, sum_take_append, sum_take_cons, sum_take_cons]
  grind

-- No index behind a node is smaller than what the node loses.
theorem le_of_mem_slice (h : Prefixes indexes (before ++ c :: after)) (hd : delta ≤ c) :
    (slice indexes (before.length + 1) ((before ++ c :: after).length + 1)).all
      fun index => delta ≤ index := by
  rw [List.all_eq_true]
  intro index hm
  obtain ⟨i, hi⟩ := List.mem_iff_getElem?.mp hm
  rw [getElem?_slice] at hi
  split at hi
  case isFalse => cases hi
  case isTrue hlt =>
    rw [h _ (by omega), sum_take_append, sum_take_cons] at hi
    cases hi
    rw [if_neg (by omega)]
    simp
    omega

theorem insertEmpty (h : Prefixes indexes (before ++ after)) :
    ∃ indexes', copyWithin (indexes ++ [0]) before.length ((before ++ after).length + 1)
      (before.length + 1) = .ok indexes' ∧ Prefixes indexes' (before ++ 0 :: after) := by
  have hlen := h.length
  rw [List.length_append] at hlen
  have hs : (slice (indexes ++ [0]) before.length ((before ++ after).length + 1)).length =
      after.length + 1 := by
    rw [length_slice, List.length_append, List.length_append, List.length_singleton]
    omega
  obtain ⟨indexes', heq, hc⟩ := @copyFrom_eq _ (indexes ++ [0])
    (slice (indexes ++ [0]) before.length ((before ++ after).length + 1)) (before.length + 1)
    (by rw [hs, List.length_append, List.length_singleton]; omega)
  refine ⟨indexes', heq, fun i hi => ?_⟩
  rw [List.length_append, List.length_cons] at hi
  have hget : ∀ j ≤ before.length + after.length, (indexes ++ [0])[j]? =
      some ((before ++ after).take j).sum := fun j hj => by
    rw [List.getElem?_append, if_pos (by omega), h j (by rw [List.length_append]; exact hj)]
  rw [hc.get, hs, getElem?_slice, List.length_append]
  by_cases hin : before.length + 1 ≤ i ∧ i < before.length + 1 + (after.length + 1)
  case pos =>
    rw [if_pos hin, if_pos (by omega), hget _ (by omega), sum_take_append, sum_take_append,
      sum_take_cons, if_neg (by omega), @sum_take_of_ge before i (by omega),
      @sum_take_of_ge before (before.length + _) (by omega), Nat.zero_add]
    congr 4
    omega
  case neg =>
    rw [if_neg hin, hget _ (by omega), sum_take_append, sum_take_append, sum_take_cons]
    grind

theorem removeEmpty (h : Prefixes indexes (before ++ 0 :: after)) :
    ∃ indexes', copyWithin indexes (before.length + 1) ((before ++ 0 :: after).length + 1)
      before.length = .ok indexes' ∧ Prefixes indexes'.dropLast (before ++ after) := by
  have hlen := h.length
  rw [List.length_append, List.length_cons] at hlen
  have hs : (slice indexes (before.length + 1) ((before ++ 0 :: after).length + 1)).length =
      after.length + 1 := by
    rw [length_slice, List.length_append, List.length_cons]
    omega
  obtain ⟨indexes', heq, hc⟩ := @copyFrom_eq _ indexes
    (slice indexes (before.length + 1) ((before ++ 0 :: after).length + 1)) before.length
    (by rw [hs]; omega)
  refine ⟨indexes', heq, fun i hi => ?_⟩
  rw [List.length_append] at hi
  have hdrop : indexes'.dropLast[i]? = indexes'[i]? := by
    rw [List.getElem?_dropLast, if_pos (by rw [hc.length]; omega)]
  rw [hdrop, hc.get, hs, getElem?_slice, List.length_append, List.length_cons]
  have hget := fun j (hj : j ≤ before.length + (after.length + 1)) => h j (by simpa using hj)
  by_cases hin : before.length ≤ i ∧ i < before.length + (after.length + 1)
  case pos =>
    rw [if_pos hin, if_pos (by omega), hget _ (by omega), sum_take_append, sum_take_append,
      sum_take_cons, if_neg (by omega), @sum_take_of_ge before i (by omega),
      @sum_take_of_ge before (before.length + 1 + _) (by omega), Nat.zero_add]
    congr 4
    omega
  case neg =>
    rw [if_neg hin, hget _ (by omega), sum_take_append, sum_take_append, sum_take_cons]
    grind

variable {d : Nat}

-- The border between two nodes is moved, and the indexes after it are moved along with `step`.
theorem moved {c' d' : Nat} {step : Nat → Nat} (h : Prefixes indexes (before ++ c :: d :: after))
    (hstep : ∀ n, step (before.sum + (c + (d + n))) = before.sum + (c' + (d' + n))) :
    Prefixes ((indexes.set (before.length + 1) (before.sum + c')).mapIdx fun i index =>
      if before.length + 1 < i ∧ i ≤ (before ++ c :: d :: after).length then step index else index)
      (before ++ c' :: d' :: after) := by
  intro i hi
  have hlen := h.length
  simp only [List.length_append, List.length_cons] at hi hlen ⊢
  rw [List.getElem?_mapIdx, List.getElem?_set, sum_take_append, sum_take_cons, sum_take_cons]
  by_cases heq : before.length + 1 = i
  · subst heq
    rw [if_pos rfl, if_pos (by omega), sum_take_of_ge (by omega)]
    simp
  · rw [if_neg heq, h i (by simpa using hi), sum_take_append, sum_take_cons, sum_take_cons,
      Option.map_some]
    split
    case isTrue hlt =>
      rw [if_neg (by omega), if_neg (by omega), if_neg (by omega), if_neg (by omega),
        sum_take_of_ge (by omega), hstep]
    case isFalse hle => grind

theorem move {c' d' : Nat} (h : Prefixes indexes (before ++ c :: d :: after))
    (hsum : c' + d' = c + d) :
    Prefixes (indexes.set (before.length + 1) (before.sum + c')) (before ++ c' :: d' :: after) := by
  have hmoved := h.moved (fun n => show id (before.sum + (c + (d + n))) = _ by
    rw [id, ← Nat.add_assoc c', hsum, Nat.add_assoc])
  have hid : ∀ l : List Nat, (l.mapIdx fun _ index => index) = l := fun l =>
    List.ext_getElem? (by simp)
  simpa [hid] using hmoved

theorem moveIncrement {c' d' : Nat} (h : Prefixes indexes (before ++ c :: d :: after))
    (hsum : c' + d' = c + d + delta) :
    Prefixes ((indexes.set (before.length + 1) (before.sum + c')).mapIdx fun i index =>
      if before.length + 1 < i ∧ i ≤ (before ++ c :: d :: after).length then index + delta else index)
      (before ++ c' :: d' :: after) :=
  h.moved fun n => by omega

theorem moveDecrement {c' d' : Nat} (h : Prefixes indexes (before ++ c :: d :: after))
    (hsum : c' + d' + delta = c + d) :
    Prefixes ((indexes.set (before.length + 1) (before.sum + c')).mapIdx fun i index =>
      if before.length + 1 < i ∧ i ≤ (before ++ c :: d :: after).length then index - delta else index)
      (before ++ c' :: d' :: after) :=
  h.moved fun n => by omega

theorem le_of_mem_slice_set {v : Nat} (h : Prefixes indexes (before ++ c :: d :: after))
    (hd : delta ≤ c + d) : (slice (indexes.set (before.length + 1) v) (before.length + 1 + 1)
      ((before ++ c :: d :: after).length + 1)).all fun index => delta ≤ index := by
  rw [List.all_eq_true]
  intro index hm
  obtain ⟨i, hi⟩ := List.mem_iff_getElem?.mp hm
  rw [getElem?_slice] at hi
  split at hi
  case isFalse => cases hi
  case isTrue hlt =>
    rw [List.getElem?_set_ne (by omega), h _ (by omega), sum_take_append, sum_take_cons,
      sum_take_cons] at hi
    cases hi
    rw [if_neg (by omega), if_neg (by omega)]
    simp
    omega

end Prefixes

end Prefixes

end TigerBeetle.SegmentedArray
