import TigerBeetle.Theorems.SegmentedList
import TigerBeetle.BinarySearch

namespace TigerBeetle.BinarySearch

open Fallible

open SegmentedArray (read read_of_lt)

variable {Key Value : Type} [LinearOrder Key]
variable {keyFromValue : Value → Key} {values : List Value} {key keyMin keyMax : Key} {mode : Mode}
variable {offset length : Nat}

-- Several values may have the same key.
def Ascending (keyFromValue : Value → Key) (values : List Value) : Prop :=
  values.Pairwise fun v w => keyFromValue v ≤ keyFromValue w

variable {v : Value}

theorem Ascending.le {w : Value} {i j : Nat} (hs : Ascending keyFromValue values) (hij : i ≤ j)
    (hv : values[i]? = some v) (hw : values[j]? = some w) : keyFromValue v ≤ keyFromValue w := by
  obtain rfl | hlt := Nat.eq_or_lt_of_le hij
  · rw [Option.some.inj (hv.symm.trans hw)]
  · have ⟨hi, hv'⟩ := List.getElem?_eq_some_iff.mp hv
    have ⟨hj, hw'⟩ := List.getElem?_eq_some_iff.mp hw
    rw [← hv', ← hw']
    exact List.pairwise_iff_getElem.mp hs i j hi hj hlt

theorem Ascending.drop {n : Nat} (hs : Ascending keyFromValue values) :
    Ascending keyFromValue (values.drop n) :=
  List.Pairwise.sublist (List.drop_sublist n values) hs

namespace Mode

variable {k k' : Key}

theorem not_before : ¬mode.before k key ↔ mode.after k key := by
  cases mode
  · exact not_lt
  · exact not_le

theorem before.mono (h : mode.before k' key) (hle : k ≤ k') : mode.before k key := by
  cases mode
  · exact hle.trans_lt h
  · exact hle.trans h

theorem after.mono (h : mode.after k key) (hle : k ≤ k') : mode.after k' key := by
  cases mode
  · exact le_trans h hle
  · exact lt_of_lt_of_le h hle

theorem before.of_lt (h : k < key) : mode.before k key := by
  cases mode
  · exact h
  · exact h.le

theorem after.le (h : mode.after k key) : key ≤ k := by
  cases mode
  · exact h
  · exact le_of_lt h

end Mode

section Halving

-- What the halving keeps: the first value of the window, unless it is the first of all, is in front of
-- the index that is searched, and the value behind the window is behind that index.
structure Window (keyFromValue : Value → Key) (values : List Value) (key : Key) (mode : Mode)
    (offset length : Nat) : Prop where
  pos : 0 < length
  le : offset + length ≤ values.length
  below : ∀ v, offset ≠ 0 → values[offset]? = some v → mode.before (keyFromValue v) key
  above : ∀ v, values[offset + length]? = some v → mode.after (keyFromValue v) key

theorem assertBefore_eq (h : ∀ v, offset ≠ 0 → values[offset - 1]? = some v →
    mode.before (keyFromValue v) key) (hle : offset ≤ values.length) :
    assertBefore keyFromValue values key mode offset = .ok () := by
  unfold assertBefore
  split
  · rfl
  · next hne =>
    obtain ⟨value, hr, hv⟩ := @read_of_lt (offset - 1) _ values (by omega)
    rw [hr, ok_bind, assert_of (h value hne hv)]

theorem assertAfter_eq {stop : Nat} (h : ∀ v, values[stop]? = some v → mode.after (keyFromValue v) key)
    (hle : stop ≤ values.length) : assertAfter keyFromValue values key mode stop = .ok () := by
  unfold assertAfter
  split
  · rfl
  · next hne =>
    obtain ⟨value, hr, hv⟩ := @read_of_lt stop _ values (by omega)
    rw [hr, ok_bind, assert_of (h value hv)]

section

variable (w : Window keyFromValue values key mode offset length)

include w

theorem Window.before_of_lt (hs : Ascending keyFromValue values) {j : Nat} (hj : j < offset)
    (hv : values[j]? = some v) : mode.before (keyFromValue v) key := by
  have hle := w.le
  have hpos := w.pos
  have hfirst := List.getElem?_eq_getElem (show offset < values.length by omega)
  exact (w.below _ (by omega) hfirst).mono (hs.le hj.le hv hfirst)

theorem Window.assertBefore (hs : Ascending keyFromValue values) :
    assertBefore keyFromValue values key mode offset = .ok () := by
  have hle := w.le
  exact assertBefore_eq (fun v hne hv => w.before_of_lt hs (by omega) hv) (by omega)

theorem Window.assertAfter : assertAfter keyFromValue values key mode (offset + length) = .ok () :=
  assertAfter_eq w.above w.le

theorem Window.narrow {value : Value}
    (hs : Ascending keyFromValue values) (hlong : 1 < length)
    (hv : values[offset + length / 2]? = some value) : Window keyFromValue values key mode
      (if mode.before (keyFromValue value) key then offset + length / 2 else offset)
      (length - length / 2) := by
  have hle := w.le
  split
  · next hbefore =>
    refine ⟨by omega, by omega, fun v _ hv' => ?_, fun v hv' => w.above v ?_⟩
    · rwa [← Option.some.inj (hv.symm.trans hv')]
    · rwa [show offset + length / 2 + (length - length / 2) = offset + length by omega] at hv'
  · next hafter =>
    refine ⟨by omega, by omega, w.below, fun v hv' => ?_⟩
    exact (Mode.not_before.mp hafter).mono (hs.le (by omega) hv hv')

end

theorem halve_eq {fuel : Nat} (hs : Ascending keyFromValue values)
    (w : Window keyFromValue values key mode offset length) (hf : length ≤ fuel) :
    ∃ found, halve keyFromValue values key mode fuel offset length = .ok found ∧
      Window keyFromValue values key mode found 1 := by
  induction fuel generalizing offset length with
  | zero =>
    have hpos := w.pos
    omega
  | succ fuel ih =>
    have hle := w.le
    have hpos := w.pos
    unfold halve
    by_cases hlong : length > 1
    case pos =>
      obtain ⟨value, hr, hv⟩ := @read_of_lt (offset + length / 2) _ values (by omega)
      rw [if_pos hlong, w.assertBefore hs, ok_bind, w.assertAfter, ok_bind]
      dsimp only
      rw [hr, ok_bind]
      exact ih (w.narrow hs hlong hv) (by omega)
    case neg =>
      obtain rfl : length = 1 := by omega
      rw [if_neg hlong, assert_of rfl, ok_bind]
      exact ⟨offset, rfl, w⟩

end Halving

-- Where a value equal to the key is, or where it would be inserted.
structure Upsert (keyFromValue : Value → Key) (values : List Value) (key : Key) (mode : Mode)
    (index : Nat) : Prop where
  le : index ≤ values.length
  before : ∀ (j : Nat) v, values[j]? = some v → j < index → mode.before (keyFromValue v) key
  after : ∀ (j : Nat) v, values[j]? = some v → index < j → mode.after (keyFromValue v) key
  upsert : ∀ v, values[index]? = some v → key ≤ keyFromValue v
  found : ∀ (j : Nat) v, values[j]? = some v → keyFromValue v = key →
    ∃ w, values[index]? = some w ∧ keyFromValue w = key

-- The last step goes past a value with a smaller key.
theorem Window.upsert {value : Value} (w : Window keyFromValue values key mode offset 1)
    (hs : Ascending keyFromValue values) (hv : values[offset]? = some value) :
    Upsert keyFromValue values key mode (offset + if keyFromValue value < key then 1 else 0) := by
  have hle := w.le
  have hafter : ∀ (j : Nat) v, values[j]? = some v → offset < j → mode.after (keyFromValue v) key := by
    intro j v hj hlt
    have ⟨hj', _⟩ := List.getElem?_eq_some_iff.mp hj
    have hnext := List.getElem?_eq_getElem (show offset + 1 < values.length by omega)
    exact (w.above _ hnext).mono (hs.le hlt hnext hj)
  split
  · next hlt =>
    have hsmaller : ∀ (j : Nat) v, values[j]? = some v → j < offset + 1 → keyFromValue v < key :=
      fun j v hj hjlt => (hs.le (by omega) hj hv).trans_lt hlt
    refine ⟨hle, fun j v hj hjlt => .of_lt (hsmaller j v hj hjlt), fun j v hj hjlt =>
      hafter j v hj (by omega), fun v hv' => (hafter _ v hv' (Nat.lt_succ_self _)).le, ?_⟩
    intro j v hj heq
    have hge : offset + 1 ≤ j := Nat.le_of_not_lt fun hjlt => (hsmaller j v hj hjlt).ne heq
    have ⟨hj', _⟩ := List.getElem?_eq_some_iff.mp hj
    have hnext := List.getElem?_eq_getElem (show offset + 1 < values.length by omega)
    refine ⟨_, hnext, le_antisymm ?_ (hafter _ _ hnext (Nat.lt_succ_self _)).le⟩
    exact heq ▸ hs.le hge hnext hj
  · next hge =>
    have hge := not_lt.mp hge
    refine ⟨by omega, fun j v hj hjlt => w.before_of_lt hs hjlt hj, fun j v hj hjlt =>
      hafter j v hj hjlt, fun v hv' => Option.some.inj (hv.symm.trans hv') ▸ hge, ?_⟩
    intro j v hj heq
    refine ⟨value, hv, le_antisymm ?_ hge⟩
    obtain hjle | hjlt := le_or_gt offset j
    · exact heq ▸ hs.le hjle hv hj
    · -- The window is not the first value then, which is in front of the index.
      have hbefore := w.below value (by omega) hv
      cases mode
      · exact le_of_lt hbefore
      · exact hbefore

theorem Upsert.assertNextAfter {index : Nat} (u : Upsert keyFromValue values key mode index) :
    assertNextAfter keyFromValue values key mode index = .ok () := by
  unfold BinarySearch.assertNextAfter
  split
  · rfl
  · obtain ⟨value, hr, hv⟩ := @read_of_lt (index + 1) _ values (by omega)
    rw [hr, ok_bind, assert_of (u.after _ value hv (Nat.lt_succ_self _))]

theorem Upsert.assertUpsert {index : Nat} (u : Upsert keyFromValue values key mode index) :
    assertUpsert keyFromValue values key index = .ok () := by
  have hle := u.le
  unfold BinarySearch.assertUpsert
  split
  · rfl
  · obtain ⟨value, hr, hv⟩ := @read_of_lt index _ values (by omega)
    rw [hr, ok_bind, assert_of (u.upsert value hv)]

theorem binarySearchValuesUpsertIndex_eq (hs : Ascending keyFromValue values)
    (hlen : values.length < u32Modulus) :
    ∃ index, binarySearchValuesUpsertIndex keyFromValue values key ⟨mode⟩ = .ok index ∧
      Upsert keyFromValue values key mode index := by
  unfold binarySearchValuesUpsertIndex
  by_cases hnil : values = []
  case pos =>
    subst hnil
    exact ⟨0, if_pos rfl, Nat.le_refl _, nofun, nofun, nofun, nofun⟩
  case neg =>
    have hpos := List.length_pos_iff.mpr hnil
    have hwhole : Window keyFromValue values key mode 0 values.length := by
      refine ⟨hpos, by omega, fun v hne => absurd rfl hne, fun v hv => ?_⟩
      rw [Nat.zero_add, List.getElem?_eq_none (Nat.le_refl _)] at hv
      cases hv
    obtain ⟨offset, hhalve, w⟩ := halve_eq hs hwhole (Nat.le_refl _)
    have hle := w.le
    obtain ⟨value, hr, hv⟩ := @read_of_lt offset _ values (by omega)
    have u := w.upsert hs hv
    have hindex := u.le
    rw [if_neg hnil]
    dsimp only
    rw [hhalve, ok_bind, w.assertBefore hs, ok_bind, w.assertAfter, ok_bind, hr, ok_bind,
      assertBefore_eq (fun v hne hv => u.before _ v hv (by omega)) hindex, ok_bind, u.assertNextAfter,
      ok_bind, u.assertUpsert, ok_bind, if_pos (by unfold u32Max; omega)]
    exact ⟨_, rfl, u⟩

section Matches

variable {index : Nat}

-- The indexes of the values with the key.
def matching (keyFromValue : Value → Key) (values : List Value) (key : Key) : Set Nat :=
  { index | ∃ value, values[index]? = some value ∧ keyFromValue value = key }

theorem Upsert.isLeast (u : Upsert keyFromValue values key .lowerBound index)
    (h : (matching keyFromValue values key).Nonempty) :
    IsLeast (matching keyFromValue values key) index := by
  obtain ⟨j, v, hj, heq⟩ := h
  refine ⟨u.found j v hj heq, fun i hi => ?_⟩
  obtain ⟨v, hi, heq⟩ := hi
  exact Nat.le_of_not_lt fun hlt => (show keyFromValue v < key from u.before i v hi hlt).ne heq

theorem Upsert.isGreatest (u : Upsert keyFromValue values key .upperBound index)
    (h : (matching keyFromValue values key).Nonempty) :
    IsGreatest (matching keyFromValue values key) index := by
  obtain ⟨j, v, hj, heq⟩ := h
  refine ⟨u.found j v hj heq, fun i hi => ?_⟩
  obtain ⟨v, hi, heq⟩ := hi
  exact Nat.le_of_not_lt fun hlt => (show key < keyFromValue v from u.after i v hi hlt).ne' heq

-- A value is found if there is one with the key.
theorem binarySearchValues_ok (hs : Ascending keyFromValue values) (hlen : values.length < u32Modulus)
    (config : Config) :
    ∃ found, binarySearchValues keyFromValue values key config = .ok found ∧
      (found.isSome ↔ ∃ value ∈ values, keyFromValue value = key) ∧
      ∀ value ∈ found, value ∈ values ∧ keyFromValue value = key := by
  obtain ⟨index, hindex, u⟩ := @binarySearchValuesUpsertIndex_eq _ _ _ _ _ key config.mode hs hlen
  have hnone : (∀ w, values[index]? = some w → keyFromValue w ≠ key) →
      ¬∃ value ∈ values, keyFromValue value = key := fun hne ⟨value, hm, heq⟩ => by
    obtain ⟨j, hj⟩ := List.mem_iff_getElem?.mp hm
    obtain ⟨w, hw, heq'⟩ := u.found j value hj heq
    exact hne w hw heq'
  unfold binarySearchValues
  rw [hindex, ok_bind]
  split
  · next hv =>
    exact ⟨none, rfl, iff_of_false nofun (hnone fun w hw => by rw [hv] at hw; cases hw), nofun⟩
  · next value hv =>
    split
    · next heq =>
      have hm := List.mem_of_getElem? hv
      rw [assert_of heq.symm]
      refine ⟨some value, rfl, iff_of_true rfl ⟨value, hm, heq⟩, fun w hw => ?_⟩
      cases hw
      exact ⟨hm, heq⟩
    · next hne =>
      refine ⟨none, rfl, iff_of_false nofun (hnone fun w hw => ?_), nofun⟩
      rwa [← Option.some.inj (hv.symm.trans hw)]

end Matches

section Range

variable {start stop : Nat}

-- The lower bound separates the smaller keys from the others.
theorem Upsert.lt_iff {j : Nat} (u : Upsert keyFromValue values key .lowerBound start)
    (hv : values[j]? = some v) : j < start ↔ keyFromValue v < key := by
  refine ⟨u.before j v hv, fun hlt => Nat.lt_of_not_le fun hge => ?_⟩
  obtain rfl | hgt := Nat.eq_or_lt_of_le hge
  · exact (u.upsert v hv).not_gt hlt
  · exact (show key ≤ keyFromValue v from u.after j v hv hgt).not_gt hlt

-- The values up to the upper bound, and the one there if it has the key, have no greater keys.
theorem Upsert.le_iff {j : Nat} (u : Upsert keyFromValue values key .upperBound stop)
    (hv : values[j]? = some v) :
    j < stop + (if ∃ value ∈ values[stop]?, key = keyFromValue value then 1 else 0) ↔
      keyFromValue v ≤ key := by
  obtain hlt | rfl | hgt := Nat.lt_trichotomy j stop
  · exact iff_of_true (by omega) (u.before j v hv hlt)
  · have hupsert := u.upsert v hv
    split
    · next hfound =>
      obtain ⟨w, hw, heq⟩ := hfound
      cases hv.symm.trans hw
      exact iff_of_true (Nat.lt_succ_self _) heq.ge
    · next hnot =>
      refine iff_of_false (Nat.lt_irrefl _) fun hle => hnot ⟨v, hv, le_antisymm hupsert hle⟩
  · have hafter : key < keyFromValue v := u.after j v hv hgt
    refine iff_of_false ?_ hafter.not_ge
    split <;> omega

theorem Upsert.inclusive_le (u : Upsert keyFromValue values key .upperBound stop) :
    stop + (if ∃ value ∈ values[stop]?, key = keyFromValue value then 1 else 0) ≤ values.length := by
  have hle := u.le
  split
  · next hfound =>
    obtain ⟨w, hw, -⟩ := hfound
    exact (List.getElem?_eq_some_iff.mp hw).1
  · exact hle

-- The values whose key lies in the range stand next to each other.
theorem binarySearchValuesRange_slices (hs : Ascending keyFromValue values) (hle : keyMin ≤ keyMax)
    (hlen : values.length < u32Modulus) :
    ∃ range, binarySearchValuesRange keyFromValue values keyMin keyMax = .ok range ∧
      range.start + range.count ≤ values.length ∧
      (∀ (i : Nat) value, values[i]? = some value →
        (range.start ≤ i ∧ i < range.start + range.count ↔
          keyMin ≤ keyFromValue value ∧ keyFromValue value ≤ keyMax)) := by
  obtain ⟨start, hstart, u⟩ := @binarySearchValuesUpsertIndex_eq _ _ _ _ _ keyMin .lowerBound hs hlen
  have hbound := u.le
  unfold binarySearchValuesRange binarySearchValuesRangeUpsertIndexes
  rw [assert_of hle, ok_bind, hstart, ok_bind, Nat.mod_eq_of_lt hlen]
  by_cases hend : start = values.length
  · -- All keys are smaller.
    rw [if_pos hend]
    show ∃ range, (if start = values.length then _ else _) = _ ∧ _
    rw [if_pos hend]
    refine ⟨_, rfl, by dsimp only; omega, fun i value hv => iff_of_false (by dsimp only; omega) ?_⟩
    have ⟨hi, _⟩ := List.getElem?_eq_some_iff.mp hv
    have hsmaller := (u.lt_iff hv).mp (hend ▸ hi)
    exact fun ⟨hmin, _⟩ => hmin.not_gt hsmaller
  · have hdrop : (values.drop start).length = values.length - start := List.length_drop
    obtain ⟨stop, hstop, u'⟩ := @binarySearchValuesUpsertIndex_eq _ _ _ keyFromValue
      (values.drop start) keyMax .upperBound hs.drop (by omega)
    have hlast := u'.inclusive_le
    have hle' := u'.le
    rw [if_neg hend, assert_of hbound, ok_bind, hstop, ok_bind, assert_of (by omega), ok_bind]
    show ∃ range, (if start = values.length then _ else _) = _ ∧ _
    rw [if_neg hend]
    dsimp only
    rw [← List.getElem?_drop, assert_of (Nat.le_add_right _ _), ok_bind, Nat.add_sub_cancel_left,
      assert_of (by omega), ok_bind]
    refine ⟨_, rfl, by dsimp only; omega, fun i value hv => ?_⟩
    have hge : start ≤ i ↔ keyMin ≤ keyFromValue value := by
      rw [← not_lt, u.lt_iff hv, not_lt]
    refine ⟨fun ⟨hi, hcount⟩ => ⟨hge.mp hi, ?_⟩, fun ⟨hmin, hmax⟩ => ⟨hge.mpr hmin, ?_⟩⟩
    · obtain ⟨j, rfl⟩ := Nat.exists_eq_add_of_le hi
      exact (u'.le_iff (List.getElem?_drop.trans hv)).mp (Nat.add_lt_add_iff_left.mp hcount)
    · obtain ⟨j, rfl⟩ := Nat.exists_eq_add_of_le (hge.mpr hmin)
      exact Nat.add_lt_add_left ((u'.le_iff (List.getElem?_drop.trans hv)).mpr hmax) start

end Range

-- A slice of a list is what a predicate selects if it holds exactly inside the slice.
theorem slice_eq_filter {p : Value → Prop} [DecidablePred p] {start count : Nat}
    (hle : start + count ≤ values.length)
    (h : ∀ (i : Nat) value, values[i]? = some value → (start ≤ i ∧ i < start + count ↔ p value)) :
    (values.drop start).take count = values.filter p := by
  have hparts : values = values.take start ++ ((values.drop start).take count ++
      values.drop (start + count)) := by
    rw [← List.drop_drop, List.take_append_drop, List.take_append_drop]
  have hfront : (values.take start).filter p = [] := by
    refine List.filter_eq_nil_iff.mpr fun value hm hp => ?_
    obtain ⟨i, hi⟩ := List.mem_iff_getElem?.mp hm
    have ⟨hlen, _⟩ := List.getElem?_eq_some_iff.mp hi
    rw [List.length_take] at hlen
    rw [List.getElem?_take_of_lt (by omega)] at hi
    have := (h i value hi).mpr (of_decide_eq_true hp)
    omega
  have hback : (values.drop (start + count)).filter p = [] := by
    refine List.filter_eq_nil_iff.mpr fun value hm hp => ?_
    obtain ⟨i, hi⟩ := List.mem_iff_getElem?.mp hm
    rw [List.getElem?_drop] at hi
    have := (h _ value hi).mpr (of_decide_eq_true hp)
    omega
  have hmiddle : ((values.drop start).take count).filter p = (values.drop start).take count := by
    refine List.filter_eq_self.mpr fun value hm => decide_eq_true ?_
    obtain ⟨i, hi⟩ := List.mem_iff_getElem?.mp hm
    have ⟨hlen, _⟩ := List.getElem?_eq_some_iff.mp hi
    rw [List.length_take] at hlen
    rw [List.getElem?_take_of_lt (by omega), List.getElem?_drop] at hi
    exact (h _ value hi).mp ⟨Nat.le_add_right _ _, by omega⟩
  calc (values.drop start).take count
      = (values.take start).filter p ++ (((values.drop start).take count).filter p ++
          (values.drop (start + count)).filter p) := by
        rw [hfront, hmiddle, hback, List.append_nil, List.nil_append]
    _ = values.filter p := by
        rw [← List.filter_append, ← List.filter_append, ← hparts]

-- The values in a range of keys are sliced exactly, and the bounds of a key are the first and the last
-- of the indexes where it stands.
theorem binarySearch_exact (hs : Ascending keyFromValue values) (hlen : values.length < u32Modulus) :
    (∀ keyMin keyMax, keyMin ≤ keyMax → ∃ range,
      binarySearchValuesRange keyFromValue values keyMin keyMax = .ok range ∧
        (∀ (i : Nat) value, values[i]? = some value →
          (range.start ≤ i ∧ i < range.start + range.count ↔
            keyMin ≤ keyFromValue value ∧ keyFromValue value ≤ keyMax)) ∧
        (values.drop range.start).take range.count =
          values.filter (fun value => keyMin ≤ keyFromValue value ∧ keyFromValue value ≤ keyMax) ∧
        range.start + range.count ≤ values.length) ∧
    ∀ key, ∃ first last,
      binarySearchValuesUpsertIndex keyFromValue values key ⟨.lowerBound⟩ = .ok first ∧
        binarySearchValuesUpsertIndex keyFromValue values key ⟨.upperBound⟩ = .ok last ∧
        Upsert keyFromValue values key .lowerBound first ∧
        Upsert keyFromValue values key .upperBound last ∧
        ((matching keyFromValue values key).Nonempty →
          IsLeast (matching keyFromValue values key) first ∧
            IsGreatest (matching keyFromValue values key) last) := by
  refine ⟨fun keyMin keyMax hle => ?_, fun key => ?_⟩
  · obtain ⟨range, hrange, hbound, hiff⟩ := binarySearchValuesRange_slices hs hle hlen
    exact ⟨range, hrange, hiff, slice_eq_filter hbound hiff, hbound⟩
  · obtain ⟨first, hfirst, u⟩ := @binarySearchValuesUpsertIndex_eq _ _ _ _ _ key .lowerBound hs hlen
    obtain ⟨last, hlast, u'⟩ := @binarySearchValuesUpsertIndex_eq _ _ _ _ _ key .upperBound hs hlen
    exact ⟨first, last, hfirst, hlast, u, u', fun h => ⟨u.isLeast h, u'.isGreatest h⟩⟩

-- The keys in front of the range, in it and behind it are there twice.
theorem binarySearch_exact_of_twice : ∃ range,
    binarySearchValuesRange id [1, 1, 3, 3, 5, 5] 2 4 = .ok range ∧
      ([1, 1, 3, 3, 5, 5].drop range.start).take range.count = [3, 3] := by
  have ⟨h, _⟩ := @binarySearch_exact Nat Nat _ id [1, 1, 3, 3, 5, 5]
    (show List.Pairwise _ _ by decide) (by decide)
  obtain ⟨range, hrange, -, hslice, -⟩ := h 2 4 (by decide)
  exact ⟨range, hrange, hslice⟩

theorem binarySearchValues_ok_of_twice : ∃ found,
    binarySearchValues id [1, 1, 3, 3, 5, 5] 3 ⟨.lowerBound⟩ = .ok found ∧ found.isSome = true := by
  have ⟨found, hfound, hs, _⟩ := @binarySearchValues_ok Nat Nat _ id [1, 1, 3, 3, 5, 5] 3
    (show List.Pairwise _ _ by decide) (by decide) ⟨.lowerBound⟩
  exact ⟨found, hfound, hs.mpr ⟨3, by decide, rfl⟩⟩

-- The upper bound is not the first index of a key that is there twice, and the lower bound is not the
-- last one.
theorem upsertIndex_of_twice : ¬∀ (values : List Nat) (key first last : Nat),
    Ascending id values → values.length < u32Modulus → (matching id values key).Nonempty →
    binarySearchValuesUpsertIndex id values key ⟨.upperBound⟩ = .ok first →
    binarySearchValuesUpsertIndex id values key ⟨.lowerBound⟩ = .ok last →
    IsLeast (matching id values key) first ∧ IsGreatest (matching id values key) last := by
  intro h
  have ⟨hleast, _⟩ := h [1, 1] 1 1 0 (show List.Pairwise _ _ by decide) (by decide)
    ⟨0, 1, rfl, rfl⟩ (by decide) (by decide)
  exact absurd (hleast.2 (show 0 ∈ matching id [1, 1] 1 from ⟨1, rfl, rfl⟩)) (by decide)

end TigerBeetle.BinarySearch
