import TigerBeetle.Radix
import TigerBeetle.StableSort

namespace TigerBeetle.Radix

open Fallible

variable {Key Value : Type} {keyFromValue : Value → Key}

section Insertion

variable [LinearOrder Key] {value : Value} {before values : List Value}

theorem mem_sink {a : Value} : a ∈ sink keyFromValue value before ↔ a = value ∨ a ∈ before := by
  induction before with
  | nil => simp [sink]
  | cons previous before ih =>
    unfold sink
    split
    · rw [List.mem_cons, ih, List.mem_cons]
      tauto
    · simp

theorem sink_descending (h : before.Pairwise fun a b => keyFromValue b ≤ keyFromValue a) :
    (sink keyFromValue value before).Pairwise fun a b => keyFromValue b ≤ keyFromValue a := by
  induction before with
  | nil => exact List.pairwise_singleton ..
  | cons previous before ih =>
    have ⟨hp, hb⟩ := List.pairwise_cons.mp h
    unfold sink
    split
    case isTrue hlt =>
      refine List.pairwise_cons.mpr ⟨fun a ha => ?_, ih hb⟩
      obtain rfl | ha := mem_sink.mp ha
      · exact hlt.le
      · exact hp a ha
    case isFalse hle =>
      refine List.pairwise_cons.mpr ⟨fun a ha => ?_, h⟩
      obtain rfl | ha := List.mem_cons.mp ha
      · exact not_lt.mp hle
      · exact (hp a ha).trans (not_lt.mp hle)

-- A value does not sink through those with its own key.
theorem filter_sink {k : Key} : (sink keyFromValue value before).filter (keyFromValue · = k) =
    (value :: before).filter (keyFromValue · = k) := by
  induction before with
  | nil => rfl
  | cons previous before ih =>
    unfold sink
    split
    case isTrue hlt =>
      have hne : keyFromValue previous = k → keyFromValue value ≠ k := by
        rintro rfl heq
        exact absurd heq hlt.ne
      rw [List.filter_cons, ih]
      by_cases hk : keyFromValue previous = k
      · simp [hk, hne hk]
      · simp [hk, List.filter_cons]
    case isFalse => rfl

theorem insertionSort_sorts : SortsBy keyFromValue values (insertionSort keyFromValue values) := by
  suffices h : ∀ (values done before : List Value), SortsBy keyFromValue done before.reverse →
      SortsBy keyFromValue (done ++ values)
        (values.foldl (fun before value => sink keyFromValue value before) before).reverse by
    have hnil : SortsBy keyFromValue [] ([] : List Value).reverse := ⟨List.Pairwise.nil, fun _ => rfl⟩
    exact h values [] [] hnil
  intro values
  induction values with
  | nil =>
    intro done before h
    rwa [List.append_nil]
  | cons value values ih =>
    intro done before h
    rw [List.append_cons, List.foldl_cons]
    refine ih _ _ ⟨?_, fun k => ?_⟩
    · rw [List.pairwise_reverse]
      exact sink_descending (List.pairwise_reverse.mp h.ascending)
    · have hstable := h.stable k
      rw [List.filter_reverse] at hstable ⊢
      rw [filter_sink, List.filter_append, ← hstable, List.filter_cons, List.filter_cons]
      split <;> simp

end Insertion

-- The digits of a number for each pass.
def digitOf (radixBits pass n : Nat) : Nat :=
  n / 2 ^ (pass * radixBits) % 2 ^ radixBits

theorem digitOf_lt {radixBits pass n : Nat} : digitOf radixBits pass n < 2 ^ radixBits :=
  Nat.mod_lt _ (Nat.two_pow_pos _)

theorem mod_two_pow_succ {radixBits pass n : Nat} : n % 2 ^ ((pass + 1) * radixBits) =
    digitOf radixBits pass n * 2 ^ (pass * radixBits) + n % 2 ^ (pass * radixBits) := by
  rw [Nat.succ_mul, Nat.pow_add, Nat.mod_mul, Nat.add_comm, Nat.mul_comm]
  rfl

section Scatter

variable {buckets : Nat} {f f' : Nat → List Value}

theorem flatMap_range_split {q : Nat} (hq : q < buckets) : ∃ after : Nat → Nat, ∃ n,
    (∀ i, q < after i) ∧ ∀ f : Nat → List Value, (List.range buckets).flatMap f =
      (List.range q).flatMap f ++ (f q ++ (List.range n).flatMap fun i => f (after i)) := by
  refine ⟨fun i => q + (1 + i), buckets - q - 1, fun i => by dsimp only; omega, fun f => ?_⟩
  have hsum : buckets = q + (1 + (buckets - q - 1)) := by omega
  conv_lhs => rw [hsum]
  rw [List.range_add, List.flatMap_append, List.range_add, List.map_append, List.flatMap_append]
  simp [List.flatMap_map, Nat.add_assoc]

theorem flatMap_congr_of_lt {q : Nat} (h : ∀ j < q, f' j = f j) :
    (List.range q).flatMap f' = (List.range q).flatMap f := by
  have hmap : (List.range q).map f' = (List.range q).map f :=
    List.map_congr_left fun j hj => h j (List.mem_range.mp hj)
  rw [List.flatMap_def, List.flatMap_def, hmap]

theorem set_flatMap {q : Nat} {before after : List Value} {old new : Value} (hq : q < buckets)
    (hf : f q = before ++ old :: after) (hf' : f' q = before ++ new :: after)
    (hne : ∀ j, j ≠ q → f' j = f j) :
    ((List.range q).flatMap f).length + before.length < ((List.range buckets).flatMap f).length ∧
      ((List.range buckets).flatMap f).set (((List.range q).flatMap f).length + before.length) new =
        (List.range buckets).flatMap f' := by
  have ⟨next, n, hlt, hsplit⟩ := @flatMap_range_split Value _ _ hq
  have htail : (List.range n).flatMap (fun i => f' (next i)) =
      (List.range n).flatMap fun i => f (next i) :=
    flatMap_congr_of_lt fun i _ => hne _ (Nat.ne_of_gt (hlt i))
  rw [hsplit f, hsplit f', hf, hf', htail, flatMap_congr_of_lt fun j hj => hne j (Nat.ne_of_lt hj)]
  constructor
  · simp
  · rw [List.set_append_right _ _ (Nat.le_add_right ..), Nat.add_sub_cancel_left, List.append_assoc,
      List.set_append_right _ _ (Nat.le_refl _), Nat.sub_self, List.append_assoc]
    rfl

theorem exists_flatMap {c : Nat → Nat} {target : List Value} (n : Nat)
    (h : target.length = ((List.range n).map c).sum) :
    ∃ gap : Nat → List Value, (∀ j < n, (gap j).length = c j) ∧
      target = (List.range n).flatMap gap := by
  induction n generalizing target with
  | zero => exact ⟨fun _ => [], nofun, List.eq_nil_of_length_eq_zero h⟩
  | succ n ih =>
    rw [List.range_succ, List.map_append, List.sum_append, List.map_singleton,
      List.sum_singleton] at h
    have htake : (target.take ((List.range n).map c).sum).length = ((List.range n).map c).sum :=
      List.length_take_of_le (by omega)
    obtain ⟨gap, hl, heq⟩ := ih htake
    refine ⟨Function.update gap n (target.drop ((List.range n).map c).sum), fun j hj => ?_, ?_⟩
    · by_cases hn : j = n
      · rw [hn, Function.update_self, List.length_drop]
        omega
      · rw [Function.update_of_ne hn]
        exact hl j (by omega)
    · have hsame : (List.range n).flatMap (Function.update gap n
          (target.drop ((List.range n).map c).sum)) = (List.range n).flatMap gap :=
        flatMap_congr_of_lt fun j hj => Function.update_of_ne (Nat.ne_of_lt hj) ..
      rw [List.range_succ, List.flatMap_append, hsame, List.flatMap_singleton, Function.update_self,
        ← heq, List.take_append_drop]

end Scatter

section Passes

variable [RadixKey Key] {r : Value → Nat} {radixBits pass : Nat} {values : List Value}

-- The sort is given the digits of a number.
def HasDigit (keyFromValue : Value → Key) (r : Value → Nat) (radixBits pass : Nat) (value : Value) :
    Prop :=
  RadixKey.digit (keyFromValue value) (pass * radixBits) radixBits =
    .ok (digitOf radixBits pass (r value))

-- The offset of a partition is behind what the partition holds so far.
def Points (digit : Value → Nat) (buckets : Nat) (done : List Value) (gap : Nat → List Value)
    (offsets : List Nat) : Prop :=
  ∀ j < buckets, offsets[j]? = some
    (((List.range j).flatMap fun j => done.filter (digit · = j) ++ gap j).length +
      (done.filter (digit · = j)).length)

theorem scatter_meets {source : List Value} {done target : List Value} {offsets : List Nat}
    {gap : Nat → List Value} (hd : ∀ value ∈ source, HasDigit keyFromValue r radixBits pass value)
    (hg : ∀ j < 2 ^ radixBits, (gap j).length =
      source.countP fun a => digitOf radixBits pass (r a) = j)
    (ht : target = (List.range (2 ^ radixBits)).flatMap fun j =>
      done.filter (fun a => digitOf radixBits pass (r a) = j) ++ gap j)
    (ho : Points (fun a => digitOf radixBits pass (r a)) (2 ^ radixBits) done gap offsets) :
    scatter keyFromValue (pass * radixBits) radixBits source target offsets =
      .ok (gather (fun a => digitOf radixBits pass (r a)) (2 ^ radixBits) (done ++ source)) := by
  induction source generalizing done target offsets gap with
  | nil =>
    unfold scatter gather
    rw [ht, List.append_nil]
    congr 1
    refine flatMap_congr_of_lt fun j hj => ?_
    rw [List.eq_nil_of_length_eq_zero (hg j hj), List.append_nil]
  | cons value source ih =>
    have hq : digitOf radixBits pass (r value) < 2 ^ radixBits := digitOf_lt
    generalize hdigit : digitOf radixBits pass (r value) = q at hq
    have hlen := hg q hq
    rw [List.countP_cons_of_pos (by simpa using hdigit)] at hlen
    obtain ⟨old, rest, hgap⟩ := List.exists_cons_of_length_eq_add_one hlen
    have hold : HasDigit keyFromValue r radixBits pass value := hd value List.mem_cons_self
    -- The first place of the gap is filled.
    have hnew : ∀ j, (done ++ [value]).filter (fun a => digitOf radixBits pass (r a) = j) ++
        Function.update gap q rest j = if j = q then
          done.filter (fun a => digitOf radixBits pass (r a) = q) ++ value :: rest
        else done.filter (fun a => digitOf radixBits pass (r a) = j) ++ gap j := by
      intro j
      rw [List.filter_append]
      split
      case isTrue hj => simp [hj, hdigit]
      case isFalse hj =>
        have hne : ¬q = j := fun h => hj h.symm
        simp [hj, hdigit, hne]
    have ⟨hlt, hset⟩ := @set_flatMap _ _
      (fun j => done.filter (fun a => digitOf radixBits pass (r a) = j) ++ gap j)
      (fun j => (done ++ [value]).filter (fun a => digitOf radixBits pass (r a) = j) ++
        Function.update gap q rest j) q
      (done.filter fun a => digitOf radixBits pass (r a) = q) rest old value hq (by rw [hgap])
      (by rw [hnew, if_pos rfl]) fun j hj => by rw [hnew, if_neg hj]
    unfold scatter
    rw [hold, ok_bind, hdigit, ho q hq]
    dsimp only
    rw [assert_of (by rw [ht]; exact hlt), ok_bind, List.append_cons]
    refine ih (fun a ha => hd a (List.mem_cons_of_mem _ ha)) (fun j hj => ?_)
      (by rw [ht, hset]) fun j hj => ?_
    · by_cases hjq : j = q
      · rw [hjq, Function.update_self]
        rw [hgap, List.length_cons] at hlen
        omega
      · have hne : ¬q = j := fun h => hjq h.symm
        rw [Function.update_of_ne hjq, hg j hj, List.countP_cons_of_neg (by simpa [hdigit] using hne)]
    · have hsame : ((List.range j).flatMap fun j =>
          (done ++ [value]).filter (fun a => digitOf radixBits pass (r a) = j) ++
            Function.update gap q rest j).length =
          ((List.range j).flatMap fun j =>
            done.filter (fun a => digitOf radixBits pass (r a) = j) ++ gap j).length := by
        rw [List.length_flatMap, List.length_flatMap]
        congr 1
        refine List.map_congr_left fun i _ => ?_
        rw [hnew]
        split
        case isTrue hi => simp [hi, hgap]
        case isFalse => rfl
      rw [hsame, List.getElem?_modify, ho j hj, List.filter_append]
      by_cases hjq : q = j
      · simp [hjq, hdigit, Nat.add_assoc]
      · simp [hjq, hdigit]

theorem getElem?_targetOffsets {histogram : List Nat} {nextOffset j : Nat}
    (h : j < histogram.length) :
    (targetOffsets nextOffset histogram)[j]? = some (nextOffset + (histogram.take j).sum) := by
  induction histogram generalizing nextOffset j with
  | nil => cases h
  | cons count histogram ih =>
    cases j with
    | zero => rfl
    | succ j =>
      rw [List.length_cons] at h
      show (targetOffsets (nextOffset + count) histogram)[j]? = _
      rw [ih (by omega), List.take_succ_cons, List.sum_cons, Nat.add_assoc]

-- The counts of the digits of a pass.
def tally (digit : Value → Nat) (buckets : Nat) (values : List Value) : List Nat :=
  (List.range buckets).map fun j => values.countP fun a => digit a = j

theorem sum_tally {digit : Value → Nat} {buckets : Nat} (h : ∀ a ∈ values, digit a < buckets) :
    (tally digit buckets values).sum = values.length := by
  rw [← (sortsBy_gather h).perm.length_eq]
  unfold gather tally
  rw [List.length_flatMap]
  congr 1
  exact List.map_congr_left fun j _ => List.countP_eq_length_filter

theorem scatter_tally {target : List Value} (hl : target.length = values.length)
    (hd : ∀ value ∈ values, HasDigit keyFromValue r radixBits pass value) :
    scatter keyFromValue (pass * radixBits) radixBits values target
        (targetOffsets 0 (tally (fun a => digitOf radixBits pass (r a)) (2 ^ radixBits) values)) =
      .ok (gather (fun a => digitOf radixBits pass (r a)) (2 ^ radixBits) values) := by
  obtain ⟨gap, hgap, htarget⟩ := exists_flatMap (2 ^ radixBits)
    (hl.trans (sum_tally fun a _ => digitOf_lt).symm)
  refine @scatter_meets _ _ keyFromValue _ r radixBits pass values [] target _ gap hd hgap htarget
    fun j hj => ?_
  rw [getElem?_targetOffsets (by simpa [tally] using hj), Nat.zero_add]
  simp only [List.filter_nil, List.nil_append, List.length_nil, Nat.add_zero]
  rw [List.length_flatMap, tally, ← List.map_take, List.take_range, Nat.min_eq_left hj.le]
  congr 2
  exact List.map_congr_left fun i hi => (hgap i (by simp at hi; omega)).symm

-- The counts of all passes.
def tallies (r : Value → Nat) (radixBits pass n : Nat) (values : List Value) : List (List Nat) :=
  (List.range' pass n).map fun pass =>
    tally (fun a => digitOf radixBits pass (r a)) (2 ^ radixBits) values

theorem modify_tally {digit : Value → Nat} {buckets : Nat} {value : Value} (done : List Value) :
    (tally digit buckets done).modify (digit value) (· + 1) =
      tally digit buckets (done ++ [value]) := by
  unfold tally
  refine List.ext_getElem (by simp) fun j hj _ => ?_
  simp only [List.getElem_modify, List.getElem_map, List.getElem_range, List.countP_append]
  split
  case isTrue heq => simp [heq]
  case isFalse hne => simp [hne]

theorem countDigits_tallies {value : Value} {done : List Value} {n : Nat}
    (h : ∀ i, pass ≤ i → i < pass + n → HasDigit keyFromValue r radixBits i value) :
    countDigits (keyFromValue value) radixBits pass (tallies r radixBits pass n done) =
      .ok (tallies r radixBits pass n (done ++ [value])) := by
  induction n generalizing pass with
  | zero => rfl
  | succ n ih =>
    unfold tallies at *
    rw [List.range'_succ, List.map_cons, List.map_cons]
    unfold countDigits
    rw [show RadixKey.digit _ _ _ = _ from h pass (Nat.le_refl _) (by omega), ok_bind,
      assert_of (by simp [tally, digitOf_lt]), ok_bind,
      ih fun i hi hlt => h i (by omega) (by omega), ok_bind]
    rw [@modify_tally _ (fun a => digitOf radixBits pass (r a)) _ value done]
    rfl

theorem countAll_tallies {done : List Value} {n : Nat}
    (h : ∀ value ∈ values, ∀ i < n, HasDigit keyFromValue r radixBits i value) :
    countAll keyFromValue radixBits values (tallies r radixBits 0 n done) =
      .ok (tallies r radixBits 0 n (done ++ values)) := by
  induction values generalizing done with
  | nil =>
    rw [List.append_nil]
    rfl
  | cons value values ih =>
    unfold countAll
    rw [countDigits_tallies fun i _ hi => h value List.mem_cons_self i (by omega), ok_bind,
      ih fun a ha => h a (List.mem_cons_of_mem _ ha), ← List.append_cons]

-- What is sorted by its lower digits is sorted by one digit more after a pass.
theorem sorts_pass {source mid target : List Value}
    (h : SortsBy (fun a => r a % 2 ^ (pass * radixBits)) source mid)
    (h' : SortsBy (fun a => digitOf radixBits pass (r a)) mid target) :
    SortsBy (fun a => r a % 2 ^ ((pass + 1) * radixBits)) source target :=
  h.lexicographic h' (fun _ => Nat.mod_lt _ (Nat.two_pow_pos _)) fun _ => mod_two_pow_succ

theorem tally_congr {digit : Value → Nat} {buckets : Nat} {source mid : List Value}
    (h : mid.Perm source) : tally digit buckets source = tally digit buckets mid :=
  List.map_congr_left fun _ _ => (h.countP_eq _).symm

theorem partitionPasses_sorts {source scratch : List Value} {n : Nat} {sourceIsValues : Bool}
    (hd : ∀ value ∈ source, ∀ i < pass + n, HasDigit keyFromValue r radixBits i value)
    (hlv : values.length = source.length) (hls : scratch.length = source.length)
    (h : SortsBy (fun a => r a % 2 ^ (pass * radixBits)) source
      (if sourceIsValues then values else scratch)) :
    Meets (fun _ => False)
      (fun sorted => SortsBy (fun a => r a % 2 ^ ((pass + n) * radixBits)) source sorted)
      (partitionPasses keyFromValue radixBits source.length pass (tallies r radixBits pass n source)
        sourceIsValues values scratch) := by
  induction n generalizing pass values scratch sourceIsValues with
  | zero => exact h
  | succ n ih =>
    have hadd : pass + (n + 1) = (pass + 1) + n := by omega
    have hcons : tallies r radixBits pass (n + 1) source =
        tally (fun a => digitOf radixBits pass (r a)) (2 ^ radixBits) source ::
          tallies r radixBits (pass + 1) n source := by
      unfold tallies
      rw [List.range'_succ, List.map_cons]
    rw [hadd] at hd ⊢
    rw [hcons]
    unfold partitionPasses
    dsimp only
    rw [Meets.ite_iff]
    constructor
    · intro htrivial
      -- All elements have one digit, by which they are sorted already.
      refine ih hd hlv hls (sorts_pass h ?_)
      rw [List.contains_iff_mem] at htrivial
      obtain ⟨j, _, hj⟩ := List.mem_map.mp htrivial
      have hall := List.countP_eq_length.mp hj
      exact SortsBy.of_constant fun a ha => by simpa using hall a (h.mem_iff.mp ha)
    · intro _
      -- The other buffer is overwritten by the buckets.
      have hscatter : ∀ mid target : List Value, SortsBy (fun a => r a % 2 ^ (pass * radixBits)) source mid →
          target.length = source.length →
          scatter keyFromValue (pass * radixBits) radixBits mid target (targetOffsets 0
            (tally (fun a => digitOf radixBits pass (r a)) (2 ^ radixBits) source)) =
              .ok (gather (fun a => digitOf radixBits pass (r a)) (2 ^ radixBits) mid) ∧
          SortsBy (fun a => r a % 2 ^ ((pass + 1) * radixBits)) source
            (gather (fun a => digitOf radixBits pass (r a)) (2 ^ radixBits) mid) := by
        intro mid target hm hl
        rw [tally_congr hm.perm]
        exact ⟨scatter_tally (hl.trans hm.perm.length_eq.symm) fun value hv =>
          hd value (hm.mem_iff.mp hv) pass (by omega), sorts_pass hm (sortsBy_gather fun _ _ => digitOf_lt)⟩
      cases sourceIsValues with
      | true =>
        have ⟨heq, hs⟩ := hscatter values scratch h hls
        rw [if_pos rfl, heq, ok_bind]
        exact ih hd hlv hs.perm.length_eq hs
      | false =>
        have ⟨heq, hs⟩ := hscatter scratch values h hlv
        rw [if_neg (by decide), heq, ok_bind]
        exact ih hd hs.perm.length_eq hls hs

end Passes

section Keys

variable {r : Value → Nat} {valueSize : Nat} {values scratch : List Value}

theorem radixSort_sorts [RadixKey Key] (hpos : 0 < RadixKey.bits Key)
    (hsize : (RadixKey.bits Key + min (RadixKey.bits Key) (heuristicBits valueSize) - 1) /
      min (RadixKey.bits Key) (heuristicBits valueSize) *
        2 ^ min (RadixKey.bits Key) (heuristicBits valueSize) * 4 ≤ 200 * kib)
    (hd : ∀ value ∈ values, ∀ i,
      i * min (RadixKey.bits Key) (heuristicBits valueSize) < RadixKey.bits Key →
        HasDigit keyFromValue r (min (RadixKey.bits Key) (heuristicBits valueSize)) i value)
    (hr : ∀ a, r a < 2 ^ RadixKey.bits Key) (hl : values.length = scratch.length) :
    Meets (fun _ => False) (fun sorted => SortsBy r values sorted)
      (radixSort keyFromValue valueSize values scratch) := by
  unfold radixSort
  dsimp only
  rw [assert_of hsize, ok_bind]
  have hbits : 0 < min (RadixKey.bits Key) (heuristicBits valueSize) := by
    unfold heuristicBits
    split <;> omega
  generalize min (RadixKey.bits Key) (heuristicBits valueSize) = radixBits at hd hbits
  generalize hn : (RadixKey.bits Key + radixBits - 1) / radixBits = n
  have hdiv := Nat.div_add_mod (RadixKey.bits Key + radixBits - 1) radixBits
  have hmod := Nat.mod_lt (RadixKey.bits Key + radixBits - 1) hbits
  rw [hn, Nat.mul_comm] at hdiv
  -- The passes cover the bits of the key.
  have hdigits : ∀ value ∈ values, ∀ i < n, HasDigit keyFromValue r radixBits i value := by
    intro value hv i hi
    have hmul : (i + 1) * radixBits ≤ n * radixBits := Nat.mul_le_mul_right _ hi
    rw [Nat.add_mul, Nat.one_mul] at hmul
    exact hd value hv i (by omega)
  have hzero : List.replicate n (List.replicate (2 ^ radixBits) 0) =
      tallies r radixBits 0 n ([] : List Value) := by
    unfold tallies tally
    simp [List.map_const']
  rw [hzero, countAll_tallies hdigits, ok_bind, List.nil_append]
  refine (@partitionPasses_sorts _ _ keyFromValue _ r radixBits 0 values values scratch n true
    (by simpa using hdigits) rfl hl.symm
    (SortsBy.of_constant fun a _ => by rw [Nat.zero_mul, Nat.pow_zero, Nat.mod_one])).weaken
      fun sorted hs => ?_
  refine hs.of_order fun a _ b _ => ?_
  have hle : 2 ^ RadixKey.bits Key ≤ 2 ^ ((0 + n) * radixBits) :=
    Nat.pow_le_pow_right (by decide) (by rw [Nat.zero_add]; omega)
  rw [Nat.mod_eq_of_lt ((hr a).trans_le hle), Nat.mod_eq_of_lt ((hr b).trans_le hle)]

theorem hasDigit_fin {w radixBits i : Nat} {keyFromValue : Value → Fin (2 ^ w)} {value : Value}
    (hb : radixBits ≤ w) (hi : i * radixBits < w) :
    HasDigit keyFromValue (fun a => (keyFromValue a).val) radixBits i value := by
  show (assert _ _ >>= fun _ => _) = _
  rw [assert_of hi, ok_bind]
  have hlt : 2 ^ radixBits - 1 < 2 ^ w := by
    have hle := Nat.pow_le_pow_right (show 0 < 2 by decide) hb
    have hpos := Nat.two_pow_pos radixBits
    omega
  rw [Nat.mod_eq_of_lt hlt, Nat.and_two_pow_sub_one_eq_mod, Nat.shiftRight_eq_div_pow]
  rfl

end Keys

section Bytes

open U256

variable {bytes : List (BitVec 8)} {size n : Nat}

theorem fromLeBytes_lt : fromLeBytes bytes < 2 ^ (8 * bytes.length) := by
  induction bytes with
  | nil => decide
  | cons byte bytes ih =>
    have hb := byte.isLt
    rw [List.length_cons, Nat.mul_succ, Nat.pow_add]
    unfold fromLeBytes
    omega

theorem length_toLeBytes : (U256.toLeBytes size n).length = size := by
  induction size generalizing n with
  | zero => rfl
  | succ size ih => exact congrArg (· + 1) ih

theorem fromLeBytes_toLeBytes (h : n < 2 ^ (8 * size)) : fromLeBytes (U256.toLeBytes size n) = n := by
  induction size generalizing n with
  | zero =>
    rw [Nat.mul_zero, Nat.pow_zero, Nat.lt_one_iff] at h
    exact h.symm
  | succ size ih =>
    rw [Nat.mul_succ, Nat.pow_add] at h
    unfold U256.toLeBytes fromLeBytes
    rw [ih (by omega), BitVec.toNat_ofNat]
    omega

theorem fromLeBytes_append {more : List (BitVec 8)} : fromLeBytes (bytes ++ more) =
    fromLeBytes bytes + 2 ^ (8 * bytes.length) * fromLeBytes more := by
  induction bytes with
  | nil => simp [fromLeBytes]
  | cons byte bytes ih =>
    rw [List.cons_append, List.length_cons, Nat.mul_succ, Nat.pow_add]
    show byte.toNat + 2 ^ 8 * fromLeBytes (bytes ++ more) =
      byte.toNat + 2 ^ 8 * fromLeBytes bytes + 2 ^ (8 * bytes.length) * 2 ^ 8 * fromLeBytes more
    rw [ih]
    ring

theorem fromLeBytes_zeros : fromLeBytes (List.replicate n 0) = 0 := by
  induction n with
  | zero => rfl
  | succ n ih =>
    rw [List.replicate_succ]
    unfold fromLeBytes
    rw [ih]
    rfl

theorem fromLeBytes_drop {k : Nat} (h : k ≤ bytes.length) :
    fromLeBytes (bytes.drop k) = fromLeBytes bytes / 2 ^ (8 * k) := by
  conv_rhs => rw [← List.take_append_drop k bytes, fromLeBytes_append, List.length_take_of_le h]
  have hlt := @fromLeBytes_lt (bytes.take k)
  rw [List.length_take_of_le h] at hlt
  rw [Nat.add_mul_div_left _ _ (Nat.two_pow_pos _), Nat.div_eq_of_lt hlt, Nat.zero_add]

theorem fromLeBytes_take {k : Nat} (h : k ≤ bytes.length) :
    fromLeBytes (bytes.take k) = fromLeBytes bytes % 2 ^ (8 * k) := by
  conv_rhs => rw [← List.take_append_drop k bytes, fromLeBytes_append, List.length_take_of_le h]
  have hlt := @fromLeBytes_lt (bytes.take k)
  rw [List.length_take_of_le h] at hlt
  rw [Nat.add_mul_mod_self_left, Nat.mod_eq_of_lt hlt]

end Bytes

end TigerBeetle.Radix

namespace TigerBeetle.U256

open Fallible Radix

-- The number whose digits are those of a key: the timestamp is its high part.
def radixValue (key : U256) : Nat :=
  key.lo.val * 2 ^ 128 + key.hi.val

theorem radixValue_lt (key : U256) : key.radixValue < 2 ^ 256 := by
  have hhi := key.hi.isLt
  have hlo := key.lo.isLt
  unfold radixValue
  omega

theorem fromLeBytes_buf (key : U256) :
    fromLeBytes (toLeBytes 16 key.hi.val ++ toLeBytes 8 key.lo.val ++ List.replicate 16 0) =
      key.radixValue := by
  have hhi : fromLeBytes (toLeBytes 16 key.hi.val) = key.hi.val := fromLeBytes_toLeBytes key.hi.isLt
  have hlo : fromLeBytes (toLeBytes 8 key.lo.val) = key.lo.val := fromLeBytes_toLeBytes key.lo.isLt
  rw [fromLeBytes_append, fromLeBytes_append, fromLeBytes_zeros, length_toLeBytes, hhi, hlo,
    Nat.mul_zero, Nat.add_zero, Nat.add_comm, Nat.mul_comm]
  rfl

theorem length_buf (key : U256) :
    (toLeBytes 16 key.hi.val ++ toLeBytes 8 key.lo.val ++ List.replicate 16 0).length = 40 := by
  rw [List.length_append, List.length_append, length_toLeBytes, length_toLeBytes,
    List.length_replicate]

-- A word is read from a whole byte on, and the bits below the digit are shifted out.
theorem word_digit {n shift bits : Nat} (hb : bits ≤ 57) :
    n / 2 ^ (8 * (shift / 8)) % 2 ^ 64 / 2 ^ (shift % 8) % 2 ^ min bits 64 =
      n / 2 ^ shift % 2 ^ bits := by
  have hsplit : 2 ^ 64 = 2 ^ (shift % 8) * 2 ^ (64 - shift % 8) := by
    rw [← Nat.pow_add]
    congr 1
    omega
  have hshift : 2 ^ shift = 2 ^ (8 * (shift / 8)) * 2 ^ (shift % 8) := by
    rw [← Nat.pow_add, Nat.div_add_mod]
  rw [hsplit, Nat.mod_mul_right_div_self, Nat.div_div_eq_div_mul, ← hshift,
    Nat.min_eq_left (by omega), Nat.mod_mod_of_dvd _ (Nat.pow_dvd_pow 2 (by omega))]

theorem digit_eq {key : U256} {shift bits : Nat} (hs : shift + bits ≤ 256) (hpos : 0 < bits)
    (hb : bits ≤ 57) : key.digit shift bits = .ok (key.radixValue / 2 ^ shift % 2 ^ bits) := by
  unfold digit
  rw [assert_of hs, ok_bind, if_neg (Nat.ne_of_gt hpos)]
  dsimp only
  have hlen := length_buf key
  have hbuf := fromLeBytes_buf key
  generalize toLeBytes 16 key.hi.val ++ toLeBytes 8 key.lo.val ++ List.replicate 16 0 = buf at *
  rw [fromLeBytes_take (by rw [List.length_drop, hlen]; omega),
    fromLeBytes_drop (by rw [hlen]; omega), hbuf, word_digit hb]
  rfl

end TigerBeetle.U256

namespace TigerBeetle.Radix

open Fallible

-- A sort that is right: the values are reordered, by the order of the keys, and stably.
def Sorts {Key Value : Type} [RadixKey Key] [LinearOrder Key] (keyFromValue : Value → Key)
    (valueSize : Nat) (values scratch : List Value) : Prop :=
  Meets (fun _ => False) (fun sorted => sorted.Perm values ∧ SortsBy keyFromValue values sorted)
    (sort keyFromValue valueSize values scratch)

variable {Key Value : Type} {valueSize : Nat} {values scratch : List Value}

-- Short lists are sorted by insertion, and only the others by their digits.
theorem sorts_iff [RadixKey Key] [LinearOrder Key] {keyFromValue : Value → Key} :
    Sorts keyFromValue valueSize values scratch ↔
      values.length = scratch.length ∧ values.length ≤ u32Max ∧
        (32 < values.length → Meets (fun _ => False) (fun sorted => SortsBy keyFromValue values sorted)
          (radixSort keyFromValue valueSize values scratch)) := by
  have hsorts : ∀ x : Result (List Value),
      Meets (fun _ => False) (fun sorted => sorted.Perm values ∧ SortsBy keyFromValue values sorted) x ↔
        Meets (fun _ => False) (fun sorted => SortsBy keyFromValue values sorted) x := fun x =>
    ⟨fun h => h.weaken fun _ => And.right, fun h => h.weaken fun _ hs => ⟨hs.perm, hs⟩⟩
  unfold Sorts sort
  rw [hsorts]
  simp only [Meets.bind_eq, meets_assert_eq, Meets.ite_iff, Meets.pure_eq]
  constructor
  · rintro ⟨hl, hl'⟩
    by_cases hlen : values.length = scratch.length
    · obtain ⟨hm, hm'⟩ := hl hlen
      by_cases hmax : values.length ≤ u32Max
      · exact ⟨hlen, hmax, fun hlong => ((hm hmax).2 (by rintro rfl; cases hlong)).2 (by omega)⟩
      · exact (hm' hmax).elim
    · exact (hl' hlen).elim
  · rintro ⟨hlen, hmax, hlong⟩
    refine ⟨fun _ => ⟨fun _ => ⟨?_, fun _ => ⟨fun _ => insertionSort_sorts, fun h => hlong (by omega)⟩⟩,
      fun h => h hmax⟩, fun h => h hlen⟩
    rintro rfl
    exact SortsBy.same List.Pairwise.nil

theorem histograms_le {w : Nat} (hpos : 0 < w) (hw : w ≤ 128) :
    (w + min w (heuristicBits valueSize) - 1) / min w (heuristicBits valueSize) *
      2 ^ min w (heuristicBits valueSize) * 4 ≤ 200 * kib := by
  have hle : heuristicBits valueSize ≤ 11 := by
    unfold heuristicBits
    split <;> decide
  obtain hmin | hmin := Nat.le_total w (heuristicBits valueSize)
  · rw [Nat.min_eq_left hmin]
    have hone : (w + w - 1) / w ≤ 1 := Nat.le_of_lt_succ ((Nat.div_lt_iff_lt_mul hpos).mpr (by omega))
    have hpow : 2 ^ w ≤ 2 ^ 11 := Nat.pow_le_pow_right (by decide) (hmin.trans hle)
    calc (w + w - 1) / w * 2 ^ w * 4
        ≤ 1 * 2 ^ 11 * 4 := Nat.mul_le_mul_right 4 (Nat.mul_le_mul hone hpow)
      _ ≤ 200 * kib := by decide
  · rw [Nat.min_eq_right hmin]
    unfold heuristicBits kib
    split <;> omega

theorem sorts_fin_iff {w : Nat} (hpos : 0 < w) (hw : w ≤ 128)
    {keyFromValue : Value → Fin (2 ^ w)} : Sorts keyFromValue valueSize values scratch ↔
      values.length = scratch.length ∧ values.length ≤ u32Max := by
  rw [sorts_iff]
  refine ⟨fun ⟨hl, hm, _⟩ => ⟨hl, hm⟩, fun ⟨hl, hm⟩ => ⟨hl, hm, fun _ => ?_⟩⟩
  have hsorts : Meets (fun _ => False)
      (fun sorted => SortsBy (fun a => (keyFromValue a).val) values sorted)
      (radixSort keyFromValue valueSize values scratch) :=
    radixSort_sorts hpos (histograms_le hpos hw)
      (fun _ _ _ hi => hasDigit_fin (Nat.min_le_left ..) hi) (fun a => (keyFromValue a).isLt) hl
  exact hsorts.weaken fun sorted hs => hs.of_order fun _ _ _ _ => Fin.le_def.symm

-- Two values of which one has the smaller prefix and the other one the smaller timestamp.
def Crosses (keyFromValue : Value → U256) (values : List Value) : Prop :=
  ∃ a ∈ values, ∃ b ∈ values, (keyFromValue a).hi < (keyFromValue b).hi ∧
    (keyFromValue b).lo < (keyFromValue a).lo

theorem U256.le_iff {a b : U256} : a ≤ b ↔ a.hi < b.hi ∨ a.hi = b.hi ∧ a.lo ≤ b.lo :=
  Prod.Lex.toLex_le_toLex

theorem U256.radixValue_le_iff {a b : U256} :
    a.radixValue ≤ b.radixValue ↔ a.lo < b.lo ∨ a.lo = b.lo ∧ a.hi ≤ b.hi := by
  have ha := a.hi.isLt
  have hb := b.hi.isLt
  rw [Fin.lt_def, Fin.ext_iff, Fin.le_def]
  unfold U256.radixValue
  omega

-- What is sorted by the timestamp first is sorted by the prefix first if no two values cross.
theorem sortsBy_radixValue_iff {keyFromValue : Value → U256} {sorted : List Value}
    (h : SortsBy (fun a => (keyFromValue a).radixValue) values sorted) :
    SortsBy keyFromValue values sorted ↔ ¬Crosses keyFromValue values := by
  constructor
  · rintro hs ⟨a, ha, b, hb, hhi, hlo⟩
    have hne : a ≠ b := by
      rintro rfl
      exact lt_irrefl _ hhi
    -- In either order one of the two sorts puts them the other way.
    obtain ⟨hr, hk⟩ | ⟨hr, hk⟩ := SortsBy.le_total_of_mem (h.ascending.and hs.ascending)
      (h.mem_iff.mpr ha) (h.mem_iff.mpr hb) hne
    · rw [U256.radixValue_le_iff] at hr
      omega
    · rw [U256.le_iff] at hk
      omega
  · intro hc
    refine h.of_order fun a ha b hb => ?_
    have hab : (keyFromValue a).hi < (keyFromValue b).hi →
        (keyFromValue a).lo ≤ (keyFromValue b).lo := fun hhi =>
      not_lt.mp fun hlo => hc ⟨a, ha, b, hb, hhi, hlo⟩
    have hba : (keyFromValue b).hi < (keyFromValue a).hi →
        (keyFromValue b).lo ≤ (keyFromValue a).lo := fun hhi =>
      not_lt.mp fun hlo => hc ⟨b, hb, a, ha, hhi, hlo⟩
    rw [U256.radixValue_le_iff, U256.le_iff]
    omega

theorem radixSort_u256_sorts {keyFromValue : Value → U256} (hv : valueSize < 128)
    (hl : values.length = scratch.length) :
    Meets (fun _ => False)
      (fun sorted => SortsBy (fun a => (keyFromValue a).radixValue) values sorted)
      (radixSort keyFromValue valueSize values scratch) := by
  have hbits : min (RadixKey.bits U256) (heuristicBits valueSize) = 8 := by
    unfold heuristicBits
    rw [if_neg (by omega)]
    rfl
  refine radixSort_sorts (show 0 < 256 by decide) (by rw [hbits]; decide) (fun value _ i hi => ?_)
    (fun a => (keyFromValue a).radixValue_lt) hl
  rw [hbits] at hi ⊢
  have hi : i * 8 < 256 := hi
  exact U256.digit_eq (by omega) (by decide) (by decide)

-- The last digit of 11 bits would go past the end of the key.
theorem countDigits_u256 {key : U256} {pass n : Nat} {histograms : List (List Nat)}
    (hlen : histograms.length = n + 1) (hpass : pass + n = 23) :
    Meets (fun _ => True) (fun _ => False) (countDigits key 11 pass histograms) := by
  induction n generalizing pass histograms with
  | zero =>
    obtain ⟨histogram, rfl⟩ := List.length_eq_one_iff.mp hlen
    obtain rfl : pass = 23 := hpass
    trivial
  | succ n ih =>
    obtain ⟨histogram, histograms, rfl⟩ := List.exists_cons_of_length_eq_add_one hlen
    unfold countDigits
    rw [Meets.bind_iff]
    refine Meets.trivial.weaken fun digit _ => ?_
    rw [Meets.bind_iff]
    refine Meets.trivial.weaken fun _ _ => ?_
    rw [Meets.bind_iff]
    exact (ih (by simpa using hlen) (by omega)).weaken fun _ h => h.elim

theorem radixSort_u256_fails {keyFromValue : Value → U256} (hv : 128 ≤ valueSize)
    (hl : values ≠ []) : Meets (fun _ => True) (fun _ => False)
      (radixSort keyFromValue valueSize values scratch) := by
  have hbits : min (RadixKey.bits U256) (heuristicBits valueSize) = 11 := by
    unfold heuristicBits
    rw [if_pos hv]
    rfl
  obtain ⟨value, values, rfl⟩ := List.exists_cons_of_ne_nil hl
  unfold radixSort
  rw [hbits]
  simp only [Meets.bind_eq, partial_assert]
  intro _
  unfold countAll
  rw [Meets.bind_iff]
  have hpasses : (RadixKey.bits U256 + 11 - 1) / 11 = 24 := by decide
  rw [hpasses]
  generalize List.replicate (2 ^ 11) 0 = histogram
  have hlen : (List.replicate 24 histogram).length = 23 + 1 := List.length_replicate
  exact (countDigits_u256 hlen (Nat.zero_add 23)).weaken fun _ h => h.elim

theorem sorts_u256_iff {keyFromValue : Value → U256} : Sorts keyFromValue valueSize values scratch ↔
    values.length = scratch.length ∧ values.length ≤ u32Max ∧
      (32 < values.length → valueSize < 128 ∧ ¬Crosses keyFromValue values) := by
  rw [sorts_iff]
  refine and_congr_right fun hl => and_congr_right fun _ => ?_
  refine forall_congr' fun hlong => ?_
  by_cases hv : valueSize < 128
  · obtain ⟨sorted, heq, hs⟩ := Meets.iff_exists.mp
      (@radixSort_u256_sorts _ _ _ _ keyFromValue hv hl)
    rw [heq, Meets.ok_iff, sortsBy_radixValue_iff hs]
    exact (and_iff_right hv).symm
  · have hne : values ≠ [] := by
      rintro rfl
      cases hlong
    have hfails := @radixSort_u256_fails _ _ _ scratch keyFromValue (not_lt.mp hv) hne
    refine iff_of_false (fun h => ?_) fun h => hv h.1
    cases hsort : radixSort keyFromValue valueSize values scratch with
    | ok sorted  => exact hfails.post hsort
    | error _    => exact h.fault hsort

-- The sort is right for integer keys. For composite keys of 256 bits it is so for short lists, and
-- else if the values are small and their prefixes and timestamps do not disagree about the order.
theorem sort_sorts_iff {Value : Type} (valueSize : Nat) (values scratch : List Value) :
    (∀ w, 0 < w → w ≤ 128 → ∀ keyFromValue : Value → Fin (2 ^ w),
      Sorts keyFromValue valueSize values scratch ↔
        values.length = scratch.length ∧ values.length ≤ u32Max) ∧
    ∀ keyFromValue : Value → U256, Sorts keyFromValue valueSize values scratch ↔
      values.length = scratch.length ∧ values.length ≤ u32Max ∧
        (32 < values.length → valueSize < 128 ∧ ¬Crosses keyFromValue values) :=
  ⟨fun _ hpos hw _ => sorts_fin_iff hpos hw, fun _ => sorts_u256_iff⟩

-- One value with the smallest prefix but a later timestamp than the others.
def crossing : List U256 :=
  ⟨0, 1⟩ :: List.replicate 32 ⟨1, 0⟩

theorem not_sorts_of_crosses {values : List U256} (hlen : 32 < values.length)
    (hc : Crosses (fun key => key) values) : ¬Sorts (fun key => key) 32 values values := by
  intro h
  rw [sorts_u256_iff] at h
  exact (h.2.2 hlen).2 hc

theorem not_sort_sorts : ¬∀ (values scratch : List U256), values.length = scratch.length →
    values.length ≤ u32Max → Sorts (fun key => key) 32 values scratch := by
  intro h
  have hlen : crossing.length = 33 := by
    unfold crossing
    rw [List.length_cons, List.length_replicate]
  have hmax : crossing.length ≤ u32Max := by
    rw [hlen]
    unfold u32Max
    omega
  have hcrosses : Crosses (fun key => key) crossing := by
    refine ⟨⟨0, 1⟩, List.mem_cons_self, ⟨1, 0⟩, List.mem_cons_of_mem _ ?_, ?_, ?_⟩
    · exact List.mem_replicate.mpr ⟨by decide, rfl⟩
    · exact Fin.pos_of_ne_zero (by decide)
    · exact Fin.pos_of_ne_zero (by decide)
  generalize crossing = values at *
  exact not_sorts_of_crosses (by omega) hcrosses (h values values rfl hmax)

end TigerBeetle.Radix
