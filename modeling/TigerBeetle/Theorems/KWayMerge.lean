import TigerBeetle.StableSort
import TigerBeetle.Theorems.SegmentedRuns
import TigerBeetle.Theorems.TournamentTree

namespace TigerBeetle

open Fallible

namespace KWayMerge

variable {Key Value : Type} [LinearOrder Key] (direction : Direction) (valueKey : Value → Key)

section Order

variable {direction} {a b c : Key}

theorem cmpLe_iff : direction.cmpLe a b ↔ direction.cmpLt a b ∨ a = b := by
  cases direction
  · simp [Direction.cmpLe, Direction.cmpLt, le_iff_lt_or_eq]
  · simp [Direction.cmpLe, Direction.cmpLt, le_iff_lt_or_eq, @eq_comm _ b a]

theorem cmpLe_trans (h : direction.cmpLe a b) (h' : direction.cmpLe b c) : direction.cmpLe a c := by
  cases direction <;> simp only [Direction.cmpLe, decide_eq_true_eq] at h h' ⊢
  · exact h.trans h'
  · exact h'.trans h

theorem cmpLe_total : direction.cmpLe a b || direction.cmpLe b a := by
  cases direction <;> simp only [Direction.cmpLe, Bool.or_eq_true, decide_eq_true_eq]
  · exact le_total a b
  · exact le_total b a

theorem cmpLt_of_lt_of_le (h : direction.cmpLt a b) (h' : direction.cmpLe b c) :
    direction.cmpLt a c := by
  cases direction <;> simp only [Direction.cmpLe, Direction.cmpLt, decide_eq_true_eq] at h h' ⊢
  · exact lt_of_lt_of_le h h'
  · exact lt_of_le_of_lt h' h

theorem ne_of_cmpLt (h : direction.cmpLt a b) : b ≠ a := fun heq =>
  TournamentTree.cmpLt_irrefl (heq ▸ h)

end Order

-- The elements of a stream come in the order of their keys.
def Ascends (stream : List Value) : Prop :=
  stream.Pairwise fun a b => direction.cmpLe (valueKey a) (valueKey b)

-- All elements of the streams in the order of their keys. Those with the same key are in the order
-- that they have in the concatenation of the streams.
structure Merged (streams : List (List Value)) (merged : List Value) : Prop where
  ordered : Ascends direction valueKey merged
  kept : ∀ k, merged.filter (valueKey · = k) = streams.flatten.filter (valueKey · = k)

-- The first element of each run of elements with the same key, where a run may have begun before.
def distinct : (keyPrevious : Option Key) → List Value → List Value
  | _, [] => []
  | keyPrevious, value :: values =>
    if keyPrevious = some (valueKey value) then
      distinct keyPrevious values
    else
      value :: distinct (some (valueKey value)) values

variable {direction valueKey} {streams : List (List Value)} {merged rest stream : List Value}
  {value : Value} {i : Nat} {k : Key} {keyPrevious : Option Key}

theorem exists_merged (direction : Direction) (valueKey : Value → Key)
    (streams : List (List Value)) : ∃ merged, Merged direction valueKey streams merged := by
  let le : Value → Value → Bool := fun a b => direction.cmpLe (valueKey a) (valueKey b)
  have htrans : ∀ a b c, le a b → le b c → le a c := fun _ _ _ => cmpLe_trans
  have htotal : ∀ a b, le a b || le b a := fun _ _ => cmpLe_total
  refine ⟨streams.flatten.mergeSort le, List.pairwise_mergeSort htrans htotal _, fun k => ?_⟩
  have hperm := List.mergeSort_perm streams.flatten le
  have hconstant : (streams.flatten.filter (valueKey · = k)).Pairwise fun a b => le a b := by
    refine List.pairwise_of_forall_mem_list fun a ha b hb => ?_
    have ha : valueKey a = k := by simpa using List.of_mem_filter ha
    have hb : valueKey b = k := by simpa using List.of_mem_filter hb
    exact cmpLe_iff.mpr (.inr (ha.trans hb.symm))
  have hsub := (List.sublist_mergeSort htrans htotal hconstant List.filter_sublist).filter
    (valueKey · = k)
  rw [List.filter_filter, List.filter_congr fun a _ => Bool.and_self _] at hsub
  exact (hsub.eq_of_length (hperm.filter _).length_eq.symm).symm

namespace Merged

theorem perm (h : Merged direction valueKey streams merged) : merged.Perm streams.flatten :=
  perm_of_filter h.kept

theorem mem_iff (h : Merged direction valueKey streams merged) :
    value ∈ merged ↔ value ∈ streams.flatten :=
  h.perm.mem_iff

theorem nil (h : ∀ stream ∈ streams, stream = []) : Merged direction valueKey streams [] where
  ordered := List.Pairwise.nil
  kept k := by rw [List.flatten_eq_nil_iff.mpr h]

theorem cons (hsorted : ∀ stream ∈ streams, Ascends direction valueKey stream)
    (hi : streams[i]? = some (value :: stream))
    (hfirst : ∀ j other others, streams[j]? = some (other :: others) →
      direction.cmpLt (valueKey value) (valueKey other) ∨
        valueKey value = valueKey other ∧ i ≤ j)
    (h : Merged direction valueKey (streams.set i stream) rest) :
    Merged direction valueKey streams (value :: rest) := by
  obtain ⟨hlt, hget⟩ := List.getElem?_eq_some_iff.mp hi
  have hsplit : streams = streams.take i ++ (value :: stream) :: streams.drop (i + 1) := by
    rw [← hget, List.getElem_cons_drop, List.take_append_drop]
  have hflatten : streams.flatten =
      (streams.take i).flatten ++ (value :: (stream ++ (streams.drop (i + 1)).flatten)) := by
    conv_lhs => rw [hsplit]
    rw [List.flatten_append, List.flatten_cons, List.cons_append]
  have hset : (streams.set i stream).flatten =
      (streams.take i).flatten ++ (stream ++ (streams.drop (i + 1)).flatten) := by
    rw [List.set_eq_take_append_cons_drop, if_pos hlt, List.flatten_append, List.flatten_cons]
  -- How an element of a stream compares is decided by the head of the stream.
  have hcompare : ∀ j s, streams[j]? = some s → ∀ x ∈ s,
      direction.cmpLt (valueKey value) (valueKey x) ∨ valueKey value = valueKey x ∧ i ≤ j := by
    intro j s hs x hx
    cases s with
    | nil => cases hx
    | cons head tail =>
      have hhead := hfirst j head tail hs
      obtain rfl | hx := List.mem_cons.mp hx
      · exact hhead
      · have hle := List.rel_of_pairwise_cons (hsorted _ (List.mem_of_getElem? hs)) hx
        obtain hlt | ⟨heq, hij⟩ := hhead
        · exact .inl (cmpLt_of_lt_of_le hlt hle)
        · obtain h | h := cmpLe_iff.mp hle
          · exact .inl (heq ▸ h)
          · exact .inr ⟨heq.trans h, hij⟩
  have hle : ∀ x ∈ streams.flatten, direction.cmpLe (valueKey value) (valueKey x) := by
    intro x hx
    obtain ⟨s, hs, hxs⟩ := List.mem_flatten.mp hx
    obtain ⟨j, hj⟩ := List.mem_iff_getElem?.mp hs
    exact cmpLe_iff.mpr ((hcompare j s hj x hxs).imp_right And.left)
  have hbefore : (streams.take i).flatten.filter (valueKey · = valueKey value) = [] := by
    refine List.filter_eq_nil_iff.mpr fun x hx => ?_
    obtain ⟨s, hs, hxs⟩ := List.mem_flatten.mp hx
    obtain ⟨j, hj⟩ := List.mem_iff_getElem?.mp hs
    have hji : j < i := by
      by_contra hge
      rw [List.getElem?_take_eq_none (by omega)] at hj
      cases hj
    rw [List.getElem?_take_of_lt hji] at hj
    obtain hlt | ⟨-, hij⟩ := hcompare j s hj x hxs
    · simpa using ne_of_cmpLt hlt
    · omega
  constructor
  · refine List.pairwise_cons.mpr ⟨fun x hx => hle x ?_, h.ordered⟩
    have hx := h.mem_iff.mp hx
    rw [hset, List.mem_append] at hx
    rw [hflatten, List.mem_append, List.mem_cons]
    exact hx.imp_right .inr
  · intro k
    rw [List.filter_cons, h.kept, hset, hflatten]
    simp only [List.filter_append, List.filter_cons]
    by_cases hk : valueKey value = k
    · subst hk
      rw [hbefore]
      rfl
    · simp only [hk, decide_false, Bool.false_eq_true, if_false]

end Merged

section Distinct

def lastKey (valueKey : Value → Key) (values : List Value) : Option Key :=
  values.getLast?.map valueKey

omit [LinearOrder Key] in
theorem lastKey_concat : lastKey valueKey (merged ++ [value]) = some (valueKey value) := by
  simp [lastKey]

theorem distinct_append : distinct valueKey keyPrevious (merged ++ rest) =
    distinct valueKey keyPrevious merged ++
      distinct valueKey ((lastKey valueKey merged).or keyPrevious) rest := by
  induction merged generalizing keyPrevious with
  | nil => rfl
  | cons value merged ih =>
    have hlast : ((lastKey valueKey merged).or (some (valueKey value))) =
        (lastKey valueKey (value :: merged)).or keyPrevious := by
      cases merged with
      | nil => rfl
      | cons other others =>
        simp [lastKey, List.getLast?_eq_some_getLast]
    rw [List.cons_append, distinct, distinct]
    split
    · rename_i heq
      rw [ih, ← hlast, heq]
    · rw [ih, hlast, List.cons_append]

theorem distinct_sublist : (distinct valueKey keyPrevious merged).Sublist merged := by
  induction merged generalizing keyPrevious with
  | nil => exact List.Sublist.slnil
  | cons value merged ih =>
    rw [distinct]
    split
    · exact ih.cons value
    · exact ih.cons_cons value

-- Among ordered elements a run holds all those with its key.
theorem filter_distinct (hord : Ascends direction valueKey merged)
    (hprev : ∀ p ∈ keyPrevious, ∀ x ∈ merged, direction.cmpLe p (valueKey x)) :
    (distinct valueKey keyPrevious merged).filter (valueKey · = k) =
      if keyPrevious = some k then [] else (merged.filter (valueKey · = k)).take 1 := by
  induction merged generalizing keyPrevious with
  | nil => simp [distinct]
  | cons value merged ih =>
    obtain ⟨hfirst, hrest⟩ := List.pairwise_cons.mp hord
    rw [distinct]
    split
    · rename_i heq
      rw [ih hrest fun p hp x hx => hprev p hp x (List.mem_cons_of_mem _ hx), heq]
      by_cases hk : valueKey value = k
      · rw [if_pos (by rw [hk]), if_pos (by rw [hk])]
      · rw [List.filter_cons_of_neg (by simpa using hk)]
    · rename_i hne
      rw [List.filter_cons, List.filter_cons, ih hrest fun p hp x hx => by cases hp; exact hfirst x hx]
      by_cases hk : valueKey value = k
      · subst hk
        rw [if_neg hne]
        simp
      · have hk' : ¬some (valueKey value) = some k := fun h => hk (Option.some.inj h)
        simp only [hk, hk', decide_false, Bool.false_eq_true, if_false]
        split
        · rename_i hprevious
          -- A key that comes before that of this element comes before the rest as well.
          have hlt : direction.cmpLt k (valueKey value) :=
            (cmpLe_iff.mp (hprev k hprevious value List.mem_cons_self)).resolve_right
              fun h => hk h.symm
          have hnone : merged.filter (valueKey · = k) = [] :=
            List.filter_eq_nil_iff.mpr fun x hx => by
              simpa using ne_of_cmpLt (cmpLt_of_lt_of_le hlt (hfirst x hx))
          rw [hnone]
          rfl
        · rfl

end Distinct

section Iterator

variable [OrderTop Key] (spec : KWayMergeSpec Key Value)

-- What popping the iterator until it ends has to give: all elements in the order of the merge, or the
-- first one of those with each key.
structure Merges (direction : Direction) (streams : List (List Value)) (merged : List Value) :
    Prop where
  ordered : Ascends direction spec.valueKey merged
  kept : ∀ k, merged.filter (spec.valueKey · = k) =
    if spec.deduplicate then
      (streams.flatten.filter (spec.valueKey · = k)).take 1
    else
      streams.flatten.filter (spec.valueKey · = k)

-- What has been popped, of the elements that the streams have given.
def given (raw : List Value) : List Value :=
  if spec.deduplicate then distinct spec.valueKey none raw else raw

variable {spec}

omit [OrderTop Key] in
theorem Merged.merges (h : Merged direction spec.valueKey streams merged) :
    Merges spec direction streams (given spec merged) where
  ordered := by
    unfold given
    split
    · exact h.ordered.sublist distinct_sublist
    · exact h.ordered
  kept k := by
    unfold given
    split
    · rw [filter_distinct h.ordered (by simp), if_neg (by simp), h.kept]
    · exact h.kept k

omit [OrderTop Key] in
theorem given_append (spec : KWayMergeSpec Key Value) (merged rest : List Value) :
    ∃ more, given spec (merged ++ rest) = given spec merged ++ more := by
  unfold given
  split
  · exact ⟨_, distinct_append⟩
  · exact ⟨rest, rfl⟩

omit [OrderTop Key] in
theorem length_given_le : (given spec merged).length ≤ merged.length := by
  unfold given
  split
  · exact distinct_sublist.length_le
  · exact Nat.le_refl _

omit [OrderTop Key] in
theorem given_concat : given spec (merged ++ [value]) = given spec merged ++
    if spec.deduplicate ∧ lastKey spec.valueKey merged = some (spec.valueKey value) then []
    else [value] := by
  unfold given
  by_cases hd : spec.deduplicate
  · rw [if_pos hd, if_pos hd, distinct_append, Option.or_none]
    simp only [hd, true_and, distinct]
  · rw [if_neg hd, if_neg hd, if_neg fun h => hd h.1]

-- The key of the element that comes next in each stream.
def headKey (spec : KWayMergeSpec Key Value) (streams : List (List Value)) (i : Nat) : Option Key :=
  (streams[i]?.bind List.head?).map spec.valueKey

omit [LinearOrder Key] [OrderTop Key] in
theorem headKey_eq_none (h : streams.length ≤ i) : headKey spec streams i = none := by
  rw [headKey, List.getElem?_eq_none h]
  rfl

omit [LinearOrder Key] [OrderTop Key] in
theorem headKey_of_get (h : streams[i]? = some stream) :
    headKey spec streams i = stream.head?.map spec.valueKey := by
  rw [headKey, h]
  rfl

omit [LinearOrder Key] [OrderTop Key] in
theorem headKey_eq_some (h : headKey spec streams i = some k) :
    ∃ value stream, streams[i]? = some (value :: stream) ∧ spec.valueKey value = k := by
  cases hs : streams[i]? with
  | none => simp [headKey, hs] at h
  | some s =>
    cases s with
    | nil => simp [headKey, hs] at h
    | cons value stream => exact ⟨value, stream, rfl, by simpa [headKey, hs] using h⟩

omit [LinearOrder Key] [OrderTop Key] in
theorem empty_of_headKey (h : ∀ i < streams.length, headKey spec streams i = none) :
    ∀ stream ∈ streams, stream = [] := by
  intro stream hs
  obtain ⟨i, hi⟩ := List.mem_iff_getElem?.mp hs
  have hnone := h i (List.getElem?_eq_some_iff.mp hi).1
  rw [headKey_of_get hi, Option.map_eq_none_iff, List.head?_eq_none_iff] at hnone
  exact hnone

-- The tree has the current heads, apart from that of the stream that has given the last element.
structure Fits (spec : KWayMergeSpec Key Value) (direction : Direction)
    (streams : List (List Value)) (tree : TournamentTree Key) : Prop where
  directed : tree.direction = direction
  heads : (tree.contestantsLeft = 0 ∧ ∀ stream ∈ streams, stream = []) ∨
    0 < tree.contestantsLeft ∧ ∃ heads, tree.Holds streams.length heads ∧
      ∀ i, i ≠ tree.winId → heads i = headKey spec streams i

-- The iterator has popped the elements in the order of the merge.
structure Merging (spec : KWayMergeSpec Key Value) (context : MergeStreams Value)
    (direction : Direction) (popped : List Value) (iterator : KWayMergeIterator Key Value) :
    Prop where
  count : iterator.streamsCount = iterator.context.values.length
  room : iterator.streamsCount ≤ spec.nodeCountMax
  power : ∃ n, spec.nodeCountMax = 2 ^ n
  bound : iterator.streamsCount ≤ Node.idSentinel
  directed : iterator.direction = direction
  pending : iterator.context.pending = context.pending
  sorted : ∀ stream ∈ iterator.context.values, Ascends direction spec.valueKey stream
  raw : ∃ raw, (∀ rest, Merged direction spec.valueKey iterator.context.values rest →
      Merged direction spec.valueKey context.values (raw ++ rest)) ∧ popped = given spec raw ∧
    (spec.deduplicate → iterator.keyPopped = lastKey spec.valueKey raw)
  tree : ∀ tree ∈ iterator.tree, Fits spec direction iterator.context.values tree

def total (streams : List (List Value)) : Nat :=
  (streams.map List.length).sum

omit [LinearOrder Key] [OrderTop Key] in
theorem total_set (hi : streams[i]? = some (value :: stream)) :
    total (streams.set i stream) + 1 = total streams := by
  induction streams generalizing i with
  | nil => cases hi
  | cons s streams ih =>
    cases i with
    | zero =>
      cases hi
      simp only [total, List.set_cons_zero, List.map_cons, List.sum_cons, List.length_cons]
      omega
    | succ i =>
      have := ih hi
      simp only [total, List.set_cons_succ, List.map_cons, List.sum_cons] at this ⊢
      omega

-- The elements that an answer gives.
def answered : Except MergeStreams.Pending (Option Value) → List Value
  | .ok (some value) => [value]
  | _                => []

-- What a call that has given the answer has done.
structure Answers (spec : KWayMergeSpec Key Value) (context : MergeStreams Value)
    (direction : Direction) (popped : List Value) (iterator : KWayMergeIterator Key Value)
    (answer : Except MergeStreams.Pending (Option Value)) (iterator' : KWayMergeIterator Key Value) :
    Prop where
  merging : Merging spec context direction (popped ++ answered answer) iterator'
  ended : answer = .ok none → ∀ stream ∈ iterator'.context.values, stream = []
  pending : ∀ p, answer = .error p →
    ∃ n, iterator.context.peeks ≤ n ∧ n < iterator'.context.peeks ∧ context.pending n = true

variable {context : MergeStreams Value} {popped : List Value}
  {iterator : KWayMergeIterator Key Value} {tree : TournamentTree Key}

omit [LinearOrder Key] [OrderTop Key] in
theorem streamPeek_ok {streams : MergeStreams Value} (hi : i < streams.values.length) :
    streams.streamPeek spec.valueKey i = .ok
      (if streams.pending streams.peeks then .error {} else .ok (headKey spec streams.values i),
        { streams with peeks := streams.peeks + 1 }) := by
  have hget := List.getElem?_eq_getElem hi
  rw [MergeStreams.streamPeek, TournamentTree.read_of_some hget, ok_bind, headKey_of_get hget]
  rfl

theorem streamPop_ok {streams : MergeStreams Value}
    (hi : streams.values[i]? = some (value :: stream)) :
    streams.streamPop i = .ok (value, { streams with values := streams.values.set i stream }) := by
  rw [MergeStreams.streamPop, TournamentTree.read_of_some hi]
  rfl

omit [LinearOrder Key] [OrderTop Key] in
theorem headKey_set_ne {j : Nat} (h : j ≠ i) :
    headKey spec (streams.set i stream) j = headKey spec streams j := by
  rw [headKey, headKey, List.getElem?_set_ne h.symm]

-- What is left of the merge once the first of the heads has been taken.
theorem Merging.raw_concat (h : Merging spec context direction popped iterator)
    (hi : iterator.context.values[i]? = some (value :: stream))
    (hfirst : ∀ j other others, iterator.context.values[j]? = some (other :: others) →
      direction.cmpLt (spec.valueKey value) (spec.valueKey other) ∨
        spec.valueKey value = spec.valueKey other ∧ i ≤ j) :
    ∃ raw, (∀ rest, Merged direction spec.valueKey (iterator.context.values.set i stream) rest →
        Merged direction spec.valueKey context.values (raw ++ rest)) ∧
      lastKey spec.valueKey raw = some (spec.valueKey value) ∧
      given spec raw = popped ++
        if spec.deduplicate ∧ iterator.keyPopped = some (spec.valueKey value) then [] else [value] := by
  obtain ⟨raw, hraw, hpopped, hkey⟩ := h.raw
  refine ⟨raw ++ [value], fun rest hrest => ?_, lastKey_concat, ?_⟩
  · rw [List.append_assoc]
    exact hraw _ (Merged.cons h.sorted hi hfirst hrest)
  · rw [given_concat, ← hpopped]
    by_cases hd : spec.deduplicate
    · rw [hkey hd]
    · rw [if_neg fun h => hd h.1, if_neg fun h => hd h.1]

omit [OrderTop Key] in
theorem sorted_set (hsorted : ∀ s ∈ streams, Ascends direction spec.valueKey s)
    (hi : streams[i]? = some (value :: stream)) :
    ∀ s ∈ streams.set i stream, Ascends direction spec.valueKey s := by
  intro s hs
  obtain h | rfl := List.mem_or_eq_of_mem_set hs
  · exact hsorted s h
  · exact (hsorted _ (List.mem_of_getElem? hi)).tail

theorem Merging.peeked (h : Merging spec context direction popped iterator) (peeks : Nat) :
    Merging spec context direction popped
      { iterator with context := { iterator.context with peeks := peeks } } :=
  ⟨h.count, h.room, h.power, h.bound, h.directed, h.pending, h.sorted, h.raw, h.tree⟩

theorem popRounds_ok (rounds : Nat) (h : Merging spec context direction popped iterator)
    (htree : iterator.tree = some tree) (hrounds : total iterator.context.values < rounds) :
    ∃ answer iterator', iterator.popRounds spec rounds tree = .ok (answer, iterator') ∧
      Answers spec context direction popped iterator answer iterator' := by
  induction rounds generalizing iterator tree with
  | zero => omega
  | succ rounds ih =>
    have hfits := h.tree tree htree
    rw [KWayMergeIterator.popRounds]
    obtain ⟨hnone, hempty⟩ | ⟨hleft, heads, hholds, hheads⟩ := hfits.heads
    · rw [if_neg (by omega)]
      exact ⟨_, _, rfl, {
        merging := by simpa [answered] using h
        ended := fun _ => hempty
        pending := fun p hp => by cases hp
      }⟩
    · have hwin := hholds.win_some hleft
      rw [if_pos hleft, streamPeek_ok (hholds.lt_count hwin), ok_bind]
      by_cases hpending : iterator.context.pending iterator.context.peeks
      · rw [if_pos hpending]
        exact ⟨_, _, rfl, {
          merging := by simpa [answered] using h.peeked _
          ended := fun hp => by cases hp
          pending := fun _ _ => ⟨_, Nat.le_refl _, Nat.lt_succ_self _, h.pending ▸ hpending⟩
        }⟩
      · rw [if_neg hpending]
        obtain ⟨tree', hpop, hdirection', hholds'⟩ :=
          hholds.popWinner_ok hwin (headKey spec iterator.context.values tree.winId)
        have hheads' : ∀ i, Function.update heads tree.winId
            (headKey spec iterator.context.values tree.winId) i =
              headKey spec iterator.context.values i := by
          intro i
          by_cases hi : i = tree.winId
          · rw [hi, Function.update_self]
          · rw [Function.update_of_ne hi, hheads i hi]
        have hdirected : tree'.direction = direction := hdirection'.trans hfits.directed
        simp only
        rw [hpop, ok_bind]
        by_cases hleft' : tree'.contestantsLeft = 0
        · have hempty := empty_of_headKey fun i hi => by
            rw [← hheads']
            exact TournamentTree.headsLeft_eq_zero.mp (hholds'.left.symm.trans hleft') i hi
          rw [if_pos hleft']
          refine ⟨_, _, rfl, ?_, fun _ => hempty, fun p hp => by cases hp⟩
          show Merging spec context direction (popped ++ []) _
          rw [List.append_nil]
          exact { h.peeked (iterator.context.peeks + 1) with
            tree := fun t ht => by
              cases ht
              exact ⟨hdirected, .inl ⟨hleft', hempty⟩⟩ }
        · have hwin' := hholds'.win_some (Nat.pos_of_ne_zero hleft')
          obtain ⟨key, hkey⟩ := Option.ne_none_iff_exists'.mp hwin'
          obtain ⟨value, stream, hget, rfl⟩ := headKey_eq_some ((hheads' _).symm.trans hkey)
          have hfirst : ∀ j other others, iterator.context.values[j]? = some (other :: others) →
              direction.cmpLt (spec.valueKey value) (spec.valueKey other) ∨
                spec.valueKey value = spec.valueKey other ∧ tree'.winId ≤ j := by
            intro j other others hj
            rw [← hdirected]
            refine hholds'.win_first hkey ?_
            rw [hheads', headKey_of_get hj]
            rfl
          have hstream : MergeStreams.streamPop
              { iterator.context with peeks := iterator.context.peeks + 1 } tree'.winId = .ok (value, {
                values := iterator.context.values.set tree'.winId stream
                pending := iterator.context.pending, peeks := iterator.context.peeks + 1 }) :=
            streamPop_ok hget
          obtain ⟨raw, hraw, hlast, hgiven⟩ := h.raw_concat hget hfirst
          have hfits' : Fits spec direction (iterator.context.values.set tree'.winId stream) tree' := by
            have hlength : (iterator.context.values.set tree'.winId stream).length =
                iterator.context.values.length := List.length_set ..
            refine ⟨hdirected, .inr ⟨Nat.pos_of_ne_zero hleft', _, hlength ▸ hholds', fun i hi => ?_⟩⟩
            rw [hheads', headKey_set_ne hi]
          have hmerging : ∀ keyPopped,
              (spec.deduplicate → keyPopped = some (spec.valueKey value)) →
              Merging spec context direction (given spec raw) {
                iterator with
                context := {
                  values := iterator.context.values.set tree'.winId stream
                  pending := iterator.context.pending, peeks := iterator.context.peeks + 1 }
                keyPopped, tree := some tree' } := fun keyPopped hpopped => {
            count := h.count.trans (List.length_set ..).symm
            room := h.room
            power := h.power
            bound := h.bound
            directed := h.directed
            pending := h.pending
            sorted := sorted_set h.sorted hget
            raw := ⟨raw, hraw, rfl, fun hd => (hpopped hd).trans hlast.symm⟩
            tree := fun t ht => by
              cases ht
              exact hfits'
          }
          rw [if_neg hleft', hstream, ok_bind]
          simp only
          by_cases hdup : spec.deduplicate = true ∧ iterator.keyPopped = some (spec.valueKey value)
          · -- The element of another stream with the same key has been popped before.
            rw [if_pos hdup]
            rw [if_pos hdup, List.append_nil] at hgiven
            have htotal := total_set hget
            obtain ⟨answer, iterator', hrounds', hanswers⟩ := ih
              (hgiven ▸ hmerging _ fun _ => hdup.2) rfl (by simp only; omega)
            refine ⟨answer, iterator', hrounds', hanswers.merging, hanswers.ended, fun p hp => ?_⟩
            obtain ⟨n, hn, hn', hpend⟩ := hanswers.pending p hp
            exact ⟨n, Nat.le_trans (Nat.le_succ _) hn, hn', hpend⟩
          · rw [if_neg hdup]
            rw [if_neg hdup] at hgiven
            by_cases hd : spec.deduplicate
            · rw [if_pos hd]
              exact ⟨_, _, rfl, {
                merging := hgiven ▸ hmerging _ fun _ => rfl
                ended := fun hn => by cases hn
                pending := fun p hp => by cases hp
              }⟩
            · rw [if_neg hd]
              exact ⟨_, _, rfl, {
                merging := hgiven ▸ hmerging _ fun hd' => absurd hd' hd
                ended := fun hn => by cases hn
                pending := fun p hp => by cases hp
              }⟩

-- The heads of the first streams.
def headsBelow (spec : KWayMergeSpec Key Value) (streams : List (List Value)) (n i : Nat) :
    Option Key :=
  if i < n then headKey spec streams i else none

theorem map_leaf_set {n nodeCountMax : Nat} (hk : headKey spec streams n = some k) :
    ((List.range nodeCountMax).map (TournamentTree.leaf (headsBelow spec streams n))).set n ⟨k, n⟩ =
      (List.range nodeCountMax).map (TournamentTree.leaf (headsBelow spec streams (n + 1))) := by
  refine List.ext_getElem (by simp) fun i hi hi' => ?_
  rw [List.getElem_set]
  split
  · rename_i heq
    subst heq
    rw [List.getElem_map, List.getElem_range,
      TournamentTree.leaf_some (by rw [headsBelow, if_pos (Nat.lt_succ_self _), hk])]
  · rename_i hne
    rw [List.getElem_map, List.getElem_map, List.getElem_range, TournamentTree.leaf,
      TournamentTree.leaf, headsBelow, headsBelow]
    have hiff : i < n ↔ i < n + 1 := by omega
    simp only [hiff]

theorem map_leaf_none {n nodeCountMax : Nat} (hk : headKey spec streams n = none) :
    (List.range nodeCountMax).map (TournamentTree.leaf (headsBelow spec streams n)) =
      (List.range nodeCountMax).map (TournamentTree.leaf (headsBelow spec streams (n + 1))) := by
  have hsame : headsBelow spec streams n = headsBelow spec streams (n + 1) := by
    funext i
    unfold headsBelow
    by_cases hi : i = n
    · rw [if_neg (by omega), if_pos (by omega), hi, hk]
    · have hiff : i < n ↔ i < n + 1 := by omega
      simp only [hiff]
  rw [hsame]

theorem peekHeads_ok (spec : KWayMergeSpec Key Value) (streams : MergeStreams Value)
    (nodeCountMax start n : Nat) (hn : start + n ≤ streams.values.length) :
    ∃ answer peeks, KWayMergeIterator.peekHeads spec (List.range' start n) streams
        ((List.range nodeCountMax).map (TournamentTree.leaf (headsBelow spec streams.values start))) =
          .ok (answer, { streams with peeks := peeks }) ∧ streams.peeks ≤ peeks ∧
      (answer = .ok ((List.range nodeCountMax).map
          (TournamentTree.leaf (headsBelow spec streams.values (start + n)))) ∨
        answer = .error {} ∧ ∃ m, streams.peeks ≤ m ∧ m < peeks ∧ streams.pending m = true) := by
  induction n generalizing start streams with
  | zero => exact ⟨_, streams.peeks, rfl, Nat.le_refl _, .inl rfl⟩
  | succ n ih =>
    have hlt : start < streams.values.length := by omega
    rw [List.range'_succ, KWayMergeIterator.peekHeads, streamPeek_ok hlt, ok_bind]
    by_cases hpending : streams.pending streams.peeks
    · rw [if_pos hpending]
      exact ⟨_, _, rfl, Nat.le_succ _, .inr ⟨rfl, _, Nat.le_refl _, Nat.lt_succ_self _, hpending⟩⟩
    · obtain ⟨answer, peeks, hpeek, hle, hanswer⟩ := ih { streams with peeks := streams.peeks + 1 }
        (start + 1) (by simp only; omega)
      rw [if_neg hpending]
      refine ⟨answer, peeks, ?_, Nat.le_trans (Nat.le_succ _) hle, ?_⟩
      · cases hk : headKey spec streams.values start with
        | none =>
          rw [map_leaf_none hk]
          exact hpeek
        | some key =>
          simp only
          rw [map_leaf_set hk]
          exact hpeek
      · rw [show start + (n + 1) = start + 1 + n by omega]
        refine hanswer.imp_right fun ⟨herr, m, hm, hm', hpend⟩ => ⟨herr, m, ?_, hm', hpend⟩
        exact Nat.le_trans (Nat.le_succ _) hm

theorem load_ok (h : Merging spec context direction popped iterator) (htree : iterator.tree = none) :
    ∃ answer iterator', iterator.load spec = .ok (answer, iterator') ∧
      Merging spec context direction popped iterator' ∧
      iterator'.context.values = iterator.context.values ∧
      iterator.context.peeks ≤ iterator'.context.peeks ∧
      ((∃ tree, answer = .ok tree ∧ iterator'.tree = some tree) ∨ answer = .error {} ∧
        ∃ n, iterator.context.peeks ≤ n ∧ n < iterator'.context.peeks ∧ context.pending n = true) := by
  have hzero : List.replicate spec.nodeCountMax Node.sentinel =
      (List.range spec.nodeCountMax).map
        (TournamentTree.leaf (headsBelow spec iterator.context.values 0)) := by
    symm
    rw [List.eq_replicate_iff]
    refine ⟨by simp, fun node hnode => ?_⟩
    obtain ⟨i, -, rfl⟩ := List.mem_map.mp hnode
    exact TournamentTree.leaf_none (if_neg (Nat.not_lt_zero i))
  have hids : List.range (min iterator.streamsCount spec.nodeCountMax) =
      List.range' 0 iterator.streamsCount := by
    rw [Nat.min_eq_left h.room, List.range_eq_range']
  obtain ⟨answer, peeks, hpeek, hle, hanswer⟩ := peekHeads_ok spec iterator.context spec.nodeCountMax
    0 iterator.streamsCount (by rw [h.count, Nat.zero_add])
  rw [KWayMergeIterator.load, assert_of (by rw [htree]; rfl), ok_bind]
  simp only [hzero, hids]
  rw [hpeek, ok_bind]
  obtain rfl | ⟨rfl, n, hn, hn', hpend⟩ := hanswer
  · have habsent : ∀ j ≥ iterator.streamsCount, headsBelow spec iterator.context.values
        (0 + iterator.streamsCount) j = none := fun j hj => if_neg (by omega)
    obtain ⟨tree, hinit, hdirected, hleft, hholds⟩ := TournamentTree.init_ok
      iterator.direction h.room h.power h.bound habsent
    have hheads : ∀ i, headsBelow spec iterator.context.values (0 + iterator.streamsCount) i =
        headKey spec iterator.context.values i := by
      intro i
      unfold headsBelow
      split
      · rfl
      · rw [headKey_eq_none (by rw [← h.count]; omega)]
    have hfits : Fits spec direction iterator.context.values tree := by
      refine ⟨hdirected.trans h.directed, ?_⟩
      obtain hzero | hpos := Nat.eq_zero_or_pos tree.contestantsLeft
      · have hnone : ∀ i < iterator.context.values.length,
            headKey spec iterator.context.values i = none := fun i hi => by
          rw [← hheads]
          exact TournamentTree.headsLeft_eq_zero.mp (hleft.symm.trans hzero) i
            (by rw [h.count]; exact hi)
        exact .inl ⟨hzero, empty_of_headKey hnone⟩
      · exact .inr ⟨hpos, _, h.count ▸ hholds hpos, fun i _ => hheads i⟩
    simp only
    rw [hinit, ok_bind]
    refine ⟨_, _, rfl, ?_, rfl, hle, .inl ⟨tree, rfl, rfl⟩⟩
    exact { h.peeked peeks with
      tree := fun t ht => by
        cases ht
        exact hfits }
  · exact ⟨_, _, rfl, h.peeked peeks, rfl, hle, .inr ⟨rfl, n, hn, hn', h.pending ▸ hpend⟩⟩

theorem pop_ok (h : Merging spec context direction popped iterator) :
    ∃ answer iterator', iterator.pop spec = .ok (answer, iterator') ∧
      Answers spec context direction popped iterator answer iterator' := by
  rw [KWayMergeIterator.pop]
  cases htree : iterator.tree with
  | some tree => exact popRounds_ok _ h htree (Nat.lt_succ_self _)
  | none =>
    obtain ⟨answer, iterator', hload, h', hvalues, hle, hanswer⟩ := load_ok h htree
    simp only
    rw [hload, ok_bind]
    obtain ⟨tree, rfl, htree'⟩ | ⟨rfl, hpending⟩ := hanswer
    · obtain ⟨answer, iterator'', hpop, hanswers⟩ := popRounds_ok
        (total iterator.context.values + 1) h' htree' (by rw [hvalues]; omega)
      refine ⟨answer, iterator'', hpop, hanswers.merging, hanswers.ended, fun p hp => ?_⟩
      obtain ⟨n, hn, hn', hpend⟩ := hanswers.pending p hp
      exact ⟨n, Nat.le_trans hle hn, hn', hpend⟩
    · exact ⟨_, _, rfl, {
        merging := by
          show Merging spec context direction (popped ++ []) _
          rw [List.append_nil]
          exact h'
        ended := fun hn => by cases hn
        pending := fun _ _ => hpending
      }⟩

-- The iterator after any number of pops and resets, with the elements that the pops have given.
inductive Reaches (spec : KWayMergeSpec Key Value) (start : KWayMergeIterator Key Value) :
    List Value → KWayMergeIterator Key Value → Prop
  | start : Reaches spec start [] start
  | pop {values : List Value} {now next : KWayMergeIterator Key Value}
      {answer : Except MergeStreams.Pending (Option Value)} : Reaches spec start values now →
      now.pop spec = .ok (answer, next) → Reaches spec start (values ++ answered answer) next
  | reset {values : List Value} {now : KWayMergeIterator Key Value} : Reaches spec start values now →
      Reaches spec start values now.reset

theorem merging_of_reaches {start : KWayMergeIterator Key Value}
    (h : Merging spec context direction [] start) (hr : Reaches spec start popped iterator) :
    Merging spec context direction popped iterator := by
  induction hr with
  | start => exact h
  | pop _ hpop ih =>
    obtain ⟨answer, iterator', hpop', hanswers⟩ := pop_ok ih
    rw [hpop] at hpop'
    cases hpop'
    exact hanswers.merging
  | reset _ ih =>
    exact { ih with tree := fun t ht => by cases ht }

theorem merging_init {streamsCount : Nat} {start : KWayMergeIterator Key Value}
    (hinit : KWayMergeIterator.init spec context streamsCount direction = .ok start)
    (hcount : context.values.length = streamsCount)
    (hsorted : ∀ stream ∈ context.values, Ascends direction spec.valueKey stream) :
    Merging spec context direction [] start := by
  rw [KWayMergeIterator.init] at hinit
  obtain ⟨hmax, hinit⟩ := assert_ok hinit
  obtain ⟨hpower, hinit⟩ := assert_ok hinit
  obtain ⟨hstreams, hinit⟩ := assert_ok hinit
  cases hinit
  exact {
    count := hcount.symm
    room := Nat.le_trans hstreams hpower.2
    power := ⟨_, hpower.1⟩
    bound := Nat.le_trans hstreams (Nat.le_trans hmax.2 (by decide))
    directed := rfl
    pending := rfl
    sorted := hsorted
    raw := ⟨[], fun _ h => h, by rw [given]; split <;> rfl, fun _ => rfl⟩
    tree := fun t ht => by cases ht
  }

-- No assertion fails, whatever the streams answer. What has been popped is a front of the merge, and
-- it is the whole merge when the iterator has come to its end. Only a stream that was not ready makes
-- a pop give nothing before that.
theorem merges_of_reaches {streamsCount : Nat} {start : KWayMergeIterator Key Value}
    (hinit : KWayMergeIterator.init spec context streamsCount direction = .ok start)
    (hcount : context.values.length = streamsCount)
    (hsorted : ∀ stream ∈ context.values, Ascends direction spec.valueKey stream)
    (hr : Reaches spec start popped iterator) :
    (∃ rest, Merges spec direction context.values (popped ++ rest)) ∧
      popped.length ≤ context.values.flatten.length ∧
      ∃ answer iterator', iterator.pop spec = .ok (answer, iterator') ∧
        (answer = .ok none → Merges spec direction context.values popped) ∧
        ∀ p, answer = .error p →
          ∃ n, iterator.context.peeks ≤ n ∧ n < iterator'.context.peeks ∧ context.pending n = true := by
  have h := merging_of_reaches (merging_init hinit hcount hsorted) hr
  obtain ⟨raw, hraw, rfl, -⟩ := h.raw
  obtain ⟨rest, hrest⟩ := exists_merged direction spec.valueKey iterator.context.values
  have hmerged := hraw rest hrest
  obtain ⟨more, hmore⟩ := given_append spec raw rest
  refine ⟨⟨more, hmore ▸ hmerged.merges⟩, ?_, ?_⟩
  · rw [← hmerged.perm.length_eq, List.length_append]
    exact Nat.le_trans length_given_le (Nat.le_add_right ..)
  · obtain ⟨answer, iterator', hpop, hanswers⟩ := pop_ok h
    refine ⟨answer, iterator', hpop, fun hended => ?_, hanswers.pending⟩
    obtain ⟨raw', hraw', hgiven, -⟩ := hanswers.merging.raw
    subst hended
    rw [show given spec raw ++ answered (.ok none) = given spec raw from List.append_nil _] at hgiven
    rw [hgiven]
    have hwhole := hraw' [] (Merged.nil (hanswers.ended rfl))
    rw [List.append_nil] at hwhole
    exact hwhole.merges

end Iterator

def bytes : KWayMergeSpec (Fin 256) (Fin 256 × Nat) where
  streamsMax := 3
  nodeCountMax := 4
  deduplicate := true
  valueKey := Prod.fst

-- The second peek of all finds a stream that is not ready.
def byteStreams : MergeStreams (Fin 256 × Nat) where
  values := [[(7, 0), (255, 0)], [], [(7, 2), (255, 2)]]
  pending := fun peek => peek = 1
  peeks := 0

def byteIterator : KWayMergeIterator (Fin 256) (Fin 256 × Nat) where
  context := byteStreams
  streamsCount := 3
  direction := .ascending
  keyPopped := none
  tree := none

theorem merges_of_reaches_bytes : ∃ iterator, Reaches bytes byteIterator [(7, 0)] iterator ∧
    ∃ rest, Merges bytes .ascending byteStreams.values ([(7, 0)] ++ rest) := by
  have hpending : Reaches bytes byteIterator ([] ++ answered (.error {})) _ := .pop .start rfl
  have hvalue : Reaches bytes byteIterator ([] ++ answered (.ok (some (7, 0)))) _ :=
    .pop hpending rfl
  have hr : Reaches bytes byteIterator [(7, 0)] _ := .reset hvalue
  have hsorted : ∀ stream ∈ byteStreams.values, Ascends .ascending bytes.valueKey stream := by
    unfold Ascends
    decide
  exact ⟨_, hr, (merges_of_reaches rfl rfl hsorted hr).1⟩

end KWayMerge

end TigerBeetle
