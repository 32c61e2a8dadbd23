import TigerBeetle.Theorems.ZigZagStreams

namespace TigerBeetle

open Fallible
open TournamentTree (cmpLt_asymm cmpLt_irrefl cmpLt_trans cmpLt_trichotomy read_of_some write_of_some)
open KWayMerge (cmpLe_iff cmpLe_trans cmpLt_of_lt_of_le)

variable {Key Value : Type}

namespace ZigZagMerge

open ZigZagStream ZigZagMergeIterator

variable [LinearOrder Key] {spec : ZigZagMergeSpec Key Value} {direction : Direction}
  {initial context context' : List (ZigZagStream Value)} {popped : List Value} {i : Nat} {k : Key}
  {stream : ZigZagStream Value}

section Tour

-- The stream that a tour comes to after so many others is known to be pending.
abbrev Flag (count : Nat) (pending : List Bool) (x : Nat) : Prop :=
  pending[x % count]? = some true

-- The tour has begun at the given number, counted through all tours. All streams that it has come to
-- are pending, or have the candidate in front.
structure Touring (spec : ZigZagMergeSpec Key Value) (direction : Direction) (count : Nat)
    (context : List (ZigZagStream Value)) (start : Nat) (tour : Tour Key) : Prop where
  least : ∀ k, Common spec context k → direction.cmpLe tour.candidate k
  width : tour.pending.length = pendingBitsetWidth
  flagged : ∀ i < count, tour.pending[i]? = some true → ∀ s, context[i]? = some s → s.IsPending
  toured : ∀ j < tour.total, ∀ s, context[(start + j) % count]? = some s →
    Flag count tour.pending (start + j) ∨ s.Head spec.keyFromValue tour.candidate
  index : tour.index = (start + tour.total) % count
  pendingTotal : tour.pendingTotal = Nat.count (fun j => Flag count tour.pending (start + j)) tour.total
  pendingCount : tour.pendingCount = Nat.count (Flag count tour.pending) count
  total : tour.total = tour.equal + tour.pendingTotal
  bound : tour.total ≤ count

theorem count_congr {p q : Nat → Prop} [DecidablePred p] [DecidablePred q] {n : Nat}
    (h : ∀ x < n, p x ↔ q x) : Nat.count p n = Nat.count q n := by
  induction n with
  | zero => rfl
  | succ n ih =>
    rw [Nat.count_succ, Nat.count_succ, ih fun x hx => h x (by omega)]
    simp only [h n (Nat.lt_succ_self n)]

theorem count_insert {p q : Nat → Prop} [DecidablePred p] [DecidablePred q] {n : Nat} (hi : i < n)
    (hp : ¬p i) (hq : ∀ x < n, q x ↔ p x ∨ x = i) : Nat.count q n = Nat.count p n + 1 := by
  induction n with
  | zero => omega
  | succ n ih =>
    rw [Nat.count_succ, Nat.count_succ]
    obtain hlt | rfl := Nat.lt_succ_iff_lt_or_eq.mp hi
    · rw [ih hlt fun x hx => hq x (by omega)]
      have hsame : q n ↔ p n := (hq n (by omega)).trans (or_iff_left (by omega))
      simp only [hsame]
      omega
    · have hsame : Nat.count q i = Nat.count p i := count_congr fun x hx =>
        (hq x (by omega)).trans (or_iff_left (by omega))
      rw [hsame, if_neg hp, if_pos ((hq i (by omega)).mpr (.inr rfl))]

-- A whole tour counts what is counted from the first stream on.
theorem count_rotate {p : Nat → Prop} [DecidablePred p] {count start : Nat}
    (h : ∀ x, p (count + x) ↔ p x) :
    Nat.count (fun j => p (start + j)) count = Nat.count p count := by
  have hadd := Nat.count_add p start count
  rw [Nat.add_comm, Nat.count_add p count start] at hadd
  have hsame : Nat.count (fun k => p (count + k)) start = Nat.count p start :=
    count_congr fun x _ => h x
  omega

variable {count start j : Nat} {tour : Tour Key} {base : List (ZigZagStream Value)}

theorem index_ne {total : Nat} (hj : j < total) (ht : total < count) :
    (start + j) % count ≠ (start + total) % count := by
  intro heq
  have hzero := Nat.sub_mod_eq_zero_of_mod_eq heq.symm
  rw [show start + total - (start + j) = total - j by omega, Nat.mod_eq_of_lt (by omega)] at hzero
  omega

theorem exists_index (start : Nat) (hi : i < count) : ∃ j < count, (start + j) % count = i := by
  have hdiv := Nat.div_add_mod start count
  have hmod := Nat.mod_lt start (show count > 0 by omega)
  by_cases hle : start % count ≤ i
  · refine ⟨i - start % count, by omega, ?_⟩
    rw [show start + (i - start % count) = count * (start / count) + i by omega, Nat.mul_add_mod,
      Nat.mod_eq_of_lt hi]
  · refine ⟨i + count - start % count, by omega, ?_⟩
    rw [show start + (i + count - start % count) = count * (start / count + 1) + i by
      rw [Nat.mul_add, Nat.mul_one]; omega, Nat.mul_add_mod, Nat.mod_eq_of_lt hi]

namespace Touring

variable (h : Touring spec direction count context start tour)

include h

theorem pendingTotal_eq (htotal : tour.total = count) : tour.pendingTotal = tour.pendingCount := by
  rw [h.pendingTotal, h.pendingCount, htotal]
  exact @count_rotate (Flag count tour.pending) _ _ _ fun x => by
    show _[(count + x) % count]? = _ ↔ _
    rw [Nat.add_mod_left]

-- At the end of the tour every stream is pending or has the candidate in front.
theorem settled (htotal : tour.total = count) (hi : i < count) (hs : context[i]? = some stream) :
    tour.pending[i]? = some true ∨ stream.Head spec.keyFromValue tour.candidate := by
  obtain ⟨j, hj, rfl⟩ := exists_index start hi
  exact h.toured j (htotal ▸ hj) stream hs

end Touring

def aheadOf (spec : ZigZagMergeSpec Key Value) (direction : Direction)
    (base : List (ZigZagStream Value)) (candidate : Key) : Nat :=
  (base.flatMap ZigZagStream.values).countP fun value =>
    direction.cmpLt candidate (spec.keyFromValue value)

theorem aheadOf_lt (hwithin : ∀ s ∈ context, ∀ value ∈ s.values, value ∈ base.flatMap values)
    {candidate key : Key} (hi : context[i]? = some stream) (hhead : stream.Head spec.keyFromValue key)
    (hlt : direction.cmpLt candidate key) :
    aheadOf spec direction base key < aheadOf spec direction base candidate := by
  obtain ⟨value, hv, rfl⟩ := Head.mem hhead
  refine countP_lt_countP (fun x hx => cmpLt_trans hlt hx)
    (hwithin stream (List.mem_of_getElem? hi) value hv) ?_ hlt
  exact Bool.eq_false_iff.mpr cmpLt_irrefl

omit [LinearOrder Key] in
theorem flag_of_lt {pending : List Bool} (hi : i < count) :
    Flag count pending i ↔ pending[i]? = some true := by
  rw [Flag, Nat.mod_eq_of_lt hi]

theorem goAround_ok {iterator : ZigZagMergeIterator Key Value} {rounds : Nat}
    (h : Merging spec direction initial popped iterator.context)
    (hwithin : ∀ s ∈ iterator.context, ∀ value ∈ s.values, value ∈ base.flatMap values)
    (hcount : iterator.streamsCount = initial.length) (hone : 1 < iterator.streamsCount)
    (hwidth : iterator.streamsCount ≤ pendingBitsetWidth) (hdirection : iterator.direction = direction)
    (hpeeked : ∀ k ∈ iterator.keyPeeked, ∃ p ∈ popped, spec.keyFromValue p = k)
    (ht : Touring spec direction iterator.streamsCount iterator.context start tour)
    (hrounds : aheadOf spec direction base tour.candidate * iterator.streamsCount +
      (iterator.streamsCount - tour.total) < rounds) :
    ∃ answer context', goAround spec rounds iterator tour =
        .ok (answer, { iterator with context := context' }) ∧
      Merging spec direction initial popped context' ∧
      ((answer = none ∧ ∃ s ∈ context', s.values = []) ∨ ∃ tour' start', answer = some tour' ∧
        Touring spec direction iterator.streamsCount context' start' tour' ∧
        tour'.total = iterator.streamsCount) := by
  induction rounds generalizing iterator start tour with
  | zero => omega
  | succ rounds ih =>
    rw [goAround]
    by_cases htotal : tour.total < iterator.streamsCount
    case neg =>
      rw [if_neg htotal]
      exact ⟨some tour, iterator.context, rfl, h, .inr ⟨tour, start, rfl, ht, by
        have := ht.bound
        omega⟩⟩
    have hindex : tour.index < iterator.streamsCount := by
      rw [ht.index]
      exact Nat.mod_lt _ (by omega)
    have hnext : (tour.index + 1) % iterator.streamsCount =
        (start + (tour.total + 1)) % iterator.streamsCount := by
      rw [ht.index, Nat.mod_add_mod, Nat.add_assoc]
    have hlength : tour.index < iterator.context.length := by
      rw [h.count, ← hcount]
      exact hindex
    have hget := List.getElem?_eq_getElem hlength
    have hbit : tour.index < tour.pending.length := by
      rw [ht.width]
      omega
    have hread := List.getElem?_eq_getElem hbit
    have hflag : Flag iterator.streamsCount tour.pending (start + tour.total) ↔
        tour.pending[tour.index]? = some true := by
      rw [Flag, ← ht.index]
    rw [if_pos htotal, assert_of ht.total, ok_bind, read_of_some hread, ok_bind]
    by_cases hpending : tour.pending[tour.index] = true
    · -- The stream has been found to be pending before.
      rw [if_pos hpending]
      rw [hpending] at hread
      refine @ih start _ _ h hwithin hcount hone hwidth hdirection hpeeked ?_ (by simp only; omega)
      exact {
        least := ht.least
        width := ht.width
        flagged := ht.flagged
        toured := fun j hj s hs => by
          obtain hlt | rfl := Nat.lt_succ_iff_lt_or_eq.mp hj
          · exact ht.toured j hlt s hs
          · exact .inl (hflag.mpr hread)
        index := hnext
        pendingTotal := by
          simp only
          rw [Nat.count_succ, if_pos (hflag.mpr hread), ht.pendingTotal]
        pendingCount := ht.pendingCount
        total := by
          have := ht.total
          simp only
          omega
        bound := htotal
      }
    · have hfalse : tour.pending[tour.index] = false := by simpa using hpending
      have hnot : ¬tour.pending[tour.index]? = some true := by
        rw [hread, hfalse]
        simp
      obtain ⟨answer, stream', hgallop, h', hsub, hanswer, hle⟩ := gallopKey_ok (i := tour.index)
        h hdirection hpeeked hindex hget ht.least
      have hleast : ∀ k, Common spec (iterator.context.set tour.index stream') k →
          direction.cmpLe tour.candidate k := fun k hk => ht.least k (common_of_set hget hsub hk)
      have hwithin' : ∀ s ∈ iterator.context.set tour.index stream', ∀ value ∈ s.values,
          value ∈ base.flatMap values := by
        intro s hs value hv
        obtain hs | rfl := List.mem_or_eq_of_mem_set hs
        · exact hwithin s hs value hv
        · exact hwithin _ (List.mem_of_getElem? hget) value (hsub value hv)
      have hother : ∀ j, j ≠ tour.index →
          (iterator.context.set tour.index stream')[j]? = iterator.context[j]? := fun j hj =>
        List.getElem?_set_ne hj.symm
      have hset : (iterator.context.set tour.index stream')[tour.index]? = some stream' :=
        List.getElem?_set_self hlength
      have hne : ∀ j < tour.total, (start + j) % iterator.streamsCount ≠ tour.index := fun j hj => by
        rw [ht.index]
        exact index_ne hj htotal
      have hflagged : ∀ i < iterator.streamsCount, tour.pending[i]? = some true →
          ∀ s, (iterator.context.set tour.index stream')[i]? = some s → s.IsPending := by
        intro i hi hp s hs
        rw [hother i fun heq => hnot (heq ▸ hp)] at hs
        exact ht.flagged i hi hp s hs
      have htoured : ∀ j < tour.total, ∀ s, (iterator.context.set tour.index stream')[
          (start + j) % iterator.streamsCount]? = some s →
            Flag iterator.streamsCount tour.pending (start + j) ∨
              s.Head spec.keyFromValue tour.candidate := by
        intro j hj s hs
        rw [hother _ (hne j hj)] at hs
        exact ht.toured j hj s hs
      rw [if_neg hpending, hgallop, ok_bind]
      obtain ⟨rfl, hstream⟩ | ⟨rfl, hstream⟩ | ⟨key, rfl, hhead⟩ := hanswer
      · -- The stream is pending from now on.
        simp only
        rw [assert_of (by rw [hfalse]; rfl), ok_bind, write_of_some hread, ok_bind]
        have hbits : ∀ x, (tour.pending.set tour.index true)[x]? = some true ↔
            tour.pending[x]? = some true ∨ x = tour.index := by
          intro x
          by_cases hx : x = tour.index
          · rw [hx, List.getElem?_set_self hbit]
            simp
          · rw [List.getElem?_set_ne (Ne.symm hx)]
            simp [hx]
        refine @ih start _ { iterator with context := _ } h' hwithin' hcount hone hwidth
          hdirection hpeeked ?_ (by simp only; omega)
        exact {
          least := hleast
          width := (List.length_set ..).trans ht.width
          flagged := fun i hi hp s hs => by
            obtain hp | rfl := (hbits i).mp hp
            · exact hflagged i hi hp s hs
            · rw [hset] at hs
              cases hs
              exact hstream
          toured := fun j hj s hs => by
            obtain hlt | rfl := Nat.lt_succ_iff_lt_or_eq.mp hj
            · exact (htoured j hlt s hs).imp_left fun hf => (hbits _).mpr (.inl hf)
            · exact .inl ((hbits _).mpr (.inr ht.index.symm))
          index := hnext
          pendingTotal := by
            simp only
            rw [Nat.count_succ, if_pos ((hbits _).mpr (.inr ht.index.symm)), ht.pendingTotal]
            refine congrArg (· + 1) (count_congr fun j hj => ?_)
            exact ((hbits _).trans (or_iff_left (hne j hj))).symm
          pendingCount := by
            simp only
            rw [ht.pendingCount]
            refine (count_insert hindex ?_ fun x hx => ?_).symm
            · rw [flag_of_lt hindex]
              exact hnot
            · rw [flag_of_lt hx, flag_of_lt hx]
              exact hbits x
          total := by
            have := ht.total
            simp only
            omega
          bound := htotal
        }
      · exact ⟨none, _, rfl, h', .inl ⟨rfl, stream', List.mem_of_getElem? hset, hstream⟩⟩
      · simp only
        by_cases hahead : iterator.direction.cmpLt tour.candidate key
        · -- The stream is strictly ahead, and a new tour begins with it.
          have hlt := aheadOf_lt hwithin' hset hhead (hdirection ▸ hahead)
          have hmul := Nat.mul_le_mul_right iterator.streamsCount hlt
          rw [Nat.succ_mul] at hmul
          rw [if_pos hahead]
          refine @ih (start + tour.total) _ { iterator with context := _ } h' hwithin' hcount hone hwidth
            hdirection hpeeked ?_
            (by simp only; omega)
          exact {
            least := fun k hk => by
              obtain ⟨value, hv, rfl⟩ := hk stream' (List.mem_of_getElem? hset)
              exact (h'.sound _ (List.mem_of_getElem? hset)).head_le hhead hv
            width := ht.width
            flagged := hflagged
            toured := fun j hj s hs => by
              obtain rfl : j = 0 := by simp only at hj; omega
              rw [Nat.add_zero, ← ht.index, hset] at hs
              cases hs
              exact .inr hhead
            index := by
              simp only
              rw [hnext, Nat.add_assoc]
            pendingTotal := by
              simp only
              rw [Nat.count_succ, Nat.count_zero, Nat.add_zero, if_neg fun hf => hnot (hflag.mp hf)]
            pendingCount := ht.pendingCount
            total := rfl
            bound := by simp only; omega
          }
        · have heq : tour.candidate = key :=
            (cmpLe_iff.mp (hle key rfl)).resolve_left (hdirection ▸ hahead)
          rw [if_neg hahead, assert_of heq, ok_bind]
          refine @ih start _ { iterator with context := _ } h' hwithin' hcount hone hwidth
            hdirection hpeeked ?_ (by simp only; omega)
          exact {
            least := hleast
            width := ht.width
            flagged := hflagged
            toured := fun j hj s hs => by
              obtain hlt | rfl := Nat.lt_succ_iff_lt_or_eq.mp hj
              · exact htoured j hlt s hs
              · rw [← ht.index, hset] at hs
                cases hs
                exact .inr (heq ▸ hhead)
            index := hnext
            pendingTotal := by
              simp only
              rw [Nat.count_succ, if_neg fun hf => hnot (hflag.mp hf), ht.pendingTotal]
              rfl
            pendingCount := ht.pendingCount
            total := by
              have := ht.total
              simp only
              omega
            bound := htotal
          }

end Tour

section Pop

variable {iterator : ZigZagMergeIterator Key Value} {candidate : Key}

theorem streamProbe_ok (hi : context[i]? = some stream) :
    streamProbe spec context i direction candidate =
      .ok (context.set i (stream.probe spec.keyFromValue direction candidate)) := by
  rw [streamProbe, read_of_some hi]
  rfl

def flags (pending : List Bool) (first n : Nat) : Nat :=
  (List.range' first n).countP fun i => pending[i]? = some true

theorem flags_eq_count {pending : List Bool} {n : Nat} :
    flags pending 0 n = Nat.count (Flag n pending) n := by
  have hcount : ∀ m ≤ n, flags pending 0 m = Nat.count (Flag n pending) m := by
    intro m hm
    induction m with
    | zero => rfl
    | succ m ih =>
      have := ih (by omega)
      rw [flags] at this ⊢
      rw [Nat.count_succ, ← this, List.range'_1_concat, List.countP_append, List.countP_singleton,
        Nat.zero_add]
      simp only [flag_of_lt (show m < n by omega), decide_eq_true_eq]
  exact hcount n (Nat.le_refl n)

theorem probePending_ok (first : Nat) {n : Nat} {pending : List Bool}
    (h : Merging spec direction initial popped context) (hn : first + n = context.length)
    (hwidth : context.length ≤ pending.length)
    (hleast : ∀ k, Common spec context k → direction.cmpLe candidate k)
    (hall : ∀ j ≥ first, ∀ s, context[j]? = some s → (pending[j]? = some true ∧ s.IsPending) ∨
      (pending[j]? = some false ∧ s.Head spec.keyFromValue candidate)) :
    ∃ context', probePending spec direction candidate (List.range' first n) context pending
        (flags pending first n) = .ok (context', 0) ∧
      Merging spec direction initial popped context' ∧
      (flags pending first n = 0 → context' = context) ∧
      ∀ s ∈ context, s.IsPending → ∃ s' ∈ context', s'.IsPending := by
  induction n generalizing first context pending with
  | zero => exact ⟨context, rfl, h, fun _ => rfl, fun s hs hp => ⟨s, hs, hp⟩⟩
  | succ n ih =>
    have hlt : first < context.length := by omega
    have hget := List.getElem?_eq_getElem hlt
    have hflags : flags pending first (n + 1) =
        flags pending (first + 1) n + if pending[first]? = some true then 1 else 0 := by
      rw [flags, flags, List.range'_succ, List.countP_cons]
      simp only [decide_eq_true_eq]
    rw [List.range'_succ, probePending]
    obtain ⟨hbit, hpending⟩ | ⟨hbit, hhead⟩ := hall first (Nat.le_refl _) _ hget
    · have h' := h.probe hget hleast
      have hpending' : (context[first].probe spec.keyFromValue direction candidate).IsPending :=
        hpending.probe
      have hset : (context.set first (context[first].probe spec.keyFromValue direction candidate))[
          first]? = some (context[first].probe spec.keyFromValue direction candidate) :=
        List.getElem?_set_self hlt
      rw [if_pos hbit] at hflags
      rw [read_of_some hbit, ok_bind, if_pos rfl, write_of_some hbit, ok_bind,
        assert_of (by rw [hflags]; omega), ok_bind, streamProbe_ok hget, ok_bind,
        streamPeek_ok hset, ok_bind, peek_pending hpending', assert_of rfl, ok_bind]
      have hsame : flags pending (first + 1) n = flags (pending.set first false) (first + 1) n := by
        refine List.countP_congr fun j hj => ?_
        have := (List.mem_range'_1.mp hj).1
        rw [List.getElem?_set_ne (by omega)]
      obtain ⟨context', hprobe, hmerging, -, hkeeps⟩ := @ih _ (first + 1)
        (pending.set first false) h' (by rw [List.length_set]; omega)
        (by rw [List.length_set, List.length_set]; exact hwidth)
        (fun k hk => hleast k (common_of_set hget (fun v hv => probe_sublist.mem hv) hk))
        (fun j hj s hs => by
          rw [List.getElem?_set_ne (by omega)] at hs
          rw [List.getElem?_set_ne (by omega)]
          exact hall j (by omega) s hs)
      refine ⟨context', ?_, hmerging, fun hzero => absurd hzero (by omega), fun s hs hp => ?_⟩
      · rw [hflags, Nat.add_sub_cancel, hsame]
        exact hprobe
      · obtain ⟨j, hj⟩ := List.mem_iff_getElem?.mp hs
        by_cases hfirst : first = j
        · exact hkeeps _ (List.mem_of_getElem? hset) hpending'
        · exact hkeeps s (List.mem_of_getElem? ((List.getElem?_set_ne hfirst).trans hj)) hp
    · rw [if_neg (by rw [hbit]; simp)] at hflags
      rw [read_of_some hbit, ok_bind, if_neg (by simp), streamPeek_ok hget, ok_bind, peek_head hhead]
      simp only
      rw [assert_of trivial, ok_bind, hflags, Nat.add_zero]
      exact ih (first + 1) h (by omega) hwidth hleast fun j hj => hall j (by omega)

theorem popOthers_ok [DecidableEq Value] (context : List (ZigZagStream Value)) (value : Value)
    (n first : Nat) (hn : first + n = context.length)
    (hheads : ∀ j ≥ first, ∀ s, context[j]? = some s → ∃ rest, s.loaded = value :: rest) :
    popOthers spec (spec.keyFromValue value) value (List.range' first n) context =
      .ok (context.take first ++
        (context.drop first).map fun s => { s with loaded := s.loaded.tail }) := by
  induction n generalizing first context with
  | zero =>
    rw [List.take_of_length_le (by omega), List.drop_of_length_le (by omega), List.map_nil,
      List.append_nil]
    rfl
  | succ n ih =>
    have hlt : first < context.length := by omega
    have hget := List.getElem?_eq_getElem hlt
    obtain ⟨rest, hrest⟩ := hheads first (Nat.le_refl _) _ hget
    have hpop : streamPop context first =
        .ok (value, context.set first { context[first] with loaded := rest }) := by
      rw [streamPop, read_of_some hget, ok_bind, hrest]
      rfl
    rw [List.range'_succ, popOthers, hpop, ok_bind]
    simp only
    rw [assert_of trivial, ok_bind, assert_of trivial, ok_bind, ih _ _ (by rw [List.length_set]; omega)
      fun j hj s hs => by
        rw [List.getElem?_set_ne (by omega)] at hs
        exact hheads j (by omega) s hs]
    rw [List.drop_set_of_lt (by omega), List.drop_eq_getElem_cons hlt, List.map_cons, hrest,
      List.set_eq_take_append_cons_drop, if_pos hlt, List.take_append, List.length_take,
      Nat.min_eq_left hlt.le, List.take_of_length_le (by rw [List.length_take]; omega)]
    simp

variable [BoundedOrder Key]

theorem firstCandidate_le : direction.cmpLe (firstCandidate direction : Key) k := by
  cases direction <;> simp [Direction.cmpLe, firstCandidate]

omit [LinearOrder Key] [BoundedOrder Key] in
theorem length_flatMap_values :
    (context.flatMap ZigZagStream.values).length = valuesLeft context := by
  simp [List.length_flatMap, valuesLeft, values]

theorem peekKey_ok (h : Merging spec direction initial popped iterator.context)
    (hcount : iterator.streamsCount = initial.length) (hone : 1 < iterator.streamsCount)
    (hmax : iterator.streamsCount ≤ spec.streamsMax) (hwidth : iterator.streamsCount < 2 ^ 8)
    (hdirection : iterator.direction = direction)
    (hpeeked : ∀ k ∈ iterator.keyPeeked, ∃ p ∈ popped, spec.keyFromValue p = k) :
    ∃ answer context' peeked', iterator.peekKey spec =
        .ok (answer, { iterator with context := context', keyPeeked := peeked' }) ∧
      Merging spec direction initial popped context' ∧
      ((answer = .error {} ∧ peeked' = iterator.keyPeeked ∧ ∃ s ∈ context', s.IsPending) ∨
        (answer = .ok none ∧ peeked' = iterator.keyPeeked ∧ ∃ s ∈ context', s.values = []) ∨
        ∃ key, answer = .ok (some key) ∧ peeked' = some key ∧
          ∀ s ∈ context', s.Head spec.keyFromValue key) := by
  have hbits : iterator.streamsCount ≤ pendingBitsetWidth := by
    rw [pendingBitsetWidth]
    omega
  have hreplicate : ∀ i : Nat, ¬(List.replicate pendingBitsetWidth false)[i]? = some true := by
    intro i hi
    have := List.mem_of_getElem? hi
    simp at this
  have hstart : Touring spec direction iterator.streamsCount iterator.context 0 {
      candidate := firstCandidate iterator.direction
      pending := List.replicate pendingBitsetWidth false
      pendingCount := 0, total := 0, equal := 0, pendingTotal := 0, index := 0 } := {
    least := fun k _ => by
      rw [hdirection]
      exact firstCandidate_le
    width := List.length_replicate
    flagged := fun i _ hp => absurd hp (hreplicate i)
    toured := fun j hj => absurd hj (Nat.not_lt_zero j)
    index := (Nat.zero_mod _).symm
    pendingTotal := rfl
    pendingCount := by
      rw [eq_comm, Nat.count_iff_forall_not]
      exact fun x _ => hreplicate _
    total := rfl
    bound := Nat.zero_le _
  }
  have hahead : aheadOf spec direction iterator.context (firstCandidate iterator.direction) ≤
      valuesLeft iterator.context := by
    rw [← length_flatMap_values]
    exact List.countP_le_length
  have hmul := Nat.mul_le_mul_right iterator.streamsCount hahead
  obtain ⟨answer, context', hgo, h', hanswer⟩ := @goAround_ok _ _ _ spec direction initial popped 0 _
    iterator.context iterator ((valuesLeft iterator.context + 1) * iterator.streamsCount + 1) h
    (fun s hs v hv => List.mem_flatMap.mpr ⟨s, hs, hv⟩) hcount hone hbits hdirection hpeeked hstart
    (by rw [Nat.add_mul]; simp only; omega)
  rw [peekKey, assert_of hone, ok_bind, assert_of hmax, ok_bind, assert_of hwidth, ok_bind]
  simp only
  rw [hgo, ok_bind]
  obtain ⟨rfl, hempty⟩ | ⟨tour, start, rfl, ht, htotal⟩ := hanswer
  · exact ⟨.ok none, context', iterator.keyPeeked, rfl, h', .inr (.inl ⟨rfl, rfl, hempty⟩)⟩
  · have heq := ht.pendingTotal_eq htotal
    have hlength : iterator.streamsCount = context'.length := by rw [h'.count, hcount]
    have hflags : tour.pendingCount = flags tour.pending 0 iterator.streamsCount := by
      rw [flags_eq_count]
      exact ht.pendingCount
    have hall : ∀ j ≥ 0, ∀ s, context'[j]? = some s → (tour.pending[j]? = some true ∧ s.IsPending) ∨
        (tour.pending[j]? = some false ∧ s.Head spec.keyFromValue tour.candidate) := by
      intro j _ s hs
      have hj : j < iterator.streamsCount := hlength ▸ (List.getElem?_eq_some_iff.mp hs).1
      have hbit := List.getElem?_eq_getElem (show j < tour.pending.length by rw [ht.width]; omega)
      by_cases hp : tour.pending[j]? = some true
      · exact .inl ⟨hp, ht.flagged j hj hp s hs⟩
      · refine .inr ⟨?_, (ht.settled htotal hj hs).resolve_left hp⟩
        rw [hbit] at hp ⊢
        simpa using hp
    have hpending : 0 < flags tour.pending 0 iterator.streamsCount → ∃ s ∈ context', s.IsPending := by
      intro hpos
      obtain ⟨j, hj, hp⟩ := List.countP_pos_iff.mp hpos
      have hj' : j < iterator.streamsCount := by
        have := (List.mem_range'_1.mp hj).2
        omega
      have hget := List.getElem?_eq_getElem (hlength ▸ hj')
      exact ⟨_, List.mem_of_getElem? hget, ht.flagged j hj' (by simpa using hp) _ hget⟩
    simp only
    rw [assert_of ht.total, ok_bind, assert_of htotal, ok_bind, assert_of heq, ok_bind]
    by_cases hwhole : tour.pendingTotal = iterator.streamsCount
    · rw [if_pos hwhole]
      refine ⟨.error {}, context', iterator.keyPeeked, rfl, h', .inl ⟨rfl, rfl, hpending ?_⟩⟩
      omega
    · obtain ⟨context'', hprobe, h'', hsame, hkeeps⟩ := probePending_ok 0 h'
        ((Nat.zero_add _).trans hlength) (by rw [ht.width]; omega) ht.least hall
      rw [if_neg hwhole, hdirection, List.range_eq_range', hflags, hprobe, ok_bind]
      simp only
      rw [assert_of trivial, ok_bind]
      by_cases hsome : tour.pendingTotal > 0
      · rw [if_pos hsome]
        obtain ⟨s, hs, hp⟩ := hpending (by omega)
        exact ⟨.error {}, context'', iterator.keyPeeked, rfl, h'',
          .inl ⟨rfl, rfl, hkeeps s hs hp⟩⟩
      · have hcontext := hsame (by omega)
        have hheads : ∀ s ∈ context'', s.Head spec.keyFromValue tour.candidate := by
          intro s hs
          obtain ⟨j, hj⟩ := List.mem_iff_getElem?.mp hs
          refine ((hall j (Nat.zero_le _) s (hcontext ▸ hj)).resolve_left fun hp => ?_).2
          have hzero : flags tour.pending 0 iterator.streamsCount = 0 := by omega
          refine List.countP_eq_zero.mp hzero j (List.mem_range'_1.mpr ⟨Nat.zero_le _, ?_⟩)
            (by simpa using hp.1)
          rw [Nat.zero_add, hlength, ← hcontext]
          exact (List.getElem?_eq_some_iff.mp hj).1
        have hfirst : 0 < context''.length := by rw [h''.count, ← hcount]; omega
        have hget := List.getElem?_eq_getElem hfirst
        rw [if_neg hsome, assert_of fun k hk => h''.peeked_le hget (hpeeked k hk)
          (hheads _ (List.mem_of_getElem? hget)), ok_bind]
        exact ⟨.ok (some tour.candidate), context'', some tour.candidate, rfl, h'',
          .inr (.inr ⟨_, rfl, rfl, hheads⟩)⟩

-- The iterator between two pops.
structure Holds (spec : ZigZagMergeSpec Key Value) (direction : Direction)
    (initial : List (ZigZagStream Value)) (popped : List Value)
    (iterator : ZigZagMergeIterator Key Value) : Prop where
  merging : Merging spec direction initial popped iterator.context
  count : iterator.streamsCount = initial.length
  several : 1 < iterator.streamsCount
  max : iterator.streamsCount ≤ spec.streamsMax
  narrow : iterator.streamsCount < 2 ^ 8
  directed : iterator.direction = direction
  peeked : ∀ k ∈ iterator.keyPeeked, ∃ p ∈ popped, spec.keyFromValue p = k
  last : ∀ k ∈ iterator.keyPopped, ∃ p ∈ popped, spec.keyFromValue p = k

-- The values that an answer gives.
def answered : Except ZigZagStream.Pending (Option Value) → List Value
  | .ok (some value) => [value]
  | _                => []

-- All streams have the same value for a key.
def Agree (spec : ZigZagMergeSpec Key Value) (context : List (ZigZagStream Value)) : Prop :=
  ∀ v ∈ context.flatMap values, ∀ v' ∈ context.flatMap values,
    spec.keyFromValue v = spec.keyFromValue v' → v = v'

theorem pop_ok [DecidableEq Value] (h : Holds spec direction initial popped iterator)
    (hagree : Agree spec initial) :
    ∃ answer iterator', iterator.pop spec = .ok (answer, iterator') ∧
      Holds spec direction initial (popped ++ answered answer) iterator' ∧
      (answer = .ok none → ∃ s ∈ iterator'.context, s.values = []) ∧
      ∀ p, answer = .error p → ∃ s ∈ iterator'.context, s.IsPending := by
  obtain ⟨answer, context', peeked', hpeek, h', hanswer⟩ := peekKey_ok h.merging h.count h.several h.max
    h.narrow h.directed h.peeked
  rw [pop, hpeek, ok_bind]
  obtain ⟨rfl, rfl, hpending⟩ | ⟨rfl, rfl, hempty⟩ | ⟨key, rfl, rfl, hheads⟩ := hanswer
  · refine ⟨.error {}, _, rfl, ?_, (fun hn => by cases hn), fun _ _ => hpending⟩
    show Holds spec direction initial (popped ++ []) _
    rw [List.append_nil]
    exact { h with merging := h' }
  · refine ⟨.ok none, _, rfl, ?_, (fun _ => hempty), fun p hp => by cases hp⟩
    show Holds spec direction initial (popped ++ []) _
    rw [List.append_nil]
    exact { h with merging := h' }
  · have hlength : context'.length = iterator.streamsCount := by rw [h'.count, h.count]
    have hfirst : 0 < context'.length := by
      have := h.several
      omega
    have hget := List.getElem?_eq_getElem hfirst
    obtain ⟨value, rest, hloaded, rfl⟩ := hheads _ (List.mem_of_getElem? hget)
    have hsame : ∀ s ∈ context', ∃ rest, s.loaded = value :: rest := by
      intro s hs
      obtain ⟨v, rest', hv, hkey⟩ := hheads s hs
      have hmem : v ∈ initial.flatMap values := h'.within s hs v (by
        rw [values, hv]
        exact List.mem_cons_self)
      have hmem' : value ∈ initial.flatMap values := h'.within _ (List.mem_of_getElem? hget) value (by
        rw [values, hloaded]
        exact List.mem_cons_self)
      exact ⟨rest', hagree v hmem value hmem' hkey ▸ hv⟩
    have hbefore : ∀ k ∈ iterator.keyPopped,
        iterator.direction.cmpLt k (spec.keyFromValue value) := by
      intro k hk
      obtain ⟨p, hp, rfl⟩ := h.last k hk
      rw [h.directed]
      refine h'.ahead p hp _ (List.mem_of_getElem? hget) value ?_
      rw [values, hloaded]
      exact List.mem_cons_self
    have hpop : streamPop context' 0 =
        .ok (value, context'.set 0 { context'[0] with loaded := rest }) := by
      rw [streamPop, read_of_some hget, ok_bind, hloaded]
      rfl
    have hothers := @popOthers_ok _ _ _ spec _
      (context'.set 0 { context'[0] with loaded := rest }) value (iterator.streamsCount - 1) 1
      (by rw [List.length_set, hlength]; have := h.several; omega) fun j hj s hs => by
        rw [List.getElem?_set_ne (by omega)] at hs
        exact hsame s (List.mem_of_getElem? hs)
    have hmap : (context'.set 0 { context'[0] with loaded := rest }).take 1 ++
        ((context'.set 0 { context'[0] with loaded := rest }).drop 1).map
          (fun s => { s with loaded := s.loaded.tail }) =
        context'.map fun s => { s with loaded := s.loaded.tail } := by
      cases context' with
      | nil => cases hfirst
      | cons s others =>
        simp only [List.getElem_cons_zero] at hloaded ⊢
        simp [hloaded]
    simp only
    rw [assert_of hbefore, ok_bind, hpop, ok_bind]
    simp only
    rw [assert_of trivial, ok_bind, hothers, ok_bind, hmap]
    refine ⟨.ok (some value), _, rfl, ?_, (fun hn => by cases hn), fun p hp => by cases hp⟩
    have hlast : ∀ k ∈ some (spec.keyFromValue value), ∃ p ∈ popped ++ [value],
        spec.keyFromValue p = k := fun k hk => by
      cases hk
      exact ⟨value, List.mem_append_right _ (List.mem_singleton_self _), rfl⟩
    exact {
      merging := h'.advance (List.ne_nil_of_length_pos hfirst) hsame
      count := h.count
      several := h.several
      max := h.max
      narrow := h.narrow
      directed := h.directed
      peeked := hlast
      last := hlast
    }

-- The iterator after any number of pops, with refills of the streams in between.
inductive Reaches [DecidableEq Value] (spec : ZigZagMergeSpec Key Value)
    (first : ZigZagMergeIterator Key Value) : List Value → ZigZagMergeIterator Key Value → Prop
  | start : Reaches spec first [] first
  | pop {given : List Value} {now next : ZigZagMergeIterator Key Value}
      {answer : Except ZigZagStream.Pending (Option Value)} : Reaches spec first given now →
      now.pop spec = .ok (answer, next) → Reaches spec first (given ++ answered answer) next
  | refill {given : List Value} {now : ZigZagMergeIterator Key Value} {s : ZigZagStream Value}
      (i count : Nat) (seen : Bool) : Reaches spec first given now → now.context[i]? = some s →
      Reaches spec first given { now with context := now.context.set i (s.refill count seen) }
  | reset {given : List Value} {now : ZigZagMergeIterator Key Value} : Reaches spec first given now →
      Reaches spec first given now.reset

theorem holds_of_reaches [DecidableEq Value] {first : ZigZagMergeIterator Key Value}
    (hagree : Agree spec initial) (h : Holds spec direction initial [] first)
    (hr : Reaches spec first popped iterator) : Holds spec direction initial popped iterator := by
  induction hr with
  | start => exact h
  | pop _ hpop ih =>
    obtain ⟨answer, iterator', hpop', h', -⟩ := pop_ok ih hagree
    rw [hpop] at hpop'
    cases hpop'
    exact h'
  | refill i count seen _ hi ih => exact { ih with merging := ih.merging.refill hi count seen }
  | reset _ ih => exact ih

omit [BoundedOrder Key] in
theorem holds_new {streamsCount : Nat} {first : ZigZagMergeIterator Key Value}
    (hnew : new spec initial streamsCount direction = .ok first)
    (hcount : initial.length = streamsCount) (hnarrow : streamsCount < 2 ^ 8)
    (hsound : ∀ stream ∈ initial, stream.Sound direction spec.keyFromValue) :
    Holds spec direction initial [] first := by
  rw [new] at hnew
  obtain ⟨hmax, hnew⟩ := assert_ok hnew
  obtain ⟨hone, hnew⟩ := assert_ok hnew
  cases hnew
  exact {
    merging := {
      count := rfl
      sound := hsound
      within := fun s hs v hv => List.mem_flatMap.mpr ⟨s, hs, hv⟩
      ordered := List.Pairwise.nil
      ahead := fun p hp => absurd hp List.not_mem_nil
      common := fun k => ⟨.inr, fun hk => hk.resolve_left fun ⟨p, hp, _⟩ => absurd hp List.not_mem_nil⟩
    }
    count := hcount.symm
    several := hone
    max := hmax
    narrow := hnarrow
    directed := rfl
    peeked := fun k hk => by cases hk
    last := fun k hk => by cases hk
  }

-- No assertion fails, whenever the streams are refilled. The keys that have been popped are in strict
-- order and in all streams, and they are all of these when the iterator has come to its end. Only
-- a pending stream makes a pop give nothing before that.
theorem intersects_of_reaches [DecidableEq Value] {streamsCount : Nat}
    {first : ZigZagMergeIterator Key Value}
    (hnew : new spec initial streamsCount direction = .ok first)
    (hcount : initial.length = streamsCount) (hnarrow : streamsCount < 2 ^ 8)
    (hsound : ∀ stream ∈ initial, stream.Sound direction spec.keyFromValue)
    (hagree : Agree spec initial) (hr : Reaches spec first popped iterator) :
    (popped.Pairwise fun a b => direction.cmpLt (spec.keyFromValue a) (spec.keyFromValue b)) ∧
      (∀ p ∈ popped, Common spec initial (spec.keyFromValue p)) ∧
      (∀ stream ∈ initial, popped.length ≤ stream.values.length) ∧
      ∃ answer iterator', iterator.pop spec = .ok (answer, iterator') ∧
        (answer = .ok none → ∀ k, Common spec initial k → ∃ p ∈ popped, spec.keyFromValue p = k) ∧
        ∀ p, answer = .error p → ∃ s ∈ iterator'.context, s.IsPending := by
  have h := holds_of_reaches hagree (holds_new hnew hcount hnarrow hsound) hr
  have hcommon : ∀ p ∈ popped, Common spec initial (spec.keyFromValue p) := fun p hp =>
    (h.merging.common _).mpr (.inl ⟨p, hp, rfl⟩)
  refine ⟨h.merging.ordered, hcommon, fun stream hs => ?_, ?_⟩
  · have hnodup : (popped.map spec.keyFromValue).Nodup := by
      rw [List.Nodup, List.pairwise_map]
      refine h.merging.ordered.imp fun {a b} hlt heq => ?_
      rw [heq] at hlt
      exact cmpLt_irrefl hlt
    have hsubset : popped.map spec.keyFromValue ⊆ stream.values.map spec.keyFromValue := by
      intro k hk
      obtain ⟨p, hp, rfl⟩ := List.mem_map.mp hk
      obtain ⟨v, hv, heq⟩ := hcommon p hp stream hs
      exact List.mem_map.mpr ⟨v, hv, heq⟩
    simpa using (List.subperm_of_subset hnodup hsubset).length_le
  · obtain ⟨answer, iterator', hpop, h', hended, hpending⟩ := pop_ok h hagree
    refine ⟨answer, iterator', hpop, fun hnone k hk => ?_, hpending⟩
    subst hnone
    obtain ⟨s, hs, hempty⟩ := hended rfl
    rw [show popped ++ answered (.ok none) = popped from List.append_nil _] at h'
    refine ((h'.merging.common k).mp hk).resolve_right fun hrest => ?_
    obtain ⟨v, hv, -⟩ := hrest s hs
    rw [hempty] at hv
    cases hv

end Pop

def bytes : ZigZagMergeSpec (Fin 256) (Fin 256) where
  streamsMax := 256
  keyFromValue := id

theorem neZero_byte : NeZero 256 :=
  ⟨by decide⟩

attribute [local instance] neZero_byte in
def byteStreams : List (ZigZagStream (Fin 256)) :=
  [{ loaded := [3, 5], unloaded := [7], ended := false },
    { loaded := [], unloaded := [5, 7], ended := false }]

def byteIterator : ZigZagMergeIterator (Fin 256) (Fin 256) where
  context := byteStreams
  streamsCount := 2
  direction := .ascending
  keyPopped := none
  keyPeeked := none

set_option maxRecDepth 10000 in
-- The second stream is pending, and is then refilled with one value.
theorem intersects_of_reaches_bytes : ∃ iterator, Reaches bytes byteIterator [5] iterator ∧
    ∀ p ∈ [5], Common bytes byteStreams p := by
  have hpending : Reaches bytes byteIterator ([] ++ answered (.error {})) _ := .pop .start rfl
  have hrefill : Reaches bytes byteIterator ([] ++ answered (.error {})) _ :=
    .refill 1 1 false hpending rfl
  have hr : Reaches bytes byteIterator ([] ++ answered (.ok (some 5))) _ := .pop hrefill rfl
  have hsound : ∀ stream ∈ byteStreams, stream.Sound .ascending bytes.keyFromValue := by
    intro stream hs
    simp only [byteStreams, List.mem_cons, List.not_mem_nil, or_false] at hs
    obtain rfl | rfl := hs
    · exact ⟨by decide, by decide⟩
    · exact ⟨by decide, by decide⟩
  exact ⟨_, hr, (intersects_of_reaches rfl rfl (by decide) hsound (fun _ _ _ _ h => h) hr).2.1⟩

-- As many streams as the bitset has bits are too many for a pop.
theorem not_intersects_wide : ∃ first : ZigZagMergeIterator (Fin 256) (Fin 256),
    new bytes (List.replicate 256 { loaded := [0], unloaded := [], ended := true }) 256 .ascending =
        .ok first ∧ first.pop bytes = abort "u8::try_from(self.streams_count).is_ok()" :=
  ⟨_, rfl, rfl⟩

end ZigZagMerge

end TigerBeetle
