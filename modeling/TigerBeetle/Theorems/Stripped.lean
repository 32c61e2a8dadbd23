import TigerBeetle.Theorems.Ewah

-- What is left of the segments of words without the runs of zeros that they end with.
namespace TigerBeetle.Ewah

open Fallible

section

variable {α : Type} {p : α → Bool} {xs ys : List α} {x : α}

theorem rdropWhile_cons_of_ne (h : xs.rdropWhile p ≠ []) :
    (x :: xs).rdropWhile p = x :: xs.rdropWhile p := by
  unfold List.rdropWhile at *
  rw [List.reverse_cons, List.dropWhile_append, if_neg (by simpa using h), List.reverse_append]
  rfl

theorem rdropWhile_cons_of_eq_nil (h : xs.rdropWhile p = []) :
    (x :: xs).rdropWhile p = if p x then [] else [x] := by
  have hr : (x :: xs).rdropWhile p = [x].rdropWhile p := by
    unfold List.rdropWhile at *
    rw [List.reverse_cons, List.dropWhile_append, if_pos (by simpa using h)]
    rfl
  rw [hr, List.rdropWhile_singleton]

-- The prefix of a list is not longer when what follows does not continue it.
theorem takeWhile_take_append {n : Nat} (h : (∃ x ∈ xs, p x = false) ∨ ∀ y ∈ ys, p y = false) :
    ((xs ++ ys).take n).takeWhile p = (xs.take n).takeWhile p := by
  rw [← List.take_takeWhile, ← List.take_takeWhile, List.takeWhile_append]
  split
  · next he =>
    have hxs : xs.takeWhile p = xs := (List.takeWhile_prefix p).eq_of_length he
    have hys : ys.takeWhile p = [] := by
      cases ys with
      | nil => rfl
      | cons y ys =>
        have hy := h.resolve_left fun ⟨x, hm, hx⟩ => by
          rw [List.takeWhile_eq_self_iff.mp hxs x hm] at hx
          cases hx
        rw [List.takeWhile_cons, hy y (by simp)]
        rfl
    rw [hys, List.append_nil, hxs]
  · rfl

end

variable {words : List Word}

def stripped (words : List Word) : List Segment :=
  (segments words).rdropWhile fun s => s.ZeroRun

theorem fits_stripped : ∀ s ∈ stripped words, s.marker.Fits :=
  fun s hs => fits_segments s ((List.rdropWhile_prefix _ _).subset hs)

theorem stripped_append : stripped words ++
    (segments words).rtakeWhile (fun s => s.ZeroRun) = segments words :=
  List.rdropWhile_append_rtakeWhile ..

-- A run of zeros is encoded as its marker, and decoded to zeros.
theorem length_encoded_zeroRuns {list : List Segment} (h : ∀ s ∈ list, s.ZeroRun) :
    (list.flatMap Segment.encoded).length = list.length := by
  induction list with
  | nil => rfl
  | cons s list ih =>
    have ⟨_, hl⟩ := h s (by simp)
    rw [List.flatMap_cons, List.length_append, ih fun s hs => h s (by simp [hs])]
    simp only [Segment.encoded, hl, List.length_cons, List.length_nil]
    omega

theorem decoded_zeroRuns {list : List Segment} (h : ∀ s ∈ list, s.ZeroRun) :
    ∃ n, list.flatMap Segment.decoded = List.replicate n 0 := by
  induction list with
  | nil => exact ⟨0, rfl⟩
  | cons s list ih =>
    have ⟨hb, hl⟩ := h s (by simp)
    have ⟨n, hn⟩ := ih fun s hs => h s (by simp [hs])
    refine ⟨s.count + n, ?_⟩
    rw [List.flatMap_cons, hn, Segment.decoded, hb, hl, List.append_nil, List.replicate_add]
    rfl

theorem zeroRun_of_mem_rtakeWhile :
    ∀ s ∈ (segments words).rtakeWhile (fun s => s.ZeroRun), s.ZeroRun :=
  fun _ hs => by simpa using List.mem_rtakeWhile_imp hs

theorem encoded_stripped : ∃ tail, tail.length = trailingZeroRuns (segments words) ∧
    (segments words).flatMap Segment.encoded =
      (stripped words).flatMap Segment.encoded ++ tail := by
  refine ⟨_, length_encoded_zeroRuns (@zeroRun_of_mem_rtakeWhile words), ?_⟩
  rw [← List.flatMap_append, stripped_append]

-- The words are decoded again, up to zeros that follow.
theorem decoded_stripped :
    ∃ n, words = (stripped words).flatMap Segment.decoded ++ List.replicate n 0 := by
  have ⟨n, hn⟩ := decoded_zeroRuns (@zeroRun_of_mem_rtakeWhile words)
  refine ⟨n, ?_⟩
  rw [← hn, ← List.flatMap_append, stripped_append, decoded_segments]

theorem zeroRun_segment (n : Nat) : (segment (List.replicate n 0)).ZeroRun ∧
    ∃ m, afterSegment (List.replicate n 0) = List.replicate m 0 := by
  have hnil : ∀ m, literalWordCount (List.replicate m 0) = 0 := by
    intro m
    cases m <;> simp [literalWordCount, isLiteral, List.replicate_succ, markerLiteralWordCountMax]
  have hbit : uniformBit (List.replicate n 0) = 0 := by
    unfold uniformBit
    split
    · rfl
    · rw [show (List.replicate n (0 : Word)).headD 0 = 0 by cases n <;> rfl]
      rfl
  unfold segment afterSegment Segment.ZeroRun
  simp only [List.drop_replicate, hnil, List.take_zero, hbit]
  exact ⟨⟨trivial, trivial⟩, _, rfl⟩

theorem stripped_zeros (n : Nat) : stripped (List.replicate n 0) = [] := by
  induction n using Nat.strong_induction_on with
  | _ n ih =>
    cases n with
    | zero => simp [stripped, segments_nil]
    | succ n =>
      have hne : List.replicate (n + 1) (0 : Word) ≠ [] := by simp
      have ⟨hz, m, hm⟩ := zeroRun_segment (n + 1)
      have hlt := length_afterSegment_lt hne
      rw [hm, List.length_replicate, List.length_replicate] at hlt
      have hnil := ih m hlt
      unfold stripped at *
      rw [segments_of_ne hne, hm, rdropWhile_cons_of_eq_nil hnil, decide_eq_true hz]
      rfl

-- The first segment ends before the zeros that follow, unless there are zeros only.
theorem segment_append_zeros {n : Nat} (h : ∃ word ∈ words, word ≠ 0) :
    segment (words ++ List.replicate n 0) = segment words ∧
      afterSegment (words ++ List.replicate n 0) = afterSegment words ++ List.replicate n 0 := by
  have huniform : uniformWordCount (words ++ List.replicate n 0) = uniformWordCount words := by
    cases words with
    | nil => simp at h
    | cons word words =>
      rw [List.cons_append, uniformWordCount_cons, uniformWordCount_cons, ← List.cons_append,
        takeWhile_take_append]
      by_cases hw : word = 0
      · have ⟨w, hm, hw'⟩ := h
        exact .inl ⟨w, hm, decide_eq_false (hw ▸ hw')⟩
      · exact .inr fun y hy => decide_eq_false (by rw [List.eq_of_mem_replicate hy]; exact Ne.symm hw)
  have hliteral : ∀ list, literalWordCount (list ++ List.replicate n 0) = literalWordCount list := by
    intro list
    unfold literalWordCount
    rw [takeWhile_take_append (.inr fun y hy => by rw [List.eq_of_mem_replicate hy]; rfl)]
  have hbit : uniformBit (words ++ List.replicate n 0) = uniformBit words := by
    unfold uniformBit
    rw [huniform]
    cases words with
    | nil => simp at h
    | cons word words => rfl
  have hdrop : (words ++ List.replicate n 0).drop (uniformWordCount words) =
      words.drop (uniformWordCount words) ++ List.replicate n 0 :=
    List.drop_append_of_le_length (uniformWordCount_le _)
  unfold segment afterSegment
  simp only [huniform, hbit, hdrop, hliteral]
  rw [List.take_append_of_le_length (literalWordCount_le _),
    List.drop_append_of_le_length (literalWordCount_le _)]
  exact ⟨rfl, rfl⟩

-- What is encoded does not depend on the number of zeros that the words end with.
theorem stripped_append_zeros (words : List Word) (n : Nat) :
    stripped (words ++ List.replicate n 0) = stripped words := by
  induction hl : words.length using Nat.strong_induction_on generalizing words with
  | _ m ih =>
    by_cases h : ∃ word ∈ words, word ≠ 0
    case neg =>
      have hzeros : words = List.replicate words.length 0 :=
        List.eq_replicate_iff.mpr ⟨rfl, fun w hw => by_contra fun hn => h ⟨w, hw, hn⟩⟩
      rw [hzeros, List.replicate_append_replicate, stripped_zeros, stripped_zeros]
    have ⟨hs, ha⟩ := @segment_append_zeros _ n h
    have hne : words ≠ [] := by
      rintro rfl
      simp at h
    have hne' : words ++ List.replicate n 0 ≠ [] := by simp [hne]
    have hih := ih _ (hl ▸ length_afterSegment_lt hne) _ rfl
    unfold stripped at *
    rw [segments_of_ne hne, segments_of_ne hne', hs, ha]
    by_cases hnil : (segments (afterSegment words)).rdropWhile (fun s => s.ZeroRun) = []
    · rw [rdropWhile_cons_of_eq_nil hnil, rdropWhile_cons_of_eq_nil (hih.trans hnil)]
    · rw [rdropWhile_cons_of_ne hnil, rdropWhile_cons_of_ne (by rwa [hih]), hih]

section Length

-- What follows the literals of a segment is no literal, unless the segment is full of them.
theorem literals_full {word : Word} {after : List Word} (h : afterSegment words = word :: after)
    (hl : isLiteral word = true) : (segment words).literals.length = markerLiteralWordCountMax := by
  have hlen : (segment words).literals.length =
      literalWordCount (words.drop (uniformWordCount words)) :=
    List.length_take_of_le (literalWordCount_le _)
  unfold afterSegment at h
  dsimp only at h
  rw [hlen]
  generalize words.drop (uniformWordCount words) = literals at h ⊢
  have hmin : literalWordCount literals =
      min markerLiteralWordCountMax (literals.takeWhile isLiteral).length := by
    unfold literalWordCount
    rw [← List.take_takeWhile, List.length_take]
  by_contra hne
  have hcount : literalWordCount literals = (literals.takeWhile isLiteral).length := by omega
  have hdrop : literals.drop (literalWordCount literals) = literals.dropWhile isLiteral := by
    have hsplit := congrArg (List.drop (literals.takeWhile isLiteral).length)
      (@List.takeWhile_append_dropWhile _ isLiteral literals)
    rw [List.drop_left] at hsplit
    rw [hcount, hsplit]
  rw [hdrop] at h
  have hhead := List.head?_dropWhile_not isLiteral literals
  rw [h] at hhead
  simp [hl] at hhead

theorem length_segment {word : Word} {after : List Word} (h : words = word :: after) :
    (segment words).count + (segment words).literals.length + (afterSegment words).length =
        words.length ∧
      if isLiteral word then (segment words).count = 0 ∧ 0 < (segment words).literals.length
      else 0 < (segment words).count := by
  have hlen : (segment words).literals.length =
      literalWordCount (words.drop (uniformWordCount words)) :=
    List.length_take_of_le (literalWordCount_le _)
  have hcount : (segment words).count = uniformWordCount words := rfl
  have h₁ := uniformWordCount_le words
  have h₂ := literalWordCount_le (words.drop (uniformWordCount words))
  rw [List.length_drop] at h₂
  refine ⟨?_, ?_⟩
  · unfold afterSegment
    rw [List.length_drop, List.length_drop, hlen, hcount]
    omega
  · split
    · next hl =>
      have hzero : uniformWordCount words = 0 := by
        rw [h]
        exact uniformWordCount_of_literal hl
      rw [hcount, hlen, hzero, List.drop_zero, h]
      exact ⟨rfl, literalWordCount_pos after hl⟩
    · next hl =>
      rw [hcount, h]
      exact uniformWordCount_pos after (by simpa using hl)

-- Only literals need more room than their segment has words, for every marker that is full of them.
theorem length_encoded_segments : ((segments words).flatMap Segment.encoded).length ≤ words.length +
    ((if isLiteral (words.headD 0) then words.length + markerLiteralWordCountMax
      else words.length) - 1) / markerLiteralWordCountMax := by
  induction hn : words.length using Nat.strong_induction_on generalizing words with
  | _ m ih =>
    cases hw : words with
    | nil =>
      rw [segments_nil]
      exact Nat.zero_le _
    | cons word after =>
      have hne : words ≠ [] := by simp [hw]
      have hih := ih _ (hn ▸ length_afterSegment_lt hne) rfl
      have ⟨hlen, hrun⟩ := length_segment hw
      have hhead : words.headD 0 = word := by rw [hw]; rfl
      rw [← hw, segments_of_ne hne, List.flatMap_cons, List.length_append, hhead]
      have hencoded : (segment words).encoded.length = (segment words).literals.length + 1 := rfl
      rw [hencoded]
      have hfull : isLiteral ((afterSegment words).headD 0) = true →
          (segment words).literals.length = markerLiteralWordCountMax := by
        cases ha : afterSegment words with
        | nil => nofun
        | cons next rest => exact literals_full ha
      unfold markerLiteralWordCountMax at *
      by_cases hl : isLiteral word = true
      · rw [if_pos hl] at hrun ⊢
        by_cases hl' : isLiteral ((afterSegment words).headD 0) = true
        · rw [if_pos hl'] at hih
          have hfull := hfull hl'
          omega
        · rw [if_neg hl'] at hih
          omega
      · rw [if_neg hl] at hrun ⊢
        by_cases hl' : isLiteral ((afterSegment words).headD 0) = true
        · rw [if_pos hl'] at hih
          have hfull := hfull hl'
          omega
        · rw [if_neg hl'] at hih
          omega

-- What the segments are encoded to fits in as many bytes as literals only are given.
theorem encoded_room (words : List Word) :
    ((segments words).flatMap Segment.encoded).length ≤ encodeSizeMax words.length / wordBytes := by
  have hsize : encodeSizeMax words.length / wordBytes =
      (words.length + markerLiteralWordCountMax - 1) / markerLiteralWordCountMax + words.length := by
    unfold encodeSizeMax
    dsimp only
    rw [← Nat.add_mul]
    exact Nat.mul_div_cancel _ (by decide)
  rw [hsize]
  refine length_encoded_segments.trans (Nat.add_comm _ _ ▸ Nat.add_le_add_right
    (Nat.div_le_div_right ?_) _)
  split <;> omega

theorem encodeSizeMax_aligned (wordCount : Nat) : encodeSizeMax wordCount % wordBytes = 0 := by
  unfold encodeSizeMax
  dsimp only
  rw [← Nat.add_mul]
  exact Nat.mul_mod_left ..

-- One chunk of this size takes all words, however runs and literals alternate.
theorem encodeChunk_encodeSizeMax (source : List Word) :
    ∃ chunk written encoder,
      (Encoder.new source).encodeChunk (encodeSizeMax source.length) =
          .ok (chunk, written, encoder) ∧
        encoder.done = true ∧
        written = ((segments source).flatMap Segment.encoded).length * wordBytes ∧
        written ≤ encodeSizeMax source.length ∧
        encodeAll source (encodeSizeMax source.length) = .ok (chunk, written) := by
  have hroom := encoded_room source
  have hmeets := Encoder.encodeChunk_meets (@Encoder.Follows.new source)
    (encodeSizeMax_aligned source.length)
  obtain ⟨⟨chunk, written, encoder⟩, heq, _, hwritten, _, hpending, _, hfollows⟩ :=
    Meets.iff_exists.mp hmeets
  rw [Encoder.pending_new, List.take_of_length_le hroom] at hwritten
  rw [Encoder.pending_new, List.drop_of_length_le hroom] at hpending
  have hdone := hfollows.done_iff.mpr hpending
  refine ⟨chunk, written, encoder, heq, hdone, hwritten, ?_, ?_⟩
  · calc written = ((segments source).flatMap Segment.encoded).length * wordBytes := hwritten
      _ ≤ encodeSizeMax source.length / wordBytes * wordBytes := Nat.mul_le_mul_right _ hroom
      _ ≤ encodeSizeMax source.length := Nat.div_mul_le_self ..
  · unfold encodeAll
    rw [assert_of rfl, ok_bind, heq, ok_bind]
    dsimp only
    rw [assert_of hdone, ok_bind]
    rfl

end Length

end TigerBeetle.Ewah
