import TigerBeetle.Theorems.Segments

namespace TigerBeetle.Ewah

open Fallible

section

variable {α : Type} {xs ys : List α} {n : Nat}

theorem take_append_of_le (h : xs.length ≤ n) :
    (xs ++ ys).take n = xs ++ ys.take (n - xs.length) := by
  rw [List.take_append, List.take_of_length_le h]

theorem drop_append_of_le (h : xs.length ≤ n) :
    (xs ++ ys).drop n = ys.drop (n - xs.length) := by
  rw [List.drop_append, List.drop_of_length_le h, List.nil_append]

end

-- How many runs of zeros without literals the segments end with.
def trailingZeroRuns (segments : List Segment) : Nat :=
  (segments.rtakeWhile fun s => s.ZeroRun).length

theorem trailingZeroRuns_concat {segments : List Segment} {s : Segment} :
    trailingZeroRuns (segments ++ [s]) =
      if s.ZeroRun then trailingZeroRuns segments + 1 else 0 := by
  unfold trailingZeroRuns
  rw [List.rtakeWhile_concat]
  by_cases h : s.ZeroRun <;> simp [h]

namespace Encoder

variable {encoder : Encoder} {source : List Word} {before : List Segment}

-- The words that are still to be written: the literals that are left over, and what follows them.
def pending (encoder : Encoder) : List Word :=
  (encoder.sourceWords.drop encoder.sourceIndex).take encoder.literalWordCount ++
    (segments (encoder.sourceWords.drop
      (encoder.sourceIndex + encoder.literalWordCount))).flatMap Segment.encoded

-- The encoder has written the markers of the given segments.
structure Follows (source : List Word) (before : List Segment) (encoder : Encoder) : Prop where
  words : encoder.sourceWords = source
  within : encoder.sourceIndex + encoder.literalWordCount ≤ source.length
  started : segments source =
    before ++ segments (source.drop (encoder.sourceIndex + encoder.literalWordCount))
  trailing : encoder.trailingZeroRunsCount = trailingZeroRuns before

theorem Follows.new : Follows source [] (new source) where
  words := rfl
  within := Nat.zero_le _
  started := rfl
  trailing := rfl

theorem pending_new : (new source).pending = (segments source).flatMap Segment.encoded := by
  simp [pending, new]

theorem Follows.done_iff (h : encoder.Follows source before) :
    encoder.done = true ↔ encoder.pending = [] := by
  have hw := h.within
  unfold done pending
  rw [h.words, decide_eq_true_iff]
  constructor
  · intro hd
    rw [show encoder.literalWordCount = 0 by omega, List.drop_of_length_le (by omega),
      List.drop_of_length_le (by omega), segments_nil]
    rfl
  · intro hp
    have ⟨hl, hs⟩ := List.append_eq_nil_iff.mp hp
    have hlen := congrArg List.length hl
    simp only [List.length_take, List.length_drop, List.length_nil] at hlen
    by_contra hne
    have hzero : encoder.literalWordCount = 0 := by omega
    rw [segments_of_ne (by
      intro hn
      have := List.drop_eq_nil_iff.mp hn
      omega)] at hs
    exact absurd hs (by simp [Segment.encoded])

theorem copyLiterals_meets {count : Nat}
    (h : encoder.sourceIndex + count ≤ encoder.sourceWords.length) :
    encoder.copyLiterals count = .ok ((encoder.sourceWords.drop encoder.sourceIndex).take count,
      { encoder with sourceIndex := encoder.sourceIndex + count }) := by
  unfold copyLiterals assert assertOn
  rw [if_pos h]
  rfl

-- One round of the loop: the marker and the first literals of the segment.
theorem encodeMarkers_of_ne {space : Nat} {words : List Word}
    (hw : encoder.sourceWords.drop encoder.sourceIndex = words) (hne : words ≠ [])
    (hl : encoder.literalWordCount = 0) :
    encoder.encodeMarkers (space + 1) = (do
      let count := min (segment words).literals.length space
      let (rest, after) ← encodeMarkers
        { encoder with
          sourceIndex := encoder.sourceIndex + (segment words).count + count
          literalWordCount := (segment words).literals.length - count
          trailingZeroRunsCount :=
            if (segment words).ZeroRun then encoder.trailingZeroRunsCount + 1 else 0 }
        (space - count)
      return ((segment words).marker.word :: (segment words).literals.take count ++ rest, after)) := by
  have hfits := fits_segment words
  have hlen : (segment words).literals.length =
      Ewah.literalWordCount (words.drop (uniformWordCount words)) :=
    List.length_take_of_le (literalWordCount_le _)
  have hmarker : (segment words).marker = ⟨uniformBit words, uniformWordCount words,
      Ewah.literalWordCount (words.drop (uniformWordCount words))⟩ := by
    unfold Segment.marker
    rw [hlen]
    rfl
  have hdrop : encoder.sourceWords.drop (encoder.sourceIndex + uniformWordCount words) =
      words.drop (uniformWordCount words) := by
    rw [← hw, List.drop_drop]
  have hlength := congrArg List.length hw
  rw [List.length_drop] at hlength
  have hpos := List.length_pos_of_ne_nil hne
  have hpack := Marker.pack_eq hfits
  have huniform := uniformWordCount_le_max words
  have hliteral := literalWordCount_le_max (words.drop (uniformWordCount words))
  have h₁ := literalWordCount_le (words.drop (uniformWordCount words))
  have h₂ := uniformWordCount_le words
  rw [List.length_drop] at h₁
  unfold markerUniformWordCountMax at huniform
  unfold markerLiteralWordCountMax at hliteral
  rw [hmarker] at hpack
  rw [encodeMarkers, dif_pos ⟨by omega, by omega⟩]
  simp only [hw, hdrop, Nat.add_sub_cancel, ← hlen] at hpack h₁ hliteral ⊢
  generalize hk : min (segment words).literals.length space = k
  have hcopy := @copyLiterals_meets
    { encoder with sourceIndex := encoder.sourceIndex + uniformWordCount words } k
    (by dsimp only; omega)
  rw [assert_of hl, ok_bind, assert_of (by omega), ok_bind, assert_of (by omega), ok_bind, hpack,
    ok_bind, hcopy, ok_bind]
  have hlits : (words.drop (uniformWordCount words)).take k = (segment words).literals.take k := by
    show _ = ((words.drop (uniformWordCount words)).take _).take k
    rw [List.take_take, ← hlen, Nat.min_eq_left (by omega)]
  have hz : (segment words).ZeroRun ↔
      uniformBit words = 0 ∧ (segment words).literals.length = 0 := by
    unfold Segment.ZeroRun
    rw [List.length_eq_zero_iff]
    rfl
  dsimp only
  rw [hdrop, hlits]
  unfold Segment.marker
  by_cases hc : uniformBit words = 0 ∧ (segment words).literals.length = 0
  · have hafter := length_afterSegment_lt hne
    simp only [afterSegment, List.length_drop, ← hlen, hc.2] at hafter
    rw [if_pos hc, if_pos (hz.mpr hc), assert_of (by omega)]
    rfl
  · rw [if_neg hc, if_neg fun h => hc (hz.mp h)]
    rfl

-- Either there are no literals left over, or the chunk is full.
theorem encodeMarkers_meets {space : Nat} (h : encoder.Follows source before)
    (hl : encoder.literalWordCount = 0 ∨ space = 0) :
    Meets (fun _ => False) (fun (words, after) => words = encoder.pending.take space ∧
      after.pending = encoder.pending.drop space ∧ ∃ before', after.Follows source before')
      (encoder.encodeMarkers space) := by
  induction space using Nat.strong_induction_on generalizing encoder before with
  | _ space ih =>
    have hs := h.words
    have hw := h.within
    cases space with
    | zero =>
      rw [encodeMarkers, dif_neg (by omega)]
      exact ⟨rfl, rfl, before, h⟩
    | succ space =>
      have hzero : encoder.literalWordCount = 0 := by omega
      generalize hwords : encoder.sourceWords.drop encoder.sourceIndex = words
      by_cases hne : words = []
      case pos =>
        have hlen := List.drop_eq_nil_iff.mp (hwords.trans hne)
        have hp : encoder.pending = [] := by
          rw [← h.done_iff]
          unfold done
          rw [hs] at hlen ⊢
          exact decide_eq_true (by omega)
        rw [encodeMarkers, dif_neg (by omega), hp]
        exact ⟨rfl, hp, before, h⟩
      have hpending : encoder.pending = (segment words).marker.word ::
          ((segment words).literals ++ (segments (afterSegment words)).flatMap Segment.encoded) := by
        unfold pending
        rw [hzero, Nat.add_zero, hwords, List.take_zero, segments_of_ne hne]
        rfl
      rw [encodeMarkers_of_ne hwords hne hzero]
      dsimp only
      generalize hk : min (segment words).literals.length space = k
      have hcount : (segment words).count ≤ words.length := uniformWordCount_le _
      have hliterals : (segment words).literals = (words.drop (segment words).count).take
          (segment words).literals.length :=
        List.prefix_iff_eq_take.mp (List.take_prefix _ _)
      have hafter : afterSegment words = (words.drop (segment words).count).drop
          (segment words).literals.length := by
        show List.drop _ _ = List.drop (List.length (List.take _ _)) _
        rw [List.length_take_of_le (literalWordCount_le _)]
        rfl
      have hlength := congrArg List.length hwords
      have hle := congrArg List.length hliterals
      rw [List.length_drop] at hlength
      rw [List.length_take, List.length_drop] at hle
      have hdrop : ∀ j, encoder.sourceWords.drop (encoder.sourceIndex + (segment words).count + j) =
          (words.drop (segment words).count).drop j := by
        intro j
        rw [List.drop_drop, ← hwords, List.drop_drop, Nat.add_assoc]
      have hrest : encoder.sourceWords.drop (encoder.sourceIndex + (segment words).count + k +
          ((segment words).literals.length - k)) = afterSegment words := by
        rw [Nat.add_assoc _ k, Nat.add_sub_cancel' (by omega), hdrop, hafter]
      rw [hs] at hwords hlength
      have hpos := List.length_pos_of_ne_nil hne
      generalize hnext : { encoder with
        sourceIndex := encoder.sourceIndex + (segment words).count + k
        literalWordCount := (segment words).literals.length - k
        trailingZeroRunsCount :=
          if (segment words).ZeroRun then encoder.trailingZeroRunsCount + 1 else 0 } = next
      have hnext' : next.pending = (segment words).literals.drop k ++
          (segments (afterSegment words)).flatMap Segment.encoded := by
        rw [← hnext]
        unfold pending
        dsimp only
        rw [hrest, hdrop, ← List.drop_take, ← hliterals]
      have hfollows : next.Follows source (before ++ [segment words]) := by
        rw [← hnext]
        refine ⟨hs, ?_, ?_, ?_⟩
        · dsimp only
          omega
        · have hstarted := h.started
          rw [hzero, Nat.add_zero, hwords, segments_of_ne hne] at hstarted
          dsimp only
          rw [← hs, hrest, hs, hstarted, List.append_assoc]
          rfl
        · dsimp only
          rw [trailingZeroRuns_concat, h.trailing]
      refine Meets.bind (ih (space - k) (by omega) hfollows ?_) fun ⟨rest, after⟩ hr => ?_
      · rw [← hnext]
        dsimp only
        omega
      · have ⟨hw', hp', hf'⟩ := hr
        have hlen : ((segment words).literals.take k).length = k :=
          List.length_take_of_le (by omega)
        have hsplit : (segment words).literals ++
            (segments (afterSegment words)).flatMap Segment.encoded =
              (segment words).literals.take k ++ next.pending := by
          rw [hnext', ← List.append_assoc, List.take_append_drop]
        refine ⟨?_, ?_, hf'⟩
        · rw [hpending, hsplit, List.take_succ_cons, take_append_of_le (by omega), hlen, hw']
          rfl
        · rw [hpending, hsplit, List.drop_succ_cons, drop_append_of_le (by omega), hlen]
          exact hp'

-- A chunk is filled with the words that are pending.
theorem encodeChunk_meets {size : Nat} (h : encoder.Follows source before)
    (ha : size % wordBytes = 0) :
    Meets (fun _ => False) (fun (chunk, written, after) =>
      chunk.take written = writeWords (encoder.pending.take (size / wordBytes)) ∧
        written = (encoder.pending.take (size / wordBytes)).length * wordBytes ∧
        chunk.length = size ∧
        after.pending = encoder.pending.drop (size / wordBytes) ∧
        ∃ before', after.Follows source before')
      (encoder.encodeChunk size) := by
  have hs := h.words
  have hw := h.within
  have hsize : size / wordBytes * wordBytes = size :=
    Nat.div_mul_cancel (Nat.dvd_of_mod_eq_zero ha)
  unfold encodeChunk
  rw [assert_of ha, ok_bind, assert_of (by rw [hs]; omega), ok_bind, assert_of (by rw [hs]; omega),
    ok_bind]
  dsimp only
  generalize size / wordBytes = space at hsize ⊢
  generalize hk : min encoder.literalWordCount space = k
  rw [copyLiterals_meets (by rw [hs]; omega), ok_bind]
  dsimp only
  generalize hnext : { encoder with
    sourceIndex := encoder.sourceIndex + k
    literalWordCount := encoder.literalWordCount - k } = next
  have hlen : ((encoder.sourceWords.drop encoder.sourceIndex).take k).length = k := by
    rw [List.length_take, List.length_drop, hs]
    omega
  have hnext' : encoder.pending =
      (encoder.sourceWords.drop encoder.sourceIndex).take k ++ next.pending := by
    rw [← hnext]
    unfold pending
    dsimp only
    rw [Nat.add_assoc, Nat.add_sub_cancel' (by omega), ← List.append_assoc,
      ← List.drop_drop (i := k) (j := encoder.sourceIndex), ← List.take_add,
      Nat.add_sub_cancel' (by omega)]
  have hfollows : next.Follows source before := by
    rw [← hnext]
    refine ⟨hs, ?_, ?_, h.trailing⟩
    · dsimp only
      omega
    · dsimp only
      rw [Nat.add_assoc, Nat.add_sub_cancel' (by omega)]
      exact h.started
  refine Meets.bind (encodeMarkers_meets hfollows ?_) fun ⟨words, after⟩ hr => ?_
  · rw [← hnext]
    dsimp only
    omega
  have ⟨hwords, hp, before', hf⟩ := hr
  have hspace : encoder.pending.take space =
      (encoder.sourceWords.drop encoder.sourceIndex).take k ++ words := by
    rw [hnext', take_append_of_le (by omega), hlen, hwords]
  have hbound := hf.within
  dsimp only
  rw [assert_of (by rw [hf.words]; omega)]
  refine ⟨?_, ?_, ?_, ?_, before', hf⟩
  · rw [hspace]
    exact List.take_left
  · rw [hspace]
    exact length_writeWords
  · have hle := List.length_take_le space encoder.pending
    rw [hspace] at hle
    have hbytes := Nat.mul_le_mul_right wordBytes hle
    rw [List.length_append, List.length_replicate, length_writeWords, ← hsize]
    exact Nat.add_sub_cancel' hbytes
  · rw [hp, hnext', drop_append_of_le (by omega), hlen]

theorem encodeChunks_meets {sizes : List Nat} (h : encoder.Follows source before)
    (ha : ∀ size ∈ sizes, size % wordBytes = 0) :
    Meets (fun _ => False) (fun (bytes, after) =>
      bytes = writeWords (encoder.pending.take (sizes.map (· / wordBytes)).sum) ∧
        after.pending = encoder.pending.drop (sizes.map (· / wordBytes)).sum ∧
        ∃ before', after.Follows source before')
      (encoder.encodeChunks sizes) := by
  induction sizes generalizing encoder before with
  | nil => exact ⟨rfl, rfl, before, h⟩
  | cons size sizes ih =>
    unfold encodeChunks
    split
    · next hd =>
      have hp := h.done_iff.mp hd
      refine ⟨?_, ?_, before, h⟩
      · rw [hp, List.take_nil]
        rfl
      · rw [hp, List.drop_nil]
    · refine Meets.bind (encodeChunk_meets h (ha size (by simp))) fun ⟨chunk, written, after⟩ hc => ?_
      have ⟨htake, _, _, hp, before', hf⟩ := hc
      refine Meets.bind (ih hf fun size hs => ha size (by simp [hs])) fun ⟨bytes, final⟩ hr => ?_
      have ⟨hbytes, hfinal, hf'⟩ := hr
      refine ⟨?_, ?_, hf'⟩
      · show chunk.take written ++ bytes = _
        rw [htake, hbytes, hp, ← writeWords_append, ← List.take_add, List.map_cons, List.sum_cons]
      · show final.pending = _
        rw [hfinal, hp, List.drop_drop, List.map_cons, List.sum_cons]

end Encoder

theorem toList_overwrite {n index : Nat} {target : Vector Word n} {words : List Word}
    (h : index + words.length ≤ n) : (overwrite target index words).toList =
      target.toList.take index ++ words ++ target.toList.drop (index + words.length) := by
  have htake : (target.toList.take index).length = index := by
    rw [List.length_take, Vector.length_toList]
    omega
  apply List.ext_getElem
  · simp only [List.length_append, htake, List.length_drop, Vector.length_toList]
    omega
  · intro i h₁ h₂
    rw [Vector.length_toList] at h₁
    simp only [overwrite, Vector.getElem_toList, Vector.getElem_ofFn, List.getElem_append,
      List.length_append, htake]
    split_ifs with hc hi hi'
    · omega
    · simp [List.getElem?_eq_getElem hc.2]
    · omega
    · simp
    · omega
    · simp only [List.getElem_drop, Vector.getElem_toList, Fin.getElem_fin]
      congr 1
      omega

-- The result has been written to the target up to an index.
def Fills {n : Nat} (target result : List Word) (words : Vector Word n) (index : Nat) : Prop :=
  words.toList = result.take index ++ target.drop index ∧ index ≤ result.length

theorem Fills.overwrite {n index : Nat} {target result more : List Word} {words : Vector Word n}
    {next : List Word} (h : Fills target result words index) (hn : index + next.length ≤ n)
    (hr : result.drop index = next ++ more) :
    Fills target result (overwrite words index next) (index + next.length) := by
  have hlen := congrArg List.length hr
  rw [List.length_drop, List.length_append] at hlen
  have hle := h.2
  refine ⟨?_, by omega⟩
  have htake : (result.take index).length = index := List.length_take_of_le hle
  have hnext : result.take (index + next.length) = result.take index ++ next := by
    rw [List.take_add, hr, List.take_left]
  rw [toList_overwrite (by omega), h.1, hnext, take_append_of_le (by omega),
    drop_append_of_le (by omega), htake, Nat.sub_self, List.take_zero, List.append_nil,
    List.drop_drop]
  congr 2
  omega

namespace Decoder

variable {n : Nat} {decoder : Decoder n} {target result literals more : List Word}
    {segments : List Segment}

-- The decoder is to read the literals and then the segments, for the target to become the result.
structure Expects (target result literals : List Word) (segments : List Segment)
    (decoder : Decoder n) : Prop where
  left : literals.length = decoder.sourceLiteralWords
  fits : ∀ s ∈ segments, s.marker.Fits
  fills : Fills target result decoder.targetWords decoder.targetIndex
  rest : result.drop decoder.targetIndex = literals ++ segments.flatMap Segment.decoded

variable {source : List Word}

theorem copyLiterals_eq {count : Nat} (h : decoder.targetIndex + count ≤ n) :
    decoder.copyLiterals count source = .ok { decoder with
      targetWords := overwrite decoder.targetWords decoder.targetIndex (source.take count)
      targetIndex := decoder.targetIndex + count } := by
  unfold copyLiterals
  rw [assert_of h]
  rfl

theorem decodeMarkers_meets (h : decoder.Expects target result literals segments)
    (hs : source ++ more = literals ++ segments.flatMap Segment.encoded)
    (hl : source ≠ [] → literals = []) :
    Meets (fun _ => n < result.length) (fun after =>
      after.sourceSizeRemaining = decoder.sourceSizeRemaining ∧
        decoder.targetIndex ≤ after.targetIndex ∧
        ∃ literals' segments', after.Expects target result literals' segments' ∧
          more = literals' ++ segments'.flatMap Segment.encoded)
      (decoder.decodeMarkers source) := by
  induction hn : source.length using Nat.strong_induction_on
    generalizing source decoder literals segments with
  | _ m ih =>
    cases source with
    | nil =>
      rw [decodeMarkers]
      exact ⟨rfl, Nat.le_refl _, literals, segments, h, hs⟩
    | cons word source =>
      obtain rfl := hl (by simp)
      cases segments with
      | nil => cases hs
      | cons s segments =>
        have hzero : decoder.sourceLiteralWords = 0 := h.left.symm
        have hfits := h.fits s (by simp)
        have hrest := h.rest
        simp only [List.flatMap_cons, List.nil_append, List.cons_append, Segment.encoded,
          Segment.decoded, List.cons.injEq] at hs hrest
        obtain ⟨rfl, hs⟩ := hs
        rw [decodeMarkers, assert_of hzero, ok_bind, Marker.unpack_word hfits]
        show Meets _ _ (assert (decoder.targetIndex + s.count ≤ n) _ >>= _)
        have hlen := congrArg List.length hrest
        simp only [List.length_drop, List.length_append, List.length_replicate] at hlen
        have hle := h.fills.2
        refine Meets.bind_iff.mpr (meets_assert.mpr ⟨fun hroom => ?_, fun _ => by omega⟩)
        rw [List.append_assoc] at hrest
        have hruns := h.fills.overwrite (by rwa [List.length_replicate]) hrest
        rw [List.length_replicate] at hruns
        obtain ⟨k, hk⟩ : ∃ k, min s.marker.literalWordCount source.length = k := ⟨_, rfl⟩
        have hmin : min s.literals.length source.length = k := hk
        have htake : source.take k = s.literals.take k := by
          have := congrArg (List.take k) hs
          rwa [List.take_append_of_le_length (by omega),
            List.take_append_of_le_length (by omega)] at this
        have hdrop : source.drop k ++ more =
            s.literals.drop k ++ segments.flatMap Segment.encoded := by
          have := congrArg (List.drop k) hs
          rwa [List.drop_append_of_le_length (by omega),
            List.drop_append_of_le_length (by omega)] at this
        have hliterals : result.drop (decoder.targetIndex + s.count) = s.literals.take k ++
            (s.literals.drop k ++ segments.flatMap Segment.decoded) := by
          rw [← List.drop_drop (i := s.count) (j := decoder.targetIndex), hrest,
            List.drop_left' (by simp), ← List.append_assoc, List.take_append_drop]
        have hlength : (s.literals.take k).length = k := List.length_take_of_le (by omega)
        dsimp only
        rw [hk]
        by_cases hroom' : decoder.targetIndex + s.count + k ≤ n
        case neg =>
          refine Meets.bind_iff.mpr (Meets.bind_iff.mpr (meets_assert.mpr ⟨fun hp => ?_, fun _ => ?_⟩))
          · exact absurd hp hroom'
          · omega
        have hfilled := hruns.overwrite (by rwa [hlength]) hliterals
        rw [hlength] at hfilled
        rw [copyLiterals_eq hroom', ok_bind, htake]
        refine (ih (source.drop k).length ?_
          ⟨?_, fun s hs => h.fits s (by simp [hs]), hfilled, ?_⟩ hdrop ?_ rfl).weaken
            fun after h => ⟨h.1, (Nat.le_add_right _ (s.count + k)).trans
              ((Nat.add_assoc _ _ _).symm.trans_le h.2.1), h.2.2⟩
        · rw [List.length_drop, ← hn, List.length_cons]
          omega
        · rw [List.length_drop]
          rfl
        · show result.drop (decoder.targetIndex + s.count + k) = _
          rw [← List.drop_drop, hliterals, List.drop_left' hlength]
        · intro hne
          rw [List.drop_eq_nil_iff]
          have := mt List.drop_eq_nil_iff.mpr hne
          omega

theorem decodeChunk_meets (h : decoder.Expects target result literals segments)
    (hs : source ++ more = literals ++ segments.flatMap Segment.encoded)
    (hsize : source.length * wordBytes ≤ decoder.sourceSizeRemaining) :
    Meets (fun _ => n < result.length) (fun (written, after) =>
      decoder.targetIndex + written = after.targetIndex ∧ after.targetIndex ≤ n ∧
        after.sourceSizeRemaining + source.length * wordBytes = decoder.sourceSizeRemaining ∧
        ∃ literals' segments', after.Expects target result literals' segments' ∧
          more = literals' ++ segments'.flatMap Segment.encoded)
      (decoder.decodeChunk (writeWords source)) := by
  have hleft := h.left
  have hle := h.fills.2
  have hrest := h.rest
  have hlen := congrArg List.length hrest
  rw [List.length_drop, List.length_append] at hlen
  unfold decodeChunk
  rw [assert_of (by rw [length_writeWords]; exact Nat.mul_mod_left _ _), ok_bind,
    assert_of (by rw [length_writeWords]; exact hsize), ok_bind, readWords_writeWords,
    length_writeWords]
  dsimp only
  obtain ⟨k, hk⟩ : ∃ k, min decoder.sourceLiteralWords source.length = k := ⟨_, rfl⟩
  have htake : source.take k = literals.take k := by
    have := congrArg (List.take k) hs
    rwa [List.take_append_of_le_length (by omega),
      List.take_append_of_le_length (by omega)] at this
  have hdrop : source.drop k ++ more = literals.drop k ++ segments.flatMap Segment.encoded := by
    have := congrArg (List.drop k) hs
    rwa [List.drop_append_of_le_length (by omega),
      List.drop_append_of_le_length (by omega)] at this
  have hliterals : result.drop decoder.targetIndex = literals.take k ++
      (literals.drop k ++ segments.flatMap Segment.decoded) := by
    rw [← List.append_assoc, List.take_append_drop, hrest]
  have hlength : (literals.take k).length = k := List.length_take_of_le (by omega)
  rw [hk]
  by_cases hroom : decoder.targetIndex + k ≤ n
  case neg =>
    refine Meets.bind_iff.mpr (Meets.bind_iff.mpr (meets_assert.mpr ⟨fun hp => ?_, fun _ => ?_⟩))
    · exact absurd hp hroom
    · omega
  have hfilled := h.fills.overwrite (by rwa [hlength]) hliterals
  rw [hlength] at hfilled
  rw [copyLiterals_eq (by show decoder.targetIndex + k ≤ n; exact hroom), ok_bind, htake]
  refine Meets.bind (decodeMarkers_meets ⟨?_, h.fits, hfilled, ?_⟩ hdrop ?_) fun after ha => ?_
  · rw [List.length_drop, hleft]
  · show result.drop (decoder.targetIndex + k) = _
    rw [← List.drop_drop, hliterals, List.drop_left' hlength]
  · intro hne
    rw [List.drop_eq_nil_iff]
    have := mt List.drop_eq_nil_iff.mpr hne
    omega
  · have ⟨hremaining, hadvance, literals', segments', he, hmore⟩ := ha
    have hbound := he.fills.2
    have hindex : decoder.targetIndex ≤ after.targetIndex := (Nat.le_add_right _ k).trans hadvance
    refine Meets.bind_iff.mpr (meets_assert.mpr ⟨fun hend => ?_, fun _ => by omega⟩)
    refine ⟨?_, hend, ?_, literals', segments', he, hmore⟩
    · show decoder.targetIndex + (after.targetIndex - decoder.targetIndex) = after.targetIndex
      omega
    · rw [hremaining]
      exact Nat.sub_add_cancel hsize

-- What is left of the source is what is in the chunks.
theorem decodeChunks_meets {chunks : List (List Byte)}
    (h : decoder.Expects target result literals segments)
    (hs : chunks.flatten = writeWords (literals ++ segments.flatMap Segment.encoded))
    (hn : decoder.targetIndex ≤ n)
    (hsize : chunks.flatten.length = decoder.sourceSizeRemaining) :
    Meets (fun _ => n < result.length ∨ ¬∀ chunk ∈ chunks, chunk.length % wordBytes = 0)
      (fun (written, after) =>
        decoder.targetIndex + written = after.targetIndex ∧ after.targetIndex ≤ n ∧
          after.sourceSizeRemaining = 0 ∧ after.Expects target result [] [])
      (decoder.decodeChunks chunks) := by
  induction chunks generalizing decoder literals segments with
  | nil =>
    have hnil : literals ++ segments.flatMap Segment.encoded = [] := by
      have hlen := congrArg List.length hs
      rw [length_writeWords] at hlen
      have hlen : 0 = (literals ++ segments.flatMap Segment.encoded).length * 8 := hlen
      exact List.eq_nil_of_length_eq_zero (by omega)
    have ⟨hl, hsegments⟩ := List.append_eq_nil_iff.mp hnil
    cases segments with
    | nil => exact ⟨rfl, hn, hsize.symm, hl ▸ h⟩
    | cons s segments => cases hsegments
  | cons chunk chunks ih =>
    unfold decodeChunks
    by_cases hc : chunk.length % wordBytes = 0
    case neg =>
      unfold decodeChunk
      refine Meets.bind_iff.mpr (Meets.bind_iff.mpr
        (meets_assert.mpr ⟨fun hp => absurd hp hc, fun _ => .inr fun ha => hc (ha chunk (by simp))⟩))
    obtain ⟨hchunk, hchunks⟩ := writeWords_eq_append hs.symm hc
    generalize chunk.length / wordBytes = k at hchunk hchunks
    generalize hw : literals ++ segments.flatMap Segment.encoded = words at hchunk hchunks hs
    have hlen : (words.take k).length * wordBytes = chunk.length := by
      rw [hchunk, length_writeWords]
    rw [List.flatten_cons, List.length_append] at hsize
    have hdecode := decodeChunk_meets h ((List.take_append_drop k words).trans hw.symm) (by omega)
    rw [← hchunk] at hdecode
    refine Meets.bind (hdecode.mono (fun _ hr => hr) fun _ hr => .inl hr) fun ⟨written, after⟩ hr => ?_
    have ⟨hindex, hn', hremaining, literals', segments', he, hmore⟩ := hr
    refine Meets.bind ((ih he (hmore ▸ hchunks) hn' (by omega)).mono (fun _ hr => hr)
      fun _ hr => hr.imp_right fun hn ha => hn fun chunk hm => ha chunk (by simp [hm]))
      fun ⟨rest, final⟩ hf => ?_
    have ⟨hindex', hend, hremaining', he'⟩ := hf
    refine ⟨?_, hend, hremaining', he'⟩
    show decoder.targetIndex + (written + rest) = final.targetIndex
    omega

end Decoder

-- Segments are decoded to the front of the target, whatever the chunks that they come in.
theorem decodeChunks_encoded {n : Nat} {segments : List Segment} {chunks : List (List Byte)}
    (hf : ∀ s ∈ segments, s.marker.Fits)
    (hs : chunks.flatten = writeWords (segments.flatMap Segment.encoded))
    (target : Vector Word n) :
    Meets (fun _ => n < (segments.flatMap Segment.decoded).length ∨
        ¬∀ chunk ∈ chunks, chunk.length % wordBytes = 0)
      (fun (written, after) => written = (segments.flatMap Segment.decoded).length ∧ written ≤ n ∧
        after.done = .ok true ∧
        after.targetWords.toList = segments.flatMap Segment.decoded ++
          target.toList.drop (segments.flatMap Segment.decoded).length)
      ((Decoder.new target chunks.flatten.length).decodeChunks chunks) := by
  have hnew : (Decoder.new target chunks.flatten.length).Expects target.toList
      (segments.flatMap Segment.decoded) [] segments :=
    ⟨rfl, hf, ⟨rfl, Nat.zero_le _⟩, rfl⟩
  refine (Decoder.decodeChunks_meets hnew hs (Nat.zero_le _) rfl).weaken
    fun ⟨written, after⟩ hr => ?_
  have ⟨hindex, hn, hremaining, he⟩ := hr
  have hlen := he.fills.2
  have hend := List.drop_eq_nil_iff.mp he.rest
  have hwritten : written = after.targetIndex := by
    rw [← hindex]
    exact (Nat.zero_add _).symm
  have heq : after.targetIndex = (segments.flatMap Segment.decoded).length := by omega
  refine ⟨hwritten.trans heq, hwritten.trans_le hn, ?_, ?_⟩
  · have hleft : after.sourceLiteralWords = 0 := he.left.symm
    unfold Decoder.done
    rw [assert_of (by omega), ok_bind, if_pos hremaining, assert_of hleft]
    rfl
  · rw [he.fills.1, heq, List.take_length]

-- The words that are encoded in chunks are decoded from any other chunks.
theorem round_trip (source : List Word) (sizes : Nat → Nat)
    (hs : ∀ i, 0 < sizes i ∧ sizes i % wordBytes = 0) :
    ∃ rounds bytes encoder,
      (Encoder.new source).encodeChunks ((List.range rounds).map sizes) = .ok (bytes, encoder) ∧
        encoder.done = true ∧
        ∀ (chunks : List (List Byte)) (target : Vector Word source.length),
          chunks.flatten = bytes → (∀ chunk ∈ chunks, chunk.length % wordBytes = 0) →
          ∃ decoder,
            (Decoder.new target bytes.length).decodeChunks chunks = .ok (source.length, decoder) ∧
              decoder.targetWords.toList = source ∧ decoder.done = .ok true := by
  generalize hp : (segments source).flatMap Segment.encoded = words
  have hsum : ∀ rounds, rounds ≤ (((List.range rounds).map sizes).map (· / wordBytes)).sum := by
    intro rounds
    induction rounds with
    | zero => exact Nat.zero_le _
    | succ rounds ih =>
      have ⟨hpos, hmod⟩ := hs rounds
      have hone : 1 ≤ sizes rounds / wordBytes :=
        (Nat.one_le_div_iff (by decide)).mpr (Nat.le_of_dvd hpos (Nat.dvd_of_mod_eq_zero hmod))
      simp only [List.range_succ, List.map_append, List.sum_append, List.map_cons, List.map_nil,
        List.sum_cons, List.sum_nil]
      omega
  have hnew : (Encoder.new source).Follows source [] := Encoder.Follows.new
  have ha : ∀ size ∈ (List.range words.length).map sizes, size % wordBytes = 0 := by
    simpa using fun i _ => (hs i).2
  have hmeets := Encoder.encodeChunks_meets hnew ha
  obtain ⟨⟨bytes, encoder⟩, heq, hbytes, hpending, before, hfollows⟩ := Meets.iff_exists.mp hmeets
  rw [Encoder.pending_new, hp] at hbytes hpending
  rw [List.take_of_length_le (hsum _)] at hbytes
  rw [List.drop_of_length_le (hsum _)] at hpending
  refine ⟨words.length, bytes, encoder, heq, hfollows.done_iff.mpr hpending, fun chunks target hc ha => ?_⟩
  have hdecoded : ((segments source).flatMap Segment.decoded).length ≤ source.length := by
    rw [decoded_segments]
  have hdec := (decodeChunks_encoded fits_segments (by rw [hc, hbytes, hp]) target).mono
    (fun _ hr => hr) fun _ hr => hr.elim (fun hlt => absurd hlt (by omega)) fun hn => hn ha
  rw [hc] at hdec
  obtain ⟨⟨written, decoder⟩, heq', hwritten, _, hdone, hwords⟩ := Meets.iff_exists.mp hdec
  rw [decoded_segments] at hwritten hwords
  refine ⟨decoder, hwritten ▸ heq', ?_, hdone⟩
  rw [hwords, List.drop_of_length_le (by simp), List.append_nil]

theorem round_trip_of_runs : ∃ rounds bytes encoder,
    (Encoder.new [0, 0, 5]).encodeChunks ((List.range rounds).map fun _ => 8) =
        .ok (bytes, encoder) ∧
      encoder.done = true ∧
      ∀ (chunks : List (List Byte)) (target : Vector Word 3),
        chunks.flatten = bytes → (∀ chunk ∈ chunks, chunk.length % wordBytes = 0) →
        ∃ decoder, (Decoder.new target bytes.length).decodeChunks chunks = .ok (3, decoder) ∧
          decoder.targetWords.toList = [0, 0, 5] ∧ decoder.done = .ok true :=
  round_trip [0, 0, 5] (fun _ => 8) fun _ => by decide

end TigerBeetle.Ewah
