import TigerBeetle.Ewah

namespace TigerBeetle.Ewah

theorem getLsbD_fromLeBytes {bytes : List Byte} {i : Nat} (hi : i < 64) :
    (fromLeBytes bytes).getLsbD i = (bytes.getD (i / 8) 0).getLsbD (i % 8) := by
  induction bytes generalizing i with
  | nil => simp [fromLeBytes]
  | cons byte bytes ih =>
    have hc : fromLeBytes (byte :: bytes) = fromLeBytes bytes <<< 8 ||| byte.zeroExtend 64 := rfl
    rw [hc, BitVec.getLsbD_or, BitVec.getLsbD_shiftLeft]
    by_cases h8 : i < 8
    · simp [h8, hi, Nat.div_eq_of_lt h8, Nat.mod_eq_of_lt h8]
    · have hdiv : i / 8 = (i - 8) / 8 + 1 := by omega
      have hmod : i % 8 = (i - 8) % 8 := by omega
      have hb : byte.getLsbD i = false := BitVec.getLsbD_of_ge byte i (by omega)
      rw [ih (by omega), hdiv, hmod, List.getD_cons_succ]
      simp [h8, hi, hb]

@[simp]
theorem fromLeBytes_toLeBytes {word : Word} : fromLeBytes (toLeBytes word) = word := by
  apply BitVec.eq_of_getLsbD_eq
  intro i hi
  have hd : i / 8 < 8 := by omega
  rw [getLsbD_fromLeBytes hi]
  simp only [toLeBytes, wordBytes, List.getD_eq_getElem?_getD, List.getElem?_map,
    List.getElem?_range hd, Option.map_some, Option.getD_some, BitVec.getLsbD_extractLsb']
  simp [show i % 8 < 8 by omega, show 8 * (i / 8) + i % 8 = i by omega]

@[simp]
theorem length_toLeBytes {word : Word} : (toLeBytes word).length = wordBytes := by
  simp [toLeBytes]

variable {words : List Word}

@[simp]
theorem length_writeWords : (writeWords words).length = words.length * wordBytes := by
  induction words with
  | nil => rfl
  | cons word words ih =>
    have hc : writeWords (word :: words) = toLeBytes word ++ writeWords words := rfl
    rw [hc, List.length_append, ih, length_toLeBytes, List.length_cons, Nat.succ_mul, Nat.add_comm]

@[simp]
theorem writeWords_append {words' : List Word} :
    writeWords (words ++ words') = writeWords words ++ writeWords words' :=
  List.flatMap_append

@[simp]
theorem writeWords_cons {word : Word} :
    writeWords (word :: words) = toLeBytes word ++ writeWords words :=
  rfl

@[simp]
theorem writeWords_nil : writeWords [] = [] :=
  rfl

theorem drop_writeWords {index : Nat} :
    (writeWords words).drop (index * wordBytes) = writeWords (words.drop index) := by
  induction index generalizing words with
  | zero => simp
  | succ index ih =>
    cases words with
    | nil => simp
    | cons word words =>
      rw [writeWords_cons, Nat.succ_mul, Nat.add_comm, ← List.drop_drop]
      rw [List.drop_left' length_toLeBytes, ih, List.drop_succ_cons]

theorem take_writeWords {index : Nat} :
    (writeWords words).take (index * wordBytes) = writeWords (words.take index) := by
  induction index generalizing words with
  | zero => simp
  | succ index ih =>
    cases words with
    | nil => simp
    | cons word words =>
      rw [writeWords_cons, Nat.succ_mul, Nat.add_comm, List.take_succ_cons, writeWords_cons, ← ih,
        ← @length_toLeBytes word, List.take_length_add_append]

-- What is written is read back.
@[simp]
theorem readWords_writeWords : readWords (writeWords words) = words := by
  apply List.ext_getElem
  · simp [readWords, wordBytes]
  · intro i h₁ h₂
    have htake := @take_writeWords (words.drop i) 1
    rw [Nat.one_mul] at htake
    simp only [readWords, List.getElem_map, List.getElem_range, readWord, drop_writeWords, htake]
    rw [List.drop_eq_getElem_cons h₂, List.take_succ_cons, List.take_zero, writeWords_cons,
      writeWords_nil, List.append_nil, fromLeBytes_toLeBytes]

-- A part of written words that ends between two of them.
theorem writeWords_eq_append {chunk rest : List Byte}
    (h : writeWords words = chunk ++ rest) (hc : chunk.length % wordBytes = 0) :
    chunk = writeWords (words.take (chunk.length / wordBytes)) ∧
      rest = writeWords (words.drop (chunk.length / wordBytes)) := by
  have hlen : chunk.length / wordBytes * wordBytes = chunk.length :=
    Nat.div_mul_cancel (Nat.dvd_of_mod_eq_zero hc)
  rw [← take_writeWords, ← drop_writeWords, hlen, h, List.take_left, List.drop_left]
  exact ⟨rfl, rfl⟩

namespace Marker

variable {marker : Marker}

-- The word that a marker is packed to.
def word (marker : Marker) : Word :=
  BitVec.ofNat 64
    (marker.uniformBit ||| marker.uniformWordCount <<< 1 ||| marker.literalWordCount <<< 32)

-- The fields of a marker are within its bits.
structure Fits (marker : Marker) : Prop where
  uniformBit : marker.uniformBit ≤ 1
  uniformWordCount : marker.uniformWordCount ≤ markerUniformWordCountMax
  literalWordCount : marker.literalWordCount ≤ markerLiteralWordCountMax

theorem pack_eq (h : marker.Fits) : marker.pack = .ok marker.word := by
  unfold pack assert assertOn
  rw [if_pos h.uniformBit, if_pos h.uniformWordCount]
  rfl

theorem toNat_word (h : marker.Fits) : marker.word.toNat =
    marker.literalWordCount * 2 ^ 32 + (marker.uniformWordCount * 2 + marker.uniformBit) := by
  have h₁ := h.uniformBit
  have h₂ := h.uniformWordCount
  have h₃ := h.literalWordCount
  unfold markerUniformWordCountMax at h₂
  unfold markerLiteralWordCountMax at h₃
  have hl : marker.uniformBit ||| marker.uniformWordCount <<< 1 =
      marker.uniformWordCount * 2 + marker.uniformBit := by
    rw [Nat.or_comm, ← Nat.shiftLeft_add_eq_or_of_lt (by omega), Nat.shiftLeft_eq, Nat.pow_one]
  unfold word
  rw [BitVec.toNat_ofNat, hl, Nat.or_comm, ← Nat.shiftLeft_add_eq_or_of_lt (by omega),
    Nat.shiftLeft_eq]
  exact Nat.mod_eq_of_lt (by omega)

-- The fields of a packed marker are unpacked again.
theorem unpack_word (h : marker.Fits) : unpack marker.word = marker := by
  have h₁ := h.uniformBit
  have h₂ := h.uniformWordCount
  unfold markerUniformWordCountMax at h₂
  have hmask : (0x7FFFFFFF : Word).toNat = 2 ^ 31 - 1 := rfl
  have hone : (1 : Word).toNat = 2 ^ 1 - 1 := rfl
  have hbit : (marker.word &&& 1).toNat = marker.uniformBit := by
    rw [BitVec.toNat_and, hone, Nat.and_two_pow_sub_one_eq_mod, toNat_word h]
    omega
  have hcount : ((marker.word >>> 1) &&& 0x7FFFFFFF).toNat = marker.uniformWordCount := by
    rw [BitVec.toNat_and, hmask, Nat.and_two_pow_sub_one_eq_mod, BitVec.toNat_ushiftRight,
      toNat_word h, Nat.shiftRight_eq_div_pow]
    omega
  have hliterals : (marker.word >>> 32).toNat = marker.literalWordCount := by
    rw [BitVec.toNat_ushiftRight, toNat_word h, Nat.shiftRight_eq_div_pow]
    omega
  unfold unpack
  rw [hbit, hcount, hliterals]

end Marker

-- A run of a uniform word and the literals that follow it.
structure Segment where
  bit : Nat
  count : Nat
  literals : List Word
  deriving DecidableEq, Repr

namespace Segment

variable (segment : Segment)

def marker : Marker :=
  ⟨segment.bit, segment.count, segment.literals.length⟩

def encoded : List Word :=
  segment.marker.word :: segment.literals

def decoded : List Word :=
  List.replicate segment.count (if segment.bit = 1 then wordMax else 0) ++ segment.literals

-- A run of zeros without literals.
def ZeroRun : Prop :=
  segment.bit = 0 ∧ segment.literals = []

instance : DecidablePred ZeroRun :=
  fun _ => inferInstanceAs (Decidable (_ ∧ _))

end Segment

-- The segment that the words start with.
def segment (words : List Word) : Segment :=
  let literals := words.drop (uniformWordCount words)
  ⟨uniformBit words, uniformWordCount words, literals.take (literalWordCount literals)⟩

-- What follows the first segment.
def afterSegment (words : List Word) : List Word :=
  let literals := words.drop (uniformWordCount words)
  literals.drop (literalWordCount literals)

theorem uniformWordCount_cons {word : Word} :
    uniformWordCount (word :: words) =
      if isLiteral word then 0 else
        (((word :: words).take markerUniformWordCountMax).takeWhile (· = word)).length :=
  rfl

theorem uniformWordCount_le (words : List Word) : uniformWordCount words ≤ words.length := by
  unfold uniformWordCount
  split
  · exact Nat.le_refl _
  · split
    · exact Nat.zero_le _
    · exact Nat.le_trans (List.takeWhile_prefix _).length_le (List.take_prefix _ _).length_le

theorem uniformWordCount_le_max (words : List Word) :
    uniformWordCount words ≤ markerUniformWordCountMax := by
  unfold uniformWordCount
  split
  · exact Nat.zero_le _
  · split
    · exact Nat.zero_le _
    · exact Nat.le_trans (List.takeWhile_prefix _).length_le (List.length_take_le _ _)

theorem literalWordCount_le (words : List Word) : literalWordCount words ≤ words.length :=
  Nat.le_trans (List.takeWhile_prefix _).length_le (List.take_prefix _ _).length_le

theorem literalWordCount_le_max (words : List Word) :
    literalWordCount words ≤ markerLiteralWordCountMax :=
  Nat.le_trans (List.takeWhile_prefix _).length_le (List.length_take_le _ _)

theorem take_uniformWordCount {word : Word} (hl : isLiteral word = false) :
    (word :: words).take (uniformWordCount (word :: words)) =
      List.replicate (uniformWordCount (word :: words)) word := by
  have hc : uniformWordCount (word :: words) =
      (((word :: words).take markerUniformWordCountMax).takeWhile (· = word)).length := by
    rw [uniformWordCount_cons, hl]
    rfl
  have hp : ((word :: words).take markerUniformWordCountMax).takeWhile (· = word) =
      (word :: words).take (uniformWordCount (word :: words)) := by
    rw [hc]
    exact List.prefix_iff_eq_take.mp
      ((List.takeWhile_prefix _).trans (List.take_prefix _ _))
  rw [← hp]
  refine List.eq_replicate_iff.mpr ⟨hc.symm, fun w hw => ?_⟩
  simpa using List.mem_takeWhile_imp hw

-- A run of a word that is not a literal is not empty.
theorem uniformWordCount_pos {word : Word} (words : List Word) (hl : isLiteral word = false) :
    0 < uniformWordCount (word :: words) := by
  rw [uniformWordCount_cons, hl]
  have hm : markerUniformWordCountMax = 2 ^ 31 - 2 + 1 := rfl
  simp [hm]

theorem uniformWordCount_of_literal {word : Word} (hl : isLiteral word = true) :
    uniformWordCount (word :: words) = 0 := by
  rw [uniformWordCount_cons, hl]
  rfl

theorem literalWordCount_pos {word : Word} (words : List Word) (hl : isLiteral word = true) :
    0 < literalWordCount (word :: words) := by
  have hm : markerLiteralWordCountMax = 2 ^ 32 - 2 + 1 := rfl
  simp [literalWordCount, hm, hl]

theorem decoded_segment : (segment words).decoded ++ afterSegment words = words := by
  have hdrop : (segment words).literals ++ afterSegment words =
      words.drop (uniformWordCount words) :=
    List.take_append_drop _ _
  have htake : List.replicate (uniformWordCount words)
      (if uniformBit words = 1 then wordMax else 0) = words.take (uniformWordCount words) := by
    cases words with
    | nil => rfl
    | cons word words =>
      cases hl : isLiteral word with
      | true => rw [uniformWordCount_of_literal hl]; rfl
      | false =>
        have hpos := uniformWordCount_pos words hl
        have hbit : uniformBit (word :: words) = (word &&& 1).toNat := by
          unfold uniformBit
          rw [if_neg (by omega)]
          rfl
        rw [take_uniformWordCount hl, hbit]
        have hw : word = 0 ∨ word = wordMax := by
          simpa [isLiteral, or_iff_not_imp_left] using hl
        obtain rfl | rfl := hw <;> rfl
  unfold Segment.decoded
  rw [List.append_assoc, hdrop]
  show List.replicate (uniformWordCount words) (if uniformBit words = 1 then wordMax else 0) ++ _ = _
  rw [htake, List.take_append_drop]

theorem length_afterSegment_lt (h : words ≠ []) : (afterSegment words).length < words.length := by
  cases words with
  | nil => exact absurd rfl h
  | cons word words =>
    simp only [afterSegment, List.length_drop]
    cases hl : isLiteral word with
    | true =>
      have hpos := literalWordCount_pos words hl
      rw [uniformWordCount_of_literal hl, List.drop_zero]
      simp only [List.length_cons]
      omega
    | false =>
      have hpos := uniformWordCount_pos words hl
      simp only [List.length_cons]
      omega

theorem uniformBit_le : uniformBit words ≤ 1 := by
  unfold uniformBit
  split
  · exact Nat.zero_le _
  · rw [BitVec.toNat_and]
    exact Nat.and_le_right

theorem fits_segment (words : List Word) : (segment words).marker.Fits where
  uniformBit := uniformBit_le
  uniformWordCount := uniformWordCount_le_max _
  literalWordCount := (List.length_take_le _ _).trans (literalWordCount_le_max _)

-- The segments of the words, one after the other.
def segments (words : List Word) : List Segment :=
  if _h : words = [] then [] else segment words :: segments (afterSegment words)
termination_by words.length
decreasing_by exact length_afterSegment_lt ‹_›

theorem segments_nil : segments [] = [] := by
  rw [segments, dif_pos rfl]

theorem segments_of_ne (h : words ≠ []) :
    segments words = segment words :: segments (afterSegment words) := by
  rw [segments, dif_neg h]

theorem decoded_segments : (segments words).flatMap Segment.decoded = words := by
  induction hn : words.length using Nat.strong_induction_on generalizing words with
  | _ n ih =>
    by_cases h : words = []
    · rw [h, segments_nil]
      rfl
    · rw [segments_of_ne h, List.flatMap_cons,
        ih _ (hn ▸ length_afterSegment_lt h) rfl, decoded_segment]

theorem fits_segments : ∀ s ∈ segments words, s.marker.Fits := by
  induction hn : words.length using Nat.strong_induction_on generalizing words with
  | _ n ih =>
    by_cases h : words = []
    · rw [h, segments_nil]
      nofun
    · rw [segments_of_ne h]
      intro s hs
      cases hs with
      | head => exact fits_segment _
      | tail _ hs => exact ih _ (hn ▸ length_afterSegment_lt h) rfl s hs

end TigerBeetle.Ewah
