import TigerBeetle.Theorems.FreeSet
import TigerBeetle.Theorems.Stripped

namespace TigerBeetle.FreeSet

open Fallible DynamicBitSet

open Ewah (Byte Word Encoder Decoder Segment segments stripped trailingZeroRuns wordBytes writeWords)

variable {shards shards' : Nat} {set : FreeSet shards} {sizes : List Nat}

section Encode

variable {encoder : Encoder} {source : List Word} {before : List Segment}

-- Chunks of the given sizes have room for what is to be written.
structure Suffices (sizes : List Nat) (pending : List Word) : Prop where
  some : pending ≠ []
  aligned : ∀ size ∈ sizes, size % wordBytes = 0
  filled : ∀ size ∈ sizes, 0 < size
  room : pending.length ≤ (sizes.map (· / wordBytes)).sum

theorem finished (h : encoder.Follows source before) (hp : encoder.pending = []) :
    encoder.trailingZeroRunsCount = trailingZeroRuns (segments source) := by
  have hd := h.done_iff.mpr hp
  unfold Encoder.done at hd
  rw [decide_eq_true_iff, h.words] at hd
  rw [h.trailing, h.started, List.drop_of_length_le (by omega), Ewah.segments_nil, List.append_nil]

theorem encodeInto_meets (h : encoder.Follows source before) :
    Meets (fun _ => ¬Suffices sizes encoder.pending) (fun (chunks, bytesEncodedTotal, after) =>
      bytesEncodedTotal = encoder.pending.length * wordBytes ∧
        chunks.take bytesEncodedTotal = writeWords encoder.pending ∧
        after.trailingZeroRunsCount = trailingZeroRuns (segments source))
      (encodeInto encoder sizes) := by
  induction sizes generalizing encoder before with
  | nil => exact fun hs => hs.some (List.eq_nil_of_length_eq_zero (Nat.le_zero.mp hs.room))
  | cons size sizes ih =>
    unfold encodeInto
    by_cases ha : size % wordBytes = 0
    case neg =>
      unfold Encoder.encodeChunk
      refine Meets.bind_iff.mpr (Meets.bind_iff.mpr (meets_assert.mpr
        ⟨fun hp => absurd hp ha, fun _ hs => ha (hs.aligned size (by simp))⟩))
    refine Meets.bind ((Encoder.encodeChunk_meets h ha).mono (fun _ hc => hc) fun _ hc => hc.elim)
      fun ⟨chunk, bytesEncoded, after⟩ hc => ?_
    obtain ⟨htake, hbytes, hlength, hpending, before', hf⟩ := hc
    have hsize : size / wordBytes * wordBytes = size :=
      Nat.div_mul_cancel (Nat.dvd_of_mod_eq_zero ha)
    generalize size / wordBytes = space at *
    refine Meets.bind_iff.mpr (meets_assert.mpr ⟨fun hpos => ?_, fun hzero hs => ?_⟩)
    case refine_2 =>
      have hfilled := hs.filled size (by simp)
      have hsome := List.length_pos_of_ne_nil hs.some
      rw [hbytes, List.length_take, Nat.not_lt, Nat.le_zero] at hzero
      unfold wordBytes at *
      omega
    split
    · next hd =>
      have hnil := hf.done_iff.mp hd
      have hall : encoder.pending.take space = encoder.pending :=
        List.take_of_length_le (List.drop_eq_nil_iff.mp (hpending ▸ hnil))
      rw [hall] at htake hbytes
      exact ⟨hbytes, htake, finished hf hnil⟩
    · next hd =>
      have hne : after.pending ≠ [] := mt hf.done_iff.mpr hd
      have hlt : space < encoder.pending.length := by
        rw [hpending] at hne
        have := mt List.drop_eq_nil_iff.mpr hne
        omega
      rw [List.length_take_of_le (by omega), hsize] at hbytes
      have hchunk : chunk = writeWords (encoder.pending.take space) := by
        rw [← htake, hbytes, ← hlength, List.take_length]
      have hdrop : after.pending.length = encoder.pending.length - space := by
        rw [hpending, List.length_drop]
      have hsuffices : Suffices (size :: sizes) encoder.pending → Suffices sizes after.pending := by
        intro hs
        refine ⟨hne, fun s hm => hs.aligned s (by simp [hm]), fun s hm => hs.filled s (by simp [hm]), ?_⟩
        have hroom := hs.room
        have hspace : size / wordBytes = space := by
          rw [← hsize]
          exact Nat.mul_div_cancel _ (by decide)
        rw [List.map_cons, List.sum_cons, hspace] at hroom
        omega
      refine Meets.bind ((ih hf).mono (fun _ hr => hr) fun _ hr hs => hr (hsuffices hs))
        fun ⟨chunks, bytesEncodedTotal, final⟩ hr => ?_
      have ⟨htotal, hchunks, hcount⟩ := hr
      refine ⟨?_, ?_, hcount⟩
      · rw [htotal, hbytes, hdrop, ← hsize, ← Nat.add_mul]
        congr 1
        omega
      · rw [hbytes, ← hlength, List.take_length_add_append, hchunks, hchunk, hpending,
          ← Ewah.writeWords_append, List.take_append_drop]

variable {bits : DynamicBitSet (shards * shardBits)}

-- What a bit set is encoded to.
def encoding (bits : DynamicBitSet (shards * shardBits)) : List Byte :=
  writeWords ((stripped bits.words.toList).flatMap Segment.encoded)

theorem encodeBits_meets :
    Meets (fun _ => ¬Suffices sizes ((segments bits.words.toList).flatMap Segment.encoded))
      (fun (chunks, size) => chunks.take size = encoding bits) (encodeBits bits sizes) := by
  unfold encodeBits
  have hinto := @encodeInto_meets sizes _ _ _ (@Encoder.Follows.new bits.words.toList)
  rw [Encoder.pending_new] at hinto
  refine Meets.bind hinto fun ⟨chunks, total, after⟩ hr => ?_
  obtain ⟨htotal, hchunks, hcount⟩ := hr
  have ⟨tail, hlen, hsplit⟩ := @Ewah.encoded_stripped bits.words.toList
  have hlength := congrArg List.length hsplit
  rw [List.length_append, hlen] at hlength
  dsimp only
  rw [hcount]
  rw [hlength, Nat.add_mul] at htotal
  rw [assert_of (by omega), ok_bind]
  have hsize : total - trailingZeroRuns (segments bits.words.toList) * wordBytes =
      ((stripped bits.words.toList).flatMap Segment.encoded).length * wordBytes := by omega
  show chunks.take (total - _) = _
  have htake := congrArg (List.take (total - trailingZeroRuns (segments bits.words.toList) *
    wordBytes)) hchunks
  rw [List.take_take, Nat.min_eq_left (Nat.sub_le _ _)] at htake
  rw [htake, hsize, hsplit, Ewah.take_writeWords, List.take_left]
  rfl

end Encode

section Decode

variable {bits : DynamicBitSet (shards * shardBits)} {bits' : DynamicBitSet (shards' * shardBits)}

theorem length_words : ((shards * shardBits + (wordBits - 1)) / wordBits) * wordBits =
    shards * shardBits := by
  have hmod : shards * shardBits % wordBits = 0 := by
    have hbits : shardBits % wordBits = 0 := by
      unfold shardBits
      decide
    rw [Nat.mul_mod, hbits, Nat.mul_zero, Nat.zero_mod]
  unfold wordBits at *
  omega

theorem word_eq_of_bits (h : ∀ i, bits.bit i = bits'.bit i) (w : Nat) :
    bits.words.toList.getD w 0 = bits'.words.toList.getD w 0 := by
  apply BitVec.eq_of_getLsbD_eq
  intro i hi
  have hw : (w * 64 + i) / wordBits = w := by
    unfold wordBits
    omega
  have hm : (w * 64 + i) % wordBits = i := by
    unfold wordBits
    omega
  have hbit := h (w * 64 + i)
  rwa [bit_eq, bit_eq, word, word, hw, hm] at hbit

theorem bit_eq_of_words (h : ∀ w, bits.words.toList.getD w 0 = bits'.words.toList.getD w 0) (i : Nat) :
    bits.bit i = bits'.bit i := by
  rw [bit_eq, bit_eq, word, word, h]

theorem append_zeros_of_getD {words words' : List Word}
    (h : ∀ w, words.getD w 0 = words'.getD w 0) :
    words ++ List.replicate (words'.length - words.length) 0 =
      words' ++ List.replicate (words.length - words'.length) 0 := by
  apply List.ext_getElem
  · simp only [List.length_append, List.length_replicate]
    omega
  · intro i h₁ h₂
    have hi := h i
    simp only [List.getD_eq_getElem?_getD] at hi
    simp only [List.getElem_append, List.getElem_replicate]
    split_ifs with hl hl'
    · simpa [hl, hl'] using hi
    · simpa [hl, hl'] using hi
    · simpa [hl, *] using hi
    · rfl

theorem getD_append_zeros {words : List Word} {n w : Nat} :
    (words ++ List.replicate n 0).getD w 0 = words.getD w 0 := by
  simp only [List.getD_eq_getElem?_getD, List.getElem?_append, List.getElem?_replicate]
  split_ifs with h
  · rfl
  · simp [List.getElem?_eq_none (Nat.not_lt.mp h)]
  · simp [List.getElem?_eq_none (Nat.not_lt.mp h)]

-- The encoding depends on the bits only, not on the capacity.
theorem encoding_congr (h : ∀ i, bits.bit i = bits'.bit i) : encoding bits = encoding bits' := by
  have hwords := append_zeros_of_getD (word_eq_of_bits h)
  unfold encoding
  rw [← Ewah.stripped_append_zeros bits.words.toList, hwords, Ewah.stripped_append_zeros]

theorem decodeBits_meets {chunks : List (List Byte)} (hs : chunks.flatten = encoding bits') :
    Meets (fun _ => shards < shards' ∨ ¬∀ chunk ∈ chunks, chunk.length % wordBytes = 0)
      (fun after => ∀ i, after.bit i = bits'.bit i)
      (decodeBits (newEmpty : DynamicBitSet (shards * shardBits)) chunks) := by
  have ⟨m, hm⟩ := @Ewah.decoded_stripped bits'.words.toList
  generalize hd : (stripped bits'.words.toList).flatMap Segment.decoded = decoded at hm
  have hlen := congrArg List.length hm
  rw [Vector.length_toList, List.length_append] at hlen
  have hlarge := @length_words shards
  have hlarge' := @length_words shards'
  unfold decodeBits
  dsimp only
  rw [← List.length_flatten]
  have hdecode := Ewah.decodeChunks_encoded Ewah.fits_stripped hs
    (newEmpty : DynamicBitSet (shards * shardBits)).words
  rw [hd] at hdecode
  have hsmall : (shards * shardBits + (wordBits - 1)) / wordBits < decoded.length →
      shards < shards' := by
    intro hlt
    by_contra hge
    have := Nat.mul_le_mul_right shardBits (Nat.not_lt.mp hge)
    unfold wordBits at *
    omega
  refine Meets.bind (hdecode.mono (fun _ hr => hr) fun _ hr => hr.imp_left hsmall)
    fun ⟨written, after⟩ hr => ?_
  obtain ⟨hwritten, hle, hdone, hwords⟩ := hr
  have hzeros : after.targetWords.toList.drop written = List.replicate
      ((shards * shardBits + (wordBits - 1)) / wordBits - written) 0 := by
    rw [hwords, hwritten, List.drop_left]
    unfold newEmpty
    rw [Vector.toList_replicate, List.drop_replicate]
  dsimp only
  rw [hdone, ok_bind, assert_of rfl, ok_bind, assert_of (by unfold wordBits at *; omega), ok_bind,
    assert_of fun word hw => List.eq_of_mem_replicate (hzeros ▸ hw)]
  refine bit_eq_of_words fun w => ?_
  have hafter := List.take_append_drop written after.targetWords.toList
  have htake : after.targetWords.toList.take written = decoded := by
    rw [hwords, hwritten, List.take_left]
  rw [hzeros, htake] at hafter
  show after.targetWords.toList.getD w 0 = _
  rw [← hafter, getD_append_zeros, hm, getD_append_zeros]

end Decode

section RoundTrip

theorem rebuildIndex_meets {list : List Nat} (h : ∀ shard ∈ list, shard < shards) :
    Meets (fun _ => False) (fun after => ∃ index, after = { set with index } ∧
      ∀ s, index.bit s = true ↔ set.index.bit s = true ∨ s ∈ list ∧ Full set.blocksAcquired s)
      (rebuildIndex list set) := by
  induction list generalizing set with
  | nil => exact ⟨set.index, rfl, fun s => by simp⟩
  | cons shard list ih =>
    refine Meets.bind (updateIndex_meets (h shard (by simp))) fun next ⟨index, hnext, hindex⟩ => ?_
    refine (ih fun s hs => h s (by simp [hs])).weaken fun after ⟨index', hafter, hindex'⟩ => ?_
    rw [hnext] at hafter hindex'
    refine ⟨index', hafter, fun s => ?_⟩
    rw [hindex', hindex, or_assoc, List.mem_cons, or_and_right]
    refine or_congr_right (or_congr_left (and_congr_right fun he => ?_))
    rw [he]

-- A free set before it is opened.
structure Fresh (set : FreeSet shards) : Prop where
  opened : set.opened = false
  checkpointDurable : set.checkpointDurable = false
  index : set.index = newEmpty
  blocksAcquired : set.blocksAcquired = newEmpty
  blocksReleased : set.blocksReleased = newEmpty
  keys : set.blocksReleasedPriorCheckpointDurability.keys = []
  reservationCount : set.reservationCount = 0
  reservationBlocks : set.reservationBlocks = 0
  reservationState : set.reservationState = .reserving

theorem fresh_new {gridSizeLimit max : Nat} : (new gridSizeLimit max).Fresh :=
  ⟨rfl, rfl, rfl, rfl, rfl, rfl, rfl, rfl, rfl⟩

variable {set' : FreeSet shards'} {chunksAcquired chunksReleased : List (List Byte)}

theorem decode_meets (hf : set.Fresh) (ha : chunksAcquired.flatten = encoding set'.blocksAcquired)
    (hr : chunksReleased.flatten = encoding set'.blocksReleased) :
    Meets (fun _ => shards < shards' ∨
        ¬∀ chunk ∈ chunksAcquired ++ chunksReleased, chunk.length % wordBytes = 0)
      (fun after => ∃ blocksAcquired blocksReleased,
        after = { set with blocksAcquired, blocksReleased } ∧
          (∀ i, blocksAcquired.bit i = set'.blocksAcquired.bit i) ∧
          ∀ i, blocksReleased.bit i = set'.blocksReleased.bit i)
      (set.decode chunksAcquired chunksReleased) := by
  unfold decode
  rw [hf.opened, assert_of (by decide), ok_bind, hf.checkpointDurable, assert_of (by decide),
    ok_bind, hf.blocksAcquired, hf.blocksReleased]
  refine Meets.bind ((decodeBits_meets ha).mono (fun _ hb => hb) fun _ hb => hb.imp_right
    fun hn hc => hn fun chunk hm => hc chunk (by simp [hm])) fun acquired hacquired => ?_
  refine Meets.bind ((decodeBits_meets hr).mono (fun _ hb => hb) fun _ hb => hb.imp_right
    fun hn hc => hn fun chunk hm => hc chunk (by simp [hm])) fun released hreleased => ?_
  exact ⟨acquired, released, rfl, hacquired, hreleased⟩

theorem decodeChunks_meets (hf : set.Fresh)
    (ha : chunksAcquired.flatten = encoding set'.blocksAcquired)
    (hr : chunksReleased.flatten = encoding set'.blocksReleased) :
    Meets (fun _ => shards < shards' ∨
        ¬∀ chunk ∈ chunksAcquired ++ chunksReleased, chunk.length % wordBytes = 0)
      (fun after => (∀ i, after.blocksAcquired.bit i = set'.blocksAcquired.bit i) ∧
        ∀ i, after.blocksReleased.bit i = set'.blocksReleased.bit i)
      (set.decodeChunks chunksAcquired chunksReleased) := by
  unfold decodeChunks
  rw [hf.opened, assert_of (by decide), ok_bind, hf.checkpointDurable, assert_of (by decide),
    ok_bind, hf.index, assert_of count_newEmpty, ok_bind, hf.blocksAcquired,
    assert_of count_newEmpty, ok_bind, hf.blocksReleased, assert_of count_newEmpty, ok_bind,
    hf.keys, assert_of List.length_nil, ok_bind, hf.reservationCount, assert_of rfl, ok_bind,
    hf.reservationBlocks, assert_of rfl, ok_bind]
  refine Meets.bind (decode_meets hf ha hr) fun decoded ⟨acquired, released, hdecoded, hbits⟩ => ?_
  refine Meets.bind ((rebuildIndex_meets fun _ hs => List.mem_range.mp hs).mono (fun _ hi => hi)
    fun _ hi => hi.elim) fun rebuilt ⟨index, hrebuilt, hindex⟩ => ?_
  have hagrees : ∀ shard < shards, rebuilt.Agrees shard := by
    intro shard hs
    unfold Agrees
    rw [hrebuilt]
    dsimp only
    rw [hindex, hdecoded, hf.index]
    simp [hs]
  refine Meets.bind (verifyIndex_meets.mono (fun _ hv => hv) fun _ hv => absurd hagrees hv.2)
    fun _ _ => ?_
  show (∀ i, rebuilt.blocksAcquired.bit i = _) ∧ ∀ i, rebuilt.blocksReleased.bit i = _
  rw [hrebuilt, hdecoded]
  exact hbits

-- Chunks of some bytes in total, none of which is empty.
structure Splits (sizes : List Nat) (total : Nat) : Prop where
  aligned : ∀ size ∈ sizes, size % wordBytes = 0
  filled : ∀ size ∈ sizes, 0 < size
  total : sizes.sum = total

theorem sum_words (ha : ∀ size ∈ sizes, size % wordBytes = 0) :
    (sizes.map (· / wordBytes)).sum * wordBytes = sizes.sum := by
  induction sizes with
  | nil => rfl
  | cons size sizes ih =>
    have hsize : size / wordBytes * wordBytes = size :=
      Nat.div_mul_cancel (Nat.dvd_of_mod_eq_zero (ha size (by simp)))
    rw [List.map_cons, List.sum_cons, List.sum_cons, Nat.add_mul, hsize,
      ih fun s hs => ha s (by simp [hs])]

theorem Splits.suffices (h : Splits sizes set.encodeSizeMax) (hs : 0 < shards)
    (bits : DynamicBitSet (shards * shardBits)) :
    Suffices sizes ((segments bits.words.toList).flatMap Segment.encoded) := by
  have hlen := @length_words shards
  have hpos := Nat.mul_pos hs shardBits_pos
  have hwords : shards * shardBits / wordBits = bits.words.toList.length := by
    rw [Vector.length_toList]
    unfold wordBits at *
    omega
  have hne : bits.words.toList ≠ [] := by
    refine List.ne_nil_of_length_pos ?_
    rw [Vector.length_toList]
    exact Nat.pos_of_mul_pos_right (hlen ▸ hpos)
  refine ⟨?_, h.aligned, h.filled, ?_⟩
  · rw [Ewah.segments_of_ne hne]
    exact nofun
  · have htotal := h.total
    rw [← sum_words h.aligned] at htotal
    unfold encodeSizeMax at htotal
    rw [hwords] at htotal
    refine (Ewah.encoded_room bits.words.toList).trans (Nat.div_le_of_le_mul ?_)
    rw [← htotal, Nat.mul_comm]

theorem encodeChunks_meets {sizesAcquired sizesReleased : List Nat} :
    Meets (fun _ => ¬(set.opened = true ∧ set.checkpointDurable = true ∧ set.reservationCount = 0 ∧
        set.reservationBlocks = 0 ∧
        Suffices sizesAcquired ((segments set.blocksAcquired.words.toList).flatMap Segment.encoded) ∧
        Suffices sizesReleased ((segments set.blocksReleased.words.toList).flatMap Segment.encoded)))
      (fun (acquired, released) => acquired.1.take acquired.2 = encoding set.blocksAcquired ∧
        released.1.take released.2 = encoding set.blocksReleased)
      (set.encodeChunks sizesAcquired sizesReleased) := by
  unfold encodeChunks
  refine Meets.bind_iff.mpr (meets_assert.mpr ⟨fun _ => ?_, fun hn h => hn h.1⟩)
  refine Meets.bind_iff.mpr (meets_assert.mpr ⟨fun _ => ?_, fun hn h => hn h.2.1⟩)
  refine Meets.bind_iff.mpr (meets_assert.mpr ⟨fun _ => ?_, fun hn h => hn h.2.2.1⟩)
  refine Meets.bind_iff.mpr (meets_assert.mpr ⟨fun _ => ?_, fun hn h => hn h.2.2.2.1⟩)
  refine Meets.bind (encodeBits_meets.mono (fun _ hb => hb) fun _ hn h => hn h.2.2.2.2.1)
    fun acquired ha => ?_
  refine Meets.bind (encodeBits_meets.mono (fun _ hb => hb) fun _ hn h => hn h.2.2.2.2.2)
    fun released hr => ?_
  exact ⟨ha, hr⟩

theorem durable_of_encodeChunks {sizesAcquired sizesReleased : List Nat}
    {encoded : (List Byte × Nat) × (List Byte × Nat)}
    (h : set.encodeChunks sizesAcquired sizesReleased = .ok encoded) :
    set.checkpointDurable = true := by
  have hmeets : Meets (fun _ => True) (fun _ => set.checkpointDurable = true)
      (set.encodeChunks sizesAcquired sizesReleased) := by
    unfold encodeChunks
    refine Meets.bind_iff.mpr (meets_assert.mpr ⟨fun _ => ?_, fun _ => trivial⟩)
    refine Meets.bind_iff.mpr (meets_assert.mpr ⟨fun hd => ?_, fun _ => trivial⟩)
    exact Meets.trivial.weaken fun _ _ => hd
  exact hmeets.post h

-- The encoded sets are decoded in any set of the same or a larger capacity, and sets of different
-- capacities that have the same blocks are encoded to the same bytes.
theorem checkpoint_round_trip {sizesAcquired sizesReleased : List Nat} (hs : 0 < shards)
    (ho : set.opened = true) (hd : set.checkpointDurable = true) (hc : set.reservationCount = 0)
    (hb : set.reservationBlocks = 0) (ha : Splits sizesAcquired set.encodeSizeMax)
    (hr : Splits sizesReleased set.encodeSizeMax) :
    ∃ bytesAcquired sizeAcquired bytesReleased sizeReleased,
      set.encodeChunks sizesAcquired sizesReleased =
          .ok ((bytesAcquired, sizeAcquired), (bytesReleased, sizeReleased)) ∧
        (∀ {larger : Nat} (fresh : FreeSet larger) (chunksAcquired chunksReleased : List (List Byte)),
          fresh.Fresh → shards ≤ larger →
          chunksAcquired.flatten = bytesAcquired.take sizeAcquired →
          chunksReleased.flatten = bytesReleased.take sizeReleased →
          (∀ chunk ∈ chunksAcquired ++ chunksReleased, chunk.length % wordBytes = 0) →
          ∃ after, fresh.decodeChunks chunksAcquired chunksReleased = .ok after ∧
            (∀ i, after.blocksAcquired.bit i = set.blocksAcquired.bit i) ∧
            ∀ i, after.blocksReleased.bit i = set.blocksReleased.bit i) ∧
        ∀ {other : Nat} (set' : FreeSet other) (sizesAcquired' sizesReleased' : List Nat)
          (bytesAcquired' sizeAcquired' bytesReleased' sizeReleased'),
          (∀ i, set'.blocksAcquired.bit i = set.blocksAcquired.bit i) →
          (∀ i, set'.blocksReleased.bit i = set.blocksReleased.bit i) →
          set'.encodeChunks sizesAcquired' sizesReleased' =
            .ok ((bytesAcquired', sizeAcquired'), (bytesReleased', sizeReleased')) →
          bytesAcquired'.take sizeAcquired' = bytesAcquired.take sizeAcquired ∧
            bytesReleased'.take sizeReleased' = bytesReleased.take sizeReleased := by
  have hencode := (@encodeChunks_meets _ set sizesAcquired sizesReleased).mono (fun _ he => he)
    fun _ hn => hn ⟨ho, hd, hc, hb, ha.suffices hs _, hr.suffices hs _⟩
  obtain ⟨⟨⟨bytesAcquired, sizeAcquired⟩, bytesReleased, sizeReleased⟩, heq, hacquired, hreleased⟩ :=
    Meets.iff_exists.mp hencode
  refine ⟨_, _, _, _, heq, ?_, ?_⟩
  · intro larger fresh chunksAcquired chunksReleased hf hle hca hcr haligned
    refine Meets.iff_exists.mp ((decodeChunks_meets hf (hca.trans hacquired)
      (hcr.trans hreleased)).mono (fun _ hafter => hafter) fun _ hn => ?_)
    exact hn.elim (fun hlt => absurd hlt (by omega)) fun hn => hn haligned
  · intro other set' _ _ _ _ _ _ ha' hr' heq'
    have ⟨hacquired', hreleased'⟩ := encodeChunks_meets.post heq'
    exact ⟨(hacquired'.trans (encoding_congr ha')).trans hacquired.symm,
      (hreleased'.trans (encoding_congr hr')).trans hreleased.symm⟩

theorem encoding_aligned {bits : DynamicBitSet (shards * shardBits)} :
    (encoding bits).length % wordBytes = 0 := by
  unfold encoding
  rw [Ewah.length_writeWords]
  exact Nat.mul_mod_left _ _

-- One shard, of which a block is acquired and another one is released as well.
def usedSet : FreeSet (shardsFor (shardBits * blockSize)) :=
  { new (shardBits * blockSize) 0 with
    opened := true
    checkpointDurable := true
    blocksAcquired := (newEmpty.insert 3).insert 70
    blocksReleased := newEmpty.insert 70 }

-- The set is decoded in one of two shards.
theorem checkpoint_round_trip_of_used :
    ∃ bytesAcquired sizeAcquired bytesReleased sizeReleased after,
      usedSet.encodeChunks [520] [8, 512] =
          .ok ((bytesAcquired, sizeAcquired), (bytesReleased, sizeReleased)) ∧
        (new (2 * shardBits * blockSize) 0).decodeChunks [bytesAcquired.take sizeAcquired]
          [bytesReleased.take sizeReleased] = .ok after ∧
        (∀ i, after.blocksAcquired.bit i = true ↔ i = 3 ∨ i = 70) ∧
        ∀ i, after.blocksReleased.bit i = true ↔ i = 70 := by
  have hshards : shardsFor (shardBits * blockSize) = 1 := by
    unfold shardsFor shardBits
    decide
  have hlarger : shardsFor (2 * shardBits * blockSize) = 2 := by
    unfold shardsFor shardBits
    decide
  have hroom : 70 < shardsFor (shardBits * blockSize) * shardBits := by
    rw [hshards]
    unfold shardBits
    decide
  have hroom' : 3 < shardsFor (shardBits * blockSize) * shardBits := by omega
  have hsize : Ewah.encodeSizeMax (shardsFor (shardBits * blockSize) * shardBits / wordBits) = 520 := by
    rw [hshards]
    unfold shardBits
    decide
  obtain ⟨bytesAcquired, sizeAcquired, bytesReleased, sizeReleased, heq, hdecode, _⟩ :=
    @checkpoint_round_trip _ usedSet [520] [8, 512] (by rw [hshards]; decide) rfl rfl rfl rfl
      ⟨by decide, by decide, hsize.symm⟩ ⟨by decide, by decide, hsize.symm⟩
  have ⟨hacquired, hreleased⟩ := encodeChunks_meets.post heq
  obtain ⟨after, hafter, ha, hr⟩ := hdecode (new (2 * shardBits * blockSize) 0)
    [bytesAcquired.take sizeAcquired] [bytesReleased.take sizeReleased] fresh_new (by omega)
    (by simp) (by simp) (by simp [hacquired, hreleased, encoding_aligned])
  refine ⟨_, _, _, _, after, heq, hafter, fun i => ?_, fun i => ?_⟩
  · rw [ha]
    simp [usedSet, bit_insert hroom, bit_insert hroom', bit_newEmpty, @eq_comm _ i]
  · rw [hr]
    simp [usedSet, bit_insert hroom, bit_newEmpty, @eq_comm _ i]

theorem encodeChunks_cons_zero {sizesReleased : List Nat} (ho : set.opened = true)
    (hd : set.checkpointDurable = true) (hc : set.reservationCount = 0)
    (hb : set.reservationBlocks = 0) : set.encodeChunks (0 :: sizes) sizesReleased =
      .error (.panic .general "bytes_encoded > 0") := by
  obtain ⟨⟨chunk, written, after⟩, heq, _, hwritten, _⟩ := Meets.iff_exists.mp
    (Encoder.encodeChunk_meets (@Encoder.Follows.new set.blocksAcquired.words.toList)
      (Nat.zero_mod wordBytes))
  rw [Nat.zero_div, List.take_zero, List.length_nil, Nat.zero_mul] at hwritten
  rw [hwritten] at heq
  unfold encodeChunks encodeBits encodeInto
  rw [assert_of ho, ok_bind, assert_of hd, ok_bind, assert_of hc, ok_bind, assert_of hb, ok_bind, heq]
  rfl

-- An empty chunk is not accepted, although the chunks have room for the bit set.
theorem encodeChunks_of_empty :
    let set := { new (shardBits * blockSize) 0 with opened := true, checkpointDurable := true }
    (∀ size ∈ [0, 520], size % wordBytes = 0) ∧ [0, 520].sum = set.encodeSizeMax ∧
      set.encodeChunks [0, 520] [520] = .error (.panic .general "bytes_encoded > 0") := by
  have hshards : shardsFor (shardBits * blockSize) = 1 := by
    unfold shardsFor shardBits
    decide
  refine ⟨by decide, ?_, ?_⟩
  · show 520 = Ewah.encodeSizeMax _
    rw [hshards]
    unfold shardBits
    decide
  · exact encodeChunks_cons_zero rfl rfl rfl rfl

end RoundTrip

end TigerBeetle.FreeSet
