import TigerBeetle.Theorems.MultiBatch

namespace TigerBeetle.MultiBatch

open Fallible

open Ewah (Byte)

variable {elementSize : Nat} {batches : List (List Byte)}

namespace MultiBatchDecoder

variable {before after : List (List Byte)} {batch : List Byte}

-- The decoder of batches of which some have been popped.
def popped (elementSize : Nat) (before after : List (List Byte)) : MultiBatchDecoder :=
  { decoded elementSize (before ++ after) with
    payloadIndex := before.flatten.length
    batchIndex := before.length }

theorem itemCount_popped : (popped elementSize before after).itemCount = before.length + after.length := by
  unfold itemCount popped decoded
  dsimp only
  rw [length_itemBytes, Nat.mul_div_cancel _ (by decide)]
  simp [elementCounts, Nat.add_comm]

theorem trailerItems_popped (h : before ++ after ≠ []) :
    (popped elementSize before after).trailerItems ≠ [] := by
  have hpos := List.length_pos_of_ne_nil h
  refine List.ne_nil_of_length_pos ?_
  unfold popped decoded
  dsimp only
  rw [length_itemBytes, List.length_reverse]
  unfold elementCounts trailerItemSize
  rw [List.length_map]
  omega

theorem item_popped (hr : Regular elementSize (before ++ batch :: after)) :
    item (popped elementSize before (batch :: after)).trailerItems
      ((popped elementSize before (batch :: after)).itemCount - before.length - 1) =
        batch.length / elementSize := by
  have hcounts : ∀ count ∈ (elementCounts elementSize (before ++ batch :: after)).reverse,
      count < u16Modulus := fun count hm => hr.elementCounts_lt count (List.mem_reverse.mp hm)
  rw [itemCount_popped]
  unfold popped decoded
  dsimp only
  rw [item_itemBytes hcounts (by simp [elementCounts])]
  rw [List.getElem_reverse]
  unfold elementCounts
  rw [List.getElem_map]
  simp

theorem payload_popped : (popped elementSize before (batch :: after)).payload =
    before.flatten ++ (batch ++ after.flatten) := by
  unfold popped decoded
  simp

theorem peek_popped (hr : Regular elementSize (before ++ batch :: after)) :
    (popped elementSize before (batch :: after)).peek = .ok batch := by
  have hwhole := Nat.div_add_mod' batch.length elementSize
  rw [hr.whole batch (by simp), Nat.add_zero] at hwhole
  have hlen : before.flatten.length + batch.length ≤
      (popped elementSize before (batch :: after)).payload.length := by
    rw [payload_popped]
    simp only [List.length_append]
    omega
  have hpayloadIndex : (popped elementSize before (batch :: after)).payloadIndex =
      before.flatten.length := rfl
  have hbatchIndex : (popped elementSize before (batch :: after)).batchIndex = before.length := rfl
  have hsize : (popped elementSize before (batch :: after)).elementSize = elementSize := rfl
  have hslice : (((popped elementSize before (batch :: after)).payload.drop
      before.flatten.length).take batch.length) = batch := by
    rw [payload_popped, List.drop_left, List.take_left]
  unfold peek
  rw [assert_of (trailerItems_popped (by simp)), ok_bind, hbatchIndex, hpayloadIndex, hsize,
    item_popped hr, assert_of (by rw [itemCount_popped]; exact Nat.lt_add_of_pos_right (Nat.succ_pos _)),
    ok_bind, assert_of (by omega), ok_bind]
  dsimp only
  split
  · next hz =>
    rw [hz, Nat.zero_mul] at hwhole
    rw [List.eq_nil_of_length_eq_zero hwhole.symm]
    rfl
  · next hz =>
    have hpos : 0 < elementSize := Nat.pos_of_ne_zero fun he => hz (by rw [he, Nat.div_zero])
    have hbatch : 0 < batch.length := hwhole ▸ Nat.mul_pos (Nat.pos_of_ne_zero hz) hpos
    rw [assert_of (by omega), ok_bind, hwhole, assert_of hlen, ok_bind, hslice,
      assert_of (List.ne_nil_of_length_pos hbatch), ok_bind, assert_of (hr.whole batch (by simp))]
    rfl

theorem pop_popped (hr : Regular elementSize (before ++ batch :: after)) :
    (popped elementSize before (batch :: after)).pop =
      .ok (some batch, popped elementSize (before ++ [batch]) after) := by
  have hpayloadIndex : (popped elementSize before (batch :: after)).payloadIndex =
      before.flatten.length := rfl
  have hbatchIndex : (popped elementSize before (batch :: after)).batchIndex = before.length := rfl
  have hnext : { popped elementSize before (batch :: after) with
      batchIndex := before.length + 1
      payloadIndex := before.flatten.length + batch.length } =
        popped elementSize (before ++ [batch]) after := by
    unfold popped decoded
    simp
  have hlen : before.flatten.length + batch.length ≤
      (popped elementSize before (batch :: after)).payload.length := by
    rw [payload_popped]
    simp only [List.length_append]
    omega
  have hcount := @itemCount_popped elementSize before (batch :: after)
  rw [List.length_cons] at hcount
  unfold pop
  rw [assert_of (trailerItems_popped (by simp)), ok_bind, if_neg (by rw [hbatchIndex]; omega),
    peek_popped hr, ok_bind, hbatchIndex, hpayloadIndex]
  show (assert (before.length + 1 ≤ (popped elementSize before (batch :: after)).itemCount) _ >>= _) = _
  rw [assert_of (by omega), ok_bind, assert_of hlen, ok_bind, hnext]
  rfl

theorem popAll_popped (hr : Regular elementSize (before ++ after)) :
    (popped elementSize before after).popAll (after.length + 1) = .ok after := by
  induction after generalizing before with
  | nil =>
    have hcount := @itemCount_popped elementSize before []
    have hpayload : (popped elementSize before []).payload = before.flatten := by
      unfold popped decoded
      simp
    unfold popAll pop
    have hindex : (popped elementSize before []).batchIndex =
        (popped elementSize before []).itemCount := hcount.symm
    have hend : (popped elementSize before []).payloadIndex =
        (popped elementSize before []).payload.length := (congrArg List.length hpayload).symm
    rw [assert_of (trailerItems_popped hr.some), ok_bind, if_pos hindex, assert_of hend]
    rfl
  | cons batch after ih =>
    have hr' : Regular elementSize ((before ++ [batch]) ++ after) := by
      rwa [List.append_assoc]
    unfold popAll
    rw [pop_popped hr, ok_bind]
    dsimp only
    rw [List.length_cons, ih hr']
    rfl

-- The batches that have been decoded are popped in their order.
theorem popAll_decoded (hr : Regular elementSize batches) :
    (decoded elementSize batches).popAll (batches.length + 1) = .ok batches :=
  @popAll_popped elementSize [] batches hr

end MultiBatchDecoder

namespace MultiBatchEncoder

variable {capacity : Nat} {batch : List Byte} {encoder : MultiBatchEncoder}

-- The payload of the batches is at the front of the buffer, and their items are before the postamble.
structure Holds (elementSize capacity : Nat) (batches : List (List Byte))
    (encoder : MultiBatchEncoder) : Prop where
  buffer : ∃ middle postamble, encoder.buffer = some (batches.flatten ++ (middle ++
    (itemBytes (elementCounts elementSize batches).reverse ++ postamble))) ∧
    postamble.length = postambleSize ∧ batches.flatten.length + middle.length +
      batches.length * trailerItemSize + postambleSize = capacity
  batchCount : encoder.batchCount = batches.length
  bufferIndex : encoder.bufferIndex = batches.flatten.length
  size : encoder.elementSize = elementSize
  even : capacity % trailerItemSize = 0
  count : batches.length ≤ batchCountMax
  whole : ∀ batch ∈ batches, batch.length % elementSize = 0
  fits : ∀ batch ∈ batches, batch.length / elementSize < u16Modulus
  room : batches ≠ [] →
    batches.flatten.length + trailerSize elementSize batches.length ≤ capacity

-- The batch can be added to those in the buffer.
structure Addable (elementSize capacity : Nat) (batches : List (List Byte)) (batch : List Byte) :
    Prop where
  count : batches.length < batchCountMax
  whole : batch.length % elementSize = 0
  fits : batch.length / elementSize < u16Modulus
  room : batches.flatten.length + batch.length + trailerSize elementSize (batches.length + 1) ≤ capacity

theorem length_flatten_mod (h : ∀ batch ∈ batches, batch.length % elementSize = 0) :
    batches.flatten.length % elementSize = 0 := by
  rw [length_flatten_eq h]
  exact Nat.mul_mod_left _ _

theorem length_flatten_of_zero (h : ∀ batch ∈ batches, batch.length % elementSize = 0)
    (he : elementSize = 0) : batches.flatten.length = 0 := by
  rw [length_flatten_eq h, he, Nat.mul_zero]

theorem length_buffer {middle postamble : List Byte} (hp : postamble.length = postambleSize) :
    (batches.flatten ++ (middle ++ (itemBytes (elementCounts elementSize batches).reverse ++
      postamble))).length = batches.flatten.length + middle.length +
        batches.length * trailerItemSize + postambleSize := by
  simp only [List.length_append, length_itemBytes, List.length_reverse, hp, elementCounts,
    List.length_map]
  omega

theorem writable_meets (he : Sized elementSize) (h : Holds elementSize capacity batches encoder) :
    Meets (fun _ => False) (fun found => (found = none → ¬Addable elementSize capacity batches batch) ∧
      ∀ size ∈ found, batches.length < batchCountMax ∧
        (Addable elementSize capacity batches batch → batch.length ≤ size) ∧
        (batch.length ≤ size → batches.flatten.length + batch.length +
          trailerSize elementSize (batches.length + 1) ≤ capacity))
      encoder.writable := by
  obtain ⟨middle, postamble, hbuffer, hp, hcapacity⟩ := h.buffer
  have hlen := @length_buffer elementSize batches middle postamble hp
  rw [hcapacity] at hlen
  have hindex : 0 < elementSize ∨ batches.flatten.length = 0 :=
    (Nat.eq_zero_or_pos elementSize).symm.imp_right (length_flatten_of_zero h.whole)
  have hmod := length_flatten_mod h.whole
  unfold writable
  rw [h.batchCount, h.bufferIndex, h.size]
  split
  · next hmax =>
    refine ⟨fun _ ha => ?_, nofun⟩
    have := ha.count
    omega
  next hmax =>
  have hcount := h.count
  rw [assert_of (by omega), ok_bind, assert_of hindex, ok_bind, assert_of (.inr hmod), ok_bind,
    trailerTotalSize_eq he (show 0 < batches.length + 1 by omega) (by omega), ok_bind]
  unfold «buffer!»
  rw [hbuffer]
  dsimp only
  rw [ok_bind, hlen]
  split
  · next hsmall =>
    refine ⟨fun _ ha => ?_, nofun⟩
    have := ha.room
    omega
  next hlarge =>
  split
  · next hz =>
    refine ⟨nofun, fun size hs => ?_⟩
    obtain rfl := Option.some.inj hs
    refine ⟨by omega, fun ha => ?_, fun hle => by omega⟩
    have := ha.whole
    rw [hz, Nat.mod_zero] at this
    omega
  · next hz =>
    refine ⟨nofun, fun size hs => ?_⟩
    obtain rfl := Option.some.inj hs
    refine ⟨by omega, fun ha => ?_, fun hle => ?_⟩
    · have hroom := ha.room
      have hwhole := Nat.div_add_mod' batch.length elementSize
      rw [ha.whole, Nat.add_zero] at hwhole
      rw [← Nat.div_mul_self_eq_mod_sub_self, ← hwhole]
      refine Nat.mul_le_mul_right _ ((Nat.le_div_iff_mul_le (Nat.pos_of_ne_zero hz)).mpr ?_)
      omega
    · have := Nat.sub_le (capacity - trailerSize elementSize (batches.length + 1) -
        batches.flatten.length) ((capacity - trailerSize elementSize (batches.length + 1) -
        batches.flatten.length) % elementSize)
      omega

theorem writtenElementCount_meets (h : Holds elementSize capacity batches encoder) :
    Meets (fun _ => ¬Addable elementSize capacity batches batch)
      (fun count => count = batch.length / elementSize ∧ batch.length % elementSize = 0 ∧
        batch.length / elementSize < u16Modulus)
      ((encoder.write batch).writtenElementCount batch.length) := by
  have hindex : (encoder.write batch).bufferIndex = batches.flatten.length := h.bufferIndex
  have hsize : (encoder.write batch).elementSize = elementSize := h.size
  unfold writtenElementCount
  rw [hindex, hsize]
  split
  · next hz =>
    rw [assert_of (length_flatten_of_zero h.whole hz), ok_bind]
    refine Meets.bind_iff.mpr (meets_assert.mpr ⟨fun hb => ?_, fun hn ha => hn ?_⟩)
    · rw [hz, hb]
      exact ⟨rfl, rfl, by decide⟩
    · have hwhole := ha.whole
      rwa [hz, Nat.mod_zero] at hwhole
  · refine Meets.bind_iff.mpr (meets_assert.mpr ⟨fun hw => ?_, fun hn ha => hn ha.whole⟩)
    exact Meets.bind_iff.mpr (meets_assert.mpr ⟨fun hf => ⟨rfl, hw, hf⟩, fun hn ha => hn ha.fits⟩)

theorem exists_parts {α : Type} {list : List α} {a b : Nat} (h : a + b ≤ list.length) :
    ∃ first middle last, list = first ++ (middle ++ last) ∧ first.length = a ∧ last.length = b := by
  refine ⟨list.take a, (list.drop a).take (list.length - a - b),
    (list.drop a).drop (list.length - a - b), ?_, ?_, ?_⟩
  · rw [List.take_append_drop, List.take_append_drop]
  · exact List.length_take_of_le (by omega)
  · simp only [List.length_drop]
    omega

section

variable (he : Sized elementSize)

include he

-- A batch is written after the others, and its item before theirs.
theorem add_meets (h : Holds elementSize capacity batches encoder)
    (hcount : batches.length < batchCountMax)
    (hroom : batches.flatten.length + batch.length +
      trailerSize elementSize (batches.length + 1) ≤ capacity) :
    Meets (fun _ => ¬Addable elementSize capacity batches batch)
      (Holds elementSize capacity (batches ++ [batch])) ((encoder.write batch).add batch.length) := by
  obtain ⟨middle, postamble, hbuffer, hp, hcapacity⟩ := h.buffer
  have hle := @le_trailerSize elementSize (batches.length + 1)
  have heven := @trailerSize_even elementSize (batches.length + 1) he
  have hcapeven := h.even
  have hmiddle : batch.length + trailerItemSize ≤ middle.length := by
    unfold trailerItemSize postambleSize at *
    omega
  obtain ⟨overwritten, left, replaced, rfl, hoverwritten, hreplaced⟩ := exists_parts hmiddle
  have hcounts : itemBytes (elementCounts elementSize (batches ++ [batch])).reverse =
      toLeBytes (batch.length / elementSize) ++ itemBytes (elementCounts elementSize batches).reverse := by
    unfold elementCounts itemBytes
    simp
  have hwritten : (encoder.write batch).buffer = some (batches.flatten ++ (batch ++ (left ++ (replaced ++
      (itemBytes (elementCounts elementSize batches).reverse ++ postamble))))) := by
    unfold write
    rw [hbuffer, h.bufferIndex, Option.map_some]
    simp only [List.append_assoc]
    rw [splice_append hoverwritten]
  simp only [List.length_append] at hcapacity
  have hlen : (batches.flatten ++ (batch ++ (left ++ (replaced ++
      (itemBytes (elementCounts elementSize batches).reverse ++ postamble))))).length = capacity := by
    simp only [List.length_append, length_itemBytes, List.length_reverse, hp, elementCounts,
      List.length_map]
    omega
  have hcount' : (encoder.write batch).batchCount = batches.length := h.batchCount
  have hindex : (encoder.write batch).bufferIndex = batches.flatten.length := h.bufferIndex
  have hsize : (encoder.write batch).elementSize = elementSize := h.size
  unfold add
  rw [hcount', assert_of hcount, ok_bind, hindex, hsize]
  refine Meets.bind (writtenElementCount_meets h) fun count hcount => ?_
  obtain ⟨hc, hwhole, hfits⟩ := hcount
  subst hc
  dsimp only
  unfold «buffer!»
  rw [hwritten]
  dsimp only
  rw [ok_bind, hlen, assert_of (by unfold trailerItemSize postambleSize at *; omega), ok_bind,
    trailerTotalSize_eq he (show 0 < batches.length + 1 by omega) (by omega), ok_bind,
    assert_of hroom, ok_bind]
  have hitems : (capacity - postambleSize - (capacity - trailerSize elementSize (batches.length + 1))) /
      trailerItemSize = (trailerSize elementSize (batches.length + 1) - postambleSize) /
        trailerItemSize := by
    congr 1
    omega
  rw [hitems, assert_of (by unfold trailerItemSize postambleSize at *; omega), ok_bind]
  have hstart : capacity - trailerSize elementSize (batches.length + 1) +
      ((trailerSize elementSize (batches.length + 1) - postambleSize) / trailerItemSize -
        (batches.length + 1)) * trailerItemSize = (batches.flatten ++ (batch ++ left)).length := by
    simp only [List.length_append]
    unfold trailerItemSize postambleSize at *
    omega
  rw [hstart]
  have hsplice := @splice_append (toLeBytes (batch.length / elementSize))
    (batches.flatten ++ (batch ++ left)) replaced
    (itemBytes (elementCounts elementSize batches).reverse ++ postamble) hreplaced
  simp only [List.append_assoc] at hsplice
  rw [hsplice]
  refine ⟨⟨left, postamble, ?_, hp, ?_⟩, ?_, ?_, rfl, h.even, ?_, ?_, ?_, fun _ => ?_⟩
  · rw [hcounts]
    simp
  · simp only [List.flatten_append, List.length_append, List.flatten_singleton, List.length_singleton]
    unfold trailerItemSize at *
    omega
  · simp
  · simp
  · simp only [List.length_append, List.length_singleton]
    omega
  · intro b hm
    cases List.mem_append.mp hm with
    | inl hm => exact h.whole b hm
    | inr hm => exact List.mem_singleton.mp hm ▸ hwhole
  · intro b hm
    cases List.mem_append.mp hm with
    | inl hm => exact h.fits b hm
    | inr hm => exact List.mem_singleton.mp hm ▸ hfits
  · simpa using hroom

theorem addBatch_meets (h : Holds elementSize capacity batches encoder) :
    Meets (fun _ => ¬Addable elementSize capacity batches batch)
      (fun found => (found = none → ¬Addable elementSize capacity batches batch) ∧
        ∀ next ∈ found, Holds elementSize capacity (batches ++ [batch]) next)
      (encoder.addBatch batch) := by
  unfold addBatch
  refine Meets.bind ((@writable_meets _ _ _ batch _ he h).mono (fun _ hw => hw) fun _ hw => hw.elim)
    fun found ⟨hnone, hsome⟩ => ?_
  cases found with
  | none => exact ⟨fun _ => hnone rfl, nofun⟩
  | some size =>
    have ⟨hcount, hadd, hroom⟩ := hsome size rfl
    dsimp only
    split
    · next hlt => exact ⟨fun _ ha => absurd (hadd ha) (by omega), nofun⟩
    · next hlt =>
      refine Meets.bind (add_meets he h hcount (hroom (by omega))) fun next hn => ?_
      refine ⟨nofun, fun next' hm => ?_⟩
      obtain rfl := Option.some.inj hm
      exact hn

-- The batches that follow can be added, one after the other.
theorem addBatches_meets {more : List (List Byte)}
    (h : Holds elementSize capacity batches encoder) :
    Meets (fun _ => ¬∀ before batch after, more = before ++ batch :: after →
        Addable elementSize capacity (batches ++ before) batch)
      (fun found => (found = none → ¬∀ before batch after, more = before ++ batch :: after →
          Addable elementSize capacity (batches ++ before) batch) ∧
        ∀ next ∈ found, Holds elementSize capacity (batches ++ more) next)
      (addBatches more encoder) := by
  induction more generalizing batches encoder with
  | nil =>
    refine ⟨nofun, fun next hn => ?_⟩
    obtain rfl := Option.some.inj hn
    rwa [List.append_nil]
  | cons batch more ih =>
    have hfirst : ¬Addable elementSize capacity batches batch →
        ¬∀ before b after, batch :: more = before ++ b :: after →
          Addable elementSize capacity (batches ++ before) b := by
      intro hn ha
      have hadd := ha [] batch more rfl
      rw [List.append_nil] at hadd
      exact hn hadd
    have hrest : (¬∀ before b after, more = before ++ b :: after →
          Addable elementSize capacity (batches ++ [batch] ++ before) b) →
        ¬∀ before b after, batch :: more = before ++ b :: after →
          Addable elementSize capacity (batches ++ before) b := by
      refine fun hn ha => hn fun before b after heq => ?_
      have hadd := ha (batch :: before) b after (by rw [heq]; rfl)
      rwa [List.append_assoc]
    unfold addBatches
    refine Meets.bind ((addBatch_meets he h).mono (fun _ hb => hb) fun _ => hfirst)
      fun found ⟨hnone, hsome⟩ => ?_
    cases found with
    | none => exact ⟨fun _ => hfirst (hnone rfl), nofun⟩
    | some next =>
      refine (ih (hsome next rfl)).mono (fun found ⟨hn, hs⟩ => ⟨fun hf => hrest (hn hf), ?_⟩)
        fun _ => hrest
      rwa [List.append_assoc] at hs

theorem new_meets {buffer : List Byte} :
    Meets (fun _ => ¬trailerSize elementSize 1 ≤ buffer.length)
      (Holds elementSize (buffer.length - buffer.length % trailerItemSize) [])
      (new buffer elementSize) := by
  unfold new
  rw [assert_of he, ok_bind, trailerTotalSize_eq he Nat.one_pos (by decide), ok_bind]
  refine Meets.bind_iff.mpr (meets_assert.mpr ⟨fun hle => ?_, id⟩)
  have hmin := @le_trailerSize elementSize 1
  have hlen : (buffer.take (buffer.length - buffer.length % trailerItemSize)).length =
      buffer.length - buffer.length % trailerItemSize := List.length_take_of_le (Nat.sub_le _ _)
  generalize hcapacity : buffer.length - buffer.length % trailerItemSize = capacity at hlen ⊢
  generalize haligned : buffer.take capacity = aligned at hlen
  have heven : capacity % trailerItemSize = 0 := by
    unfold trailerItemSize at *
    omega
  have hroom : postambleSize ≤ capacity := by
    unfold trailerItemSize postambleSize at *
    omega
  refine ⟨⟨aligned.take (capacity - postambleSize), aligned.drop (capacity - postambleSize), ?_, ?_,
    ?_⟩, rfl, rfl, rfl, heven, Nat.zero_le _, nofun, nofun, fun hn => absurd rfl hn⟩
  · show some (buffer.take capacity) = some ([] ++ (_ ++ ([] ++ _)))
    rw [haligned]
    simp
  · rw [List.length_drop, hlen]
    omega
  · rw [List.length_take_of_le (by omega)]
    show 0 + _ + 0 * _ + _ = _
    omega

-- The bytes of the encoded batches are at the front of the buffer in the end.
theorem finish_eq (h : Holds elementSize capacity batches encoder)
    (hne : batches ≠ []) : ∃ rest, encoder.finish =
      if batches.flatten.length < u32Modulus then
        .ok (layout elementSize batches ++ rest, (layout elementSize batches).length)
      else
        .error (.panic .general "encoder output must roundtrip") := by
  obtain ⟨middle, postamble, hbuffer, hp, hcapacity⟩ := h.buffer
  have hpos := List.length_pos_of_ne_nil hne
  have hroom := h.room hne
  have hle := @le_trailerSize elementSize batches.length
  have heven := @trailerSize_even elementSize batches.length he
  have hcapeven := h.even
  have hindex : 0 < elementSize ∨ batches.flatten.length = 0 :=
    (Nat.eq_zero_or_pos elementSize).symm.imp_right (length_flatten_of_zero h.whole)
  have hmod := length_flatten_mod h.whole
  have hone : batches.flatten.length % trailerItemSize = 0 ∨ elementSize = 1 := by
    obtain rfl | rfl | ⟨_, hdvd⟩ := he.cases
    · rw [length_flatten_of_zero h.whole rfl]
      exact .inl (Nat.zero_mod _)
    · exact .inr rfl
    · exact .inl (Nat.mod_eq_zero_of_dvd ((Nat.dvd_of_mod_eq_zero hdvd).trans
        (Nat.dvd_of_mod_eq_zero hmod)))
  have hparts : batches.flatten.length % trailerItemSize + (trailerSize elementSize batches.length -
      (batches.length * trailerItemSize + postambleSize)) ≤ middle.length := by
    unfold trailerItemSize postambleSize at *
    omega
  obtain ⟨padding, left, unused, rfl, hpadding, hunused⟩ := exists_parts hparts
  generalize hitems : itemBytes (elementCounts elementSize batches).reverse = items at hbuffer
  have hilen : items.length = batches.length * trailerItemSize := by
    rw [← hitems, length_itemBytes, List.length_reverse]
    unfold elementCounts
    rw [List.length_map]
  simp only [List.length_append] at hcapacity
  simp only [List.append_assoc] at hbuffer
  have hlen : (batches.flatten ++ (padding ++ (left ++ (unused ++ (items ++ postamble))))).length =
      capacity := by
    simp only [List.length_append]
    omega
  -- The padding is filled.
  have hfilled := @splice_append (List.replicate (batches.flatten.length % trailerItemSize) byteMax)
    batches.flatten padding (left ++ (unused ++ (items ++ postamble)))
    (by rw [hpadding, List.length_replicate])
  generalize hfill : List.replicate (batches.flatten.length % trailerItemSize) byteMax = fill at hfilled
  have hflen : fill.length = batches.flatten.length % trailerItemSize := by
    rw [← hfill, List.length_replicate]
  have hlen' : (batches.flatten ++ (fill ++ (left ++ (unused ++ (items ++ postamble))))).length =
      capacity := by
    rw [← hlen]
    simp only [List.length_append]
    omega
  -- The trailer is moved.
  have hdrop : (batches.flatten ++ (fill ++ (left ++ (unused ++ (items ++ postamble))))).drop
      (capacity - trailerSize elementSize batches.length) = unused ++ (items ++ postamble) := by
    have hsource : capacity - trailerSize elementSize batches.length =
        (batches.flatten ++ (fill ++ left)).length := by
      simp only [List.length_append]
      omega
    rw [hsource, show batches.flatten ++ (fill ++ (left ++ (unused ++ (items ++ postamble)))) =
      (batches.flatten ++ (fill ++ left)) ++ (unused ++ (items ++ postamble)) by
        simp only [List.append_assoc], List.drop_left]
  have hmoved := @splice_front (unused ++ (items ++ postamble)) (batches.flatten ++ fill)
    (left ++ (unused ++ (items ++ postamble)))
  generalize (left ++ (unused ++ (items ++ postamble))).drop (unused ++ (items ++ postamble)).length =
    rest at hmoved
  have hunusedItems : ((trailerSize elementSize batches.length - postambleSize) / trailerItemSize -
      batches.length) * trailerItemSize = trailerSize elementSize batches.length -
        (batches.length * trailerItemSize + postambleSize) := by
    unfold trailerItemSize postambleSize at *
    omega
  have hsentinel := @splice_append (List.replicate (trailerSize elementSize batches.length -
    (batches.length * trailerItemSize + postambleSize)) byteMax) (batches.flatten ++ fill) unused
    (items ++ (postamble ++ rest)) (by rw [hunused, List.length_replicate])
  generalize hsent : List.replicate (trailerSize elementSize batches.length -
    (batches.length * trailerItemSize + postambleSize)) byteMax = sentinel at hsentinel
  have hslen : sentinel.length = trailerSize elementSize batches.length -
      (batches.length * trailerItemSize + postambleSize) := by rw [← hsent, List.length_replicate]
  have hpostamble := @splice_append (toLeBytes batches.length) (batches.flatten ++ fill ++ sentinel ++ items)
    postamble rest hp
  have hlayout : layout elementSize batches =
      batches.flatten ++ fill ++ sentinel ++ items ++ toLeBytes batches.length := by
    unfold layout
    rw [hfill, hsent, hitems]
  have hwritten := @length_layout elementSize batches
  have hregular : Regular elementSize batches := ⟨hne, h.count, h.whole, h.fits⟩
  refine ⟨rest, ?_⟩
  have hget : encoder.buffer! =
      .ok (batches.flatten ++ (padding ++ (left ++ (unused ++ (items ++ postamble))))) := by
    unfold «buffer!»
    rw [hbuffer]
  unfold finish
  rw [h.batchCount, h.bufferIndex, h.size, assert_of hpos, ok_bind, assert_of h.count, ok_bind, hget,
    ok_bind, hlen, assert_of (by unfold postambleSize at *; omega), ok_bind, assert_of hindex, ok_bind,
    trailerTotalSize_eq he hpos h.count, ok_bind]
  dsimp only
  have hmoved : splice (batches.flatten ++ (fill ++ (left ++ (unused ++ (items ++ postamble)))))
      (batches.flatten.length + batches.flatten.length % trailerItemSize)
        (unused ++ (items ++ postamble)) =
      batches.flatten ++ fill ++ (unused ++ (items ++ (postamble ++ rest))) := by
    rw [List.length_append, hflen] at hmoved
    simp only [List.append_assoc] at hmoved ⊢
    exact hmoved
  have hsentinel : splice (batches.flatten ++ fill ++ (unused ++ (items ++ (postamble ++ rest))))
      (batches.flatten.length + batches.flatten.length % trailerItemSize) sentinel =
      batches.flatten ++ fill ++ (sentinel ++ (items ++ (postamble ++ rest))) := by
    rwa [List.length_append, hflen] at hsentinel
  have hpostamble : splice (batches.flatten ++ fill ++ (sentinel ++ (items ++ (postamble ++ rest))))
      (batches.flatten.length + batches.flatten.length % trailerItemSize +
        trailerSize elementSize batches.length - postambleSize) (toLeBytes batches.length) =
      layout elementSize batches ++ rest := by
    have hend : (batches.flatten ++ fill ++ sentinel ++ items).length = batches.flatten.length +
        batches.flatten.length % trailerItemSize + trailerSize elementSize batches.length -
          postambleSize := by
      simp only [List.length_append]
      omega
    rw [hend] at hpostamble
    rw [hlayout]
    simp only [List.append_assoc] at hpostamble ⊢
    exact hpostamble
  have hzero : 0 < elementSize ∨ (layout elementSize batches).length =
      trailerSize elementSize batches.length := by
    refine hindex.imp_right fun hz => ?_
    rw [hwritten, hz]
    unfold trailerItemSize
    omega
  have hwhole : elementSize = 0 ∨ (layout elementSize batches).length % elementSize = 0 := by
    refine or_iff_not_imp_left.mpr fun hz => ?_
    have htrailer := @trailerSize_mod elementSize batches.length hz
    rw [hwritten]
    obtain hpad | rfl := hone
    · rw [hpad, Nat.add_zero, Nat.add_mod, hmod, htrailer]
      rfl
    · exact Nat.mod_one _
  rw [assert_of (Nat.mod_lt _ (by decide)), ok_bind, assert_of hone, ok_bind,
    assert_of (by unfold trailerItemSize postambleSize at *; omega), ok_bind, hfill, hfilled, hlen',
    assert_of (by unfold trailerItemSize postambleSize at *; omega), ok_bind, hdrop, hmoved,
    hunusedItems, hsent, hsentinel, hpostamble, ← hwritten, assert_of hzero, ok_bind, assert_of hwhole,
    ok_bind, List.take_left, MultiBatchDecoder.new_layout he hregular, ok_bind]
  split <;> rfl

end

end MultiBatchEncoder

open MultiBatchDecoder MultiBatchEncoder

-- Batches whose payload has a size of 32 bits are decoded as they have been encoded, and what is
-- accepted by the decoder is what the batches are encoded to again.
theorem decode_encode (he : Sized elementSize) :
    (∀ (buffer : List Byte) (encoder added : MultiBatchEncoder) (batches : List (List Byte)),
      MultiBatchEncoder.new buffer elementSize = .ok encoder →
      addBatches batches encoder = .ok (some added) → batches ≠ [] →
      batches.flatten.length < u32Modulus →
      ∃ bytes bytesWritten decoder, added.finish = .ok (bytes, bytesWritten) ∧
        MultiBatchDecoder.new (bytes.take bytesWritten) elementSize = .ok (some decoder) ∧
        decoder.popAll (batches.length + 1) = .ok batches) ∧
    ∀ (body : List Byte) (decoder : MultiBatchDecoder),
      MultiBatchDecoder.new body elementSize = .ok (some decoder) →
      ∃ batches, decoder.popAll (batches.length + 1) = .ok batches ∧
        ∀ buffer : List Byte, body.length ≤ buffer.length →
          ∃ encoder added bytes, MultiBatchEncoder.new buffer elementSize = .ok encoder ∧
            addBatches batches encoder = .ok (some added) ∧
            added.finish = .ok (bytes, body.length) ∧ bytes.take body.length = body := by
  refine ⟨fun buffer encoder added batches hn ha hne hlt => ?_, fun body decoder hd => ?_⟩
  · have hholds := (new_meets he).post hn
    have hadded := ((addBatches_meets he hholds).post ha).2 added rfl
    rw [List.nil_append] at hadded
    obtain ⟨rest, hfinish⟩ := finish_eq he hadded hne
    have hregular : Regular elementSize batches := ⟨hne, hadded.count, hadded.whole, hadded.fits⟩
    have hnew := new_layout he hregular
    rw [if_pos hlt] at hfinish hnew
    exact ⟨_, _, _, hfinish, by rwa [List.take_left], popAll_decoded hregular⟩
  · obtain ⟨batches, hr, hlt, hbody, rfl⟩ := (new_accepts he).post hd decoder rfl
    refine ⟨batches, popAll_decoded hr, fun buffer hle => ?_⟩
    have hpos := List.length_pos_of_ne_nil hr.some
    have hlen := @length_layout elementSize batches
    have heven := @trailerSize_even elementSize batches.length he
    have hmin := @trailerSize_mono elementSize 1 batches.length hpos
    rw [hbody] at hle ⊢
    have hcapacity : (layout elementSize batches).length ≤
        buffer.length - buffer.length % trailerItemSize := by
      unfold trailerItemSize at *
      omega
    obtain ⟨encoder, hn, hholds⟩ := Meets.iff_exists.mp ((new_meets he).mono (fun _ h => h)
      fun _ hsmall => hsmall (show trailerSize elementSize 1 ≤ buffer.length by omega))
    have haddable : ∀ before batch after, batches = before ++ batch :: after →
        Addable elementSize (buffer.length - buffer.length % trailerItemSize) ([] ++ before) batch := by
      intro before batch after heq
      have hcount := hr.count
      have hmono := @trailerSize_mono elementSize (before.length + 1) batches.length
        (by rw [heq]; simp)
      have hflatten : before.flatten.length + batch.length ≤ batches.flatten.length := by
        rw [heq]
        simp only [List.flatten_append, List.flatten_cons, List.length_append]
        omega
      have hshort : before.length < batches.length := by
        rw [heq]
        simp
      have hmem : batch ∈ batches := by simp [heq]
      exact ⟨hshort.trans_le hcount, hr.whole batch hmem, hr.fits batch hmem, by
        rw [List.nil_append]
        omega⟩
    obtain ⟨found, ha, hnone, hsome⟩ := Meets.iff_exists.mp ((addBatches_meets he hholds).mono
      (fun _ h => h) fun _ hn => hn haddable)
    cases found with
    | none => exact absurd haddable (hnone rfl)
    | some added =>
      have hadded := hsome added rfl
      rw [List.nil_append] at hadded
      obtain ⟨rest, hfinish⟩ := finish_eq he hadded hr.some
      rw [if_pos hlt] at hfinish
      exact ⟨encoder, added, _, hn, ha, hfinish, List.take_left⟩

theorem decode_encode_of_bytes : ∃ encoder added bytes bytesWritten decoder,
    MultiBatchEncoder.new (List.replicate 16 0) 1 = .ok encoder ∧
      addBatches [[1, 2, 3], [], [4]] encoder = .ok (some added) ∧
      added.finish = .ok (bytes, bytesWritten) ∧
      MultiBatchDecoder.new (bytes.take bytesWritten) 1 = .ok (some decoder) ∧
      decoder.popAll 4 = .ok [[1, 2, 3], [], [4]] := by
  have ⟨h, _⟩ := @decode_encode 1 (.inr rfl)
  obtain ⟨bytes, bytesWritten, decoder, hfinish, hnew, hpop⟩ :=
    h (List.replicate 16 0) _ _ [[1, 2, 3], [], [4]] rfl rfl nofun (by decide)
  exact ⟨_, _, bytes, bytesWritten, decoder, rfl, rfl, hfinish, hnew, hpop⟩

-- A payload whose size does not fit 32 bits is accepted by the encoder but not by the decoder.
theorem finish_unread {buffer batch : List Byte} (he : Sized elementSize)
    (hwhole : batch.length % elementSize = 0) (hfits : batch.length / elementSize < u16Modulus)
    (hlarge : u32Modulus ≤ batch.length) (heven : buffer.length % trailerItemSize = 0)
    (hroom : batch.length + trailerSize elementSize 1 ≤ buffer.length) : ∃ encoder added,
    MultiBatchEncoder.new buffer elementSize = .ok encoder ∧
      addBatches [batch] encoder = .ok (some added) ∧
      added.finish = .error (.panic .general "encoder output must roundtrip") := by
  obtain ⟨encoder, hn, hholds⟩ := Meets.iff_exists.mp ((new_meets he).mono (fun _ h => h)
    fun _ hsmall => hsmall (show trailerSize elementSize 1 ≤ buffer.length by omega))
  rw [heven, Nat.sub_zero] at hholds
  have haddable : Addable elementSize buffer.length [] batch := by
    refine ⟨Nat.zero_lt_succ _, hwhole, hfits, ?_⟩
    show 0 + batch.length + trailerSize elementSize 1 ≤ _
    rwa [Nat.zero_add]
  obtain ⟨found, ha, hnone, hsome⟩ := Meets.iff_exists.mp ((addBatch_meets he hholds).mono
    (fun _ h => h) fun _ hn => hn haddable)
  cases found with
  | none => exact absurd haddable (hnone rfl)
  | some added =>
    obtain ⟨rest, hfinish⟩ := finish_eq he (hsome added rfl) (by simp)
    rw [List.nil_append, List.flatten_singleton, if_neg (Nat.not_lt.mpr hlarge)] at hfinish
    refine ⟨encoder, added, hn, ?_, hfinish⟩
    unfold addBatches
    rw [ha]
    rfl

theorem finish_of_large : ∃ encoder added,
    MultiBatchEncoder.new (List.replicate (2 ^ 32 + 2 ^ 31) 0) (2 ^ 31) = .ok encoder ∧
      addBatches [List.replicate (2 ^ 32) 0] encoder = .ok (some added) ∧
      added.finish = .error (.panic .general "encoder output must roundtrip") := by
  refine finish_unread (.inr ?_) ?_ ?_ ?_ ?_ ?_
  · decide
  · rw [List.length_replicate]
    decide
  · rw [List.length_replicate]
    decide
  · rw [List.length_replicate]
    exact Nat.le_refl _
  · rw [List.length_replicate]
    decide
  · rw [List.length_replicate, List.length_replicate]
    decide

end TigerBeetle.MultiBatch
