import TigerBeetle.CheckedMultiBatch
import TigerBeetle.Theorems.MultiBatchRoundTrip

namespace TigerBeetle.MultiBatch.Checked

open Fallible

open Ewah (Byte)

variable {elementSize batchCount parsed count : Nat} {body bytes trailerItems : List Byte}
variable {decoder : MultiBatchDecoder}

section Operations

theorem assert_congr {α : Type} {p : Prop} [Decidable p] {message : String} {f g : Unit → Result α}
    (h : p → f () = g ()) : (assert p message >>= f) = (assert p message >>= g) :=
  Meets.bind_congr (meets_assert.mpr ⟨h, fun _ => trivial⟩)

theorem sub_eq {a b : Nat} (h : b ≤ a) : sub a b = .ok (a - b) := by
  unfold sub
  rw [assert_of h]
  rfl

theorem sub_bind {α : Type} {a b : Nat} {f : Nat → Result α} : (sub a b >>= f) =
    (assert (b ≤ a) "attempt to subtract with overflow" >>= fun _ => f (a - b)) := by
  unfold sub
  rw [bind_assoc]
  rfl

theorem slice_eq {start stop : Nat} (h : start ≤ stop) (h' : stop ≤ bytes.length) :
    slice bytes start stop = .ok ((bytes.drop start).take (stop - start)) := by
  unfold slice
  rw [assert_of h, ok_bind, assert_of h']
  rfl

theorem readU16_eq (h : bytes.length = trailerItemSize) :
    readU16 bytes = .ok (MultiBatch.readU16 bytes) := by
  obtain ⟨low, high, rfl⟩ := List.length_eq_two.mp h
  rfl

theorem item_eq {i : Nat} (h : i < trailerItems.length / trailerItemSize) :
    item trailerItems i = .ok (MultiBatchDecoder.item trailerItems i) := by
  have hle : i * trailerItemSize + trailerItemSize ≤ trailerItems.length := by
    unfold trailerItemSize at *
    omega
  have hrest : ((trailerItems.drop (i * trailerItemSize)).take
      (trailerItems.length - i * trailerItemSize)) = trailerItems.drop (i * trailerItemSize) :=
    List.take_of_length_le (by rw [List.length_drop])
  have hlen : trailerItemSize ≤ (trailerItems.drop (i * trailerItemSize)).length := by
    rw [List.length_drop]
    omega
  unfold item
  rw [slice_eq (by omega) (Nat.le_refl _), ok_bind, hrest, slice_eq (Nat.zero_le _) hlen, ok_bind,
    List.drop_zero, Nat.sub_zero]
  exact readU16_eq (List.length_take_of_le hlen)

-- The items are added up as they are without checks.
theorem addItems_eq {items : List Nat} (h : ∀ i ∈ items, i < trailerItems.length / trailerItemSize) :
    addItems trailerItems items count = .ok (items.foldlM (fun count i =>
      let count := count + MultiBatchDecoder.item trailerItems i
      if count < u32Modulus then some count else none) count) := by
  induction items generalizing count with
  | nil          => rfl
  | cons i items ih =>
    unfold addItems
    rw [item_eq (h i (by simp)), ok_bind, List.foldlM_cons]
    dsimp only
    split
    · next hlt => exact ih fun j hm => h j (List.mem_cons_of_mem _ hm)
    · rfl

theorem eventsCountTotal_eq :
    eventsCountTotal trailerItems = .ok (MultiBatchDecoder.eventsCountTotal trailerItems) :=
  addItems_eq fun _ hm => List.mem_range.mp hm

end Operations

section Parse

theorem takeSuffix_eq {bodyLen : Nat} (h : parsed ≤ bodyLen) : takeSuffix bodyLen parsed count =
    .ok (if bodyLen - parsed < count then none
      else some ((bodyLen - (parsed + count), bodyLen - parsed), parsed + count)) := by
  unfold takeSuffix
  rw [sub_eq h, ok_bind]
  split
  · rfl
  · dsimp only
    rw [sub_eq (by omega), ok_bind, sub_eq (Nat.le_add_left _ _), ok_bind, sub_eq (by omega), ok_bind,
      Nat.add_sub_cancel]
    rfl

theorem suffix_eq (h : parsed ≤ body.length) :
    suffix body parsed count = .ok (MultiBatchDecoder.takeSuffix body parsed count) := by
  unfold suffix MultiBatchDecoder.takeSuffix
  rw [takeSuffix_eq h, ok_bind]
  by_cases hlt : body.length - parsed < count
  · rw [if_pos hlt, if_pos hlt]
    rfl
  · rw [if_neg hlt, if_neg hlt]
    dsimp only
    rw [slice_eq (by omega) (Nat.sub_le _ _), ok_bind,
      show body.length - parsed - (body.length - (parsed + count)) = count by omega]
    rfl

theorem takeSuffix_bounds {chunk : List Byte} {parsed' : Nat} (h : parsed ≤ body.length)
    (hs : MultiBatchDecoder.takeSuffix body parsed count = some (chunk, parsed')) :
    chunk.length = count ∧ parsed' = parsed + count ∧ parsed' ≤ body.length := by
  unfold MultiBatchDecoder.takeSuffix at hs
  split at hs
  · cases hs
  · next hlt =>
    cases hs
    rw [List.length_take_of_le (by rw [List.length_drop]; omega)]
    omega

-- The trailer has far less than 2^32 bytes, and element sizes of more bytes than that are not in use.
theorem trailerTotalSize_eq (he : Sized elementSize) (hlt : elementSize < u32Modulus)
    (hpos : 0 < batchCount) (hle : batchCount ≤ batchCountMax) :
    trailerTotalSize elementSize batchCount = .ok (trailerSize elementSize batchCount) := by
  have hunpadded : batchCount * trailerItemSize + postambleSize < 2 ^ 31 := by
    unfold batchCountMax at hle
    unfold trailerItemSize postambleSize
    omega
  have hhalf : elementSize ≤ 2 ^ 31 := by
    obtain rfl | hp := he
    · exact Nat.zero_le _
    · have hp : elementSize = 2 ^ elementSize.log2 := by simpa [isPowerOfTwo] using hp
      rw [hp] at hlt ⊢
      have hlog := (Nat.pow_lt_pow_iff_right (by decide)).mp hlt
      exact Nat.pow_le_pow_right (by decide) (by omega)
  have hmul : mulU32 batchCount trailerItemSize = .ok (batchCount * trailerItemSize) := by
    unfold mulU32
    rw [assert_of (by unfold u32Modulus; omega)]
    rfl
  have hadd : addU32 (batchCount * trailerItemSize) postambleSize =
      .ok (batchCount * trailerItemSize + postambleSize) := by
    unfold addU32
    rw [assert_of (by unfold u32Modulus; omega)]
    rfl
  unfold trailerTotalSize trailerSize
  rw [assert_of hpos, ok_bind, assert_of hle, ok_bind, assert_of he, ok_bind, hmul, ok_bind, hadd,
    ok_bind]
  split
  · rfl
  · have hround := Nat.div_mul_le_self (batchCount * trailerItemSize + postambleSize +
      (elementSize - 1)) elementSize
    unfold mulU32
    rw [assert_of (by unfold u32Modulus; omega)]
    rfl

end Parse

theorem new_eq (he : Sized elementSize) (hlt : elementSize < u32Modulus) :
    new body elementSize = MultiBatchDecoder.new body elementSize := by
  unfold new MultiBatchDecoder.new
  rw [assert_of he, ok_bind, ok_bind, suffix_eq (Nat.zero_le _), ok_bind]
  cases hpostamble : MultiBatchDecoder.takeSuffix body 0 postambleSize with
  | none      => rfl
  | some part =>
    obtain ⟨postamble, parsed₁⟩ := part
    obtain ⟨hlen, -, h₁⟩ := takeSuffix_bounds (Nat.zero_le _) hpostamble
    dsimp only
    rw [readU16_eq hlen, ok_bind]
    split
    · rfl
    split
    · rfl
    next hpos hle =>
    rw [trailerTotalSize_eq he hlt (by omega) (Nat.not_lt.mp hle),
      MultiBatch.trailerTotalSize_eq he (by omega) (Nat.not_lt.mp hle), ok_bind, ok_bind, suffix_eq h₁,
      ok_bind]
    cases hitems : MultiBatchDecoder.takeSuffix body parsed₁ (MultiBatch.readU16 postamble *
      trailerItemSize) with
    | none      => rfl
    | some part =>
      obtain ⟨trailerItems, parsed₂⟩ := part
      obtain ⟨-, -, h₂⟩ := takeSuffix_bounds h₁ hitems
      dsimp only
      rw [sub_bind]
      refine assert_congr fun _ => ?_
      rw [suffix_eq h₂, ok_bind]
      cases hunused : MultiBatchDecoder.takeSuffix body parsed₂ (trailerSize elementSize
        (MultiBatch.readU16 postamble) - parsed₂) with
      | none      => rfl
      | some part =>
        obtain ⟨trailerItemsPadding, parsed₃⟩ := part
        obtain ⟨-, -, h₃⟩ := takeSuffix_bounds h₂ hunused
        dsimp only
        split
        · rfl
        rw [eventsCountTotal_eq, ok_bind]
        cases MultiBatchDecoder.eventsCountTotal trailerItems with
        | none => rfl
        | some eventsCountTotal =>
          dsimp only
          split
          · rfl
          split
          · rfl
          refine assert_congr fun _ => assert_congr fun _ => ?_
          rw [suffix_eq h₃, ok_bind]
          cases hpadding : MultiBatchDecoder.takeSuffix body parsed₃
            (eventsCountTotal * elementSize % trailerItemSize) with
          | none      => rfl
          | some part =>
            obtain ⟨trailerPadding, parsed₄⟩ := part
            obtain ⟨-, -, h₄⟩ := takeSuffix_bounds h₃ hpadding
            dsimp only
            split
            · rfl
            rw [sub_eq h₄, ok_bind]
            split
            · rfl
            next hpayload =>
            rw [slice_eq (Nat.zero_le _) (by omega)]
            rfl

theorem peek_eq : peek decoder = decoder.peek := by
  unfold peek MultiBatchDecoder.peek
  refine assert_congr fun _ => ?_
  refine assert_congr fun hindex => ?_
  refine assert_congr fun hpayload => ?_
  have hitem : decoder.itemCount - decoder.batchIndex - 1 <
      decoder.trailerItems.length / trailerItemSize := by
    unfold MultiBatchDecoder.itemCount at *
    omega
  rw [sub_eq hindex.le, ok_bind, sub_eq (by omega), ok_bind, item_eq hitem, ok_bind]
  dsimp only
  split
  · rfl
  refine assert_congr fun _ => ?_
  refine assert_congr fun hsize => ?_
  have hrest : ((decoder.payload.drop decoder.payloadIndex).take
      (decoder.payload.length - decoder.payloadIndex)) = decoder.payload.drop decoder.payloadIndex :=
    List.take_of_length_le (by rw [List.length_drop])
  rw [slice_eq hpayload (Nat.le_refl _), ok_bind, hrest, slice_eq (Nat.zero_le _)
    (by rw [List.length_drop]; omega), ok_bind]
  rfl

theorem pop_eq : pop decoder = decoder.pop := by
  unfold pop MultiBatchDecoder.pop
  rw [peek_eq]

section Total

open MultiBatchDecoder

variable {before after : List (List Byte)}

theorem pops_popped (hr : Regular elementSize (before ++ after)) :
    pops after.length (popped elementSize before after) =
      .ok (after.map some, popped elementSize (before ++ after) []) := by
  induction after generalizing before with
  | nil =>
    rw [List.append_nil]
    rfl
  | cons batch after ih =>
    have hr' : Regular elementSize ((before ++ [batch]) ++ after) := by
      rwa [List.append_assoc]
    show (pop _ >>= _) = _
    rw [pop_eq, pop_popped hr, ok_bind]
    show (pops after.length _ >>= _) = _
    rw [ih hr', ok_bind, List.append_assoc]
    rfl

theorem pop_popped_nil (hr : Regular elementSize before) :
    pop (popped elementSize before []) = .ok (none, popped elementSize before []) := by
  have hindex : (popped elementSize before []).batchIndex = (popped elementSize before []).itemCount :=
    (@itemCount_popped elementSize before []).symm
  have hend : (popped elementSize before []).payloadIndex =
      (popped elementSize before []).payload.length := by
    unfold popped decoded
    simp
  have hsome : before ++ [] ≠ [] := by
    rw [List.append_nil]
    exact hr.some
  unfold pop
  rw [assert_of (trailerItems_popped hsome), ok_bind, if_pos hindex, assert_of hend]
  rfl

theorem batchCount_decoded (hr : Regular elementSize before) :
    Checked.batchCount (decoded elementSize before) = .ok before.length := by
  have hcount : (decoded elementSize before).itemCount = before.length := by
    have hpopped := @itemCount_popped elementSize [] before
    rwa [List.length_nil, Nat.zero_add] at hpopped
  have hle := hr.count
  unfold Checked.batchCount
  rw [hcount, assert_of hle, ok_bind, Nat.mod_eq_of_lt]
  · rfl
  · unfold batchCountMax at hle
    unfold u16Modulus
    omega

-- Whatever the body is, it is decoded without a fault, and so are the batches of what is accepted,
-- which have the bytes of the payload.
theorem decode_total (he : Sized elementSize) (hlt : elementSize < u32Modulus) (body : List Byte) :
    ∃ found, new body elementSize = .ok found ∧ ∀ decoder, found = some decoder →
      ∃ batches : List (List Byte), ∃ last, Checked.batchCount decoder = .ok batches.length ∧
        pops batches.length decoder = .ok (batches.map some, last) ∧
        batches.flatten = decoder.payload ∧ decoder.payload <+: body ∧
        pop last = .ok (none, last) := by
  obtain ⟨found, hn, haccepts⟩ := Meets.iff_exists.mp (@new_accepts elementSize body he)
  refine ⟨found, (new_eq he hlt).trans hn, fun decoder hd => ?_⟩
  obtain ⟨batches, hr, -, hbody, rfl⟩ := haccepts decoder hd
  refine ⟨batches, popped elementSize batches [], batchCount_decoded hr, ?_, rfl, ?_, pop_popped_nil hr⟩
  · exact @pops_popped elementSize [] batches hr
  · rw [hbody]
    unfold layout decoded
    simp only [List.append_assoc]
    exact List.prefix_append _ _

-- Two batches of bytes, of which one is empty.
theorem decode_total_of_bytes : ∃ decoder, ∃ batches : List (List Byte), ∃ last,
    new [7, 8, 0, 0, 2, 0, 2, 0] 1 = .ok (some decoder) ∧
      pops 2 decoder = .ok (batches.map some, last) ∧ batches.flatten = [7, 8] ∧
      pop last = .ok (none, last) := by
  have hnew : new [7, 8, 0, 0, 2, 0, 2, 0] 1 = .ok (some ⟨[7, 8], [0, 0, 2, 0], 0, 0, 1⟩) := by
    decide
  obtain ⟨found, hn, h⟩ := @decode_total 1 (.inr (by decide)) (by decide) [7, 8, 0, 0, 2, 0, 2, 0]
  obtain ⟨batches, last, hcount, hpops, hflatten, -, hpop⟩ :=
    h _ (Except.ok.inj (hn.symm.trans hnew))
  have hlength : batches.length = 2 := Except.ok.inj (hcount.symm.trans (by decide))
  exact ⟨_, batches, last, hnew, hlength ▸ hpops, hflatten, hpop⟩

end Total

end TigerBeetle.MultiBatch.Checked
