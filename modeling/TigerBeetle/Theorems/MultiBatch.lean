import TigerBeetle.MultiBatch

namespace TigerBeetle.MultiBatch

open Fallible

open Ewah (Byte)

section Bytes

variable {n : Nat} {bytes : List Byte}

theorem readU16_lt : readU16 bytes < u16Modulus := by
  have h₀ := (bytes.getD 0 0).isLt
  have h₁ := (bytes.getD 1 0).isLt
  unfold readU16 u16Modulus
  omega

theorem readU16_toLeBytes (h : n < u16Modulus) : readU16 (toLeBytes n) = n := by
  unfold u16Modulus at h
  show (BitVec.ofNat 8 n).toNat + (BitVec.ofNat 8 (n / 2 ^ 8)).toNat * 2 ^ 8 = n
  rw [BitVec.toNat_ofNat, BitVec.toNat_ofNat]
  omega

theorem toLeBytes_readU16 (h : bytes.length = trailerItemSize) : toLeBytes (readU16 bytes) = bytes := by
  obtain ⟨b₀, b₁, rfl⟩ := List.length_eq_two.mp h
  have h₀ := b₀.isLt
  have h₁ := b₁.isLt
  show [BitVec.ofNat 8 (b₀.toNat + b₁.toNat * 2 ^ 8),
    BitVec.ofNat 8 ((b₀.toNat + b₁.toNat * 2 ^ 8) / 2 ^ 8)] = [b₀, b₁]
  congr 1
  · apply BitVec.eq_of_toNat_eq
    rw [BitVec.toNat_ofNat]
    omega
  · congr 1
    apply BitVec.eq_of_toNat_eq
    rw [BitVec.toNat_ofNat]
    omega

@[simp]
theorem length_toLeBytes : (toLeBytes n).length = trailerItemSize :=
  rfl

theorem splice_front {before after : List Byte} :
    splice (before ++ after) before.length bytes =
      before ++ (bytes ++ after.drop bytes.length) := by
  unfold splice
  rw [List.take_left, List.append_assoc, ← List.drop_drop, List.drop_left]

theorem splice_append {before replaced after : List Byte} (h : replaced.length = bytes.length) :
    splice (before ++ (replaced ++ after)) before.length bytes = before ++ (bytes ++ after) := by
  rw [splice_front, ← h, List.drop_left]

end Bytes

section Trailer

variable {elementSize batchCount batchCount' : Nat}

-- The items and the postamble, up to a multiple of the element size.
def trailerSize (elementSize batchCount : Nat) : Nat :=
  if elementSize = 0 then
    batchCount * trailerItemSize + postambleSize
  else
    (batchCount * trailerItemSize + postambleSize + (elementSize - 1)) / elementSize * elementSize

-- The sizes that elements may have.
abbrev Sized (elementSize : Nat) : Prop :=
  elementSize = 0 ∨ isPowerOfTwo elementSize = true

theorem Sized.cases (h : Sized elementSize) : elementSize = 0 ∨ elementSize = 1 ∨
    2 ≤ elementSize ∧ elementSize % 2 = 0 := by
  refine h.imp_right fun hp => ?_
  have hp : elementSize = 2 ^ elementSize.log2 := by simpa [isPowerOfTwo] using hp
  cases hk : elementSize.log2 with
  | zero =>
    rw [hk] at hp
    exact .inl hp
  | succ k =>
    rw [hk, Nat.pow_succ] at hp
    have := Nat.two_pow_pos k
    omega

theorem trailerTotalSize_eq (he : Sized elementSize) (hpos : 0 < batchCount)
    (hle : batchCount ≤ batchCountMax) :
    trailerTotalSize elementSize batchCount = .ok (trailerSize elementSize batchCount) := by
  unfold trailerTotalSize trailerSize
  rw [assert_of hpos, ok_bind, assert_of hle, ok_bind, assert_of he, ok_bind]
  split <;> rfl

theorem le_trailerSize :
    batchCount * trailerItemSize + postambleSize ≤ trailerSize elementSize batchCount := by
  unfold trailerSize
  split
  · exact Nat.le_refl _
  · next h =>
    have := Nat.lt_div_mul_add (a := batchCount * trailerItemSize + postambleSize + (elementSize - 1))
      (Nat.pos_of_ne_zero h)
    omega

theorem trailerSize_mono (h : batchCount ≤ batchCount') :
    trailerSize elementSize batchCount ≤ trailerSize elementSize batchCount' := by
  have hle := Nat.mul_le_mul_right trailerItemSize h
  unfold trailerSize
  split
  · omega
  · exact Nat.mul_le_mul_right _ (Nat.div_le_div_right (by omega))

theorem trailerSize_mod (h : elementSize ≠ 0) :
    trailerSize elementSize batchCount % elementSize = 0 := by
  unfold trailerSize
  rw [if_neg h]
  exact Nat.mul_mod_left _ _

theorem trailerSize_even (he : Sized elementSize) :
    trailerSize elementSize batchCount % trailerItemSize = 0 := by
  have hunpadded : (batchCount * trailerItemSize + postambleSize) % trailerItemSize = 0 := by
    unfold trailerItemSize postambleSize
    omega
  obtain rfl | rfl | ⟨hle, heven⟩ := he.cases
  · exact hunpadded
  · unfold trailerSize
    rw [if_neg (by decide), Nat.div_one, Nat.mul_one]
    exact hunpadded
  · exact Nat.mod_eq_zero_of_dvd ((Nat.dvd_of_mod_eq_zero heven).trans
      (Nat.dvd_of_mod_eq_zero (trailerSize_mod (by omega))))

end Trailer

section Layout

variable {elementSize : Nat} {batches batches' : List (List Byte)} {counts : List Nat}

-- The trailer items of batches with the given counts, in their order.
def itemBytes (counts : List Nat) : List Byte :=
  counts.flatMap toLeBytes

@[simp]
theorem length_itemBytes : (itemBytes counts).length = counts.length * trailerItemSize := by
  induction counts with
  | nil => rfl
  | cons count counts ih =>
    show (toLeBytes count ++ itemBytes counts).length = _
    rw [List.length_append, ih, length_toLeBytes, List.length_cons, Nat.succ_mul, Nat.add_comm]

theorem drop_itemBytes (i : Nat) :
    (itemBytes counts).drop (i * trailerItemSize) = itemBytes (counts.drop i) := by
  induction i generalizing counts with
  | zero => simp
  | succ i ih =>
    cases counts with
    | nil => simp [itemBytes]
    | cons count counts =>
      show (toLeBytes count ++ itemBytes counts).drop _ = _
      rw [Nat.succ_mul, Nat.add_comm, ← List.drop_drop, List.drop_left' length_toLeBytes, ih,
        List.drop_succ_cons]

theorem item_itemBytes {i : Nat} (hc : ∀ count ∈ counts, count < u16Modulus)
    (hi : i < counts.length) : MultiBatchDecoder.item (itemBytes counts) i = counts[i] := by
  unfold MultiBatchDecoder.item
  rw [drop_itemBytes, List.drop_eq_getElem_cons hi]
  show readU16 ((toLeBytes counts[i] ++ itemBytes (counts.drop (i + 1))).take trailerItemSize) = _
  rw [List.take_left' length_toLeBytes, readU16_toLeBytes (hc _ (List.getElem_mem hi))]

-- Every list of pairs of bytes is that of some counts.
theorem exists_itemBytes {n : Nat} {bytes : List Byte} (h : bytes.length = n * trailerItemSize) :
    ∃ counts, bytes = itemBytes counts ∧ counts.length = n ∧ ∀ count ∈ counts, count < u16Modulus := by
  induction n generalizing bytes with
  | zero =>
    rw [Nat.zero_mul] at h
    exact ⟨[], List.eq_nil_of_length_eq_zero h, rfl, nofun⟩
  | succ n ih =>
    rw [Nat.succ_mul] at h
    have hdrop : (bytes.drop trailerItemSize).length = n * trailerItemSize := by
      rw [List.length_drop]
      omega
    have htake : (bytes.take trailerItemSize).length = trailerItemSize :=
      List.length_take_of_le (by omega)
    have ⟨counts, hb, hl, hc⟩ := ih hdrop
    have hle := toLeBytes_readU16 htake
    refine ⟨readU16 (bytes.take trailerItemSize) :: counts, ?_, by rw [List.length_cons, hl], ?_⟩
    · show bytes = toLeBytes _ ++ itemBytes counts
      rw [hle, ← hb, List.take_append_drop]
    · intro count hm
      cases hm with
      | head => exact readU16_lt
      | tail _ hm => exact hc count hm

def elementCounts (elementSize : Nat) (batches : List (List Byte)) : List Nat :=
  batches.map fun batch => batch.length / elementSize

-- What batches are encoded to.
def layout (elementSize : Nat) (batches : List (List Byte)) : List Byte :=
  batches.flatten ++ List.replicate (batches.flatten.length % trailerItemSize) byteMax ++
    List.replicate (trailerSize elementSize batches.length -
      (batches.length * trailerItemSize + postambleSize)) byteMax ++
    itemBytes (elementCounts elementSize batches).reverse ++ toLeBytes batches.length

theorem length_layout : (layout elementSize batches).length = batches.flatten.length +
    batches.flatten.length % trailerItemSize + trailerSize elementSize batches.length := by
  have hle := @le_trailerSize elementSize batches.length
  unfold layout
  simp only [List.length_append, List.length_replicate, length_itemBytes, List.length_reverse,
    length_toLeBytes, elementCounts, List.length_map]
  unfold trailerItemSize postambleSize at *
  omega

-- Batches of whole elements, of which there are not too many.
structure Regular (elementSize : Nat) (batches : List (List Byte)) : Prop where
  some : batches ≠ []
  count : batches.length ≤ batchCountMax
  whole : ∀ batch ∈ batches, batch.length % elementSize = 0
  fits : ∀ batch ∈ batches, batch.length / elementSize < u16Modulus

theorem length_flatten_eq (h : ∀ batch ∈ batches, batch.length % elementSize = 0) :
    batches.flatten.length = (elementCounts elementSize batches).sum * elementSize := by
  induction batches with
  | nil => simp [elementCounts]
  | cons batch batches ih =>
    have hb := Nat.div_add_mod' batch.length elementSize
    rw [h batch (by simp), Nat.add_zero] at hb
    show (batch ++ batches.flatten).length =
      (batch.length / elementSize + (elementCounts elementSize batches).sum) * elementSize
    rw [List.length_append, ih fun b hm => h b (by simp [hm]), Nat.add_mul, hb]

theorem Regular.elementCounts_lt (h : Regular elementSize batches) :
    ∀ count ∈ elementCounts elementSize batches, count < u16Modulus := by
  intro count hm
  obtain ⟨batch, hb, rfl⟩ := List.mem_map.mp hm
  exact h.fits batch hb

theorem sum_elementCounts_of_zero (h : elementSize = 0) : (elementCounts elementSize batches).sum = 0 := by
  unfold elementCounts
  rw [h]
  simp

end Layout

namespace MultiBatchDecoder

variable {elementSize : Nat} {body front done : List Byte} {batches : List (List Byte)}
variable {counts : List Nat}

section Parse

theorem takeSuffix_append {chunk : List Byte} : takeSuffix (front ++ (chunk ++ done)) done.length
    chunk.length = some (chunk, (chunk ++ done).length) := by
  unfold takeSuffix
  simp only [List.length_append]
  rw [if_neg (by omega), show front.length + (chunk.length + done.length) -
    (done.length + chunk.length) = front.length by omega, List.drop_left, List.take_left, Nat.add_comm]

-- What is not parsed yet either is too short or ends with the suffix.
theorem takeSuffix_cases {count : Nat} (h : body = front ++ done) :
    takeSuffix body done.length count = none ∨ ∃ front' chunk, front = front' ++ chunk ∧
      chunk.length = count ∧ takeSuffix body done.length count = some (chunk, (chunk ++ done).length) := by
  by_cases hlt : front.length < count
  · refine .inl ?_
    unfold takeSuffix
    rw [if_pos (by rw [h, List.length_append]; omega)]
  · have hlen : (front.drop (front.length - count)).length = count := by
      rw [List.length_drop]
      omega
    refine .inr ⟨front.take (front.length - count), front.drop (front.length - count),
      (List.take_append_drop _ _).symm, hlen, ?_⟩
    have happend := @takeSuffix_append (front.take (front.length - count)) done
      (front.drop (front.length - count))
    rwa [hlen, ← List.append_assoc, List.take_append_drop, ← h] at happend

theorem foldlM_counts {acc : Nat} (h : acc + counts.sum < u32Modulus) :
    counts.foldlM (fun count n => if count + n < u32Modulus then some (count + n) else none) acc =
      some (acc + counts.sum) := by
  induction counts generalizing acc with
  | nil => rfl
  | cons n counts ih =>
    rw [List.sum_cons, ← Nat.add_assoc] at h
    rw [List.foldlM_cons, if_pos (by omega), List.sum_cons, ← Nat.add_assoc, ← ih h]
    rfl

theorem eventsCountTotal_itemBytes (hc : ∀ count ∈ counts, count < u16Modulus)
    (hl : counts.length ≤ batchCountMax) :
    eventsCountTotal (itemBytes counts) = some counts.sum := by
  have hsum : counts.sum ≤ counts.length * (u16Modulus - 1) :=
    List.sum_le_card_nsmul counts _ fun count hm => Nat.le_sub_one_of_lt (hc count hm)
  have hbound : counts.sum < u32Modulus := by
    unfold batchCountMax at hl
    unfold u16Modulus at hsum
    unfold u32Modulus
    omega
  have hmap : (List.range counts.length).map (item (itemBytes counts)) = counts := by
    apply List.ext_getElem (by simp)
    intro i h₁ h₂
    rw [List.getElem_map, List.getElem_range, item_itemBytes hc]
  have hfold := @foldlM_counts counts 0 (by omega)
  rw [Nat.zero_add, ← hmap, List.foldlM_map, hmap] at hfold
  unfold eventsCountTotal
  rw [length_itemBytes, Nat.mul_div_cancel _ (by decide)]
  exact hfold

end Parse

-- What has been decoded.
def decoded (elementSize : Nat) (batches : List (List Byte)) : MultiBatchDecoder where
  payload := batches.flatten
  trailerItems := itemBytes (elementCounts elementSize batches).reverse
  payloadIndex := 0
  batchIndex := 0
  elementSize

-- The payload is limited to what a 32-bit size can express.
theorem new_layout (he : Sized elementSize) (hr : Regular elementSize batches) :
    new (layout elementSize batches) elementSize =
      .ok (if batches.flatten.length < u32Modulus then some (decoded elementSize batches) else none) := by
  have hpos := List.length_pos_of_ne_nil hr.some
  have hcount := hr.count
  have hlt : batches.length < u16Modulus := by
    unfold batchCountMax at hcount
    unfold u16Modulus
    omega
  have hread := readU16_toLeBytes hlt
  have htotal := length_flatten_eq hr.whole
  have hcounts : ∀ count ∈ (elementCounts elementSize batches).reverse, count < u16Modulus :=
    fun count hm => hr.elementCounts_lt count (List.mem_reverse.mp hm)
  have hlen : (elementCounts elementSize batches).reverse.length = batches.length := by
    simp [elementCounts]
  have hsum := eventsCountTotal_itemBytes hcounts (hlen ▸ hcount)
  rw [List.sum_reverse] at hsum
  have hle := @le_trailerSize elementSize batches.length
  have heven := @trailerSize_even elementSize batches.length he
  unfold layout
  generalize hunused : List.replicate (trailerSize elementSize batches.length -
    (batches.length * trailerItemSize + postambleSize)) byteMax = unused
  generalize hpadding : List.replicate (batches.flatten.length % trailerItemSize) byteMax = padding
  generalize hitems : itemBytes (elementCounts elementSize batches).reverse = items at hsum
  generalize hbody : batches.flatten ++ padding ++ unused ++ items ++ toLeBytes batches.length = body
  have hilen : items.length = batches.length * trailerItemSize := by
    rw [← hitems, length_itemBytes, hlen]
  have h₁ := @takeSuffix_append (batches.flatten ++ padding ++ unused ++ items) []
    (toLeBytes batches.length)
  have h₂ := @takeSuffix_append (batches.flatten ++ padding ++ unused) (toLeBytes batches.length) items
  have h₃ := @takeSuffix_append (batches.flatten ++ padding) (items ++ toLeBytes batches.length) unused
  have h₄ := @takeSuffix_append batches.flatten (unused ++ (items ++ toLeBytes batches.length)) padding
  simp only [← List.append_assoc, List.append_nil, hbody] at h₁ h₂ h₃ h₄
  have hulen : unused.length = trailerSize elementSize batches.length -
      (batches.length * trailerItemSize + postambleSize) := by rw [← hunused, List.length_replicate]
  have hplen : padding.length = batches.flatten.length % trailerItemSize := by
    rw [← hpadding, List.length_replicate]
  have hblen : body.length = batches.flatten.length + padding.length + unused.length + items.length +
      postambleSize := by
    rw [← hbody]
    simp only [List.length_append, length_toLeBytes]
    rfl
  have hfull : ∀ k, ∀ byte ∈ List.replicate k byteMax, byte = byteMax :=
    fun k byte => List.eq_of_mem_replicate
  unfold new
  rw [assert_of he, ok_bind, show takeSuffix body 0 postambleSize = _ from h₁]
  dsimp only
  rw [hread, if_neg (by omega), if_neg (by omega), trailerTotalSize_eq he hpos hcount, ok_bind,
    ← hilen, show (toLeBytes batches.length).length = _ from rfl, h₂]
  dsimp only
  have hparsed : (items ++ toLeBytes batches.length).length =
      batches.length * trailerItemSize + postambleSize := by
    rw [List.length_append, hilen]
    rfl
  rw [hparsed, assert_of hle, ok_bind, ← hulen, ← hparsed, h₃]
  dsimp only
  rw [if_neg (by rw [← hunused]; exact not_not.mpr (hfull _)), hsum]
  dsimp only
  rw [if_neg (fun hz => hz.2 (sum_elementCounts_of_zero hz.1)), ← htotal]
  by_cases hbig : u32Modulus ≤ batches.flatten.length
  · rw [if_pos hbig, if_neg (by omega)]
    rfl
  have hone : batches.flatten.length % trailerItemSize = 0 ∨ elementSize = 1 := by
    rw [htotal]
    obtain rfl | rfl | ⟨_, hmod⟩ := he.cases
    · exact .inl (Nat.zero_mod _)
    · exact .inr rfl
    · refine .inl (Nat.mod_eq_zero_of_dvd (Dvd.dvd.mul_left (Nat.dvd_of_mod_eq_zero hmod) _))
  rw [if_neg hbig, if_pos (by omega), assert_of (Nat.mod_lt _ (by decide)), ok_bind, assert_of hone,
    ok_bind, ← hplen, h₄]
  dsimp only
  rw [if_neg (by rw [← hpadding]; exact not_not.mpr (hfull _)), if_neg]
  · unfold decoded
    rw [hitems, ← hbody]
    simp only [List.append_assoc, List.take_left]
    rfl
  · rw [hblen]
    simp only [List.length_append, length_toLeBytes]
    unfold postambleSize trailerItemSize
    omega

-- A payload that is cut into batches of the given counts.
theorem exists_batches {payload : List Byte}
    (hz : elementSize = 0 → ∀ count ∈ counts, count = 0)
    (h : payload.length = counts.sum * elementSize) : ∃ batches, payload = batches.flatten ∧
      elementCounts elementSize batches = counts ∧
      ∀ batch ∈ batches, batch.length % elementSize = 0 := by
  induction counts generalizing payload with
  | nil =>
    rw [List.sum_nil, Nat.zero_mul] at h
    exact ⟨[], List.eq_nil_of_length_eq_zero h, rfl, nofun⟩
  | cons count counts ih =>
    rw [List.sum_cons, Nat.add_mul] at h
    have hlen : (payload.take (count * elementSize)).length = count * elementSize :=
      List.length_take_of_le (by omega)
    have hdrop : (payload.drop (count * elementSize)).length = counts.sum * elementSize := by
      rw [List.length_drop]
      omega
    obtain ⟨batches, hp, hc, hw⟩ := ih (fun he c hm => hz he c (by simp [hm])) hdrop
    refine ⟨payload.take (count * elementSize) :: batches, ?_, ?_, fun batch hm => ?_⟩
    · rw [List.flatten_cons, ← hp, List.take_append_drop]
    · unfold elementCounts at *
      rw [List.map_cons, hc, hlen]
      congr 1
      obtain rfl | hpos := Nat.eq_zero_or_pos elementSize
      · rw [Nat.div_zero, hz rfl count (by simp)]
      · exact Nat.mul_div_cancel _ hpos
    · cases hm with
      | head => rw [hlen, Nat.mul_mod_left]
      | tail _ hm => exact hw batch hm

theorem eq_replicate {bytes : List Byte} (h : ∀ byte ∈ bytes, byte = byteMax) :
    bytes = List.replicate bytes.length byteMax :=
  List.eq_replicate_iff.mpr ⟨rfl, h⟩

theorem new_accepts (he : Sized elementSize) :
    Meets (fun _ => False) (fun found => ∀ decoder ∈ found, ∃ batches,
      Regular elementSize batches ∧ batches.flatten.length < u32Modulus ∧
        body = layout elementSize batches ∧ decoder = decoded elementSize batches)
      (new body elementSize) := by
  unfold new
  rw [assert_of he, ok_bind]
  obtain h₁ | ⟨front₁, postamble, rfl, hpost, h₁⟩ :=
    @takeSuffix_cases body body [] postambleSize (List.append_nil _).symm
  · rw [show takeSuffix body 0 postambleSize = _ from h₁]
    exact nofun
  rw [show takeSuffix _ 0 postambleSize = _ from h₁]
  dsimp only
  have hcount := toLeBytes_readU16 hpost
  generalize readU16 postamble = batchCount at hcount
  rw [List.append_nil]
  split
  · exact nofun
  split
  · exact nofun
  next hpos hle =>
  have hle := Nat.not_lt.mp hle
  have hsize := @le_trailerSize elementSize batchCount
  rw [trailerTotalSize_eq he (by omega) hle, ok_bind]
  generalize hbody : front₁ ++ postamble = body
  obtain h₂ | ⟨front₂, items, hfront₂, hitems, h₂⟩ :=
    @takeSuffix_cases body front₁ postamble (batchCount * trailerItemSize) hbody.symm
  · rw [h₂]
    exact nofun
  rw [h₂]
  dsimp only
  have hparsed : (items ++ postamble).length = batchCount * trailerItemSize + postambleSize := by
    rw [List.length_append, hitems, hpost]
  rw [assert_of (by rw [hparsed]; exact hsize), ok_bind]
  obtain h₃ | ⟨front₃, unused, hfront₃, hunused, h₃⟩ := @takeSuffix_cases body front₂
    (items ++ postamble) (trailerSize elementSize batchCount - (items ++ postamble).length)
    (by rw [← hbody, hfront₂, List.append_assoc])
  · rw [h₃]
    exact nofun
  rw [h₃]
  dsimp only
  split
  · exact nofun
  next hfull =>
  obtain ⟨counts, hcounts, hlength, hfits⟩ := exists_itemBytes hitems
  rw [hcounts, eventsCountTotal_itemBytes hfits (hlength ▸ hle)]
  dsimp only
  split
  · exact nofun
  next hzero =>
  split
  · exact nofun
  next hbig =>
  have hone : counts.sum * elementSize % trailerItemSize = 0 ∨ elementSize = 1 := by
    obtain rfl | rfl | ⟨_, hmod⟩ := he.cases
    · exact .inl (Nat.zero_mod _)
    · exact .inr rfl
    · exact .inl (Nat.mod_eq_zero_of_dvd (Dvd.dvd.mul_left (Nat.dvd_of_mod_eq_zero hmod) _))
  rw [assert_of (Nat.mod_lt _ (by decide)), ok_bind, assert_of hone, ok_bind, ← hcounts]
  obtain h₄ | ⟨front₄, padding, hfront₄, hpadding, h₄⟩ := @takeSuffix_cases body front₃
    (unused ++ (items ++ postamble)) (counts.sum * elementSize % trailerItemSize)
    (by rw [← hbody, hfront₂, hfront₃]; simp only [List.append_assoc])
  · rw [h₄]
    exact nofun
  rw [h₄]
  dsimp only
  split
  · exact nofun
  next hfull' =>
  split
  · exact nofun
  next hpayload =>
  intro decoder hd
  obtain rfl := Option.some.inj hd
  have hfront : front₁ = front₄ ++ (padding ++ (unused ++ items)) := by
    rw [hfront₂, hfront₃, hfront₄]
    simp only [List.append_assoc]
  have hlen : front₄.length = counts.sum * elementSize := by
    have hl := congrArg List.length hbody
    rw [hfront] at hl
    simp only [List.length_append, ne_eq, not_not] at hl hpayload
    omega
  have hnone : elementSize = 0 → ∀ count ∈ counts.reverse, count = 0 := by
    intro he count hm
    have hsum : counts.sum = 0 := by_contra fun hne => hzero ⟨he, hne⟩
    have hle := List.single_le_sum (fun _ _ => Nat.zero_le _) _ (List.mem_reverse.mp hm)
    omega
  obtain ⟨batches, hflatten, hcounts', hwhole⟩ := @exists_batches elementSize counts.reverse front₄
    hnone (by rw [List.sum_reverse, hlen])
  have hblen : batches.length = batchCount := by
    have hl := congrArg List.length hcounts'
    rw [List.length_reverse, hlength] at hl
    unfold elementCounts at hl
    rwa [List.length_map] at hl
  have hregular : Regular elementSize batches := by
    refine ⟨?_, hblen ▸ hle, hwhole, fun batch hm => ?_⟩
    · exact List.ne_nil_of_length_pos (by omega)
    · refine hfits _ (List.mem_reverse.mp (hcounts' ▸ ?_))
      exact List.mem_map_of_mem hm
  refine ⟨batches, hregular, ?_, ?_, ?_⟩
  · rw [← hflatten, hlen]
    omega
  · have hpad := eq_replicate (not_not.mp hfull')
    have hun := eq_replicate (not_not.mp hfull)
    rw [hpadding] at hpad
    rw [hunused, hparsed] at hun
    unfold layout
    rw [← hflatten, hcounts', List.reverse_reverse, hblen, hlen, ← hpad, ← hun, ← hcounts, hcount,
      ← hbody, hfront]
    simp only [List.append_assoc]
  · unfold decoded
    rw [← hflatten, hcounts', List.reverse_reverse, ← hcounts, ← hlen, ← hbody, hfront]
    simp only [List.append_assoc, List.take_left]

end MultiBatchDecoder

end TigerBeetle.MultiBatch
