import TigerBeetle.EventWire
import TigerBeetle.Theorems.MessageHeaderWire

-- Batches of events are read as they were written.
namespace TigerBeetle.Wire

open Fallible LittleEndian Slots Superblock Records

theorem Account.codec : Codec Account.fields Account.decode where
  tiles := by decide
  reads := fun record => by
    simp (disch := decide) only [fields, List.forall_mem_cons, reads_get]
    exact ⟨rfl, rfl, rfl, rfl, rfl, rfl, rfl, rfl, rfl, rfl, rfl, rfl, rfl,
      fun _ h => absurd h List.not_mem_nil⟩
  ext := fun event event' h => by
    simp only [fields, List.forall_mem_cons, encode_word] at h
    obtain ⟨_, _, _, _, _, _, _, _, _, _, _, ⟨_⟩, _⟩ := event
    obtain ⟨_, _, _, _, _, _, _, _, _, _, _, ⟨_⟩, _⟩ := event'
    simp_all

theorem Transfer.codec : Codec Transfer.fields Transfer.decode where
  tiles := by decide
  reads := fun record => by
    simp (disch := decide) only [fields, List.forall_mem_cons, reads_get]
    exact ⟨rfl, rfl, rfl, rfl, rfl, rfl, rfl, rfl, rfl, rfl, rfl, rfl, rfl,
      fun _ h => absurd h List.not_mem_nil⟩
  ext := fun event event' h => by
    simp only [fields, List.forall_mem_cons, encode_word] at h
    obtain ⟨_, _, _, _, _, _, _, _, _, _, _, ⟨_⟩, _⟩ := event
    obtain ⟨_, _, _, _, _, _, _, _, _, _, _, ⟨_⟩, _⟩ := event'
    simp_all

section Chunks

variable {size count : Nat} {bytes : List UInt8}

theorem asChunks_succ (h : size ≤ bytes.length) : asChunks size (count + 1) bytes =
    (⟨bytes.take size, by rw [List.length_take, Nat.min_eq_left h]⟩ ::
      (asChunks size count (bytes.drop size)).1, (asChunks size count (bytes.drop size)).2) := by
  rw [asChunks]
  exact dif_pos h

-- The chunks are the bytes in order, of which nothing remains.
theorem asChunks_spec (h : bytes.length = count * size) :
    (asChunks size count bytes).1.length = count ∧
      (asChunks size count bytes).1.flatMap Subtype.val = bytes ∧
      (asChunks size count bytes).2 = [] := by
  induction count generalizing bytes with
  | zero =>
    obtain rfl := List.eq_nil_of_length_eq_zero (h.trans (Nat.zero_mul size))
    exact ⟨rfl, rfl, rfl⟩
  | succ count ih =>
    rw [Nat.succ_mul] at h
    have hdrop : (bytes.drop size).length = count * size := by
      rw [List.length_drop]
      omega
    obtain ⟨hlength, hbytes, hremainder⟩ := ih hdrop
    rw [asChunks_succ (by omega)]
    dsimp only
    rw [List.length_cons, hlength, List.flatMap_cons, hbytes, List.take_append_drop]
    exact ⟨rfl, rfl, hremainder⟩

theorem asChunks_flatMap {records : List (Bytes size)} :
    asChunks size records.length (records.flatMap Subtype.val) = (records, []) := by
  induction records with
  | nil => rfl
  | cons record records ih =>
    have hdrop : (record.val ++ records.flatMap Subtype.val).drop size = records.flatMap Subtype.val :=
      List.drop_left' record.property
    have htake : (record.val ++ records.flatMap Subtype.val).take size = record.val :=
      List.take_left' record.property
    rw [List.length_cons, List.flatMap_cons, asChunks_succ (by
      rw [List.length_append, record.property]
      omega)]
    simp only [hdrop, htake, ih]

end Chunks

section Batches

variable {E : Type} {fields : List (RecordField E)} {decode : Bytes eventSize → E} {event : E}
variable {events : List E} {bytes : List UInt8} {record : Bytes eventSize}

-- The bytes of one event.
def image (h : Codec fields decode) (event : E) : Bytes eventSize :=
  h.image length_zeros event

theorem batchToBytes_eq (h : Codec fields decode) :
    batchToBytes fields events = (events.map (image h)).flatMap Subtype.val := by
  rw [List.flatMap_map]
  rfl

theorem length_batchToBytes (h : Codec fields decode) :
    (batchToBytes fields events).length = events.length * eventSize :=
  length_flatMap fun _ => length_write h.tiles length_zeros

theorem bytesToBatch_of (h : bytes.length % eventSize = 0) : bytesToBatch decode bytes =
    .ok (some ((asChunks eventSize (bytes.length / eventSize) bytes).1.map decode)) := by
  have hcount : bytes.length = bytes.length / eventSize * eventSize := by
    unfold eventSize at *
    omega
  unfold bytesToBatch
  rw [if_neg (not_not.mpr h)]
  dsimp only
  rw [assert_of (asChunks_spec hcount).2.2]
  rfl

-- The codec of batches is a bijection of the lists of events with the bytes of whole records.
structure Bijective (toBytes : List E → List UInt8) (toBatch : List UInt8 → Result (Option (List E)))
    (decode : Bytes eventSize → E) : Prop where
  refuses : ∀ bytes, bytes.length % eventSize ≠ 0 → toBatch bytes = .ok none
  decodes : ∀ bytes, bytes.length % eventSize = 0 → ∃ records : List (Bytes eventSize),
    records.length = bytes.length / eventSize ∧ records.flatMap Subtype.val = bytes ∧
      toBatch bytes = .ok (some (records.map decode)) ∧ toBytes (records.map decode) = bytes
  encodes : ∀ events, toBatch (toBytes events) = .ok (some events)

theorem bijective_of (h : Codec fields decode) :
    Bijective (batchToBytes fields) (bytesToBatch decode) decode where
  refuses := fun bytes hlength => if_pos hlength
  decodes := fun bytes hlength => by
    have hcount : bytes.length = bytes.length / eventSize * eventSize := by
      unfold eventSize at *
      omega
    obtain ⟨hrecords, hbytes, _⟩ := asChunks_spec hcount
    refine ⟨_, hrecords, hbytes, bytesToBatch_of hlength, ?_⟩
    have himage : image h ∘ decode = id := funext fun record => h.image_decode length_zeros
    rw [batchToBytes_eq h, List.map_map, himage, List.map_id, hbytes]
  encodes := fun events => by
    have hlength := @length_batchToBytes _ _ _ events h
    have hdecode : decode ∘ image h = id := funext fun event => h.decode_image length_zeros
    have hcount : (batchToBytes fields events).length / eventSize = (events.map (image h)).length := by
      rw [hlength, List.length_map, Nat.mul_div_cancel _ (by decide)]
    rw [bytesToBatch_of (by rw [hlength, Nat.mul_mod_left]), hcount, batchToBytes_eq h, asChunks_flatMap,
      List.map_map, hdecode, List.map_id]

end Batches

theorem events_bijective :
    Bijective accountBatchToBytes bytesToAccountBatch Account.decode ∧
      Bijective transferBatchToBytes bytesToTransferBatch Transfer.decode :=
  ⟨bijective_of Account.codec, bijective_of Transfer.codec⟩

end TigerBeetle.Wire
