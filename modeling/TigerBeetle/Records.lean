import TigerBeetle.Slots

-- Records of fields at fixed offsets, which are written one after the other.
namespace Records

open LittleEndian Slots

variable {R S : Type}

structure RecordField (R : Type) where
  place : Place
  encode : R → List UInt8
  sized : ∀ record, (encode record).length = place.size

namespace RecordField

def word (offset : Nat) {width : Nat} (value : R → BitVec (8 * width)) : RecordField R where
  place := ⟨offset, width⟩
  encode := fun record => le (value record)
  sized := fun _ => length_le

def byte (offset : Nat) (value : R → UInt8) : RecordField R where
  place := ⟨offset, 1⟩
  encode := fun record => [value record]
  sized := fun _ => rfl

def array (offset : Nat) {width : Nat} (value : R → { bytes : List UInt8 // bytes.length = width }) :
    RecordField R where
  place := ⟨offset, width⟩
  encode := fun record => (value record).val
  sized := fun record => (value record).property

-- A field of a part of a record.
def of (part : S → R) (field : RecordField R) : RecordField S where
  place := field.place
  encode := fun record => field.encode (part record)
  sized := fun record => field.sized (part record)

-- The record holds what stands at the place of the field.
def Reads (field : RecordField R) (record : R) (bytes : List UInt8) : Prop :=
  field.encode record = read bytes field.place

end RecordField

def places (fields : List (RecordField R)) : List Place :=
  fields.map RecordField.place

def chunks (fields : List (RecordField R)) (record : R) : List (List UInt8) :=
  fields.map fun field => field.encode record

def write (fields : List (RecordField R)) (record : R) (bytes : List UInt8) : List UInt8 :=
  fields.foldl (fun bytes field => put bytes field.place.offset (field.encode record)) bytes

variable {fields : List (RecordField R)} {record record' : R} {bytes base : List UInt8}
variable {slots slots' : List Place} {start middle stop size offset width : Nat}

theorem Tiles.append (h : Tiles start slots middle) (h' : Tiles middle slots' stop) :
    Tiles start (slots ++ slots') stop := by
  induction slots generalizing start with
  | nil =>
    obtain rfl : start = middle := h
    exact h'
  | cons slot slots ih => exact ⟨h.1, ih h.2⟩

theorem Tiles.le (h : Tiles start slots stop) : start ≤ stop := by
  induction slots generalizing start with
  | nil => exact Nat.le_of_eq h
  | cons slot slots ih => exact Nat.le_trans (Nat.le_add_right _ _) (ih h.2)

theorem Tiles.bounds (h : Tiles start slots stop) :
    ∀ slot ∈ slots, start ≤ slot.offset ∧ slot.offset + slot.size ≤ stop := by
  induction slots generalizing start with
  | nil => nofun
  | cons slot slots ih =>
    obtain ⟨rfl, hrest⟩ := h
    refine List.forall_mem_cons.mpr ⟨⟨Nat.le_refl _, Tiles.le hrest⟩, fun other ho => ?_⟩
    have hother := ih hrest other ho
    omega

-- Slots without gaps that lie one after the other do not overlap.
theorem Tiles.apart (h : Tiles start slots stop) : slots.Pairwise Apart := by
  induction slots generalizing start with
  | nil => exact .nil
  | cons slot slots ih =>
    obtain ⟨rfl, hrest⟩ := h
    exact .cons (fun other ho => .inl (Tiles.bounds hrest other ho).1) (ih hrest)

theorem Tiles.arranged (h : Tiles 0 slots size) : Arranged slots [] slots size where
  bounds := fun slot hs => (Tiles.bounds h slot hs).2
  apart := Tiles.apart h
  free := nofun
  tiles := h
  covers := fun _ hs => .inl hs

theorem write_eq : write fields record bytes =
    putAll bytes (writes (places fields) (chunks fields record)) := by
  induction fields generalizing bytes with
  | nil => rfl
  | cons field fields ih => exact ih

theorem sized_chunks : Sized (places fields) (chunks fields record) := by
  induction fields with
  | nil => exact .nil
  | cons field fields ih => exact .cons (field.sized record) ih

theorem length_write (h : Tiles 0 (places fields) size) (hbase : base.length = size) :
    (write fields record base).length = size := by
  rw [write_eq]
  exact (Tiles.arranged h).length_putAll hbase sized_chunks

-- Every field is read from where it was written to.
theorem reads_write (h : Tiles 0 (places fields) size) (hbase : base.length = size) :
    ∀ field ∈ fields, field.Reads record (write fields record base) := by
  have hreads := (Tiles.arranged h).reads_putAll hbase (@sized_chunks _ fields record)
  rw [← write_eq] at hreads
  unfold reads places chunks at hreads
  rw [List.map_map] at hreads
  exact fun field hf => (List.map_inj_left.mp hreads field hf).symm

-- A record is written as the bytes it was read from.
theorem write_reads (h : Tiles 0 (places fields) size) (hbase : base.length = size)
    (hbytes : bytes.length = size) (hreads : ∀ field ∈ fields, field.Reads record bytes) :
    write fields record base = bytes := by
  have hchunks : chunks fields record = reads (places fields) bytes := by
    unfold chunks reads places
    rw [List.map_map]
    exact List.map_congr_left hreads
  rw [write_eq, hchunks]
  exact (Tiles.arranged h).putAll_reads hbase hbytes nofun

-- A record is decoded from where its fields are encoded, which is all of its bytes, and determined by
-- what they are encoded as.
structure Codec (fields : List (RecordField R))
    (decode : { bytes : List UInt8 // bytes.length = size } → R) : Prop where
  tiles : Tiles 0 (places fields) size
  reads : ∀ bytes, ∀ field ∈ fields, field.Reads (decode bytes) bytes.val
  ext : ∀ record record' : R, (∀ field ∈ fields, field.encode record = field.encode record') →
    record = record'

namespace Codec

variable {decode : { bytes : List UInt8 // bytes.length = size } → R} (h : Codec fields decode)

include h

def image (hbase : base.length = size) (record : R) : { bytes : List UInt8 // bytes.length = size } :=
  ⟨write fields record base, length_write h.tiles hbase⟩

theorem image_decode (hbase : base.length = size)
    {bytes : { bytes : List UInt8 // bytes.length = size }} : h.image hbase (decode bytes) = bytes :=
  Subtype.ext (write_reads h.tiles hbase bytes.property (h.reads bytes))

theorem decode_image (hbase : base.length = size) : decode (h.image hbase record) = record :=
  h.ext _ _ fun field hf =>
    (h.reads (h.image hbase record) field hf).trans (reads_write h.tiles hbase field hf).symm

end Codec

section Fields

theorem reads_word {value : R → BitVec (8 * width)} (h : offset + width ≤ bytes.length) :
    (RecordField.word offset value).Reads record bytes ↔ value record = get width bytes offset := by
  unfold RecordField.Reads
  rw [← le_inj, le_get h]
  rfl

theorem reads_byte {value : R → UInt8} (h : offset < bytes.length) :
    (RecordField.byte offset value).Reads record bytes ↔ value record = bytes.getD offset 0 := by
  have hread : read bytes ⟨offset, 1⟩ = [bytes.getD offset 0] := by
    rw [List.getD_eq_getElem _ _ h]
    refine List.ext_getElem? fun i => ?_
    rw [getElem?_read]
    cases i with
    | zero => exact List.getElem?_eq_getElem h
    | succ i => exact if_neg (Nat.not_lt_of_le (Nat.le_add_left 1 i))
  unfold RecordField.Reads RecordField.byte
  dsimp only
  rw [hread, List.cons.injEq, and_iff_left rfl]

theorem encode_word {value : R → BitVec (8 * width)} :
    (RecordField.word offset value).encode record = (RecordField.word offset value).encode record' ↔
      value record = value record' :=
  le_inj

theorem encode_byte {value : R → UInt8} :
    (RecordField.byte offset value).encode record = (RecordField.byte offset value).encode record' ↔
      value record = value record' :=
  List.singleton_inj

theorem encode_array {value : R → { bytes : List UInt8 // bytes.length = width }} :
    (RecordField.array offset value).encode record = (RecordField.array offset value).encode record' ↔
      value record = value record' :=
  Subtype.ext_iff.symm

end Fields

end Records
