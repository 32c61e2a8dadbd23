import TigerBeetle.LittleEndian

-- Records whose fields are written to their offsets and read back from there.
namespace Slots

open LittleEndian

variable {α : Type}

structure Place where
  offset : Nat
  size : Nat
  deriving DecidableEq

-- A slot ends before the other one begins.
def Apart (a b : Place) : Prop :=
  a.offset + a.size ≤ b.offset ∨ b.offset + b.size ≤ a.offset

instance (a b : Place) : Decidable (Apart a b) :=
  inferInstanceAs (Decidable (a.offset + a.size ≤ b.offset ∨ b.offset + b.size ≤ a.offset))

-- Slots that lie one after the other, without gaps.
def Tiles : Nat → List Place → Nat → Prop
  | start, [], stop => start = stop
  | start, slot :: rest, stop => slot.offset = start ∧ Tiles (start + slot.size) rest stop

instance decidableTiles : (start : Nat) → (slots : List Place) → (stop : Nat) →
    Decidable (Tiles start slots stop)
  | start, [], stop => inferInstanceAs (Decidable (start = stop))
  | start, slot :: rest, stop =>
    have := decidableTiles (start + slot.size) rest stop
    inferInstanceAs (Decidable (slot.offset = start ∧ Tiles (start + slot.size) rest stop))

def put (bytes : List α) (offset : Nat) (data : List α) : List α :=
  bytes.take offset ++ data ++ bytes.drop (offset + data.length)

def putAll (bytes : List α) (writes : List (Nat × List α)) : List α :=
  writes.foldl (fun bytes write => put bytes write.1 write.2) bytes

def read (bytes : List α) (slot : Place) : List α :=
  slice bytes slot.offset slot.size

def reads (slots : List Place) (bytes : List α) : List (List α) :=
  slots.map (read bytes)

def writes (slots : List Place) (chunks : List (List α)) : List (Nat × List α) :=
  slots.zipWith (fun slot chunk => (slot.offset, chunk)) chunks

-- Each chunk is as long as its slot.
def Sized (slots : List Place) (chunks : List (List α)) : Prop :=
  List.Forall₂ (fun slot chunk => chunk.length = slot.size) slots chunks

variable {bytes data : List α} {slot other : Place} {slots : List Place} {chunks : List (List α)}
variable {offset size i n : Nat}

theorem length_put (h : offset + data.length ≤ bytes.length) :
    (put bytes offset data).length = bytes.length := by
  unfold put
  rw [List.length_append, List.length_append, List.length_take, List.length_drop]
  omega

theorem getElem?_put (h : offset + data.length ≤ bytes.length) : (put bytes offset data)[i]? =
    if offset ≤ i ∧ i < offset + data.length then data[i - offset]? else bytes[i]? := by
  have htake : (bytes.take offset).length = offset := by
    rw [List.length_take]
    omega
  unfold put
  by_cases hbelow : i < offset
  · rw [if_neg (by omega), List.append_assoc, List.getElem?_append_left (by omega),
      List.getElem?_take_of_lt hbelow]
  · rw [List.append_assoc, List.getElem?_append_right (by omega), htake]
    by_cases hin : i < offset + data.length
    · rw [if_pos ⟨by omega, hin⟩, List.getElem?_append_left (by omega)]
    · rw [if_neg (by omega), List.getElem?_append_right (by omega), List.getElem?_drop]
      congr 1
      omega

theorem getElem?_read : (read bytes slot)[i]? =
    if i < slot.size then bytes[slot.offset + i]? else none := by
  unfold read slice
  by_cases h : i < slot.size
  · rw [if_pos h, List.getElem?_take_of_lt h, List.getElem?_drop]
  · rw [if_neg h, List.getElem?_take_eq_none (by omega)]

theorem length_read (h : slot.offset + slot.size ≤ bytes.length) :
    (read bytes slot).length = slot.size := by
  unfold read slice
  rw [List.length_take, List.length_drop]
  omega

-- What is read from the slot that was written to.
theorem read_put (h : slot.offset + slot.size ≤ bytes.length) (hdata : data.length = slot.size) :
    read (put bytes slot.offset data) slot = data := by
  refine List.ext_getElem? fun i => ?_
  rw [getElem?_read, getElem?_put (by omega)]
  by_cases hi : i < slot.size
  · rw [if_pos hi, if_pos ⟨by omega, by omega⟩, Nat.add_sub_cancel_left]
  · rw [if_neg hi, List.getElem?_eq_none (by omega)]

-- What is read from another slot.
theorem read_put_of_apart (h : slot.offset + slot.size ≤ bytes.length) (hdata : data.length = slot.size)
    (hapart : Apart slot other) : read (put bytes slot.offset data) other = read bytes other := by
  refine List.ext_getElem? fun i => ?_
  rw [getElem?_read, getElem?_read, getElem?_put (by omega)]
  unfold Apart at hapart
  by_cases hi : i < other.size
  · rw [if_pos hi, if_pos hi, if_neg (by omega)]
  · rw [if_neg hi, if_neg hi]

theorem putAll_cons : putAll bytes (writes (slot :: slots) (data :: chunks)) =
    putAll (put bytes slot.offset data) (writes slots chunks) := rfl

section

variable (hfits : Sized slots chunks)

include hfits

theorem length_putAll (hbounds : ∀ slot ∈ slots, slot.offset + slot.size ≤ bytes.length) :
    (putAll bytes (writes slots chunks)).length = bytes.length := by
  induction hfits generalizing bytes with
  | nil => rfl
  | @cons slot data slots chunks hdata _ ih =>
    obtain ⟨hslot, hslots⟩ := List.forall_mem_cons.mp hbounds
    have hlen : (put bytes slot.offset data).length = bytes.length := length_put (by omega)
    rw [putAll_cons, ih (by rw [hlen]; exact hslots), hlen]

theorem read_putAll_of_apart (hbounds : ∀ slot ∈ slots, slot.offset + slot.size ≤ bytes.length)
    (hapart : ∀ slot ∈ slots, Apart slot other) :
    read (putAll bytes (writes slots chunks)) other = read bytes other := by
  induction hfits generalizing bytes with
  | nil => rfl
  | @cons slot data slots chunks hdata _ ih =>
    obtain ⟨hslot, hslots⟩ := List.forall_mem_cons.mp hbounds
    obtain ⟨hfirst, hrest⟩ := List.forall_mem_cons.mp hapart
    have hlen : (put bytes slot.offset data).length = bytes.length := length_put (by omega)
    rw [putAll_cons, ih (by rw [hlen]; exact hslots) hrest, read_put_of_apart hslot hdata hfirst]

-- All chunks are read back if the slots are apart.
theorem reads_putAll
    (hbounds : ∀ slot ∈ slots, slot.offset + slot.size ≤ bytes.length) (hapart : slots.Pairwise Apart) :
    reads slots (putAll bytes (writes slots chunks)) = chunks := by
  induction hfits generalizing bytes with
  | nil => rfl
  | @cons slot data slots chunks hdata hfits ih =>
    obtain ⟨hslot, hslots⟩ := List.forall_mem_cons.mp hbounds
    obtain ⟨hfirst, hrest⟩ := List.pairwise_cons.mp hapart
    have hlen : (put bytes slot.offset data).length = bytes.length := length_put (by omega)
    have hslots' : ∀ other ∈ slots, other.offset + other.size ≤ (put bytes slot.offset data).length := by
      rw [hlen]
      exact hslots
    have happart : ∀ other ∈ slots, Apart other slot := fun other ho => (hfirst other ho).symm
    have hread := read_putAll_of_apart hfits hslots' happart
    rw [read_put hslot hdata] at hread
    unfold reads at ih ⊢
    rw [putAll_cons, List.map_cons, hread, ih hslots' hrest]

-- Where two records agree they still do after the same writes.
theorem getElem?_putAll_congr {other : List α}
    (hlength : other.length = bytes.length)
    (hbounds : ∀ slot ∈ slots, slot.offset + slot.size ≤ bytes.length) (h : bytes[i]? = other[i]?) :
    (putAll bytes (writes slots chunks))[i]? = (putAll other (writes slots chunks))[i]? := by
  induction hfits generalizing bytes other with
  | nil => exact h
  | @cons slot data slots chunks hdata _ ih =>
    obtain ⟨hslot, hslots⟩ := List.forall_mem_cons.mp hbounds
    have hlen : (put bytes slot.offset data).length = bytes.length := length_put (by omega)
    have hlen' : (put other slot.offset data).length = other.length := length_put (by omega)
    rw [putAll_cons, putAll_cons]
    refine ih (hlen'.trans (hlength.trans hlen.symm)) (by rw [hlen]; exact hslots) ?_
    rw [getElem?_put (by omega), getElem?_put (by omega), h]

end

-- A slot in which two records agree.
theorem agree_of_read {other : List α} (h : read bytes slot = read other slot) (hle : slot.offset ≤ i)
    (hlt : i < slot.offset + slot.size) : bytes[i]? = other[i]? := by
  have hget : (read bytes slot)[i - slot.offset]? = (read other slot)[i - slot.offset]? := by rw [h]
  rw [getElem?_read, getElem?_read, if_pos (by omega), if_pos (by omega), Nat.add_sub_cancel' hle] at hget
  exact hget

-- What is written back to where it was read from replaces everything in which two records differ.
theorem putAll_reads {base : List α} (hbase : base.length = bytes.length)
    (hbounds : ∀ slot ∈ slots, slot.offset + slot.size ≤ bytes.length)
    (hcover : ∀ i < bytes.length, (∃ slot ∈ slots, slot.offset ≤ i ∧ i < slot.offset + slot.size) ∨
      base[i]? = bytes[i]?) :
    putAll base (writes slots (reads slots bytes)) = bytes := by
  induction slots generalizing base with
  | nil =>
    have hnil : putAll base (writes [] (reads [] bytes)) = base := rfl
    rw [hnil]
    refine List.ext_getElem? fun i => ?_
    by_cases hi : i < bytes.length
    · obtain ⟨_, hm, _⟩ | hsame := hcover i hi
      · cases hm
      · exact hsame
    · exact (List.getElem?_eq_none (by omega)).trans (List.getElem?_eq_none (by omega)).symm
  | cons slot slots ih =>
    obtain ⟨hslot, hslots⟩ := List.forall_mem_cons.mp hbounds
    have hread : (read bytes slot).length = slot.size := length_read hslot
    have hroom : slot.offset + (read bytes slot).length ≤ base.length := by omega
    refine ih (length_put hroom |>.trans hbase) hslots fun i hi => ?_
    rw [getElem?_put hroom, hread]
    by_cases hin : slot.offset ≤ i ∧ i < slot.offset + slot.size
    · rw [if_pos hin, getElem?_read, if_pos (by omega), Nat.add_sub_cancel' hin.1]
      exact .inr rfl
    · rw [if_neg hin]
      refine (hcover i hi).imp_left ?_
      rintro ⟨other, ho, hle⟩
      obtain rfl | ho := List.mem_cons.mp ho
      · exact absurd hle hin
      · exact ⟨other, ho, hle⟩

theorem Tiles.cover {start stop : Nat} (h : Tiles start slots stop) (hle : start ≤ i) (hlt : i < stop) :
    ∃ slot ∈ slots, slot.offset ≤ i ∧ i < slot.offset + slot.size := by
  induction slots generalizing start with
  | nil =>
    have heq : start = stop := h
    omega
  | cons slot slots ih =>
    obtain ⟨rfl, hrest⟩ := h
    by_cases hin : i < slot.offset + slot.size
    · exact ⟨slot, List.mem_cons_self, hle, hin⟩
    · obtain ⟨other, ho, hother⟩ := ih hrest (Nat.le_of_not_lt hin)
      exact ⟨other, List.mem_cons_of_mem _ ho, hother⟩

-- Slots of a record of a size that are apart from each other and from the gaps between them, where the
-- layout consists of both.
structure Arranged (slots gaps layout : List Place) (size : Nat) : Prop where
  bounds : ∀ slot ∈ slots, slot.offset + slot.size ≤ size
  apart : slots.Pairwise Apart
  free : ∀ gap ∈ gaps, gap.offset + gap.size ≤ size ∧ ∀ slot ∈ slots, Apart slot gap
  tiles : Tiles 0 layout size
  covers : ∀ slot ∈ layout, slot ∈ slots ∨ slot ∈ gaps

instance {slots gaps layout : List Place} {size : Nat} : Decidable (Arranged slots gaps layout size) :=
  decidable_of_iff ((∀ slot ∈ slots, slot.offset + slot.size ≤ size) ∧ slots.Pairwise Apart ∧
      (∀ gap ∈ gaps, gap.offset + gap.size ≤ size ∧ ∀ slot ∈ slots, Apart slot gap) ∧
      Tiles 0 layout size ∧ ∀ slot ∈ layout, slot ∈ slots ∨ slot ∈ gaps)
    ⟨fun ⟨hbounds, hapart, hgaps, htiles, hlayout⟩ => ⟨hbounds, hapart, hgaps, htiles, hlayout⟩,
      fun h => ⟨h.bounds, h.apart, h.free, h.tiles, h.covers⟩⟩

namespace Arranged

variable {gaps layout : List Place} {base : List α} {gap : Place} (h : Arranged slots gaps layout size)

include h

section

variable (hbase : base.length = size)

include hbase

theorem length_putAll (hfits : Sized slots chunks) :
    (putAll base (writes slots chunks)).length = size :=
  (Slots.length_putAll hfits (hbase ▸ h.bounds)).trans hbase

theorem reads_putAll (hfits : Sized slots chunks) :
    reads slots (putAll base (writes slots chunks)) = chunks :=
  Slots.reads_putAll hfits (hbase ▸ h.bounds) h.apart

theorem read_gap (hfits : Sized slots chunks) (hg : gap ∈ gaps) :
    read (putAll base (writes slots chunks)) gap = read base gap :=
  read_putAll_of_apart hfits (hbase ▸ h.bounds) (h.free gap hg).2

-- A record is written as it was read if the gaps are as they were.
theorem putAll_reads (hbytes : bytes.length = size)
    (hgaps : ∀ gap ∈ gaps, read base gap = read bytes gap) :
    putAll base (writes slots (reads slots bytes)) = bytes := by
  subst hbytes
  refine Slots.putAll_reads hbase h.bounds fun i hi => ?_
  obtain ⟨slot, hm, hle, hlt⟩ := h.tiles.cover (Nat.zero_le i) hi
  obtain hm | hm := h.covers slot hm
  · exact .inl ⟨slot, hm, hle, hlt⟩
  · exact .inr (agree_of_read (hgaps slot hm) hle hlt)

end

end Arranged

section Words

theorem ofBytes_lt {bytes : List UInt8} : ofBytes bytes < 256 ^ bytes.length := by
  induction bytes with
  | nil => exact Nat.one_pos
  | cons byte bytes ih =>
    have hbyte := byte.toNat_lt
    rw [ofBytes, List.length_cons, Nat.pow_succ]
    omega

theorem toBytes_ofBytes {bytes : List UInt8} : toBytes bytes.length (ofBytes bytes) = bytes := by
  induction bytes with
  | nil => rfl
  | cons byte bytes ih =>
    have hbyte := byte.toNat_lt
    have hmod : UInt8.ofNat (byte.toNat + 256 * ofBytes bytes) = byte := by
      refine UInt8.toNat_inj.mp ?_
      rw [UInt8.toNat_ofNat']
      omega
    have hdiv : (byte.toNat + 256 * ofBytes bytes) / 256 = ofBytes bytes := by omega
    rw [List.length_cons, toBytes, ofBytes, hmod, hdiv, ih]

-- The bytes of a word, the least significant one first.
def le {size : Nat} (word : BitVec (8 * size)) : List UInt8 :=
  toBytes size word.toNat

def get (size : Nat) (bytes : List UInt8) (offset : Nat) : BitVec (8 * size) :=
  BitVec.ofNat (8 * size) (ofBytes (slice bytes offset size))

@[simp]
theorem length_le {size : Nat} {word : BitVec (8 * size)} : (le word).length = size :=
  length_toBytes

theorem le_inj {size : Nat} {word word' : BitVec (8 * size)} : le word = le word' ↔ word = word' := by
  refine ⟨fun h => ?_, congrArg le⟩
  rw [← @ofNat_ofBytes _ word, ← @ofNat_ofBytes _ word']
  exact congrArg (fun bytes => BitVec.ofNat (8 * size) (ofBytes bytes)) h

theorem le_get {size : Nat} {bytes : List UInt8} {offset : Nat} (h : offset + size ≤ bytes.length) :
    le (get size bytes offset) = read bytes ⟨offset, size⟩ := by
  have hlen : (slice bytes offset size).length = size := @length_read _ bytes ⟨offset, size⟩ h
  have hlt := @ofBytes_lt (slice bytes offset size)
  have hpow : 256 ^ size = 2 ^ (8 * size) := by rw [Nat.pow_mul]
  rw [hlen, hpow] at hlt
  have hbytes := @toBytes_ofBytes (slice bytes offset size)
  rw [hlen] at hbytes
  unfold le get
  rw [BitVec.toNat_ofNat, Nat.mod_eq_of_lt hlt]
  exact hbytes

end Words

end Slots
