import TigerBeetle.SuperblockWire

-- Superblocks are read as they were written.
namespace TigerBeetle.Wire

open Fallible LittleEndian Slots Superblock

section Blanks

variable {size offset count : Nat} {bytes : Bytes size} {slot : Place}

-- A slot that holds nothing.
def Blank (bytes : List UInt8) (slot : Place) : Prop :=
  read bytes slot = zeros slot.size

theorem length_zeros : (zeros size).length = size :=
  List.length_replicate

theorem blank_zeros (h : slot.offset + slot.size ≤ size) : Blank (zeros size) slot := by
  unfold Blank Slots.read slice zeros
  rw [List.drop_replicate, List.take_replicate]
  congr 1
  omega

theorem zeroed_iff {list : List UInt8} : zeroed list = true ↔ list = zeros list.length := by
  unfold zeroed zeros
  rw [List.all_eq_true, List.eq_replicate_iff]
  exact ⟨fun h => ⟨rfl, fun byte hb => of_decide_eq_true (h byte hb)⟩,
    fun h byte hb => decide_eq_true (h.2 byte hb)⟩

theorem zeroed_slice (h : offset + count ≤ size) :
    zeroed (slice bytes.val offset count) = true ↔ Blank bytes.val ⟨offset, count⟩ := by
  rw [zeroed_iff, length_slice h]
  rfl

theorem zeroed_drop (h : offset ≤ size) :
    zeroed (bytes.val.drop offset) = true ↔ Blank bytes.val ⟨offset, size - offset⟩ := by
  have hall : slice bytes.val offset (size - offset) = bytes.val.drop offset := by
    refine List.take_of_length_le ?_
    rw [List.length_drop, bytes.property]
  rw [← hall]
  exact zeroed_slice (by omega)

theorem le_zero : le (0 : BitVec (8 * count)) = zeros count := by
  have hzero : ∀ count, toBytes count 0 = zeros count := fun count => by
    induction count with
    | zero => rfl
    | succ count ih => exact congrArg (List.cons 0) ih
  unfold le
  rw [show (0 : BitVec (8 * count)).toNat = 0 by simp]
  exact hzero count

theorem get_zero (h : offset + count ≤ size) :
    get count bytes.val offset = 0 ↔ Blank bytes.val ⟨offset, count⟩ := by
  rw [← le_inj, le_zero, le_get (by rw [bytes.property]; exact h)]
  rfl

theorem getBytes_eq {chunk : List UInt8} (h : Slots.read bytes.val ⟨offset, count⟩ = chunk)
    (hlength : chunk.length = count) (hle : offset + count ≤ size) :
    getBytes bytes offset count hle = ⟨chunk, hlength⟩ :=
  Subtype.ext h

theorem forM_assert {p : Nat → Prop} [DecidablePred p] {message : String} {offsets : List Nat}
    (h : ∀ offset ∈ offsets, p offset) :
    (offsets.forM fun offset => assert (p offset) message) = .ok () := by
  induction offsets with
  | nil => rfl
  | cons offset offsets ih =>
    obtain ⟨hfirst, hrest⟩ := List.forall_mem_cons.mp h
    rw [List.forM_eq_forM, List.forM_cons, assert_of hfirst, ok_bind, ← List.forM_eq_forM]
    exact ih hrest

theorem fits_of_lengths {slots : List Place} {chunks : List (List UInt8)}
    (h : chunks.map List.length = slots.map Place.size) : Sized slots chunks := by
  induction slots generalizing chunks with
  | nil =>
    obtain rfl := List.map_eq_nil_iff.mp h
    exact .nil
  | cons slot slots ih =>
    cases chunks with
    | nil => cases h
    | cons chunk chunks =>
      obtain ⟨hfirst, hrest⟩ := List.cons.inj h
      exact .cons hfirst (ih hrest)

end Blanks

namespace Prepare

variable {header header' : Prepare} {bytes : Bytes headerSize}

def slots : List Place := [
  ⟨0, 16⟩, ⟨16, 16⟩, ⟨32, 16⟩, ⟨48, 16⟩, ⟨64, 16⟩, ⟨80, 16⟩, ⟨96, 4⟩, ⟨100, 4⟩, ⟨104, 4⟩, ⟨108, 4⟩,
  ⟨112, 2⟩, ⟨114, 1⟩, ⟨115, 1⟩, ⟨116, 12⟩, ⟨128, 16⟩, ⟨144, 16⟩, ⟨160, 16⟩, ⟨176, 16⟩, ⟨192, 16⟩,
  ⟨208, 16⟩, ⟨224, 8⟩, ⟨232, 8⟩, ⟨240, 8⟩, ⟨248, 4⟩, ⟨252, 1⟩, ⟨253, 3⟩]

def chunks (header : Prepare) : List (List UInt8) := [
  le header.checksum, le header.checksumPadding, le header.checksumBody,
  le header.checksumBodyPadding, le header.nonceReserved, le header.cluster, le header.size,
  le header.epoch, le header.view, le header.release, le header.protocol, [header.command.code],
  le header.replica, header.reservedFrame.val, le header.parent, le header.parentPadding,
  le header.requestChecksum, le header.requestChecksumPadding, le header.checkpointId,
  le header.client, le header.op, le header.commit, le header.timestamp, le header.request,
  le header.operation, header.reserved.val]

theorem toWire_eq : header.toWire = putAll (zeros headerSize) (writes slots header.chunks) := rfl

theorem fits_chunks : Sized slots header.chunks := by
  refine fits_of_lengths ?_
  unfold chunks
  simp only [List.map_cons, List.map_nil, length_le, header.reservedFrame.property,
    header.reserved.property]
  rfl

theorem arranged : Arranged slots [] slots headerSize := by
  decide

theorem length_toWire : header.toWire.length = headerSize := by
  rw [toWire_eq]
  exact arranged.length_putAll length_zeros fits_chunks

theorem reads_toWire : reads slots header.toWire = header.chunks := by
  rw [toWire_eq]
  exact arranged.reads_putAll length_zeros fits_chunks

theorem code_inj {command command' : Command} : command.code = command'.code ↔ command = command' := by
  refine ⟨?_, congrArg Command.code⟩
  cases command <;> cases command' <;> decide

theorem chunks_injective (h : header.chunks = header'.chunks) : header = header' := by
  unfold chunks at h
  simp only [List.cons.injEq, le_inj, code_inj, and_true, Subtype.val_inj] at h
  exact Prepare.ext_iff.mpr h

theorem toWire_injective (h : header.toWire = header'.toWire) : header = header' :=
  chunks_injective (by rw [← reads_toWire, ← reads_toWire, h])

theorem chunks_decode (h : bytes.val.getD 114 0 = Command.prepare.code) :
    (decode bytes).chunks = reads slots bytes.val := by
  have hcommand : [Command.prepare.code] = read bytes.val ⟨114, 1⟩ := by
    have hlt : 114 < bytes.val.length := by rw [bytes.property]; decide
    rw [← h, List.getD_eq_getElem _ _ hlt]
    refine List.ext_getElem? fun i => ?_
    rw [getElem?_read]
    cases i with
    | zero => exact (List.getElem?_eq_getElem hlt).symm
    | succ i => exact (if_neg (Nat.not_lt_of_le (Nat.le_add_left 1 i))).symm
  have hget : ∀ {count offset : Nat}, offset + count ≤ headerSize →
      le (get count bytes.val offset) = read bytes.val ⟨offset, count⟩ := fun hle =>
    le_get (by rw [bytes.property]; exact hle)
  unfold chunks decode reads slots
  simp only [List.map_cons, List.map_nil]
  rw [hcommand]
  repeat rw [hget (by decide)]
  rfl

theorem toWire_decode (h : bytes.val.getD 114 0 = Command.prepare.code) :
    (decode bytes).toWire = bytes.val := by
  rw [toWire_eq, chunks_decode h]
  exact arranged.putAll_reads length_zeros bytes.property nofun

set_option maxRecDepth 8000 in
theorem zeroed_toWire : headerPrepareZeroed.toWire = zeros headerSize := by
  decide

-- What is decoded in a checkpoint.
def Decodable (bytes : Bytes headerSize) : Prop :=
  bytes.val.getD 114 0 = Command.prepare.code ∨ bytes.val = zeros headerSize

theorem toWire_getD (h : Decodable bytes) :
    ((fromWire bytes).getD headerPrepareZeroed).toWire = bytes.val := by
  unfold fromWire
  obtain hcode | hzeros := h
  · rw [if_neg (not_not.mpr hcode)]
    exact toWire_decode hcode
  · have hcode : bytes.val.getD 114 0 ≠ Command.prepare.code := by
      rw [hzeros]
      decide
    rw [if_pos hcode, hzeros]
    exact zeroed_toWire

-- The header of a checkpoint: that of a prepare, or none.
def Built (header : Prepare) : Prop :=
  header.command = .prepare ∨ header = headerPrepareZeroed

theorem decodable_toWire (h : Built header) : Decodable ⟨header.toWire, length_toWire⟩ := by
  obtain hcommand | rfl := h
  · refine .inl ?_
    have hreads := @reads_toWire header
    unfold reads slots chunks at hreads
    simp only [List.map_cons, List.map_nil, List.cons.injEq] at hreads
    obtain ⟨_, _, _, _, _, _, _, _, _, _, _, hcode, _⟩ := hreads
    have hget : (Slots.read header.toWire ⟨114, 1⟩)[0]? = header.toWire[114]? :=
      getElem?_read.trans (if_pos Nat.one_pos)
    rw [hcode, hcommand] at hget
    dsimp only
    rw [List.getD_eq_getElem?_getD, ← hget]
    rfl
  · exact .inr zeroed_toWire

end Prepare

namespace CheckpointState

variable {state state' : CheckpointState} {bytes : Bytes checkpointStateSize}

def slots : List Place := [
  ⟨offsetHeader, headerSize⟩, ⟨256, 16⟩, ⟨272, 16⟩, ⟨288, 16⟩, ⟨304, 16⟩, ⟨320, 16⟩, ⟨336, 16⟩,
  ⟨352, 16⟩, ⟨368, 16⟩, ⟨384, 16⟩, ⟨400, 16⟩, ⟨416, 16⟩, ⟨432, 16⟩, ⟨448, 16⟩, ⟨464, 16⟩,
  ⟨480, 16⟩, ⟨496, 16⟩, ⟨512, 16⟩, ⟨528, 8⟩, ⟨536, 8⟩, ⟨544, 8⟩, ⟨552, 8⟩, ⟨560, 8⟩, ⟨568, 8⟩,
  ⟨576, 8⟩, ⟨584, 8⟩, ⟨592, 8⟩, ⟨600, 8⟩, ⟨608, 4⟩, ⟨612, 4⟩]

def chunks (state : CheckpointState) : List (List UInt8) := [
  state.header.toWire, le state.freeSetBlocksAcquiredLastBlockChecksum,
  le state.freeSetBlocksAcquiredLastBlockChecksumPadding,
  le state.freeSetBlocksReleasedLastBlockChecksum,
  le state.freeSetBlocksReleasedLastBlockChecksumPadding, le state.clientSessionsLastBlockChecksum,
  le state.clientSessionsLastBlockChecksumPadding, le state.manifestOldestChecksum,
  le state.manifestOldestChecksumPadding, le state.manifestNewestChecksum,
  le state.manifestNewestChecksumPadding, le state.snapshotsBlockChecksum,
  le state.snapshotsBlockChecksumPadding, le state.freeSetBlocksAcquiredChecksum,
  le state.freeSetBlocksReleasedChecksum, le state.clientSessionsChecksum,
  le state.parentCheckpointId, le state.grandparentCheckpointId,
  le state.freeSetBlocksAcquiredLastBlockAddress, le state.freeSetBlocksReleasedLastBlockAddress,
  le state.clientSessionsLastBlockAddress, le state.manifestOldestAddress,
  le state.manifestNewestAddress, le state.snapshotsBlockAddress, le state.storageSize,
  le state.freeSetBlocksAcquiredSize, le state.freeSetBlocksReleasedSize,
  le state.clientSessionsSize, le state.manifestBlockCount, le state.release]

def gap : Place := ⟨616, 408⟩

def paddings : List Nat := [272, 304, 336, 368, 400, 432]

theorem toWire_eq : state.toWire = putAll (zeros checkpointStateSize) (writes slots state.chunks) := rfl

theorem fits_chunks : Sized slots state.chunks := by
  refine fits_of_lengths ?_
  unfold chunks
  simp only [List.map_cons, List.map_nil, length_le, Prepare.length_toWire]
  rfl

theorem arranged : Arranged slots [gap] (slots ++ [gap]) checkpointStateSize := by
  decide

theorem length_toWire : state.toWire.length = checkpointStateSize := by
  rw [toWire_eq]
  exact arranged.length_putAll length_zeros fits_chunks

theorem reads_toWire : reads slots state.toWire = state.chunks := by
  rw [toWire_eq]
  exact arranged.reads_putAll length_zeros fits_chunks

theorem blank_toWire : Blank state.toWire gap := by
  rw [toWire_eq]
  exact (arranged.read_gap length_zeros fits_chunks List.mem_cons_self).trans (blank_zeros (by decide))

theorem chunks_injective (h : state.chunks = state'.chunks) : state = state' := by
  unfold chunks at h
  simp only [List.cons.injEq, le_inj, and_true] at h
  exact CheckpointState.ext_iff.mpr ⟨Prepare.toWire_injective h.1, h.2⟩

theorem toWire_injective (h : state.toWire = state'.toWire) : state = state' :=
  chunks_injective (by rw [← reads_toWire, ← reads_toWire, h])

-- The bytes that a checkpoint is encoded as.
structure Valid (bytes : Bytes checkpointStateSize) : Prop where
  header : Prepare.Decodable (getBytes bytes offsetHeader headerSize (by decide))
  paddings : ∀ offset ∈ paddings, Blank bytes.val ⟨offset, 16⟩
  reserved : Blank bytes.val gap

theorem fromWire_of (h : Valid bytes) : fromWire bytes = .ok (decode bytes) := by
  have hreserved : zeroed (bytes.val.drop offsetReserved) = true :=
    (zeroed_drop (by decide)).mpr h.reserved
  have hpaddings : ∀ offset ∈ paddings, get 16 bytes.val offset = 0 := fun offset ho => by
    have hle : ∀ offset ∈ paddings, offset + 16 ≤ checkpointStateSize := by decide
    exact (get_zero (hle offset ho)).mpr (h.paddings offset ho)
  unfold fromWire
  rw [assert_of hreserved, ok_bind]
  exact congrArg (fun result => result >>= fun _ => Except.ok (decode bytes)) (forM_assert hpaddings)

theorem chunks_decode (h : Valid bytes) : (decode bytes).chunks = reads slots bytes.val := by
  have hheader := Prepare.toWire_getD h.header
  have hget : ∀ {count offset : Nat}, offset + count ≤ checkpointStateSize →
      le (get count bytes.val offset) = Slots.read bytes.val ⟨offset, count⟩ := fun hle =>
    le_get (by rw [bytes.property]; exact hle)
  unfold chunks decode reads slots
  simp only [List.map_cons, List.map_nil]
  rw [hheader]
  repeat rw [hget (by decide)]
  rfl

theorem toWire_decode (h : Valid bytes) : (decode bytes).toWire = bytes.val := by
  rw [toWire_eq, chunks_decode h]
  refine arranged.putAll_reads length_zeros bytes.property fun slot hs => ?_
  obtain rfl := List.mem_singleton.mp hs
  exact (blank_zeros (by decide)).trans h.reserved.symm

-- The checkpoints that the program builds: their paddings are zero.
structure Built (state : CheckpointState) : Prop where
  header : state.header.Built
  acquired : state.freeSetBlocksAcquiredLastBlockChecksumPadding = 0
  released : state.freeSetBlocksReleasedLastBlockChecksumPadding = 0
  clientSessions : state.clientSessionsLastBlockChecksumPadding = 0
  manifestOldest : state.manifestOldestChecksumPadding = 0
  manifestNewest : state.manifestNewestChecksumPadding = 0
  snapshotsBlock : state.snapshotsBlockChecksumPadding = 0

theorem valid_toWire (h : state.Built) : Valid ⟨state.toWire, length_toWire⟩ := by
  have hreads := @reads_toWire state
  unfold reads slots chunks at hreads
  simp only [List.map_cons, List.map_nil, List.cons.injEq, h.acquired, h.released, h.clientSessions,
    h.manifestOldest, h.manifestNewest, h.snapshotsBlock, le_zero] at hreads
  obtain ⟨hheader, _, h₁, _, h₂, _, h₃, _, h₄, _, h₅, _, h₆, _⟩ := hreads
  refine ⟨?_, ?_, blank_toWire⟩
  · rw [@getBytes_eq _ offsetHeader headerSize ⟨state.toWire, length_toWire⟩ _ hheader
      Prepare.length_toWire]
    exact Prepare.decodable_toWire h.header
  · unfold paddings
    simp only [List.forall_mem_cons]
    exact ⟨h₁, h₂, h₃, h₄, h₅, h₆, nofun⟩

end CheckpointState

namespace VSRState

variable {state state' : VSRState} {bytes : Bytes size}

def slots : List Place :=
  [⟨offsetCheckpoint, checkpointStateSize⟩, ⟨1024, 16⟩] ++
    (List.ofFn fun i : Fin membersMax => ⟨1040 + i.val * 16, 16⟩) ++
    [⟨1232, 8⟩, ⟨1240, 8⟩, ⟨1248, 8⟩, ⟨1256, 4⟩, ⟨1260, 4⟩, ⟨1264, 4⟩, ⟨1268, 1⟩]

def chunks (state : VSRState) : List (List UInt8) :=
  [state.checkpoint.toWire, le state.replicaId] ++ (List.ofFn fun i => le (state.members i)) ++
    [le state.commitMax, le state.syncOpMin, le state.syncOpMax, le state.syncView, le state.logView,
      le state.view, le state.replicaCount]

def gap : Place := ⟨1269, 779⟩

theorem toWire_eq : state.toWire = putAll (zeros size) (writes slots state.chunks) := rfl

theorem fits_chunks : Sized slots state.chunks := by
  refine fits_of_lengths ?_
  unfold chunks
  simp only [List.map_append, List.map_cons, List.map_nil, List.map_ofFn, length_le,
    CheckpointState.length_toWire]
  rfl

theorem arranged : Arranged slots [gap] (slots ++ [gap]) size := by
  decide

theorem length_toWire : state.toWire.length = size := by
  rw [toWire_eq]
  exact arranged.length_putAll length_zeros fits_chunks

theorem reads_toWire : reads slots state.toWire = state.chunks := by
  rw [toWire_eq]
  exact arranged.reads_putAll length_zeros fits_chunks

theorem blank_toWire : Blank state.toWire gap := by
  rw [toWire_eq]
  exact (arranged.read_gap length_zeros fits_chunks List.mem_cons_self).trans (blank_zeros (by decide))

theorem chunks_injective (h : state.chunks = state'.chunks) : state = state' := by
  unfold chunks at h
  rw [List.append_assoc, List.append_assoc] at h
  obtain ⟨hfirst, h⟩ := List.append_inj h (by simp only [List.length_cons, List.length_nil])
  obtain ⟨hmembers, hback⟩ := List.append_inj h (List.length_ofFn.trans List.length_ofFn.symm)
  simp only [List.cons.injEq, le_inj, and_true] at hfirst hback
  have hmember : state.members = state'.members :=
    funext fun i => le_inj.mp (congrFun (List.ofFn_injective hmembers) i)
  exact VSRState.ext_iff.mpr ⟨CheckpointState.toWire_injective hfirst.1, hfirst.2, hmember, hback⟩

theorem toWire_injective (h : state.toWire = state'.toWire) : state = state' :=
  chunks_injective (by rw [← reads_toWire, ← reads_toWire, h])

-- The bytes that a state is encoded as.
structure Valid (bytes : Bytes size) : Prop where
  checkpoint : CheckpointState.Valid (getBytes bytes offsetCheckpoint checkpointStateSize (by decide))
  reserved : Blank bytes.val gap

theorem checkpoint_fits : offsetCheckpoint + checkpointStateSize ≤ size := by
  decide

-- What they are decoded as.
def decoded (bytes : Bytes size) : VSRState :=
  decode bytes (CheckpointState.decode (getBytes bytes offsetCheckpoint checkpointStateSize checkpoint_fits))

theorem fromWire_of (h : Valid bytes) : fromWire bytes = .ok (decoded bytes) := by
  have hreserved : zeroed (slice bytes.val offsetReserved reservedLen) = true :=
    (zeroed_slice (by decide)).mpr h.reserved
  unfold fromWire
  rw [assert_of hreserved, ok_bind, CheckpointState.fromWire_of h.checkpoint]
  rfl

theorem chunks_decoded (h : Valid bytes) : (decoded bytes).chunks = reads slots bytes.val := by
  have hcheckpoint := CheckpointState.toWire_decode h.checkpoint
  have hget : ∀ {count offset : Nat}, offset + count ≤ size →
      le (get count bytes.val offset) = Slots.read bytes.val ⟨offset, count⟩ := fun hle =>
    le_get (by rw [bytes.property]; exact hle)
  have hmembers : (fun i : Fin membersMax => le (get 16 bytes.val (offsetMembers + i.val * 16))) =
      Slots.read bytes.val ∘ fun i : Fin membersMax => ⟨1040 + i.val * 16, 16⟩ := funext fun i => by
    have hle : ∀ i : Fin membersMax, offsetMembers + i.val * 16 + 16 ≤ size := by decide
    exact hget (hle i)
  unfold chunks decoded decode reads slots
  simp only [List.map_append, List.map_cons, List.map_nil, List.map_ofFn]
  rw [hcheckpoint, hmembers]
  repeat rw [hget (by decide)]
  rfl

theorem toWire_decoded (h : Valid bytes) : (decoded bytes).toWire = bytes.val := by
  rw [toWire_eq, chunks_decoded h]
  refine arranged.putAll_reads length_zeros bytes.property fun slot hs => ?_
  obtain rfl := List.mem_singleton.mp hs
  exact (blank_zeros (by decide)).trans h.reserved.symm

theorem valid_toWire (h : state.checkpoint.Built) : Valid ⟨state.toWire, length_toWire⟩ := by
  have hreads := @reads_toWire state
  have hcheckpoint : Slots.read state.toWire ⟨offsetCheckpoint, checkpointStateSize⟩ =
      state.checkpoint.toWire := (List.cons.inj hreads).1
  refine ⟨?_, blank_toWire⟩
  rw [@getBytes_eq _ offsetCheckpoint checkpointStateSize ⟨state.toWire, length_toWire⟩ _ hcheckpoint
    CheckpointState.length_toWire]
  exact CheckpointState.valid_toWire h

end VSRState

namespace SuperBlockHeader

variable {header header' : SuperBlockHeader} {bytes bytes' : Bytes superblockHeaderSize}

def fields : List Place :=
  [⟨0, 16⟩, ⟨16, 16⟩, ⟨32, 2⟩, ⟨34, 2⟩, ⟨36, 4⟩, ⟨40, 8⟩, ⟨48, 16⟩, ⟨64, 16⟩, ⟨80, 16⟩,
    ⟨offsetVsrState, VSRState.size⟩, ⟨2144, 8⟩, ⟨2152, 4⟩]

def viewSlot (i : Fin viewHeadersMax) : Place :=
  ⟨offsetViewHeadersAll + i.val * headerSize, headerSize⟩

def slots : List Place :=
  fields ++ List.ofFn viewSlot

def gaps : List Place := [⟨2156, 1940⟩, ⟨6912, 1280⟩]

def layout : List Place :=
  fields ++ [⟨2156, 1940⟩] ++ List.ofFn viewSlot ++ [⟨6912, 1280⟩]

def chunks (header : SuperBlockHeader) : List (List UInt8) :=
  [le header.checksum, le header.checksumPadding, le header.copy, le header.version,
    le header.releaseFormat, le header.sequence, le header.cluster, le header.parent,
    le header.parentPadding, header.vsrState.toWire, le header.flags, le header.viewHeadersCount] ++
    List.ofFn fun i => (header.viewHeadersAll i).val

-- What a header is encoded as.
def image (header : SuperBlockHeader) : List UInt8 :=
  putAll (zeros superblockHeaderSize) (writes slots header.chunks)

-- The view headers behind those that are counted are empty.
structure Counted (header : SuperBlockHeader) : Prop where
  count : header.viewHeadersCount.toNat ≤ viewHeadersMax
  unoccupied : ∀ i : Fin viewHeadersMax, header.viewHeadersCount.toNat ≤ i.val →
    (header.viewHeadersAll i).val = zeros headerSize

theorem toWire_of (h : header.Counted) : header.toWire = .ok header.image := by
  unfold toWire
  rw [assert_of h.count, ok_bind, assert_of h.unoccupied, ok_bind]
  rfl

theorem fits_chunks : Sized slots header.chunks := by
  refine fits_of_lengths ?_
  have hviews : (List.ofFn (List.length ∘ fun i => (header.viewHeadersAll i).val)) =
      List.ofFn fun _ : Fin viewHeadersMax => headerSize :=
    congrArg List.ofFn (funext fun i => (header.viewHeadersAll i).property)
  unfold chunks
  simp only [List.map_append, List.map_cons, List.map_nil, List.map_ofFn, length_le,
    VSRState.length_toWire, hviews]
  rfl

theorem arranged : Arranged slots gaps layout superblockHeaderSize := by
  decide

theorem length_image : header.image.length = superblockHeaderSize :=
  arranged.length_putAll length_zeros fits_chunks

theorem reads_image : reads slots header.image = header.chunks :=
  arranged.reads_putAll length_zeros fits_chunks

theorem blank_gap {gap : Place} (h : gap ∈ gaps) : Blank (zeros superblockHeaderSize) gap :=
  blank_zeros (arranged.free gap h).1

theorem blank_image {gap : Place} (h : gap ∈ gaps) : Blank header.image gap :=
  (arranged.read_gap length_zeros fits_chunks h).trans (blank_gap h)

theorem chunks_injective (h : header.chunks = header'.chunks) : header = header' := by
  unfold chunks at h
  obtain ⟨hfields, hviews⟩ := List.append_inj h (by simp only [List.length_cons, List.length_nil])
  simp only [List.cons.injEq, le_inj, and_true] at hfields
  obtain ⟨h₁, h₂, h₃, h₄, h₅, h₆, h₇, h₈, h₉, hstate, hflags, hcount⟩ := hfields
  have hview : header.viewHeadersAll = header'.viewHeadersAll :=
    funext fun i => Subtype.ext (congrFun (List.ofFn_injective hviews) i)
  exact SuperBlockHeader.ext_iff.mpr
    ⟨h₁, h₂, h₃, h₄, h₅, h₆, h₇, h₈, h₉, VSRState.toWire_injective hstate, hflags, hcount, hview⟩

theorem image_injective (h : header.image = header'.image) : header = header' :=
  chunks_injective (by rw [← reads_image, ← reads_image, h])

-- The images of a valid layout.
structure Valid (bytes : Bytes superblockHeaderSize) : Prop where
  vsrState : VSRState.Valid (getBytes bytes offsetVsrState VSRState.size (by decide))
  reserved : ∀ gap ∈ gaps, Blank bytes.val gap
  count : (get 4 bytes.val offsetViewHeadersCount).toNat ≤ viewHeadersMax
  unoccupied : ∀ i : Fin viewHeadersMax, (get 4 bytes.val offsetViewHeadersCount).toNat ≤ i.val →
    Blank bytes.val (viewSlot i)

theorem vsrState_fits : offsetVsrState + VSRState.size ≤ superblockHeaderSize := by
  decide

-- What they are decoded as.
def decoded (bytes : Bytes superblockHeaderSize) : SuperBlockHeader :=
  decode bytes (VSRState.decoded (getBytes bytes offsetVsrState VSRState.size vsrState_fits))

theorem fromWire_of (h : Valid bytes) : fromWire bytes = .ok (some (decoded bytes)) := by
  have hreserved : zeroed (slice bytes.val offsetReserved reservedLen) = true :=
    (zeroed_slice (by decide)).mpr (h.reserved _ List.mem_cons_self)
  have hviews : zeroed (bytes.val.drop offsetViewHeadersReserved) = true :=
    (zeroed_drop (by decide)).mpr (h.reserved _ (List.mem_cons_of_mem _ List.mem_cons_self))
  unfold fromWire
  rw [assert_of hreserved, ok_bind, assert_of hviews, ok_bind, VSRState.fromWire_of h.vsrState]
  rfl

theorem chunks_decoded (h : Valid bytes) : (decoded bytes).chunks = reads slots bytes.val := by
  have hstate := VSRState.toWire_decoded h.vsrState
  have hget : ∀ {count offset : Nat}, offset + count ≤ superblockHeaderSize →
      le (get count bytes.val offset) = Slots.read bytes.val ⟨offset, count⟩ := fun hle =>
    le_get (by rw [bytes.property]; exact hle)
  unfold chunks decoded decode reads slots fields
  simp only [List.map_append, List.map_cons, List.map_nil, List.map_ofFn]
  rw [hstate]
  repeat rw [hget (by decide)]
  rfl

theorem image_decoded (h : Valid bytes) : (decoded bytes).image = bytes.val := by
  unfold image
  rw [chunks_decoded h]
  exact arranged.putAll_reads length_zeros bytes.property fun gap hg =>
    (blank_gap hg).trans (h.reserved gap hg).symm

theorem counted_decoded (h : Valid bytes) : (decoded bytes).Counted where
  count := h.count
  unoccupied := fun i hi => h.unoccupied i hi

-- The headers that the program builds.
structure Built (header : SuperBlockHeader) : Prop where
  checkpoint : header.vsrState.checkpoint.Built
  counted : header.Counted

theorem valid_image (h : header.Built) : Valid ⟨header.image, length_image⟩ := by
  have hreads := @reads_image header
  unfold reads slots chunks at hreads
  rw [List.map_append] at hreads
  obtain ⟨hfields, hviews⟩ := List.append_inj hreads (by
    simp only [fields, List.length_map, List.length_cons, List.length_nil])
  unfold fields at hfields
  simp only [List.map_cons, List.map_nil, List.cons.injEq, and_true] at hfields
  obtain ⟨_, _, _, _, _, _, _, _, _, hstate, _, hcount⟩ := hfields
  have hcount' : get 4 header.image offsetViewHeadersCount = header.viewHeadersCount :=
    le_inj.mp ((le_get (by rw [length_image]; decide)).trans hcount)
  refine ⟨?_, fun gap hg => blank_image hg, ?_, fun i hi => ?_⟩
  · rw [@getBytes_eq _ offsetVsrState VSRState.size ⟨header.image, length_image⟩ _ hstate
      VSRState.length_toWire]
    exact VSRState.valid_toWire h.checkpoint
  · dsimp only
    rw [hcount']
    exact h.counted.count
  · dsimp only at hi
    rw [hcount'] at hi
    rw [List.map_ofFn] at hviews
    have hview := congrFun (List.ofFn_injective hviews) i
    exact hview.trans (h.counted.unoccupied i hi)

theorem checksumInput_of (h : header.Counted) :
    header.checksumInput = .ok (header.image.drop checksumIgnoreSize) := by
  unfold checksumInput
  rw [toWire_of h]
  rfl

-- What two images feed to the checksum.
def Distinguished (bytes bytes' : Bytes superblockHeaderSize) : Prop :=
  ∃ header header' input input', fromWire bytes = .ok (some header) ∧
    fromWire bytes' = .ok (some header') ∧ header.checksumInput = .ok input ∧
    header'.checksumInput = .ok input' ∧ input ≠ input'

theorem distinguished_of (h : Valid bytes) (h' : Valid bytes') {i : Nat} (hle : checksumIgnoreSize ≤ i)
    (hdiffer : bytes.val[i]? ≠ bytes'.val[i]?) : Distinguished bytes bytes' := by
  refine ⟨_, _, _, _, fromWire_of h, fromWire_of h', checksumInput_of (counted_decoded h),
    checksumInput_of (counted_decoded h'), fun heq => hdiffer ?_⟩
  rw [image_decoded h, image_decoded h'] at heq
  have hget : (bytes.val.drop checksumIgnoreSize)[i - checksumIgnoreSize]? =
      (bytes'.val.drop checksumIgnoreSize)[i - checksumIgnoreSize]? := by rw [heq]
  rw [List.getElem?_drop, List.getElem?_drop, Nat.add_sub_cancel' hle] at hget
  exact hget

-- What is built is read as it was written, what is valid is written as it was read, and two valid images
-- that differ behind what the checksum ignores are distinguished by what it is computed of.
theorem wire_roundTrip :
    (∀ header : SuperBlockHeader, header.Built → ∃ bytes : Bytes superblockHeaderSize, Valid bytes ∧
      header.toWire = .ok bytes.val ∧ fromWire bytes = .ok (some header)) ∧
    (∀ bytes : Bytes superblockHeaderSize, Valid bytes → ∃ header, fromWire bytes = .ok (some header) ∧
      header.toWire = .ok bytes.val) ∧
    ∀ bytes bytes' : Bytes superblockHeaderSize, Valid bytes → Valid bytes' →
      (∃ i, checksumIgnoreSize ≤ i ∧ bytes.val[i]? ≠ bytes'.val[i]?) → Distinguished bytes bytes' := by
  refine ⟨fun header h => ?_, fun bytes h => ?_, fun bytes bytes' h h' hi => ?_⟩
  · have hvalid := valid_image h
    have hheader : decoded ⟨header.image, length_image⟩ = header := image_injective (image_decoded hvalid)
    refine ⟨_, hvalid, toWire_of h.counted, ?_⟩
    rw [fromWire_of hvalid, hheader]
  · refine ⟨_, fromWire_of h, ?_⟩
    rw [toWire_of (counted_decoded h), image_decoded h]
  · obtain ⟨i, hle, hdiffer⟩ := hi
    exact distinguished_of h h' hle hdiffer

theorem drop_image {checksumPadding : U128} :
    ({ header with checksumPadding } : SuperBlockHeader).image.drop checksumIgnoreSize =
      header.image.drop checksumIgnoreSize := by
  have himage : ∀ checksumPadding, ({ header with checksumPadding } : SuperBlockHeader).image =
      putAll (put (put (zeros superblockHeaderSize) 0 (le header.checksum)) 16 (le checksumPadding))
        (writes (slots.drop 2) (header.chunks.drop 2)) := fun checksumPadding => by
    have hwrites : writes slots ({ header with checksumPadding } : SuperBlockHeader).chunks =
        (0, le header.checksum) :: (16, le checksumPadding) ::
          writes (slots.drop 2) (header.chunks.drop 2) := rfl
    unfold image putAll
    rw [hwrites, List.foldl_cons, List.foldl_cons]
  have hfits : Sized (slots.drop 2) (header.chunks.drop 2) := List.forall₂_drop 2 fits_chunks
  have hfront : (put (zeros superblockHeaderSize) 0 (le header.checksum)).length =
      superblockHeaderSize := by
    rw [length_put (by rw [length_le, length_zeros]; decide), length_zeros]
  have hroom : ∀ checksumPadding : U128, 16 + (le checksumPadding).length ≤
      (put (zeros superblockHeaderSize) 0 (le header.checksum)).length := fun _ => by
    rw [length_le, hfront]
    decide
  have hheader := himage header.checksumPadding
  refine List.ext_getElem? fun i => ?_
  have hget : ∀ checksumPadding : U128, (put (put (zeros superblockHeaderSize) 0
      (le header.checksum)) 16 (le checksumPadding))[checksumIgnoreSize + i]? =
      (put (zeros superblockHeaderSize) 0 (le header.checksum))[checksumIgnoreSize + i]? := fun _ => by
    rw [getElem?_put (hroom _), length_le]
    refine if_neg ?_
    unfold checksumIgnoreSize
    omega
  rw [List.getElem?_drop, List.getElem?_drop, himage, hheader]
  refine getElem?_putAll_congr hfits ?_ ?_ ((hget _).trans (hget _).symm)
  · rw [length_put (hroom _), length_put (hroom _)]
  · rw [length_put (hroom _), hfront]
    exact fun slot hs => arranged.bounds slot (List.mem_of_mem_drop hs)

section Padded

def emptyState : VSRState :=
  VSRState.decode ⟨zeros VSRState.size, length_zeros⟩
    (CheckpointState.decode ⟨zeros checkpointStateSize, length_zeros⟩)

theorem emptyState_built : emptyState.checkpoint.Built := by
  have hempty : emptyState.checkpoint.header = headerPrepareZeroed ∧
      ∀ offset ∈ CheckpointState.paddings, get 16 (zeros checkpointStateSize) offset = 0 := by
    decide
  obtain ⟨hheader, hpaddings⟩ := hempty
  unfold CheckpointState.paddings at hpaddings
  simp only [List.forall_mem_cons] at hpaddings
  obtain ⟨h₁, h₂, h₃, h₄, h₅, h₆, _⟩ := hpaddings
  exact ⟨.inr hheader, h₁, h₂, h₃, h₄, h₅, h₆⟩

-- Headers that differ in the padding of the checksum only.
def padded (checksumPadding : U128) : SuperBlockHeader where
  checksum := 1
  checksumPadding := checksumPadding
  copy := 2
  version := 3
  releaseFormat := 4
  sequence := 5
  cluster := 6
  parent := 7
  parentPadding := 8
  vsrState := { emptyState with
    replicaId := 10, commitMax := 11, syncOpMin := 12, syncOpMax := 13, syncView := 14
    logView := 15, view := 16, replicaCount := 17 }
  flags := 9
  viewHeadersCount := 0
  viewHeadersAll := fun _ => ⟨zeros headerSize, length_zeros⟩

theorem padded_built {checksumPadding : U128} : (padded checksumPadding).Built where
  checkpoint := emptyState_built
  counted := ⟨Nat.zero_le _, fun _ _ => rfl⟩

theorem wire_roundTrip_padded : ∃ bytes : Bytes superblockHeaderSize, Valid bytes ∧
    (padded 1).toWire = .ok bytes.val ∧ fromWire bytes = .ok (some (padded 1)) :=
  wire_roundTrip.1 (padded 1) padded_built

theorem padded_differ : (padded 0).image[16]? ≠ (padded 1).image[16]? := by
  have hfirst : ∀ checksumPadding, (padded checksumPadding).image[16]? = (le checksumPadding)[0]? :=
    fun checksumPadding => by
      have hreads := @reads_image (padded checksumPadding)
      have hpadding : Slots.read (padded checksumPadding).image ⟨16, 16⟩ = le checksumPadding :=
        (List.cons.inj (List.cons.inj hreads).2).1
      rw [← hpadding, getElem?_read]
      rfl
  rw [hfirst, hfirst]
  decide

-- The padding of the checksum is not covered.
theorem not_distinguished : ¬∀ bytes bytes' : Bytes superblockHeaderSize, Valid bytes → Valid bytes' →
    (∃ i, (16 ≤ i ∧ i < 32 ∨ checksumIgnoreSize ≤ i) ∧ bytes.val[i]? ≠ bytes'.val[i]?) →
    Distinguished bytes bytes' := by
  intro hclaim
  have hvalid₀ := valid_image (@padded_built 0)
  have hvalid₁ := valid_image (@padded_built 1)
  obtain ⟨header, header', input, input', hread, hread', hinput, hinput', hne⟩ :=
    hclaim _ _ hvalid₀ hvalid₁ ⟨16, .inl ⟨by decide, by decide⟩, padded_differ⟩
  have h₀ := image_decoded hvalid₀
  have h₁ := image_decoded hvalid₁
  rw [fromWire_of hvalid₀] at hread
  rw [fromWire_of hvalid₁] at hread'
  obtain rfl := Option.some.inj (Except.ok.inj hread)
  obtain rfl := Option.some.inj (Except.ok.inj hread')
  rw [checksumInput_of (counted_decoded hvalid₀), h₀] at hinput
  rw [checksumInput_of (counted_decoded hvalid₁), h₁] at hinput'
  rw [← Except.ok.inj hinput, ← Except.ok.inj hinput'] at hne
  have hpadded : padded 0 = { padded 1 with checksumPadding := 0 } := rfl
  refine hne ?_
  dsimp only
  rw [hpadded]
  exact drop_image

end Padded

end SuperBlockHeader

end TigerBeetle.Wire
