import TigerBeetle.MessageHeaderWire
import TigerBeetle.Theorems.SuperblockWire

-- The codecs of the headers agree.
namespace TigerBeetle.Wire

open Fallible LittleEndian Slots Superblock Records

section Reads

variable {R : Type} {record : R} {size offset width : Nat} {bytes : Bytes size}

theorem reads_get {value : R → BitVec (8 * width)} (h : offset + width ≤ size) :
    (RecordField.word offset value).Reads record bytes.val ↔
      value record = get width bytes.val offset :=
  reads_word (by rw [bytes.property]; exact h)

theorem reads_getBytes {value : R → Bytes width} (h : offset + width ≤ size) :
    (RecordField.array offset value).Reads record bytes.val ↔
      value record = getBytes bytes offset width h :=
  ⟨fun hread => Subtype.ext hread, fun hvalue => congrArg Subtype.val hvalue⟩

end Reads

theorem Command.fromU8_code {command : Command} : Command.fromU8 command.code = some command := by
  cases command <;> rfl

theorem Command.code_of_fromU8 {value : UInt8} {command : Command}
    (h : Command.fromU8 value = some command) : command.code = value :=
  of_decide_eq_true (List.find?_some (p := fun command => decide (Command.code command = value)) h)

namespace Frame

variable {frame frame' : Frame} {bytes : Bytes headerSize} {command : Command}

theorem reads_decode (h : command.code = bytes.val.getD 114 0) :
    ∀ field ∈ fields, field.Reads (decode command bytes) bytes.val := by
  have hcode : ∀ {frame : Frame}, (RecordField.byte 114 fun frame : Frame => frame.command.code).Reads
      frame bytes.val ↔ frame.command.code = bytes.val.getD 114 0 :=
    reads_byte (by rw [bytes.property]; decide)
  unfold fields
  simp (disch := decide) only [List.forall_mem_cons, reads_get, reads_getBytes, hcode]
  exact ⟨rfl, rfl, rfl, rfl, rfl, rfl, rfl, rfl, rfl, rfl, rfl, h, rfl, rfl,
    fun _ h => absurd h List.not_mem_nil⟩

theorem ext_fields (h : ∀ field ∈ fields, field.encode frame = field.encode frame') :
    frame = frame' := by
  unfold fields at h
  simp only [List.forall_mem_cons, encode_word, encode_byte, encode_array, Prepare.code_inj] at h
  cases frame
  cases frame'
  simp_all

end Frame

-- A header is the one decoded from some bytes as soon as its fields read what is there.
structure Decodes {H : Type} (frame : H → Frame) (fields : List (RecordField H))
    (decode : Frame → Bytes headerSize → H) : Prop where
  frame_decode : ∀ base bytes, frame (decode base bytes) = base := by intros; rfl
  reads_iff : ∀ header bytes,
    (∀ field ∈ fields, field.Reads header bytes.val) ↔ header = decode (frame header) bytes

class LawfulTypedHeader (H : Type) [TypedHeader H] : Prop extends
  Decodes (TypedHeader.frame : H → Frame) TypedHeader.fields TypedHeader.decode

section Codec

variable {H : Type} {frame : H → Frame} {fields : List (RecordField H)} {header header' : H}
variable {decode : Frame → Bytes headerSize → H} {bytes : Bytes headerSize} {command : Command}

theorem forall_framed {p : RecordField H → Prop} : (∀ field ∈ framed frame fields, p field) ↔
    (∀ field ∈ Frame.fields, p (field.of frame)) ∧ ∀ field ∈ fields, p field := by
  unfold framed
  rw [List.forall_mem_append, List.forall_mem_map]

theorem val_encode (h : Tiles 128 (places fields) headerSize) :
    (encode frame fields h header).val = write (framed frame fields) header (zeros headerSize) := by
  unfold encode
  dsimp only

theorem reads_encode (h : Tiles 128 (places fields) headerSize) :
    ∀ field ∈ framed frame fields, field.Reads header (encode frame fields h header).val := by
  rw [val_encode]
  exact reads_write (tiles_framed frame fields h) length_zeros

theorem encode_of_reads (h : Tiles 128 (places fields) headerSize)
    (hreads : ∀ field ∈ framed frame fields, field.Reads header bytes.val) :
    encode frame fields h header = bytes := by
  refine Subtype.ext ?_
  rw [val_encode]
  exact write_reads (tiles_framed frame fields h) length_zeros bytes.property hreads

def commandField : RecordField Frame :=
  .byte 114 fun frame => frame.command.code

theorem command_encode (h : Tiles 128 (places fields) headerSize) :
    (encode frame fields h header).val.getD 114 0 = (frame header).command.code := by
  have hframe := (forall_framed.mp (@reads_encode H frame fields header h)).1
  have hmem : commandField ∈ Frame.fields := by
    unfold Frame.fields
    simp only [List.mem_cons]
    exact .inr (.inr (.inr (.inr (.inr (.inr (.inr (.inr (.inr (.inr (.inr (.inl rfl)))))))))))
  have hlt : 114 < (encode frame fields h header).val.length := by
    rw [(encode frame fields h header).property]
    decide
  have hread := (reads_byte hlt).mp (hframe commandField hmem)
  exact hread.symm

section

variable (hdecodes : Decodes frame fields decode)

include hdecodes

theorem reads_decode (h : command.code = bytes.val.getD 114 0) :
    ∀ field ∈ framed frame fields,
      field.Reads (decode (Frame.decode command bytes) bytes) bytes.val := by
  refine forall_framed.mpr ⟨fun field hf => ?_, (hdecodes.reads_iff _ _).mpr ?_⟩
  rotate_left
  · rw [hdecodes.frame_decode]
  have hread := Frame.reads_decode h field hf
  unfold RecordField.Reads RecordField.of
  dsimp only
  rw [hdecodes.frame_decode]
  exact hread

-- A header is determined by the bytes that it is read from.
theorem eq_of_reads (h : ∀ field ∈ framed frame fields, field.Reads header bytes.val)
    (h' : ∀ field ∈ framed frame fields, field.Reads header' bytes.val) : header = header' := by
  obtain ⟨hframe, hfields⟩ := forall_framed.mp h
  obtain ⟨hframe', hfields'⟩ := forall_framed.mp h'
  have hsame : frame header = frame header' :=
    Frame.ext_fields fun field hf => (hframe field hf).trans (hframe' field hf).symm
  rw [(hdecodes.reads_iff _ _).mp hfields, (hdecodes.reads_iff _ _).mp hfields', hsame]

theorem encode_decode (h : Tiles 128 (places fields) headerSize)
    (hcode : command.code = bytes.val.getD 114 0) :
    encode frame fields h (decode (Frame.decode command bytes) bytes) = bytes :=
  encode_of_reads h (reads_decode hdecodes hcode)

theorem decode_of_encode (h : Tiles 128 (places fields) headerSize)
    (hcommand : (frame header).command = command) :
    decode (Frame.decode command (encode frame fields h header)) (encode frame fields h header) =
      header := by
  have hcode : command.code = (encode frame fields h header).val.getD 114 0 := by
    rw [command_encode, hcommand]
  exact eq_of_reads hdecodes (reads_decode hdecodes hcode) (reads_encode h)

end

end Codec

namespace Header

variable {header : Header} {bytes : Bytes headerSize} {command : Command}

theorem decodes : Decodes toFrame fields decode where
  reads_iff := fun header bytes => by
    cases header
    simp (disch := decide) [fields, decode, reads_getBytes]

theorem fromWire_of (h : command.code = bytes.val.getD 114 0) :
    fromWire bytes = some (decode (Frame.decode command bytes) bytes) := by
  unfold fromWire
  rw [← h, Command.fromU8_code]
  rfl

theorem fromWire_toWire : fromWire header.toWire = some header := by
  have hcode : header.command.code = header.toWire.val.getD 114 0 := (command_encode tiles).symm
  rw [fromWire_of hcode]
  exact congrArg some (decode_of_encode decodes tiles rfl)

theorem toWire_fromWire (h : fromWire bytes = some header) : header.toWire = bytes := by
  unfold fromWire at h
  cases hcommand : Command.fromU8 (bytes.val.getD 114 0) with
  | none =>
    rw [hcommand] at h
    cases h
  | some command =>
    rw [hcommand] at h
    obtain rfl := Option.some.inj h
    exact encode_decode decodes tiles (Command.code_of_fromU8 hcommand)

theorem fromWire_eq_none : fromWire bytes = none ↔ Command.fromU8 (bytes.val.getD 114 0) = none := by
  unfold fromWire
  cases Command.fromU8 (bytes.val.getD 114 0) with
  | none         => exact ⟨fun _ => rfl, fun _ => rfl⟩
  | some command => exact ⟨nofun, nofun⟩

theorem toWire_injective {header' : Header} (h : header.toWire = header'.toWire) : header = header' := by
  have hread := @fromWire_toWire header
  rw [h, fromWire_toWire] at hread
  exact (Option.some.inj hread).symm

end Header

namespace TypedHeader

variable {H : Type} [TypedHeader H] {header : H} {bytes : Bytes headerSize}

theorem command_toWire : (toWire header).val.getD 114 0 = (frame header).command.code :=
  command_encode tiles

theorem fromWire_of (h : (command H).code = bytes.val.getD 114 0) :
    (fromWire bytes : Option H) = some (decode (Frame.decode (command H) bytes) bytes) := by
  unfold fromWire
  rw [if_neg (not_not.mpr h.symm)]

theorem fromWire_of_ne (h : (command H).code ≠ bytes.val.getD 114 0) :
    (fromWire bytes : Option H) = none := by
  unfold fromWire
  exact if_pos (Ne.symm h)

theorem intoTyped_of {base' : Header} (h : base'.command = command H) :
    base'.intoTyped H = fromWire base'.toWire := by
  unfold Header.intoTyped
  rw [if_neg (not_not.mpr h)]

theorem base_of : ∃ header' : Header, base header = .ok header' ∧ header'.toWire = toWire header ∧
    header'.toFrame = frame header := by
  have hcode : (frame header).command.code = (toWire header).val.getD 114 0 := command_toWire.symm
  have hdecode := Header.fromWire_of hcode
  have hframe : Frame.decode (frame header).command (toWire header) = frame header := by
    have hreads := (forall_framed.mp (@reads_encode H frame fields header tiles)).1
    exact Frame.ext_fields fun field hf =>
      (Frame.reads_decode hcode field hf).trans (hreads field hf).symm
  refine ⟨_, ?_, encode_decode Header.decodes Header.tiles hcode, hframe⟩
  unfold base
  rw [hdecode]

variable [LawfulTypedHeader H]

theorem decodes : Decodes (frame : H → Frame) fields decode :=
  LawfulTypedHeader.toDecodes

theorem toWire_decode (h : (command H).code = bytes.val.getD 114 0) :
    toWire (decode (Frame.decode (command H) bytes) bytes : H) = bytes :=
  encode_decode decodes tiles h

theorem command_decode :
    (frame (decode (Frame.decode (command H) bytes) bytes : H)).command = command H := by
  rw [decodes.frame_decode]
  rfl

theorem fromWire_toWire (h : (frame header).command = command H) :
    fromWire (toWire header) = some header := by
  rw [fromWire_of (by rw [command_toWire, h])]
  exact congrArg some (decode_of_encode decodes tiles h)

end TypedHeader

open TypedHeader in
-- The codec of a type of headers is a bijection of those of its command, and makes the same bytes as
-- that of the base header.
structure Agrees [Checksum] (H : Type) [TypedHeader H] : Prop where
  tiles : Tiles 128 (places (fields : List (RecordField H))) headerSize
  fromWire_toWire : ∀ header : H, (frame header).command = command H →
    fromWire (toWire header) = some header
  toWire_fromWire : ∀ bytes : Bytes headerSize, bytes.val.getD 114 0 = (command H).code →
    ∃ header : H, fromWire bytes = some header ∧ (frame header).command = command H ∧
      toWire header = bytes
  refuses : ∀ bytes : Bytes headerSize, bytes.val.getD 114 0 ≠ (command H).code →
    (fromWire bytes : Option H) = none
  base_toWire : ∀ header : H, ∃ base' : Header, base header = .ok base' ∧
    base'.toWire = toWire header ∧ base'.toFrame = frame header ∧
    base'.calculateChecksum = calculateChecksum header
  intoTyped_base : ∀ (header : H) (base' : Header), (frame header).command = command H →
    base header = .ok base' → base'.intoTyped H = some header
  base_intoTyped : ∀ base' : Header, base'.command = command H →
    ∃ header : H, base'.intoTyped H = some header ∧ base header = .ok base'
  intoTyped_refuses : ∀ base' : Header, base'.command ≠ command H → base'.intoTyped H = none

section Agrees

open TypedHeader

variable {H : Type} [Checksum] [TypedHeader H] [LawfulTypedHeader H]

theorem agrees : Agrees H where
  tiles := TypedHeader.tiles
  fromWire_toWire := fun header h => TypedHeader.fromWire_toWire h
  toWire_fromWire := fun bytes h => ⟨_, fromWire_of h.symm, command_decode, toWire_decode h.symm⟩
  refuses := fun bytes h => fromWire_of_ne (Ne.symm h)
  base_toWire := fun header => by
    obtain ⟨base', hbase, hwire, hframe⟩ := @base_of H _ header
    refine ⟨base', hbase, hwire, hframe, ?_⟩
    unfold Header.calculateChecksum calculateChecksum
    rw [hwire]
  intoTyped_base := fun header base' h hbase => by
    obtain ⟨base'', hbase', hwire, hframe⟩ := @base_of H _ header
    obtain rfl : base' = base'' := Except.ok.inj (hbase.symm.trans hbase')
    rw [intoTyped_of ((congrArg Frame.command hframe).trans h), hwire, TypedHeader.fromWire_toWire h]
  base_intoTyped := fun base' h => by
    have hcode : (command H).code = base'.toWire.val.getD 114 0 := by
      rw [← h]
      exact (command_encode Header.tiles).symm
    obtain ⟨base'', hbase, hwire, _⟩ :=
      @base_of H _ (decode (Frame.decode (command H) base'.toWire) base'.toWire)
    rw [toWire_decode hcode] at hwire
    obtain rfl := Header.toWire_injective hwire
    exact ⟨_, (intoTyped_of h).trans (fromWire_of hcode), hbase⟩
  intoTyped_refuses := fun base' h => if_pos h

end Agrees

attribute [local simp] TypedHeader.fields TypedHeader.decode TypedHeader.frame reads_get reads_getBytes

instance : LawfulTypedHeader Ping where
  reads_iff := fun header bytes => by
    cases header
    simp (disch := decide) [Ping.fields, Ping.decode]

instance : LawfulTypedHeader Pong where
  reads_iff := fun header bytes => by
    cases header
    simp (disch := decide) [Pong.fields, Pong.decode]

instance : LawfulTypedHeader PingClient where
  reads_iff := fun header bytes => by
    cases header
    simp (disch := decide) [PingClient.fields, PingClient.decode]

instance : LawfulTypedHeader PongClient where
  reads_iff := fun header bytes => by
    cases header
    simp (disch := decide) [PongClient.fields, PongClient.decode]

instance : LawfulTypedHeader Request where
  reads_iff := fun header bytes => by
    cases header
    simp (disch := decide) [Request.fields, Request.decode]

instance : LawfulTypedHeader Prepare where
  reads_iff := fun header bytes => by
    cases header
    simp (disch := decide) [Prepare.fields, Prepare.decodeFramed, Prepare.frame]

instance : LawfulTypedHeader PrepareOk where
  reads_iff := fun header bytes => by
    cases header
    simp (disch := decide) [PrepareOk.fields, PrepareOk.decode]

instance : LawfulTypedHeader Reply where
  reads_iff := fun header bytes => by
    cases header
    simp (disch := decide) [Reply.fields, Reply.decode]

instance : LawfulTypedHeader Commit where
  reads_iff := fun header bytes => by
    cases header
    simp (disch := decide) [Commit.fields, Commit.decode]

instance : LawfulTypedHeader ExitView where
  reads_iff := fun header bytes => by
    cases header
    simp (disch := decide) [ExitView.fields, ExitView.decode]

instance : LawfulTypedHeader JoinView where
  reads_iff := fun header bytes => by
    cases header
    simp (disch := decide) [JoinView.fields, JoinView.decode]

instance : LawfulTypedHeader View where
  reads_iff := fun header bytes => by
    cases header
    simp (disch := decide) [View.fields, View.decode]

instance : LawfulTypedHeader GetView where
  reads_iff := fun header bytes => by
    cases header
    simp (disch := decide) [GetView.fields, GetView.decode]

instance : LawfulTypedHeader GetHeaders where
  reads_iff := fun header bytes => by
    cases header
    simp (disch := decide) [GetHeaders.fields, GetHeaders.decode]

instance : LawfulTypedHeader GetPrepare where
  reads_iff := fun header bytes => by
    cases header
    simp (disch := decide) [GetPrepare.fields, GetPrepare.decode]

instance : LawfulTypedHeader GetReply where
  reads_iff := fun header bytes => by
    cases header
    simp (disch := decide) [GetReply.fields, GetReply.decode]

instance : LawfulTypedHeader Headers where
  reads_iff := fun header bytes => by
    cases header
    simp (disch := decide) [Headers.fields, Headers.decode]

instance : LawfulTypedHeader Eviction where
  reads_iff := fun header bytes => by
    cases header
    simp (disch := decide) [Eviction.fields, Eviction.decode]

instance : LawfulTypedHeader GetBlocks where
  reads_iff := fun header bytes => by
    cases header
    simp (disch := decide) [GetBlocks.fields, GetBlocks.decode]

instance : LawfulTypedHeader Block where
  reads_iff := fun header bytes => by
    cases header
    simp (disch := decide) [Block.fields, Block.decode]

theorem headers_agree [Checksum] :
    ((∀ header : Header, Header.fromWire header.toWire = some header) ∧
      (∀ (bytes : Bytes headerSize) (header : Header), Header.fromWire bytes = some header →
        header.toWire = bytes) ∧
      ∀ bytes : Bytes headerSize, Header.fromWire bytes = none ↔
        ∀ command : Command, command.code ≠ bytes.val.getD 114 0) ∧
    Agrees Ping ∧
    Agrees Pong ∧
    Agrees PingClient ∧
    Agrees PongClient ∧
    Agrees Request ∧
    Agrees Prepare ∧
    Agrees PrepareOk ∧
    Agrees Reply ∧
    Agrees Commit ∧
    Agrees ExitView ∧
    Agrees JoinView ∧
    Agrees View ∧
    Agrees GetView ∧
    Agrees GetHeaders ∧
    Agrees GetPrepare ∧
    Agrees GetReply ∧
    Agrees Headers ∧
    Agrees Eviction ∧
    Agrees GetBlocks ∧
    Agrees Block := by
  refine ⟨⟨fun _ => Header.fromWire_toWire, fun _ _ => Header.toWire_fromWire, fun bytes => ?_⟩,
    agrees, agrees, agrees, agrees, agrees, agrees, agrees, agrees, agrees, agrees, agrees, agrees,
    agrees, agrees, agrees, agrees, agrees, agrees, agrees, agrees⟩
  rw [Header.fromWire_eq_none]
  refine ⟨fun h command hcode => ?_, fun h => ?_⟩
  · rw [← hcode, Command.fromU8_code] at h
    cases h
  · exact Option.eq_none_iff_forall_ne_some.mpr fun command hc => h command (Command.code_of_fromU8 hc)

end TigerBeetle.Wire
