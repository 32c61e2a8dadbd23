import TigerBeetle.Records
import TigerBeetle.SuperblockWire

-- The headers of messages as they are encoded: one frame for all of them, and what each command adds.
namespace TigerBeetle.Wire

open LittleEndian Slots Superblock Records

namespace Command

def all : List Command := [
  .reserved, .ping, .pong, .pingClient, .pongClient, .request, .prepare, .prepareOk, .reply, .commit,
  .exitView, .joinView, .deprecated12, .getView, .getHeaders, .getPrepare, .getReply, .headers,
  .eviction, .getBlocks, .block, .deprecated21, .deprecated22, .deprecated23, .view]

def fromU8 (value : UInt8) : Option Command :=
  all.find? fun command => command.code = value

end Command

theorem reservedFrame_fits : 116 + 12 ≤ headerSize := by
  decide

theorem reserved_fits : 253 + 3 ≤ headerSize := by
  decide

structure Frame where
  checksum : U128
  checksumPadding : U128
  checksumBody : U128
  checksumBodyPadding : U128
  nonceReserved : U128
  cluster : U128
  size : U32
  epoch : U32
  view : U32
  release : U32
  protocol : U16
  command : Command
  replica : U8
  reservedFrame : Bytes 12

namespace Frame

def fields : List (RecordField Frame) := [
  .word 0 Frame.checksum,
  .word 16 Frame.checksumPadding,
  .word 32 Frame.checksumBody,
  .word 48 Frame.checksumBodyPadding,
  .word 64 Frame.nonceReserved,
  .word 80 Frame.cluster,
  .word 96 Frame.size,
  .word 100 Frame.epoch,
  .word 104 Frame.view,
  .word 108 Frame.release,
  .word 112 Frame.protocol,
  .byte 114 fun frame => frame.command.code,
  .word 115 Frame.replica,
  .array 116 Frame.reservedFrame]

def decode (command : Command) (bytes : Bytes headerSize) : Frame where
  checksum := get 16 bytes.val 0
  checksumPadding := get 16 bytes.val 16
  checksumBody := get 16 bytes.val 32
  checksumBodyPadding := get 16 bytes.val 48
  nonceReserved := get 16 bytes.val 64
  cluster := get 16 bytes.val 80
  size := get 4 bytes.val 96
  epoch := get 4 bytes.val 100
  view := get 4 bytes.val 104
  release := get 4 bytes.val 108
  protocol := get 2 bytes.val 112
  command := command
  replica := get 1 bytes.val 115
  reservedFrame := getBytes bytes 116 12 reservedFrame_fits

theorem tiles : Tiles 0 (places fields) 128 := by
  decide

end Frame

-- A type of headers: its command, and the fields behind the frame, which leave no gap.
class TypedHeader (H : Type) where
  command : Command
  frame : H → Frame
  fields : List (RecordField H)
  decode : Frame → Bytes headerSize → H
  tiles : Tiles 128 (places fields) headerSize := by decide

section Codec

variable {H : Type} (frame : H → Frame) (fields : List (RecordField H))

-- The fields of the frame, and those behind it.
def framed : List (RecordField H) :=
  Frame.fields.map (.of frame) ++ fields

theorem tiles_framed (h : Tiles 128 (places fields) headerSize) :
    Tiles 0 (places (framed frame fields)) headerSize := by
  unfold framed places
  rw [List.map_append, List.map_map]
  exact Tiles.append Frame.tiles h

def encode (h : Tiles 128 (places fields) headerSize) (header : H) : Bytes headerSize :=
  ⟨write (framed frame fields) header (zeros headerSize),
    length_write (tiles_framed frame fields h) List.length_replicate⟩

end Codec

structure Header extends Frame where
  reservedCommand : Bytes 128

namespace Header

def fields : List (RecordField Header) := [
  .array 128 Header.reservedCommand]

theorem tiles : Tiles 128 (places fields) headerSize := by
  decide

def decode (frame : Frame) (bytes : Bytes headerSize) : Header where
  toFrame := frame
  reservedCommand := getBytes bytes 128 128 (by decide)

def toWire (header : Header) : Bytes headerSize :=
  encode toFrame fields tiles header

-- A command that is not known is refused.
def fromWire (bytes : Bytes headerSize) : Option Header := do
  let command ← Command.fromU8 (bytes.val.getD 114 0)
  return decode (Frame.decode command bytes) bytes

def calculateChecksum [Checksum] (header : Header) : Nat :=
  Checksum.checksum (header.toWire.val.drop 16)

end Header

namespace TypedHeader

variable {H : Type} [TypedHeader H]

def toWire (header : H) : Bytes headerSize :=
  encode TypedHeader.frame TypedHeader.fields TypedHeader.tiles header

def fromWire (bytes : Bytes headerSize) : Option H :=
  if bytes.val.getD 114 0 ≠ (command H).code then
    none
  else
    some (TypedHeader.decode (Frame.decode (command H) bytes) bytes)

def calculateChecksum [Checksum] (header : H) : Nat :=
  Checksum.checksum ((toWire header).val.drop 16)

-- The base header of a message.
def base (header : H) : Result Header :=
  match Header.fromWire (toWire header) with
  | some header => .ok header
  | none => abort "frame decodes by construction"

end TypedHeader

def Header.intoTyped (H : Type) [TypedHeader H] (header : Header) : Option H :=
  if header.command ≠ TypedHeader.command H then none else TypedHeader.fromWire header.toWire

structure Ping extends Frame where
  checkpointId : U128
  checkpointOp : U64
  pingTimestampMonotonic : U64
  releaseCount : U16
  reserved : Bytes 94

namespace Ping

def fields : List (RecordField Ping) := [
  .word 128 Ping.checkpointId,
  .word 144 Ping.checkpointOp,
  .word 152 Ping.pingTimestampMonotonic,
  .word 160 Ping.releaseCount,
  .array 162 Ping.reserved]

def decode (frame : Frame) (bytes : Bytes headerSize) : Ping where
  toFrame := frame
  checkpointId := get 16 bytes.val 128
  checkpointOp := get 8 bytes.val 144
  pingTimestampMonotonic := get 8 bytes.val 152
  releaseCount := get 2 bytes.val 160
  reserved := getBytes bytes 162 94 (by decide)

instance : TypedHeader Ping where
  command := .ping
  frame := toFrame
  fields := fields
  decode := decode

end Ping

structure Pong extends Frame where
  pingTimestampMonotonic : U64
  pongTimestampWall : U64
  reserved : Bytes 112

namespace Pong

def fields : List (RecordField Pong) := [
  .word 128 Pong.pingTimestampMonotonic,
  .word 136 Pong.pongTimestampWall,
  .array 144 Pong.reserved]

def decode (frame : Frame) (bytes : Bytes headerSize) : Pong where
  toFrame := frame
  pingTimestampMonotonic := get 8 bytes.val 128
  pongTimestampWall := get 8 bytes.val 136
  reserved := getBytes bytes 144 112 (by decide)

instance : TypedHeader Pong where
  command := .pong
  frame := toFrame
  fields := fields
  decode := decode

end Pong

structure PingClient extends Frame where
  client : U128
  pingTimestampMonotonic : U64
  session : U64
  reserved : Bytes 96

namespace PingClient

def fields : List (RecordField PingClient) := [
  .word 128 PingClient.client,
  .word 144 PingClient.pingTimestampMonotonic,
  .word 152 PingClient.session,
  .array 160 PingClient.reserved]

def decode (frame : Frame) (bytes : Bytes headerSize) : PingClient where
  toFrame := frame
  client := get 16 bytes.val 128
  pingTimestampMonotonic := get 8 bytes.val 144
  session := get 8 bytes.val 152
  reserved := getBytes bytes 160 96 (by decide)

instance : TypedHeader PingClient where
  command := .pingClient
  frame := toFrame
  fields := fields
  decode := decode

end PingClient

structure PongClient extends Frame where
  pingTimestampMonotonic : U64
  reserved : Bytes 120

namespace PongClient

def fields : List (RecordField PongClient) := [
  .word 128 PongClient.pingTimestampMonotonic,
  .array 136 PongClient.reserved]

def decode (frame : Frame) (bytes : Bytes headerSize) : PongClient where
  toFrame := frame
  pingTimestampMonotonic := get 8 bytes.val 128
  reserved := getBytes bytes 136 120 (by decide)

instance : TypedHeader PongClient where
  command := .pongClient
  frame := toFrame
  fields := fields
  decode := decode

end PongClient

structure Request extends Frame where
  parent : U128
  parentPadding : U128
  client : U128
  session : U64
  timestamp : U64
  request : U32
  operation : U8
  previousRequestLatencyPadding : Bytes 3
  previousRequestLatency : U32
  reserved : Bytes 52

namespace Request

def fields : List (RecordField Request) := [
  .word 128 Request.parent,
  .word 144 Request.parentPadding,
  .word 160 Request.client,
  .word 176 Request.session,
  .word 184 Request.timestamp,
  .word 192 Request.request,
  .word 196 Request.operation,
  .array 197 Request.previousRequestLatencyPadding,
  .word 200 Request.previousRequestLatency,
  .array 204 Request.reserved]

def decode (frame : Frame) (bytes : Bytes headerSize) : Request where
  toFrame := frame
  parent := get 16 bytes.val 128
  parentPadding := get 16 bytes.val 144
  client := get 16 bytes.val 160
  session := get 8 bytes.val 176
  timestamp := get 8 bytes.val 184
  request := get 4 bytes.val 192
  operation := get 1 bytes.val 196
  previousRequestLatencyPadding := getBytes bytes 197 3 (by decide)
  previousRequestLatency := get 4 bytes.val 200
  reserved := getBytes bytes 204 52 (by decide)

instance : TypedHeader Request where
  command := .request
  frame := toFrame
  fields := fields
  decode := decode

end Request

namespace Prepare

def frame (prepare : Prepare) : Frame where
  checksum := prepare.checksum
  checksumPadding := prepare.checksumPadding
  checksumBody := prepare.checksumBody
  checksumBodyPadding := prepare.checksumBodyPadding
  nonceReserved := prepare.nonceReserved
  cluster := prepare.cluster
  size := prepare.size
  epoch := prepare.epoch
  view := prepare.view
  release := prepare.release
  protocol := prepare.protocol
  command := prepare.command
  replica := prepare.replica
  reservedFrame := prepare.reservedFrame

def fields : List (RecordField Prepare) := [
  .word 128 Prepare.parent,
  .word 144 Prepare.parentPadding,
  .word 160 Prepare.requestChecksum,
  .word 176 Prepare.requestChecksumPadding,
  .word 192 Prepare.checkpointId,
  .word 208 Prepare.client,
  .word 224 Prepare.op,
  .word 232 Prepare.commit,
  .word 240 Prepare.timestamp,
  .word 248 Prepare.request,
  .word 252 Prepare.operation,
  .array 253 Prepare.reserved]

def decodeFramed (frame : Frame) (bytes : Bytes headerSize) : Prepare where
  checksum := frame.checksum
  checksumPadding := frame.checksumPadding
  checksumBody := frame.checksumBody
  checksumBodyPadding := frame.checksumBodyPadding
  nonceReserved := frame.nonceReserved
  cluster := frame.cluster
  size := frame.size
  epoch := frame.epoch
  view := frame.view
  release := frame.release
  protocol := frame.protocol
  command := frame.command
  replica := frame.replica
  reservedFrame := frame.reservedFrame
  parent := get 16 bytes.val 128
  parentPadding := get 16 bytes.val 144
  requestChecksum := get 16 bytes.val 160
  requestChecksumPadding := get 16 bytes.val 176
  checkpointId := get 16 bytes.val 192
  client := get 16 bytes.val 208
  op := get 8 bytes.val 224
  commit := get 8 bytes.val 232
  timestamp := get 8 bytes.val 240
  request := get 4 bytes.val 248
  operation := get 1 bytes.val 252
  reserved := getBytes bytes 253 3 reserved_fits

instance : TypedHeader Prepare where
  command := .prepare
  frame := frame
  fields := fields
  decode := decodeFramed

end Prepare

structure PrepareOk extends Frame where
  parent : U128
  parentPadding : U128
  prepareChecksum : U128
  prepareChecksumPadding : U128
  checkpointId : U128
  client : U128
  op : U64
  commitMin : U64
  timestamp : U64
  request : U32
  operation : U8
  reserved : Bytes 3

namespace PrepareOk

def fields : List (RecordField PrepareOk) := [
  .word 128 PrepareOk.parent,
  .word 144 PrepareOk.parentPadding,
  .word 160 PrepareOk.prepareChecksum,
  .word 176 PrepareOk.prepareChecksumPadding,
  .word 192 PrepareOk.checkpointId,
  .word 208 PrepareOk.client,
  .word 224 PrepareOk.op,
  .word 232 PrepareOk.commitMin,
  .word 240 PrepareOk.timestamp,
  .word 248 PrepareOk.request,
  .word 252 PrepareOk.operation,
  .array 253 PrepareOk.reserved]

def decode (frame : Frame) (bytes : Bytes headerSize) : PrepareOk where
  toFrame := frame
  parent := get 16 bytes.val 128
  parentPadding := get 16 bytes.val 144
  prepareChecksum := get 16 bytes.val 160
  prepareChecksumPadding := get 16 bytes.val 176
  checkpointId := get 16 bytes.val 192
  client := get 16 bytes.val 208
  op := get 8 bytes.val 224
  commitMin := get 8 bytes.val 232
  timestamp := get 8 bytes.val 240
  request := get 4 bytes.val 248
  operation := get 1 bytes.val 252
  reserved := getBytes bytes 253 3 reserved_fits

instance : TypedHeader PrepareOk where
  command := .prepareOk
  frame := toFrame
  fields := fields
  decode := decode

end PrepareOk

structure Reply extends Frame where
  requestChecksum : U128
  requestChecksumPadding : U128
  context : U128
  contextPadding : U128
  client : U128
  op : U64
  commit : U64
  timestamp : U64
  request : U32
  operation : U8
  reserved : Bytes 19

namespace Reply

def fields : List (RecordField Reply) := [
  .word 128 Reply.requestChecksum,
  .word 144 Reply.requestChecksumPadding,
  .word 160 Reply.context,
  .word 176 Reply.contextPadding,
  .word 192 Reply.client,
  .word 208 Reply.op,
  .word 216 Reply.commit,
  .word 224 Reply.timestamp,
  .word 232 Reply.request,
  .word 236 Reply.operation,
  .array 237 Reply.reserved]

def decode (frame : Frame) (bytes : Bytes headerSize) : Reply where
  toFrame := frame
  requestChecksum := get 16 bytes.val 128
  requestChecksumPadding := get 16 bytes.val 144
  context := get 16 bytes.val 160
  contextPadding := get 16 bytes.val 176
  client := get 16 bytes.val 192
  op := get 8 bytes.val 208
  commit := get 8 bytes.val 216
  timestamp := get 8 bytes.val 224
  request := get 4 bytes.val 232
  operation := get 1 bytes.val 236
  reserved := getBytes bytes 237 19 (by decide)

instance : TypedHeader Reply where
  command := .reply
  frame := toFrame
  fields := fields
  decode := decode

end Reply

structure Commit extends Frame where
  commitChecksum : U128
  commitChecksumPadding : U128
  checkpointId : U128
  checkpointOp : U64
  commit : U64
  timestampMonotonic : U64
  reserved : Bytes 56

namespace Commit

def fields : List (RecordField Commit) := [
  .word 128 Commit.commitChecksum,
  .word 144 Commit.commitChecksumPadding,
  .word 160 Commit.checkpointId,
  .word 176 Commit.checkpointOp,
  .word 184 Commit.commit,
  .word 192 Commit.timestampMonotonic,
  .array 200 Commit.reserved]

def decode (frame : Frame) (bytes : Bytes headerSize) : Commit where
  toFrame := frame
  commitChecksum := get 16 bytes.val 128
  commitChecksumPadding := get 16 bytes.val 144
  checkpointId := get 16 bytes.val 160
  checkpointOp := get 8 bytes.val 176
  commit := get 8 bytes.val 184
  timestampMonotonic := get 8 bytes.val 192
  reserved := getBytes bytes 200 56 (by decide)

instance : TypedHeader Commit where
  command := .commit
  frame := toFrame
  fields := fields
  decode := decode

end Commit

structure ExitView extends Frame where
  reserved : Bytes 128

namespace ExitView

def fields : List (RecordField ExitView) := [
  .array 128 ExitView.reserved]

def decode (frame : Frame) (bytes : Bytes headerSize) : ExitView where
  toFrame := frame
  reserved := getBytes bytes 128 128 (by decide)

instance : TypedHeader ExitView where
  command := .exitView
  frame := toFrame
  fields := fields
  decode := decode

end ExitView

structure JoinView extends Frame where
  presentBitset : U128
  nackBitset : U128
  op : U64
  commitMin : U64
  checkpointOp : U64
  logView : U32
  reserved : Bytes 68

namespace JoinView

def fields : List (RecordField JoinView) := [
  .word 128 JoinView.presentBitset,
  .word 144 JoinView.nackBitset,
  .word 160 JoinView.op,
  .word 168 JoinView.commitMin,
  .word 176 JoinView.checkpointOp,
  .word 184 JoinView.logView,
  .array 188 JoinView.reserved]

def decode (frame : Frame) (bytes : Bytes headerSize) : JoinView where
  toFrame := frame
  presentBitset := get 16 bytes.val 128
  nackBitset := get 16 bytes.val 144
  op := get 8 bytes.val 160
  commitMin := get 8 bytes.val 168
  checkpointOp := get 8 bytes.val 176
  logView := get 4 bytes.val 184
  reserved := getBytes bytes 188 68 (by decide)

instance : TypedHeader JoinView where
  command := .joinView
  frame := toFrame
  fields := fields
  decode := decode

end JoinView

structure View extends Frame where
  nonce : U128
  op : U64
  commitMax : U64
  checkpointOp : U64
  reserved : Bytes 88

namespace View

def fields : List (RecordField View) := [
  .word 128 View.nonce,
  .word 144 View.op,
  .word 152 View.commitMax,
  .word 160 View.checkpointOp,
  .array 168 View.reserved]

def decode (frame : Frame) (bytes : Bytes headerSize) : View where
  toFrame := frame
  nonce := get 16 bytes.val 128
  op := get 8 bytes.val 144
  commitMax := get 8 bytes.val 152
  checkpointOp := get 8 bytes.val 160
  reserved := getBytes bytes 168 88 (by decide)

instance : TypedHeader View where
  command := .view
  frame := toFrame
  fields := fields
  decode := decode

end View

structure GetView extends Frame where
  nonce : U128
  reserved : Bytes 112

namespace GetView

def fields : List (RecordField GetView) := [
  .word 128 GetView.nonce,
  .array 144 GetView.reserved]

def decode (frame : Frame) (bytes : Bytes headerSize) : GetView where
  toFrame := frame
  nonce := get 16 bytes.val 128
  reserved := getBytes bytes 144 112 (by decide)

instance : TypedHeader GetView where
  command := .getView
  frame := toFrame
  fields := fields
  decode := decode

end GetView

structure GetHeaders extends Frame where
  opMin : U64
  opMax : U64
  reserved : Bytes 112

namespace GetHeaders

def fields : List (RecordField GetHeaders) := [
  .word 128 GetHeaders.opMin,
  .word 136 GetHeaders.opMax,
  .array 144 GetHeaders.reserved]

def decode (frame : Frame) (bytes : Bytes headerSize) : GetHeaders where
  toFrame := frame
  opMin := get 8 bytes.val 128
  opMax := get 8 bytes.val 136
  reserved := getBytes bytes 144 112 (by decide)

instance : TypedHeader GetHeaders where
  command := .getHeaders
  frame := toFrame
  fields := fields
  decode := decode

end GetHeaders

structure GetPrepare extends Frame where
  prepareChecksum : U128
  prepareChecksumPadding : U128
  prepareOp : U64
  reserved : Bytes 88

namespace GetPrepare

def fields : List (RecordField GetPrepare) := [
  .word 128 GetPrepare.prepareChecksum,
  .word 144 GetPrepare.prepareChecksumPadding,
  .word 160 GetPrepare.prepareOp,
  .array 168 GetPrepare.reserved]

def decode (frame : Frame) (bytes : Bytes headerSize) : GetPrepare where
  toFrame := frame
  prepareChecksum := get 16 bytes.val 128
  prepareChecksumPadding := get 16 bytes.val 144
  prepareOp := get 8 bytes.val 160
  reserved := getBytes bytes 168 88 (by decide)

instance : TypedHeader GetPrepare where
  command := .getPrepare
  frame := toFrame
  fields := fields
  decode := decode

end GetPrepare

structure GetReply extends Frame where
  replyChecksum : U128
  replyChecksumPadding : U128
  replyClient : U128
  replyOp : U64
  reserved : Bytes 72

namespace GetReply

def fields : List (RecordField GetReply) := [
  .word 128 GetReply.replyChecksum,
  .word 144 GetReply.replyChecksumPadding,
  .word 160 GetReply.replyClient,
  .word 176 GetReply.replyOp,
  .array 184 GetReply.reserved]

def decode (frame : Frame) (bytes : Bytes headerSize) : GetReply where
  toFrame := frame
  replyChecksum := get 16 bytes.val 128
  replyChecksumPadding := get 16 bytes.val 144
  replyClient := get 16 bytes.val 160
  replyOp := get 8 bytes.val 176
  reserved := getBytes bytes 184 72 (by decide)

instance : TypedHeader GetReply where
  command := .getReply
  frame := toFrame
  fields := fields
  decode := decode

end GetReply

structure Headers extends Frame where
  reserved : Bytes 128

namespace Headers

def fields : List (RecordField Headers) := [
  .array 128 Headers.reserved]

def decode (frame : Frame) (bytes : Bytes headerSize) : Headers where
  toFrame := frame
  reserved := getBytes bytes 128 128 (by decide)

instance : TypedHeader Headers where
  command := .headers
  frame := toFrame
  fields := fields
  decode := decode

end Headers

structure Eviction extends Frame where
  client : U128
  reserved : Bytes 111
  reasonOrdinal : U8

namespace Eviction

def fields : List (RecordField Eviction) := [
  .word 128 Eviction.client,
  .array 144 Eviction.reserved,
  .word 255 Eviction.reasonOrdinal]

def decode (frame : Frame) (bytes : Bytes headerSize) : Eviction where
  toFrame := frame
  client := get 16 bytes.val 128
  reserved := getBytes bytes 144 111 (by decide)
  reasonOrdinal := get 1 bytes.val 255

instance : TypedHeader Eviction where
  command := .eviction
  frame := toFrame
  fields := fields
  decode := decode

end Eviction

structure GetBlocks extends Frame where
  reserved : Bytes 128

namespace GetBlocks

def fields : List (RecordField GetBlocks) := [
  .array 128 GetBlocks.reserved]

def decode (frame : Frame) (bytes : Bytes headerSize) : GetBlocks where
  toFrame := frame
  reserved := getBytes bytes 128 128 (by decide)

instance : TypedHeader GetBlocks where
  command := .getBlocks
  frame := toFrame
  fields := fields
  decode := decode

end GetBlocks

structure Block extends Frame where
  metadataBytes : Bytes 96
  address : U64
  snapshot : U64
  blockTypeOrdinal : U8
  reservedBlock : Bytes 15

namespace Block

def fields : List (RecordField Block) := [
  .array 128 Block.metadataBytes,
  .word 224 Block.address,
  .word 232 Block.snapshot,
  .word 240 Block.blockTypeOrdinal,
  .array 241 Block.reservedBlock]

def decode (frame : Frame) (bytes : Bytes headerSize) : Block where
  toFrame := frame
  metadataBytes := getBytes bytes 128 96 (by decide)
  address := get 8 bytes.val 224
  snapshot := get 8 bytes.val 232
  blockTypeOrdinal := get 1 bytes.val 240
  reservedBlock := getBytes bytes 241 15 (by decide)

instance : TypedHeader Block where
  command := .block
  frame := toFrame
  fields := fields
  decode := decode

end Block

end TigerBeetle.Wire
