import TigerBeetle.Constants
import TigerBeetle.Machine
import TigerBeetle.Slots

-- The framing of the messages in the bytes that a connection receives.
namespace TigerBeetle

open LittleEndian

class Checksum where
  checksum : List UInt8 → Nat

-- The commands are numbered from 0 to 24.
def commandMax : UInt8 := 24

-- A header is known by the bytes that it is encoded as.
structure MessageHeader where
  bytes : List UInt8
  deriving DecidableEq

namespace MessageHeader

def fromWire (bytes : List UInt8) : Option MessageHeader :=
  if bytes.getD 114 0 ≤ commandMax then some ⟨bytes⟩ else none

variable (header : MessageHeader)

def checksum : Nat := ofBytes (slice header.bytes 0 16)

def checksumBody : Nat := ofBytes (slice header.bytes 32 16)

def size : Nat := ofBytes (slice header.bytes 96 4)

def validChecksumBody [Checksum] (body : List UInt8) : Result Bool := do
  assert (header.size = headerSize + body.length) "self.size == SIZE + body.len()"
  return header.checksumBody = Checksum.checksum body

end MessageHeader

inductive InvalidReason
  | headerChecksum
  | headerSize
  | bodyChecksum
  deriving DecidableEq

inductive IteratorState
  | idle
  | afterPeek
  | afterConsumeSuspend
  deriving DecidableEq

structure MessageBuffer where
  message : List UInt8
  suspendSize : Nat
  processSize : Nat
  advanceSize : Nat
  receiveSize : Nat
  invalid : Option InvalidReason
  iteratorState : IteratorState

namespace Bytes

-- The bytes of a range.
def range (bytes : List UInt8) (start stop : Nat) : Result (List UInt8) := do
  assert (start ≤ stop ∧ stop ≤ bytes.length) "range end index out of range for slice"
  return slice bytes start (stop - start)

def copyWithin (bytes : List UInt8) (start stop dst : Nat) : Result (List UInt8) := do
  let source ← range bytes start stop
  assert (dst + source.length ≤ bytes.length) "dest is out of bounds"
  return Slots.put bytes dst source

end Bytes

def checkedSub (x y : Nat) : Result Nat := do
  assert (y ≤ x) "attempt to subtract with overflow"
  return x - y

namespace MessageBuffer

def new : MessageBuffer where
  message := List.replicate messageSizeMax 0
  suspendSize := 0
  processSize := 0
  advanceSize := 0
  receiveSize := 0
  invalid := none
  iteratorState := .idle

variable (b : MessageBuffer)

def invariants : Result Unit := do
  assert (b.suspendSize ≤ b.processSize) "self.suspend_size <= self.process_size"
  assert (b.processSize ≤ b.advanceSize) "self.process_size <= self.advance_size"
  assert (b.advanceSize ≤ b.receiveSize) "self.advance_size <= self.receive_size"
  if b.invalid.isSome then
    assert (b.suspendSize = 0) "self.suspend_size == 0"
    assert (b.processSize = 0) "self.process_size == 0"
    assert (b.advanceSize = 0) "self.advance_size == 0"
    assert (b.receiveSize = 0) "self.receive_size == 0"
    assert (b.iteratorState = .idle) "self.iterator_state == IteratorState::Idle"

def invalidate (reason : InvalidReason) : Result MessageBuffer := do
  assert (b.invalid = none) "self.invalid.is_none()"
  let b := { b with
    suspendSize := 0
    processSize := 0
    advanceSize := 0
    receiveSize := 0
    iteratorState := .idle
    invalid := some reason
  }
  b.invariants
  return b

def copyHeader : Result MessageHeader := do
  assert (headerSize ≤ (← checkedSub b.receiveSize b.processSize))
    "self.receive_size - self.process_size >= HEADER_SIZE_U32"
  let headerBytes ← Bytes.range b.message b.processSize (b.processSize + headerSize)
  match MessageHeader.fromWire headerBytes with
  | some header => return header
  | none => abort "command validated by advance_header"

-- The bytes from those that are processed on are moved over the hole in front of them.
def moveBack (stop : Nat) : Result (List UInt8) :=
  if b.suspendSize < b.processSize then
    Bytes.copyWithin b.message b.processSize stop b.suspendSize
  else
    return b.message

variable [Checksum]

def advanceHeader : Result MessageBuffer := do
  assert (b.invalid = none) "self.invalid.is_none()"
  assert (b.advanceSize ≤ b.receiveSize) "self.advance_size <= self.receive_size"
  if b.processSize + headerSize ≤ b.advanceSize then return b
  assert (b.advanceSize = b.processSize) "self.advance_size == self.process_size"
  if (← checkedSub b.receiveSize b.processSize) < headerSize then return b
  let headerBytes ← Bytes.range b.message b.processSize (b.processSize + headerSize)
  if ofBytes (slice headerBytes 0 16) ≠ Checksum.checksum (headerBytes.drop 16) then
    b.invalidate .headerChecksum
  else
    match MessageHeader.fromWire headerBytes with
    | none => abort "unknown VSR command, crashing for safety"
    | some header =>
      if header.size < headerSize ∨ messageSizeMax < header.size then
        b.invalidate .headerSize
      else
        return { b with advanceSize := b.advanceSize + headerSize }

def advanceBody : Result MessageBuffer := do
  assert (b.invalid = none) "self.invalid.is_none()"
  if b.advanceSize < b.processSize + headerSize then return b
  let header ← b.copyHeader
  if (← checkedSub b.receiveSize b.processSize) < header.size then return b
  if b.processSize + header.size ≤ b.advanceSize then return b
  assert ((← checkedSub b.advanceSize b.processSize) = headerSize)
    "self.advance_size - self.process_size == HEADER_SIZE_U32"
  let body ← Bytes.range b.message (b.processSize + headerSize) (b.processSize + header.size)
  if ← header.validChecksumBody body then
    return { b with advanceSize := b.advanceSize + (← checkedSub header.size headerSize) }
  else
    b.invalidate .bodyChecksum

def advance : Result MessageBuffer := do
  let b ← if b.invalid = none then b.advanceHeader else pure b
  let b ← if b.invalid = none then b.advanceBody else pure b
  b.invariants
  return b

-- The kernel reads bytes into the buffer.
def receive (bytes : List UInt8) : Result MessageBuffer := do
  assert (b.receiveSize < messageSizeMax) "self.receive_size < MESSAGE_SIZE_MAX"
  assert (b.iteratorState = .idle) "self.iterator_state == IteratorState::Idle"
  assert (b.invalid = none) "self.invalid.is_none()"
  return { b with message := Slots.put b.message b.receiveSize bytes }

def recvAdvance (size : Nat) : Result MessageBuffer := do
  assert (b.iteratorState = .idle) "self.iterator_state == IteratorState::Idle"
  assert (b.processSize = 0) "self.process_size == 0"
  assert (0 < size) "size > 0"
  assert (size ≤ messageSizeMax) "size <= MESSAGE_SIZE_MAX"
  let b := { b with receiveSize := b.receiveSize + size }
  assert (b.receiveSize ≤ messageSizeMax) "self.receive_size <= MESSAGE_SIZE_MAX"
  b.advance

-- The message that is next in the iteration, if it has been received and is valid.
def peek : Result (Option MessageHeader) := do
  let validUnprocessed ← checkedSub b.advanceSize b.processSize
  if headerSize ≤ validUnprocessed then
    assert (b.invalid = none) "self.invalid.is_none()"
    let header ← b.copyHeader
    return if header.size ≤ validUnprocessed then some header else none
  else
    return none

-- What is left is shifted to what has been suspended, which ends the iteration.
def shift : Result MessageBuffer := do
  assert (b.suspendSize ≤ b.processSize) "self.suspend_size <= self.process_size"
  assert (b.processSize ≤ b.receiveSize) "self.process_size <= self.receive_size"
  let b := { b with
    message := ← b.moveBack b.receiveSize
    receiveSize := ← checkedSub b.receiveSize (b.processSize - b.suspendSize)
    advanceSize := ← checkedSub b.advanceSize (b.processSize - b.suspendSize)
    suspendSize := 0
    processSize := 0
    iteratorState := .idle
  }
  let advanceSizeIdempotent := b.advanceSize
  let b ← b.advance
  assert (b.advanceSize = advanceSizeIdempotent) "self.advance_size == advance_size_idempotent"
  return b

def nextHeader : Result (Option MessageHeader × MessageBuffer) := do
  assert (b.iteratorState ≠ .afterPeek) "internal error: entered unreachable code"
  match ← b.peek with
  | some header => return (some header, { b with iteratorState := .afterPeek })
  | none => return (none, ← b.shift)

def consumeMessage (header : MessageHeader) : Result (List UInt8 × MessageBuffer) := do
  assert (b.iteratorState = .afterPeek) "self.iterator_state == IteratorState::AfterPeek"
  assert (header.size ≤ (← checkedSub b.advanceSize b.processSize))
    "self.advance_size - self.process_size >= header.size"
  assert (b.invalid = none) "self.invalid.is_none()"
  let bytes ← Bytes.range b.message b.processSize (b.processSize + header.size)
  let message := Slots.put (List.replicate messageSizeMax 0) 0 bytes
  let b := { b with processSize := b.processSize + header.size }
  assert (b.processSize ≤ b.receiveSize) "self.process_size <= self.receive_size"
  let b ← b.advance
  assert ((MessageHeader.fromWire (message.take headerSize)).map MessageHeader.checksum =
    some header.checksum) "Header::from_wire(frame).map(|h| h.checksum) == Some(header.checksum)"
  return (message, { b with iteratorState := .afterConsumeSuspend })

def suspendMessage (header : MessageHeader) : Result MessageBuffer := do
  assert (b.iteratorState = .afterPeek) "self.iterator_state == IteratorState::AfterPeek"
  assert (header.size ≤ (← checkedSub b.advanceSize b.processSize))
    "self.advance_size - self.process_size >= header.size"
  assert (b.invalid = none) "self.invalid.is_none()"
  assert (header.size ≤ messageSizeMax) "header.size <= constants::MESSAGE_SIZE_MAX"
  assert (b.suspendSize ≤ b.processSize) "self.suspend_size <= self.process_size"
  let b ← advance { b with
    message := ← b.moveBack (b.processSize + header.size)
    suspendSize := b.suspendSize + header.size
    processSize := b.processSize + header.size
  }
  return { b with iteratorState := .afterConsumeSuspend }

end MessageBuffer

-- A connection: what has not been received yet, the header of the message that the iteration is at,
-- what has been consumed, and the headers of what has been suspended and not been peeked at again,
-- which a buffer that is invalid keeps.
structure Framing where
  buffer : MessageBuffer
  incoming : List UInt8
  header : Option MessageHeader
  consumed : List (List UInt8)
  suspended : List MessageHeader

namespace Framing

inductive Event
  | receive (size : Nat)
  | next
  | consume
  | suspend

variable [Checksum]

def machine (incoming : List UInt8) : Machine Framing Event Fault where
  init s := s = ⟨.new, incoming, none, [], []⟩
  step s
    | .receive size => do
      let buffer ← s.buffer.receive (s.incoming.take size)
      return { s with buffer := ← buffer.recvAdvance size, incoming := s.incoming.drop size }
    | .next => do
      let (header, buffer) ← s.buffer.nextHeader
      return { s with
        buffer, header
        suspended := if header.isSome ∨ buffer.invalid.isSome then s.suspended else [] }
    | .consume =>
      match s.header with
      | none => return s
      | some header => do
        let (message, buffer) ← s.buffer.consumeMessage header
        return { s with
          buffer
          header := none
          consumed := s.consumed ++ [message.take header.size] }
    | .suspend =>
      match s.header with
      | none => return s
      | some header => do
        return { s with
          buffer := ← s.buffer.suspendMessage header
          header := none
          suspended := s.suspended ++ [header] }

-- A receive fits the buffer and comes between two iterations, and each message is consumed or
-- suspended once it is peeked at.
def Allowed (s : Framing) : Event → Prop
  | .receive size =>
    s.header = none ∧ s.buffer.iteratorState = .idle ∧ s.buffer.invalid = none ∧ 0 < size ∧
      size ≤ s.incoming.length ∧ s.buffer.receiveSize + size ≤ messageSizeMax
  | .next => s.header = none
  | .consume | .suspend => s.header.isSome = true

end Framing

end TigerBeetle
