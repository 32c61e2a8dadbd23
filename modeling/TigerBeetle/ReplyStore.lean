import TigerBeetle.SessionTable

-- The replies themselves, which are written to a zone of the storage asynchronously.
namespace TigerBeetle.ReplyStore

open LittleEndian

def clientRepliesIopsReadMax : Nat := 1

abbrev Slot := Fin clientsMax

abbrev ReadIndex := Fin clientRepliesIopsReadMax

abbrev WriteIndex := Fin clientRepliesIopsWriteMax

def slotOffset (slot : Slot) : Nat :=
  slot * messageSizeMax

def sectorCeil (size : Nat) : Nat :=
  (size + (sectorSize - 1)) / sectorSize * sectorSize

structure Message where
  buffer : List UInt8
  length_eq : buffer.length = messageSizeMax

namespace Message

-- A new message with a buffer copied to its start.
def copied (buffer : List UInt8) : Result Message :=
  if h : buffer.length ≤ messageSizeMax then
    .ok {
      buffer := buffer ++ List.replicate (messageSizeMax - buffer.length) 0
      length_eq := by rw [List.length_append, List.length_replicate, Nat.add_sub_cancel' h] }
  else
    abort "range end index out of range for slice"

variable (message : Message)

def frame : List UInt8 :=
  message.buffer.take headerSize

def header : Option SessionTable.Reply :=
  SessionTable.Reply.fromWire message.frame

def sizeRaw : Nat :=
  ofBytes (slice message.buffer 96 4)

def bodyUsed : Result (List UInt8) := do
  assert (headerSize ≤ message.sizeRaw) "size >= HEADER_SIZE"
  assert (message.sizeRaw ≤ message.buffer.length) "range end index out of range for slice"
  return slice message.buffer headerSize (message.sizeRaw - headerSize)

-- Whether the frame has a command that is known, as is needed to parse its base header.
def parses : Bool :=
  slice message.buffer 114 1 ∈ (List.range 25).map fun ordinal => [UInt8.ofNat ordinal]

end Message

inductive WriteTrigger
  | commit
  | repair
  deriving DecidableEq, Repr

inductive ReadOutcome
  | found (message : Message)
  | resolvedByWrite (message : Message)
  | corrupt
  | unexpected

inductive Event
  | readReply (slot : Slot) (header : SessionTable.Reply) (destinationReplica : Option Nat)
      (outcome : ReadOutcome)
  | ready
  | checkpointDone

structure ReadOp where
  slot : Slot
  -- The header of the reply that is expected.
  header : SessionTable.Reply
  destinationReplica : Option Nat
  wanted : Bool

structure WriteOp where
  slot : Slot
  message : Message
  trigger : WriteTrigger

structure ReadRequest where
  offset : Nat
  length : Nat
  deriving DecidableEq, Repr

structure WriteRequest where
  offset : Nat
  buffer : List UInt8
  deriving DecidableEq, Repr

-- The rest of the last sector is zero.
def WriteOp.request (write : WriteOp) : WriteRequest where
  offset := slotOffset write.slot
  buffer := write.message.buffer.take write.message.sizeRaw ++
    List.replicate (sectorCeil write.message.sizeRaw - write.message.sizeRaw) 0

structure ClientReplies where
  reads : ReadIndex → Option ReadOp
  readsInFlight : List ReadIndex
  writes : WriteIndex → Option WriteOp
  -- The writes that are queued or executing, in the order in which they were acquired.
  writesInFlight : List WriteIndex
  -- Those that are queued behind another write to the same slot.
  writeQueue : List WriteIndex
  writing : Slot → Bool
  -- The slots whose reply is corrupt or missing.
  faulty : Slot → Bool
  readyWaiting : Bool
  checkpointWaiting : Bool
  events : List Event

namespace ClientReplies

def new : ClientReplies where
  reads := fun _ => none
  readsInFlight := []
  writes := fun _ => none
  writesInFlight := []
  writeQueue := []
  writing := fun _ => false
  faulty := fun _ => false
  readyWaiting := false
  checkpointWaiting := false
  events := []

variable (replies : ClientReplies)

-- The write of a client's latest request, where `latest` is the latest one so far.
def latestOf (client : BitVec 128) :
    (latest : Option (BitVec 32 × WriteOp)) → List WriteIndex → Option (BitVec 32 × WriteOp)
  | latest, [] => latest
  | latest, index :: rest =>
    match replies.writes index with
    | none => latestOf client latest rest
    | some write =>
      match write.message.header with
      | none => latestOf client latest rest
      | some header =>
        if header.client ≠ client then
          latestOf client latest rest
        else if latest.all fun (request, _) => request < header.request then
          latestOf client (some (header.request, write)) rest
        else
          latestOf client latest rest

def writeInFlightLatest (slot : Slot) (session : SessionTable.Entry) : Result (Option Message) :=
  if replies.writing slot then
    match replies.latestOf session.header.client none replies.writesInFlight with
    | none => return none
    | some (_, write) =>
      match write.message.header with
      | none => return none
      | some header => do
        assert (header.checksum = session.header.checksum ∨ replies.faulty slot)
          "mismatching in-flight write without faulty bit"
        return if header.checksum = session.header.checksum then some write.message else none
  else
    return none

-- The read is not started if all of the operations are in use.
def readReply (slot : Slot) (session : SessionTable.Entry) (destinationReplica : Option Nat) :
    Result (Option (ClientReplies × ReadRequest)) := do
  assert ((← replies.writeInFlightLatest slot session).isNone)
    "caller must check write_in_flight_latest() first"
  match (List.finRange clientRepliesIopsReadMax).find? fun index => (replies.reads index).isNone with
  | none => return none
  | some index =>
    return some ({ replies with
        reads := Function.update replies.reads index
          (some { slot, header := session.header, destinationReplica, wanted := true })
        readsInFlight := replies.readsInFlight ++ [index] },
      { offset := slotOffset slot, length := sectorCeil session.header.size.toNat })

def readySync : Bool :=
  replies.writesInFlight.length < clientRepliesIopsWriteMax

def ready : Result ClientReplies := do
  assert (!replies.readyWaiting) "!self.ready_waiting"
  assert (!replies.readySync) "!self.ready_sync()"
  return { replies with readyWaiting := true }

def removeReply (slot : Slot) : ClientReplies :=
  { replies with faulty := Function.update replies.faulty slot false }

def markFaulty (slot : Slot) : ClientReplies :=
  { replies with faulty := Function.update replies.faulty slot true }

-- Starts the writes at the head of the queue whose slots are not being written.
def writeReplyNext (replies : ClientReplies) : (queue : List WriteIndex) →
    Result (ClientReplies × List WriteRequest)
  | [] => return ({ replies with writeQueue := [] }, [])
  | head :: queue =>
    match replies.writes head with
    | none => abort "queue only holds live writes"
    | some write =>
      if replies.writing write.slot then
        return ({ replies with writeQueue := head :: queue }, [])
      else do
        assert (sectorCeil write.message.sizeRaw ≤ write.message.buffer.length)
          "range end index out of range for slice"
        assert (∀ byte ∈ slice write.message.buffer write.message.sizeRaw
            (sectorCeil write.message.sizeRaw - write.message.sizeRaw), byte = 0)
          "head.message.buffer()[size..size_ceil].iter().all(|&byte| byte == 0)"
        let (replies, issued) ← writeReplyNext
          { replies with writing := Function.update replies.writing write.slot true } queue
        return (replies, write.request :: issued)

-- The pending reads of a reply are resolved by the write of it.
def resolveReads (header : SessionTable.Reply) (message : Message) : ClientReplies :=
  (List.finRange clientRepliesIopsReadMax).foldl (fun replies index =>
    match replies.reads index with
    | none => replies
    | some read =>
      if read.wanted ∧ read.header.checksum = header.checksum then
        { replies with
          reads := Function.update replies.reads index (some { read with wanted := false })
          events := replies.events ++
            [.readReply read.slot read.header read.destinationReplica (.resolvedByWrite message)] }
      else
        replies) replies

def isQueued (slot : Slot) (index : WriteIndex) : Bool :=
  (replies.writes index).any (·.slot = slot)

-- A queued write to the same slot is replaced by the new one, in place.
def enqueue (slot : Slot) (index : WriteIndex) : ClientReplies :=
  match replies.writeQueue.find? (replies.isQueued slot) with
  | some oldIndex =>
    let replaced := List.map fun i => if i = oldIndex then index else i
    { replies with
      writes := Function.update replies.writes oldIndex none
      writeQueue := replaced replies.writeQueue
      writesInFlight := replaced replies.writesInFlight }
  | none => { replies with writeQueue := replies.writeQueue ++ [index] }

def checkTrigger (slot : Slot) : WriteTrigger → Result Unit
  | .commit => assert (!replies.checkpointWaiting) "!self.checkpoint_waiting"
  | .repair => assert (replies.faulty slot) "self.faulty.get(slot.index)"

def writeReply (slot : Slot) (message : Message) (trigger : WriteTrigger) :
    Result (ClientReplies × List WriteRequest) := do
  assert replies.readySync "self.ready_sync()"
  match message.header with
  | none => abort "caller passes a reply message"
  | some header => do
    assert (header.size ≠ BitVec.ofNat 32 headerSize) "header.size != SIZE"
    replies.checkTrigger slot trigger
    -- The fault is cleared before the write completes.
    let replies := (replies.resolveReads header message).removeReply slot
    match (List.finRange clientRepliesIopsWriteMax).find? fun index => (replies.writes index).isNone with
    | none => abort "capacity checked by ready_sync"
    | some index => do
      let replies := { replies with
        writes := Function.update replies.writes index (some { slot, message, trigger })
        writesInFlight := replies.writesInFlight ++ [index] }
      let replies := replies.enqueue slot index
      let (replies, issued) ← replies.writeReplyNext replies.writeQueue
      assert (replies.writing slot ∨ replies.writeQueue.any (replies.isQueued slot))
        "self.writing.get(slot.index) || self.write_queue.iter().any(..)"
      return (replies, issued)

def checkpoint : Result ClientReplies := do
  assert (!replies.checkpointWaiting) "!self.checkpoint_waiting"
  return { replies with checkpointWaiting := true }

def classifyReadBuffer (checksum : List UInt8 → BitVec 128) (buffer : List UInt8)
    (expected : SessionTable.Reply) : Result ReadOutcome := do
  let message ← Message.copied buffer
  let headerValid := message.parses ∧
    SessionTable.Reply.getWord 16 message.frame 0 = checksum (message.frame.drop 16)
  -- The body is looked at no matter whether the header is valid.
  let bodyValid ← if headerSize ≤ message.sizeRaw ∧ message.parses then do
      let body ← message.bodyUsed
      assert (message.sizeRaw = headerSize + body.length) "self.size == SIZE + body.len()"
      pure (decide (SessionTable.Reply.getWord 16 message.frame 32 = checksum body))
    else
      pure false
  if headerValid ∧ bodyValid then
    match message.header with
    | none => return .corrupt
    | some header => do
      assert (header.command = expected.command) "header.command == expected.command"
      return if header.checksum ≠ expected.checksum then .unexpected else .found message
  else
    return .corrupt

-- The handling of a completed read in `poll`.
def completeRead (checksum : List UInt8 → BitVec 128) (buffer : List UInt8) : Result ClientReplies := do
  match replies.readsInFlight with
  | [] => abort "completion without an outstanding read"
  | index :: rest =>
    match replies.reads index with
    | none => abort "in-flight read is live"
    | some read =>
      let replies := { replies with
        readsInFlight := rest
        reads := Function.update replies.reads index none }
      if read.wanted then do
        let outcome ← classifyReadBuffer checksum buffer read.header
        return { replies with
          events := replies.events ++
            [.readReply read.slot read.header read.destinationReplica outcome] }
      else
        return replies

-- The handling of a completed write in `poll`.
def completeWrite : Result (ClientReplies × List WriteRequest) := do
  match replies.writesInFlight with
  | [] => abort "completion without an outstanding write"
  | index :: rest =>
    match replies.writes index with
    | none => abort "in-flight write is live"
    | some write => do
      assert (replies.writing write.slot) "self.writing.get(write.slot.index)"
      let replies := { replies with
        writesInFlight := rest
        writes := Function.update replies.writes index none
        writing := Function.update replies.writing write.slot false }
      replies.writeReplyNext replies.writeQueue

def writesExecutingByTrigger (trigger : WriteTrigger) : Nat :=
  (replies.writesInFlight.filterMap replies.writes).countP (·.trigger = trigger)

-- The notifications at the end of `poll`.
def notify : ClientReplies :=
  let replies :=
    if replies.readyWaiting ∧ replies.readySync then
      { replies with readyWaiting := false, events := replies.events ++ [.ready] }
    else
      replies
  if replies.checkpointWaiting ∧ replies.writesExecutingByTrigger .commit = 0 then
    { replies with checkpointWaiting := false, events := replies.events ++ [.checkpointDone] }
  else
    replies

def takeEvents : ClientReplies :=
  { replies with events := [] }

end ClientReplies

def ReadOp.request (read : ReadOp) : ReadRequest where
  offset := slotOffset read.slot
  length := sectorCeil read.header.size.toNat

def WriteRequest.apply (request : WriteRequest) (zone : Nat → UInt8) (offset : Nat) : UInt8 :=
  if request.offset ≤ offset ∧ offset < request.offset + request.buffer.length then
    request.buffer.getD (offset - request.offset) 0
  else
    zone offset

-- The store together with its storage, which completes the requests of each kind in the order in
-- which they are issued. What was written so far is remembered, and how much of it has completed.
structure System where
  replies : ClientReplies
  reads : List ReadRequest
  writes : List WriteRequest
  zone : Nat → UInt8
  log : List WriteOp
  completed : Nat

inductive Action
  | writeReply (slot : Slot) (message : Message) (trigger : WriteTrigger)
  | readReply (slot : Slot) (session : SessionTable.Entry) (destinationReplica : Option Nat)
  | removeReply (slot : Slot)
  | markFaulty (slot : Slot)
  | ready
  | checkpoint
  -- What is read need not be what was written.
  | completeRead (buffer : List UInt8)
  | completeWrite
  | notify
  | takeEvents

namespace System

def new (zone : Nat → UInt8) : System where
  replies := .new
  reads := []
  writes := []
  zone := zone
  log := []
  completed := 0

variable (checksum : List UInt8 → BitVec 128) (system : System)

def run : Action → Result System
  | .writeReply slot message trigger => do
    let (replies, issued) ← system.replies.writeReply slot message trigger
    return { system with
      replies
      writes := system.writes ++ issued
      log := system.log ++ [{ slot, message, trigger }] }
  | .readReply slot session destinationReplica => do
    match ← system.replies.readReply slot session destinationReplica with
    | none => return system
    | some (replies, request) => return { system with replies, reads := system.reads ++ [request] }
  | .removeReply slot => return { system with replies := system.replies.removeReply slot }
  | .markFaulty slot => return { system with replies := system.replies.markFaulty slot }
  | .ready => do
    return { system with replies := (← system.replies.ready) }
  | .checkpoint => do
    return { system with replies := (← system.replies.checkpoint) }
  | .completeRead buffer => do
    return { system with
      replies := (← system.replies.completeRead checksum buffer)
      reads := system.reads.tail }
  | .completeWrite => do
    let (replies, issued) ← system.replies.completeWrite
    return { system with
      replies
      writes := system.writes.tail ++ issued
      zone := (system.writes.head?.map (·.apply system.zone)).getD system.zone
      completed := system.completed + 1 }
  | .notify => return { system with replies := system.replies.notify }
  | .takeEvents => return { system with replies := system.replies.takeEvents }

end System

end TigerBeetle.ReplyStore
