import TigerBeetle.Constants
import TigerBeetle.LittleEndian

-- The client sessions as they lie in memory and on disk: an index of the clients, a table of entries
-- and the bits of the slots that are in use.
namespace TigerBeetle.SessionTable

open LittleEndian

@[ext]
structure Reply where
  checksum : BitVec 128
  checksumPadding : BitVec 128
  checksumBody : BitVec 128
  checksumBodyPadding : BitVec 128
  nonceReserved : BitVec 128
  cluster : BitVec 128
  size : BitVec 32
  epoch : BitVec 32
  view : BitVec 32
  release : BitVec 32
  protocol : BitVec 16
  command : Command
  replica : BitVec 8
  reservedFrame : Vector UInt8 12
  requestChecksum : BitVec 128
  requestChecksumPadding : BitVec 128
  context : BitVec 128
  contextPadding : BitVec 128
  client : BitVec 128
  op : BitVec 64
  commit : BitVec 64
  timestamp : BitVec 64
  request : BitVec 32
  operation : BitVec 8
  reserved : Vector UInt8 19
  deriving DecidableEq, Repr

namespace Reply

-- The fields in their order on the wire, which is without gaps.
def fields (reply : Reply) : List (List UInt8) := [
  toBytes 16 reply.checksum.toNat,
  toBytes 16 reply.checksumPadding.toNat,
  toBytes 16 reply.checksumBody.toNat,
  toBytes 16 reply.checksumBodyPadding.toNat,
  toBytes 16 reply.nonceReserved.toNat,
  toBytes 16 reply.cluster.toNat,
  toBytes 4 reply.size.toNat,
  toBytes 4 reply.epoch.toNat,
  toBytes 4 reply.view.toNat,
  toBytes 4 reply.release.toNat,
  toBytes 2 reply.protocol.toNat,
  [reply.command.code],
  toBytes 1 reply.replica.toNat,
  reply.reservedFrame.toList,
  toBytes 16 reply.requestChecksum.toNat,
  toBytes 16 reply.requestChecksumPadding.toNat,
  toBytes 16 reply.context.toNat,
  toBytes 16 reply.contextPadding.toNat,
  toBytes 16 reply.client.toNat,
  toBytes 8 reply.op.toNat,
  toBytes 8 reply.commit.toNat,
  toBytes 8 reply.timestamp.toNat,
  toBytes 4 reply.request.toNat,
  toBytes 1 reply.operation.toNat,
  reply.reserved.toList
]

def toWire (reply : Reply) : List UInt8 :=
  reply.fields.flatten

-- The word of the given number of bytes at an offset.
def getWord (size : Nat) (bytes : List UInt8) (offset : Nat) : BitVec (8 * size) :=
  .ofNat _ (ofBytes (slice bytes offset size))

def getArray (size : Nat) (bytes : List UInt8) (offset : Nat) : Vector UInt8 size :=
  .ofFn fun i => (slice bytes offset size).getD i 0

def fromWire (bytes : List UInt8) : Option Reply :=
  if slice bytes 114 1 ≠ [Command.reply.code] then
    none
  else some {
    checksum := getWord 16 bytes 0
    checksumPadding := getWord 16 bytes 16
    checksumBody := getWord 16 bytes 32
    checksumBodyPadding := getWord 16 bytes 48
    nonceReserved := getWord 16 bytes 64
    cluster := getWord 16 bytes 80
    size := getWord 4 bytes 96
    epoch := getWord 4 bytes 100
    view := getWord 4 bytes 104
    release := getWord 4 bytes 108
    protocol := getWord 2 bytes 112
    command := .reply
    replica := getWord 1 bytes 115
    reservedFrame := getArray 12 bytes 116
    requestChecksum := getWord 16 bytes 128
    requestChecksumPadding := getWord 16 bytes 144
    context := getWord 16 bytes 160
    contextPadding := getWord 16 bytes 176
    client := getWord 16 bytes 192
    op := getWord 8 bytes 208
    commit := getWord 8 bytes 216
    timestamp := getWord 8 bytes 224
    request := getWord 4 bytes 232
    operation := getWord 1 bytes 236
    reserved := getArray 19 bytes 237
  }

def zeroed : Reply where
  checksum := 0
  checksumPadding := 0
  checksumBody := 0
  checksumBodyPadding := 0
  nonceReserved := 0
  cluster := 0
  size := 0
  epoch := 0
  view := 0
  release := 0
  protocol := 0
  command := .reserved
  replica := 0
  reservedFrame := .replicate 12 0
  requestChecksum := 0
  requestChecksumPadding := 0
  context := 0
  contextPadding := 0
  client := 0
  op := 0
  commit := 0
  timestamp := 0
  request := 0
  operation := 0
  reserved := .replicate 19 0

-- The checksum covers everything but itself.
def validChecksum (checksum : List UInt8 → BitVec 128) (reply : Reply) : Bool :=
  reply.checksum = checksum (reply.toWire.drop 16)

end Reply

abbrev Slot := Fin clientsMax

structure Entry where
  session : BitVec 64
  header : Reply
  deriving DecidableEq, Repr

def Entry.zeroed : Entry where
  session := 0
  header := .zeroed

structure ClientSessions where
  -- The slots of the clients.
  entriesByClient : Std.ExtHashMap (BitVec 128) Slot
  -- Free entries are zeroed.
  entries : Slot → Entry
  entriesPresent : Slot → Bool

def alignForward (size alignment : Nat) : Nat :=
  (size + (alignment - 1)) / alignment * alignment

def headersOffset : Nat :=
  alignForward 0 16

def sessionsOffset : Nat :=
  alignForward (headersOffset + clientsMax * headerSize) 8

def encodeSize : Nat :=
  sessionsOffset + clientsMax * 8

namespace ClientSessions

def new : ClientSessions where
  entriesByClient := ∅
  entries := fun _ => .zeroed
  entriesPresent := fun _ => false

variable (sessions : ClientSessions)

def count : Nat :=
  sessions.entriesByClient.size

def present : List Slot :=
  (List.finRange clientsMax).filter sessions.entriesPresent

def firstUnset : Option Slot :=
  (List.finRange clientsMax).find? fun slot => !sessions.entriesPresent slot

def iterator : List Entry :=
  ((List.finRange clientsMax).map sessions.entries).filter fun entry => entry.session ≠ 0

def getSlotForClient (client : BitVec 128) : Option Slot :=
  sessions.entriesByClient[client]?

def put (session : BitVec 64) (header : Reply) : Result (Slot × ClientSessions) := do
  assert (session ≠ 0) "session != 0"
  assert (header.command = .reply) "header.command == Reply"
  match sessions.entriesByClient[header.client]? with
  | some index => do
    assert (sessions.entriesPresent index) "self.entries_present.is_set(entry_index)"
    let existing := sessions.entries index
    assert (existing.session = session) "existing.session == session"
    assert (existing.header.cluster = header.cluster) "existing.header.cluster == header.cluster"
    assert (existing.header.client = header.client) "existing.header.client == header.client"
    assert (existing.header.commit < header.commit) "existing.header.commit < header.commit"
    return (index, { sessions with
      entries := Function.update sessions.entries index { existing with header } })
  | none =>
    match sessions.firstUnset with
    | none => abort "caller ensures capacity"
    | some index => do
      assert ((sessions.entries index).session = 0) "e.session == 0"
      return (index, {
        entriesByClient := sessions.entriesByClient.insert header.client index
        entries := Function.update sessions.entries index { session, header }
        entriesPresent := Function.update sessions.entriesPresent index true })

-- The entry with the oldest commit, where `evictee` is the oldest one so far.
def oldest : (evictee : Option Reply) → List Entry → Result (Option Reply)
  | evictee, [] => return evictee
  | evictee, entry :: entries => do
    assert (entry.header.command = .reply) "entry.header.command == Reply"
    assert (entry.header.op = entry.header.commit) "entry.header.op == entry.header.commit"
    assert (entry.session ≤ entry.header.commit) "entry.header.commit >= entry.session"
    match evictee with
    | none => oldest (some entry.header) entries
    | some reply => do
      assert (entry.header.client ≠ reply.client) "entry.header.client != evictee_reply.client"
      assert (entry.header.commit ≠ reply.commit) "entry.header.commit != evictee_reply.commit"
      oldest (some (if entry.header.commit < reply.commit then entry.header else reply)) entries

def evictee : Result (BitVec 128) := do
  assert (sessions.present.length = clientsMax) "self.entries_present.full()"
  assert (sessions.count = clientsMax) "self.count() == CLIENTS"
  let evictee ← oldest none sessions.iterator
  assert (sessions.iterator.length = clientsMax) "iterated == CLIENTS"
  match evictee with
  | some reply => return reply.client
  | none => abort "table is full"

def remove (client : BitVec 128) : Result ClientSessions := do
  match sessions.entriesByClient[client]? with
  | none => abort "client has an entry"
  | some index => do
    let entriesByClient := sessions.entriesByClient.erase client
    assert (sessions.entriesPresent index) "self.entries_present.is_set(entry_index)"
    assert ((sessions.entries index).header.client = client)
      "self.entries[entry_index].header.client == client"
    assert (entriesByClient[client]? = none) "!self.entries_by_client.contains_key(&client)"
    return {
      entriesByClient
      entries := Function.update sessions.entries index .zeroed
      entriesPresent := Function.update sessions.entriesPresent index false }

-- All the headers, then all the sessions, each from an aligned offset on.
def encoding : List UInt8 :=
  let headers := List.replicate headersOffset 0 ++
    (List.finRange clientsMax).flatMap fun slot => (sessions.entries slot).header.toWire
  headers ++ List.replicate (sessionsOffset - headers.length) 0 ++
    (List.finRange clientsMax).flatMap fun slot => toBytes 8 (sessions.entries slot).session.toNat

-- The target and the size of what is written to it.
def encode (target : List UInt8) : Result (List UInt8 × Nat) := do
  assert (encodeSize ≤ target.length) "target.len() >= ENCODE_SIZE"
  assert (sessions.encoding.length = encodeSize) "size == ENCODE_SIZE"
  return (sessions.encoding ++ target.drop sessions.encoding.length, sessions.encoding.length)

def get (source : List UInt8) (offset size : Nat) : Result (List UInt8) := do
  assert (offset + size ≤ source.length) "range end index out of range for slice"
  return slice source offset size

section

variable (checksum : List UInt8 → BitVec 128) (source : List UInt8)

def decodeEntry (sessions : ClientSessions) (index : Slot) : Result ClientSessions := do
  let headerBytes ← get source (headersOffset + index * headerSize) headerSize
  let session := BitVec.ofNat 64 (ofBytes (← get source (sessionsOffset + index * 8) 8))
  if session = 0 then
    assert (∀ byte ∈ headerBytes, byte = 0) "header_bytes.iter().all(|&byte| byte == 0)"
    return sessions
  else
    match Reply.fromWire headerBytes with
    | none => abort "reply command"
    | some header => do
      assert (header.validChecksum checksum) "header.valid_checksum()"
      assert (session ≤ header.commit) "header.commit >= session"
      return {
        entriesByClient := sessions.entriesByClient.insert header.client index
        entries := Function.update sessions.entries index { session, header }
        entriesPresent := Function.update sessions.entriesPresent index true }

def decode : Result ClientSessions := do
  assert (sessions.count = 0) "self.count() == 0"
  assert (sessions.present.length = 0) "self.entries_present.empty()"
  assert (∀ slot, (sessions.entries slot).session = 0) "entry.session == 0"
  assert (∀ slot, ∀ byte ∈ (sessions.entries slot).header.toWire, byte = 0)
    "free entry must be zeroed"
  assert (source ≠ []) "!source.is_empty()"
  assert (source.length ≤ encodeSize) "source.len() <= ENCODE_SIZE"
  let sessions ← (List.finRange clientsMax).foldlM (decodeEntry checksum source) sessions
  assert (sessions.present.length = sessions.count) "a client must have at most one entry"
  return sessions

end

-- The calls that change the table.
inductive Call
  | put (session : BitVec 64) (header : Reply)
  | remove (client : BitVec 128)
  deriving DecidableEq, Repr

def call : Call → Result ClientSessions
  | .put session header => return (← sessions.put session header).2
  | .remove client => sessions.remove client

def Step (sessions sessions' : ClientSessions) : Prop :=
  ∃ c, sessions.call c = .ok sessions'

def Reachable (sessions : ClientSessions) : Prop :=
  Relation.ReflTransGen Step new sessions

end ClientSessions

end TigerBeetle.SessionTable
