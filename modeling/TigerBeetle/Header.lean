import TigerBeetle.Constants

namespace TigerBeetle

structure Operation where
  code : Nat
  deriving DecidableEq, Repr

namespace Operation

def reserved : Operation := ⟨0⟩

def root : Operation := ⟨1⟩

def register : Operation := ⟨2⟩

def reconfigure : Operation := ⟨3⟩

def pulse : Operation := ⟨4⟩

def upgrade : Operation := ⟨5⟩

def noop : Operation := ⟨6⟩

def stateMachinePulse : Operation := ⟨vsrOperationsReserved⟩

def createAccounts : Operation := ⟨vsrOperationsReserved + 18⟩

def createTransfers : Operation := ⟨vsrOperationsReserved + 19⟩

def vsrReserved (operation : Operation) : Bool :=
  operation.code < vsrOperationsReserved

-- The operations that the state machine executes. Pulses are its only control-plane operation.
def executes (operation : Operation) : Bool :=
  operation = pulse ∨ !operation.vsrReserved

end Operation

abbrev Body := List UInt8

-- The header of a log entry. Checksums, ids and counters are natural numbers.
structure Prepare where
  checksum : Nat
  checksumBody : Nat
  cluster : Nat
  size : Nat
  view : Nat
  release : Nat
  replica : Nat
  parent : Nat
  requestChecksum : Nat
  checkpointId : Nat
  client : Nat
  op : Nat
  commit : Nat
  timestamp : Nat
  request : Nat
  operation : Operation
  deriving DecidableEq, Repr

structure Request where
  checksum : Nat
  cluster : Nat
  size : Nat
  view : Nat
  release : Nat
  replica : Nat
  parent : Nat
  client : Nat
  session : Nat
  request : Nat
  operation : Operation
  deriving DecidableEq, Repr

structure Reply where
  checksum : Nat
  checksumBody : Nat
  cluster : Nat
  size : Nat
  view : Nat
  release : Nat
  replica : Nat
  requestChecksum : Nat
  context : Nat
  client : Nat
  op : Nat
  commit : Nat
  timestamp : Nat
  request : Nat
  operation : Operation
  deriving DecidableEq, Repr

structure PrepareOk where
  cluster : Nat
  view : Nat
  replica : Nat
  parent : Nat
  prepareChecksum : Nat
  checkpointId : Nat
  client : Nat
  op : Nat
  commitMin : Nat
  timestamp : Nat
  request : Nat
  operation : Operation
  deriving DecidableEq, Repr

structure Commit where
  cluster : Nat
  view : Nat
  replica : Nat
  commitChecksum : Nat
  checkpointId : Nat
  checkpointOp : Nat
  commit : Nat
  timestampMonotonic : Nat
  deriving DecidableEq, Repr

structure ExitView where
  cluster : Nat
  view : Nat
  replica : Nat
  deriving DecidableEq, Repr

structure JoinView where
  cluster : Nat
  view : Nat
  replica : Nat
  presentBitset : Nat
  nackBitset : Nat
  op : Nat
  commitMin : Nat
  checkpointOp : Nat
  logView : Nat
  deriving DecidableEq, Repr

structure View where
  cluster : Nat
  view : Nat
  replica : Nat
  nonce : Nat
  op : Nat
  commitMax : Nat
  checkpointOp : Nat
  deriving DecidableEq, Repr

structure GetView where
  cluster : Nat
  view : Nat
  replica : Nat
  nonce : Nat
  deriving DecidableEq, Repr

structure GetHeaders where
  cluster : Nat
  replica : Nat
  opMin : Nat
  opMax : Nat
  deriving DecidableEq, Repr

structure GetPrepare where
  cluster : Nat
  view : Nat
  replica : Nat
  prepareOp : Nat
  prepareChecksum : Nat
  deriving DecidableEq, Repr

structure Headers where
  cluster : Nat
  view : Nat
  replica : Nat
  deriving DecidableEq, Repr

-- The messages between replicas, and the requests of clients, with their decoded bodies.
inductive Message
  | request (header : Request) (body : Body)
  | prepare (header : Prepare) (body : Body)
  | prepareOk (header : PrepareOk)
  | commit (header : Commit)
  | exitView (header : ExitView)
  | joinView (header : JoinView) (headers : List Prepare)
  | view (header : View) (headers : List Prepare)
  | getPrepare (header : GetPrepare)
  | getHeaders (header : GetHeaders)
  | headers (header : Headers) (headers : List Prepare)
  | getView (header : GetView)
  deriving DecidableEq, Repr

inductive Reason
  | noSession
  | clientReleaseTooLow
  | clientReleaseTooHigh
  | invalidRequestBodySize
  | sessionTooLow
  | sessionReleaseMismatch
  deriving DecidableEq, Repr

inductive ClientMessage
  | reply (header : Reply) (body : Body)
  | eviction (client view : Nat) (reason : Reason)
  deriving DecidableEq, Repr

-- What a replica relies on without its definition mattering: the checksum functions, the state
-- machine's execution of a batch, the pseudo-random choices and the choice of repair peers. The
-- state of the state machine is represented by all prepares that it has executed so far, together
-- with their bodies. An execution or a reconfiguration has no result if an assertion in it fails.
class Env where
  checksum : Prepare → Nat
  checksumBody : Body → Nat
  checksumReply : Reply → Nat
  checkpointId : Prepare → Nat → Nat → Nat
  bodyIsValid : Operation → Body → Bool
  execute : List (Prepare × Body) → Operation → Nat → Body → Option Body
  pulseNextTimestamp : List (Prepare × Body) → Nat
  reconfigure : Body → Option Body
  chance : Nat → Bool
  jitter : Nat → Nat → Nat
  replyOffset : Nat → Nat → Nat
  repairPeer : Nat → Nat → Option Nat
  commitFuel : Nat

-- An environment in which the model can be evaluated: batches execute without any result, and no
-- transfers are pending.
@[reducible]
def Env.plain : Env where
  checksum header :=
    1 + header.checksumBody + 2 ^ 128 * (header.op + 2 ^ 16 * (header.view + 2 ^ 16 *
      (header.timestamp + 2 ^ 16 * header.operation.code)))
  checksumBody := List.foldl (fun checksum byte => 257 * checksum + byte.toNat + 1) 0
  checksumReply header := header.op + header.view + 1
  checkpointId header _ _ := header.op
  bodyIsValid operation body := if operation = .pulse then body = [] else body.length % 16 = 0
  execute _ _ _ _ := some []
  pulseNextTimestamp executed := if executed.any (·.1.operation = .pulse) then 2 ^ 63 else 1
  reconfigure := some
  chance _ := false
  jitter _ _ := 0
  replyOffset _ _ := 0
  repairPeer _ _ := none
  commitFuel := 1000

variable [Env]

def Prepare.zeroed : Prepare where
  checksum := 0
  checksumBody := 0
  cluster := 0
  size := headerSize
  view := 0
  release := 0
  replica := 0
  parent := 0
  requestChecksum := 0
  checkpointId := 0
  client := 0
  op := 0
  commit := 0
  timestamp := 0
  request := 0
  operation := .reserved

namespace Prepare

-- The checksum covers everything but itself.
def calculateChecksum (header : Prepare) : Nat :=
  Env.checksum { header with checksum := 0 }

def setChecksum (header : Prepare) : Prepare :=
  { header with checksum := header.calculateChecksum }

def validChecksum (header : Prepare) : Bool :=
  header.checksum = header.calculateChecksum

def validChecksumBody (header : Prepare) (body : Body) : Bool :=
  header.checksumBody = Env.checksumBody body

def reserve (cluster slot : Nat) : Prepare :=
  setChecksum { zeroed with
    cluster, op := slot, operation := .reserved, checksumBody := Env.checksumBody [] }

def root (cluster : Nat) : Prepare :=
  setChecksum { zeroed with cluster, operation := .root, checksumBody := Env.checksumBody [] }

-- Why a header is malformed, if it is.
def invalidHeader (prepare : Prepare) : Option String :=
  if prepare.operation = .reserved then
    if prepare.size ≠ headerSize then some "reserved: size != @sizeOf(Header)"
    else if prepare.checksumBody ≠ Env.checksumBody [] then
      some "reserved: checksum_body != expected"
    else if prepare.view ≠ 0 then some "reserved: view != 0"
    else if prepare.release ≠ 0 then some "release != 0"
    else if prepare.replica ≠ 0 then some "reserved: replica != 0"
    else if prepare.parent ≠ 0 then some "reserved: parent != 0"
    else if prepare.client ≠ 0 then some "reserved: client != 0"
    else if prepare.requestChecksum ≠ 0 then some "reserved: request_checksum != 0"
    else if prepare.checkpointId ≠ 0 then some "reserved: checkpoint_id != 0"
    else if prepare.commit ≠ 0 then some "reserved: commit != 0"
    else if prepare.request ≠ 0 then some "reserved: request != 0"
    else if prepare.timestamp ≠ 0 then some "reserved: timestamp != 0"
    else none
  else if prepare.operation = .root then
    if prepare.size ≠ headerSize then some "root: size != @sizeOf(Header)"
    else if prepare.checksumBody ≠ Env.checksumBody [] then some "root: checksum_body != expected"
    else if prepare.view ≠ 0 then some "root: view != 0"
    else if prepare.release ≠ 0 then some "release != 0"
    else if prepare.replica ≠ 0 then some "root: replica != 0"
    else if prepare.parent ≠ 0 then some "root: parent != 0"
    else if prepare.client ≠ 0 then some "root: client != 0"
    else if prepare.requestChecksum ≠ 0 then some "root: request_checksum != 0"
    else if prepare.checkpointId ≠ 0 then some "root: checkpoint_id != 0"
    else if prepare.op ≠ 0 then some "root: op != 0"
    else if prepare.commit ≠ 0 then some "root: commit != 0"
    else if prepare.timestamp ≠ 0 then some "root: timestamp != 0"
    else if prepare.request ≠ 0 then some "root: request != 0"
    else none
  else if prepare.release = 0 then some "release == 0"
  else if (prepare.operation = .pulse ∨ prepare.operation = .upgrade) ∧ prepare.client ≠ 0 then
    some "client != 0"
  else if ¬(prepare.operation = .pulse ∨ prepare.operation = .upgrade) ∧ prepare.client = 0 then
    some "client == 0"
  else if prepare.op = 0 then some "op == 0"
  else if prepare.op ≤ prepare.commit then some "op <= commit"
  else if prepare.timestamp = 0 then some "timestamp == 0"
  else if (prepare.operation = .register ∨ prepare.operation = .pulse ∨
      prepare.operation = .upgrade) ∧ prepare.request ≠ 0 then
    some "request != 0"
  else if ¬(prepare.operation = .register ∨ prepare.operation = .pulse ∨
      prepare.operation = .upgrade) ∧ prepare.request = 0 then
    some "request == 0"
  else none

end Prepare

namespace Reply

def calculateChecksum (header : Reply) : Nat :=
  Env.checksumReply { header with checksum := 0 }

def setChecksum (header : Reply) : Reply :=
  { header with checksum := header.calculateChecksum }

end Reply

def registerRequestSize : Nat := 256

def registerResultSize : Nat := 256

def upgradeRequestSize : Nat := 16

def reconfigurationRequestSize : Nat := 256

def reconfigurationResultSize : Nat := 4

namespace Request

def invalidHeader (request : Request) : Option String :=
  if request.release = 0 then some "release == 0"
  else if request.operation = .reserved then some "operation == .reserved"
  else if request.operation = .root then some "operation == .root"
  else if request.operation = .register then
    if request.replica ≠ 0 then some "register: replica != 0"
    else if request.client = 0 then some "register: client == 0"
    else if request.parent ≠ 0 then some "register: parent != 0"
    else if request.session ≠ 0 then some "register: session != 0"
    else if request.request ≠ 0 then some "register: request != 0"
    else if request.size ≠ headerSize ∧ request.size ≠ headerSize + registerRequestSize then
      some "register: size != @sizeOf(Header) [+ @sizeOf(vsr.RegisterRequest)]"
    else none
  else if request.operation = .pulse then
    if request.client ≠ 0 then some "pulse: client != 0"
    else if request.parent ≠ 0 then some "pulse: parent != 0"
    else if request.session ≠ 0 then some "pulse: session != 0"
    else if request.request ≠ 0 then some "pulse: request != 0"
    else if request.size ≠ headerSize then some "pulse: size != @sizeOf(Header)"
    else none
  else if request.operation = .upgrade then
    if request.client ≠ 0 then some "upgrade: client != 0"
    else if request.parent ≠ 0 then some "upgrade: parent != 0"
    else if request.session ≠ 0 then some "upgrade: session != 0"
    else if request.request ≠ 0 then some "upgrade: request != 0"
    else if request.size ≠ headerSize + upgradeRequestSize then
      some "upgrade: size != @sizeOf(Header) + @sizeOf(vsr.UpgradeRequest)"
    else none
  else if request.operation = .reconfigure ∧
      request.size ≠ headerSize + reconfigurationRequestSize then
    some "size != @sizeOf(Header) + @sizeOf(ReconfigurationRequest)"
  else if request.operation = .noop ∧ request.size ≠ headerSize then
    some "size != @sizeOf(Header)"
  else if request.operation ≠ .reconfigure ∧ request.operation ≠ .noop ∧
      request.operation.vsrReserved then
    some "operation is reserved"
  else if request.replica ≠ 0 then some "replica != 0"
  else if request.client = 0 then some "client == 0"
  else if request.session = 0 then some "session == 0"
  else if request.request = 0 then some "request == 0"
  else none

end Request

end TigerBeetle
