import TigerBeetle.Header
import TigerBeetle.LittleEndian
import TigerBeetle.Machine

namespace TigerBeetle

open Fallible

namespace Operation

def getChangeEvents : Operation := ⟨vsrOperationsReserved + 9⟩

def lookupAccounts : Operation := ⟨vsrOperationsReserved + 12⟩

def lookupTransfers : Operation := ⟨vsrOperationsReserved + 13⟩

def getAccountTransfers : Operation := ⟨vsrOperationsReserved + 14⟩

def getAccountBalances : Operation := ⟨vsrOperationsReserved + 15⟩

def queryAccounts : Operation := ⟨vsrOperationsReserved + 16⟩

def queryTransfers : Operation := ⟨vsrOperationsReserved + 17⟩

end Operation

-- The client side of the protocol: one session with at most one request in flight.
namespace ClientSide

def rttTicks : Nat := 30

def rttMaxTicks : Nat := 6000

def rttMultiple : Nat := 2

def backoffMinTicks : Nat := 1

def backoffMaxTicks : Nat := 1000

def u64Max : Nat := 2 ^ 64 - 1

def u32Max : Nat := 2 ^ 32 - 1

-- The pseudo-random number generator, of which the client uses no more than the range of what is
-- drawn.
class Prng (P : Type) where
  fromSeed : Nat → P
  genIntInclusive : P → Nat → Nat × P
  le (prng : P) (max : Nat) : (genIntInclusive prng max).1 ≤ max

open Prng

structure Timeout where
  after : Nat
  afterDynamic : Option Nat
  attempts : Nat
  rtt : Nat
  rttMultiple : Nat
  ticks : Nat
  ticking : Bool
  deriving DecidableEq, Repr

def exponentialBackoffWithJitter {P : Type} [Prng P] (prng : P) (min max attempt : Nat) :
    Result (Nat × P) := do
  assert (min < max) "max > min"
  let exponent := Min.min attempt 63
  let power := 2 ^ exponent
  let minNonZero := Max.max min 1
  assert (0 < minNonZero) "min_non_zero > 0"
  assert (0 < power) "power > 0"
  let backoff := Min.min (max - min) (minNonZero * power)
  let (jitter, prng) := genIntInclusive prng backoff
  let result := min + jitter
  assert (min ≤ result) "result >= min"
  assert (result ≤ max) "result <= max"
  return (result, prng)

namespace Timeout

def new (after : Nat) : Timeout where
  after
  afterDynamic := none
  attempts := 0
  rtt := rttTicks
  rttMultiple := ClientSide.rttMultiple
  ticks := 0
  ticking := false

variable (timeout : Timeout)

def setAfterForRttAndAttempts {P : Type} [Prng P] (prng : P) : Result (Timeout × P) := do
  assert (timeout.ticks = 0) "self.ticks == 0"
  assert (0 < timeout.rtt) "self.rtt > 0"
  let (jitter, prng) ←
    exponentialBackoffWithJitter prng backoffMinTicks backoffMaxTicks timeout.attempts
  let after := min (timeout.rtt * timeout.rttMultiple) u64Max + jitter
  assert (0 < after) "after > 0"
  return ({ timeout with afterDynamic := some after }, prng)

def backoff {P : Type} [Prng P] (prng : P) : Result (Timeout × P) := do
  assert timeout.ticking "self.ticking"
  { timeout with ticks := 0, attempts := (timeout.attempts + 1) % 256 }.setAfterForRttAndAttempts prng

def fired : Result Bool :=
  match timeout.ticking, timeout.afterDynamic with
  | true, some after =>
    if after ≤ timeout.ticks then do
      assert (timeout.ticks = after) "timeout was not reset correctly"
      return true
    else
      return false
  | _, _ => return false

def reset : Result Timeout := do
  assert timeout.ticking "self.ticking"
  return { timeout with attempts := 0, ticks := 0 }

def setRttNs (rttNs : Nat) : Result Timeout := do
  assert (0 < timeout.rtt) "self.rtt > 0"
  return { timeout with rtt := min (max (rttNs / 1000000 / tickMs) 1) rttMaxTicks }

def start : Timeout :=
  { timeout with attempts := 0, afterDynamic := some timeout.after, ticks := 0, ticking := true }

def stop : Timeout :=
  { timeout with attempts := 0, afterDynamic := none, ticks := 0, ticking := false }

def tick : Timeout :=
  if timeout.ticking then { timeout with ticks := timeout.ticks + 1 } else timeout

end Timeout

-- The message buffers are only counted, as each is overwritten before it is read.
structure MessagePool where
  messagesMax : Nat
  outstanding : Nat
  deriving DecidableEq, Repr

namespace MessagePool

variable (pool : MessagePool)

def getMessage : Result MessagePool := do
  assert (pool.outstanding < pool.messagesMax) "message pool exhausted"
  return { pool with outstanding := pool.outstanding + 1 }

def release : Result MessagePool := do
  assert (0 < pool.outstanding) "no slot awaiting release"
  return { pool with outstanding := pool.outstanding - 1 }

end MessagePool

structure Request where
  checksum : Nat
  checksumBody : Nat
  cluster : Nat
  size : Nat
  view : Nat
  release : Nat
  parent : Nat
  client : Nat
  session : Nat
  timestamp : Nat
  request : Nat
  operation : Operation
  deriving DecidableEq, Repr

structure PingClient where
  checksum : Nat
  checksumBody : Nat
  cluster : Nat
  release : Nat
  client : Nat
  pingTimestampMonotonic : Nat
  session : Nat
  deriving DecidableEq, Repr

structure PongClient where
  view : Nat
  replica : Nat
  pingTimestampMonotonic : Nat
  deriving DecidableEq, Repr

structure Eviction where
  view : Nat
  client : Nat
  deriving DecidableEq, Repr

-- The checksums of the headers, from the bytes that follow the checksum itself, and of the bodies.
class Checksums where
  request : Request → Nat
  ping : PingClient → Nat
  reply : Reply → Nat
  body : Body → Nat

namespace Request

variable [Checksums] (header : Request)

def setChecksumBody (body : Body) : Request :=
  { header with checksumBody := Checksums.body body }

def setChecksum : Request :=
  { header with checksum := Checksums.request { header with checksum := 0 } }

def validChecksum : Bool :=
  header.checksum = Checksums.request { header with checksum := 0 }

end Request

namespace PingClient

variable [Checksums] (header : PingClient)

def setChecksumBody (body : Body) : PingClient :=
  { header with checksumBody := Checksums.body body }

def setChecksum : PingClient :=
  { header with checksum := Checksums.ping { header with checksum := 0 } }

def validChecksum : Bool :=
  header.checksum = Checksums.ping { header with checksum := 0 }

end PingClient

def validChecksum [Checksums] (header : Reply) : Bool :=
  header.checksum = Checksums.reply { header with checksum := 0 }

def validChecksumBody [Checksums] (header : Reply) (body : Body) : Result Bool := do
  assert (header.size = headerSize + body.length) "self.size == SIZE + body.len()"
  return header.checksumBody = Checksums.body body

inductive Callback
  | request (callback : Nat)
  | register (callback : Nat)
  deriving DecidableEq, Repr

structure RequestInflight where
  header : Request
  body : Body
  userData : Nat
  callback : Callback
  deriving DecidableEq, Repr

inductive Outbound
  | request (header : Request) (body : Body)
  | pingClient (header : PingClient)
  deriving DecidableEq, Repr

-- What the bus hands to the client: what a frame decodes to, if it decodes and its header passes the
-- check on it, with the cluster that it is from.
inductive Frame
  | pongClient (header : PongClient)
  | reply (header : Reply) (body : Body)
  | eviction (header : Eviction)
  | other
  deriving DecidableEq, Repr

structure Inbound where
  invalid : Bool
  cluster : Nat
  frame : Frame
  deriving DecidableEq, Repr

-- A call of a callback, for the request that it was submitted with, on a reply.
structure Completion where
  inflight : RequestInflight
  reply : Reply
  body : Body
  deriving DecidableEq, Repr

-- What is passed to `request`.
structure Submission where
  callback : Nat
  userData : Nat
  operation : Operation
  events : Body
  deriving DecidableEq, Repr

-- The bus records what is sent to which replica. The calls of the callbacks are recorded too.
structure Client (P : Type) where
  messageBus : List (Nat × Outbound)
  completions : List Completion
  id : Nat
  cluster : Nat
  replicaCount : Nat
  aofRecovery : Bool
  release : Nat
  parent : Nat
  session : Nat
  requestNumber : Nat
  batchSizeLimit : Option Nat
  view : Nat
  requestInflight : Option RequestInflight
  requestTimeout : Timeout
  pingTimeout : Timeout
  replicaRoundTripTimesNs : List (Option Nat)
  prng : P
  pool : MessagePool
  evicted : Bool
  onEvictionCallback : Bool
  deriving DecidableEq

-- The size of an event, where the source panics on the operations that clients do not submit.
def eventSize (operation : Operation) : Result Nat :=
  if operation = .createAccounts ∨ operation = .createTransfers then return 128
  else if operation = .lookupAccounts ∨ operation = .lookupTransfers then return 16
  else if operation = .getAccountTransfers ∨ operation = .getAccountBalances then return 128
  else if operation = .getChangeEvents then return 64
  else if operation = .queryAccounts ∨ operation = .queryTransfers then return 64
  else abort "operation is not a client request operation"

def registerBody : Body := List.replicate 256 0

namespace Client

variable {P : Type} [Prng P] [Checksums]

def new (id cluster replicaCount : Nat) (aofRecovery onEvictionCallback : Bool) (pool : MessagePool) :
    Result (Client P) := do
  assert (0 < id) "options.id > 0"
  assert (0 < replicaCount) "options.replica_count > 0"
  return {
    messageBus := []
    completions := []
    id, cluster, replicaCount, aofRecovery
    release := releaseMinimum
    parent := 0
    session := 0
    requestNumber := 0
    batchSizeLimit := none
    view := 0
    requestInflight := none
    requestTimeout := Timeout.new (rttTicks * rttMultiple)
    pingTimeout := (Timeout.new (30000 / tickMs)).start
    replicaRoundTripTimesNs := List.replicate replicasMax none
    prng := fromSeed (id % 2 ^ 64)
    pool
    evicted := false
    onEvictionCallback
  }

variable (client : Client P)

def sendMessageToReplica (replica : Nat) (message : Outbound) : Result (Client P) := do
  assert (replica < client.replicaCount) "replica < self.replica_count"
  match message with
  | .request request _ => do
    assert request.validChecksum "request.valid_checksum()"
    assert (request.cluster = client.cluster) "request.cluster == self.cluster"
    assert (request.client = client.id) "request.client == self.id"
  | .pingClient ping => do
    assert ping.validChecksum "ping.valid_checksum()"
    assert (ping.cluster = client.cluster) "ping.cluster == self.cluster"
    assert (ping.client = client.id) "ping.client == self.id"
  return { client with messageBus := client.messageBus ++ [(replica, message)] }

def sendMessageToReplicas (message : Outbound) : Result (Client P) :=
  (List.range client.replicaCount).foldlM (fun client replica =>
    client.sendMessageToReplica replica message) client

def sendHeaderToReplicas (header : PingClient) : Result (Client P) := do
  let header := (header.setChecksumBody []).setChecksum
  let pool ← client.pool.getMessage
  let client ← { client with pool }.sendMessageToReplicas (.pingClient header)
  let pool ← client.pool.release
  return { client with pool }

def onPingTimeout (now : Nat) : Result (Client P) := do
  let pingTimeout ← client.pingTimeout.reset
  let client := { client with pingTimeout }
  client.sendHeaderToReplicas {
    checksum := 0
    checksumBody := 0
    cluster := client.cluster
    release := client.release
    client := client.id
    pingTimestampMonotonic := now
    session := client.session
  }

-- The primary gets each request, and so does a backup that is drawn.
def sendRequestWithHedging : Result (Client P) := do
  match client.requestInflight with
  | none => abort "an inflight request"
  | some inflight => do
    let message := Outbound.request inflight.header inflight.body
    let primary := client.view % client.replicaCount
    let client ← client.sendMessageToReplica primary message
    if 1 < client.replicaCount then do
      let (drawn, prng) := genIntInclusive client.prng (client.replicaCount - 2)
      let client := { client with prng }
      let offset := 1 + drawn
      let backup := (primary + offset) % client.replicaCount
      assert (backup ≠ primary) "backup != primary"
      client.sendMessageToReplica backup message
    else
      return client

def sendRequestForTheFirstTime : Result (Client P) := do
  assert (0 < client.requestNumber) "self.request_number > 0"
  match client.requestInflight with
  | none => abort "an inflight request"
  | some inflight => do
    let header := inflight.header
    assert (header.parent = 0) "header.parent == 0"
    assert (header.session = 0) "header.session == 0"
    assert (header.request < client.requestNumber) "header.request < self.request_number"
    assert (header.view = 0) "header.view == 0"
    assert (header.size ≤ messageSizeMax) "header.size <= MESSAGE_SIZE_MAX"
    let header := { header with
      parent := client.parent, session := client.session, view := client.view }
    let header := (header.setChecksumBody inflight.body).setChecksum
    let client := { client with
      requestInflight := some { inflight with header }, parent := header.checksum }
    assert (client.requestTimeout.ticking = false) "!self.request_timeout.ticking"
    { client with requestTimeout := client.requestTimeout.start }.sendRequestWithHedging

def nextRequestNumber : Result Nat := do
  assert (client.requestNumber < u32Max) "attempt to add with overflow"
  return client.requestNumber + 1

def register (callback userData now : Nat) : Result (Client P) := do
  assert (client.evicted = false) "!self.evicted"
  assert (client.requestInflight = none) "self.request_inflight.is_none()"
  assert (client.requestNumber = 0) "self.request_number == 0"
  let pool ← client.pool.getMessage
  let header : Request := {
    checksum := 0
    checksumBody := 0
    cluster := client.cluster
    size := headerSize + registerBody.length
    view := 0
    release := client.release
    parent := 0
    client := client.id
    session := 0
    timestamp := if client.aofRecovery then 1 else 0
    request := client.requestNumber
    operation := .register
  }
  let requestNumber ← client.nextRequestNumber
  let client ← { client with
    pool, requestNumber
    requestInflight := some { header, body := registerBody, userData, callback := .register callback }
    }.sendRequestForTheFirstTime
  client.onPingTimeout now

def rawRequest (callback userData : Nat) (header : Request) (body : Body) : Result (Client P) := do
  assert (client.requestInflight = none) "self.request_inflight.is_none()"
  assert (0 < client.requestNumber) "self.request_number > 0"
  assert (header.client = client.id) "header.client == self.id"
  assert (header.release = client.release) "header.release == self.release"
  assert (header.cluster = client.cluster) "header.cluster == self.cluster"
  assert (headerSize ≤ header.size) "header.size >= SIZE"
  assert (header.size ≤ messageSizeMax) "header.size <= MESSAGE_SIZE_MAX"
  match client.batchSizeLimit with
  | none => abort "the session must be registered before issuing requests"
  | some batchSizeLimit => do
    assert (header.size ≤ headerSize + batchSizeLimit) "header.size <= SIZE + batch_size_limit"
    assert (header.view = 0) "header.view == 0"
    assert (header.parent = 0) "header.parent == 0"
    assert (header.session = 0) "header.session == 0"
    assert (header.request = 0) "header.request == 0"
    assert (decide (header.timestamp = 0) ≠ client.aofRecovery)
      "(header.timestamp == 0) != self.aof_recovery"
    if client.aofRecovery then
      pure ()
    else
      assert (header.operation = .noop ∨ !header.operation.vsrReserved)
        "header.operation == NOOP || !header.operation.vsr_reserved()"
    let header := { header with request := client.requestNumber }
    let requestNumber ← client.nextRequestNumber
    { client with
      requestNumber
      requestInflight := some { header, body, userData, callback := .request callback }
      }.sendRequestForTheFirstTime

def request (submission : Submission) : Result (Client P) := do
  assert (client.evicted = false) "!self.evicted"
  assert (client.requestInflight = none) "self.request_inflight.is_none()"
  assert (0 < client.requestNumber) "self.request_number > 0"
  assert (submission.events.length ≤ messageBodySizeMax) "events.len() <= MESSAGE_BODY_SIZE_MAX"
  match client.batchSizeLimit with
  | none => abort "the session must be registered before issuing requests"
  | some batchSizeLimit => do
    assert (submission.events.length ≤ batchSizeLimit) "events.len() <= batch_size_limit"
    let eventSize ← eventSize submission.operation
    assert (submission.events.length % eventSize = 0) "events.len() % event_size == 0"
    let pool ← client.pool.getMessage
    let header : Request := {
      checksum := 0
      checksumBody := 0
      cluster := client.cluster
      size := headerSize + submission.events.length
      view := 0
      release := client.release
      parent := 0
      client := client.id
      session := 0
      timestamp := 0
      request := 0
      operation := submission.operation
    }
    { client with pool }.rawRequest submission.callback submission.userData header submission.events

def onEviction (eviction : Eviction) : Result (Client P) := do
  assert (client.evicted = false) "!self.evicted"
  if eviction.client ≠ client.id then return client
  else if eviction.view < client.view then return client
  else if client.onEvictionCallback then
    return { client with onEvictionCallback := false, evicted := true }
  else
    abort "session evicted"

def onPongClient (pong : PongClient) (now : Nat) : Result (Client P) := do
  let client := if client.view < pong.view then { client with view := pong.view } else client
  if pong.pingTimestampMonotonic ≤ now then do
    assert (pong.replica < client.replicaRoundTripTimesNs.length) "index out of bounds"
    let times := client.replicaRoundTripTimesNs.set pong.replica
      (some (now - pong.pingTimestampMonotonic))
    let roundTripTimesNs := times.reduceOption.mergeSort
    assert (roundTripTimesNs ≠ []) "!round_trip_times_ns.is_empty()"
    let requestTimeout ← client.requestTimeout.setRttNs
      (roundTripTimesNs.getD (roundTripTimesNs.length / 2) 0)
    return { client with replicaRoundTripTimesNs := times, requestTimeout }
  else
    return client

-- What the reply to `register` does to the session, and the call of the callback.
def complete (inflight : RequestInflight) (reply : Reply) (body : Body) : Result (Client P) := do
  let completed := { client with completions := client.completions ++ [{ inflight, reply, body }] }
  if inflight.header.operation = .register then do
    assert (inflight.header.request = 0) "inflight_request == 0"
    assert (client.batchSizeLimit = none) "self.batch_size_limit.is_none()"
    assert (client.session = 0) "self.session == 0"
    assert (0 < reply.commit) "header.commit > 0"
    assert (reply.size = headerSize + 256) "header.size == SIZE + REGISTER_RESULT_SIZE"
    let batchSizeLimit := LittleEndian.ofBytes (body.take 4)
    assert (0 < batchSizeLimit) "result.batch_size_limit > 0"
    assert (batchSizeLimit ≤ messageBodySizeMax) "result.batch_size_limit <= MESSAGE_BODY_SIZE_MAX"
    match inflight.callback with
    | .register _ =>
      return { completed with session := reply.commit, batchSizeLimit := some batchSizeLimit }
    | .request _ => abort "a register inflight carries a register callback"
  else
    match inflight.callback with
    | .request _ => return completed
    | .register _ => abort "a request inflight carries a request callback"

-- Only the request of `register` is number zero.
def assertRequestNumber (header : Request) : Result Unit :=
  if header.operation = .register then assert (header.request = 0) "inflight_request == 0"
  else assert (0 < header.request) "inflight_request > 0"

-- The hook gets the client, with which it may submit a request of its own.
def onReplyHook : Option Submission → Result (Client P)
  | none => return client
  | some submission => client.request submission

def onReply (reply : Reply) (body : Body) (hook : Option Submission) : Result (Client P) := do
  assert (validChecksum reply) "header.valid_checksum()"
  let valid ← validChecksumBody reply body
  assert valid "header.valid_checksum_body(reply_message.body_used())"
  assert (reply.release = client.release) "header.release == self.release"
  if reply.client ≠ client.id then
    return client
  else
    match client.requestInflight with
    | none => do
      assert (reply.request < client.requestNumber) "header.request < self.request_number"
      return client
    | some inflight =>
      if reply.request < inflight.header.request then do
        assert (0 < inflight.header.request) "inflight_header.request > 0"
        assert (inflight.header.operation ≠ .register) "inflight_header.operation != REGISTER"
        return client
      else do
        assert (reply.request = inflight.header.request) "header.request == inflight_header.request"
        assert (reply.requestChecksum = inflight.header.checksum)
          "header.request_checksum == inflight_header.checksum()"
        assertRequestNumber inflight.header
        let client ← { client with requestInflight := none }.onReplyHook hook
        assert (reply.requestChecksum = client.parent) "header.request_checksum == self.parent"
        assert (reply.client = client.id) "header.client == self.id"
        assert (reply.request = inflight.header.request) "header.request == inflight_request"
        assert (reply.cluster = client.cluster) "header.cluster == self.cluster"
        assert (reply.op = reply.commit) "header.op == header.commit"
        assert (reply.operation = inflight.header.operation) "header.operation == inflight_vsr_operation"
        let pool ← client.pool.release
        { client with
          parent := reply.context
          view := max client.view reply.view
          requestTimeout := client.requestTimeout.stop
          pool
          }.complete inflight reply body

def onMessage (message : Inbound) (now : Nat) (hook : Option Submission) : Result (Client P) := do
  assert (client.evicted = false) "!self.evicted"
  if message.invalid then return client
  else if message.cluster ≠ client.cluster then return client
  else
    match message.frame with
    | .pongClient pong => client.onPongClient pong now
    | .reply reply body => client.onReply reply body hook
    | .eviction header => client.onEviction header
    | .other => return client

def onRequestTimeout : Result (Client P) := do
  let (requestTimeout, prng) ← client.requestTimeout.backoff client.prng
  let client := { client with requestTimeout, prng }
  match client.requestInflight with
  | none => abort "an inflight request"
  | some inflight => do
    assert (inflight.header.request < client.requestNumber) "header.request < self.request_number"
    assert (inflight.header.checksum = client.parent) "header.checksum() == self.parent"
    assert (inflight.header.session = client.session) "header.session == self.session"
    client.sendRequestWithHedging

-- The counter of the ticks, which nothing reads, is left out.
def tick (now : Nat) : Result (Client P) := do
  assert (client.evicted = false) "!self.evicted"
  let client := { client with
    pingTimeout := client.pingTimeout.tick, requestTimeout := client.requestTimeout.tick }
  let client ← if ← client.pingTimeout.fired then client.onPingTimeout now else pure client
  if ← client.requestTimeout.fired then client.onRequestTimeout else return client

end Client

inductive Event
  | register (callback userData now : Nat)
  | request (submission : Submission)
  | tick (now : Nat)
  | onMessage (message : Inbound) (now : Nat) (hook : Option Submission)
  deriving DecidableEq, Repr

def Client.step {P : Type} [Prng P] [Checksums] (client : Client P) : Event → Result (Client P)
  | .register callback userData now => client.register callback userData now
  | .request submission => client.request submission
  | .tick now => client.tick now
  | .onMessage message now hook => client.onMessage message now hook

end ClientSide

end TigerBeetle
