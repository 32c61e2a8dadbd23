import TigerBeetle.Replica.Pipeline

namespace TigerBeetle

-- The first four bytes of a body, in little-endian order.
def Body.u32 (body : Body) : Nat :=
  (body.take 4).foldr (fun byte n => byte.toNat + 256 * n) 0

def Body.ofU32 (n : Nat) : Body :=
  (List.range 4).map fun i => UInt8.ofNat (n / 256 ^ i)

namespace ClientReplies

def readySync (replies : ClientReplies) : Bool :=
  replies.writesInFlight < clientRepliesIopsWriteMax

def ready (replies : ClientReplies) : Result ClientReplies := do
  assert (¬replies.readyWaiting) "!self.ready_waiting"
  assert (¬replies.readySync) "!self.ready_sync()"
  return { replies with readyWaiting := true }

def writeReply (replies : ClientReplies) : Result ClientReplies := do
  assert replies.readySync "self.ready_sync()"
  assert (¬replies.checkpointWaiting) "!self.checkpoint_waiting"
  return { replies with writesInFlight := replies.writesInFlight + 1 }

def checkpoint (replies : ClientReplies) : Result ClientReplies := do
  assert (¬replies.checkpointWaiting) "!self.checkpoint_waiting"
  return { replies with checkpointWaiting := true }

end ClientReplies

namespace StateMachine

def eventSize : Nat := 128

-- The number of accounts or transfers of a batch.
def eventCount (operation : Operation) (body : Body) : Nat :=
  if operation = .createAccounts ∨ operation = .createTransfers then body.length / eventSize else 0

-- The subtraction is unsigned in the source, where it overflows if the result is negative.
def timestampEvent (timestamp len index : Nat) : Int :=
  timestamp - len + index + 1

-- The timestamps of the events of a batch.
def eventTimestamps (prepare : Prepare) (body : Body) : List Int :=
  let len := eventCount prepare.operation body
  (List.range len).map (timestampEvent prepare.timestamp len)

variable [Env]

def prefetch (operation : Operation) (body : Body) : Result Unit := do
  assert (body.length ≤ messageBodySizeMax) "body.len() <= MESSAGE_BODY_SIZE_MAX"
  assert (Env.bodyIsValid operation body)
    "prefetch body must encode a whole number of events for the operation"

def pulseNeeded (stateMachine : StateMachine) (timestamp : Nat) : Bool :=
  Env.pulseNextTimestamp stateMachine.executed ≤ timestamp

end StateMachine

variable [Env]

namespace Replica

variable (r : Replica)

def sendReplyMessageToClient (header : Reply) (body : Body) : Result Replica := do
  assert (header.client ≠ 0) "header.client != 0"
  assert (header.view ≤ r.view) "header.view <= self.view"
  let header :=
    if header.view = r.logView then header else Reply.setChecksum { header with view := r.logView }
  return { r with clientSendQueue := r.clientSendQueue ++ [.reply header body] }

def upgrading : Bool :=
  r.upgradeRelease.isSome || r.pipelineQueue.containsOperation .upgrade

def pulseEnabled : Result Bool := do
  assert (r.status = .normal) "self.status == Status::Normal"
  assert r.isPrimary "self.is_primary()"
  assert (¬r.pipelineQueue.prepareQueueFull) "!self.pipeline_queue.prepare_queue_full()"
  return !r.pipelineQueue.containsOperation .pulse && !(r.solo && r.viewDurableUpdating) &&
    !r.upgrading

def sendRequestPulseToSelf : Result Replica := do
  assert (r.status = .normal) "self.status == Status::Normal"
  assert r.isPrimary "self.is_primary()"
  assert (¬r.viewDurableUpdating) "!self.view_durable_updating()"
  assert (¬r.pipelineQueue.prepareQueueFull) "!self.pipeline_queue.prepare_queue_full()"
  assert (¬r.pipelineQueue.containsOperation .pulse)
    "!self.pipeline_queue.contains_operation(PULSE)"
  assert (← r.pulseEnabled) "self.pulse_enabled()"
  assert (r.stateMachine.pulseNeeded r.prepareTimestamp)
    "self.state_machine.pulse_needed(self.prepare_timestamp)"
  let (result, r) ← r.primaryPipelinePrepare 0 0 .pulse [] 0
  assert result.toBool "pulse must be preparable"
  assert (r.pipelineQueue.containsOperation .pulse)
    "self.pipeline_queue.contains_operation(PULSE)"
  return r

def sendRequestUpgradeToSelf : Result Replica := do
  assert (r.status = .normal) "self.status == Status::Normal"
  assert r.isPrimary "self.is_primary()"
  assert (¬r.viewDurableUpdating) "!self.view_durable_updating()"
  let some release := r.upgradeRelease | abort "an in-flight upgrade"
  assert (releaseMinimum < release) "upgrade_release.value > Release::MINIMUM.value"
  let body := Body.ofU32 release ++ List.replicate (upgradeRequestSize - 4) 0
  let (result, r) ← r.primaryPipelinePrepare 0 0 .upgrade body 0
  assert result.toBool "the upgrade must be preparable"
  assert (r.pipelineQueue.containsOperation .upgrade)
    "self.pipeline_queue.contains_operation(UPGRADE)"
  return r

-- Scans the `count` ops from `op` upwards, which end at the checkpoint trigger.
def releaseOfBar (foundUpgrade : Nat) : (count op : Nat) → Result (Option Nat)
  | 0, _ => do
    assert (foundUpgrade = lsmCompactionOps) "found_upgrade == LSM_COMPACTION_OPS"
    assert r.upgradeRelease.isSome "an all-upgrade bar needs an in-flight upgrade"
    return r.upgradeRelease
  | count + 1, op => do
    let some header := r.journal.headerForOp op
      | abort "the bar preceding the trigger is journaled"
    if header.operation = .upgrade then
      releaseOfBar (foundUpgrade + 1) count (op + 1)
    else
      assert (foundUpgrade = 0) "found_upgrade == 0"
      return some releaseMinimum

def releaseForNextCheckpoint : Result (Option Nat) := do
  assert (∀ superblock ∈ r.superblock, superblock.working.release = releaseMinimum)
    "Release::MINIMUM == superblock.working().vsr_state.checkpoint.release"
  if r.commitMin < (← r.opCheckpointNextTrigger) then
    return none
  else
    let next ← r.opCheckpointNext
    let trigger ← r.opCheckpointNextTrigger
    r.releaseOfBar 0 (trigger - next) (next + 1)

def validHashChainFrom (opMin : Nat) : (count : Nat) → (b : Prepare) → Result Bool
  | 0, _ => return true
  | count + 1, b =>
    match r.journal.headerWithOp (opMin + count) with
    | none => return false
    | some a => do
      assert (a.op + 1 = b.op) "a.op + 1 == b.op"
      if a.checksum ≠ b.parent then
        return false
      else
        assert (a.view < b.view ∨ a.view = b.view ∧ a.op < b.op) "viewstamps not ascending"
        validHashChainFrom opMin count a

def validHashChainBetween (opMin opMax : Nat) : Result Bool := do
  assert (opMin ≤ opMax) "op_min <= op_max"
  assert (r.opCheckpoint ≤ opMax) "op_max >= self.op_checkpoint()"
  assert (opMax = r.op) "op_max == self.op"
  match r.journal.headerWithOp opMax with
  | none => return false
  | some b => r.validHashChainFrom opMin (opMax - opMin) b

def validHashChain : Result Bool := do
  assert (r.opCheckpoint ≤ r.commitMin) "self.op_checkpoint() <= self.commit_min"
  assert (r.opCheckpoint ≤ r.op) "self.op_checkpoint() <= self.op"
  if r.op < (← r.opRepairMax) then
    return false
  else if r.op = r.opCheckpoint then
    return false
  else
    let opVerifyMin := max r.commitMin (r.opCheckpoint + 1)
    assert (opVerifyMin ≤ r.commitMin + 1) "op_verify_min <= self.commit_min + 1"
    r.validHashChainBetween opVerifyMin r.op

-- The stages of a commit. A stage that is not ready leaves the pipeline suspended until it is
-- resumed.

def commitStartPipeline : Result Replica := do
  assert r.commitPrepare.isNone "self.commit_prepare.is_none()"
  assert (r.status = .normal) "self.status == Status::Normal"
  assert r.isPrimary "self.is_primary()"
  match r.pipelineQueue.prepareQueue with
  | [] => return r
  | head :: _ =>
    if !head.okQuorumReceived then
      return r
    else
      let count := (r.okFromAllReplicas.head?.map (BitSet.countOnes 64)).getD 0
      assertOn .quorum (r.quorum.replication ≤ count) "self.quorum().replication <= count"
      assertOn .quorum (count ≤ r.replicaCount) "count <= self.replica_count"
      return { r with commitPrepare := some head.op }

def commitStartJournal : Result Replica := do
  assert r.commitPrepare.isNone "self.commit_prepare.is_none()"
  assert (r.status = .normal ∨ r.status = .viewChange)
    "self.status == Status::Normal || self.status == Status::ViewChange"
  assert (¬r.isPrimary) "!self.is_primary()"
  assert (r.commitMin ≤ r.commitMax) "self.commit_min <= self.commit_max"
  assert (r.commitMin ≤ r.op) "self.commit_min <= self.op"
  if r.commitMin < r.commitMax ∧ r.commitMin < r.op then
    match r.journal.headerWithOp (r.commitMin + 1), r.journal.headerWithOp r.op with
    | some header, some head =>
      -- The primary of the head's view already validated the hash chain of that view.
      if (← r.validHashChain) ∨ r.status = .normal ∧ header.view = head.view then
        return { r with commitPrepare := some (r.commitMin + 1) }
      else
        return r
    | _, _ => return r
  else
    return r

def commitStart : Result Replica :=
  if r.status = .normal ∧ r.isPrimary then r.commitStartPipeline else r.commitStartJournal

def commitPrefetch : Result Unit := do
  let some op := r.commitPrepare | abort "commit_prefetch requires commit_prepare"
  let some prepare := r.journal.headerWithOp op | abort "the op being committed is journaled"
  assert (prepare.operation ≠ .root) "prepare.operation != ROOT"
  assert (prepare.operation ≠ .reserved) "prepare.operation != RESERVED"
  assert (prepare.op = r.commitMin + 1) "prepare.op == self.commit_min + 1"
  assert (prepare.size ≤ headerSize + messageBodySizeMax)
    "Cannot commit prepare; batch limit too low"
  if prepare.operation.executes then
    StateMachine.prefetch prepare.operation ((r.journal.bodyWithOp op).getD [])
  else
    assert prepare.operation.vsrReserved "prepare.operation.vsr_reserved()"

-- How far the slowest replica that can still catch up is behind.
def commitLag : Nat :=
  (List.range r.replicaCount).foldl
    (fun lag replica =>
      if r.commitMin - r.commitMins replica ≤ commitStallLagMax then
        max lag (min (r.headOps replica) r.commitMin - r.commitMins replica)
      else
        lag) 0

def hasCommittedSuccessor : Bool :=
  r.okFromAllReplicas.tail.any fun acks => r.quorum.replication ≤ BitSet.countOnes 64 acks

def stallTicks (lag : Nat) : Nat :=
  min (max (lag / (vsrCheckpointOps / commitStallMultipleMax)) 1) commitStallMultipleMax * 10 /
    tickMs

def commitStall : Result (Bool × Replica) := do
  assert (¬r.timeouts.commitStall.active) "!self.commit_stall_timeout.active"
  let some op := r.commitPrepare | abort "commit_stall requires commit_prepare"
  assert (op = r.commitMin + 1) "op == self.commit_min + 1"
  if r.status ≠ .normal ∨ !r.isPrimary ∨ r.solo then
    return (true, r)
  else
    let some head := r.pipelineQueue.prepareQueue.head?
      | abort "the pipeline holds the commit being stalled"
    assert (head.op = op) "the stalled prepare is the pipeline head"
    let stall (r : Replica) (ticks : Nat) : Replica :=
      { r with timeouts.commitStall := r.timeouts.commitStall.reset ticks }
    if r.commitLag < commitStallLagMin then
      if !r.hasCommittedSuccessor then
        return (true, r)
      else
        let chance := Env.chance r.prng
        let r := { r with prng := r.prng + 1 }
        return if chance then (false, stall r 1) else (true, r)
    else
      return (false, stall r (stallTicks r.commitLag))

def commitReplySetup : Result (Bool × Replica) := do
  if r.clientReplies.readySync then
    return (true, r)
  else
    return (false, { r with clientReplies := ← r.clientReplies.ready })

-- Whether this replica replies to the client: the primary, and one of the backups.
def executeOpReplyToClient (op : Nat) : Result Bool := do
  if r.isPrimary then
    return true
  else if r.replicaCount = 1 then
    return false
  else
    assert (r.replicaCount ≤ 256) "self.replica_count <= 256"
    let offset := 1 + Env.replyOffset op (r.replicaCount - 2)
    return (r.primaryIndex + offset) % r.replicaCount = r.replicaIndex

def buildReply (prepare : Prepare) (result : Body) : Result Reply := do
  assert (prepare.operation ≠ .root) "prepare.operation != ROOT"
  assert (prepare.operation ≠ .reserved) "prepare.operation != RESERVED"
  let reply : Reply :=
    { checksum := 0
      checksumBody := Env.checksumBody result
      cluster := prepare.cluster
      size := headerSize + result.length
      view := prepare.view
      release := prepare.release
      replica := prepare.replica
      requestChecksum := prepare.requestChecksum
      context := 0
      client := prepare.client
      op := prepare.op
      commit := prepare.op
      timestamp := prepare.timestamp
      request := prepare.request
      operation := prepare.operation }
  return Reply.setChecksum { reply with context := reply.calculateChecksum }

def executeOpRegister (body : Body) : Result Body := do
  let batchSizeLimit ←
    if body = [] then
      pure 0
    else do
      assert (body.length = registerRequestSize) "body.len() == size_of::<RegisterRequest>()"
      assert (body.u32 ≤ messageBodySizeMax) "batch_size_limit <= MESSAGE_BODY_SIZE_MAX"
      pure body.u32
  return Body.ofU32 batchSizeLimit ++ List.replicate (registerResultSize - 4) 0

def executeOpReconfiguration (body : Body) : Result Body := do
  if body = [] then
    return []
  else
    assert (body.length = reconfigurationRequestSize)
      "body.len() == size_of::<ReconfigurationRequest>()"
    let result : Body := body.drop (body.length - reconfigurationResultSize)
    assert (result.u32 ≠ 0) "result != ReconfigurationResult::Reserved"
    return Body.ofU32 result.u32

def executeOpUpgrade (body : Body) : Result Replica := do
  if body = [] then
    assert r.upgradeRelease.isNone "self.upgrade_release.is_none()"
    return r
  else
    assert (body.length = upgradeRequestSize) "body.len() == size_of::<UpgradeRequest>()"
    let release := body.u32
    assert (∀ byte ∈ body.drop 4, byte = 0) "the upgrade reserved bytes are zeroed"
    assert (releaseMinimum ≤ release) "the request release is at least the running release"
    if release = releaseMinimum then
      assert r.upgradeRelease.isNone "self.upgrade_release.is_none()"
      return r
    else
      assert (∀ upgrade ∈ r.upgradeRelease, upgrade = release)
        "a second distinct in-flight upgrade"
      return { r with upgradeRelease := some release }

-- The sessions after the eviction of the one with the oldest commit, if the table is full.
def clientSessionsWithRoom : Result ClientSessions := do
  if r.clientSessions.count = clientsMax then
    let sessions ← r.clientSessions.remove (← r.clientSessions.evictee)
    assert (sessions.count = clientsMax - 1) "self.client_sessions.count() == clients_max - 1"
    return sessions
  else
    return r.clientSessions

def clientTableEntryCreate (reply : Reply) (body : Body) : Result Replica := do
  assert (reply.operation = .register) "reply.operation == REGISTER"
  assert (reply.client ≠ 0) "reply.client != 0"
  assert (reply.op = reply.commit) "reply.op == reply.commit"
  assert (reply.size = headerSize + registerResultSize)
    "reply.size == SIZE_U32 + REGISTER_RESULT_SIZE_U32"
  assert (body.length = registerResultSize) "body.len() == size_of::<RegisterResult>()"
  assert (reply.commit ≠ 0) "session != 0"
  assert (reply.request = 0) "request == 0"
  assert (r.clientSessions.count ≤ clientsMax) "clients <= clients_max"
  let sessions ← (← r.clientSessionsWithRoom).put reply.commit reply
  assert (sessions.count ≤ clientsMax) "self.client_sessions.count() <= clients_max"
  let replies ← if r.clientReplies.mounted then r.clientReplies.writeReply else pure r.clientReplies
  return { r with clientSessions := sessions, clientReplies := replies }

def clientTableEntryUpdate (reply : Reply) : Result Replica := do
  assert (reply.operation ≠ .register) "reply.operation != REGISTER"
  assert (reply.client ≠ 0) "reply.client != 0"
  assert (reply.op = reply.commit) "reply.op == reply.commit"
  assert (reply.commit ≠ 0) "reply.commit != 0"
  assert (reply.request ≠ 0) "reply.request != 0"
  match r.clientSessions.slotOf reply.client, r.clientSessions.get reply.client with
  | some slot, some entry => do
    assertOn .session (entry.header.op = entry.header.commit)
      "entry.header.op == entry.header.commit"
    assertOn .session (entry.session ≤ entry.header.commit) "entry.header.commit >= entry.session"
    assertOn .session (entry.header.request + 1 = reply.request)
      "entry.header.request + 1 == reply.request"
    assertOn .session (entry.header.op < reply.op) "entry.header.op < reply.op"
    assertOn .session (entry.header.commit < reply.commit) "entry.header.commit < reply.commit"
    assertOn .session (entry.header.release = reply.release)
      "entry.header.release == reply.release"
    let replies ← if reply.size ≠ headerSize ∧ r.clientReplies.mounted then
      r.clientReplies.writeReply
    else
      pure r.clientReplies
    return { r with
      clientSessions := r.clientSessions.set slot (some { entry with header := reply })
      clientReplies := replies }
  -- The session was evicted while preparing.
  | _, _ => return r

-- Runs a prepare on the state machine, or on the replica itself if the operation is reserved.
def executePrepare (prepare : Prepare) (body : Body) : Result (Body × Replica) := do
  if prepare.operation.executes then
    let some result :=
        Env.execute r.stateMachine.executed prepare.operation prepare.timestamp body
      | abort "the state machine executes the batch"
    return (result, r)
  else
    assert (r.upgradeRelease.isNone ∨ prepare.operation = .upgrade)
      "no operations commit during an in-flight upgrade"
    assert (r.stateMachine.commitTimestamp < prepare.timestamp) "self.commit_timestamp < timestamp"
    if prepare.operation = .register then
      return (← executeOpRegister body, r)
    else if prepare.operation = .reconfigure then
      return (← executeOpReconfiguration body, r)
    else if prepare.operation = .upgrade then
      return ([], ← r.executeOpUpgrade body)
    else
      return ([], r)

def recordExecution (prepare : Prepare) (body : Body) : Result Replica := do
  assert (r.stateMachine.commitTimestamp ≤ prepare.timestamp)
    "self.state_machine.commit_timestamp() <= prepare.timestamp"
  return { r with
    stateMachine :=
      { commitTimestamp := prepare.timestamp
        executed := r.stateMachine.executed ++ [(prepare, body)] } }

def updateClientTable (reply : Reply) (result : Body) : Result Replica := do
  if reply.operation = .register then
    r.clientTableEntryCreate reply result
  else if reply.operation = .pulse ∨ reply.operation = .upgrade then
    assert (reply.client = 0) "reply.client == 0"
    return r
  else
    r.clientTableEntryUpdate reply

def replyToClient (reply : Reply) (result : Body) : Result Replica := do
  if reply.client ≠ 0 then
    if ← r.executeOpReplyToClient reply.op then
      r.sendReplyMessageToClient reply result
    else
      return r
  else
    return r

-- Prepares the next request, now that the pipeline has room.
def prepareNextRequest : Result Replica := do
  let some request := r.pipelineQueue.requestQueue.getLast? | return r
  let r := { r with pipelineQueue.requestQueue := r.pipelineQueue.requestQueue.dropLast }
  let (result, r) ← r.primaryPipelinePrepare request.client request.request request.operation
    request.body request.requestChecksum
  assert result.toBool "popped request must be preparable"
  return r

def injectPulse : Result Replica := do
  if (← r.pulseEnabled) ∧ r.stateMachine.pulseNeeded r.prepareTimestamp then
    assert r.upgradeRelease.isNone "self.upgrade_release.is_none()"
    r.sendRequestPulseToSelf
  else
    return r

def redriveUpgrade : Result Replica := do
  let some release := r.upgradeRelease | return r
  assert (releaseMinimum < release) "upgrade_release.value > Release::MINIMUM.value"
  assert (¬(← r.pulseEnabled)) "!self.pulse_enabled()"
  let next ← r.releaseForNextCheckpoint
  if next.all (· = releaseMinimum) then
    r.sendRequestUpgradeToSelf
  else
    return r

-- After an execution, the primary refills its pipeline.
def refillPipeline (op : Nat) : Result Replica := do
  if r.status = .normal ∧ r.isPrimary then
    assert (r.commitMin = r.commitMax) "self.commit_min == self.commit_max"
    let (popped, r) := r.popCommitted
    assert (popped.any (·.op = op)) "popped.is_some_and(|p| p.op == op)"
    let r ← r.prepareNextRequest
    let r ← r.injectPulse
    r.redriveUpgrade
  else
    return r

def commitExecute : Result Replica := do
  let some op := r.commitPrepare | abort "commit_execute requires commit_prepare"
  assert (r.commitMin + 1 = op) "self.commit_min + 1 == op"
  let some prepare := r.journal.headerWithOp op | abort "the op being committed is journaled"
  let body := (r.journal.bodyWithOp op).getD []
  let (result, r) ← r.executePrepare prepare body
  let r ← r.recordExecution prepare body
  let reply ← buildReply prepare result
  let r ← r.updateClientTable reply result
  let r ← r.replyToClient reply result
  let r ← r.commitOp op
  assert (r.commitMin ≤ r.commitMax) "self.commit_min <= self.commit_max"
  r.refillPipeline op

-- Whether the commit has reached the trigger of the next checkpoint.
def commitTriggersCheckpoint : Result Bool := do
  let some op := r.commitPrepare | abort "commit_checkpoint_data requires commit_prepare"
  assert (op = r.commitMin) "op == self.commit_min"
  let trigger ← r.opCheckpointNextTrigger
  assert (op ≤ trigger) "op <= self.op_checkpoint_next_trigger()"
  return op = trigger

def commitCheckpointData : Result Replica := do
  if ← r.commitTriggersCheckpoint then
    return { r with clientReplies := ← r.clientReplies.checkpoint }
  else
    return r

end Replica

end TigerBeetle
