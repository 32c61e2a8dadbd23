import TigerBeetle.Replica.State

namespace TigerBeetle

namespace Replica

variable (r : Replica)

section

variable [Env]

-- Sets the head of the log, which truncates everything beyond it.
def setOpAndCommitMax (op commitMax : Nat) : Result Replica := do
  assert (r.status = .viewChange ∨ r.status = .normal)
    "self.status == Status::ViewChange || self.status == Status::Normal"
  assertOn .window (op ≤ r.opPrepareMaxSync) "op <= self.op_prepare_max_sync()"
  if op < min r.op r.opPrepareMaxSync then
    assert (max commitMax r.commitMax ≤ op) "op >= commit_max.max(self.commit_max)"
    assert (r.op ≤ op + pipelinePrepareQueueMax) "self.op <= op + PIPELINE_PREPARE_QUEUE_MAX"
  assert (r.commitMin ≤ r.commitMax) "self.commit_min <= self.commit_max"
  let journal ← r.journal.removeEntriesFrom (op + 1)
  let commitMax := max r.commitMax commitMax
  assert (r.commitMin ≤ commitMax) "self.commit_max >= self.commit_min"
  assert (op - pipelinePrepareQueueMax ≤ commitMax)
    "self.commit_max >= self.op.saturating_sub(PIPELINE_PREPARE_QUEUE_MAX)"
  return { r with op, journal, commitMax }

end

def pipelineLimit : Nat :=
  pipelinePrepareQueueMax + pipelineRequestQueueMax

-- Why the primary may not prepare another request, if it may not.
def prepareReject : Option PrepareReject :=
  if !r.isPrimary then
    some .notPrimary
  else if r.status ≠ .normal then
    some .notNormal
  else if r.commitMin ≠ r.commitMax then
    some .behindCommit
  else if pipelineLimit ≤ r.pipelineQueue.prepareQueue.length then
    some .pipelineFull
  else
    none

-- Accepts a prepare from the primary of the view, which advances `op` by exactly one.
def onPrepare (header : Prepare) : Result (OnPrepareResult × Replica) := do
  assert (r.status = .normal) "self.status == Status::Normal"
  assert (header.cluster = r.cluster) "header.cluster == self.cluster"
  assert (header.view = r.view) "header.view == self.view"
  assert (header.replica < r.replicaCount) "header.replica < self.replica_count"
  assert (header.operation ≠ .reserved) "header.operation != RESERVED"
  assert (header.operation ≠ .root) "header.operation != ROOT"
  if header.op ≤ r.op then
    return (.stale, r)
  else
    assertOn .checkpoint (¬(header.op ≤ r.opPrepareMaxSync ∧
      header.checkpointId ≠ r.checkpointId ∧ header.checkpointId ≠ r.parentCheckpointId))
      "checkpoint diverged"
    if r.op + 1 < header.op then
      return (.futureOp, r)
    else
      assert (header.op = r.op + 1) "header.op == self.op + 1"
      assert (∀ previous ∈ r.journal.previousEntry header, previous.checksum = header.parent)
        "hash chain break in view"
      let journal ← r.journal.setHeaderAsDirty header
      return (.accepted, { r with op := header.op, journal })

-- Tracks the progress of a replica, which decides on commit stalls.
def trackProgress (op commitMin replica : Nat) : Replica :=
  { r with
    commitMins := Function.update r.commitMins replica (max (r.commitMins replica) commitMin)
    headOps := Function.update r.headOps replica (max (r.headOps replica) op) }

-- Counts the acknowledgement of the pipeline entry in the given slot, which has the members `acks`
-- so far.
def countAck (slot : Nat) (prepare : PipelinePrepare) (acks checksum commitMin replica : Nat) :
    PrepareOkResult × Replica :=
  let prepare := { prepare with
    checksum := if prepare.checksum = 0 then checksum else prepare.checksum }
  let setPrepare (prepare : PipelinePrepare) : Replica :=
    { r with pipelineQueue.prepareQueue := r.pipelineQueue.prepareQueue.set slot prepare }
  if acks.testBit replica then
    (.duplicateAck, setPrepare prepare)
  else
    let acks := BitSet.insert acks replica
    let prepare := { prepare with acksReceived := prepare.acksReceived + 1 }
    if 2 ^ r.quorum.replication - 1 ≤ acks then
      let r' := setPrepare { prepare with okQuorumReceived := true }
      let drained := r.pipelineQueue.prepareQueue.length ≤ 1
      let timeouts := if drained then
        { r.timeouts with
          prepare := r.timeouts.prepare.stop, primaryAbdicate := r.timeouts.primaryAbdicate.stop }
      else
        r.timeouts
      (.quorumReached prepare.op checksum,
        { r' with
          okFromAllReplicas := r.okFromAllReplicas.set slot acks
          commitMins := Function.update r.commitMins replica commitMin
          timeouts })
    else
      (.ackCounted,
        { setPrepare prepare with okFromAllReplicas := r.okFromAllReplicas.set slot acks })

def onPrepareOk (op checksum checkpointId commitMin replica : Nat) :
    Result (PrepareOkResult × Replica) := do
  if !r.isPrimary then
    return (.ignored, r)
  else if r.status ≠ .normal then
    return (.ignored, r)
  else
    assert (replica < r.replicaCount) "replica < self.commit_mins.len()"
    let r := r.trackProgress op commitMin replica
    let some slot := r.pipelineQueue.prepareQueue.findIdx? (·.op = op) | return (.unknownOp, r)
    let some prepare := r.pipelineQueue.prepareQueue[slot]? | abort "index out of bounds"
    if prepare.checksum ≠ 0 ∧ prepare.checksum ≠ checksum then
      return (.checksumMismatch, r)
    else
      assertOn .checkpoint (prepare.checkpointId = checkpointId)
        "prepare_ok: checkpoint_id mismatch"
      let some expected := r.checkpointIdForOp op
        | abort "pipeline op has no remembered checkpoint id"
      assertOn .checkpoint (prepare.checkpointId = expected)
        "prepare_ok: checkpoint_id does not match checkpoint_id_for_op"
      assert (replica < 64) "attempt to shift left with overflow"
      let some acks := r.okFromAllReplicas[slot]? | abort "index out of bounds"
      return r.countAck slot prepare acks checksum commitMin replica

section

variable [Env]

-- The result of a reconfiguration request is determined when the request is prepared.
def primaryPrepareReconfiguration (body : Body) : Result Body :=
  if body = [] then
    return []
  else do
    let some body := Env.reconfigure body | abort "the request is validated"
    return body

def primaryPrepareBody (operation : Operation) (body : Body) : Result Body :=
  if operation = .reconfigure then primaryPrepareReconfiguration body else return body

def prepareCheckpointId : Result Nat := do
  if r.op < (← r.opCheckpointNext) then return r.parentCheckpointId else return r.checkpointId

-- The header of the prepare at op `self.op + 1`.
def prepareHeader (client request : Nat) (operation : Operation) (body : Body)
    (requestChecksum checkpointId timestamp : Nat) : Prepare :=
  Prepare.setChecksum
    { Prepare.zeroed with
      cluster := r.cluster
      replica := r.replicaIndex
      view := r.view
      release := releaseMinimum
      parent := ((r.journal.headerWithOp r.op).map (·.checksum)).getD 0
      client
      requestChecksum
      checkpointId
      op := r.op + 1
      commit := r.commitMax
      timestamp
      request
      operation
      size := headerSize + body.length
      checksumBody := Env.checksumBody body }

-- Starts the timeouts if the pipeline was previously empty.
def startPipelineTimeouts : Replica :=
  if r.pipelineQueue.prepareQueue.length = 1 then
    let primaryAbdicate := if r.timeouts.primaryAbdicate.active then
      r.timeouts.primaryAbdicate
    else
      .start primaryAbdicateTimeout
    { r with
      timeouts := { r.timeouts with prepare := .start pipelinePrepareQueueMax, primaryAbdicate } }
  else
    r

def pushPrepare (header : Prepare) (body : Body) : Replica :=
  { r with
    pipelineQueue.prepareQueue := r.pipelineQueue.prepareQueue ++ [.ofPrepare header body]
    okFromAllReplicas := r.okFromAllReplicas ++ [0] }

def primaryPipelinePrepare (client request : Nat) (operation : Operation) (body : Body)
    (requestChecksum : Nat) : Result (Except PrepareReject Nat × Replica) :=
  match r.prepareReject with
  | some reject => return (.error reject, r)
  | none => do
    assert (operation ≠ .reserved) "operation != .reserved"
    assert (operation ≠ .root) "operation != .root"
    let timestamp := max r.prepareTimestamp r.commitMax + 1
    let r := { r with prepareTimestamp := timestamp }
    let checkpointId ← r.prepareCheckpointId
    let body ← primaryPrepareBody operation body
    let header := r.prepareHeader client request operation body requestChecksum checkpointId
      timestamp
    -- The primary sends the prepare to itself.
    let (result, r) ← r.onPrepare header
    assert (result = .accepted) "result == OnPrepareResult::Accepted"
    let r := { r with journal := ← r.journal.setPrepareBody header.op body }
    let r := r.pushPrepare header body
    let (result, r) ←
      r.onPrepareOk header.op header.checksum header.checkpointId r.commitMin r.replicaIndex
    assert result.acknowledged "matches!(result, AckCounted | QuorumReached | DuplicateAck)"
    return (.ok header.op, r.startPipelineTimeouts.broadcast (.prepare header body))

end

-- The first prepare in the pipeline that has not yet reached a quorum, with its slot.
def primaryPipelinePending : Option (Nat × PipelinePrepare) :=
  (r.pipelineQueue.prepareQueue.zipIdx.find? (!·.1.okQuorumReceived)).map fun (prepare, slot) =>
    (slot, prepare)

-- The bookkeeping after an execution. It also completes the write of the prepare.
def commitOp (op : Nat) : Result Replica := do
  assert (op ≤ r.op) "op <= self.op"
  assert (r.commitMin < op) "op > self.commit_min"
  let r := { r with commitMin := op }.advanceCommitMax op
  match r.journal.headerWithOp op with
  | some header => return { r with journal := r.journal.setPrepareWritten header }
  | none => return r

def popCommitted : Option PipelinePrepare × Replica :=
  match r.pipelineQueue.prepareQueue with
  | [] => (none, r)
  | prepare :: prepareQueue =>
    (some prepare,
      { r with
        pipelineQueue.prepareQueue := prepareQueue
        okFromAllReplicas := r.okFromAllReplicas.tail })

end Replica

end TigerBeetle
