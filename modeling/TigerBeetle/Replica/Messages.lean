import TigerBeetle.Replica.Repair

namespace TigerBeetle

namespace Replica

variable [Env] (r : Replica)

-- Requests of clients.

def sendEvictionMessageToClient (client : Nat) (reason : Reason) : Result Replica := do
  assert (r.status = .normal) "self.status == Status::Normal"
  assert r.isPrimary "self.is_primary()"
  return { r with
    clientSendQueue := r.clientSendQueue ++ [.eviction client r.logViewDurable reason] }

-- Replies that have a body are read from disk, which is left out.
def onRequestRepeatReply (request : Request) (reply : Reply) : Result Replica := do
  assert (request.request = reply.request) "request.request == reply_header.request"
  assert (request.checksum = reply.requestChecksum)
    "request.checksum == reply_header.request_checksum"
  assert (r.status = .normal) "self.status == Status::Normal"
  if reply.size = headerSize then r.sendReplyMessageToClient reply [] else return r

def ignoreRequestOfSession (request : Request) (entry : Entry) : Result (Bool × Replica) := do
  assert (entry.header.client ≠ 0) "entry.header.client != 0"
  if request.operation ≠ .register ∧ request.session < entry.session then
    return (true, ← r.sendEvictionMessageToClient request.client .sessionTooLow)
  else if request.operation ≠ .register ∧ entry.session < request.session then
    return (true, r)
  else if entry.header.release ≠ request.release then
    return (true, ← r.sendEvictionMessageToClient request.client .sessionReleaseMismatch)
  else if request.request < entry.header.request then
    return (true, r)
  else if entry.header.request = request.request then
    if request.checksum = entry.header.requestChecksum then
      assert (entry.header.operation = request.operation)
        "entry.header.operation == request.operation"
      return (true, ← r.onRequestRepeatReply request entry.header)
    else
      return (true, r)
  else if entry.header.request + 1 = request.request then
    -- The client proves that it received the last reply.
    return (request.parent ≠ entry.header.context, r)
  else
    return (true, r)

def ignoreRequestMessage (request : Request) : Result (Bool × Replica) := do
  if r.view < request.view then
    return (true, r)
  else if request.release < releaseMinimum then
    return (true, ← r.sendEvictionMessageToClient request.client .clientReleaseTooLow)
  else if releaseMinimum < request.release then
    return (true, ← r.sendEvictionMessageToClient request.client .clientReleaseTooHigh)
  else if request.operation = .register ∧ request.size = headerSize then
    return (true, ← r.sendEvictionMessageToClient request.client .invalidRequestBodySize)
  else
    match r.clientSessions.get request.client with
    | some entry => r.ignoreRequestOfSession request entry
    | none =>
      if request.operation = .register then
        return (false, r)
      -- The register of the client may still be in the pipeline.
      else if r.pipelineQueue.prepareQueue.any (·.client = request.client) then
        return (true, r)
      else if request.client = 0 then
        assert (request.request = 0) "request.request == 0"
        return (false, r)
      else
        return (true, ← r.sendEvictionMessageToClient request.client .noSession)

def pushRequest (request : Request) (body : Body) : Replica :=
  { r with
    pipelineQueue.requestQueue := r.pipelineQueue.requestQueue ++ [
      { client := request.client
        request := request.request
        requestChecksum := request.checksum
        operation := request.operation
        body }] }

def onRequest (request : Request) (body : Body) : Result Replica := do
  if !r.isPrimary ∨ r.status ≠ .normal ∨ request.invalidHeader.isSome then
    return r
  else
    let (ignored, r) ← r.ignoreRequestMessage request
    if ignored then
      return r
    else
      assert (r.commitMin = r.commitMax) "self.commit_min == self.commit_max"
      if r.pipelineQueue.prepareQueueFull then
        return r.pushRequest request body
      else
        let (result, r) ← r.primaryPipelinePrepare request.client request.request
          request.operation body request.checksum
        assert result.toBool "valid primary-visible request must prepare"
        return r

-- Prepares of the primary.

def jumpToNewerOpInNormalStatus (op : Nat) : Result Replica := do
  assert (r.status = .normal) "self.status == Status::Normal"
  assert (¬r.isPrimary) "!self.is_primary()"
  assert (r.op + 1 < op) "op > self.op + 1"
  assert (r.commitMin < op) "op > self.commit_min"
  assertOn .window (op ≤ r.opPrepareMaxSync) "op <= self.op_prepare_max_sync()"
  let r := { r with op := op - 1 }
  assert (r.commitMin ≤ r.op) "self.op >= self.commit_min"
  assert (r.journal.headerWithOp r.op).isNone "self.journal.header_with_op(self.op).is_none()"
  return r

-- Repairs the journal by an old prepare, and records its body.
def onStalePrepare (prepare : Prepare) (body : Body) : Result Replica := do
  let r ← r.onRepair prepare
  if (r.journal.headerWithOp prepare.op).isSome then
    return { r with journal := ← r.journal.setPrepareBody prepare.op body }
  else
    return r

def onAcceptedPrepare (prepare : Prepare) (body : Body) : Result Replica := do
  assert (prepare.replica = primaryIndexForView prepare.view r.replicaCount)
    "prepare.replica == primary_index_for_view(prepare.view)"
  let r := { r with journal := ← r.journal.setPrepareBody prepare.op body }
  if r.isPrimary then
    return r
  else
    let r ← (r.advanceCommitMax prepare.commit).sendPrepareOk prepare
    let r ← r.commitJournal
    r.repair

def onFuturePrepare (prepare : Prepare) : Result Replica := do
  assert (prepare.replica = primaryIndexForView prepare.view r.replicaCount)
    "prepare.replica == primary_index_for_view(prepare.view)"
  let r := if r.isPrimary then r else r.advanceCommitMax prepare.commit
  r.jumpToNewerOpInNormalStatus prepare.op

def onPrepareMessage (prepare : Prepare) (body : Body) : Result Replica := do
  if !prepare.validChecksumBody body then
    return r
  else if r.status = .normal ∧ prepare.view < r.view then
    r.onStalePrepare prepare body
  else if r.status ≠ .normal ∨ prepare.view ≠ r.view then
    return r
  else
    let (result, r) ← r.onPrepare prepare
    match result with
    | .accepted => r.onAcceptedPrepare prepare body
    | .stale => r.onStalePrepare prepare body
    | .futureOp => r.onFuturePrepare prepare

def onPrepareOkMessage (prepareOk : PrepareOk) : Result Replica := do
  assert (prepareOk.replica < r.replicaCount) "prepare_ok.replica < self.replica_count"
  if r.status ≠ .normal ∨ prepareOk.view ≠ r.view then
    return r
  else
    let (result, r) ← r.onPrepareOk prepareOk.op prepareOk.prepareChecksum prepareOk.checkpointId
      prepareOk.commitMin prepareOk.replica
    match result with
    | .ackCounted | .quorumReached .. =>
      if r.status = .normal ∧ r.isPrimary ∧ r.commitStage = .idle then
        r.commitDispatchEnter
      else
        return r
    | _ => return r

def onCommit (commit : Commit) (now : Nat) : Result Replica := do
  if r.isPrimary ∨ r.status ≠ .normal ∨ commit.view ≠ r.view then
    return r
  else
    assert (commit.replica = primaryIndexForView commit.view r.replicaCount)
      "commit.replica == primary_index_for_view(commit.view)"
    let r ← r.onCommitHeartbeat commit.view commit.timestampMonotonic commit.commit now
    match r.journal.headerWithOp commit.commit with
    | some entry =>
      if entry.checksum ≠ commit.commitChecksum then
        assert (¬(← r.validHashChainBetween commit.commit r.op)) "commit checksum verification failed"
      r.commitJournal
    | none => r.commitJournal

-- All messages of another cluster are dropped.
def onMessage (message : Message) (now : Nat) : Result Replica :=
  match message with
  | .request request body =>
    if request.cluster = r.cluster then r.onRequest request body else return r
  | .prepare prepare body =>
    if prepare.cluster = r.cluster then r.onPrepareMessage prepare body else return r
  | .prepareOk prepareOk =>
    if prepareOk.cluster = r.cluster then r.onPrepareOkMessage prepareOk else return r
  | .commit commit => if commit.cluster = r.cluster then r.onCommit commit now else return r
  | .exitView exitView => if exitView.cluster = r.cluster then r.onExitView exitView else return r
  | .joinView joinView headers =>
    if joinView.cluster = r.cluster then r.onJoinView joinView headers now else return r
  | .view view headers =>
    if view.cluster = r.cluster then r.onView view headers now else return r
  | .getPrepare getPrepare =>
    if getPrepare.cluster = r.cluster then r.onGetPrepare getPrepare else return r
  | .getHeaders getHeaders =>
    if getHeaders.cluster = r.cluster then r.onGetHeaders getHeaders else return r
  | .headers header headers =>
    if header.cluster = r.cluster then r.onHeaders headers else return r
  | .getView getView => if getView.cluster = r.cluster then r.onGetView getView else return r

-- The timeouts. One that fires is stopped until its handler rearms it. What the handlers assert of the
-- status, the role and the votes is about the timeouts themselves.

def onPrepareTimeout : Result Replica := do
  assertOn .timeout (r.status = .normal) "self.status == Status::Normal"
  assertOn .timeout r.isPrimary "self.is_primary()"
  let timeout := r.timeouts.prepare.reset prepareTimeout
  let r := { r with timeouts.prepare := timeout }
  match r.primaryPipelinePending with
  | none =>
    return { r with
      timeouts := { r.timeouts with
        prepare := r.timeouts.prepare.stop, primaryAbdicate := r.timeouts.primaryAbdicate.stop } }
  | some (slot, prepare) =>
    let some acks := r.okFromAllReplicas[slot]? | abort "index out of bounds"
    let waiting := (List.range' 1 (r.replicaCount - 1)).filter fun ring =>
      !acks.testBit ((r.replicaIndex + ring) % r.replicaCount)
    assert (waiting ≠ []) "pending prepare has a quorum already"
    let some header := r.journal.headerWithOp prepare.op
      | abort "primary's journal must hold its own pending prepare"
    return { r with
      sendQueue := r.sendQueue ++ List.replicate waiting.length (.ofPrepare header []) }

def onCommitMessageTimeout (now : Nat) : Result Replica := do
  let timeout := r.timeouts.commitMessage.reset commitMessageTimeout
  assertOn .timeout (r.status = .normal) "self.status == Status::Normal"
  assertOn .timeout r.isPrimary "self.is_primary()"
  assert (r.commitMin = r.commitMax) "self.commit_min == self.commit_max"
  { r with timeouts.commitMessage := timeout }.sendCommit now

def onExitViewWindowTimeout : Result Replica := do
  assertOn .timeout (r.status = .normal ∨ r.status = .viewChange)
    "self.status == Status::Normal || self.status == Status::ViewChange"
  assertOn .timeout (r.exitViewFromAllReplicas ≠ 0) "self.exit_view_from_all_replicas != 0"
  assert (r.replicaIndex < 64) "attempt to shift left with overflow"
  return { r with
    timeouts.exitViewWindow := r.timeouts.exitViewWindow.stop
    exitViewFromAllReplicas :=
      if r.exitViewFromAllReplicas.testBit r.replicaIndex then 1 <<< r.replicaIndex else 0 }

def onExitViewMessageTimeout : Result Replica := do
  assertOn .timeout (r.status = .normal ∨ r.status = .viewChange)
    "self.status == Status::Normal || self.status == Status::ViewChange"
  assert (r.replicaIndex < 64) "attempt to shift left with overflow"
  let timeout := r.timeouts.exitViewMessage.reset exitViewMessageTimeout
  let r := { r with timeouts.exitViewMessage := timeout }
  if r.exitViewFromAllReplicas.testBit r.replicaIndex then r.sendExitView else return r

def onViewChangeStatusTimeout : Result Replica := do
  assertOn .timeout (r.status = .viewChange) "self.status == Status::ViewChange"
  sendExitView
    { r with timeouts.viewChangeStatus := r.timeouts.viewChangeStatus.reset viewChangeStatusTimeout }

def onJoinViewMessageTimeout : Result Replica := do
  assertOn .timeout (r.status = .viewChange) "self.status == Status::ViewChange"
  assert (1 < r.replicaCount) "self.replica_count > 1"
  let timeout := r.timeouts.joinViewMessage.reset joinViewMessageTimeout
  let r := { r with timeouts.joinViewMessage := timeout }
  if r.isPrimary ∧ r.joinViewQuorum then
    assert (r.view = r.logView) "self.view == self.log_view"
    return r
  else
    assert (r.logView < r.view) "self.view > self.log_view"
    r.sendJoinView

def onGetViewMessageTimeout : Result Replica := do
  assertOn .timeout (r.status = .viewChange) "self.status == Status::ViewChange"
  assertOn .timeout (¬r.isPrimary) "primary_index_for_view(self.view) != self.replica_index"
  sendGetView
    { r with timeouts.getViewMessage := r.timeouts.getViewMessage.reset getViewMessageTimeout }

def onPrimaryAbdicateTimeout : Result Replica := do
  assertOn .timeout (r.status = .normal) "self.status == Status::Normal"
  assertOn .timeout r.isPrimary "self.is_primary()"
  let timeout := r.timeouts.primaryAbdicate.reset primaryAbdicateTimeout
  let r := { r with timeouts.primaryAbdicate := timeout }
  return if r.solo then r else { r with primaryAbdicating := true }

def onPulseTimeout (now : Nat) : Result Replica := do
  assertOn .timeout (r.status = .normal) "self.status == Status::Normal"
  assertOn .timeout r.isPrimary "self.is_primary()"
  let r := { r with timeouts.pulse := r.timeouts.pulse.reset pulseTimeout }
  if r.pipelineQueue.prepareQueueFull then
    return r
  else if !(← r.pulseEnabled) then
    return r
  else
    let timestamp := max r.prepareTimestamp now
    if r.stateMachine.pulseNeeded timestamp then
      let r := { r with prepareTimestamp := timestamp }
      if r.viewDurableUpdating then return r else r.sendRequestPulseToSelf
    else
      return r

-- Advances one of the timeouts, and runs its handler if it fired.
def tickTimeout (get : Timeouts → Timeout) (set : Timeouts → Timeout → Timeouts)
    (onTimeout : Replica → Result Replica) : Result Replica :=
  let (fired, timeout) := (get r.timeouts).tick
  let r := { r with timeouts := set r.timeouts timeout }
  if fired then onTimeout r else return r

-- Pings and the repair of the grid have no effect on the state that is modelled.
def tick (now : Nat) : Result Replica := do
  let r ← if r.status = .normal then r.tickNormalHeartbeatFault now else pure r
  let r ← r.tickTimeout (·.ping) (fun timeouts ping => { timeouts with ping }) fun r =>
    pure { r with timeouts.ping := r.timeouts.ping.reset pingTimeout }
  let r ← r.tickTimeout (·.prepare) (fun timeouts prepare => { timeouts with prepare })
    onPrepareTimeout
  let r ← r.tickTimeout (·.commitMessage)
    (fun timeouts commitMessage => { timeouts with commitMessage }) (·.onCommitMessageTimeout now)
  let r ← r.tickTimeout (·.exitViewMessage)
    (fun timeouts exitViewMessage => { timeouts with exitViewMessage }) onExitViewMessageTimeout
  let r ← r.tickTimeout (·.exitViewWindow)
    (fun timeouts exitViewWindow => { timeouts with exitViewWindow }) onExitViewWindowTimeout
  let r ← r.tickTimeout (·.joinViewMessage)
    (fun timeouts joinViewMessage => { timeouts with joinViewMessage }) onJoinViewMessageTimeout
  let r ← r.tickTimeout (·.getViewMessage)
    (fun timeouts getViewMessage => { timeouts with getViewMessage }) onGetViewMessageTimeout
  let r ← r.tickTimeout (·.viewChangeStatus)
    (fun timeouts viewChangeStatus => { timeouts with viewChangeStatus }) onViewChangeStatusTimeout
  let r ← r.tickTimeout (·.primaryAbdicate)
    (fun timeouts primaryAbdicate => { timeouts with primaryAbdicate }) onPrimaryAbdicateTimeout
  let r ← r.tickTimeout (·.journalRepair)
    (fun timeouts journalRepair => { timeouts with journalRepair }) onJournalRepairTimeout
  let r ← r.tickTimeout (·.gridRepair) (fun timeouts gridRepair => { timeouts with gridRepair })
    fun r => pure { r with
      timeouts.gridRepair := r.timeouts.gridRepair.resetWithJitter gridRepairTimeout r.prng
      prng := r.prng + 1 }
  let r ← r.tickTimeout (·.pulse) (fun timeouts pulse => { timeouts with pulse })
    (·.onPulseTimeout now)
  r.tickTimeout (·.commitStall) (fun timeouts commitStall => { timeouts with commitStall })
    onCommitStallTimeout

-- The completion of up to `completions` writes of replies.
def pollClientReplies (completions : Nat) : Result Replica := do
  if !r.clientReplies.mounted then
    return r
  else
    let replies := { r.clientReplies with
      writesInFlight := r.clientReplies.writesInFlight - completions }
    let ready := replies.readyWaiting ∧ replies.readySync
    let replies := { replies with
      readyWaiting := replies.readyWaiting ∧ ¬replies.readySync
      checkpointWaiting := replies.checkpointWaiting ∧ replies.writesInFlight ≠ 0 }
    let r := { r with clientReplies := replies }
    if ready then
      assert (r.commitStage = .replySetup) "self.commit_stage == CommitStage::ReplySetup"
      assert (r.commitPrepare = some (r.commitMin + 1))
        "self.commit_prepare == Some(self.commit_min + 1)"
      r.commitDispatchResume
    else
      return r

end Replica

end TigerBeetle
