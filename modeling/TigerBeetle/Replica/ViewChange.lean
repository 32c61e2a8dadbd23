import TigerBeetle.Replica.SuperBlock

namespace TigerBeetle

namespace Timeout

variable [Env]

-- Unsynchronizes the replicas by spreading the timeout around the given number of ticks.
def resetWithJitter (timeout : Timeout) (ticks prng : Nat) : Timeout :=
  { timeout with ticks := ticks / 2 + Env.jitter prng (ticks * 2 - 2 * (ticks / 2)), active := true }

end Timeout

namespace Replica

variable [Env] (r : Replica)

-- The prepare_oks of a replica.

def prepareOk (prepare : Prepare) (checkpointId : Nat) : PrepareOk where
  cluster := r.cluster
  view := r.view
  replica := r.replicaIndex
  parent := prepare.parent
  prepareChecksum := prepare.checksum
  checkpointId := checkpointId
  client := prepare.client
  op := prepare.op
  commitMin := r.commitMin
  timestamp := prepare.timestamp
  request := prepare.request
  operation := prepare.operation

def sendPrepareOk (prepare : Prepare) : Result Replica := do
  assert prepare.validChecksum "prepare.valid_checksum()"
  assert prepare.invalidHeader.isNone "prepare.invalid().is_none()"
  if r.status ≠ .normal then
    return r
  else if r.op < prepare.op then
    assert (prepare.view < r.view) "prepare.view < self.view"
    return r
  else if (← r.opPrepareOkMax) < prepare.op then
    return r
  else
    match r.checkpointIdForOp prepare.op with
    | none => return r
    | some checkpointId => do
      assertOn .checkpoint (checkpointId = prepare.checkpointId) "prepare_ok: checkpoint mismatch"
      return r.enqueue (.prepareOk (r.prepareOk prepare checkpointId))

-- Acknowledges the `count` ops from `op` upwards that are journaled.
def sendPrepareOksUpTo : (count op : Nat) → Replica → Result Replica
  | 0, _, r => return r
  | count + 1, op, r => do
    match r.journal.headerWithOp op with
    | some header => sendPrepareOksUpTo count (op + 1) (← r.sendPrepareOk header)
    | none => sendPrepareOksUpTo count (op + 1) r

def sendPrepareOksFrom (opStart : Nat) : Result Replica :=
  sendPrepareOksUpTo (r.op + 1 - opStart) opStart r

def sendPrepareOksAfterViewChange : Result Replica := do
  assert (r.status = .normal) "self.status == Status::Normal"
  r.sendPrepareOksFrom (r.commitMax + 1)

def sendPrepareOksAfterCheckpoint : Result Replica := do
  assert (r.status = .normal) "self.status == Status::Normal"
  let some trigger := r.checkpoint.triggerForCheckpoint
    | abort "a valid checkpoint always has a trigger"
  assert (r.commitMin = trigger) "self.commit_min == op_checkpoint_trigger"
  r.sendPrepareOksFrom (max (r.commitMax + 1) (trigger + pipelinePrepareQueueMax + 1))

-- The completion of up to `completions` superblock updates.
def driveSuperblock (completions : Nat) : Result Replica := do
  let some superblock := r.superblock | return r
  let (callers, superblock) := superblock.poll completions
  if .viewChange ∈ callers then
    assert (superblock.working.view ≤ r.view) "sb.working().vsr_state.view <= view"
    assert (superblock.working.logView ≤ r.logView) "sb.working().vsr_state.log_view <= log_view"
  let r := { r with superblock := some superblock }
  let r ←
    if .viewChange ∈ callers ∧ (r.logViewDurable < r.logView ∨ r.viewDurable < r.view) then
      r.viewDurableUpdate
    else
      pure r
  if .checkpoint ∈ callers ∧ r.commitDispatchEntered then
    assert (r.opCheckpoint + lsmCompactionOps = r.commitMin)
      "op_checkpoint == self.commit_min - LSM_COMPACTION_OPS"
    let r ← r.sendPrepareOksAfterCheckpoint
    r.commitDispatchResume
  else
    return r

-- The view messages of a primary.

def journalHeaderOrRoot (op : Nat) : Result Prepare :=
  match r.journal.headerWithOp op with
  | some header => return header
  | none => do
    assert (op = 0) "op == 0"
    return .root r.cluster

-- The headers of the `count` ops below `op`, latest first.
def headersBelow : (count op : Nat) → Result (List Prepare)
  | 0, _ => return []
  | _, 0 => return []
  | count + 1, op + 1 => do
    let header ← r.journalHeaderOrRoot op
    return header :: (← headersBelow count op)

-- The headers at preceding checkpoint triggers, which help backups to repair across them.
def headersAtHooks (opMin : Nat) : (op : Nat) → (hooks : List Nat) → Result (List Prepare)
  | _, [] => return []
  | op, hook :: hooks =>
    if hook < op ∧ opMin ≤ hook then do
      let header ← r.journalHeaderOrRoot hook
      return header :: (← headersAtHooks opMin hook hooks)
    else
      headersAtHooks opMin op hooks

def primaryUpdateViewHeaders : Result Replica := do
  assert (r.status = .normal ∨ r.status = .viewChange)
    "self.status == Status::Normal || self.status == Status::ViewChange"
  assert (r.view = r.logView) "self.view == self.log_view"
  assert r.isPrimary "self.is_primary()"
  let journalStart := r.op - (journalSlotCount - 1)
  let headerBreak ← r.journal.findLatestHeadersBreakBetween journalStart r.op
  let opMin := (headerBreak.map (·.opMax + 1)).getD journalStart
  let suffix ← r.headersBelow viewChangeHeadersSuffixMax (r.op + 1)
  let hooks ← r.headersAtHooks opMin (r.op + 1 - suffix.length)
    [r.op - vsrCheckpointOps, r.op - vsrCheckpointOps * 2]
  let viewHeaders := suffix ++ hooks
  assert (viewHeaders.IsChain fun header next => next.op < header.op) "header.op < previous"
  return { r with viewHeaders }

def makeViewMessage (nonce : Nat) : Result (Message × Replica) := do
  assert (r.status = .normal ∨ r.status = .viewChange)
    "self.status == Status::Normal || self.status == Status::ViewChange"
  assert r.isPrimary "self.is_primary()"
  assert (r.view = r.logView) "self.view == self.log_view"
  assert (r.commitMin ≤ r.op) "self.commit_min <= self.op"
  let r ← r.primaryUpdateViewHeaders
  let some head := r.viewHeaders.head? | abort "index out of bounds"
  assert (head.op = r.op) "self.view_headers[0].op == self.op"
  let view : View :=
    { cluster := r.cluster
      view := r.view
      replica := r.replicaIndex
      nonce
      op := r.op
      commitMax := r.commitMax
      checkpointOp := r.opCheckpoint }
  return (.view view r.viewHeaders, r)

def primaryJournalHeadersRepaired : Result Bool := do
  assert (r.status = .normal ∨ r.status = .viewChange)
    "self.status == Status::Normal || self.status == Status::ViewChange"
  assert r.isPrimary "self.is_primary()"
  assert (r.view = r.logView) "self.view == self.log_view"
  assert (r.status = .viewChange → r.joinViewQuorum) "self.join_view_quorum"
  r.validHashChainBetween r.opRepairMin r.op

-- Whether the `count` ops from `op` upwards are written.
def preparesWritten : (count op : Nat) → Result Bool
  | 0, _ => return true
  | count + 1, op =>
    match r.journal.headerWithOp op with
    | none => abort "primary journal missing header"
    | some header =>
      if r.journal.dirty (Journal.slotForOp header.op) then
        return false
      else
        preparesWritten count (op + 1)

def primaryJournalPreparesRepaired : Result Bool := do
  assert (r.status = .normal ∨ r.status = .viewChange)
    "self.status == Status::Normal || self.status == Status::ViewChange"
  assert r.isPrimary "self.is_primary()"
  assert (r.view = r.logView) "self.view == self.log_view"
  assert (r.status = .viewChange → r.joinViewQuorum) "self.join_view_quorum"
  r.preparesWritten (r.op + 1 - r.opRepairMin) r.opRepairMin

def primaryJournalRepaired : Result Bool := do
  if ← r.primaryJournalHeadersRepaired then r.primaryJournalPreparesRepaired else return false

def primarySendView : Result Replica := do
  assert (r.status = .normal ∨ r.status = .viewChange)
    "self.status == Status::Normal || self.status == Status::ViewChange"
  assert r.isPrimary "self.is_primary()"
  assert (← r.primaryJournalHeadersRepaired) "self.primary_journal_headers_repaired()"
  let (message, r) ← r.makeViewMessage 0
  return r.enqueue message

-- The join-view messages of a replica that leaves its view.

-- The headers from `op` down to the first one that is known to be committed.
def joinViewHeadersFrom : (op : Nat) → Result (List Prepare)
  | 0 => return [← r.journalHeaderOrRoot 0]
  | op + 1 =>
    match r.journal.headerWithOp (op + 1) with
    | none => abort "op <= self.commit_max && op == 0"
    | some header =>
      if op + 1 ≤ r.commitMax then
        return [header]
      else
        return header :: (← joinViewHeadersFrom op)

def updateJoinViewHeaders : Result Replica := do
  assert (r.status = .normal) "self.status == Status::Normal"
  assert (r.view = r.logView) "self.view == self.log_view"
  let headers ← r.joinViewHeadersFrom r.op
  assert (headers.length ≤ pipelinePrepareQueueMax + 1)
    "self.join_view_headers.len() <= PIPELINE_PREPARE_QUEUE_MAX + 1"
  assert (∀ head ∈ headers.head?, head.op = r.op) "self.join_view_headers[0].op == self.op"
  return { r with joinViewHeaders := headers }

-- A header is nacked if its prepare was never received, is not durable yet, or was replaced.
def nacks (header : Prepare) : Bool :=
  let slot := Journal.slotForOp header.op
  match r.journal.headerWithOp header.op with
  | none => !r.journal.faulty slot
  | some existing =>
    existing.checksum = header.checksum ∧ r.journal.dirty slot ∧ !r.journal.faulty slot ∨
      existing.checksum ≠ header.checksum

def isPresent (header : Prepare) : Result Bool :=
  let slot := Journal.slotForOp header.op
  match r.journal.headerWithOp header.op with
  | none => return false
  | some existing =>
    if r.journal.prepareInhabited slot ∧ r.journal.prepareChecksums slot = header.checksum then do
      assert (existing.checksum = header.checksum) "journal_header.checksum() == header.checksum"
      return true
    else
      return false

-- The bitsets of nacked and present headers, where the first header has the given index.
def joinViewBitsets : (index : Nat) → List Prepare → Result (Nat × Nat)
  | _, [] => return (0, 0)
  | index, header :: headers => do
    assert (index < 128) "i < u128::BITS"
    let isPresent ← r.isPresent header
    let (nackBitset, presentBitset) ← joinViewBitsets (index + 1) headers
    return (if r.nacks header then BitSet.insert nackBitset index else nackBitset,
      if isPresent then BitSet.insert presentBitset index else presentBitset)

-- Records a join view in the slot of its sender. A duplicate replaces it only if it is newer.
def primaryReceiveJoinView (joinView : JoinView) (headers : List Prepare) : Result Replica := do
  let some slot := r.joinViewFromAllReplicas[joinView.replica]? | abort "index out of bounds"
  let replace : Bool :=
    match slot with
    | none => true
    | some existing =>
      existing.header.checkpointOp < joinView.checkpointOp ∨
        existing.header.checkpointOp = joinView.checkpointOp ∧
          existing.header.commitMin < joinView.commitMin
  if replace ∧ headers ≠ [] then
    return { r with
      joinViewFromAllReplicas :=
        r.joinViewFromAllReplicas.set joinView.replica (some { header := joinView, headers }) }
  else
    return r

def sendJoinView : Result Replica := do
  assert (r.status = .viewChange) "self.status == Status::ViewChange"
  assert (1 < r.replicaCount) "self.replica_count > 1"
  assert (r.logView < r.view) "self.view > self.log_view"
  let some head := r.joinViewHeaders.head? | abort "!self.join_view_headers.is_empty()"
  let (nackBitset, presentBitset) ← r.joinViewBitsets 0 r.joinViewHeaders
  let joinView : JoinView :=
    { cluster := r.cluster
      view := r.view
      replica := r.replicaIndex
      presentBitset
      nackBitset
      op := head.op
      commitMin := r.commitMin
      checkpointOp := r.opCheckpoint
      logView := r.logView }
  let r := r.enqueue (.joinView joinView r.joinViewHeaders)
  if r.isPrimary then r.primaryReceiveJoinView joinView r.joinViewHeaders else return r

def resetJoinViewQuorum : Replica :=
  { r with
    joinViewFromAllReplicas := List.replicate replicasMax none
    joinViewQuorum := false }

def transitionToViewChangeStatus (viewNew : Nat) : Result Replica := do
  assert (r.view < viewNew) "new_view > self.view"
  let r ← if r.status = .normal then r.updateJoinViewHeaders else pure r
  let r ← { r with status := .viewChange, view := viewNew }.viewDurableUpdate
  let r := { r with exitViewFromAllReplicas := 0 }.resetJoinViewQuorum
  let r := { r with
    pipelineQueue := .empty
    okFromAllReplicas := []
    primaryAbdicating := false
    timeouts := { r.timeouts with
      prepare := r.timeouts.prepare.stop
      primaryAbdicate := r.timeouts.primaryAbdicate.stop
      viewChangeStatus := .start viewChangeStatusTimeout
      joinViewMessage := .start joinViewMessageTimeout
      getViewMessage :=
        if r.isPrimary then r.timeouts.getViewMessage.stop else .start getViewMessageTimeout
      journalRepair := r.timeouts.journalRepair.stop
      gridRepair := r.timeouts.gridRepair.stop } }
  r.sendJoinView

def sendExitView : Result Replica := do
  assert (r.replicaIndex < 64) "attempt to shift left with overflow"
  let r := { r with
    exitViewFromAllReplicas := BitSet.insert r.exitViewFromAllReplicas r.replicaIndex
    timeouts := { r.timeouts with
      exitViewWindow := .start exitViewWindowTimeout
      exitViewMessage := .start exitViewMessageTimeout } }
  return r.enqueue (.exitView { cluster := r.cluster, view := r.view, replica := r.replicaIndex })

def onExitView (header : ExitView) : Result Replica := do
  if r.status ≠ .normal ∧ r.status ≠ .viewChange then
    return r
  else if header.view < r.view then
    return r
  else
    assert (header.replica < 64) "attempt to shift left with overflow"
    let r := { r with
      exitViewFromAllReplicas := BitSet.insert r.exitViewFromAllReplicas header.replica }
    assert (r.quorum.viewChange < 64) "attempt to shift left with overflow"
    if 2 ^ r.quorum.viewChange - 1 ≤ r.exitViewFromAllReplicas then
      r.transitionToViewChangeStatus (r.view + 1)
    else
      return r

-- A fresh heartbeat rescinds the replica's own vote to leave the view.
def onCommitHeartbeat (view timestamp commit now : Nat) : Result Replica := do
  if r.isPrimary ∨ r.status ≠ .normal ∨ view ≠ r.view then
    return r
  else if r.heartbeatTimestamp < timestamp then
    assert (r.replicaIndex < 64) "attempt to shift left with overflow"
    let r := { r with
      heartbeatTimestamp := timestamp
      commitFault := r.commitFault.signal now
      exitViewFromAllReplicas := BitSet.erase 64 r.exitViewFromAllReplicas r.replicaIndex }
    return r.advanceCommitMax commit
  else
    return r.advanceCommitMax commit

def sendCommit (now : Nat) : Result Replica := do
  assert (r.status = .normal) "self.status == Status::Normal"
  assert r.isPrimary "self.is_primary()"
  assert (r.commitMin = r.commitMax) "self.commit_min == self.commit_max"
  let r := { r with commitFault := r.commitFault.signal now }
  if r.primaryAbdicating then
    assert r.timeouts.primaryAbdicate.active "self.primary_abdicate_timeout.active"
    return r
  else
    let commitChecksum ←
      match r.journal.headerWithOp r.commitMax with
      | some entry => pure entry.checksum
      | none => do
        assert (r.commitMax = 0) "self.commit_max == 0"
        pure (Prepare.root r.cluster).checksum
    return r.broadcast <| .commit
      { cluster := r.cluster
        view := r.view
        replica := r.replicaIndex
        commitChecksum
        checkpointId := r.checkpointId
        checkpointOp := r.opCheckpoint
        commit := r.commitMax
        timestampMonotonic := now }

def tickNormalHeartbeatFault (now : Nat) : Result Replica := do
  assert (r.status = .normal) "self.status == Status::Normal"
  let tardy := r.commitFault.tardy now
  if tardy = .green then
    return r
  else
    let r ←
      if r.isPrimary then
        let commitMessage := r.timeouts.commitMessage.reset commitMessageTimeout
        sendCommit { r with timeouts.commitMessage := commitMessage } now
      else if tardy = .yellow then
        pure r
      else do
        let r ← r.sendExitView
        pure { r with commitFault := r.commitFault.signal now }
    assert (r.commitFault.tardy now ≠ .red) "self.commit_fault.tardy(now) != Tardiness::Red"
    return r

-- The transition into the normal status of a new view.

def becomePrimary (viewNew : Nat) : Result Replica := do
  assert (r.view = viewNew) "self.view == view_new"
  assert (r.logView = viewNew) "self.log_view == view_new"
  assert (r.commitMin = r.commitMax) "self.commit_min == self.commit_max"
  assert (r.commitMax + r.pipelineQueue.prepareQueue.length = r.op)
    "self.commit_max + self.pipeline_queue.prepare_queue.len() == self.op"
  let r ← r.viewDurableUpdate
  let timeouts := { r.timeouts with
    ping := .start pingTimeout
    joinViewMessage := r.timeouts.joinViewMessage.stop
    getViewMessage := r.timeouts.getViewMessage.stop
    commitMessage := .start commitMessageTimeout
    exitViewWindow := r.timeouts.exitViewWindow.stop
    exitViewMessage := .start exitViewMessageTimeout
    viewChangeStatus := r.timeouts.viewChangeStatus.stop
    pulse := .start pulseTimeout }
  let timeouts :=
    if r.pipelineQueue.prepareQueue = [] then
      timeouts
    else
      { timeouts with
        prepare := .start pipelinePrepareQueueMax, primaryAbdicate := .start primaryAbdicateTimeout }
  return { r with timeouts }

def becomeBackup (viewNew : Nat) : Result Replica := do
  let r ← { r with view := viewNew, logView := viewNew }.viewDurableUpdate
  assert r.timeouts.getViewMessage.active "self.get_view_message_timeout.active"
  assert (r.pipelineQueue.prepareQueue = []) "self.pipeline_queue.prepare_queue.is_empty()"
  return { r with
    timeouts := { r.timeouts with
      ping := .start pingTimeout
      commitMessage := r.timeouts.commitMessage.stop
      exitViewWindow := r.timeouts.exitViewWindow.stop
      exitViewMessage := .start exitViewMessageTimeout
      viewChangeStatus := r.timeouts.viewChangeStatus.stop
      joinViewMessage := r.timeouts.joinViewMessage.stop
      getViewMessage := r.timeouts.getViewMessage.stop
      pulse := r.timeouts.pulse.stop } }

def transitionToNormalFromViewChangeStatus (viewNew now : Nat) : Result Replica := do
  assert (r.status = .viewChange) "self.status == Status::ViewChange"
  assert (r.op - pipelinePrepareQueueMax ≤ r.commitMax)
    "self.commit_max >= self.op.saturating_sub(PIPELINE_PREPARE_QUEUE_MAX)"
  assert (r.view ≤ viewNew) "view_new >= self.view"
  assert (r.journal.headerWithOp r.op).isSome "self.journal.header_with_op(self.op).is_some()"
  assert (¬r.primaryAbdicating) "!self.primary_abdicating"
  assert (¬r.timeouts.prepare.active) "!self.prepare_timeout.active"
  assert (¬r.timeouts.primaryAbdicate.active) "!self.primary_abdicate_timeout.active"
  let r := { r with status := .normal, commitFault := ← r.commitFault.reset now }
  let r ← if r.isPrimary then r.becomePrimary viewNew else r.becomeBackup viewNew
  let r := r.resetJoinViewQuorum
  return { r with
    commitMins := fun _ => 0
    headOps := fun _ => 0
    heartbeatTimestamp := 0
    exitViewFromAllReplicas := 0
    timeouts := { r.timeouts with
      journalRepair := .start journalRepairTimeout, gridRepair := .start gridRepairTimeout } }

-- The checksum of the prepare that the survivors follow.
def committedAnchor : Result Nat :=
  match r.journal.headerWithOp r.commitMax with
  | some header => return header.checksum
  | none => do
    assert (r.commitMax = 0) "missing committed anchor"
    return 0

-- Loads the `count` survivors from `op` upwards into the pipeline.
def loadSurvivors : (count op parent : Nat) → Replica → Result Replica
  | 0, _, _, r => return r
  | count + 1, op, parent, r => do
    let some header := r.journal.headerWithOp op
      | abort "new primary journal must hold survivor op"
    assert (header.parent = parent) "header.parent == parent"
    assert (r.commitMax + r.pipelineQueue.prepareQueue.length = op - 1)
      "self.commit_max + self.pipeline_queue.prepare_queue.len() == op - 1"
    let r := r.pushPrepare header ((r.journal.bodyWithOp op).getD [])
    loadSurvivors count (op + 1) header.checksum r

-- The new primary acknowledges the survivors itself.
def acknowledgeSurvivors : List PipelinePrepare → Replica → Result Replica
  | [], r => return r
  | prepare :: prepares, r => do
    let (result, r) ← r.onPrepareOk prepare.op prepare.checksum prepare.checkpointId r.commitMin
      r.replicaIndex
    assertOn .quorum (result = .ackCounted ∨ result = .duplicateAck)
      "self prepare_ok cannot quorum a survivor op"
    acknowledgeSurvivors prepares r

def primaryStartViewAsTheNewPrimary (now : Nat) : Result Replica := do
  assert (r.status = .viewChange) "self.status == Status::ViewChange"
  assert r.isPrimary "self.is_primary()"
  assert (r.view = r.logView) "self.view == self.log_view"
  assert r.joinViewQuorum "self.join_view_quorum"
  assert (← r.primaryJournalRepaired) "self.primary_journal_repaired()"
  assert (r.commitMin = r.commitMax) "self.commit_min == self.commit_max"
  assert (r.commitMax ≤ r.op) "self.commit_max <= self.op"
  let r := { r with pipelineQueue := .empty, okFromAllReplicas := [] }
  let r ← loadSurvivors (r.op - r.commitMax) (r.commitMax + 1) (← r.committedAnchor) r
  assert (r.commitMax + r.pipelineQueue.prepareQueue.length = r.op)
    "self.commit_max + self.pipeline_queue.prepare_queue.len() == self.op"
  let r ← r.transitionToNormalFromViewChangeStatus r.view now
  acknowledgeSurvivors r.pipelineQueue.prepareQueue r

-- Installs a header of the log that the view starts with.
def replaceHeader (header : Prepare) : Result Replica := do
  assert (r.status = .normal ∨ r.status = .viewChange)
    "self.status == Status::Normal || self.status == Status::ViewChange"
  assert header.validChecksum "header.valid_checksum()"
  assert header.invalidHeader.isNone "header.invalid().is_none()"
  assert (header.view ≤ r.view) "header.view <= self.view"
  assert (header.op ≤ r.op) "header.op <= self.op"
  assertOn .window (header.op ≤ r.opPrepareMaxSync) "header.op <= self.op_prepare_max_sync()"
  if r.opCheckpoint < header.op ∧ header.op ≤ r.commitMin ∧
      (r.journal.headerWithOp header.op).isSome then
    assert (← r.journal.hasHeader header) "self.journal.has_header(header)"
  if header.op = r.opCheckpoint + 1 then
    assert (∀ superblock ∈ r.superblock, header.parent = superblock.working.checkpointChecksum)
      "replace_header: op must chain to the checkpoint header"
  if header.op < r.opRepairMin then
    return r
  else if ← r.journal.hasHeader header then
    return r
  else
    return { r with journal := ← r.journal.setHeaderAsDirty header }

def replaceHeaders : List Prepare → Replica → Result Replica
  | [], r => return r
  | header :: headers, r => do replaceHeaders headers (← r.replaceHeader header)

def quorumOptions : QuorumOptions where
  replicaCount := r.replicaCount
  quorumViewChange := r.quorum.viewChange
  quorumNackPrepare := r.quorum.nackPrepare

-- Headers that the senders of uncanonical messages committed.
def uncanonicalCommitted (jvs : List JoinedView) : List Prepare :=
  jvs.flatMap fun jv => jv.headers.filter fun header =>
    JvQuorum.jvHeaderType header = .valid ∧ header.op ≤ jv.header.commitMin

def primarySetLogFromJoinViewMessages : Result Replica := do
  assert (r.status = .viewChange) "self.status == Status::ViewChange"
  assert (r.logView < r.view) "self.view > self.log_view"
  assert r.isPrimary "self.is_primary()"
  assert (1 < r.replicaCount) "self.replica_count > 1"
  assert r.joinViewQuorum "self.join_view_quorum"
  assert (r.joinViewFromAllReplicas[r.replicaIndex]?.join).isSome
    "self.join_view_from_all_replicas[self.replica_index].is_some()"
  JvQuorum.verify r.joinViewFromAllReplicas
  let timestampMax ← JvQuorum.timestampMax r.joinViewFromAllReplicas
  let r := { r with prepareTimestamp := max r.prepareTimestamp timestampMax }
  match ← JvQuorum.quorumHeaders r.joinViewFromAllReplicas r.quorumOptions with
  | .completeValid opHead _ headers => do
    let commitMax ← JvQuorum.commitMax r.joinViewFromAllReplicas
    let r ← r.setOpAndCommitMax opHead commitMax
    assert (r.commitMax ≤ r.op) "self.commit_max <= self.op"
    let head :: headers := headers | abort "index out of bounds"
    let r ← r.replaceHeader head
    assert (r.journal.headerWithOp r.op).isSome "self.journal.header_with_op(self.op).is_some()"
    assert (∀ header ∈ headers, header.op < r.op) "header.op < self.op"
    let r ← replaceHeaders headers r
    assert (r.journal.headerWithOp r.commitMax).isSome
      "self.journal.header_with_op(self.commit_max).is_some()"
    let uncanonical ← JvQuorum.jvsUncanonical r.joinViewFromAllReplicas
    replaceHeaders (uncanonicalCommitted uncanonical) r
  | _ => abort "quorum_headers is CompleteValid once join_view_quorum is set"

-- Why a view change message is ignored: it is from an older view, or from another party than the
-- one that this replica waits for.

def ignoreJoinView (joinView : JoinView) : Result Bool := do
  assert (r.status ≠ .recovering) "self.status != Status::Recovering"
  assert (joinView.replica < r.replicaCount) "base.replica < self.replica_count"
  if joinView.view < r.view then
    return true
  else
    assert (0 < joinView.view) "the initial view is already zero"
    if r.status = .recoveringHead then
      return true
    else if r.status = .normal ∧ joinView.view = r.view then
      return true
    else if r.joinViewQuorum then
      return true
    else if ¬r.isPrimary then
      assert (∀ jv ∈ r.joinViewFromAllReplicas, jv = none) "jv.is_none()"
      return true
    else
      return false

def ignoreView (view : View) : Result Bool := do
  assert (r.status ≠ .recovering) "self.status != Status::Recovering"
  assert (view.replica < r.replicaCount) "base.replica < self.replica_count"
  return view.view < r.view ∨ view.replica = r.replicaIndex ∨ view.commitMax < r.opCheckpoint

-- The new primary starts its view once the messages that it received determine the log.
def startView (opHead now : Nat) : Result Replica := do
  let r ← { r with joinViewQuorum := true }.primarySetLogFromJoinViewMessages
  let r := { r with logView := r.view }
  assert (r.op = opHead) "self.op == op_head"
  assert (r.commitMax ≤ r.op) "self.op >= self.commit_max"
  let some head := r.journal.headerWithOp r.op | abort "journal missing head op"
  assert (head.timestamp ≤ r.prepareTimestamp) "self.prepare_timestamp >= head.timestamp"
  let r ← r.primarySendView
  r.primaryStartViewAsTheNewPrimary now

def onJoinView (joinView : JoinView) (headers : List Prepare) (now : Nat) : Result Replica := do
  if ← r.ignoreJoinView joinView then
    return r
  else
    assert (1 < r.replicaCount) "self.replica_count > 1"
    assert (r.status = .viewChange) "self.status == Status::ViewChange"
    assert (joinView.view = r.view) "join_view.view == self.view"
    let r ← r.primaryReceiveJoinView joinView headers
    assert (r.joinViewFromAllReplicas[r.replicaIndex]?.join).isSome
      "self.join_view_from_all_replicas[self.replica_index].is_some()"
    JvQuorum.verify r.joinViewFromAllReplicas
    match ← JvQuorum.quorumHeaders r.joinViewFromAllReplicas r.quorumOptions with
    | .completeValid opHead _ _ => r.startView opHead now
    | _ => return r

end Replica

end TigerBeetle
