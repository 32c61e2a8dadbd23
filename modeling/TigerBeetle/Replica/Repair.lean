import TigerBeetle.Replica.ViewChange

namespace TigerBeetle

-- A prepare message has a body of the size that its header states. What the sender does not set of
-- it is zero.
def Message.ofPrepare (header : Prepare) (body : Body) : Message :=
  let size := header.size - headerSize
  .prepare header (body.take size ++ List.replicate (size - body.length) 0)

namespace Replica

variable [Env] (r : Replica)

def repairsAllowed : Result Bool :=
  match r.status with
  | .viewChange =>
    if r.joinViewQuorum then do
      assert r.isPrimary "primary_index_for_view(self.view) == self.replica"
      return true
    else
      return false
  | .normal => return true
  | _ => return false

def assertRepairs : Result Unit := do
  assert (r.status = .normal ∨ r.status = .viewChange)
    "self.status == Status::Normal || self.status == Status::ViewChange"
  assert (← r.repairsAllowed) "self.repairs_allowed()"

def chooseAnyOtherReplica : Result Nat := do
  assert (1 < r.replicaCount) "self.replica_count > 1"
  assert (r.replicaCount ≤ 256) "self.replica_count <= 256"
  let other := (r.replicaIndex + 1) % r.replicaCount
  assert (other ≠ r.replicaIndex) "other != self.replica"
  return other

def sendGetPrepare (peer op checksum : Nat) : Result Replica := do
  assert (peer < r.replicaCount) "to < self.replica_count"
  assert (peer ≠ r.replicaIndex) "to != self.replica"
  return r.enqueue <| .getPrepare
    { cluster := r.cluster
      view := 0
      replica := r.replicaIndex
      prepareOp := op
      prepareChecksum := checksum }

def sendGetHeaders (peer opMin opMax : Nat) : Result Replica := do
  assert (peer < r.replicaCount) "to < self.replica_count"
  assert (peer ≠ r.replicaIndex) "to != self.replica"
  assert (opMin ≤ opMax) "op_min <= op_max"
  return r.enqueue (.getHeaders { cluster := r.cluster, replica := r.replicaIndex, opMin, opMax })

def sendGetView : Result Replica := do
  assert (1 < r.replicaCount) "self.replica_count > 1"
  assert (¬r.isPrimary) "!self.is_primary()"
  return r.enqueue <| .getView
    { cluster := r.cluster, view := r.view, replica := r.replicaIndex, nonce := r.nonce }

-- Requests a prepare whose header is journaled, if the budget has a peer for it.
def repairPrepare (op : Nat) : Result Replica := do
  r.assertRepairs
  match r.journal.headerWithOp op, Env.repairPeer r.prng op with
  | some header, some peer =>
    sendGetPrepare { r with prng := r.prng + 1 } peer op header.checksum
  | _, _ => return r

-- Repairs the `count` ops from `op` upwards.
def repairPrepares : (count op : Nat) → Replica → Result Replica
  | 0, _, r => return r
  | count + 1, op, r => do
    if (r.journal.headerWithOp op).isNone ∨ r.journal.dirty (Journal.slotForOp op) then
      repairPrepares count (op + 1) (← r.repairPrepare op)
    else
      repairPrepares count (op + 1) r

def repairPreparesBetween (opMin opMax : Nat) : Result Replica := do
  r.assertRepairs
  assert (r.opRepairMin ≤ opMin) "op_min >= self.op_repair_min()"
  assert (opMin ≤ opMax) "op_min <= op_max"
  assert (opMax ≤ r.op) "op_max <= self.op"
  repairPrepares (opMax + 1 - opMin) opMin r

-- Whether the part of the ring from `head` to `tail` contains a slot.
def slotRangeContains (head tail slot : Nat) : Bool :=
  if head < tail then head ≤ slot ∧ slot ≤ tail else slot ≤ tail ∨ head ≤ slot

def repairCleanOutOfBoundPrepares : Result Replica := do
  r.assertRepairs
  assert (r.commitMin ≤ r.op) "self.op >= self.commit_min"
  assert (r.op - r.commitMin ≤ journalSlotCount) "self.op - self.commit_min <= JOURNAL_SLOT_COUNT"
  assert (r.journal.headerWithOp r.op).isSome "slot_with_op(self.op) failed"
  let head := Journal.slotForOp r.opRepairMin
  let tail := Journal.slotForOp r.op
  return { r with
    journal := r.journal.removeEntries fun slot =>
      head ≠ tail ∧ ¬slotRangeContains head tail slot ∧ r.journal.dirty slot }

-- The largest op whose prepare is not expected to arrive by itself.
def repairOpMax : Nat :=
  let attempts := r.timeouts.journalRepair.attempts
  if attempts ≠ 0 ∧ attempts % 50 = 0 then
    r.op
  else if r.status = .viewChange then
    r.op
  else
    r.op - pipelinePrepareQueueMax

-- Requests the view of the primary to advance the head of the log.
def repairHead : Result Replica := do
  if r.op < (← r.opRepairMax) ∨
      r.status = .normal ∧ r.viewHeaders.head?.any (r.op < ·.op) then
    r.sendGetView
  else
    return r

def repairHeaders : Result Replica := do
  match ← r.journal.findLatestHeadersBreakBetween r.opRepairMin r.op with
  | none => return r
  | some range => do
    assert (1 < r.replicaCount) "self.replica_count > 1"
    assert (r.opRepairMin ≤ range.opMin) "range.op_min >= self.op_repair_min()"
    assert (range.opMax < r.op) "range.op_max < self.op"
    if range.opMin ≤ r.repairOpMax then
      let opMax := min range.opMax r.repairOpMax
      assert (range.opMin ≤ opMax) "range.op_min <= op_max"
      r.sendGetHeaders (← r.chooseAnyOtherReplica) range.opMin opMax
    else
      return r

-- Detects what the journal misses, requests it from peers and commits what there is.
def repair : Result Replica := do
  if !r.timeouts.journalRepair.active then
    return r
  else
    r.assertRepairs
    assert (r.opCheckpoint ≤ r.op) "self.op_checkpoint() <= self.op"
    assert (r.opCheckpoint ≤ r.commitMin) "self.op_checkpoint() <= self.commit_min"
    assert (r.commitMin ≤ r.op) "self.commit_min <= self.op"
    assert (r.commitMin ≤ r.commitMax) "self.commit_min <= self.commit_max"
    assert (r.op - pipelinePrepareQueueMax ≤ r.commitMax)
      "self.commit_max >= self.op.saturating_sub(PIPELINE_PREPARE_QUEUE_MAX)"
    assert (r.journal.headerWithOp r.op).isSome "self.journal.header_with_op(self.op).is_some()"
    let r ← r.repairHead
    let r ← r.repairHeaders
    let opMax := r.repairOpMax
    let r ← if r.commitMin < opMax then r.repairPreparesBetween (r.commitMin + 1) opMax else pure r
    let r ←
      if r.opRepairMin ≤ r.commitMin then
        r.repairPreparesBetween r.opRepairMin r.commitMin
      else
        pure r
    let r ← r.repairCleanOutOfBoundPrepares
    if r.commitMin < r.commitMax then
      assert (1 < r.replicaCount) "self.replica_count > 1"
      r.commitJournal
    else
      return r

-- Follows the entries from slot to slot. A chain that does not end after a full ring never ends.
def connectsHashChain : (fuel : Nat) → (entry : Prepare) → Result Bool
  | 0, _ => .error .cutOff
  | fuel + 1, entry =>
    if entry.op < r.op then
      match r.journal.nextEntry entry with
      | none => return false
      | some next => if entry.checksum ≠ next.parent then return false else connectsHashChain fuel next
    else
      return entry.op = r.op

def repairHeaderWouldConnectHashChain (header : Prepare) : Result Bool :=
  r.connectsHashChain (journalSlotCount + 2) header

-- Installs a header behind the head of the log, and returns whether it did.
def repairHeader (header : Prepare) : Result (Bool × Replica) := do
  assert (r.status = .normal ∨ r.status = .viewChange)
    "self.status == Status::Normal || self.status == Status::ViewChange"
  if r.view < header.view then
    return (false, r)
  else if r.op < header.op then
    return (false, r)
  else if ← (if header.op = r.op then (!·) <$> r.journal.hasHeader header else pure false) then
    return (false, r)
  else if header.op < r.opRepairMin then
    return (false, r)
  else if (← r.journal.hasHeader header) && (← r.journal.hasPrepare header) then
    return (false, r)
  else
    let connects ←
      if (r.journal.headerWithOp r.op).all (·.view ≠ header.view) then
        r.repairHeaderWouldConnectHashChain header
      else
        pure true
    if !connects then
      return (false, r)
    else
      return (true, { r with journal := ← r.journal.setHeaderAsDirty header })

def onRepair (header : Prepare) : Result Replica := do
  assert (r.status = .normal) "self.status == Status::Normal"
  if r.view < header.view then
    return r
  else if r.op < header.op then
    return r
  else if ← r.journal.hasPrepare header then
    r.sendPrepareOk header
  else
    let (installed, r) ← r.repairHeader header
    if installed then
      let r ← if r.isPrimary then pure r else r.commitJournal
      r.repair
    else
      return r

def onJournalRepairTimeout : Result Replica := do
  assertOn .timeout (r.status = .normal ∨ r.status = .viewChange)
    "self.status == Status::Normal || self.status == Status::ViewChange"
  repair { r with
    timeouts.journalRepair := r.timeouts.journalRepair.resetWithJitter journalRepairTimeout r.prng
    prng := r.prng + 1 }

def onGetPrepare (getPrepare : GetPrepare) : Result Replica := do
  assert (1 < r.replicaCount) "self.replica_count > 1"
  assert (getPrepare.replica ≠ r.replicaIndex) "get_prepare.replica != self.replica"
  let checksum ←
    if getPrepare.view = 0 then
      pure (some getPrepare.prepareChecksum)
    else do
      assert (getPrepare.prepareChecksum = 0) "get_prepare.prepare_checksum == 0"
      pure ((r.journal.headerWithOp getPrepare.prepareOp).map (·.checksum))
  match checksum.bind (r.journal.headerWithOpAndChecksum getPrepare.prepareOp) with
  | none => return r
  | some prepare =>
    let body := (r.journal.bodyWithOp getPrepare.prepareOp).getD []
    return r.enqueue (.ofPrepare prepare body)

def onGetHeaders (getHeaders : GetHeaders) : Result Replica := do
  assert (1 < r.replicaCount) "self.replica_count > 1"
  assert (getHeaders.replica ≠ r.replicaIndex) "get_headers.replica != self.replica"
  match ← r.journal.copyLatestHeadersBetween getHeaders.opMin getHeaders.opMax getHeadersMax with
  | [] => return r
  | headers =>
    return r.enqueue
      (.headers { cluster := r.cluster, view := r.view, replica := r.replicaIndex } headers)

def onGetView (getView : GetView) : Result Replica := do
  assert (r.status = .normal) "self.status == Status::Normal"
  assert (r.view = r.logView) "self.view == self.log_view"
  assert (getView.view = r.view) "get_view.view == self.view"
  assert (getView.replica ≠ r.replicaIndex) "get_view.replica != self.replica"
  assert r.isPrimary "self.is_primary()"
  let (view, r) ← r.makeViewMessage getView.nonce
  return r.enqueue view

def installHeaders : List Prepare → Replica → Result Replica
  | [], r => return r
  | header :: headers, r => do
    let (_, r) ← r.repairHeader header
    installHeaders headers r

def onHeaders (headers : List Prepare) : Result Replica := do
  if headers = [] then return r else (← installHeaders headers r).repair

-- The new head of the log, as far as the view determines it.
def viewHead (commitMax : Nat) : List Prepare → Result (Option Nat)
  | [] => return none
  | header :: headers => do
    assert (header.commit ≤ commitMax) "header.commit <= view.commit_max"
    if header.op ≤ r.opPrepareMaxSync ∧
        (r.logView < r.view ∨ r.logView = r.view ∧ r.op ≤ header.op) then
      return some header.op
    else
      viewHead commitMax headers

def onViewSetHead (view : View) (headers : List Prepare) : Result Replica := do
  match ← r.viewHead view.commitMax headers with
  | some op =>
    let r ← r.setOpAndCommitMax op view.commitMax
    assert (view.commitMax ≤ r.commitMax) "self.commit_max >= view.commit_max"
    return r
  | none =>
    assert (r.logView = r.view) "self.log_view == self.view"
    assert (r.opPrepareMaxSync < r.op) "self.op > self.op_prepare_max_sync()"
    return r.advanceCommitMax view.commitMax

-- A replica that changed its view resumes as a backup.
def onViewJoin (view : View) (now : Nat) : Result Replica := do
  if r.status = .viewChange then
    let r ← r.transitionToNormalFromViewChangeStatus view.view now
    let r ← r.sendPrepareOksAfterViewChange
    r.commitJournal
  else
    return r

def onViewSetJournal (view : View) (headers : List Prepare) (now : Nat) : Result Replica := do
  assert (view.checkpointOp ≤ view.commitMax) "view.commit_max >= view.checkpoint_op"
  assert (view.commitMax ≤ view.op) "view.op >= view.commit_max"
  match headers with
  | [] => return r
  | head :: _ => do
    assert (head.op = view.op) "view_headers[0].op == view.op"
    assert (∀ last ∈ headers.getLast?, last.op ≤ head.op)
      "view_headers[0].op >= view_headers[view_headers.len() - 1].op"
    let r ← r.onViewSetHead view headers
    assert (r.commitMin ≤ r.commitMax) "self.commit_min <= self.commit_max"
    let r ← replaceHeaders (headers.filter (·.op ≤ r.opPrepareMaxSync)) r
    let r := { r with viewHeaders := headers }
    let r ← r.onViewJoin view now
    assert (r.status = .normal) "self.status == Status::Normal"
    assert (view.view = r.logView) "view.view == self.log_view"
    assert (view.view = r.view) "view.view == self.view"
    assert (¬r.isPrimary) "!self.is_primary()"
    r.repair

def onView (view : View) (headers : List Prepare) (now : Nat) : Result Replica := do
  if ← r.ignoreView view then
    return r
  else
    assert (r.status = .viewChange ∨ r.status = .normal)
      "self.status == Status::ViewChange || self.status == Status::Normal"
    if view.view = r.logView ∧ view.op < r.op then
      assert (r.status = .normal) "self.status == Status::Normal"
      return r
    else
      let r ← if r.view < view.view then r.transitionToViewChangeStatus view.view else pure r
      if r.status = .normal then
        assert (¬r.isPrimary) "!self.is_primary()"
        assert (r.view = r.logView) "self.view == self.log_view"
      assert (r.view = view.view) "self.view == view.view"
      assert (view.replica = primaryIndexForView view.view r.replicaCount)
        "view.replica == primary_index_for_view(view.view)"
      assert (view.checkpointOp ≤ view.commitMax) "view.commit_max >= view.checkpoint_op"
      assert (view.commitMax ≤ view.op) "view.op >= view.commit_max"
      assert (view.op - view.commitMax ≤ pipelinePrepareQueueMax)
        "view.op - view.commit_max <= PIPELINE_PREPARE_QUEUE_MAX"
      r.onViewSetJournal view headers now

end Replica

end TigerBeetle
