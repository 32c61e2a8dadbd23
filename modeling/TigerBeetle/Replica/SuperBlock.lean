import TigerBeetle.Replica.Commit

namespace TigerBeetle

inductive ViewChangeCommand
  | joinView
  | view
  deriving DecidableEq, Repr

namespace ViewChangeHeaders

variable [Env]

def jvBlank (op : Nat) : Prepare :=
  { Prepare.zeroed with op }

def jvHeaderType (header : Prepare) : Result JvHeaderType := do
  if header = jvBlank header.op then
    return .blank
  else
    assert header.validChecksum "header.valid_checksum()"
    assert (header.operation ≠ .reserved) "header.operation != RESERVED"
    assert header.invalidHeader.isNone "header.invalid().is_none()"
    return .valid

-- Checks the headers below `child`, where `header` has the given index.
def verifyFrom (command : ViewChangeCommand) (headOp : Nat) :
    (child : Prepare) → (index : Nat) → List Prepare → Result Unit
  | _, _, [] => return
  | child, index, header :: headers => do
    assert (header.op < child.op) "header.op < child.op"
    if command = .joinView ∨ index < pipelinePrepareQueueMax + 1 then
      assert (header.op + index = headOp) "header.op == head.op - index"
    match ← jvHeaderType header with
    | .blank => verifyFrom command headOp child (index + 1) headers
    | .valid =>
      assert (header.view ≤ child.view) "header.view <= child.view"
      assert (header.timestamp < child.timestamp) "header.timestamp < child.timestamp"
      if header.op + 1 = child.op then
        assert (header.checksum = child.parent) "header.checksum == child.parent"
      verifyFrom command headOp header (index + 1) headers

def verify (command : ViewChangeCommand) (headers : List Prepare) : Result Unit := do
  let some head := headers.head? | abort "!self.slice.is_empty()"
  assert (headers.length ≤ viewHeadersMax) "self.slice.len() <= VIEW_HEADERS_MAX"
  assert ((← jvHeaderType head) = .valid) "jv_header_type(head) == JvHeaderType::Valid"
  verifyFrom command head.op head 1 headers.tail

end ViewChangeHeaders

namespace VsrState

def assertInternallyConsistent (state : VsrState) : Result Unit := do
  assert (state.checkpoint.op ≤ state.commitMax) "self.commit_max >= self.checkpoint.header.op"
  assert (state.logView ≤ state.view) "self.view >= self.log_view"

-- Updates never rewind the state.
def monotonic (old new : VsrState) : Result Unit := do
  old.assertInternallyConsistent
  new.assertInternallyConsistent
  if old.checkpoint.op ≠ new.checkpoint.op then
    assert (old.checkpointChecksum ≠ new.checkpointChecksum)
      "old.checkpoint.header.checksum != new.checkpoint.header.checksum"
    assert (old.parentCheckpointId ≠ new.parentCheckpointId)
      "old.checkpoint.parent_checkpoint_id != new.checkpoint.parent_checkpoint_id"
  assert (old.checkpoint.op ≤ new.checkpoint.op ∧ old.view ≤ new.view ∧
    old.logView ≤ new.logView ∧ old.commitMax ≤ new.commitMax) "Self::monotonic(old, new)"

end VsrState

namespace SuperBlock

variable (superblock : SuperBlock)

-- The state of the update that is being written, if any.
def staging : VsrState :=
  match superblock.queue with
  | [] => superblock.working
  | (_, state) :: _ => state

def updating (caller : Caller) : Bool :=
  superblock.queue.any (·.1 = caller)

def acquire (caller : Caller) (state : VsrState) : Result SuperBlock :=
  match superblock.queue with
  | [] => return { superblock with queue := [(caller, state)] }
  | [head] => do
    assert (head.1 ≠ caller) "all operations are mutually exclusive with themselves"
    return { superblock with queue := [head, (caller, state)] }
  | _ => abort "self.queue_tail.is_none()"

variable [Env]

def checkpoint (header : Prepare) (op : Checkpoint) (commitMax : Nat) : Result SuperBlock := do
  let staging := superblock.staging
  assert (op.op ≤ commitMax) "update.header.op <= update.commit_max"
  assert (staging.checkpoint.op < op.op) "update.header.op > self.staging.checkpoint.header.op"
  assert (header.checksum ≠ staging.checkpointChecksum)
    "the checkpoint header must update the commit_min_checksum"
  assert (staging.release ≤ releaseMinimum) "release downgrade"
  let state := { staging with
    checkpoint := op
    checkpointChecksum := header.checksum
    checkpointId := Env.checkpointId header staging.checkpointId staging.parentCheckpointId
    parentCheckpointId := staging.checkpointId
    grandparentCheckpointId := staging.parentCheckpointId
    release := releaseMinimum
    commitMax }
  staging.monotonic state
  superblock.acquire .checkpoint state

def viewChange (commitMax logView view : Nat) (command : ViewChangeCommand)
    (headers : List Prepare) : Result SuperBlock := do
  ViewChangeHeaders.verify command headers
  let staging := superblock.staging
  assert (staging.commitMax ≤ commitMax) "self.staging.commit_max <= update.commit_max"
  assert (staging.view ≤ view) "self.staging.view <= update.view"
  assert (staging.logView ≤ logView) "self.staging.log_view <= update.log_view"
  assert (staging.logView < logView ∨ staging.view < view)
    "self.staging.log_view < update.log_view || self.staging.view < update.view"
  assert (command = .view ∧ logView = view ∨ command = .joinView ∧ logView < view)
    "the command of the headers matches the views"
  assert (∀ head ∈ headers.head?, staging.checkpoint.op ≤ head.op)
    "the checkpoint must not be ahead of the view change headers"
  assert (logView ≤ view) "update.view >= update.log_view"
  let state := { staging with commitMax, logView, view }
  staging.monotonic state
  superblock.acquire .viewChange state

-- Completes the given number of updates at most.
def poll : (completions : Nat) → SuperBlock → List Caller × SuperBlock
  | completions + 1, { queue := (caller, working) :: queue, .. } =>
    let (callers, superblock) := poll completions { working, queue }
    (caller :: callers, superblock)
  | _, superblock => ([], superblock)

end SuperBlock

namespace Replica

variable [Env] (r : Replica)

-- Persists the view and the log view.
def viewDurableUpdate : Result Replica := do
  let some superblock := r.superblock | return r
  assert (r.status = .normal ∨ r.status = .viewChange)
    "self.status == Status::Normal || self.status == Status::ViewChange"
  assert (r.logView ≤ r.view) "self.view >= self.log_view"
  assert (r.viewDurable ≤ r.view) "self.view >= self.view_durable()"
  assert (r.logViewDurable ≤ r.logView) "self.log_view >= self.log_view_durable()"
  assert (r.logViewDurable < r.logView ∨ r.viewDurable < r.view)
    "self.log_view > self.log_view_durable() || self.view > self.view_durable()"
  let (command, headers) : ViewChangeCommand × List Prepare :=
    if r.logView = r.view then (.view, r.viewHeaders) else (.joinView, r.joinViewHeaders)
  let some head := headers.head? | abort "!headers.is_empty()"
  assert (head.view ≤ r.logView) "headers[0].view <= self.log_view"
  assert (r.op - pipelinePrepareQueueMax ≤ r.commitMax)
    "self.commit_max >= self.op.saturating_sub(PIPELINE_PREPARE_QUEUE_MAX)"
  if r.viewDurableUpdating then
    return r
  else
    let superblock ← superblock.viewChange r.commitMax r.logView r.view command headers
    return { r with superblock := some superblock }

-- Persists the checkpoint if the commit triggers one. The stage is ready if it does not.
def commitCheckpointSuperblock : Result (Bool × Replica) := do
  if ← r.commitTriggersCheckpoint then
    assert (r.commitMin ≤ r.op) "commit_op <= self.op"
    assert (r.commitMin ≤ r.commitMax) "self.op_checkpoint_next_trigger() <= self.commit_max"
    let op := r.checkpoint.checkpointAfter
    let some header := r.journal.headerWithOp op.op
      | abort "journal must contain the op of the upcoming checkpoint"
    let some superblock := r.superblock | abort "superblock is mounted before it is driven"
    let superblock ← superblock.checkpoint header op r.commitMax
    return (false, { r with superblock := some superblock })
  else
    return (true, r)

inductive StageResult
  | ready
  | pending
  | done
  deriving DecidableEq, Repr

-- Advances the commit pipeline by a stage.
def commitAdvance : Result (StageResult × Replica) := do
  let ready (result : Bool) : StageResult := if result then .ready else .pending
  match r.commitStage with
  | .idle => do
    assert r.commitPrepare.isNone "self.commit_prepare.is_none()"
    return (.ready, ← { r with commitStage := .start }.commitStart)
  | .start =>
    match r.commitPrepare with
    | none => return (.done, { r with commitStage := .idle, commitDispatchEntered := false })
    | some _ => return (.ready, { r with commitStage := .checkPrepare })
  | stage => do
    assert r.commitPrepare.isSome "self.commit_prepare.is_some()"
    match stage with
    | .checkPrepare => do
      let r := { r with commitStage := .prefetch }
      r.commitPrefetch
      return (.ready, r)
    | .prefetch => do
      let (result, r) ← { r with commitStage := .stall }.commitStall
      return (ready result, r)
    | .stall => do
      let (result, r) ← { r with commitStage := .replySetup }.commitReplySetup
      return (ready result, r)
    | .replySetup => return (.ready, ← { r with commitStage := .execute }.commitExecute)
    -- Without a forest, there is no free set to mark and nothing to compact.
    | .execute => return (.ready, { r with commitStage := .checkpointDurable })
    | .checkpointDurable => return (.ready, { r with commitStage := .compact })
    | .compact => return (.ready, ← { r with commitStage := .checkpointData }.commitCheckpointData)
    | .checkpointData => do
      let (result, r) ← { r with commitStage := .checkpointSuperblock }.commitCheckpointSuperblock
      return (ready result, r)
    | _ => return (.ready, { r with commitStage := .idle, commitPrepare := none })

def commitLoop : (fuel : Nat) → Replica → Result Replica
  | 0, _ => .error .cutOff
  | fuel + 1, r => do
    let (result, r) ← r.commitAdvance
    if result = .ready then commitLoop fuel r else return r

def commitDispatch : Result Replica := do
  assert (¬r.commitDispatchEntered) "!self.commit_dispatch_entered"
  commitLoop Env.commitFuel { r with commitDispatchEntered := true }

def commitDispatchEnter : Result Replica := do
  assert (¬r.commitDispatchEntered) "!self.commit_dispatch_entered"
  assert (r.commitStage = .idle) "self.commit_stage == CommitStage::Idle"
  r.commitDispatch

def commitDispatchResume : Result Replica := do
  assert (r.commitStage ≠ .idle) "self.commit_stage != CommitStage::Idle"
  assert r.commitDispatchEntered "self.commit_dispatch_entered"
  { r with commitDispatchEntered := false }.commitDispatch

def commitDispatchCancel : Result Replica := do
  assert (r.commitStage ≠ .idle) "self.commit_stage != CommitStage::Idle"
  assert r.commitDispatchEntered "self.commit_dispatch_entered"
  return { r with commitPrepare := none, commitStage := .idle, commitDispatchEntered := false }

-- A backup commits from its journal.
def commitJournal : Result Replica := do
  assert (r.status = .normal ∨ r.status = .viewChange)
    "self.status == Status::Normal || self.status == Status::ViewChange"
  assert (¬r.isPrimary) "!self.is_primary()"
  assert (r.commitMin ≤ r.commitMax) "self.commit_min <= self.commit_max"
  assert (r.commitMin ≤ r.op) "self.commit_min <= self.op"
  if r.commitMax = r.commitMin ∨ r.commitStage ≠ .idle then return r else r.commitDispatchEnter

def onCommitStallTimeout : Result Replica := do
  assert (r.commitStage = .stall) "self.commit_stage == CommitStage::Stall"
  { r with timeouts.commitStall := r.timeouts.commitStall.stop }.commitDispatchResume

end Replica

end TigerBeetle
