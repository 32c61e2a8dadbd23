import TigerBeetle.Checkpoint
import TigerBeetle.ClientSessions
import TigerBeetle.Journal
import TigerBeetle.JvQuorum
import TigerBeetle.Quorum

namespace TigerBeetle

inductive Status
  | normal
  | viewChange
  | recovering
  | recoveringHead
  deriving DecidableEq, Repr

inductive CommitStage
  | idle
  | start
  | checkPrepare
  | prefetch
  | stall
  | replySetup
  | execute
  | checkpointDurable
  | compact
  | checkpointData
  | checkpointSuperblock
  deriving DecidableEq, Repr

structure Timeout where
  ticks : Nat
  active : Bool
  attempts : Nat
  deriving DecidableEq, Repr

namespace Timeout

def stopped : Timeout where
  ticks := 0
  active := false
  attempts := 0

def start (ticks : Nat) : Timeout where
  ticks := ticks
  active := true
  attempts := 0

def reset (timeout : Timeout) (ticks : Nat) : Timeout :=
  { timeout with ticks, active := true }

def stop (timeout : Timeout) : Timeout :=
  { timeout with active := false }

-- Advances the timeout by a tick, and returns whether it fired.
def tick (timeout : Timeout) : Bool × Timeout :=
  if !timeout.active then
    (false, timeout)
  else if timeout.ticks - 1 = 0 then
    (true, { ticks := 0, active := false, attempts := timeout.attempts + 1 })
  else
    (false, { timeout with ticks := timeout.ticks - 1 })

end Timeout

inductive Tardiness
  | green
  | yellow
  | red
  deriving DecidableEq, Repr

structure FaultDetector where
  intervalMin : Nat
  intervalMax : Nat
  intervalEwma : Nat
  lastSignalTimestamp : Nat
  deriving DecidableEq, Repr

namespace FaultDetector

def new (now intervalMin intervalMax : Nat) : FaultDetector where
  intervalMin := intervalMin
  intervalMax := intervalMax
  intervalEwma := intervalMax
  lastSignalTimestamp := now

def signal (detector : FaultDetector) (now : Nat) : FaultDetector :=
  let elapsed := now - detector.lastSignalTimestamp
  let clamped := min (max elapsed detector.intervalMin) detector.intervalMax
  { detector with
    intervalEwma := (detector.intervalEwma * 4 + clamped) / 5, lastSignalTimestamp := now }

def tardy (detector : FaultDetector) (now : Nat) : Tardiness :=
  let elapsed := now - detector.lastSignalTimestamp
  if elapsed * 2 ≤ detector.intervalEwma * 3 then
    .green
  else if elapsed ≤ detector.intervalEwma * 3 then
    .yellow
  else
    .red

def reset (detector : FaultDetector) (now : Nat) : Result FaultDetector := do
  assert (detector.lastSignalTimestamp ≤ now) "now >= self.last_signal_timestamp"
  return { detector with intervalEwma := detector.intervalMax, lastSignalTimestamp := now }

end FaultDetector

structure PipelinePrepare where
  op : Nat
  checksum : Nat
  checkpointId : Nat
  client : Nat
  operation : Operation
  acksReceived : Nat
  okQuorumReceived : Bool
  body : Body
  deriving DecidableEq, Repr

def PipelinePrepare.ofPrepare (header : Prepare) (body : Body) : PipelinePrepare where
  op := header.op
  checksum := header.checksum
  checkpointId := header.checkpointId
  client := header.client
  operation := header.operation
  acksReceived := 0
  okQuorumReceived := false
  body := body

structure PipelineRequest where
  client : Nat
  request : Nat
  requestChecksum : Nat
  operation : Operation
  body : Body
  deriving DecidableEq, Repr

structure PipelineQueue where
  prepareQueue : List PipelinePrepare
  requestQueue : List PipelineRequest
  deriving DecidableEq, Repr

namespace PipelineQueue

def empty : PipelineQueue where
  prepareQueue := []
  requestQueue := []

def prepareQueueFull (queue : PipelineQueue) : Bool :=
  pipelinePrepareQueueMax ≤ queue.prepareQueue.length

def containsOperation (queue : PipelineQueue) (operation : Operation) : Bool :=
  queue.prepareQueue.any (·.operation = operation)

end PipelineQueue

inductive PrepareReject
  | notPrimary
  | notNormal
  | behindCommit
  | pipelineFull
  deriving DecidableEq, Repr

inductive OnPrepareResult
  | accepted
  | stale
  | futureOp
  deriving DecidableEq, Repr

inductive PrepareOkResult
  | quorumReached (op checksum : Nat)
  | ackCounted
  | duplicateAck
  | unknownOp
  | checksumMismatch
  | ignored
  deriving DecidableEq, Repr

def PrepareOkResult.acknowledged : PrepareOkResult → Bool
  | ackCounted | quorumReached .. | duplicateAck => true
  | unknownOp | checksumMismatch | ignored => false

-- The part of the superblock that the replica reads: the checkpoint with its ids, and the views.
structure VsrState where
  checkpoint : Checkpoint
  checkpointChecksum : Nat
  checkpointId : Nat
  parentCheckpointId : Nat
  grandparentCheckpointId : Nat
  release : Nat
  commitMax : Nat
  view : Nat
  logView : Nat
  deriving DecidableEq

inductive Caller
  | checkpoint
  | viewChange
  deriving DecidableEq, Repr

-- The superblock applies its queued updates asynchronously, at most one for each caller.
structure SuperBlock where
  working : VsrState
  queue : List (Caller × VsrState)
  deriving DecidableEq

structure StateMachine where
  commitTimestamp : Nat
  executed : List (Prepare × Body)
  deriving DecidableEq, Repr

-- The writes of replies to disk. Replies are only written once a storage is mounted.
structure ClientReplies where
  mounted : Bool
  writesInFlight : Nat
  readyWaiting : Bool
  checkpointWaiting : Bool
  deriving DecidableEq, Repr

structure Timeouts where
  ping : Timeout
  prepare : Timeout
  commitMessage : Timeout
  viewChangeStatus : Timeout
  exitViewMessage : Timeout
  exitViewWindow : Timeout
  joinViewMessage : Timeout
  getViewMessage : Timeout
  primaryAbdicate : Timeout
  journalRepair : Timeout
  gridRepair : Timeout
  pulse : Timeout
  commitStall : Timeout
  deriving DecidableEq, Repr

def Timeouts.stopped : Timeouts where
  ping := .stopped
  prepare := .stopped
  commitMessage := .stopped
  viewChangeStatus := .stopped
  exitViewMessage := .stopped
  exitViewWindow := .stopped
  joinViewMessage := .stopped
  getViewMessage := .stopped
  primaryAbdicate := .stopped
  journalRepair := .stopped
  gridRepair := .stopped
  pulse := .stopped
  commitStall := .stopped

structure Replica where
  cluster : Nat
  replicaIndex : Nat
  replicaCount : Nat
  index_lt : replicaIndex < replicaCount
  view : Nat
  logView : Nat
  status : Status
  op : Nat
  commitMin : Nat
  commitMax : Nat
  pipelineQueue : PipelineQueue
  okFromAllReplicas : List Nat
  prepareTimestamp : Nat
  stateMachine : StateMachine
  commitPrepare : Option Nat
  commitStage : CommitStage
  commitDispatchEntered : Bool
  commitMins : Nat → Nat
  headOps : Nat → Nat
  journal : Journal
  superblock : Option SuperBlock
  clientSessions : ClientSessions
  clientReplies : ClientReplies
  upgradeRelease : Option Nat
  timeouts : Timeouts
  prng : Nat
  commitFault : FaultDetector
  heartbeatTimestamp : Nat
  exitViewFromAllReplicas : Nat
  joinViewHeaders : List Prepare
  joinViewFromAllReplicas : List (Option JoinedView)
  joinViewQuorum : Bool
  viewHeaders : List Prepare
  primaryAbdicating : Bool
  nonce : Nat
  sendQueue : List Message
  clientSendQueue : List ClientMessage

namespace Replica

def new [Env] (cluster replicaIndex replicaCount : Nat) (h : replicaIndex < replicaCount) :
    Replica where
  cluster := cluster
  replicaIndex := replicaIndex
  replicaCount := replicaCount
  index_lt := h
  view := 0
  logView := 0
  status := .recovering
  op := 0
  commitMin := 0
  commitMax := 0
  pipelineQueue := .empty
  okFromAllReplicas := []
  prepareTimestamp := 0
  stateMachine := { commitTimestamp := 0, executed := [] }
  commitPrepare := none
  commitStage := .idle
  commitDispatchEntered := false
  commitMins := fun _ => 0
  headOps := fun _ => 0
  journal := .new cluster
  superblock := none
  clientSessions := .new
  clientReplies :=
    { mounted := false, writesInFlight := 0, readyWaiting := false, checkpointWaiting := false }
  upgradeRelease := none
  timeouts := .stopped
  prng := replicaIndex
  commitFault := .new 0 100 2000
  heartbeatTimestamp := 0
  exitViewFromAllReplicas := 0
  joinViewHeaders := [.root cluster]
  joinViewFromAllReplicas := List.replicate replicasMax none
  joinViewQuorum := false
  viewHeaders := []
  primaryAbdicating := false
  nonce := replicaIndex + 1
  sendQueue := []
  clientSendQueue := []

-- A replica of a fresh cluster, which its owner opens in normal status.
def started [Env] (cluster replicaIndex replicaCount : Nat) (h : replicaIndex < replicaCount) :
    Replica :=
  { new cluster replicaIndex replicaCount h with status := .normal }

variable (r : Replica)

def quorum : Quorum :=
  quorums r.replicaCount

def primaryIndexForView (view replicaCount : Nat) : Nat :=
  view % replicaCount

def primaryIndex : Nat :=
  primaryIndexForView r.view r.replicaCount

def isPrimary : Bool :=
  r.primaryIndex = r.replicaIndex

def solo : Bool :=
  r.replicaCount = 1

-- Without a superblock, a replica is at the initial checkpoint, whose ids are all zero.
def checkpoint : Checkpoint :=
  match r.superblock with
  | some superblock => superblock.working.checkpoint
  | none => .initial

def opCheckpoint : Nat :=
  r.checkpoint.op

def checkpointId : Nat :=
  match r.superblock with
  | some superblock => superblock.working.checkpointId
  | none => 0

def parentCheckpointId : Nat :=
  match r.superblock with
  | some superblock => superblock.working.parentCheckpointId
  | none => 0

def grandparentCheckpointId : Nat :=
  match r.superblock with
  | some superblock => superblock.working.grandparentCheckpointId
  | none => 0

def checkpointIdForOp (op : Nat) : Option Nat :=
  let checkpointNow := r.opCheckpoint
  let checkpointNext1 := r.checkpoint.checkpointAfter
  let checkpointNext2 := checkpointNext1.checkpointAfter
  if op + vsrCheckpointOps ≤ checkpointNow then
    none
  else if op ≤ checkpointNow then
    some r.grandparentCheckpointId
  else if op ≤ checkpointNext1.op then
    some r.parentCheckpointId
  else if op ≤ checkpointNext2.op then
    some r.checkpointId
  else
    none

def viewDurable : Nat :=
  match r.superblock with
  | some superblock => superblock.working.view
  | none => r.view

def logViewDurable : Nat :=
  match r.superblock with
  | some superblock => superblock.working.logView
  | none => r.logView

def viewDurableUpdating : Bool :=
  r.superblock.any (·.queue.any (·.1 = .viewChange))

def opRepairMin : Nat :=
  r.opCheckpoint + 1

def opPrepareMaxSync : Nat :=
  r.opCheckpoint + vsrCheckpointOps - 1

def opCheckpointNext : Result Nat := do
  assert (r.opCheckpoint ≤ r.commitMin) "self.op_checkpoint() <= self.commit_min"
  assert (r.opCheckpoint ≤ r.op) "self.op_checkpoint() <= self.op"
  return r.checkpoint.checkpointAfter.op

-- The next checkpoint is never the initial one, so it always has a trigger.
def opCheckpointNextTrigger : Result Nat := do
  let _ ← r.opCheckpointNext
  match r.checkpoint.checkpointAfter.triggerForCheckpoint with
  | some trigger => return trigger
  | none => abort "op_checkpoint_next always has a checkpoint trigger"

def opPrepareOkMax : Result Nat := do
  return (← r.opCheckpointNextTrigger) + pipelinePrepareQueueMax

-- The largest op that may be requested during repair.
def opRepairMax : Result Nat := do
  assert (r.opCheckpoint ≤ r.op) "self.op >= self.op_checkpoint()"
  assertOn .window (r.op ≤ r.opPrepareMaxSync) "self.op <= self.op_prepare_max_sync()"
  assert (r.op ≤ r.commitMax + pipelinePrepareQueueMax)
    "self.op <= self.commit_max + PIPELINE_PREPARE_QUEUE_MAX"
  return min r.commitMax (max r.opPrepareMaxSync r.op)

def advanceCommitMax (commit : Nat) : Replica :=
  if r.commitMax < commit then { r with commitMax := commit } else r

theorem advanceCommitMax_eq {commit : Nat} :
    r.advanceCommitMax commit = { r with commitMax := max r.commitMax commit } := by
  unfold advanceCommitMax
  split
  case isTrue h  => rw [max_eq_right h.le]
  case isFalse h => rw [max_eq_left (not_lt.mp h)]

def enqueue (message : Message) : Replica :=
  { r with sendQueue := r.sendQueue ++ [message] }

-- Enqueues one copy of the message for each other replica.
def broadcast (message : Message) : Replica :=
  { r with sendQueue := r.sendQueue ++ List.replicate (r.replicaCount - 1) message }

end Replica

end TigerBeetle
