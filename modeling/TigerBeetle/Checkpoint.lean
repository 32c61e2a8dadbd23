import TigerBeetle.Constants

namespace TigerBeetle

-- An op at which the cluster may checkpoint: the initial one, or the last op of a compaction bar.
structure Checkpoint where
  op : Nat
  valid : op = 0 ∨ (op + 1) % lsmCompactionOps = 0
  deriving DecidableEq

namespace Checkpoint

variable {c : Checkpoint}

def initial : Checkpoint where
  op := 0
  valid := .inl rfl

-- The bounds on the result that the source asserts hold by construction.
def checkpointAfter (c : Checkpoint) : Checkpoint where
  op := if c.op = 0 then vsrCheckpointOps - 1 else c.op + vsrCheckpointOps
  valid := by
    have := c.valid
    simp only [lsmCompactionOps, vsrCheckpointOps, journalSlotCount, pipelinePrepareQueueMax] at *
    split <;> omega

def triggerForCheckpoint (c : Checkpoint) : Option Nat :=
  if c.op = 0 then none else some (c.op + lsmCompactionOps)

def durable (c : Checkpoint) (commit : Nat) : Bool :=
  match c.triggerForCheckpoint with
  | some trigger => commit > trigger + pipelinePrepareQueueMax
  | none => true

theorem lt_checkpointAfter : c.op < c.checkpointAfter.op := by
  simp only [checkpointAfter, lsmCompactionOps, vsrCheckpointOps, journalSlotCount,
    pipelinePrepareQueueMax]
  split <;> omega

theorem triggerForCheckpoint_checkpointAfter :
    c.checkpointAfter.triggerForCheckpoint = some (c.checkpointAfter.op + lsmCompactionOps) := by
  have := c.lt_checkpointAfter
  simp only [triggerForCheckpoint, ite_eq_right_iff, reduceCtorEq]
  omega

end Checkpoint

end TigerBeetle
