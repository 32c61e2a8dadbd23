import TigerBeetle.Fallible

namespace TigerBeetle

-- The cluster and process constants of the default production configuration.

def replicasMax : Nat := 6

def vsrOperationsReserved : Nat := 128

def clientsMax : Nat := 64

def quorumReplicationMax : Nat := 3

def journalSlotCount : Nat := 1024

def lsmCompactionOps : Nat := 32

def messageSizeMax : Nat := 1024 * 1024

def headerSize : Nat := 256

def messageBodySizeMax : Nat := messageSizeMax - headerSize

def pipelinePrepareQueueMax : Nat := 8

def pipelineRequestQueueMax : Nat := clientsMax - (pipelinePrepareQueueMax - 1)

def viewChangeHeadersSuffixMax : Nat := pipelinePrepareQueueMax + 1

def viewHeadersMax : Nat := viewChangeHeadersSuffixMax + 2

def getHeadersMax : Nat := min (messageBodySizeMax / headerSize) 64

def sectorSize : Nat := 4096

def cacheLineSize : Nat := 64

def blockSize : Nat := 512 * 1024

def tickMs : Nat := 10

def vsrCheckpointOps : Nat :=
  journalSlotCount - lsmCompactionOps -
    lsmCompactionOps * ((2 * pipelinePrepareQueueMax + lsmCompactionOps - 1) / lsmCompactionOps)

def pingTimeout : Nat := 1000

def prepareTimeout : Nat := 250

def commitMessageTimeout : Nat := 500

def primaryAbdicateTimeout : Nat := 10000

def exitViewWindowTimeout : Nat := 5000

def exitViewMessageTimeout : Nat := 500

def viewChangeStatusTimeout : Nat := 5000

def joinViewMessageTimeout : Nat := 500

def getViewMessageTimeout : Nat := 1000

def journalRepairTimeout : Nat := 100

def gridRepairTimeout : Nat := 100

def pulseTimeout : Nat := 100

def clientRepliesIopsWriteMax : Nat := 2

def commitStallLagMin : Nat := pipelinePrepareQueueMax

def commitStallLagMax : Nat := 3 * vsrCheckpointOps

def commitStallMultipleMax : Nat := 4

-- The release of all development builds, which is the only one that a replica runs.
def releaseMinimum : Nat := 1

inductive Command
  | reserved
  | ping
  | pong
  | pingClient
  | pongClient
  | request
  | prepare
  | prepareOk
  | reply
  | commit
  | exitView
  | joinView
  | deprecated12
  | getView
  | getHeaders
  | getPrepare
  | getReply
  | headers
  | eviction
  | getBlocks
  | block
  | deprecated21
  | deprecated22
  | deprecated23
  | view
  deriving DecidableEq, Repr

-- The commands are listed in the order of their ordinals.
def Command.code (command : Command) : UInt8 :=
  UInt8.ofNat command.ctorIdx

-- What an assertion is about. Those that the theorems single out are told apart from the others.
inductive Concern
  | checkpoint
  | quorum
  | session
  | window
  | timeout
  | general
  deriving DecidableEq, Repr

-- How a handler ends when it does not return: an assertion of the source fails, or the commit loop
-- is cut off before it comes to rest. The latter exists in the model only.
inductive Fault
  | panic (concern : Concern) (message : String)
  | cutOff
  deriving DecidableEq, Repr

abbrev Result (α : Type) := Except Fault α

def abort {α : Type} (message : String) : Result α :=
  .error (.panic .general message)

def assertOn (concern : Concern) (p : Prop) [Decidable p] (message : String) : Result Unit :=
  if p then .ok () else .error (.panic concern message)

def assert (p : Prop) [Decidable p] (message : String) : Result Unit :=
  assertOn .general p message

variable {message : String} {p : Prop}

theorem assert_of [Decidable p] (h : p) : assert p message = .ok () :=
  if_pos h

open Fallible in
theorem assert_ok [Decidable p] {α : Type} {f : Unit → Result α} {a : α}
    (h : (assert p message >>= f) = .ok a) : p ∧ f () = .ok a := by
  by_cases hp : p
  · rw [assert_of hp, ok_bind] at h
    exact ⟨hp, h⟩
  · rw [show assert p message = abort message from if_neg hp] at h
    cases h

variable {E : Fault → Prop}

open Fallible in
@[simp]
theorem meets_abort {α : Type} {Q : α → Prop} :
    Meets E Q (abort message) ↔ E (.panic .general message) :=
  Iff.rfl

variable {Q : Unit → Prop}

open Fallible in
theorem meets_assertOn {concern : Concern} [Decidable p] :
    Meets E Q (assertOn concern p message) ↔ (p → Q ()) ∧ (¬p → E (.panic concern message)) := by
  unfold assertOn
  split <;> simp [*]

open Fallible in
@[simp]
theorem meets_assertOn_eq {concern : Concern} [Decidable p] :
    Meets E Q (assertOn concern p message) = ((p → Q ()) ∧ (¬p → E (.panic concern message))) :=
  propext meets_assertOn

open Fallible in
theorem meets_assert [Decidable p] :
    Meets E Q (assert p message) ↔ (p → Q ()) ∧ (¬p → E (.panic .general message)) :=
  meets_assertOn

open Fallible in
@[simp]
theorem meets_assert_eq [Decidable p] :
    Meets E Q (assert p message) = ((p → Q ()) ∧ (¬p → E (.panic .general message))) :=
  propext meets_assert

open Fallible in
-- For partial correctness, an assertion is known to hold from there on.
theorem partial_assert [Decidable p] : Meets (fun _ => True) Q (assert p message) = (p → Q ()) := by
  rw [meets_assert_eq, implies_true, and_true]

end TigerBeetle
