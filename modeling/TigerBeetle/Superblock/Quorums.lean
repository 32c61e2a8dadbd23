import TigerBeetle.Superblock.Header

namespace TigerBeetle.Superblock

variable [Checksums]

inductive QuorumError
  | fork
  | notFound
  | quorumLost
  | parentNotConnected
  | parentSkipped
  | vsrStateNotMonotonic
  deriving DecidableEq, Repr

inductive Threshold
  | verify
  | open
  deriving DecidableEq, Repr

-- The thresholds for four copies.
def Threshold.count : Threshold → Nat
  | verify => 3
  | «open» => 2

-- The slots hold the numbers of the copies of the quorum that were found in them.
structure Quorum where
  header : SuperBlockHeader
  valid : Bool
  copies : Finset Nat
  slots : List (Option Nat)
  deriving DecidableEq

structure RepairIterator where
  slots : List (Option Nat)
  deriving DecidableEq

-- The plan to repair the other copies, which only a quorum that reached its threshold gives.
def Quorum.repairs (quorum : Quorum) : Result RepairIterator := do
  assert quorum.valid "self.valid"
  return { slots := quorum.slots }

namespace SuperBlockQuorums

def findOrInsertQuorumForCopy (quorums : List Quorum) (copy : SuperBlockHeader) :
    Nat × List Quorum :=
  match quorums.findIdx? (copy.checksum = ·.header.checksum) with
  | some index => (index, quorums)
  | none => (quorums.length, quorums ++ [{
      header := copy
      valid := false
      copies := ∅
      slots := List.replicate superblockCopies none
    }])

-- A copy with an unexpected number is taken to be the copy of its slot, and a copy that was already
-- found elsewhere is ignored.
def countCopy (threshold : Nat) (quorums : List Quorum) (slot : Nat) (copy : SuperBlockHeader) :
    Result (List Quorum) := do
  assert (slot < superblockCopies) "slot < SUPERBLOCK_COPIES"
  if !copy.validChecksum then
    return quorums
  else
    let (index, quorums) := findOrInsertQuorumForCopy quorums copy
    let some quorum := quorums[index]? | abort "just inserted"
    assert (quorum.header.checksum = copy.checksum) "quorum.header.checksum == copy.checksum"
    assert (← quorum.header.equal copy) "quorum.header.equal(copy)"
    let quorum := if superblockCopies ≤ copy.copy then
        { quorum with slots := quorum.slots.set slot (some slot), copies := insert slot quorum.copies }
      else if copy.copy ∈ quorum.copies then
        quorum
      else
        { quorum with
          slots := quorum.slots.set slot (some copy.copy), copies := insert copy.copy quorum.copies }
    assert (1 ≤ quorum.copies.card) "quorum.copies.count() >= 1"
    return quorums.set index { quorum with valid := threshold ≤ quorum.copies.card }

def countCopies (threshold : Nat) : (slot : Nat) → List SuperBlockHeader → List Quorum →
    Result (List Quorum)
  | _, [], quorums => return quorums
  | slot, copy :: copies, quorums => do
    countCopies threshold (slot + 1) copies (← countCopy threshold quorums slot copy)

-- Whether the first quorum comes before the second one, where their checksums differ.
def before (a b : Quorum) : Bool :=
  if a.valid ≠ b.valid then
    a.valid
  else if a.header.sequence ≠ b.header.sequence then
    b.header.sequence < a.header.sequence
  else if a.copies.card ≠ b.copies.card then
    b.copies.card < a.copies.card
  else
    b.header.checksum < a.header.checksum

def verifySorted (best : Quorum) : List Quorum → Result Unit
  | [] => return
  | quorum :: quorums => do
    assert (best.header.checksum ≠ quorum.header.checksum) "a.header.checksum != b.header.checksum"
    assert (before best quorum) "sort_priority_descending(b, a) == Ordering::Less"
    assert quorum.header.validChecksum "a.header.valid_checksum()"
    verifySorted best quorums

-- A parent quorum, complete or not, must be connected to the best one.
def connected (best : Quorum) : List Quorum → Result (Except QuorumError Quorum)
  | [] => do
    assert best.header.validChecksum "b.header.valid_checksum()"
    return .ok best
  | quorum :: quorums =>
    let a := quorum.header
    let b := best.header
    if a.cluster ≠ b.cluster then
      connected best quorums
    else if a.vsrState.replicaId ≠ b.vsrState.replicaId then
      connected best quorums
    else if a.sequence = b.sequence then do
      assert (a.checksum ≠ b.checksum) "a.header.checksum != b.header.checksum"
      return .error .fork
    else if b.sequence + 1 < a.sequence then
      return .error .parentSkipped
    else if a.sequence + 1 = b.sequence then do
      assert (a.checksum ≠ b.checksum) "a.header.checksum != b.header.checksum"
      assert (a.cluster = b.cluster) "a.header.cluster == b.header.cluster"
      assert (a.vsrState.replicaId = b.vsrState.replicaId)
        "a.header.vsr_state.replica_id == b.header.vsr_state.replica_id"
      if a.checksum ≠ b.parent then
        return .error .parentNotConnected
      else if !(← a.vsrState.monotonic b.vsrState) then
        return .error .vsrStateNotMonotonic
      else
        assert b.validChecksum "b.header.valid_checksum()"
        return .ok best
    else
      connected best quorums

def working (copies : List SuperBlockHeader) (threshold : Threshold) :
    Result (Except QuorumError Quorum) := do
  assert (copies.length = superblockCopies) "copies.len() == SUPERBLOCK_COPIES"
  let quorums ← countCopies threshold.count 0 copies []
  match quorums.insertionSort (before · ·) with
  | [] => return .error .notFound
  | best :: quorums =>
    verifySorted best quorums
    if !best.valid then return .error .quorumLost else connected best quorums

end SuperBlockQuorums

namespace RepairIterator

-- The last slot with the given property.
def lastSlot (slots : List (Option Nat)) (p : Nat → Option Nat → Bool) : Option Nat :=
  ((List.range superblockCopies).filter fun slot => slots[slot]?.any (p slot)).getLast?

-- First come the slots without a copy that was not found anywhere, then those without a copy that
-- was found elsewhere, and last those with a copy that is not theirs and was found more than once.
def nextSlot (repairs : RepairIterator) : Result (Option (Nat × RepairIterator)) := do
  let found := repairs.slots.filterMap id
  assert (∀ copy ∈ found, copy < superblockCopies) "corrupt copy index"
  let a := lastSlot repairs.slots fun slot copy => copy = none ∧ slot ∉ found
  let b := lastSlot repairs.slots fun slot copy => copy = none ∧ slot ∈ found
  let c := lastSlot repairs.slots fun slot copy =>
    copy.any fun copy => copy ≠ slot ∧ 2 ≤ found.count copy
  return (a <|> b <|> c).map fun slot => (slot, ⟨repairs.slots.set slot (some slot)⟩)

end RepairIterator

end TigerBeetle.Superblock
