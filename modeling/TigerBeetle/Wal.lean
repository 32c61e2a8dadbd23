import TigerBeetle.DynamicBitSet
import TigerBeetle.Header

-- The journal as it lies in memory: a header ring with its redundant headers, and two bit sets that
-- count their members.
namespace TigerBeetle.Wal

abbrev Slot := Fin journalSlotCount

def Slot.forOp (op : Nat) : Slot :=
  ⟨op % journalSlotCount, Nat.mod_lt _ (by decide)⟩

structure BitSet where
  words : DynamicBitSet journalSlotCount
  count : Nat
  deriving DecidableEq, Repr

namespace BitSet

def new : BitSet where
  words := .newEmpty
  count := 0

variable (bits : BitSet) (slot : Slot)

def bit : Bool :=
  bits.words.bit slot

def set : Result BitSet := do
  if bits.bit slot then
    return bits
  else
    let bits := { words := bits.words.insert slot, count := bits.count + 1 : BitSet }
    assert (bits.count ≤ bits.words.words.size * 64) "self.count <= self.words.len() * 64"
    return bits

def clear : BitSet :=
  if bits.bit slot then
    { words := bits.words.erase slot, count := bits.count - 1 }
  else
    bits

end BitSet

inductive JournalStatus
  | init
  | recovering
  | recovered
  deriving DecidableEq, Repr

structure Journal where
  cluster : Nat
  headers : Slot → Prepare
  -- Headers whose prepares are on disk.
  headersRedundant : Slot → Prepare
  dirty : BitSet
  faulty : BitSet
  prepareChecksums : Slot → Nat
  prepareInhabited : Slot → Bool
  prepareBodies : Slot → Body
  status : JournalStatus

namespace Journal

variable (journal : Journal)

section

variable [Env]

-- Recovery is not a part of the source: a journal is recovered from the start.
def new (cluster : Nat) : Journal where
  cluster := cluster
  headers := fun slot => Prepare.reserve cluster slot
  headersRedundant := fun slot => Prepare.reserve cluster slot
  dirty := .new
  faulty := .new
  prepareChecksums := fun _ => 0
  prepareInhabited := fun _ => false
  prepareBodies := fun _ => []
  status := .recovered

-- The prepare on disk is left as it is.
def removeEntry (slot : Slot) : Journal :=
  let reserved := Prepare.reserve journal.cluster slot
  { journal with
    headers := Function.update journal.headers slot reserved
    headersRedundant := Function.update journal.headersRedundant slot reserved
    dirty := journal.dirty.clear slot
    faulty := journal.faulty.clear slot
    prepareBodies := Function.update journal.prepareBodies slot [] }

end

def headerForOp (op : Nat) : Result (Option Prepare) := do
  let slot := Slot.forOp op
  let existing := journal.headers slot
  if existing.operation = .reserved then
    assert (existing.op = slot) "existing.op == slot.index"
    return none
  else
    assert (Slot.forOp existing.op = slot) "slot_for_op(existing.op).index == slot.index"
    return some existing

def headerWithOp (op : Nat) : Result (Option Prepare) := do
  return (← journal.headerForOp op).filter fun existing => existing.op = op

def headerWithOpAndChecksum (op checksum : Nat) : Result (Option Prepare) := do
  return (← journal.headerWithOp op).filter fun existing => existing.checksum = checksum

def hasHeader (header : Prepare) : Result Bool := do
  assert (journal.status = .recovered) "self.status == Recovered"
  assert (header.operation ≠ .reserved) "header.operation != RESERVED"
  return (← journal.headerWithOpAndChecksum header.op header.checksum).isSome

def slotForHeader (header : Prepare) : Result Slot := do
  assert (header.operation ≠ .reserved) "header.operation != RESERVED"
  return Slot.forOp header.op

def setPrepareBody (op : Nat) (body : Body) : Result Journal := do
  assert (← journal.headerWithOp op).isSome "prepare body requires a journaled header"
  return { journal with
    prepareBodies := Function.update journal.prepareBodies (Slot.forOp op) body }

-- The end of `commit_op`, where the write of the prepare completes: its header becomes clean.
def setHeaderAsClean (op : Nat) : Result Journal := do
  match ← journal.headerWithOp op with
  | some header =>
    let slot := Slot.forOp op
    return { journal with
      dirty := journal.dirty.clear slot
      prepareInhabited := Function.update journal.prepareInhabited slot true
      prepareChecksums := Function.update journal.prepareChecksums slot header.checksum }
  | none => return journal

-- The slots among the given ones whose headers are removed. Reserved headers count as well.
def slotsFrom (opMin : Nat) : List Slot → Result (List Slot)
  | [] => return []
  | index :: rest => do
    let header := journal.headers index
    if opMin ≤ header.op then
      let slot := Slot.forOp header.op
      assert (slot = index) "slot.index == index"
      return slot :: (← slotsFrom opMin rest)
    else
      slotsFrom opMin rest

section

variable [Env]

def removeEntriesFrom (opMin : Nat) : Result Journal := do
  assert (journal.status = .recovered) "self.status == Recovered"
  assert (0 < opMin) "op_min > 0"
  let slots ← journal.slotsFrom opMin (List.finRange journalSlotCount)
  return slots.foldl (fun journal slot => journal.removeEntry slot) journal

-- The reset of a slot's fault, which is safe where the log did not hold the new header.
def resetFaulty (slot : Slot) : Journal :=
  if (journal.headers slot).operation = .reserved then
    journal
  else
    { journal with
      faulty := journal.faulty.clear slot
      headersRedundant :=
        Function.update journal.headersRedundant slot (Prepare.reserve journal.cluster slot) }

def setHeaderAsDirty (header : Prepare) : Result Journal := do
  assert (journal.status = .recovered) "self.status == Recovered"
  assert (header.operation ≠ .reserved) "header.operation != RESERVED"
  let slot ← slotForHeader header
  if ← journal.hasHeader header then
    assert (journal.dirty.bit slot) "self.dirty.bit(slot)"
    return journal
  else
    assert ((journal.headers slot).op ≤ header.op) "self.headers[slot.index].op <= header.op"
    let journal := journal.resetFaulty slot
    let dirty ← journal.dirty.set slot
    return { journal with headers := Function.update journal.headers slot header, dirty }

-- The calls that the replica makes.
inductive Step : Journal → Journal → Prop
  | setHeaderAsDirty {journal journal' : Journal} {header : Prepare} :
      journal.setHeaderAsDirty header = .ok journal' → Step journal journal'
  | setHeaderAsClean {journal journal' : Journal} {op : Nat} :
      journal.setHeaderAsClean op = .ok journal' → Step journal journal'
  | setPrepareBody {journal journal' : Journal} {op : Nat} {body : Body} :
      journal.setPrepareBody op body = .ok journal' → Step journal journal'
  | removeEntry {journal : Journal} {slot : Slot} : Step journal (journal.removeEntry slot)
  | removeEntriesFrom {journal journal' : Journal} {opMin : Nat} :
      journal.removeEntriesFrom opMin = .ok journal' → Step journal journal'

def Reachable (journal : Journal) : Prop :=
  ∃ cluster, Relation.ReflTransGen Step (new cluster) journal

end

end Journal

end TigerBeetle.Wal
