import TigerBeetle.Header

namespace TigerBeetle

-- The write-ahead log in memory: a ring of slots, where the entry for an op lives in the slot
-- `op % journalSlotCount`. Headers and bodies are stored separately.
structure Journal where
  cluster : Nat
  headers : Nat → Prepare
  dirty : Nat → Bool
  faulty : Nat → Bool
  prepareChecksums : Nat → Nat
  prepareInhabited : Nat → Bool
  prepareBodies : Nat → Body
  -- The slot of a header is determined by its op, and a reserved header's op is its slot.
  slotted : ∀ slot < journalSlotCount,
    (headers slot).op % journalSlotCount = slot ∧
    ((headers slot).operation = .reserved → (headers slot).op = slot)

-- An inclusive range of ops in which the log needs repair.
structure HeaderRange where
  opMin : Nat
  opMax : Nat
  deriving DecidableEq, Repr

namespace Journal

def slotForOp (op : Nat) : Nat :=
  op % journalSlotCount

section

variable [Env]

theorem reserve_slotted {cluster slot : Nat} (h : slot < journalSlotCount) :
    (Prepare.reserve cluster slot).op % journalSlotCount = slot :=
  Nat.mod_eq_of_lt h

def new (cluster : Nat) : Journal where
  cluster := cluster
  headers := Prepare.reserve cluster
  dirty := fun _ => false
  faulty := fun _ => false
  prepareChecksums := fun _ => 0
  prepareInhabited := fun _ => false
  prepareBodies := fun _ => []
  slotted := fun _ h => ⟨reserve_slotted h, fun _ => rfl⟩

end

variable (journal : Journal)

-- The checks that the source makes on the entry that it finds hold by `slotted`.
def headerForOp (op : Nat) : Option Prepare :=
  let existing := journal.headers (slotForOp op)
  if existing.operation = .reserved then none else some existing

def headerWithOp (op : Nat) : Option Prepare :=
  match journal.headerForOp op with
  | some existing => if existing.op = op then some existing else none
  | none => none

def headerWithOpAndChecksum (op checksum : Nat) : Option Prepare :=
  match journal.headerWithOp op with
  | some existing => if existing.checksum = checksum then some existing else none
  | none => none

def bodyWithOp (op : Nat) : Option Body :=
  (journal.headerWithOp op).map fun _ => journal.prepareBodies (slotForOp op)

def setPrepareBody (op : Nat) (body : Body) : Result Journal := do
  assert (journal.headerWithOp op).isSome "prepare body requires a journaled header"
  return { journal with
    prepareBodies := Function.update journal.prepareBodies (slotForOp op) body }

def previousEntry (header : Prepare) : Option Prepare :=
  if header.op = 0 then none else journal.headerForOp (header.op - 1)

def nextEntry (header : Prepare) : Option Prepare :=
  journal.headerForOp (header.op + 1)

def hasHeader (header : Prepare) : Result Bool := do
  assert (header.operation ≠ .reserved) "header.operation != RESERVED"
  return (journal.headerWithOpAndChecksum header.op header.checksum).isSome

def hasPrepare (header : Prepare) : Result Bool :=
  let slot := slotForOp header.op
  if (journal.headerWithOpAndChecksum header.op header.checksum).isSome ∧ !journal.dirty slot then do
    assert (journal.prepareInhabited slot) "self.prepare_inhabited[slot.index]"
    assert (journal.prepareChecksums slot = header.checksum)
      "self.prepare_checksums[slot.index] == header.checksum"
    return true
  else
    return false

-- The `count` ops from `opMin` upwards, latest first, as long as `room` is left.
def copyLatestHeaders (opMin : Nat) : (count room : Nat) → List Prepare
  | 0, _ => []
  | _, 0 => []
  | count + 1, room + 1 =>
    match journal.headerWithOp (opMin + count) with
    | some header => header :: copyLatestHeaders opMin count room
    | none => copyLatestHeaders opMin count (room + 1)

def copyLatestHeadersBetween (opMin opMax room : Nat) : Result (List Prepare) := do
  assert (opMin ≤ opMax) "op_min <= op_max"
  return journal.copyLatestHeaders opMin (opMax + 1 - opMin) room

-- Scans the `count` ops from `opMin` upwards, latest first. The entry at the op above is `b`.
def findLatestHeadersBreak (opMin opMax : Nat) :
    (count : Nat) → (b : Option Prepare) → (range : Option HeaderRange) →
    Result (Option HeaderRange)
  | 0, _, range => pure range
  | count + 1, b, range =>
    let op := opMin + count
    match journal.headerWithOp op, b, range with
    | some a, some b, some r => do
      assert (a.op + 1 = b.op) "a.op + 1 == b.op"
      assert (b.op = r.opMin) "b.op == r.op_min"
      if a.op = opMin then
        return range
      else if a.checksum = b.parent then
        assert (a.view ≤ b.view) "a.view <= b.view"
        findLatestHeadersBreak opMin opMax count a (some { r with opMin := a.op })
      else if a.view < b.view then
        findLatestHeadersBreak opMin opMax count a (some { r with opMin := a.op })
      else if a.view > b.view then
        return range
      else
        abort "op numbers in the same view must be connected"
    | some a, some b, none => do
      assert (a.op + 1 = b.op) "a.op + 1 == b.op"
      if a.checksum = b.parent then
        assert (a.view ≤ b.view) "a.view <= b.view"
        findLatestHeadersBreak opMin opMax count a none
      else if a.view ≠ b.view then
        assert (b.op ≤ opMax) "b.op <= op_max"
        findLatestHeadersBreak opMin opMax count a (some ⟨a.op, a.op⟩)
      else
        abort "op numbers in the same view must be connected"
    | some _, none, some r => do
      assert (r.opMin = op + 1) "r.op_min == op + 1"
      return range
    | some a, none, none => do
      assert (a.op = opMax) "a.op == op_max"
      findLatestHeadersBreak opMin opMax count a none
    | none, _, some r => do
      assert (op < opMax) "op < op_max"
      assert (r.opMin = op + 1) "r.op_min == op + 1"
      findLatestHeadersBreak opMin opMax count none (some { r with opMin := op })
    | none, b, none => do
      assert (op < opMax) "op < op_max"
      assert b.isSome "b.is_some()"
      findLatestHeadersBreak opMin opMax count none (some ⟨op, op⟩)

def findLatestHeadersBreakBetween (opMin opMax : Nat) : Result (Option HeaderRange) := do
  assert (journal.headerWithOp opMax).isSome "self.header_with_op(op_max).is_some()"
  assert (opMin ≤ opMax) "op_max >= op_min"
  assert (opMax - opMin < journalSlotCount) "op_max - op_min < SLOT_COUNT"
  let range ← journal.findLatestHeadersBreak opMin opMax (opMax + 1 - opMin) none none
  if let some r := range then
    assert (opMin ≤ r.opMin) "r.op_min >= op_min"
    assert (r.opMax < opMax) "r.op_max < op_max"
  return range

section

variable [Env]

-- Replaces the entries of all slots that satisfy `p` with reserved ones. The prepares on disk are
-- left as they are.
def removeEntries (p : Nat → Prop) [DecidablePred p] : Journal where
  cluster := journal.cluster
  headers := fun slot =>
    if p slot then Prepare.reserve journal.cluster slot else journal.headers slot
  dirty := fun slot => !p slot && journal.dirty slot
  faulty := fun slot => !p slot && journal.faulty slot
  prepareChecksums := journal.prepareChecksums
  prepareInhabited := journal.prepareInhabited
  prepareBodies := fun slot => if p slot then [] else journal.prepareBodies slot
  slotted := fun slot h => by
    by_cases hp : p slot
    · simp only [hp, ↓reduceIte]
      exact ⟨reserve_slotted h, fun _ => rfl⟩
    · simpa only [hp, ↓reduceIte] using journal.slotted slot h

def removeEntry (slot : Nat) : Journal :=
  journal.removeEntries (· = slot)

def removeEntriesFrom (opMin : Nat) : Result Journal := do
  assert (0 < opMin) "op_min > 0"
  return journal.removeEntries fun slot => opMin ≤ (journal.headers slot).op

end

def insert (header : Prepare) (h : header.operation ≠ .reserved) : Journal where
  cluster := journal.cluster
  headers := Function.update journal.headers (slotForOp header.op) header
  dirty := Function.update journal.dirty (slotForOp header.op) true
  -- A prepare that the slot holds is another one, which makes it safe to forget its fault.
  faulty :=
    if (journal.headers (slotForOp header.op)).operation = .reserved then
      journal.faulty
    else
      Function.update journal.faulty (slotForOp header.op) false
  prepareChecksums := journal.prepareChecksums
  prepareInhabited := journal.prepareInhabited
  prepareBodies := journal.prepareBodies
  slotted := fun slot hs => by
    by_cases he : slot = slotForOp header.op
    · subst he
      rw [Function.update_self]
      exact ⟨rfl, fun hr => absurd hr h⟩
    · simpa only [Function.update_of_ne he] using journal.slotted slot hs

def setHeaderAsDirty (header : Prepare) : Result Journal := do
  if h : header.operation = .reserved then
    abort "header.operation != RESERVED"
  else
    let slot := slotForOp header.op
    if ← journal.hasHeader header then
      assert (journal.dirty slot) "self.dirty.bit(slot)"
      return journal
    else
      assert ((journal.headers slot).op ≤ header.op) "self.headers[slot.index].op <= header.op"
      return journal.insert header h

-- The write of a prepare to disk completes.
def setPrepareWritten (header : Prepare) : Journal :=
  let slot := slotForOp header.op
  { journal with
    dirty := Function.update journal.dirty slot false
    prepareInhabited := Function.update journal.prepareInhabited slot true
    prepareChecksums := Function.update journal.prepareChecksums slot header.checksum }

end Journal

end TigerBeetle
