import TigerBeetle.Superblock.Quorums

namespace TigerBeetle.Superblock

inductive Caller
  | format
  | open
  | checkpoint
  | viewChange
  deriving DecidableEq, Repr

-- The callers that may be queued behind a caller.
def Caller.transitions : Caller → List Caller
  | format => []
  | «open» => []
  | checkpoint => [viewChange]
  | viewChange => [checkpoint]

inductive Event
  | formatDone
  | openDone
  | checkpointDone
  | viewChangeDone
  deriving DecidableEq, Repr

structure FormatOptions where
  cluster : Nat
  release : Nat
  replica : Nat
  replicaCount : Nat
  view : Option Nat

structure TrailerReference where
  checksum : Nat
  lastBlockAddress : Nat
  lastBlockChecksum : Nat
  trailerSize : Nat
  deriving DecidableEq

structure ManifestReferences where
  oldestChecksum : Nat
  oldestAddress : Nat
  newestChecksum : Nat
  newestAddress : Nat
  blockCount : Nat
  deriving DecidableEq

structure ViewChangeHeadersArray where
  command : ViewChangeCommand
  array : HeadersArray
  deriving DecidableEq

structure ViewAttributes where
  logView : Nat
  view : Nat
  headers : ViewChangeHeadersArray

structure FreeSetReferences where
  blocksAcquired : TrailerReference
  blocksReleased : TrailerReference

structure UpdateCheckpoint where
  header : Prepare
  viewAttributes : Option ViewAttributes
  commitMax : Nat
  syncOpMin : Nat
  syncOpMax : Nat
  manifestReferences : ManifestReferences
  freeSetReferences : FreeSetReferences
  clientSessionsReference : TrailerReference
  storageSize : Nat
  release : Nat

structure SyncCheckpoint where
  checkpoint : CheckpointState
  syncOpMin : Nat
  syncOpMax : Nat

structure UpdateViewChange where
  commitMax : Nat
  logView : Nat
  view : Nat
  headers : ViewChangeHeadersArray
  syncCheckpoint : Option SyncCheckpoint

structure Context where
  caller : Caller
  copy : Option Nat
  readThreshold : Option Threshold
  vsrState : Option VsrState
  viewHeaders : Option ViewChangeHeadersArray
  repairs : Option RepairIterator
  deriving DecidableEq

-- A request to the storage, for the copy with the given number.
inductive Request
  | read (copy : Nat)
  | write (copy : Nat) (header : SuperBlockHeader)
  deriving DecidableEq

-- The zone of the superblock, and the requests that have not completed.
structure Storage where
  copies : List SuperBlockHeader
  requests : List Request
  deriving DecidableEq

structure SuperBlock where
  working : SuperBlockHeader
  staging : SuperBlockHeader
  reading : List SuperBlockHeader
  opened : Bool
  storageSizeLimit : Nat
  queueHead : Option Context
  queueTail : Option Context
  replicaIndex : Option Nat
  events : List Event
  storage : Storage
  deriving DecidableEq

def checkpointStateZeroed : CheckpointState where
  header := { Prepare.zeroed with size := 0 }
  freeSetBlocksAcquiredLastBlockChecksum := 0
  freeSetBlocksAcquiredLastBlockChecksumPadding := 0
  freeSetBlocksReleasedLastBlockChecksum := 0
  freeSetBlocksReleasedLastBlockChecksumPadding := 0
  clientSessionsLastBlockChecksum := 0
  clientSessionsLastBlockChecksumPadding := 0
  manifestOldestChecksum := 0
  manifestOldestChecksumPadding := 0
  manifestNewestChecksum := 0
  manifestNewestChecksumPadding := 0
  snapshotsBlockChecksum := 0
  snapshotsBlockChecksumPadding := 0
  freeSetBlocksAcquiredChecksum := 0
  freeSetBlocksReleasedChecksum := 0
  clientSessionsChecksum := 0
  parentCheckpointId := 0
  grandparentCheckpointId := 0
  freeSetBlocksAcquiredLastBlockAddress := 0
  freeSetBlocksReleasedLastBlockAddress := 0
  clientSessionsLastBlockAddress := 0
  manifestOldestAddress := 0
  manifestNewestAddress := 0
  snapshotsBlockAddress := 0
  storageSize := 0
  freeSetBlocksAcquiredSize := 0
  freeSetBlocksReleasedSize := 0
  clientSessionsSize := 0
  manifestBlockCount := 0
  release := 0

def headerZeroed : SuperBlockHeader where
  checksum := 0
  checksumPadding := 0
  copy := 0
  version := 0
  releaseFormat := 0
  sequence := 0
  cluster := 0
  parent := 0
  parentPadding := 0
  vsrState := {
    checkpoint := checkpointStateZeroed
    replicaId := 0
    members := []
    commitMax := 0
    syncOpMin := 0
    syncOpMax := 0
    syncView := 0
    logView := 0
    view := 0
    replicaCount := 0
  }
  flags := 0
  viewHeaders := ⟨[], Nat.zero_le _⟩

variable [Checksums]

namespace TrailerReference

def empty (reference : TrailerReference) : Result Bool := do
  if reference.trailerSize = 0 then
    assert (reference.checksum = Checksums.bodyEmpty) "self.checksum == checksum_body_empty()"
    assert (reference.lastBlockAddress = 0) "self.last_block_address == 0"
    assert (reference.lastBlockChecksum = 0) "self.last_block_checksum == 0"
    return true
  else
    assert (0 < reference.lastBlockAddress) "self.last_block_address > 0"
    return false

end TrailerReference

def FreeSetReferences.empty (references : FreeSetReferences) : Result Bool := do
  if ← references.blocksAcquired.empty then references.blocksReleased.empty else return false

namespace SuperBlock

variable (s : SuperBlock)

def setCopy (copy : Option Nat) : SuperBlock :=
  { s with queueHead := s.queueHead.map fun op => { op with copy } }

def submit (request : Request) : SuperBlock :=
  { s with storage.requests := s.storage.requests ++ [request] }

def writeHeader : Result SuperBlock := do
  let some op := s.queueHead | abort "operation is active"
  if op.caller = .open then
    assert (s.staging.sequence = s.working.sequence) "self.staging.sequence == self.working.sequence"
  else
    assert (s.staging.sequence = s.working.sequence + 1)
      "self.staging.sequence == self.working.sequence + 1"
    assert (s.staging.parent = s.working.checksum) "self.staging.parent == self.working.checksum"
  assert (s.staging.cluster = s.working.cluster) "self.staging.cluster == self.working.cluster"
  assert (s.staging.vsrState.replicaId = s.working.vsrState.replicaId)
    "self.staging.vsr_state.replica_id == self.working.vsr_state.replica_id"
  assert (dataFileSizeMin ≤ s.staging.vsrState.checkpoint.storageSize)
    "storage_size >= DATA_FILE_SIZE_MIN"
  assert (s.staging.vsrState.checkpoint.storageSize ≤ storageSizeLimitMax)
    "storage_size <= STORAGE_SIZE_LIMIT_MAX"
  let some copy := op.copy | abort "copy is set"
  assert (copy < superblockCopies) "copy < SUPERBLOCK_COPIES"
  let staging := { s.staging with copy }
  assert staging.validChecksum "self.staging.valid_checksum()"
  return { s with staging }.submit (.write copy staging)

def writeStaging : Result SuperBlock := do
  let some op := s.queueHead | abort "operation is active"
  assert (op.caller ≠ .open) "caller != Caller::Open"
  if op.caller ≠ .format then
    assert s.opened "self.opened"
  assert s.queueTail.isNone "self.queue_tail.is_none()"
  assert op.copy.isNone "op.copy.is_none()"
  let some vsrState := op.vsrState | abort "writer carries vsr_state"
  vsrState.assertInternallyConsistent
  let some headers := op.viewHeaders | abort "format/checkpoint/view_change update headers"
  let staging := { s.working with
    sequence := s.working.sequence + 1
    parent := s.working.checksum
    vsrState
    viewHeaders := headers.array }
  let staging ← staging.setChecksum
  ({ s with staging }.setCopy (some 0)).writeHeader

def readHeader : Result SuperBlock := do
  let some op := s.queueHead | abort "operation is active"
  let some copy := op.copy | abort "copy is set"
  assert (copy < superblockCopies) "copy < SUPERBLOCK_COPIES"
  assert op.readThreshold.isSome "self.op_mut().read_threshold.is_some()"
  return s.submit (.read copy)

def readWorking (threshold : Threshold) : Result SuperBlock := do
  let some op := s.queueHead | abort "operation is active"
  assert op.copy.isNone "op.copy.is_none()"
  assert op.readThreshold.isNone "op.read_threshold.is_none()"
  { s with
    queueHead := some { op with copy := some 0, readThreshold := some threshold }
    reading := List.replicate superblockCopies headerZeroed }.readHeader

def acquire (context : Context) : Result SuperBlock :=
  match s.queueHead with
  | some head => do
    assert (head.caller ≠ context.caller) "all operations are mutually exclusive with themselves"
    assert (context.caller ∈ head.caller.transitions)
      "head_caller.transitions().contains(&context.caller)"
    assert s.queueTail.isNone "self.queue_tail.is_none()"
    return { s with queueTail := some context }
  | none => do
    assert s.queueTail.isNone "self.queue_tail.is_none()"
    let s := { s with queueHead := some context }
    match context.caller with
    | .open => s.readWorking .open
    | _ => s.writeStaging

def emit (event : Event) : SuperBlock :=
  { s with events := s.events ++ [event] }

def release : Result SuperBlock := do
  let some op := s.queueHead | abort "operation is active"
  let queued := s.queueTail
  let s := { s with queueHead := none, queueTail := none }
  let s ← match op.caller with
    | .format => pure s
    | .open => do
      assert (¬s.opened) "!self.opened"
      let some index ← memberIndex s.working.vsrState.members s.working.vsrState.replicaId
        | abort "working vsr_state carries a known member"
      pure { s with opened := true, replicaIndex := some index }
    | .checkpoint | .viewChange => do
      assert (op.vsrState = some s.staging.vsrState) "self.staging.vsr_state == vsr_state"
      assert (op.vsrState = some s.working.vsrState) "self.working.vsr_state == vsr_state"
      pure s
  let s ← match queued with
    | some tail => s.acquire tail
    | none => pure s
  return s.emit <| match op.caller with
    | .format => .formatDone
    | .open => .openDone
    | .checkpoint => .checkpointDone
    | .viewChange => .viewChangeDone

def repair : Result SuperBlock := do
  let some op := s.queueHead | abort "operation is active"
  assert (op.caller = .open) "self.op_mut().caller == Caller::Open"
  assert op.copy.isNone "self.op_mut().copy.is_none()"
  let some repairs := op.repairs | abort "repair requires a plan"
  match ← repairs.nextSlot with
  | some (slot, repairs) =>
    let op := { op with copy := some slot, repairs := some repairs }
    SuperBlock.writeHeader { s with queueHead := some op, staging := s.working }
  | none => s.release

end SuperBlock

def QuorumError.message : QuorumError → String
  | fork => "superblock forked"
  | notFound => "superblock not found"
  | quorumLost => "superblock quorum lost"
  | parentNotConnected => "superblock parent not connected"
  | parentSkipped => "superblock parent superseded"
  | vsrStateNotMonotonic => "superblock vsr state not monotonic"

variable [Env]

def ViewAttributes.verify (attributes : ViewAttributes) : Result Unit := do
  assert (attributes.logView ≤ attributes.view) "view_attributes.log_view <= view_attributes.view"
  ViewChangeHeaders.verify attributes.headers.command attributes.headers.array.val

namespace SuperBlock

variable (s : SuperBlock)

def readWorkingDone (threshold : Threshold) : Result SuperBlock := do
  let some op := s.queueHead | abort "operation is active"
  let verifyingRepairs := op.caller = .open ∧ op.repairs.isSome
  match ← SuperBlockQuorums.working s.reading threshold with
  | .error error => abort error.message
  | .ok quorum => do
    assert quorum.valid "quorum.valid()"
    assert (threshold.count ≤ quorum.copies.card) "quorum.copies_count() >= threshold"
    let working := quorum.header
    assert (working.version = superblockVersion)
      "cannot read superblock with incompatible version"
    if threshold = .verify then
      assert (working.checksum = s.staging.checksum) "superblock failed verification after writing"
      assert (← working.equal s.staging) "working.equal(&self.staging)"
    if op.caller = .format then
      let checkpoint := working.vsrState.checkpoint
      assert (working.sequence = 1) "working.sequence == 1"
      assert (checkpoint.header.checksum = (Prepare.root working.cluster).checksum)
        "working.vsr_state.checkpoint.header.checksum == Prepare::root(cluster).checksum"
      assert (checkpoint.freeSetBlocksAcquiredSize = 0) "free_set_blocks_acquired_size == 0"
      assert (checkpoint.freeSetBlocksReleasedSize = 0) "free_set_blocks_released_size == 0"
      assert (checkpoint.clientSessionsSize = 0) "client_sessions_size == 0"
      assert (checkpoint.storageSize = dataFileSizeMin) "storage_size == DATA_FILE_SIZE_MIN"
      assert (checkpoint.header.op = 0) "header.op == 0"
      assert (working.vsrState.commitMax = 0) "commit_max == 0"
      assert (working.vsrState.logView = 0) "log_view == 0"
      assert (working.viewHeaders.val.length = 1) "view_headers_count == 1"
      assert (working.vsrState.replicaCount ≤ replicasMax) "replica_count <= REPLICAS_MAX"
      assert (← memberIndex working.vsrState.members working.vsrState.replicaId).isSome
        "member_index(&working.vsr_state.members, working.vsr_state.replica_id).is_some()"
    let working := { working with copy := 0 }
    let s := { s with working, staging := working }
    assert (working.vsrState.checkpoint.storageSize ≤ s.storageSizeLimit) "data file too large"
    if op.caller = .open then
      if verifyingRepairs then
        assert (threshold = .verify) "threshold == Threshold::Verify"
        s.release
      else
        assert (threshold = .open) "threshold == Threshold::Open"
        let repairs ← quorum.repairs
        { s with queueHead := some { op with copy := none, repairs := some repairs } }.repair
    else
      s.release

def pollRead (copy : Nat) (header : SuperBlockHeader) : Result SuperBlock := do
  let some op := s.queueHead | abort "operation is active"
  assert (op.copy = some copy) "unexpected read completion"
  let s := { s with reading := s.reading.set copy header }
  if copy + 1 ≠ superblockCopies then
    (s.setCopy (some (copy + 1))).readHeader
  else
    let some threshold := op.readThreshold | abort "threshold is set while reading"
    { s with queueHead := some { op with copy := none, readThreshold := none } }.readWorkingDone
      threshold

def pollWrite (copy : Nat) : Result SuperBlock := do
  let some op := s.queueHead | abort "operation is active"
  assert (op.copy = some copy) "unexpected write completion"
  if op.caller = .open then
    (s.setCopy none).repair
  else if copy + 1 = superblockCopies then
    (s.setCopy none).readWorking .verify
  else
    (s.setCopy (some (copy + 1))).writeHeader

-- Completes the oldest request to the storage, if there is one.
def poll : Result SuperBlock :=
  match s.storage.requests with
  | [] => return s
  | .read copy :: requests => do
    let some header := s.storage.copies[copy]? | abort "offset + size <= SUPERBLOCK_ZONE_SIZE"
    { s with storage.requests := requests }.pollRead copy header
  | .write copy header :: requests =>
    { s with storage := { copies := s.storage.copies.set copy header, requests } }.pollWrite copy

def checkpointState (update : UpdateCheckpoint) : CheckpointState :=
  let staging := s.staging.vsrState.checkpoint
  { checkpointStateZeroed with
    header := update.header
    parentCheckpointId := s.staging.checkpointId
    grandparentCheckpointId := staging.parentCheckpointId
    freeSetBlocksAcquiredChecksum := update.freeSetReferences.blocksAcquired.checksum
    freeSetBlocksReleasedChecksum := update.freeSetReferences.blocksReleased.checksum
    freeSetBlocksAcquiredSize := update.freeSetReferences.blocksAcquired.trailerSize
    freeSetBlocksReleasedSize := update.freeSetReferences.blocksReleased.trailerSize
    freeSetBlocksAcquiredLastBlockChecksum :=
      update.freeSetReferences.blocksAcquired.lastBlockChecksum
    freeSetBlocksReleasedLastBlockChecksum :=
      update.freeSetReferences.blocksReleased.lastBlockChecksum
    freeSetBlocksAcquiredLastBlockAddress := update.freeSetReferences.blocksAcquired.lastBlockAddress
    freeSetBlocksReleasedLastBlockAddress := update.freeSetReferences.blocksReleased.lastBlockAddress
    clientSessionsChecksum := update.clientSessionsReference.checksum
    clientSessionsLastBlockChecksum := update.clientSessionsReference.lastBlockChecksum
    clientSessionsLastBlockAddress := update.clientSessionsReference.lastBlockAddress
    clientSessionsSize := update.clientSessionsReference.trailerSize
    manifestOldestChecksum := update.manifestReferences.oldestChecksum
    manifestOldestAddress := update.manifestReferences.oldestAddress
    manifestNewestChecksum := update.manifestReferences.newestChecksum
    manifestNewestAddress := update.manifestReferences.newestAddress
    manifestBlockCount := update.manifestReferences.blockCount
    storageSize := update.storageSize
    snapshotsBlockChecksum := staging.snapshotsBlockChecksum
    snapshotsBlockAddress := staging.snapshotsBlockAddress
    release := update.release }

-- The state that a checkpoint commits to. Its views are those of the staged state, unless the
-- update brings its own.
def checkpointVsrState (update : UpdateCheckpoint) : VsrState :=
  let state := { s.staging.vsrState with
    checkpoint := s.checkpointState update
    commitMax := update.commitMax
    syncOpMin := update.syncOpMin
    syncOpMax := update.syncOpMax
    syncView := 0 }
  match update.viewAttributes with
  | some attributes => { state with logView := attributes.logView, view := attributes.view }
  | none => state

-- The view headers that a checkpoint writes. Those of the staged header are decoded and verified.
def checkpointHeaders (update : UpdateCheckpoint) : Result ViewChangeHeadersArray :=
  match update.viewAttributes with
  | some attributes => return attributes.headers
  | none => do
    ViewChangeHeaders.verify s.staging.viewHeadersCommand s.staging.viewHeaders.val
    return { command := s.staging.viewHeadersCommand, array := s.staging.viewHeaders }

-- The operation of a checkpoint, whose state and headers are known from the start.
def checkpointContext (update : UpdateCheckpoint) : Result Context := do
  let staging := s.staging.vsrState
  assert s.opened "self.opened"
  assert (update.header.op ≤ update.commitMax) "update.header.op <= update.commit_max"
  assert (staging.checkpoint.header.op < update.header.op)
    "update.header.op > self.staging.vsr_state.checkpoint.header.op"
  assert (update.header.checksum ≠ staging.checkpoint.header.checksum)
    "the checkpoint header must update the commit_min_checksum"
  assert (update.syncOpMin ≤ update.syncOpMax) "update.sync_op_min <= update.sync_op_max"
  assert (staging.checkpoint.release ≤ update.release) "release downgrade"
  assert (update.storageSize ≤ s.storageSizeLimit) "update.storage_size <= self.storage_size_limit"
  assert (dataFileSizeMin ≤ update.storageSize) "update.storage_size >= DATA_FILE_SIZE_MIN"
  assert (update.storageSize = dataFileSizeMin ↔ (← update.freeSetReferences.empty))
    "(update.storage_size == DATA_FILE_SIZE_MIN) == free set is empty"
  update.viewAttributes.forM ViewAttributes.verify
  let state := s.checkpointVsrState update
  assert (← s.staging.vsrState.wouldBeUpdatedBy state)
    "VSRState::would_be_updated_by(&self.staging.vsr_state, &vsr_state)"
  let headers ← s.checkpointHeaders update
  return {
    caller := .checkpoint
    copy := none
    readThreshold := none
    vsrState := some state
    viewHeaders := some headers
    repairs := none
  }

def checkpoint (update : UpdateCheckpoint) : Result SuperBlock := do
  s.acquire (← s.checkpointContext update)

-- The state that a view change commits to. Its checkpoint is that of the staged state, unless the
-- update brings its own.
def viewChangeVsrState (update : UpdateViewChange) : VsrState :=
  let state := { s.staging.vsrState with
    commitMax := update.commitMax, logView := update.logView, view := update.view }
  match update.syncCheckpoint with
  | some sync => { state with
    checkpoint := sync.checkpoint, syncOpMin := sync.syncOpMin, syncOpMax := sync.syncOpMax }
  | none => state

def checkpointAfter (op : Nat) : Result Nat := do
  assert (op = 0 ∨ (op + 1) % lsmCompactionOps = 0) "valid(checkpoint)"
  return if op = 0 then vsrCheckpointOps - 1 else op + vsrCheckpointOps

-- A sync checkpoint descends from the staged one, where it is one of the next two checkpoints.
def verifySyncCheckpoint (sync : SyncCheckpoint) : Result Unit := do
  let staging := s.staging.vsrState
  let op := sync.checkpoint.header.op
  assert (staging.checkpoint.header.op < op)
    "self.staging.vsr_state.checkpoint.header.op < sync_checkpoint.checkpoint.header.op"
  let checkpointNext ← checkpointAfter staging.checkpoint.header.op
  let checkpointNextNext ← checkpointAfter checkpointNext
  if op = checkpointNext then
    assert (sync.checkpoint.parentCheckpointId = s.staging.checkpointId)
      "sync checkpoint parent mismatch"
  else if op = checkpointNextNext then
    assert (sync.checkpoint.grandparentCheckpointId = s.staging.checkpointId)
      "sync checkpoint grandparent mismatch"

-- The operation of a view change, whose state and headers are known from the start.
def viewChangeContext (update : UpdateViewChange) : Result Context := do
  let staging := s.staging.vsrState
  assert s.opened "self.opened"
  assert (staging.commitMax ≤ update.commitMax) "self.staging.commit_max <= update.commit_max"
  assert (staging.view ≤ update.view) "self.staging.view <= update.view"
  assert (staging.logView ≤ update.logView) "self.staging.log_view <= update.log_view"
  assert (staging.logView < update.logView ∨ staging.view < update.view ∨
    update.syncCheckpoint.isSome) "the update advances log_view, view or the checkpoint"
  assert (update.headers.command = .view ∧ update.logView = update.view ∨
    update.headers.command = .joinView ∧ update.logView < update.view)
    "the command of the headers matches the views"
  let some head := update.headers.array.val.head? | abort "update.headers.array.slice()[0]"
  assert (staging.checkpoint.header.op ≤ head.op)
    "the checkpoint must not be ahead of the view change headers"
  ViewChangeHeaders.verify update.headers.command update.headers.array.val
  assert (update.logView ≤ update.view) "update.view >= update.log_view"
  update.syncCheckpoint.forM s.verifySyncCheckpoint
  let state := s.viewChangeVsrState update
  assert (← s.staging.vsrState.wouldBeUpdatedBy state)
    "VSRState::would_be_updated_by(&self.staging.vsr_state, &vsr_state)"
  return {
    caller := .viewChange
    copy := none
    readThreshold := none
    vsrState := some state
    viewHeaders := some update.headers
    repairs := none
  }

def viewChange (update : UpdateViewChange) : Result SuperBlock := do
  s.acquire (← s.viewChangeContext update)

end SuperBlock

end TigerBeetle.Superblock
