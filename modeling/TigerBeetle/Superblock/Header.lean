import TigerBeetle.Replica.SuperBlock

namespace TigerBeetle.Superblock

def superblockCopies : Nat := 4

def superblockVersion : Nat := 2

def standbysMax : Nat := 6

-- Each copy of the header is padded, so that the suffix of view headers can grow.
def superblockCopySize : Nat :=
  2 * sectorSize + ((clientsMax - pipelinePrepareQueueMax) * headerSize + sectorSize - 1) /
    sectorSize * sectorSize

def superblockZoneSize : Nat := superblockCopySize * superblockCopies

-- The grid starts at the first block after the other zones.
def dataFileSizeMin : Nat :=
  (superblockZoneSize + journalSlotCount * headerSize + journalSlotCount * messageSizeMax +
    clientsMax * messageSizeMax + blockSize - 1) / blockSize * blockSize

def storageSizeLimitMax : Nat := 64 * 1024 ^ 4

def clientSessionsEncodeSize : Nat := clientsMax * headerSize + clientsMax * 8

structure CheckpointState where
  header : Prepare
  freeSetBlocksAcquiredLastBlockChecksum : Nat
  freeSetBlocksAcquiredLastBlockChecksumPadding : Nat
  freeSetBlocksReleasedLastBlockChecksum : Nat
  freeSetBlocksReleasedLastBlockChecksumPadding : Nat
  clientSessionsLastBlockChecksum : Nat
  clientSessionsLastBlockChecksumPadding : Nat
  manifestOldestChecksum : Nat
  manifestOldestChecksumPadding : Nat
  manifestNewestChecksum : Nat
  manifestNewestChecksumPadding : Nat
  snapshotsBlockChecksum : Nat
  snapshotsBlockChecksumPadding : Nat
  freeSetBlocksAcquiredChecksum : Nat
  freeSetBlocksReleasedChecksum : Nat
  clientSessionsChecksum : Nat
  parentCheckpointId : Nat
  grandparentCheckpointId : Nat
  freeSetBlocksAcquiredLastBlockAddress : Nat
  freeSetBlocksReleasedLastBlockAddress : Nat
  clientSessionsLastBlockAddress : Nat
  manifestOldestAddress : Nat
  manifestNewestAddress : Nat
  snapshotsBlockAddress : Nat
  storageSize : Nat
  freeSetBlocksAcquiredSize : Nat
  freeSetBlocksReleasedSize : Nat
  clientSessionsSize : Nat
  manifestBlockCount : Nat
  release : Nat
  deriving DecidableEq

structure VsrState where
  checkpoint : CheckpointState
  replicaId : Nat
  members : List Nat
  commitMax : Nat
  syncOpMin : Nat
  syncOpMax : Nat
  syncView : Nat
  logView : Nat
  view : Nat
  replicaCount : Nat
  deriving DecidableEq

-- The headers of a view change, of which the header of the superblock holds a bounded number.
abbrev HeadersArray := { headers : List Prepare // headers.length ≤ viewHeadersMax }

structure SuperBlockHeader where
  checksum : Nat
  checksumPadding : Nat
  copy : Nat
  version : Nat
  releaseFormat : Nat
  sequence : Nat
  cluster : Nat
  parent : Nat
  parentPadding : Nat
  vsrState : VsrState
  flags : Nat
  viewHeaders : HeadersArray
  deriving DecidableEq

-- The checksums of encoded headers, of encoded checkpoint states, and of an empty body.
class Checksums where
  header : SuperBlockHeader → Nat
  checkpointState : CheckpointState → Nat
  bodyEmpty : Nat

def validMembers (members : List Nat) : Bool :=
  members.Pairwise fun before after =>
    ¬(before = 0 ∧ after ≠ 0) ∧ ¬(before ≠ 0 ∧ before = after)

def memberIndex (members : List Nat) (replicaId : Nat) : Result (Option Nat) := do
  assert (replicaId ≠ 0) "replica_id != 0"
  assert (validMembers members) "valid_members(members)"
  return members.findIdx? (· = replicaId)

variable [Checksums]

namespace VsrState

def assertInternallyConsistent (state : VsrState) : Result Unit := do
  let checkpoint := state.checkpoint
  assert (checkpoint.header.op ≤ state.commitMax) "self.commit_max >= self.checkpoint.header.op"
  assert (state.syncOpMin ≤ state.syncOpMax) "self.sync_op_max >= self.sync_op_min"
  assert (state.logView ≤ state.view) "self.view >= self.log_view"
  assert (0 < state.replicaCount) "self.replica_count > 0"
  assert (state.replicaCount ≤ replicasMax) "self.replica_count <= REPLICAS_MAX"
  assert (← memberIndex state.members state.replicaId).isSome
    "member_index(&self.members, self.replica_id).is_some()"
  assert (checkpoint.snapshotsBlockChecksum = 0) "snapshots_block_checksum == 0"
  assert (checkpoint.snapshotsBlockAddress = 0) "snapshots_block_address == 0"
  assert (checkpoint.manifestOldestChecksumPadding = 0) "manifest_oldest_checksum_padding == 0"
  assert (checkpoint.manifestNewestChecksumPadding = 0) "manifest_newest_checksum_padding == 0"
  assert (checkpoint.snapshotsBlockChecksumPadding = 0) "snapshots_block_checksum_padding == 0"
  assert (checkpoint.freeSetBlocksAcquiredLastBlockChecksumPadding = 0)
    "free_set_blocks_acquired_last_block_checksum_padding == 0"
  assert (checkpoint.freeSetBlocksReleasedLastBlockChecksumPadding = 0)
    "free_set_blocks_released_last_block_checksum_padding == 0"
  assert (checkpoint.clientSessionsLastBlockChecksumPadding = 0)
    "client_sessions_last_block_checksum_padding == 0"
  assert (dataFileSizeMin ≤ checkpoint.storageSize) "storage_size >= DATA_FILE_SIZE_MIN"
  if checkpoint.freeSetBlocksAcquiredLastBlockAddress = 0 then
    assert (checkpoint.freeSetBlocksAcquiredSize = 0) "free_set_blocks_acquired_size == 0"
    assert (checkpoint.freeSetBlocksAcquiredChecksum = Checksums.bodyEmpty)
      "free_set_blocks_acquired_checksum == checksum_body_empty()"
    assert (checkpoint.freeSetBlocksAcquiredLastBlockChecksum = 0)
      "free_set_blocks_acquired_last_block_checksum == 0"
  else
    assert (0 < checkpoint.freeSetBlocksAcquiredSize) "free_set_blocks_acquired_size > 0"
  if checkpoint.freeSetBlocksReleasedLastBlockAddress = 0 then
    assert (checkpoint.freeSetBlocksReleasedSize = 0) "free_set_blocks_released_size == 0"
    assert (checkpoint.freeSetBlocksReleasedChecksum = Checksums.bodyEmpty)
      "free_set_blocks_released_checksum == checksum_body_empty()"
    assert (checkpoint.freeSetBlocksReleasedLastBlockChecksum = 0)
      "free_set_blocks_released_last_block_checksum == 0"
  else
    assert (0 < checkpoint.freeSetBlocksReleasedSize) "free_set_blocks_released_size > 0"
  if checkpoint.clientSessionsLastBlockAddress = 0 then
    assert (checkpoint.clientSessionsLastBlockChecksum = 0)
      "client_sessions_last_block_checksum == 0"
    assert (checkpoint.clientSessionsSize = 0) "client_sessions_size == 0"
    assert (checkpoint.clientSessionsChecksum = Checksums.bodyEmpty)
      "client_sessions_checksum == checksum_body_empty()"
  else
    assert (checkpoint.clientSessionsSize = clientSessionsEncodeSize)
      "client_sessions_size == CLIENT_SESSIONS_ENCODE_SIZE"
  if checkpoint.manifestBlockCount = 0 then
    assert (checkpoint.manifestOldestAddress = 0) "manifest_oldest_address == 0"
    assert (checkpoint.manifestNewestAddress = 0) "manifest_newest_address == 0"
    assert (checkpoint.manifestOldestChecksum = 0) "manifest_oldest_checksum == 0"
    assert (checkpoint.manifestNewestChecksum = 0) "manifest_newest_checksum == 0"
  else
    assert (checkpoint.manifestOldestAddress ≠ 0) "manifest_oldest_address != 0"
    assert (checkpoint.manifestNewestAddress ≠ 0) "manifest_newest_address != 0"
    assert (checkpoint.manifestBlockCount = 1 ↔
      checkpoint.manifestOldestAddress = checkpoint.manifestNewestAddress)
      "(manifest_block_count == 1) == (manifest_oldest_address == manifest_newest_address)"
    assert (checkpoint.manifestBlockCount = 1 ↔
      checkpoint.manifestOldestChecksum = checkpoint.manifestNewestChecksum)
      "(manifest_block_count == 1) == (manifest_oldest_checksum == manifest_newest_checksum)"

-- The encoding of a checkpoint is injective, so that encodings are equal only if checkpoints are.
def assertCheckpoints (old new : VsrState) : Result Unit :=
  if old.checkpoint.header.op = new.checkpoint.header.op then
    if old.checkpoint.header.checksum = 0 ∧ old.checkpoint.header.op = 0 then do
      assert (old.commitMax = 0) "old.commit_max == 0"
      assert (old.syncOpMin = 0) "old.sync_op_min == 0"
      assert (old.syncOpMax = 0) "old.sync_op_max == 0"
      assert (old.logView = 0) "old.log_view == 0"
      assert (old.view = 0) "old.view == 0"
    else
      assert (old.checkpoint = new.checkpoint) "old.checkpoint.to_wire() == new.checkpoint.to_wire()"
  else do
    assert (old.checkpoint.header.checksum ≠ new.checkpoint.header.checksum)
      "old.checkpoint.header.checksum != new.checkpoint.header.checksum"
    assert (old.checkpoint.parentCheckpointId ≠ new.checkpoint.parentCheckpointId)
      "old.checkpoint.parent_checkpoint_id != new.checkpoint.parent_checkpoint_id"

def monotonic (old new : VsrState) : Result Bool := do
  old.assertInternallyConsistent
  new.assertInternallyConsistent
  old.assertCheckpoints new
  assert (old.replicaId = new.replicaId) "old.replica_id == new.replica_id"
  assert (old.replicaCount = new.replicaCount) "old.replica_count == new.replica_count"
  assert (old.members = new.members) "old.members == new.members"
  return decide (old.checkpoint.header.op ≤ new.checkpoint.header.op ∧ old.view ≤ new.view ∧
    old.logView ≤ new.logView ∧ old.commitMax ≤ new.commitMax)

def wouldBeUpdatedBy (old new : VsrState) : Result Bool := do
  assert (← old.monotonic new) "Self::monotonic(old, new)"
  return decide (old ≠ new)

end VsrState

namespace SuperBlockHeader

variable (header : SuperBlockHeader)

-- The checksum does not cover the checksum itself and the number of the copy.
def calculateChecksum : Nat :=
  Checksums.header { header with checksum := 0, checksumPadding := 0, copy := 0 }

def setChecksum : Result SuperBlockHeader := do
  assert (header.copy < superblockCopies) "self.copy < SUPERBLOCK_COPIES"
  assert (header.copy = 0) "self.copy == 0"
  assert (header.version = superblockVersion) "self.version == SUPERBLOCK_VERSION"
  assert (0 < header.releaseFormat) "self.release_format.value > 0"
  assert (header.flags = 0) "self.flags == 0"
  assert (header.checksumPadding = 0) "self.checksum_padding == 0"
  assert (header.parentPadding = 0) "self.parent_padding == 0"
  return { header with checksum := header.calculateChecksum }

def validChecksum : Bool :=
  header.checksum = header.calculateChecksum ∧ header.checksumPadding = 0

def checkpointId : Nat :=
  Checksums.checkpointState header.vsrState.checkpoint

def equal (other : SuperBlockHeader) : Result Bool := do
  assert (header.releaseFormat = other.releaseFormat) "self.release_format == other.release_format"
  assert (header.checksumPadding = 0) "self.checksum_padding == 0"
  assert (other.checksumPadding = 0) "other.checksum_padding == 0"
  assert (header.parentPadding = 0) "self.parent_padding == 0"
  assert (other.parentPadding = 0) "other.parent_padding == 0"
  return decide (header.version = other.version ∧ header.cluster = other.cluster ∧
    header.sequence = other.sequence ∧ header.parent = other.parent ∧
    header.vsrState = other.vsrState ∧ header.viewHeaders = other.viewHeaders)

-- The command that the view headers were part of follows from the views.
def viewHeadersCommand : ViewChangeCommand :=
  if header.vsrState.logView < header.vsrState.view then .joinView else .view

end SuperBlockHeader

end TigerBeetle.Superblock
