import TigerBeetle.MessageBuffer
import TigerBeetle.Superblock.Header

-- The superblock as it is laid out on disk.
namespace TigerBeetle.Wire

open LittleEndian Slots Superblock

abbrev U8 := BitVec (8 * 1)
abbrev U16 := BitVec (8 * 2)
abbrev U32 := BitVec (8 * 4)
abbrev U64 := BitVec (8 * 8)
abbrev U128 := BitVec (8 * 16)

-- An array of bytes.
abbrev Bytes (size : Nat) := { bytes : List UInt8 // bytes.length = size }

def zeros (size : Nat) : List UInt8 :=
  List.replicate size 0

def zeroed (bytes : List UInt8) : Bool :=
  bytes.all (· = 0)

theorem length_slice {size offset count : Nat} {bytes : Bytes size} (h : offset + count ≤ size) :
    (slice bytes.val offset count).length = count :=
  @length_read _ bytes.val ⟨offset, count⟩ (by rw [bytes.property]; exact h)

def getBytes {size : Nat} (bytes : Bytes size) (offset count : Nat) (h : offset + count ≤ size) :
    Bytes count :=
  ⟨slice bytes.val offset count, length_slice h⟩

-- The header of a prepare.
@[ext]
structure Prepare where
  checksum : U128
  checksumPadding : U128
  checksumBody : U128
  checksumBodyPadding : U128
  nonceReserved : U128
  cluster : U128
  size : U32
  epoch : U32
  view : U32
  release : U32
  protocol : U16
  command : Command
  replica : U8
  reservedFrame : Bytes 12
  parent : U128
  parentPadding : U128
  requestChecksum : U128
  requestChecksumPadding : U128
  checkpointId : U128
  client : U128
  op : U64
  commit : U64
  timestamp : U64
  request : U32
  operation : U8
  reserved : Bytes 3
  deriving DecidableEq

namespace Prepare

def toWire (header : Prepare) : List UInt8 :=
  putAll (zeros headerSize) [
    (0, le header.checksum),
    (16, le header.checksumPadding),
    (32, le header.checksumBody),
    (48, le header.checksumBodyPadding),
    (64, le header.nonceReserved),
    (80, le header.cluster),
    (96, le header.size),
    (100, le header.epoch),
    (104, le header.view),
    (108, le header.release),
    (112, le header.protocol),
    (114, [header.command.code]),
    (115, le header.replica),
    (116, header.reservedFrame.val),
    (128, le header.parent),
    (144, le header.parentPadding),
    (160, le header.requestChecksum),
    (176, le header.requestChecksumPadding),
    (192, le header.checkpointId),
    (208, le header.client),
    (224, le header.op),
    (232, le header.commit),
    (240, le header.timestamp),
    (248, le header.request),
    (252, le header.operation),
    (253, header.reserved.val)]

def decode (bytes : Bytes headerSize) : Prepare where
  checksum := get 16 bytes.val 0
  checksumPadding := get 16 bytes.val 16
  checksumBody := get 16 bytes.val 32
  checksumBodyPadding := get 16 bytes.val 48
  nonceReserved := get 16 bytes.val 64
  cluster := get 16 bytes.val 80
  size := get 4 bytes.val 96
  epoch := get 4 bytes.val 100
  view := get 4 bytes.val 104
  release := get 4 bytes.val 108
  protocol := get 2 bytes.val 112
  command := .prepare
  replica := get 1 bytes.val 115
  reservedFrame := getBytes bytes 116 12 (by decide)
  parent := get 16 bytes.val 128
  parentPadding := get 16 bytes.val 144
  requestChecksum := get 16 bytes.val 160
  requestChecksumPadding := get 16 bytes.val 176
  checkpointId := get 16 bytes.val 192
  client := get 16 bytes.val 208
  op := get 8 bytes.val 224
  commit := get 8 bytes.val 232
  timestamp := get 8 bytes.val 240
  request := get 4 bytes.val 248
  operation := get 1 bytes.val 252
  reserved := getBytes bytes 253 3 (by decide)

def fromWire (bytes : Bytes headerSize) : Option Prepare :=
  if bytes.val.getD 114 0 ≠ Command.prepare.code then none else some (decode bytes)

end Prepare

def headerPrepareZeroed : Prepare where
  checksum := 0
  checksumPadding := 0
  checksumBody := 0
  checksumBodyPadding := 0
  nonceReserved := 0
  cluster := 0
  size := 0
  epoch := 0
  view := 0
  release := 0
  protocol := 0
  command := .reserved
  replica := 0
  reservedFrame := ⟨zeros 12, rfl⟩
  parent := 0
  parentPadding := 0
  requestChecksum := 0
  requestChecksumPadding := 0
  checkpointId := 0
  client := 0
  op := 0
  commit := 0
  timestamp := 0
  request := 0
  operation := 0
  reserved := ⟨zeros 3, rfl⟩

def checkpointStateSize : Nat := 1024

@[ext]
structure CheckpointState where
  header : Prepare
  freeSetBlocksAcquiredLastBlockChecksum : U128
  freeSetBlocksAcquiredLastBlockChecksumPadding : U128
  freeSetBlocksReleasedLastBlockChecksum : U128
  freeSetBlocksReleasedLastBlockChecksumPadding : U128
  clientSessionsLastBlockChecksum : U128
  clientSessionsLastBlockChecksumPadding : U128
  manifestOldestChecksum : U128
  manifestOldestChecksumPadding : U128
  manifestNewestChecksum : U128
  manifestNewestChecksumPadding : U128
  snapshotsBlockChecksum : U128
  snapshotsBlockChecksumPadding : U128
  freeSetBlocksAcquiredChecksum : U128
  freeSetBlocksReleasedChecksum : U128
  clientSessionsChecksum : U128
  parentCheckpointId : U128
  grandparentCheckpointId : U128
  freeSetBlocksAcquiredLastBlockAddress : U64
  freeSetBlocksReleasedLastBlockAddress : U64
  clientSessionsLastBlockAddress : U64
  manifestOldestAddress : U64
  manifestNewestAddress : U64
  snapshotsBlockAddress : U64
  storageSize : U64
  freeSetBlocksAcquiredSize : U64
  freeSetBlocksReleasedSize : U64
  clientSessionsSize : U64
  manifestBlockCount : U32
  release : U32
  deriving DecidableEq

namespace CheckpointState

def offsetHeader : Nat := 0
def offsetAcquiredLbChecksum : Nat := 256
def offsetAcquiredLbChecksumPadding : Nat := 272
def offsetReleasedLbChecksum : Nat := 288
def offsetReleasedLbChecksumPadding : Nat := 304
def offsetClientSessionsLbChecksum : Nat := 320
def offsetClientSessionsLbChecksumPadding : Nat := 336
def offsetManifestOldestChecksum : Nat := 352
def offsetManifestOldestChecksumPadding : Nat := 368
def offsetManifestNewestChecksum : Nat := 384
def offsetManifestNewestChecksumPadding : Nat := 400
def offsetSnapshotsBlockChecksum : Nat := 416
def offsetSnapshotsBlockChecksumPadding : Nat := 432
def offsetFreeSetBlocksAcquiredChecksum : Nat := 448
def offsetFreeSetBlocksReleasedChecksum : Nat := 464
def offsetClientSessionsChecksum : Nat := 480
def offsetParentCheckpointId : Nat := 496
def offsetGrandparentCheckpointId : Nat := 512
def offsetAcquiredLbAddress : Nat := 528
def offsetReleasedLbAddress : Nat := 536
def offsetClientSessionsLbAddress : Nat := 544
def offsetManifestOldestAddress : Nat := 552
def offsetManifestNewestAddress : Nat := 560
def offsetSnapshotsBlockAddress : Nat := 568
def offsetStorageSize : Nat := 576
def offsetAcquiredSize : Nat := 584
def offsetReleasedSize : Nat := 592
def offsetClientSessionsSize : Nat := 600
def offsetManifestBlockCount : Nat := 608
def offsetRelease : Nat := 612
def offsetReserved : Nat := 616

def toWire (state : CheckpointState) : List UInt8 :=
  putAll (zeros checkpointStateSize) [
    (offsetHeader, state.header.toWire),
    (offsetAcquiredLbChecksum, le state.freeSetBlocksAcquiredLastBlockChecksum),
    (offsetAcquiredLbChecksumPadding, le state.freeSetBlocksAcquiredLastBlockChecksumPadding),
    (offsetReleasedLbChecksum, le state.freeSetBlocksReleasedLastBlockChecksum),
    (offsetReleasedLbChecksumPadding, le state.freeSetBlocksReleasedLastBlockChecksumPadding),
    (offsetClientSessionsLbChecksum, le state.clientSessionsLastBlockChecksum),
    (offsetClientSessionsLbChecksumPadding, le state.clientSessionsLastBlockChecksumPadding),
    (offsetManifestOldestChecksum, le state.manifestOldestChecksum),
    (offsetManifestOldestChecksumPadding, le state.manifestOldestChecksumPadding),
    (offsetManifestNewestChecksum, le state.manifestNewestChecksum),
    (offsetManifestNewestChecksumPadding, le state.manifestNewestChecksumPadding),
    (offsetSnapshotsBlockChecksum, le state.snapshotsBlockChecksum),
    (offsetSnapshotsBlockChecksumPadding, le state.snapshotsBlockChecksumPadding),
    (offsetFreeSetBlocksAcquiredChecksum, le state.freeSetBlocksAcquiredChecksum),
    (offsetFreeSetBlocksReleasedChecksum, le state.freeSetBlocksReleasedChecksum),
    (offsetClientSessionsChecksum, le state.clientSessionsChecksum),
    (offsetParentCheckpointId, le state.parentCheckpointId),
    (offsetGrandparentCheckpointId, le state.grandparentCheckpointId),
    (offsetAcquiredLbAddress, le state.freeSetBlocksAcquiredLastBlockAddress),
    (offsetReleasedLbAddress, le state.freeSetBlocksReleasedLastBlockAddress),
    (offsetClientSessionsLbAddress, le state.clientSessionsLastBlockAddress),
    (offsetManifestOldestAddress, le state.manifestOldestAddress),
    (offsetManifestNewestAddress, le state.manifestNewestAddress),
    (offsetSnapshotsBlockAddress, le state.snapshotsBlockAddress),
    (offsetStorageSize, le state.storageSize),
    (offsetAcquiredSize, le state.freeSetBlocksAcquiredSize),
    (offsetReleasedSize, le state.freeSetBlocksReleasedSize),
    (offsetClientSessionsSize, le state.clientSessionsSize),
    (offsetManifestBlockCount, le state.manifestBlockCount),
    (offsetRelease, le state.release)]

-- What is not the header of a prepare is decoded as a zeroed one.
def decode (bytes : Bytes checkpointStateSize) : CheckpointState where
  header := (Prepare.fromWire
    (getBytes bytes offsetHeader headerSize (by decide))).getD headerPrepareZeroed
  freeSetBlocksAcquiredLastBlockChecksum := get 16 bytes.val offsetAcquiredLbChecksum
  freeSetBlocksAcquiredLastBlockChecksumPadding := get 16 bytes.val offsetAcquiredLbChecksumPadding
  freeSetBlocksReleasedLastBlockChecksum := get 16 bytes.val offsetReleasedLbChecksum
  freeSetBlocksReleasedLastBlockChecksumPadding := get 16 bytes.val offsetReleasedLbChecksumPadding
  clientSessionsLastBlockChecksum := get 16 bytes.val offsetClientSessionsLbChecksum
  clientSessionsLastBlockChecksumPadding := get 16 bytes.val offsetClientSessionsLbChecksumPadding
  manifestOldestChecksum := get 16 bytes.val offsetManifestOldestChecksum
  manifestOldestChecksumPadding := get 16 bytes.val offsetManifestOldestChecksumPadding
  manifestNewestChecksum := get 16 bytes.val offsetManifestNewestChecksum
  manifestNewestChecksumPadding := get 16 bytes.val offsetManifestNewestChecksumPadding
  snapshotsBlockChecksum := get 16 bytes.val offsetSnapshotsBlockChecksum
  snapshotsBlockChecksumPadding := get 16 bytes.val offsetSnapshotsBlockChecksumPadding
  freeSetBlocksAcquiredChecksum := get 16 bytes.val offsetFreeSetBlocksAcquiredChecksum
  freeSetBlocksReleasedChecksum := get 16 bytes.val offsetFreeSetBlocksReleasedChecksum
  clientSessionsChecksum := get 16 bytes.val offsetClientSessionsChecksum
  parentCheckpointId := get 16 bytes.val offsetParentCheckpointId
  grandparentCheckpointId := get 16 bytes.val offsetGrandparentCheckpointId
  freeSetBlocksAcquiredLastBlockAddress := get 8 bytes.val offsetAcquiredLbAddress
  freeSetBlocksReleasedLastBlockAddress := get 8 bytes.val offsetReleasedLbAddress
  clientSessionsLastBlockAddress := get 8 bytes.val offsetClientSessionsLbAddress
  manifestOldestAddress := get 8 bytes.val offsetManifestOldestAddress
  manifestNewestAddress := get 8 bytes.val offsetManifestNewestAddress
  snapshotsBlockAddress := get 8 bytes.val offsetSnapshotsBlockAddress
  storageSize := get 8 bytes.val offsetStorageSize
  freeSetBlocksAcquiredSize := get 8 bytes.val offsetAcquiredSize
  freeSetBlocksReleasedSize := get 8 bytes.val offsetReleasedSize
  clientSessionsSize := get 8 bytes.val offsetClientSessionsSize
  manifestBlockCount := get 4 bytes.val offsetManifestBlockCount
  release := get 4 bytes.val offsetRelease

def fromWire (bytes : Bytes checkpointStateSize) : Result CheckpointState := do
  assert (zeroed (bytes.val.drop offsetReserved)) "zeroed(bytes[OFFSET_RESERVED..])"
  [offsetAcquiredLbChecksumPadding, offsetReleasedLbChecksumPadding,
    offsetClientSessionsLbChecksumPadding, offsetManifestOldestChecksumPadding,
    offsetManifestNewestChecksumPadding, offsetSnapshotsBlockChecksumPadding].forM fun offset =>
      assert (get 16 bytes.val offset = 0) "checksum padding != 0"
  return decode bytes

end CheckpointState

def membersMax : Nat := replicasMax + standbysMax

@[ext]
structure VSRState where
  checkpoint : CheckpointState
  replicaId : U128
  members : Fin membersMax → U128
  commitMax : U64
  syncOpMin : U64
  syncOpMax : U64
  syncView : U32
  logView : U32
  view : U32
  replicaCount : U8

namespace VSRState

def size : Nat := 2048

def offsetCheckpoint : Nat := 0
def offsetReplicaId : Nat := 1024
def offsetMembers : Nat := 1040
def offsetCommitMax : Nat := 1232
def offsetSyncOpMin : Nat := 1240
def offsetSyncOpMax : Nat := 1248
def offsetSyncView : Nat := 1256
def offsetLogView : Nat := 1260
def offsetView : Nat := 1264
def offsetReplicaCount : Nat := 1268
def offsetReserved : Nat := 1269
def reservedLen : Nat := size - offsetReserved

def toWire (state : VSRState) : List UInt8 :=
  putAll (zeros size) ([
    (offsetCheckpoint, state.checkpoint.toWire),
    (offsetReplicaId, le state.replicaId)] ++
    List.ofFn (fun i => (offsetMembers + i.val * 16, le (state.members i))) ++ [
    (offsetCommitMax, le state.commitMax),
    (offsetSyncOpMin, le state.syncOpMin),
    (offsetSyncOpMax, le state.syncOpMax),
    (offsetSyncView, le state.syncView),
    (offsetLogView, le state.logView),
    (offsetView, le state.view),
    (offsetReplicaCount, le state.replicaCount)])

def decode (bytes : Bytes size) (checkpoint : CheckpointState) : VSRState where
  checkpoint := checkpoint
  replicaId := get 16 bytes.val offsetReplicaId
  members := fun i => get 16 bytes.val (offsetMembers + i.val * 16)
  commitMax := get 8 bytes.val offsetCommitMax
  syncOpMin := get 8 bytes.val offsetSyncOpMin
  syncOpMax := get 8 bytes.val offsetSyncOpMax
  syncView := get 4 bytes.val offsetSyncView
  logView := get 4 bytes.val offsetLogView
  view := get 4 bytes.val offsetView
  replicaCount := get 1 bytes.val offsetReplicaCount

def fromWire (bytes : Bytes size) : Result VSRState := do
  assert (zeroed (slice bytes.val offsetReserved reservedLen))
    "zeroed(bytes[OFFSET_RESERVED..OFFSET_RESERVED + RESERVED_LEN])"
  let checkpoint ← CheckpointState.fromWire
    (getBytes bytes offsetCheckpoint checkpointStateSize (by decide))
  return decode bytes checkpoint

end VSRState

def viewHeadersReservedSize : Nat := sectorSize - (viewHeadersMax * headerSize) % sectorSize

def superblockHeaderSize : Nat := sectorSize + viewHeadersMax * headerSize + viewHeadersReservedSize

-- The headers of a view change are kept as they are encoded.
@[ext]
structure SuperBlockHeader where
  checksum : U128
  checksumPadding : U128
  copy : U16
  version : U16
  releaseFormat : U32
  sequence : U64
  cluster : U128
  parent : U128
  parentPadding : U128
  vsrState : VSRState
  flags : U64
  viewHeadersCount : U32
  viewHeadersAll : Fin viewHeadersMax → Bytes headerSize

namespace SuperBlockHeader

def offsetChecksum : Nat := 0
def offsetChecksumPadding : Nat := 16
def offsetCopy : Nat := 32
def offsetVersion : Nat := 34
def offsetReleaseFormat : Nat := 36
def offsetSequence : Nat := 40
def offsetCluster : Nat := 48
def offsetParent : Nat := 64
def offsetParentPadding : Nat := 80
def offsetVsrState : Nat := 96
def offsetFlags : Nat := 2144
def offsetViewHeadersCount : Nat := 2152
def offsetReserved : Nat := 2156
def reservedLen : Nat := sectorSize - offsetReserved
def offsetViewHeadersAll : Nat := sectorSize
def offsetViewHeadersReserved : Nat := offsetViewHeadersAll + viewHeadersMax * headerSize
def checksumIgnoreSize : Nat := 16 + 16 + 2

def toWire (header : SuperBlockHeader) : Result (List UInt8) := do
  assert (header.viewHeadersCount.toNat ≤ viewHeadersMax) "self.view_headers_count <= VIEW_HEADERS_MAX"
  assert (∀ i : Fin viewHeadersMax, header.viewHeadersCount.toNat ≤ i.val →
    (header.viewHeadersAll i).val = zeros headerSize) "unoccupied view header is not zeroed"
  return putAll (zeros superblockHeaderSize) ([
    (offsetChecksum, le header.checksum),
    (offsetChecksumPadding, le header.checksumPadding),
    (offsetCopy, le header.copy),
    (offsetVersion, le header.version),
    (offsetReleaseFormat, le header.releaseFormat),
    (offsetSequence, le header.sequence),
    (offsetCluster, le header.cluster),
    (offsetParent, le header.parent),
    (offsetParentPadding, le header.parentPadding),
    (offsetVsrState, header.vsrState.toWire),
    (offsetFlags, le header.flags),
    (offsetViewHeadersCount, le header.viewHeadersCount)] ++
    List.ofFn fun i => (offsetViewHeadersAll + i.val * headerSize, (header.viewHeadersAll i).val))

theorem viewHeader_le (i : Fin viewHeadersMax) :
    offsetViewHeadersAll + i.val * headerSize + headerSize ≤ superblockHeaderSize := by
  revert i
  decide

def decode (bytes : Bytes superblockHeaderSize) (vsrState : VSRState) : SuperBlockHeader where
  checksum := get 16 bytes.val offsetChecksum
  checksumPadding := get 16 bytes.val offsetChecksumPadding
  copy := get 2 bytes.val offsetCopy
  version := get 2 bytes.val offsetVersion
  releaseFormat := get 4 bytes.val offsetReleaseFormat
  sequence := get 8 bytes.val offsetSequence
  cluster := get 16 bytes.val offsetCluster
  parent := get 16 bytes.val offsetParent
  parentPadding := get 16 bytes.val offsetParentPadding
  vsrState := vsrState
  flags := get 8 bytes.val offsetFlags
  viewHeadersCount := get 4 bytes.val offsetViewHeadersCount
  viewHeadersAll := fun i =>
    getBytes bytes (offsetViewHeadersAll + i.val * headerSize) headerSize (viewHeader_le i)

def fromWire (bytes : Bytes superblockHeaderSize) : Result (Option SuperBlockHeader) := do
  assert (zeroed (slice bytes.val offsetReserved reservedLen))
    "zeroed(bytes[OFFSET_RESERVED..OFFSET_RESERVED + RESERVED_LEN])"
  assert (zeroed (bytes.val.drop offsetViewHeadersReserved))
    "zeroed(bytes[OFFSET_VIEW_HEADERS_RESERVED..])"
  let vsrState ← VSRState.fromWire (getBytes bytes offsetVsrState VSRState.size (by decide))
  return some (decode bytes vsrState)

-- What the checksum is computed of.
def checksumInput (header : SuperBlockHeader) : Result (List UInt8) := do
  return (← header.toWire).drop checksumIgnoreSize

def calculateChecksum [Checksum] (header : SuperBlockHeader) : Result Nat := do
  return Checksum.checksum (← header.checksumInput)

end SuperBlockHeader

end TigerBeetle.Wire
