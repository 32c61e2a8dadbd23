import TigerBeetle.FreeSet
import TigerBeetle.Superblock.Header

-- The trailers that a checkpoint of the grid writes, and from which its free set is opened again.
namespace TigerBeetle.GridTrailer

open Ewah (Byte wordBytes)

open Superblock (dataFileSizeMin)

def chunkSizeMax : Nat :=
  blockSize - headerSize

def blockCountForTrailerSize (trailerSize : Nat) : Nat :=
  (trailerSize + (chunkSizeMax - 1)) / chunkSizeMax

-- All chunks but the last one are full.
def chunkSize (blockIndex blockCount trailerSize : Nat) : Nat :=
  if blockIndex = blockCount - 1 then trailerSize - (blockCount - 1) * chunkSizeMax else chunkSizeMax

def chunkBodies (bytes : List Byte) (trailerSize : Nat) : List (List Byte) :=
  let blockCount := blockCountForTrailerSize trailerSize
  (List.range blockCount).map fun i =>
    (bytes.drop (i * chunkSizeMax)).take (chunkSize i blockCount trailerSize)

-- A block of a trailer, which refers to the one before it.
structure Block where
  address : Nat
  previousTrailerBlockAddress : Nat
  previousTrailerBlockChecksum : Nat
  body : List Byte
  deriving DecidableEq

-- The checksums of blocks and of whole trailers.
class Checksums where
  block : Block → Nat
  body : List Byte → Nat

structure TrailerReference where
  checksum : Nat
  lastBlockAddress : Nat
  lastBlockChecksum : Nat
  trailerSize : Nat
  deriving DecidableEq

structure GridOpenReferences where
  blocksAcquired : TrailerReference
  blocksReleased : TrailerReference
  deriving DecidableEq

-- Of the addresses and checksums, those of the blocks that are used.
structure CheckpointTrailer where
  size : Nat
  checksum : Nat
  blockIndex : Nat
  addresses : List Nat
  checksums : List Nat
  deriving DecidableEq

-- The blocks that were written are found under their addresses.
structure Grid (shards : Nat) where
  freeSet : FreeSet shards
  freeSetCheckpointBlocksAcquired : CheckpointTrailer
  freeSetCheckpointBlocksReleased : CheckpointTrailer
  storage : Nat → Option Block

def CheckpointTrailer.new : CheckpointTrailer where
  size := 0
  checksum := 0
  blockIndex := 0
  addresses := []
  checksums := []

def CheckpointTrailer.checkpointDone (trailer : CheckpointTrailer) : Result Unit :=
  assert (trailer.blockIndex = blockCountForTrailerSize trailer.size)
    "trailer.block_index == trailer.block_count()"

def tooLarge : Fault :=
  .panic .general "data file would become too large"

variable [Checksums]

def TrailerReference.empty (reference : TrailerReference) : Result Bool :=
  if reference.trailerSize = 0 then do
    assert (reference.checksum = Checksums.body []) "self.checksum == checksum_body_empty()"
    assert (reference.lastBlockAddress = 0) "self.last_block_address == 0"
    assert (reference.lastBlockChecksum = 0) "self.last_block_checksum == 0"
    return true
  else do
    assert (0 < reference.lastBlockAddress) "self.last_block_address > 0"
    return false

def TrailerReference.none : TrailerReference where
  checksum := Checksums.body []
  lastBlockAddress := 0
  lastBlockChecksum := 0
  trailerSize := 0

def CheckpointTrailer.checkpointReference (trailer : CheckpointTrailer) : Result TrailerReference := do
  let reference : TrailerReference :=
    if trailer.size = 0 then
      .none
    else {
      checksum := trailer.checksum
      lastBlockAddress := trailer.addresses.getLastD 0
      lastBlockChecksum := trailer.checksums.getLastD 0
      trailerSize := trailer.size
    }
  assert ((← reference.empty) = decide (trailer.size = 0)) "reference.empty() == (self.size == 0)"
  return reference

namespace Grid

variable {shards : Nat} (grid : Grid shards)

-- Writes the chunks to blocks of the reservation, after the block that is referred to first.
def createBlocks (reservation : Reservation) : (grid : Grid shards) →
    (previousAddress previousChecksum : Nat) → List (List Byte) →
    Result (List (Nat × Nat) × Grid shards)
  | grid, _, _, [] => return ([], grid)
  | grid, previousAddress, previousChecksum, body :: bodies => do
    let (found, freeSet) ← grid.freeSet.acquire reservation
    match found with
    | none => abort "grid.acquire(): reservation exhausted"
    | some address => do
      let block := {
        address
        previousTrailerBlockAddress := previousAddress
        previousTrailerBlockChecksum := previousChecksum
        body
      }
      assert (← freeSet.blocksAcquired.get (address - 1)) "!self.free_set.is_free(address)"
      let (references, grid) ← createBlocks reservation
        { grid with freeSet, storage := Function.update grid.storage address (some block) }
        address (Checksums.block block) bodies
      return ((address, Checksums.block block) :: references, grid)

-- Writes what the target chunks hold, as far as they are encoded.
def trailerCheckpoint (trailer : CheckpointTrailer) (bytes : List Byte) (size : Nat) :
    Result (CheckpointTrailer × Grid shards) := do
  assert (size % wordBytes = 0) "size % item_size == 0"
  if size = 0 then do
    let trailer := { trailer with size, addresses := [], checksums := [] }
    trailer.checkpointDone
    return (trailer, grid)
  else do
    let bodies := chunkBodies bytes size
    match ← grid.freeSet.reserve bodies.length with
    | (none, _) => .error tooLarge
    | (some reservation, freeSet) => do
      let (references, grid) ← createBlocks reservation { grid with freeSet } 0 0 bodies
      let freeSet ← grid.freeSet.forfeit reservation
      let trailer := {
        size
        checksum := Checksums.body bodies.flatten
        blockIndex := bodies.length
        addresses := references.map (·.1)
        checksums := references.map (·.2)
      }
      trailer.checkpointDone
      return (trailer, { grid with freeSet })

-- The sizes of the bodies of the blocks that are kept for a trailer.
def trailerSizes : List Nat :=
  List.replicate (blockCountForTrailerSize grid.freeSet.encodeSizeMax) chunkSizeMax

-- The free set is encoded before the blocks of the trailers are acquired.
def checkpoint : Result (Grid shards) := do
  assert (grid.freeSet.reservationCount = 0) "self.free_set.count_reservations() == 0"
  let (acquired, released) ← grid.freeSet.encodeChunks grid.trailerSizes grid.trailerSizes
  let (blocksAcquired, grid) ← grid.trailerCheckpoint grid.freeSetCheckpointBlocksAcquired
    acquired.1 acquired.2
  let (blocksReleased, grid) ← grid.trailerCheckpoint grid.freeSetCheckpointBlocksReleased
    released.1 released.2
  return { grid with
    freeSetCheckpointBlocksAcquired := blocksAcquired
    freeSetCheckpointBlocksReleased := blocksReleased }

def freeSetCheckpointReferences : Result GridOpenReferences := do
  return {
    blocksAcquired := ← grid.freeSetCheckpointBlocksAcquired.checkpointReference
    blocksReleased := ← grid.freeSetCheckpointBlocksReleased.checkpointReference
  }

def release : (addresses : List Nat) → FreeSet shards → Result (FreeSet shards)
  | [], freeSet => return freeSet
  | address :: addresses, freeSet => do release addresses (← freeSet.release address)

-- The blocks of the trailers are released until the next checkpoint.
def markCheckpointNotDurable : Result (Grid shards) := do
  let freeSet ← grid.freeSet.markCheckpointNotDurable
  let freeSet ← release (grid.freeSetCheckpointBlocksAcquired.addresses ++
    grid.freeSetCheckpointBlocksReleased.addresses) freeSet
  return { grid with freeSet }

-- Follows the references of a trailer from its last block on. Returns them and the chunks.
def trailerOpenReadNext (storage : Nat → Option Block) (blockCount trailerSize : Nat) :
    (blockIndex address checksum : Nat) → (later : List Nat) →
    Result (List (Nat × Nat) × List (List Byte))
  | 0, _, _, _ => abort "attempt to subtract with overflow"
  | index + 1, address, checksum, later => do
    assert (0 < address) "address > 0"
    assert (checksum ≠ 0) "checksum != 0"
    assert (address ∉ later) "other != address"
    match (storage address).filter fun block => Checksums.block block = checksum with
    | none => abort "the block has to be repaired first"
    | some block => do
      let chunk := block.body.take (chunkSize index blockCount trailerSize)
      if block.previousTrailerBlockAddress = 0 then do
        assert (block.previousTrailerBlockChecksum = 0)
          "metadata.previous_trailer_block_checksum == 0"
        assert (index = 0) "index == 0"
        return ([(address, checksum)], [chunk])
      else do
        assert (0 < index) "index > 0"
        let (references, chunks) ← trailerOpenReadNext storage blockCount trailerSize index
          block.previousTrailerBlockAddress block.previousTrailerBlockChecksum (address :: later)
        return (references ++ [(address, checksum)], chunks ++ [chunk])

def trailerOpen (storage : Nat → Option Block) (blockCountMax : Nat) (reference : TrailerReference) :
    Result (CheckpointTrailer × List (List Byte)) := do
  let blockCount := blockCountForTrailerSize reference.trailerSize
  assert (reference.trailerSize % wordBytes = 0) "reference.trailer_size % item_size == 0"
  assert (blockCount ≤ blockCountMax) "block_count <= trailer.block_count_max()"
  let (references, chunks) ←
    if reference.trailerSize = 0 then do
      assert (reference.lastBlockAddress = 0) "address == 0"
      assert (reference.lastBlockChecksum = 0) "checksum == 0"
      pure ([], [])
    else
      trailerOpenReadNext storage blockCount reference.trailerSize blockCount
        reference.lastBlockAddress reference.lastBlockChecksum []
  assert (Checksums.body chunks.flatten = reference.checksum) "trailer checksum mismatch"
  return ({
      size := reference.trailerSize
      checksum := reference.checksum
      blockIndex := 0
      addresses := references.map (·.1)
      checksums := references.map (·.2)
    }, chunks)

-- The size of the data file is checked against the blocks of the trailers.
def checkStorageSize (storageSize : Nat) (addresses : List Nat) : Result Unit :=
  let highestAddress := addresses.foldr max 0
  if storageSize = 0 then do
    assert (addresses.length = 0) "count_acquired == 0 && count_released == 0"
    assert (highestAddress = 0) "highest_address == 0"
  else
    assert (dataFileSizeMin + highestAddress * blockSize = storageSize)
      "DATA_FILE_SIZE_MIN + highest_address * BLOCK_SIZE == view.storage_size"

-- A grid after a restart, whose free set is not open yet.
def «open» (freeSet : FreeSet shards) (storage : Nat → Option Block) (storageSize : Nat)
    (references : GridOpenReferences) : Result (Grid shards) := do
  assert (!freeSet.opened) "!self.free_set.opened()"
  assert (!freeSet.checkpointDurable) "!self.free_set.checkpoint_durable()"
  let blockCountMax := blockCountForTrailerSize freeSet.encodeSizeMax
  let (acquired, chunksAcquired) ← trailerOpen storage blockCountMax references.blocksAcquired
  let (released, chunksReleased) ← trailerOpen storage blockCountMax references.blocksReleased
  let freeSet ← freeSet.open chunksAcquired chunksReleased acquired.addresses released.addresses
  checkStorageSize storageSize (acquired.addresses ++ released.addresses)
  assert (freeSet.reservationCount = 0) "self.free_set.count_reservations() == 0"
  assert (acquired.addresses.length ≤ freeSet.blocksAcquired.count)
    "self.free_set.count_acquired() >= count_acquired"
  assert (acquired.addresses.length + released.addresses.length ≤ freeSet.blocksReleased.count +
      freeSet.blocksReleasedPriorCheckpointDurability.keys.length)
    "self.free_set.count_released() >= count_acquired + count_released"
  return {
    freeSet
    freeSetCheckpointBlocksAcquired := acquired
    freeSetCheckpointBlocksReleased := released
    storage
  }

-- A grid that is not open yet has a free set for so many blocks.
def freeSetFor (capacityBlocks : Nat) : FreeSet (FreeSet.shardsFor (capacityBlocks * blockSize)) :=
  .new (capacityBlocks * blockSize) (FreeSet.blockCountMax (capacityBlocks * blockSize))

end Grid

-- The address of the highest acquired block, or zero if all blocks are free.
def highestAddressAcquired {shards : Nat} (freeSet : FreeSet shards) : Nat :=
  (freeSet.blocksAcquired.iterSet.getLast?.map (· + 1)).getD 0

def storageSizeFor {shards : Nat} (freeSet : FreeSet shards) : Nat :=
  dataFileSizeMin + highestAddressAcquired freeSet * blockSize

section Runs

inductive Event
  | operation (operation : FreeSet.Operation)
  | checkpoint
  | markCheckpointNotDurable
  | restart (capacityBlocks storageSize : Nat)
  deriving DecidableEq, Repr

-- A restart opens what a checkpoint has written.
def step : (Σ shards, Grid shards) → Event → Result (Σ shards, Grid shards)
  | ⟨_, grid⟩, .operation operation => do
    return ⟨_, { grid with freeSet := ← grid.freeSet.step operation }⟩
  | ⟨_, grid⟩, .checkpoint => return ⟨_, ← grid.checkpoint⟩
  | ⟨_, grid⟩, .markCheckpointNotDurable => return ⟨_, ← grid.markCheckpointNotDurable⟩
  | ⟨_, grid⟩, .restart capacityBlocks storageSize => do
    let grid ← grid.checkpoint
    let references ← grid.freeSetCheckpointReferences
    return ⟨_, ← Grid.open (Grid.freeSetFor capacityBlocks) grid.storage storageSize references⟩

-- The free set is marked together with the trailers of its grid.
def Event.Proper : Event → Prop
  | .operation call => call ≠ .markCheckpointNotDurable
  | .restart capacityBlocks _ => 0 < capacityBlocks
  | _ => True

-- Without a checkpoint, a grid is opened from empty trailers.
def machine : Machine (Σ shards, Grid shards) Event Fault where
  init s := ∃ capacityBlocks storage storageSize grid, 0 < capacityBlocks ∧
    Grid.open (Grid.freeSetFor capacityBlocks) storage storageSize ⟨.none, .none⟩ = .ok grid ∧
    s = ⟨_, grid⟩
  step := step

end Runs

end TigerBeetle.GridTrailer
