import TigerBeetle.DynamicBitSet
import TigerBeetle.Machine

namespace TigerBeetle

open Ewah (Byte Decoder Encoder wordBytes)

-- A range of blocks, both free and acquired.
structure Reservation where
  blockBase : Nat
  blockCount : Nat
  session : Nat
  deriving DecidableEq, Repr

def shardCacheLines : Nat := 8

-- Blocks per shard.
@[irreducible]
def shardBits : Nat := shardCacheLines * cacheLineSize * 8

-- Blocks that are released before the current checkpoint is durable.
structure ReleasedPriorCheckpointDurability where
  keys : List Nat
  capacity : Nat
  deriving DecidableEq, Repr

namespace ReleasedPriorCheckpointDurability

variable (released : ReleasedPriorCheckpointDurability)

def contains (key : Nat) : Bool :=
  key ∈ released.keys

def putAssumeCapacity (key : Nat) : Result ReleasedPriorCheckpointDurability := do
  assert (!released.contains key) "!self.contains(key)"
  assert (released.keys.length < released.capacity) "self.keys.len() < self.capacity"
  return { released with keys := released.keys ++ [key] }

end ReleasedPriorCheckpointDurability

inductive ReservationState
  | reserving
  | forfeiting
  deriving DecidableEq, Repr

def usizeModulus : Nat := 2 ^ 64

-- The blocks of a grid, in shards. Block `i` has the address `i + 1`.
structure FreeSet (shards : Nat) where
  opened : Bool
  checkpointDurable : Bool
  index : DynamicBitSet shards
  blocksCountLimit : Nat
  blocksAcquired : DynamicBitSet (shards * shardBits)
  blocksReleased : DynamicBitSet (shards * shardBits)
  blocksReleasedPriorCheckpointDurability : ReleasedPriorCheckpointDurability
  reservationBlocks : Nat
  reservationCount : Nat
  reservationState : ReservationState
  reservationSession : Nat

namespace FreeSet

def checkpointTrailerBlockCountForTrailerSize (trailerSize : Nat) : Nat :=
  (trailerSize + (blockSize - 1)) / blockSize

-- The number of shards that cover the blocks of a grid.
def shardsFor (gridSizeLimit : Nat) : Nat :=
  (gridSizeLimit / blockSize + (shardBits - 1)) / shardBits

def blockCountMax (gridSizeLimit : Nat) : Nat :=
  shardsFor gridSizeLimit * shardBits

def new (gridSizeLimit blocksReleasedPriorCheckpointDurabilityMax : Nat) :
    FreeSet (shardsFor gridSizeLimit) where
  opened := false
  checkpointDurable := false
  index := .newEmpty
  blocksCountLimit := gridSizeLimit / blockSize
  blocksAcquired := .newEmpty
  blocksReleased := .newEmpty
  blocksReleasedPriorCheckpointDurability :=
    { keys := []
      capacity := blocksReleasedPriorCheckpointDurabilityMax +
        2 * checkpointTrailerBlockCountForTrailerSize
          (Ewah.encodeSizeMax (blockCountMax gridSizeLimit / wordBits)) }
  reservationBlocks := 0
  reservationCount := 0
  reservationState := .reserving
  reservationSession := 1

variable {shards : Nat} (set : FreeSet shards)

def findFreeBlockInShard (shard : Nat) : Result (Option Nat) := do
  let shardStart := shard * shardBits
  assert (shardStart < shards * shardBits) "shard_start < self.blocks_acquired.len()"
  set.blocksAcquired.findBit shardStart (shardStart + shardBits) .unset

-- Updates the index when every block in the shard is acquired.
def updateIndex (shard : Nat) : Result (FreeSet shards) := do
  if (← set.findFreeBlockInShard shard).isNone then
    return { set with index := ← set.index.set shard }
  else
    return set

def verifyMessage : String :=
  "self.find_free_block_in_shard(shard).is_none() == self.index.get(shard)"

def verifyShard (shard : Nat) : Result Unit := do
  let block ← set.findFreeBlockInShard shard
  let bit ← set.index.get shard
  assert (block.isNone = bit) verifyMessage

def verifyIndex : Result Unit :=
  (List.range shards).forM set.verifyShard

def reserveFrom (blocksAcquired : DynamicBitSet (shards * shardBits)) (blocksCountLimit : Nat) :
    (count block : Nat) → Result (Option Nat)
  | 0, block => return some block
  | count + 1, block => do
    match ← blocksAcquired.findBit block (shards * shardBits) .unset with
    | none => return none
    | some free =>
      -- The block may be past the number of blocks that may be acquired.
      if blocksCountLimit < free + 1 then
        return none
      else
        reserveFrom blocksAcquired blocksCountLimit count (free + 1)

def reserve (reserveCount : Nat) : Result (Option Reservation × FreeSet shards) := do
  assert set.opened "self.opened"
  assert (set.reservationState = .reserving)
    "self.reservation_state == ReservationState::Reserving"
  assert (0 < reserveCount) "reserve_count > 0"
  match ← set.index.findBit (set.reservationBlocks / shardBits) shards .unset with
  | none => return (none, set)
  | some shardStart =>
    match ← reserveFrom set.blocksAcquired set.blocksCountLimit reserveCount
        (max (shardStart * shardBits) set.reservationBlocks) with
    | none => return (none, set)
    | some block =>
      let blockCount := block - set.reservationBlocks
      return (some
          { blockBase := set.reservationBlocks
            blockCount
            session := set.reservationSession },
        { set with
          reservationBlocks := set.reservationBlocks + blockCount
          reservationCount := set.reservationCount + 1 })

def forfeit (reservation : Reservation) : Result (FreeSet shards) := do
  assert set.opened "self.opened"
  assert (set.reservationSession = reservation.session)
    "self.reservation_session == reservation.session"
  assert (0 < set.reservationCount) "attempt to subtract with overflow"
  if set.reservationCount = 1 then
    return { set with
      reservationCount := 0
      reservationBlocks := 0
      reservationSession := (set.reservationSession + 1) % usizeModulus
      reservationState := .reserving }
  else
    return { set with
      reservationCount := set.reservationCount - 1
      reservationState := .forfeiting }

-- Returns the address of the block, if the reservation has a free one.
def acquire (reservation : Reservation) : Result (Option Nat × FreeSet shards) := do
  assert set.opened "self.opened"
  assert (0 < set.reservationCount) "self.reservation_count > 0"
  assert (0 < reservation.blockCount) "reservation.block_count > 0"
  assert (reservation.blockBase < set.reservationBlocks)
    "reservation.block_base < self.reservation_blocks"
  assert (reservation.blockBase + reservation.blockCount ≤ set.reservationBlocks)
    "reservation.block_base + reservation.block_count <= self.reservation_blocks"
  assert (reservation.session = set.reservationSession)
    "reservation.session == self.reservation_session"
  let reservationEnd := reservation.blockBase + reservation.blockCount
  match ← set.index.findBit (reservation.blockBase / shardBits)
      ((reservationEnd + (shardBits - 1)) / shardBits) .unset with
  | none => return (none, set)
  | some shardStart =>
    assert (!(← set.index.get shardStart)) "!self.index.get(shard_start)"
    let reservationStart := max (shardStart * shardBits) reservation.blockBase
    match ← set.blocksAcquired.findBit reservationStart reservationEnd .unset with
    | none => return (none, set)
    | some block =>
      assert (reservation.blockBase ≤ block) "block >= reservation.block_base"
      assert (block ≤ reservationEnd) "block <= reservation.block_base + reservation.block_count"
      assert (!(← set.blocksAcquired.get block)) "!self.blocks_acquired.get(block)"
      assert (!(← set.blocksReleased.get block)) "!self.blocks_released.get(block)"
      assert (!set.blocksReleasedPriorCheckpointDurability.contains block)
        "!self.blocks_released_prior_checkpoint_durability.contains(block as u64)"
      let shard := block / shardBits
      assert (shardStart ≤ shard) "shard >= shard_start"
      let set := { set with blocksAcquired := ← set.blocksAcquired.set block }
      return (some (block + 1), ← set.updateIndex shard)

def blockOf (address : Nat) : Result Nat := do
  assert (0 < address) "attempt to subtract with overflow"
  return address - 1

-- The block stays acquired until the next checkpoint becomes durable.
def release (address : Nat) : Result (FreeSet shards) := do
  assert set.opened "self.opened"
  let block ← blockOf address
  assert (← set.blocksAcquired.get block) "self.blocks_acquired.get(block as usize)"
  assert (!(← set.blocksReleased.get block)) "!self.blocks_released.get(block as usize)"
  assert (!set.blocksReleasedPriorCheckpointDurability.contains block)
    "!self.blocks_released_prior_checkpoint_durability.contains(block)"
  if set.checkpointDurable then
    return { set with blocksReleased := ← set.blocksReleased.set block }
  else
    return { set with
      blocksReleasedPriorCheckpointDurability :=
        ← set.blocksReleasedPriorCheckpointDurability.putAssumeCapacity block }

-- Marks the blocks of the free set itself, which are not part of what is encoded.
def markReleasedFrom : (addressPrevious : Nat) → List Nat → FreeSet shards → Result (FreeSet shards)
  | _, [], set => return set
  | addressPrevious, address :: rest, set => do
    assert (0 < address) "*address > 0"
    assert (addressPrevious < address) "*address > address_previous"
    let block := address - 1
    assert (!(← set.blocksAcquired.get block)) "!self.blocks_acquired.get(block)"
    assert (!(← set.blocksReleased.get block)) "!self.blocks_released.get(block)"
    assert (!set.blocksReleasedPriorCheckpointDurability.contains block)
      "!self.blocks_released_prior_checkpoint_durability.contains(*address - 1)"
    let set := { set with blocksAcquired := ← set.blocksAcquired.set block }
    let set ← set.updateIndex (block / shardBits)
    let released ← set.blocksReleasedPriorCheckpointDurability.putAssumeCapacity block
    markReleasedFrom address rest { set with blocksReleasedPriorCheckpointDurability := released }

def markReleased (addresses : List Nat) : Result (FreeSet shards) := do
  assert (!set.opened) "!self.opened"
  assert (!set.checkpointDurable) "!self.checkpoint_durable"
  markReleasedFrom 0 addresses set

def free (address : Nat) : Result (FreeSet shards) := do
  assert set.opened "self.opened"
  assert set.checkpointDurable "self.checkpoint_durable"
  let block ← blockOf address
  assert (← set.blocksAcquired.get block) "self.blocks_acquired.get(block as usize)"
  assert (← set.blocksReleased.get block) "self.blocks_released.get(block as usize)"
  assert (!set.blocksReleasedPriorCheckpointDurability.contains block)
    "!self.blocks_released_prior_checkpoint_durability.contains(block)"
  assert (set.reservationCount = 0) "self.reservation_count == 0"
  assert (set.reservationBlocks = 0) "self.reservation_blocks == 0"
  return { set with
    index := ← set.index.unset (block / shardBits)
    blocksAcquired := ← set.blocksAcquired.unset block
    blocksReleased := ← set.blocksReleased.unset block }

def freeAll : (addresses : List Nat) → FreeSet shards → Result (FreeSet shards)
  | [], set => return set
  | address :: addresses, set => do freeAll addresses (← set.free address)

def markCheckpointNotDurable : Result (FreeSet shards) := do
  assert set.opened "self.opened"
  assert set.checkpointDurable "self.checkpoint_durable"
  assert (set.blocksReleasedPriorCheckpointDurability.keys.length = 0)
    "self.blocks_released_prior_checkpoint_durability.count() == 0"
  return { set with checkpointDurable := false }

def setAll (bits : DynamicBitSet (shards * shardBits)) :
    (blocks : List Nat) → Result (DynamicBitSet (shards * shardBits))
  | [] => return bits
  | block :: blocks => do setAll (← bits.set block) blocks

def markCheckpointDurable : Result (FreeSet shards) := do
  assert set.opened "self.opened"
  assert (!set.checkpointDurable) "!self.checkpoint_durable"
  let set := { set with checkpointDurable := true }
  let set ← freeAll (set.blocksReleased.iterSet.map (· + 1)) set
  assert (set.blocksReleased.count = 0) "self.blocks_released.count() == 0"
  -- The most recently released block is popped first.
  let keys := set.blocksReleasedPriorCheckpointDurability.keys
  let set := { set with
    blocksReleased := ← setAll set.blocksReleased keys.reverse
    blocksReleasedPriorCheckpointDurability :=
      { set.blocksReleasedPriorCheckpointDurability with keys := [] } }
  set.verifyIndex
  return set

-- Decodes the chunks into a bit set. What is not decoded must be zero already.
def decodeBits (bits : DynamicBitSet (shards * shardBits)) (sourceChunks : List (List Byte)) :
    Result (DynamicBitSet (shards * shardBits)) := do
  let sourceSize := (sourceChunks.map List.length).sum
  let (wordsDecoded, decoder) ← (Decoder.new bits.words sourceSize).decodeChunks sourceChunks
  assert (← decoder.done) "decoder.done()"
  assert (wordsDecoded * wordBits ≤ shards * shardBits) "words_decoded * WORD_BITS <= bitset_len"
  assert (∀ word ∈ decoder.targetWords.toList.drop wordsDecoded, word = 0)
    "words[words_decoded..].iter().all(|&word| word == 0)"
  return { words := decoder.targetWords }

def decode (sourceChunksBlocksAcquired sourceChunksBlocksReleased : List (List Byte)) :
    Result (FreeSet shards) := do
  assert (!set.opened) "!self.opened"
  assert (!set.checkpointDurable) "!self.checkpoint_durable"
  return { set with
    blocksAcquired := ← decodeBits set.blocksAcquired sourceChunksBlocksAcquired
    blocksReleased := ← decodeBits set.blocksReleased sourceChunksBlocksReleased }

-- The index is not rebuilt from what is decoded.
def «open» (encodedBlocksAcquired encodedBlocksReleased : List (List Byte))
    (freeSetBlockAddressesBlocksAcquired freeSetBlockAddressesBlocksReleased : List Nat) :
    Result (FreeSet shards) := do
  assert (!set.opened) "!self.opened"
  let encodedEmpty := encodedBlocksAcquired.isEmpty && encodedBlocksReleased.isEmpty
  let addressesEmpty := freeSetBlockAddressesBlocksAcquired.isEmpty &&
    freeSetBlockAddressesBlocksReleased.isEmpty
  assert (encodedEmpty = addressesEmpty) "encoded_empty == addresses_empty"
  let set ← set.decode encodedBlocksAcquired encodedBlocksReleased
  let set ← set.markReleased freeSetBlockAddressesBlocksAcquired
  let set ← set.markReleased freeSetBlockAddressesBlocksReleased
  return { set with opened := true }

def rebuildIndex : (shardList : List Nat) → FreeSet shards → Result (FreeSet shards)
  | [], set => return set
  | shard :: shardList, set => do rebuildIndex shardList (← set.updateIndex shard)

def decodeChunks (sourceChunksBlocksAcquired sourceChunksBlocksReleased : List (List Byte)) :
    Result (FreeSet shards) := do
  assert (!set.opened) "!self.opened"
  assert (!set.checkpointDurable) "!self.checkpoint_durable"
  assert (set.index.count = 0) "self.index.count() == 0"
  assert (set.blocksAcquired.count = 0) "self.blocks_acquired.count() == 0"
  assert (set.blocksReleased.count = 0) "self.blocks_released.count() == 0"
  assert (set.blocksReleasedPriorCheckpointDurability.keys.length = 0)
    "self.blocks_released_prior_checkpoint_durability.count() == 0"
  assert (set.reservationCount = 0) "self.reservation_count == 0"
  assert (set.reservationBlocks = 0) "self.reservation_blocks == 0"
  let set ← set.decode sourceChunksBlocksAcquired sourceChunksBlocksReleased
  let set ← rebuildIndex (List.range shards) set
  set.verifyIndex
  return set

-- Fills the target chunks until the encoder is done. Returns their contents, and how many bytes of
-- them are encoded.
def encodeInto (encoder : Encoder) : (sizes : List Nat) → Result (List Byte × Nat × Encoder)
  | [] => abort "target_chunks too small for encoding"
  | size :: sizes => do
    let (chunk, bytesEncoded, encoder) ← encoder.encodeChunk size
    assert (0 < bytesEncoded) "bytes_encoded > 0"
    if encoder.done then
      return (chunk, bytesEncoded, encoder)
    else
      let (chunks, bytesEncodedTotal, encoder) ← encodeInto encoder sizes
      return (chunk ++ chunks, bytesEncoded + bytesEncodedTotal, encoder)

-- Trailing zeros are not encoded, so that the encoding is the same whatever the capacity.
def encodeBits (bits : DynamicBitSet (shards * shardBits)) (sizes : List Nat) :
    Result (List Byte × Nat) := do
  let (chunks, bytesEncodedTotal, encoder) ← encodeInto (Encoder.new bits.words.toList) sizes
  let bytesTrailingZeroRuns := encoder.trailingZeroRunsCount * wordBytes
  assert (bytesTrailingZeroRuns ≤ bytesEncodedTotal) "attempt to subtract with overflow"
  return (chunks, bytesEncodedTotal - bytesTrailingZeroRuns)

def encodeSizeMax (_ : FreeSet shards) : Nat :=
  Ewah.encodeSizeMax (shards * shardBits / wordBits)

-- The target chunks are given by their sizes. Returns their contents and the encoded sizes, first
-- of the acquired blocks and then of the released ones.
def encodeChunks (sizesBlocksAcquired sizesBlocksReleased : List Nat) :
    Result ((List Byte × Nat) × (List Byte × Nat)) := do
  assert set.opened "self.opened"
  assert set.checkpointDurable "self.checkpoint_durable"
  assert (set.reservationCount = 0) "self.reservation_count == 0"
  assert (set.reservationBlocks = 0) "self.reservation_blocks == 0"
  return (← encodeBits set.blocksAcquired sizesBlocksAcquired,
    ← encodeBits set.blocksReleased sizesBlocksReleased)

section Runs

inductive Operation
  | reserve (reserveCount : Nat)
  | acquire (reservation : Reservation)
  | forfeit (reservation : Reservation)
  | release (address : Nat)
  | markCheckpointNotDurable
  | markCheckpointDurable
  deriving DecidableEq, Repr

def step : Operation → Result (FreeSet shards)
  | .reserve reserveCount => return (← set.reserve reserveCount).2
  | .acquire reservation => return (← set.acquire reservation).2
  | .forfeit reservation => set.forfeit reservation
  | .release address => set.release address
  | .markCheckpointNotDurable => set.markCheckpointNotDurable
  | .markCheckpointDurable => set.markCheckpointDurable

-- The chunks hold what the set is encoded to.
def Encodes (encodedBlocksAcquired encodedBlocksReleased : List (List Byte)) : Prop :=
  ∃ sizesBlocksAcquired sizesBlocksReleased acquired released,
    set.encodeChunks sizesBlocksAcquired sizesBlocksReleased = .ok (acquired, released) ∧
      encodedBlocksAcquired.flatten = acquired.1.take acquired.2 ∧
      encodedBlocksReleased.flatten = released.1.take released.2

-- A restart opens a new set, whose capacity may be another one.
inductive Event
  | operation (operation : Operation)
  | restart (gridSizeLimit max : Nat) (encodedBlocksAcquired encodedBlocksReleased : List (List Byte))
      (addressesBlocksAcquired addressesBlocksReleased : List Nat)
  deriving DecidableEq, Repr

-- What is opened after a restart is what the set before has been encoded to.
def Event.Restores (s : Σ shards, FreeSet shards) : Event → Prop
  | operation _ => True
  | restart _ _ acquired released _ _ => s.2.Encodes acquired released

def machine : Machine (Σ shards, FreeSet shards) Event Fault where
  init s := ∃ gridSizeLimit max set, (new gridSizeLimit max).open [] [] [] [] = .ok set ∧ s = ⟨_, set⟩
  step
    | s, .operation operation => return ⟨s.1, ← s.2.step operation⟩
    | _, .restart gridSizeLimit max encodedBlocksAcquired encodedBlocksReleased
        addressesBlocksAcquired addressesBlocksReleased =>
      return ⟨shardsFor gridSizeLimit, ← (new gridSizeLimit max).open encodedBlocksAcquired
        encodedBlocksReleased addressesBlocksAcquired addressesBlocksReleased⟩

end Runs

end FreeSet

end TigerBeetle
