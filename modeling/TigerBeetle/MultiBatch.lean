import TigerBeetle.Ewah

-- Batches of elements in one message body, with a trailer that counts the elements of each.
namespace TigerBeetle.MultiBatch

open Ewah (Byte)

def postambleSize : Nat := 2

def trailerItemSize : Nat := 2

-- The largest count is reserved for padding.
def batchCountMax : Nat := 2 ^ 16 - 2

def u16Modulus : Nat := 2 ^ 16

def u32Modulus : Nat := 2 ^ 32

def byteMax : Byte := BitVec.allOnes 8

def isPowerOfTwo (n : Nat) : Bool :=
  n = 2 ^ n.log2

def trailerTotalSize (elementSize batchCount : Nat) : Result Nat := do
  assert (0 < batchCount) "batch_count > 0"
  assert (batchCount ≤ batchCountMax) "batch_count <= BATCH_COUNT_MAX"
  assert (elementSize = 0 ∨ isPowerOfTwo elementSize)
    "element_size == 0 || element_size.is_power_of_two()"
  let trailerUnpaddedSize := batchCount * trailerItemSize + postambleSize
  if elementSize = 0 then
    return trailerUnpaddedSize
  else
    return (trailerUnpaddedSize + (elementSize - 1)) / elementSize * elementSize

def readU16 (bytes : List Byte) : Nat :=
  (bytes.getD 0 0).toNat + (bytes.getD 1 0).toNat * 2 ^ 8

def toLeBytes (n : Nat) : List Byte :=
  [BitVec.ofNat 8 n, BitVec.ofNat 8 (n / 2 ^ 8)]

-- The buffer with the bytes written at an index.
def splice (buffer : List Byte) (start : Nat) (bytes : List Byte) : List Byte :=
  buffer.take start ++ bytes ++ buffer.drop (start + bytes.length)

structure MultiBatchDecoder where
  payload : List Byte
  trailerItems : List Byte
  payloadIndex : Nat
  batchIndex : Nat
  elementSize : Nat
  deriving DecidableEq, Repr

namespace MultiBatchDecoder

-- The last bytes of the body that have not been parsed yet, and how many have been parsed then.
def takeSuffix (body : List Byte) (parsed count : Nat) : Option (List Byte × Nat) :=
  if body.length - parsed < count then
    none
  else
    some ((body.drop (body.length - (parsed + count))).take count, parsed + count)

def item (trailerItems : List Byte) (itemIndex : Nat) : Nat :=
  readU16 ((trailerItems.drop (itemIndex * trailerItemSize)).take trailerItemSize)

def eventsCountTotal (trailerItems : List Byte) : Option Nat :=
  (List.range (trailerItems.length / trailerItemSize)).foldlM (fun count itemIndex =>
    let count := count + item trailerItems itemIndex
    if count < u32Modulus then some count else none) 0

-- Returns nothing if the body is invalid.
def new (body : List Byte) (elementSize : Nat) : Result (Option MultiBatchDecoder) := do
  assert (elementSize = 0 ∨ isPowerOfTwo elementSize)
    "element_size == 0 || element_size.is_power_of_two()"
  match takeSuffix body 0 postambleSize with
  | none => return none
  | some (postamble, parsed) =>
    let batchCount := readU16 postamble
    if batchCount = 0 then
      return none
    else if batchCountMax < batchCount then
      return none
    else
      let trailerSize ← trailerTotalSize elementSize batchCount
      match takeSuffix body parsed (batchCount * trailerItemSize) with
      | none => return none
      | some (trailerItems, parsed) =>
        assert (parsed ≤ trailerSize) "attempt to subtract with overflow"
        match takeSuffix body parsed (trailerSize - parsed) with
        | none => return none
        | some (trailerItemsPadding, parsed) =>
          if ¬∀ byte ∈ trailerItemsPadding, byte = byteMax then
            return none
          else
            match eventsCountTotal trailerItems with
            | none => return none
            | some eventsCountTotal =>
              if elementSize = 0 ∧ eventsCountTotal ≠ 0 then
                return none
              else if u32Modulus ≤ eventsCountTotal * elementSize then
                return none
              else
                let payloadSize := eventsCountTotal * elementSize
                -- Elements of one byte may need padding before the trailer.
                let trailerPaddingSize := payloadSize % trailerItemSize
                assert (trailerPaddingSize < trailerItemSize)
                  "trailer_padding_size < TRAILER_ITEM_SIZE"
                assert (trailerPaddingSize = 0 ∨ elementSize = 1)
                  "trailer_padding_size == 0 || element_size == 1"
                match takeSuffix body parsed trailerPaddingSize with
                | none => return none
                | some (trailerPadding, parsed) =>
                  if ¬∀ byte ∈ trailerPadding, byte = byteMax then
                    return none
                  else if payloadSize ≠ body.length - parsed then
                    return none
                  else
                    return some {
                      payload := body.take payloadSize
                      trailerItems
                      payloadIndex := 0
                      batchIndex := 0
                      elementSize }

variable (decoder : MultiBatchDecoder)

def itemCount : Nat :=
  decoder.trailerItems.length / trailerItemSize

def peek : Result (List Byte) := do
  assert (decoder.trailerItems ≠ []) "!self.trailer_items.is_empty()"
  assert (decoder.batchIndex < decoder.itemCount)
    "self.batch_index < self.trailer_items.len() / TRAILER_ITEM_SIZE"
  assert (decoder.payloadIndex ≤ decoder.payload.length) "self.payload_index <= self.payload.len()"
  -- The last item is that of the first batch.
  let elementCount := item decoder.trailerItems (decoder.itemCount - decoder.batchIndex - 1)
  if elementCount = 0 then
    return []
  else
    assert (decoder.payloadIndex < decoder.payload.length) "self.payload_index < self.payload.len()"
    let batchSize := elementCount * decoder.elementSize
    assert (decoder.payloadIndex + batchSize ≤ decoder.payload.length)
      "self.payload_index + batch_size <= self.payload.len()"
    let slice := (decoder.payload.drop decoder.payloadIndex).take batchSize
    assert (slice ≠ []) "!slice.is_empty()"
    assert (slice.length % decoder.elementSize = 0)
      "slice.len().is_multiple_of(self.element_size as usize)"
    return slice

def pop : Result (Option (List Byte) × MultiBatchDecoder) := do
  assert (decoder.trailerItems ≠ []) "!self.trailer_items.is_empty()"
  if decoder.batchIndex = decoder.itemCount then
    assert (decoder.payloadIndex = decoder.payload.length) "self.payload_index == self.payload.len()"
    return (none, decoder)
  else
    let batchItem ← decoder.peek
    let decoder := { decoder with
      batchIndex := decoder.batchIndex + 1
      payloadIndex := decoder.payloadIndex + batchItem.length }
    assert (decoder.batchIndex ≤ decoder.itemCount)
      "self.batch_index <= self.trailer_items.len() / TRAILER_ITEM_SIZE"
    assert (decoder.payloadIndex ≤ decoder.payload.length) "self.payload_index <= self.payload.len()"
    return (some batchItem, decoder)

-- Pops batches until there are no more, `fuel` times at most.
def popAll : (fuel : Nat) → MultiBatchDecoder → Result (List (List Byte))
  | 0, _ => .error .cutOff
  | fuel + 1, decoder => do
    match ← decoder.pop with
    | (none, _) => return []
    | (some batch, decoder) => return batch :: (← popAll fuel decoder)

end MultiBatchDecoder

-- There is no buffer once the encoder is finished.
structure MultiBatchEncoder where
  buffer : Option (List Byte)
  batchCount : Nat
  bufferIndex : Nat
  elementSize : Nat
  deriving DecidableEq, Repr

namespace MultiBatchEncoder

-- The end of the buffer is aligned with the trailer.
def new (buffer : List Byte) (elementSize : Nat) : Result MultiBatchEncoder := do
  assert (elementSize = 0 ∨ isPowerOfTwo elementSize)
    "element_size == 0 || element_size.is_power_of_two()"
  let trailerSizeMin ← trailerTotalSize elementSize 1
  assert (trailerSizeMin ≤ buffer.length) "buffer.len() >= trailer_size_min"
  let alignedLen := buffer.length - buffer.length % trailerItemSize
  return {
    buffer := some (buffer.take alignedLen)
    batchCount := 0
    bufferIndex := 0
    elementSize }

variable (encoder : MultiBatchEncoder)

def «buffer!» : Result (List Byte) :=
  match encoder.buffer with
  | some buffer => .ok buffer
  | none => abort "encoder used after finish()"

-- The length of the slice that may be written next, which starts at the buffer index. There is none
-- if the trailer has no room for another batch.
def writable : Result (Option Nat) := do
  if encoder.batchCount = batchCountMax then
    return none
  else
    assert (encoder.batchCount < batchCountMax) "self.batch_count < BATCH_COUNT_MAX"
    assert (0 < encoder.elementSize ∨ encoder.bufferIndex = 0)
      "self.element_size > 0 || self.buffer_index == 0"
    assert (encoder.elementSize = 0 ∨ encoder.bufferIndex % encoder.elementSize = 0)
      "self.element_size == 0 || self.buffer_index.is_multiple_of(self.element_size as usize)"
    let trailerSize ← trailerTotalSize encoder.elementSize (encoder.batchCount + 1)
    let buffer ← encoder.buffer!
    if buffer.length < encoder.bufferIndex + trailerSize then
      return none
    else if encoder.elementSize = 0 then
      return some 0
    else
      let size := buffer.length - trailerSize - encoder.bufferIndex
      return some (size - size % encoder.elementSize)

-- What the caller does with the slice.
def write (batch : List Byte) : MultiBatchEncoder :=
  { encoder with buffer := encoder.buffer.map fun buffer => splice buffer encoder.bufferIndex batch }

def writtenElementCount (bytesWritten : Nat) : Result Nat :=
  if encoder.elementSize = 0 then do
    assert (encoder.bufferIndex = 0) "self.buffer_index == 0"
    assert (bytesWritten = 0) "bytes_written == 0"
    return 0
  else do
    assert (bytesWritten % encoder.elementSize = 0) "partial element writes are invalid"
    assert (bytesWritten / encoder.elementSize < u16Modulus) "element count fits u16"
    return bytesWritten / encoder.elementSize

def add (bytesWritten : Nat) : Result MultiBatchEncoder := do
  assert (encoder.batchCount < batchCountMax) "self.batch_count < BATCH_COUNT_MAX"
  let writtenElementCount ← encoder.writtenElementCount bytesWritten
  let encoder := { encoder with
    batchCount := encoder.batchCount + 1
    bufferIndex := encoder.bufferIndex + bytesWritten }
  let buffer ← encoder.buffer!
  assert (encoder.bufferIndex < buffer.length) "self.buffer_index < buffer.len()"
  let trailerSize ← trailerTotalSize encoder.elementSize encoder.batchCount
  assert (encoder.bufferIndex + trailerSize ≤ buffer.length)
    "self.buffer_index + trailer_size <= buffer.len()"
  let trailerItemsEnd := buffer.length - postambleSize
  let trailerItemsStart := buffer.length - trailerSize
  let trailerItemsLen := (trailerItemsEnd - trailerItemsStart) / trailerItemSize
  assert (encoder.batchCount ≤ trailerItemsLen) "trailer_items_len >= self.batch_count"
  -- The items are stacked from the end, the last batch first.
  let start := trailerItemsStart + (trailerItemsLen - encoder.batchCount) * trailerItemSize
  return { encoder with buffer := some (splice buffer start (toLeBytes writtenElementCount)) }

-- Moves the trailer next to the payload. Returns the buffer and the number of bytes written.
def finish : Result (List Byte × Nat) := do
  assert (0 < encoder.batchCount) "self.batch_count > 0"
  assert (encoder.batchCount ≤ batchCountMax) "self.batch_count <= BATCH_COUNT_MAX"
  let buffer ← encoder.buffer!
  assert (encoder.bufferIndex < buffer.length) "buffer.len() > self.buffer_index"
  assert (0 < encoder.elementSize ∨ encoder.bufferIndex = 0)
    "self.element_size > 0 || self.buffer_index == 0"
  let trailerSize ← trailerTotalSize encoder.elementSize encoder.batchCount
  let padding := encoder.bufferIndex % trailerItemSize
  assert (padding < trailerItemSize) "padding < TRAILER_ITEM_SIZE"
  assert (padding = 0 ∨ encoder.elementSize = 1) "padding == 0 || self.element_size == 1"
  assert (encoder.bufferIndex + padding + trailerSize ≤ buffer.length)
    "buffer.len() >= self.buffer_index + padding + trailer_size"
  let buffer := splice buffer encoder.bufferIndex (List.replicate padding byteMax)
  let sourceStart := buffer.length - trailerSize
  let targetStart := encoder.bufferIndex + padding
  assert (targetStart ≤ sourceStart) "source_start >= target_start"
  let buffer := splice buffer targetStart (buffer.drop sourceStart)
  let unusedItems := (trailerSize - postambleSize) / trailerItemSize - encoder.batchCount
  let buffer := splice buffer targetStart (List.replicate (unusedItems * trailerItemSize) byteMax)
  let buffer := splice buffer (targetStart + trailerSize - postambleSize)
    (toLeBytes encoder.batchCount)
  let bytesWritten := encoder.bufferIndex + padding + trailerSize
  assert (0 < encoder.elementSize ∨ bytesWritten = trailerSize)
    "self.element_size > 0 || bytes_written == trailer_size"
  assert (encoder.elementSize = 0 ∨ bytesWritten % encoder.elementSize = 0)
    "self.element_size == 0 || bytes_written.is_multiple_of(self.element_size as usize)"
  let decoder ← MultiBatchDecoder.new (buffer.take bytesWritten) encoder.elementSize
  assert decoder.isSome "encoder output must roundtrip"
  return (buffer, bytesWritten)

-- A batch is written to the slice, if there is room for it.
def addBatch (batch : List Byte) : Result (Option MultiBatchEncoder) := do
  match ← encoder.writable with
  | none => return none
  | some size =>
    if size < batch.length then
      return none
    else
      return some (← (encoder.write batch).add batch.length)

def addBatches : (batches : List (List Byte)) → MultiBatchEncoder → Result (Option MultiBatchEncoder)
  | [], encoder => return some encoder
  | batch :: batches, encoder => do
    match ← encoder.addBatch batch with
    | none => return none
    | some encoder => addBatches batches encoder

end MultiBatchEncoder

end TigerBeetle.MultiBatch
