import TigerBeetle.MultiBatch

-- The decoder of batches with every fault of its arithmetic and its slices, which stop the program
-- like an assertion.
namespace TigerBeetle.MultiBatch.Checked

open Ewah (Byte)

def sub (a b : Nat) : Result Nat := do
  assert (b ≤ a) "attempt to subtract with overflow"
  return a - b

def addU32 (a b : Nat) : Result Nat := do
  assert (a + b < u32Modulus) "attempt to add with overflow"
  return a + b

def mulU32 (a b : Nat) : Result Nat := do
  assert (a * b < u32Modulus) "attempt to multiply with overflow"
  return a * b

def slice (bytes : List Byte) (start stop : Nat) : Result (List Byte) := do
  assert (start ≤ stop) "slice index starts after its end"
  assert (stop ≤ bytes.length) "range end index out of range for slice"
  return (bytes.drop start).take (stop - start)

def readU16 : List Byte → Result Nat
  | low :: high :: _ => .ok (low.toNat + high.toNat * 2 ^ 8)
  | _ => abort "index out of bounds"

def trailerTotalSize (elementSize batchCount : Nat) : Result Nat := do
  assert (0 < batchCount) "batch_count > 0"
  assert (batchCount ≤ batchCountMax) "batch_count <= BATCH_COUNT_MAX"
  assert (elementSize = 0 ∨ isPowerOfTwo elementSize)
    "element_size == 0 || element_size.is_power_of_two()"
  let trailerUnpaddedSize ← addU32 (← mulU32 batchCount trailerItemSize) postambleSize
  if elementSize = 0 then
    return trailerUnpaddedSize
  else
    mulU32 ((trailerUnpaddedSize + (elementSize - 1)) / elementSize) elementSize

-- The range of the suffix, and how many bytes have been parsed then.
def takeSuffix (bodyLen parsed count : Nat) : Result (Option ((Nat × Nat) × Nat)) := do
  if (← sub bodyLen parsed) < count then
    return none
  else
    let parsed := parsed + count
    return some ((← sub bodyLen parsed, ← sub bodyLen (← sub parsed count)), parsed)

def suffix (body : List Byte) (parsed count : Nat) : Result (Option (List Byte × Nat)) := do
  match ← takeSuffix body.length parsed count with
  | none => return none
  | some ((start, stop), parsed) => return some (← slice body start stop, parsed)

def item (trailerItems : List Byte) (itemIndex : Nat) : Result Nat := do
  let rest ← slice trailerItems (itemIndex * trailerItemSize) trailerItems.length
  readU16 (← slice rest 0 trailerItemSize)

-- The sum of the counts of some items, unless it overflows.
def addItems (trailerItems : List Byte) : (itemIndexes : List Nat) → (count : Nat) → Result (Option Nat)
  | [], count => .ok count
  | itemIndex :: itemIndexes, count => do
    let elementCount ← item trailerItems itemIndex
    if count + elementCount < u32Modulus then
      addItems trailerItems itemIndexes (count + elementCount)
    else
      return none

def eventsCountTotal (trailerItems : List Byte) : Result (Option Nat) :=
  addItems trailerItems (List.range (trailerItems.length / trailerItemSize)) 0

theorem lawfulBEq_byte : LawfulBEq Byte :=
  inferInstance

attribute [local instance] lawfulBEq_byte in
def new (body : List Byte) (elementSize : Nat) : Result (Option MultiBatchDecoder) := do
  assert (elementSize = 0 ∨ isPowerOfTwo elementSize)
    "element_size == 0 || element_size.is_power_of_two()"
  match ← suffix body 0 postambleSize with
  | none => return none
  | some (postamble, parsed) =>
    let batchCount ← readU16 postamble
    if batchCount = 0 then
      return none
    else if batchCountMax < batchCount then
      return none
    else
      let trailerSize ← trailerTotalSize elementSize batchCount
      match ← suffix body parsed (batchCount * trailerItemSize) with
      | none => return none
      | some (trailerItems, parsed) =>
        let itemsPaddingLen ← sub trailerSize parsed
        match ← suffix body parsed itemsPaddingLen with
        | none => return none
        | some (trailerItemsPadding, parsed) =>
          if ¬∀ byte ∈ trailerItemsPadding, byte = byteMax then
            return none
          else
            match ← eventsCountTotal trailerItems with
            | none => return none
            | some eventsCountTotal =>
              if elementSize = 0 ∧ eventsCountTotal ≠ 0 then
                return none
              else if u32Modulus ≤ eventsCountTotal * elementSize then
                return none
              else
                let payloadSize := eventsCountTotal * elementSize
                let trailerPaddingSize := payloadSize % trailerItemSize
                assert (trailerPaddingSize < trailerItemSize)
                  "trailer_padding_size < TRAILER_ITEM_SIZE"
                assert (trailerPaddingSize = 0 ∨ elementSize = 1)
                  "trailer_padding_size == 0 || element_size == 1"
                match ← suffix body parsed trailerPaddingSize with
                | none => return none
                | some (trailerPadding, parsed) =>
                  if ¬∀ byte ∈ trailerPadding, byte = byteMax then
                    return none
                  else
                    let left ← sub body.length parsed
                    if payloadSize ≠ left then
                      return none
                    else
                      return some {
                        payload := ← slice body 0 payloadSize
                        trailerItems
                        payloadIndex := 0
                        batchIndex := 0
                        elementSize }

variable (decoder : MultiBatchDecoder)

-- The count is cut to 16 bits.
def batchCount : Result Nat := do
  assert (decoder.itemCount ≤ batchCountMax)
    "self.trailer_items.len() / TRAILER_ITEM_SIZE <= BATCH_COUNT_MAX"
  return decoder.itemCount % u16Modulus

def peek : Result (List Byte) := do
  assert (decoder.trailerItems ≠ []) "!self.trailer_items.is_empty()"
  assert (decoder.batchIndex < decoder.itemCount)
    "self.batch_index < self.trailer_items.len() / TRAILER_ITEM_SIZE"
  assert (decoder.payloadIndex ≤ decoder.payload.length) "self.payload_index <= self.payload.len()"
  let itemIndex ← sub (← sub decoder.itemCount decoder.batchIndex) 1
  let elementCount ← item decoder.trailerItems itemIndex
  if elementCount = 0 then
    return []
  else
    assert (decoder.payloadIndex < decoder.payload.length) "self.payload_index < self.payload.len()"
    let batchSize := elementCount * decoder.elementSize
    assert (decoder.payloadIndex + batchSize ≤ decoder.payload.length)
      "self.payload_index + batch_size <= self.payload.len()"
    let rest ← slice decoder.payload decoder.payloadIndex decoder.payload.length
    let slice ← slice rest 0 batchSize
    assert (slice ≠ []) "!slice.is_empty()"
    assert (slice.length % decoder.elementSize = 0)
      "slice.len().is_multiple_of(self.element_size as usize)"
    return slice

def pop : Result (Option (List Byte) × MultiBatchDecoder) := do
  assert (decoder.trailerItems ≠ []) "!self.trailer_items.is_empty()"
  if decoder.batchIndex = decoder.itemCount then
    assert (decoder.payloadIndex = decoder.payload.length) "self.payload_index == self.payload.len()"
    return (none, decoder)
  else
    let batchItem ← peek decoder
    let decoder := { decoder with
      batchIndex := decoder.batchIndex + 1
      payloadIndex := decoder.payloadIndex + batchItem.length }
    assert (decoder.batchIndex ≤ decoder.itemCount)
      "self.batch_index <= self.trailer_items.len() / TRAILER_ITEM_SIZE"
    assert (decoder.payloadIndex ≤ decoder.payload.length) "self.payload_index <= self.payload.len()"
    return (some batchItem, decoder)

-- What some calls return, one after another, and the decoder after them.
def pops : (calls : Nat) → MultiBatchDecoder → Result (List (Option (List Byte)) × MultiBatchDecoder)
  | 0, decoder => .ok ([], decoder)
  | calls + 1, decoder => do
    let (batch, decoder) ← pop decoder
    let (batches, decoder) ← pops calls decoder
    return (batch :: batches, decoder)

end TigerBeetle.MultiBatch.Checked
