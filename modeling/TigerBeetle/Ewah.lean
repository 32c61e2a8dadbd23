import TigerBeetle.Constants

-- The word-aligned run-length codec that bit sets are stored with.
namespace TigerBeetle.Ewah

abbrev Byte := BitVec 8

abbrev Word := BitVec 64

def markerUniformWordCountMax : Nat := 2 ^ 31 - 1

def markerLiteralWordCountMax : Nat := 2 ^ 32 - 1

def wordBytes : Nat := 8

def wordMax : Word := BitVec.allOnes 64

def isLiteral (word : Word) : Bool :=
  word ≠ 0 ∧ word ≠ wordMax

structure Marker where
  uniformBit : Nat
  uniformWordCount : Nat
  literalWordCount : Nat
  deriving DecidableEq, Repr

namespace Marker

def pack (marker : Marker) : Result Word := do
  assert (marker.uniformBit ≤ 1) "self.uniform_bit <= 1"
  assert (marker.uniformWordCount ≤ markerUniformWordCountMax)
    "marker.uniform_word_count <= MARKER_UNIFORM_WORD_COUNT_MAX"
  return BitVec.ofNat 64
    (marker.uniformBit ||| marker.uniformWordCount <<< 1 ||| marker.literalWordCount <<< 32)

def unpack (word : Word) : Marker where
  uniformBit := (word &&& 1).toNat
  uniformWordCount := ((word >>> 1) &&& 0x7FFFFFFF).toNat
  literalWordCount := (word >>> 32).toNat

end Marker

-- The bytes of a word, the lowest one first.
def toLeBytes (word : Word) : List Byte :=
  (List.range wordBytes).map fun i => word.extractLsb' (8 * i) 8

def fromLeBytes (bytes : List Byte) : Word :=
  bytes.foldr (fun byte word => word <<< 8 ||| byte.zeroExtend 64) 0

def readWord (source : List Byte) (index : Nat) : Word :=
  fromLeBytes ((source.drop (index * wordBytes)).take wordBytes)

-- The words of a chunk whose length is a multiple of the word size.
def readWords (chunk : List Byte) : List Word :=
  (List.range (chunk.length / wordBytes)).map (readWord chunk)

-- The bytes that the words are written as, one after the other.
def writeWords (words : List Word) : List Byte :=
  words.flatMap toLeBytes

-- The target with the words written at the index.
def overwrite {n : Nat} (target : Vector Word n) (index : Nat) (words : List Word) :
    Vector Word n :=
  Vector.ofFn fun i =>
    if index ≤ i.val ∧ i.val - index < words.length then
      words.getD (i.val - index) 0
    else
      target[i]

-- The target has `n` words.
structure Decoder (n : Nat) where
  sourceSizeRemaining : Nat
  targetWords : Vector Word n
  targetIndex : Nat
  sourceLiteralWords : Nat
  deriving DecidableEq, Repr

namespace Decoder

variable {n : Nat}

def new (targetWords : Vector Word n) (sourceSize : Nat) : Decoder n where
  sourceSizeRemaining := sourceSize
  targetWords := targetWords
  targetIndex := 0
  sourceLiteralWords := 0

-- Copies the first literals of the source, as many as the count says.
def copyLiterals (decoder : Decoder n) (count : Nat) (source : List Word) : Result (Decoder n) := do
  assert (decoder.targetIndex + count ≤ n) "index out of bounds"
  return { decoder with
    targetWords := overwrite decoder.targetWords decoder.targetIndex (source.take count)
    targetIndex := decoder.targetIndex + count }

-- The part of a chunk that starts with a marker.
def decodeMarkers (decoder : Decoder n) : (source : List Word) → Result (Decoder n)
  | [] => return decoder
  | word :: source => do
    assert (decoder.sourceLiteralWords = 0) "self.source_literal_words == 0"
    let marker := Marker.unpack word
    let uniformValue := if marker.uniformBit = 1 then wordMax else 0
    let uniformEnd := decoder.targetIndex + marker.uniformWordCount
    assert (uniformEnd ≤ n) "decoded output overflows"
    let decoder := { decoder with
      targetWords := overwrite decoder.targetWords decoder.targetIndex
        (List.replicate marker.uniformWordCount uniformValue)
      targetIndex := uniformEnd }
    let literalWordCountChunk := min marker.literalWordCount source.length
    let decoder ← decoder.copyLiterals literalWordCountChunk source
    decodeMarkers
      { decoder with sourceLiteralWords := marker.literalWordCount - literalWordCountChunk }
      (source.drop literalWordCountChunk)
termination_by source => source.length

-- Returns the number of words that were written.
def decodeChunk (decoder : Decoder n) (sourceChunk : List Byte) : Result (Nat × Decoder n) := do
  assert (sourceChunk.length % wordBytes = 0) "source_chunk.len() % WORD_BYTES == 0"
  assert (sourceChunk.length ≤ decoder.sourceSizeRemaining)
    "decoded more source bytes than announced"
  let source := readWords sourceChunk
  let literalWordCountChunk := min decoder.sourceLiteralWords source.length
  let after ← { decoder with
    sourceSizeRemaining := decoder.sourceSizeRemaining - sourceChunk.length }.copyLiterals
      literalWordCountChunk source
  let after ← decodeMarkers
    { after with sourceLiteralWords := decoder.sourceLiteralWords - literalWordCountChunk }
    (source.drop literalWordCountChunk)
  assert (after.targetIndex ≤ n) "target_index <= self.target_words.len()"
  return (after.targetIndex - decoder.targetIndex, after)

def done (decoder : Decoder n) : Result Bool := do
  assert (decoder.targetIndex ≤ n) "self.target_index <= self.target_words.len()"
  if decoder.sourceSizeRemaining = 0 then
    assert (decoder.sourceLiteralWords = 0) "self.source_literal_words == 0"
    return true
  else
    return false

-- Decodes one chunk after the other, and counts the words that are written.
def decodeChunks (decoder : Decoder n) : (chunks : List (List Byte)) → Result (Nat × Decoder n)
  | [] => return (0, decoder)
  | chunk :: chunks => do
    let (written, decoder) ← decoder.decodeChunk chunk
    let (rest, decoder) ← decoder.decodeChunks chunks
    return (written + rest, decoder)

end Decoder

structure Encoder where
  sourceWords : List Word
  sourceIndex : Nat
  literalWordCount : Nat
  trailingZeroRunsCount : Nat
  deriving DecidableEq, Repr

-- The length of the run that the words start with.
def uniformWordCount (words : List Word) : Nat :=
  match words with
  | [] => 0
  | word :: _ =>
    if isLiteral word then
      0
    else
      ((words.take markerUniformWordCountMax).takeWhile (· = word)).length

-- The number of literals that the words start with.
def literalWordCount (words : List Word) : Nat :=
  ((words.take markerLiteralWordCountMax).takeWhile isLiteral).length

-- For consistent encoding, the bit is 0 when there is no run.
def uniformBit (words : List Word) : Nat :=
  if uniformWordCount words = 0 then 0 else (words.headD 0 &&& 1).toNat

namespace Encoder

def new (sourceWords : List Word) : Encoder where
  sourceWords := sourceWords
  sourceIndex := 0
  literalWordCount := 0
  trailingZeroRunsCount := 0

-- The next `count` words of the source.
def copyLiterals (encoder : Encoder) (count : Nat) : Result (List Word × Encoder) := do
  assert (encoder.sourceIndex + count ≤ encoder.sourceWords.length) "index out of bounds"
  return ((encoder.sourceWords.drop encoder.sourceIndex).take count,
    { encoder with sourceIndex := encoder.sourceIndex + count })

-- Fills the words that are left of a chunk, from a marker on.
def encodeMarkers (encoder : Encoder) (space : Nat) : Result (List Word × Encoder) :=
  if h : encoder.sourceIndex < encoder.sourceWords.length ∧ 0 < space then do
    assert (encoder.literalWordCount = 0) "self.literal_word_count == 0"
    let words := encoder.sourceWords.drop encoder.sourceIndex
    let uniformWordCount := uniformWordCount words
    let uniformBit := uniformBit words
    let sourceIndex := encoder.sourceIndex + uniformWordCount
    let literalWordCount := Ewah.literalWordCount (encoder.sourceWords.drop sourceIndex)
    assert (uniformWordCount < 2 ^ 32) "bounded by marker max"
    assert (literalWordCount < 2 ^ 32) "bounded by marker max"
    let marker ← Marker.pack { uniformBit, uniformWordCount, literalWordCount }
    let literalWordCountChunk := min literalWordCount (space - 1)
    let (literals, encoder) ← { encoder with sourceIndex }.copyLiterals literalWordCountChunk
    let trailingZeroRunsCount ←
      if uniformBit = 0 ∧ literalWordCount = 0 then do
        assert (0 < uniformWordCount) "uniform_word_count > 0"
        pure (encoder.trailingZeroRunsCount + 1)
      else
        pure 0
    let (rest, encoder) ← encodeMarkers
      { encoder with
        literalWordCount := literalWordCount - literalWordCountChunk
        trailingZeroRunsCount }
      (space - 1 - literalWordCountChunk)
    return (marker :: literals ++ rest, encoder)
  else
    return ([], encoder)
termination_by space
decreasing_by omega

-- Returns the chunk and the number of bytes that were written to it. What is left of it is zeroed.
def encodeChunk (encoder : Encoder) (size : Nat) : Result (List Byte × Nat × Encoder) := do
  assert (size % wordBytes = 0) "target_chunk.len() % WORD_BYTES == 0"
  assert (encoder.sourceIndex ≤ encoder.sourceWords.length)
    "self.source_index <= self.source_words.len()"
  assert (encoder.literalWordCount ≤ encoder.sourceWords.length)
    "self.literal_word_count <= self.source_words.len()"
  let space := size / wordBytes
  let literalWordCountChunk := min encoder.literalWordCount space
  let (literals, after) ← encoder.copyLiterals literalWordCountChunk
  let (words, after) ← encodeMarkers
    { after with literalWordCount := encoder.literalWordCount - literalWordCountChunk }
    (space - literalWordCountChunk)
  assert (after.sourceIndex ≤ after.sourceWords.length) "source_index <= self.source_words.len()"
  let bytes := writeWords (literals ++ words)
  return (bytes ++ List.replicate (size - bytes.length) 0, bytes.length, after)

def done (encoder : Encoder) : Bool :=
  encoder.sourceIndex = encoder.sourceWords.length

-- Encodes chunks of the given sizes until it is done. Returns the bytes that were written.
def encodeChunks (encoder : Encoder) : (sizes : List Nat) → Result (List Byte × Encoder)
  | [] => return ([], encoder)
  | size :: sizes =>
    if encoder.done then
      return ([], encoder)
    else do
      let (chunk, written, encoder) ← encoder.encodeChunk size
      let (bytes, encoder) ← encoder.encodeChunks sizes
      return (chunk.take written ++ bytes, encoder)

end Encoder

-- The number of bytes that suffice for the words, if each is encoded as a literal.
def encodeSizeMax (wordCount : Nat) : Nat :=
  let markerCount := (wordCount + markerLiteralWordCountMax - 1) / markerLiteralWordCountMax
  markerCount * wordBytes + wordCount * wordBytes

-- Encodes all words in one chunk.
def encodeAll (sourceWords : List Word) (size : Nat) : Result (List Byte × Nat) := do
  assert (size = encodeSizeMax sourceWords.length)
    "target.len() == encode_size_max(source_words.len())"
  let (target, written, encoder) ← (Encoder.new sourceWords).encodeChunk size
  assert encoder.done "encoder.done()"
  return (target, written)

end TigerBeetle.Ewah
