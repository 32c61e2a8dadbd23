import TigerBeetle.Ewah

namespace TigerBeetle

open Ewah (Word)

def wordBits : Nat := 64

inductive BitKind
  | set
  | unset
  deriving DecidableEq, Repr

-- A bit set in words. The bits of the last word that are past the length are padding.
structure DynamicBitSet (bitLength : Nat) where
  words : Vector Word ((bitLength + (wordBits - 1)) / wordBits)
  deriving DecidableEq, Repr

namespace DynamicBitSet

variable {bitLength : Nat}

def newEmpty : DynamicBitSet bitLength where
  words := Vector.replicate _ 0

def countOnes (word : Word) : Nat :=
  (List.range wordBits).countP fun i => word.getLsbD i

def count (bits : DynamicBitSet bitLength) : Nat :=
  (bits.words.toList.map countOnes).sum

variable (bits : DynamicBitSet bitLength) (index : Nat)

def word : Word :=
  bits.words.toList.getD (index / wordBits) 0

def mask : Word :=
  1 <<< (index % wordBits)

def bit : Bool :=
  bits.word index &&& mask index ≠ 0

def insert : DynamicBitSet bitLength where
  words := bits.words.setIfInBounds (index / wordBits) (bits.word index ||| mask index)

def erase : DynamicBitSet bitLength where
  words := bits.words.setIfInBounds (index / wordBits) (bits.word index &&& ~~~mask index)

def get : Result Bool := do
  assert (index < bitLength) "index < self.len()"
  return bits.bit index

def set : Result (DynamicBitSet bitLength) := do
  assert (index < bitLength) "index < self.len()"
  return bits.insert index

def unset : Result (DynamicBitSet bitLength) := do
  assert (index < bitLength) "index < self.len()"
  return bits.erase index

-- The bits that are set, in order.
def iterSet : List Nat :=
  (List.range bitLength).filter bits.bit

def trailingZeros (word : Word) : Nat :=
  ((List.range wordBits).find? fun i => word.getLsbD i).getD wordBits

-- Searches the words of a slice from the one with the given index on.
def findInWords (bitMin bitMax : Nat) (kind : BitKind) : (w : Nat) → List Word → Result (Option Nat)
  | _, [] => return none
  | w, word :: words => do
    let wordOffset := bitMin % wordBits
    let candidate := if kind = .set then word else ~~~word
    let candidate :=
      if w = 0 ∧ 0 < wordOffset then candidate &&& ~~~((1 : Word) <<< wordOffset - 1) else candidate
    let wordBitBase := (bitMin / wordBits + w) * wordBits
    -- Bits at or beyond the end are masked in the final word.
    let candidate :=
      if bitMax < wordBitBase + wordBits then
        candidate &&& ((1 : Word) <<< (bitMax - wordBitBase) - 1)
      else
        candidate
    if candidate ≠ 0 then do
      let bit := wordBitBase + trailingZeros candidate
      assert (bitMin ≤ bit ∧ bit < bitMax) "bit >= bit_min && bit < bit_max"
      return some bit
    else
      findInWords bitMin bitMax kind (w + 1) words

-- The first bit of the kind within the range.
def findBit (bitMin bitMax : Nat) (kind : BitKind) : Result (Option Nat) := do
  assert (bitMin ≤ bitMax) "bit_max >= bit_min"
  assert (bitMax ≤ bitLength) "bit_max <= bit_set.len()"
  let wordEnd := (bitMax + (wordBits - 1)) / wordBits
  findInWords bitMin bitMax kind 0
    ((bits.words.toList.drop (bitMin / wordBits)).take (wordEnd - bitMin / wordBits))

end DynamicBitSet

end TigerBeetle
