import TigerBeetle.Ewah

namespace TigerBeetle

open Ewah (Word)

def isPowerOfTwo (n : Nat) : Prop :=
  n = 2 ^ n.log2

instance {n : Nat} : Decidable (isPowerOfTwo n) :=
  inferInstanceAs (Decidable (_ = _))

-- An array of integers that are packed into words.
structure PackedUnsignedIntegerArray where
  bitsPerUint : Nat
  words : List Word
  deriving DecidableEq, Repr

namespace PackedUnsignedIntegerArray

def new (bitsPerUint sizeBytes : Nat) : Result PackedUnsignedIntegerArray := do
  assert (0 < bitsPerUint) "bits_per_uint > 0"
  assert (bitsPerUint < 8) "bits_per_uint < 8"
  assert (isPowerOfTwo bitsPerUint) "bits_per_uint.is_power_of_two()"
  return { bitsPerUint, words := List.replicate ((sizeBytes + 7) / 8) 0 }

variable (array : PackedUnsignedIntegerArray)

def reset : PackedUnsignedIntegerArray :=
  { array with words := array.words.map fun _ => 0 }

def uintsPerWord : Nat :=
  64 / array.bitsPerUint

def mask : Word :=
  1#64 <<< array.bitsPerUint - 1#64

def bitsIndex (index : Nat) : Nat :=
  index % array.uintsPerWord * array.bitsPerUint

def word (index : Nat) : Word :=
  array.words.getD (index / array.uintsPerWord) 0

-- The integer at an index that is in bounds.
def uint (index : Nat) : Nat :=
  (array.word index >>> array.bitsIndex index &&& array.mask).toNat

-- The array with another integer at an index that is in bounds.
def put (index value : Nat) : PackedUnsignedIntegerArray :=
  let slotMask := array.mask <<< array.bitsIndex index
  let word := array.word index &&& ~~~slotMask ||| BitVec.ofNat 64 value <<< array.bitsIndex index
  { array with words := array.words.set (index / array.uintsPerWord) word }

def get (index : Nat) : Result Nat := do
  assert (index / array.uintsPerWord < array.words.length) "index out of bounds"
  return array.uint index

def set (index value : Nat) : Result PackedUnsignedIntegerArray := do
  assert (value ≤ array.mask.toNat) "value does not fit width"
  assert (index / array.uintsPerWord < array.words.length) "index out of bounds"
  return array.put index value

end PackedUnsignedIntegerArray

end TigerBeetle
