import TigerBeetle.SegmentedArray

-- Binary searches over values that are sorted by their keys.
namespace TigerBeetle.BinarySearch

open SegmentedArray (read)

inductive Mode
  | lowerBound
  | upperBound
  deriving DecidableEq, Repr

structure Config where
  mode : Mode
  deriving DecidableEq, Repr

def u32Modulus : Nat := 2 ^ 32

def u32Max : Nat := u32Modulus - 1

variable {Key Value : Type} [LinearOrder Key]

namespace Mode

-- The keys in front of the index that is searched.
def before (mode : Mode) (k key : Key) : Prop :=
  match mode with
  | lowerBound => k < key
  | upperBound => k ≤ key

-- The keys behind it.
def after (mode : Mode) (k key : Key) : Prop :=
  match mode with
  | lowerBound => key ≤ k
  | upperBound => key < k

instance (mode : Mode) (k key : Key) : Decidable (mode.before k key) :=
  match mode with
  | lowerBound => inferInstanceAs (Decidable (k < key))
  | upperBound => inferInstanceAs (Decidable (k ≤ key))

instance (mode : Mode) (k key : Key) : Decidable (mode.after k key) :=
  match mode with
  | lowerBound => inferInstanceAs (Decidable (key ≤ k))
  | upperBound => inferInstanceAs (Decidable (key < k))

end Mode

variable (keyFromValue : Value → Key) (values : List Value) (key : Key) (mode : Mode)

def assertBefore (offset : Nat) : Result Unit :=
  if offset = 0 then
    .ok ()
  else do
    let value ← read values (offset - 1)
    assert (mode.before (keyFromValue value) key) "key_from_value(&values[offset - 1]) < key"

def assertAfter (stop : Nat) : Result Unit :=
  if stop = values.length then
    .ok ()
  else do
    let value ← read values stop
    assert (mode.after (keyFromValue value) key) "key <= key_from_value(&values[offset + length])"

def halve : (fuel offset length : Nat) → Result Nat
  | 0, _, _ => .error .cutOff
  | fuel + 1, offset, length =>
    if length > 1 then do
      assertBefore keyFromValue values key mode offset
      assertAfter keyFromValue values key mode (offset + length)
      let half := length / 2
      let mid := offset + half
      let value ← read values mid
      -- For exact matches, takes the first half or the second half according to the mode.
      halve fuel (if mode.before (keyFromValue value) key then mid else offset) (length - half)
    else do
      assert (length = 1) "length == 1"
      return offset

def assertNextAfter (offset : Nat) : Result Unit :=
  if values.length - 1 ≤ offset then
    .ok ()
  else do
    let value ← read values (offset + 1)
    assert (mode.after (keyFromValue value) key) "key <= key_from_value(&values[offset + 1])"

def assertUpsert (offset : Nat) : Result Unit :=
  if offset = values.length then
    .ok ()
  else do
    let value ← read values offset
    assert (key ≤ keyFromValue value) "key <= key_from_value(&values[offset])"

def binarySearchValuesUpsertIndex (config : Config) : Result Nat :=
  if values = [] then
    return 0
  else do
    let mode := config.mode
    let offset ← halve keyFromValue values key mode values.length 0 values.length
    assertBefore keyFromValue values key mode offset
    assertAfter keyFromValue values key mode (offset + 1)
    let value ← read values offset
    let offset := offset + if keyFromValue value < key then 1 else 0
    assertBefore keyFromValue values key mode offset
    assertNextAfter keyFromValue values key mode offset
    assertUpsert keyFromValue values key offset
    return if offset ≤ u32Max then offset else u32Max

def binarySearchKeysUpsertIndex (keys : List Key) (key : Key) (config : Config) : Result Nat :=
  binarySearchValuesUpsertIndex id keys key config

structure BinarySearchResult where
  index : Nat
  exact : Bool
  deriving DecidableEq, Repr

def binarySearchValues (config : Config) : Result (Option Value) := do
  let index ← binarySearchValuesUpsertIndex keyFromValue values key config
  match values[index]? with
  | none => return none
  | some value =>
    if keyFromValue value = key then do
      assert (key = keyFromValue value) "key == key_from_value(value)"
      return some value
    else
      return none

def binarySearchKeys (keys : List Key) (key : Key) (config : Config) : Result BinarySearchResult := do
  let index ← binarySearchKeysUpsertIndex keys key config
  return { index, exact := keys[index]? = some key }

structure BinarySearchRangeUpsertIndexes where
  start : Nat
  stop : Nat
  deriving DecidableEq, Repr

variable (keyMin keyMax : Key)

def binarySearchValuesRangeUpsertIndexes : Result BinarySearchRangeUpsertIndexes := do
  assert (keyMin ≤ keyMax) "key_min <= key_max"
  let start ← binarySearchValuesUpsertIndex keyFromValue values keyMin ⟨.lowerBound⟩
  if start = values.length % u32Modulus then
    return ⟨start, start⟩
  else
    assert (start ≤ values.length) "range start index out of range for slice"
    let stop ← binarySearchValuesUpsertIndex keyFromValue (values.drop start) keyMax ⟨.upperBound⟩
    assert (start + stop < u32Modulus) "attempt to add with overflow"
    return ⟨start, start + stop⟩

structure BinarySearchRange where
  start : Nat
  count : Nat
  deriving DecidableEq, Repr

def binarySearchValuesRange : Result BinarySearchRange := do
  let upsertIndexes ← binarySearchValuesRangeUpsertIndexes keyFromValue values keyMin keyMax
  if upsertIndexes.start = values.length % u32Modulus then
    return { start := upsertIndexes.start - 1, count := 0 }
  else
    let inclusive := if ∃ value ∈ values[upsertIndexes.stop]?, keyMax = keyFromValue value then 1 else 0
    assert (upsertIndexes.start ≤ upsertIndexes.stop) "attempt to subtract with overflow"
    assert (upsertIndexes.stop - upsertIndexes.start + inclusive < u32Modulus)
      "attempt to add with overflow"
    return {
      start := upsertIndexes.start
      count := upsertIndexes.stop - upsertIndexes.start + inclusive }

def binarySearchKeysRange (keys : List Key) (keyMin keyMax : Key) : Result BinarySearchRange :=
  binarySearchValuesRange id keys keyMin keyMax

end TigerBeetle.BinarySearch
