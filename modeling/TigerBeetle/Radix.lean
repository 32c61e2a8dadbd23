import TigerBeetle.Constants

namespace TigerBeetle

-- An unsigned integer that a radix sort can sort by.
class RadixKey (Key : Type) where
  bits : Nat
  digit : Key → (shift bits : Nat) → Result Nat

-- The 8- to 128-bit integers.
instance radixKeyFin (w : Nat) : RadixKey (Fin (2 ^ w)) where
  bits := w
  digit key shift bits := do
    assert (shift < w) "attempt to shift right with overflow"
    return key.val >>> shift &&& (2 ^ bits - 1) % 2 ^ w

-- A 256-bit key: the prefix of a composite key, and its timestamp.
structure U256 where
  hi : Fin (2 ^ 128)
  lo : Fin (2 ^ 64)
  deriving DecidableEq, Repr

namespace U256

-- The order that is derived for the struct compares the fields from the first to the last one.
def ord (key : U256) : Fin (2 ^ 128) ×ₗ Fin (2 ^ 64) :=
  toLex (key.hi, key.lo)

theorem ord_injective : Function.Injective ord := by
  intro a b h
  have h := Prod.ext_iff.mp (toLex_inj.mp h)
  cases a
  cases b
  simp only [U256.mk.injEq]
  exact h

instance : LinearOrder U256 := LinearOrder.lift' ord ord_injective

def toLeBytes : (size n : Nat) → List (BitVec 8)
  | 0, _ => []
  | size + 1, n => BitVec.ofNat 8 n :: toLeBytes size (n / 2 ^ 8)

def fromLeBytes : List (BitVec 8) → Nat
  | [] => 0
  | byte :: bytes => byte.toNat + 2 ^ 8 * fromLeBytes bytes

def digit (key : U256) (shift bits : Nat) : Result Nat := do
  assert (shift + bits ≤ 256) "shift + bits <= 256"
  if bits = 0 then
    return 0
  else
    let byteOffset := shift / 8
    let bitOffset := shift % 8
    let buf := toLeBytes 16 key.hi.val ++ toLeBytes 8 key.lo.val ++ List.replicate 16 0
    -- Bytes past the end of the buffer are zero, as are those that the word lacks here.
    let word := (buf.drop byteOffset).take 8
    let value := fromLeBytes word
    return value / 2 ^ bitOffset % 2 ^ min bits 64

end U256

instance : RadixKey U256 where
  bits := 256
  digit := U256.digit

namespace Radix

def u32Max : Nat := 2 ^ 32 - 1

def kib : Nat := 1024

variable {Key Value : Type}

section

variable [LinearOrder Key] (keyFromValue : Value → Key)

-- The value sinks through those before it, of which the last one is the first here.
def sink (value : Value) : List Value → List Value
  | [] => [value]
  | previous :: before =>
    if keyFromValue value < keyFromValue previous then
      previous :: sink value before
    else
      value :: previous :: before

def insertionSort (values : List Value) : List Value :=
  (values.foldl (fun before value => sink keyFromValue value before) []).reverse

end

variable [RadixKey Key] (keyFromValue : Value → Key)

-- Elements are counted by their digits of each pass.
def countDigits (key : Key) (radixBits : Nat) : (pass : Nat) → List (List Nat) → Result (List (List Nat))
  | _, [] => return []
  | pass, histogram :: histograms => do
    let digit ← RadixKey.digit key (pass * radixBits) radixBits
    assert (digit < histogram.length) "index out of bounds"
    return histogram.modify digit (· + 1) :: (← countDigits key radixBits (pass + 1) histograms)

def countAll (radixBits : Nat) : List Value → List (List Nat) → Result (List (List Nat))
  | [], histograms => return histograms
  | value :: values, histograms => do
    countAll radixBits values (← countDigits (keyFromValue value) radixBits 0 histograms)

-- Where the elements of each partition go to.
def targetOffsets : (nextOffset : Nat) → (histogram : List Nat) → List Nat
  | _, [] => []
  | nextOffset, partitionCount :: histogram =>
    nextOffset :: targetOffsets (nextOffset + partitionCount) histogram

def scatter (shift radixBits : Nat) : (source target : List Value) → (offsets : List Nat) →
    Result (List Value)
  | [], target, _ => return target
  | value :: source, target, offsets => do
    let partitionId ← RadixKey.digit (keyFromValue value) shift radixBits
    match offsets[partitionId]? with
    | none => abort "index out of bounds"
    | some index => do
      assert (index < target.length) "index out of bounds"
      scatter shift radixBits source (target.set index value) (offsets.modify partitionId (· + 1))

-- The passes, which swap the roles of the buffers unless all elements are in one partition.
def partitionPasses (radixBits count : Nat) : (pass : Nat) → (histograms : List (List Nat)) →
    (sourceIsValues : Bool) → (values scratch : List Value) → Result (List Value)
  | _, [], sourceIsValues, values, scratch => return if sourceIsValues then values else scratch
  | pass, histogram :: histograms, sourceIsValues, values, scratch => do
    let passTrivial := histogram.contains count
    if passTrivial then
      partitionPasses radixBits count (pass + 1) histograms sourceIsValues values scratch
    else
      let offsets := targetOffsets 0 histogram
      let shift := pass * radixBits
      if sourceIsValues then do
        let scratch ← scatter keyFromValue shift radixBits values scratch offsets
        partitionPasses radixBits count (pass + 1) histograms false values scratch
      else do
        let values ← scatter keyFromValue shift radixBits scratch values offsets
        partitionPasses radixBits count (pass + 1) histograms true values scratch

-- Larger values are moved less often.
def heuristicBits (valueSize : Nat) : Nat :=
  if valueSize ≥ 128 then 11 else 8

def radixSort (valueSize : Nat) (values scratch : List Value) : Result (List Value) := do
  let radixBits := min (RadixKey.bits Key) (heuristicBits valueSize)
  let radixPasses := (RadixKey.bits Key + radixBits - 1) / radixBits
  let radixPartitions := 2 ^ radixBits
  let count := values.length
  assert (radixPasses * radixPartitions * 4 ≤ 200 * kib)
    "radix_passes * radix_partitions * size_of::<u32>() <= 200 * KIB"
  let histograms ← countAll keyFromValue radixBits values
    (List.replicate radixPasses (List.replicate radixPartitions 0))
  partitionPasses keyFromValue radixBits count 0 histograms true values scratch

-- The values are sorted in place. Two slices that are borrowed mutably are always disjoint.
def sort [LinearOrder Key] (valueSize : Nat) (values scratch : List Value) : Result (List Value) := do
  assert (values.length = scratch.length) "values.len() == scratch.len()"
  assert (values.length ≤ u32Max) "values.len() <= u32::MAX"
  if values = [] then
    return values
  else if values.length ≤ 32 then
    return insertionSort keyFromValue values
  else
    radixSort keyFromValue valueSize values scratch

end Radix

end TigerBeetle
