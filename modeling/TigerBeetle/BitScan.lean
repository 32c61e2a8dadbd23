import TigerBeetle.DynamicBitSet

-- The search for a bit with every fault of its slice, its shifts and its subtraction, which stop the
-- program like an assertion, and the linear scan it is tested against.
namespace TigerBeetle.DynamicBitSet

open Ewah (Word)

variable {bitLength : Nat}

def shiftLeft (word : Word) (amount : Nat) : Result Word := do
  assert (amount < wordBits) "attempt to shift left with overflow"
  return word <<< amount

def checkedFindInWords (bitMin bitMax : Nat) (kind : BitKind) :
    (w : Nat) → List Word → Result (Option Nat)
  | _, [] => return none
  | w, word :: words => do
    let wordOffset := bitMin % wordBits
    let candidate := if kind = .set then word else ~~~word
    let candidate ←
      if w = 0 ∧ 0 < wordOffset then do
        let below ← shiftLeft 1 wordOffset
        pure (candidate &&& ~~~(below - 1))
      else
        pure candidate
    let wordBitBase := (bitMin / wordBits + w) * wordBits
    let candidate ←
      if bitMax < wordBitBase + wordBits then do
        assert (wordBitBase ≤ bitMax) "attempt to subtract with overflow"
        let keep := bitMax - wordBitBase
        let beyond ← shiftLeft 1 keep
        pure (candidate &&& (beyond - 1))
      else
        pure candidate
    if candidate ≠ 0 then do
      let bit := wordBitBase + trailingZeros candidate
      assert (bitMin ≤ bit ∧ bit < bitMax) "bit >= bit_min && bit < bit_max"
      return some bit
    else
      checkedFindInWords bitMin bitMax kind (w + 1) words

def checkedFindBit (bits : DynamicBitSet bitLength) (bitMin bitMax : Nat) (kind : BitKind) :
    Result (Option Nat) := do
  assert (bitMin ≤ bitMax) "bit_max >= bit_min"
  assert (bitMax ≤ bitLength) "bit_max <= bit_set.len()"
  let wordStart := bitMin / wordBits
  let wordEnd := (bitMax + (wordBits - 1)) / wordBits
  assert (wordStart ≤ wordEnd) "slice index starts after its end"
  assert (wordEnd ≤ bits.words.toList.length) "range end index out of range for slice"
  checkedFindInWords bitMin bitMax kind 0
    ((bits.words.toList.drop wordStart).take (wordEnd - wordStart))

-- Tries one bit after the other.
def findFrom (bits : DynamicBitSet bitLength) (kind : BitKind) : (bit count : Nat) → Result (Option Nat)
  | _, 0 => return none
  | bit, count + 1 => do
    if (← bits.get bit) = decide (kind = .set) then
      return some bit
    else
      findFrom bits kind (bit + 1) count

def findBitReference (bits : DynamicBitSet bitLength) (bitMin bitMax : Nat) (kind : BitKind) :
    Result (Option Nat) :=
  bits.findFrom kind bitMin (bitMax - bitMin)

end TigerBeetle.DynamicBitSet
