import TigerBeetle.PackedArray

namespace TigerBeetle

open Fallible
open Ewah (Word)

-- The bits of a word that an integer of `n` bits takes up, once it is shifted to the right.
def fieldMask (n : Nat) : Word :=
  1#64 <<< n - 1#64

theorem toNat_fieldMask {n : Nat} (h : n < 64) : (fieldMask n).toNat = 2 ^ n - 1 := by
  have hn : 2 ^ n < 2 ^ 64 := Nat.pow_lt_pow_right (by decide) h
  have hp : 1 ≤ 2 ^ n := Nat.one_le_two_pow
  have hs : (1#64 <<< n).toNat = 2 ^ n := by
    rw [BitVec.toNat_shiftLeft, Nat.shiftLeft_eq]
    simpa using Nat.mod_eq_of_lt hn
  have hle : 1#64 ≤ 1#64 <<< n := by simpa [BitVec.le_def, hs] using hp
  show (1#64 <<< n - 1#64).toNat = _
  rw [BitVec.toNat_sub_of_le hle, hs]
  rfl

theorem getLsbD_fieldMask {n k : Nat} (h : n < 64) : (fieldMask n).getLsbD k = decide (k < n) := by
  rw [BitVec.getLsbD, toNat_fieldMask h, Nat.testBit_two_pow_sub_one]

section Fields

variable {word value : Word} {n b b' : Nat}

theorem getLsbD_of_fits {k : Nat} (hv : value.toNat < 2 ^ n) (hk : n ≤ k) :
    value.getLsbD k = false :=
  Nat.testBit_lt_two_pow <| Nat.lt_of_lt_of_le hv <| Nat.pow_le_pow_right (by decide) hk

theorem field_same (hn : n < 64) (hb : b + n ≤ 64) (hv : value.toNat < 2 ^ n) :
    (word &&& ~~~(fieldMask n <<< b) ||| value <<< b) >>> b &&& fieldMask n = value := by
  refine BitVec.eq_of_getLsbD_eq fun k hk => ?_
  simp only [BitVec.getLsbD_and, BitVec.getLsbD_or, BitVec.getLsbD_not, BitVec.getLsbD_ushiftRight,
    BitVec.getLsbD_shiftLeft, getLsbD_fieldMask hn]
  by_cases h : k < n
  · have hlt : b + k < 64 := by omega
    have hb : ¬b + k < b := by omega
    simp [h, hlt, hb]
  · simp [h, getLsbD_of_fits hv (Nat.le_of_not_lt h)]

theorem field_other (hn : n < 64) (hb : b' + n ≤ 64) (hv : value.toNat < 2 ^ n)
    (h : b + n ≤ b' ∨ b' + n ≤ b) :
    (word &&& ~~~(fieldMask n <<< b) ||| value <<< b) >>> b' &&& fieldMask n =
      word >>> b' &&& fieldMask n := by
  refine BitVec.eq_of_getLsbD_eq fun k hk => ?_
  simp only [BitVec.getLsbD_and, BitVec.getLsbD_or, BitVec.getLsbD_not, BitVec.getLsbD_ushiftRight,
    BitVec.getLsbD_shiftLeft, getLsbD_fieldMask hn]
  by_cases hkn : k < n
  · have : b' + k < 64 := by omega
    rcases h with h | h
    · have hb : ¬b' + k < b := by omega
      have hm : ¬b' + k - b < n := by omega
      simp [hkn, hb, hm, this, getLsbD_of_fits hv (Nat.le_of_not_lt hm)]
    · have hb : b' + k < b := by omega
      simp [hkn, hb, this]
  · simp [hkn]

end Fields

namespace PackedUnsignedIntegerArray

variable {array : PackedUnsignedIntegerArray} {index value i : Nat}

-- The number of integers that there is room for.
def capacity (array : PackedUnsignedIntegerArray) : Nat :=
  array.words.length * array.uintsPerWord

-- No integer spans two words.
structure Aligned (array : PackedUnsignedIntegerArray) : Prop where
  pos : 0 < array.bitsPerUint
  lt : array.bitsPerUint < 64
  dvd : array.bitsPerUint ∣ 64

section

variable (h : array.Aligned)

include h

theorem Aligned.uintsPerWord_pos : 0 < array.uintsPerWord :=
  Nat.div_pos (Nat.le_of_lt h.lt) h.pos

theorem Aligned.mask : array.mask.toNat = 2 ^ array.bitsPerUint - 1 :=
  toNat_fieldMask h.lt

theorem Aligned.in_bounds :
    index / array.uintsPerWord < array.words.length ↔ index < array.capacity :=
  Nat.div_lt_iff_lt_mul h.uintsPerWord_pos

theorem Aligned.bitsIndex_le : array.bitsIndex index + array.bitsPerUint ≤ 64 := by
  have hm : index % array.uintsPerWord + 1 ≤ array.uintsPerWord :=
    Nat.mod_lt _ h.uintsPerWord_pos
  calc array.bitsIndex index + array.bitsPerUint
      = (index % array.uintsPerWord + 1) * array.bitsPerUint := by
        rw [Nat.add_mul, Nat.one_mul, bitsIndex]
    _ ≤ array.uintsPerWord * array.bitsPerUint := Nat.mul_le_mul_right _ hm
    _ = 64 := Nat.div_mul_cancel h.dvd

theorem Aligned.uint_le (index : Nat) : array.uint index ≤ 2 ^ array.bitsPerUint - 1 := by
  rw [← h.mask, uint, BitVec.toNat_and]
  exact Nat.and_le_right

theorem Aligned.get_eq (hi : index < array.capacity) :
    array.get index = .ok (array.uint index) := by
  unfold get
  rw [assert_of (h.in_bounds.mpr hi)]
  rfl

theorem Aligned.get_fails (hi : ¬index < array.capacity) :
    array.get index = abort "index out of bounds" := by
  unfold get assert assertOn
  rw [if_neg (mt h.in_bounds.mp hi)]
  rfl

theorem Aligned.set_eq (hi : index < array.capacity)
    (hv : value ≤ 2 ^ array.bitsPerUint - 1) :
    array.set index value = .ok (array.put index value) := by
  unfold set
  rw [assert_of (h.mask ▸ hv), assert_of (h.in_bounds.mpr hi)]
  rfl

end

@[simp]
theorem capacity_put : (array.put index value).capacity = array.capacity := by
  simp [capacity, put, uintsPerWord]

theorem Aligned.put (h : array.Aligned) : (array.put index value).Aligned :=
  ⟨h.pos, h.lt, h.dvd⟩

-- Integers of the same word take up different bits of it.
theorem bitsIndex_disjoint (hi : i ≠ index)
    (hw : i / array.uintsPerWord = index / array.uintsPerWord) :
    array.bitsIndex index + array.bitsPerUint ≤ array.bitsIndex i ∨
      array.bitsIndex i + array.bitsPerUint ≤ array.bitsIndex index := by
  have hi' := Nat.div_add_mod i array.uintsPerWord
  have hindex := Nat.div_add_mod index array.uintsPerWord
  rw [hw] at hi'
  have hne : i % array.uintsPerWord ≠ index % array.uintsPerWord := by omega
  unfold bitsIndex
  rcases Nat.lt_or_gt_of_ne hne with hlt | hlt
  · right
    calc _ = (i % array.uintsPerWord + 1) * array.bitsPerUint := by rw [Nat.add_mul, Nat.one_mul]
      _ ≤ _ := Nat.mul_le_mul_right _ hlt
  · left
    calc _ = (index % array.uintsPerWord + 1) * array.bitsPerUint := by
          rw [Nat.add_mul, Nat.one_mul]
      _ ≤ _ := Nat.mul_le_mul_right _ hlt

theorem Aligned.uint_put (h : array.Aligned) (hi : index < array.capacity)
    (hv : value ≤ 2 ^ array.bitsPerUint - 1) :
    (array.put index value).uint i = if i = index then value else array.uint i := by
  have hb := h.in_bounds.mpr hi
  have hp : 2 ^ array.bitsPerUint < 2 ^ 64 := Nat.pow_lt_pow_right (by decide) h.lt
  have hpos : 0 < 2 ^ array.bitsPerUint := Nat.two_pow_pos _
  have ht : (BitVec.ofNat 64 value).toNat = value := Nat.mod_eq_of_lt (by omega)
  have hfits : (BitVec.ofNat 64 value).toNat < 2 ^ array.bitsPerUint := by omega
  by_cases hw : i / array.uintsPerWord = index / array.uintsPerWord
  · have hword : (array.put index value).word i =
        array.word index &&& ~~~(array.mask <<< array.bitsIndex index) |||
          BitVec.ofNat 64 value <<< array.bitsIndex index := by
      show (array.words.set (index / array.uintsPerWord) _).getD (i / array.uintsPerWord) 0 = _
      rw [hw, List.getD_eq_getElem?_getD, List.getElem?_set_self hb]
      rfl
    show ((array.put index value).word i >>> array.bitsIndex i &&& array.mask).toNat = _
    rw [hword]
    split
    next heq =>
      subst heq
      exact (congrArg BitVec.toNat (field_same h.lt h.bitsIndex_le hfits)).trans ht
    next hne =>
      have hwords : array.word i = array.word index := by rw [word, word, hw]
      rw [uint, hwords]
      exact congrArg BitVec.toNat (field_other h.lt h.bitsIndex_le hfits (bitsIndex_disjoint hne hw))
  · have hne : i ≠ index := fun heq => hw (heq ▸ rfl)
    have hword : (array.put index value).word i = array.word i := by
      show (array.words.set (index / array.uintsPerWord) _).getD (i / array.uintsPerWord) 0 = _
      rw [List.getD_eq_getElem?_getD, List.getElem?_set_ne (Ne.symm hw)]
      rfl
    rw [if_neg hne]
    show ((array.put index value).word i >>> array.bitsIndex i &&& array.mask).toNat = _
    rw [hword]
    rfl

-- The places of the first `n` integers that are not zero.
def nonzero (array : PackedUnsignedIntegerArray) (n : Nat) : Finset Nat :=
  (Finset.range n).filter fun i => 0 < array.uint i

@[simp]
theorem mem_nonzero {n : Nat} : i ∈ array.nonzero n ↔ i < n ∧ 0 < array.uint i := by
  simp [nonzero]

theorem Aligned.nonzero_put {n : Nat} (h : array.Aligned) (hi : index < array.capacity)
    (hn : index < n) (hv : value ≤ 2 ^ array.bitsPerUint - 1) :
    (array.put index value).nonzero n =
      if value = 0 then (array.nonzero n).erase index else insert index (array.nonzero n) := by
  ext i
  split <;> by_cases heq : i = index <;>
    simp [h.uint_put hi hv, heq, hn] <;> omega

theorem uint_of_zero (h : ∀ word ∈ array.words, word = 0) : array.uint index = 0 := by
  have hw : array.word index = 0 := by
    unfold word
    rw [List.getD_eq_getElem?_getD]
    cases hx : array.words[index / array.uintsPerWord]? with
    | none      => rfl
    | some word => exact h word (List.mem_of_getElem? hx)
  simp [uint, hw]

theorem uint_reset : array.reset.uint index = 0 := by
  refine uint_of_zero fun word hw => ?_
  have ⟨_, _, hw⟩ := List.mem_map.mp hw
  exact hw.symm

theorem capacity_reset : array.reset.capacity = array.capacity := by
  simp [capacity, reset, uintsPerWord]

end PackedUnsignedIntegerArray

end TigerBeetle
