import Mathlib

-- Machine words as sets of small numbers.
namespace BitSet

variable {width bits i j q : Nat}

-- The members of a word of the given width.
def ones (width bits : Nat) : Finset Nat :=
  (Finset.range width).filter (bits.testBit ·)

def countOnes (width bits : Nat) : Nat :=
  (ones width bits).card

def insert (bits i : Nat) : Nat :=
  bits ||| 1 <<< i

def erase (width bits i : Nat) : Nat :=
  bits &&& ((2 ^ width - 1) ^^^ 1 <<< i)

@[simp]
theorem mem_ones : i ∈ ones width bits ↔ i < width ∧ bits.testBit i := by
  simp [ones]

@[simp]
theorem testBit_insert : (insert bits i).testBit j = (bits.testBit j || decide (i = j)) := by
  simp [insert, Nat.one_shiftLeft, Nat.testBit_two_pow]

theorem insert_ne_zero : insert bits i ≠ 0 := by
  intro h
  have hbit : (insert bits i).testBit i := by simp
  simp [h] at hbit

theorem testBit_erase (hi : i < width) :
    (erase width bits i).testBit j = (bits.testBit j && decide (j < width ∧ j ≠ i)) := by
  simp only [erase, Nat.one_shiftLeft, Nat.testBit_and, Nat.testBit_xor,
    Nat.testBit_two_pow_sub_one, Nat.testBit_two_pow]
  by_cases hj : i = j
  · subst hj
    simp [hi]
  · simp [hj, Ne.symm hj]

theorem ones_zero : ones width 0 = ∅ := by
  ext i
  simp

theorem ones_insert (hi : i < width) :
    ones width (insert bits i) = Insert.insert i (ones width bits) := by
  ext j
  simp only [mem_ones, testBit_insert, Bool.or_eq_true, decide_eq_true_eq, Finset.mem_insert]
  constructor
  · rintro ⟨hj, h | h⟩
    · exact .inr ⟨hj, h⟩
    · exact .inl h.symm
  · rintro (h | ⟨hj, h⟩)
    · exact ⟨h ▸ hi, .inr h.symm⟩
    · exact ⟨hj, .inl h⟩

theorem ones_erase (hi : i < width) :
    ones width (erase width bits i) = (ones width bits).erase i := by
  ext j
  simp only [mem_ones, testBit_erase hi, Bool.and_eq_true, decide_eq_true_eq, Finset.mem_erase]
  constructor
  · rintro ⟨hj, h, _, hne⟩
    exact ⟨hne, hj, h⟩
  · rintro ⟨hne, hj, h⟩
    exact ⟨hj, h, hj, hne⟩

theorem insert_lt (hb : bits < 2 ^ width) (hi : i < width) : insert bits i < 2 ^ width := by
  refine Nat.lt_pow_two_of_testBit _ fun j hj => ?_
  have hp := hb.trans_le (Nat.pow_le_pow_right (n := 2) (by decide) hj)
  simp only [testBit_insert, Nat.testBit_lt_two_pow hp, Bool.false_or, decide_eq_false_iff_not]
  omega

theorem erase_le : erase width bits i ≤ bits :=
  Nat.and_le_left

theorem ones_shiftLeft (hi : i < width) : ones width (1 <<< i) = {i} := by
  ext j
  simp only [mem_ones, Nat.one_shiftLeft, Nat.testBit_two_pow, decide_eq_true_eq,
    Finset.mem_singleton]
  omega

theorem shiftLeft_lt (hi : i < width) : 1 <<< i < 2 ^ width := by
  rw [Nat.one_shiftLeft]
  exact Nat.pow_lt_pow_right (by decide) hi

theorem subset_range_iff : ones width bits ⊆ Finset.range q ↔
    ∀ i, i < width → bits.testBit i → i < q := by
  simp only [Finset.subset_iff, mem_ones, Finset.mem_range, and_imp]

theorem lt_width_of_testBit (hw : bits < 2 ^ width) (hb : bits.testBit i) : i < width := by
  by_contra hi
  have hge := Nat.ge_two_pow_of_testBit hb
  have hpow := Nat.pow_le_pow_right (n := 2) (by decide) (Nat.not_lt.mp hi)
  omega

theorem lt_two_pow_of_subset (hw : bits < 2 ^ width) (hs : ones width bits ⊆ Finset.range q) :
    bits < 2 ^ q := by
  refine Nat.lt_pow_two_of_testBit bits fun i hi => ?_
  by_contra hb
  have hb : bits.testBit i = true := by simpa using hb
  exact absurd (subset_range_iff.mp hs i (lt_width_of_testBit hw hb) hb) (by omega)

theorem two_pow_le_of_not_subset (hs : ¬ones width bits ⊆ Finset.range q) : 2 ^ q ≤ bits := by
  have ⟨i, hi, hq⟩ : ∃ i ∈ ones width bits, i ∉ Finset.range q := Finset.not_subset.mp hs
  have hge : 2 ^ i ≤ bits := Nat.ge_two_pow_of_testBit (mem_ones.mp hi).2
  exact (Nat.pow_le_pow_right (by decide) (by simpa using hq)).trans hge

theorem eq_mask_iff (hw : bits < 2 ^ width) (hs : ones width bits ⊆ Finset.range q) :
    bits = 2 ^ q - 1 ↔ q ≤ countOnes width bits := by
  constructor
  · intro he
    have hall : Finset.range q ⊆ ones width bits := fun i hi => by
      have hb : bits.testBit i = true := by
        rw [he, Nat.testBit_two_pow_sub_one]
        simpa using hi
      exact mem_ones.mpr ⟨lt_width_of_testBit hw hb, hb⟩
    simpa [countOnes] using Finset.card_le_card hall
  · intro h
    have he : ones width bits = Finset.range q :=
      Finset.eq_of_subset_of_card_le hs (by simpa [countOnes] using h)
    have hlt := lt_two_pow_of_subset hw hs
    refine Nat.eq_of_testBit_eq fun i => ?_
    rw [Nat.testBit_two_pow_sub_one]
    by_cases hi : i < q
    · have hm := (Finset.ext_iff.mp he i).mpr (Finset.mem_range.mpr hi)
      simp [hi, (mem_ones.mp hm).2]
    · have hlt' := hlt.trans_le (Nat.pow_le_pow_right (n := 2) (by decide) (Nat.not_lt.mp hi))
      simp [hi, Nat.testBit_lt_two_pow hlt']

-- A word is at least the word that has all of the lowest `q` bits set precisely if it has as many
-- members as that, or if it has any member outside of the lowest `q`.
theorem mask_le_iff (hw : bits < 2 ^ width) :
    2 ^ q - 1 ≤ bits ↔ q ≤ countOnes width bits ∨ ¬ones width bits ⊆ Finset.range q := by
  by_cases hs : ones width bits ⊆ Finset.range q
  case neg =>
    have hge := two_pow_le_of_not_subset hs
    simp only [hs, not_false_eq_true, or_true, iff_true]
    omega
  case pos =>
    have hlt := lt_two_pow_of_subset hw hs
    rw [← eq_mask_iff hw hs]
    simp only [hs, not_true_eq_false, or_false]
    omega

end BitSet
