import TigerBeetle.Theorems.DynamicBitSet

namespace TigerBeetle.DynamicBitSet

open Ewah (Word)

variable {bitLength : Nat} {bits : DynamicBitSet bitLength} {list : List Nat}

theorem countP_words {words : List Word} :
    (List.range (words.length * wordBits)).countP
      (fun i => (words.getD (i / wordBits) 0).getLsbD (i % wordBits)) = (words.map countOnes).sum := by
  induction words using List.reverseRecOn with
  | nil => simp
  | append_singleton words last ih =>
    have hpos : 0 < wordBits := by decide
    have hmul : (words.length + 1) * wordBits = words.length * wordBits + wordBits := Nat.succ_mul _ _
    rw [List.length_append, List.length_singleton, hmul, List.range_add, List.countP_append,
      List.map_append, List.sum_append, List.countP_map, List.map_singleton, List.sum_singleton, ← ih]
    congr 1
    · refine List.countP_congr fun i hi => ?_
      have hlt : i / wordBits < words.length := Nat.div_lt_of_lt_mul
          (Nat.mul_comm _ _ ▸ List.mem_range.mp hi)
      rw [List.getD_append _ _ _ _ hlt]
    · refine List.countP_congr fun i hi => ?_
      have hi := List.mem_range.mp hi
      have hdiv : (words.length * wordBits + i) / wordBits = words.length := by
        rw [Nat.mul_comm, Nat.mul_add_div hpos, Nat.div_eq_of_lt hi, Nat.add_zero]
      have hmod : (words.length * wordBits + i) % wordBits = i := by
        rw [Nat.mul_comm, Nat.mul_add_mod, Nat.mod_eq_of_lt hi]
      rw [Function.comp_apply, hdiv, hmod]
      simp

theorem length_iterSet_le_count : bits.iterSet.length ≤ bits.count := by
  have hle : bitLength ≤ bits.words.toList.length * wordBits := by
    rw [Vector.length_toList]
    unfold wordBits
    omega
  have hbit : bits.bit = fun i => (bits.words.toList.getD (i / wordBits) 0).getLsbD (i % wordBits) := by
    funext i
    exact bit_eq
  unfold iterSet count
  rw [← List.countP_eq_length_filter, ← countP_words, hbit]
  exact List.Sublist.countP_le (List.range_sublist.mpr hle)

theorem length_le_count (hn : list.Nodup) (h : ∀ i ∈ list, i < bitLength ∧ bits.bit i = true) :
    list.length ≤ bits.count := by
  have hsub : list ⊆ bits.iterSet := fun i hi => mem_iterSet.mpr (h i hi)
  exact Nat.le_trans (hn.subperm hsub).length_le length_iterSet_le_count

end TigerBeetle.DynamicBitSet
