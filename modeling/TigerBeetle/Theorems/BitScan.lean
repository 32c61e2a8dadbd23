import TigerBeetle.BitScan
import TigerBeetle.Theorems.DynamicBitSet

namespace TigerBeetle.DynamicBitSet

open Fallible

open Ewah (Word)

variable {bitLength : Nat} {bits : DynamicBitSet bitLength} {kind : BitKind} {lo hi : Nat}

theorem shiftLeft_of {word : Word} {amount : Nat} (h : amount < wordBits) :
    shiftLeft word amount = .ok (word <<< amount) := by
  unfold shiftLeft
  rw [assert_of h]
  rfl

-- A word that is searched starts before the end of the range, so that its masks are shifted by less
-- than its width.
theorem checkedFindInWords_eq {w : Nat} {words : List Word}
    (h : words ≠ [] → (lo / wordBits + w + words.length - 1) * wordBits ≤ hi) :
    checkedFindInWords lo hi kind w words = findInWords lo hi kind w words := by
  induction words generalizing w with
  | nil => rfl
  | cons word words ih =>
    have hlast := h (List.cons_ne_nil _ _)
    rw [List.length_cons] at hlast
    have hbase : (lo / wordBits + w) * wordBits ≤ hi := by
      have hle : lo / wordBits + w ≤ lo / wordBits + w + (words.length + 1) - 1 := by omega
      exact Nat.le_trans (Nat.mul_le_mul_right _ hle) hlast
    have hoff : lo % wordBits < wordBits := Nat.mod_lt _ (by decide)
    have hrest := ih (w := w + 1) fun _ => by
      have heq : lo / wordBits + (w + 1) + words.length - 1 =
          lo / wordBits + w + (words.length + 1) - 1 := by omega
      rwa [heq]
    unfold checkedFindInWords findInWords
    dsimp only
    rw [shiftLeft_of hoff, assert_of hbase, hrest]
    by_cases hfirst : w = 0 ∧ 0 < lo % wordBits
    · simp only [if_pos hfirst, ok_bind, pure_bind]
      split
      · next hend => rw [shiftLeft_of (by omega)]; rfl
      · rfl
    · simp only [if_neg hfirst, ok_bind, pure_bind]
      split
      · next hend => rw [shiftLeft_of (by omega)]; rfl
      · rfl

theorem checkedFindBit_eq (hle : lo ≤ hi) (hn : hi ≤ bitLength) :
    bits.checkedFindBit lo hi kind = bits.findBit lo hi kind := by
  have hstart : lo / wordBits ≤ (hi + (wordBits - 1)) / wordBits := by
    unfold wordBits
    omega
  have hend : (hi + (wordBits - 1)) / wordBits ≤ bits.words.toList.length := by
    rw [Vector.length_toList]
    exact Nat.div_le_div_right (by omega)
  unfold checkedFindBit findBit
  rw [assert_of hle, assert_of hn, ok_bind, ok_bind, ok_bind, ok_bind]
  dsimp only
  rw [assert_of hstart, assert_of hend, ok_bind, ok_bind]
  refine checkedFindInWords_eq fun hne => ?_
  have hpos := List.length_pos_of_ne_nil hne
  rw [List.length_take, List.length_drop] at hpos ⊢
  unfold wordBits at *
  omega

theorem findFrom_meets {bit count : Nat} (h : bit + count ≤ bitLength) :
    Meets (fun _ => False) (First (bits.Is kind) bit (bit + count)) (bits.findFrom kind bit count) := by
  induction count generalizing bit with
  | zero =>
    intro i hl hh
    omega
  | succ count ih =>
    unfold findFrom
    rw [get_eq (by omega), ok_bind]
    split
    · next his => exact ⟨⟨Nat.le_refl _, by omega, his⟩, fun j hl hj => by omega⟩
    · next hnot =>
      have hrest := @ih (bit + 1) (by omega)
      rw [Nat.add_right_comm, Nat.add_assoc] at hrest
      refine hrest.weaken fun found hf => hf.mono (by omega) fun i hl hi _ his => hnot ?_
      have heq : i = bit := by omega
      exact heq ▸ his

theorem findBitReference_meets (hle : lo ≤ hi) (hn : hi ≤ bitLength) :
    Meets (fun _ => False) (First (bits.Is kind) lo hi) (bits.findBitReference lo hi kind) := by
  have h := @findFrom_meets _ bits kind lo (hi - lo) (by omega)
  rwa [Nat.add_sub_cancel' hle] at h

theorem First.unique {p : Nat → Prop} {found found' : Option Nat} (h : First p lo hi found)
    (h' : First p lo hi found') : found = found' := by
  cases found with
  | none =>
    cases found' with
    | none   => rfl
    | some j => exact absurd h'.1.2.2 (h j h'.1.1 h'.1.2.1)
  | some i =>
    cases found' with
    | none   => exact absurd h.1.2.2 (h' i h.1.1 h.1.2.1)
    | some j =>
      have hij : ¬i < j := fun hlt => h'.2 i h.1.1 hlt h.1.2.2
      have hji : ¬j < i := fun hlt => h.2 j h'.1.1 hlt h'.1.2.2
      rw [Nat.le_antisymm (Nat.le_of_not_lt hji) (Nat.le_of_not_lt hij)]

-- The search by words answers what the linear scan does, which is the first bit of the kind, and no
-- shift reaches the width of a word.
theorem findBit_scans (hle : lo ≤ hi) (hn : hi ≤ bitLength) :
    ∃ found, bits.findBit lo hi kind = .ok found ∧ bits.checkedFindBit lo hi kind = .ok found ∧
      bits.findBitReference lo hi kind = .ok found ∧ First (bits.Is kind) lo hi found := by
  have hfind := @findBit_meets _ bits _ _ kind hle hn
  have hscan := @findBitReference_meets _ bits kind _ _ hle hn
  have hchecked := @checkedFindBit_eq _ bits kind _ _ hle hn
  cases hf : bits.findBit lo hi kind with
  | error e =>
    rw [hf] at hfind
    exact absurd hfind id
  | ok found =>
    cases hr : bits.findBitReference lo hi kind with
    | error e =>
      rw [hr] at hscan
      exact absurd hscan id
    | ok found' =>
      rw [hf] at hfind
      rw [hr] at hscan
      obtain rfl := First.unique hfind hscan
      exact ⟨found, rfl, hchecked.trans hf, rfl, hfind⟩

theorem findBit_scans_within_a_word :
    ∃ found, ((newEmpty : DynamicBitSet 70).insert 9).findBit 3 12 .set = .ok found ∧
      ((newEmpty : DynamicBitSet 70).insert 9).checkedFindBit 3 12 .set = .ok found ∧
      ((newEmpty : DynamicBitSet 70).insert 9).findBitReference 3 12 .set = .ok found ∧
      First (((newEmpty : DynamicBitSet 70).insert 9).Is .set) 3 12 found :=
  findBit_scans (by decide) (by decide)

end TigerBeetle.DynamicBitSet
