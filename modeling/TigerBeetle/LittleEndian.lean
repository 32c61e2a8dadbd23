import Mathlib

-- Records of fixed-size little-endian fields that lie one after the other.
namespace LittleEndian

def toBytes : (size value : Nat) → List UInt8
  | 0, _ => []
  | size + 1, value => UInt8.ofNat value :: toBytes size (value / 256)

def ofBytes : List UInt8 → Nat
  | [] => 0
  | byte :: bytes => byte.toNat + 256 * ofBytes bytes

@[simp]
theorem length_toBytes {size value : Nat} : (toBytes size value).length = size := by
  induction size generalizing value with
  | zero => rfl
  | succ size ih => rw [toBytes, List.length_cons, ih]

theorem ofBytes_toBytes {size value : Nat} : ofBytes (toBytes size value) = value % 256 ^ size := by
  induction size generalizing value with
  | zero => simp [toBytes, ofBytes, Nat.mod_one]
  | succ size ih =>
    rw [toBytes, ofBytes, ih, UInt8.toNat_ofNat']
    show value % 256 + 256 * (value / 256 % 256 ^ size) = value % 256 ^ (size + 1)
    rw [Nat.pow_succ', Nat.mod_mul]

-- The bits of a word are those of its bytes.
theorem ofNat_ofBytes {size : Nat} {word : BitVec (8 * size)} :
    BitVec.ofNat (8 * size) (ofBytes (toBytes size word.toNat)) = word := by
  have hpow : 256 ^ size = 2 ^ (8 * size) := by rw [Nat.pow_mul]
  rw [ofBytes_toBytes, hpow, Nat.mod_eq_of_lt word.isLt, BitVec.ofNat_toNat, BitVec.setWidth_eq]

variable {α : Type}

def slice (bytes : List α) (offset size : Nat) : List α :=
  (bytes.drop offset).take size

-- A field of a record starts where those before it end.
theorem slice_flatten (fields : List (List α)) {i : Nat} {field : List α}
    (h : fields[i]? = some field) :
    slice fields.flatten ((fields.take i).map List.length).sum field.length = field := by
  have ⟨hi, hget⟩ := List.getElem?_eq_some_iff.mp h
  have hsplit : fields.flatten = (fields.take i).flatten ++ (field ++ (fields.drop (i + 1)).flatten) := by
    rw [← List.flatten_cons, ← List.flatten_append, ← hget, ← List.drop_eq_getElem_cons hi,
      List.take_append_drop]
  rw [slice, hsplit, ← List.length_flatten, List.drop_left, List.take_left]

-- The same holds for a record in the middle of a table of records of the same size.
theorem slice_flatMap {β : Type} {f : β → List α} {size : Nat} (hf : ∀ b, (f b).length = size)
    {items : List β} {i : Nat} {item : β} (h : items[i]? = some item) {rest : List α} :
    slice (items.flatMap f ++ rest) (i * size) size = f item := by
  induction items generalizing i with
  | nil => simp at h
  | cons first items ih =>
    cases i with
    | zero =>
      obtain rfl : first = item := by simpa using h
      rw [slice, Nat.zero_mul, List.drop_zero, List.flatMap_cons, List.append_assoc,
        ← hf first, List.take_left]
    | succ i =>
      have hdrop := ih (i := i) (by simpa using h)
      rw [slice] at hdrop
      rw [slice, List.flatMap_cons, List.append_assoc, Nat.succ_mul, Nat.add_comm, ← List.drop_drop]
      rw [← hf first, List.drop_left, hf first, hdrop]

theorem length_flatMap {β : Type} {f : β → List α} {size : Nat} (hf : ∀ b, (f b).length = size)
    {items : List β} : (items.flatMap f).length = items.length * size := by
  induction items with
  | nil => simp
  | cons first items ih => rw [List.flatMap_cons, List.length_append, hf, ih, List.length_cons,
      Nat.succ_mul, Nat.add_comm]

end LittleEndian
