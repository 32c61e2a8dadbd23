import TigerBeetle.DynamicBitSet

namespace TigerBeetle.DynamicBitSet

open Fallible

open Ewah (Word)

variable {bitLength : Nat} {bits : DynamicBitSet bitLength} {index i lo hi : Nat}

theorem mask_eq : mask index = BitVec.twoPow 64 (index % wordBits) := by
  rw [BitVec.twoPow_eq]
  rfl

theorem bit_eq : bits.bit index = (bits.word index).getLsbD (index % wordBits) := by
  have hlt : index % wordBits < 64 := Nat.mod_lt _ (by decide)
  unfold bit
  rw [mask_eq, BitVec.and_twoPow]
  cases (bits.word index).getLsbD (index % wordBits) with
  | false => simp
  | true =>
    have hne : BitVec.twoPow 64 (index % wordBits) ≠ 0 := by
      intro h
      have := congrArg (·.getLsbD (index % wordBits)) h
      simp [hlt] at this
    simpa using hne

theorem word_setIfInBounds {word : Word} (h : index < bitLength) :
    (⟨bits.words.setIfInBounds (index / wordBits) word⟩ : DynamicBitSet bitLength).word i =
      if index / wordBits = i / wordBits then word else bits.word i := by
  have hlt : index / wordBits < (bitLength + (wordBits - 1)) / wordBits := by
    unfold wordBits
    omega
  unfold DynamicBitSet.word
  rw [Vector.toList_setIfInBounds]
  simp only [List.getD_eq_getElem?_getD, List.getElem?_set, Vector.length_toList, hlt, ↓reduceIte]
  split <;> rfl

theorem div_eq_and_mod_eq : index / wordBits = i / wordBits ∧ index % wordBits = i % wordBits ↔
    index = i := by
  unfold wordBits
  omega

theorem bit_insert (h : index < bitLength) :
    (bits.insert index).bit i = (bits.bit i || decide (index = i)) := by
  have hlt : index % wordBits < 64 := Nat.mod_lt _ (by decide)
  rw [bit_eq, insert, word_setIfInBounds h]
  split
  · next hw =>
    have hword : bits.word index = bits.word i := by
      unfold word
      rw [hw]
    rw [BitVec.getLsbD_or, mask_eq, BitVec.getLsbD_twoPow, hword, bit_eq]
    have hm := @div_eq_and_mod_eq index i
    simp [hlt, ← hm, hw]
  · next hw =>
    have hne : index ≠ i := fun he => hw (he ▸ rfl)
    simp [bit_eq, hne]

theorem bit_erase (h : index < bitLength) :
    (bits.erase index).bit i = (bits.bit i && decide (index ≠ i)) := by
  have hlt : index % wordBits < 64 := Nat.mod_lt _ (by decide)
  have hlt' : i % wordBits < 64 := Nat.mod_lt _ (by decide)
  rw [bit_eq, erase, word_setIfInBounds h]
  split
  · next hw =>
    have hword : bits.word index = bits.word i := by
      unfold word
      rw [hw]
    rw [BitVec.getLsbD_and, BitVec.getLsbD_not, mask_eq, BitVec.getLsbD_twoPow, hword, bit_eq]
    have hm := @div_eq_and_mod_eq index i
    simp [hlt, hlt', ← hm, hw]
  · next hw =>
    have hne : index ≠ i := fun he => hw (he ▸ rfl)
    simp [bit_eq, hne]

@[simp]
theorem bit_newEmpty : (newEmpty : DynamicBitSet bitLength).bit i = false := by
  rw [bit_eq]
  unfold word newEmpty
  rw [Vector.toList_replicate, List.getD_eq_getElem?_getD, List.getElem?_replicate]
  split <;> simp

theorem count_newEmpty : (newEmpty : DynamicBitSet bitLength).count = 0 := by
  have hzero : countOnes 0 = 0 := by decide
  unfold count newEmpty
  rw [Vector.toList_replicate, List.map_replicate, hzero]
  simp

theorem get_eq (h : index < bitLength) : bits.get index = .ok (bits.bit index) := by
  unfold get
  rw [assert_of h]
  rfl

theorem set_eq (h : index < bitLength) : bits.set index = .ok (bits.insert index) := by
  unfold set
  rw [assert_of h]
  rfl

theorem unset_eq (h : index < bitLength) : bits.unset index = .ok (bits.erase index) := by
  unfold unset
  rw [assert_of h]
  rfl

theorem mem_iterSet : i ∈ bits.iterSet ↔ i < bitLength ∧ bits.bit i = true := by
  simp [iterSet]

theorem nodup_iterSet : bits.iterSet.Nodup :=
  List.nodup_range.filter _

theorem length_iterSet_le : bits.iterSet.length ≤ bitLength := by
  have hle := List.length_filter_le bits.bit (List.range bitLength)
  rwa [List.length_range] at hle

theorem iterSet_insert (h : index < bitLength) (hb : bits.bit index = false) :
    (bits.insert index).iterSet.Perm (index :: bits.iterSet) := by
  have hm : index ∉ bits.iterSet := by simp [mem_iterSet, hb]
  refine (List.perm_ext_iff_of_nodup nodup_iterSet (List.nodup_cons.mpr ⟨hm, nodup_iterSet⟩)).mpr
    fun i => ?_
  simp only [mem_iterSet, bit_insert h, Bool.or_eq_true, decide_eq_true_eq, List.mem_cons]
  grind

theorem iterSet_erase (h : index < bitLength) (hb : bits.bit index = true) :
    bits.iterSet.Perm (index :: (bits.erase index).iterSet) := by
  have hm : index ∉ (bits.erase index).iterSet := by simp [mem_iterSet, bit_erase h]
  refine (List.perm_ext_iff_of_nodup nodup_iterSet (List.nodup_cons.mpr ⟨hm, nodup_iterSet⟩)).mpr
    fun i => ?_
  simp only [mem_iterSet, bit_erase h, Bool.and_eq_true, decide_eq_true_eq, List.mem_cons]
  grind

section FindBit

-- The first index of a range at which a predicate holds, if there is one.
def First (p : Nat → Prop) (lo hi : Nat) : Option Nat → Prop
  | none   => ∀ i, lo ≤ i → i < hi → ¬p i
  | some i => (lo ≤ i ∧ i < hi ∧ p i) ∧ ∀ j, lo ≤ j → j < i → ¬p j

theorem First.mono {p : Nat → Prop} {found : Option Nat} {start : Nat} (h : First p start hi found)
    (hle : lo ≤ start) (hp : ∀ i, lo ≤ i → i < start → i < hi → ¬p i) :
    First p lo hi found := by
  cases found with
  | none =>
    intro i hl hh
    by_cases hi : i < start
    · exact hp i hl hi hh
    · exact h i (by omega) hh
  | some i =>
    refine ⟨⟨Nat.le_trans hle h.1.1, h.1.2⟩, fun j hl hj => ?_⟩
    by_cases hi : j < start
    · exact hp j hl hi (Nat.lt_trans hj h.1.2.1)
    · exact h.2 j (by omega) hj

theorem trailingZeros_spec {word : Word} (h : word ≠ 0) :
    trailingZeros word < wordBits ∧ word.getLsbD (trailingZeros word) = true ∧
      ∀ j < trailingZeros word, word.getLsbD j = false := by
  have hex : ∃ j < wordBits, word.getLsbD j = true := by
    by_contra hn
    refine h (BitVec.eq_of_getLsbD_eq fun j hj => ?_)
    by_contra hb
    exact hn ⟨j, hj, by simpa using hb⟩
  unfold trailingZeros
  cases hf : (List.range wordBits).find? fun i => word.getLsbD i with
  | none =>
    obtain ⟨j, hj, hb⟩ := hex
    have := List.find?_eq_none.mp hf j (List.mem_range.mpr hj)
    exact absurd hb (by simpa using this)
  | some k =>
    have hk := List.find?_range_eq_some.mp hf
    simp only [Option.getD_some]
    exact ⟨List.mem_range.mp hk.2.1, hk.1, fun j hj => by simpa using hk.2.2 j hj⟩

theorem getLsbD_lowMask {k j : Nat} (hk : k < wordBits) :
    ((1 : Word) <<< k - 1).getLsbD j = decide (j < k) := by
  have hpow : 2 ^ k < 2 ^ 64 := Nat.pow_lt_pow_right (by decide) hk
  have hpos : 0 < 2 ^ k := Nat.two_pow_pos k
  have hnat : ((1 : Word) <<< k - 1).toNat = 2 ^ k - 1 := by
    have hone : ((1 : Word) <<< k).toNat = 2 ^ k := by
      show (1#64 <<< k).toNat = 2 ^ k
      rw [← BitVec.twoPow_eq, BitVec.toNat_twoPow, Nat.mod_eq_of_lt hpow]
    rw [BitVec.toNat_sub, hone]
    have : (1 : Word).toNat = 1 := rfl
    omega
  rw [← BitVec.testBit_toNat, hnat, Nat.testBit_two_pow_sub_one]

theorem getLsbD_word {w j : Nat} (hj : j < wordBits) (hw : w < bits.words.toList.length) :
    (bits.words.toList[w]).getLsbD j = bits.bit (w * wordBits + j) := by
  have hdiv : (w * wordBits + j) / wordBits = w := by
    unfold wordBits at *
    omega
  have hmod : (w * wordBits + j) % wordBits = j := by
    unfold wordBits at *
    omega
  rw [bit_eq, word, hdiv, hmod, List.getD_eq_getElem?_getD, List.getElem?_eq_getElem hw]
  rfl

-- The bits of the kind.
def Is (bits : DynamicBitSet bitLength) (kind : BitKind) (i : Nat) : Prop :=
  bits.bit i = decide (kind = .set)

variable {kind : BitKind}

-- What is left of a word once the bits outside of the range are masked.
theorem getLsbD_candidate {w base j : Nat} {word candidate : Word} (hj : j < wordBits)
    (hbase : lo / wordBits + w = base) (hhi : base * wordBits < hi)
    (hword : word.getLsbD j = bits.bit (base * wordBits + j))
    (hc : candidate =
      let candidate := if kind = .set then word else ~~~word
      let candidate :=
        if w = 0 ∧ 0 < lo % wordBits then candidate &&& ~~~((1 : Word) <<< (lo % wordBits) - 1)
        else candidate
      if hi < base * wordBits + wordBits then
        candidate &&& ((1 : Word) <<< (hi - base * wordBits) - 1)
      else
        candidate) :
    candidate.getLsbD j = true ↔ bits.Is kind (base * wordBits + j) ∧
      lo ≤ base * wordBits + j ∧ base * wordBits + j < hi := by
  have hj' : j < 64 := hj
  have hkind : (if kind = .set then word else ~~~word).getLsbD j = true ↔
      bits.Is kind (base * wordBits + j) := by
    unfold Is
    cases kind with
    | set   => simp [hword]
    | unset =>
      rw [if_neg (by decide), BitVec.getLsbD_not, hword]
      simp [hj']
  have hoff : lo % wordBits < wordBits := Nat.mod_lt _ (by decide)
  have hlo : (if w = 0 ∧ 0 < lo % wordBits then
      (if kind = .set then word else ~~~word) &&& ~~~((1 : Word) <<< (lo % wordBits) - 1)
      else if kind = .set then word else ~~~word).getLsbD j = true ↔
      bits.Is kind (base * wordBits + j) ∧ lo ≤ base * wordBits + j := by
    split
    · next hw =>
      rw [BitVec.getLsbD_and, BitVec.getLsbD_not, getLsbD_lowMask hoff, Bool.and_eq_true, hkind]
      simp only [hj', decide_true, Bool.true_and, Bool.not_eq_true', decide_eq_false_iff_not]
      have : ¬j < lo % wordBits ↔ lo ≤ base * wordBits + j := by
        unfold wordBits at *
        omega
      rw [this]
    · next hw =>
      rw [hkind]
      have : lo ≤ base * wordBits + j := by
        unfold wordBits at *
        omega
      simp [this]
  rw [hc]
  dsimp only
  split
  · next hlt =>
    rw [BitVec.getLsbD_and, getLsbD_lowMask (by omega), Bool.and_eq_true, hlo, and_assoc,
      decide_eq_true_iff]
    have : j < hi - base * wordBits ↔ base * wordBits + j < hi := by omega
    rw [this]
  · next hge =>
    rw [hlo]
    have : base * wordBits + j < hi := by omega
    simp [this]

theorem findInWords_meets {w : Nat} {words : List Word} (hn : hi ≤ bitLength)
    (hw : lo / wordBits + w ≤ (hi + (wordBits - 1)) / wordBits)
    (hwords : words = (bits.words.toList.drop (lo / wordBits + w)).take
      ((hi + (wordBits - 1)) / wordBits - (lo / wordBits + w))) :
    Meets (fun _ => False) (First (bits.Is kind) (max lo ((lo / wordBits + w) * wordBits)) hi)
      (findInWords lo hi kind w words) := by
  have hlength := congrArg List.length hwords
  rw [List.length_take, List.length_drop, Vector.length_toList] at hlength
  induction words generalizing w with
  | nil =>
    intro i hl hh
    rw [List.length_nil] at hlength
    unfold wordBits at *
    omega
  | cons word words ih =>
    rw [List.length_cons] at hlength
    generalize hb : lo / wordBits + w = base at hw hwords hlength ⊢
    have hbound : base < bits.words.toList.length := by
      rw [Vector.length_toList]
      omega
    have hhi : base * wordBits < hi := by
      unfold wordBits at *
      omega
    have hsplit : (hi + (wordBits - 1)) / wordBits - base =
        (hi + (wordBits - 1)) / wordBits - (base + 1) + 1 := by omega
    rw [hsplit, List.drop_eq_getElem_cons hbound, List.take_succ_cons] at hwords
    obtain ⟨rfl, hrest⟩ := List.cons.inj hwords
    unfold findInWords
    dsimp only
    rw [hb]
    generalize hc : (if hi < base * wordBits + wordBits then _ else _ : Word) = candidate
    have hcandidate := fun j (hj : j < wordBits) =>
      getLsbD_candidate hj hb hhi (getLsbD_word hj hbound) hc.symm
    split
    case isTrue hne =>
      have ⟨hlt, hbit, hfirst⟩ := trailingZeros_spec hne
      have ⟨his, hlo, hlt'⟩ := (hcandidate _ hlt).mp hbit
      rw [assert_of ⟨hlo, hlt'⟩]
      refine ⟨⟨by omega, hlt', his⟩, fun j hl hj his' => ?_⟩
      have hk := hfirst (j - base * wordBits) (by omega)
      have hk' := (hcandidate (j - base * wordBits) (by omega)).mpr
        (by rw [Nat.add_sub_cancel' (by omega)]; exact ⟨his', by omega, by omega⟩)
      rw [hk] at hk'
      cases hk'
    case isFalse hzero =>
      have hnone : ∀ i, max lo (base * wordBits) ≤ i → i < (base + 1) * wordBits → i < hi →
          ¬bits.Is kind i := by
        intro i hl hi' hh his
        have hk := (hcandidate (i - base * wordBits) (by unfold wordBits at *; omega)).mpr
          (by rw [Nat.add_sub_cancel' (by omega)]; exact ⟨his, by omega, by omega⟩)
        rw [not_not.mp hzero] at hk
        simp at hk
      have hnext : lo / wordBits + (w + 1) = base + 1 := by omega
      have hr := ih (w := w + 1) (by unfold wordBits at *; omega) (by rw [hnext]; exact hrest)
        (by rw [hnext]; unfold wordBits at *; omega)
      rw [hnext] at hr
      refine hr.weaken fun found hf => hf.mono (by unfold wordBits; omega) fun i hl hi' hh => ?_
      by_cases hb : i < (base + 1) * wordBits
      · exact hnone i hl hb hh
      · omega

-- The first bit of the kind within a range is found.
theorem findBit_meets (hle : lo ≤ hi) (hn : hi ≤ bitLength) :
    Meets (fun _ => False) (First (bits.Is kind) lo hi) (bits.findBit lo hi kind) := by
  unfold findBit
  rw [assert_of hle, ok_bind, assert_of hn, ok_bind]
  refine (findInWords_meets hn (by unfold wordBits; omega) rfl).weaken fun found hf => ?_
  rwa [Nat.add_zero, Nat.max_eq_left (by unfold wordBits; omega)] at hf

end FindBit

end TigerBeetle.DynamicBitSet
