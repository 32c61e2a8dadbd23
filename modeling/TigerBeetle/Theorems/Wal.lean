import TigerBeetle.Wal
import TigerBeetle.Theorems.DynamicBitSet

namespace TigerBeetle.Wal

open Fallible Relation

namespace BitSet

variable {bits bits' : BitSet} {slot slot' : Slot}

-- The count is that of the bits that are set.
def Counted (bits : BitSet) : Prop :=
  bits.count = bits.words.iterSet.length

theorem Counted.new : new.Counted := by
  have hnil : (DynamicBitSet.newEmpty : DynamicBitSet journalSlotCount).iterSet = [] := by
    refine List.filter_eq_nil_iff.mpr fun i _ => ?_
    simp
  unfold Counted BitSet.new
  rw [hnil]
  rfl

@[simp]
theorem bit_new : new.bit slot = false :=
  DynamicBitSet.bit_newEmpty

theorem set_eq (h : bits.Counted) :
    ∃ bits', bits.set slot = .ok bits' ∧ bits'.Counted ∧
      ∀ slot', bits'.bit slot' = (bits.bit slot' || decide (slot' = slot)) := by
  unfold set
  split
  case isTrue hb =>
    refine ⟨bits, rfl, h, fun slot' => ?_⟩
    by_cases he : slot' = slot
    · subst he
      simp [hb]
    · simp [he]
  case isFalse hb =>
    have hb : bits.words.bit slot = false := by simpa [bit] using hb
    have hperm := DynamicBitSet.iterSet_insert slot.isLt hb
    have hlen : (bits.words.insert slot).iterSet.length = bits.words.iterSet.length + 1 :=
      hperm.length_eq
    have hle := @DynamicBitSet.length_iterSet_le _ (bits.words.insert slot)
    have hsize : bits.count + 1 ≤ (bits.words.insert slot).words.size * 64 := by
      have hwords : (bits.words.insert slot).words.size * 64 = journalSlotCount := rfl
      unfold Counted at h
      omega
    refine ⟨⟨bits.words.insert slot, bits.count + 1⟩, ?_, ?_, fun slot' => ?_⟩
    · simp only
      rw [assert_of hsize]
      rfl
    · unfold Counted at h ⊢
      simp only
      omega
    · simp only [bit, DynamicBitSet.bit_insert slot.isLt, Fin.ext_iff, eq_comm]

theorem clear_bit :
    (bits.clear slot).bit slot' = (bits.bit slot' && decide (slot' ≠ slot)) := by
  unfold clear
  split
  case isTrue hb =>
    simp only [bit, DynamicBitSet.bit_erase slot.isLt, Fin.ext_iff, ne_eq, eq_comm]
  case isFalse hb =>
    by_cases he : slot' = slot
    · subst he
      simp [hb]
    · simp [he]

theorem Counted.clear (h : bits.Counted) : (bits.clear slot).Counted := by
  unfold BitSet.clear
  split
  case isTrue hb =>
    have hperm := DynamicBitSet.iterSet_erase slot.isLt hb
    have hlen := hperm.length_eq
    unfold Counted at h ⊢
    simp only [List.length_cons] at hlen ⊢
    omega
  case isFalse => exact h

end BitSet

namespace Journal

variable [Env] {journal journal' : Journal} {slot : Slot} {header : Prepare} {op opMin : Nat}

-- The invariant of the journals that the replica works with.
structure Sound (journal : Journal) : Prop where
  recovered : journal.status = .recovered
  slotted : ∀ slot, journal.headers slot = Prepare.reserve journal.cluster slot ∨
    (journal.headers slot).operation ≠ .reserved ∧ Slot.forOp (journal.headers slot).op = slot
  redundant : ∀ slot, journal.headersRedundant slot = Prepare.reserve journal.cluster slot
  dirty : journal.dirty.Counted
  faulty : journal.faulty.Counted
  faultless : ∀ slot, journal.faulty.bit slot = false
  -- There is nothing to write in a slot without an entry.
  clean : ∀ slot, (journal.headers slot).operation = .reserved →
    journal.dirty.bit slot = false ∧ journal.prepareBodies slot = []

theorem Sound.forOp (h : journal.Sound) (slot : Slot) :
    Slot.forOp (journal.headers slot).op = slot := by
  cases h.slotted slot with
  | inl hr =>
    rw [hr]
    exact Fin.ext (Nat.mod_eq_of_lt slot.isLt)
  | inr hp => exact hp.2

theorem Sound.eq_reserve (h : journal.Sound) {slot : Slot}
    (hr : (journal.headers slot).operation = .reserved) :
    journal.headers slot = Prepare.reserve journal.cluster slot :=
  (h.slotted slot).resolve_right fun hp => hp.1 hr

theorem Sound.new {cluster : Nat} : (Journal.new cluster).Sound where
  recovered := rfl
  slotted := fun _ => .inl rfl
  redundant := fun _ => rfl
  dirty := .new
  faulty := .new
  faultless := fun _ => BitSet.bit_new
  clean := fun _ _ => ⟨BitSet.bit_new, rfl⟩

-- The entry at the slot of an op.
def existing (journal : Journal) (op : Nat) : Option Prepare :=
  let header := journal.headers (Slot.forOp op)
  if header.operation = .reserved then none else some header

theorem Sound.headerForOp (h : journal.Sound) :
    journal.headerForOp op = .ok (journal.existing op) := by
  unfold Journal.headerForOp existing
  simp only
  split
  case isTrue hr =>
    have hop : (journal.headers (Slot.forOp op)).op = Slot.forOp op := by rw [h.eq_reserve hr]; rfl
    rw [assert_of hop]
    rfl
  case isFalse =>
    rw [assert_of (h.forOp _)]
    rfl

theorem Sound.headerWithOp (h : journal.Sound) :
    journal.headerWithOp op = .ok ((journal.existing op).filter fun existing => existing.op = op) := by
  unfold Journal.headerWithOp
  rw [h.headerForOp]
  rfl

theorem Sound.hasHeader (h : journal.Sound) (hr : header.operation ≠ .reserved) :
    ∃ has, journal.hasHeader header = .ok has := by
  unfold Journal.hasHeader Journal.headerWithOpAndChecksum
  rw [assert_of h.recovered, assert_of hr, h.headerWithOp]
  exact ⟨_, rfl⟩

omit [Env] in
theorem headers_of_filter (h : (journal.existing op).filter (fun existing => existing.op = op) =
    some header) :
    journal.headers (Slot.forOp op) = header ∧ header.operation ≠ .reserved ∧ header.op = op := by
  simp only [Option.filter_eq_some_iff, existing, Option.ite_none_left_eq_some, Option.some.injEq,
    decide_eq_true_eq] at h
  grind

-- What the journal holds for a slot.
structure Entry where
  header : Prepare
  headerRedundant : Prepare
  dirty : Bool
  faulty : Bool
  prepareChecksum : Nat
  prepareInhabited : Bool
  prepareBody : Body

def entry (journal : Journal) (slot : Slot) : Entry where
  header := journal.headers slot
  headerRedundant := journal.headersRedundant slot
  dirty := journal.dirty.bit slot
  faulty := journal.faulty.bit slot
  prepareChecksum := journal.prepareChecksums slot
  prepareInhabited := journal.prepareInhabited slot
  prepareBody := journal.prepareBodies slot

-- The prepare that is on disk is not forgotten.
def Entry.remove (cluster : Nat) (slot : Slot) (entry : Entry) : Entry where
  header := Prepare.reserve cluster slot
  headerRedundant := Prepare.reserve cluster slot
  dirty := false
  faulty := false
  prepareChecksum := entry.prepareChecksum
  prepareInhabited := entry.prepareInhabited
  prepareBody := []

theorem entry_removeEntry {slot' : Slot} : (journal.removeEntry slot).entry slot' =
    if slot' = slot then (journal.entry slot').remove journal.cluster slot' else journal.entry slot' := by
  by_cases he : slot' = slot
  · subst he
    simp [entry, removeEntry, Entry.remove, BitSet.clear_bit]
  · simp [entry, removeEntry, BitSet.clear_bit, he]

theorem entry_removeEntries (slots : List Slot) (journal : Journal) :
    (slots.foldl (fun journal slot => journal.removeEntry slot) journal).entry slot =
      if slot ∈ slots then (journal.entry slot).remove journal.cluster slot
      else journal.entry slot := by
  induction slots generalizing journal with
  | nil => rfl
  | cons first rest ih =>
    have hcluster : (journal.removeEntry first).cluster = journal.cluster := rfl
    rw [List.foldl_cons, ih, entry_removeEntry, hcluster]
    by_cases he : slot = first
    · subst he
      simp [Entry.remove]
    · simp [he]

theorem Sound.slotsFrom (h : journal.Sound) (slots : List Slot) :
    journal.slotsFrom opMin slots =
      .ok (slots.filter fun slot => opMin ≤ (journal.headers slot).op) := by
  induction slots with
  | nil => rfl
  | cons first rest ih =>
    rw [Journal.slotsFrom, List.filter_cons]
    by_cases hop : opMin ≤ (journal.headers first).op
    · simp only [hop, decide_true, ↓reduceIte, h.forOp]
      rw [assert_of trivial, ih]
      rfl
    · simp only [hop, decide_false, ↓reduceIte, ih]
      rfl

theorem Sound.removeEntriesFrom (h : journal.Sound) (hop : 0 < opMin) :
    journal.removeEntriesFrom opMin = .ok (((List.finRange journalSlotCount).filter fun slot =>
      opMin ≤ (journal.headers slot).op).foldl (fun journal slot => journal.removeEntry slot) journal) := by
  unfold Journal.removeEntriesFrom
  rw [assert_of h.recovered, assert_of hop, h.slotsFrom]
  rfl

-- A slot without an entry is already as it would be left.
theorem Sound.remove_entry (h : journal.Sound)
    (hr : (journal.headers slot).operation = .reserved) :
    (journal.entry slot).remove journal.cluster slot = journal.entry slot := by
  have ⟨hdirty, hbody⟩ := h.clean slot hr
  simp [entry, Entry.remove, h.eq_reserve hr, h.redundant slot, h.faultless slot, hdirty, hbody]

section Steps

theorem Sound.removeEntry (h : journal.Sound) (slot : Slot) : (journal.removeEntry slot).Sound where
  recovered := h.recovered
  slotted := fun slot' => by
    by_cases he : slot' = slot
    · subst he
      simp [Journal.removeEntry]
    · simpa [Journal.removeEntry, he] using h.slotted slot'
  redundant := fun slot' => by
    by_cases he : slot' = slot
    · subst he
      simp [Journal.removeEntry]
    · simpa [Journal.removeEntry, he] using h.redundant slot'
  dirty := h.dirty.clear
  faulty := h.faulty.clear
  faultless := fun slot' => by simp [Journal.removeEntry, BitSet.clear_bit, h.faultless]
  clean := fun slot' => by
    by_cases he : slot' = slot
    · subst he
      simp [Journal.removeEntry, BitSet.clear_bit]
    · simpa [Journal.removeEntry, BitSet.clear_bit, he] using h.clean slot'

theorem Sound.removeEntries (slots : List Slot) {journal : Journal} (h : journal.Sound) :
    (slots.foldl (fun journal slot => journal.removeEntry slot) journal).Sound := by
  induction slots generalizing journal with
  | nil => exact h
  | cons first rest ih => exact ih (h.removeEntry first)

section

variable (h : journal.Sound)

include h

theorem Sound.setPrepareBody {body : Body}
    (hset : journal.setPrepareBody op body = .ok journal') : journal'.Sound := by
  unfold Journal.setPrepareBody at hset
  rw [h.headerWithOp, ok_bind] at hset
  have ⟨hsome, hset⟩ := assert_ok hset
  cases hset
  have ⟨header, hheader⟩ := Option.isSome_iff_exists.mp hsome
  have ⟨hslot, hoperation, _⟩ := headers_of_filter hheader
  refine { h with clean := fun slot hr => ⟨(h.clean slot hr).1, ?_⟩ }
  have hne : slot ≠ Slot.forOp op := by
    rintro rfl
    exact hoperation (hslot ▸ hr)
  simpa [hne] using (h.clean slot hr).2

theorem Sound.setHeaderAsClean
    (hset : journal.setHeaderAsClean op = .ok journal') : journal'.Sound := by
  unfold Journal.setHeaderAsClean at hset
  rw [h.headerWithOp, ok_bind] at hset
  split at hset
  case h_1 header hheader =>
    cases hset
    exact { h with
      dirty := h.dirty.clear
      clean := fun slot hr => ⟨by simp [BitSet.clear_bit, (h.clean slot hr).1], (h.clean slot hr).2⟩ }
  case h_2 =>
    cases hset
    exact h

theorem Sound.resetFaulty (slot : Slot) : (journal.resetFaulty slot).Sound := by
  unfold Journal.resetFaulty
  split
  case isTrue => exact h
  case isFalse =>
    exact { h with
      redundant := fun slot' => by
        by_cases he : slot' = slot
        · subst he
          simp
        · simpa [he] using h.redundant slot'
      faulty := h.faulty.clear
      faultless := fun slot' => by simp [BitSet.clear_bit, h.faultless] }

theorem Sound.setHeaderAsDirty
    (hset : journal.setHeaderAsDirty header = .ok journal') : journal'.Sound := by
  unfold Journal.setHeaderAsDirty at hset
  have ⟨_, hset⟩ := assert_ok hset
  have ⟨hr, hset⟩ := assert_ok hset
  have ⟨has, hhas⟩ := h.hasHeader hr
  rw [slotForHeader, assert_of hr, hhas] at hset
  cases has with
  | true =>
    have ⟨_, hset⟩ := assert_ok hset
    cases hset
    exact h
  | false =>
    have ⟨_, hset⟩ := assert_ok hset
    have hsound := h.resetFaulty (Slot.forOp header.op)
    have ⟨dirty, hdirty, hcounted, hbits⟩ :=
      @BitSet.set_eq _ (Slot.forOp header.op) hsound.dirty
    generalize journal.resetFaulty (Slot.forOp header.op) = marked at hset hsound hdirty hbits
    simp only [hdirty, ok_bind] at hset
    cases hset
    refine { hsound with slotted := fun slot => ?_, dirty := hcounted, clean := fun slot hs => ?_ }
    · by_cases he : slot = Slot.forOp header.op
      · subst he
        simp [hr]
      · simpa [he] using hsound.slotted slot
    · by_cases he : slot = Slot.forOp header.op
      · subst he
        simp [hr] at hs
      · have hs : (Function.update marked.headers _ header slot).operation = .reserved := hs
        rw [Function.update_of_ne he] at hs
        have ⟨hclean, hbody⟩ := hsound.clean slot hs
        exact ⟨by simp [hbits, hclean, he], hbody⟩

theorem Sound.step (hs : Step journal journal') : journal'.Sound := by
  cases hs with
  | setHeaderAsDirty hset => exact h.setHeaderAsDirty hset
  | setHeaderAsClean hset => exact h.setHeaderAsClean hset
  | setPrepareBody hset => exact h.setPrepareBody hset
  | removeEntry => exact h.removeEntry _
  | removeEntriesFrom hremove =>
    have hop : 0 < _ := (assert_ok (assert_ok hremove).2).1
    rw [h.removeEntriesFrom hop] at hremove
    exact Except.ok.inj hremove ▸ h.removeEntries _

end

end Steps

theorem Reachable.sound (h : Reachable journal) : journal.Sound := by
  have ⟨_, hsteps⟩ := h
  induction hsteps with
  | refl => exact .new
  | tail hsteps hs ih => exact (ih ⟨_, hsteps⟩).step hs

-- In all journals that the replica works with, each slot holds its reserved header or one whose op
-- is located there, the bit sets count their members, only dirty slots are faulty, and removing the
-- entries from an op on leaves precisely those slots without an entry.
theorem Reachable.slots (h : Reachable journal) :
    (∀ slot : Slot, journal.headers slot = Prepare.reserve journal.cluster slot ∨
      (journal.headers slot).operation ≠ .reserved ∧
        (journal.headers slot).op % journalSlotCount = slot) ∧
    journal.dirty.count = journal.dirty.words.iterSet.length ∧
    journal.faulty.count = journal.faulty.words.iterSet.length ∧
    (∀ slot, journal.faulty.bit slot → journal.dirty.bit slot) ∧
    ∀ opMin > 0, ∃ journal', journal.removeEntriesFrom opMin = .ok journal' ∧
      ∀ slot, journal'.entry slot =
        if (journal.headers slot).operation ≠ .reserved ∧ opMin ≤ (journal.headers slot).op then
          (journal.entry slot).remove journal.cluster slot
        else
          journal.entry slot := by
  have hs := h.sound
  refine ⟨fun slot => ?_, hs.dirty, hs.faulty, fun slot hf => ?_, fun opMin hop => ?_⟩
  · exact (hs.slotted slot).imp_right fun hp => ⟨hp.1, congrArg Fin.val hp.2⟩
  · rw [hs.faultless] at hf
    cases hf
  · refine ⟨_, hs.removeEntriesFrom hop, fun slot => ?_⟩
    rw [entry_removeEntries]
    by_cases hr : (journal.headers slot).operation = .reserved
    · simp [hr, hs.remove_entry hr]
    · simp [hr]

theorem setHeaderAsDirty_new {cluster : Nat} (hr : header.operation ≠ .reserved) :
    ∃ journal', (new cluster).setHeaderAsDirty header = .ok journal' := by
  have hsound : (new cluster).Sound := .new
  have hnone : (new cluster).existing header.op = none := rfl
  have hle : ((new cluster).headers (Slot.forOp header.op)).op ≤ header.op := Nat.mod_le ..
  have hreset := hsound.resetFaulty (Slot.forOp header.op)
  have ⟨dirty, hdirty, _⟩ := @BitSet.set_eq _ (Slot.forOp header.op) hreset.dirty
  unfold setHeaderAsDirty hasHeader headerWithOpAndChecksum slotForHeader
  simp only [assert_of hsound.recovered, assert_of hr, hsound.headerWithOp, hnone, ok_bind,
    Option.filter_none, pure_bind, Option.isSome_none, Bool.false_eq_true, ↓reduceIte,
    assert_of hle, hdirty]
  exact ⟨_, rfl⟩

omit [Env] in
-- An entry past the first lap of the ring is written, and removed.
theorem Reachable.slots_insert :
    let _ : Env := .plain
    ∃ journal₁ journal₂, (Journal.new 0).setHeaderAsDirty
        { Prepare.zeroed with op := 1030, operation := .noop } = .ok journal₁ ∧
      journal₁.removeEntriesFrom 1000 = .ok journal₂ ∧
      (∀ slot, journal₂.entry slot =
        if (journal₁.headers slot).operation ≠ .reserved ∧ 1000 ≤ (journal₁.headers slot).op then
          (journal₁.entry slot).remove journal₁.cluster slot
        else
          journal₁.entry slot) ∧
      journal₂.dirty.count = journal₂.dirty.words.iterSet.length := by
  intro _
  have ⟨journal₁, hset⟩ := @setHeaderAsDirty_new _
    { Prepare.zeroed with op := 1030, operation := .noop } 0 (by decide)
  have hsteps := Relation.ReflTransGen.single (Step.setHeaderAsDirty hset)
  have ⟨journal₂, hremove, hentry⟩ := (Reachable.slots ⟨0, hsteps⟩).2.2.2.2 1000 (by decide)
  have hr : Reachable journal₂ := ⟨0, hsteps.tail (.removeEntriesFrom hremove)⟩
  exact ⟨journal₁, journal₂, hset, hremove, hentry, (Reachable.slots hr).2.1⟩

end Journal

end TigerBeetle.Wal
