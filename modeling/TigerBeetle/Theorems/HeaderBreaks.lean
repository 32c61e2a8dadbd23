import TigerBeetle.Theorems.Journal

namespace TigerBeetle.Journal

open Fallible

variable {journal : Journal} {opMin opMax op : Nat} {range : HeaderRange} {a b : Prepare}

-- The header of the op is the parent of the next one.
def Linked (journal : Journal) (op : Nat) : Prop :=
  ∃ a b, journal.headerWithOp op = some a ∧ journal.headerWithOp (op + 1) = some b ∧
    a.checksum = b.parent

-- Headers of consecutive ops are linked if they are of the same view, and no header is the parent of
-- one of an older view.
structure Consistent (journal : Journal) : Prop where
  linked : ∀ op a b, journal.headerWithOp op = some a → journal.headerWithOp (op + 1) = some b →
    a.view = b.view → a.checksum = b.parent
  view_le : ∀ op a b, journal.headerWithOp op = some a → journal.headerWithOp (op + 1) = some b →
    a.checksum = b.parent → a.view ≤ b.view

-- A break grows downwards over an op that is missing, and over one that is followed by a header of the
-- same view or a newer one. The lowest op is committed if it is there.
def Grows (journal : Journal) (opMin op : Nat) : Prop :=
  journal.headerWithOp op = none ∨ op ≠ opMin ∧
    ∃ a b, journal.headerWithOp op = some a ∧ journal.headerWithOp (op + 1) = some b ∧ a.view ≤ b.view

-- The range ends at the highest op that is missing or not the parent of the next one, and it has grown
-- downwards as far as it does.
structure Break (journal : Journal) (opMin opMax : Nat) (range : HeaderRange) : Prop where
  le : opMin ≤ range.opMin
  ordered : range.opMin ≤ range.opMax
  lt : range.opMax < opMax
  broken : ¬Linked journal range.opMax
  above : ∀ op, range.opMax < op → op < opMax → Linked journal op
  grown : ∀ op, range.opMin ≤ op → op < range.opMax → Grows journal opMin op
  closed : range.opMin = opMin ∨ ¬Grows journal opMin (range.opMin - 1)

theorem not_linked_of_none (h : journal.headerWithOp op = none) : ¬Linked journal op := by
  rintro ⟨a, b, ha, -⟩
  rw [h] at ha
  cases ha

theorem linked_iff (ha : journal.headerWithOp op = some a) (hb : journal.headerWithOp (op + 1) = some b) :
    Linked journal op ↔ a.checksum = b.parent := by
  refine ⟨fun ⟨a', b', ha', hb', heq⟩ => ?_, fun heq => ⟨a, b, ha, hb, heq⟩⟩
  rwa [Option.some.inj (ha.symm.trans ha'), Option.some.inj (hb.symm.trans hb')]

theorem grows_iff (hne : op ≠ opMin) (ha : journal.headerWithOp op = some a)
    (hb : journal.headerWithOp (op + 1) = some b) : Grows journal opMin op ↔ a.view ≤ b.view := by
  refine ⟨fun h => ?_, fun hle => .inr ⟨hne, a, b, ha, hb, hle⟩⟩
  obtain hnone | ⟨_, a', b', ha', hb', hle⟩ := h
  · rw [hnone] at ha
    cases ha
  · rwa [Option.some.inj (ha.symm.trans ha'), Option.some.inj (hb.symm.trans hb')]

theorem not_grows_min (ha : journal.headerWithOp opMin = some a) : ¬Grows journal opMin opMin := by
  rintro (hnone | ⟨hne, -⟩)
  · rw [hnone] at ha
    cases ha
  · exact hne rfl

theorem not_grows_of_next (ha : journal.headerWithOp op = some a)
    (hb : journal.headerWithOp (op + 1) = none) : ¬Grows journal opMin op := by
  rintro (hnone | ⟨_, _, b, _, hb', -⟩)
  · rw [hnone] at ha
    cases ha
  · rw [hb] at hb'
    cases hb'

section Scan

-- What an open range is: a break, but for growing further.
structure Open (journal : Journal) (opMin opMax count : Nat) (range : HeaderRange) : Prop where
  start : range.opMin = opMin + count
  ordered : range.opMin ≤ range.opMax
  lt : range.opMax < opMax
  broken : ¬Linked journal range.opMax
  above : ∀ op, range.opMax < op → op < opMax → Linked journal op
  grown : ∀ op, range.opMin ≤ op → op < range.opMax → Grows journal opMin op

variable {count : Nat}

theorem Open.close (h : Open journal opMin opMax count range)
    (hc : count = 0 ∨ ¬Grows journal opMin (range.opMin - 1)) : Break journal opMin opMax range where
  le := h.start ▸ Nat.le_add_right _ _
  ordered := h.ordered
  lt := h.lt
  broken := h.broken
  above := h.above
  grown := h.grown
  closed := hc.imp_left fun hzero => by rw [h.start, hzero, Nat.add_zero]

theorem Open.grow (h : Open journal opMin opMax (count + 1) range)
    (hg : Grows journal opMin (opMin + count)) :
    Open journal opMin opMax count { range with opMin := opMin + count } where
  start := rfl
  ordered := by
    have hstart := h.start
    have hordered := h.ordered
    dsimp only
    omega
  lt := h.lt
  broken := h.broken
  above := h.above
  grown op hle hlt := by
    have hstart := h.start
    dsimp only at hle hlt
    obtain rfl | hgt := Nat.eq_or_lt_of_le hle
    · exact hg
    · exact h.grown op (by omega) hlt

theorem findLatestHeadersBreak_open (hc : Consistent journal)
    (h : Open journal opMin opMax count range) :
    ∃ r, journal.findLatestHeadersBreak opMin opMax count (journal.headerWithOp (opMin + count))
      (some range) = .ok (some r) ∧ Break journal opMin opMax r := by
  induction count generalizing range with
  | zero => exact ⟨range, rfl, h.close (.inl rfl)⟩
  | succ count ih =>
    have hstart := h.start
    have hordered := h.ordered
    have hlt := h.lt
    have hbelow : range.opMin - 1 = opMin + count := by omega
    have hclose : ¬Grows journal opMin (opMin + count) → Break journal opMin opMax range :=
      fun hg => h.close (.inr (hbelow ▸ hg))
    cases ha : journal.headerWithOp (opMin + count) with
    | none =>
      have hrun := ih (h.grow (.inl ha))
      rw [ha] at hrun
      unfold findLatestHeadersBreak
      simp only [ha]
      rw [assert_of (by omega), ok_bind, assert_of (by omega), ok_bind]
      exact hrun
    | some a =>
      have haop := op_of_headerWithOp ha
      cases hb : journal.headerWithOp (opMin + (count + 1)) with
      | none =>
        unfold findLatestHeadersBreak
        simp only [ha]
        rw [assert_of (by omega)]
        exact ⟨range, rfl, hclose (not_grows_of_next ha hb)⟩
      | some b =>
        have hbop := op_of_headerWithOp hb
        unfold findLatestHeadersBreak
        simp only [ha]
        rw [assert_of (by omega), ok_bind, assert_of (by omega), ok_bind]
        by_cases hmin : a.op = opMin
        case pos =>
          rw [if_pos hmin]
          obtain rfl : count = 0 := by omega
          exact ⟨range, rfl, hclose (not_grows_min ha)⟩
        case neg =>
          have hgrows := grows_iff (show opMin + count ≠ opMin by omega) ha hb
          have hgrow : a.view ≤ b.view → ∃ r, journal.findLatestHeadersBreak opMin opMax count
              (some a) (some { range with opMin := a.op }) = .ok (some r) ∧
                Break journal opMin opMax r := fun hle => by
            have hrun := ih (h.grow (hgrows.mpr hle))
            rwa [ha, ← haop] at hrun
          rw [if_neg hmin]
          by_cases hlink : a.checksum = b.parent
          case pos =>
            have hle := hc.view_le _ a b ha hb hlink
            rw [if_pos hlink, assert_of hle, ok_bind]
            exact hgrow hle
          case neg =>
            rw [if_neg hlink]
            obtain hview | hview | hview := Nat.lt_trichotomy a.view b.view
            · rw [if_pos hview]
              exact hgrow (Nat.le_of_lt hview)
            · exact absurd (hc.linked _ a b ha hb hview) hlink
            · rw [if_neg (Nat.lt_asymm hview), if_pos hview]
              exact ⟨range, rfl, hclose fun hg => Nat.not_lt.mpr (hgrows.mp hg) hview⟩

theorem Open.start_of (hlt : opMin + count < opMax) (hbroken : ¬Linked journal (opMin + count))
    (habove : ∀ op, opMin + count < op → op < opMax → Linked journal op) :
    Open journal opMin opMax count ⟨opMin + count, opMin + count⟩ where
  start := rfl
  ordered := Nat.le_refl _
  lt := hlt
  broken := hbroken
  above := habove
  grown _ hle hlt := absurd hlt (Nat.not_lt.mpr hle)

theorem findLatestHeadersBreak_linked (hc : Consistent journal) (hle : opMin + count ≤ opMax)
    (hb : journal.headerWithOp (opMin + count) = some b)
    (habove : ∀ op, opMin + count ≤ op → op < opMax → Linked journal op) :
    ∃ found, journal.findLatestHeadersBreak opMin opMax count (some b) none = .ok found ∧
      (found = none ↔ ∀ op, opMin ≤ op → op < opMax → Linked journal op) ∧
      ∀ r, found = some r → Break journal opMin opMax r := by
  induction count generalizing b with
  | zero => exact ⟨none, rfl, iff_of_true rfl habove, nofun⟩
  | succ count ih =>
    have hbop := op_of_headerWithOp hb
    have habove' : ∀ op, opMin + count < op → op < opMax → Linked journal op := fun op hgt =>
      habove op hgt
    -- What follows once the break is there.
    have hbroken : ¬Linked journal (opMin + count) →
        ∃ found, journal.findLatestHeadersBreak opMin opMax count (journal.headerWithOp (opMin + count))
          (some ⟨opMin + count, opMin + count⟩) = .ok found ∧
          (found = none ↔ ∀ op, opMin ≤ op → op < opMax → Linked journal op) ∧
          ∀ r, found = some r → Break journal opMin opMax r := fun hbroken => by
      obtain ⟨r, hrun, hr⟩ := findLatestHeadersBreak_open hc
        (Open.start_of (by omega) hbroken habove')
      refine ⟨some r, hrun, iff_of_false nofun fun hall => hbroken (hall _ (by omega) (by omega)), ?_⟩
      intro r' hr'
      cases hr'
      exact hr
    cases ha : journal.headerWithOp (opMin + count) with
    | none =>
      have hrun := hbroken (not_linked_of_none ha)
      rw [ha] at hrun
      unfold findLatestHeadersBreak
      simp only [ha]
      rw [assert_of (by omega), ok_bind, assert_of (show (some b).isSome = true from rfl), ok_bind]
      exact hrun
    | some a =>
      have haop := op_of_headerWithOp ha
      have hlinked := linked_iff ha hb
      unfold findLatestHeadersBreak
      simp only [ha]
      rw [assert_of (by omega), ok_bind]
      by_cases hlink : a.checksum = b.parent
      case pos =>
        rw [if_pos hlink, assert_of (hc.view_le _ a b ha hb hlink), ok_bind]
        refine ih (by omega) ha fun op hge hlt => ?_
        obtain rfl | hgt := Nat.eq_or_lt_of_le hge
        · exact hlinked.mpr hlink
        · exact habove' op hgt hlt
      case neg =>
        have hrun := hbroken fun h => hlink (hlinked.mp h)
        rw [ha, ← haop] at hrun
        rw [if_neg hlink, if_pos fun hview => hlink (hc.linked _ a b ha hb hview),
          assert_of (by omega), ok_bind]
        exact hrun

end Scan

-- The break that is found is the highest one. None is found if all headers are there and linked.
theorem findLatestHeadersBreakBetween_exact (hc : Consistent journal) (hle : opMin ≤ opMax)
    (hspan : opMax - opMin < journalSlotCount) (hmax : (journal.headerWithOp opMax).isSome) :
    ∃ found, journal.findLatestHeadersBreakBetween opMin opMax = .ok found ∧
      (found = none ↔ ∀ op, opMin ≤ op → op < opMax → Linked journal op) ∧
      ∀ r, found = some r → Break journal opMin opMax r := by
  obtain ⟨b, hb⟩ := Option.isSome_iff_exists.mp hmax
  obtain ⟨count, rfl⟩ := Nat.exists_eq_add_of_le hle
  obtain ⟨found, hrun, hnone, hbreak⟩ := findLatestHeadersBreak_linked hc (Nat.le_refl _) hb
    fun op hge hlt => absurd hlt (Nat.not_lt.mpr hge)
  refine ⟨found, ?_, hnone, hbreak⟩
  unfold findLatestHeadersBreakBetween
  rw [assert_of hmax, ok_bind, assert_of hle, ok_bind, assert_of hspan, ok_bind,
    show opMin + count + 1 - opMin = count + 1 by omega]
  unfold findLatestHeadersBreak
  simp only [hb]
  rw [assert_of (op_of_headerWithOp hb), ok_bind, hrun, ok_bind]
  cases found with
  | none => rfl
  | some r =>
    have hr := hbreak r rfl
    dsimp only
    rw [assert_of hr.le, ok_bind, assert_of hr.lt]
    rfl

-- Headers of the same view, whose checksums and parents are zero, at some ops.
def scattered (ops : List Nat) : Journal where
  cluster := 0
  headers := fun slot =>
    match ops.find? fun op => op % journalSlotCount = slot with
    | some op => { Prepare.zeroed with op, operation := .noop }
    | none    => { Prepare.zeroed with op := slot, operation := .reserved }
  dirty := fun _ => false
  faulty := fun _ => false
  prepareChecksums := fun _ => 0
  prepareInhabited := fun _ => false
  prepareBodies := fun _ => []
  slotted := fun slot h => by
    split
    · next op hop =>
      have hslot := List.find?_some hop
      exact ⟨of_decide_eq_true hslot, nofun⟩
    · exact ⟨Nat.mod_eq_of_lt h, fun _ => rfl⟩

theorem consistent_scattered {ops : List Nat} : Consistent (scattered ops) := by
  have hzeroed : ∀ op a, (scattered ops).headerWithOp op = some a → a.view = 0 ∧ a.checksum = 0 ∧
      a.parent = 0 := fun op a ha => by
    obtain ⟨rfl, -⟩ := headerWithOp_eq_some.mp ha
    unfold scattered
    dsimp only
    split <;> exact ⟨rfl, rfl, rfl⟩
  refine ⟨fun op a b ha hb _ => ?_, fun op a b ha hb _ => ?_⟩
  · rw [(hzeroed _ a ha).2.1, (hzeroed _ b hb).2.2]
  · exact Nat.le_of_eq ((hzeroed _ a ha).1.trans (hzeroed _ b hb).1.symm)

-- One op in the middle is missing.
theorem findLatestHeadersBreakBetween_exact_of_missing : ∃ found,
    (scattered [2, 3, 5]).findLatestHeadersBreakBetween 2 5 = .ok found ∧
      (found = none ↔ ∀ op, 2 ≤ op → op < 5 → Linked (scattered [2, 3, 5]) op) :=
  have ⟨found, hrun, hnone, _⟩ := findLatestHeadersBreakBetween_exact consistent_scattered
    (show 2 ≤ 5 by decide) (by decide) (by decide)
  ⟨found, hrun, hnone⟩

-- The ops are as far apart as the ring is long.
theorem findLatestHeadersBreakBetween_of_ring : ¬∀ (journal : Journal) (opMin opMax : Nat),
    Consistent journal → opMin ≤ opMax → (journal.headerWithOp opMax).isSome = true →
    (journal.findLatestHeadersBreakBetween opMin opMax).isOk = true := by
  intro h
  exact absurd (h (scattered [journalSlotCount]) 0 journalSlotCount consistent_scattered (Nat.zero_le _)
    (by decide)) (by decide)

end TigerBeetle.Journal
