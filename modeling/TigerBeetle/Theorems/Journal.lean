import TigerBeetle.Journal
import TigerBeetle.Theorems.Faults

namespace TigerBeetle.Journal

open Fallible Fault

-- The outcomes of the updates of the journal.

variable {E : Fault → Prop} {journal : Journal} {header : Prepare}

theorem hasHeader_meets {Q : Bool → Prop} (he : Lenient E)
    (h : Q (journal.headerWithOpAndChecksum header.op header.checksum).isSome) :
    Meets E Q (journal.hasHeader header) := by
  unfold hasHeader
  simp only [Meets.bind_eq, meets_assert_eq, Meets.pure_eq, he.general, implies_true,
    and_true]
  exact fun _ => h

variable {op : Nat}

theorem headerWithOp_eq_some : journal.headerWithOp op = some header ↔
    journal.headers (slotForOp op) = header ∧ header.operation ≠ .reserved ∧ header.op = op := by
  unfold headerWithOp headerForOp
  split
  case h_1 existing he =>
    simp only [Option.ite_none_left_eq_some, Option.some.injEq, Option.ite_none_right_eq_some] at he ⊢
    grind
  case h_2 he =>
    simp only [ite_eq_left_iff, reduceCtorEq, imp_false, not_not] at he
    grind

theorem op_of_headerWithOp (h : journal.headerWithOp op = some header) : header.op = op :=
  (headerWithOp_eq_some.mp h).2.2

variable {Q : Journal → Prop}

theorem setHeaderAsDirty_meets (he : Lenient E)
    (same : (journal.headerWithOpAndChecksum header.op header.checksum).isSome →
      journal.dirty (slotForOp header.op) → Q journal)
    (insert : ∀ h : header.operation ≠ .reserved,
      (journal.headerWithOpAndChecksum header.op header.checksum).isNone →
      (journal.headers (slotForOp header.op)).op ≤ header.op → Q (journal.insert header h)) :
    Meets E Q (journal.setHeaderAsDirty header) := by
  unfold setHeaderAsDirty
  split
  case isTrue => exact he.general _
  case isFalse h =>
    simp only [Meets.bind_eq, Meets.ite_iff, meets_assert_eq, Meets.pure_eq,
      he.general, implies_true, and_true]
    refine hasHeader_meets he ⟨same, fun hn => insert h (by simpa using hn)⟩

theorem setHeaderAsDirty_unwatched : Unwatched (journal.setHeaderAsDirty header) :=
  setHeaderAsDirty_meets .unspecific (fun _ _ => trivial) fun _ _ _ => trivial

variable {body : Body}

theorem setPrepareBody_meets (he : Lenient E)
    (h : (journal.headerWithOp op).isSome → Q { journal with
      prepareBodies := Function.update journal.prepareBodies (slotForOp op) body }) :
    Meets E Q (journal.setPrepareBody op body) := by
  unfold setPrepareBody
  simp only [Meets.bind_eq, meets_assert_eq, Meets.pure_eq, he.general, implies_true,
    and_true]
  exact h

theorem removeEntriesFrom_unwatched [Env] {opMin : Nat} : Unwatched (journal.removeEntriesFrom opMin) := by
  unfold Unwatched removeEntriesFrom
  simp only [Meets.bind_eq, Meets.pure_eq, unwatched_assert, implies_true]

theorem setPrepareBody_unwatched : Unwatched (journal.setPrepareBody op body) :=
  setPrepareBody_meets .unspecific fun _ => trivial

-- The prepare of an op with its body.
def entry (journal : Journal) (op : Nat) : Option (Prepare × Body) :=
  (journal.headerWithOp op).map fun header => (header, journal.prepareBodies (slotForOp op))

theorem entry_congr {journal' : Journal} (hh : journal'.headers = journal.headers)
    (hb : journal'.prepareBodies = journal.prepareBodies) : journal'.entry = journal.entry := by
  funext op
  simp only [entry, headerWithOp, headerForOp, hh, hb]

theorem entry_eq_some : journal.entry op = some (header, body) ↔
    journal.headerWithOp op = some header ∧ body = (journal.bodyWithOp op).getD [] := by
  unfold entry bodyWithOp
  cases journal.headerWithOp op with
  | none => simp
  | some existing =>
    simp only [Option.map_some, Option.some.injEq, Prod.mk.injEq, Option.getD_some]
    exact and_congr_right fun _ => eq_comm

theorem entry_eq_none : journal.entry op = none ↔ journal.headerWithOp op = none := by
  simp [entry]

theorem slotForOp_ne {op' : Nat} (h : op < op') (h' : op' < op + journalSlotCount) :
    slotForOp op ≠ slotForOp op' := by
  simp only [slotForOp, journalSlotCount] at *
  omega

-- Recording a new prepare with its body clears its slot of anything else.
theorem record_meets (he : Lenient E) (hn : journal.headerWithOp header.op = none) :
    Meets E
      (fun journal' => journal'.entry header.op = some (header, body) ∧
        ∀ op ≠ header.op, journal'.entry op =
          if slotForOp op = slotForOp header.op then none else journal.entry op)
      (do (← journal.setHeaderAsDirty header).setPrepareBody header.op body) := by
  refine Meets.bind_iff.mpr <| setHeaderAsDirty_meets he ?same ?insert
  case same => simp [headerWithOpAndChecksum, hn]
  case insert =>
    intro h _ _
    refine setPrepareBody_meets he fun _ => ⟨?_, fun op hop => ?_⟩
    · simp only [entry, headerWithOp, headerForOp, Journal.insert, Function.update_self]
      simp [h]
    · simp only [entry, headerWithOp, headerForOp, Journal.insert]
      by_cases hs : slotForOp op = slotForOp header.op
      · simp [hs, h, hop.symm]
      · simp [hs]

end TigerBeetle.Journal
