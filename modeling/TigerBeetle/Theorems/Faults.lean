import TigerBeetle.Constants

namespace TigerBeetle.Fault

open Fallible

-- All failures besides those of the assertions that are about the given concern.
def Besides (concern : Concern) : Fault → Prop
  | panic concern' _ => concern' ≠ concern
  | cutOff           => True

instance {concern : Concern} : DecidablePred (Besides concern) := fun fault =>
  match fault with
  | .panic .. => inferInstanceAs (Decidable (_ ≠ _))
  | .cutOff   => .isTrue trivial

-- A set of failures that does not exclude any assertion which is not singled out.
structure Lenient (E : Fault → Prop) : Prop where
  general : ∀ message, E (.panic .general message)
  cutOff : E .cutOff

-- The failures that are not singled out.
def Unspecific : Fault → Prop
  | panic concern _ => concern = .general
  | cutOff          => True

-- A computation that does not fail an assertion which is singled out.
def Unwatched {α : Type} (x : Result α) : Prop :=
  Meets Unspecific (fun _ => True) x

-- Nor are those about checkpoints that diverge.
structure Careless (E : Fault → Prop) : Prop extends Lenient E where
  checkpoint : ∀ message, E (.panic .checkpoint message)

namespace Careless

variable {E : Fault → Prop} {concern : Concern}

theorem all : Careless fun _ => True where
  toLenient := ⟨fun _ => trivial, trivial⟩
  checkpoint _ := trivial

theorem besides (hg : concern ≠ .general) (hc : concern ≠ .checkpoint) :
    Careless (Besides concern) where
  toLenient := ⟨fun _ => hg.symm, trivial⟩
  checkpoint _ := hc.symm

end Careless

namespace Lenient

variable {E : Fault → Prop} {concern : Concern} {α : Type} {Q : α → Prop} {x : Result α}

theorem all : Lenient fun _ => True where
  general _ := trivial
  cutOff := trivial

theorem unspecific : Lenient Unspecific where
  general _ := rfl
  cutOff := trivial

theorem besides (h : concern ≠ .general) : Lenient (Besides concern) where
  general _ := h.symm
  cutOff := trivial

theorem assert_eq (he : Lenient E) {p : Prop} [Decidable p] {Q : Unit → Prop} {message : String} :
    Meets E Q (assert p message) = (p → Q ()) := by
  rw [meets_assert_eq, eq_true (he.general message), implies_true, and_true]

theorem meets (he : Lenient E) (h : Unwatched x) (hq : ∀ a, x = .ok a → Q a) : Meets E Q x := by
  cases x with
  | ok a => exact hq a rfl
  | error fault =>
    cases fault with
    | panic concern message =>
      obtain rfl : concern = .general := h
      exact he.general message
    | cutOff => exact he.cutOff

end Lenient

theorem unwatched_assert {p : Prop} [Decidable p] {Q : Unit → Prop} {message : String} :
    Meets Unspecific Q (assert p message) = (p → Q ()) :=
  Lenient.unspecific.assert_eq

end TigerBeetle.Fault
