import Mathlib

namespace Fallible

universe u v

variable {ε : Type v} {σ α β : Type u}

-- A computation *meets* `Q` with failures in `E` if it either returns a value that satisfies `Q`
-- or fails with an error that satisfies `E`. Choosing `E` covers the usual notions of correctness:
-- `fun _ => False` is total correctness, `fun _ => True` is partial correctness, and anything in
-- between excludes only some of the errors.
def Meets (E : ε → Prop) (Q : α → Prop) : Except ε α → Prop
  | .ok a => Q a
  | .error e => E e

instance Meets.decidable {E : ε → Prop} {Q : α → Prop} [DecidablePred E] [DecidablePred Q]
    {x : Except ε α} : Decidable (Meets E Q x) :=
  match x with
  | .ok a => inferInstanceAs (Decidable (Q a))
  | .error e => inferInstanceAs (Decidable (E e))

variable {f : α → Except ε β}

namespace Meets

variable {E E' : ε → Prop} {Q Q' : α → Prop} {x : Except ε α}

@[simp]
theorem ok_iff {a : α} : Meets E Q (.ok a : Except ε α) ↔ Q a :=
  Iff.rfl

@[simp]
theorem error_iff {e : ε} : Meets E Q (.error e : Except ε α) ↔ E e :=
  Iff.rfl

theorem pure_iff {a : α} : Meets E Q (pure a : Except ε α) ↔ Q a :=
  Iff.rfl

@[simp]
theorem pure_eq {a : α} : Meets E Q (pure a : Except ε α) = Q a :=
  rfl

theorem bind_iff {Q : β → Prop} : Meets E Q (x >>= f) ↔ Meets E (fun a => Meets E Q (f a)) x := by
  cases x <;> rfl

@[simp]
theorem bind_eq {Q : β → Prop} : Meets E Q (x >>= f) = Meets E (fun a => Meets E Q (f a)) x :=
  propext bind_iff

@[simp]
theorem map_iff {f : α → β} {Q : β → Prop} :
    Meets E Q (f <$> x) ↔ Meets E (fun a => Q (f a)) x := by
  cases x <;> rfl

theorem ite_iff {p : Prop} [Decidable p] {y : Except ε α} :
    Meets E Q (if p then x else y) ↔ (p → Meets E Q x) ∧ (¬p → Meets E Q y) := by
  split <;> simp [*]

theorem post (h : Meets E Q x) (hx : x = .ok a) : Q a := by
  subst hx
  exact h

theorem fault (h : Meets E Q x) (hx : x = .error e) : E e := by
  subst hx
  exact h

theorem mono (hq : ∀ a, Q a → Q' a) (he : ∀ e, E e → E' e) (h : Meets E Q x) :
    Meets E' Q' x := by
  cases x with
  | ok a => exact hq a h
  | error e => exact he e h

theorem weaken (hq : ∀ a, Q a → Q' a) (h : Meets E Q x) : Meets E Q' x :=
  h.mono hq fun _ => id

theorem and (h : Meets E Q x) (h' : Meets E Q' x) : Meets E (fun a => Q a ∧ Q' a) x := by
  cases x with
  | ok a => exact ⟨h, h'⟩
  | error e => exact h

theorem and_post (h : Meets E Q x) (h' : Meets (fun _ => True) Q' x) :
    Meets E (fun a => Q a ∧ Q' a) x := by
  cases x with
  | ok a => exact ⟨h, h'⟩
  | error e => exact h

-- The value that is returned is the computation's own.
theorem returned (h : Meets E Q x) : Meets E (fun a => x = .ok a ∧ Q a) x := by
  cases x with
  | ok a => exact ⟨rfl, h⟩
  | error e => exact h

theorem trivial : Meets (fun _ => True) (fun _ => True) x := by
  cases x <;> exact True.intro

-- The sequencing rule: `R` is the midcondition.
theorem bind {R : α → Prop} {Q : β → Prop} (h : Meets E R x)
    (hf : ∀ a, R a → Meets E Q (f a)) : Meets E Q (x >>= f) :=
  bind_iff.mpr <| h.weaken hf

-- Computations that go on in the same way.
theorem bind_congr {g : α → Except ε β} (h : Meets (fun _ => True) (fun a => f a = g a) x) :
    x >>= f = x >>= g := by
  cases x with
  | ok a => exact h
  | error e => rfl

theorem iff_forall : Meets (fun _ => True) Q x ↔ ∀ a, x = .ok a → Q a := by
  cases x <;> simp

theorem iff_exists : Meets (fun _ => False) Q x ↔ ∃ a, x = .ok a ∧ Q a := by
  cases x <;> simp

end Meets

-- A computation that does not fail.
abbrev Succeeds (x : Except ε α) : Prop :=
  Meets (fun _ => False) (fun _ => True) x

-- Total correctness is partial correctness without failures.
theorem Meets.total {Q : α → Prop} {x : Except ε α} (h : Meets (fun _ => True) Q x)
    (hs : Succeeds x) : Meets (fun _ => False) Q x := by
  cases x with
  | ok a => exact h
  | error e => exact hs

@[simp]
theorem ok_bind {a : α} : ((.ok a : Except ε α) >>= f) = f a :=
  rfl

theorem bind_eq_ok {x : Except ε α} {b : β} : (x >>= f) = .ok b ↔ ∃ a, x = .ok a ∧ f a = .ok b := by
  cases x <;> simp [Bind.bind, Except.bind]

section Simulates

variable {α' α'' β' : Type u} {f : α → β} {g : α' → β'} {x : Except ε α} {y : Except ε β}

-- If `x` returns a value, then `y` returns what `f` makes of it.
def Simulates (f : α → β) (x : Except ε α) (y : Except ε β) : Prop :=
  Meets (fun _ => True) (fun a => y = .ok (f a)) x

namespace Simulates

theorem pure {a : α} : Simulates f (pure a : Except ε α) (pure (f a)) :=
  rfl

theorem bind {k : α → Except ε α'} {k' : β → Except ε β'} (h : Simulates f x y)
    (hk : ∀ a, Simulates g (k a) (k' (f a))) : Simulates g (x >>= k) (y >>= k') :=
  Meets.bind_iff.mpr <| Meets.weaken (fun a hy => by rw [hy]; exact hk a) h

theorem same {z : Except ε α''} {k : α'' → Except ε α} {k' : α'' → Except ε β}
    (h : ∀ a, Simulates f (k a) (k' a)) : Simulates f (z >>= k) (z >>= k') := by
  cases z with
  | ok a => exact h a
  | error e => trivial

-- A part that only `x` has.
theorem skip {z : Except ε α'} {k : α' → Except ε α} (h : ∀ a, Simulates f (k a) y) :
    Simulates f (z >>= k) y :=
  Meets.bind_iff.mpr <| Meets.trivial.weaken fun a _ => h a

theorem append {k : β → Except ε α} (h : ∀ b, Simulates f (k b) (Pure.pure b)) :
    Simulates f (y >>= k) y := by
  cases y with
  | ok b => exact h b
  | error e => trivial

theorem ite {p : Prop} [Decidable p] {x' : Except ε α} {y' : Except ε β} (h : Simulates f x y)
    (h' : Simulates f x' y') : Simulates f (if p then x else x') (if p then y else y') := by
  split
  · exact h
  · exact h'

end Simulates

end Simulates

end Fallible
