import TigerBeetle.Fallible

open Fallible

-- State machines that are driven by events. A step that fails ends the run.
structure Machine (σ ε φ : Type) where
  init : σ → Prop
  step : σ → ε → Except φ σ

namespace Machine

variable {σ ε φ : Type}

-- The states that are reached by the runs whose steps all meet the guard.
inductive Reachable (m : Machine σ ε φ) (guard : σ → ε → Prop) : σ → Prop
  | init {s : σ} : m.init s → Reachable m guard s
  | step {s t : σ} {e : ε} :
    Reachable m guard s → guard s e → m.step s e = .ok t → Reachable m guard t

-- The events lead from a state to one that satisfies `q`, by steps that all meet the guard.
def Leads (m : Machine σ ε φ) (guard : σ → ε → Prop) (q : σ → Prop) : List ε → σ → Prop
  | [], s => q s
  | e :: es, s => guard s e ∧ Meets (fun _ => False) (Leads m guard q es) (m.step s e)

instance Leads.decidable {m : Machine σ ε φ} {guard : σ → ε → Prop} {q : σ → Prop}
    [∀ s e, Decidable (guard s e)] [DecidablePred q] : (es : List ε) → DecidablePred (m.Leads guard q es)
  | [], s => inferInstanceAs (Decidable (q s))
  | e :: es, s =>
    have : DecidablePred (m.Leads guard q es) := Leads.decidable es
    inferInstanceAs (Decidable (guard s e ∧ Meets (fun _ => False) _ (m.step s e)))

namespace Reachable

variable {m : Machine σ ε φ} {guard guard' : σ → ε → Prop} {s : σ}

theorem invariant {p : σ → Prop} (h : m.Reachable guard s) (hi : ∀ s, m.init s → p s)
    (hs : ∀ s e t, p s → guard s e → m.step s e = .ok t → p t) : p s := by
  induction h with
  | init h => exact hi _ h
  | step _ hg h ih => exact hs _ _ _ ih hg h

theorem mono (h : m.Reachable guard s) (hg : ∀ s e, guard s e → guard' s e) :
    m.Reachable guard' s :=
  h.invariant (fun _ => .init) fun _ _ _ h hg' => h.step (hg _ _ hg')

theorem leads {q : σ → Prop} {es : List ε} (h : m.Reachable guard s) (hl : m.Leads guard q es s) :
    ∃ t, m.Reachable guard t ∧ q t := by
  induction es generalizing s with
  | nil => exact ⟨s, h, hl⟩
  | cons e es ih =>
    have ⟨hg, hl⟩ := hl
    have ⟨t, ht, hl⟩ := Meets.iff_exists.mp hl
    exact ih (h.step hg ht) hl

end Reachable

end Machine
