import TigerBeetle.Theorems.Capacity
import TigerBeetle.Theorems.ChainInvariant

namespace TigerBeetle.Accounting

open Fallible

theorem timestampEvent_contained {timestamp count index : Nat} :
    Meets Fault.Contained (fun _ => True) (timestampEvent timestamp count index) := by
  unfold timestampEvent
  simp

namespace Orchestrator

variable {ε ρ σ α : Type} {o : Orchestrator ε ρ σ} {law : o.Law α} {limit timestamp count : Nat}
    {index length values actions : Nat} {event : ε} {events batch : List ε} {loop : Loop ρ σ}
    {Spare : σ → Nat → Nat → Prop}

-- No chain has more than `limit` events. So many of the first chain are left out.
def Chains (linked : ε → Bool) (limit : Nat) : (length : Nat) → List ε → Prop
  | _, [] => True
  | length, event :: events =>
    length < limit ∧ Chains linked limit (if linked event then length + 1 else 0) events

instance Chains.decidable {linked : ε → Bool} : (length : Nat) → (events : List ε) →
    Decidable (Chains linked limit length events)
  | _, []                   => inferInstanceAs (Decidable True)
  | length, event :: events =>
    have : Decidable (Chains linked limit (if linked event then length + 1 else 0) events) :=
      Chains.decidable _ events
    inferInstanceAs (Decidable (_ ∧ _))

namespace Law

-- What an orchestrator's parts use up of the room that its state has for so many more events, and
-- for so many more of the events of a chain.
structure Provides (law : o.Law α) (limit : Nat) (Spare : σ → Nat → Nat → Prop) : Prop where
  mono : ∀ s n k n' k', Spare s n k → n' ≤ n → k' ≤ k → Spare s n' k'
  idle : ∀ s n k k', law.Idle s → Spare s n k → Spare s n k'
  scopeOpen : ∀ s n k, Spare s n k →
    Meets Fault.Contained (fun s' => Spare s' n limit) (o.scopeOpen s)
  execute : ∀ e t s n k, law.Valid t → (law.Idle s ∨ ∃ opened, law.Scoped opened s) →
    Spare s (n + 1) (k + 1) → Meets Fault.Contained (fun r => Spare r.2 n k) (o.execute e t s)
  orphan : ∀ e r s n k, Spare s n k → Spare (o.orphan e r s) n k
  discard : ∀ opened s n k, law.Scoped opened s → Spare s n k →
    Meets Fault.Contained (fun s' => Spare s' n k) (o.discard s)
  complete : ∀ broken s n k, Spare s n k →
    Meets Fault.Contained (fun s' => Spare s' n k) (o.complete broken s)

-- Whether the state of a loop is that of an open chain.
def Status (law : o.Law α) (loop : Loop ρ σ) : Prop :=
  if loop.chain.isSome = true ∧ loop.chainBroken = false then ∃ opened, law.Scoped opened loop.state
  else law.Idle loop.state

theorem Status.cases (h : law.Status loop) :
    law.Idle loop.state ∨ ∃ opened, law.Scoped opened loop.state := by
  unfold Status at h
  split at h
  · exact .inr h
  · exact .inl h

theorem Underway.status {Inv : Nat → α → Prop}
    (h : law.Underway timestamp count batch Inv loop index) : law.Status loop := by
  unfold Status
  cases h with
  | outside h _ =>
    rw [if_neg (by simp [h.chain])]
    exact h.idle
  | inside h _ _ _ =>
    have ⟨_, _, ho⟩ := h.outcome
    cases hb : loop.chainBroken with
    | true =>
      rw [if_pos hb] at ho
      rw [if_neg (by simp)]
      exact ho.1
    | false =>
      rw [if_neg (by rw [hb]; nofun)] at ho
      rw [if_pos ⟨by simp [h.chain], rfl⟩]
      exact ⟨_, ho.1⟩

namespace Provides

section

variable (hp : law.Provides limit Spare)

include hp

theorem openChain (h : law.Status loop)
    (hs : Spare loop.state values actions) (hle : actions ≤ limit) :
    Meets Fault.Contained (fun loop' => law.Status loop' ∧ Spare loop'.state values actions)
      (o.openChain index event loop) := by
  unfold Orchestrator.openChain
  simp only [Meets.ite_iff, Meets.bind_eq, Meets.pure_eq, meets_assert_eq]
  refine ⟨fun hl => ⟨fun hb => ?_, by simp⟩, fun _ => ⟨h, hs⟩⟩
  unfold Status at h
  rw [if_neg (by simp [hl.2])] at h
  refine ((hp.scopeOpen _ _ _ hs).and_post (law.scopeOpen _ h)).weaken
    fun state ⟨hspare, hscoped, _⟩ => ⟨?_, hp.mono _ _ _ _ _ hspare (Nat.le_refl _) hle⟩
  unfold Status
  rw [if_pos ⟨rfl, by simpa using hb⟩]
  exact ⟨_, hscoped⟩

theorem result {t : Nat} (ht : law.Valid t) (h : law.Status loop)
    (hs : Spare loop.state (values + 1) (actions + 1)) :
    Meets Fault.Contained
      (fun r => law.Status { loop with state := r.2 } ∧ Spare r.2 values actions)
      (o.result count index event t loop) := by
  have hkept : Spare loop.state values actions :=
    hp.mono _ _ _ _ _ hs (Nat.le_succ _) (Nat.le_succ _)
  unfold Orchestrator.result
  simp only [Meets.ite_iff, Meets.pure_eq]
  refine ⟨fun _ => ⟨h, hkept⟩, fun _ => ⟨fun _ => ⟨h, hkept⟩, fun _ => ?_⟩⟩
  have hstatus : Meets (fun _ => True) (fun r => law.Status { loop with state := r.2 })
      (o.execute event t loop.state) := by
    unfold Status at h ⊢
    split at h
    · next hc =>
      have ⟨opened, h⟩ := h
      refine (law.execute' opened event t _ ht h).weaken fun r ⟨hr, _⟩ => ?_
      rw [if_pos hc]
      exact ⟨opened, hr⟩
    · next hc =>
      refine (law.execute event t _ ht h).weaken fun r ⟨hr, _⟩ => ?_
      rw [if_neg hc]
      exact hr
  exact ((hp.execute event t _ _ _ ht h.cases hs).and_post hstatus).weaken
    fun r ⟨hspare, hstatus⟩ => ⟨hstatus, hspare⟩

theorem settle {r : ρ} (h : law.Status loop)
    (hs : Spare loop.state values actions) :
    Meets Fault.Contained
      (fun loop' => Spare loop'.state values actions ∧
        (loop'.chain.isSome = true → o.linked event = true))
      (o.settle event r loop) := by
  have hclose : ∀ loop : Loop ρ σ, Spare loop.state values actions →
      Meets Fault.Contained
        (fun loop' => Spare loop'.state values actions ∧
          (loop'.chain.isSome = true → o.linked event = true))
        (o.closeChain event r loop) := by
    intro loop hs
    unfold Orchestrator.closeChain
    simp only [Meets.ite_iff, Meets.bind_eq, Meets.pure_eq]
    refine ⟨fun _ => (hp.complete _ _ _ _ hs).weaken fun _ h => ⟨h, nofun⟩, fun hc => ⟨hs, fun hi => ?_⟩⟩
    by_contra hl
    exact hc ⟨hi, .inl (by simpa using hl)⟩
  unfold Orchestrator.settle
  rw [Meets.bind_iff]
  unfold Orchestrator.breakChain
  have horphan := hp.orphan event r _ _ _ hs
  split
  · exact hclose _ hs
  dsimp only
  split
  · exact hclose _ horphan
  · next start hstart =>
    split
    · exact hclose _ horphan
    · next hb =>
      unfold Status at h
      rw [if_pos ⟨by simp [hstart], by simpa using hb⟩] at h
      have ⟨opened, h⟩ := h
      simp only [Meets.bind_eq, Meets.pure_eq]
      exact (hp.discard opened _ _ _ (law.orphan' _ _ _ _ h) horphan).weaken fun _ hs => hclose _ hs

theorem step (hv : ∀ t ≤ timestamp, law.Valid t) (hi : index < count)
    (h : law.Status loop) (hs : Spare loop.state (values + 1) (limit - length)) (hl : length < limit) :
    Meets Fault.Contained
      (fun loop' => Spare loop'.state values (limit - (length + 1)) ∧
        (loop'.chain.isSome = true → o.linked event = true))
      (o.step count index event timestamp loop) := by
  have hactions : limit - length = limit - (length + 1) + 1 := by omega
  unfold Orchestrator.step
  rw [Meets.bind_iff]
  refine (timestampEvent_contained.and_post timestampEvent_meets).weaken fun t ⟨_, ht, hle⟩ => ?_
  rw [Meets.bind_iff]
  refine (hp.openChain h hs (by omega)).weaken fun loop₁ ⟨h₁, hs₁⟩ => ?_
  rw [Meets.bind_iff]
  rw [hactions] at hs₁
  have ht : law.Valid t := hv t (by rw [ht]; unfold stamp; omega)
  exact (hp.result ht h₁ hs₁).weaken fun r ⟨h₂, hs₂⟩ => hp.settle h₂ hs₂

theorem run
    (hm : law.Maintains timestamp count batch fun _ _ => True) (hv : ∀ t ≤ timestamp, law.Valid t)
    (hb : ∀ event ∈ events, event ∈ batch) (hc : index + events.length ≤ count)
    (h : law.Underway timestamp count batch (fun _ _ => True) loop index)
    (hs : Spare loop.state (values + events.length) (limit - length))
    (hl : Chains o.linked limit length events) :
    Meets Fault.Contained (fun loop' => ∃ k, Spare loop'.state values k)
      (o.run count timestamp index events loop) := by
  induction events generalizing index loop length with
  | nil => exact ⟨_, hs⟩
  | cons event events ih =>
    rw [List.length_cons] at hc hs
    obtain ⟨hlt, hl⟩ := hl
    have hevent := hb event (List.mem_cons_self ..)
    unfold Orchestrator.run
    rw [Meets.bind_iff]
    refine ((hp.step hv (by omega) h.status hs hlt).and_post
      (h.step_of_valid hm hv (by omega) hevent)).weaken fun loop' hloop' => ?_
    obtain ⟨⟨hs', ho⟩, h'⟩ := hloop'
    refine ih (fun e he => hb e (List.mem_cons_of_mem _ he)) (by omega) h' ?_ hl
    -- Either the chain goes on, or the state is idle and its log is empty.
    have hstatus := h'.status
    unfold Status at hstatus
    split at hstatus
    · next hopen =>
      rw [if_pos (ho hopen.1)]
      exact hs'
    · exact hp.idle _ _ _ _ hstatus hs'

theorem orchestrate (hv : ∀ t ≤ timestamp, law.Valid t) {state : σ}
    (hi : law.Idle state) (hs : Spare state (values + events.length) actions)
    (hl : Chains o.linked limit 0 events) :
    Meets Fault.Contained (fun loop => ∃ k, Spare loop.state values k)
      (o.orchestrate timestamp events state) := by
  have hm : law.Maintains timestamp events.length events fun _ _ => True :=
    ⟨fun _ _ _ _ _ _ _ _ => trivial, fun _ _ _ _ _ => trivial, fun _ _ _ _ _ _ _ => trivial,
      fun _ _ _ _ _ => trivial⟩
  have hout : law.Outside (law.view state) ([] : List ρ)
      { results := [], chain := none, chainBroken := false, state } := ⟨rfl, rfl, hi, rfl, rfl⟩
  have hstart : law.Underway timestamp events.length events (fun _ _ => True)
      { results := [], chain := none, chainBroken := false, state } 0 := .outside hout trivial
  unfold Orchestrator.orchestrate
  simp only [Meets.bind_eq, Meets.pure_eq, meets_assert_eq]
  refine (hp.run hm hv (fun _ => id) (by omega) hstart (hp.idle _ _ _ _ hi hs) hl).weaken
    fun loop h => ⟨fun _ => ⟨fun _ => h, by simp⟩, by simp⟩

end

end Provides

end Law

end Orchestrator

end TigerBeetle.Accounting
