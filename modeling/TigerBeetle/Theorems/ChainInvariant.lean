import TigerBeetle.Theorems.LinkedChain

namespace TigerBeetle.Accounting

open Fallible

namespace Orchestrator.Law

variable {ε ρ σ α : Type} {o : Orchestrator ε ρ σ} {law : o.Law α} {timestamp count index : Nat}
    {a b : α} {event : ε} {events batch before : List ε} {results : List ρ} {loop : Loop ρ σ}
    {Inv : Nat → α → Prop} {R : Loop ρ σ → ε → Prop}

-- What holds of a view after as many events as there have been, whatever chains break.
structure Maintains (law : o.Law α) (timestamp count : Nat) (batch : List ε)
    (Inv : Nat → α → Prop) : Prop where
  step : ∀ index a event result b, event ∈ batch →
    law.Step a event (stamp timestamp count index) result b → Inv index a → Inv (index + 1) b
  orphaned : ∀ index event result a, Inv index a → Inv index (law.orphaned event result a)
  rewind : ∀ index index' a b, index ≤ index' → Inv index a → Inv index' b →
    Inv index' (law.rewind a b)
  mono : ∀ index index' a, index ≤ index' → Inv index a → Inv index' a

namespace Maintains

theorem trace (hm : law.Maintains timestamp count batch Inv)
    (h : law.Trace timestamp count index a events results b) (hb : ∀ event ∈ events, event ∈ batch)
    (hi : Inv index a) : Inv (index + events.length) b := by
  induction events generalizing index a results with
  | nil =>
    cases results with
    | nil =>
      cases h
      exact hi
    | cons _ _ => cases h
  | cons event events ih =>
    cases results with
    | nil => cases h
    | cons result results =>
      have ⟨_, hs, _, h⟩ := h
      have hi := hm.step _ _ _ _ _ (hb _ (List.mem_cons_self ..)) hs hi
      have := ih h (fun e he => hb e (List.mem_cons_of_mem _ he)) hi
      rwa [List.length_cons, Nat.add_comm events.length, ← Nat.add_assoc]

theorem broken (hm : law.Maintains timestamp count batch Inv)
    (h : law.Broken timestamp count R index a events results b)
    (hb : ∀ event ∈ events, event ∈ batch) (hi : Inv index a) : Inv (index + events.length) b := by
  have ⟨created, _, current, event, result, rest, _, h⟩ := h
  have hsub : ∀ e ∈ created, e ∈ batch := fun e he => hb e (by simp [h.events_eq, he])
  have hcurrent := hm.trace h.trace hsub hi
  have hle : index + created.length ≤ index + events.length := by simp [h.events_eq]
  rw [h.view_eq]
  exact hm.rewind _ _ _ _ (Nat.le_add_right ..) hi
    (hm.orphaned _ _ _ _ (hm.mono _ _ _ hle hcurrent))

theorem outcome (hm : law.Maintains timestamp count batch Inv)
    (h : law.Outcome timestamp count R index a events results b)
    (hb : ∀ event ∈ events, event ∈ batch) (hi : Inv index a) : Inv (index + events.length) b := by
  cases h with
  | inl h => exact hm.trace h.1 hb hi
  | inr h => exact hm.broken h hb hi

end Maintains

-- A loop after `index` events, out of a chain or in one.
inductive Underway (law : o.Law α) (timestamp count : Nat) (batch : List ε) (Inv : Nat → α → Prop)
    (loop : Loop ρ σ) : (index : Nat) → Prop
  | outside {a : α} {before : List ρ} :
    law.Outside a before loop → Inv before.length a →
    Underway law timestamp count batch Inv loop before.length
  | inside {a : α} {before : List ρ} {events : List ε} :
    law.Inside timestamp count (fun _ _ => True) before a events loop → Steady o loop.results →
    (∀ event ∈ events, event ∈ batch) → Inv before.length a →
    Underway law timestamp count batch Inv loop (before.length + events.length)

namespace Underway

theorem length_eq (h : law.Underway timestamp count batch Inv loop index) :
    loop.results.length = index := by
  cases h with
  | outside h _    => exact congrArg List.length h.results
  | inside h _ _ _ =>
    have ⟨results, hr, ho⟩ := h.outcome
    rw [hr, List.length_append]
    split at ho
    · have ⟨_, _, _, _, _, _, _, h⟩ := ho.2
      simp [h.events_eq, h.results_eq, h.trace.length_eq, h.failed_eq.1]
    · rw [ho.2.length_eq]

theorem holds (hm : law.Maintains timestamp count batch Inv)
    (h : law.Underway timestamp count batch Inv loop index) : Inv index (law.view loop.state) := by
  cases h with
  | outside h hi     => exact h.view ▸ hi
  | inside h _ hb hi =>
    have ⟨results, _, ho⟩ := h.outcome
    split at ho
    · exact hm.broken ho.2 hb hi
    · exact hm.trace ho.2 hb hi

theorem leave {before : List ρ} (hm : law.Maintains timestamp count batch Inv)
    (h : law.Leaves timestamp count (fun _ _ => True) before a events loop)
    (hb : ∀ event ∈ events, event ∈ batch) (hi : Inv before.length a) :
    law.Underway timestamp count batch Inv loop (before.length + events.length) := by
  have ⟨results, hout, ho⟩ := h
  have hlen : (before ++ results).length = before.length + events.length := by
    rw [List.length_append, ho.length_eq]
  have := hm.outcome ho hb hi
  rw [← hlen] at this ⊢
  exact .outside hout this

theorem step (hm : law.Maintains timestamp count batch Inv)
    (hv : law.Valid (stamp timestamp count index)) (hb : event ∈ batch)
    (h : law.Underway timestamp count batch Inv loop index) :
    Meets (fun _ => True) (fun loop' => law.Underway timestamp count batch Inv loop' (index + 1))
      (o.step count index event timestamp loop) := by
  cases h with
  | outside h hi =>
    refine (h.step (R := fun _ _ => True) hv trivial).weaken fun loop' h' => ?_
    have hb' : ∀ e ∈ [event], e ∈ batch := by simpa using hb
    split at h'
    · exact .inside h'.1 h'.2 hb' hi
    · exact leave hm h' hb' hi
  | @inside _ _ events h hs hbs hi =>
    refine (h.step (fun _ => hs) hv rfl trivial).weaken fun loop' h' => ?_
    have hb' : ∀ e ∈ events ++ [event], e ∈ batch := by
      intro e he
      cases List.mem_append.mp he with
      | inl he => exact hbs e he
      | inr he => exact List.mem_singleton.mp he ▸ hb
    rw [Nat.add_assoc, ← List.length_singleton (a := event), ← List.length_append]
    split at h'
    · exact .inside h'.1 h'.2 hb' hi
    · exact leave hm h' hb' hi

-- A linked event opens a chain, or leaves it open, unless the batch ends with it.
theorem chain_of_linked (hv : law.Valid (stamp timestamp count index))
    (h : law.Underway timestamp count batch Inv loop index) (hl : o.linked event = true)
    (hlt : index + 1 < count) :
    Meets (fun _ => True) (fun loop' => loop'.chain ≠ none)
      (o.step count index event timestamp loop) := by
  cases h with
  | outside h _ =>
    refine (h.step (R := fun _ _ => True) hv trivial).weaken fun loop' h' => ?_
    rw [if_pos ⟨hl, by omega⟩] at h'
    rw [h'.1.chain]
    nofun
  | inside h hs _ _ =>
    refine (h.step (fun _ => hs) hv rfl trivial).weaken fun loop' h' => ?_
    rw [if_pos ⟨hl, by omega⟩] at h'
    rw [h'.1.chain]
    nofun

theorem run (hm : law.Maintains timestamp count batch Inv)
    (hv : ∀ index < count, law.Valid (stamp timestamp count index))
    (hb : ∀ event ∈ events, event ∈ batch) (hc : index + events.length ≤ count)
    (h : law.Underway timestamp count batch Inv loop index) :
    Meets (fun _ => True)
      (fun loop' => law.Underway timestamp count batch Inv loop' (index + events.length))
      (o.run count timestamp index events loop) := by
  induction events generalizing index loop with
  | nil => exact h
  | cons event events ih =>
    rw [List.length_cons] at hc
    simp only [Orchestrator.run, Meets.bind_eq]
    refine (h.step hm (hv _ (by omega)) (hb _ (List.mem_cons_self ..))).weaken fun loop' h' => ?_
    have := ih (fun e he => hb e (List.mem_cons_of_mem _ he)) (by omega) h'
    rwa [List.length_cons, Nat.add_comm events.length, ← Nat.add_assoc]

-- Where there are not enough timestamps, a step fails.
theorem step_of_valid (hm : law.Maintains timestamp count batch Inv)
    (hv : ∀ t ≤ timestamp, law.Valid t) (hi : index < count) (hb : event ∈ batch)
    (h : law.Underway timestamp count batch Inv loop index) :
    Meets (fun _ => True) (fun loop' => law.Underway timestamp count batch Inv loop' (index + 1))
      (o.step count index event timestamp loop) := by
  by_cases hle : count ≤ timestamp
  · exact h.step hm (hv _ (by unfold stamp; omega)) hb
  · unfold Orchestrator.step
    rw [Meets.bind_iff]
    exact timestampEvent_meets.weaken fun _ ⟨_, h⟩ => absurd h hle

theorem openChain (h : law.Underway timestamp count batch Inv loop index) :
    Meets (fun _ => True)
      (fun loop' => loop'.chainBroken = false →
        law.view loop'.state = law.view loop.state ∧
          (law.Idle loop'.state ∨ ∃ opened, law.Scoped opened loop'.state))
      (o.openChain index event loop) := by
  unfold Orchestrator.openChain
  simp only [Meets.ite_iff, Meets.bind_eq, Meets.pure_eq, partial_assert]
  cases h with
  | outside h _ =>
    refine ⟨fun _ _ => ?_, fun _ _ => ⟨trivial, .inl h.idle⟩⟩
    exact (law.scopeOpen _ h.idle).weaken fun state ⟨hs, hv⟩ _ => ⟨hv, .inr ⟨_, hs⟩⟩
  | inside h _ _ _ =>
    refine ⟨fun hc => absurd hc.2 (by rw [h.chain]; nofun), fun _ hb => ⟨trivial, .inr ?_⟩⟩
    have ⟨_, _, ho⟩ := h.outcome
    rw [if_neg (by rw [hb]; nofun)] at ho
    exact ⟨_, ho.1⟩

section Congr

variable {execute : ε → Nat → σ → Result (ρ × σ)}

-- Another way to execute the events makes no difference, if it makes none where the invariant holds.
theorem step_congr
    (hx : ∀ event ∈ batch, ∀ index < count, ∀ t state, Inv index (law.view state) →
      (law.Idle state ∨ ∃ opened, law.Scoped opened state) →
        execute event t state = o.execute event t state)
    (hm : law.Maintains timestamp count batch Inv) (hb : event ∈ batch) (hlt : index < count)
    (h : law.Underway timestamp count batch Inv loop index) :
    ({ o with execute } : Orchestrator ε ρ σ).step count index event timestamp loop =
      o.step count index event timestamp loop := by
  have hi := h.holds hm
  unfold Orchestrator.step
  refine Meets.bind_congr (Meets.trivial.weaken fun t _ => ?_)
  refine Meets.bind_congr (h.openChain.weaken fun loop' hopen => ?_)
  have hresult : ({ o with execute } : Orchestrator ε ρ σ).result count index event t loop' =
      o.result count index event t loop' := by
    unfold Orchestrator.result
    split
    · rfl
    split
    · rfl
    next hwhole =>
    have ⟨hv, hs⟩ := hopen (by simpa using hwhole)
    exact hx event hb index hlt t _ (hv ▸ hi) hs
  rw [hresult]
  rfl

theorem run_congr
    (hx : ∀ event ∈ batch, ∀ index < count, ∀ t state, Inv index (law.view state) →
      (law.Idle state ∨ ∃ opened, law.Scoped opened state) →
        execute event t state = o.execute event t state)
    (hm : law.Maintains timestamp count batch Inv) (hv : ∀ t ≤ timestamp, law.Valid t)
    (hb : ∀ event ∈ events, event ∈ batch) (hc : index + events.length ≤ count)
    (h : law.Underway timestamp count batch Inv loop index) :
    ({ o with execute } : Orchestrator ε ρ σ).run count timestamp index events loop =
      o.run count timestamp index events loop := by
  induction events generalizing index loop with
  | nil => rfl
  | cons event events ih =>
    rw [List.length_cons] at hc
    have hevent := hb event (List.mem_cons_self ..)
    unfold Orchestrator.run
    rw [h.step_congr hx hm hevent (by omega)]
    refine Meets.bind_congr ((h.step_of_valid hm hv (by omega) hevent).weaken fun loop' h' => ?_)
    exact ih (fun e he => hb e (List.mem_cons_of_mem _ he)) (by omega) h'

end Congr

end Underway

theorem Maintains.orchestrate_congr {execute : ε → Nat → σ → Result (ρ × σ)} {state : σ}
    (hx : ∀ event ∈ events, ∀ index < events.length, ∀ t state, Inv index (law.view state) →
      (law.Idle state ∨ ∃ opened, law.Scoped opened state) →
        execute event t state = o.execute event t state)
    (hm : law.Maintains timestamp events.length events Inv) (h : law.Idle state)
    (hv : ∀ t ≤ timestamp, law.Valid t) (hi : Inv 0 (law.view state)) :
    ({ o with execute } : Orchestrator ε ρ σ).orchestrate timestamp events state =
      o.orchestrate timestamp events state := by
  have hout : law.Outside (law.view state) ([] : List ρ)
      { results := [], chain := none, chainBroken := false, state } := ⟨rfl, rfl, h, rfl, rfl⟩
  have hstart : law.Underway timestamp events.length events Inv
      { results := [], chain := none, chainBroken := false, state } 0 := .outside hout hi
  unfold Orchestrator.orchestrate
  rw [hstart.run_congr hx hm hv (fun _ => id) (by omega)]

end Orchestrator.Law

end TigerBeetle.Accounting
