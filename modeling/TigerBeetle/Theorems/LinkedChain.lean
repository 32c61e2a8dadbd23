import TigerBeetle.Accounting.LinkedChain

namespace TigerBeetle.Accounting

open Fallible

def stamp (timestamp count index : Nat) : Nat :=
  timestamp - count + index + 1

variable {timestamp : Nat}

theorem timestampEvent_meets {count index : Nat} :
    Meets (fun _ => True) (fun t => t = stamp timestamp count index ∧ count ≤ timestamp)
      (timestampEvent timestamp count index) := by
  unfold timestampEvent
  simp only [Meets.bind_eq, Meets.pure_eq, partial_assert]
  exact fun h => ⟨rfl, h⟩

namespace Orchestrator

variable {ε ρ σ α : Type} {o : Orchestrator ε ρ σ}

-- What an orchestrator's parts do, in terms of a view of its state: `Step` is the effect of an
-- event, `orphaned` that of its failure, and `rewind opened current` is what a broken chain leaves
-- behind of the view in which it was opened.
structure Law (o : Orchestrator ε ρ σ) (α : Type) where
  view : σ → α
  Idle : σ → Prop
  Scoped : α → σ → Prop
  Valid : (timestamp : Nat) → Prop
  Step : α → ε → (timestamp : Nat) → ρ → α → Prop
  orphaned : ε → ρ → α → α
  rewind : α → α → α
  not_created_chainOpen : ∀ t, o.created (o.chainOpen t) = false
  not_created_linkedFailed : ∀ t, o.created (o.linkedFailed t) = false
  not_created_markFailed : ∀ r, o.created (o.markFailed r) = false
  isChainOpen_chainOpen : ∀ t, o.isChainOpen (o.chainOpen t) = true
  isChainOpen_linkedFailed : ∀ t, o.isChainOpen (o.linkedFailed t) = false
  not_chainOpen_of_created : ∀ r, o.created r = true → o.isChainOpen r = false
  orphaned_chainOpen : ∀ e t a, orphaned e (o.chainOpen t) a = a
  orphaned_linkedFailed : ∀ e t a, orphaned e (o.linkedFailed t) a = a
  rewind_self : ∀ e r a, rewind a (orphaned e r a) = orphaned e r a
  step_of_not_created : ∀ a e t r b, Step a e t r b → o.created r = false → b = a
  not_chainOpen_of_step : ∀ a e t r b, Step a e t r b → o.isChainOpen r = false
  scopeOpen : ∀ s, Idle s →
    Meets (fun _ => True) (fun s' => Scoped (view s) s' ∧ view s' = view s) (o.scopeOpen s)
  execute : ∀ e t s, Valid t → Idle s →
    Meets (fun _ => True) (fun r => Idle r.2 ∧ Step (view s) e t r.1 (view r.2)) (o.execute e t s)
  execute' : ∀ opened e t s, Valid t → Scoped opened s →
    Meets (fun _ => True) (fun r => Scoped opened r.2 ∧ Step (view s) e t r.1 (view r.2))
      (o.execute e t s)
  orphan : ∀ e r s, Idle s → Idle (o.orphan e r s)
  orphan' : ∀ opened e r s, Scoped opened s → Scoped opened (o.orphan e r s)
  view_orphan : ∀ e r s, view (o.orphan e r s) = orphaned e r (view s)
  discard : ∀ opened s, Scoped opened s →
    Meets (fun _ => True) (fun s' => Idle s' ∧ view s' = rewind opened (view s)) (o.discard s)
  persist : ∀ opened s, Scoped opened s →
    Meets (fun _ => True) (fun s' => Idle s' ∧ view s' = view s) (o.complete false s)
  abandon : ∀ s, Idle s →
    Meets (fun _ => True) (fun s' => Idle s' ∧ view s' = view s) (o.complete true s)

-- A chain up to and including the event that ends it, or an event on its own.
def Segment (o : Orchestrator ε ρ σ) (events post : List ε) : Prop :=
  ∃ body last, events = body ++ [last] ∧ (∀ event ∈ body, o.linked event = true) ∧
    (o.linked last = true → post = [])

-- Events that do not end within a chain, unless the batch does.
def Closed (o : Orchestrator ε ρ σ) (events post : List ε) : Prop :=
  ∀ last ∈ events.getLast?, o.linked last = true → post = []

variable {post : List ε}

theorem exists_segment {event : ε} {events : List ε} (h : o.Closed (event :: events) post) :
    ∃ segment rest, event :: events = segment ++ rest ∧ o.Segment segment (rest ++ post) ∧
      o.Closed rest post := by
  induction events generalizing event with
  | nil => exact ⟨[event], [], rfl, ⟨[], event, rfl, nofun, h event rfl⟩, nofun⟩
  | cons next events ih =>
    have h' : o.Closed (next :: events) post := fun last hl => h last (by simpa using hl)
    cases hl : o.linked event with
    | false =>
      exact ⟨[event], next :: events, rfl, ⟨[], event, rfl, nofun, fun h => by simp [hl] at h⟩, h'⟩
    | true =>
      have ⟨segment, rest, he, ⟨body, last, hs, hb, hp⟩, hc⟩ := ih h'
      refine ⟨event :: segment, rest, by rw [he]; rfl,
        ⟨event :: body, last, by rw [hs]; rfl, ?_, hp⟩, hc⟩
      intro e hm
      cases hm with
      | head      => exact hl
      | tail _ hm => exact hb e hm

theorem run_append {count index : Nat} {xs ys : List ε} {loop : Loop ρ σ} :
    o.run count timestamp index (xs ++ ys) loop =
      o.run count timestamp index xs loop >>= o.run count timestamp (index + xs.length) ys := by
  induction xs generalizing index loop with
  | nil => rfl
  | cons x xs ih =>
    simp only [List.cons_append, run, bind_assoc, ih, List.length_cons, Nat.add_assoc,
      Nat.add_comm 1]

theorem run_meets_count {count index : Nat} {events : List ε} {loop : Loop ρ σ}
    (h : events ≠ []) :
    Meets (fun _ => True) (fun _ => count ≤ timestamp) (o.run count timestamp index events loop) := by
  cases events with
  | nil => exact absurd rfl h
  | cons event events =>
    simp only [Orchestrator.run, Orchestrator.step, bind_assoc]
    exact timestampEvent_meets.bind fun _ ⟨_, hle⟩ => Meets.trivial.weaken fun _ _ => hle

-- What holds of each loop of a run and of the event that comes next.
def Along (o : Orchestrator ε ρ σ) (count timestamp index : Nat) (R : Loop ρ σ → ε → Prop)
    (events : List ε) (loop : Loop ρ σ) : Prop :=
  ∀ before event after loop', events = before ++ event :: after →
    o.run count timestamp index before loop = .ok loop' → R loop' event

namespace Along

variable {count timestamp index : Nat} {R : Loop ρ σ → ε → Prop} {event : ε} {events xs ys : List ε}
    {loop loop' : Loop ρ σ}

theorem head (h : o.Along count timestamp index R (event :: events) loop) : R loop event :=
  h [] event events loop rfl rfl

theorem tail (h : o.Along count timestamp index R (event :: events) loop)
    (hs : o.step count index event timestamp loop = .ok loop') :
    o.Along count timestamp (index + 1) R events loop' := by
  intro before next after loop₂ he hr
  refine h (event :: before) next after loop₂ (by rw [he]; rfl) ?_
  simp only [Orchestrator.run, hs, ok_bind, hr]

theorem left (h : o.Along count timestamp index R (xs ++ ys) loop) :
    o.Along count timestamp index R xs loop := by
  intro before next after loop₂ he hr
  exact h before next (after ++ ys) loop₂ (by simp [he]) hr

theorem right (h : o.Along count timestamp index R (xs ++ ys) loop)
    (hs : o.run count timestamp index xs loop = .ok loop') :
    o.Along count timestamp (index + xs.length) R ys loop' := by
  intro before next after loop₂ he hr
  refine h (xs ++ before) next after loop₂ (by simp [he]) ?_
  rw [run_append, hs, ok_bind, hr]

end Along

namespace Law

variable (law : o.Law α) (timestamp count : Nat)

-- Events that are created one after the other.
def Trace (index : Nat) : α → List ε → List ρ → α → Prop
  | a, [], [], b => b = a
  | a, event :: events, result :: results, c =>
    ∃ b, law.Step a event (stamp timestamp count index) result b ∧ o.created result = true ∧
      Trace (index + 1) b events results c
  | _, _, _, _ => False

variable {law timestamp count} {index : Nat} {a b c : α} {events events' : List ε}
    {results results' : List ρ} {event : ε} {result : ρ}

theorem Trace.length_eq (h : law.Trace timestamp count index a events results b) :
    results.length = events.length := by
  induction events generalizing index a results with
  | nil =>
    cases results with
    | nil       => rfl
    | cons _ _ => cases h
  | cons event events ih =>
    cases results with
    | nil => cases h
    | cons result results =>
      have ⟨_, _, _, h⟩ := h
      simp [ih h]

theorem Trace.created (h : law.Trace timestamp count index a events results b) :
    ∀ r ∈ results, o.created r = true := by
  induction events generalizing index a results with
  | nil =>
    cases results with
    | nil       => nofun
    | cons _ _ => cases h
  | cons event events ih =>
    cases results with
    | nil => cases h
    | cons result results =>
      have ⟨_, _, hc, h⟩ := h
      intro r hr
      cases hr with
      | head      => exact hc
      | tail _ hr => exact ih h r hr

theorem Trace.concat (h : law.Trace timestamp count index a events results b)
    (hs : law.Step b event (stamp timestamp count (index + events.length)) result c)
    (hc : o.created result = true) :
    law.Trace timestamp count index a (events ++ [event]) (results ++ [result]) c := by
  induction events generalizing index a results with
  | nil =>
    cases results with
    | nil =>
      cases h
      exact ⟨c, hs, hc, rfl⟩
    | cons _ _ => cases h
  | cons e events ih =>
    cases results with
    | nil => cases h
    | cons r results =>
      have ⟨a', h₁, h₂, h₃⟩ := h
      refine ⟨a', h₁, h₂, ih h₃ ?_⟩
      rw [List.length_cons, ← Nat.add_assoc, Nat.add_right_comm] at hs
      exact hs

variable (law timestamp count) (R : Loop ρ σ → ε → Prop)

-- An event that is executed, in a segment that starts at `start`, whose events so far are `created`,
-- and that has come to the view `current`.
def Executed (start : Nat) (created : List ε) (current : α) (event : ε) : Prop :=
  ∃ loop, R loop event ∧ loop.chainBroken = false ∧ law.view loop.state = current ∧
    loop.results.length = start + created.length ∧ loop.chain.getD loop.results.length = start ∧
    ¬(o.linked event = true ∧ loop.results.length = count - 1)

-- A chain that breaks: its first events are created and undone, then one fails.
structure Breaks (index : Nat) (a : α) (events : List ε) (results : List ρ) (b : α)
    (created : List ε) (undone : List ρ) (current : α) (event : ε) (result : ρ) (rest : List ε)
    (failed : List ρ) : Prop where
  events_eq : events = created ++ event :: rest
  results_eq : results = undone.map o.markFailed ++ result :: failed
  trace : law.Trace timestamp count index a created undone current
  not_created : o.created result = false
  step :
    law.Executed count R index created current event ∧
      law.Step current event (stamp timestamp count (index + created.length)) result current ∨
    rest = [] ∧ o.linked event = true ∧ ∃ t, result = o.chainOpen t
  failed_eq : failed.length = rest.length ∧
    ∀ r ∈ failed, ∃ t, r = o.linkedFailed t ∨ r = o.chainOpen t
  view_eq : b = law.rewind a (law.orphaned event result current)

def Broken (index : Nat) (a : α) (events : List ε) (results : List ρ) (b : α) : Prop :=
  ∃ created undone current event result rest failed,
    law.Breaks timestamp count R index a events results b created undone current event result rest
      failed

-- What a segment does: either all of its events are created, or it breaks.
def Outcome (index : Nat) (a : α) (events : List ε) (results : List ρ) (b : α) : Prop :=
  law.Trace timestamp count index a events results b ∧
      (∀ last ∈ events.getLast?, o.linked last = false) ∨
    law.Broken timestamp count R index a events results b

-- A loop out of a chain.
structure Outside (a : α) (results : List ρ) (loop : Loop ρ σ) : Prop where
  chain : loop.chain = none
  whole : loop.chainBroken = false
  idle : law.Idle loop.state
  view : law.view loop.state = a
  results : loop.results = results

-- A loop in a chain that was opened in the view `a`, after the results `before`.
structure Inside (before : List ρ) (a : α) (events : List ε) (loop : Loop ρ σ) : Prop where
  chain : loop.chain = some before.length
  outcome : ∃ results, loop.results = before ++ results ∧
    if loop.chainBroken then
      law.Idle loop.state ∧
        law.Broken timestamp count R before.length a events results (law.view loop.state)
    else
      law.Scoped a loop.state ∧
        law.Trace timestamp count before.length a events results (law.view loop.state)

variable {law timestamp count R} {before : List ρ} {loop : Loop ρ σ}

-- Whether the batch may go on: an open chain is at its end.
def Steady (o : Orchestrator ε ρ σ) (results : List ρ) : Prop :=
  ∀ r ∈ results.getLast?, o.isChainOpen r = false

theorem Broken.concat (h : law.Broken timestamp count R index a events results b)
    (hst : Steady o results) (hr : ∃ t, result = o.linkedFailed t ∨ result = o.chainOpen t) :
    law.Broken timestamp count R index a (events ++ [event]) (results ++ [result]) b := by
  have ⟨created, undone, current, e, r, rest, failed, h⟩ := h
  have hstep : law.Executed count R index created current e ∧
      law.Step current e (stamp timestamp count (index + created.length)) r current := by
    cases h.step with
    | inl hs => exact hs
    | inr ho =>
      have ⟨hr, _, t, ht⟩ := ho
      have hf : failed = [] := List.length_eq_zero_iff.mp (by rw [h.failed_eq.1, hr]; rfl)
      have := hst r (by simp [h.results_eq, hf])
      simp [ht, law.isChainOpen_chainOpen] at this
  refine ⟨created, undone, current, e, r, rest ++ [event], failed ++ [result], ?_⟩
  exact {
    events_eq := by simp [h.events_eq]
    results_eq := by simp [h.results_eq]
    trace := h.trace
    not_created := h.not_created
    step := .inl hstep
    failed_eq := by
      refine ⟨by simp [h.failed_eq.1], fun r hr' => ?_⟩
      cases List.mem_append.mp hr' with
      | inl hr' => exact h.failed_eq.2 r hr'
      | inr hr' => exact List.mem_singleton.mp hr' ▸ hr
    view_eq := h.view_eq
  }

theorem Trace.breaks (h : law.Trace timestamp count index a events results b)
    (hc : o.created result = false)
    (hs : law.Executed count R index events b event ∧
        law.Step b event (stamp timestamp count (index + events.length)) result b ∨
      o.linked event = true ∧ ∃ t, result = o.chainOpen t)
    (hv : c = law.rewind a (law.orphaned event result b)) :
    law.Broken timestamp count R index a (events ++ [event]) (results.map o.markFailed ++ [result])
      c :=
  ⟨events, results, b, event, result, [], [], rfl, rfl, h, hc, hs.imp_right fun h => ⟨rfl, h⟩,
    ⟨rfl, nofun⟩, hv⟩

-- A loop that leaves its chain.
def Leaves (law : o.Law α) (timestamp count : Nat) (R : Loop ρ σ → ε → Prop) (before : List ρ)
    (a : α) (events : List ε) (loop : Loop ρ σ) : Prop :=
  ∃ results, law.Outside (law.view loop.state) (before ++ results) loop ∧
    law.Outcome timestamp count R before.length a events results (law.view loop.state)

theorem Inside.closeChain (h : law.Inside timestamp count R before a events loop)
    (he : events.getLast? = some event) (hr : loop.results.getLast? = some result) :
    Meets (fun _ => True) (fun (loop' : Loop ρ σ) =>
        if o.linked event = true ∧ o.isChainOpen result = false then loop' = loop
        else law.Leaves timestamp count R before a events loop')
      (o.closeChain event result loop) := by
  have ⟨results, hres, ho⟩ := h.outcome
  unfold Orchestrator.closeChain
  by_cases hl : o.linked event = true ∧ o.isChainOpen result = false
  · simp [h.chain, hl]
  · have hl' : o.linked event = false ∨ o.isChainOpen result = true := by
      by_cases hl' : o.linked event = true <;> simp_all
    simp only [h.chain, Option.isSome_some, Bool.not_eq_true', hl', and_self, ↓reduceIte, hl,
      Meets.bind_eq, Meets.pure_eq]
    cases hb : loop.chainBroken with
    | false =>
      simp only [hb, Bool.false_eq_true, ↓reduceIte] at ho
      refine (law.persist a _ ho.1).weaken fun s ⟨hs, hv⟩ => ?_
      refine ⟨results, ⟨rfl, rfl, hs, rfl, hres⟩, .inl ⟨hv ▸ ho.2, fun last hlast => ?_⟩⟩
      obtain rfl : event = last := Option.some.inj (he.symm.trans hlast)
      have hne : results ≠ [] := by
        intro hnil
        have := ho.2.length_eq
        cases events with
        | nil      => cases he
        | cons _ _ => simp [hnil] at this
      have hm : result ∈ results := by
        rw [hres, List.getLast?_append] at hr
        cases hlast : results.getLast? with
        | none   => exact absurd (List.getLast?_eq_none_iff.mp hlast) hne
        | some r =>
          rw [hlast] at hr
          exact Option.some.inj hr ▸ List.mem_of_getLast? hlast
      exact hl'.resolve_right (by simp [law.not_chainOpen_of_created _ (ho.2.created _ hm)])
    | true =>
      simp only [hb, ↓reduceIte] at ho
      refine (law.abandon _ ho.1).weaken fun s ⟨hs, hv⟩ => ?_
      exact ⟨results, ⟨rfl, rfl, hs, rfl, hres⟩, .inr (hv ▸ ho.2)⟩

-- The chain is broken, so what comes after it fails.
theorem Inside.breakChain_of_broken (h : law.Inside timestamp count R before a events loop)
    (hb : loop.chainBroken = true) (hst : Steady o loop.results)
    (hr : ∃ t, result = o.linkedFailed t ∨ result = o.chainOpen t) :
    Meets (fun _ => True) (fun (loop' : Loop ρ σ) =>
        law.Inside timestamp count R before a (events ++ [event])
          { loop' with results := loop'.results ++ [result] })
      (o.breakChain event result loop) := by
  have ⟨results, hres, ho⟩ := h.outcome
  simp only [hb, ↓reduceIte] at ho
  have hc : o.created result = false := by
    have ⟨t, hr⟩ := hr
    cases hr with
    | inl hr => exact hr ▸ law.not_created_linkedFailed t
    | inr hr => exact hr ▸ law.not_created_chainOpen t
  have hv : law.view (o.orphan event result loop.state) = law.view loop.state := by
    rw [law.view_orphan]
    have ⟨t, hr⟩ := hr
    cases hr with
    | inl hr => exact hr ▸ law.orphaned_linkedFailed ..
    | inr hr => exact hr ▸ law.orphaned_chainOpen ..
  unfold Orchestrator.breakChain
  simp only [hc, h.chain, hb, ↓reduceIte, Bool.false_eq_true, Meets.pure_eq]
  refine ⟨rfl, results ++ [result], by simp [hres], ?_⟩
  simp only [↓reduceIte]
  have hst' : Steady o results := by
    intro r hm
    refine hst r ?_
    rw [hres, List.getLast?_append, hm]
    rfl
  exact ⟨law.orphan _ _ _ ho.1, hv ▸ ho.2.concat hst' hr⟩

-- The chain is whole: the event is created like those before it, or it breaks the chain.
theorem Inside.breakChain_of_whole {after : Loop ρ σ} {current : α} {results : List ρ}
    (hchain : after.chain = some before.length) (hb : after.chainBroken = false)
    (hres : after.results = before ++ results)
    (ht : law.Trace timestamp count before.length a events results current)
    (hs : law.Scoped a after.state)
    (hr : (o.linked event = true ∧ ∃ t, result = o.chainOpen t) ∧
        law.view after.state = current ∨
      law.Executed count R before.length events current event ∧
        law.Step current event (stamp timestamp count (before.length + events.length)) result
          (law.view after.state)) :
    Meets (fun _ => True) (fun (loop' : Loop ρ σ) =>
        law.Inside timestamp count R before a (events ++ [event])
          { loop' with results := loop'.results ++ [result] })
      (o.breakChain event result after) := by
  unfold Orchestrator.breakChain
  cases hc : o.created result with
  | true =>
    simp only [↓reduceIte, Meets.pure_eq]
    refine ⟨hchain, results ++ [result], by simp [hres], ?_⟩
    simp only [hb, Bool.false_eq_true, ↓reduceIte]
    refine ⟨hs, ?_⟩
    cases hr with
    | inl hr =>
      have ⟨⟨_, t, hr⟩, _⟩ := hr
      simp [hr, law.not_created_chainOpen] at hc
    | inr hr => exact ht.concat hr.2 hc
  | false =>
    have hv : law.view after.state = current := by
      cases hr with
      | inl hr => exact hr.2
      | inr hr => exact law.step_of_not_created _ _ _ _ _ hr.2 hc
    have hr' : law.Executed count R before.length events current event ∧
        law.Step current event (stamp timestamp count (before.length + events.length)) result
          current ∨ o.linked event = true ∧ ∃ t, result = o.chainOpen t := by
      cases hr with
      | inl hr => exact .inr hr.1
      | inr hr => exact .inl (hv ▸ hr)
    simp only [hchain, hb, Bool.false_eq_true, ↓reduceIte, Meets.bind_eq, Meets.pure_eq]
    refine (law.discard a _ (law.orphan' a event result _ hs)).weaken fun s ⟨hi, hd⟩ => ?_
    refine ⟨rfl, results.map o.markFailed ++ [result], by simp [hres], ?_⟩
    simp only [↓reduceIte]
    refine ⟨hi, ht.breaks hc hr' ?_⟩
    rw [hd, law.view_orphan, hv]

theorem Inside.settle (h : law.Inside timestamp count R before a events loop)
    (hst : loop.chainBroken = true → Steady o loop.results)
    (hv : law.Valid (stamp timestamp count index)) (hi : index = before.length + events.length)
    (he : loop.chainBroken = false → ¬(o.linked event = true ∧ index = count - 1) →
      law.Executed count R before.length events (law.view loop.state) event) :
    Meets (fun _ => True) (fun (loop' : Loop ρ σ) =>
        if o.linked event = true ∧ index ≠ count - 1 then
          law.Inside timestamp count R before a (events ++ [event]) loop' ∧ Steady o loop'.results
        else
          law.Leaves timestamp count R before a (events ++ [event]) loop')
      (do
        let (result, state) ←
          o.result count index event (stamp timestamp count index) loop
        o.settle event result { loop with state }) := by
  -- The event's result decides whether the loop goes on.
  have close : ∀ (result : ρ) (loop' : Loop ρ σ),
      (o.isChainOpen result = true ↔ o.linked event = true ∧ index = count - 1) →
      law.Inside timestamp count R before a (events ++ [event])
        { loop' with results := loop'.results ++ [result] } →
      Meets (fun _ => True) (fun (loop' : Loop ρ σ) =>
          if o.linked event = true ∧ index ≠ count - 1 then
            law.Inside timestamp count R before a (events ++ [event]) loop' ∧ Steady o loop'.results
          else
            law.Leaves timestamp count R before a (events ++ [event]) loop')
        (o.closeChain event result { loop' with results := loop'.results ++ [result] }) := by
    intro result loop' hr hin
    refine (hin.closeChain (by simp) (by simp)).weaken fun loop'' hc => ?_
    have hiff : (o.linked event = true ∧ o.isChainOpen result = false) ↔
        (o.linked event = true ∧ index ≠ count - 1) := by
      rw [← Bool.not_eq_true, hr]
      constructor <;> intro ⟨h₁, h₂⟩ <;> exact ⟨h₁, by simpa [h₁] using h₂⟩
    by_cases hl : o.linked event = true ∧ index ≠ count - 1
    · rw [if_pos (hiff.mpr hl)] at hc
      rw [if_pos hl, hc]
      refine ⟨hin, fun r hm => ?_⟩
      simp only [List.getLast?_append, List.getLast?_singleton, Option.some_or] at hm
      cases hm
      exact (hiff.mpr hl).2
    · rw [if_neg (mt hiff.mp hl)] at hc
      rw [if_neg hl]
      exact hc
  have ⟨results, hres, ho⟩ := h.outcome
  obtain ⟨_, chain, broken, state⟩ := loop
  obtain rfl : chain = some before.length := h.chain
  unfold Orchestrator.result Orchestrator.settle
  by_cases hl : o.linked event = true ∧ index = count - 1
  · -- The batch ends within the chain.
    have hopen := law.isChainOpen_chainOpen (stamp timestamp count index)
    rw [if_pos hl]
    simp only [pure_bind, Meets.bind_eq]
    cases broken with
    | true =>
      refine (h.breakChain_of_broken rfl (hst rfl) ⟨_, .inr rfl⟩).weaken fun loop' hin => ?_
      exact close _ loop' ⟨fun _ => hl, fun _ => hopen⟩ hin
    | false =>
      refine (Inside.breakChain_of_whole (R := R) h.chain rfl hres ho.2 ho.1
        (.inl ⟨⟨hl.1, _, rfl⟩, rfl⟩)).weaken fun loop' hin => ?_
      exact close _ loop' ⟨fun _ => hl, fun _ => hopen⟩ hin
  · rw [if_neg hl]
    cases broken with
    | true =>
      simp only [↓reduceIte, pure_bind, Meets.bind_eq]
      refine (h.breakChain_of_broken rfl (hst rfl) ⟨_, .inl rfl⟩).weaken fun loop' hin => ?_
      exact close _ loop' (by simp [hl, law.isChainOpen_linkedFailed]) hin
    | false =>
      simp only [Bool.false_eq_true, ↓reduceIte, Meets.bind_eq]
      refine (law.execute' a event _ _ hv ho.1).weaken fun ⟨result, state⟩ ⟨hs, hstep⟩ => ?_
      rw [hi] at hstep
      refine Meets.weaken ?_ (Inside.breakChain_of_whole rfl rfl hres ho.2 hs (.inr ⟨he rfl hl, hstep⟩))
      intro loop' hin
      exact close _ loop' (by simp [hl, law.not_chainOpen_of_step _ _ _ _ _ hstep]) hin

theorem Inside.step (h : law.Inside timestamp count R before a events loop)
    (hst : loop.chainBroken = true → Steady o loop.results)
    (hv : law.Valid (stamp timestamp count index)) (hi : index = before.length + events.length)
    (hR : R loop event) :
    Meets (fun _ => True) (fun (loop' : Loop ρ σ) =>
        if o.linked event = true ∧ index ≠ count - 1 then
          law.Inside timestamp count R before a (events ++ [event]) loop' ∧ Steady o loop'.results
        else
          law.Leaves timestamp count R before a (events ++ [event]) loop')
      (o.step count index event timestamp loop) := by
  unfold Orchestrator.step Orchestrator.openChain
  rw [Meets.bind_iff]
  refine timestampEvent_meets.weaken fun t ⟨ht, _⟩ => ?_
  subst ht
  rw [if_neg fun hn => by simp [h.chain] at hn]
  refine h.settle hst hv hi fun hb hl => ?_
  have ⟨results, hres, ho⟩ := h.outcome
  simp only [hb, Bool.false_eq_true, ↓reduceIte] at ho
  have hlen : loop.results.length = before.length + events.length := by
    rw [hres, List.length_append, ho.2.length_eq]
  exact ⟨loop, hR, hb, rfl, hlen, by simp [h.chain], by rwa [hlen, ← hi]⟩

theorem Outside.step (h : law.Outside a before loop)
    (hs : law.Valid (stamp timestamp count before.length)) (hR : R loop event) :
    Meets (fun _ => True) (fun (loop' : Loop ρ σ) =>
        if o.linked event = true ∧ before.length ≠ count - 1 then
          law.Inside timestamp count R before a [event] loop' ∧ Steady o loop'.results
        else
          law.Leaves timestamp count R before a [event] loop')
      (o.step count before.length event timestamp loop) := by
  unfold Orchestrator.step Orchestrator.openChain
  rw [Meets.bind_iff]
  refine timestampEvent_meets.weaken fun t ht => ?_
  obtain ⟨rfl, _⟩ := ht
  obtain ⟨_, chain, broken, state⟩ := loop
  obtain rfl : chain = none := h.chain
  obtain rfl : broken = false := h.whole
  have hv := h.view
  have hres := h.results
  have hlen := congrArg List.length hres
  have hex : ¬(o.linked event = true ∧ before.length = count - 1) →
      law.Executed count R before.length [] a event :=
    fun hl => ⟨_, hR, rfl, hv, hlen, hlen, by rwa [hlen]⟩
  cases hl : o.linked event with
  | true =>
    simp only [and_self, ↓reduceIte, bind_assoc, Meets.bind_eq, meets_assert_eq, Bool.not_false,
      pure_bind, forall_const, not_true_eq_false, false_implies, and_true]
    refine (law.scopeOpen _ h.idle).weaken fun s hopen => ?_
    obtain ⟨ho, hv'⟩ := hopen
    have hin : law.Inside timestamp count R before a []
        { results := before, chain := some before.length, chainBroken := false, state := s } := by
      refine ⟨rfl, [], by simp, ?_⟩
      exact ⟨hv ▸ ho, hv'.trans hv⟩
    have hview : law.view s = a := hv'.trans hv
    rw [← hview] at hex
    have hset := hin.settle (fun h => by cases h) hs rfl fun _ => hex
    subst hres
    simpa [hl, Meets.bind_eq] using hset
  | false =>
    simp only [Bool.false_eq_true, false_and, ↓reduceIte, pure_bind, Orchestrator.result, hl,
      Meets.bind_eq]
    refine (law.execute event _ _ hs h.idle).weaken fun r hr => ?_
    obtain ⟨result, state'⟩ := r
    obtain ⟨hs, hstep⟩ := hr
    rw [hv] at hstep
    simp only [Orchestrator.settle, Orchestrator.breakChain, Orchestrator.closeChain]
    cases hc : o.created result with
    | true =>
      simp only [↓reduceIte, pure_bind, Option.isSome_none, Bool.false_eq_true, false_and,
        Meets.pure_eq]
      refine ⟨[result], ⟨rfl, rfl, hs, rfl, congrArg (· ++ _) hres⟩,
        .inl ⟨⟨_, hstep, hc, rfl⟩, by simp [hl]⟩⟩
    | false =>
      simp only [↓reduceIte, pure_bind, Option.isSome_none, Bool.false_eq_true, false_and,
        Meets.pure_eq]
      have hb : law.view state' = a := law.step_of_not_created _ _ _ _ _ hstep hc
      refine ⟨[result], ⟨rfl, rfl, law.orphan _ _ _ hs, rfl, congrArg (· ++ _) hres⟩, .inr ?_⟩
      have htrace : law.Trace timestamp count before.length a [] [] a := rfl
      refine htrace.breaks hc (.inl ⟨hex (by simp [hl]), ?_⟩) ?_
      · exact hb ▸ hstep
      · rw [law.view_orphan, hb, law.rewind_self]

theorem Inside.run {body : List ε} {last : ε}
    (h : law.Inside timestamp count R before a events loop)
    (hst : Steady o loop.results) (hv : ∀ index < count, law.Valid (stamp timestamp count index))
    (hR : o.Along count timestamp index R (body ++ [last]) loop)
    (hi : index = before.length + events.length) (hb : ∀ event ∈ body, o.linked event = true)
    (hc : index + body.length < count) (hl : o.linked last = true → index + body.length = count - 1) :
    Meets (fun _ => True) (law.Leaves timestamp count R before a (events ++ (body ++ [last])))
      (o.run count timestamp index (body ++ [last]) loop) := by
  induction body generalizing index events loop with
  | nil =>
    simp only [List.nil_append, Orchestrator.run, bind_pure]
    refine (h.step (fun _ => hst) (hv index hc) hi hR.head).weaken fun loop' h' => ?_
    rw [if_neg fun hn => hn.2 (hl hn.1)] at h'
    exact h'
  | cons event body ih =>
    simp only [List.cons_append, Orchestrator.run, Meets.bind_eq]
    simp only [List.length_cons] at hc hl
    refine (h.step (fun _ => hst) (hv index (by omega)) hi hR.head).returned.weaken
      fun loop' ⟨hs, h'⟩ => ?_
    rw [if_pos ⟨hb event (List.mem_cons_self ..), by omega⟩] at h'
    have := ih h'.1 h'.2 (hR.tail hs) (by simp [hi]; omega)
      (fun e he => hb e (List.mem_cons_of_mem _ he)) (by omega) (fun hh => by have := hl hh; omega)
    simpa using this

theorem Outside.segment {segment : List ε} (h : law.Outside a before loop)
    (hv : ∀ index < count, law.Valid (stamp timestamp count index))
    (hR : o.Along count timestamp before.length R segment loop)
    (hs : o.Segment segment post) (hc : before.length + segment.length + post.length = count) :
    Meets (fun _ => True) (law.Leaves timestamp count R before a segment)
      (o.run count timestamp before.length segment loop) := by
  have ⟨body, last, he, hb, hp⟩ := hs
  subst he
  simp only [List.length_append, List.length_singleton] at hc
  have hl : o.linked last = true → before.length + body.length = count - 1 := fun hl => by
    simp [hp hl] at hc
    omega
  cases body with
  | nil =>
    simp only [List.nil_append, Orchestrator.run, bind_pure]
    refine (h.step (hv _ (by simp at hc; omega)) hR.head).weaken fun loop' h' => ?_
    rw [if_neg fun hn => hn.2 (by simpa using hl hn.1)] at h'
    exact h'
  | cons event body =>
    simp only [List.cons_append, Orchestrator.run, Meets.bind_eq]
    refine (h.step (hv _ (by simp at hc; omega)) hR.head).returned.weaken fun loop' ⟨hs, h'⟩ => ?_
    simp only [List.length_cons] at hc hl
    rw [if_pos ⟨hb event (List.mem_cons_self ..), by omega⟩] at h'
    exact h'.1.run h'.2 hv (hR.tail hs) (by simp) (fun e he => hb e (List.mem_cons_of_mem _ he))
      (by omega) (fun hh => by have := hl hh; omega)

-- The segments of a batch one after the other, up to the events `after` them.
inductive Segments (l : o.Law α) (time length : Nat) (R : Loop ρ σ → ε → Prop) :
    (start : Nat) → α → List ε → List ε → List ρ → α → Prop
  | nil {i : Nat} {a : α} {after : List ε} : Segments l time length R i a [] after [] a
  | cons {i : Nat} {a b c : α} {segment rest after : List ε} {rs rs' : List ρ} :
    o.Segment segment (rest ++ after) →
    l.Outcome time length R i a segment rs b →
    Segments l time length R (i + segment.length) b rest after rs' c →
    Segments l time length R i a (segment ++ rest) after (rs ++ rs') c

theorem Outcome.length_eq (h : law.Outcome timestamp count R index a events results b) :
    results.length = events.length := by
  cases h with
  | inl h => exact h.1.length_eq
  | inr h =>
    have ⟨_, _, _, _, _, _, _, h⟩ := h
    simp [h.events_eq, h.results_eq, h.trace.length_eq, h.failed_eq.1]

theorem Segments.length_eq (h : law.Segments timestamp count R index a events post results b) :
    results.length = events.length := by
  induction h with
  | nil             => rfl
  | cons _ ho _ ih => simp [ho.length_eq, ih]

theorem Outside.run (h : law.Outside a before loop)
    (hv : ∀ index < count, law.Valid (stamp timestamp count index))
    (hR : o.Along count timestamp before.length R events loop)
    (hp : o.Closed events post) (hc : before.length + events.length + post.length = count) :
    Meets (fun _ => True) (fun (loop' : Loop ρ σ) =>
        ∃ results, law.Outside (law.view loop'.state) (before ++ results) loop' ∧
          law.Segments timestamp count R before.length a events post results (law.view loop'.state))
      (o.run count timestamp before.length events loop) := by
  induction hn : events.length using Nat.strongRecOn generalizing before a events loop with
  | ind n ih =>
    cases events with
    | nil =>
      refine ⟨[], ?_, ?_⟩
      · rw [List.append_nil, h.view]
        exact h
      · rw [h.view]
        exact .nil
    | cons event events =>
      have ⟨segment, rest, he, hs, hp'⟩ := exists_segment hp
      have hpos : 0 < segment.length := by
        have ⟨_, _, h, _⟩ := hs
        simp [h]
      rw [he] at hc hn hR ⊢
      rw [List.length_append] at hc hn
      rw [run_append, Meets.bind_iff]
      refine (h.segment hv hR.left hs (by simp; omega)).returned.weaken
        fun loop₁ ⟨hrun, results, h₁, ho⟩ => ?_
      have hlen := ho.length_eq
      have hR' := hR.right hrun
      rw [← hlen, ← List.length_append] at hR'
      have h₂ := ih rest.length (by omega) h₁ hR' hp' (by simp [hlen]; omega) rfl
      rw [List.length_append, hlen] at h₂
      refine h₂.weaken fun loop₂ ⟨results', h₃, hseg⟩ => ?_
      exact ⟨results ++ results', by simpa using h₃, .cons hs ho hseg⟩

variable (law) in
theorem orchestrate_meets {state : σ} (h : law.Idle state) (hv : ∀ t ≤ timestamp, law.Valid t)
    (hR : o.Along events.length timestamp 0 R events
      { results := [], chain := none, chainBroken := false, state }) :
    Meets (fun _ => True) (fun (loop : Loop ρ σ) =>
        law.Idle loop.state ∧
          law.Segments timestamp events.length R 0 (law.view state) events [] loop.results
            (law.view loop.state))
      (o.orchestrate timestamp events state) := by
  unfold orchestrate
  simp only [Meets.bind_eq, Meets.pure_eq, partial_assert]
  by_cases hle : events.length ≤ timestamp
  · have hout : law.Outside (law.view state) []
        { results := [], chain := none, chainBroken := false, state } := ⟨rfl, rfl, h, rfl, rfl⟩
    have hv : ∀ index < events.length, law.Valid (stamp timestamp events.length index) :=
      fun index hlt => hv _ (by unfold stamp; omega)
    refine (hout.run hv hR (fun _ _ _ => rfl) (by simp)).weaken fun loop hloop _ _ => ?_
    obtain ⟨results, h₁, h₂⟩ := hloop
    rw [h₁.results]
    exact ⟨h₁.idle, h₂⟩
  · -- There are more events than timestamps.
    have hpos : events ≠ [] := fun he => hle (by simp [he])
    exact (run_meets_count hpos).weaken fun _ h => absurd h hle

end Law

end Orchestrator

end TigerBeetle.Accounting
