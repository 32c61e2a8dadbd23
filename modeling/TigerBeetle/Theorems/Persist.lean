import TigerBeetle.Theorems.Ledger

namespace TigerBeetle.Accounting

open Fallible Orchestrator

section Batch

variable {ε ρ σ : Type} {linked : ε → Bool} {created : ρ → Bool}
    {persistEvent : Nat → ε → ρ → σ → Result σ} {index : Nat} {chain body rest : List (ε × ρ)}
    {last : ε × ρ} {state : σ}

-- A segment is persisted as a whole, or not at all.
theorem persistBatch_append (hb : ∀ pair ∈ body, linked pair.1 = true)
    (hl : linked last.1 = true → rest = []) :
    persistBatch linked created persistEvent index chain (body ++ last :: rest) state =
      if linked last.1 = false ∧ (chain ++ body ++ [last]).all fun (_, result) => created result then
        persistBatch.persistChain persistEvent index (chain ++ body ++ [last]) state >>=
          persistBatch linked created persistEvent (index + (chain ++ body ++ [last]).length) [] rest
      else
        persistBatch linked created persistEvent (index + (chain ++ body ++ [last]).length) [] rest
          state := by
  induction body generalizing chain with
  | nil =>
    cases hlast : linked last.1 with
    | true =>
      simp [persistBatch, hlast, hl hlast]
    | false =>
      simp only [List.nil_append, List.append_nil, persistBatch, hlast, Bool.false_eq_true,
        ↓reduceIte, true_and]
      split <;> simp
  | cons pair body ih =>
    have hpair := hb pair (List.mem_cons_self ..)
    rw [List.cons_append, persistBatch, if_pos hpair,
      ih fun p hp => hb p (List.mem_cons_of_mem _ hp)]
    simp only [List.append_assoc, List.cons_append, List.nil_append]

-- An event on its own that is not created is skipped.
theorem persistBatch_skip {pairs : List (ε × ρ)} {pair : ε × ρ}
    (hclosed : ∀ last ∈ pairs.getLast?, linked last.1 = false) (hempty : pairs = [] → chain = [])
    (hl : linked pair.1 = false) (hc : created pair.2 = false) :
    persistBatch linked created persistEvent index chain (pairs ++ pair :: rest) state =
      persistBatch linked created persistEvent index chain pairs state >>=
        persistBatch linked created persistEvent (index + chain.length + pairs.length + 1) [] rest := by
  induction pairs generalizing index chain state with
  | nil =>
    obtain rfl := hempty rfl
    simp [persistBatch, hl, hc]
  | cons next pairs ih =>
    have hclosed' : ∀ last ∈ pairs.getLast?, linked last.1 = false :=
      fun last hm => hclosed last (by cases pairs <;> simp_all)
    rw [List.cons_append, persistBatch, persistBatch]
    dsimp only
    split
    case isTrue hnext =>
      rw [ih hclosed' fun he => by simp [he, hnext] at hclosed]
      simp [Nat.add_assoc, Nat.add_comm 1]
    case isFalse =>
      split <;> simp [ih hclosed' fun _ => rfl, Nat.add_assoc, Nat.add_comm 1]

theorem persistBatch_meets {E : Fault → Prop} {Inv : σ → Prop}
    (hp : ∀ index event result state, Inv state →
      Meets E Inv (persistEvent index event result state)) {pairs : List (ε × ρ)} (h : Inv state) :
    Meets E Inv (persistBatch linked created persistEvent index chain pairs state) := by
  have hchain : ∀ (chain : List (ε × ρ)) (index : Nat) (state : σ), Inv state →
      Meets E Inv (persistBatch.persistChain persistEvent index chain state) := by
    intro chain
    induction chain with
    | nil => exact fun _ _ h => h
    | cons pair chain ih =>
      intro index state h
      unfold persistBatch.persistChain
      rw [Meets.bind_iff]
      exact (hp _ _ _ _ h).weaken fun _ h => ih _ _ h
  induction pairs generalizing index chain state with
  | nil => exact h
  | cons pair pairs ih =>
    unfold persistBatch
    dsimp only
    split
    · exact ih h
    split
    · rw [Meets.bind_iff]
      exact (hchain _ _ _ h).weaken fun _ h => ih h
    · exact ih h

end Batch

theorem Orchestrator.Segment.zip {ε ρ σ : Type} {o : Orchestrator ε ρ σ} {segment post : List ε}
    {results : List ρ} (h : o.Segment segment post) (hlen : results.length = segment.length) :
    ∃ pairs last, segment.zip results = pairs ++ [last] ∧ segment.getLast? = some last.1 ∧
      (∀ pair ∈ pairs, o.linked pair.1 = true) ∧ (o.linked last.1 = true → post = []) := by
  have ⟨body, last, he, hb, hl⟩ := h
  subst he
  cases results using List.reverseRecOn with
  | nil => simp at hlen
  | append_singleton results result =>
    have hlen' : body.length = results.length := by simpa using hlen.symm
    refine ⟨body.zip results, (last, result), by simp [List.zip_append hlen'], by simp,
      fun pair hp => hb _ (List.of_mem_zip hp).1, hl⟩

namespace Orchestrator.Law

variable {ε ρ σ α τ : Type} {o : Orchestrator ε ρ σ} {law : o.Law α} {timestamp count index : Nat}
    {R : Loop ρ σ → ε → Prop} {persistEvent : Nat → ε → ρ → τ → Result τ} {Rel : α → τ → Prop}
    {batch : List ε}

-- What relates a view to what is persisted, event by event.
structure Persists (law : o.Law α) (timestamp count : Nat) (batch : List ε)
    (persistEvent : Nat → ε → ρ → τ → Result τ) (Rel : α → τ → Prop) : Prop where
  step : ∀ index a event result b state, event ∈ batch → o.created result = true →
    law.Step a event (stamp timestamp count index) result b → Rel a state →
    Meets (fun _ => True) (Rel b) (persistEvent index event result state)
  rewind : ∀ a event result current state, Rel a state →
    Rel (law.rewind a (law.orphaned event result current)) state

variable {state : τ} {results : List ρ} {events : List ε} {a b : α}

theorem Trace.persist (hp : law.Persists timestamp count batch persistEvent Rel)
    (h : law.Trace timestamp count index a events results b) (hm : ∀ event ∈ events, event ∈ batch)
    (hr : Rel a state) :
    Meets (fun _ => True) (Rel b)
      (persistBatch.persistChain persistEvent index (events.zip results) state) := by
  induction events generalizing index a results state with
  | nil =>
    cases results with
    | nil =>
      cases h
      exact hr
    | cons _ _ => cases h
  | cons event events ih =>
    cases results with
    | nil => cases h
    | cons result results =>
      have ⟨_, hs, hc, h⟩ := h
      simp only [List.zip_cons_cons, persistBatch.persistChain, Meets.bind_eq]
      refine (hp.step index a event result _ state (hm _ (List.mem_cons_self ..)) hc hs hr).weaken
        fun state hr => ?_
      exact ih h (fun e he => hm e (List.mem_cons_of_mem _ he)) hr

-- A segment whose events are all created is persisted before the rest of the batch.
theorem Trace.persistBatch_eq {segment rest : List ε} {rs rs' : List ρ}
    (h : law.Trace timestamp count index a segment rs b) (hs : o.Segment segment (rest ++ []))
    (hlast : ∀ last ∈ segment.getLast?, o.linked last = false) :
    persistBatch o.linked o.created persistEvent index [] ((segment ++ rest).zip (rs ++ rs')) state =
      persistBatch.persistChain persistEvent index (segment.zip rs) state >>=
        persistBatch o.linked o.created persistEvent (index + segment.length) [] (rest.zip rs') := by
  have hlen := h.length_eq
  have ⟨pairs, last, he, hl, hb, hp⟩ := hs.zip hlen
  have hall : ((segment.zip rs).all fun (_, result) => o.created result) = true := by
    rw [List.all_eq_true]
    exact fun pair hm => h.created _ (List.of_mem_zip hm).2
  rw [List.zip_append hlen.symm, he, List.append_assoc, List.singleton_append,
    persistBatch_append hb fun hlinked => by simp [(List.append_eq_nil_iff.mp (hp hlinked)).1]]
  simp only [List.nil_append, ← he, List.length_zip, hlen, min_self]
  rw [if_pos ⟨hlast last.1 hl, hall⟩]

theorem Broken.persistBatch_eq {segment rest : List ε} {rs rs' : List ρ}
    (h : law.Broken timestamp count R index a segment rs b) (hs : o.Segment segment (rest ++ [])) :
    persistBatch o.linked o.created persistEvent index [] ((segment ++ rest).zip (rs ++ rs')) state =
      persistBatch o.linked o.created persistEvent (index + segment.length) [] (rest.zip rs')
        state := by
  have hlen : rs.length = segment.length := Outcome.length_eq (.inr h)
  have ⟨_, _, _, _, result, _, _, h⟩ := h
  have ⟨pairs, last, he, _, hb, hp⟩ := hs.zip hlen
  have hfails : ¬(o.linked last.1 = false ∧
      ((segment.zip rs).all fun (_, result) => o.created result) = true) := by
    intro ⟨_, hall⟩
    have hmem : result ∈ (segment.zip rs).map Prod.snd := by
      rw [List.map_snd_zip hlen.le]
      simp [h.results_eq]
    have ⟨pair, hpair, heq⟩ := List.mem_map.mp hmem
    have hc : o.created pair.2 = true := List.all_eq_true.mp hall pair hpair
    rw [heq, h.not_created] at hc
    cases hc
  rw [List.zip_append hlen.symm, he, List.append_assoc, List.singleton_append,
    persistBatch_append hb fun hlinked => by simp [(List.append_eq_nil_iff.mp (hp hlinked)).1]]
  simp only [List.nil_append, ← he, List.length_zip, hlen, min_self]
  rw [if_neg hfails]

theorem Segments.persist (hp : law.Persists timestamp count batch persistEvent Rel)
    (h : law.Segments timestamp count R index a events [] results b)
    (hm : ∀ event ∈ events, event ∈ batch) (hr : Rel a state) :
    Meets (fun _ => True) (Rel b)
      (persistBatch o.linked o.created persistEvent index [] (events.zip results) state) := by
  generalize hafter : ([] : List ε) = after at h
  induction h generalizing state with
  | nil => exact hr
  | cons hs ho _ ih =>
    subst hafter
    have hleft := fun e he => hm e (List.mem_append_left _ he)
    have hright := fun e he => hm e (List.mem_append_right _ he)
    cases ho with
    | inl ho =>
      rw [ho.1.persistBatch_eq hs ho.2, Meets.bind_iff]
      exact (ho.1.persist hp hleft hr).weaken fun state hr => ih hright hr rfl
    | inr ho =>
      rw [ho.persistBatch_eq hs]
      have ⟨_, _, _, _, _, _, _, ho⟩ := ho
      exact ih hright (ho.view_eq ▸ hp.rewind _ _ _ _ _ hr) rfl

section Congr

variable {persistEvent' : Nat → ε → ρ → τ → Result τ}

-- Another way to persist the events makes no difference, if it makes none to what is executed.
theorem Trace.persist_congr (hp : law.Persists timestamp count batch persistEvent Rel)
    (hx : ∀ index a event result b state, event ∈ batch → o.created result = true →
      law.Step a event (stamp timestamp count index) result b → Rel a state →
        persistEvent' index event result state = persistEvent index event result state)
    (h : law.Trace timestamp count index a events results b) (hm : ∀ event ∈ events, event ∈ batch)
    (hr : Rel a state) :
    persistBatch.persistChain persistEvent' index (events.zip results) state =
      persistBatch.persistChain persistEvent index (events.zip results) state := by
  induction events generalizing index a results state with
  | nil => rfl
  | cons event events ih =>
    cases results with
    | nil => cases h
    | cons result results =>
      have ⟨_, hs, hc, h⟩ := h
      have hevent := hm _ (List.mem_cons_self ..)
      simp only [List.zip_cons_cons, persistBatch.persistChain]
      rw [hx index a event result _ state hevent hc hs hr]
      refine Meets.bind_congr ((hp.step index a event result _ state hevent hc hs hr).weaken
        fun state hr => ?_)
      exact ih h (fun e he => hm e (List.mem_cons_of_mem _ he)) hr

theorem Segments.persist_congr (hp : law.Persists timestamp count batch persistEvent Rel)
    (hx : ∀ index a event result b state, event ∈ batch → o.created result = true →
      law.Step a event (stamp timestamp count index) result b → Rel a state →
        persistEvent' index event result state = persistEvent index event result state)
    (h : law.Segments timestamp count R index a events [] results b)
    (hm : ∀ event ∈ events, event ∈ batch) (hr : Rel a state) :
    persistBatch o.linked o.created persistEvent' index [] (events.zip results) state =
      persistBatch o.linked o.created persistEvent index [] (events.zip results) state := by
  generalize hafter : ([] : List ε) = after at h
  induction h generalizing state with
  | nil => rfl
  | cons hs ho _ ih =>
    subst hafter
    have hleft := fun e he => hm e (List.mem_append_left _ he)
    have hright := fun e he => hm e (List.mem_append_right _ he)
    cases ho with
    | inl ho =>
      rw [ho.1.persistBatch_eq hs ho.2, ho.1.persistBatch_eq hs ho.2,
        ho.1.persist_congr hp hx hleft hr]
      exact Meets.bind_congr ((ho.1.persist hp hleft hr).weaken fun state hr => ih hright hr rfl)
    | inr ho =>
      rw [ho.persistBatch_eq hs, ho.persistBatch_eq hs]
      have ⟨_, _, _, _, _, _, _, ho⟩ := ho
      exact ih hright (ho.view_eq ▸ hp.rewind _ _ _ _ _ hr) rfl

end Congr

end Orchestrator.Law

end TigerBeetle.Accounting
