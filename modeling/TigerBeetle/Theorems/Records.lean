import TigerBeetle.Theorems.DoubleEntry

namespace TigerBeetle.Accounting

open Fallible HashMap Orchestrator

-- The record of an event that was created, beside the transfers that there are.
inductive Records (transfers : U128 → Option Transfer) (event : Transfer)
    (result : CreateTransferResult) : Transfer → Prop
  | plain {dr cr : Account} :
    Creatable event dr cr → result.amountActual = computeAmountActual event dr cr →
    Records transfers event result
      { event with amount := result.amountActual, timestamp := result.timestamp }
  | resolved {p : Transfer} {status : TransferPendingStatus} :
    Admissible event → transfers event.pendingId = some p →
    Resolvable event p status result.amountActual →
    Records transfers event result
      (foldPostVoidTransfer event p result.amountActual result.timestamp)

namespace Records

variable {transfers transfers' : U128 → Option Transfer} {event record : Transfer}
    {result : CreateTransferResult}

theorem mono (h : Records transfers event result record)
    (hk : ∀ id t, transfers id = some t → transfers' id = some t) :
    Records transfers' event result record := by
  cases h with
  | plain hc ha       => exact .plain hc ha
  | resolved ha hp hr => exact .resolved ha (hk _ _ hp) hr

theorem flags_eq (h : Records transfers event result record) : record.flags = event.flags := by
  cases h <;> rfl

theorem timestamp_eq (h : Records transfers event result record) :
    record.timestamp = result.timestamp := by
  cases h <;> rfl

end Records

-- Two events of which not both have been created with the same id.
def Distinct (p q : Transfer × CreateTransferResult) : Prop :=
  p.2.status = .created → q.2.status = .created → p.1.id ≠ q.1.id

-- A view that another one has come to by the creation of some of the events.
structure Extends (a : TransfersView) (pairs : List (Transfer × CreateTransferResult))
    (b : TransfersView) : Prop where
  keeps : ∀ id t, a.transfers id = some t → b.transfers id = some t
  records : ∀ pair ∈ pairs, pair.2.status = .created → a.transfers pair.1.id = none ∧
    ∃ record, b.transfers pair.1.id = some record ∧ Records b.transfers pair.1 pair.2 record
  origin : ∀ id t, b.transfers id = some t → a.transfers id = some t ∨
    ∃ pair ∈ pairs, pair.2.status = .created ∧ pair.1.id = id
  unique : pairs.Pairwise Distinct

namespace Extends

variable {a b c : TransfersView} {pairs pairs' : List (Transfer × CreateTransferResult)}

theorem refl : Extends a [] a :=
  ⟨fun _ _ => id, nofun, fun _ _ => .inl, .nil⟩

theorem of_not_created (hb : b.transfers = a.transfers)
    (h : ∀ pair ∈ pairs, pair.2.status ≠ .created) : Extends a pairs b where
  keeps _ _ ht := hb ▸ ht
  records pair hp := fun hc => absurd hc (h pair hp)
  origin _ _ ht := .inl (hb ▸ ht)
  unique := List.pairwise_of_forall_mem_list fun p hp _ _ hc => absurd hc (h p hp)

theorem trans (h : Extends a pairs b) (h' : Extends b pairs' c) :
    Extends a (pairs ++ pairs') c where
  keeps id t ht := h'.keeps id t (h.keeps id t ht)
  records pair hp hc := by
    cases List.mem_append.mp hp with
    | inl hp =>
      have ⟨hn, record, hl, hr⟩ := h.records pair hp hc
      exact ⟨hn, record, h'.keeps _ _ hl, hr.mono h'.keeps⟩
    | inr hp =>
      have ⟨hn, hrecord⟩ := h'.records pair hp hc
      refine ⟨?_, hrecord⟩
      cases ha : a.transfers pair.1.id with
      | none   => rfl
      | some t =>
        rw [h.keeps _ _ ha] at hn
        cases hn
  origin id t ht := by
    obtain hb | ⟨pair, hp, hc⟩ := h'.origin id t ht
    · obtain ha | ⟨pair, hp, hc⟩ := h.origin id t hb
      · exact .inl ha
      · exact .inr ⟨pair, List.mem_append_left _ hp, hc⟩
    · exact .inr ⟨pair, List.mem_append_right _ hp, hc⟩
  unique := by
    refine List.pairwise_append.mpr ⟨h.unique, h'.unique, fun p hp q hq hpc hqc he => ?_⟩
    have ⟨_, record, hl, _⟩ := h.records p hp hpc
    have ⟨hn, _⟩ := h'.records q hq hqc
    rw [← he, hl] at hn
    cases hn

end Extends

namespace TransfersBatch

variable {batch : TransfersBatch} {a b c current : TransfersView} {event : Transfer}
    {timestamp count index : Nat} {result : CreateTransferResult}
    {events events' : List Transfer} {results results' : List CreateTransferResult}

-- A created event leaves a record, and it leaves the others alone.
theorem Step.records (h : batch.Step a event timestamp result b) (hc : result.status = .created) :
    ∃ record, Records b.transfers event result record ∧ record.id = event.id ∧
      b.transfers = Function.update a.transfers event.id (some record) := by
  have ⟨_, _, _, _, _, hstep⟩ := h.created hc
  obtain ⟨dr, cr, hcreates⟩ | ⟨p, row, dr, cr, dr', cr', hresolves⟩ := hstep
  · refine ⟨_, .plain hcreates.creatable hcreates.amountEq, rfl, ?_⟩
    rw [hcreates.after]
    exact TransfersView.transfers_create
  · have hb : b.transfers = Function.update a.transfers event.id
        (some (foldPostVoidTransfer event p result.amountActual result.timestamp)) := by
      rw [hresolves.after]
      rfl
    refine ⟨_, .resolved hresolves.admissible ?_ hresolves.resolvable, rfl, hb⟩
    rw [hb, Function.update_apply, if_neg hresolves.resolvable.different]
    exact hresolves.pending

theorem Step.extends (h : batch.Step a event timestamp result b) (hc : result.status = .created) :
    Extends a [(event, result)] b := by
  have ⟨record, hr, hid, hb⟩ := h.records hc
  have ⟨_, _, hn, _⟩ := h.created hc
  refine ⟨fun id t ht => ?_, fun pair hp _ => ?_, fun id t ht => ?_, List.pairwise_singleton ..⟩
  case refine_1 =>
    rw [hb, Function.update_apply, if_neg, ht]
    intro he
    rw [he, hn] at ht
    cases ht
  case refine_2 =>
    cases List.mem_singleton.mp hp
    exact ⟨hn, record, by simp [hb], hr⟩
  case refine_3 =>
    rw [hb, Function.update_apply] at ht
    split at ht
    · next he => exact .inr ⟨_, List.mem_singleton_self _, hc, he.symm⟩
    · exact .inl ht

-- A result that is still what it was, or that a broken chain has taken along.
def Lasts (result earlier : CreateTransferResult) : Prop :=
  result = earlier ∨ result.status = .linkedEventFailed

-- What becomes of the events of a batch.
structure Answers (batch : TransfersBatch) (a : TransfersView) (events : List Transfer)
    (results : List CreateTransferResult) (b : TransfersView) : Prop where
  grown : Extends a (events.zip results) b
  accepted : ∀ pair ∈ events.zip results, pair.2.status = .created → batch.reject pair.1 = none
  repeated : ∀ before event after result, events = before ++ event :: after →
    results[before.length]? = some result → result.status = .exists →
      ∃ current e earlier, List.Forall₂ Lasts (results.take before.length) earlier ∧
        Extends a (before.zip earlier) current ∧ batch.Repeats current event result.timestamp e

theorem lasts_refl (results : List CreateTransferResult) : List.Forall₂ Lasts results results :=
  List.forall₂_same.mpr fun _ _ => .inl rfl

theorem Answers.append (h : batch.Answers a events results b)
    (h' : batch.Answers b events' results' c) (hlen : events.length = results.length) :
    batch.Answers a (events ++ events') (results ++ results') c where
  grown := by
    rw [List.zip_append hlen]
    exact h.grown.trans h'.grown
  accepted pair hp hc := by
    rw [List.zip_append hlen, List.mem_append] at hp
    cases hp with
    | inl hp => exact h.accepted pair hp hc
    | inr hp => exact h'.accepted pair hp hc
  repeated before event after result he hr hs := by
    -- An event of the second part has all of the first part before it.
    have second : ∀ rest, before = events ++ rest → events' = rest ++ event :: after →
        ∃ current e earlier,
          List.Forall₂ Lasts ((results ++ results').take before.length) earlier ∧
            Extends a (before.zip earlier) current ∧ batch.Repeats current event result.timestamp e := by
      intro rest hb hrest
      subst hb
      have hindex : (events ++ rest).length - results.length = rest.length := by simp [hlen]
      rw [List.getElem?_append_right (by simp [hlen]), hindex] at hr
      have ⟨current, e, earlier, hl, hx, hrep⟩ := h'.repeated rest event after result hrest hr hs
      refine ⟨current, e, results ++ earlier, ?_, ?_, hrep⟩
      · rw [List.take_append, hindex, List.take_of_length_le (by simp [hlen])]
        exact List.rel_append (lasts_refl results) hl
      · rw [List.zip_append hlen]
        exact h.grown.trans hx
    obtain ⟨rest, hb, hrest⟩ | ⟨rest, hb, hrest⟩ := List.append_eq_append_iff.mp he
    · exact second rest hb hrest
    · cases rest with
      | nil => exact second [] (by simpa using hb.symm) hrest.symm
      | cons e rest =>
        cases hrest
        have hlt : before.length < results.length := by
          rw [← hlen, hb]
          simp
        rw [List.getElem?_append_left hlt] at hr
        rw [List.take_append_of_le_length hlt.le]
        exact h.repeated before event rest result hb hr hs

variable [Hasher] {hb : batch.timestamp ≤ TimestampRange.timestampMax}
    {R : Loop CreateTransferResult TransfersState → Transfer → Prop}

theorem answers_of_trace
    (h : (batch.law hb).Trace timestamp count index a events results b) :
    batch.Answers a events results b := by
  induction events generalizing index a results with
  | nil =>
    cases results with
    | nil =>
      cases h
      exact ⟨.refl, nofun, fun _ _ _ _ he => by simp at he⟩
    | cons _ _ => cases h
  | cons event events ih =>
    cases results with
    | nil => cases h
    | cons result results =>
      have ⟨current, hs, hc, h⟩ := h
      have hs : batch.Step _ _ _ _ _ := hs
      have hc : result.status = .created := by simpa [orchestrator] using hc
      have hfirst : batch.Answers a [event] [result] current := by
        refine ⟨hs.extends hc, fun pair hp _ => ?_, fun before e after r he hr hx => ?_⟩
        case refine_1 =>
          cases List.mem_singleton.mp hp
          exact hs.accepted hc
        case refine_2 =>
          cases before with
          | nil =>
            cases hr
            rw [hc] at hx
            cases hx
          | cons _ _ => simp at he
      exact hfirst.append (ih h) rfl

theorem answers_of_broken
    (h : (batch.law hb).Broken timestamp count R index a events results b) :
    batch.Answers a events results b := by
  have ⟨created, undone, current, event, result, rest, failed, h⟩ := h
  have hx := (answers_of_trace h.trace).grown
  have hview : b.transfers = a.transfers := by
    rw [h.view_eq]
    rfl
  have hnot : ∀ pair ∈ events.zip results, pair.2.status ≠ .created := by
    intro pair hp hc
    have hr := (List.of_mem_zip hp).2
    rw [h.results_eq, List.mem_append, List.mem_cons] at hr
    obtain hr | hr | hr := hr
    · have ⟨_, _, hr⟩ := List.mem_map.mp hr
      rw [← hr] at hc
      cases hc
    · have := h.not_created
      simp [orchestrator, ← hr, hc] at this
    · have ⟨t, hr⟩ := h.failed_eq.2 _ hr
      obtain hr | hr := hr <;> (rw [hr] at hc; cases hc)
  refine ⟨.of_not_created hview hnot, fun pair hp hc => absurd hc (hnot pair hp),
    fun before e after r he hr hs => ?_⟩
  have hlen := h.trace.length_eq
  rw [h.results_eq] at hr ⊢
  rw [h.events_eq] at he
  -- Only the event that breaks the chain has a status of its own.
  obtain hlt | heq | hgt := Nat.lt_trichotomy before.length created.length
  · rw [List.getElem?_append_left (by simpa [hlen] using hlt), List.getElem?_map] at hr
    have ⟨_, _, hr⟩ := Option.map_eq_some_iff.mp hr
    rw [← hr] at hs
    cases hs
  · rw [List.getElem?_append_right (by simp [hlen, heq])] at hr
    have ⟨hcreated, hrest⟩ := List.append_inj he heq.symm
    cases hcreated
    cases hrest
    obtain rfl : result = r := by simpa [hlen] using hr
    cases h.step with
    | inl hstep =>
      have hstep : batch.Step _ _ _ _ _ := hstep.2
      have ⟨e, hrep⟩ := hstep.repeated hs
      refine ⟨current, e, undone, ?_, hx, hrep⟩
      rw [List.take_left' (by simp [hlen])]
      exact List.forall₂_map_left_iff.mpr (List.forall₂_same.mpr fun _ _ => .inr rfl)
    | inr hopen =>
      have ⟨_, _, t, ht⟩ := hopen
      rw [ht] at hs
      cases hs
  · have ⟨k, hk⟩ := Nat.exists_eq_add_of_lt hgt
    have hindex : before.length - (undone.map (batch.orchestrator).markFailed).length = k + 1 := by
      rw [List.length_map, hlen]
      omega
    rw [List.getElem?_append_right (by rw [List.length_map, hlen]; omega), hindex,
      List.getElem?_cons_succ] at hr
    have ⟨t, hr⟩ := h.failed_eq.2 _ (List.mem_of_getElem? hr)
    obtain rfl | rfl := hr <;> cases hs

theorem answers_of_segments
    (h : (batch.law hb).Segments timestamp count R index a events [] results b) :
    batch.Answers a events results b := by
  generalize hafter : ([] : List Transfer) = after at h
  induction h with
  | nil => exact ⟨.refl, nofun, fun _ _ _ _ he => by simp at he⟩
  | cons _ ho _ ih =>
    have hfirst := ho.elim (fun h => answers_of_trace h.1) answers_of_broken
    exact hfirst.append (ih hafter) ho.length_eq.symm

end TransfersBatch

end TigerBeetle.Accounting
