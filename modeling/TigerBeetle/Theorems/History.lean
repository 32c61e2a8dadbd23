import TigerBeetle.Theorems.Records

namespace TigerBeetle.Accounting

open Fallible HashMap Orchestrator

namespace StateMachine

variable [Hasher] {sm sm' : StateMachine} {events : List Transfer} {timestamp : Nat}
    {results : List CreateTransferResult} {batch : TransfersBatch}
    {hb : batch.timestamp ≤ TimestampRange.timestampMax} {before after : TransfersView}
    {R : TransfersBatch → Loop CreateTransferResult TransfersState → Transfer → Prop}

namespace Executes

theorem answered (h : Executes sm events timestamp R results sm' batch hb before after) :
    batch.Answers before events results after :=
  TransfersBatch.answers_of_segments h.segments

theorem transfer_eq (h : Executes sm events timestamp R results sm' batch hb before after)
    {id : U128}
    (hid : id ∈ (prefetchCreateTransfers events fun id => sm.transfers.lookup id).transferIds) :
    before.transfers id = sm.ledger.transfer id ∧ after.transfers id = sm'.ledger.transfer id :=
  ⟨h.opens.transfers _ hid, h.closes.transfers _ hid⟩

theorem keeps (h : Executes sm events timestamp R results sm' batch hb before after) {id : U128}
    {t : Transfer} (ht : sm.ledger.transfer id = some t) : sm'.ledger.transfer id = some t := by
  by_cases hid : id ∈ (prefetchCreateTransfers events fun id => sm.transfers.lookup id).transferIds
  · have ⟨hbefore, hafter⟩ := h.transfer_eq hid
    rw [← hafter]
    exact h.answered.grown.keeps _ _ (hbefore.trans ht)
  · rw [h.other id hid]
    exact ht

end Executes

end StateMachine

-- The records are those of transfers that have been prefetched.
theorem Records.prefetched {transfers transfers' : U128 → Option Transfer} {event record : Transfer}
    {result : CreateTransferResult} (h : Records transfers event result record)
    (hp : event.flags.postOrVoid = true →
      transfers' event.pendingId = transfers event.pendingId) :
    Records transfers' event result record := by
  cases h with
  | plain hc ha        => exact .plain hc ha
  | resolved ha hpl hr => exact .resolved ha ((hp hr.resolves).trans hpl) hr

namespace StateMachine

variable [Hasher] {sm sm' : StateMachine} {created : List (Transfer × CreateTransferResult)}

-- The state machine together with the transfers that it has created.
def recording :
    Machine (StateMachine × List (Transfer × CreateTransferResult)) Call Fault where
  init s := s.1 = default ∧ s.2 = []
  step
    | (sm, created), .createTransfers events timestamp => do
      let (results, sm) ← sm.createTransfers events timestamp
      return (sm, created ++ (events.zip results).filter fun pair => pair.2.status = .created)
    | (sm, created), call => return (← machine.step sm call, created)

def TimelyRecorded (s : StateMachine × List (Transfer × CreateTransferResult)) (call : Call) :
    Prop :=
  Timely s.1 call

-- What has been created is what there is a record of.
structure Recorded (sm : StateMachine) (created : List (Transfer × CreateTransferResult)) :
    Prop where
  sound : Sound sm
  records : ∀ pair ∈ created, pair.2.status = .created ∧
    (pair.1.flags.imported = false → pair.1.timestamp = 0) ∧
    ∃ record, sm.ledger.transfer pair.1.id = some record ∧
      Records sm.ledger.transfer pair.1 pair.2 record
  complete : ∀ id t, sm.ledger.transfer id = some t → ∃ pair ∈ created, pair.1.id = id
  unique : created.Pairwise Distinct

namespace Recorded

theorem congr (h : Recorded sm created) (hs : Sound sm')
    (ht : sm'.ledger.transfer = sm.ledger.transfer) : Recorded sm' created :=
  ⟨hs, ht ▸ h.records, ht ▸ h.complete, h.unique⟩

omit [Hasher] in
theorem timestamp_of_reject {batch : TransfersBatch} {event : Transfer}
    (h : batch.reject event = none) (hi : event.flags.imported = false) : event.timestamp = 0 := by
  unfold TransfersBatch.reject at h
  simp [hi] at h
  grind

theorem createTransfers {events : List Transfer} {timestamp : Nat}
    {results : List CreateTransferResult} {batch : TransfersBatch}
    {hb : batch.timestamp ≤ TimestampRange.timestampMax} {before after : TransfersView}
    {R : TransfersBatch → Loop CreateTransferResult TransfersState → Transfer → Prop}
    (h : Recorded sm created) (hs : Sound sm')
    (hx : Executes sm events timestamp R results sm' batch hb before after) :
    Recorded sm' (created ++ (events.zip results).filter fun pair => pair.2.status = .created) := by
  have hgrown := hx.answered.grown
  have hids := fun event he => (@prefetches sm events).id event he
  have hpending := fun event he hp => ((@prefetches sm events).pending event he hp).1
  -- What is created in the batch.
  have new : ∀ pair ∈ events.zip results, pair.2.status = .created →
      sm.ledger.transfer pair.1.id = none ∧ ∃ record, sm'.ledger.transfer pair.1.id = some record ∧
        Records sm'.ledger.transfer pair.1 pair.2 record := by
    intro pair hp hc
    have he := (List.of_mem_zip hp).1
    have ⟨hn, record, hl, hr⟩ := hgrown.records pair hp hc
    have ⟨hbefore, hafter⟩ := hx.transfer_eq (hids _ he)
    exact ⟨hbefore.symm.trans hn, record, hafter.symm.trans hl,
      hr.prefetched fun hp' => (hx.transfer_eq (hpending _ he hp')).2.symm⟩
  refine ⟨hs, fun pair hp => ?_, fun id t ht => ?_, ?_⟩
  case refine_1 =>
    cases List.mem_append.mp hp with
    | inl hp =>
      have ⟨hc, ht, record, hl, hr⟩ := h.records pair hp
      exact ⟨hc, ht, record, hx.keeps hl, hr.mono fun _ _ => hx.keeps⟩
    | inr hp =>
      have ⟨hp, hc⟩ := List.mem_filter.mp hp
      have hc := of_decide_eq_true hc
      exact ⟨hc, timestamp_of_reject (hx.answered.accepted pair hp hc), (new pair hp hc).2⟩
  case refine_2 =>
    have old : sm.ledger.transfer id = some t → ∃ pair ∈ created ++ (events.zip results).filter
        fun pair => pair.2.status = .created, pair.1.id = id := by
      intro ht
      have ⟨pair, hp, hid⟩ := h.complete id t ht
      exact ⟨pair, List.mem_append_left _ hp, hid⟩
    by_cases hid : id ∈ (prefetchCreateTransfers events fun id => sm.transfers.lookup id).transferIds
    · have ⟨hbefore, hafter⟩ := hx.transfer_eq hid
      obtain ha | ⟨pair, hp, hc, hid⟩ := hgrown.origin id t (hafter.trans ht)
      · exact old (hbefore.symm.trans ha)
      · exact ⟨pair, List.mem_append_right _ (List.mem_filter.mpr ⟨hp, decide_eq_true hc⟩), hid⟩
    · exact old ((hx.other id hid).symm.trans ht)
  case refine_3 =>
    refine List.pairwise_append.mpr ⟨h.unique, hgrown.unique.filter _, fun p hp q hq _ hqc he => ?_⟩
    have ⟨_, _, record, hl, _⟩ := h.records p hp
    have ⟨hn, _⟩ := new q (List.mem_filter.mp hq).1 hqc
    rw [← he, hl] at hn
    cases hn

theorem step {s t : StateMachine × List (Transfer × CreateTransferResult)} {call : Call}
    (h : Recorded s.1 s.2) (ht : TimelyRecorded s call) (hstep : recording.step s call = .ok t) :
    Recorded t.1 t.2 := by
  have hvalid : TimestampRange.valid call.timestamp := ht
  cases call with
  | createAccounts events timestamp =>
    have ⟨sm', hr, he⟩ := bind_eq_ok.mp hstep
    have hs' := h.sound.step ht hr
    cases he
    have ⟨r, hcall, he⟩ := bind_eq_ok.mp hr
    cases he
    exact h.congr hs' ((h.sound.createAccounts hvalid.2).post hcall).2.1
  | createTransfers events timestamp =>
    have ⟨r, hr, he⟩ := bind_eq_ok.mp hstep
    cases he
    have ⟨hs', _, _, _, _, hx⟩ := (h.sound.createTransfers (R := fun _ _ _ => True) hvalid.2
      fun _ _ _ _ _ _ _ _ _ => trivial).post hr
    exact h.createTransfers hs' hx
  | expirePendingTransfers timestamp =>
    have ⟨sm', hr, he⟩ := bind_eq_ok.mp hstep
    cases he
    have ⟨hs', htr, _⟩ := h.sound.expirePendingTransfers.post hr
    exact h.congr hs' htr

end Recorded

theorem recorded_default : Recorded default [] :=
  ⟨sound_default, nofun, nofun, .nil⟩

theorem recorded_of_reachable (h : recording.Reachable TimelyRecorded (sm, created)) :
    Recorded sm created :=
  h.invariant (p := fun s => Recorded s.1 s.2)
    (fun s hi => by rw [hi.1, hi.2]; exact recorded_default) fun _ _ _ h => h.step

end StateMachine

end TigerBeetle.Accounting
