import TigerBeetle.Theorems.DoubleEntry

namespace TigerBeetle.Accounting

open Fallible HashMap Orchestrator

namespace StateMachine

variable {sm sm' : StateMachine} {events : List Transfer} {timestamp : Nat}
    {results : List CreateTransferResult}

-- The state machine with other caches, and with other ids that may not be created again.
def withCaches (sm : StateMachine) (accountsObjects : AccountObjectsCache)
    (transfersObjects : TransferObjectsCache) (transfersPendingObjects : TransferPendingObjectsCache)
    (transfersOrphaned : Finset U128) : StateMachine :=
  { sm with accountsObjects, transfersObjects, transfersPendingObjects, transfersOrphaned }

-- A created transfer of a batch that is about to be persisted.
structure Persisting (sm : StateMachine) (event : Transfer) (result : CreateTransferResult) :
    Prop where
  balanced : sm.ledger.Balanced
  absent : sm.ledger.transfers.lookup event.id = none
  effect :
    (∃ view dr cr after,
      TransfersBatch.Creates view event result.timestamp result.amountActual dr cr after) ∨
    ∃ view p row dr cr dr' cr' after,
      TransfersBatch.Resolves view event result.timestamp result.amountActual p row dr cr dr' cr'
        after

theorem persisting_of_follows {prefetch : TransferPrefetchKeys} {resolves : U128 → Prop}
    {view after : TransfersView} {batch : TransfersBatch} {event : Transfer} {time : Nat}
    {result : CreateTransferResult} (hf : Follows prefetch resolves view sm.ledger)
    (hp : Prefetches prefetch resolves events) (hm : event ∈ events)
    (hs : batch.Step view event time result after) (hc : result.status = .created) :
    Persisting sm event result := by
  have ⟨_, _, hn, _, _, hstep⟩ := hs.created hc
  refine ⟨hf.balanced, (hf.transfers _ (hp.id event hm)).symm.trans hn, ?_⟩
  cases hstep with
  | inl hcreates  =>
    have ⟨dr, cr, hcreates⟩ := hcreates
    exact .inl ⟨view, dr, cr, after, hcreates⟩
  | inr hresolves =>
    have ⟨p, row, dr, cr, dr', cr', hresolves⟩ := hresolves
    exact .inr ⟨view, p, row, dr, cr, dr', cr', after, hresolves⟩

variable [Hasher]

-- What is persisted in the end, once a batch of transfers has been executed.
theorem persistTransfers_of_createTransfers
    (h : sm.createTransfers events timestamp = .ok (results, sm')) :
    ∃ accountsObjects transfersObjects transfersPendingObjects,
      (sm.withCaches accountsObjects transfersObjects transfersPendingObjects
        sm.transfersOrphaned).persistTransfers events results timestamp = .ok sm' := by
  unfold createTransfers at h
  obtain ⟨_, _, h⟩ := bind_eq_ok.mp h
  obtain ⟨⟨_, sm₁⟩, hprefetch, h⟩ := bind_eq_ok.mp h
  obtain ⟨loop, _, h⟩ := bind_eq_ok.mp h
  obtain ⟨sm₂, hpersist, h⟩ := bind_eq_ok.mp h
  cases h
  unfold createTransfersPrefetch at hprefetch
  obtain ⟨_, _, hprefetch⟩ := bind_eq_ok.mp hprefetch
  obtain ⟨_, _, hprefetch⟩ := bind_eq_ok.mp hprefetch
  obtain ⟨_, _, hprefetch⟩ := bind_eq_ok.mp hprefetch
  cases hprefetch
  exact ⟨_, _, _, hpersist⟩

-- What holds before a batch of transfers holds after it, if it is kept by each transfer that is
-- persisted.
theorem Sound.persisted {I : StateMachine → Prop} (h : Sound sm)
    (ht : timestamp ≤ TimestampRange.timestampMax)
    (heq : sm.createTransfers events timestamp = .ok (results, sm'))
    (hstart : ∀ accountsObjects transfersObjects transfersPendingObjects orphaned,
      I (sm.withCaches accountsObjects transfersObjects transfersPendingObjects orphaned))
    (hstep : ∀ sm₁ event result index, event ∈ events → Persisting sm₁ event result → I sm₁ →
      Meets (fun _ => True) (fun sm₂ => sm₂.ledger.Balanced → I sm₂)
        (persistTransferEvent timestamp events.length index event result sm₁)) : I sm' := by
  have ⟨_, batch, hb, before, after, hx⟩ := (h.createTransfers (R := fun _ _ _ => True) ht
    fun _ _ _ _ _ _ _ _ _ => trivial).post heq
  obtain ⟨accounts, transfers, pendings, hpersist⟩ := persistTransfers_of_createTransfers heq
  obtain rfl := hx.timed
  let sm₀ := (sm.withCaches accounts transfers pendings sm.transfersOrphaned).orphan
    (events.zip results)
  have hp := @persists _ _ events sm₀ _ batch hb (@prefetches sm events)
  have hkept : (batch.law hb).Persists batch.timestamp events.length events
      (persistTransferEvent batch.timestamp events.length)
      (fun view sm₁ => (Follows (prefetchCreateTransfers events fun id => sm.transfers.lookup id)
        (sm.Tracks events) view sm₁.ledger ∧ Keeps sm₀ sm₁ ∧ ∀ id,
          id ∉ (prefetchCreateTransfers events fun id => sm.transfers.lookup id).transferIds →
            sm₁.ledger.transfer id = sm₀.ledger.transfer id) ∧ I sm₁) := by
    refine ⟨fun index view event result after sm₁ hm hc hs ⟨hf, hi⟩ => ?_,
      fun _ _ _ _ _ ⟨hf, hi⟩ => ⟨hp.rewind _ _ _ _ _ hf, hi⟩⟩
    have hpersisting := persisting_of_follows hf.1 prefetches hm hs
      (by simpa [TransfersBatch.orchestrator] using hc)
    refine ((hp.step index view event result after sm₁ hm hc hs hf).and
      (hstep sm₁ event result index hm hpersisting hi)).weaken fun sm₂ ⟨hf', hi'⟩ => ⟨hf', ?_⟩
    exact hi' hf'.1.balanced
  have hopens : Follows (prefetchCreateTransfers events fun id => sm.transfers.lookup id)
      (sm.Tracks events) before sm₀.ledger := hx.opens
  exact ((hx.segments.persist hkept (fun _ he => he)
    ⟨⟨hopens, .refl, fun _ _ => rfl⟩, hstart _ _ _ _⟩).post hpersist).2

end StateMachine

end TigerBeetle.Accounting
