import TigerBeetle.Theorems.History

namespace TigerBeetle.Accounting

open Fallible HashMap Orchestrator

namespace StateMachine

section Cache

variable {K V : Type} [DecidableEq K] [CacheMapSpec K V] {cache : CacheMap K V}
    {committed : HashMap K V} {key : K}

-- A cache has the record of the key if there is one, and nothing if there is none.
def Mirrors (cache : CacheMap K V) (committed : HashMap K V) (key : K) : Prop :=
  (cache.get key).1 = committed.lookup key

theorem mirrors_iff (hi : cache.Idle) :
    Mirrors cache committed key ↔ cache.view key = committed.lookup key := by
  unfold Mirrors
  rw [CacheMap.usable_idle.get_fst key hi]

end Cache

variable [Hasher] {sm sm' : StateMachine} {events : List Transfer} {timestamp : Nat}
    {results : List CreateTransferResult}

-- There is a row at the timestamp of a new transfer if it is pending, and none if it is not.
theorem Executes.mirrors_pending {batch : TransfersBatch}
    {hb : batch.timestamp ≤ TimestampRange.timestampMax} {before after : TransfersView}
    {R : TransfersBatch → Loop CreateTransferResult TransfersState → Transfer → Prop}
    (h : Executes sm events timestamp R results sm' batch hb before after) (hs : Sound sm')
    {pair : Transfer × CreateTransferResult} (hp : pair ∈ events.zip results)
    (hc : pair.2.status = .created) :
    after.pendings pair.2.timestamp = sm'.ledger.pending pair.2.timestamp := by
  have hid := (@prefetches sm events).id _ (List.of_mem_zip hp).1
  have ⟨hnone, record, hl, hr⟩ := h.answered.grown.records pair hp hc
  have hl : sm'.ledger.transfer pair.1.id = some record :=
    (h.closes.transfers _ hid).symm.trans hl
  rw [← hr.timestamp_eq]
  cases hpending : record.flags.pending with
  | true =>
    have hnone : sm.ledger.transfer pair.1.id = none := (h.opens.transfers _ hid).symm.trans hnone
    exact (h.closes.pendings _ (.inr hnone) record hl hpending).2.2
  | false =>
    have hrow : sm'.ledger.pending record.timestamp = none := by
      cases hrow : sm'.ledger.pending record.timestamp with
      | none     => rfl
      | some row =>
        have ⟨id, t, ht, hpending', hts⟩ := hs.balanced.rows _ _ hrow
        have hkey := hs.balanced.timestamp id t ht
        rw [hts, hs.balanced.timestamp _ _ hl] at hkey
        cases hkey
        cases hl.symm.trans ht
        rw [hpending] at hpending'
        cases hpending'
    rw [hrow]
    exact h.closes.pendingsWithin _ hrow

-- What the caches hold after a batch, for the keys that it has prefetched and for those that it has
-- created, is what is committed.
theorem caches_mirror (h : machine.Reachable Timely sm) :
    (∀ events timestamp results sm', Timely sm (.createAccounts events timestamp) →
      sm.createAccounts events timestamp = .ok (results, sm') →
        (∀ id ∈ (prefetchCreateAccounts events).accountIds,
          Mirrors sm'.accountsObjects sm'.accounts id) ∧
        ∀ event ∈ events, Mirrors sm'.accountsObjects sm'.accounts event.id) ∧
    ∀ events timestamp results sm', Timely sm (.createTransfers events timestamp) →
      sm.createTransfers events timestamp = .ok (results, sm') →
        let prefetch := prefetchCreateTransfers events fun id => sm.transfers.lookup id
        (∀ id ∈ prefetch.accountIds, Mirrors sm'.accountsObjects sm'.accounts id) ∧
        (∀ id ∈ prefetch.transferIds, Mirrors sm'.transfersObjects sm'.transfers id) ∧
        (∀ timestamp ∈ prefetch.pendingTimestamps,
          Mirrors sm'.transfersPendingObjects sm'.transfersPending timestamp) ∧
        ∀ pair ∈ events.zip results, pair.2.status = .created →
          Mirrors sm'.transfersObjects sm'.transfers pair.1.id ∧
            Mirrors sm'.transfersPendingObjects sm'.transfersPending pair.2.timestamp := by
  have hs := sound_of_reachable h
  constructor
  case left =>
    intro events timestamp results sm' ht hr
    have ⟨hs', _, _, hagree⟩ := (hs.createAccounts ht.2).post hr
    have hids : ∀ id ∈ (prefetchCreateAccounts events).accountIds,
        Mirrors sm'.accountsObjects sm'.accounts id :=
      fun id hid => (mirrors_iff hs'.accountsIdle).mpr (hagree id hid)
    exact ⟨hids, fun event he =>
      hids _ (mem_foldl_enqueue.mpr (.inr (List.mem_map_of_mem he)))⟩
  case right =>
    intro events timestamp results sm' ht hr
    have ⟨hs', batch, hb, before, after, hx⟩ := (hs.createTransfers (R := fun _ _ _ => True) ht.2
      fun _ _ _ _ _ _ _ _ _ => trivial).post hr
    have haccounts := hx.closes.accounts
    have htransfers := hx.closes.transfers
    have hrows := hx.closes.rows
    rw [hx.accounts] at haccounts
    rw [hx.transfers] at htransfers
    rw [hx.pendings] at hrows
    refine ⟨fun id hid => (mirrors_iff hs'.accountsIdle).mpr (haccounts id hid),
      fun id hid => (mirrors_iff hs'.transfersIdle).mpr (htransfers id hid),
      fun t ht => (mirrors_iff hs'.pendingsIdle).mpr (hrows t ht), fun pair hp hc => ⟨?_, ?_⟩⟩
    · have hid := (@prefetches sm events).id _ (List.of_mem_zip hp).1
      exact (mirrors_iff hs'.transfersIdle).mpr (htransfers _ hid)
    · rw [mirrors_iff hs'.pendingsIdle, ← hx.pendings]
      exact hx.mirrors_pending hs' hp hc

end StateMachine

namespace StateMachine.Runs

open Accounting.Runs

attribute [local instance] identityHasher

-- A transfer that posts a pending one that is created in the same batch.
def post (id pendingId : Nat) : Transfer :=
  { transfer id 0 0 4 with
    pendingId := pendingId
    ledger := 0
    code := 0 }

def posting : List Transfer :=
  [transfer 1 1 2 2, post 2 1]

-- The caches have the pending transfer, its row and the transfer that posts it.
theorem caches_mirror_of_posting : ∃ sm results sm', machine.Reachable Timely sm ∧
    sm.createTransfers posting 200 = .ok (results, sm') ∧
    (sm'.transfersPending.lookup 199).map TransferPending.status = some .posted ∧
    Mirrors sm'.transfersObjects sm'.transfers 1 ∧
    Mirrors sm'.transfersPendingObjects sm'.transfersPending 199 := by
  have ⟨sm, hr, hc⟩ := (Machine.Reachable.init rfl).leads (show machine.Leads Timely
    (fun sm => Meets (fun _ => False)
      (fun (r : List CreateTransferResult × StateMachine) =>
        (r.2.transfersPending.lookup 199).map TransferPending.status = some .posted ∧
          ∃ pair ∈ posting.zip r.1, pair.2.status = .created ∧ pair.1.id = 1 ∧
            pair.2.timestamp = 199)
      (sm.createTransfers posting 200))
    [accounts] default by decide +kernel)
  have ⟨⟨results, sm'⟩, hx, hposted, pair, hp, hs, hid, ht⟩ := Meets.iff_exists.mp hc
  have hcall : Timely sm (.createTransfers posting 200) :=
    show TimestampRange.valid 200 by decide
  have ⟨htransfer, hrow⟩ := ((caches_mirror hr).2 _ _ _ _ hcall hx).2.2.2 pair hp hs
  exact ⟨sm, results, sm', hr, hx, hposted, hid ▸ htransfer, ht ▸ hrow⟩

end StateMachine.Runs

end TigerBeetle.Accounting
