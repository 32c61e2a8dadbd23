import TigerBeetle.Theorems.Prefetch

namespace TigerBeetle.Accounting

open Fallible HashMap Orchestrator

namespace Ledger

variable (ledger : Ledger)

def account (id : U128) : Option Account :=
  ledger.accounts.lookup id

def transfer (id : U128) : Option Transfer :=
  ledger.transfers.lookup id

def pending (timestamp : Nat) : Option TransferPending :=
  ledger.pendings.lookup timestamp

-- Every record has a timestamp that is not marked as a tombstone.
structure Valid : Prop where
  accounts : ∀ id a, ledger.account id = some a → a.timestamp ≤ TimestampRange.timestampMax
  transfers : ∀ id t, ledger.transfer id = some t → t.timestamp ≤ TimestampRange.timestampMax
  pendings : ∀ timestamp row, ledger.pending timestamp = some row →
    row.timestamp = timestamp ∧ timestamp ≤ TimestampRange.timestampMax

variable {ledger} {record p : Transfer} {dr cr : Account} {status : TransferPendingStatus}

theorem account_putAccounts : (fun id => (ledger.putAccounts dr cr).lookup id) =
      Function.update (Function.update ledger.account dr.id (some dr)) cr.id (some cr) := by
  unfold putAccounts
  rw [HashMap.lookup_insert, HashMap.lookup_insert]
  rfl

theorem account_insertAccount {account : Account} :
    (ledger.insertAccount account).account =
      Function.update ledger.account account.id (some account) :=
  HashMap.lookup_insert

theorem account_create : (ledger.create record dr cr).account =
      Function.update (Function.update ledger.account dr.id (some dr)) cr.id (some cr) :=
  account_putAccounts

theorem account_resolve : (ledger.resolve record p status dr cr).account =
      Function.update (Function.update ledger.account dr.id (some dr)) cr.id (some cr) :=
  account_putAccounts

theorem transfer_create : (ledger.create record dr cr).transfer =
      Function.update ledger.transfer record.id (some record) :=
  HashMap.lookup_insert

theorem transfer_resolve : (ledger.resolve record p status dr cr).transfer =
      Function.update ledger.transfer record.id (some record) :=
  HashMap.lookup_insert

theorem pending_create : (ledger.create record dr cr).pending =
      if record.flags.pending = true then
        Function.update ledger.pending record.timestamp (some ⟨record.timestamp, .pending⟩)
      else
        ledger.pending := by
  unfold create pending
  split
  · exact HashMap.lookup_insert
  · rfl

theorem pending_resolve : (ledger.resolve record p status dr cr).pending =
      Function.update ledger.pending p.timestamp (some ⟨p.timestamp, status⟩) :=
  HashMap.lookup_insert

end Ledger

-- Records that are updated keep what holds of each of them.
theorem forall_update {K V : Type} [DecidableEq K] {f : K → Option V} {key : K} {value : V}
    {P : K → V → Prop} (h : ∀ k v, f k = some v → P k v) (hp : P key value) (k : K) (v : V)
    (hu : Function.update f key (some value) k = some v) : P k v := by
  rw [Function.update_apply] at hu
  split at hu
  · next hk =>
    cases hu
    exact hk ▸ hp
  · exact h k v hu

variable {timestamp : Nat}

theorem mod_of_valid (h : timestamp ≤ TimestampRange.timestampMax) :
    timestamp % 2 ^ tombstoneBit = timestamp :=
  Nat.mod_eq_of_lt (by unfold TimestampRange.timestampMax tombstoneBit at *; omega)

namespace Ledger.Valid

variable {ledger : Ledger} {record p : Transfer} {dr cr : Account} {status : TransferPendingStatus}
    (h : ledger.Valid) (hdr : dr.timestamp ≤ TimestampRange.timestampMax)
    (hcr : cr.timestamp ≤ TimestampRange.timestampMax)
    (hrecord : record.timestamp ≤ TimestampRange.timestampMax)

include h hdr hcr in
theorem accounts_putAccounts (id : U128) (a : Account)
    (ha : (ledger.putAccounts dr cr).lookup id = some a) :
    a.timestamp ≤ TimestampRange.timestampMax := by
  have hput := congrFun (@account_putAccounts ledger dr cr) id
  exact forall_update (P := fun _ (a : Account) => a.timestamp ≤ _)
    (forall_update (P := fun _ (a : Account) => a.timestamp ≤ _) h.accounts hdr) hcr id a
    (hput.symm.trans ha)

include h hdr hcr hrecord

theorem create : (ledger.create record dr cr).Valid where
  accounts := h.accounts_putAccounts hdr hcr
  transfers := by
    rw [transfer_create]
    exact forall_update (P := fun _ (t : Transfer) => t.timestamp ≤ _) h.transfers hrecord
  pendings := by
    rw [pending_create]
    split
    · exact forall_update
        (P := fun timestamp (row : TransferPending) => row.timestamp = timestamp ∧ timestamp ≤ _)
        h.pendings ⟨rfl, hrecord⟩
    · exact h.pendings

theorem resolve (hp : p.timestamp ≤ TimestampRange.timestampMax) :
    (ledger.resolve record p status dr cr).Valid where
  accounts := h.accounts_putAccounts hdr hcr
  transfers := by
    rw [transfer_resolve]
    exact forall_update (P := fun _ (t : Transfer) => t.timestamp ≤ _) h.transfers hrecord
  pendings := by
    rw [pending_resolve]
    exact forall_update
      (P := fun timestamp (row : TransferPending) => row.timestamp = timestamp ∧ timestamp ≤ _)
      h.pendings ⟨rfl, hp⟩

end Ledger.Valid

variable {event : Transfer}

section Follows

variable {prefetch : TransferPrefetchKeys} {resolves : U128 → Prop} {view : TransfersView}
    {ledger : Ledger}

-- What is committed follows what a batch of transfers is executed against.
structure Follows (prefetch : TransferPrefetchKeys) (resolves : U128 → Prop) (view : TransfersView)
    (ledger : Ledger) : Prop where
  balanced : ledger.Balanced
  valid : ledger.Valid
  accountsWithin : Within view.accounts ledger.account
  transfersWithin : Within view.transfers ledger.transfer
  pendingsWithin : Within view.pendings ledger.pending
  accounts : AgreeOn (· ∈ prefetch.accountIds) view.accounts ledger.account
  transfers : AgreeOn (· ∈ prefetch.transferIds) view.transfers ledger.transfer
  pendings : ∀ id, resolves id → ∀ p, ledger.transfer id = some p → p.flags.pending = true →
    p.debitAccountId ∈ prefetch.accountIds ∧ p.creditAccountId ∈ prefetch.accountIds ∧
      view.pendings p.timestamp = ledger.pending p.timestamp
  rows : AgreeOn (· ∈ prefetch.pendingTimestamps) view.pendings ledger.pending
  keyMax : view.keyMax = ledger.keyMax

-- The keys of a batch are prefetched.
structure Prefetches (prefetch : TransferPrefetchKeys) (resolves : U128 → Prop)
    (batch : List Transfer) : Prop where
  id : ∀ event ∈ batch, event.id ∈ prefetch.transferIds
  accounts : ∀ event ∈ batch, event.flags.postOrVoid = false →
    event.debitAccountId ∈ prefetch.accountIds ∧ event.creditAccountId ∈ prefetch.accountIds
  pending : ∀ event ∈ batch, event.flags.postOrVoid = true →
    event.pendingId ∈ prefetch.transferIds ∧ resolves event.pendingId

variable {dr cr : Account}

theorem Follows.create (h : Follows prefetch resolves view ledger) {record : Transfer}
    {dr' cr' : Account} {posted : Nat}
    (hn : view.transfers record.id = none) (hid : record.id ∈ prefetch.transferIds)
    (haccounts : record.debitAccountId ∈ prefetch.accountIds ∧
      record.creditAccountId ∈ prefetch.accountIds)
    (hvalid : record.timestamp ≤ TimestampRange.timestampMax)
    (hfresh : (ledger.timestamps.lookup record.timestamp).all (· = record.id) = true)
    (hp : ledger.Posting record dr cr dr' cr'
      (if record.flags.pending then record.amount.toNat else 0) 0 posted)
    (hd : record.creditAccountId ≠ record.debitAccountId) (hl : record.ledger = dr.ledger)
    (hdt : dr'.timestamp = dr.timestamp) (hct : cr'.timestamp = cr.timestamp) :
    Follows prefetch resolves (view.create record dr' cr') (ledger.create record dr' cr') := by
  have hpendings : (view.create record dr' cr').pendings =
      if record.flags.pending = true then
        Function.update view.pendings record.timestamp (some ⟨record.timestamp, .pending⟩)
      else view.pendings := by
    rw [TransfersView.pendings_create, mod_of_valid hvalid]
  have hnone : ledger.transfers.lookup record.id = none := (h.transfers _ hid).symm.trans hn
  have hdv := h.valid.accounts _ _ hp.debit
  have hcv := h.valid.accounts _ _ hp.credit
  refine {
    balanced := h.balanced.create hnone hfresh hp hd hl
    valid := h.valid.create (hdt ▸ hdv) (hct ▸ hcv) hvalid
    accountsWithin := by
      rw [TransfersView.accounts_create, Ledger.account_create]
      exact h.accountsWithin.update.update
    transfersWithin := by
      rw [TransfersView.transfers_create, Ledger.transfer_create]
      exact h.transfersWithin.update
    pendingsWithin := by
      rw [hpendings, Ledger.pending_create]
      split
      · exact h.pendingsWithin.update
      · exact h.pendingsWithin
    accounts := by
      rw [TransfersView.accounts_create, Ledger.account_create]
      exact h.accounts.update.update
    transfers := by
      rw [TransfersView.transfers_create, Ledger.transfer_create]
      exact h.transfers.update
    pendings := ?_
    rows := by
      rw [hpendings, Ledger.pending_create]
      split
      · exact h.rows.update
      · exact h.rows
    keyMax := by
      rw [TransfersView.keyMax_create, h.keyMax]
      rfl
  }
  intro id hr p hl hpending
  rw [Ledger.transfer_create, Function.update_apply] at hl
  rw [hpendings, Ledger.pending_create]
  split at hl
  · cases hl
    simp [hpending, haccounts]
  · have ⟨h₁, h₂, h₃⟩ := h.pendings id hr p hl hpending
    refine ⟨h₁, h₂, ?_⟩
    split
    · rw [Function.update_apply, Function.update_apply, h₃]
    · exact h₃

theorem Follows.resolve (h : Follows prefetch resolves view ledger) {record p : Transfer}
    {dr' cr' : Account} {posted : Nat} {key : U128} {status : TransferPendingStatus}
    (hn : view.transfers record.id = none) (hid : record.id ∈ prefetch.transferIds)
    (hvalid : record.timestamp ≤ TimestampRange.timestampMax)
    (hfresh : (ledger.timestamps.lookup record.timestamp).all (· = record.id) = true)
    (hplain : record.flags.pending = false) (hl : ledger.transfers.lookup key = some p)
    (hpending : p.flags.pending = true)
    (hrow : (ledger.pendings.lookup p.timestamp).map TransferPending.status = some .pending)
    (hs : status ≠ .pending) (hdebit : record.debitAccountId = p.debitAccountId)
    (hcredit : record.creditAccountId = p.creditAccountId) (hledger : record.ledger = p.ledger)
    (hp : ledger.Posting p dr cr dr' cr' 0 p.amount.toNat posted)
    (hdt : dr'.timestamp = dr.timestamp) (hct : cr'.timestamp = cr.timestamp)
    (hstatus : (if record.flags.postPendingTransfer then .posted else .voided) = status) :
    Follows prefetch resolves (view.resolve record p dr' cr')
      (ledger.resolve record p status dr' cr') := by
  have hpv := h.valid.transfers _ _ hl
  have hpendings : (view.resolve record p dr' cr').pendings =
      Function.update view.pendings p.timestamp (some ⟨p.timestamp, status⟩) := by
    show Function.update view.pendings (p.timestamp % _) _ = _
    rw [mod_of_valid hpv, hstatus]
  have hnone : ledger.transfers.lookup record.id = none := (h.transfers _ hid).symm.trans hn
  have hdv := h.valid.accounts _ _ hp.debit
  have hcv := h.valid.accounts _ _ hp.credit
  refine {
    balanced := h.balanced.resolve hnone hfresh hplain hl hpending hrow hs hdebit hcredit hledger hp
    valid := h.valid.resolve (hdt ▸ hdv) (hct ▸ hcv) hvalid hpv
    accountsWithin := by
      rw [Ledger.account_resolve]
      exact h.accountsWithin.update.update
    transfersWithin := by
      rw [Ledger.transfer_resolve]
      exact h.transfersWithin.update
    pendingsWithin := by
      rw [hpendings, Ledger.pending_resolve]
      exact h.pendingsWithin.update
    accounts := by
      rw [Ledger.account_resolve]
      exact h.accounts.update.update
    transfers := by
      rw [Ledger.transfer_resolve]
      exact h.transfers.update
    pendings := ?_
    rows := by
      rw [hpendings, Ledger.pending_resolve]
      exact h.rows.update
    keyMax := congrArg (max · record.timestamp) h.keyMax
  }
  intro id hr p' hl' hpending'
  rw [Ledger.transfer_resolve, Function.update_apply] at hl'
  rw [hpendings, Ledger.pending_resolve]
  split at hl'
  · cases hl'
    rw [hplain] at hpending'
    cases hpending'
  · have ⟨h₁, h₂, h₃⟩ := h.pendings id hr p' hl' hpending'
    refine ⟨h₁, h₂, ?_⟩
    rw [Function.update_apply, Function.update_apply, h₃]

-- A transfer is created against the accounts that are committed.
theorem Follows.creates {events : List Transfer} {amount : U128} {after : TransfersView}
    (h : Follows prefetch resolves view ledger)
    (hp : Prefetches prefetch resolves events) (hm : event ∈ events)
    (hc : TransfersBatch.Creates view event timestamp amount dr cr after)
    (hn : view.transfers event.id = none) (hvalid : timestamp ≤ TimestampRange.timestampMax)
    (hfresh : (ledger.timestamps.lookup timestamp).all (· = event.id) = true) :
    ledger.accounts.lookup event.debitAccountId = some dr ∧
      ledger.accounts.lookup event.creditAccountId = some cr ∧
      Follows prefetch resolves after (ledger.create { event with amount, timestamp }
        (commitTransferAccounts event amount dr cr).1
        (commitTransferAccounts event amount dr cr).2) := by
  have ⟨hda, hca⟩ := hp.accounts event hm hc.creatable.plain
  have hd : ledger.accounts.lookup event.debitAccountId = some dr :=
    (h.accounts _ hda).symm.trans hc.debit
  have hcr : ledger.accounts.lookup event.creditAccountId = some cr :=
    (h.accounts _ hca).symm.trans hc.credit
  refine ⟨hd, hcr, ?_⟩
  have hentry := hc.creatable.fits.entry (h.balanced.room _ _ hd) (h.balanced.room _ _ hcr)
  have htimestamps := @commitTransferAccounts_timestamp dr cr event amount
  rw [← hc.amountEq] at hentry
  rw [hc.after]
  exact h.create hn (hp.id event hm) ⟨hda, hca⟩ hvalid hfresh
    ⟨hd, hcr, hc.creatable.ledger, hentry⟩ hc.creatable.distinct hc.creatable.ledgerEq
    htimestamps.1 htimestamps.2

-- What a transfer that posts or voids another one finds committed.
structure Ledger.Releases (ledger : Ledger) (event p : Transfer) (dr cr : Account) : Prop where
  pending : ledger.transfers.lookup event.pendingId = some p
  status : (ledger.pendings.lookup p.timestamp).map TransferPending.status = some .pending
  debit : ledger.accounts.lookup p.debitAccountId = some dr
  credit : ledger.accounts.lookup p.creditAccountId = some cr
  covers : Covers p dr cr

-- A pending transfer is posted or voided against the accounts that are committed.
theorem Follows.releases {events : List Transfer} {p : Transfer}
    {amount : U128} {row : TransferPending} {dr' cr' : Account} {after : TransfersView}
    (h : Follows prefetch resolves view ledger) (hp : Prefetches prefetch resolves events)
    (hm : event ∈ events)
    (hr : TransfersBatch.Resolves view event timestamp amount p row dr cr dr' cr' after)
    (hn : view.transfers event.id = none) (hvalid : timestamp ≤ TimestampRange.timestampMax)
    (hfresh : (ledger.timestamps.lookup timestamp).all (· = event.id) = true) :
    ledger.Releases event p dr cr ∧
      Follows prefetch resolves after (ledger.resolve (foldPostVoidTransfer event p amount timestamp)
        p (StateMachine.resolvedStatus event) dr' cr') := by
  have hres := hr.resolvable
  have ⟨hpid, hresolves⟩ := hp.pending event hm hres.resolves
  have hpl : ledger.transfers.lookup event.pendingId = some p :=
    (h.transfers _ hpid).symm.trans hr.pending
  have ⟨hda, hca, hrows⟩ := h.pendings _ hresolves p hpl hres.pending
  have hd : ledger.accounts.lookup p.debitAccountId = some dr := (h.accounts _ hda).symm.trans hr.debit
  have hc : ledger.accounts.lookup p.creditAccountId = some cr :=
    (h.accounts _ hca).symm.trans hr.credit
  have hrow : (ledger.pendings.lookup p.timestamp).map TransferPending.status = some .pending := by
    have hrow : ledger.pendings.lookup p.timestamp = some row := hrows.symm.trans hr.status
    rw [hrow, Option.map_some, hres.status]
  have ⟨hdl, hcl⟩ := h.balanced.parties _ _ hpl
  rw [hd] at hdl
  rw [hc] at hcl
  have hledgers : dr.ledger = cr.ledger := Option.some.inj (hdl.trans hcl.symm)
  have hcovers := h.balanced.covers hpl hres.pending hrow hd hc
  have ⟨posted, hentry⟩ := (hcovers.entry (h.balanced.room _ _ hd) (h.balanced.room _ _ hc)).post
    hr.commit
  have ⟨_, hdt, _, hct⟩ := commitPostVoidAccounts_meets.post hr.commit
  refine ⟨⟨hpl, hrow, hd, hc, hcovers⟩, ?_⟩
  rw [hr.after]
  exact h.resolve hn (hp.id event hm) hvalid hfresh hres.plain hpl hres.pending hrow
    (by unfold StateMachine.resolvedStatus; split <;> nofun) rfl rfl rfl
    ⟨hd, hc, hledgers, hentry⟩ hdt hct rfl

end Follows

-- What is committed follows what a batch of accounts is executed against.
structure FollowsAccounts (ids : List U128) (view : AccountsView) (ledger : Ledger) : Prop where
  balanced : ledger.Balanced
  valid : ledger.Valid
  accountsWithin : Within view.accounts ledger.account
  accounts : AgreeOn (· ∈ ids) view.accounts ledger.account

theorem FollowsAccounts.insert {ids : List U128} {view : AccountsView} {ledger : Ledger}
    {account : Account} (h : FollowsAccounts ids view ledger)
    (hn : view.accounts account.id = none) (hid : account.id ∈ ids)
    (hvalid : account.timestamp ≤ TimestampRange.timestampMax) (hdp : account.debitsPending = 0)
    (hd : account.debitsPosted = 0) (hcp : account.creditsPending = 0)
    (hc : account.creditsPosted = 0) :
    FollowsAccounts ids (view.insert account) (ledger.insertAccount account) := by
  have hnone : ledger.accounts.lookup account.id = none := (h.accounts _ hid).symm.trans hn
  refine ⟨h.balanced.insertAccount hnone hdp hd hcp hc, ⟨?_, h.valid.transfers, h.valid.pendings⟩, ?_,
    ?_⟩
  · rw [Ledger.account_insertAccount]
    exact forall_update (P := fun _ (a : Account) => a.timestamp ≤ _) h.valid.accounts hvalid
  · rw [Ledger.account_insertAccount]
    exact h.accountsWithin.update
  · rw [Ledger.account_insertAccount]
    exact h.accounts.update

namespace StateMachine

section Accounts

variable {ids : List U128} {events : List Account} {sm₀ : StateMachine}

theorem persistAccountEvent_meets {count index : Nat} {event : Account}
    {result : CreateAccountResult} {sm : StateMachine} :
    Meets (fun _ => True)
      (fun sm' => sm'.ledger =
          sm.ledger.insertAccount { event with timestamp := result.timestamp } ∧ Keeps sm sm')
      (persistAccountEvent timestamp count index event result sm) := by
  have h := @insertAccount_meets sm { event with timestamp := result.timestamp }
  unfold persistAccountEvent
  simp only [Meets.ite_iff, Meets.bind_eq, Meets.pure_eq, partial_assert]
  refine ⟨fun _ ht => ?_, fun _ => timestampEvent_meets.weaken fun t _ ht => ?_⟩
  · rw [← ht] at h ⊢
    exact h
  · rw [← ht] at h ⊢
    exact h

theorem persistsAccounts [Hasher] {batch : AccountsBatch}
    (hb : batch.timestamp ≤ TimestampRange.timestampMax) (hp : ∀ event ∈ events, event.id ∈ ids) :
    (batch.law hb).Persists batch.timestamp events.length events
      (persistAccountEvent batch.timestamp events.length)
      (fun view sm => FollowsAccounts ids view sm.ledger ∧ Keeps sm₀ sm ∧
        sm.ledger.transfer = sm₀.ledger.transfer ∧ sm.ledger.pending = sm₀.ledger.pending) where
  rewind _ _ _ _ _ h := ⟨⟨h.1.balanced, h.1.valid, h.1.accountsWithin, h.1.accounts⟩, h.2⟩
  step index view event result after sm hm hc hs h := by
    have ⟨h, hk, ht, hr⟩ := h
    have hs : batch.Step view event _ result after := hs
    have hc : result.status = .created := by simpa [AccountsBatch.orchestrator] using hc
    have ⟨hn, hdp, hd, hcp, hc, _, hvalid, hafter⟩ := hs.created hc
    refine persistAccountEvent_meets.weaken fun sm' ⟨hledger, hk'⟩ => ?_
    rw [hafter, hledger]
    exact ⟨h.insert hn (hp event hm) hvalid hdp hd hcp hc, hk.trans hk', ht, hr⟩

end Accounts

variable {prefetch : TransferPrefetchKeys} {resolves : U128 → Prop} {events : List Transfer}
    {sm₀ : StateMachine}

theorem persistTransferEvent_meets {Q : StateMachine → Prop} {count index : Nat}
    {result : CreateTransferResult} {sm : StateMachine}
    (h : Meets (fun _ => True) Q
      (sm.persistTransfer { event with timestamp := result.timestamp } result.amountActual)) :
    Meets (fun _ => True) Q (persistTransferEvent timestamp count index event result sm) := by
  unfold persistTransferEvent
  simp only [Meets.ite_iff, Meets.bind_eq, Meets.pure_eq, partial_assert]
  refine ⟨fun _ ht => ?_, fun _ => timestampEvent_meets.weaken fun t _ ht => ?_⟩
  · rw [← ht] at h
    exact h
  · rw [← ht] at h
    exact h

theorem persists [Hasher] {batch : TransfersBatch}
    (hb : batch.timestamp ≤ TimestampRange.timestampMax) (hp : Prefetches prefetch resolves events) :
    (batch.law hb).Persists batch.timestamp events.length events
      (persistTransferEvent batch.timestamp events.length)
      (fun view sm => Follows prefetch resolves view sm.ledger ∧ Keeps sm₀ sm ∧
        ∀ id, id ∉ prefetch.transferIds → sm.ledger.transfer id = sm₀.ledger.transfer id) where
  rewind _ _ _ _ _ h := ⟨⟨h.1.balanced, h.1.valid, h.1.accountsWithin, h.1.transfersWithin,
    h.1.pendingsWithin, h.1.accounts, h.1.transfers, h.1.pendings, h.1.rows, h.1.keyMax⟩, h.2⟩
  step index view event result after sm hm hc hs h := by
    have ⟨h, hk, hother⟩ := h
    have hs : batch.Step view event _ result after := hs
    have hc : result.status = .created := by simpa [TransfersBatch.orchestrator] using hc
    have ⟨_, _, hn, _, hvalid, hstep⟩ := hs.created hc
    have hne : ∀ id, id ∉ prefetch.transferIds → id ≠ event.id :=
      fun id hi he => hi (he ▸ hp.id event hm)
    refine persistTransferEvent_meets ?_
    cases hstep with
    | inl hcreates =>
      have ⟨dr, cr, hcreates⟩ := hcreates
      refine Meets.weaken ?_ (persistTransfer_of_plain (show
        ({ event with timestamp := result.timestamp } : Transfer).flags.postOrVoid = false
        from hcreates.creatable.plain))
      intro sm' ⟨dr₂, cr₂, dr', cr', hdl, hcl, hcommit, _, hfresh, hledger, hk'⟩
      have ⟨hd, hc, hf⟩ := h.creates hp hm hcreates hn hvalid hfresh
      obtain rfl : dr = dr₂ := Option.some.inj (hd.symm.trans hdl)
      obtain rfl : cr = cr₂ := Option.some.inj (hc.symm.trans hcl)
      have hcommit : (dr', cr') = commitTransferAccounts event result.amountActual dr cr := hcommit
      rw [← hcommit] at hf
      rw [hledger]
      exact ⟨hf, hk.trans hk', fun id hi => by
        rw [Ledger.transfer_create]
        exact (Function.update_of_ne (hne id hi) _ _).trans (hother id hi)⟩
    | inr hresolves =>
      have ⟨p, row, dr, cr, dr', cr', hresolves⟩ := hresolves
      have hres := hresolves.resolvable
      rw [persistTransfer_resolving hres.plain hres.resolves]
      refine persistPostVoid_meets.weaken fun sm' ⟨p₂, dr₂, cr₂, dr₃, cr₃, hpl, _, hdl, hcl, hcommit,
        _, hfresh, hledger, hk'⟩ => ?_
      have ⟨hr, hf⟩ := h.releases hp hm hresolves hn hvalid hfresh
      obtain rfl : p = p₂ := Option.some.inj (hr.pending.symm.trans hpl)
      obtain rfl : dr = dr₂ := Option.some.inj (hr.debit.symm.trans hdl)
      obtain rfl : cr = cr₂ := Option.some.inj (hr.credit.symm.trans hcl)
      have hcommit : commitPostVoidAccounts event p result.amountActual dr cr = .ok (dr₃, cr₃) :=
        hcommit
      obtain ⟨rfl, rfl⟩ : dr' = dr₃ ∧ cr' = cr₃ := by
        simpa using hresolves.commit.symm.trans hcommit
      rw [hledger]
      exact ⟨hf, hk.trans hk', fun id hi => by
        rw [Ledger.transfer_resolve]
        exact (Function.update_of_ne (hne id hi) _ _).trans (hother id hi)⟩

end StateMachine

end TigerBeetle.Accounting
