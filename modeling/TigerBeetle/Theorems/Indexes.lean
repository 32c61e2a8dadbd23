import TigerBeetle.Theorems.Groove
import TigerBeetle.Theorems.Mounted

namespace TigerBeetle.Accounting

open Fallible HashMap IndexTree Orchestrator
open TransferGroove (ExpiresAt)

namespace Mounted

variable {m : Mounted} {expires : CompositeKey Nat → Prop}

-- The indexes of the forest are those of what is committed, and a timestamp is that of one object.
structure Mirrors (m : Mounted) (expires : CompositeKey Nat → Prop) : Prop where
  accounts : m.forest.accounts.Mirrors fun id => m.sm.accounts.lookup id
  transfers : m.forest.transfers.Mirrors (fun id => m.sm.transfers.lookup id) expires
  pendings : m.forest.transfersPending.Mirrors
    fun timestamp => m.sm.transfersPending.lookup timestamp
  accountsByTimestamp : ∀ id account, m.sm.accounts.lookup id = some account →
    m.sm.accountsByTimestamp.lookup account.timestamp = some id
  transfersByTimestamp : ∀ id t, m.sm.transfers.lookup id = some t →
    m.sm.transfersByTimestamp.lookup t.timestamp = some id
  rows : ∀ timestamp row, m.sm.transfersPending.lookup timestamp = some row →
    row.timestamp = timestamp

-- A value whose key and whose timestamp are new is found by its timestamp.
theorem byTimestamp_insert {V : Type} {timestamp : V → Nat} {objects : HashMap U128 V}
    {byTimestamp : HashMap Nat U128} {id : U128} {object : V}
    (h : ∀ id o, objects.lookup id = some o → byTimestamp.lookup (timestamp o) = some id)
    (hf : ∀ id o, objects.lookup id = some o → timestamp o ≠ timestamp object) (id' : U128) (o : V)
    (hl : (objects.insert id object).lookup id' = some o) :
    (byTimestamp.insert (timestamp object) id).lookup (timestamp o) = some id' := by
  rw [lookup_insert_eq] at hl
  split at hl
  · next he =>
    cases hl
    rw [AList.lookup_insert, he]
  · rw [lookup_insert_eq, if_neg (hf id' o hl)]
    exact h id' o hl

theorem fresh_of_all {V : Type} {timestamp : V → Nat} {objects : HashMap U128 V}
    {byTimestamp : HashMap Nat U128} {id : U128} {object : V}
    (h : ∀ id o, objects.lookup id = some o → byTimestamp.lookup (timestamp o) = some id)
    (hn : objects.lookup id = none)
    (ha : (byTimestamp.lookup (timestamp object)).all (fun previous => previous = id) = true)
    (id' : U128) (o : V) (hl : objects.lookup id' = some o) : timestamp o ≠ timestamp object := by
  intro ht
  have hid := h id' o hl
  rw [ht] at hid
  rw [hid] at ha
  obtain rfl : id' = id := by simpa using ha
  rw [hn] at hl
  cases hl

theorem accountEvent_timestamps {sm : StateMachine} {timestamp : Nat} {dr cr : Account}
    {flags : TransferFlags} {status : TransferPendingStatus} {pending : Option Transfer}
    {requested amount : U128} :
    Meets (fun _ => True)
      (fun sm' => sm'.ledger = sm.ledger ∧ sm'.accountsByTimestamp = sm.accountsByTimestamp)
      (sm.accountEvent timestamp dr cr flags status pending requested amount) := by
  have hpush : ∀ (sm : StateMachine) (account : Account),
      (sm.pushAccountEvent account timestamp).accountsByTimestamp = sm.accountsByTimestamp := by
    intro sm account
    unfold StateMachine.pushAccountEvent
    split <;> rfl
  have htimestamps : Meets (fun _ => True)
      (fun sm' => sm'.accountsByTimestamp = sm.accountsByTimestamp)
      (sm.accountEvent timestamp dr cr flags status pending requested amount) := by
    unfold StateMachine.accountEvent
    simp only [Meets.bind_eq, partial_assert]
    intro _
    cases status
    all_goals
      simp only [Meets.bind_eq, Meets.pure_eq, partial_assert]
      exact fun _ _ _ => (hpush _ _).trans (hpush _ _)
  exact (StateMachine.accountEvent_meets.and htimestamps).weaken fun _ ⟨⟨_, h, _⟩, h'⟩ => ⟨h, h'⟩

theorem updatePulse_timestamps {sm : StateMachine} :
    Meets (fun _ => True)
      (fun sm' => sm'.ledger = sm.ledger ∧ sm'.accountsByTimestamp = sm.accountsByTimestamp)
      sm.updatePulseNextTimestamp := by
  unfold StateMachine.updatePulseNextTimestamp
  rw [Meets.bind_iff]
  exact Meets.trivial.weaken fun _ _ => ⟨rfl, rfl⟩

namespace Mirrors

section

variable (h : m.Mirrors expires)

include h

theorem congr {expires' : CompositeKey Nat → Prop}
    (he : ∀ key, expires key ↔ expires' key) : m.Mirrors expires' :=
  { h with transfers := h.transfers.congr he }

theorem insertAccount {id : U128} {account : Account}
    (hn : m.sm.accounts.lookup id = none) :
    Meets (fun _ => True)
      (fun m' => m'.Mirrors expires ∧ m'.sm.transfers = m.sm.transfers ∧
        m'.sm.transfersPending = m.sm.transfersPending)
      (m.insertAccount id account) := by
  unfold Mounted.insertAccount StateMachine.insertAccount
  simp only [Meets.bind_eq, Meets.pure_eq, partial_assert, and_true]
  intro _ ha
  have hf := @fresh_of_all _ Account.timestamp _ _ _ account h.accountsByTimestamp hn ha
  refine (h.accounts.insert hn hf).weaken fun accounts haccounts => ?_
  exact { h with
    accounts := by
      rw [lookup_insert]
      exact haccounts
    accountsByTimestamp := byTimestamp_insert h.accountsByTimestamp hf
  }

theorem updateAccount {account : Account} :
    Meets (fun _ => True)
      (fun m' => m'.Mirrors expires ∧ m'.sm.transfers = m.sm.transfers ∧
        m'.sm.transfersPending = m.sm.transfersPending)
      (m.updateAccount account) := by
  unfold Mounted.updateAccount StateMachine.updateAccount
  simp only [Meets.bind_eq, Meets.pure_eq, partial_assert, and_true]
  refine expect_meets.weaken fun old hl => expect_meets.weaken fun old' hl' ht => ?_
  obtain rfl : old = old' := Option.some.inj (hl.symm.trans hl')
  have hu : ∀ id o, m.sm.accounts.lookup id = some o → o.timestamp = old.timestamp →
      id = account.id := by
    intro id o ho hto
    have hid := h.accountsByTimestamp id o ho
    rw [hto, h.accountsByTimestamp _ _ hl] at hid
    exact (Option.some.inj hid).symm
  refine (h.accounts.update hl hu).weaken fun accounts haccounts => ?_
  exact { h with
    accounts := by
      rw [lookup_insert]
      exact haccounts
    accountsByTimestamp := fun id a ha => by
      rw [lookup_insert_eq] at ha
      split at ha
      · next he =>
        cases ha
        rw [← ht, he]
        exact h.accountsByTimestamp _ _ hl
      · exact h.accountsByTimestamp id a ha
  }

theorem updateAccountIf {updated : Bool} {account : Account} :
    Meets (fun _ => True)
      (fun m' => m'.Mirrors expires ∧ m'.sm.transfers = m.sm.transfers ∧
        m'.sm.transfersPending = m.sm.transfersPending)
      (m.updateAccountIf updated account) := by
  unfold Mounted.updateAccountIf
  split
  · exact h.updateAccount
  · exact ⟨h, rfl, rfl⟩

theorem insertTransfer {record : Transfer}
    (hn : m.sm.transfers.lookup record.id = none)
    (he : ∀ key, expires key →
      ∃ id t, m.sm.transfers.lookup id = some t ∧ t.timestamp = key.timestamp) :
    Meets (fun _ => True)
      (fun m' => m'.Mirrors (fun key => ExpiresAt record key ∨ expires key) ∧
        m'.sm.transfers = m.sm.transfers.insert record.id record ∧
        m'.sm.transfersPending = m.sm.transfersPending ∧
        ∀ id t, m.sm.transfers.lookup id = some t → t.timestamp ≠ record.timestamp)
      (m.insertTransfer record.id record) := by
  unfold Mounted.insertTransfer StateMachine.insertTransfer
  simp only [Meets.bind_eq, Meets.pure_eq, partial_assert]
  intro _ ha
  have hf := @fresh_of_all _ Transfer.timestamp _ _ _ record h.transfersByTimestamp hn ha
  refine (h.transfers.insert hn hf fun key hk => ?_).weaken fun transfers htransfers => ?_
  · have ⟨id, t, hl, ht⟩ := he key hk
    exact ht ▸ hf id t hl
  · refine ⟨?_, trivial, trivial, hf⟩
    exact { h with
      transfers := by
        rw [lookup_insert]
        exact htransfers
      transfersByTimestamp := byTimestamp_insert h.transfersByTimestamp hf
    }

theorem insertTransferPending {pending : TransferPending} :
    Meets (fun _ => True)
      (fun m' => m'.Mirrors expires ∧ m'.sm.transfers = m.sm.transfers ∧
        m'.sm.transfersPending = m.sm.transfersPending.insert pending.timestamp pending)
      (m.insertTransferPending pending) := by
  unfold Mounted.insertTransferPending StateMachine.insertTransferPending
  simp only [Meets.bind_eq, Meets.pure_eq, partial_assert, and_true]
  intro hn
  have hf : ∀ timestamp row, m.sm.transfersPending.lookup timestamp = some row →
      row.timestamp ≠ pending.timestamp := by
    intro timestamp row hl ht
    have hrow := h.rows timestamp row hl
    rw [← hrow, ht, hn] at hl
    cases hl
  refine (h.pendings.insert hn hf).weaken fun pendings hpendings => ?_
  exact { h with
    pendings := by
      rw [lookup_insert]
      exact hpendings
    rows := fun timestamp row hl => by
      rw [lookup_insert_eq] at hl
      split at hl
      · next he =>
        cases hl
        exact he.symm
      · exact h.rows timestamp row hl
  }

theorem updateTransferPendingStatus {timestamp : Nat} {status : TransferPendingStatus}
    :
    Meets (fun _ => True)
      (fun m' => m'.Mirrors expires ∧ m'.sm.transfers = m.sm.transfers ∧
        m'.sm.transfersPending = m.sm.transfersPending.insert timestamp ⟨timestamp, status⟩ ∧
        (m.sm.transfersPending.lookup timestamp).map TransferPending.status = some .pending)
      (m.updateTransferPendingStatus timestamp status) := by
  unfold Mounted.updateTransferPendingStatus StateMachine.updateTransferPendingStatus
  simp only [Meets.bind_eq, Meets.pure_eq, partial_assert]
  refine expect_meets.weaken fun old hl => expect_meets.weaken fun old' hl' hs => ?_
  obtain rfl : old = old' := Option.some.inj (hl.symm.trans hl')
  have hu : ∀ timestamp' row, m.sm.transfersPending.lookup timestamp' = some row →
      row.timestamp = old.timestamp → timestamp' = timestamp := by
    intro timestamp' row hl' ht
    rw [← h.rows timestamp' row hl', ht, h.rows timestamp old hl]
  refine (h.pendings.update hl hu).weaken fun pendings hpendings => ?_
  refine ⟨?_, trivial, trivial, by rw [hl, Option.map_some, hs]⟩
  exact { h with
    pendings := by
      rw [lookup_insert]
      exact hpendings
    rows := fun timestamp' row hl' => by
      rw [lookup_insert_eq] at hl'
      split at hl'
      · next he =>
        cases hl'
        exact he.symm
      · exact h.rows timestamp' row hl'
  }

-- What the forest mirrors is no more than the ledger.
theorem of_ledger {sm : StateMachine} (hl : sm.ledger = m.sm.ledger)
    (ha : sm.accountsByTimestamp = m.sm.accountsByTimestamp) :
    ({ m with sm } : Mounted).Mirrors expires := by
  have haccounts : sm.accounts = m.sm.accounts := congrArg Ledger.accounts hl
  have htransfers : sm.transfers = m.sm.transfers := congrArg Ledger.transfers hl
  have hpendings : sm.transfersPending = m.sm.transfersPending := congrArg Ledger.pendings hl
  have htimestamps : sm.transfersByTimestamp = m.sm.transfersByTimestamp :=
    congrArg Ledger.timestamps hl
  exact {
    accounts := haccounts ▸ h.accounts
    transfers := htransfers ▸ h.transfers
    pendings := hpendings ▸ h.pendings
    accountsByTimestamp := haccounts ▸ ha ▸ h.accountsByTimestamp
    transfersByTimestamp := htransfers ▸ htimestamps ▸ h.transfersByTimestamp
    rows := hpendings ▸ h.rows
  }

theorem unmounted {x : Result StateMachine}
    (hx : Meets (fun _ => True)
      (fun sm => sm.ledger = m.sm.ledger ∧ sm.accountsByTimestamp = m.sm.accountsByTimestamp) x) :
    Meets (fun _ => True)
      (fun m' => m'.Mirrors expires ∧ m'.sm.transfers = m.sm.transfers ∧
        m'.sm.transfersPending = m.sm.transfersPending)
      (m.unmounted x) := by
  unfold Mounted.unmounted
  rw [Meets.bind_iff]
  exact hx.weaken fun sm ⟨hl, ha⟩ =>
    ⟨h.of_ledger hl ha, congrArg Ledger.transfers hl, congrArg Ledger.pendings hl⟩

theorem commitTransfer {event : Transfer} {amount requested : U128} :
    Meets (fun _ => True)
      (fun m' => m'.Mirrors expires ∧ m'.sm.transfers = m.sm.transfers ∧
        m'.sm.transfersPending = m.sm.transfersPending)
      (m.commitTransfer event amount requested) := by
  unfold Mounted.commitTransfer
  simp only [Meets.bind_eq]
  refine Meets.trivial.weaken fun dr _ => Meets.trivial.weaken fun cr _ => ?_
  refine h.updateAccount.weaken fun m₁ ⟨h₁, ht₁, hp₁⟩ => ?_
  refine h₁.updateAccount.weaken fun m₂ ⟨h₂, ht₂, hp₂⟩ => ?_
  refine (h₂.unmounted accountEvent_timestamps).weaken fun m₃ ⟨h₃, ht₃, hp₃⟩ => ?_
  have ht : m₃.sm.transfers = m.sm.transfers := ht₃.trans (ht₂.trans ht₁)
  have hp : m₃.sm.transfersPending = m.sm.transfersPending := hp₃.trans (hp₂.trans hp₁)
  simp only [Meets.ite_iff, Meets.bind_eq, Meets.pure_eq, partial_assert]
  exact ⟨fun _ _ _ => ⟨h₃.of_ledger rfl rfl, ht, hp⟩, fun _ => ⟨h₃, ht, hp⟩⟩

end

end Mirrors

-- The forest mirrors what is committed, and what of it expires.
def Mirrored (m : Mounted) : Prop :=
  m.Mirrors (Expires m.sm.transfers m.sm.transfersPending)

namespace Mirrored

theorem within (key : CompositeKey Nat)
    (h : Expires m.sm.transfers m.sm.transfersPending key) :
    ∃ id t, m.sm.transfers.lookup id = some t ∧ t.timestamp = key.timestamp :=
  have ⟨id, t, hl, he, _⟩ := h
  ⟨id, t, hl, he.2⟩

section

variable (h : m.Mirrored)

include h

theorem of_ledger {sm : StateMachine} (hl : sm.ledger = m.sm.ledger)
    (ha : sm.accountsByTimestamp = m.sm.accountsByTimestamp) :
    ({ m with sm } : Mounted).Mirrored := by
  have htransfers : sm.transfers = m.sm.transfers := congrArg Ledger.transfers hl
  have hpendings : sm.transfersPending = m.sm.transfersPending := congrArg Ledger.pendings hl
  show Mirrors _ (Expires sm.transfers sm.transfersPending)
  rw [htransfers, hpendings]
  exact Mirrors.of_ledger h hl ha

-- A pending transfer is settled: its status is no longer pending, and it does not expire any more.
theorem settle {p : Transfer} {id : U128} {status : TransferPendingStatus}
    (hl : m.sm.transfers.lookup id = some p) (hs : status ≠ .pending) :
    Meets (fun _ => True)
      (fun m' => (m'.removeExpiresAt p).Mirrored ∧ m'.sm.transfers = m.sm.transfers)
      (m.updateTransferPendingStatus p.timestamp status) := by
  refine (Mirrors.updateTransferPendingStatus h).weaken fun m₁ ⟨h₁, ht₁, hp₁, hrow⟩ => ⟨?_, ht₁⟩
  have hremove := h₁.transfers.removeExpiresAt (p := p) fun key he => ⟨id, p, hl, he, hrow⟩
  have hu : ∀ id' t, m.sm.transfers.lookup id' = some t → t.timestamp = p.timestamp → id' = id := by
    intro id' t ht hts
    have hid := h.transfersByTimestamp id' t ht
    rw [hts, h.transfersByTimestamp id p hl] at hid
    exact (Option.some.inj hid).symm
  have hexpires : (m₁.removeExpiresAt p).Mirrors fun key =>
      ¬ExpiresAt p key ∧ Expires m.sm.transfers m.sm.transfersPending key :=
    { h₁ with transfers := hremove }
  refine hexpires.congr fun key => ?_
  show _ ↔ Expires m₁.sm.transfers m₁.sm.transfersPending key
  rw [ht₁, hp₁]
  exact expires_settle hl hu hs

theorem persistPostVoid {event : Transfer} {amount : U128}
    (hn : m.sm.transfers.lookup event.id = none) (hpending : event.flags.pending = false) :
    Meets (fun _ => True) Mirrored (m.persistPostVoid event amount) := by
  unfold Mounted.persistPostVoid
  simp only [Meets.bind_eq]
  refine expect_meets.weaken fun p hp => ?_
  have hinsert := @Mirrors.insertTransfer _ _ h
    (foldPostVoidTransfer event p amount event.timestamp) hn within
  refine hinsert.weaken fun m₁ ⟨h₁, ht₁, hp₁, hf⟩ => ?_
  have hrecord : ∀ key, ¬ExpiresAt (foldPostVoidTransfer event p amount event.timestamp) key := by
    intro key ⟨hi, _⟩
    have hflags : (foldPostVoidTransfer event p amount event.timestamp).flags.pending = false :=
      hpending
    simp [transferExpiresAtIndex, hflags] at hi
  have h₁ : m₁.Mirrored := by
    refine h₁.congr fun key => ?_
    rw [ht₁, hp₁]
    exact expires_insert hn hf (fun _ _ => rfl) fun key hk => absurd hk (hrecord key)
  have hp₁ : m₁.sm.transfers.lookup event.pendingId = some p := by
    rw [ht₁, lookup_insert_eq, if_neg]
    · exact hp
    · intro he
      have hnone : m.sm.transfers.lookup event.pendingId = none := he ▸ hn
      rw [hp] at hnone
      cases hnone
  refine Meets.weaken ?_ (h₁.settle hp₁ ?_)
  case refine_2 => split <;> nofun
  intro m₂ ⟨h₂, ht₂⟩
  refine Meets.trivial.weaken fun dr _ => Meets.trivial.weaken fun cr _ => ?_
  refine Meets.trivial.weaken fun pair _ => ?_
  refine (Mirrors.updateAccount h₂).weaken fun m₃ ⟨h₃, ht₃, hp₃⟩ => ?_
  refine h₃.updateAccount.weaken fun m₄ ⟨h₄, ht₄, hp₄⟩ => ?_
  refine (h₄.unmounted accountEvent_timestamps).weaken fun m₅ ⟨h₅, ht₅, hp₅⟩ => ?_
  refine (h₅.unmounted updatePulse_timestamps).weaken fun m₆ ⟨h₆, ht₆, hp₆⟩ => ?_
  unfold Mirrored
  rw [ht₆, ht₅, ht₄, ht₃, hp₆, hp₅, hp₄, hp₃]
  exact h₆

theorem persistTransfer {event : Transfer} {amount : U128}
    (hn : m.sm.transfers.lookup event.id = none) :
    Meets (fun _ => True) Mirrored (m.persistTransfer event amount) := by
  have hinsert := @Mirrors.insertTransfer _ _ h { event with amount } hn within
  unfold Mounted.persistTransfer
  simp only [Meets.ite_iff, Meets.bind_eq]
  refine ⟨fun hp => ?_, fun hp => ⟨fun _ => ?_, fun _ => ?_⟩⟩
  case refine_2 => exact h.persistPostVoid hn (by simpa using hp)
  case refine_1 =>
    refine hinsert.weaken fun m₁ ⟨h₁, ht₁, hp₁, hf⟩ => ?_
    refine h₁.insertTransferPending.weaken fun m₂ ⟨h₂, ht₂, hp₂⟩ => ?_
    refine h₂.commitTransfer.weaken fun m₃ ⟨h₃, ht₃, hp₃⟩ => h₃.congr fun key => ?_
    rw [ht₃, hp₃, ht₂, hp₂, ht₁, hp₁]
    refine expires_insert hn hf (fun timestamp hne => ?_) fun key hk => ?_
    · exact AList.lookup_insert_ne hne
    · rw [AList.lookup_insert]
      rfl
  case refine_3 =>
    refine hinsert.weaken fun m₁ ⟨h₁, ht₁, hp₁, hf⟩ => ?_
    refine h₁.commitTransfer.weaken fun m₃ ⟨h₃, ht₃, hp₃⟩ => h₃.congr fun key => ?_
    rw [ht₃, hp₃, ht₁, hp₁]
    refine expires_insert hn hf (fun _ _ => rfl) fun key hk => ?_
    have hi := hk.1
    simp [transferExpiresAtIndex, hp] at hi

theorem expire {timestamp : Nat} {id : U128} :
    Meets (fun _ => True) Mirrored (m.expire timestamp id) := by
  unfold Mounted.expire
  simp only [Meets.bind_eq, partial_assert]
  intro _
  refine expect_meets.weaken fun p hp _ => ?_
  refine Meets.trivial.weaken fun dr _ => Meets.trivial.weaken fun cr _ _ _ _ _ => ?_
  have h₀ : ({ m with sm.commitTimestamp := timestamp } : Mounted).Mirrored :=
    h.of_ledger rfl rfl
  refine (Mirrors.updateAccountIf h₀).weaken fun m₁ ⟨h₁, ht₁, hp₁⟩ => ?_
  refine h₁.updateAccountIf.weaken fun m₂ ⟨h₂, ht₂, hp₂⟩ => ?_
  have h₂ : m₂.Mirrored := by
    unfold Mirrored
    rw [ht₂, hp₂, ht₁, hp₁]
    exact h₂
  have hp₂ : m₂.sm.transfers.lookup id = some p := by
    rw [ht₂, ht₁]
    exact hp
  refine (h₂.settle hp₂ (show TransferPendingStatus.expired ≠ .pending from nofun)).weaken
    fun m₃ ⟨h₃, _⟩ => ?_
  refine (Mirrors.unmounted h₃ accountEvent_timestamps).weaken fun m₄ ⟨h₄, ht₄, hp₄⟩ => ?_
  unfold Mirrored
  rw [ht₄, hp₄]
  exact h₄

theorem expireAll {timestamp count index : Nat} {due : List (Nat × Nat × U128)}
    : Meets (fun _ => True) Mirrored (expireAll timestamp count index due m) := by
  induction due generalizing index m with
  | nil => exact h
  | cons x due ih =>
    simp only [Mounted.expireAll, Meets.bind_eq]
    exact Meets.trivial.weaken fun _ _ => h.expire.weaken fun _ h => ih h

theorem expirePendingTransfers {timestamp : Nat} :
    Meets (fun _ => True) Mirrored (m.expirePendingTransfers timestamp) := by
  unfold Mounted.expirePendingTransfers
  simp only [Meets.bind_eq, partial_assert]
  intro _ _
  refine Meets.trivial.weaken fun due _ => h.expireAll.weaken fun m₁ h₁ => ?_
  refine (Mirrors.unmounted h₁ updatePulse_timestamps).weaken fun m₂ ⟨h₂, ht₂, hp₂⟩ => ?_
  unfold Mirrored
  rw [ht₂, hp₂]
  exact h₂

theorem insertAccount {id : U128} {account : Account}
    (hn : m.sm.accounts.lookup id = none) :
    Meets (fun _ => True) Mirrored (m.insertAccount id account) := by
  refine (Mirrors.insertAccount h hn).weaken fun m' ⟨h', ht, hp⟩ => ?_
  unfold Mirrored
  rw [ht, hp]
  exact h'

theorem persistAccountEvent {timestamp count index : Nat} {event : Account}
    {result : CreateAccountResult} (hn : m.sm.accounts.lookup event.id = none) :
    Meets (fun _ => True) Mirrored (persistAccountEvent timestamp count index event result m) := by
  unfold Mounted.persistAccountEvent
  simp only [Meets.ite_iff, Meets.bind_eq, Meets.pure_eq, partial_assert]
  exact ⟨fun _ _ => h.insertAccount hn, fun _ => Meets.trivial.weaken fun t _ _ =>
    h.insertAccount hn⟩

theorem persistTransferEvent {timestamp count index : Nat} {event : Transfer}
    {result : CreateTransferResult}
    (hn : m.sm.transfers.lookup event.id = none) :
    Meets (fun _ => True) Mirrored (persistTransferEvent timestamp count index event result m) := by
  unfold Mounted.persistTransferEvent
  simp only [Meets.ite_iff, Meets.bind_eq, Meets.pure_eq, partial_assert]
  exact ⟨fun _ _ => h.persistTransfer hn, fun _ => Meets.trivial.weaken fun t _ _ =>
    @Mirrored.persistTransfer m h { event with timestamp := t } result.amountActual hn⟩

end

section Batches

variable [Hasher] {sm₀ : StateMachine} {timestamp : Nat}

open Accounting.StateMachine (Keeps Sound)

theorem persistsAccounts {batch : AccountsBatch} {ids : List U128} {events : List Account}
    (hb : batch.timestamp ≤ TimestampRange.timestampMax) (hp : ∀ event ∈ events, event.id ∈ ids) :
    (batch.law hb).Persists batch.timestamp events.length events
      (Mounted.persistAccountEvent batch.timestamp events.length)
      (fun view m => (FollowsAccounts ids view m.sm.ledger ∧ Keeps sm₀ m.sm ∧
        m.sm.ledger.transfer = sm₀.ledger.transfer ∧ m.sm.ledger.pending = sm₀.ledger.pending) ∧
        m.Mirrored) where
  rewind a event result current m h :=
    ⟨(StateMachine.persistsAccounts hb hp).rewind a event result current m.sm h.1, h.2⟩
  step index view event result after m hm hc hs h := by
    have ⟨h, hmirrored⟩ := h
    have hstep := (StateMachine.persistsAccounts hb hp).step index view event result after m.sm hm
      hc hs h
    have hs : batch.Step view event _ result after := hs
    have hc : result.status = .created := by simpa [AccountsBatch.orchestrator] using hc
    have ⟨hn, _⟩ := hs.created hc
    have hnone : m.sm.accounts.lookup event.id = none := (h.1.accounts _ (hp event hm)).symm.trans hn
    refine (persistAccountEvent_simulates.and (hmirrored.persistAccountEvent hnone)).weaken ?_
    exact fun m' ⟨he, hm'⟩ => ⟨hstep.post he, hm'⟩

theorem persists {batch : TransfersBatch} {prefetch : TransferPrefetchKeys}
    {resolves : U128 → Prop} {events : List Transfer}
    (hb : batch.timestamp ≤ TimestampRange.timestampMax) (hp : Prefetches prefetch resolves events) :
    (batch.law hb).Persists batch.timestamp events.length events
      (Mounted.persistTransferEvent batch.timestamp events.length)
      (fun view m => (Follows prefetch resolves view m.sm.ledger ∧ Keeps sm₀ m.sm ∧
        ∀ id, id ∉ prefetch.transferIds → m.sm.ledger.transfer id = sm₀.ledger.transfer id) ∧
        m.Mirrored) where
  rewind a event result current m h :=
    ⟨(StateMachine.persists hb hp).rewind a event result current m.sm h.1, h.2⟩
  step index view event result after m hm hc hs h := by
    have ⟨h, hmirrored⟩ := h
    have hstep := (StateMachine.persists hb hp).step index view event result after m.sm hm hc hs h
    have hs : batch.Step view event _ result after := hs
    have hc : result.status = .created := by simpa [TransfersBatch.orchestrator] using hc
    have ⟨_, _, hn, _⟩ := hs.created hc
    have hnone : m.sm.transfers.lookup event.id = none :=
      (h.1.transfers _ (hp.id event hm)).symm.trans hn
    refine (persistTransferEvent_simulates.and (hmirrored.persistTransferEvent hnone)).weaken ?_
    exact fun m' ⟨he, hm'⟩ => ⟨hstep.post he, hm'⟩

theorem createAccounts {events : List Account} (h : m.Mirrored) (hsound : Sound m.sm)
    (ht : timestamp ≤ TimestampRange.timestampMax) :
    Meets (fun _ => True) (fun r => r.2.Mirrored) (m.createAccounts events timestamp) := by
  unfold Mounted.createAccounts StateMachine.createAccountsPrefetch
  simp only [Meets.bind_eq, Meets.pure_eq, partial_assert]
  intro _
  refine hsound.fill_accounts.weaken fun objects hf => ?_
  unfold executeCreateAccounts
  let batch := StateMachine.accountsBatch events timestamp m.sm
  let state : AccountsState := ⟨objects, m.sm.accountsTimestampMax⟩
  let law := @AccountsBatch.law _ batch ht
  refine Meets.weaken ?_ (law.orchestrate_meets (R := fun _ _ => True)
    (show law.Idle state from hf.idle) (fun _ h => h) (fun _ _ _ _ _ _ => trivial))
  intro loop ⟨_, hs⟩
  have hfollows : FollowsAccounts (prefetchCreateAccounts events).accountIds
      (AccountsState.view ⟨objects, m.sm.accountsTimestampMax⟩) m.sm.ledger :=
    ⟨hsound.balanced, hsound.valid, hf.within, hf.agree⟩
  have hp : ∀ event ∈ events, event.id ∈ (prefetchCreateAccounts events).accountIds :=
    fun event he => mem_foldl_enqueue.mpr (.inr (List.mem_map_of_mem he))
  let m₀ : Mounted := { m with sm.accountsObjects := loop.state.accountsObjects }
  have hmirrored : m₀.Mirrored := h.of_ledger rfl rfl
  have hstart : (FollowsAccounts _ _ m₀.sm.ledger ∧ Keeps m₀.sm m₀.sm ∧
      m₀.sm.ledger.transfer = m₀.sm.ledger.transfer ∧
      m₀.sm.ledger.pending = m₀.sm.ledger.pending) ∧ m₀.Mirrored :=
    ⟨⟨hfollows, .refl, rfl, rfl⟩, hmirrored⟩
  exact (hs.persist (persistsAccounts ht hp) (fun _ he => he) hstart).weaken fun _ h' => h'.2

theorem createTransfers {events : List Transfer} (h : m.Mirrored) (hsound : Sound m.sm)
    (ht : timestamp ≤ TimestampRange.timestampMax) :
    Meets (fun _ => True) (fun r => r.2.Mirrored) (m.createTransfers events timestamp) := by
  unfold Mounted.createTransfers
  simp only [Meets.bind_eq, Meets.pure_eq, partial_assert]
  intro _
  have htimestamps : Meets (fun _ => True)
      (fun r => r.2.accountsByTimestamp = m.sm.accountsByTimestamp) (m.sm.createTransfersPrefetch
        (prefetchCreateTransfers events fun id => m.sm.transfers.lookup id)) := by
    unfold StateMachine.createTransfersPrefetch
    simp only [Meets.bind_eq]
    exact Meets.trivial.weaken fun _ _ => Meets.trivial.weaken fun _ _ =>
      Meets.trivial.weaken fun _ _ => rfl
  refine (hsound.createTransfersPrefetch.and htimestamps).weaken
    fun ⟨accountTimestamps, sm₁⟩ ⟨hp, ha⟩ => ?_
  have hfollows := hp.follows hsound
  have hpre := hp.prefetch_eq events
  have hkeys := hp.prefetches events
  unfold executeCreateTransfers
  dsimp only
  rw [← hpre] at hfollows ⊢
  let batch := StateMachine.transfersBatch events timestamp accountTimestamps sm₁
  let law := @TransfersBatch.law _ batch ht
  have hidle : law.Idle (StateMachine.transfersState sm₁) :=
    ⟨hp.accounts.idle, hp.transfers.idle, hp.pendings.idle⟩
  refine Meets.weaken ?_ (law.orchestrate_meets (R := fun _ _ => True) hidle (fun _ h => h)
    fun _ _ _ _ _ _ => trivial)
  intro loop ⟨_, hs⟩
  let m₀ : Mounted := { m with sm := StateMachine.orphan { sm₁ with
    accountsObjects := loop.state.accountsObjects
    transfersObjects := loop.state.transfersObjects
    transfersPendingObjects := loop.state.transfersPendingObjects } (events.zip loop.results) }
  have hledger : m₀.sm.ledger = m.sm.ledger := hp.ledger
  have hmirrored : m₀.Mirrored := h.of_ledger hledger ha
  have hstart : (Follows _ (m.sm.Tracks events) (StateMachine.transfersState sm₁).view
      m₀.sm.ledger ∧ Keeps m₀.sm m₀.sm ∧
      ∀ id, id ∉ (prefetchCreateTransfers events fun id => sm₁.transfers.lookup id).transferIds →
        m₀.sm.ledger.transfer id = m₀.sm.ledger.transfer id) ∧ m₀.Mirrored :=
    ⟨⟨hledger ▸ hfollows, .refl, fun _ _ => rfl⟩, hmirrored⟩
  exact (hs.persist (persists ht hkeys) (fun _ he => he) hstart).weaken fun _ h' => h'.2

end Batches

theorem new : (⟨.default, .new⟩ : Mounted).Mirrored where
  accounts := .new
  transfers := by
    refine TransferGroove.Mirrors.new.congr fun key => ?_
    simp [Expires, StateMachine.default]
  pendings := IndexTree.Mirrors.new.congr fun _ => by
    simp [Indexed, StateMachine.default]
  accountsByTimestamp := nofun
  transfersByTimestamp := nofun
  rows := nofun

end Mirrored

variable [Hasher] {m' : Mounted} {call : StateMachine.Call}

theorem Mirrored.step (h : m.Mirrored) (hs : StateMachine.Sound m.sm) (ht : Timely m call)
    (hstep : machine.step m call = .ok m') : m'.Mirrored := by
  have ht : TimestampRange.valid call.timestamp := ht
  cases call with
  | createAccounts events timestamp =>
    have ⟨r, hr, he⟩ := bind_eq_ok.mp hstep
    cases he
    exact (h.createAccounts hs ht.2).post hr
  | createTransfers events timestamp =>
    have ⟨r, hr, he⟩ := bind_eq_ok.mp hstep
    cases he
    exact (h.createTransfers hs ht.2).post hr
  | expirePendingTransfers timestamp => exact h.expirePendingTransfers.post hstep

theorem mirrored_of_reachable (h : machine.Reachable Timely m) : m.Mirrored := by
  have hm : StateMachine.machine.Reachable StateMachine.Timely m.sm ∧ m.Mirrored := by
    refine h.invariant (p := fun m => StateMachine.machine.Reachable _ m.sm ∧ m.Mirrored)
      (fun m hi => ⟨reachable_sm (.init hi), ?_⟩) fun m call m' ⟨hr, h⟩ ht hstep => ?_
    case refine_1 =>
      have hi : m = ⟨.default, .new⟩ := hi
      exact hi ▸ .new
    case refine_2 =>
      exact ⟨hr.step ht (step_simulates.post hstep),
        h.step (StateMachine.sound_of_reachable hr) ht hstep⟩
  exact hm.2

-- Each index takes turns with puts and removes of a key, and what is put in it is what the objects
-- that are committed have; what is put in that of the expiries is what has yet to expire.
theorem indexes_mirror (h : machine.Reachable Timely m) :
    (m.forest.accounts.Mirrors fun id => m.sm.accounts.lookup id) ∧
      m.forest.transfers.Mirrors (fun id => m.sm.transfers.lookup id)
        (Expires m.sm.transfers m.sm.transfersPending) ∧
      m.forest.transfersPending.Mirrors fun timestamp => m.sm.transfersPending.lookup timestamp :=
  have h := mirrored_of_reachable h
  ⟨h.accounts, h.transfers, h.pendings⟩

end Mounted

namespace Mounted.Runs

open Accounting.Runs Accounting.StateMachine.Runs

attribute [local instance] identityHasher

instance {m : Mounted} {call : StateMachine.Call} : Decidable (Timely m call) :=
  inferInstanceAs (Decidable (StateMachine.Timely m.sm call))

-- Two accounts, two pending transfers that have timeouts, and one that posts the first of them.
def transfers : StateMachine.Call :=
  .createTransfers [{ transfer 1 1 2 2 with timeout := 1 }, { transfer 2 1 2 2 with timeout := 2 }]
    200

def posts : StateMachine.Call :=
  .createTransfers [{ transfer 3 0 0 4 with pendingId := 1, ledger := 0, code := 0 }] 300

-- What is posted and what has expired is not in the index of the expiries any more.
theorem indexes_mirror_of_transfers : ∃ m, machine.Reachable Timely m ∧
    m.forest.transfers.expiresAt.writes.map Prod.fst = [.put, .put, .remove, .remove] ∧
    (m.forest.accounts.Mirrors fun id => m.sm.accounts.lookup id) ∧
    m.forest.transfers.Mirrors (fun id => m.sm.transfers.lookup id)
      (Expires m.sm.transfers m.sm.transfersPending) ∧
    m.forest.transfersPending.Mirrors fun timestamp => m.sm.transfersPending.lookup timestamp := by
  have ⟨m, hr, hw⟩ := (Machine.Reachable.init rfl).leads (show machine.Leads Timely
    (fun m => m.forest.transfers.expiresAt.writes.map Prod.fst = [.put, .put, .remove, .remove])
    [accounts, transfers, posts, .expirePendingTransfers 3000000000] ⟨.default, .new⟩
    by decide +kernel)
  exact ⟨m, hr, hw, indexes_mirror hr⟩

end Mounted.Runs

end TigerBeetle.Accounting
