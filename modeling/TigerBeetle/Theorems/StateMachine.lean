import TigerBeetle.Theorems.Persist

namespace TigerBeetle.Accounting

open Fallible HashMap

namespace StateMachine

variable {sm sm' sm'' : StateMachine}

def ledger (sm : StateMachine) : Ledger where
  accounts := sm.accounts
  transfers := sm.transfers
  timestamps := sm.transfersByTimestamp
  pendings := sm.transfersPending
  keyMax := sm.transfersTimestampMax

-- What persisting an event leaves alone.
structure Keeps (sm sm' : StateMachine) : Prop where
  accountsObjects : sm'.accountsObjects = sm.accountsObjects
  transfersObjects : sm'.transfersObjects = sm.transfersObjects
  pendingObjects : sm'.transfersPendingObjects = sm.transfersPendingObjects
  orphaned : sm'.transfersOrphaned = sm.transfersOrphaned

theorem Keeps.refl : Keeps sm sm :=
  ⟨rfl, rfl, rfl, rfl⟩

theorem Keeps.trans (h : Keeps sm sm') (h' : Keeps sm' sm'') : Keeps sm sm'' where
  accountsObjects := h'.accountsObjects.trans h.accountsObjects
  transfersObjects := h'.transfersObjects.trans h.transfersObjects
  pendingObjects := h'.pendingObjects.trans h.pendingObjects
  orphaned := h'.orphaned.trans h.orphaned

variable {account : Account}

theorem insertAccount_meets : Meets (fun _ => True)
      (fun sm' => sm'.ledger = sm.ledger.insertAccount account ∧ Keeps sm sm')
      (sm.insertAccount account.id account) := by
  unfold insertAccount
  simp only [Meets.bind_eq, Meets.pure_eq, partial_assert]
  exact fun _ _ => ⟨rfl, rfl, rfl, rfl, rfl⟩

theorem updateAccount_meets : Meets (fun _ => True)
      (fun sm' => sm'.ledger =
          { sm.ledger with accounts := sm.ledger.accounts.insert account.id account } ∧ Keeps sm sm')
      (sm.updateAccount account) := by
  unfold updateAccount
  simp only [Meets.bind_eq, Meets.pure_eq, partial_assert]
  exact expect_meets.weaken fun _ _ _ => ⟨rfl, rfl, rfl, rfl, rfl⟩

theorem insertTransfer_meets {record : Transfer} :
    Meets (fun _ => True)
      (fun sm' => (sm.ledger.timestamps.lookup record.timestamp).all (· = record.id) = true ∧
        sm'.ledger = { sm.ledger with
          transfers := sm.ledger.transfers.insert record.id record
          timestamps := sm.ledger.timestamps.insert record.timestamp record.id
          keyMax := max sm.ledger.keyMax record.timestamp } ∧ Keeps sm sm')
      (sm.insertTransfer record.id record) := by
  unfold insertTransfer
  simp only [Meets.bind_eq, Meets.pure_eq, partial_assert]
  exact fun _ h => ⟨h, rfl, rfl, rfl, rfl, rfl⟩

theorem insertTransferPending_meets {pending : TransferPending} :
    Meets (fun _ => True)
      (fun sm' => sm'.ledger = { sm.ledger with
          pendings := sm.ledger.pendings.insert pending.timestamp pending } ∧ Keeps sm sm')
      (sm.insertTransferPending pending) := by
  unfold insertTransferPending
  simp only [Meets.bind_eq, Meets.pure_eq, partial_assert]
  exact fun _ => ⟨rfl, rfl, rfl, rfl, rfl⟩

variable {timestamp : Nat}

theorem updateTransferPendingStatus_meets {status : TransferPendingStatus} :
    Meets (fun _ => True)
      (fun sm' =>
        (sm.ledger.pendings.lookup timestamp).map TransferPending.status = some .pending ∧
        sm'.ledger = { sm.ledger with
          pendings := sm.ledger.pendings.insert timestamp ⟨timestamp, status⟩ } ∧ Keeps sm sm')
      (sm.updateTransferPendingStatus timestamp status) := by
  unfold updateTransferPendingStatus
  simp only [Meets.bind_eq, Meets.pure_eq, partial_assert]
  refine expect_meets.weaken fun row hrow hs => ⟨?_, rfl, rfl, rfl, rfl, rfl⟩
  show (sm.transfersPending.lookup timestamp).map _ = _
  rw [hrow, Option.map_some, hs]

theorem pushAccountEvent_ledger : (sm.pushAccountEvent account timestamp).ledger = sm.ledger ∧
      Keeps sm (sm.pushAccountEvent account timestamp) := by
  unfold pushAccountEvent
  split <;> exact ⟨rfl, rfl, rfl, rfl, rfl⟩

variable {amount : U128}

theorem accountEvent_meets {dr cr : Account} {flags : TransferFlags}
    {status : TransferPendingStatus} {pending : Option Transfer} {requested : U128} :
    Meets (fun _ => True)
      (fun sm' => dr.ledger = cr.ledger ∧ sm'.ledger = sm.ledger ∧ Keeps sm sm')
      (sm.accountEvent timestamp dr cr flags status pending requested amount) := by
  have push : ∀ sm' : StateMachine, sm'.ledger = sm.ledger → Keeps sm sm' →
      ((sm'.pushAccountEvent dr timestamp).pushAccountEvent cr timestamp).ledger = sm.ledger ∧
        Keeps sm ((sm'.pushAccountEvent dr timestamp).pushAccountEvent cr timestamp) := by
    intro sm' h₁ h₂
    have ⟨h₃, h₄⟩ := @pushAccountEvent_ledger sm' dr timestamp
    have ⟨h₅, h₆⟩ := @pushAccountEvent_ledger (sm'.pushAccountEvent dr timestamp) cr timestamp
    exact ⟨h₅.trans (h₃.trans h₁), (h₂.trans h₄).trans h₆⟩
  unfold accountEvent
  simp only [Meets.bind_eq, partial_assert]
  intro _
  cases status
  all_goals
    simp only [Meets.bind_eq, Meets.pure_eq, partial_assert]
    exact fun _ hl _ => ⟨hl, push _ rfl ⟨rfl, rfl, rfl, rfl⟩⟩

theorem commitTransfer_meets {record : Transfer} {requested : U128} :
    Meets (fun _ => True)
      (fun sm' => ∃ dr cr, sm.ledger.accounts.lookup record.debitAccountId = some dr ∧
        sm.ledger.accounts.lookup record.creditAccountId = some cr ∧
        (commitTransferAccounts record amount dr cr).1.ledger =
          (commitTransferAccounts record amount dr cr).2.ledger ∧
        sm'.ledger = { sm.ledger with
          accounts := sm.ledger.putAccounts (commitTransferAccounts record amount dr cr).1
            (commitTransferAccounts record amount dr cr).2 } ∧ Keeps sm sm')
      (sm.commitTransfer record amount requested) := by
  unfold commitTransfer
  simp only [Meets.bind_eq]
  refine expect_meets.weaken fun dr hd => expect_meets.weaken fun cr hc => ?_
  refine updateAccount_meets.weaken fun sm₁ ⟨h₁, k₁⟩ => ?_
  refine updateAccount_meets.weaken fun sm₂ ⟨h₂, k₂⟩ => ?_
  refine accountEvent_meets.weaken fun sm₃ ⟨hl, h₃, k₃⟩ => ?_
  have hledger : sm₃.ledger = { sm.ledger with
      accounts := sm.ledger.putAccounts (commitTransferAccounts record amount dr cr).1
        (commitTransferAccounts record amount dr cr).2 } := by
    rw [h₃, h₂, h₁]
    rfl
  have hk := (k₁.trans k₂).trans k₃
  simp only [Meets.ite_iff, Meets.bind_eq, Meets.pure_eq, partial_assert]
  exact ⟨fun _ _ _ => ⟨dr, cr, hd, hc, hl, hledger, hk.trans ⟨rfl, rfl, rfl, rfl⟩⟩,
    fun _ => ⟨dr, cr, hd, hc, hl, hledger, hk⟩⟩

-- A transfer that is created moves from the batch to the ledger.
theorem persistTransfer_of_plain {event : Transfer}
    (hplain : event.flags.postOrVoid = false) :
    Meets (fun _ => True)
      (fun sm' => ∃ dr cr dr' cr', sm.ledger.accounts.lookup event.debitAccountId = some dr ∧
        sm.ledger.accounts.lookup event.creditAccountId = some cr ∧
        (dr', cr') = commitTransferAccounts event amount dr cr ∧ dr'.ledger = cr'.ledger ∧
        (sm.ledger.timestamps.lookup event.timestamp).all (· = event.id) = true ∧
        sm'.ledger = sm.ledger.create { event with amount } dr' cr' ∧ Keeps sm sm')
      (sm.persistTransfer event amount) := by
  unfold persistTransfer
  simp only [hplain, Bool.false_eq_true, ↓reduceIte, Meets.ite_iff, Meets.bind_eq]
  refine ⟨fun hp => ?_, fun hp => ?_⟩
  · refine insertTransfer_meets.weaken fun sm₁ ⟨hfresh, h₁, k₁⟩ => ?_
    refine insertTransferPending_meets.weaken fun sm₂ ⟨h₂, k₂⟩ => ?_
    refine commitTransfer_meets.weaken fun sm₃ ⟨dr, cr, hd, hc, hl, h₃, k₃⟩ => ?_
    rw [h₂, h₁] at hd hc
    refine ⟨dr, cr, (commitTransferAccounts event amount dr cr).1,
      (commitTransferAccounts event amount dr cr).2, hd, hc, rfl, hl, hfresh, ?_, (k₁.trans k₂).trans k₃⟩
    rw [h₃, h₂, h₁]
    unfold Ledger.create
    rw [if_pos (show ({ event with amount } : Transfer).flags.pending = true from hp)]
    rfl
  · refine insertTransfer_meets.weaken fun sm₁ ⟨hfresh, h₁, k₁⟩ => ?_
    refine commitTransfer_meets.weaken fun sm₃ ⟨dr, cr, hd, hc, hl, h₃, k₃⟩ => ?_
    rw [h₁] at hd hc
    refine ⟨dr, cr, (commitTransferAccounts event amount dr cr).1,
      (commitTransferAccounts event amount dr cr).2, hd, hc, rfl, hl, hfresh, ?_, k₁.trans k₃⟩
    rw [h₃, h₁]
    unfold Ledger.create
    rw [if_neg (show ({ event with amount } : Transfer).flags.pending ≠ true from hp)]
    rfl

theorem updatePulseNextTimestamp_meets :
    Meets (fun _ => True) (fun sm' => sm'.ledger = sm.ledger ∧ Keeps sm sm')
      sm.updatePulseNextTimestamp := by
  unfold updatePulseNextTimestamp
  simp only [Meets.bind_eq, Meets.pure_eq]
  exact Meets.trivial.weaken fun _ _ => ⟨rfl, rfl, rfl, rfl, rfl⟩

def resolvedStatus (event : Transfer) : TransferPendingStatus :=
  if event.flags.postPendingTransfer then .posted else .voided

-- A transfer that posts or voids is persisted as such.
theorem persistTransfer_resolving {t : Transfer} {time : Nat} {amount : U128}
    (hplain : t.flags.pending = false) (hresolves : t.flags.postOrVoid = true) :
    sm.persistTransfer { t with timestamp := time } amount =
      sm.persistPostVoid { t with timestamp := time } amount := by
  unfold persistTransfer
  rw [if_neg (by simp [hplain]), if_pos hresolves]

theorem persistPostVoid_meets {event : Transfer} :
    Meets (fun _ => True)
      (fun sm' => ∃ p dr cr dr' cr', sm.ledger.transfers.lookup event.pendingId = some p ∧
        (sm.ledger.pendings.lookup p.timestamp).map TransferPending.status = some .pending ∧
        sm.ledger.accounts.lookup p.debitAccountId = some dr ∧
        sm.ledger.accounts.lookup p.creditAccountId = some cr ∧
        commitPostVoidAccounts event p amount dr cr = .ok (dr', cr') ∧ dr'.ledger = cr'.ledger ∧
        (sm.ledger.timestamps.lookup event.timestamp).all (· = event.id) = true ∧
        sm'.ledger = sm.ledger.resolve (foldPostVoidTransfer event p amount event.timestamp) p
          (resolvedStatus event) dr' cr' ∧ Keeps sm sm')
      (sm.persistPostVoid event amount) := by
  unfold persistPostVoid
  simp only [Meets.bind_eq]
  refine expect_meets.weaken fun p hp => ?_
  refine insertTransfer_meets.weaken fun sm₁ ⟨hfresh, h₁, k₁⟩ => ?_
  refine updateTransferPendingStatus_meets.weaken fun sm₂ ⟨hrow, h₂, k₂⟩ => ?_
  refine expect_meets.weaken fun dr hd => expect_meets.weaken fun cr hc => ?_
  refine Meets.trivial.returned.weaken fun ⟨dr', cr'⟩ ⟨hcommit, _⟩ => ?_
  refine updateAccount_meets.weaken fun sm₃ ⟨h₃, k₃⟩ => ?_
  refine updateAccount_meets.weaken fun sm₄ ⟨h₄, k₄⟩ => ?_
  refine accountEvent_meets.weaken fun sm₅ ⟨hl, h₅, k₅⟩ => ?_
  refine updatePulseNextTimestamp_meets.weaken fun sm₆ ⟨h₆, k₆⟩ => ?_
  have hd : sm₂.ledger.accounts.lookup p.debitAccountId = some dr := hd
  have hc : sm₂.ledger.accounts.lookup p.creditAccountId = some cr := hc
  rw [h₂, h₁] at hd hc
  rw [h₁] at hrow
  refine ⟨p, dr, cr, dr', cr', hp, hrow, hd, hc, hcommit, hl, hfresh, ?_,
    ((((k₁.trans k₂).trans k₃).trans k₄).trans k₅).trans k₆⟩
  rw [h₆, h₅, h₄, h₃, h₂, h₁]
  rfl

variable {flags : AccountFlags}

theorem closed_withoutClosed : flags.withoutClosed.closed = false := by
  unfold AccountFlags.withoutClosed AccountFlags.closed
  simp

-- The flags of an account that is reopened, if they are what they were.
theorem flags_eq {c : Bool} (hc : c = true → flags.closed = true)
    (h : (if c then flags.withoutClosed else flags).closed = flags.closed) :
    (if c then flags.withoutClosed else flags) = flags := by
  cases c with
  | false => rfl
  | true  => simp [closed_withoutClosed, hc rfl] at h

theorem sameLimits_ite {c : Bool} :
    flags.SameLimits (if c then flags.withoutClosed else flags) := by
  cases c
  · exact ⟨rfl, rfl⟩
  · exact AccountFlags.sameLimits_withoutClosed

theorem expireDebit_eq {p : Transfer} {dr : Account}
    (hc : p.flags.closingDebit = true → dr.flags.closed = true)
    (h : ¬(0 < p.amount ∨ (expireDebit p dr).flags.closed ≠ dr.flags.closed)) :
    expireDebit p dr = dr := by
  have ⟨ha, hf⟩ := not_or.mp h
  have hzero : p.amount = 0 := by simpa using ha
  have hflags := flags_eq hc (not_not.mp hf)
  unfold expireDebit
  rw [hflags, hzero]
  simp

theorem expireCredit_eq {p : Transfer} {cr : Account}
    (hc : p.flags.closingCredit = true → cr.flags.closed = true)
    (h : ¬(0 < p.amount ∨ (expireCredit p cr).flags.closed ≠ cr.flags.closed)) :
    expireCredit p cr = cr := by
  have ⟨ha, hf⟩ := not_or.mp h
  have hzero : p.amount = 0 := by simpa using ha
  have hflags := flags_eq hc (not_not.mp hf)
  unfold expireCredit
  rw [hflags, hzero]
  simp

theorem updateAccountIf_meets {updated : Bool}
    (h : updated = false → sm.ledger.accounts.lookup account.id = some account) :
    Meets (fun _ => True)
      (fun sm' => ∃ accounts, sm'.ledger = { sm.ledger with accounts } ∧
        (∀ id, accounts.lookup id = (sm.ledger.accounts.insert account.id account).lookup id) ∧
        Keeps sm sm')
      (sm.updateAccountIf updated account) := by
  unfold updateAccountIf
  cases updated with
  | true  => exact updateAccount_meets.weaken fun _ ⟨h, k⟩ => ⟨_, h, fun _ => rfl, k⟩
  | false =>
    refine ⟨sm.ledger.accounts, rfl, fun id => ?_, rfl, rfl, rfl, rfl⟩
    rw [lookup_insert_eq]
    split
    · next hi => rw [hi, h rfl]
    · rfl

theorem expire_meets {id : U128} (hb : sm.ledger.Balanced)
    (hpending : ∀ p, sm.ledger.transfers.lookup id = some p → p.flags.pending = true) :
    Meets (fun _ => True)
      (fun sm' => sm'.ledger.Balanced ∧ Keeps sm sm' ∧ ∃ p accounts,
        sm.ledger.transfers.lookup id = some p ∧
        (sm.ledger.pendings.lookup p.timestamp).map TransferPending.status = some .pending ∧
        (∀ id, (accounts.lookup id).map Account.timestamp =
          (sm.ledger.accounts.lookup id).map Account.timestamp) ∧
        sm'.ledger = sm.ledger.expire p accounts ∧
        ∃ dr cr, sm.ledger.accounts.lookup p.debitAccountId = some dr ∧
          sm.ledger.accounts.lookup p.creditAccountId = some cr ∧
          ∀ id, accounts.lookup id =
            (sm.ledger.putAccounts (expireDebit p dr) (expireCredit p cr)).lookup id)
      (sm.expire timestamp id) := by
  unfold expire
  simp only [Meets.bind_eq, partial_assert]
  intro _
  refine expect_meets.weaken fun p hp _ => ?_
  refine expect_meets.weaken fun dr hd => expect_meets.weaken fun cr hc hda hca hdf hcf => ?_
  have hd : sm.ledger.accounts.lookup p.debitAccountId = some dr := hd
  have hc : sm.ledger.accounts.lookup p.creditAccountId = some cr := hc
  have hp : sm.ledger.transfers.lookup id = some p := hp
  have hdid := hb.accountId _ _ hd
  have hcid := hb.accountId _ _ hc
  have hdistinct := hb.distinct _ _ hp
  refine Meets.weaken ?_ (updateAccountIf_meets fun hn => ?_)
  case refine_2 =>
    rw [expireDebit_eq hdf (decide_eq_false_iff_not.mp hn), hdid]
    exact hd
  intro sm₁ ⟨accounts₁, h₁, hl₁, k₁⟩
  refine Meets.weaken ?_ (updateAccountIf_meets fun hn => ?_)
  case refine_2 =>
    have hne : cr.id ≠ (expireDebit p dr).id := by
      show cr.id ≠ dr.id
      rw [hdid, hcid]
      exact hdistinct
    rw [expireCredit_eq hcf (decide_eq_false_iff_not.mp hn), h₁, hl₁, lookup_insert_eq,
      if_neg hne, hcid]
    exact hc
  intro sm₂ ⟨accounts₂, h₂, hl₂, k₂⟩
  refine updateTransferPendingStatus_meets.weaken fun sm₃ ⟨hrow, h₃, k₃⟩ => ?_
  refine accountEvent_meets.weaken fun sm₄ ⟨hl, h₄, k₄⟩ => ?_
  rw [h₂, h₁] at hrow
  have hentry : Entry 0 p.amount.toNat 0 dr cr (expireDebit p dr) (expireCredit p cr) :=
    (Covers.release ⟨hda, hca⟩ (hb.room _ _ hd) (hb.room _ _ hc)).flags sameLimits_ite
      sameLimits_ite
  have hledger : sm₄.ledger = sm.ledger.expire p accounts₂ := by
    rw [h₄, h₃, h₂, h₁]
    rfl
  have haccounts : ∀ id, accounts₂.lookup id =
      (sm.ledger.putAccounts (expireDebit p dr) (expireCredit p cr)).lookup id := by
    intro id
    rw [hl₂, h₁]
    unfold Ledger.putAccounts
    rw [lookup_insert_eq, lookup_insert_eq, hl₁]
    rfl
  have hposting : sm.ledger.Posting p dr cr (expireDebit p dr) (expireCredit p cr) 0
      p.amount.toNat 0 := ⟨hd, hc, hl, hentry⟩
  have k := ((k₁.trans k₂).trans k₃).trans k₄
  refine ⟨hledger ▸ hb.expire hp (hpending p hp) hrow hposting haccounts, ⟨k.1, k.2, k.3, k.4⟩, p,
    accounts₂, hp, hrow, ?_, hledger, dr, cr, hd, hc, haccounts⟩
  intro id
  rw [haccounts, hposting.lookup_eq hb]
  split
  · next hi =>
    rw [hi, hc]
    rfl
  · split
    · next hi =>
      rw [hi, hd]
      rfl
    · rfl

end StateMachine

end TigerBeetle.Accounting
