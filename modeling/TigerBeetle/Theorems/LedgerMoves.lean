import TigerBeetle.Theorems.Events

namespace TigerBeetle.Accounting

open Fallible HashMap Relation

theorem AccountFlags.withoutClosed_withClosed {flags : AccountFlags} :
    flags.withClosed.withoutClosed = flags.withoutClosed := by
  unfold withClosed withoutClosed
  congr 1
  ext i hi
  simp only [BitVec.getElem_and, BitVec.getElem_or, BitVec.getElem_not]
  cases flags.raw[i] <;> simp

theorem AccountFlags.withoutClosed_withoutClosed {flags : AccountFlags} :
    flags.withoutClosed.withoutClosed = flags.withoutClosed := by
  unfold withoutClosed
  congr 1
  rw [BitVec.and_assoc, BitVec.and_self]

-- What of an account is there for good: all but its balances and whether it is closed.
def Account.lasting (account : Account) : Account :=
  { account with
    debitsPending := 0
    debitsPosted := 0
    creditsPending := 0
    creditsPosted := 0
    flags := account.flags.withoutClosed }

theorem commitTransferAccounts_lasting {t : Transfer} {amount : U128} {dr cr : Account} :
    (commitTransferAccounts t amount dr cr).1.lasting = dr.lasting ∧
      (commitTransferAccounts t amount dr cr).2.lasting = cr.lasting := by
  unfold commitTransferAccounts
  constructor
  all_goals
    dsimp only
    split <;> split <;> simp [Account.lasting, AccountFlags.withoutClosed_withClosed]

-- What posting or voiding a pending transfer does to its accounts.
theorem commitPostVoidAccounts_entry {t p : Transfer} {amount : U128} {dr cr : Account}
    (h : Covers p dr cr) (hd : Room dr) (hc : Room cr) :
    Meets (fun _ => True)
      (fun r => Entry 0 p.amount.toNat (if t.flags.postPendingTransfer then amount.toNat else 0) dr cr
          r.1 r.2 ∧ r.1.lasting = dr.lasting ∧ r.2.lasting = cr.lasting)
      (commitPostVoidAccounts t p amount dr cr) := by
  unfold commitPostVoidAccounts
  simp only [Meets.bind_eq, Meets.ite_iff, Meets.pure_eq, partial_assert]
  refine ⟨fun hpost _ _ ha => ⟨?_, rfl, rfl⟩, fun hpost _ _ _ => ⟨?_, ?_, ?_⟩⟩
  · rw [if_pos hpost]
    exact h.post hd hc ha
  · rw [if_neg hpost]
    exact (h.release hd hc).flags_ite AccountFlags.sameLimits_withoutClosed
      AccountFlags.sameLimits_withoutClosed
  all_goals split <;> simp [Account.lasting, AccountFlags.withoutClosed_withoutClosed]

theorem expire_lasting {p : Transfer} {dr cr : Account} :
    (StateMachine.expireDebit p dr).lasting = dr.lasting ∧
      (StateMachine.expireCredit p cr).lasting = cr.lasting := by
  unfold StateMachine.expireDebit StateMachine.expireCredit Account.lasting
  constructor <;> (dsimp only; split <;> simp [AccountFlags.withoutClosed_withoutClosed])

namespace Ledger

variable {ledger ledger' : Ledger} {record p t : Transfer} {account dr cr dr' cr' : Account}

-- A posting that leaves alone what of the accounts is there for good.
structure Books (ledger : Ledger) (t : Transfer) (dr cr dr' cr' : Account)
    (taken released posted : Nat) : Prop
    extends ledger.Posting t dr cr dr' cr' taken released posted where
  debitLasting : dr'.lasting = dr.lasting
  creditLasting : cr'.lasting = cr.lasting

-- There is no transfer of the id yet, nor of the timestamp.
structure Absent (ledger : Ledger) (record : Transfer) : Prop where
  id : ledger.transfers.lookup record.id = none
  timestamp : (ledger.timestamps.lookup record.timestamp).all (· = record.id) = true

-- A transfer that is committed as pending, and has not been resolved.
structure Unresolved (ledger : Ledger) (key : U128) (p : Transfer) : Prop where
  found : ledger.transfers.lookup key = some p
  pending : p.flags.pending = true
  row : (ledger.pendings.lookup p.timestamp).map TransferPending.status = some .pending

structure Creates (ledger : Ledger) (record : Transfer) (dr cr dr' cr' : Account) : Prop where
  absent : ledger.Absent record
  plain : record.flags.postOrVoid = false
  distinct : record.creditAccountId ≠ record.debitAccountId
  sameLedger : record.ledger = dr.ledger
  books : ledger.Books record dr cr dr' cr' (if record.flags.pending then record.amount.toNat else 0)
    0 (if record.flags.pending then 0 else record.amount.toNat)

-- The record of what posts or voids a pending transfer has got the parties from that one.
structure Resolves (ledger : Ledger) (record p : Transfer) (dr cr dr' cr' : Account) : Prop where
  absent : ledger.Absent record
  plain : record.flags.pending = false
  exclusive : record.flags.voidPendingTransfer = !record.flags.postPendingTransfer
  unresolved : ledger.Unresolved record.pendingId p
  debit : record.debitAccountId = p.debitAccountId
  credit : record.creditAccountId = p.creditAccountId
  sameLedger : record.ledger = p.ledger
  amount : record.amount ≤ p.amount
  books : ledger.Books p dr cr dr' cr' 0 p.amount.toNat
    (if record.flags.postPendingTransfer then record.amount.toNat else 0)

-- The steps of a ledger, whatever the calls they are parts of.
inductive Move (ledger : Ledger) : Ledger → Prop
  | opens {account : Account} :
    ledger.accounts.lookup account.id = none → account.debitsPending = 0 →
    account.debitsPosted = 0 → account.creditsPending = 0 → account.creditsPosted = 0 →
    Move ledger (ledger.insertAccount account)
  | creates {record : Transfer} {dr cr dr' cr' : Account} :
    ledger.Creates record dr cr dr' cr' → Move ledger (ledger.create record dr' cr')
  | resolves {record p : Transfer} {dr cr dr' cr' : Account} :
    ledger.Resolves record p dr cr dr' cr' →
    Move ledger (ledger.resolve record p (StateMachine.resolvedStatus record) dr' cr')
  | expires {key : U128} {p : Transfer} {dr cr dr' cr' : Account} {accounts : HashMap U128 Account} :
    ledger.Unresolved key p → ledger.Books p dr cr dr' cr' 0 p.amount.toNat 0 →
    (∀ id, accounts.lookup id = (ledger.putAccounts dr' cr').lookup id) →
    Move ledger (ledger.expire p accounts)

theorem resolvedStatus_ne : StateMachine.resolvedStatus t ≠ .pending := by
  unfold StateMachine.resolvedStatus
  split <;> simp

theorem Move.balanced (h : ledger.Move ledger') (hb : ledger.Balanced) : ledger'.Balanced := by
  cases h with
  | opens hn hdp hd hcp hc => exact hb.insertAccount hn hdp hd hcp hc
  | creates h =>
    exact hb.create h.absent.id h.absent.timestamp h.books.toPosting h.distinct h.sameLedger
  | resolves h =>
    have hp := h.unresolved
    exact hb.resolve h.absent.id h.absent.timestamp h.plain hp.found hp.pending hp.row
      resolvedStatus_ne h.debit h.credit h.sameLedger h.books.toPosting
  | expires hp h haccounts =>
    exact hb.expire hp.found hp.pending hp.row h.toPosting haccounts

-- What is kept by each move is kept by all.
theorem moves_invariant {P : Ledger → Prop} (h : ReflTransGen Move ledger ledger')
    (hb : ledger.Balanced) (hp : P ledger)
    (hstep : ∀ l l', l.Balanced → P l → l.Move l' → P l') : P ledger' := by
  suffices h' : ledger'.Balanced ∧ P ledger' from h'.2
  induction h with
  | refl         => exact ⟨hb, hp⟩
  | tail _ hm ih => exact ⟨hm.balanced ih.1, hstep _ _ ih.1 ih.2 hm⟩

end Ledger

namespace StateMachine

variable {sm sm' : StateMachine} {timestamp : Nat}

-- A transfer of a batch is persisted by one move.
theorem persistTransferEvent_move {batch : TransfersBatch} {prefetch : TransferPrefetchKeys}
    {resolves : U128 → Prop} {view after : TransfersView} {events : List Transfer}
    {event : Transfer} {result : CreateTransferResult} {t count index : Nat}
    (hm : event ∈ events) (hp : Prefetches prefetch resolves events)
    (hf : Follows prefetch resolves view sm.ledger) (hs : batch.Step view event t result after)
    (hc : result.status = .created) :
    Meets (fun _ => True) (fun sm' => sm.ledger.Move sm'.ledger)
      (persistTransferEvent timestamp count index event result sm) := by
  have ⟨_, _, hn, _, hvalid, hstep⟩ := hs.created hc
  have hn' : sm.ledger.transfers.lookup event.id = none :=
    (hf.transfers _ (hp.id event hm)).symm.trans hn
  refine persistTransferEvent_meets ?_
  obtain ⟨dr, cr, hcreates⟩ | ⟨p, row, dr, cr, dr', cr', hresolves⟩ := hstep
  · have hplain : ({ event with timestamp := result.timestamp } : Transfer).flags.postOrVoid =
        false := hcreates.creatable.plain
    refine (persistTransfer_of_plain hplain).weaken
      fun sm' ⟨dr₂, cr₂, dr', cr', hdl, hcl, hcommit, _, hfresh, hledger, _⟩ => ?_
    have ⟨hd, hcr, _⟩ := hf.creates hp hm hcreates hn hvalid hfresh
    obtain rfl : dr = dr₂ := Option.some.inj (hd.symm.trans hdl)
    obtain rfl : cr = cr₂ := Option.some.inj (hcr.symm.trans hcl)
    obtain ⟨rfl, rfl⟩ := Prod.mk.inj hcommit
    have hentry := hcreates.creatable.fits.entry (hf.balanced.room _ _ hd)
      (hf.balanced.room _ _ hcr)
    rw [← hcreates.amountEq] at hentry
    have hlasting := @commitTransferAccounts_lasting event result.amountActual dr cr
    rw [hledger]
    exact .creates {
      absent := ⟨hn', hfresh⟩
      plain := hplain
      distinct := hcreates.creatable.distinct
      sameLedger := hcreates.creatable.ledgerEq
      books := ⟨⟨hd, hcr, hcreates.creatable.ledger, hentry⟩, hlasting.1, hlasting.2⟩ }
  · have hres := hresolves.resolvable
    rw [persistTransfer_resolving hres.plain hres.resolves]
    refine persistPostVoid_meets.weaken fun sm' ⟨p₂, dr₂, cr₂, dr₃, cr₃, hpl, _, hdl, hcl,
      hcommit, hledgers, hfresh, hledger, _⟩ => ?_
    have ⟨hrel, _⟩ := hf.releases hp hm hresolves hn hvalid hfresh
    obtain rfl : p = p₂ := Option.some.inj (hrel.pending.symm.trans hpl)
    obtain rfl : dr = dr₂ := Option.some.inj (hrel.debit.symm.trans hdl)
    obtain rfl : cr = cr₂ := Option.some.inj (hrel.credit.symm.trans hcl)
    have ⟨hentry, hdr, hcr⟩ := (commitPostVoidAccounts_entry hrel.covers
      (hf.balanced.room _ _ hrel.debit) (hf.balanced.room _ _ hrel.credit)).post hcommit
    have hsame := hentry.debitLedger.symm.trans (hledgers.trans hentry.creditLedger)
    have hflags : (event.flags.postPendingTransfer || event.flags.voidPendingTransfer) = true :=
      hres.resolves
    rw [hledger]
    refine .resolves {
      absent := ⟨hn', hfresh⟩
      plain := hres.plain
      exclusive := ?_
      unresolved := ⟨hrel.pending, hres.pending, hrel.status⟩
      debit := rfl
      credit := rfl
      sameLedger := rfl
      amount := hres.amount
      books := ⟨⟨hrel.debit, hrel.credit, hsame, hentry⟩, hdr, hcr⟩ }
    show event.flags.voidPendingTransfer = !event.flags.postPendingTransfer
    cases hpost : event.flags.postPendingTransfer with
    | true  => simp [hres.exclusive hpost]
    | false => simpa [hpost] using hflags

theorem expire_move {id : U128} (hb : sm.ledger.Balanced)
    (hp : ∀ p, sm.ledger.transfers.lookup id = some p → p.flags.pending = true) :
    Meets (fun _ => True) (fun sm' => sm.ledger.Move sm'.ledger) (sm.expire timestamp id) := by
  refine (expire_meets hb hp).weaken
    fun sm' ⟨_, _, p, accounts, hpl, hrow, _, hl, dr, cr, hd, hc, haccounts⟩ => ?_
  have hpending := hp p hpl
  have ⟨hdl, hcl⟩ := hb.parties _ _ hpl
  rw [hd] at hdl
  rw [hc] at hcl
  have hcovers := hb.covers hpl hpending hrow hd hc
  have hentry := (hcovers.release (hb.room _ _ hd) (hb.room _ _ hc)).flags
    (@sameLimits_ite _ p.flags.closingDebit) (@sameLimits_ite _ p.flags.closingCredit)
  have ⟨hdr, hcr⟩ := @expire_lasting p dr cr
  rw [hl]
  exact .expires ⟨hpl, hpending, hrow⟩
    ⟨⟨hd, hc, Option.some.inj (hdl.trans hcl.symm), hentry⟩, hdr, hcr⟩ haccounts

variable [Hasher]

theorem expireAll_moves {count index : Nat} {due : List (Nat × Nat × U128)} (hs : Sound sm)
    (hp : ∀ x ∈ due, ∀ p, sm.ledger.transfer x.2.2 = some p → p.flags.pending = true) :
    Meets (fun _ => True) (fun sm' => ReflTransGen Ledger.Move sm.ledger sm'.ledger)
      (expireAll timestamp count index due sm) := by
  induction due generalizing index sm with
  | nil => exact .refl
  | cons x due ih =>
    simp only [StateMachine.expireAll, Meets.bind_eq]
    refine timestampEvent_meets.weaken fun _ _ => ?_
    have hx := hp x (List.mem_cons_self ..)
    refine ((hs.expire hx).and (expire_move hs.balanced hx)).weaken fun sm₁ hsm₁ => ?_
    obtain ⟨⟨hs₁, ht₁, _⟩, h₁⟩ := hsm₁
    exact (ih hs₁ fun y hy => ht₁ ▸ hp y (List.mem_cons_of_mem _ hy)).weaken fun _ h => h.head h₁

theorem expirePendingTransfers_moves (hs : Sound sm) :
    Meets (fun _ => True) (fun sm' => ReflTransGen Ledger.Move sm.ledger sm'.ledger)
      (sm.expirePendingTransfers timestamp) := by
  unfold expirePendingTransfers
  simp only [Meets.bind_eq, partial_assert]
  intro _ _
  refine expiring_meets.weaken fun due hdue => ?_
  refine (expireAll_moves hs fun x hx => hdue x (List.mem_filter.mp hx).1).weaken fun sm₁ h₁ => ?_
  exact updatePulseNextTimestamp_meets.weaken fun sm₂ ⟨hl, _⟩ => hl ▸ h₁

instance tolerant_all : Fault.Tolerant fun _ => True where
  tolerates _ _ := trivial
  cutOff := trivial

-- Whatever a call commits, it commits by moves of the ledger.
theorem moves_of_sound {call : Call} (hs : Sound sm) (ht : Timely sm call)
    (hstep : machine.step sm call = .ok sm') :
    ReflTransGen Ledger.Move sm.ledger sm'.ledger := by
  have ht : TimestampRange.valid call.timestamp := ht
  let Inv (sm₁ : StateMachine) : Prop := ReflTransGen Ledger.Move sm.ledger sm₁.ledger
  cases call with
  | createAccounts events timestamp =>
    obtain ⟨r, hcall, he⟩ := bind_eq_ok.mp hstep
    cases he
    have hstart : ∀ objects, Inv { sm with accountsObjects := objects } := fun _ => .refl
    refine ((hs.persistedAccounts ht.2 hstart
      fun sm₁ event result index _ _ hc hn hi => ?_).post hcall).1
    refine persistAccountEvent_meets.weaken fun sm₂ ⟨hl, _⟩ => hi.tail ?_
    have ⟨_, hdp, hd, hcp, hcr⟩ := (createAccount_meets.post hc).2 rfl
    rw [hl]
    exact .opens hn hdp hd hcp hcr
  | createTransfers events timestamp =>
    obtain ⟨r, hcall, he⟩ := bind_eq_ok.mp hstep
    cases he
    have hstart : ∀ accounts transfers pendings orphaned,
        Inv (sm.withCaches accounts transfers pendings orphaned) := fun _ _ _ _ => .refl
    refine (hs.createTransfers_tolerates (E := fun _ => True) ht.2 hstart
      (fun _ _ _ => Meets.trivial) ?_).post hcall
    intro batch prefetch resolves view after sm₁ event result index hm _ hkeys hf hs hc hi
    exact (persistTransferEvent_move hm hkeys hf hs hc).weaken fun _ h => hi.tail h
  | expirePendingTransfers timestamp => exact (expirePendingTransfers_moves hs).post hstep

end StateMachine

end TigerBeetle.Accounting
