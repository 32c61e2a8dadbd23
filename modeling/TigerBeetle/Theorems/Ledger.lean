import TigerBeetle.Accounting.StateMachine
import TigerBeetle.Theorems.Totals
import TigerBeetle.Theorems.Transfers

namespace TigerBeetle.Accounting

open Fallible HashMap

-- The committed accounts and transfers.
structure Ledger where
  accounts : HashMap U128 Account
  transfers : HashMap U128 Transfer
  timestamps : HashMap Nat U128
  pendings : HashMap Nat TransferPending
  keyMax : Nat

-- The balances of either side do not overflow together.
structure Room (account : Account) : Prop where
  debits : account.debitsPending.toNat + account.debitsPosted.toNat < 2 ^ 128
  credits : account.creditsPending.toNat + account.creditsPosted.toNat < 2 ^ 128

-- No balance is over the limit that the account is flagged with.
structure Limited (account : Account) : Prop where
  debits : account.flags.debitsMustNotExceedCredits = true →
    account.debitsPending.toNat + account.debitsPosted.toNat ≤ account.creditsPosted.toNat
  credits : account.flags.creditsMustNotExceedDebits = true →
    account.creditsPending.toNat + account.creditsPosted.toNat ≤ account.debitsPosted.toNat

-- An entry: what is added to and taken from the debits of one account, is added to and taken from
-- the credits of another one.
structure Entry (taken released posted : Nat) (dr cr dr' cr' : Account) : Prop where
  debitId : dr'.id = dr.id := by rfl
  creditId : cr'.id = cr.id := by rfl
  debitLedger : dr'.ledger = dr.ledger := by rfl
  creditLedger : cr'.ledger = cr.ledger := by rfl
  debitsPending : dr'.debitsPending.toNat + released = dr.debitsPending.toNat + taken
  creditsPending : cr'.creditsPending.toNat + released = cr.creditsPending.toNat + taken
  debitsPosted : dr'.debitsPosted.toNat = dr.debitsPosted.toNat + posted
  creditsPosted : cr'.creditsPosted.toNat = cr.creditsPosted.toNat + posted
  drCredits : dr'.creditsPending = dr.creditsPending ∧ dr'.creditsPosted = dr.creditsPosted := by
    exact ⟨rfl, rfl⟩
  crDebits : cr'.debitsPending = cr.debitsPending ∧ cr'.debitsPosted = cr.debitsPosted := by
    exact ⟨rfl, rfl⟩
  drRoom : Room dr'
  crRoom : Room cr'
  drLimited : Limited dr → Limited dr'
  crLimited : Limited cr → Limited cr'

theorem toNat_add_of_lt {x y : U128} (h : x.toNat + y.toNat < 2 ^ 128) :
    (x + y).toNat = x.toNat + y.toNat := by
  rw [BitVec.toNat_add, Nat.mod_eq_of_lt h]

-- Flags with the same limits.
structure AccountFlags.SameLimits (f g : AccountFlags) : Prop where
  debits : g.debitsMustNotExceedCredits = f.debitsMustNotExceedCredits
  credits : g.creditsMustNotExceedDebits = f.creditsMustNotExceedDebits

variable {f : AccountFlags}

theorem AccountFlags.sameLimits_withClosed : f.SameLimits f.withClosed where
  debits := by simp [withClosed, debitsMustNotExceedCredits]
  credits := by simp [withClosed, creditsMustNotExceedDebits]

theorem AccountFlags.sameLimits_withoutClosed : f.SameLimits f.withoutClosed where
  debits := by simp [withoutClosed, debitsMustNotExceedCredits]
  credits := by simp [withoutClosed, creditsMustNotExceedDebits]

theorem Limited.flags {account : Account} (h : Limited account)
    (hf : account.flags.SameLimits f) : Limited { account with flags := f } :=
  ⟨fun hd => h.debits (hf.debits ▸ hd), fun hc => h.credits (hf.credits ▸ hc)⟩

variable {dr cr : Account}

-- Whether an account is closed is not a matter of its balances.
theorem Entry.flags {taken released posted : Nat} {dr' cr' : Account} {g : AccountFlags}
    (h : Entry taken released posted dr cr dr' cr') (hf : dr'.flags.SameLimits f)
    (hg : cr'.flags.SameLimits g) :
    Entry taken released posted dr cr { dr' with flags := f } { cr' with flags := g } :=
  { h with
    drRoom := ⟨h.drRoom.1, h.drRoom.2⟩
    crRoom := ⟨h.crRoom.1, h.crRoom.2⟩
    drLimited := fun hd => (h.drLimited hd).flags hf
    crLimited := fun hc => (h.crLimited hc).flags hg }

theorem Entry.flags_ite {taken released posted : Nat} {dr' cr' : Account} {c d : Bool}
    {g : AccountFlags} (h : Entry taken released posted dr cr dr' cr')
    (hf : dr'.flags.SameLimits f) (hg : cr'.flags.SameLimits g) :
    Entry taken released posted dr cr (if c then { dr' with flags := f } else dr')
      (if d then { cr' with flags := g } else cr') := by
  have hd : dr'.flags.SameLimits dr'.flags := ⟨rfl, rfl⟩
  have hc : cr'.flags.SameLimits cr'.flags := ⟨rfl, rfl⟩
  cases c <;> cases d
  · exact h.flags hd hc
  · exact h.flags hd hg
  · exact h.flags hf hc
  · exact h.flags hf hg

variable {amount : U128}

theorem Fits.debits_le {t : Transfer} (h : Fits t dr cr amount)
    (hd : Room dr) (hf : dr.flags.debitsMustNotExceedCredits = true) :
    dr.debitsPending.toNat + dr.debitsPosted.toNat + amount.toNat ≤ dr.creditsPosted.toNat := by
  have hdebits := h.debits
  have hlimit := h.debitsLimit
  have hsum := toNat_add_of_lt hd.debits
  have hall : (dr.debitsPending + dr.debitsPosted + amount).toNat =
      (dr.debitsPending + dr.debitsPosted).toNat + amount.toNat := toNat_add_of_lt (by omega)
  unfold Account.debitsExceedCredits at hlimit
  simp only [hf, Bool.true_and, decide_eq_false_iff_not, gt_iff_lt, BitVec.lt_def] at hlimit
  omega

theorem Fits.credits_le {t : Transfer} (h : Fits t dr cr amount)
    (hc : Room cr) (hf : cr.flags.creditsMustNotExceedDebits = true) :
    cr.creditsPending.toNat + cr.creditsPosted.toNat + amount.toNat ≤ cr.debitsPosted.toNat := by
  have hcredits := h.credits
  have hlimit := h.creditsLimit
  have hsum := toNat_add_of_lt hc.credits
  have hall : (cr.creditsPending + cr.creditsPosted + amount).toNat =
      (cr.creditsPending + cr.creditsPosted).toNat + amount.toNat := toNat_add_of_lt (by omega)
  unfold Account.creditsExceedDebits at hlimit
  simp only [hf, Bool.true_and, decide_eq_false_iff_not, gt_iff_lt, BitVec.lt_def] at hlimit
  omega

theorem Fits.entry {t : Transfer} (h : Fits t dr cr amount)
    (hd : Room dr) (hc : Room cr) :
    Entry (if t.flags.pending then amount.toNat else 0) 0
      (if t.flags.pending then 0 else amount.toNat) dr cr
      (commitTransferAccounts t amount dr cr).1 (commitTransferAccounts t amount dr cr).2 := by
  have hdebits := h.debits
  have hcredits := h.credits
  rw [toNat_add_of_lt hd.debits] at hdebits
  rw [toNat_add_of_lt hc.credits] at hcredits
  unfold commitTransferAccounts
  cases t.flags.pending with
  | true =>
    have h₁ : (dr.debitsPending + amount).toNat = dr.debitsPending.toNat + amount.toNat :=
      toNat_add_of_lt (by omega)
    have h₂ : (cr.creditsPending + amount).toNat = cr.creditsPending.toNat + amount.toNat :=
      toNat_add_of_lt (by omega)
    simp only [↓reduceIte]
    refine Entry.flags_ite {
      debitsPending := h₁, creditsPending := h₂, debitsPosted := rfl, creditsPosted := rfl
      drRoom := ⟨by dsimp only; omega, hd.credits⟩, crRoom := ⟨hc.debits, by dsimp only; omega⟩
      drLimited := fun hl => ⟨fun hf => ?dr, hl.credits⟩
      crLimited := fun hl => ⟨hl.debits, fun hf => ?cr⟩
    } AccountFlags.sameLimits_withClosed AccountFlags.sameLimits_withClosed
    case dr =>
      have := h.debits_le hd hf
      dsimp only
      omega
    case cr =>
      have := h.credits_le hc hf
      dsimp only
      omega
  | false =>
    have h₁ : (dr.debitsPosted + amount).toNat = dr.debitsPosted.toNat + amount.toNat :=
      toNat_add_of_lt (by omega)
    have h₂ : (cr.creditsPosted + amount).toNat = cr.creditsPosted.toNat + amount.toNat :=
      toNat_add_of_lt (by omega)
    simp only [Bool.false_eq_true, ↓reduceIte]
    refine Entry.flags_ite {
      debitsPending := rfl, creditsPending := rfl, debitsPosted := h₁, creditsPosted := h₂
      drRoom := ⟨by dsimp only; omega, hd.credits⟩, crRoom := ⟨hc.debits, by dsimp only; omega⟩
      drLimited := fun hl => ⟨fun hf => ?dr, fun hf => ?dr'⟩
      crLimited := fun hl => ⟨fun hf => ?cr', fun hf => ?cr⟩
    } AccountFlags.sameLimits_withClosed AccountFlags.sameLimits_withClosed
    case dr =>
      have := h.debits_le hd hf
      dsimp only
      omega
    case cr =>
      have := h.credits_le hc hf
      dsimp only
      omega
    case dr' =>
      have := hl.credits hf
      dsimp only
      omega
    case cr' =>
      have := hl.debits hf
      dsimp only
      omega

-- What a pending transfer has taken is there to be released.
structure Covers (p : Transfer) (dr cr : Account) : Prop where
  debits : p.amount.toNat ≤ dr.debitsPending.toNat
  credits : p.amount.toNat ≤ cr.creditsPending.toNat

theorem toNat_sub_add {x y : U128} (h : y.toNat ≤ x.toNat) : (x - y).toNat + y.toNat = x.toNat := by
  rw [BitVec.toNat_sub_of_le (BitVec.le_def.mpr h)]
  omega

theorem Covers.release {p : Transfer} (h : Covers p dr cr) (hd : Room dr)
    (hc : Room cr) :
    Entry 0 p.amount.toNat 0 dr cr { dr with debitsPending := dr.debitsPending - p.amount }
      { cr with creditsPending := cr.creditsPending - p.amount } := by
  have hdd := hd.debits
  have hcc := hc.credits
  have h₁ := toNat_sub_add h.debits
  have h₂ := toNat_sub_add h.credits
  exact {
    debitsPending := h₁, creditsPending := h₂, debitsPosted := rfl, creditsPosted := rfl
    drRoom := ⟨by dsimp only; omega, hd.credits⟩, crRoom := ⟨hc.debits, by dsimp only; omega⟩
    drLimited := fun hl => ⟨fun hf => by have := hl.debits hf; dsimp only; omega, hl.credits⟩
    crLimited := fun hl => ⟨hl.debits, fun hf => by have := hl.credits hf; dsimp only; omega⟩
  }

theorem Covers.post {p : Transfer} (h : Covers p dr cr)
    (hd : Room dr) (hc : Room cr) (ha : amount.toNat ≤ p.amount.toNat) :
    Entry 0 p.amount.toNat amount.toNat dr cr
      { dr with
        debitsPending := dr.debitsPending - p.amount, debitsPosted := dr.debitsPosted + amount }
      { cr with
        creditsPending := cr.creditsPending - p.amount
        creditsPosted := cr.creditsPosted + amount } := by
  have hdd := hd.debits
  have hcc := hc.credits
  have hcover := h.debits
  have hcover' := h.credits
  have h₁ := toNat_sub_add h.debits
  have h₂ := toNat_sub_add h.credits
  have h₃ : (dr.debitsPosted + amount).toNat = dr.debitsPosted.toNat + amount.toNat :=
    toNat_add_of_lt (by omega)
  have h₄ : (cr.creditsPosted + amount).toNat = cr.creditsPosted.toNat + amount.toNat :=
    toNat_add_of_lt (by omega)
  refine {
    debitsPending := h₁, creditsPending := h₂, debitsPosted := h₃, creditsPosted := h₄
    drRoom := ⟨by dsimp only; omega, hd.credits⟩, crRoom := ⟨hc.debits, by dsimp only; omega⟩
    drLimited := fun hl => ⟨fun hf => ?dr, fun hf => ?dr'⟩
    crLimited := fun hl => ⟨fun hf => ?cr', fun hf => ?cr⟩
  }
  case dr =>
    have := hl.debits hf
    dsimp only
    omega
  case cr =>
    have := hl.credits hf
    dsimp only
    omega
  case dr' =>
    have := hl.credits hf
    dsimp only
    omega
  case cr' =>
    have := hl.debits hf
    dsimp only
    omega

theorem Covers.entry {event p : Transfer} (h : Covers p dr cr)
    (hd : Room dr) (hc : Room cr) :
    Meets (fun _ => True)
      (fun (r : Account × Account) => ∃ posted, Entry 0 p.amount.toNat posted dr cr r.1 r.2)
      (commitPostVoidAccounts event p amount dr cr) := by
  unfold commitPostVoidAccounts
  simp only [Meets.bind_eq, Meets.ite_iff, Meets.pure_eq, partial_assert]
  exact ⟨fun _ _ _ ha => ⟨_, h.post hd hc ha⟩, fun _ _ _ _ => ⟨0, (h.release hd hc).flags_ite
    AccountFlags.sameLimits_withoutClosed AccountFlags.sameLimits_withoutClosed⟩⟩

namespace Ledger

variable (ledger : Ledger)

def putAccounts (dr cr : Account) : HashMap U128 Account :=
  (ledger.accounts.insert dr.id dr).insert cr.id cr

-- An account is created.
def insertAccount (account : Account) : Ledger :=
  { ledger with accounts := ledger.accounts.insert account.id account }

-- A transfer is created.
def create (record : Transfer) (dr cr : Account) : Ledger where
  accounts := ledger.putAccounts dr cr
  transfers := ledger.transfers.insert record.id record
  timestamps := ledger.timestamps.insert record.timestamp record.id
  keyMax := max ledger.keyMax record.timestamp
  pendings :=
    if record.flags.pending then
      ledger.pendings.insert record.timestamp ⟨record.timestamp, .pending⟩
    else
      ledger.pendings

-- A pending transfer is posted or voided.
def resolve (record p : Transfer) (status : TransferPendingStatus) (dr cr : Account) : Ledger where
  accounts := ledger.putAccounts dr cr
  transfers := ledger.transfers.insert record.id record
  timestamps := ledger.timestamps.insert record.timestamp record.id
  keyMax := max ledger.keyMax record.timestamp
  pendings := ledger.pendings.insert p.timestamp ⟨p.timestamp, status⟩

-- A pending transfer expires.
def expire (p : Transfer) (accounts : HashMap U128 Account) : Ledger :=
  { ledger with
    accounts
    pendings := ledger.pendings.insert p.timestamp ⟨p.timestamp, .expired⟩ }

-- The part of a transfer's amount that is pending, if the account is the one of its party.
def held (pendings : HashMap Nat TransferPending) (party : Transfer → U128) (id : U128)
    (t : Transfer) : Nat :=
  if t.flags.pending = true ∧
      (pendings.lookup t.timestamp).map TransferPending.status = some .pending ∧ party t = id then
    t.amount.toNat
  else
    0

def heldTotal (party : Transfer → U128) (id : U128) : Nat :=
  total (held ledger.pendings party id) ledger.transfers

-- The sum of a balance over the accounts of a ledger.
def balance (accounts : HashMap U128 Account) (field : Account → U128) (number : Nat) : Nat :=
  total (fun account => if account.ledger = number then (field account).toNat else 0) accounts

-- The accounts of a transfer exist, and they are in its ledger.
structure Parties (accounts : HashMap U128 Account) (t : Transfer) : Prop where
  debit : (accounts.lookup t.debitAccountId).map Account.ledger = some t.ledger
  credit : (accounts.lookup t.creditAccountId).map Account.ledger = some t.ledger

structure Balanced : Prop where
  accountId : ∀ id account, ledger.accounts.lookup id = some account → account.id = id
  room : ∀ id account, ledger.accounts.lookup id = some account → Room account
  limited : ∀ id account, ledger.accounts.lookup id = some account → Limited account
  transferId : ∀ id t, ledger.transfers.lookup id = some t → t.id = id
  timestamp : ∀ id t, ledger.transfers.lookup id = some t →
    ledger.timestamps.lookup t.timestamp = some id
  distinct : ∀ id t, ledger.transfers.lookup id = some t → t.creditAccountId ≠ t.debitAccountId
  keyMax : ∀ timestamp id, ledger.timestamps.lookup timestamp = some id →
    timestamp ≤ ledger.keyMax
  parties : ∀ id t, ledger.transfers.lookup id = some t → Parties ledger.accounts t
  rows : ∀ timestamp row, ledger.pendings.lookup timestamp = some row →
    ∃ id t, ledger.transfers.lookup id = some t ∧ t.flags.pending = true ∧ t.timestamp = timestamp
  debits : ∀ id, ledger.heldTotal Transfer.debitAccountId id =
    (ledger.accounts.lookup id).elim 0 fun account => account.debitsPending.toNat
  credits : ∀ id, ledger.heldTotal Transfer.creditAccountId id =
    (ledger.accounts.lookup id).elim 0 fun account => account.creditsPending.toNat
  posted : ∀ number, balance ledger.accounts Account.debitsPosted number =
    balance ledger.accounts Account.creditsPosted number
  pending : ∀ number, balance ledger.accounts Account.debitsPending number =
    balance ledger.accounts Account.creditsPending number

variable {ledger} {record p : Transfer} {account dr cr dr' cr' : Account}

-- The accounts of a transfer, and what they become by an entry.
structure Posting (ledger : Ledger) (t : Transfer) (dr cr dr' cr' : Account)
    (taken released posted : Nat) : Prop where
  debit : ledger.accounts.lookup t.debitAccountId = some dr
  credit : ledger.accounts.lookup t.creditAccountId = some cr
  ledger : dr.ledger = cr.ledger
  entry : Entry taken released posted dr cr dr' cr'

variable {number : Nat} {id : U128}

namespace Posting

variable {t : Transfer} {taken released posted : Nat}
    (h : ledger.Posting t dr cr dr' cr' taken released posted) (hb : ledger.Balanced)

include h hb

theorem lookup_eq : (ledger.putAccounts dr' cr').lookup id =
      if id = t.creditAccountId then some cr' else
        if id = t.debitAccountId then some dr' else ledger.accounts.lookup id := by
  unfold putAccounts
  rw [lookup_insert_eq, lookup_insert_eq, h.entry.debitId, h.entry.creditId,
    hb.accountId _ _ h.debit, hb.accountId _ _ h.credit]

theorem room (id : U128) (account : Account)
    (hl : (ledger.putAccounts dr' cr').lookup id = some account) :
    account.id = id ∧ Room account ∧ Limited account := by
  rw [h.lookup_eq hb] at hl
  split at hl
  · next hi =>
    cases hl
    exact ⟨by rw [h.entry.creditId, hi, hb.accountId _ _ h.credit], h.entry.crRoom,
      h.entry.crLimited (hb.limited _ _ h.credit)⟩
  · split at hl
    · next hi =>
      cases hl
      exact ⟨by rw [h.entry.debitId, hi, hb.accountId _ _ h.debit], h.entry.drRoom,
        h.entry.drLimited (hb.limited _ _ h.debit)⟩
    · exact ⟨hb.accountId _ _ hl, hb.room _ _ hl, hb.limited _ _ hl⟩

-- A balance changes by what changes in the two accounts.
theorem balance_eq (hd : t.creditAccountId ≠ t.debitAccountId) (field : Account → U128)
    (number : Nat) :
    balance (ledger.putAccounts dr' cr') field number +
        (if dr.ledger = number then (field dr).toNat + (field cr).toNat else 0) =
      balance ledger.accounts field number +
        (if dr.ledger = number then (field dr').toNat + (field cr').toNat else 0) := by
  have hd' : dr'.id = t.debitAccountId := h.entry.debitId.trans (hb.accountId _ _ h.debit)
  have hc' : cr'.id = t.creditAccountId := h.entry.creditId.trans (hb.accountId _ _ h.credit)
  have h₁ := total_insert_of_some dr'
    (f := fun account => if account.ledger = number then (field account).toNat else 0) h.debit
  have h₂ : (ledger.accounts.insert t.debitAccountId dr').lookup t.creditAccountId = some cr := by
    rw [lookup_insert_eq, if_neg hd, h.credit]
  have h₂ := total_insert_of_some cr'
    (f := fun account => if account.ledger = number then (field account).toNat else 0) h₂
  have hl := h.ledger
  have hdl := h.entry.debitLedger
  have hcl := h.entry.creditLedger
  unfold balance putAccounts
  rw [hd', hc']
  simp only [hdl, hcl, ← hl] at h₁ h₂
  split at h₁
  · simp_all
    omega
  · simp_all

-- Two balances that agree in a ledger still do if the two accounts change them alike.
theorem balances_agree (hd : t.creditAccountId ≠ t.debitAccountId) {f g : Account → U128}
    {x y : Nat}
    (hf : (f dr').toNat + (f cr').toNat + x = (f dr).toNat + (f cr).toNat + y)
    (hg : (g dr').toNat + (g cr').toNat + x = (g dr).toNat + (g cr).toNat + y)
    (hn : balance ledger.accounts f number = balance ledger.accounts g number) :
    balance (ledger.putAccounts dr' cr') f number =
      balance (ledger.putAccounts dr' cr') g number := by
  have h₁ := h.balance_eq hb hd f number
  have h₂ := h.balance_eq hb hd g number
  by_cases hl : dr.ledger = number
  · rw [if_pos hl, if_pos hl] at h₁ h₂
    omega
  · rw [if_neg hl, if_neg hl] at h₁ h₂
    omega

theorem ledger_kept (hn : (ledger.accounts.lookup id).map Account.ledger = some number) :
    ((ledger.putAccounts dr' cr').lookup id).map Account.ledger = some number := by
  rw [h.lookup_eq hb]
  split
  · next hi =>
    rw [hi, h.credit] at hn
    exact hn ▸ congrArg some h.entry.creditLedger
  · split
    · next hi =>
      rw [hi, h.debit] at hn
      exact hn ▸ congrArg some h.entry.debitLedger
    · exact hn

theorem debitsPending_eq (hd : t.creditAccountId ≠ t.debitAccountId) (id : U128) :
    (((ledger.putAccounts dr' cr').lookup id).elim 0 fun account => account.debitsPending.toNat) +
        (if t.debitAccountId = id then released else 0) =
      ((ledger.accounts.lookup id).elim 0 fun account => account.debitsPending.toNat) +
        (if t.debitAccountId = id then taken else 0) := by
  rw [h.lookup_eq hb]
  by_cases hc : id = t.creditAccountId
  · have hne : t.debitAccountId ≠ id := fun he => hd (hc.symm.trans he.symm)
    rw [if_pos hc, if_neg hne, if_neg hne, hc, h.credit, Option.elim_some, Option.elim_some,
      h.entry.crDebits.1]
  · rw [if_neg hc]
    by_cases hdr : id = t.debitAccountId
    · rw [if_pos hdr, if_pos hdr.symm, if_pos hdr.symm, hdr, h.debit]
      exact h.entry.debitsPending
    · rw [if_neg hdr, if_neg (Ne.symm hdr), if_neg (Ne.symm hdr)]

theorem creditsPending_eq (id : U128) :
    (((ledger.putAccounts dr' cr').lookup id).elim 0 fun account => account.creditsPending.toNat) +
        (if t.creditAccountId = id then released else 0) =
      ((ledger.accounts.lookup id).elim 0 fun account => account.creditsPending.toNat) +
        (if t.creditAccountId = id then taken else 0) := by
  rw [h.lookup_eq hb]
  by_cases hc : id = t.creditAccountId
  · rw [if_pos hc, if_pos hc.symm, if_pos hc.symm, hc, h.credit]
    exact h.entry.creditsPending
  · rw [if_neg hc, if_neg (Ne.symm hc), if_neg (Ne.symm hc)]
    by_cases hdr : id = t.debitAccountId
    · rw [if_pos hdr, hdr, h.debit, Option.elim_some, Option.elim_some, h.entry.drCredits.1]
    · rw [if_neg hdr]

end Posting

variable {key : U128}

-- A pending transfer that is no longer pending holds nothing anymore.
theorem held_settled (hb : ledger.Balanced) (id : U128) (party : Transfer → U128)
    (status : TransferPendingStatus) (hp : ledger.transfers.lookup key = some p)
    (hpending : p.flags.pending = true)
    (hrow : (ledger.pendings.lookup p.timestamp).map TransferPending.status = some .pending)
    (hs : status ≠ .pending) :
    total (held (ledger.pendings.insert p.timestamp ⟨p.timestamp, status⟩) party id)
        ledger.transfers + (if party p = id then p.amount.toNat else 0) =
      ledger.heldTotal party id := by
  refine total_add_eq hp ?_ fun key' t ht hne => ?_
  · simp only [held, lookup_insert_eq, hpending, hrow, hs, ↓reduceIte, Option.map_some,
      Option.some.injEq, false_and, and_false, true_and]
    omega
  · -- No other transfer has its timestamp.
    have ht' : t.timestamp ≠ p.timestamp := by
      intro he
      have h₁ := hb.timestamp key' t ht
      have h₂ := hb.timestamp key p hp
      rw [he, h₂] at h₁
      exact hne (Option.some.inj h₁).symm
    unfold held
    rw [lookup_insert_eq, if_neg ht']

theorem held_create {party : Transfer → U128} (hb : ledger.Balanced)
    (hn : ledger.transfers.lookup record.id = none)
    (hfresh : (ledger.timestamps.lookup record.timestamp).all (· = record.id) = true) :
    (ledger.create record dr cr).heldTotal party id = ledger.heldTotal party id +
      (if party record = id then if record.flags.pending then record.amount.toNat else 0 else 0) := by
  unfold heldTotal create
  dsimp only
  rw [total_insert_of_none hn, Nat.add_comm]
  refine congrArg₂ _ (total_congr fun key t ht => ?_) ?_
  · -- No other transfer has its timestamp.
    have hne : t.timestamp ≠ record.timestamp := by
      intro he
      have := hb.timestamp key t ht
      rw [he] at this
      rw [this] at hfresh
      have hkey : key = record.id := by simpa using hfresh
      rw [hkey, hn] at ht
      cases ht
    unfold held
    split
    · rw [lookup_insert_eq, if_neg hne]
    · rfl
  · unfold held
    split <;> split <;> simp_all

-- What holds of the new account and of the others holds of every one.
theorem forall_insertAccount {P : U128 → Account → Prop}
    (h : ∀ id a, ledger.accounts.lookup id = some a → P id a) (hp : P account.id account)
    (id : U128) (a : Account)
    (hl : (ledger.insertAccount account).accounts.lookup id = some a) : P id a := by
  unfold insertAccount at hl
  rw [lookup_insert_eq] at hl
  split at hl
  · next hi =>
    cases hl
    exact hi ▸ hp
  · exact h id a hl

theorem insertAccount_ledger (hn : ledger.accounts.lookup account.id = none)
    (h : (ledger.accounts.lookup id).map Account.ledger = some number) :
    ((ledger.insertAccount account).accounts.lookup id).map Account.ledger = some number := by
  unfold insertAccount
  rw [lookup_insert_eq]
  split
  · next hi =>
    rw [hi, hn] at h
    cases h
  · exact h

theorem insertAccount_balance (hn : ledger.accounts.lookup account.id = none)
    {field : Account → U128} (hf : field account = 0) :
    balance (ledger.insertAccount account).accounts field number =
      balance ledger.accounts field number := by
  unfold balance insertAccount
  rw [total_insert_of_none hn, hf]
  simp

theorem insertAccount_elim (hn : ledger.accounts.lookup account.id = none)
    {field : Account → U128} (hf : field account = 0) (id : U128) :
    ((ledger.insertAccount account).accounts.lookup id).elim 0 (fun a => (field a).toNat) =
      (ledger.accounts.lookup id).elim 0 fun a => (field a).toNat := by
  unfold insertAccount
  rw [lookup_insert_eq]
  split
  · next hi =>
    rw [hi, hn, Option.elim_some, Option.elim_none, hf]
    rfl
  · rfl

namespace Balanced

variable {taken released posted : Nat} {t : Transfer}

section

variable (hb : ledger.Balanced)

include hb

theorem covers (hp : ledger.transfers.lookup key = some p)
    (hpending : p.flags.pending = true)
    (hrow : (ledger.pendings.lookup p.timestamp).map TransferPending.status = some .pending)
    (hd : ledger.accounts.lookup p.debitAccountId = some dr)
    (hc : ledger.accounts.lookup p.creditAccountId = some cr) : Covers p dr cr := by
  have h₁ := held_settled hb p.debitAccountId Transfer.debitAccountId .expired hp hpending hrow nofun
  have h₂ := held_settled hb p.creditAccountId Transfer.creditAccountId .expired hp hpending hrow nofun
  have h₃ := hb.debits p.debitAccountId
  have h₄ := hb.credits p.creditAccountId
  rw [hd, Option.elim_some] at h₃
  rw [hc, Option.elim_some] at h₄
  rw [if_pos rfl] at h₁ h₂
  exact ⟨by omega, by omega⟩

theorem post {ledger' : Ledger}
    (h : ledger.Posting t dr cr dr' cr' taken released posted)
    (hd : t.creditAccountId ≠ t.debitAccountId)
    (haccounts : ∀ id, ledger'.accounts.lookup id = (ledger.putAccounts dr' cr').lookup id)
    (htransfers : ∀ id t, ledger'.transfers.lookup id = some t → t.id = id ∧
      ledger'.timestamps.lookup t.timestamp = some id ∧ t.creditAccountId ≠ t.debitAccountId)
    (hkeyMax : ∀ timestamp id, ledger'.timestamps.lookup timestamp = some id →
      timestamp ≤ ledger'.keyMax)
    (hparties : ∀ id t, ledger'.transfers.lookup id = some t → Parties ledger.accounts t)
    (hrows : ∀ timestamp row, ledger'.pendings.lookup timestamp = some row →
      ∃ id t, ledger'.transfers.lookup id = some t ∧ t.flags.pending = true ∧
        t.timestamp = timestamp)
    (hdebits : ∀ id, ledger'.heldTotal Transfer.debitAccountId id +
        (if t.debitAccountId = id then released else 0) =
      ledger.heldTotal Transfer.debitAccountId id + (if t.debitAccountId = id then taken else 0))
    (hcredits : ∀ id, ledger'.heldTotal Transfer.creditAccountId id +
        (if t.creditAccountId = id then released else 0) =
      ledger.heldTotal Transfer.creditAccountId id + (if t.creditAccountId = id then taken else 0)) :
    ledger'.Balanced := by
  have hroom := h.room hb
  have hbalance : ∀ field number, balance ledger'.accounts field number =
      balance (ledger.putAccounts dr' cr') field number :=
    fun field number => total_eq_of_lookup haccounts
  have hkept : ∀ id number, (ledger.accounts.lookup id).map Account.ledger = some number →
      (ledger'.accounts.lookup id).map Account.ledger = some number :=
    fun id number hn => haccounts id ▸ h.ledger_kept hb hn
  have he := h.entry
  refine {
    accountId := fun id account hl => (hroom id account (haccounts id ▸ hl)).1
    room := fun id account hl => (hroom id account (haccounts id ▸ hl)).2.1
    limited := fun id account hl => (hroom id account (haccounts id ▸ hl)).2.2
    transferId := fun id t ht => (htransfers id t ht).1
    timestamp := fun id t ht => (htransfers id t ht).2.1
    distinct := fun id t ht => (htransfers id t ht).2.2
    keyMax := hkeyMax
    parties := fun id t ht =>
      ⟨hkept _ _ (hparties id t ht).debit, hkept _ _ (hparties id t ht).credit⟩
    rows := hrows
    debits := fun id => ?_
    credits := fun id => ?_
    posted := fun number => ?_
    pending := fun number => ?_
  }
  case refine_1 =>
    have hheld := hdebits id
    have hbalances := h.debitsPending_eq hb hd id
    rw [haccounts]
    rw [hb.debits] at hheld
    omega
  case refine_2 =>
    have hheld := hcredits id
    have hbalances := h.creditsPending_eq hb id
    rw [haccounts]
    rw [hb.credits] at hheld
    omega
  case refine_3 =>
    have hdr := he.debitsPosted
    have hcr := he.creditsPosted
    rw [hbalance, hbalance]
    refine h.balances_agree (x := 0) (y := posted) hb hd ?_ ?_ (hb.posted number)
    · rw [he.crDebits.2]
      omega
    · rw [he.drCredits.2]
      omega
  case refine_4 =>
    have hdr := he.debitsPending
    have hcr := he.creditsPending
    rw [hbalance, hbalance]
    refine h.balances_agree (x := released) (y := taken) hb hd ?_ ?_ (hb.pending number)
    · rw [he.crDebits.1]
      omega
    · rw [he.drCredits.1]
      omega

-- What holds of the transfers once there is another one.
theorem transfers_insert
    (hfresh : (ledger.timestamps.lookup record.timestamp).all (· = record.id) = true)
    (hd : record.creditAccountId ≠ record.debitAccountId) (id : U128) (t : Transfer)
    (ht : (ledger.transfers.insert record.id record).lookup id = some t) :
    t.id = id ∧ (ledger.timestamps.insert record.timestamp record.id).lookup t.timestamp = some id ∧
      t.creditAccountId ≠ t.debitAccountId := by
  rw [lookup_insert_eq] at ht ⊢
  split at ht
  · next hi =>
    cases ht
    exact ⟨hi.symm, by rw [if_pos rfl, hi], hd⟩
  · next hi =>
    have hold := hb.timestamp id t ht
    refine ⟨hb.transferId id t ht, ?_, hb.distinct id t ht⟩
    rw [if_neg, hold]
    intro he
    rw [he] at hold
    rw [hold] at hfresh
    exact hi (by simpa using hfresh)

-- The accounts of the transfers exist once there is another one.
theorem parties_insert (hp : Parties ledger.accounts record) (id : U128)
    (t : Transfer) (ht : (ledger.transfers.insert record.id record).lookup id = some t) :
    Parties ledger.accounts t := by
  rw [lookup_insert_eq] at ht
  split at ht
  · cases ht
    exact hp
  · exact hb.parties id t ht

theorem keyMax_insert (timestamp : Nat) (id : U128)
    (ht : (ledger.timestamps.insert record.timestamp record.id).lookup timestamp = some id) :
    timestamp ≤ max ledger.keyMax record.timestamp := by
  rw [lookup_insert_eq] at ht
  split at ht
  · next he => omega
  · have := hb.keyMax timestamp id ht
    omega

-- A row is that of a pending transfer, also once there is another one.
theorem rows_insert (hn : ledger.transfers.lookup record.id = none)
    (timestamp : Nat) (row : TransferPending) (hr : ledger.pendings.lookup timestamp = some row) :
    ∃ id t, (ledger.transfers.insert record.id record).lookup id = some t ∧
      t.flags.pending = true ∧ t.timestamp = timestamp := by
  have ⟨id, t, ht, h⟩ := hb.rows timestamp row hr
  refine ⟨id, t, ?_, h⟩
  rw [lookup_insert_eq, if_neg, ht]
  intro he
  rw [he, hn] at ht
  cases ht

theorem insertAccount (hn : ledger.accounts.lookup account.id = none)
    (hdp : account.debitsPending = 0) (hd : account.debitsPosted = 0)
    (hcp : account.creditsPending = 0) (hc : account.creditsPosted = 0) :
    (ledger.insertAccount account).Balanced where
  accountId := forall_insertAccount hb.accountId rfl
  room := forall_insertAccount hb.room ⟨by simp [hdp, hd], by simp [hcp, hc]⟩
  limited := forall_insertAccount hb.limited
    ⟨fun _ => by simp [hdp, hd], fun _ => by simp [hcp, hc]⟩
  transferId := hb.transferId
  timestamp := hb.timestamp
  distinct := hb.distinct
  keyMax := hb.keyMax
  parties := fun id t ht =>
    ⟨insertAccount_ledger hn (hb.parties id t ht).debit,
      insertAccount_ledger hn (hb.parties id t ht).credit⟩
  rows := hb.rows
  debits := fun id => (hb.debits id).trans (insertAccount_elim hn hdp id).symm
  credits := fun id => (hb.credits id).trans (insertAccount_elim hn hcp id).symm
  posted := fun number => by
    rw [insertAccount_balance hn hd, insertAccount_balance hn hc]
    exact hb.posted number
  pending := fun number => by
    rw [insertAccount_balance hn hdp, insertAccount_balance hn hcp]
    exact hb.pending number

theorem create (hn : ledger.transfers.lookup record.id = none)
    (hfresh : (ledger.timestamps.lookup record.timestamp).all (· = record.id) = true)
    (h : ledger.Posting record dr cr dr' cr'
      (if record.flags.pending then record.amount.toNat else 0) 0 posted)
    (hd : record.creditAccountId ≠ record.debitAccountId) (hl : record.ledger = dr.ledger) :
    (ledger.create record dr' cr').Balanced := by
  have hparties : Parties ledger.accounts record := ⟨by rw [h.debit, hl]; rfl,
    by rw [h.credit, hl, h.ledger]; rfl⟩
  refine hb.post h hd (fun _ => rfl) (hb.transfers_insert hfresh hd) hb.keyMax_insert
    (hb.parties_insert hparties) (fun timestamp row hr => ?_) (fun id => ?_) fun id => ?_
  case refine_1 =>
    unfold Ledger.create at hr ⊢
    dsimp only at hr ⊢
    split at hr
    · next hp =>
      rw [lookup_insert_eq] at hr
      split at hr
      · next ht => exact ⟨record.id, record, by rw [lookup_insert_eq, if_pos rfl], hp, ht.symm⟩
      · exact hb.rows_insert hn timestamp row hr
    · exact hb.rows_insert hn timestamp row hr
  all_goals
    rw [ite_self, Nat.add_zero]
    exact held_create hb hn hfresh

theorem resolve {status : TransferPendingStatus}
    (hn : ledger.transfers.lookup record.id = none)
    (hfresh : (ledger.timestamps.lookup record.timestamp).all (· = record.id) = true)
    (hplain : record.flags.pending = false) (hp : ledger.transfers.lookup key = some p)
    (hpending : p.flags.pending = true)
    (hrow : (ledger.pendings.lookup p.timestamp).map TransferPending.status = some .pending)
    (hs : status ≠ .pending) (hdebit : record.debitAccountId = p.debitAccountId)
    (hcredit : record.creditAccountId = p.creditAccountId) (hledger : record.ledger = p.ledger)
    (h : ledger.Posting p dr cr dr' cr' 0 p.amount.toNat posted) :
    (ledger.resolve record p status dr' cr').Balanced := by
  have hd := hb.distinct key p hp
  have hheld : ∀ (party : Transfer → U128) (id : U128),
      (ledger.resolve record p status dr' cr').heldTotal party id +
        (if party p = id then p.amount.toNat else 0) = ledger.heldTotal party id := by
    intro party id
    have hsettled := held_settled hb id party status hp hpending hrow hs
    have hzero : held (ledger.pendings.insert p.timestamp ⟨p.timestamp, status⟩) party id record =
        0 := by
      simp [held, hplain]
    have htotal : (ledger.resolve record p status dr' cr').heldTotal party id =
        total (held (ledger.pendings.insert p.timestamp ⟨p.timestamp, status⟩) party id)
          ledger.transfers := by
      unfold heldTotal Ledger.resolve
      dsimp only
      rw [total_insert_of_none hn, hzero, Nat.zero_add]
    rw [htotal]
    exact hsettled
  have hparties : Parties ledger.accounts record :=
    ⟨by rw [hdebit, hledger]; exact (hb.parties _ _ hp).debit,
      by rw [hcredit, hledger]; exact (hb.parties _ _ hp).credit⟩
  refine hb.post h hd (fun _ => rfl) (hb.transfers_insert hfresh (hcredit ▸ hdebit ▸ hd))
    hb.keyMax_insert (hb.parties_insert hparties) (fun timestamp row hr => ?_) (fun id => ?_)
    fun id => ?_
  case refine_1 =>
    have hr : (ledger.pendings.insert p.timestamp ⟨p.timestamp, status⟩).lookup timestamp =
      some row := hr
    rw [lookup_insert_eq] at hr
    split at hr
    · next ht =>
      refine ⟨key, p, ?_, hpending, ht.symm⟩
      show (ledger.transfers.insert record.id record).lookup key = some p
      rw [lookup_insert_eq, if_neg, hp]
      intro he
      rw [he, hn] at hp
      cases hp
    · exact hb.rows_insert hn timestamp row hr
  all_goals
    rw [ite_self, Nat.add_zero]
    exact hheld _ id

theorem expire {accounts : HashMap U128 Account}
    (hp : ledger.transfers.lookup key = some p) (hpending : p.flags.pending = true)
    (hrow : (ledger.pendings.lookup p.timestamp).map TransferPending.status = some .pending)
    (h : ledger.Posting p dr cr dr' cr' 0 p.amount.toNat posted)
    (haccounts : ∀ id, accounts.lookup id = (ledger.putAccounts dr' cr').lookup id) :
    (ledger.expire p accounts).Balanced := by
  refine hb.post h (hb.distinct key p hp) haccounts
    (fun id t ht => ⟨hb.transferId id t ht, hb.timestamp id t ht, hb.distinct id t ht⟩) hb.keyMax hb.parties
    (fun timestamp row hr => ?_) (fun id => ?_) fun id => ?_
  case refine_1 =>
    have hr : (ledger.pendings.insert p.timestamp ⟨p.timestamp, .expired⟩).lookup timestamp =
      some row := hr
    rw [lookup_insert_eq] at hr
    split at hr
    · next ht => exact ⟨key, p, hp, hpending, ht.symm⟩
    · exact hb.rows timestamp row hr
  all_goals
    rw [ite_self, Nat.add_zero]
    exact held_settled hb _ _ .expired hp hpending hrow nofun

end

end Balanced

end Ledger

end TigerBeetle.Accounting
