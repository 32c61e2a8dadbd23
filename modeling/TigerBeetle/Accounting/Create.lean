import TigerBeetle.Accounting.Types

namespace TigerBeetle.Accounting

open CreateAccountStatus in
def createAccountExists (a e : Account) : Result CreateAccountStatus := do
  assert (a.id = e.id) "a.id == e.id"
  if a.flags.raw ≠ e.flags.raw then return existsWithDifferentFlags
  if a.userData128 ≠ e.userData128 then return existsWithDifferentUserData128
  if a.userData64 ≠ e.userData64 then return existsWithDifferentUserData64
  if a.userData32 ≠ e.userData32 then return existsWithDifferentUserData32
  assert (a.reserved = 0) "a.reserved == 0"
  assert (e.reserved = 0) "e.reserved == 0"
  if a.ledger ≠ e.ledger then return existsWithDifferentLedger
  if a.code ≠ e.code then return existsWithDifferentCode
  return .exists

open CreateAccountStatus in
def createAccount (a : Account) (timestampEvent : Nat) (existing : Option Account) :
    Result CreateAccountStatus := do
  assert (timestampEvent ≠ 0) "timestamp_event != 0"
  if a.reserved ≠ 0 then return reservedField
  if a.flags.hasPadding then return reservedFlag
  if a.id = 0 then return idMustNotBeZero
  if a.id = u128Max then return idMustNotBeIntMax
  match existing with
  | some e => createAccountExists a e
  | none => do
    if a.flags.areMutuallyExclusive then return flagsAreMutuallyExclusive
    if a.debitsPending ≠ 0 then return debitsPendingMustBeZero
    if a.debitsPosted ≠ 0 then return debitsPostedMustBeZero
    if a.creditsPending ≠ 0 then return creditsPendingMustBeZero
    if a.creditsPosted ≠ 0 then return creditsPostedMustBeZero
    if a.ledger = 0 then return ledgerMustNotBeZero
    if a.code = 0 then return codeMustNotBeZero
    assert (a.flags.imported ∨ a.timestamp = 0) "a.timestamp == 0"
    return created

open CreateTransferStatus in
def createTransferExists (t e : Transfer) : Result CreateTransferStatus := do
  assert (t.id = e.id) "t.id == e.id"
  if t.flags.raw ≠ e.flags.raw then return existsWithDifferentFlags
  if t.debitAccountId ≠ e.debitAccountId then return existsWithDifferentDebitAccountId
  if t.creditAccountId ≠ e.creditAccountId then return existsWithDifferentCreditAccountId
  -- The amount of a pending transfer is an upper bound.
  if t.flags.pending ∧ t.amount > e.amount then return pendingTransferHasDifferentAmount
  if !t.flags.pending ∧ t.amount ≠ e.amount then return existsWithDifferentAmount
  if t.pendingId ≠ e.pendingId then return existsWithDifferentPendingId
  if t.userData128 ≠ e.userData128 then return existsWithDifferentUserData128
  if t.userData64 ≠ e.userData64 then return existsWithDifferentUserData64
  if t.userData32 ≠ e.userData32 then return existsWithDifferentUserData32
  if t.timeout ≠ e.timeout then return existsWithDifferentTimeout
  if t.code ≠ e.code then return existsWithDifferentCode
  return .exists

def sumOverflows (a b : U128) : Bool :=
  2 ^ 128 ≤ a.toNat + b.toNat

def saturatingSub (a b : U128) : U128 :=
  if a ≤ b then 0 else a - b

def minAmount (a b : U128) : U128 :=
  if a ≤ b then a else b

-- The amount that a balancing transfer can have.
def computeAmountActual (t : Transfer) (drAccount crAccount : Account) : U128 :=
  let amount :=
    if t.flags.balancingDebit then
      minAmount t.amount (saturatingSub drAccount.creditsPosted
        (drAccount.debitsPosted + drAccount.debitsPending))
    else
      t.amount
  if t.flags.balancingCredit then
    minAmount amount (saturatingSub crAccount.debitsPosted
      (crAccount.creditsPosted + crAccount.creditsPending))
  else
    amount

-- The checks that come before those of the accounts' balances.
open CreateTransferStatus in
def createTransferFields (t : Transfer) : Option CreateTransferStatus := do
  if t.debitAccountId = 0 then return debitAccountIdMustNotBeZero
  if t.debitAccountId = u128Max then return debitAccountIdMustNotBeIntMax
  if t.creditAccountId = 0 then return creditAccountIdMustNotBeZero
  if t.creditAccountId = u128Max then return creditAccountIdMustNotBeIntMax
  if t.creditAccountId = t.debitAccountId then return accountsMustBeDifferent
  if t.pendingId ≠ 0 then return pendingIdMustBeZero
  if !t.flags.pending ∧ t.timeout ≠ 0 then return timeoutReservedForPendingTransfer
  if !t.flags.pending ∧ (t.flags.closingDebit ∨ t.flags.closingCredit) then
    return closingTransferMustBePending
  if t.ledger = 0 then return ledgerMustNotBeZero
  if t.code = 0 then return codeMustNotBeZero
  none

-- The checks of an amount against the balances that it is added to.
open CreateTransferStatus in
def createTransferBalances (t : Transfer) (timestampActual : Nat) (drAccount crAccount : Account)
    (amountActual : U128) : Result CreateTransferStatus := do
  if t.flags.pending ∧ sumOverflows amountActual drAccount.debitsPending then
    return overflowsDebitsPending
  if t.flags.pending ∧ sumOverflows amountActual crAccount.creditsPending then
    return overflowsCreditsPending
  if sumOverflows amountActual drAccount.debitsPosted then return overflowsDebitsPosted
  if sumOverflows amountActual crAccount.creditsPosted then return overflowsCreditsPosted
  if sumOverflows amountActual (drAccount.debitsPending + drAccount.debitsPosted) then
    return overflowsDebits
  if sumOverflows amountActual (crAccount.creditsPending + crAccount.creditsPosted) then
    return overflowsCredits
  assert (t.timeoutNs < 2 ^ 64) "timeout * NS_PER_S overflow"
  if 2 ^ 63 - 1 < t.timeoutNs then return overflowsTimeout
  if 2 ^ 63 - 1 < timestampActual + t.timeoutNs then return overflowsTimeout
  if drAccount.debitsExceedCredits amountActual then return exceedsCredits
  if crAccount.creditsExceedDebits amountActual then return exceedsDebits
  return created

open CreateTransferStatus in
def createTransfer (t : Transfer) (timestampEvent : Nat) (existing : Option Transfer)
    (drAccount crAccount : Account) : Result CreateTransferStatus := do
  assert (timestampEvent ≠ 0) "timestamp_event != 0"
  if t.flags.hasPadding then return reservedFlag
  if t.id = 0 then return idMustNotBeZero
  if t.id = u128Max then return idMustNotBeIntMax
  match existing with
  | some e => createTransferExists t e
  | none => do
    assert (!t.flags.postOrVoid) "post/void transfers are handled by post_or_void_pending_transfer"
    match createTransferFields t with
    | some status => return status
    | none => do
      assert (drAccount.id = t.debitAccountId) "dr_account.id == t.debit_account_id"
      assert (crAccount.id = t.creditAccountId) "cr_account.id == t.credit_account_id"
      if drAccount.ledger ≠ crAccount.ledger then return accountsMustHaveTheSameLedger
      if t.ledger ≠ drAccount.ledger then return transferMustHaveTheSameLedgerAsAccounts
      if t.flags.imported then
        assert (t.timestamp ≠ 0) "t.timestamp != 0"
        assert (t.timestamp ≤ timestampEvent) "t.timestamp <= timestamp_event"
      else
        assert (t.timestamp = 0) "t.timestamp == 0"
      if t.flags.imported ∧ t.timestamp ≤ drAccount.timestamp then
        return importedEventTimestampMustPostdateDebitAccount
      if t.flags.imported ∧ t.timestamp ≤ crAccount.timestamp then
        return importedEventTimestampMustPostdateCreditAccount
      if t.flags.imported ∧ t.timeout ≠ 0 then
        assert t.flags.pending "t.flags.pending()"
        return importedEventTimeoutMustBeZero
      let timestampActual := if t.flags.imported then t.timestamp else timestampEvent
      assert (timestampActual > drAccount.timestamp) "timestamp_actual > dr_account.timestamp"
      assert (timestampActual > crAccount.timestamp) "timestamp_actual > cr_account.timestamp"
      if drAccount.flags.closed then return debitAccountAlreadyClosed
      if crAccount.flags.closed then return creditAccountAlreadyClosed
      createTransferBalances t timestampActual drAccount crAccount
        (computeAmountActual t drAccount crAccount)

structure CreateTransferOutcome where
  status : CreateTransferStatus
  amountActual : U128

def createTransferOutcome (t : Transfer) (timestampEvent : Nat) (existing : Option Transfer)
    (drAccount crAccount : Account) : Result CreateTransferOutcome := do
  let status ← createTransfer t timestampEvent existing drAccount crAccount
  return {
    status
    amountActual :=
      if status = .created then computeAmountActual t drAccount crAccount else 0
  }

-- The debit and the credit account after a created transfer.
def commitTransferAccounts (event : Transfer) (amountActual : U128) (drAccount crAccount : Account) :
    Account × Account :=
  let dr :=
    if event.flags.pending then
      { drAccount with debitsPending := drAccount.debitsPending + amountActual }
    else
      { drAccount with debitsPosted := drAccount.debitsPosted + amountActual }
  let cr :=
    if event.flags.pending then
      { crAccount with creditsPending := crAccount.creditsPending + amountActual }
    else
      { crAccount with creditsPosted := crAccount.creditsPosted + amountActual }
  ( if event.flags.closingDebit then { dr with flags := dr.flags.withClosed } else dr,
    if event.flags.closingCredit then { cr with flags := cr.flags.withClosed } else cr )

-- The debit and the credit account after a pending transfer is posted or voided.
def commitPostVoidAccounts (event p : Transfer) (amountActual : U128)
    (drAccount crAccount : Account) : Result (Account × Account) := do
  let dr := { drAccount with debitsPending := drAccount.debitsPending - p.amount }
  let cr := { crAccount with creditsPending := crAccount.creditsPending - p.amount }
  if event.flags.postPendingTransfer then
    assert (!p.flags.closingDebit) "!p.flags.closing_debit()"
    assert (!p.flags.closingCredit) "!p.flags.closing_credit()"
    assert (amountActual ≤ p.amount) "amount_actual <= p.amount"
    return (
      { dr with debitsPosted := dr.debitsPosted + amountActual },
      { cr with creditsPosted := cr.creditsPosted + amountActual })
  else
    assert (amountActual = p.amount) "amount_actual == p.amount"
    assert (p.flags.closingDebit → drAccount.flags.closed) "dr_account.flags.closed()"
    assert (p.flags.closingCredit → crAccount.flags.closed) "cr_account.flags.closed()"
    return (
      if p.flags.closingDebit then { dr with flags := dr.flags.withoutClosed } else dr,
      if p.flags.closingCredit then { cr with flags := cr.flags.withoutClosed } else cr)

-- The record of a transfer that posts or voids `p`.
def foldPostVoidTransfer (event p : Transfer) (amountActual : U128) (timestamp : Nat) : Transfer where
  id := event.id
  debitAccountId := p.debitAccountId
  creditAccountId := p.creditAccountId
  amount := amountActual
  pendingId := event.pendingId
  userData128 := if event.userData128 ≠ 0 then event.userData128 else p.userData128
  userData64 := if event.userData64 ≠ 0 then event.userData64 else p.userData64
  userData32 := if event.userData32 ≠ 0 then event.userData32 else p.userData32
  timeout := 0
  ledger := p.ledger
  code := p.code
  flags := event.flags
  timestamp := timestamp

structure PostVoidPendingResult where
  status : CreateTransferStatus
  amountActual : U128

open CreateTransferStatus in
def postOrVoidPendingTransfer (t : Transfer) (timestampEvent : Nat) (p : Transfer)
    (drAccount crAccount : Account) (pendingStatus : TransferPendingStatus) (runningKeyMax : Nat)
    (accountTimestamps accountTimestampsEnqueued : List Nat) : Result PostVoidPendingResult := do
  assert (timestampEvent ≠ 0) "timestamp_event != 0"
  assert t.flags.postOrVoid "t.flags.post_pending_transfer() || t.flags.void_pending_transfer()"
  if t.flags.postPendingTransfer ∧ t.flags.voidPendingTransfer then
    return ⟨flagsAreMutuallyExclusive, 0⟩
  if t.flags.pending ∨ t.flags.balancingDebit ∨ t.flags.balancingCredit ∨ t.flags.closingDebit ∨
      t.flags.closingCredit then
    return ⟨flagsAreMutuallyExclusive, 0⟩
  if t.pendingId = 0 then return ⟨pendingIdMustNotBeZero, 0⟩
  if t.pendingId = u128Max then return ⟨pendingIdMustNotBeIntMax, 0⟩
  if t.pendingId = t.id then return ⟨pendingIdMustBeDifferent, 0⟩
  if t.timeout ≠ 0 then return ⟨timeoutReservedForPendingTransfer, 0⟩
  assert (p.id = t.pendingId) "p.id == t.pending_id"
  assert p.flags.pending "p.flags.pending()"
  if t.debitAccountId ≠ 0 ∧ t.debitAccountId ≠ p.debitAccountId then
    return ⟨pendingTransferHasDifferentDebitAccountId, 0⟩
  if t.creditAccountId ≠ 0 ∧ t.creditAccountId ≠ p.creditAccountId then
    return ⟨pendingTransferHasDifferentCreditAccountId, 0⟩
  if t.ledger ≠ 0 ∧ t.ledger ≠ p.ledger then return ⟨pendingTransferHasDifferentLedger, 0⟩
  if t.code ≠ 0 ∧ t.code ≠ p.code then return ⟨pendingTransferHasDifferentCode, 0⟩
  let isPost := t.flags.postPendingTransfer
  let amountActual :=
    if t.flags.voidPendingTransfer then
      if t.amount = 0 then p.amount else t.amount
    else
      if t.amount = u128Max then p.amount else t.amount
  if amountActual > p.amount then return ⟨exceedsPendingTransferAmount, amountActual⟩
  if !isPost ∧ amountActual < p.amount then
    return ⟨pendingTransferHasDifferentAmount, amountActual⟩
  match pendingStatus with
  | .posted => return ⟨pendingTransferAlreadyPosted, amountActual⟩
  | .voided => return ⟨pendingTransferAlreadyVoided, amountActual⟩
  | .expired => return ⟨pendingTransferExpired, amountActual⟩
  | .none => abort "unreachable"
  | .pending => do
    if p.timeout ≠ 0 ∧ p.timestamp + p.timeoutNs ≤ timestampEvent then
      assert (!p.flags.imported) "!p.flags.imported()"
      return ⟨pendingTransferExpired, amountActual⟩
    if t.flags.imported then
      assert (t.timestamp ≠ 0) "t.timestamp != 0"
      assert (t.timestamp ≤ timestampEvent) "t.timestamp <= timestamp_event"
      assert (t.timestamp ∈ accountTimestampsEnqueued)
        "account_timestamps_enqueued.contains(t.timestamp)"
    if t.flags.imported ∧ (t.timestamp ≤ runningKeyMax ∨ t.timestamp ∈ accountTimestamps) then
      return ⟨importedEventTimestampMustNotRegress, amountActual⟩
    if drAccount.flags.closed ∧ isPost then return ⟨debitAccountAlreadyClosed, amountActual⟩
    if crAccount.flags.closed ∧ isPost then return ⟨creditAccountAlreadyClosed, amountActual⟩
    return ⟨created, amountActual⟩

open CreateTransferStatus in
def postOrVoidPendingTransferExists (t e p : Transfer) : Result CreateTransferStatus := do
  assert (t.id = e.id) "t.id == e.id"
  assert (t.id ≠ p.id) "t.id != p.id"
  assert t.flags.postOrVoid "t.flags.post_pending_transfer() || t.flags.void_pending_transfer()"
  assert (t.flags.raw = e.flags.raw) "t.flags.as_raw() == e.flags.as_raw()"
  assert (t.pendingId = e.pendingId) "t.pending_id == e.pending_id"
  assert (t.pendingId = p.id) "t.pending_id == p.id"
  assert p.flags.pending "p.flags.pending()"
  assert (t.timeout = e.timeout) "t.timeout == e.timeout"
  assert (t.timeout = 0) "t.timeout == 0"
  assert (e.debitAccountId = p.debitAccountId) "e.debit_account_id == p.debit_account_id"
  assert (e.creditAccountId = p.creditAccountId) "e.credit_account_id == p.credit_account_id"
  assert (e.ledger = p.ledger) "e.ledger == p.ledger"
  assert (e.code = p.code) "e.code == p.code"
  assert (e.timestamp > p.timestamp) "e.timestamp > p.timestamp"
  if t.debitAccountId ≠ 0 ∧ t.debitAccountId ≠ e.debitAccountId then
    return existsWithDifferentDebitAccountId
  if t.creditAccountId ≠ 0 ∧ t.creditAccountId ≠ e.creditAccountId then
    return existsWithDifferentCreditAccountId
  if t.flags.voidPendingTransfer ∧ (if t.amount = 0 then e.amount ≠ p.amount
      else t.amount ≠ e.amount) then
    return existsWithDifferentAmount
  assert (t.flags.postPendingTransfer → e.amount ≤ p.amount) "e.amount <= p.amount"
  if t.flags.postPendingTransfer ∧ (if t.amount = u128Max then e.amount ≠ p.amount
      else t.amount ≠ e.amount) then
    return existsWithDifferentAmount
  if (if t.userData128 = 0 then e.userData128 ≠ p.userData128
      else t.userData128 ≠ e.userData128) then
    return existsWithDifferentUserData128
  if (if t.userData64 = 0 then e.userData64 ≠ p.userData64 else t.userData64 ≠ e.userData64) then
    return existsWithDifferentUserData64
  if (if t.userData32 = 0 then e.userData32 ≠ p.userData32 else t.userData32 ≠ e.userData32) then
    return existsWithDifferentUserData32
  if t.ledger ≠ 0 ∧ t.ledger ≠ e.ledger then return existsWithDifferentLedger
  if t.code ≠ 0 ∧ t.code ≠ e.code then return existsWithDifferentCode
  return .exists

end TigerBeetle.Accounting
