import TigerBeetle.Accounting.Groove

namespace TigerBeetle.Accounting

-- A state machine with its forest. Whatever it prefetches from the forest, and whatever the forest
-- says is due, it asserts to be what is committed, so that the forest decides only whether it panics.
structure Mounted where
  sm : StateMachine
  forest : Forest

namespace Mounted

variable (m : Mounted)

-- What the forest takes no part in.
def unmounted (sm : Result StateMachine) : Result Mounted := do
  return { m with sm := ← sm }

def insertAccount (id : U128) (account : Account) : Result Mounted := do
  let sm ← m.sm.insertAccount id account
  return ⟨sm, { m.forest with accounts := ← m.forest.accounts.insert account }⟩

def updateAccount (account : Account) : Result Mounted := do
  let old ← expect (m.sm.accounts.lookup account.id) "updated account is committed"
  let sm ← m.sm.updateAccount account
  return ⟨sm, { m.forest with accounts := ← m.forest.accounts.update old account }⟩

def updateAccountIf (updated : Bool) (account : Account) : Result Mounted :=
  if updated then m.updateAccount account else return m

def insertTransfer (id : U128) (transfer : Transfer) : Result Mounted := do
  let sm ← m.sm.insertTransfer id transfer
  return ⟨sm, { m.forest with transfers := ← m.forest.transfers.insert transfer }⟩

def insertTransferPending (pending : TransferPending) : Result Mounted := do
  let sm ← m.sm.insertTransferPending pending
  return ⟨sm, { m.forest with transfersPending := ← m.forest.transfersPending.insert pending }⟩

def updateTransferPendingStatus (timestamp : Nat) (status : TransferPendingStatus) :
    Result Mounted := do
  let transferPending ← expect (m.sm.transfersPending.lookup timestamp)
    "updating a pending status implies its status row exists"
  let sm ← m.sm.updateTransferPendingStatus timestamp status
  let transfersPending ← m.forest.transfersPending.update transferPending { timestamp, status }
  return ⟨sm, { m.forest with transfersPending }⟩

def removeExpiresAt (pending : Transfer) : Mounted :=
  { m with forest.transfers := m.forest.transfers.removeExpiresAt pending }

def commitTransfer (event : Transfer) (amountActual amountRequested : U128) : Result Mounted := do
  let dr ← expect (m.sm.accounts.lookup event.debitAccountId)
    "debit account exists: create_transfer validated and overflow checks passed"
  let cr ← expect (m.sm.accounts.lookup event.creditAccountId)
    "credit account exists: create_transfer validated and overflow checks passed"
  let (dr, cr) := commitTransferAccounts event amountActual dr cr
  let m ← m.updateAccount dr
  let m ← m.updateAccount cr
  let m ← m.unmounted (m.sm.accountEvent event.timestamp dr cr event.flags
    (if event.flags.pending then .pending else .none) none amountRequested amountActual)
  if 0 < event.timeout then
    assert event.flags.pending "event.flags.pending()"
    assert (!event.flags.imported) "!event.flags.imported()"
    return { m with
      sm.pulseNextTimestamp := min m.sm.pulseNextTimestamp (event.timestamp + event.timeoutNs)
    }
  else
    return m

def persistPostVoid (event : Transfer) (amountActual : U128) : Result Mounted := do
  let p ← expect (m.sm.transfers.lookup event.pendingId)
    "posting/voiding a pending transfer implies the pending transfer is committed"
  let record := foldPostVoidTransfer event p amountActual event.timestamp
  let m ← m.insertTransfer record.id record
  let pendingStatus := if record.flags.postPendingTransfer then .posted else .voided
  let m ← m.updateTransferPendingStatus p.timestamp pendingStatus
  let m := m.removeExpiresAt p
  let dr ← expect (m.sm.accounts.lookup record.debitAccountId)
    "debit account exists: post_or_void_pending_transfer validated it"
  let cr ← expect (m.sm.accounts.lookup record.creditAccountId)
    "credit account exists: post_or_void_pending_transfer validated it"
  let (dr, cr) ← commitPostVoidAccounts record p amountActual dr cr
  let m ← m.updateAccount dr
  let m ← m.updateAccount cr
  let m ← m.unmounted (m.sm.accountEvent event.timestamp dr cr record.flags pendingStatus (some p)
    event.amount amountActual)
  m.unmounted m.sm.updatePulseNextTimestamp

def persistTransfer (event : Transfer) (amountActual : U128) : Result Mounted := do
  let record := { event with amount := amountActual }
  if event.flags.pending then
    let m ← m.insertTransfer record.id record
    let m ← m.insertTransferPending ⟨record.timestamp, .pending⟩
    m.commitTransfer record amountActual event.amount
  else if event.flags.postOrVoid then
    m.persistPostVoid event amountActual
  else
    let m ← m.insertTransfer record.id record
    m.commitTransfer record amountActual event.amount

def persistAccountEvent (timestamp count index : Nat) (event : Account)
    (result : CreateAccountResult) (m : Mounted) : Result Mounted := do
  let event ←
    if event.flags.imported then pure event
    else pure { event with timestamp := ← timestampEvent timestamp count index }
  assert (event.timestamp = result.timestamp) "event.timestamp == results[index].timestamp"
  m.insertAccount event.id event

def persistAccounts (events : List Account) (results : List CreateAccountResult) (timestamp : Nat) :
    Result Mounted :=
  persistBatch (fun event => event.flags.linked) (fun result => result.status = .created)
    (persistAccountEvent timestamp events.length) 0 [] (events.zip results) m

def persistTransferEvent (timestamp count index : Nat) (event : Transfer)
    (result : CreateTransferResult) (m : Mounted) : Result Mounted := do
  let event ←
    if event.flags.imported then pure event
    else pure { event with timestamp := ← timestampEvent timestamp count index }
  assert (event.timestamp = result.timestamp) "event.timestamp == results[index].timestamp"
  m.persistTransfer event result.amountActual

def persistTransfers (events : List Transfer) (results : List CreateTransferResult)
    (timestamp : Nat) : Result Mounted :=
  persistBatch (fun event => event.flags.linked) (fun result => result.status = .created)
    (persistTransferEvent timestamp events.length) 0 [] (events.zip results)
    { m with sm := m.sm.orphan (events.zip results) }

def expire (timestampEvent : Nat) (id : U128) : Result Mounted := do
  assert (m.sm.commitTimestamp < timestampEvent) "self.commit_timestamp < timestamp_event"
  let m : Mounted := { m with sm.commitTimestamp := timestampEvent }
  let p ← expect (m.sm.transfers.lookup id) "due pending transfer is committed"
  assert (p.timestamp + p.timeoutNs ≤ timestampEvent) "expires_at <= timestamp_event"
  let dr ← expect (m.sm.accounts.lookup p.debitAccountId)
    "debit account exists: asserted debits_pending >= amount at creation"
  let cr ← expect (m.sm.accounts.lookup p.creditAccountId)
    "credit account exists: asserted credits_pending >= amount at creation"
  assert (p.amount ≤ dr.debitsPending) "dr.debits_pending >= p.amount"
  assert (p.amount ≤ cr.creditsPending) "cr.credits_pending >= p.amount"
  assert (p.flags.closingDebit → dr.flags.closed) "dr_new.flags.closed()"
  assert (p.flags.closingCredit → cr.flags.closed) "cr_new.flags.closed()"
  let drNew := StateMachine.expireDebit p dr
  let crNew := StateMachine.expireCredit p cr
  let drUpdated : Bool := 0 < p.amount ∨ drNew.flags.closed ≠ dr.flags.closed
  let crUpdated : Bool := 0 < p.amount ∨ crNew.flags.closed ≠ cr.flags.closed
  let m ← m.updateAccountIf drUpdated drNew
  let m ← m.updateAccountIf crUpdated crNew
  let m ← m.updateTransferPendingStatus p.timestamp .expired
  let m := m.removeExpiresAt p
  m.unmounted (m.sm.accountEvent timestampEvent drNew crNew ⟨0⟩ .expired (some p) 0 p.amount)

def expireAll (timestamp count : Nat) :
    (index : Nat) → List (Nat × Nat × U128) → Mounted → Result Mounted
  | _, [], m => return m
  | index, (_, _, id) :: due, m => do
    let timestampEvent ← timestampEvent timestamp count index
    expireAll timestamp count (index + 1) due (← m.expire timestampEvent id)

def expirePendingTransfers (timestamp : Nat) : Result Mounted := do
  assert (m.sm.commitTimestamp < timestamp)
    "expiry must advance commit_timestamp (upstream assert: timestamp > commit_timestamp)"
  assert (0 < timestamp)
    "expiry timestamps are assigned from a positive base and cannot overflow"
  let dueMap ← m.sm.expiring "pending transfer status row implies a committed pending transfer"
  let due := dueMap.filter fun (expiresAt, _) => expiresAt ≤ timestamp
  let m ← expireAll timestamp due.length 0 due m
  m.unmounted m.sm.updatePulseNextTimestamp

variable [Hasher]

def createAccounts (events : List Account) (timestamp : Nat) :
    Result (List CreateAccountResult × Mounted) := do
  assert (m.sm.commitTimestamp ≤ timestamp) "self.commit_timestamp <= timestamp"
  let prefetch := prefetchCreateAccounts events
  let (transferTimestamps, sm) ← m.sm.createAccountsPrefetch prefetch
  let loop ← executeCreateAccounts events timestamp prefetch sm.accountsObjects
    sm.accountsTimestampMax transferTimestamps
  let sm := { sm with accountsObjects := loop.state.accountsObjects }
  return (loop.results, ← persistAccounts { m with sm } events loop.results timestamp)

def createTransfers (events : List Transfer) (timestamp : Nat) :
    Result (List CreateTransferResult × Mounted) := do
  assert (m.sm.commitTimestamp ≤ timestamp) "self.commit_timestamp <= timestamp"
  let prefetch := prefetchCreateTransfers events fun id => m.sm.transfers.lookup id
  let (accountTimestamps, sm) ← m.sm.createTransfersPrefetch prefetch
  let loop ← executeCreateTransfers events timestamp sm.accountsObjects sm.transfersObjects
    sm.transfersPendingObjects sm.transfersTimestampMax accountTimestamps prefetch.accountTimestamps
    ∅ sm.transfersOrphaned prefetch
  let sm := { sm with
    accountsObjects := loop.state.accountsObjects
    transfersObjects := loop.state.transfersObjects
    transfersPendingObjects := loop.state.transfersPendingObjects
  }
  return (loop.results, ← persistTransfers { m with sm } events loop.results timestamp)

def machine : Machine Mounted StateMachine.Call Fault where
  init m := m = ⟨.default, .new⟩
  step m
    | .createAccounts events timestamp => return (← m.createAccounts events timestamp).2
    | .createTransfers events timestamp => return (← m.createTransfers events timestamp).2
    | .expirePendingTransfers timestamp => m.expirePendingTransfers timestamp

end Mounted

end TigerBeetle.Accounting
