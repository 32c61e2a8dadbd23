import TigerBeetle.Accounting.StateMachine

-- The state machine with an arithmetic of balances that panics where it would wrap around.
namespace TigerBeetle.Accounting.Checked

def add (a b : U128) : Result U128 := do
  assert (!sumOverflows a b) "balance: attempt to add with overflow"
  return a + b

def sub (a b : U128) : Result U128 := do
  assert (b ≤ a) "balance: attempt to subtract with overflow"
  return a - b

def debitsExceedCredits (account : Account) (amount : U128) : Result Bool := do
  if account.flags.debitsMustNotExceedCredits then
    let debits ← add account.debitsPending account.debitsPosted
    return (← add debits amount) > account.creditsPosted
  else
    return false

def creditsExceedDebits (account : Account) (amount : U128) : Result Bool := do
  if account.flags.creditsMustNotExceedDebits then
    let credits ← add account.creditsPending account.creditsPosted
    return (← add credits amount) > account.debitsPosted
  else
    return false

def computeAmountActual (t : Transfer) (drAccount crAccount : Account) : Result U128 := do
  let amount ←
    if t.flags.balancingDebit then do
      let drBalance ← add drAccount.debitsPosted drAccount.debitsPending
      pure (minAmount t.amount (saturatingSub drAccount.creditsPosted drBalance))
    else
      pure t.amount
  if t.flags.balancingCredit then
    let crBalance ← add crAccount.creditsPosted crAccount.creditsPending
    return minAmount amount (saturatingSub crAccount.debitsPosted crBalance)
  else
    return amount

open CreateTransferStatus in
def createTransferBalances (t : Transfer) (timestampActual : Nat) (drAccount crAccount : Account)
    (amountActual : U128) : Result CreateTransferStatus := do
  if t.flags.pending ∧ sumOverflows amountActual drAccount.debitsPending then
    return overflowsDebitsPending
  if t.flags.pending ∧ sumOverflows amountActual crAccount.creditsPending then
    return overflowsCreditsPending
  if sumOverflows amountActual drAccount.debitsPosted then return overflowsDebitsPosted
  if sumOverflows amountActual crAccount.creditsPosted then return overflowsCreditsPosted
  let debits ← add drAccount.debitsPending drAccount.debitsPosted
  if sumOverflows amountActual debits then return overflowsDebits
  let credits ← add crAccount.creditsPending crAccount.creditsPosted
  if sumOverflows amountActual credits then return overflowsCredits
  assert (t.timeoutNs < 2 ^ 64) "timeout * NS_PER_S overflow"
  if 2 ^ 63 - 1 < t.timeoutNs then return overflowsTimeout
  if 2 ^ 63 - 1 < timestampActual + t.timeoutNs then return overflowsTimeout
  if ← debitsExceedCredits drAccount amountActual then return exceedsCredits
  if ← creditsExceedDebits crAccount amountActual then return exceedsDebits
  return created

open CreateTransferStatus in
def createTransfer (t : Transfer) (timestampEvent : Nat) (existing : Option Transfer)
    (drAccount crAccount : Account) : Result CreateTransferStatus := do
  assert (timestampEvent ≠ 0) "timestamp_event != 0"
  if t.flags.hasPadding then return reservedFlag
  if t.id = 0 then return idMustNotBeZero
  if t.id = u128Max then return idMustNotBeIntMax
  match existing with
  | some e => createTransferExists t e
  | none => do
    assert (!t.flags.postOrVoid) "post/void transfers are handled by post_or_void_pending_transfer"
    match createTransferFields t with
    | some status => return status
    | none => do
      assert (drAccount.id = t.debitAccountId) "dr_account.id == t.debit_account_id"
      assert (crAccount.id = t.creditAccountId) "cr_account.id == t.credit_account_id"
      if drAccount.ledger ≠ crAccount.ledger then return accountsMustHaveTheSameLedger
      if t.ledger ≠ drAccount.ledger then return transferMustHaveTheSameLedgerAsAccounts
      if t.flags.imported then
        assert (t.timestamp ≠ 0) "t.timestamp != 0"
        assert (t.timestamp ≤ timestampEvent) "t.timestamp <= timestamp_event"
      else
        assert (t.timestamp = 0) "t.timestamp == 0"
      if t.flags.imported ∧ t.timestamp ≤ drAccount.timestamp then
        return importedEventTimestampMustPostdateDebitAccount
      if t.flags.imported ∧ t.timestamp ≤ crAccount.timestamp then
        return importedEventTimestampMustPostdateCreditAccount
      if t.flags.imported ∧ t.timeout ≠ 0 then
        assert t.flags.pending "t.flags.pending()"
        return importedEventTimeoutMustBeZero
      let timestampActual := if t.flags.imported then t.timestamp else timestampEvent
      assert (timestampActual > drAccount.timestamp) "timestamp_actual > dr_account.timestamp"
      assert (timestampActual > crAccount.timestamp) "timestamp_actual > cr_account.timestamp"
      if drAccount.flags.closed then return debitAccountAlreadyClosed
      if crAccount.flags.closed then return creditAccountAlreadyClosed
      createTransferBalances t timestampActual drAccount crAccount
        (← computeAmountActual t drAccount crAccount)

def createTransferOutcome (t : Transfer) (timestampEvent : Nat) (existing : Option Transfer)
    (drAccount crAccount : Account) : Result CreateTransferOutcome := do
  let status ← createTransfer t timestampEvent existing drAccount crAccount
  let amountActual ←
    if status = .created then computeAmountActual t drAccount crAccount else pure 0
  return { status, amountActual }

def commitTransferAccounts (event : Transfer) (amountActual : U128) (drAccount crAccount : Account) :
    Result (Account × Account) := do
  let (dr, cr) ←
    if event.flags.pending then do
      let debits ← add drAccount.debitsPending amountActual
      let credits ← add crAccount.creditsPending amountActual
      pure ({ drAccount with debitsPending := debits }, { crAccount with creditsPending := credits })
    else do
      let debits ← add drAccount.debitsPosted amountActual
      let credits ← add crAccount.creditsPosted amountActual
      pure ({ drAccount with debitsPosted := debits }, { crAccount with creditsPosted := credits })
  return (
    if event.flags.closingDebit then { dr with flags := dr.flags.withClosed } else dr,
    if event.flags.closingCredit then { cr with flags := cr.flags.withClosed } else cr)

def commitPostVoidAccounts (event p : Transfer) (amountActual : U128)
    (drAccount crAccount : Account) : Result (Account × Account) := do
  let dr := { drAccount with debitsPending := ← sub drAccount.debitsPending p.amount }
  let cr := { crAccount with creditsPending := ← sub crAccount.creditsPending p.amount }
  if event.flags.postPendingTransfer then
    assert (!p.flags.closingDebit) "!p.flags.closing_debit()"
    assert (!p.flags.closingCredit) "!p.flags.closing_credit()"
    assert (amountActual ≤ p.amount) "amount_actual <= p.amount"
    let debits ← add dr.debitsPosted amountActual
    let credits ← add cr.creditsPosted amountActual
    return ({ dr with debitsPosted := debits }, { cr with creditsPosted := credits })
  else
    assert (amountActual = p.amount) "amount_actual == p.amount"
    assert (p.flags.closingDebit → drAccount.flags.closed) "dr_account.flags.closed()"
    assert (p.flags.closingCredit → crAccount.flags.closed) "cr_account.flags.closed()"
    return (
      if p.flags.closingDebit then { dr with flags := dr.flags.withoutClosed } else dr,
      if p.flags.closingCredit then { cr with flags := cr.flags.withoutClosed } else cr)

theorem lawfulBEq_id : LawfulBEq U128 :=
  inferInstance

attribute [local instance] lawfulBEq_id

section Batch

variable [Hasher] (batch : TransfersBatch)

def resolve (event : Transfer) (timestampEvent : Nat) (pending : Option Transfer)
    (state : TransfersState) : Result (CreateTransferResult × TransfersState) := do
  match pending with
  | none => return (⟨.pendingTransferNotFound, timestampEvent, 0⟩, state)
  | some p =>
    if !p.flags.pending then
      return (⟨.pendingTransferNotPending, timestampEvent, 0⟩, state)
    else
      let (dr, accountsObjects) ←
        readCachedAccount state.accountsObjects batch.prefetch p.debitAccountId
      let dr ← expect dr "committed pending implies its debit account"
      let (cr, accountsObjects) ← readCachedAccount accountsObjects batch.prefetch p.creditAccountId
      let cr ← expect cr "committed pending implies its credit account"
      let (row, transfersPendingObjects) := state.transfersPendingObjects.get p.timestamp
      let pendingStatus := row.elim .none TransferPending.status
      assert (pendingStatus = .none → p.timestamp ∈ batch.prefetch.pendingTimestamps)
        "create_transfers read a pending timestamp that was not prefetched"
      let result ← postOrVoidPendingTransfer event timestampEvent p dr cr pendingStatus
        state.runningKeyMax batch.accountTimestamps batch.accountTimestampsEnqueued
      if result.status = .created then
        let timestamp := if event.flags.imported then event.timestamp else timestampEvent
        let status := if event.flags.postPendingTransfer then .posted else .voided
        let transfersPendingObjects ← transfersPendingObjects.upsert ⟨p.timestamp, status⟩
        let (dr, cr) ← commitPostVoidAccounts event p result.amountActual dr cr
        let accountsObjects ← accountsObjects.upsert dr
        let accountsObjects ← accountsObjects.upsert cr
        let transfersObjects ← state.transfersObjects.upsert
          (foldPostVoidTransfer event p result.amountActual timestamp)
        return (⟨result.status, timestamp, result.amountActual⟩,
          { state with
            accountsObjects, transfersObjects, transfersPendingObjects
            runningKeyMax := max state.runningKeyMax timestamp })
      else
        return (⟨result.status, timestampEvent, result.amountActual⟩,
          { state with accountsObjects, transfersPendingObjects })

open CreateTransferStatus in
def postOrVoid (event : Transfer) (timestampEvent : Nat) (existing : Option Transfer)
    (state : TransfersState) : Result (CreateTransferResult × TransfersState) := do
  if event.flags.hasPadding then return (⟨reservedFlag, timestampEvent, 0⟩, state)
  if event.id = 0 then return (⟨idMustNotBeZero, timestampEvent, 0⟩, state)
  if event.id = u128Max then return (⟨idMustNotBeIntMax, timestampEvent, 0⟩, state)
  let (pending, transfersObjects) := state.transfersObjects.get event.pendingId
  assert (pending = none → event.pendingId ∈ batch.prefetch.transferIds)
    "create_transfers read a pending transfer id that was not prefetched"
  let state := { state with transfersObjects }
  match existing with
  | none => resolve batch event timestampEvent pending state
  | some e => do
    if event.flags.raw ≠ e.flags.raw then
      return (⟨existsWithDifferentFlags, timestampEvent, 0⟩, state)
    if event.pendingId ≠ e.pendingId then
      return (⟨existsWithDifferentPendingId, timestampEvent, 0⟩, state)
    if event.timeout ≠ e.timeout then
      return (⟨existsWithDifferentTimeout, timestampEvent, 0⟩, state)
    let p ← expect pending "a committed posting/voiding transfer implies its pending transfer"
    let status ← postOrVoidPendingTransferExists event e p
    let timestamp := if status = .exists then e.timestamp else timestampEvent
    return (⟨status, timestamp, 0⟩, state)

def transfer (event : Transfer) (timestampEvent : Nat) (existing : Option Transfer)
    (dr cr : Account) (state : TransfersState) : Result (CreateTransferResult × TransfersState) := do
  if ← batch.regresses event timestampEvent state.runningKeyMax existing then
    return (⟨.importedEventTimestampMustNotRegress, timestampEvent, 0⟩, state)
  else
    let outcome ← createTransferOutcome event timestampEvent existing dr cr
    if outcome.status = .created then
      let timestamp := if event.flags.imported then event.timestamp else timestampEvent
      let (dr, cr) ← commitTransferAccounts event outcome.amountActual dr cr
      let accountsObjects ← state.accountsObjects.upsert dr
      let accountsObjects ← accountsObjects.upsert cr
      let record := { event with amount := outcome.amountActual, timestamp }
      let transfersObjects ← state.transfersObjects.upsert record
      let transfersPendingObjects ←
        if record.flags.pending then
          state.transfersPendingObjects.upsert ⟨record.timestamp, .pending⟩
        else
          pure state.transfersPendingObjects
      return (⟨outcome.status, timestamp, outcome.amountActual⟩,
        { state with
          accountsObjects, transfersObjects, transfersPendingObjects
          runningKeyMax := max state.runningKeyMax timestamp })
    else if outcome.status = .exists then
      match existing with
      | some existing => return (⟨outcome.status, existing.timestamp, 0⟩, state)
      | none => abort "create_transfer returns Exists only for a matching record"
    else
      return (⟨outcome.status, timestampEvent, 0⟩, state)

def plain (event : Transfer) (timestampEvent : Nat) (existing : Option Transfer)
    (state : TransfersState) : Result (CreateTransferResult × TransfersState) := do
  let (dr, accountsObjects) ←
    readCachedAccount state.accountsObjects batch.prefetch event.debitAccountId
  let (cr, accountsObjects) ← readCachedAccount accountsObjects batch.prefetch event.creditAccountId
  let state := { state with accountsObjects }
  match dr, cr with
  | some dr, some cr => transfer batch event timestampEvent existing dr cr state
  | none, _ => return (⟨.debitAccountNotFound, timestampEvent, 0⟩, state)
  | _, none => return (⟨.creditAccountNotFound, timestampEvent, 0⟩, state)

def execute (event : Transfer) (timestampEvent : Nat) (state : TransfersState) :
    Result (CreateTransferResult × TransfersState) := do
  match batch.reject event with
  | some status => return (⟨status, timestampEvent, 0⟩, state)
  | none => do
    let (existing, transfersObjects) := state.transfersObjects.get event.id
    assert (existing = none → event.id ∈ batch.prefetch.transferIds)
      "create_transfers read a transfer id that was not prefetched"
    let state := { state with transfersObjects }
    if event.id ∈ state.workingOrphaned ∨ event.id ∈ batch.orphaned then
      return (⟨.idAlreadyFailed, timestampEvent, 0⟩, state)
    else if event.flags.postOrVoid then
      postOrVoid batch event timestampEvent existing state
    else
      plain batch event timestampEvent existing state

def orchestrator : Orchestrator Transfer CreateTransferResult TransfersState :=
  { batch.orchestrator with execute := execute batch }

end Batch

variable (sm : StateMachine)

def commitTransfer (event : Transfer) (amountActual amountRequested : U128) :
    Result StateMachine := do
  let dr ← expect (sm.accounts.lookup event.debitAccountId)
    "debit account exists: create_transfer validated and overflow checks passed"
  let cr ← expect (sm.accounts.lookup event.creditAccountId)
    "credit account exists: create_transfer validated and overflow checks passed"
  let (dr, cr) ← commitTransferAccounts event amountActual dr cr
  let sm ← sm.updateAccount dr
  let sm ← sm.updateAccount cr
  let sm ← sm.accountEvent event.timestamp dr cr event.flags
    (if event.flags.pending then .pending else .none) none amountRequested amountActual
  if 0 < event.timeout then
    assert event.flags.pending "event.flags.pending()"
    assert (!event.flags.imported) "!event.flags.imported()"
    return { sm with
      pulseNextTimestamp := min sm.pulseNextTimestamp (event.timestamp + event.timeoutNs)
    }
  else
    return sm

def persistPostVoid (event : Transfer) (amountActual : U128) : Result StateMachine := do
  let p ← expect (sm.transfers.lookup event.pendingId)
    "posting/voiding a pending transfer implies the pending transfer is committed"
  let record := foldPostVoidTransfer event p amountActual event.timestamp
  let sm ← sm.insertTransfer record.id record
  let pendingStatus := if record.flags.postPendingTransfer then .posted else .voided
  let sm ← sm.updateTransferPendingStatus p.timestamp pendingStatus
  let dr ← expect (sm.accounts.lookup record.debitAccountId)
    "debit account exists: post_or_void_pending_transfer validated it"
  let cr ← expect (sm.accounts.lookup record.creditAccountId)
    "credit account exists: post_or_void_pending_transfer validated it"
  let (dr, cr) ← commitPostVoidAccounts record p amountActual dr cr
  let sm ← sm.updateAccount dr
  let sm ← sm.updateAccount cr
  let sm ← sm.accountEvent event.timestamp dr cr record.flags pendingStatus (some p) event.amount
    amountActual
  sm.updatePulseNextTimestamp

def persistTransfer (event : Transfer) (amountActual : U128) : Result StateMachine := do
  let record := { event with amount := amountActual }
  if event.flags.pending then
    let sm ← sm.insertTransfer record.id record
    let sm ← sm.insertTransferPending ⟨record.timestamp, .pending⟩
    commitTransfer sm record amountActual event.amount
  else if event.flags.postOrVoid then
    persistPostVoid sm event amountActual
  else
    let sm ← sm.insertTransfer record.id record
    commitTransfer sm record amountActual event.amount

def persistTransferEvent (timestamp count index : Nat) (event : Transfer)
    (result : CreateTransferResult) (sm : StateMachine) : Result StateMachine := do
  let event ←
    if event.flags.imported then pure event
    else pure { event with timestamp := ← timestampEvent timestamp count index }
  assert (event.timestamp = result.timestamp) "event.timestamp == results[index].timestamp"
  persistTransfer sm event result.amountActual

def persistTransfers (events : List Transfer) (results : List CreateTransferResult)
    (timestamp : Nat) : Result StateMachine :=
  persistBatch (fun event => event.flags.linked)
    (fun result => result.status = .created) (persistTransferEvent timestamp events.length) 0 []
    (events.zip results) (sm.orphan (events.zip results))

def expire (timestampEvent : Nat) (id : U128) : Result StateMachine := do
  assert (sm.commitTimestamp < timestampEvent) "self.commit_timestamp < timestamp_event"
  let sm := { sm with commitTimestamp := timestampEvent }
  let p ← expect (sm.transfers.lookup id) "due pending transfer is committed"
  assert (p.timestamp + p.timeoutNs ≤ timestampEvent) "expires_at <= timestamp_event"
  let dr ← expect (sm.accounts.lookup p.debitAccountId)
    "debit account exists: asserted debits_pending >= amount at creation"
  let cr ← expect (sm.accounts.lookup p.creditAccountId)
    "credit account exists: asserted credits_pending >= amount at creation"
  assert (p.amount ≤ dr.debitsPending) "dr.debits_pending >= p.amount"
  assert (p.amount ≤ cr.creditsPending) "cr.credits_pending >= p.amount"
  let debits ← sub dr.debitsPending p.amount
  let credits ← sub cr.creditsPending p.amount
  assert (p.flags.closingDebit → dr.flags.closed) "dr_new.flags.closed()"
  assert (p.flags.closingCredit → cr.flags.closed) "cr_new.flags.closed()"
  let drNew := { dr with
    debitsPending := debits
    flags := if p.flags.closingDebit then dr.flags.withoutClosed else dr.flags }
  let crNew := { cr with
    creditsPending := credits
    flags := if p.flags.closingCredit then cr.flags.withoutClosed else cr.flags }
  let drUpdated : Bool := 0 < p.amount ∨ drNew.flags.closed ≠ dr.flags.closed
  let crUpdated : Bool := 0 < p.amount ∨ crNew.flags.closed ≠ cr.flags.closed
  let sm ← sm.updateAccountIf drUpdated drNew
  let sm ← sm.updateAccountIf crUpdated crNew
  let sm ← sm.updateTransferPendingStatus p.timestamp .expired
  sm.accountEvent timestampEvent drNew crNew ⟨0⟩ .expired (some p) 0 p.amount

def expireAll (timestamp count : Nat) :
    (index : Nat) → List (Nat × Nat × U128) → StateMachine → Result StateMachine
  | _, [], sm => return sm
  | index, (_, _, id) :: due, sm => do
    let timestampEvent ← timestampEvent timestamp count index
    expireAll timestamp count (index + 1) due (← expire sm timestampEvent id)

def expirePendingTransfers (timestamp : Nat) : Result StateMachine := do
  assert (sm.commitTimestamp < timestamp)
    "expiry must advance commit_timestamp (upstream assert: timestamp > commit_timestamp)"
  assert (0 < timestamp)
    "expiry timestamps are assigned from a positive base and cannot overflow"
  let byMap ← sm.expiring "pending transfer status row implies a committed pending transfer"
  let due := byMap.filter fun (expiresAt, _) => expiresAt ≤ timestamp
  (← expireAll timestamp due.length 0 due sm).updatePulseNextTimestamp

variable [Hasher]

def executeCreateTransfers (events : List Transfer) (timestamp : Nat)
    (accountsObjects : AccountObjectsCache) (transfersObjects : TransferObjectsCache)
    (transfersPendingObjects : TransferPendingObjectsCache) (transfersKeyMax : Nat)
    (accountTimestamps accountTimestampsEnqueued : List Nat) (workingOrphaned orphaned : Finset U128)
    (prefetch : TransferPrefetchKeys) : Result (Loop CreateTransferResult TransfersState) :=
  let imported := events.head?.any fun event => event.flags.imported
  let batch : TransfersBatch := {
    timestamp, imported, prefetch, accountTimestamps, accountTimestampsEnqueued, orphaned
  }
  (orchestrator batch).orchestrate timestamp events {
    accountsObjects, transfersObjects, transfersPendingObjects
    runningKeyMax := transfersKeyMax
    chainKeyMaxSnapshot := none
    workingOrphaned
  }

def createTransfers (events : List Transfer) (timestamp : Nat) :
    Result (List CreateTransferResult × StateMachine) := do
  assert (sm.commitTimestamp ≤ timestamp) "self.commit_timestamp <= timestamp"
  let prefetch := prefetchCreateTransfers events fun id => sm.transfers.lookup id
  let (accountTimestamps, sm) ← sm.createTransfersPrefetch prefetch
  let loop ← executeCreateTransfers events timestamp sm.accountsObjects sm.transfersObjects
    sm.transfersPendingObjects sm.transfersTimestampMax accountTimestamps prefetch.accountTimestamps
    ∅ sm.transfersOrphaned prefetch
  let sm := { sm with
    accountsObjects := loop.state.accountsObjects
    transfersObjects := loop.state.transfersObjects
    transfersPendingObjects := loop.state.transfersPendingObjects
  }
  return (loop.results, ← persistTransfers sm events loop.results timestamp)

def step : StateMachine.Call → Result StateMachine
  | .createAccounts events timestamp => return (← sm.createAccounts events timestamp).2
  | .createTransfers events timestamp => return (← createTransfers sm events timestamp).2
  | .expirePendingTransfers timestamp => expirePendingTransfers sm timestamp

end TigerBeetle.Accounting.Checked
