import TigerBeetle.Accounting.Create
import TigerBeetle.Accounting.LinkedChain

namespace TigerBeetle.Accounting

-- The keys to prefetch, each of them once and in the order of their first appearance.
def enqueue {K : Type} [DecidableEq K] (keys : List K) (key : K) : List K :=
  if key ∈ keys then keys else keys ++ [key]

structure CreateAccountResult where
  status : CreateAccountStatus
  timestamp : Nat
  deriving DecidableEq

structure AccountPrefetchKeys where
  accountIds : List U128
  transferTimestamps : List Nat

def prefetchCreateAccounts (events : List Account) : AccountPrefetchKeys where
  accountIds := (events.map Account.id).foldl enqueue []
  transferTimestamps :=
    if events.head?.any fun event => event.flags.imported then
      (events.map Account.timestamp).foldl enqueue []
    else
      []

-- What the events of a batch of accounts are validated against.
structure AccountsState where
  accountsObjects : AccountObjectsCache
  runningKeyMax : Nat

-- What stays the same throughout a batch of accounts.
structure AccountsBatch where
  timestamp : Nat
  imported : Bool
  prefetch : AccountPrefetchKeys
  transferTimestamps : List Nat

structure CreateTransferResult where
  status : CreateTransferStatus
  timestamp : Nat
  amountActual : U128
  deriving DecidableEq

structure TransferPrefetchKeys where
  transferIds : List U128
  pendingTimestamps : List Nat
  accountIds : List U128
  accountTimestamps : List Nat

def prefetchCreateTransfers (events : List Transfer) (getTransfer : U128 → Option Transfer) :
    TransferPrefetchKeys where
  transferIds :=
    (events.flatMap fun event =>
      if event.flags.postOrVoid then [event.id, event.pendingId] else [event.id]).foldl enqueue []
  pendingTimestamps :=
    (events.flatMap fun event =>
      if event.flags.postOrVoid then
        ((getTransfer event.pendingId).map Transfer.timestamp).toList
      else []).foldl enqueue []
  accountIds :=
    (events.flatMap fun event =>
      if event.flags.postOrVoid then
        match getTransfer event.pendingId with
        | some pending => [pending.debitAccountId, pending.creditAccountId]
        | none => []
      else
        [event.debitAccountId, event.creditAccountId]).foldl enqueue []
  accountTimestamps :=
    if events.head?.any fun event => event.flags.imported then
      (events.map Transfer.timestamp).foldl enqueue []
    else
      []

-- What the events of a batch of transfers are validated against.
structure TransfersState where
  accountsObjects : AccountObjectsCache
  transfersObjects : TransferObjectsCache
  transfersPendingObjects : TransferPendingObjectsCache
  runningKeyMax : Nat
  chainKeyMaxSnapshot : Option Nat
  workingOrphaned : Finset U128

-- What stays the same throughout a batch of transfers.
structure TransfersBatch where
  timestamp : Nat
  imported : Bool
  prefetch : TransferPrefetchKeys
  accountTimestamps : List Nat
  accountTimestampsEnqueued : List Nat
  orphaned : Finset U128

variable [Hasher]

namespace AccountsBatch

variable (batch : AccountsBatch)

-- The checks of an event that do not depend on what came before it.
open CreateAccountStatus in
def reject (event : Account) : Option CreateAccountStatus := do
  if batch.imported ≠ event.flags.imported then
    return if event.flags.imported then importedEventNotExpected else importedEventExpected
  if event.flags.imported ∧ (event.timestamp = 0 ∨ event.timestamp ≥ batch.timestamp) then
    return importedEventTimestampMustNotAdvance
  if !event.flags.imported ∧ event.timestamp ≠ 0 then return timestampMustBeZero
  none

-- Whether an imported timestamp goes back behind the accounts or is that of a transfer.
def regresses (event : Account) (timestampEvent runningKeyMax : Nat) (existing : Option Account) :
    Result Bool := do
  if event.flags.imported ∧ existing = none then
    assert (event.timestamp ≠ 0) "event.timestamp != 0"
    assert (event.timestamp ≤ timestampEvent) "event.timestamp <= timestamp_event"
    if event.timestamp ≤ runningKeyMax ∨ event.timestamp ∈ batch.transferTimestamps then
      assert (event.timestamp ∈ batch.prefetch.transferTimestamps)
        "prefetch.transfer_timestamps.contains(event.timestamp)"
      return true
    else
      return false
  else
    return false

def execute (event : Account) (timestampEvent : Nat) (state : AccountsState) :
    Result (CreateAccountResult × AccountsState) := do
  match batch.reject event with
  | some status => return (⟨status, timestampEvent⟩, state)
  | none => do
    let (existing, accountsObjects) := state.accountsObjects.get event.id
    assert (existing = none → event.id ∈ batch.prefetch.accountIds)
      "create_accounts read an account id that was not prefetched"
    let state := { state with accountsObjects }
    if ← batch.regresses event timestampEvent state.runningKeyMax existing then
      return (⟨.importedEventTimestampMustNotRegress, timestampEvent⟩, state)
    else
      let status ← createAccount event timestampEvent existing
      if status = .created then
        let timestamp := if event.flags.imported then event.timestamp else timestampEvent
        let accountsObjects ← state.accountsObjects.upsert { event with timestamp }
        return (⟨status, timestamp⟩,
          { accountsObjects, runningKeyMax := max state.runningKeyMax timestamp })
      else if status = .exists then
        match existing with
        | some existing => return (⟨status, existing.timestamp⟩, state)
        | none => abort "create_account returns Exists only for a matching record"
      else
        return (⟨status, timestampEvent⟩, state)

def orchestrator : Orchestrator Account CreateAccountResult AccountsState where
  linked event := event.flags.linked
  created result := result.status = .created
  isChainOpen result := result.status = .linkedEventChainOpen
  chainOpen timestamp := ⟨.linkedEventChainOpen, timestamp⟩
  linkedFailed timestamp := ⟨.linkedEventFailed, timestamp⟩
  markFailed result := { result with status := .linkedEventFailed }
  scopeOpen state := do
    return { state with accountsObjects := ← state.accountsObjects.scopeOpen }
  execute := batch.execute
  orphan _ _ state := state
  discard state := do
    return { state with accountsObjects := ← state.accountsObjects.scopeClose .discard }
  complete broken state := do
    if broken then
      return state
    else
      return { state with accountsObjects := ← state.accountsObjects.scopeClose .persist }

end AccountsBatch

def executeCreateAccounts (events : List Account) (timestamp : Nat) (prefetch : AccountPrefetchKeys)
    (accountsObjects : AccountObjectsCache) (accountsKeyMax : Nat) (transferTimestamps : List Nat) :
    Result (Loop CreateAccountResult AccountsState) :=
  let imported := events.head?.any fun event => event.flags.imported
  let batch : AccountsBatch := { timestamp, imported, prefetch, transferTimestamps }
  batch.orchestrator.orchestrate timestamp events
    { accountsObjects, runningKeyMax := accountsKeyMax }

def readCachedAccount (accountsObjects : AccountObjectsCache) (prefetch : TransferPrefetchKeys)
    (id : U128) : Result (Option Account × AccountObjectsCache) := do
  let (account, accountsObjects) := accountsObjects.get id
  assert (account = none → id ∈ prefetch.accountIds)
    "create_transfers read an account id that was not prefetched"
  return (account, accountsObjects)

def expect {α : Type} (value : Option α) (message : String) : Result α :=
  match value with
  | some value => return value
  | none => abort message

namespace TransfersBatch

variable (batch : TransfersBatch)

open CreateTransferStatus in
def reject (event : Transfer) : Option CreateTransferStatus := do
  if batch.imported ≠ event.flags.imported then
    return if event.flags.imported then importedEventNotExpected else importedEventExpected
  if event.flags.imported ∧ (event.timestamp = 0 ∨ event.timestamp ≥ batch.timestamp) then
    return importedEventTimestampMustNotAdvance
  if !event.flags.imported ∧ event.timestamp ≠ 0 then return timestampMustBeZero
  none

def regresses (event : Transfer) (timestampEvent runningKeyMax : Nat) (existing : Option Transfer) :
    Result Bool := do
  if event.flags.imported ∧ existing = none then
    assert (event.timestamp ≠ 0) "event.timestamp != 0"
    assert (event.timestamp ≤ timestampEvent) "event.timestamp <= timestamp_event"
    assert (event.timestamp ∈ batch.accountTimestampsEnqueued)
      "account_timestamps_enqueued.contains(event.timestamp)"
    return event.timestamp ≤ runningKeyMax ∨ event.timestamp ∈ batch.accountTimestamps
  else
    return false

-- A transfer that posts or voids a pending one, for which there is no record yet.
def resolve (event : Transfer) (timestampEvent : Nat) (pending : Option Transfer)
    (state : TransfersState) : Result (CreateTransferResult × TransfersState) := do
  match pending with
  | none => return (⟨.pendingTransferNotFound, timestampEvent, 0⟩, state)
  | some p =>
    if !p.flags.pending then
      return (⟨.pendingTransferNotPending, timestampEvent, 0⟩, state)
    else
      let (dr, accountsObjects) ←
        readCachedAccount state.accountsObjects batch.prefetch p.debitAccountId
      let dr ← expect dr "committed pending implies its debit account"
      let (cr, accountsObjects) ← readCachedAccount accountsObjects batch.prefetch p.creditAccountId
      let cr ← expect cr "committed pending implies its credit account"
      let (row, transfersPendingObjects) := state.transfersPendingObjects.get p.timestamp
      let pendingStatus := row.elim .none TransferPending.status
      assert (pendingStatus = .none → p.timestamp ∈ batch.prefetch.pendingTimestamps)
        "create_transfers read a pending timestamp that was not prefetched"
      let result ← postOrVoidPendingTransfer event timestampEvent p dr cr pendingStatus
        state.runningKeyMax batch.accountTimestamps batch.accountTimestampsEnqueued
      if result.status = .created then
        let timestamp := if event.flags.imported then event.timestamp else timestampEvent
        let status := if event.flags.postPendingTransfer then .posted else .voided
        let transfersPendingObjects ← transfersPendingObjects.upsert ⟨p.timestamp, status⟩
        let (dr, cr) ← commitPostVoidAccounts event p result.amountActual dr cr
        let accountsObjects ← accountsObjects.upsert dr
        let accountsObjects ← accountsObjects.upsert cr
        let transfersObjects ← state.transfersObjects.upsert
          (foldPostVoidTransfer event p result.amountActual timestamp)
        return (⟨result.status, timestamp, result.amountActual⟩,
          { state with
            accountsObjects, transfersObjects, transfersPendingObjects
            runningKeyMax := max state.runningKeyMax timestamp })
      else
        return (⟨result.status, timestampEvent, result.amountActual⟩,
          { state with accountsObjects, transfersPendingObjects })

-- A transfer that posts or voids a pending one.
open CreateTransferStatus in
def postOrVoid (event : Transfer) (timestampEvent : Nat) (existing : Option Transfer)
    (state : TransfersState) : Result (CreateTransferResult × TransfersState) := do
  if event.flags.hasPadding then return (⟨reservedFlag, timestampEvent, 0⟩, state)
  if event.id = 0 then return (⟨idMustNotBeZero, timestampEvent, 0⟩, state)
  if event.id = u128Max then return (⟨idMustNotBeIntMax, timestampEvent, 0⟩, state)
  let (pending, transfersObjects) := state.transfersObjects.get event.pendingId
  assert (pending = none → event.pendingId ∈ batch.prefetch.transferIds)
    "create_transfers read a pending transfer id that was not prefetched"
  let state := { state with transfersObjects }
  match existing with
  | none => batch.resolve event timestampEvent pending state
  | some e => do
    if event.flags.raw ≠ e.flags.raw then
      return (⟨existsWithDifferentFlags, timestampEvent, 0⟩, state)
    if event.pendingId ≠ e.pendingId then
      return (⟨existsWithDifferentPendingId, timestampEvent, 0⟩, state)
    if event.timeout ≠ e.timeout then
      return (⟨existsWithDifferentTimeout, timestampEvent, 0⟩, state)
    let p ← expect pending "a committed posting/voiding transfer implies its pending transfer"
    let status ← postOrVoidPendingTransferExists event e p
    let timestamp := if status = .exists then e.timestamp else timestampEvent
    return (⟨status, timestamp, 0⟩, state)

-- A transfer whose accounts exist.
def transfer (event : Transfer) (timestampEvent : Nat) (existing : Option Transfer)
    (dr cr : Account) (state : TransfersState) : Result (CreateTransferResult × TransfersState) := do
  if ← batch.regresses event timestampEvent state.runningKeyMax existing then
    return (⟨.importedEventTimestampMustNotRegress, timestampEvent, 0⟩, state)
  else
    let outcome ← createTransferOutcome event timestampEvent existing dr cr
    if outcome.status = .created then
      let timestamp := if event.flags.imported then event.timestamp else timestampEvent
      let (dr, cr) := commitTransferAccounts event outcome.amountActual dr cr
      let accountsObjects ← state.accountsObjects.upsert dr
      let accountsObjects ← accountsObjects.upsert cr
      let record := { event with amount := outcome.amountActual, timestamp }
      let transfersObjects ← state.transfersObjects.upsert record
      let transfersPendingObjects ←
        if record.flags.pending then
          state.transfersPendingObjects.upsert ⟨record.timestamp, .pending⟩
        else
          pure state.transfersPendingObjects
      return (⟨outcome.status, timestamp, outcome.amountActual⟩,
        { state with
          accountsObjects, transfersObjects, transfersPendingObjects
          runningKeyMax := max state.runningKeyMax timestamp })
    else if outcome.status = .exists then
      match existing with
      | some existing => return (⟨outcome.status, existing.timestamp, 0⟩, state)
      | none => abort "create_transfer returns Exists only for a matching record"
    else
      return (⟨outcome.status, timestampEvent, 0⟩, state)

-- A transfer that neither posts nor voids another one. Its accounts come before its record.
def plain (event : Transfer) (timestampEvent : Nat) (existing : Option Transfer)
    (state : TransfersState) : Result (CreateTransferResult × TransfersState) := do
  let (dr, accountsObjects) ←
    readCachedAccount state.accountsObjects batch.prefetch event.debitAccountId
  let (cr, accountsObjects) ← readCachedAccount accountsObjects batch.prefetch event.creditAccountId
  let state := { state with accountsObjects }
  match dr, cr with
  | some dr, some cr => batch.transfer event timestampEvent existing dr cr state
  | none, _ => return (⟨.debitAccountNotFound, timestampEvent, 0⟩, state)
  | _, none => return (⟨.creditAccountNotFound, timestampEvent, 0⟩, state)

def execute (event : Transfer) (timestampEvent : Nat) (state : TransfersState) :
    Result (CreateTransferResult × TransfersState) := do
  match batch.reject event with
  | some status => return (⟨status, timestampEvent, 0⟩, state)
  | none => do
    let (existing, transfersObjects) := state.transfersObjects.get event.id
    assert (existing = none → event.id ∈ batch.prefetch.transferIds)
      "create_transfers read a transfer id that was not prefetched"
    let state := { state with transfersObjects }
    if event.id ∈ state.workingOrphaned ∨ event.id ∈ batch.orphaned then
      return (⟨.idAlreadyFailed, timestampEvent, 0⟩, state)
    else if event.flags.postOrVoid then
      batch.postOrVoid event timestampEvent existing state
    else
      batch.plain event timestampEvent existing state

def orchestrator : Orchestrator Transfer CreateTransferResult TransfersState where
  linked event := event.flags.linked
  created result := result.status = .created
  isChainOpen result := result.status = .linkedEventChainOpen
  chainOpen timestamp := ⟨.linkedEventChainOpen, timestamp, 0⟩
  linkedFailed timestamp := ⟨.linkedEventFailed, timestamp, 0⟩
  markFailed result := { result with status := .linkedEventFailed }
  scopeOpen state := do
    return { state with
      accountsObjects := ← state.accountsObjects.scopeOpen
      transfersObjects := ← state.transfersObjects.scopeOpen
      transfersPendingObjects := ← state.transfersPendingObjects.scopeOpen
      chainKeyMaxSnapshot := some state.runningKeyMax
    }
  execute := batch.execute
  orphan event result state :=
    if result.status.transient then
      { state with workingOrphaned := insert event.id state.workingOrphaned }
    else
      state
  discard state := do
    return { state with
      accountsObjects := ← state.accountsObjects.scopeClose .discard
      transfersObjects := ← state.transfersObjects.scopeClose .discard
      transfersPendingObjects := ← state.transfersPendingObjects.scopeClose .discard
      runningKeyMax := state.chainKeyMaxSnapshot.getD state.runningKeyMax
    }
  complete broken state := do
    if broken then
      return { state with chainKeyMaxSnapshot := none }
    else
      return { state with
        accountsObjects := ← state.accountsObjects.scopeClose .persist
        transfersObjects := ← state.transfersObjects.scopeClose .persist
        transfersPendingObjects := ← state.transfersPendingObjects.scopeClose .persist
        chainKeyMaxSnapshot := none
      }

end TransfersBatch

def executeCreateTransfers (events : List Transfer) (timestamp : Nat)
    (accountsObjects : AccountObjectsCache) (transfersObjects : TransferObjectsCache)
    (transfersPendingObjects : TransferPendingObjectsCache) (transfersKeyMax : Nat)
    (accountTimestamps accountTimestampsEnqueued : List Nat) (workingOrphaned orphaned : Finset U128)
    (prefetch : TransferPrefetchKeys) : Result (Loop CreateTransferResult TransfersState) :=
  let imported := events.head?.any fun event => event.flags.imported
  let batch : TransfersBatch := {
    timestamp, imported, prefetch, accountTimestamps, accountTimestampsEnqueued, orphaned
  }
  batch.orchestrator.orchestrate timestamp events {
    accountsObjects, transfersObjects, transfersPendingObjects
    runningKeyMax := transfersKeyMax
    chainKeyMaxSnapshot := none
    workingOrphaned
  }

end TigerBeetle.Accounting
