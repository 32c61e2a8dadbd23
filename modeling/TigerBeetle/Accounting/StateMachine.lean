import TigerBeetle.Accounting.Batch
import TigerBeetle.Machine

namespace TigerBeetle.Accounting

-- A change of the balances of two accounts.
structure AccountEvent where
  drAccountId : U128
  drDebitsPending : U128
  drDebitsPosted : U128
  drCreditsPending : U128
  drCreditsPosted : U128
  crAccountId : U128
  crDebitsPending : U128
  crDebitsPosted : U128
  crCreditsPending : U128
  crCreditsPosted : U128
  timestamp : Nat
  drAccountTimestamp : Nat
  crAccountTimestamp : Nat
  drAccountFlags : AccountFlags
  crAccountFlags : AccountFlags
  transferFlags : TransferFlags
  transferPendingFlags : TransferFlags
  transferPendingId : U128
  amountRequested : U128
  amount : U128
  ledger : Nat
  transferPendingStatus : TransferPendingStatus

structure StateMachine where
  commitTimestamp : Nat
  accounts : HashMap U128 Account
  transfers : HashMap U128 Transfer
  transfersOrphaned : Finset U128
  accountsTimestampMax : Nat
  transfersTimestampMax : Nat
  accountsByTimestamp : HashMap Nat U128
  transfersByTimestamp : HashMap Nat U128
  transfersPending : HashMap Nat TransferPending
  accountEvents : HashMap Nat AccountEvent
  accountEventsIndex : HashMap Nat (List Nat)
  pulseNextTimestamp : Nat
  accountsObjects : AccountObjectsCache
  transfersObjects : TransferObjectsCache
  transfersPendingObjects : TransferPendingObjectsCache

-- A batch that is persisted after it has been executed: the events on their own that are created,
-- and the chains all of whose events are. A chain that the batch ends within is dropped.
def persistBatch {ε ρ σ : Type} (linked : ε → Bool) (created : ρ → Bool)
    (persistEvent : (index : Nat) → ε → ρ → σ → Result σ) :
    (index : Nat) → (chain : List (ε × ρ)) → List (ε × ρ) → σ → Result σ
  | _, _, [], state => return state
  | index, chain, (event, result) :: rest, state => do
    let chain := chain ++ [(event, result)]
    if linked event then
      persistBatch linked created persistEvent index chain rest state
    else
      let state ←
        if chain.all fun (_, result) => created result then persistChain index chain state
        else pure state
      persistBatch linked created persistEvent (index + chain.length) [] rest state
where
  persistChain : (index : Nat) → List (ε × ρ) → σ → Result σ
    | _, [], state => return state
    | index, (event, result) :: chain, state => do
      persistChain (index + 1) chain (← persistEvent index event result state)

namespace StateMachine

def newObjects {K V : Type} [Inhabited V] : CacheMap K V :=
  .new {
    cacheValueCountMax := 256
    stashValueCountMax := lsmCompactionOps * 32
    scopeValueCountMax := 32
  }

def default : StateMachine where
  commitTimestamp := 0
  accounts := ∅
  transfers := ∅
  transfersOrphaned := ∅
  accountsTimestampMax := 0
  transfersTimestampMax := 0
  accountsByTimestamp := ∅
  transfersByTimestamp := ∅
  transfersPending := ∅
  accountEvents := ∅
  accountEventsIndex := ∅
  pulseNextTimestamp := TimestampRange.timestampMin
  accountsObjects := newObjects
  transfersObjects := newObjects
  transfersPendingObjects := newObjects

variable (sm : StateMachine)

def insertAccount (id : U128) (account : Account) : Result StateMachine := do
  assert (account.timestamp ≠ 0) "account.timestamp != 0"
  assert ((sm.accountsByTimestamp.lookup account.timestamp).all fun previous => previous = id)
    "two accounts cannot share a timestamp"
  return { sm with
    accountsByTimestamp := sm.accountsByTimestamp.insert account.timestamp id
    accountsTimestampMax := max sm.accountsTimestampMax account.timestamp
    accounts := sm.accounts.insert id account
  }

def updateAccount (account : Account) : Result StateMachine := do
  let old ← expect (sm.accounts.lookup account.id) "updated account is committed"
  assert (old.timestamp = account.timestamp) "old.timestamp == account.timestamp"
  return { sm with accounts := sm.accounts.insert account.id account }

def updateAccountIf (updated : Bool) (account : Account) : Result StateMachine :=
  if updated then sm.updateAccount account else return sm

def insertTransfer (id : U128) (transfer : Transfer) : Result StateMachine := do
  assert (transfer.timestamp ≠ 0) "transfer.timestamp != 0"
  assert ((sm.transfersByTimestamp.lookup transfer.timestamp).all fun previous => previous = id)
    "two transfers cannot share a timestamp"
  return { sm with
    transfersByTimestamp := sm.transfersByTimestamp.insert transfer.timestamp id
    transfersTimestampMax := max sm.transfersTimestampMax transfer.timestamp
    transfers := sm.transfers.insert id transfer
  }

def insertTransferPending (pending : TransferPending) : Result StateMachine := do
  assert (sm.transfersPending.lookup pending.timestamp = none)
    "each pending transfer has a unique timestamp"
  return { sm with transfersPending := sm.transfersPending.insert pending.timestamp pending }

def updateTransferPendingStatus (timestamp : Nat) (status : TransferPendingStatus) :
    Result StateMachine := do
  let transferPending ← expect (sm.transfersPending.lookup timestamp)
    "updating a pending status implies its status row exists"
  assert (transferPending.status = .pending)
    "a pending status only advances once, from `Pending`"
  return { sm with
    transfersPending := sm.transfersPending.insert timestamp { timestamp, status }
  }

def pushAccountEvent (account : Account) (timestampEvent : Nat) : StateMachine :=
  if account.flags.history then
    { sm with
      accountEventsIndex := sm.accountEventsIndex.insert account.timestamp
        ((sm.accountEventsIndex.lookup account.timestamp).getD [] ++ [timestampEvent])
    }
  else
    sm

def accountEvent (timestampEvent : Nat) (drAccount crAccount : Account)
    (transferFlags : TransferFlags) (transferPendingStatus : TransferPendingStatus)
    (transferPending : Option Transfer) (amountRequested amount : U128) : Result StateMachine := do
  assert (0 < timestampEvent) "timestamp_event > 0"
  match transferPendingStatus with
  | .none | .pending => assert transferPending.isNone "transfer_pending.is_none()"
  | .posted | .voided | .expired => assert transferPending.isSome "transfer_pending.is_some()"
  assert (drAccount.ledger = crAccount.ledger) "dr_account.ledger == cr_account.ledger"
  let event : AccountEvent := {
    drAccountId := drAccount.id
    drDebitsPending := drAccount.debitsPending
    drDebitsPosted := drAccount.debitsPosted
    drCreditsPending := drAccount.creditsPending
    drCreditsPosted := drAccount.creditsPosted
    crAccountId := crAccount.id
    crDebitsPending := crAccount.debitsPending
    crDebitsPosted := crAccount.debitsPosted
    crCreditsPending := crAccount.creditsPending
    crCreditsPosted := crAccount.creditsPosted
    timestamp := timestampEvent
    drAccountTimestamp := drAccount.timestamp
    crAccountTimestamp := crAccount.timestamp
    drAccountFlags := drAccount.flags
    crAccountFlags := crAccount.flags
    transferFlags
    transferPendingFlags := transferPending.elim ⟨0⟩ Transfer.flags
    transferPendingId := transferPending.elim 0 Transfer.id
    amountRequested
    amount
    ledger := drAccount.ledger
    transferPendingStatus
  }
  assert (sm.accountEvents.lookup timestampEvent).isNone
    "each account event has a unique timestamp"
  let sm := { sm with accountEvents := sm.accountEvents.insert timestampEvent event }
  return (sm.pushAccountEvent drAccount timestampEvent).pushAccountEvent crAccount timestampEvent

-- The pending transfers that have a timeout, each with the time of its expiry.
def expiring (message : String) : Result (List (Nat × Nat × U128)) := do
  let rows ← sm.transfersPending.entries.mapM fun ⟨pendingTimestamp, pendingStatus⟩ => do
    if pendingStatus.status ≠ .pending then
      return none
    else
      let id ← expect (sm.transfersByTimestamp.lookup pendingTimestamp) message
      let p ← expect (sm.transfers.lookup id) message
      assert p.flags.pending "p.flags.pending()"
      return if p.timeout = 0 then none else some (p.timestamp + p.timeoutNs, pendingTimestamp, id)
  return (rows.filterMap id).mergeSort fun x y =>
    x.1 < y.1 ∨ x.1 = y.1 ∧ (x.2.1 < y.2.1 ∨ x.2.1 = y.2.1 ∧ x.2.2 ≤ y.2.2)

def updatePulseNextTimestamp : Result StateMachine := do
  let byMap ← sm.expiring "the pending status index implies a committed pending transfer"
  return { sm with
    pulseNextTimestamp := byMap.head?.elim TimestampRange.timestampMax fun (expiresAt, _) => expiresAt
  }

def pulseNeeded (timestamp : Nat) : Bool :=
  sm.pulseNextTimestamp ≤ timestamp

def commitTransfer (event : Transfer) (amountActual amountRequested : U128) :
    Result StateMachine := do
  let dr ← expect (sm.accounts.lookup event.debitAccountId)
    "debit account exists: create_transfer validated and overflow checks passed"
  let cr ← expect (sm.accounts.lookup event.creditAccountId)
    "credit account exists: create_transfer validated and overflow checks passed"
  let (dr, cr) := commitTransferAccounts event amountActual dr cr
  let sm ← sm.updateAccount dr
  let sm ← sm.updateAccount cr
  let sm ← sm.accountEvent event.timestamp dr cr event.flags
    (if event.flags.pending then .pending else .none) none amountRequested amountActual
  if 0 < event.timeout then
    assert event.flags.pending "event.flags.pending()"
    assert (!event.flags.imported) "!event.flags.imported()"
    return { sm with
      pulseNextTimestamp := min sm.pulseNextTimestamp (event.timestamp + event.timeoutNs)
    }
  else
    return sm

def persistPostVoid (event : Transfer) (amountActual : U128) : Result StateMachine := do
  let p ← expect (sm.transfers.lookup event.pendingId)
    "posting/voiding a pending transfer implies the pending transfer is committed"
  let record := foldPostVoidTransfer event p amountActual event.timestamp
  let sm ← sm.insertTransfer record.id record
  let pendingStatus := if record.flags.postPendingTransfer then .posted else .voided
  let sm ← sm.updateTransferPendingStatus p.timestamp pendingStatus
  let dr ← expect (sm.accounts.lookup record.debitAccountId)
    "debit account exists: post_or_void_pending_transfer validated it"
  let cr ← expect (sm.accounts.lookup record.creditAccountId)
    "credit account exists: post_or_void_pending_transfer validated it"
  let (dr, cr) ← commitPostVoidAccounts record p amountActual dr cr
  let sm ← sm.updateAccount dr
  let sm ← sm.updateAccount cr
  let sm ← sm.accountEvent event.timestamp dr cr record.flags pendingStatus (some p) event.amount
    amountActual
  sm.updatePulseNextTimestamp

def persistTransfer (event : Transfer) (amountActual : U128) : Result StateMachine := do
  let record := { event with amount := amountActual }
  if event.flags.pending then
    let sm ← sm.insertTransfer record.id record
    let sm ← sm.insertTransferPending ⟨record.timestamp, .pending⟩
    sm.commitTransfer record amountActual event.amount
  else if event.flags.postOrVoid then
    sm.persistPostVoid event amountActual
  else
    let sm ← sm.insertTransfer record.id record
    sm.commitTransfer record amountActual event.amount

def persistAccountEvent (timestamp count index : Nat) (event : Account)
    (result : CreateAccountResult) (sm : StateMachine) : Result StateMachine := do
  let event ←
    if event.flags.imported then pure event
    else pure { event with timestamp := ← timestampEvent timestamp count index }
  assert (event.timestamp = result.timestamp) "event.timestamp == results[index].timestamp"
  sm.insertAccount event.id event

def persistAccounts (events : List Account) (results : List CreateAccountResult) (timestamp : Nat) :
    Result StateMachine :=
  persistBatch (fun event => event.flags.linked) (fun result => result.status = .created)
    (persistAccountEvent timestamp events.length) 0 [] (events.zip results) sm

-- The ids of the transfers that may not be created again.
def orphan (pairs : List (Transfer × CreateTransferResult)) : StateMachine :=
  { sm with
    transfersOrphaned := pairs.foldl
      (fun orphaned (event, result) =>
        if result.status.transient then insert event.id orphaned else orphaned)
      sm.transfersOrphaned
  }

def persistTransferEvent (timestamp count index : Nat) (event : Transfer)
    (result : CreateTransferResult) (sm : StateMachine) : Result StateMachine := do
  let event ←
    if event.flags.imported then pure event
    else pure { event with timestamp := ← timestampEvent timestamp count index }
  assert (event.timestamp = result.timestamp) "event.timestamp == results[index].timestamp"
  sm.persistTransfer event result.amountActual

def persistTransfers (events : List Transfer) (results : List CreateTransferResult)
    (timestamp : Nat) : Result StateMachine :=
  persistBatch (fun event => event.flags.linked) (fun result => result.status = .created)
    (persistTransferEvent timestamp events.length) 0 [] (events.zip results)
    (sm.orphan (events.zip results))

-- The debit account of a pending transfer that expires.
def expireDebit (p : Transfer) (dr : Account) : Account :=
  { dr with
    debitsPending := dr.debitsPending - p.amount
    flags := if p.flags.closingDebit then dr.flags.withoutClosed else dr.flags }

def expireCredit (p : Transfer) (cr : Account) : Account :=
  { cr with
    creditsPending := cr.creditsPending - p.amount
    flags := if p.flags.closingCredit then cr.flags.withoutClosed else cr.flags }

-- A due pending transfer expires.
def expire (timestampEvent : Nat) (id : U128) : Result StateMachine := do
  assert (sm.commitTimestamp < timestampEvent) "self.commit_timestamp < timestamp_event"
  let sm := { sm with commitTimestamp := timestampEvent }
  let p ← expect (sm.transfers.lookup id) "due pending transfer is committed"
  assert (p.timestamp + p.timeoutNs ≤ timestampEvent) "expires_at <= timestamp_event"
  let dr ← expect (sm.accounts.lookup p.debitAccountId)
    "debit account exists: asserted debits_pending >= amount at creation"
  let cr ← expect (sm.accounts.lookup p.creditAccountId)
    "credit account exists: asserted credits_pending >= amount at creation"
  assert (p.amount ≤ dr.debitsPending) "dr.debits_pending >= p.amount"
  assert (p.amount ≤ cr.creditsPending) "cr.credits_pending >= p.amount"
  assert (p.flags.closingDebit → dr.flags.closed) "dr_new.flags.closed()"
  assert (p.flags.closingCredit → cr.flags.closed) "cr_new.flags.closed()"
  let drNew := expireDebit p dr
  let crNew := expireCredit p cr
  let drUpdated : Bool := 0 < p.amount ∨ drNew.flags.closed ≠ dr.flags.closed
  let crUpdated : Bool := 0 < p.amount ∨ crNew.flags.closed ≠ cr.flags.closed
  let sm ← sm.updateAccountIf drUpdated drNew
  let sm ← sm.updateAccountIf crUpdated crNew
  let sm ← sm.updateTransferPendingStatus p.timestamp .expired
  sm.accountEvent timestampEvent drNew crNew ⟨0⟩ .expired (some p) 0 p.amount

def expireAll (timestamp count : Nat) :
    (index : Nat) → List (Nat × Nat × U128) → StateMachine → Result StateMachine
  | _, [], sm => return sm
  | index, (_, _, id) :: due, sm => do
    let timestampEvent ← timestampEvent timestamp count index
    expireAll timestamp count (index + 1) due (← sm.expire timestampEvent id)

def expirePendingTransfers (timestamp : Nat) : Result StateMachine := do
  assert (sm.commitTimestamp < timestamp)
    "expiry must advance commit_timestamp (upstream assert: timestamp > commit_timestamp)"
  assert (0 < timestamp)
    "expiry timestamps are assigned from a positive base and cannot overflow"
  let byMap ← sm.expiring "pending transfer status row implies a committed pending transfer"
  let due := byMap.filter fun (expiresAt, _) => expiresAt ≤ timestamp
  (← expireAll timestamp due.length 0 due sm).updatePulseNextTimestamp

variable [Hasher]

-- The committed values of the keys go to a cache.
def fill {K V : Type} [DecidableEq K] [CacheMapSpec K V] (committed : HashMap K V) :
    List K → CacheMap K V → Result (CacheMap K V)
  | [], map => return map
  | key :: keys, map => do
    match committed.lookup key with
    | some value => fill committed keys (← map.upsert value)
    | none => fill committed keys map

def createAccountsPrefetch (prefetch : AccountPrefetchKeys) : Result (List Nat × StateMachine) := do
  let accountsObjects ← fill sm.accounts prefetch.accountIds sm.accountsObjects
  return (
    prefetch.transferTimestamps.filter fun ts => (sm.transfersByTimestamp.lookup ts).isSome,
    { sm with accountsObjects })

def createTransfersPrefetch (prefetch : TransferPrefetchKeys) :
    Result (List Nat × StateMachine) := do
  let accountsObjects ← fill sm.accounts prefetch.accountIds sm.accountsObjects
  let transfersObjects ← fill sm.transfers prefetch.transferIds sm.transfersObjects
  let transfersPendingObjects ←
    fill sm.transfersPending prefetch.pendingTimestamps sm.transfersPendingObjects
  return (
    prefetch.accountTimestamps.filter fun ts => (sm.accountsByTimestamp.lookup ts).isSome,
    { sm with accountsObjects, transfersObjects, transfersPendingObjects })

def createAccounts (events : List Account) (timestamp : Nat) :
    Result (List CreateAccountResult × StateMachine) := do
  assert (sm.commitTimestamp ≤ timestamp) "self.commit_timestamp <= timestamp"
  let prefetch := prefetchCreateAccounts events
  let (transferTimestamps, sm) ← sm.createAccountsPrefetch prefetch
  let loop ← executeCreateAccounts events timestamp prefetch sm.accountsObjects
    sm.accountsTimestampMax transferTimestamps
  let sm := { sm with accountsObjects := loop.state.accountsObjects }
  return (loop.results, ← sm.persistAccounts events loop.results timestamp)

def createTransfers (events : List Transfer) (timestamp : Nat) :
    Result (List CreateTransferResult × StateMachine) := do
  assert (sm.commitTimestamp ≤ timestamp) "self.commit_timestamp <= timestamp"
  let prefetch := prefetchCreateTransfers events fun id => sm.transfers.lookup id
  let (accountTimestamps, sm) ← sm.createTransfersPrefetch prefetch
  let loop ← executeCreateTransfers events timestamp sm.accountsObjects sm.transfersObjects
    sm.transfersPendingObjects sm.transfersTimestampMax accountTimestamps prefetch.accountTimestamps
    ∅ sm.transfersOrphaned prefetch
  let sm := { sm with
    accountsObjects := loop.state.accountsObjects
    transfersObjects := loop.state.transfersObjects
    transfersPendingObjects := loop.state.transfersPendingObjects
  }
  return (loop.results, ← sm.persistTransfers events loop.results timestamp)

inductive Call
  | createAccounts (events : List Account) (timestamp : Nat)
  | createTransfers (events : List Transfer) (timestamp : Nat)
  | expirePendingTransfers (timestamp : Nat)

def Call.timestamp : Call → Nat
  | createAccounts _ timestamp | createTransfers _ timestamp | expirePendingTransfers timestamp =>
    timestamp

-- The state machine with its calls. A call that panics ends the run.
def machine : Machine StateMachine Call Fault where
  init sm := sm = default
  step sm
    | .createAccounts events timestamp => return (← sm.createAccounts events timestamp).2
    | .createTransfers events timestamp => return (← sm.createTransfers events timestamp).2
    | .expirePendingTransfers timestamp => sm.expirePendingTransfers timestamp

-- On the last beat of a bar the caches give up what they have stashed.
def compact (op : Nat) : Result StateMachine := do
  if op % lsmCompactionOps = lsmCompactionOps - 1 then
    return { sm with
      accountsObjects := ← sm.accountsObjects.compact
      transfersObjects := ← sm.transfersObjects.compact
      transfersPendingObjects := ← sm.transfersPendingObjects.compact
    }
  else
    return sm

-- The state machine with the op that has been committed last. Each op that is committed has its beat
-- of compaction, also if it is none of the calls.
def committing : Machine (StateMachine × Nat) (Option Call) Fault where
  init s := s = (default, 0)
  step s call := do
    let sm ← call.elim (pure s.1) (machine.step s.1)
    return (← sm.compact (s.2 + 1), s.2 + 1)

end StateMachine

end TigerBeetle.Accounting
