import TigerBeetle.Theorems.Accounts

namespace TigerBeetle.Accounting

open Fallible CreateTransferStatus

-- A status of an event that is validated.
@[simp]
def Validated (status : CreateTransferStatus) : Prop :=
  status ≠ linkedEventChainOpen ∧ status ≠ idAlreadyFailed

-- A status that neither creates a transfer nor poisons its id.
def Final (status : CreateTransferStatus) : Prop :=
  status ≠ created ∧ Validated status ∧ status.transient = false

variable {t : Transfer}

theorem createTransferExists_meets {e : Transfer} :
    Meets (fun _ => True) Final (createTransferExists t e) := by
  unfold createTransferExists
  simp [Meets.ite_iff, Final, transient]

variable {p : Transfer}

theorem postOrVoidPendingTransferExists_meets {e : Transfer} :
    Meets (fun _ => True) Final (postOrVoidPendingTransferExists t e p) := by
  unfold postOrVoidPendingTransferExists
  simp [Meets.ite_iff, Final, transient]

theorem final_of_createTransferFields {status : CreateTransferStatus}
    (h : createTransferFields t = some status) : Final status ∧ status ≠ .exists := by
  unfold createTransferFields at h
  simp at h
  refine ⟨by grind [Final, Validated, transient], ?_⟩
  rintro rfl
  repeat' split at h
  all_goals cases h

theorem ne_of_createTransferFields (h : createTransferFields t = none) :
    t.creditAccountId ≠ t.debitAccountId := by
  unfold createTransferFields at h
  simp at h
  grind

theorem pending_of_createTransferFields (h : createTransferFields t = none)
    (hc : t.flags.closingDebit = true ∨ t.flags.closingCredit = true) : t.flags.pending = true := by
  unfold createTransferFields at h
  simp at h
  grind

-- No balance overflows, neither alone nor together with its other half, and none exceeds its limit.
structure Fits (t : Transfer) (drAccount crAccount : Account) (amount : U128) : Prop where
  debitsPending : t.flags.pending = true → amount.toNat + drAccount.debitsPending.toNat < 2 ^ 128
  creditsPending : t.flags.pending = true → amount.toNat + crAccount.creditsPending.toNat < 2 ^ 128
  debitsPosted : amount.toNat + drAccount.debitsPosted.toNat < 2 ^ 128
  creditsPosted : amount.toNat + crAccount.creditsPosted.toNat < 2 ^ 128
  debits :
    amount.toNat + (drAccount.debitsPending + drAccount.debitsPosted).toNat < 2 ^ 128
  credits :
    amount.toNat + (crAccount.creditsPending + crAccount.creditsPosted).toNat < 2 ^ 128
  debitsLimit : drAccount.debitsExceedCredits amount = false
  creditsLimit : crAccount.creditsExceedDebits amount = false

theorem createTransferBalances_meets {timestampActual : Nat}
    {drAccount crAccount : Account} {amount : U128} :
    Meets (fun _ => True)
      (fun status => Validated status ∧ status ≠ .exists ∧
        (status = created → Fits t drAccount crAccount amount ∧
          timestampActual + t.timeoutNs ≤ TimestampRange.timestampMax))
      (createTransferBalances t timestampActual drAccount crAccount amount) := by
  unfold createTransferBalances
  simp [Meets.ite_iff, sumOverflows]
  grind [Fits, Validated, TimestampRange.timestampMax]

variable {dr cr : Account} {timestampEvent : Nat}

-- A transfer of which there is a record already is neither created nor orphaned.
theorem createTransfer_of_some {e : Transfer} :
    Meets (fun _ => True)
      (fun status => Final status ∧ (status = .exists → createTransferExists t e = .ok .exists))
      (createTransfer t timestampEvent (some e) dr cr) := by
  unfold createTransfer
  simp only [Meets.bind_eq, Meets.ite_iff, Meets.pure_eq, partial_assert]
  intros
  refine ⟨fun _ => ?_, fun _ => ⟨fun _ => ?_, fun _ => ⟨fun _ => ?_, fun _ => ?_⟩⟩⟩
  · simp [Final, transient]
  · simp [Final, transient]
  · simp [Final, transient]
  · exact createTransferExists_meets.returned.weaken fun status ⟨h, hf⟩ => ⟨hf, fun he => he ▸ h⟩

-- What every transfer has to pass.
structure Admissible (t : Transfer) : Prop where
  padding : t.flags.hasPadding = false
  id : t.id ≠ 0
  idMax : t.id ≠ u128Max

-- What a created transfer has passed.
structure Creatable (t : Transfer) (dr cr : Account) : Prop where
  admissible : Admissible t
  plain : t.flags.postOrVoid = false
  distinct : t.creditAccountId ≠ t.debitAccountId
  debit : dr.id = t.debitAccountId
  credit : cr.id = t.creditAccountId
  ledger : dr.ledger = cr.ledger
  ledgerEq : t.ledger = dr.ledger
  fits : Fits t dr cr (computeAmountActual t dr cr)
  closing : t.flags.closingDebit = true ∨ t.flags.closingCredit = true → t.flags.pending = true
  opened : dr.flags.closed = false ∧ cr.flags.closed = false

theorem createTransfer_of_none : Meets (fun _ => True)
      (fun status => Validated status ∧ status ≠ .exists ∧
        (status = created → Creatable t dr cr ∧
          (if t.flags.imported then t.timestamp else timestampEvent) + t.timeoutNs ≤
            TimestampRange.timestampMax))
      (createTransfer t timestampEvent none dr cr) := by
  unfold createTransfer
  simp only [Meets.bind_eq, Meets.ite_iff, Meets.pure_eq, partial_assert]
  intros
  refine ⟨fun _ => by simp, fun hpadding => ⟨fun _ => by simp, fun hid => ⟨fun _ => by simp,
    fun hmax hp => ?_⟩⟩⟩
  cases hf : createTransferFields t with
  | some status =>
    have ⟨⟨h₁, h₂, _⟩, h₃⟩ := final_of_createTransferFields hf
    exact ⟨h₂, h₃, fun h => absurd h h₁⟩
  | none =>
    simp only [Meets.bind_eq, Meets.ite_iff, Meets.pure_eq, partial_assert]
    intro hd hc
    refine ⟨fun _ => by simp, fun hl => ⟨fun _ => by simp, fun hl' => ?_⟩⟩
    have last : dr.flags.closed = false → cr.flags.closed = false → Meets (fun _ => True)
        (fun status => Validated status ∧ status ≠ .exists ∧
          (status = created → Creatable t dr cr ∧
            (if t.flags.imported then t.timestamp else timestampEvent) + t.timeoutNs ≤
              TimestampRange.timestampMax))
        (createTransferBalances t (if t.flags.imported then t.timestamp else timestampEvent) dr cr
          (computeAmountActual t dr cr)) := fun hdr hcr =>
      createTransferBalances_meets.weaken fun status ⟨h₁, h₂, h₃⟩ => ⟨h₁, h₂, fun h =>
        ⟨⟨⟨by simpa using hpadding, hid, hmax⟩, by simpa using hp, ne_of_createTransferFields hf, hd, hc,
          by simpa using hl, by simpa using hl', (h₃ h).1, pending_of_createTransferFields hf, hdr, hcr⟩,
          (h₃ h).2⟩⟩
    cases hdr : dr.flags.closed with
    | true => simp
    | false =>
      cases hcr : cr.flags.closed with
      | true => simp
      | false =>
        have last := last hdr hcr
        simp only [last, implies_true, and_true]
        simp

-- The amount that is posted or voided: all of the pending one by default.
def resolvedAmount (t p : Transfer) : U128 :=
  if t.flags.voidPendingTransfer then
    if t.amount = 0 then p.amount else t.amount
  else
    if t.amount = u128Max then p.amount else t.amount

-- What a transfer that posts or voids `p` has passed.
structure Resolvable (t p : Transfer) (status : TransferPendingStatus) (amount : U128) : Prop where
  resolves : t.flags.postOrVoid = true
  exclusive : t.flags.postPendingTransfer = true → t.flags.voidPendingTransfer = false
  plain : t.flags.pending = false
  pending : p.flags.pending = true
  id : p.id = t.pendingId
  different : t.pendingId ≠ t.id
  timeout : t.timeout = 0
  debit : t.debitAccountId = 0 ∨ t.debitAccountId = p.debitAccountId
  credit : t.creditAccountId = 0 ∨ t.creditAccountId = p.creditAccountId
  ledger : t.ledger = 0 ∨ t.ledger = p.ledger
  code : t.code = 0 ∨ t.code = p.code
  status : status = .pending
  amountEq : amount = resolvedAmount t p
  whole : t.flags.postPendingTransfer = false → amount = p.amount
  amount : amount ≤ p.amount

variable {runningKeyMax : Nat}

theorem postOrVoidPendingTransfer_meets {status : TransferPendingStatus}
    {accountTimestamps accountTimestampsEnqueued : List Nat} :
    Meets (fun _ => True)
      (fun result => Validated result.status ∧ result.status ≠ .exists ∧
        (result.status = created → Resolvable t p status result.amountActual ∧
          (t.flags.imported = true → runningKeyMax < t.timestamp)))
      (postOrVoidPendingTransfer t timestampEvent p dr cr status runningKeyMax accountTimestamps
        accountTimestampsEnqueued) := by
  unfold postOrVoidPendingTransfer
  cases status with
  | pending =>
    simp [Meets.ite_iff]
    grind [Resolvable, Validated, resolvedAmount, TransferFlags.postOrVoid, BitVec.le_antisymm]
  | none | posted | voided | expired => simp [Meets.ite_iff]

theorem postOrVoidPendingTransfer_opened {status : TransferPendingStatus}
    {accountTimestamps accountTimestampsEnqueued : List Nat} :
    Meets (fun _ => True)
      (fun result => result.status = created → t.flags.postPendingTransfer = true →
        dr.flags.closed = false ∧ cr.flags.closed = false)
      (postOrVoidPendingTransfer t timestampEvent p dr cr status runningKeyMax accountTimestamps
        accountTimestampsEnqueued) := by
  unfold postOrVoidPendingTransfer
  cases status with
  | pending =>
    simp [Meets.ite_iff]
    grind
  | none | posted | voided | expired => simp [Meets.ite_iff]

variable {event : Transfer}

theorem commitTransferAccounts_timestamp {amount : U128} :
    (commitTransferAccounts event amount dr cr).1.timestamp = dr.timestamp ∧
      (commitTransferAccounts event amount dr cr).2.timestamp = cr.timestamp := by
  unfold commitTransferAccounts
  constructor <;> (dsimp only; split <;> split <;> rfl)

theorem expect_meets {α : Type} {value : Option α} {message : String} :
    Meets (fun _ => True) (fun a => value = some a) (expect value message) := by
  unfold expect
  cases value <;> trivial

theorem commitPostVoidAccounts_meets {amount : U128} :
    Meets (fun _ => True)
      (fun (r : Account × Account) => r.1.id = dr.id ∧ r.1.timestamp = dr.timestamp ∧
        r.2.id = cr.id ∧ r.2.timestamp = cr.timestamp)
      (commitPostVoidAccounts event p amount dr cr) := by
  unfold commitPostVoidAccounts
  simp only [Meets.bind_eq, Meets.ite_iff, Meets.pure_eq, partial_assert, implies_true, and_true,
    true_and]
  intro _ _ _ _
  refine ⟨?_, ?_, ?_, ?_⟩ <;> (split <;> rfl)

-- The part of the state that the events of a batch are validated against.
structure TransfersView where
  accounts : U128 → Option Account
  transfers : U128 → Option Transfer
  pendings : Nat → Option TransferPending
  keyMax : Nat
  orphaned : Finset U128

namespace TransfersView

variable (view : TransfersView)

def putAccounts (dr cr : Account) : TransfersView :=
  { view with accounts :=
      Function.update (Function.update view.accounts dr.id (some dr)) cr.id (some cr) }

def putTransfer (transfer : Transfer) : TransfersView :=
  { view with
    transfers := Function.update view.transfers transfer.id (some transfer)
    keyMax := max view.keyMax transfer.timestamp }

def putPending (pending : TransferPending) : TransfersView :=
  { view with pendings :=
      Function.update view.pendings (pending.timestamp % 2 ^ tombstoneBit) (some pending) }

-- A transfer is created.
def create (record : Transfer) (dr cr : Account) : TransfersView :=
  let view := (view.putAccounts dr cr).putTransfer record
  if record.flags.pending then view.putPending ⟨record.timestamp, .pending⟩ else view

-- A pending transfer is posted or voided.
def resolve (record p : Transfer) (dr cr : Account) : TransfersView :=
  ((view.putAccounts dr cr).putTransfer record).putPending
    ⟨p.timestamp, if record.flags.postPendingTransfer then .posted else .voided⟩

variable {view} {record : Transfer} {dr cr : Account}

theorem accounts_create : (view.create record dr cr).accounts =
    Function.update (Function.update view.accounts dr.id (some dr)) cr.id (some cr) := by
  unfold create
  split <;> rfl

theorem transfers_create : (view.create record dr cr).transfers =
    Function.update view.transfers record.id (some record) := by
  unfold create
  split <;> rfl

theorem pendings_create : (view.create record dr cr).pendings =
    if record.flags.pending = true then
      Function.update view.pendings (record.timestamp % 2 ^ tombstoneBit)
        (some ⟨record.timestamp, .pending⟩)
    else
      view.pendings := by
  unfold create
  split <;> rfl

theorem keyMax_create : (view.create record dr cr).keyMax = max view.keyMax record.timestamp := by
  unfold create
  split <;> rfl

theorem orphaned_create : (view.create record dr cr).orphaned = view.orphaned := by
  unfold create
  split <;> rfl

end TransfersView

variable {result : CreateTransferResult} {existing : Option Transfer}

namespace TransfersBatch

variable {batch : TransfersBatch}

-- A created transfer with its accounts.
structure Creates (before : TransfersView) (event : Transfer) (timestamp : Nat) (amount : U128)
    (dr cr : Account) (after : TransfersView) : Prop where
  debit : before.accounts event.debitAccountId = some dr
  credit : before.accounts event.creditAccountId = some cr
  creatable : Creatable event dr cr
  amountEq : amount = computeAmountActual event dr cr
  expiry : timestamp + event.timeoutNs ≤ TimestampRange.timestampMax
  later : event.flags.imported = true → before.keyMax < timestamp
  after : after = before.create { event with amount, timestamp }
    (commitTransferAccounts event amount dr cr).1 (commitTransferAccounts event amount dr cr).2

-- A pending transfer with its accounts, that is posted or voided.
structure Resolves (before : TransfersView) (event : Transfer) (timestamp : Nat) (amount : U128)
    (p : Transfer) (row : TransferPending) (dr cr dr' cr' : Account) (after : TransfersView) :
    Prop where
  admissible : Admissible event
  pending : before.transfers event.pendingId = some p
  status : before.pendings p.timestamp = some row
  resolvable : Resolvable event p row.status amount
  later : event.flags.imported = true → before.keyMax < timestamp
  debit : before.accounts p.debitAccountId = some dr
  credit : before.accounts p.creditAccountId = some cr
  opened : event.flags.postPendingTransfer = true →
    dr.flags.closed = false ∧ cr.flags.closed = false
  commit : commitPostVoidAccounts event p amount dr cr = .ok (dr', cr')
  after : after = before.resolve (foldPostVoidTransfer event p amount timestamp) p dr' cr'

-- An event of which there is a record that is no different.
structure Repeats (batch : TransfersBatch) (before : TransfersView) (event : Transfer)
    (timestamp : Nat) (e : Transfer) : Prop where
  working : event.id ∉ before.orphaned
  orphaned : event.id ∉ batch.orphaned
  record : before.transfers event.id = some e
  timestamp : timestamp = e.timestamp
  plain : event.flags.postOrVoid = false → createTransferExists event e = .ok .exists
  resolves : event.flags.postOrVoid = true → event.flags.raw = e.flags.raw ∧
    ∃ p, before.transfers event.pendingId = some p ∧
      postOrVoidPendingTransferExists event e p = .ok .exists

-- The effect of an event.
structure Step (batch : TransfersBatch) (before : TransfersView) (event : Transfer)
    (timestamp : Nat) (result : CreateTransferResult) (after : TransfersView) : Prop where
  closed : result.status ≠ linkedEventChainOpen
  failed : result.status ≠ created → after = before
  refused : result.status = idAlreadyFailed →
    event.id ∈ before.orphaned ∨ event.id ∈ batch.orphaned
  transient : result.status.transient = true →
    batch.reject event = none ∧ event.id ∉ before.orphaned ∧ event.id ∉ batch.orphaned ∧
      (before.transfers event.id = none ∨ event.flags.postOrVoid = false ∧
        (before.accounts event.debitAccountId = none ∨
          before.accounts event.creditAccountId = none))
  created : result.status = created →
    event.id ∉ before.orphaned ∧ event.id ∉ batch.orphaned ∧ before.transfers event.id = none ∧
      result.timestamp = (if event.flags.imported then event.timestamp else timestamp) ∧
      result.timestamp ≤ TimestampRange.timestampMax ∧
      ((∃ dr cr, Creates before event result.timestamp result.amountActual dr cr after) ∨
        ∃ p row dr cr dr' cr', Resolves before event result.timestamp result.amountActual p row
          dr cr dr' cr' after)
  accepted : result.status = .created → batch.reject event = none
  repeated : result.status = .exists → ∃ e, batch.Repeats before event result.timestamp e

theorem final_of_reject {status : CreateTransferStatus}
    (h : batch.reject event = some status) : Final status ∧ status ≠ .exists := by
  unfold reject at h
  simp at h
  grind [Final, Validated, CreateTransferStatus.transient]

theorem lt_of_reject (h : batch.reject event = none)
    (hi : event.flags.imported = true) : event.timestamp < batch.timestamp := by
  unfold reject at h
  simp [hi] at h
  grind

variable {timestamp : Nat}

theorem regresses_meets : Meets (fun _ => True)
      (fun regressed => regressed = false → existing = none → event.flags.imported = true →
        runningKeyMax < event.timestamp)
      (batch.regresses event timestamp runningKeyMax existing) := by
  unfold regresses
  simp only [Meets.bind_eq, Meets.ite_iff, Meets.pure_eq, partial_assert]
  grind

theorem Step.of_final {before : TransfersView} (h : Final result.status)
    (hr : result.status = .exists → ∃ e, batch.Repeats before event result.timestamp e) :
    batch.Step before event timestamp result before :=
  ⟨h.2.1.1, fun _ => rfl, fun hr => absurd hr h.2.1.2, fun ht => absurd ht (by simp [h.2.2]),
    fun hc => absurd hc h.1, fun hc => absurd hc h.1, hr⟩

theorem Step.orphaned_eq {before after : TransfersView}
    (h : batch.Step before event timestamp result after) :
    after.orphaned = before.orphaned := by
  by_cases hc : result.status = .created
  · have ⟨_, _, _, _, _, hstep⟩ := h.created hc
    obtain ⟨_, _, hcreates⟩ | ⟨_, _, _, _, _, _, hresolves⟩ := hstep
    · rw [hcreates.after, TransfersView.orphaned_create]
    · rw [hresolves.after]
      rfl
  · rw [h.failed hc]

end TransfersBatch

variable [Hasher]

def TransfersState.view (state : TransfersState) : TransfersView where
  accounts := state.accountsObjects.view
  transfers := state.transfersObjects.view
  pendings := state.transfersPendingObjects.view
  keyMax := state.runningKeyMax
  orphaned := state.workingOrphaned

-- What the caches of a batch of transfers have to be.
structure Caches (P₁ : AccountObjectsCache → Prop) (P₂ : TransferObjectsCache → Prop)
    (P₃ : TransferPendingObjectsCache → Prop) (state : TransfersState) : Prop where
  accounts : P₁ state.accountsObjects
  transfers : P₂ state.transfersObjects
  pendings : P₃ state.transfersPendingObjects

omit [Hasher] in
theorem status_of_elim {row row' : Option TransferPending} (he : row = row')
    (h : row.elim .none TransferPending.status = .pending) :
    row'.map TransferPending.status = some .pending := by
  subst he
  cases row with
  | none     => cases h
  | some row => exact congrArg some h

-- A lookup among the transfers only moves what is cached.
theorem Caches.looked {P₁ : AccountObjectsCache → Prop} {P₂ : TransferObjectsCache → Prop}
    {P₃ : TransferPendingObjectsCache → Prop} {state : TransfersState} (hs : Caches P₁ P₂ P₃ state)
    (h₂ : CacheMap.Usable P₂) (id : U128) :
    Caches P₁ P₂ P₃ { state with transfersObjects := (state.transfersObjects.get id).2 } ∧
      { state with transfersObjects := (state.transfersObjects.get id).2 : TransfersState }.view =
        state.view :=
  ⟨⟨hs.accounts, h₂.get _ _ hs.transfers, hs.pendings⟩,
    by simp [TransfersState.view, h₂.view_get _ hs.transfers]⟩

namespace TransfersBatch

variable {batch : TransfersBatch} {P₁ : AccountObjectsCache → Prop}
    {P₂ : TransferObjectsCache → Prop} {P₃ : TransferPendingObjectsCache → Prop}
    (h₁ : CacheMap.Usable P₁) (h₂ : CacheMap.Usable P₂) (h₃ : CacheMap.Usable P₃)
    {state : TransfersState} {event : Transfer} {timestamp : Nat}

-- What an event makes of the state.
def Done (batch : TransfersBatch) (P₁ : AccountObjectsCache → Prop) (P₂ : TransferObjectsCache → Prop)
    (P₃ : TransferPendingObjectsCache → Prop) (state : TransfersState) (event : Transfer)
    (timestamp : Nat) (r : CreateTransferResult × TransfersState) : Prop :=
  Caches P₁ P₂ P₃ r.2 ∧ r.2.chainKeyMaxSnapshot = state.chainKeyMaxSnapshot ∧
    batch.Step state.view event timestamp r.1 r.2.view

theorem Done.of_final (hs : Caches P₁ P₂ P₃ state)
    (h : Final result.status)
    (hr : result.status = .exists → ∃ e, batch.Repeats state.view event result.timestamp e) :
    batch.Done P₁ P₂ P₃ state event timestamp (result, state) :=
  ⟨hs, rfl, .of_final h hr⟩

theorem Done.congr {state' : TransfersState} {r : CreateTransferResult × TransfersState}
    (h : batch.Done P₁ P₂ P₃ state' event timestamp r) (hv : state'.view = state.view)
    (hk : state'.chainKeyMaxSnapshot = state.chainKeyMaxSnapshot) :
    batch.Done P₁ P₂ P₃ state event timestamp r :=
  ⟨h.1, h.2.1.trans hk, hv ▸ h.2.2⟩

variable {objects : AccountObjectsCache}

include h₁ in
theorem readCachedAccount_meets {prefetch : TransferPrefetchKeys}
    {id : U128} (hp : P₁ objects) :
    Meets (fun _ => True)
      (fun (r : Option Account × AccountObjectsCache) =>
        r.1 = objects.view id ∧ P₁ r.2 ∧ r.2.view = objects.view)
      (readCachedAccount objects prefetch id) := by
  unfold readCachedAccount
  simp only [Meets.bind_eq, Meets.pure_eq, partial_assert]
  exact fun _ => ⟨h₁.get_fst id hp, h₁.get _ _ hp, h₁.view_get id hp⟩

-- An event whose id is not poisoned, and the record of its id.
structure Admitted (batch : TransfersBatch) (state : TransfersState) (event : Transfer)
    (timestamp : Nat) (existing : Option Transfer) : Prop where
  reject : batch.reject event = none
  working : event.id ∉ state.workingOrphaned
  orphaned : event.id ∉ batch.orphaned
  existing : existing = state.view.transfers event.id
  valid : (if event.flags.imported then event.timestamp else timestamp) ≤
    TimestampRange.timestampMax

-- A failed event of which there is no record may poison its id.
theorem Done.of_failed (hs : Caches P₁ P₂ P₃ state)
    (ha : batch.Admitted state event timestamp none)
    (hc : Validated result.status) (h : result.status ≠ created) (hr : result.status ≠ .exists) :
    batch.Done P₁ P₂ P₃ state event timestamp (result, state) :=
  ⟨hs, rfl, hc.1, fun _ => rfl, fun hr => absurd hr hc.2,
    fun _ => ⟨ha.reject, ha.working, ha.orphaned, .inl ha.existing.symm⟩, fun hc => absurd hc h,
    fun hc => absurd hc h, fun he => absurd he hr⟩

include h₁ in
-- The accounts of a transfer are put back one after the other.
theorem putAccounts_meets {Q : AccountObjectsCache → Prop} (hp : P₁ objects)
    (hd : dr.timestamp.testBit tombstoneBit = false)
    (hc : cr.timestamp.testBit tombstoneBit = false)
    (hq : ∀ objects', P₁ objects' →
      objects'.view =
        Function.update (Function.update objects.view dr.id (some dr)) cr.id (some cr) →
      Q objects') :
    Meets (fun _ => True) (fun objects₁ => Meets (fun _ => True) Q (objects₁.upsert cr))
      (objects.upsert dr) := by
  refine (h₁.upsert _ dr hp (by simpa [CacheMapSpec.tombstone] using hd)).weaken
    fun objects₁ ⟨hp₁, hv₁⟩ => ?_
  refine (h₁.upsert _ cr hp₁ (by simpa [CacheMapSpec.tombstone] using hc)).weaken
    fun objects₂ ⟨hp₂, hv₂⟩ => hq objects₂ hp₂ ?_
  rw [hv₂, hv₁]
  rfl

include h₁ in
theorem not_tombstone_of_view (hp : P₁ objects) {id : U128}
    {account : Account} (h : objects.view id = some account) :
    account.timestamp.testBit tombstoneBit = false :=
  (h₁.sound _ hp).tombstone_eq h

section

variable (hs : Caches P₁ P₂ P₃ state)

include hs

include h₁ h₂ h₃ in
theorem transfer_meets (ha : batch.Admitted state event timestamp existing)
    (hp : event.flags.postOrVoid = false)
    (hd : state.view.accounts event.debitAccountId = some dr)
    (hc : state.view.accounts event.creditAccountId = some cr) :
    Meets (fun _ => True) (batch.Done P₁ P₂ P₃ state event timestamp)
      (batch.transfer event timestamp existing dr cr state) := by
  unfold transfer createTransferOutcome
  simp only [Meets.bind_eq, Meets.ite_iff, Meets.pure_eq]
  refine regresses_meets.weaken fun regressed hlater => ⟨fun _ => ?_, fun hregressed => ?_⟩
  case refine_1 => exact Done.of_final hs (by simp [Final, CreateTransferStatus.transient]) nofun
  case refine_2 =>
    cases existing with
    | some e =>
      refine createTransfer_of_some.weaken fun status ⟨hf, he⟩ => ⟨fun h => absurd h hf.1, fun _ => ?_⟩
      refine ⟨fun h => Done.of_final hs hf fun _ => ⟨e, ha.working, ha.orphaned, ha.existing.symm,
          rfl, fun _ => he h, ?_⟩,
        fun h => Done.of_final hs hf fun h' => absurd h' h⟩
      exact fun h => absurd (hp.symm.trans h) nofun
    | none =>
      refine createTransfer_of_none.weaken fun status ⟨hf, hne, hcr⟩ => ⟨fun h => ?_, fun h => ?_⟩
      case refine_2 => exact ⟨fun _ => trivial, fun _ => Done.of_failed hs ha hf h hne⟩
      case refine_1 =>
        have ⟨hcr, hexpiry⟩ := hcr h
        rw [if_pos h]
        have hd' := not_tombstone_of_view h₁ hs.accounts hd
        have hc' := not_tombstone_of_view h₁ hs.accounts hc
        have htimestamps := @commitTransferAccounts_timestamp dr cr event
          (computeAmountActual event dr cr)
        rw [← htimestamps.1] at hd'
        rw [← htimestamps.2] at hc'
        refine putAccounts_meets h₁ hs.accounts hd' hc' fun objects hp hv => ?_
        have ht := not_tombstone ha.valid
        have hlater' : event.flags.imported = true → state.runningKeyMax <
            if event.flags.imported then event.timestamp else timestamp := fun hi => by
          rw [if_pos hi]
          exact hlater (by simpa using hregressed) rfl hi
        refine (h₂.upsert _ { event with
          amount := computeAmountActual event dr cr
          timestamp := if event.flags.imported then event.timestamp else timestamp } hs.transfers
          (by simpa [CacheMapSpec.tombstone] using ht)).weaken fun transfers ⟨hp', hv'⟩ => ?_
        have done : ∀ pendings, P₃ pendings →
            (⟨objects.view, transfers.view, pendings.view,
              max state.runningKeyMax (if event.flags.imported then event.timestamp else timestamp),
              state.workingOrphaned⟩ : TransfersView) =
              state.view.create { event with
                amount := computeAmountActual event dr cr
                timestamp := if event.flags.imported then event.timestamp else timestamp }
                (commitTransferAccounts event (computeAmountActual event dr cr) dr cr).1
                (commitTransferAccounts event (computeAmountActual event dr cr) dr cr).2 →
            batch.Done P₁ P₂ P₃ state event timestamp
              (⟨status, if event.flags.imported then event.timestamp else timestamp,
                computeAmountActual event dr cr⟩,
              { state with
                accountsObjects := objects, transfersObjects := transfers
                transfersPendingObjects := pendings
                runningKeyMax := max state.runningKeyMax
                  (if event.flags.imported then event.timestamp else timestamp) }) :=
          fun pendings hp'' hv'' => ⟨⟨hp, hp', hp''⟩, rfl, hf.1, fun hn => absurd h hn,
            fun hr => absurd hr hf.2, fun ht => by simp [h, CreateTransferStatus.transient] at ht,
            fun _ => ⟨ha.working, ha.orphaned, ha.existing.symm, rfl, ha.valid,
              .inl ⟨dr, cr, hd, hc, hcr, rfl, hexpiry, hlater', hv''⟩⟩,
            fun _ => ha.reject, fun he => absurd he hne⟩
        refine ⟨fun hpend => ?_, fun hpend => ?_⟩
        · refine (h₃.upsert _ ⟨_, .pending⟩ hs.pendings
            (by simpa [CacheMapSpec.tombstone] using ht)).weaken fun pendings ⟨hp'', hv''⟩ => ?_
          refine done pendings hp'' ?_
          unfold TransfersView.create
          rw [if_pos hpend, hv, hv', hv'']
          rfl
        · refine done _ hs.pendings ?_
          unfold TransfersView.create
          rw [if_neg hpend, hv, hv']
          rfl

include h₁ h₂ h₃ in
theorem plain_meets
    (ha : batch.Admitted state event timestamp existing) (hp : event.flags.postOrVoid = false) :
    Meets (fun _ => True) (batch.Done P₁ P₂ P₃ state event timestamp)
      (batch.plain event timestamp existing state) := by
  unfold plain
  simp only [Meets.bind_eq]
  refine (readCachedAccount_meets h₁ hs.accounts).weaken fun ⟨dr, objects₁⟩ ⟨hd, hp₁, hv₁⟩ => ?_
  refine (readCachedAccount_meets h₁ hp₁).weaken fun ⟨cr, objects₂⟩ ⟨hc, hp₂, hv₂⟩ => ?_
  dsimp only at hd hp₁ hv₁ hc hp₂ hv₂ ⊢
  rw [hv₁] at hc hv₂
  have hs' : Caches P₁ P₂ P₃ { state with accountsObjects := objects₂ } :=
    ⟨hp₂, hs.transfers, hs.pendings⟩
  have hview : { state with accountsObjects := objects₂ : TransfersState }.view = state.view := by
    simp [TransfersState.view, hv₂]
  -- One of the accounts is missing.
  have missing : ∀ status : CreateTransferStatus, Validated status → status ≠ created →
      status ≠ .exists → (state.view.accounts event.debitAccountId = none ∨
        state.view.accounts event.creditAccountId = none) →
      batch.Done P₁ P₂ P₃ state event timestamp
        (⟨status, timestamp, 0⟩, { state with accountsObjects := objects₂ }) :=
    fun status h h' hne hm => ⟨hs', rfl, h.1, fun _ => hview, fun hr => absurd hr h.2,
      fun _ => ⟨ha.reject, ha.working, ha.orphaned, .inr ⟨hp, hm⟩⟩, fun hc => absurd hc h',
      fun hc => absurd hc h', fun he => absurd he hne⟩
  cases dr with
  | none =>
    have := missing debitAccountNotFound (by simp) nofun nofun (.inl hd.symm)
    cases cr <;> exact this
  | some dr =>
    cases cr with
    | none => exact missing creditAccountNotFound (by simp) nofun nofun (.inr hc.symm)
    | some cr =>
      refine (transfer_meets h₁ h₂ h₃ hs' ⟨ha.reject, ha.working, ha.orphaned, ?_, ha.valid⟩ hp ?_
        ?_).weaken fun r hr => hr.congr hview rfl
      · exact ha.existing
      · rw [hview]
        exact hd.symm
      · rw [hview]
        exact hc.symm

include h₁ h₂ h₃ in
theorem resolve_meets {pending : Option Transfer}
    (ha : batch.Admitted state event timestamp none) (had : Admissible event)
    (hpend : pending = state.view.transfers event.pendingId) :
    Meets (fun _ => True) (batch.Done P₁ P₂ P₃ state event timestamp)
      (batch.resolve event timestamp pending state) := by
  unfold resolve
  cases pending with
  | none => exact Done.of_failed hs ha (by simp) nofun nofun
  | some p =>
    simp only [Meets.ite_iff, Meets.bind_eq, Meets.pure_eq]
    refine ⟨fun _ => Done.of_failed hs ha (by simp) nofun nofun, fun hp => ?_⟩
    refine (readCachedAccount_meets h₁ hs.accounts).weaken fun ⟨dr, objects₁⟩ ⟨hd, hp₁, hv₁⟩ => ?_
    refine expect_meets.weaken fun dr hd' => ?_
    refine (readCachedAccount_meets h₁ hp₁).weaken fun ⟨cr, objects₂⟩ ⟨hc, hp₂, hv₂⟩ => ?_
    refine expect_meets.weaken fun cr hc' => ?_
    dsimp only at hd hd' hp₁ hv₁ hc hc' hp₂ hv₂ ⊢
    rw [hv₁] at hc hv₂
    have hd : state.view.accounts p.debitAccountId = some dr := hd.symm.trans hd'
    have hc : state.view.accounts p.creditAccountId = some cr := hc.symm.trans hc'
    have hp₃ := h₃.get _ p.timestamp hs.pendings
    have hv₃ := h₃.view_get p.timestamp hs.pendings
    have hrow := h₃.get_fst p.timestamp hs.pendings
    simp only [partial_assert]
    intro _
    refine (postOrVoidPendingTransfer_meets.and postOrVoidPendingTransfer_opened).weaken
      fun result ⟨⟨hr₁, hne, hr₂⟩, hopened⟩ => ⟨fun h => ?_, fun h => ?_⟩
    case refine_2 =>
      have hs' : Caches P₁ P₂ P₃ { state with
          accountsObjects := objects₂
          transfersPendingObjects := (state.transfersPendingObjects.get p.timestamp).2 } :=
        ⟨hp₂, hs.transfers, hp₃⟩
      refine (Done.of_failed hs' ⟨ha.reject, ha.working, ha.orphaned, ha.existing, ha.valid⟩ hr₁ h
        hne).congr ?_ rfl
      simp [TransfersState.view, hv₂, hv₃]
    case refine_1 =>
      have ⟨hres, hlater⟩ := hr₂ h
      have hlater : event.flags.imported = true → state.runningKeyMax <
          if event.flags.imported then event.timestamp else timestamp := fun hi => by
        rw [if_pos hi]
        exact hlater hi
      -- The row is there, as its status is pending.
      obtain ⟨row, hrow'⟩ : ∃ row, (state.transfersPendingObjects.get p.timestamp).1 = some row := by
        cases hrow : (state.transfersPendingObjects.get p.timestamp).1 with
        | none     => rw [hrow] at hres; cases hres.status
        | some row => exact ⟨row, rfl⟩
      rw [hrow'] at hrow hres
      have ht := not_tombstone ha.valid
      have hptomb : p.timestamp.testBit tombstoneBit = false :=
        (h₂.sound _ hs.transfers).tombstone_eq hpend.symm
      refine (h₃.upsert _ ⟨p.timestamp, if event.flags.postPendingTransfer then .posted else .voided⟩
        hp₃ (by simpa [CacheMapSpec.tombstone] using hptomb)).weaken fun pendings ⟨hp', hv'⟩ => ?_
      refine commitPostVoidAccounts_meets.returned.weaken fun ⟨dr', cr'⟩ ⟨hcm, _, hdt, _, hct⟩ => ?_
      case _ =>
        dsimp only at hcm hdt hct ⊢
        have hd' := not_tombstone_of_view h₁ hs.accounts hd
        have hc' := not_tombstone_of_view h₁ hs.accounts hc
        refine putAccounts_meets h₁ hp₂ (hdt ▸ hd') (hct ▸ hc') fun objects hp'' hv'' => ?_
        refine (h₂.upsert _ (foldPostVoidTransfer event p result.amountActual
          (if event.flags.imported then event.timestamp else timestamp)) hs.transfers
          (by simpa [CacheMapSpec.tombstone, foldPostVoidTransfer] using ht)).weaken
          fun transfers ⟨hp₄, hv₄⟩ => ?_
        refine ⟨⟨hp'', hp₄, hp'⟩, rfl, hr₁.1, fun hn => absurd h hn, fun hr => absurd hr hr₁.2,
          fun ht => by simp [h, CreateTransferStatus.transient] at ht,
          fun _ => ⟨ha.working, ha.orphaned, ha.existing.symm, rfl, ha.valid,
            .inr ⟨p, row, dr, cr, dr', cr', had, hpend.symm, hrow.symm, hres, hlater, hd, hc,
            hopened h, hcm, ?_⟩⟩,
          fun _ => ha.reject, fun he => absurd he hne⟩
        simp only [TransfersState.view, hv', hv'', hv₄, hv₂, hv₃]
        rfl

include h₁ h₂ h₃ in
theorem postOrVoid_meets
    (ha : batch.Admitted state event timestamp existing) (hp : event.flags.postOrVoid = true) :
    Meets (fun _ => True) (batch.Done P₁ P₂ P₃ state event timestamp)
      (batch.postOrVoid event timestamp existing state) := by
  unfold postOrVoid
  simp only [Meets.bind_eq, Meets.ite_iff, Meets.pure_eq, partial_assert]
  have final : ∀ status : CreateTransferStatus, Final status → status ≠ .exists →
      batch.Done P₁ P₂ P₃ state event timestamp (⟨status, timestamp, 0⟩, state) :=
    fun status h hne => Done.of_final hs h fun he => absurd he hne
  refine ⟨fun _ => final _ (by simp [Final, CreateTransferStatus.transient]) nofun, fun hpadding =>
    ⟨fun _ => final _ (by simp [Final, CreateTransferStatus.transient]) nofun, fun hid => ⟨fun _ =>
    final _ (by simp [Final, CreateTransferStatus.transient]) nofun, fun hmax _ => ?_⟩⟩⟩
  have ⟨hs', hview⟩ := hs.looked h₂ event.pendingId
  have ha' : batch.Admitted
      { state with transfersObjects := (state.transfersObjects.get event.pendingId).2 } event
      timestamp existing := ⟨ha.reject, ha.working, ha.orphaned, hview ▸ ha.existing, ha.valid⟩
  cases existing with
  | none =>
    refine (resolve_meets h₁ h₂ h₃ hs' ha' ⟨by simpa using hpadding, hid, hmax⟩ ?_).weaken
      fun r hr => hr.congr hview rfl
    rw [hview]
    exact h₂.get_fst _ hs.transfers
  | some e =>
    have final : ∀ (status : CreateTransferStatus) (t : Nat), Final status →
        (status = .exists → ∃ e, batch.Repeats state.view event t e) →
        batch.Done P₁ P₂ P₃ state event timestamp (⟨status, t, 0⟩,
          { state with transfersObjects := (state.transfersObjects.get event.pendingId).2 }) :=
      fun status t h hr => (Done.of_final hs' h fun he => hview ▸ hr he).congr hview rfl
    simp only [Meets.bind_eq, Meets.ite_iff, Meets.pure_eq]
    refine ⟨fun _ => final _ _ (by simp [Final, CreateTransferStatus.transient]) nofun, fun hflags =>
      ⟨fun _ => final _ _ (by simp [Final, CreateTransferStatus.transient]) nofun, fun _ => ⟨fun _ =>
      final _ _ (by simp [Final, CreateTransferStatus.transient]) nofun, fun _ => ?_⟩⟩⟩
    refine expect_meets.weaken fun p hpending => ?_
    refine postOrVoidPendingTransferExists_meets.returned.weaken fun status ⟨h, hf⟩ =>
      final _ _ hf fun he => ?_
    refine ⟨e, ha.working, ha.orphaned, ha.existing.symm, by rw [if_pos he],
      fun h => absurd (hp.symm.trans h) nofun, fun _ => ⟨not_not.mp hflags, p, ?_, he ▸ h⟩⟩
    exact (h₂.get_fst _ hs.transfers).symm.trans hpending

include h₁ h₂ h₃ in
theorem execute_meets (ht : timestamp ≤ batch.timestamp)
    (hb : batch.timestamp ≤ TimestampRange.timestampMax) :
    Meets (fun _ => True) (batch.Done P₁ P₂ P₃ state event timestamp)
      (batch.execute event timestamp state) := by
  unfold execute
  cases hr : batch.reject event with
  | some status =>
    have ⟨hf, hne⟩ := final_of_reject hr
    exact Done.of_final hs hf fun he => absurd he hne
  | none =>
    simp only [Meets.bind_eq, Meets.ite_iff, Meets.pure_eq, partial_assert]
    intro _
    have ⟨hs', hview⟩ := hs.looked h₂ event.id
    refine ⟨fun ho => ⟨hs', rfl, nofun, fun _ => hview, fun _ => ho, nofun, nofun, nofun, nofun⟩,
      fun ho => ?_⟩
    have ho' := not_or.mp ho
    have ha : batch.Admitted
        { state with transfersObjects := (state.transfersObjects.get event.id).2 } event timestamp
        (state.transfersObjects.get event.id).1 := by
      refine ⟨hr, ho'.1, ho'.2, ?_, ?_⟩
      · rw [hview]
        exact h₂.get_fst _ hs.transfers
      · split
        · next hi =>
          have := lt_of_reject hr hi
          omega
        · omega
    refine ⟨fun hp => (postOrVoid_meets h₁ h₂ h₃ hs' ha hp).weaken fun r hr => hr.congr hview rfl,
      fun hp => (plain_meets h₁ h₂ h₃ hs' ha (by simpa using hp)).weaken
        fun r hr => hr.congr hview rfl⟩

end

-- The law of the transfers' orchestrator. A discarded scope leaves the poisoned ids as they are.
def law (hb : batch.timestamp ≤ TimestampRange.timestampMax) :
    batch.orchestrator.Law TransfersView where
  view := TransfersState.view
  Idle := Caches CacheMap.Idle CacheMap.Idle CacheMap.Idle
  Scoped opened state :=
    Caches (·.Scoped opened.accounts) (·.Scoped opened.transfers) (·.Scoped opened.pendings) state ∧
      state.chainKeyMaxSnapshot = some opened.keyMax
  Valid timestamp := timestamp ≤ batch.timestamp
  Step := batch.Step
  orphaned event result view :=
    if result.status.transient then { view with orphaned := insert event.id view.orphaned }
    else view
  rewind opened current := { opened with orphaned := current.orphaned }
  not_created_chainOpen _ := rfl
  not_created_linkedFailed _ := rfl
  not_created_markFailed _ := rfl
  isChainOpen_chainOpen _ := rfl
  isChainOpen_linkedFailed _ := rfl
  not_chainOpen_of_created r h := by
    simp only [orchestrator, decide_eq_true_eq] at h
    simp [orchestrator, h]
  orphaned_chainOpen _ _ _ := rfl
  orphaned_linkedFailed _ _ _ := rfl
  rewind_self event result view := by
    split <;> rfl
  step_of_not_created _ _ _ _ _ h hc := h.failed (by simpa [orchestrator] using hc)
  not_chainOpen_of_step _ _ _ _ _ h := by simpa [orchestrator] using h.closed
  scopeOpen state h := by
    simp only [orchestrator, Meets.bind_eq, Meets.pure_eq]
    refine h.accounts.scopeOpen.weaken fun _ ⟨hs₁, hv₁⟩ => ?_
    refine h.transfers.scopeOpen.weaken fun _ ⟨hs₂, hv₂⟩ => ?_
    refine h.pendings.scopeOpen.weaken fun _ ⟨hs₃, hv₃⟩ => ⟨⟨⟨hs₁, hs₂, hs₃⟩, rfl⟩, ?_⟩
    simp [TransfersState.view, hv₁, hv₂, hv₃]
  execute _ _ _ ht h :=
    (execute_meets CacheMap.usable_idle CacheMap.usable_idle CacheMap.usable_idle h ht hb).weaken
      fun _ ⟨h₁, _, h₃⟩ => ⟨h₁, h₃⟩
  execute' _ _ _ _ ht h :=
    (execute_meets CacheMap.usable_scoped CacheMap.usable_scoped CacheMap.usable_scoped h.1 ht
      hb).weaken fun _ ⟨h₁, h₂, h₃⟩ => ⟨⟨h₁, h₂.trans h.2⟩, h₃⟩
  orphan event result state h := by
    simp only [orchestrator]
    split
    · exact ⟨h.accounts, h.transfers, h.pendings⟩
    · exact h
  orphan' opened event result state h := by
    simp only [orchestrator]
    split
    · exact ⟨⟨h.1.accounts, h.1.transfers, h.1.pendings⟩, h.2⟩
    · exact h
  view_orphan event result state := by
    simp only [orchestrator]
    split <;> rfl
  discard opened state h := by
    simp only [orchestrator, Meets.bind_eq, Meets.pure_eq]
    refine h.1.accounts.discard.weaken fun _ ⟨hs₁, hv₁⟩ => ?_
    refine h.1.transfers.discard.weaken fun _ ⟨hs₂, hv₂⟩ => ?_
    refine h.1.pendings.discard.weaken fun _ ⟨hs₃, hv₃⟩ => ⟨⟨hs₁, hs₂, hs₃⟩, ?_⟩
    simp [TransfersState.view, hv₁, hv₂, hv₃, h.2]
  persist opened state h := by
    simp only [orchestrator, Bool.false_eq_true, ↓reduceIte, Meets.bind_eq, Meets.pure_eq]
    refine h.1.accounts.persist.weaken fun _ ⟨hs₁, hv₁⟩ => ?_
    refine h.1.transfers.persist.weaken fun _ ⟨hs₂, hv₂⟩ => ?_
    refine h.1.pendings.persist.weaken fun _ ⟨hs₃, hv₃⟩ => ⟨⟨hs₁, hs₂, hs₃⟩, ?_⟩
    simp [TransfersState.view, hv₁, hv₂, hv₃]
  abandon state h := ⟨⟨h.accounts, h.transfers, h.pendings⟩, rfl⟩

end TransfersBatch

end TigerBeetle.Accounting
