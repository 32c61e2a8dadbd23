import TigerBeetle.Theorems.Orphaned
import TigerBeetle.Theorems.Retry

namespace TigerBeetle.Accounting

open Fallible HashMap

variable {timestamp : Nat}

theorem Orchestrator.orchestrate_singleton {ε ρ σ : Type} {o : Orchestrator ε ρ σ} {event : ε}
    {state : σ} :
    Meets (fun _ => True)
      (fun loop => ∃ t result, loop.results = [result] ∧ t = timestamp ∧
        if o.linked event then result = o.chainOpen t
        else Meets (fun _ => False) (fun r => r.1 = result) (o.execute event t state))
      (o.orchestrate timestamp [event] state) := by
  have hsettle : ∀ (result : ρ) (loop : Loop ρ σ), loop.results = [] →
      Meets (fun _ => True) (fun loop => loop.results = [result]) (o.settle event result loop) := by
    intro result loop hempty
    unfold settle
    simp only [Meets.bind_eq]
    refine Meets.weaken (Q := fun loop => loop.results = []) (fun loop h => ?_) ?_
    case refine_1 =>
      unfold closeChain
      simp only [Meets.ite_iff, Meets.bind_eq, Meets.pure_eq, h, List.nil_append, implies_true,
        and_true]
      exact fun _ => Meets.trivial
    case refine_2 =>
      unfold breakChain
      simp only [Meets.ite_iff, Meets.pure_eq, hempty, implies_true, true_and]
      intro _
      cases loop.chain with
      | none => exact rfl
      | some start =>
        simp only [Meets.ite_iff, Meets.bind_eq, Meets.pure_eq, List.take_nil, List.drop_nil,
          List.map_nil, List.append_nil, implies_true, true_and]
        exact fun _ => Meets.trivial
  unfold orchestrate run run step
  simp only [Meets.bind_eq, meets_assert_eq, Meets.pure_eq, implies_true, and_true]
  refine Meets.weaken (Q := fun t => t = timestamp) (fun t ht => ?_) ?_
  case refine_2 =>
    unfold timestampEvent
    simp only [Meets.bind_eq, meets_assert_eq, Meets.pure_eq, implies_true, and_true, List.length_singleton]
    omega
  subst ht
  cases hl : o.linked event with
  | true =>
    have hopen : Meets (fun _ => True) (fun (loop : Loop ρ σ) => loop.results = [])
        (o.openChain 0 event { results := [], chain := none, chainBroken := false, state }) := by
      unfold openChain
      simp only [Meets.ite_iff, Meets.bind_eq, Meets.pure_eq, partial_assert, implies_true, and_true]
      exact fun _ _ => Meets.trivial
    refine hopen.weaken fun loop hempty => ?_
    unfold result
    rw [if_pos ⟨hl, rfl⟩, Meets.pure_iff]
    refine (hsettle _ _ hempty).weaken fun loop h _ _ => ?_
    exact ⟨_, _, h, rfl, rfl⟩
  | false =>
    unfold openChain result
    simp only [hl, Bool.false_eq_true, false_and, ↓reduceIte, Meets.pure_eq]
    refine Meets.trivial.returned.weaken fun r hr => ?_
    obtain ⟨hr, _⟩ := hr
    refine (hsettle _ _ rfl).weaken fun loop h _ _ => ?_
    exact ⟨_, _, h, rfl, by rw [hr]; rfl⟩

-- A transfer that is wrong by its own fields.
def Malformed (event : Transfer) : Prop :=
  event.id = 0 ∨ event.id = u128Max ∨
    if event.flags.postOrVoid then
      event.pendingId = 0 ∨ event.pendingId = u128Max ∨ event.pendingId = event.id ∨
        (event.flags.postPendingTransfer ∧ event.flags.voidPendingTransfer) ∨
        event.flags.pending ∨ event.flags.balancingDebit ∨ event.flags.balancingCredit ∨
        event.flags.closingDebit ∨ event.flags.closingCredit ∨ event.timeout ≠ 0
    else
      event.debitAccountId = 0 ∨ event.debitAccountId = u128Max ∨
        event.creditAccountId = 0 ∨ event.creditAccountId = u128Max ∨
        event.creditAccountId = event.debitAccountId ∨ event.pendingId ≠ 0 ∨
        (event.flags.pending = false ∧ event.timeout ≠ 0) ∨ event.ledger = 0 ∨ event.code = 0

-- An imported event comes with a timestamp before that of its batch, and another one with none.
def Stamped (timestamp : Nat) (event : Transfer) : Prop :=
  if event.flags.imported then event.timestamp ≠ 0 ∧ event.timestamp < timestamp
  else event.timestamp = 0

instance {timestamp : Nat} {event : Transfer} : Decidable (Stamped timestamp event) :=
  inferInstanceAs (Decidable (if event.flags.imported = true then _ else _))

-- The checks of the flags and the id.
open CreateTransferStatus in
def answerIdentity (event : Transfer) : Option CreateTransferStatus := do
  if event.flags.hasPadding then return reservedFlag
  if event.id = 0 then return idMustNotBeZero
  if event.id = u128Max then return idMustNotBeIntMax
  none

-- The checks of the fields of a transfer that posts or voids another one.
open CreateTransferStatus in
def answerResolution (event : Transfer) : Option CreateTransferStatus := do
  if event.flags.postPendingTransfer ∧ event.flags.voidPendingTransfer then
    return flagsAreMutuallyExclusive
  if event.flags.pending ∨ event.flags.balancingDebit ∨ event.flags.balancingCredit ∨
      event.flags.closingDebit ∨ event.flags.closingCredit then
    return flagsAreMutuallyExclusive
  if event.pendingId = 0 then return pendingIdMustNotBeZero
  if event.pendingId = u128Max then return pendingIdMustNotBeIntMax
  if event.pendingId = event.id then return pendingIdMustBeDifferent
  if event.timeout ≠ 0 then return timeoutReservedForPendingTransfer
  none

section Fields

theorem ite_some_eq_none {α : Type} {p : Prop} [Decidable p] {a : α} {x : Option α} :
    (if p then some a else x) = none ↔ ¬p ∧ x = none := by
  split <;> simp [*]

variable {event : Transfer}

theorem Malformed.resolution (h : Malformed event) (hi : answerIdentity event = none)
    (hp : event.flags.postOrVoid = true) : ∃ status, answerResolution event = some status := by
  rw [← Option.ne_none_iff_exists']
  intro hn
  unfold answerIdentity at hi
  unfold answerResolution at hn
  unfold Malformed at h
  simp only [hp, ↓reduceIte, Option.pure_def, ite_some_eq_none, ne_eq] at h hi hn
  tauto

theorem Malformed.fields (h : Malformed event) (hi : answerIdentity event = none)
    (hp : event.flags.postOrVoid = false) :
    ∃ status, createTransferFields event = some status := by
  rw [← Option.ne_none_iff_exists']
  intro hn
  unfold answerIdentity at hi
  unfold createTransferFields at hn
  unfold Malformed at h
  simp only [hp, Bool.false_eq_true, ↓reduceIte, Option.pure_def, ite_some_eq_none,
    Bool.not_eq_eq_eq_not, Bool.not_true, ne_eq] at h hi hn
  tauto

end Fields

namespace StateMachine

variable (sm : StateMachine) (timestamp : Nat) (event : Transfer)

-- The timestamp of an imported event is that of an account, or goes back behind the transfers.
def Regresses : Prop :=
  event.timestamp ≤ sm.transfersTimestampMax ∨
    (sm.accountsByTimestamp.lookup event.timestamp).isSome

instance : Decidable (sm.Regresses event) :=
  inferInstanceAs (Decidable (_ ∨ _))

-- What a malformed transfer is told.
open CreateTransferStatus in
def answer : Option CreateTransferStatus :=
  if event.flags.linked then
    linkedEventChainOpen
  else if ¬Stamped timestamp event then
    some (if event.flags.imported then importedEventTimestampMustNotAdvance
      else timestampMustBeZero)
  else if event.flags.postOrVoid then
    answerIdentity event <|> match sm.transfers.lookup event.pendingId with
      | none   => some pendingTransferNotFound
      | some p => if p.flags.pending then answerResolution event else some pendingTransferNotPending
  else
    match sm.accounts.lookup event.debitAccountId, sm.accounts.lookup event.creditAccountId with
    | none, _        => some debitAccountNotFound
    | some _, none   => some creditAccountNotFound
    | some _, some _ =>
      if event.flags.imported ∧ sm.Regresses event then
        some importedEventTimestampMustNotRegress
      else
        answerIdentity event <|> createTransferFields event

end StateMachine

variable {accountTimestamps : List Nat}

section Checks

variable {event : Transfer} {status : CreateTransferStatus}

-- A status that comes from the fields of a transfer alone.
structure Static (status : CreateTransferStatus) : Prop where
  created : status ≠ .created
  exists' : status ≠ .exists
  final : status.transient = false
  advances : status ≠ .importedEventTimestampMustNotAdvance
  regresses : status ≠ .importedEventTimestampMustNotRegress
  not_pending : status ≠ .pendingTransferNotPending

theorem static_of_answerIdentity (h : answerIdentity event = some status) : Static status := by
  unfold answerIdentity at h
  simp only [Option.pure_def] at h
  repeat' split at h
  all_goals cases h
  all_goals exact ⟨nofun, nofun, rfl, nofun, nofun, nofun⟩

theorem static_of_answerResolution (h : answerResolution event = some status) : Static status := by
  unfold answerResolution at h
  simp only [Option.pure_def] at h
  repeat' split at h
  all_goals cases h
  all_goals exact ⟨nofun, nofun, rfl, nofun, nofun, nofun⟩

theorem static_of_createTransferFields (h : createTransferFields event = some status) :
    Static status := by
  unfold createTransferFields at h
  simp only [Option.pure_def] at h
  repeat' split at h
  all_goals cases h
  all_goals exact ⟨nofun, nofun, rfl, nofun, nofun, nofun⟩

theorem of_orElse {α : Type} {P : α → Prop} {x y : Option α} {a : α} (hx : ∀ a, x = some a → P a)
    (hy : ∀ a, y = some a → P a) (h : (x <|> y) = some a) : P a := by
  cases x with
  | none   => exact hy a h
  | some b => exact hx a h

theorem createTransfer_answer {dr cr : Account}
    (hp : event.flags.postOrVoid = false)
    (h : (answerIdentity event <|> createTransferFields event) = some status) :
    Meets (fun _ => True) (fun status' => status' = status)
      (createTransfer event timestamp none dr cr) := by
  unfold createTransfer
  unfold answerIdentity at h
  simp only [Meets.bind_eq, Meets.ite_iff, Meets.pure_eq, partial_assert,
    hp, Bool.not_false, true_implies]
  intro _
  refine ⟨fun hf => ?_, fun hf => ⟨fun hf' => ?_, fun hf' => ⟨fun hf'' => ?_, fun hf'' => ?_⟩⟩⟩
  case refine_1 =>
    rw [if_pos hf] at h
    exact Option.some.inj h
  case refine_2 =>
    rw [if_neg hf, if_pos hf'] at h
    exact Option.some.inj h
  case refine_3 =>
    rw [if_neg hf, if_neg hf', if_pos hf''] at h
    exact Option.some.inj h
  case refine_4 =>
    rw [if_neg hf, if_neg hf', if_neg hf''] at h
    have h : createTransferFields event = some status := h
    rw [h]
    rfl

theorem postOrVoidPendingTransfer_answer {p : Transfer} {dr cr : Account}
    {pendingStatus : TransferPendingStatus} {runningKeyMax : Nat} {enqueued : List Nat}
    (h : answerResolution event = some status) :
    Meets (fun _ => True) (fun result => result.status = status)
      (postOrVoidPendingTransfer event timestamp p dr cr pendingStatus runningKeyMax
        accountTimestamps enqueued) := by
  unfold postOrVoidPendingTransfer
  unfold answerResolution at h
  simp only [Option.pure_def] at h
  simp only [Meets.bind_eq, partial_assert]
  intro _ _
  iterate 6
    split at h
    case isTrue hf =>
      rw [if_pos hf]
      exact Option.some.inj h
    rename_i hf
    rw [if_neg hf]
  exact (Option.some_ne_none _ h.symm).elim

end Checks

namespace TransfersBatch

variable {batch : TransfersBatch} {event : Transfer}

theorem reject_eq [Hasher] (hi : batch.imported = event.flags.imported) :
    batch.reject event = if Stamped batch.timestamp event then none else
      some (if event.flags.imported then .importedEventTimestampMustNotAdvance
        else .timestampMustBeZero) := by
  unfold reject Stamped
  rw [hi]
  by_cases ht : event.timestamp = 0 <;> by_cases hf : event.flags.imported = true
  · simp [ht, hf]
  · simp [ht, hf]
  · by_cases hlt : event.timestamp < batch.timestamp
    · simp [ht, hf, hlt, Nat.not_le.mpr hlt]
    · simp [ht, hf, hlt, Nat.le_of_not_lt hlt]
  · simp [ht, hf]

end TransfersBatch

namespace StateMachine

variable [Hasher] {sm : StateMachine} {event : Transfer} {timestamp : Nat}

omit [Hasher] in
-- What is checked of the timestamp of an imported event that has no record.
theorem regresses_meets {batch : TransfersBatch} {t : Nat}
    (htimestamps : event.flags.imported = true → (event.timestamp ∈ batch.accountTimestamps ↔
      (sm.accountsByTimestamp.lookup event.timestamp).isSome = true)) :
    Meets (fun _ => True) (fun r => r = true ↔ event.flags.imported = true ∧ sm.Regresses event)
      (batch.regresses event t sm.transfersTimestampMax none) := by
  unfold TransfersBatch.regresses
  by_cases hi : event.flags.imported = true
  · simp only [hi, true_and, ↓reduceIte, Meets.bind_eq, meets_assert_eq, Meets.pure_eq, implies_true,
      and_true, htimestamps hi, decide_eq_true_eq]
    exact fun _ _ _ => Iff.rfl
  · simp [hi]

variable {status : CreateTransferStatus}

theorem transfer_answer {batch : TransfersBatch} {state : TransfersState} {t : Nat}
    {dr cr : Account} (hp : event.flags.postOrVoid = false)
    (hkeyMax : state.runningKeyMax = sm.transfersTimestampMax)
    (htimestamps : event.flags.imported = true → (event.timestamp ∈ batch.accountTimestamps ↔
      (sm.accountsByTimestamp.lookup event.timestamp).isSome = true))
    (h : (if event.flags.imported ∧ sm.Regresses event then
        some .importedEventTimestampMustNotRegress
      else answerIdentity event <|> createTransferFields event) = some status) :
    Meets (fun _ => True) (fun r => r.1.status = status)
      (batch.transfer event t none dr cr state) := by
  unfold TransfersBatch.transfer createTransferOutcome
  simp only [Meets.bind_eq, hkeyMax]
  refine (regresses_meets htimestamps).weaken fun r hr => ?_
  by_cases hreg : event.flags.imported = true ∧ sm.Regresses event
  · rw [if_pos hreg] at h
    rw [if_pos (hr.mpr hreg)]
    exact Option.some.inj h
  · rw [if_neg hreg] at h
    rw [if_neg (mt hr.mp hreg)]
    have hstatic := of_orElse (fun _ => static_of_answerIdentity)
      (fun _ => static_of_createTransferFields) h
    simp only [Meets.bind_eq, Meets.pure_eq]
    refine (createTransfer_answer hp h).weaken fun status' hs => ?_
    subst hs
    rw [if_neg hstatic.created, if_neg hstatic.exists']
    rfl

-- The timestamps of accounts that the batch of an imported event knows of.
theorem createTransfersPrefetch_timestamps : Meets (fun _ => True)
      (fun r => event.flags.imported = true → (event.timestamp ∈ r.1 ↔
        (sm.accountsByTimestamp.lookup event.timestamp).isSome = true))
      (sm.createTransfersPrefetch
        (prefetchCreateTransfers [event] fun id => sm.transfers.lookup id)) := by
  unfold createTransfersPrefetch
  simp only [Meets.bind_eq, Meets.pure_eq]
  refine Meets.trivial.weaken fun _ _ => Meets.trivial.weaken fun _ _ => Meets.trivial.weaken
    fun _ _ hi => ?_
  simp [prefetchCreateTransfers, hi, enqueue]

theorem postOrVoid_answer
    {sm' : StateMachine} {transfersObjects : TransferObjectsCache} {t : Nat} (hs : Sound sm)
    (hp : Prefetched sm (prefetchCreateTransfers [event] fun id => sm.transfers.lookup id) sm')
    (hpost : event.flags.postOrVoid = true) (hidle : transfersObjects.Idle)
    (hview : transfersObjects.view = (transfersState sm').transfersObjects.view)
    (h : (answerIdentity event <|> match sm.transfers.lookup event.pendingId with
      | none   => some .pendingTransferNotFound
      | some p => if p.flags.pending then answerResolution event else some .pendingTransferNotPending) =
        some status) :
    Meets (fun _ => True) (fun r => r.1.status = status)
      ((transfersBatch [event] timestamp accountTimestamps sm').postOrVoid event t none
        { transfersState sm' with transfersObjects }) := by
  have hf := hp.follows hs
  have hkeys := @prefetches sm [event]
  have hpending : (transfersObjects.get event.pendingId).1 = sm.transfers.lookup event.pendingId := by
    rw [CacheMap.usable_idle.get_fst _ hidle, hview]
    exact hf.transfers _ (hkeys.pending event (List.mem_singleton_self _) hpost).1
  unfold answerIdentity at h
  unfold TransfersBatch.postOrVoid
  simp only [Meets.bind_eq, Meets.ite_iff, Meets.pure_eq, partial_assert]
  refine ⟨fun hf => ?_, fun hf => ⟨fun hf' => ?_, fun hf' => ⟨fun hf'' => ?_, fun hf'' _ => ?_⟩⟩⟩
  case refine_1 =>
    rw [if_pos hf] at h
    exact Option.some.inj h
  case refine_2 =>
    rw [if_neg hf, if_pos hf'] at h
    exact Option.some.inj h
  case refine_3 =>
    rw [if_neg hf, if_neg hf', if_pos hf''] at h
    exact Option.some.inj h
  case refine_4 =>
    rw [if_neg hf, if_neg hf', if_neg hf'', ← hpending] at h
    unfold TransfersBatch.resolve
    cases hget : (transfersObjects.get event.pendingId).1 with
    | none =>
      rw [hget] at h
      exact Option.some.inj h
    | some p =>
      rw [hget] at h
      have h : (if p.flags.pending then answerResolution event
        else some .pendingTransferNotPending) = some status := h
      by_cases hpend : p.flags.pending = true
      · rw [if_pos hpend] at h
        have hc := (static_of_answerResolution h).created
        dsimp only
        rw [if_neg (by simp [hpend])]
        simp only [Meets.bind_eq]
        refine Meets.trivial.weaken fun _ _ => Meets.trivial.weaken fun _ _ =>
          Meets.trivial.weaken fun _ _ => Meets.trivial.weaken fun _ _ => Meets.trivial.weaken
            fun _ _ => (postOrVoidPendingTransfer_answer h).weaken fun result hr => ?_
        rw [if_neg (hr ▸ hc)]
        exact hr
      · rw [if_neg hpend] at h
        dsimp only
        rw [if_pos (by simpa using hpend)]
        exact Option.some.inj h

theorem execute_answer
    {sm' : StateMachine} {t : Nat} (hs : Sound sm) (hn : sm.transfers.lookup event.id = none)
    (ho : event.id ∉ sm.transfersOrphaned) (hl : event.flags.linked = false)
    (hpre : sm.createTransfersPrefetch
      (prefetchCreateTransfers [event] fun id => sm.transfers.lookup id) = .ok (accountTimestamps, sm'))
    (h : sm.answer timestamp event = some status) :
    Meets (fun _ => True) (fun r => r.1.status = status)
      ((transfersBatch [event] timestamp accountTimestamps sm').execute event t
        (transfersState sm')) := by
  have hp : Prefetched sm (prefetchCreateTransfers [event] fun id => sm.transfers.lookup id) sm' :=
    hs.createTransfersPrefetch.post hpre
  have htimestamps := createTransfersPrefetch_timestamps.post hpre
  have hf := hp.follows hs
  have hkeys := @prefetches sm [event]
  have hm := List.mem_singleton_self event
  have hreject : (transfersBatch [event] timestamp accountTimestamps sm').reject event = _ :=
    TransfersBatch.reject_eq (by simp [transfersBatch])
  unfold answer at h
  rw [hl, if_neg Bool.false_ne_true] at h
  unfold TransfersBatch.execute
  rw [hreject]
  by_cases hstamped : Stamped timestamp event
  case neg =>
    rw [if_pos hstamped] at h
    rw [show (transfersBatch [event] timestamp accountTimestamps sm').timestamp = timestamp from rfl,
      if_neg hstamped]
    exact Option.some.inj h
  case pos =>
    rw [if_neg (not_not.mpr hstamped)] at h
    rw [show (transfersBatch [event] timestamp accountTimestamps sm').timestamp = timestamp from rfl,
      if_pos hstamped]
    have hget : ((transfersState sm').transfersObjects.get event.id).1 = none :=
      (CacheMap.usable_idle.get_fst event.id hp.transfers.idle).trans (hf.transfersWithin _ hn)
    have hidle := CacheMap.usable_idle.get (transfersState sm').transfersObjects event.id
      hp.transfers.idle
    have hview := CacheMap.usable_idle.view_get event.id hp.transfers.idle
    have horphaned : ¬(event.id ∈ (transfersState sm').workingOrphaned ∨
        event.id ∈ (transfersBatch [event] timestamp accountTimestamps sm').orphaned) := by
      refine not_or.mpr ⟨Finset.notMem_empty _, ?_⟩
      show event.id ∉ sm'.transfersOrphaned
      rw [hp.orphaned]
      exact ho
    simp only [Meets.bind_eq, partial_assert, hget, if_neg horphaned]
    intro _
    by_cases hpost : event.flags.postOrVoid = true
    case pos =>
      rw [if_pos hpost] at h ⊢
      exact postOrVoid_answer hs hp hpost hidle hview h
    case neg =>
      rw [if_neg hpost] at h ⊢
      have hpost : event.flags.postOrVoid = false := by simpa using hpost
      obtain ⟨hdebit, hcredit⟩ := hkeys.accounts event hm hpost
      unfold TransfersBatch.plain
      simp only [Meets.bind_eq]
      refine (TransfersBatch.readCachedAccount_meets CacheMap.usable_idle hp.accounts.idle).weaken ?_
      rintro ⟨dr, objects₁⟩ ⟨hdr, hi₁, hv₁⟩
      refine (TransfersBatch.readCachedAccount_meets CacheMap.usable_idle hi₁).weaken ?_
      rintro ⟨cr, objects₂⟩ ⟨hcr, _, _⟩
      have hdr : dr = sm.accounts.lookup event.debitAccountId :=
        hdr.trans (hf.accounts _ hdebit)
      have hcr : cr = sm.accounts.lookup event.creditAccountId :=
        (hcr.trans (congrFun hv₁ _)).trans (hf.accounts _ hcredit)
      rw [← hdr, ← hcr] at h
      cases dr with
      | none => exact Option.some.inj h
      | some dr =>
        cases cr with
        | none => exact Option.some.inj h
        | some cr => exact transfer_answer hpost hf.keyMax htimestamps h

omit [Hasher] in
theorem answer_of_malformed (hm : Malformed event) :
    ∃ status, sm.answer timestamp event = some status := by
  unfold answer
  split
  · exact ⟨_, rfl⟩
  split
  · exact ⟨_, rfl⟩
  split
  case isTrue hpost =>
    cases hi : answerIdentity event with
    | some status => exact ⟨status, rfl⟩
    | none =>
      cases sm.transfers.lookup event.pendingId with
      | none => exact ⟨_, rfl⟩
      | some p =>
        by_cases hp : p.flags.pending = true
        · simpa [hp] using hm.resolution hi hpost
        · exact ⟨.pendingTransferNotPending, by simp [hp]⟩
  case isFalse hpost =>
    split
    · exact ⟨_, rfl⟩
    · exact ⟨_, rfl⟩
    · split
      · exact ⟨_, rfl⟩
      · cases hi : answerIdentity event with
        | some status => exact ⟨status, rfl⟩
        | none        => exact hm.fields hi (by simpa using hpost)

theorem createTransfers_answer (hs : Sound sm) (ht : timestamp ≤ TimestampRange.timestampMax)
    (hm : Malformed event) (hn : sm.transfers.lookup event.id = none)
    (ho : event.id ∉ sm.transfersOrphaned) :
    Meets (fun _ => True)
      (fun r => ∃ result, r.1 = [result] ∧ sm.answer timestamp event = some result.status ∧
        (event.id ∈ r.2.transfersOrphaned ↔ result.status.transient = true))
      (sm.createTransfers [event] timestamp) := by
  have hexecutes : Meets _ _ (sm.createTransfers [event] timestamp) :=
    hs.createTransfers (R := fun _ _ _ => True) ht fun _ _ _ _ _ _ _ _ _ => trivial
  have hanswers : Meets (fun _ => True)
      (fun (r : List CreateTransferResult × StateMachine) => ∃ result, r.1 = [result] ∧
        sm.answer timestamp event = some result.status)
      (sm.createTransfers [event] timestamp) := by
    have ⟨status, hanswer⟩ : ∃ status, sm.answer timestamp event = some status :=
      answer_of_malformed hm
    unfold StateMachine.createTransfers
    simp only [Meets.bind_eq, Meets.pure_eq, partial_assert]
    intro _
    refine hs.createTransfersPrefetch.returned.weaken fun ⟨accountTimestamps, sm'⟩ ⟨hpre, hp⟩ => ?_
    have hlookup : sm'.transfers = sm.transfers := congrArg Ledger.transfers hp.ledger
    unfold executeCreateTransfers
    rw [← hlookup]
    refine Meets.weaken (fun loop ⟨t, result, hresults, _, hcase⟩ => ?_)
      (Orchestrator.orchestrate_singleton
        (o := (transfersBatch [event] timestamp accountTimestamps sm').orchestrator))
    refine Meets.trivial.weaken fun _ _ => ⟨result, hresults, ?_⟩
    have hcase : if event.flags.linked then result = ⟨.linkedEventChainOpen, t, 0⟩
        else Meets (fun _ => False)
          (fun (r : CreateTransferResult × TransfersState) => r.1 = result) _ := hcase
    by_cases hl : event.flags.linked = true
    · rw [if_pos hl] at hcase
      unfold answer
      rw [if_pos hl, hcase]
    · rw [if_neg hl] at hcase
      have ⟨r, hr, he⟩ := Meets.iff_exists.mp hcase
      have hstatus := (execute_answer hs hn ho (by simpa using hl) hpre hanswer).post hr
      rw [hanswer, ← hstatus, he]
  refine (hexecutes.and hanswers).weaken fun r ⟨⟨_, _, _, _, _, hx⟩, result, hresult, hanswer⟩ => ?_
  refine ⟨result, hresult, hanswer, ?_⟩
  rw [hx.poisoned, mem_orphan, hresult]
  simp [ho]

-- A malformed transfer is told the same in two states if it is not looked at any further than its
-- place in the batch and its timestamp, or if it finds alike what is looked up for it before its
-- fields are checked: the transfer that it posts or voids, or its accounts and, if it is imported,
-- what its timestamp collides with.
def Alike (sm : StateMachine) (timestamp : Nat) (sm' : StateMachine) (timestamp' : Nat)
    (event : Transfer) : Prop :=
  event.flags.linked = true ∨
  (¬Stamped timestamp event ∧ ¬Stamped timestamp' event) ∨
  Stamped timestamp event ∧ Stamped timestamp' event ∧
    if event.flags.postOrVoid then
      event.flags.hasPadding = true ∨ event.id = 0 ∨ event.id = u128Max ∨
        ∃ p p', sm.transfers.lookup event.pendingId = some p ∧
          sm'.transfers.lookup event.pendingId = some p' ∧ p.flags.pending = p'.flags.pending
    else
      (sm.accounts.lookup event.debitAccountId ≠ none ∧
        sm.accounts.lookup event.creditAccountId ≠ none) ∧
      (sm'.accounts.lookup event.debitAccountId ≠ none ∧
        sm'.accounts.lookup event.creditAccountId ≠ none) ∧
      (event.flags.imported = true → (sm.Regresses event ↔ sm'.Regresses event))

section Answers

variable {sm' : StateMachine} {timestamp' : Nat}

-- The same answer, which does not poison the id.
def Agrees (answer answer' : Option CreateTransferStatus) : Prop :=
  ∃ status, answer = some status ∧ answer' = some status ∧ status.transient = false

omit [Hasher] in
theorem agrees_iff_of_postOrVoid (hm : Malformed event) (hl : event.flags.linked = false)
    (ht : Stamped timestamp event) (ht' : Stamped timestamp' event)
    (hp : event.flags.postOrVoid = true) :
    Agrees (sm.answer timestamp event) (sm'.answer timestamp' event) ↔
      event.flags.hasPadding = true ∨ event.id = 0 ∨ event.id = u128Max ∨
        ∃ p p', sm.transfers.lookup event.pendingId = some p ∧
          sm'.transfers.lookup event.pendingId = some p' ∧ p.flags.pending = p'.flags.pending := by
  unfold answer
  simp only [hl, Bool.false_eq_true, ↓reduceIte, not_not.mpr ht, not_not.mpr ht', hp]
  cases hi : answerIdentity event with
  | some status =>
    have hid : event.flags.hasPadding = true ∨ event.id = 0 ∨ event.id = u128Max := by
      unfold answerIdentity at hi
      by_contra hn
      simp only [not_or] at hn
      have ⟨hpadding, hzero, hmax⟩ := hn
      rw [if_neg hpadding, if_neg hzero, if_neg hmax] at hi
      cases hi
    refine iff_of_true ⟨status, rfl, rfl, (static_of_answerIdentity hi).final⟩ ?_
    tauto
  | none =>
    have hid : ¬event.flags.hasPadding = true ∧ event.id ≠ 0 ∧ event.id ≠ u128Max := by
      unfold answerIdentity at hi
      simpa only [Option.pure_def, ite_some_eq_none, and_true] using hi
    have ⟨status, hstatus⟩ := hm.resolution hi hp
    have hstatic := static_of_answerResolution hstatus
    simp only [hid, false_or]
    unfold Agrees
    cases sm.transfers.lookup event.pendingId with
    | none => simp [CreateTransferStatus.transient]
    | some p =>
      cases sm'.transfers.lookup event.pendingId with
      | none =>
        by_cases hpend : p.flags.pending = true
        · simp [hpend, CreateTransferStatus.transient]
        · simp [hpend]
      | some p' =>
        by_cases hpend : p.flags.pending = true <;> by_cases hpend' : p'.flags.pending = true
        · simp [hpend, hpend', hstatus, hstatic.final]
        · simp [hpend, hpend', hstatus, Ne.symm hstatic.not_pending]
        · simp [hpend, hpend', hstatus, hstatic.not_pending]
        · simp [hpend, hpend', CreateTransferStatus.transient]

omit [Hasher] in
theorem agrees_iff_of_plain (hm : Malformed event) (hl : event.flags.linked = false)
    (ht : Stamped timestamp event) (ht' : Stamped timestamp' event)
    (hp : event.flags.postOrVoid = false) :
    Agrees (sm.answer timestamp event) (sm'.answer timestamp' event) ↔
      (sm.accounts.lookup event.debitAccountId ≠ none ∧
        sm.accounts.lookup event.creditAccountId ≠ none) ∧
      (sm'.accounts.lookup event.debitAccountId ≠ none ∧
        sm'.accounts.lookup event.creditAccountId ≠ none) ∧
      (event.flags.imported = true → (sm.Regresses event ↔ sm'.Regresses event)) := by
  have ⟨status, hstatus⟩ : ∃ status,
      (answerIdentity event <|> createTransferFields event) = some status := by
    cases hi : answerIdentity event with
    | some status => exact ⟨status, rfl⟩
    | none        => exact hm.fields hi hp
  have hstatic := of_orElse (fun _ => static_of_answerIdentity)
    (fun _ => static_of_createTransferFields) hstatus
  unfold answer
  simp only [hl, Bool.false_eq_true, ↓reduceIte, not_not.mpr ht, not_not.mpr ht', hp, hstatus]
  unfold Agrees
  cases sm.accounts.lookup event.debitAccountId with
  | none => simp [CreateTransferStatus.transient]
  | some dr =>
    cases sm.accounts.lookup event.creditAccountId with
    | none => simp [CreateTransferStatus.transient]
    | some cr =>
      cases sm'.accounts.lookup event.debitAccountId with
      | none => simp [CreateTransferStatus.transient]
      | some dr' =>
        cases sm'.accounts.lookup event.creditAccountId with
        | none => simp [CreateTransferStatus.transient]
        | some cr' =>
          by_cases hi : event.flags.imported = true
          · by_cases hr : sm.Regresses event <;> by_cases hr' : sm'.Regresses event
            · simp [hi, hr, hr', CreateTransferStatus.transient]
            · simp [hi, hr, hr', hstatic.regresses]
            · simp [hi, hr, hr', Ne.symm hstatic.regresses]
            · simp [hi, hr, hr', hstatic.final]
          · simp [hi, hstatic.final]

omit [Hasher] in
-- The timestamp of an event that is stamped does not advance.
theorem answer_ne_advances (hl : event.flags.linked = false) (ht : Stamped timestamp event)
    (h : sm.answer timestamp event = some status) :
    status ≠ .importedEventTimestampMustNotAdvance := by
  unfold answer at h
  simp only [hl, Bool.false_eq_true, ↓reduceIte, not_not.mpr ht] at h
  split at h
  · refine of_orElse (P := fun status => status ≠ .importedEventTimestampMustNotAdvance)
      (fun _ h => (static_of_answerIdentity h).advances) (fun status h => ?_) h
    split at h
    · cases h
      nofun
    · split at h
      · exact (static_of_answerResolution h).advances
      · cases h
        nofun
  · split at h
    · cases h
      nofun
    · cases h
      nofun
    · split at h
      · cases h
        nofun
      · exact of_orElse (P := fun status => status ≠ .importedEventTimestampMustNotAdvance)
          (fun _ h => (static_of_answerIdentity h).advances)
          (fun _ h => (static_of_createTransferFields h).advances) h

omit [Hasher] in
theorem agrees_iff (hm : Malformed event) :
    Agrees (sm.answer timestamp event) (sm'.answer timestamp' event) ↔
      Alike sm timestamp sm' timestamp' event := by
  unfold Alike
  by_cases hl : event.flags.linked = true
  · have hlinked : ∀ (sm : StateMachine) timestamp, sm.answer timestamp event =
        some .linkedEventChainOpen := fun _ _ => if_pos hl
    simp only [hl, true_or, iff_true]
    exact ⟨_, hlinked .., hlinked .., rfl⟩
  · have hl : event.flags.linked = false := by simpa using hl
    have hunstamped : ∀ (sm : StateMachine) {timestamp}, ¬Stamped timestamp event →
        sm.answer timestamp event =
          some (if event.flags.imported then .importedEventTimestampMustNotAdvance
            else .timestampMustBeZero) := by
      intro sm timestamp ht
      unfold answer
      rw [hl, if_neg Bool.false_ne_true, if_pos ht]
    have hadvances : ∀ {timestamp timestamp'}, ¬Stamped timestamp event → Stamped timestamp' event →
        event.flags.imported = true := by
      intro timestamp timestamp' hn ht
      by_contra hi
      unfold Stamped at hn ht
      rw [if_neg hi] at hn ht
      exact hn ht
    simp only [hl, Bool.false_eq_true, false_or]
    by_cases ht : Stamped timestamp event <;> by_cases ht' : Stamped timestamp' event
    · simp only [ht, ht', not_true_eq_false, false_and, true_and, false_or]
      by_cases hp : event.flags.postOrVoid = true
      · rw [if_pos hp]
        exact agrees_iff_of_postOrVoid hm hl ht ht' hp
      · rw [if_neg hp]
        exact agrees_iff_of_plain hm hl ht ht' (by simpa using hp)
    · simp only [ht, ht', not_true_eq_false, false_and, and_false, or_self, iff_false]
      intro ⟨status, h, h', _⟩
      rw [hunstamped sm' ht', if_pos (hadvances ht' ht)] at h'
      exact answer_ne_advances hl ht h (Option.some.inj h').symm
    · simp only [ht, ht', not_true_eq_false, false_and, and_false, or_self, iff_false]
      intro ⟨status, h, h', _⟩
      rw [hunstamped sm ht, if_pos (hadvances ht ht')] at h
      exact answer_ne_advances hl ht' h' (Option.some.inj h).symm
    · simp only [ht, ht', not_false_eq_true, and_self, true_or, iff_true]
      refine ⟨_, hunstamped sm ht, hunstamped sm' ht', ?_⟩
      split <;> rfl

end Answers

-- A malformed transfer on its own gets the same status in two states, and its id is not poisoned, if
-- and only if the states are alike in what comes before the checks of its fields.
theorem malformed_iff_alike {sm' after after' : StateMachine} {timestamp' : Nat}
    {results results' : List CreateTransferResult} (h : machine.Reachable Timely sm)
    (h' : machine.Reachable Timely sm') (ht : TimestampRange.valid timestamp)
    (ht' : TimestampRange.valid timestamp') (hm : Malformed event)
    (hn : sm.transfers.lookup event.id = none) (ho : event.id ∉ sm.transfersOrphaned)
    (hn' : sm'.transfers.lookup event.id = none) (ho' : event.id ∉ sm'.transfersOrphaned)
    (hr : sm.createTransfers [event] timestamp = .ok (results, after))
    (hr' : sm'.createTransfers [event] timestamp' = .ok (results', after')) :
    (∃ r r', results = [r] ∧ results' = [r'] ∧ r.status = r'.status ∧ r.status.transient = false ∧
      event.id ∉ after.transfersOrphaned ∧ event.id ∉ after'.transfersOrphaned) ↔
      Alike sm timestamp sm' timestamp' event := by
  have ⟨r, hresults, hanswer, horphaned⟩ :=
    (createTransfers_answer (sound_of_reachable h) ht.2 hm hn ho).post hr
  have ⟨r', hresults', hanswer', horphaned'⟩ :=
    (createTransfers_answer (sound_of_reachable h') ht'.2 hm hn' ho').post hr'
  dsimp only at hresults horphaned hresults' horphaned'
  subst hresults hresults'
  rw [← agrees_iff hm, hanswer, hanswer', horphaned, horphaned']
  constructor
  · rintro ⟨_, _, hr, hr', hs, htransient, _, _⟩
    cases hr
    cases hr'
    exact ⟨_, rfl, congrArg some hs.symm, htransient⟩
  · rintro ⟨_, hs, hs', htransient⟩
    cases hs
    have hs : r'.status = r.status := Option.some.inj hs'
    exact ⟨r, r', rfl, rfl, hs.symm, htransient, by simp [htransient], by simp [hs, htransient]⟩

end StateMachine

namespace StateMachine.Runs

open Accounting.Runs

attribute [local instance] identityHasher

-- A transfer without a code.
def uncoded : Transfer :=
  { transfer 5 1 2 0 with code := 0 }

instance {event : Transfer} : Decidable (Malformed event) :=
  inferInstanceAs (Decidable (_ ∨ _))

-- What a state has to be like for the transfer to be submitted to it at a timestamp.
def Submits (timestamp : Nat) (q : StateMachine → Prop) (sm : StateMachine) : Prop :=
  sm.transfers.lookup uncoded.id = none ∧ uncoded.id ∉ sm.transfersOrphaned ∧ q sm ∧
    Succeeds (sm.createTransfers [uncoded] timestamp)

instance {timestamp : Nat} {q : StateMachine → Prop} [DecidablePred q] :
    DecidablePred (Submits timestamp q) :=
  fun _ => inferInstanceAs (Decidable (_ ∧ _ ∧ _ ∧ _))

-- The accounts that the transfer needs.
def HasAccounts (sm : StateMachine) : Prop :=
  sm.accounts.lookup uncoded.debitAccountId ≠ none ∧ sm.accounts.lookup uncoded.creditAccountId ≠ none

instance : DecidablePred HasAccounts :=
  fun _ => inferInstanceAs (Decidable (_ ∧ _))

theorem malformed_of_uncoded : ∃ sm sm' results results' after after',
    machine.Reachable Timely sm ∧ machine.Reachable Timely sm' ∧
    sm.createTransfers [uncoded] 200 = .ok (results, after) ∧
    sm'.createTransfers [uncoded] 300 = .ok (results', after') ∧
    ∃ r r', results = [r] ∧ results' = [r'] ∧ r.status = r'.status ∧ r.status.transient = false ∧
      uncoded.id ∉ after.transfersOrphaned ∧ uncoded.id ∉ after'.transfersOrphaned := by
  have hinit : machine.Reachable Timely default := .init rfl
  have ⟨sm, h, hn, ho, ha, hc⟩ := hinit.leads (show machine.Leads Timely (Submits 200 HasAccounts)
    [accounts] default by decide +kernel)
  have ⟨sm', h', hn', ho', ha', hc'⟩ := hinit.leads (show machine.Leads Timely
    (Submits 300 HasAccounts) [accounts, created] default by decide +kernel)
  have ⟨⟨results, after⟩, hr, _⟩ := Meets.iff_exists.mp hc
  have ⟨⟨results', after'⟩, hr', _⟩ := Meets.iff_exists.mp hc'
  refine ⟨sm, sm', results, results', after, after', h, h', hr, hr', ?_⟩
  exact (malformed_iff_alike h h' (by decide) (by decide) (by decide) hn ho hn' ho' hr hr').mpr
    (.inr (.inr ⟨by decide, by decide, ha, ha', nofun⟩))

-- Without the accounts the status is that of the account that is not found.
theorem not_malformed_alike : ¬∀ (_ : Hasher) (sm sm' after after' : StateMachine)
    (event : Transfer) (timestamp timestamp' : Nat) (results results' : List CreateTransferResult),
    machine.Reachable Timely sm → machine.Reachable Timely sm' →
    TimestampRange.valid timestamp → TimestampRange.valid timestamp' → Malformed event →
    sm.transfers.lookup event.id = none → event.id ∉ sm.transfersOrphaned →
    sm'.transfers.lookup event.id = none → event.id ∉ sm'.transfersOrphaned →
    sm.createTransfers [event] timestamp = .ok (results, after) →
    sm'.createTransfers [event] timestamp' = .ok (results', after') →
    ∃ r r', results = [r] ∧ results' = [r'] ∧ r.status = r'.status ∧ r.status.transient = false ∧
      event.id ∉ after.transfersOrphaned ∧ event.id ∉ after'.transfersOrphaned := by
  intro hall
  have h : machine.Reachable Timely default := .init rfl
  have hc : Meets (fun _ => False)
      (fun (r : List CreateTransferResult × StateMachine) => uncoded.id ∈ r.2.transfersOrphaned)
      (default.createTransfers [uncoded] 200) := by
    decide +kernel
  have ⟨⟨results, after⟩, hr, ho⟩ := Meets.iff_exists.mp hc
  have ⟨_, _, _, _, _, _, ho', _⟩ := hall identityHasher default default after after uncoded 200 200
    results results h h (by decide) (by decide) (by decide) rfl (by decide) rfl (by decide) hr hr
  exact ho' ho

end StateMachine.Runs

end TigerBeetle.Accounting
