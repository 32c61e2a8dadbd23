import TigerBeetle.Theorems.Events

namespace TigerBeetle.Accounting

open Fallible Fault

-- Failures apart from those of the assertions about the timestamps of imported events.
def OnTime (fault : Fault) : Prop :=
  ∀ message ∈ importing, fault ≠ .panic .general message

theorem onTime_panic {message : String} (h : message ∉ importing) :
    OnTime (.panic .general message) := by
  rintro m hm heq
  cases heq
  exact h hm

instance lax_onTime : Lax OnTime where
  allows _ _ h := onTime_panic h
  cutOff := fun _ _ => nofun

variable {amount : U128} {event : Transfer}

theorem commitPostVoidAccounts_onTime {p : Transfer} {dr cr : Account} :
    Meets OnTime (fun _ => True) (commitPostVoidAccounts event p amount dr cr) := by
  unfold commitPostVoidAccounts
  simp [Meets.ite_iff, onTime_panic, importing]

-- In a batch of imported events, none that passes the check against the timestamp of the batch has a
-- timestamp after the one that the batch assigns to it.
def Punctual {ε : Type} (imported : ε → Bool) (timestampOf : ε → Nat) (events : List ε)
    (timestamp : Nat) : Prop :=
  events.head?.any imported = true → ∀ x ∈ events.zipIdx, imported x.1 = true →
    timestampOf x.1 ≠ 0 → timestampOf x.1 < timestamp →
      timestampOf x.1 ≤ stamp timestamp events.length x.2

instance {ε : Type} {imported : ε → Bool} {timestampOf : ε → Nat} {events : List ε}
    {timestamp : Nat} : Decidable (Punctual imported timestampOf events timestamp) :=
  inferInstanceAs (Decidable (_ → ∀ x ∈ events.zipIdx, _ → _ → _ → _ ≤ _))

theorem Punctual.le {ε : Type} {imported : ε → Bool} {timestampOf : ε → Nat}
    {events before after : List ε} {event : ε} {timestamp : Nat}
    (h : Punctual imported timestampOf events timestamp) (he : events = before ++ event :: after)
    (hb : imported event = events.head?.any imported) (hi : imported event = true)
    (ht : timestampOf event ≠ 0 ∧ timestampOf event < timestamp) :
    timestampOf event ≤ stamp timestamp events.length before.length := by
  have hm : (event, before.length) ∈ events.zipIdx := by
    rw [List.mk_mem_zipIdx_iff_getElem?, he]
    simp
  exact h (hb.symm.trans hi) _ hm hi ht.1 ht.2

namespace StateMachine

variable {sm : StateMachine} {timestamp : Nat}

theorem accountEvent_onTime {dr cr : Account} {flags : TransferFlags}
    {status : TransferPendingStatus} {pending : Option Transfer} {requested : U128} :
    Meets OnTime (fun _ => True)
      (sm.accountEvent timestamp dr cr flags status pending requested amount) := by
  unfold accountEvent
  cases status <;> simp [onTime_panic, importing]

theorem commitTransfer_onTime {requested : U128} :
    Meets OnTime (fun _ => True) (sm.commitTransfer event amount requested) := by
  unfold commitTransfer
  simp only [Meets.bind_eq]
  refine (expect_allowed (by simp [watched]) (by simp [importing])).weaken fun dr _ => ?_
  refine (expect_allowed (by simp [watched]) (by simp [importing])).weaken fun cr _ => ?_
  refine updateAccount_events.weaken fun _ _ => updateAccount_events.weaken fun _ _ => ?_
  refine accountEvent_onTime.weaken fun _ _ => ?_
  simp [Meets.ite_iff, onTime_panic, importing]

theorem persistTransfer_onTime : Meets OnTime (fun _ => True) (sm.persistTransfer event amount) := by
  unfold persistTransfer
  simp only [Meets.ite_iff, Meets.bind_eq]
  refine ⟨fun _ => ?_, fun _ => ⟨fun _ => ?_, fun _ => ?_⟩⟩
  · refine insertTransfer_events.weaken fun _ _ => insertTransferPending_events.weaken fun _ _ => ?_
    exact commitTransfer_onTime
  · unfold persistPostVoid
    simp only [Meets.bind_eq]
    refine (expect_allowed (by simp [watched]) (by simp [importing])).weaken fun p _ => ?_
    refine insertTransfer_events.weaken fun _ _ => ?_
    refine updateTransferPendingStatus_events.weaken fun _ _ => ?_
    refine (expect_allowed (by simp [watched]) (by simp [importing])).weaken fun dr _ => ?_
    refine (expect_allowed (by simp [watched]) (by simp [importing])).weaken fun cr _ => ?_
    refine commitPostVoidAccounts_onTime.weaken fun _ _ => ?_
    refine updateAccount_events.weaken fun _ _ => updateAccount_events.weaken fun _ _ => ?_
    refine accountEvent_onTime.weaken fun _ _ => ?_
    exact updatePulseNextTimestamp_events.weaken fun _ _ => trivial
  · exact insertTransfer_events.weaken fun _ _ => commitTransfer_onTime

theorem expire_onTime {id : U128} : Meets OnTime (fun _ => True) (sm.expire timestamp id) := by
  unfold expire
  simp only [Meets.bind_eq, meets_assert_eq]
  refine ⟨fun _ => ?_, fun _ => onTime_panic (by simp [importing])⟩
  refine (expect_allowed (by simp [watched]) (by simp [importing])).weaken fun p _ => ?_
  refine ⟨fun _ => ?_, fun _ => onTime_panic (by simp [importing])⟩
  refine (expect_allowed (by simp [watched]) (by simp [importing])).weaken fun dr _ => ?_
  refine (expect_allowed (by simp [watched]) (by simp [importing])).weaken fun cr _ => ?_
  iterate 4 refine ⟨fun _ => ?_, fun _ => onTime_panic (by simp [importing])⟩
  refine updateAccountIf_events.weaken fun _ _ => updateAccountIf_events.weaken fun _ _ => ?_
  exact updateTransferPendingStatus_events.weaken fun _ _ => accountEvent_onTime

theorem expireAll_onTime {count index : Nat} {due : List (Nat × Nat × U128)} :
    Meets OnTime (fun _ => True) (expireAll timestamp count index due sm) := by
  induction due generalizing index sm with
  | nil => trivial
  | cons x due ih =>
    simp only [StateMachine.expireAll, Meets.bind_eq]
    exact timestampEvent_apart.weaken fun _ _ => expire_onTime.weaken fun _ _ => ih

theorem expirePendingTransfers_onTime :
    Meets OnTime (fun _ => True) (sm.expirePendingTransfers timestamp) := by
  unfold expirePendingTransfers
  simp only [Meets.bind_eq, meets_assert_eq]
  refine ⟨fun _ => ?_, fun _ => onTime_panic (by simp [importing])⟩
  refine ⟨fun _ => ?_, fun _ => onTime_panic (by simp [importing])⟩
  refine (expiring_apart (by simp [watched]) (by simp [importing])).weaken fun _ _ => ?_
  exact expireAll_onTime.weaken fun _ _ => updatePulseNextTimestamp_events.weaken fun _ _ => trivial

variable [Hasher]

theorem createAccounts_onTime {events : List Account}
    (h : Punctual (fun event => event.flags.imported) Account.timestamp events timestamp) :
    Meets OnTime (fun _ => True) (sm.createAccounts events timestamp) := by
  refine createAccounts_allowed fun before event after he hb ht => .inr fun hi => ?_
  refine ⟨(ht hi).1, h.le he hb hi (ht hi), ?_⟩
  unfold prefetchCreateAccounts
  rw [if_pos (hb.symm.trans hi)]
  exact mem_foldl_enqueue.mpr (.inr (List.mem_map_of_mem (by simp [he])))

theorem createTransfers_onTime {events : List Transfer}
    (h : Punctual (fun event => event.flags.imported) Transfer.timestamp events timestamp) :
    Meets OnTime (fun _ => True) (sm.createTransfers events timestamp) := by
  unfold StateMachine.createTransfers createTransfersPrefetch
  simp only [Meets.bind_eq, Meets.pure_eq, meets_assert_eq]
  refine ⟨fun _ => ?_, fun _ => onTime_panic (by simp [importing])⟩
  refine fill_apart.weaken fun _ _ => fill_apart.weaken fun _ _ => fill_apart.weaken fun _ _ => ?_
  refine Meets.weaken (fun loop _ => ?_) (TransfersBatch.orchestrator_parts.orchestrate
    fun before event after he state => TransfersBatch.execute_apart
      (fun _ _ _ _ _ => commitPostVoidAccounts_onTime) fun hr => .inr fun hi => ?_)
  · refine persistBatch_meets (fun index event result sm _ => ?_) trivial
    unfold persistTransferEvent
    simp [onTime_panic, importing, Meets.ite_iff, timestampEvent_apart, persistTransfer_onTime]
  · obtain ⟨hb, ht⟩ := TransfersBatch.reject_none hr
    refine ⟨(ht hi).1, h.le he hb hi (ht hi), ?_⟩
    unfold prefetchCreateTransfers
    dsimp only
    rw [if_pos (hb.symm.trans hi)]
    exact mem_foldl_enqueue.mpr (.inr (List.mem_map_of_mem (by simp [he])))

-- The batch of a call is one without imported events that are too late.
def Call.Punctual : Call → Prop
  | .createAccounts events timestamp =>
    Accounting.Punctual (fun event => event.flags.imported) Account.timestamp events timestamp
  | .createTransfers events timestamp =>
    Accounting.Punctual (fun event => event.flags.imported) Transfer.timestamp events timestamp
  | .expirePendingTransfers _ => True

-- No timestamp of an imported event fails an assertion.
theorem imported_guarded {call : Call} (h : call.Punctual) {message : String}
    (hm : message ∈ importing) : machine.step sm call ≠ .error (.panic .general message) := by
  suffices hstep : Meets OnTime (fun _ => True) (machine.step sm call) from
    fun heq => hstep.fault heq message hm rfl
  cases call with
  | createAccounts events timestamp =>
    simp only [machine, Meets.bind_eq, Meets.pure_eq]
    exact createAccounts_onTime h
  | createTransfers events timestamp =>
    simp only [machine, Meets.bind_eq, Meets.pure_eq]
    exact createTransfers_onTime h
  | expirePendingTransfers timestamp => exact expirePendingTransfers_onTime

end StateMachine

namespace StateMachine.Runs

open Accounting.Runs

attribute [local instance] identityHasher

instance : (call : Call) → Decidable call.Punctual
  | .createAccounts ..         => inferInstanceAs (Decidable (Accounting.Punctual ..))
  | .createTransfers ..        => inferInstanceAs (Decidable (Accounting.Punctual ..))
  | .expirePendingTransfers _ => .isTrue trivial

-- Three imported accounts, which the batch would give the timestamps 98 to 100.
def importsAccounts (timestamp : Nat) : Call :=
  .createAccounts [account 1 0x10 1 timestamp, account 2 0x10 1 99, account 3 0x10 1 99] 100

theorem imported_guarded_of_imports : machine.step default (importsAccounts 98) ≠
    .error (.panic .general "event.timestamp <= timestamp_event") :=
  imported_guarded (by decide) (by decide)

-- The first one comes with the timestamp of the second.
theorem not_imported_guarded : ¬∀ (_ : Hasher) (sm : StateMachine) (call : Call),
    machine.Reachable Timely sm → Timely sm call → ∀ message ∈ importing,
      machine.step sm call ≠ .error (.panic .general message) := by
  intro h
  have hfails : Meets (fun fault => fault = .panic .general "event.timestamp <= timestamp_event")
      (fun _ => False) (machine.step default (importsAccounts 99)) := by decide
  have hstep := h identityHasher default (importsAccounts 99) (.init rfl) (by decide)
    "event.timestamp <= timestamp_event" (by decide)
  cases heq : machine.step default (importsAccounts 99) with
  | ok _        => exact hfails.post heq
  | error fault => exact hstep (heq.trans (congrArg Except.error (hfails.fault heq)))

end StateMachine.Runs

end TigerBeetle.Accounting
