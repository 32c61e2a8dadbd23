import TigerBeetle.Theorems.Ticking

namespace TigerBeetle

open Fallible Fault

namespace Replica

variable [Env] {r : Replica} {checksum op now : Nat} {prepare header : Prepare} {headers : List Prepare}

section

variable (h : r.Settled)

include h

theorem onJoinView_settled {joinView : JoinView}
    : Meets Handled Settled (r.onJoinView joinView headers now) := by
  unfold onJoinView
  simp only [Meets.bind_eq, Meets.ite_iff, Meets.pure_eq, handled_assert]
  refine ignoreJoinView_concurs.handled fun _ _ => ⟨fun _ => h, fun _ _ _ _ => ?_⟩
  refine primaryReceiveJoinView_meets handled fun _ _ => ?_
  refine JvQuorum.verify_concurs.handled fun _ _ => JvQuorum.quorumHeaders_concurs.handled fun _ _ => ?_
  split
  case h_2 => exact h
  case h_1 =>
    unfold startView
    simp only [Meets.bind_eq, handled_assert]
    refine primarySetLogFromJoinViewMessages_handled.weaken fun _ _ _ _ => ?_
    split
    case h_2 => exact handled_abort
    case h_1 =>
      unfold primarySendView
      simp only [Meets.bind_eq, Meets.pure_eq, handled_assert]
      refine fun _ _ _ => primaryJournalHeadersRepaired_concurs.handled fun _ _ _ => ?_
      exact makeViewMessage_clock.weaken fun _ _ => primaryStartViewAsTheNewPrimary_settled

-- The votes to leave the view.

omit [Env] in
theorem sendExitView_settled : Meets Handled Settled r.sendExitView := by
  unfold sendExitView
  simp only [Meets.bind_eq, Meets.pure_eq, handled_assert]
  exact fun _ => { h with exitViewWindow := fun _ => BitSet.insert_ne_zero }

theorem onExitView_settled {header : ExitView}
    (hq : Ticking.Completes r header → r.Quiet) :
    Meets Handled Settled (r.onExitView header) := by
  unfold onExitView
  simp only [Meets.bind_eq, Meets.ite_iff, Meets.pure_eq, handled_assert]
  refine ⟨fun _ => h, fun hs => ⟨fun _ => h, fun hv _ _ => ⟨fun hc => ?_, fun _ => ?_⟩⟩⟩
  · have hq := hq ⟨by tauto, not_lt.mp hv, hc⟩
    exact transitionToViewChangeStatus_settled ⟨hq.1, hq.2, hq.3⟩
  · exact { h with exitViewWindow := fun _ => BitSet.insert_ne_zero }

omit [Env] in
theorem advanceCommitMax_settled {commit : Nat} : (r.advanceCommitMax commit).Settled := by
  rw [advanceCommitMax_eq]
  exact h

omit [Env] in
theorem onCommitHeartbeat_settled {commit : Commit}
    (hq : Ticking.Rescinds r commit → r.timeouts.exitViewWindow.active →
      BitSet.erase 64 r.exitViewFromAllReplicas r.replicaIndex ≠ 0) :
    Meets Handled Settled
      (r.onCommitHeartbeat commit.view commit.timestampMonotonic commit.commit now) := by
  unfold onCommitHeartbeat
  simp only [Meets.bind_eq, Meets.ite_iff, Meets.pure_eq, handled_assert]
  refine ⟨fun _ => h, fun hn => ⟨fun ht _ => ?_, fun _ => advanceCommitMax_settled h⟩⟩
  apply advanceCommitMax_settled
  refine { h with exitViewWindow := hq ⟨?_, ?_, ?_, ht⟩ }
  all_goals tauto

-- The heartbeat of the primary, which every tick checks.

theorem sendCommit_settled : Meets Handled Settled (r.sendCommit now) := by
  unfold sendCommit
  simp only [Meets.bind_eq, Meets.ite_iff, Meets.pure_eq, handled_assert]
  refine fun _ _ _ => ⟨fun _ _ => h, fun _ => ?_⟩
  split
  all_goals simp only [Meets.bind_eq, Meets.pure_eq, handled_assert]
  case h_1 => exact h
  case h_2 => exact fun _ => h

theorem tickNormalHeartbeatFault_settled :
    Meets Handled Settled (r.tickNormalHeartbeatFault now) := by
  unfold tickNormalHeartbeatFault
  simp only [Meets.bind_eq, Meets.ite_iff, Meets.pure_eq, handled_assert]
  intro hs
  refine ⟨fun _ => h, fun _ => ⟨fun hp => ?_, fun _ => ⟨fun _ _ => h, fun _ => ?_⟩⟩⟩
  · have hp : r.clock.IsPrimary := isPrimary_iff.mp hp
    refine Meets.weaken (fun _ h _ => h) (sendCommit_settled ?_)
    exact { h with commitMessage := fun _ => ⟨hs, hp⟩ }
  · exact (sendExitView_settled h).weaken fun _ h _ => h

end

-- The repair of the journal.

section

omit [Env]

theorem sendGetPrepare_settled {peer : Nat} (h : r.Settled) :
    Meets Handled Settled (r.sendGetPrepare peer op checksum) := by
  unfold sendGetPrepare
  simp only [Meets.bind_eq, Meets.pure_eq, handled_assert]
  exact fun _ _ => h

theorem sendGetHeaders_settled {peer opMin opMax : Nat} (h : r.Settled) :
    Meets Handled Settled (r.sendGetHeaders peer opMin opMax) := by
  unfold sendGetHeaders
  simp only [Meets.bind_eq, Meets.pure_eq, handled_assert]
  exact fun _ _ _ => h

theorem sendGetView_settled (h : r.Settled) : Meets Handled Settled r.sendGetView := by
  unfold sendGetView
  simp only [Meets.bind_eq, Meets.pure_eq, handled_assert]
  exact fun _ _ => h

end

section

variable (h : r.Settled)

include h

theorem repairPrepares_settled {count : Nat} :
    Meets Handled Settled (repairPrepares count op r) := by
  induction count generalizing op r with
  | zero => exact h
  | succ count ih =>
    unfold repairPrepares repairPrepare
    simp only [Meets.ite_iff, Meets.bind_eq]
    refine ⟨fun _ => assertRepairs_concurs.handled fun _ _ => ?_, fun _ => ih h⟩
    split
    case h_1 => exact Meets.weaken (fun _ h => ih h) (sendGetPrepare_settled h)
    case h_2 => exact ih h

theorem repairPreparesBetween_settled {opMin opMax : Nat} :
    Meets Handled Settled (r.repairPreparesBetween opMin opMax) := by
  unfold repairPreparesBetween
  simp only [Meets.bind_eq, handled_assert]
  exact assertRepairs_concurs.handled fun _ _ _ _ _ => repairPrepares_settled h

theorem repairCleanOutOfBoundPrepares_settled :
    Meets Handled Settled r.repairCleanOutOfBoundPrepares := by
  unfold repairCleanOutOfBoundPrepares
  simp only [Meets.bind_eq, Meets.pure_eq, handled_assert]
  exact assertRepairs_concurs.handled fun _ _ _ _ _ => h

omit [Env] in
theorem repairHead_settled : Meets Handled Settled r.repairHead := by
  unfold repairHead
  simp only [Meets.bind_eq, Meets.ite_iff, Meets.pure_eq]
  exact opRepairMax_concurs.handled fun _ _ => ⟨fun _ => sendGetView_settled h, fun _ => h⟩

omit [Env] in
theorem repairHeaders_settled : Meets Handled Settled r.repairHeaders := by
  unfold repairHeaders
  simp only [Meets.bind_eq]
  refine Journal.findLatestHeadersBreakBetween_concurs.handled fun _ _ => ?_
  split
  case h_1 => exact h
  case h_2 =>
    simp only [Meets.bind_eq, Meets.ite_iff, Meets.pure_eq, handled_assert]
    intro _ _ _
    refine ⟨fun _ _ => chooseAnyOtherReplica_concurs.handled fun _ _ => ?_, fun _ => h⟩
    exact sendGetHeaders_settled h

theorem repair_settled : Meets Handled Settled r.repair := by
  unfold repair
  simp only [Meets.bind_eq, Meets.ite_iff, Meets.pure_eq, handled_assert]
  refine ⟨fun _ => h, fun _ => assertRepairs_concurs.handled fun _ _ _ _ _ _ _ _ => ?_⟩
  refine (repairHead_settled h).weaken fun r h => (repairHeaders_settled h).weaken fun r h => ?_
  have hclean {r : Replica} (h : r.Settled) : Meets Handled
      (fun r => (r.commitMin < r.commitMax → 1 < r.replicaCount →
        Meets Handled Settled r.commitJournal) ∧ (¬r.commitMin < r.commitMax → r.Settled))
      r.repairCleanOutOfBoundPrepares :=
    (repairCleanOutOfBoundPrepares_settled h).weaken fun _ h =>
      ⟨fun _ _ => commitJournal_settled h, fun _ => h⟩
  refine ⟨fun _ => (repairPreparesBetween_settled h).weaken fun r h => ?_, fun _ => ?_⟩
  all_goals exact ⟨fun _ => (repairPreparesBetween_settled h).weaken fun r h => hclean h,
    fun _ => hclean h⟩

omit [Env] in
theorem repairHeader_settled : Meets Handled (fun out => out.2.Settled) (r.repairHeader header) :=
  repairHeader_meets (fun _ => Incidental.handled) h
    (handled.meets Journal.setHeaderAsDirty_unwatched fun _ _ => h)

theorem onRepair_settled : Meets Handled Settled (r.onRepair header) := by
  unfold onRepair
  simp only [Meets.bind_eq, Meets.ite_iff, Meets.pure_eq, handled_assert]
  intro _
  refine ⟨fun _ => h, fun _ => ⟨fun _ => h, fun _ => ?_⟩⟩
  refine Journal.hasPrepare_concurs.handled fun _ _ => ?_
  refine ⟨fun _ => sendPrepareOk_settled h, fun _ => ?_⟩
  refine (repairHeader_settled h).weaken fun _ h => ⟨fun _ => ?_, fun _ => h⟩
  refine ⟨fun _ => repair_settled h, fun _ => ?_⟩
  exact (commitJournal_settled h).weaken fun _ h => repair_settled h

theorem onHeaders_settled : Meets Handled Settled (r.onHeaders headers) := by
  have hinstall : Meets Handled Settled (installHeaders headers r) := by
    induction headers generalizing r with
    | nil => exact h
    | cons header headers ih =>
      unfold installHeaders
      simp only [Meets.bind_eq]
      exact (repairHeader_settled h).weaken fun _ h => ih h
  unfold onHeaders
  simp only [Meets.ite_iff, Meets.bind_eq, Meets.pure_eq]
  exact ⟨fun _ => h, fun _ => hinstall.weaken fun _ h => repair_settled h⟩

-- The answers to the requests of other replicas.

omit [Env] in
theorem onGetPrepare_settled {getPrepare : GetPrepare} :
    Meets Handled Settled (r.onGetPrepare getPrepare) := by
  unfold onGetPrepare
  simp only [Meets.bind_eq, Meets.ite_iff, Meets.pure_eq, handled_assert]
  refine fun _ _ => ⟨fun _ => ?_, fun _ _ => ?_⟩
  all_goals split <;> exact h

omit [Env] in
theorem onGetHeaders_settled {getHeaders : GetHeaders} :
    Meets Handled Settled (r.onGetHeaders getHeaders) := by
  unfold onGetHeaders Journal.copyLatestHeadersBetween
  simp only [Meets.bind_eq, Meets.pure_eq, handled_assert]
  intro _ _ _
  split <;> exact h

theorem onGetView_settled {getView : GetView} : Meets Handled Settled (r.onGetView getView) := by
  unfold onGetView
  simp only [Meets.bind_eq, Meets.pure_eq, handled_assert]
  intro _ _ _ _ _
  exact makeViewMessage_clock.weaken fun _ hc => h.of_clock hc

end

-- A replica that changes its view ends up in normal status, unless the view comes without headers.
theorem onViewSetJournal_settled {view : View}
    (h : r.Settled ∨ headers ≠ [] ∧ r.status = .viewChange) :
    Meets Handled Settled (r.onViewSetJournal view headers now) := by
  unfold onViewSetJournal
  simp only [Meets.bind_eq, handled_assert]
  intro _ _
  split
  case h_1 => exact h.resolve_right fun hne => hne.1 rfl
  case h_2 =>
    simp only [Meets.bind_eq, handled_assert]
    intro _ _
    refine onViewSetHead_clock.weaken fun r₁ hc₁ _ => ?_
    refine replaceHeaders_clock.weaken fun r₂ hc₂ => ?_
    have hc : r₂.clock = r.clock := hc₂.trans hc₁
    refine Meets.weaken (fun _ h _ _ _ _ => repair_settled h) ?_
    unfold onViewJoin
    simp only [Meets.ite_iff, Meets.bind_eq, Meets.pure_eq]
    constructor
    case left =>
      intro _
      unfold sendPrepareOksAfterViewChange
      simp only [Meets.bind_eq, handled_assert]
      refine transitionToNormalFromViewChangeStatus_settled.weaken fun _ h _ => ?_
      exact (sendPrepareOksFrom_settled h).weaken fun _ h => commitJournal_settled h
    case right =>
      intro hs
      have hs' : r.status ≠ .viewChange := fun hv =>
        hs ((congrArg Clock.status hc).trans hv)
      have hr : r.Settled := h.resolve_right fun hv => hs' hv.2
      exact (hr.of_clock hc : r₂.Settled)

theorem onView_settled {view : View} (h : r.Settled)
    (hq : r.view < view.view → headers = [] → r.Quiet) :
    Meets Handled Settled (r.onView view headers now) := by
  unfold onView
  simp only [Meets.bind_eq, Meets.ite_iff, Meets.pure_eq, handled_assert]
  refine ignoreView_concurs.handled fun _ _ => ⟨fun _ => h, fun _ _ => ⟨fun _ _ => h, fun _ => ?_⟩⟩
  constructor
  case left =>
    intro hv
    have hstatus : Meets Handled (·.status = .viewChange)
        (r.transitionToViewChangeStatus view.view) :=
      transitionToViewChangeStatus_meets handled fun _ _ _ _ _ _ => rfl
    have hnext : Meets Handled (fun r => r.Settled ∨ headers ≠ [] ∧ r.status = .viewChange)
        (r.transitionToViewChangeStatus view.view) := by
      by_cases hh : headers = []
      case pos =>
        exact (transitionToViewChangeStatus_settled (hq hv hh)).weaken fun _ h => .inl h
      case neg => exact hstatus.weaken fun _ hs => .inr ⟨hh, hs⟩
    refine hnext.weaken fun r h => ⟨fun _ _ _ _ _ _ _ _ => ?_, fun _ _ _ _ _ _ => ?_⟩
    all_goals exact onViewSetJournal_settled h
  case right =>
    refine fun _ => ⟨fun _ _ _ _ _ _ _ _ => ?_, fun _ _ _ _ _ _ => ?_⟩
    all_goals exact onViewSetJournal_settled (.inl h)

-- The other messages.

variable {body : Body}

section

variable (h : r.Settled)

include h

theorem onRequest_settled {request : Request} : Meets Handled Settled (r.onRequest request body) :=
  onRequest_meets handled (fun _ => h) (fun _ _ _ => h) fun _ _ _ =>
    (primaryPipelinePrepare_settled h).weaken fun _ h _ => h

theorem onStalePrepare_settled : Meets Handled Settled (r.onStalePrepare prepare body) := by
  unfold onStalePrepare
  simp only [Meets.bind_eq, Meets.ite_iff, Meets.pure_eq]
  refine (onRepair_settled h).weaken fun _ h => ⟨fun _ => ?_, fun _ => h⟩
  exact handled.meets Journal.setPrepareBody_unwatched fun _ _ => h

theorem onAcceptedPrepare_settled : Meets Handled Settled (r.onAcceptedPrepare prepare body) := by
  unfold onAcceptedPrepare
  simp only [Meets.bind_eq, Meets.ite_iff, Meets.pure_eq, handled_assert]
  refine fun _ => handled.meets Journal.setPrepareBody_unwatched fun _ _ => ⟨fun _ => h, fun _ => ?_⟩
  refine Meets.weaken (fun r h => ?_) (sendPrepareOk_settled <| advanceCommitMax_settled ?_)
  · exact (commitJournal_settled h).weaken fun _ h => repair_settled h
  · exact h

omit [Env] in
theorem onFuturePrepare_settled : Meets Handled Settled (r.onFuturePrepare prepare) := by
  unfold onFuturePrepare jumpToNewerOpInNormalStatus
  simp (disch := decide) only [Meets.bind_eq, Meets.pure_eq, handled_assert, handled_assertOn]
  intro _ _ _ _ _ _ _ _
  split
  case isTrue  => exact h
  case isFalse => exact advanceCommitMax_settled h

theorem onPrepareMessage_settled : Meets Handled Settled (r.onPrepareMessage prepare body) := by
  unfold onPrepareMessage
  simp only [Meets.bind_eq, Meets.ite_iff, Meets.pure_eq]
  refine ⟨fun _ => h, fun _ => ⟨fun _ => onStalePrepare_settled h, fun _ => ⟨fun _ => h, ?_⟩⟩⟩
  refine fun _ => onPrepare_meets handled (fun _ _ _ _ _ _ => nofun) ?stale ?future ?accepted
  case stale    => exact fun _ => onStalePrepare_settled h
  case future   => exact fun _ => onFuturePrepare_settled h
  case accepted => exact fun _ _ _ => onAcceptedPrepare_settled h

theorem onPrepareOkMessage_settled {prepareOk : PrepareOk} :
    Meets Handled Settled (r.onPrepareOkMessage prepareOk) := by
  unfold onPrepareOkMessage
  simp only [Meets.bind_eq, Meets.ite_iff, Meets.pure_eq, handled_assert]
  refine fun _ => ⟨fun _ => h, fun _ => (onPrepareOk_settled h).weaken fun _ h => ?_⟩
  split
  case h_3 => exact h
  all_goals exact Meets.ite_iff.mpr ⟨fun _ => commitDispatchEnter_settled h, fun _ => h⟩

theorem onCommit_settled {commit : Commit}
    (hq : Ticking.Rescinds r commit → r.timeouts.exitViewWindow.active →
      BitSet.erase 64 r.exitViewFromAllReplicas r.replicaIndex ≠ 0) :
    Meets Handled Settled (r.onCommit commit now) := by
  unfold onCommit
  simp only [Meets.bind_eq, Meets.ite_iff, Meets.pure_eq, handled_assert]
  refine ⟨fun _ => h, fun _ _ => (onCommitHeartbeat_settled h hq).weaken fun _ h => ?_⟩
  split
  case h_2 => exact commitJournal_settled h
  case h_1 =>
    simp only [Meets.bind_eq, Meets.ite_iff, handled_assert]
    refine ⟨fun _ => handled.meets validHashChainBetween_unwatched fun _ _ _ => ?_, fun _ => ?_⟩
    all_goals exact commitJournal_settled h

theorem onMessage_settled {message : Message}
    (hg : Ticking.Orderly r (.message message now)) :
    Meets Handled Settled (r.onMessage message now) := by
  unfold onMessage
  cases message
  all_goals refine Meets.ite_iff.mpr ⟨fun hc => ?_, fun _ => h⟩
  case request    => exact onRequest_settled h
  case prepare    => exact onPrepareMessage_settled h
  case prepareOk  => exact onPrepareOkMessage_settled h
  case commit     => exact onCommit_settled h (hg hc)
  case exitView   => exact onExitView_settled h (hg hc)
  case joinView   => exact onJoinView_settled h
  case view       => exact onView_settled h (hg hc)
  case getPrepare => exact onGetPrepare_settled h
  case getHeaders => exact onGetHeaders_settled h
  case headers    => exact onHeaders_settled h
  case getView    => exact onGetView_settled h

-- The handlers of the timeouts. Each one rearms its own timeout, after it has checked the status.

omit [Env] in
theorem onPrepareTimeout_settled (hp : r.status = .normal ∧ r.clock.IsPrimary) :
    Meets Handled Settled r.onPrepareTimeout := by
  unfold onPrepareTimeout
  simp only [Meets.bind_eq, handled_timeout hp.1, handled_timeout (isPrimary_iff.mpr hp.2)]
  split
  case h_1 => exact { h with
      prepare := fun hp => absurd hp Bool.false_ne_true
      primaryAbdicate := fun hp => absurd hp Bool.false_ne_true }
  case h_2 =>
    split
    case h_2 => exact handled_abort
    case h_1 =>
      simp only [Meets.bind_eq, handled_assert]
      intro _
      split
      case h_2 => exact handled_abort
      case h_1 => exact { h with prepare := fun _ => hp }

theorem onCommitMessageTimeout_settled (hp : r.status = .normal ∧ r.clock.IsPrimary) :
    Meets Handled Settled (r.onCommitMessageTimeout now) := by
  unfold onCommitMessageTimeout
  simp only [Meets.bind_eq, handled_assert, handled_timeout hp.1, handled_timeout (isPrimary_iff.mpr hp.2)]
  exact fun _ => sendCommit_settled { h with commitMessage := fun _ => hp }

omit [Env] in
theorem onExitViewWindowTimeout_settled (hv : r.exitViewFromAllReplicas ≠ 0) :
    Meets Handled Settled r.onExitViewWindowTimeout := by
  have hs : r.status = .normal ∨ r.status = .viewChange := h.status
  unfold onExitViewWindowTimeout
  simp only [Meets.bind_eq, Meets.pure_eq, handled_assert, handled_timeout hs, handled_timeout hv]
  exact fun _ => { h with exitViewWindow := fun h => absurd h Bool.false_ne_true }

omit [Env] in
theorem onExitViewMessageTimeout_settled : Meets Handled Settled r.onExitViewMessageTimeout := by
  have hs : r.status = .normal ∨ r.status = .viewChange := h.status
  unfold onExitViewMessageTimeout
  simp only [Meets.bind_eq, Meets.ite_iff, Meets.pure_eq, handled_assert, handled_timeout hs]
  exact fun _ => ⟨fun _ => sendExitView_settled h, fun _ => h⟩

omit [Env] in
theorem onViewChangeStatusTimeout_settled (hs : r.status = .viewChange) :
    Meets Handled Settled r.onViewChangeStatusTimeout := by
  unfold onViewChangeStatusTimeout
  simp only [Meets.bind_eq, handled_timeout hs]
  exact sendExitView_settled { h with viewChangeStatus := fun _ => hs }

omit [Env] in
theorem onJoinViewMessageTimeout_settled (hs : r.status = .viewChange) :
    Meets Handled Settled r.onJoinViewMessageTimeout := by
  unfold onJoinViewMessageTimeout
  simp only [Meets.bind_eq, Meets.ite_iff, Meets.pure_eq, handled_assert,
    handled_timeout hs]
  intro _
  have h : Clock.Settled { r.clock with joinViewMessage := true } :=
    { h with joinViewMessage := fun _ => hs }
  exact ⟨fun _ _ => h, fun _ _ => sendJoinView_meets handled fun _ _ => h⟩

omit [Env] in
theorem onGetViewMessageTimeout_settled (hp : r.status = .viewChange ∧ ¬r.clock.IsPrimary) :
    Meets Handled Settled r.onGetViewMessageTimeout := by
  unfold onGetViewMessageTimeout
  simp only [Meets.bind_eq, handled_timeout hp.1,
    handled_timeout (mt isPrimary_iff.mp hp.2)]
  exact sendGetView_settled { h with getViewMessage := fun _ => hp }

omit [Env] in
theorem onPrimaryAbdicateTimeout_settled (hp : r.status = .normal ∧ r.clock.IsPrimary) :
    Meets Handled Settled r.onPrimaryAbdicateTimeout := by
  unfold onPrimaryAbdicateTimeout
  simp only [Meets.bind_eq, Meets.pure_eq, handled_timeout hp.1, handled_timeout (isPrimary_iff.mpr hp.2)]
  have h : Clock.Settled { r.clock with primaryAbdicate := true } :=
    { h with primaryAbdicate := fun _ => hp }
  split
  all_goals exact h

theorem onJournalRepairTimeout_settled (hs : r.status = .normal) :
    Meets Handled Settled r.onJournalRepairTimeout := by
  unfold onJournalRepairTimeout
  simp only [Meets.bind_eq, handled_timeout (Or.inl (b := r.status = .viewChange) hs)]
  exact repair_settled { h with journalRepair := fun _ => hs }

theorem onPulseTimeout_settled (hp : r.status = .normal ∧ r.clock.IsPrimary) :
    Meets Handled Settled (r.onPulseTimeout now) := by
  unfold onPulseTimeout
  simp only [Meets.bind_eq, Meets.ite_iff, Meets.pure_eq, handled_timeout hp.1,
    handled_timeout (isPrimary_iff.mpr hp.2)]
  have h : Clock.Settled { r.clock with pulse := true } :=
    { h with pulse := fun _ => hp }
  refine ⟨fun _ => h, fun _ => handled.meets pulseEnabled_unwatched fun _ _ => ⟨fun _ => h, fun _ => ?_⟩⟩
  refine ⟨fun _ => ⟨fun _ => h, fun _ => ?_⟩, fun _ => h⟩
  exact sendRequestPulseToSelf_meets handled <| Meets.weaken (fun _ h _ => h) <|
    primaryPipelinePrepare_settled h

theorem onCommitStallTimeout_settled : Meets Handled Settled r.onCommitStallTimeout := by
  unfold onCommitStallTimeout
  simp only [Meets.bind_eq, handled_assert]
  exact fun _ => commitDispatchResume_settled h

end

omit [Env] in
-- A timeout that is ticked is not active unless it was, and only then its handler runs.
theorem tickTimeout_settled {get : Timeouts → Timeout} {set : Timeouts → Timeout → Timeouts}
    {onTimeout : Replica → Result Replica}
    (hset : ∀ timeout, (timeout.active → (get r.timeouts).active) →
      Settled { r with timeouts := set r.timeouts timeout })
    (hon : (get r.timeouts).active → ∀ timeout,
      Settled { r with timeouts := set r.timeouts timeout } →
      Meets Handled Settled (onTimeout { r with timeouts := set r.timeouts timeout })) :
    Meets Handled Settled (r.tickTimeout get set onTimeout) := by
  have h := hset (get r.timeouts).tick.2 Timeout.active_of_tick
  unfold tickTimeout
  refine Meets.ite_iff.mpr ⟨fun hf => hon (Timeout.active_of_fired hf) _ h, fun _ => h⟩

theorem tick_settled (h : r.Settled) : Meets Handled Settled (r.tick now) := by
  unfold tick
  refine Meets.ite_iff.mpr ⟨fun _ => ?normal, fun _ => ?other⟩
  case' normal => refine (tickNormalHeartbeatFault_settled h).bind fun r h => ?_
  case' other => refine Meets.bind (R := Settled) h fun r h => ?_
  all_goals
    refine Meets.bind (tickTimeout_settled (fun _ _ => h) fun _ _ h => h) fun r h => ?_
    refine Meets.bind (tickTimeout_settled (fun _ ht => { h with prepare := h.prepare ∘ ht })
      fun ha _ h' => onPrepareTimeout_settled h' (h.prepare ha)) fun r h => ?_
    refine Meets.bind (tickTimeout_settled
      (fun _ ht => { h with commitMessage := h.commitMessage ∘ ht })
      fun ha _ h' => onCommitMessageTimeout_settled h' (h.commitMessage ha)) fun r h => ?_
    refine Meets.bind (tickTimeout_settled (fun _ _ => h)
      fun _ _ h => onExitViewMessageTimeout_settled h) fun r h => ?_
    refine Meets.bind (tickTimeout_settled
      (fun _ ht => { h with exitViewWindow := h.exitViewWindow ∘ ht })
      fun ha _ h' => onExitViewWindowTimeout_settled h' (h.exitViewWindow ha)) fun r h => ?_
    refine Meets.bind (tickTimeout_settled
      (fun _ ht => { h with joinViewMessage := h.joinViewMessage ∘ ht })
      fun ha _ h' => onJoinViewMessageTimeout_settled h' (h.joinViewMessage ha)) fun r h => ?_
    refine Meets.bind (tickTimeout_settled
      (fun _ ht => { h with getViewMessage := h.getViewMessage ∘ ht })
      fun ha _ h' => onGetViewMessageTimeout_settled h' (h.getViewMessage ha)) fun r h => ?_
    refine Meets.bind (tickTimeout_settled
      (fun _ ht => { h with viewChangeStatus := h.viewChangeStatus ∘ ht })
      fun ha _ h' => onViewChangeStatusTimeout_settled h' (h.viewChangeStatus ha)) fun r h => ?_
    refine Meets.bind (tickTimeout_settled
      (fun _ ht => { h with primaryAbdicate := h.primaryAbdicate ∘ ht })
      fun ha _ h' => onPrimaryAbdicateTimeout_settled h' (h.primaryAbdicate ha)) fun r h => ?_
    refine Meets.bind (tickTimeout_settled
      (fun _ ht => { h with journalRepair := h.journalRepair ∘ ht })
      fun ha _ h' => onJournalRepairTimeout_settled h' (h.journalRepair ha)) fun r h => ?_
    refine Meets.bind (tickTimeout_settled (fun _ _ => h) fun _ _ h => h) fun r h => ?_
    refine Meets.bind (tickTimeout_settled (fun _ ht => { h with pulse := h.pulse ∘ ht })
      fun ha _ h' => onPulseTimeout_settled h' (h.pulse ha)) fun r h => ?_
    exact tickTimeout_settled (fun _ _ => h) fun _ _ h => onCommitStallTimeout_settled h

theorem pollClientReplies_settled {completions : Nat} (h : r.Settled) :
    Meets Handled Settled (r.pollClientReplies completions) := by
  unfold pollClientReplies
  simp only [Meets.bind_eq, Meets.ite_iff, Meets.pure_eq, handled_assert]
  refine ⟨fun _ => h, fun _ => ⟨fun _ _ _ => ?_, fun _ => h⟩⟩
  exact commitDispatchResume_settled h

end Replica

namespace Ticking

open Replica

section

variable [Env] {r : Replica}

theorem started_settled (cluster : Nat) {replicaIndex replicaCount : Nat}
    (h : replicaIndex < replicaCount) : (started cluster replicaIndex replicaCount h).Settled where
  status := .inl rfl
  prepare := nofun
  commitMessage := nofun
  primaryAbdicate := nofun
  pulse := nofun
  viewChangeStatus := nofun
  joinViewMessage := nofun
  getViewMessage := nofun
  exitViewWindow := nofun
  journalRepair := nofun

theorem step_settled {e : Event} (h : r.Settled) (hg : Orderly r e) :
    Meets Handled Settled (step r e) := by
  cases e with
  | message message now           => exact onMessage_settled h hg
  | tick now                      => exact tick_settled h
  | driveSuperblock completions   => exact driveSuperblock_settled h
  | pollClientReplies completions => exact pollClientReplies_settled h

-- As long as the replica leaves its views orderly, no timeout is active in a state that its handler
-- cannot handle, and none fires into one.
theorem settled_of_orderly (h : machine.Reachable Orderly r) :
    r.Settled ∧ ∀ e, Orderly r e → Meets Handled (fun _ => True) (step r e) := by
  have h : r.Settled := by
    refine h.invariant (p := Settled) ?init ?step
    case init =>
      rintro _ ⟨cluster, _, _, h, _, _, rfl⟩
      exact started_settled cluster h
    case step => exact fun _ _ _ h hg hs => (step_settled h hg).post hs
  exact ⟨h, fun _ hg => (step_settled h hg).weaken fun _ _ => trivial⟩

end

section

attribute [local instance] Env.plain

instance : DecidablePred Quiet := fun _ =>
  decidable_of_iff (¬_ ∧ ¬_ ∧ ¬_) ⟨fun ⟨hc, hp, hw⟩ => ⟨hc, hp, hw⟩, fun h => ⟨h.1, h.2, h.3⟩⟩

instance {r : Replica} {e : Event} : Decidable (Orderly r e) :=
  match e with
  | .message message _ =>
    match message with
    | .exitView _ => inferInstanceAs (Decidable (_ → _ ∧ _ ∧ _ → _))
    | .view ..    => inferInstanceAs (Decidable (_ → _ → _ → _))
    | .commit _   => inferInstanceAs (Decidable (_ → _ ∧ _ ∧ _ ∧ _ → _ → _))
    | .request .. | .prepare .. | .prepareOk _ | .joinView .. | .getPrepare _ | .getHeaders _
    | .headers .. | .getView _ => .isTrue trivial
  | .tick _ | .driveSuperblock _ | .pollClientReplies _ => .isTrue trivial

-- A backup in a cluster of three, which becomes the primary of the next view.
def backup : Replica :=
  .started 0 1 3 (by decide)

theorem backup_started : machine.init backup :=
  ⟨0, 1, 3, by decide, none, _, rfl⟩

def vote (replica : Nat) : Event :=
  .message (.exitView { cluster := 0, view := 0, replica }) 0

-- The other replicas vote to leave the view, which leads into a view change, where the timeouts fire.
theorem settled_of_orderly_backup : ∃ r, machine.Reachable Orderly r ∧ r.status = .viewChange ∧
    r.timeouts.joinViewMessage.active ∧ r.Settled ∧ ∀ now, Meets Handled (fun _ => True) (r.tick now) := by
  have hl : machine.Leads Orderly
      (fun r => r.status = .viewChange ∧ r.timeouts.joinViewMessage.active)
      [.tick 10, vote 0, vote 2, .tick 20] backup := by
    decide
  have ⟨r, hr, hs, ha⟩ := Machine.Reachable.leads (.init backup_started) hl
  have ⟨hsettled, ht⟩ := settled_of_orderly hr
  exact ⟨r, hr, hs, ha, hsettled, fun now => ht (.tick now) trivial⟩

-- A backup that misses the heartbeats of its primary votes to leave the view. The vote of another
-- replica completes the quorum while the window of the first vote is open.
theorem not_settled : ¬∀ r, machine.Reachable (fun _ _ => True) r → r.Settled := by
  intro h
  have hl : machine.Leads (fun _ _ => True)
      (fun r => r.timeouts.exitViewWindow.active ∧ r.exitViewFromAllReplicas = 0)
      [.tick 10000, vote 2] backup := by
    decide
  have ⟨r, hr, ha, hz⟩ := Machine.Reachable.leads (.init backup_started) hl
  exact (h r hr).exitViewWindow ha hz

end

end Ticking

end TigerBeetle
