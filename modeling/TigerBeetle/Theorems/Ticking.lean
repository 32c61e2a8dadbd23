import TigerBeetle.Theorems.Checks

namespace TigerBeetle

open Fallible Fault

-- What decides whether a timeout may fire: the role of the replica, its status and the votes to
-- leave its view, besides the timeouts that are active.
structure Clock where
  replicaIndex : Nat
  replicaCount : Nat
  view : Nat
  status : Status
  exitViewFromAllReplicas : Nat
  prepare : Bool
  commitMessage : Bool
  primaryAbdicate : Bool
  pulse : Bool
  viewChangeStatus : Bool
  joinViewMessage : Bool
  getViewMessage : Bool
  exitViewWindow : Bool
  journalRepair : Bool

namespace Clock

def IsPrimary (c : Clock) : Prop :=
  c.view % c.replicaCount = c.replicaIndex

-- What the handlers of the active timeouts assert about the status, the role and the votes.
structure Settled (c : Clock) : Prop where
  status : c.status = .normal ∨ c.status = .viewChange
  prepare : c.prepare → c.status = .normal ∧ c.IsPrimary
  commitMessage : c.commitMessage → c.status = .normal ∧ c.IsPrimary
  primaryAbdicate : c.primaryAbdicate → c.status = .normal ∧ c.IsPrimary
  pulse : c.pulse → c.status = .normal ∧ c.IsPrimary
  viewChangeStatus : c.viewChangeStatus → c.status = .viewChange
  joinViewMessage : c.joinViewMessage → c.status = .viewChange
  getViewMessage : c.getViewMessage → c.status = .viewChange ∧ ¬c.IsPrimary
  exitViewWindow : c.exitViewWindow → c.exitViewFromAllReplicas ≠ 0
  journalRepair : c.journalRepair → c.status = .normal

-- A replica that leaves its view awaits the next one.
theorem Settled.leave {c : Clock} (status : c.status = .viewChange) (prepare : ¬c.prepare)
    (commitMessage : ¬c.commitMessage) (primaryAbdicate : ¬c.primaryAbdicate) (pulse : ¬c.pulse)
    (getViewMessage : c.getViewMessage → ¬c.IsPrimary) (exitViewWindow : ¬c.exitViewWindow)
    (journalRepair : ¬c.journalRepair) : c.Settled where
  status := .inr status
  prepare h := absurd h prepare
  commitMessage h := absurd h commitMessage
  primaryAbdicate h := absurd h primaryAbdicate
  pulse h := absurd h pulse
  viewChangeStatus _ := status
  joinViewMessage _ := status
  getViewMessage h := ⟨status, getViewMessage h⟩
  exitViewWindow h := absurd h exitViewWindow
  journalRepair h := absurd h journalRepair

end Clock

namespace Timeout

variable {timeout : Timeout}

theorem active_of_tick (h : timeout.tick.2.active) :
    timeout.active := by
  unfold tick at h
  split at h
  case isTrue => exact h
  case isFalse ha => simpa using ha

theorem active_of_fired (h : timeout.tick.1) : timeout.active := by
  unfold tick at h
  split at h
  case isTrue => cases h
  case isFalse ha => simpa using ha

end Timeout

namespace Replica

def clock (r : Replica) : Clock where
  replicaIndex := r.replicaIndex
  replicaCount := r.replicaCount
  view := r.view
  status := r.status
  exitViewFromAllReplicas := r.exitViewFromAllReplicas
  prepare := r.timeouts.prepare.active
  commitMessage := r.timeouts.commitMessage.active
  primaryAbdicate := r.timeouts.primaryAbdicate.active
  pulse := r.timeouts.pulse.active
  viewChangeStatus := r.timeouts.viewChangeStatus.active
  joinViewMessage := r.timeouts.joinViewMessage.active
  getViewMessage := r.timeouts.getViewMessage.active
  exitViewWindow := r.timeouts.exitViewWindow.active
  journalRepair := r.timeouts.journalRepair.active

def Settled (r : Replica) : Prop :=
  r.clock.Settled

-- No timeout is active that a transition to the next view forgets.
structure Quiet (r : Replica) : Prop where
  commitMessage : ¬r.timeouts.commitMessage.active
  pulse : ¬r.timeouts.pulse.active
  exitViewWindow : ¬r.timeouts.exitViewWindow.active

theorem isPrimary_iff {r : Replica} : r.isPrimary ↔ r.clock.IsPrimary :=
  decide_eq_true_iff

end Replica

-- A replica that receives any messages, and whose ticks and writes interleave with them. It may
-- have a data file.
namespace Ticking

open Replica

inductive Event
  | message (message : Message) (now : Nat)
  | tick (now : Nat)
  | driveSuperblock (completions : Nat)
  | pollClientReplies (completions : Nat)

def step [Env] (r : Replica) : Event → Result Replica
  | .message message now            => r.onMessage message now
  | .tick now                       => r.tick now
  | .driveSuperblock completions   => r.driveSuperblock completions
  | .pollClientReplies completions => r.pollClientReplies completions

def machine [Env] : Machine Replica Event Fault where
  init r := ∃ cluster replicaIndex replicaCount h superblock clientReplies,
    r = { started cluster replicaIndex replicaCount h with superblock, clientReplies }
  step := step

-- The vote completes the quorum that the replica leaves its view by.
def Completes (r : Replica) (header : ExitView) : Prop :=
  (r.status = .normal ∨ r.status = .viewChange) ∧ r.view ≤ header.view ∧
    2 ^ r.quorum.viewChange - 1 ≤ BitSet.insert r.exitViewFromAllReplicas header.replica

-- The heartbeat is the first of its kind, so that it rescinds the vote of the replica.
def Rescinds (r : Replica) (commit : Commit) : Prop :=
  ¬r.isPrimary ∧ r.status = .normal ∧ commit.view = r.view ∧
    r.heartbeatTimestamp < commit.timestampMonotonic

-- A replica leaves its view only after the timeouts that the transition does not stop, and a
-- heartbeat never rescinds the only vote while the window is open.
def Orderly (r : Replica) : Event → Prop
  | .message (.exitView header) _ => header.cluster = r.cluster → Completes r header → Quiet r
  | .message (.view view headers) _ =>
    view.cluster = r.cluster → r.view < view.view → headers = [] → Quiet r
  | .message (.commit commit) _ =>
    commit.cluster = r.cluster → Rescinds r commit → r.timeouts.exitViewWindow.active →
      BitSet.erase 64 r.exitViewFromAllReplicas r.replicaIndex ≠ 0
  | _ => True

end Ticking

namespace Replica

variable {r : Replica}

-- What the pipeline does to a replica that is settled.

variable {checksum : Nat}

theorem countAck_settled {slot acks commitMin replica : Nat} {prepare : PipelinePrepare}
    (h : r.Settled) : (r.countAck slot prepare acks checksum commitMin replica).2.Settled := by
  unfold countAck
  simp only
  split
  case isTrue => exact h
  case isFalse =>
    split
    case isFalse => exact h
    case isTrue =>
      by_cases hd : r.pipelineQueue.prepareQueue.length ≤ 1
      case pos =>
        rw [if_pos hd]
        exact { h with
          prepare := fun hp => absurd hp Bool.false_ne_true
          primaryAbdicate := fun hp => absurd hp Bool.false_ne_true }
      case neg =>
        rw [if_neg hd]
        exact h

variable {op : Nat}

theorem onPrepareOk_settled {checkpointId commitMin replica : Nat} (h : r.Settled) :
    Meets Handled (fun out => out.2.Settled)
      (r.onPrepareOk op checksum checkpointId commitMin replica) :=
  onPrepareOk_meets handled (fun _ _ _ _ _ => nofun) (fun _ => h) (fun _ _ => h) (fun _ _ _ _ _ _ => h)
    fun _ _ _ _ _ _ _ _ _ _ => countAck_settled (r := r.trackProgress ..) h

theorem startPipelineTimeouts_settled (h : r.Settled) (hp : r.status = .normal ∧ r.isPrimary) :
    r.startPipelineTimeouts.Settled := by
  have hp : r.clock.status = .normal ∧ r.clock.IsPrimary := ⟨hp.1, isPrimary_iff.mp hp.2⟩
  unfold startPipelineTimeouts
  split
  case isTrue  => exact { h with prepare := fun _ => hp, primaryAbdicate := fun _ => hp }
  case isFalse => exact h

section

variable [Env] {client request requestChecksum : Nat} {operation : Operation} {body : Body}

section

variable (h : r.Settled)

include h

theorem primaryPipelinePrepare_settled : Meets Handled (fun out => out.2.Settled)
      (r.primaryPipelinePrepare client request operation body requestChecksum) := by
  refine primaryPipelinePrepare_meets handled (fun _ _ => h) fun _ _ _ _ _ hreject _ _ _ _ _ => ?_
  have ⟨hp, _⟩ := prepareReject_eq_none.mp hreject
  refine Meets.weaken ?post <| Meets.and (onPrepareOk_settled ?settled) <|
    onPrepareOk_frame (Q := fun out => out.2.status = .normal ∧ out.2.isPrimary) careless_handled ?frame
  case settled => exact h
  case frame   => exact fun _ _ _ _ _ _ _ _ => ⟨hp.2, hp.1⟩
  case post    => exact fun _ ⟨hs, hp⟩ _ => startPipelineTimeouts_settled hs hp

theorem prepareNextRequest_settled : Meets Handled Settled r.prepareNextRequest := by
  refine prepareNextRequest_meets handled (fun _ => h) fun _ _ => ?_
  exact Meets.weaken (fun _ h _ => h) (primaryPipelinePrepare_settled h)

theorem injectPulse_settled : Meets Handled Settled r.injectPulse :=
  injectPulse_meets handled h <| (primaryPipelinePrepare_settled h).weaken fun _ h _ => h

theorem redriveUpgrade_settled : Meets Handled Settled r.redriveUpgrade :=
  redriveUpgrade_meets handled h fun _ =>
    (primaryPipelinePrepare_settled h).weaken fun _ h _ => h

theorem refillPipeline_settled : Meets Handled Settled (r.refillPipeline op) := by
  refine refillPipeline_meets handled (fun _ => h) fun _ _ _ _ _ _ => ?_
  refine Meets.weaken (fun _ h => ?_) (prepareNextRequest_settled h)
  exact (injectPulse_settled h).weaken fun _ h => redriveUpgrade_settled h

theorem commitExecute_settled : Meets Handled Settled r.commitExecute := by
  refine commitExecute_meets (T := fun _ _ => True) handled ?table ?step
  case table =>
    intro _ _ _ _ _ _ _
    exact updateClientTable_meets handled (fun _ => nofun) fun _ _ => ⟨_, _, rfl, trivial⟩
  case step =>
    intro _ _ _ he _
    obtain ⟨_, _, _, _, _, _, _, rfl⟩ := he.frame
    exact refillPipeline_settled h

end

end

-- What the stages of a commit do to it.

theorem commitStart_settled (h : r.Settled) : Meets Handled Settled r.commitStart := by
  unfold commitStart
  split
  case isTrue =>
    unfold commitStartPipeline
    simp only [Meets.bind_eq, handled_assert]
    intro _ _ _
    split
    case h_1 => exact h
    case h_2 =>
      simp (disch := decide) only [Meets.ite_iff, Meets.bind_eq, Meets.pure_eq, handled_assertOn]
      exact ⟨fun _ => h, fun _ _ _ => h⟩
  case isFalse =>
    unfold commitStartJournal
    simp only [Meets.ite_iff, Meets.bind_eq, Meets.pure_eq, handled_assert]
    intro _ _ _ _ _
    refine ⟨fun _ => ?_, fun _ => h⟩
    split
    case h_2 => exact h
    case h_1 =>
      simp only [Meets.ite_iff, Meets.bind_eq, Meets.pure_eq]
      exact validHashChain_concurs.handled fun _ _ => ⟨fun _ => h, fun _ => h⟩

variable [Env]

section

variable (h : r.Settled)

include h

theorem commitStall_settled : Meets Handled (fun out => out.2.Settled) r.commitStall := by
  unfold commitStall
  simp only [Meets.bind_eq, handled_assert]
  intro _
  split
  case h_2 => exact handled_abort
  case h_1 =>
    simp only [Meets.bind_eq, Meets.ite_iff, handled_assert]
    intro _
    refine ⟨fun _ => h, fun _ => ?_⟩
    split
    case h_2 => exact handled_abort
    case h_1 =>
      simp only [Meets.bind_eq, Meets.ite_iff, Meets.pure_eq, handled_assert]
      intro _
      refine ⟨fun _ => ⟨fun _ => h, fun _ => ?_⟩, fun _ => h⟩
      split
      all_goals exact h

theorem commitAdvance_settled : Meets Handled (fun out => out.2.Settled) r.commitAdvance := by
  unfold commitAdvance
  dsimp only
  split
  case h_1 =>
    simp only [Meets.bind_eq, Meets.pure_eq, handled_assert]
    exact fun _ => commitStart_settled h
  case h_2 => split <;> exact h
  case h_3 =>
    simp only [Meets.bind_eq, handled_assert]
    intro _
    split
    all_goals simp only [Meets.bind_eq, Meets.pure_eq]
    case h_1 => exact commitPrefetch_concurs.handled fun _ _ => h
    case h_2 => exact commitStall_settled h
    case h_3 =>
      unfold commitReplySetup
      simp only [Meets.bind_eq, Meets.ite_iff, Meets.pure_eq]
      exact ⟨fun _ => h, fun _ => ClientReplies.ready_concurs.handled fun _ _ => h⟩
    case h_4 => exact commitExecute_settled h
    case h_7 =>
      unfold commitCheckpointData
      simp only [Meets.bind_eq, Meets.ite_iff, Meets.pure_eq]
      refine commitTriggersCheckpoint_concurs.handled fun _ _ => ⟨fun _ => ?_, fun _ => h⟩
      exact ClientReplies.checkpoint_concurs.handled fun _ _ => h
    case h_8 =>
      unfold commitCheckpointSuperblock
      simp only [Meets.bind_eq, Meets.ite_iff, Meets.pure_eq, handled_assert]
      refine commitTriggersCheckpoint_concurs.handled fun _ _ => ⟨fun _ _ _ => ?_, fun _ => h⟩
      split
      case h_2 => exact handled_abort
      case h_1 =>
        split
        case h_2 => exact handled_abort
        case h_1 =>
          simp only [Meets.bind_eq, Meets.pure_eq]
          exact handled.meets SuperBlock.checkpoint_unwatched fun _ _ => h
    all_goals exact h

theorem commitLoop_settled {fuel : Nat} : Meets Handled Settled (commitLoop fuel r) := by
  induction fuel generalizing r with
  | zero => trivial
  | succ fuel ih =>
    unfold commitLoop
    simp only [Meets.bind_eq, Meets.ite_iff, Meets.pure_eq]
    exact (commitAdvance_settled h).weaken fun _ h => ⟨fun _ => ih h, fun _ => h⟩

theorem commitDispatchEnter_settled : Meets Handled Settled r.commitDispatchEnter := by
  unfold commitDispatchEnter commitDispatch
  simp only [Meets.bind_eq, handled_assert]
  intro _ _ _
  apply commitLoop_settled
  exact h

theorem commitDispatchResume_settled : Meets Handled Settled r.commitDispatchResume := by
  unfold commitDispatchResume commitDispatch
  simp only [Meets.bind_eq, handled_assert]
  intro _ _ _
  apply commitLoop_settled
  exact h

theorem commitJournal_settled : Meets Handled Settled r.commitJournal := by
  unfold commitJournal
  simp only [Meets.bind_eq, Meets.ite_iff, Meets.pure_eq, handled_assert]
  exact fun _ _ _ _ => ⟨fun _ => h, fun _ => commitDispatchEnter_settled h⟩

end

variable {prepare : Prepare}

theorem sendPrepareOk_settled (h : r.Settled) :
    Meets Handled Settled (r.sendPrepareOk prepare) := by
  unfold sendPrepareOk
  simp only [Meets.bind_eq, Meets.ite_iff, Meets.pure_eq, handled_assert]
  intro _ _
  refine ⟨fun _ => h, fun _ => ⟨fun _ _ => h, fun _ => ?_⟩⟩
  refine opPrepareOkMax_concurs.handled fun _ _ => ⟨fun _ => h, fun _ => ?_⟩
  split
  case h_1 => exact h
  case h_2 =>
    simp (disch := decide) only [Meets.bind_eq, Meets.pure_eq, handled_assertOn]
    exact fun _ => h

theorem sendPrepareOksFrom_settled {opStart : Nat} (h : r.Settled) :
    Meets Handled Settled (r.sendPrepareOksFrom opStart) := by
  unfold sendPrepareOksFrom
  generalize r.op + 1 - opStart = count
  induction count generalizing opStart r with
  | zero => exact h
  | succ count ih =>
    unfold sendPrepareOksUpTo
    split
    case h_1 =>
      simp only [Meets.bind_eq]
      exact (sendPrepareOk_settled h).weaken fun _ h => ih h
    case h_2 => exact ih h

theorem sendPrepareOksAfterCheckpoint_settled (h : r.Settled) :
    Meets Handled Settled r.sendPrepareOksAfterCheckpoint := by
  unfold sendPrepareOksAfterCheckpoint
  simp only [Meets.bind_eq, handled_assert]
  intro _
  split
  case h_2 => exact handled_abort
  case h_1 =>
    simp only [Meets.bind_eq, handled_assert]
    exact fun _ => sendPrepareOksFrom_settled h

theorem driveSuperblock_settled {completions : Nat} (h : r.Settled) :
    Meets Handled Settled (r.driveSuperblock completions) := by
  unfold driveSuperblock
  split
  case h_2 => exact h
  case h_1 =>
    have hresume {r : Replica} (h : r.Settled) : Meets Handled
        (fun r => Meets Handled Settled r.commitDispatchResume)
        r.sendPrepareOksAfterCheckpoint :=
      (sendPrepareOksAfterCheckpoint_settled h).weaken fun _ h => commitDispatchResume_settled h
    simp only [Meets.bind_eq, Meets.ite_iff, Meets.pure_eq, handled_assert]
    refine ⟨fun _ _ _ => ⟨fun _ => ?_, fun _ => ?_⟩, fun _ => ⟨fun _ => ?_, fun _ => ?_⟩⟩
    · exact viewDurableUpdate_meets handled fun _ => ⟨fun _ _ => hresume h, fun _ => h⟩
    · exact ⟨fun _ _ => hresume h, fun _ => h⟩
    · exact viewDurableUpdate_meets handled fun _ => ⟨fun _ _ => hresume h, fun _ => h⟩
    · exact ⟨fun _ _ => hresume h, fun _ => h⟩

-- The transitions between the statuses.

omit [Env] in
theorem not_isPrimary_of_active {timeout timeout' : Timeout}
    (h : (if r.isPrimary then timeout.stop else timeout').active) : ¬r.clock.IsPrimary := by
  intro hp
  rw [if_pos (isPrimary_iff.mpr hp)] at h
  cases h

theorem transitionToViewChangeStatus_settled {viewNew : Nat} (hq : r.Quiet) :
    Meets Handled Settled (r.transitionToViewChangeStatus viewNew) := by
  unfold transitionToViewChangeStatus
  simp only [Meets.bind_eq, handled_assert]
  intro _
  split
  all_goals simp only [Meets.bind_eq, Meets.pure_eq]
  case isTrue =>
    refine updateJoinViewHeaders_meets handled fun _ => viewDurableUpdate_meets handled fun _ => ?_
    exact sendJoinView_meets handled fun _ _ => .leave rfl
      (fun h => absurd h Bool.false_ne_true) hq.commitMessage
      (fun h => absurd h Bool.false_ne_true) hq.pulse not_isPrimary_of_active hq.exitViewWindow
      (fun h => absurd h Bool.false_ne_true)
  case isFalse =>
    refine viewDurableUpdate_meets handled fun _ => ?_
    exact sendJoinView_meets handled fun _ _ => .leave rfl
      (fun h => absurd h Bool.false_ne_true) hq.commitMessage
      (fun h => absurd h Bool.false_ne_true) hq.pulse not_isPrimary_of_active hq.exitViewWindow
      (fun h => absurd h Bool.false_ne_true)

variable {now : Nat}

-- A replica that resumes its normal status sets all of its timeouts.
theorem transitionToNormalFromViewChangeStatus_settled {viewNew : Nat} :
    Meets Handled Settled (r.transitionToNormalFromViewChangeStatus viewNew now) := by
  unfold transitionToNormalFromViewChangeStatus FaultDetector.reset
  simp only [Meets.bind_eq, Meets.pure_eq, handled_assert]
  intro _ _ _ _ _ hprepare habdicate _
  split
  case isTrue hp =>
    have hp : r.view % r.replicaCount = r.replicaIndex := isPrimary_iff.mp hp
    unfold becomePrimary
    simp only [Meets.bind_eq, handled_assert, Meets.pure_eq]
    intro _ _ _ _
    refine viewDurableUpdate_meets handled fun _ => ?_
    exact
      { status := .inl rfl
        prepare := fun _ => ⟨rfl, hp⟩
        commitMessage := fun _ => ⟨rfl, hp⟩
        primaryAbdicate := fun _ => ⟨rfl, hp⟩
        pulse := fun _ => ⟨rfl, hp⟩
        viewChangeStatus := by
          simp only [clock]
          split <;> exact fun h => by cases h
        joinViewMessage := by
          simp only [clock]
          split <;> exact fun h => by cases h
        getViewMessage := by
          simp only [clock]
          split <;> exact fun h => by cases h
        exitViewWindow := by
          simp only [clock]
          split <;> exact fun h => by cases h
        journalRepair := fun _ => rfl }
  case isFalse =>
    unfold becomeBackup
    simp only [Meets.bind_eq, handled_assert, Meets.pure_eq]
    refine viewDurableUpdate_meets handled fun _ _ _ => ?_
    exact
      { status := .inl rfl
        prepare := fun h => absurd h hprepare
        commitMessage := fun h => absurd h Bool.false_ne_true
        primaryAbdicate := fun h => absurd h habdicate
        pulse := fun h => absurd h Bool.false_ne_true
        viewChangeStatus := fun h => absurd h Bool.false_ne_true
        joinViewMessage := fun h => absurd h Bool.false_ne_true
        getViewMessage := fun h => absurd h Bool.false_ne_true
        exitViewWindow := fun h => absurd h Bool.false_ne_true
        journalRepair := fun _ => rfl }

omit [Env] in
theorem acknowledgeSurvivors_settled {prepares : List PipelinePrepare} (h : r.Settled) :
    Meets Handled Settled (acknowledgeSurvivors prepares r) := by
  induction prepares generalizing r with
  | nil => exact h
  | cons prepare prepares ih =>
    unfold acknowledgeSurvivors
    simp (disch := decide) only [Meets.bind_eq, handled_assertOn]
    exact (onPrepareOk_settled h).weaken fun _ h _ => ih h

theorem primaryStartViewAsTheNewPrimary_settled :
    Meets Handled Settled (r.primaryStartViewAsTheNewPrimary now) := by
  unfold primaryStartViewAsTheNewPrimary
  simp only [Meets.bind_eq, handled_assert]
  intro _ _ _ _
  refine handled.meets primaryJournalRepaired_unwatched fun _ _ _ _ _ => ?_
  refine handled.meets committedAnchor_unwatched fun _ _ => ?_
  refine loadSurvivors_meets handled fun _ _ _ _ => ?_
  exact transitionToNormalFromViewChangeStatus_settled.weaken fun _ h =>
    acknowledgeSurvivors_settled h

omit [Env] in
theorem Settled.of_clock {r' : Replica} (h : r.Settled) (hc : r'.clock = r.clock) :
    r'.Settled := by
  unfold Settled
  rwa [hc]

-- The log of a new view, which leaves the clock as it is.

theorem setOpAndCommitMax_clock {commitMax : Nat} :
    Meets Handled (·.clock = r.clock) (r.setOpAndCommitMax op commitMax) := by
  unfold setOpAndCommitMax
  simp (disch := decide) only [Meets.bind_eq, Meets.ite_iff, Meets.pure_eq, handled_assert, handled_assertOn]
  intros
  refine ⟨fun _ _ _ _ => ?_, fun _ _ => ?_⟩
  all_goals exact handled.meets Journal.removeEntriesFrom_unwatched fun _ _ _ _ => rfl

variable {headers : List Prepare}

theorem onViewSetHead_clock {view : View} :
    Meets Handled (·.clock = r.clock) (r.onViewSetHead view headers) := by
  unfold onViewSetHead
  simp only [Meets.bind_eq]
  refine viewHead_concurs.handled fun _ _ => ?_
  split
  case h_1 =>
    simp only [Meets.bind_eq, Meets.pure_eq, handled_assert]
    exact setOpAndCommitMax_clock.weaken fun _ h _ => h
  case h_2 =>
    simp only [Meets.bind_eq, Meets.pure_eq, handled_assert, advanceCommitMax_eq]
    exact fun _ _ => rfl

variable {header : Prepare}

theorem replaceHeader_clock : Meets Handled (·.clock = r.clock) (r.replaceHeader header) := by
  unfold replaceHeader
  simp only [Meets.bind_eq, Meets.ite_iff, Meets.pure_eq, handled_assert, handled_window]
  intro _ _ _ _ _ _
  refine ⟨fun _ => Journal.hasHeader_concurs.handled fun _ _ _ => ⟨fun _ _ => ?_, fun _ => ?_⟩,
    fun _ => ⟨fun _ _ => ?_, fun _ => ?_⟩⟩
  all_goals exact ⟨fun _ => trivial, fun _ => Journal.hasHeader_concurs.handled fun _ _ => ⟨fun _ =>
    trivial, fun _ =>
    handled.meets Journal.setHeaderAsDirty_unwatched fun _ _ => rfl⟩⟩

theorem replaceHeaders_clock : Meets Handled (·.clock = r.clock) (replaceHeaders headers r) := by
  induction headers generalizing r with
  | nil => exact rfl
  | cons header headers ih =>
    unfold replaceHeaders
    simp only [Meets.bind_eq]
    exact replaceHeader_clock.weaken fun _ h => ih.weaken fun _ h' => h'.trans h

theorem makeViewMessage_clock {nonce : Nat} :
    Meets Handled (fun out => out.2.clock = r.clock) (r.makeViewMessage nonce) := by
  unfold makeViewMessage primaryUpdateViewHeaders
  simp only [Meets.bind_eq, Meets.pure_eq, handled_assert]
  intro _ _ _ _ _ _ _
  refine Journal.findLatestHeadersBreakBetween_concurs.handled fun _ _ => ?_
  refine headersBelow_concurs.handled fun _ _ => headersAtHooks_concurs.handled fun _ _ _ => ?_
  split
  case h_2 => exact handled_abort
  case h_1 =>
    simp only [Meets.bind_eq, Meets.pure_eq, handled_assert]
    exact fun _ => rfl

theorem primarySetLogFromJoinViewMessages_handled :
    Meets Handled (fun _ => True) r.primarySetLogFromJoinViewMessages := by
  unfold primarySetLogFromJoinViewMessages JvQuorum.jvsUncanonical
  simp only [Meets.bind_eq, handled_assert]
  intro _ _ _ _ _ _
  refine JvQuorum.verify_concurs.handled fun _ _ => JvQuorum.timestampMax_concurs.handled fun _ _ => ?_
  refine JvQuorum.quorumHeaders_concurs.handled fun _ _ => ?_
  split
  case h_2 => exact handled_abort
  case h_1 =>
    simp only [Meets.bind_eq, handled_assert]
    refine JvQuorum.commitMax_concurs.handled fun _ _ => setOpAndCommitMax_clock.weaken fun _ _ _ => ?_
    split
    case h_2 => exact handled_abort
    case h_1 =>
      simp only [Meets.bind_eq, handled_assert]
      refine replaceHeader_clock.weaken fun _ _ _ _ => replaceHeaders_clock.weaken fun _ _ _ => ?_
      refine JvQuorum.logViewMax_concurs.handled fun _ _ => JvQuorum.received_concurs.handled fun _ _ => ?_
      have hlast {headers : List Prepare} {r : Replica} :
          Meets Handled (fun _ => True) (replaceHeaders headers r) :=
        replaceHeaders_clock.weaken fun _ _ => trivial
      exact fun _ => hlast

end Replica

end TigerBeetle
