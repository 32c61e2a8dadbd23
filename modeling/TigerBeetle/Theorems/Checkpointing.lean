import TigerBeetle.Theorems.CheckpointIds

namespace TigerBeetle

open Fallible Fault

variable {op commitMax opMin count now checksum : Nat} {headers : List Prepare} {body : Body} {message : Message}

namespace JvQuorum

variable {ids : Nat → Nat} {jvs : List (Option JoinedView)} {all : List JoinedView}

-- The headers of all messages are stamped.
def Stamped (ids : Nat → Nat) (all : List JoinedView) : Prop :=
  ∀ jv ∈ all, ∀ header ∈ jv.headers, header.Stamped ids

theorem received_stamped {replica : Nat}
    (h : ∀ slot ∈ jvs, ∀ jv ∈ slot, ∀ header ∈ jv.headers, header.Stamped ids) :
    Meets Undiverged (Stamped ids) (received replica jvs) := by
  induction jvs generalizing replica with
  | nil => simp [received, Stamped]
  | cons slot jvs ih =>
    have ⟨hslot, hrest⟩ := List.forall_mem_cons.mp h
    cases slot with
    | none => exact ih hrest
    | some message =>
      unfold received
      simp only [Meets.bind_eq, Meets.pure_eq, undiverged_assert]
      exact fun _ => (ih hrest).weaken fun _ hs => List.forall_mem_cons.mpr ⟨hslot message rfl, hs⟩

theorem jvsUncanonical_stamped
    (h : ∀ slot ∈ jvs, ∀ jv ∈ slot, ∀ header ∈ jv.headers, header.Stamped ids) :
    Meets Undiverged (Stamped ids) (jvsUncanonical jvs) := by
  unfold jvsUncanonical
  simp only [Meets.bind_eq, Meets.pure_eq, undiverged_assert]
  refine logViewMax_concurs.meets fun _ _ => (received_stamped h).weaken fun _ hs _ jv hm => ?_
  exact hs jv (List.mem_of_mem_filter hm)

theorem headerForOp_stamped {logView : Nat} {found : Option Prepare} (h : Stamped ids all)
    (hf : ∀ header ∈ found, header.Stamped ids) :
    Meets Undiverged (∀ header ∈ ·, header.Stamped ids) (headerForOp op logView found all) := by
  induction all generalizing found with
  | nil => exact hf
  | cons jv all ih =>
    have ⟨hjv, hrest⟩ := List.forall_mem_cons.mp h
    unfold headerForOp
    simp only [Meets.bind_eq, Meets.ite_iff, undiverged_assert]
    refine fun _ => ⟨fun _ => ih hrest hf, fun _ => ?_⟩
    split
    case h_1 => exact ih hrest hf
    case h_2 header hh =>
      have hh : header.Stamped ids := hjv header (List.mem_of_getElem? hh)
      simp only [Meets.ite_iff]
      refine ⟨fun _ => ?_, fun _ => ih hrest hf⟩
      split
      case h_1 =>
        simp only [Meets.bind_eq, undiverged_assert]
        exact fun _ => ih hrest hf
      case h_2 =>
        refine ih hrest ?_
        rintro _ ⟨⟩
        exact hh

theorem collectHeaders_stamped {logView : Nat} {childParent : Option Nat}
    (h : Stamped ids all) :
    Meets Undiverged (∀ header ∈ ·, header.Stamped ids)
      (collectHeaders all logView opMin count childParent) := by
  induction count generalizing childParent with
  | zero => simp [collectHeaders]
  | succ count ih =>
    unfold collectHeaders
    simp only [Meets.bind_eq, undiverged_assert]
    refine (headerForOp_stamped h (by simp)).weaken fun found hf _ => ?_
    cases found with
    | none => exact undiverged_abort
    | some header =>
      simp only [Meets.bind_eq, Meets.pure_eq]
      exact ih.weaken fun _ hs => List.forall_mem_cons.mpr ⟨hf header rfl, hs⟩

-- The headers that the messages determine are among their own.
theorem quorumHeaders_stamped {options : QuorumOptions}
    (h : ∀ slot ∈ jvs, ∀ jv ∈ slot, ∀ header ∈ jv.headers, header.Stamped ids) :
    Meets Undiverged
      (fun result => ∀ opHead opMin headers, result = .completeValid opHead opMin headers →
        ∀ header ∈ headers, header.Stamped ids)
      (quorumHeaders jvs options) := by
  have hcanonical : Meets Undiverged (Stamped ids) (jvsCanonical jvs) := by
    unfold jvsCanonical jvsWithLogView
    simp only [Meets.bind_eq, Meets.pure_eq]
    refine logViewMax_concurs.meets fun _ _ => (received_stamped h).weaken fun _ hs jv hm => ?_
    exact hs jv (List.mem_of_mem_filter hm)
  have hview {canonical : List JoinedView} {opMax opMin : Nat} (hs : Stamped ids canonical) :
      Meets Undiverged (∀ header ∈ ·, header.Stamped ids)
        (headersForView canonical opMax opMin) := by
    unfold headersForView
    split
    case h_2 => exact undiverged_abort
    case h_1 =>
      simp only [Meets.bind_eq, undiverged_assert]
      exact fun _ => collectHeaders_stamped hs
  unfold quorumHeaders
  simp only [Meets.bind_eq, Meets.ite_iff, Meets.pure_eq, undiverged_assert]
  intro _ _ _
  refine ⟨fun _ _ => ?_, fun _ _ => ?_⟩
  all_goals
    refine received_concurs.meets fun _ _ => ⟨by simp, fun _ => ?_⟩
    refine logViewMax_concurs.meets fun _ _ => ?_
    refine hcanonical.weaken fun canonical hs _ _ => ?_
    refine opMaxCanonical_concurs.meets fun _ _ => commitMax_concurs.meets fun _ _ _ => ?_
    refine findHead_concurs.meets fun head _ => ?_
    cases head with
    | awaitingRepair  => simp
    | completeInvalid => simp
    | found opHead =>
      simp only [Meets.bind_eq, Meets.pure_eq, undiverged_assert]
      refine fun _ _ => (hview hs).weaken fun headers hh _ _ _ he => ?_
      cases he
      exact hh

end JvQuorum

namespace Replica

variable {ids : Nat → Nat} {r : Replica} {header : Prepare} {id : Nat} [Env]

section

variable (h : r.Stamped ids)

include h

theorem primarySetLogFromJoinViewMessages_stamped :
    Meets Undiverged (Stamped ids) r.primarySetLogFromJoinViewMessages := by
  unfold primarySetLogFromJoinViewMessages
  simp only [Meets.bind_eq, undiverged_assert]
  intro hstatus _ _ _ _ _
  refine JvQuorum.verify_concurs.meets fun _ _ => JvQuorum.timestampMax_concurs.meets fun _ _ => ?_
  refine (JvQuorum.quorumHeaders_stamped h.joinViews).weaken fun result hr => ?_
  split
  case h_2 => exact undiverged_abort
  case h_1 opHead _ headers =>
    have hs := hr _ _ _ rfl
    simp only [Meets.bind_eq, undiverged_assert]
    refine JvQuorum.commitMax_concurs.meets fun commitMax _ => ?_
    have hload {timestamp : Nat} : Meets Undiverged (Stamped ids)
        (setOpAndCommitMax { r with prepareTimestamp := timestamp } opHead commitMax) :=
      setOpAndCommitMax_stamped (r := { r with prepareTimestamp := timestamp }) h
        (fun hn => absurd (hn.symm.trans hstatus) (by decide))
        (by
          have hq : r.pipelineQueue.prepareQueue = [] := h.cleared hstatus
          simp [hq])
    refine hload.weaken fun r₁ h _ => ?_
    cases headers with
    | nil => exact undiverged_abort
    | cons head headers =>
      obtain ⟨hhead, hs⟩ := List.forall_mem_cons.mp hs
      simp only [Meets.bind_eq, undiverged_assert]
      refine (replaceHeader_stamped h hhead).weaken fun r₂ h _ _ => ?_
      refine (replaceHeaders_stamped h hs).weaken fun r₃ h _ => ?_
      refine (JvQuorum.jvsUncanonical_stamped h.joinViews).weaken fun _ hu => ?_
      refine replaceHeaders_stamped h fun header hm => ?_
      obtain ⟨jv, hjv, hm⟩ := List.mem_flatMap.mp hm
      exact hu jv hjv header (List.mem_of_mem_filter hm)

theorem onJoinView_stamped {joinView : JoinView}
    (hs : ∀ header ∈ headers, header.Stamped ids) :
    Meets Undiverged (Stamped ids) (r.onJoinView joinView headers now) := by
  unfold onJoinView
  simp only [Meets.bind_eq, Meets.ite_iff, Meets.pure_eq, undiverged_assert]
  refine ignoreJoinView_concurs.meets fun _ _ => ⟨fun _ => h, fun _ _ _ _ => ?_⟩
  refine (primaryReceiveJoinView_stamped h hs).weaken fun r h _ => ?_
  refine JvQuorum.verify_concurs.meets fun _ _ => ?_
  refine (JvQuorum.quorumHeaders_stamped h.joinViews).weaken fun _ _ => ?_
  split
  case h_2 => exact h
  case h_1 =>
    unfold startView
    simp only [Meets.bind_eq, undiverged_assert]
    refine Meets.weaken (Q := Stamped ids) (fun r h _ _ => ?_)
      (primarySetLogFromJoinViewMessages_stamped h)
    split
    case h_2 => exact undiverged_abort
    case h_1 =>
      simp only [Meets.bind_eq, undiverged_assert]
      intro _
      refine Meets.weaken (Q := Stamped ids) (fun _ h => ?_) (primarySendView_stamped h)
      exact primaryStartViewAsTheNewPrimary_stamped h

-- The votes to leave the view, and the heartbeat of the primary.

omit [Env] in
theorem sendExitView_stamped : Meets Undiverged (Stamped ids) r.sendExitView := by
  unfold sendExitView
  simp only [Meets.bind_eq, Meets.pure_eq, undiverged_assert]
  exact fun _ => h.enqueue trivial

theorem onExitView_stamped {header : ExitView} :
    Meets Undiverged (Stamped ids) (r.onExitView header) := by
  unfold onExitView
  simp only [Meets.bind_eq, Meets.ite_iff, Meets.pure_eq, undiverged_assert]
  refine ⟨fun _ => h, fun hs => ⟨fun _ => h, fun hv _ _ => ⟨fun hc => ?_, fun _ => h⟩⟩⟩
  apply transitionToViewChangeStatus_stamped
  exact h

omit [Env] in
theorem onCommitHeartbeat_stamped {view timestamp commit : Nat} :
    Meets Undiverged (Stamped ids) (r.onCommitHeartbeat view timestamp commit now) := by
  unfold onCommitHeartbeat
  simp only [Meets.bind_eq, Meets.ite_iff, Meets.pure_eq, undiverged_assert]
  refine ⟨fun _ => h, fun _ => ⟨fun _ _ => ?_, fun _ => h.advanceCommitMax⟩⟩
  refine Stamped.advanceCommitMax ?_
  exact h

theorem sendCommit_stamped : Meets Undiverged (Stamped ids) (r.sendCommit now) := by
  unfold sendCommit
  simp only [Meets.bind_eq, Meets.ite_iff, Meets.pure_eq, undiverged_assert]
  refine fun _ _ _ => ⟨fun _ _ => h, fun _ => ?_⟩
  split
  all_goals simp only [Meets.bind_eq, Meets.pure_eq, undiverged_assert]
  case h_1 => exact Stamped.copies h trivial
  case h_2 => exact fun _ => Stamped.copies h trivial

theorem tickNormalHeartbeatFault_stamped :
    Meets Undiverged (Stamped ids) (r.tickNormalHeartbeatFault now) := by
  unfold tickNormalHeartbeatFault
  simp only [Meets.bind_eq, Meets.ite_iff, Meets.pure_eq, undiverged_assert]
  intro _
  refine ⟨fun _ => h, fun _ => ⟨fun _ => ?_, fun _ => ⟨fun _ _ => h, fun _ => ?_⟩⟩⟩
  · exact Meets.weaken (Q := Stamped ids) (fun _ h _ => h) (sendCommit_stamped h)
  · exact (sendExitView_stamped h).weaken fun _ h _ => h

end

-- The repair of the journal.

section

omit [Env]

theorem sendGetPrepare_stamped {peer : Nat} (h : r.Stamped ids) :
    Meets Undiverged (Stamped ids) (r.sendGetPrepare peer op checksum) := by
  unfold sendGetPrepare
  simp only [Meets.bind_eq, Meets.pure_eq, undiverged_assert]
  exact fun _ _ => h.enqueue trivial

theorem sendGetHeaders_stamped {peer opMax : Nat} (h : r.Stamped ids) :
    Meets Undiverged (Stamped ids) (r.sendGetHeaders peer opMin opMax) := by
  unfold sendGetHeaders
  simp only [Meets.bind_eq, Meets.pure_eq, undiverged_assert]
  exact fun _ _ _ => h.enqueue trivial

theorem sendGetView_stamped (h : r.Stamped ids) :
    Meets Undiverged (Stamped ids) r.sendGetView := by
  unfold sendGetView
  simp only [Meets.bind_eq, Meets.pure_eq, undiverged_assert]
  exact fun _ _ => h.enqueue trivial

end

section

variable (h : r.Stamped ids)

include h

theorem repairPrepares_stamped : Meets Undiverged (Stamped ids) (repairPrepares count op r) := by
  induction count generalizing op r with
  | zero => exact h
  | succ count ih =>
    unfold repairPrepares repairPrepare
    simp only [Meets.ite_iff, Meets.bind_eq]
    refine ⟨fun _ => assertRepairs_concurs.meets fun _ _ => ?_, fun _ => ih h⟩
    split
    case h_1 => exact Meets.weaken (Q := Stamped ids) (fun _ h => ih h) (sendGetPrepare_stamped h)
    case h_2 => exact ih h

theorem repairPreparesBetween_stamped {opMax : Nat} :
    Meets Undiverged (Stamped ids) (r.repairPreparesBetween opMin opMax) := by
  unfold repairPreparesBetween
  simp only [Meets.bind_eq, undiverged_assert]
  exact assertRepairs_concurs.meets fun _ _ _ _ _ => repairPrepares_stamped h

theorem repairCleanOutOfBoundPrepares_stamped :
    Meets Undiverged (Stamped ids) r.repairCleanOutOfBoundPrepares := by
  unfold repairCleanOutOfBoundPrepares
  simp only [Meets.bind_eq, Meets.pure_eq, undiverged_assert]
  exact assertRepairs_concurs.meets fun _ _ _ _ _ => { h with journal := h.journal.removeEntries }

omit [Env] in
theorem repairHead_stamped : Meets Undiverged (Stamped ids) r.repairHead := by
  unfold repairHead
  simp only [Meets.bind_eq, Meets.ite_iff, Meets.pure_eq]
  exact opRepairMax_concurs.meets fun _ _ => ⟨fun _ => sendGetView_stamped h, fun _ => h⟩

omit [Env] in
theorem repairHeaders_stamped : Meets Undiverged (Stamped ids) r.repairHeaders := by
  unfold repairHeaders
  simp only [Meets.bind_eq]
  refine Journal.findLatestHeadersBreakBetween_concurs.meets fun _ _ => ?_
  split
  case h_1 => exact h
  case h_2 =>
    simp only [Meets.bind_eq, Meets.ite_iff, Meets.pure_eq, undiverged_assert]
    intro _ _ _
    refine ⟨fun _ _ => chooseAnyOtherReplica_concurs.meets fun _ _ => ?_, fun _ => h⟩
    exact sendGetHeaders_stamped h

theorem repair_stamped : Meets Undiverged (Stamped ids) r.repair := by
  unfold repair
  simp only [Meets.bind_eq, Meets.ite_iff, Meets.pure_eq, undiverged_assert]
  refine ⟨fun _ => h, fun _ => assertRepairs_concurs.meets fun _ _ _ _ _ _ _ _ => ?_⟩
  refine (repairHead_stamped h).weaken fun r h => (repairHeaders_stamped h).weaken fun r h => ?_
  have hclean {r : Replica} (h : r.Stamped ids) : Meets Undiverged
      (fun r => (r.commitMin < r.commitMax → 1 < r.replicaCount →
        Meets Undiverged (Stamped ids) r.commitJournal) ∧
        (¬r.commitMin < r.commitMax → r.Stamped ids))
      r.repairCleanOutOfBoundPrepares :=
    (repairCleanOutOfBoundPrepares_stamped h).weaken fun _ h =>
      ⟨fun _ _ => commitJournal_stamped h, fun _ => h⟩
  refine ⟨fun _ => (repairPreparesBetween_stamped h).weaken fun r h => ?_, fun _ => ?_⟩
  all_goals exact ⟨fun _ => (repairPreparesBetween_stamped h).weaken fun r h => hclean h,
    fun _ => hclean h⟩

omit [Env] in
theorem repairHeader_stamped (hh : header.Stamped ids) :
    Meets Undiverged (fun out => out.2.Stamped ids) (r.repairHeader header) :=
  repairHeader_meets (fun _ => Incidental.undiverged) h <|
    (h.journal.setHeaderAsDirty hh).weaken fun _ hj => { h with journal := hj }

theorem onRepair_stamped (hh : header.Stamped ids) :
    Meets Undiverged (Stamped ids) (r.onRepair header) := by
  unfold onRepair
  simp only [Meets.bind_eq, Meets.ite_iff, Meets.pure_eq, undiverged_assert]
  intro _
  refine ⟨fun _ => h, fun _ => ⟨fun _ => h, fun _ => ?_⟩⟩
  refine Journal.hasPrepare_concurs.meets fun _ _ => ?_
  refine ⟨fun _ => sendPrepareOk_stamped h hh, fun _ => ?_⟩
  refine (repairHeader_stamped h hh).weaken fun _ h => ⟨fun _ => ?_, fun _ => h⟩
  refine ⟨fun _ => repair_stamped h, fun _ => ?_⟩
  exact (commitJournal_stamped h).weaken fun _ h => repair_stamped h

theorem onHeaders_stamped (hs : ∀ header ∈ headers, header.Stamped ids) :
    Meets Undiverged (Stamped ids) (r.onHeaders headers) := by
  have hinstall : Meets Undiverged (Stamped ids) (installHeaders headers r) := by
    induction headers generalizing r with
    | nil => exact h
    | cons header headers ih =>
      have ⟨hh, hs⟩ := List.forall_mem_cons.mp hs
      unfold installHeaders
      simp only [Meets.bind_eq]
      exact (repairHeader_stamped h hh).weaken fun _ h => ih h hs
  unfold onHeaders
  simp only [Meets.ite_iff, Meets.bind_eq, Meets.pure_eq]
  exact ⟨fun _ => h, fun _ => hinstall.weaken fun _ h => repair_stamped h⟩

-- The answers to the requests of other replicas.

omit [Env] in
theorem Stamped.headerWithOpAndChecksum
    (hh : r.journal.headerWithOpAndChecksum op checksum = some header) : header.Stamped ids := by
  unfold Journal.headerWithOpAndChecksum at hh
  split at hh
  case h_2 => cases hh
  case h_1 he =>
    split at hh
    case isFalse => cases hh
    case isTrue => exact h.journal.headerWithOp (he.trans hh)

omit [Env] in
theorem onGetPrepare_stamped {getPrepare : GetPrepare} :
    Meets Undiverged (Stamped ids) (r.onGetPrepare getPrepare) := by
  unfold onGetPrepare
  simp only [Meets.bind_eq, Meets.ite_iff, Meets.pure_eq, undiverged_assert]
  refine fun _ _ => ⟨fun _ => ?_, fun _ _ => ?_⟩
  all_goals
    split
    case h_1 => exact h
    case h_2 hh =>
      have ⟨_, _, hh⟩ := Option.bind_eq_some_iff.mp hh
      exact h.enqueue (h.headerWithOpAndChecksum hh)

omit [Env] in
theorem onGetHeaders_stamped {getHeaders : GetHeaders} :
    Meets Undiverged (Stamped ids) (r.onGetHeaders getHeaders) := by
  unfold onGetHeaders Journal.copyLatestHeadersBetween
  simp only [Meets.bind_eq, Meets.pure_eq, undiverged_assert]
  intro _ _ _
  have hs : ∀ header ∈ r.journal.copyLatestHeaders getHeaders.opMin
      (getHeaders.opMax + 1 - getHeaders.opMin) getHeadersMax, header.Stamped ids :=
    h.journal.copyLatestHeaders
  split
  case h_1 => exact h
  case h_2 => exact h.enqueue hs

theorem onGetView_stamped {getView : GetView} :
    Meets Undiverged (Stamped ids) (r.onGetView getView) := by
  unfold onGetView
  simp only [Meets.bind_eq, Meets.pure_eq, undiverged_assert]
  intro _ _ _ _ _
  exact (makeViewMessage_stamped h).weaken fun _ ⟨hm, h⟩ => h.enqueue hm

end

-- The log of a new view.

omit [Env] in
theorem viewHead_le
    (hh : r.viewHead commitMax headers = .ok (some op)) : r.logView < r.view ∨ r.op ≤ op := by
  induction headers with
  | nil => cases hh
  | cons header headers ih =>
    have hmeets : Meets (fun _ => True) (fun found => found = some op →
        r.logView < r.view ∨ r.op ≤ op) (r.viewHead commitMax (header :: headers)) := by
      unfold viewHead
      simp only [Meets.bind_eq, Meets.ite_iff, Meets.pure_eq, partial_assert]
      refine fun _ => ⟨fun hop he => ?_, fun _ => ?_⟩
      · obtain rfl : header.op = op := Option.some.inj he
        exact hop.2.imp id And.right
      · exact Meets.trivial.returned.weaken fun _ hf he => ih (he ▸ hf.1)
    exact hmeets.post hh rfl

variable {view : View}

section

variable (h : r.Stamped ids)

include h

theorem onViewSetHead_stamped (hs : r.status = .normal ∨ r.status = .viewChange)
    (hv : r.status = .normal → r.view = r.logView) :
    Meets Undiverged (Stamped ids) (r.onViewSetHead view headers) := by
  unfold onViewSetHead
  simp only [Meets.bind_eq]
  refine viewHead_concurs.meets fun found hf => ?_
  cases found with
  | some op =>
    have hle (hs : r.status = .normal) : r.op ≤ op :=
      (viewHead_le hf).resolve_left fun hlt => absurd (hv hs) hlt.ne'
    simp only [Meets.bind_eq, Meets.pure_eq, undiverged_assert]
    refine (setOpAndCommitMax_stamped h (fun hs => (h.committed hs).trans (hle hs))
      fun prepare hm => ?_).weaken fun _ h _ => h
    rcases hs with hs | hs
    · exact (h.pending prepare hm).trans (hle hs)
    · have hq : r.pipelineQueue.prepareQueue = [] := h.cleared hs
      exact absurd (hq ▸ hm) List.not_mem_nil
  | none =>
    simp only [Meets.bind_eq, Meets.pure_eq, undiverged_assert]
    exact fun _ _ => h.advanceCommitMax

-- A replica that commits checks its commit number first.
theorem onViewJoin_stamped : Meets Undiverged (Stamped ids) (r.onViewJoin view now) := by
  unfold onViewJoin sendPrepareOksAfterViewChange
  simp only [Meets.ite_iff, Meets.bind_eq, Meets.pure_eq, undiverged_assert]
  refine ⟨fun _ => ?_, fun _ => h⟩
  refine (transitionToNormalFromViewChangeStatus_stamped h.held).weaken fun r ⟨hh, h, _⟩ _ => ?_
  by_cases hle : r.commitMin ≤ r.op
  case pos =>
    exact (sendPrepareOksFrom_stamped (h hle)).weaken fun _ h => commitJournal_stamped h
  case neg =>
    refine (sendPrepareOksFrom_held hh).weaken fun r' ⟨_, _, he⟩ => ?_
    unfold commitJournal
    simp only [Meets.bind_eq, undiverged_assert]
    intro _ _ _ hle'
    exact absurd (by rwa [he] at hle') hle

theorem onViewSetJournal_stamped (hs : ∀ header ∈ headers, header.Stamped ids)
    (hstatus : r.status = .normal ∨ r.status = .viewChange)
    (hv : r.status = .normal → r.view = r.logView) :
    Meets Undiverged (Stamped ids) (r.onViewSetJournal view headers now) := by
  unfold onViewSetJournal
  simp only [Meets.bind_eq, undiverged_assert]
  intro _ _
  split
  case h_1 => exact h
  case h_2 =>
    simp only [Meets.bind_eq, undiverged_assert]
    intro _ _
    refine (onViewSetHead_stamped h hstatus hv).weaken fun r h _ => ?_
    refine (replaceHeaders_stamped h fun header hm => hs header ?_).weaken fun r h => ?_
    · exact List.mem_of_mem_filter hm
    · refine Meets.weaken (Q := Stamped ids) (fun _ h _ _ _ _ => repair_stamped h) ?_
      exact onViewJoin_stamped { h with viewHeaders := hs }

theorem onView_stamped (hs : ∀ header ∈ headers, header.Stamped ids) :
    Meets Undiverged (Stamped ids) (r.onView view headers now) := by
  unfold onView
  simp only [Meets.bind_eq, Meets.ite_iff, Meets.pure_eq, undiverged_assert]
  refine ignoreView_concurs.meets fun _ _ => ⟨fun _ => h, fun _ hstatus => ?_⟩
  refine ⟨fun _ _ => h, fun _ => ?_⟩
  have hset {r : Replica} (h : r.Stamped ids)
      (hstatus : r.status = .normal ∨ r.status = .viewChange)
      (hv : r.status = .normal → r.view = r.logView) :
      Meets Undiverged (Stamped ids) (r.onViewSetJournal view headers now) :=
    onViewSetJournal_stamped h hs hstatus hv
  constructor
  case left =>
    intro _
    have hchange : Meets Undiverged (·.status = .viewChange)
        (r.transitionToViewChangeStatus view.view) :=
      transitionToViewChangeStatus_meets undiverged fun _ _ _ _ _ _ => rfl
    refine ((transitionToViewChangeStatus_stamped h).and hchange).weaken fun _ ⟨h, hc⟩ => ?_
    exact ⟨fun _ _ hv _ _ _ _ _ => hset h (.inr hc) fun _ => hv,
      fun hn _ _ _ _ _ => hset h (.inr hc) fun hn' => absurd hn' hn⟩
  case right =>
    exact fun _ => ⟨fun _ _ hv _ _ _ _ _ => hset h hstatus.symm fun _ => hv,
      fun hn _ _ _ _ _ => hset h hstatus.symm fun hn' => absurd hn' hn⟩

-- The other messages.

theorem onRequest_stamped {request : Request} :
    Meets Undiverged (Stamped ids) (r.onRequest request body) :=
  onRequest_meets undiverged (fun _ => h) (fun _ _ _ => h) fun _ _ _ =>
    Meets.weaken (Q := fun out => out.2.Stamped ids) (fun _ h _ => h)
      (primaryPipelinePrepare_stamped h)

theorem onStalePrepare_stamped (hh : header.Stamped ids) :
    Meets Undiverged (Stamped ids) (r.onStalePrepare header body) := by
  unfold onStalePrepare
  simp only [Meets.bind_eq, Meets.ite_iff, Meets.pure_eq]
  refine (onRepair_stamped h hh).weaken fun _ h => ⟨fun _ => ?_, fun _ => h⟩
  exact h.journal.setPrepareBody.weaken fun _ hj => { h with journal := hj }

theorem onAcceptedPrepare_stamped (hh : header.Stamped ids) :
    Meets Undiverged (Stamped ids) (r.onAcceptedPrepare header body) := by
  unfold onAcceptedPrepare
  simp only [Meets.bind_eq, Meets.ite_iff, Meets.pure_eq, undiverged_assert]
  refine fun _ => h.journal.setPrepareBody.weaken fun journal hj => ?_
  have h : Stamped ids { r with journal } := { h with journal := hj }
  refine ⟨fun _ => h, fun _ => ?_⟩
  refine Meets.weaken (Q := Stamped ids) (fun r h => ?_)
    (sendPrepareOk_stamped h.advanceCommitMax hh)
  exact (commitJournal_stamped h).weaken fun _ h => repair_stamped h

omit [Env] in
theorem onFuturePrepare_stamped : Meets Undiverged (Stamped ids) (r.onFuturePrepare header) := by
  have hjump {r : Replica} (h : r.Stamped ids) : Meets Undiverged (Stamped ids)
      (r.jumpToNewerOpInNormalStatus header.op) := by
    unfold jumpToNewerOpInNormalStatus
    simp only [Meets.bind_eq, Meets.pure_eq, meets_assert_eq, meets_assertOn_eq, undiverged.general,
      undiverged_window, implies_true, and_true]
    intro _ _ hlt _ _ hle _
    have hle' : r.op ≤ header.op - 1 := by omega
    exact { h with
      committed := fun _ => hle
      pending := fun prepare hm => (h.pending prepare hm).trans hle' }
  unfold onFuturePrepare
  simp only [Meets.bind_eq, undiverged_assert]
  intro _
  split
  case isTrue  => exact hjump h
  case isFalse => exact hjump h.advanceCommitMax

theorem onPrepareMessage_stamped (hh : header.Stamped ids) :
    Meets Undiverged (Stamped ids) (r.onPrepareMessage header body) := by
  unfold onPrepareMessage
  simp only [Meets.bind_eq, Meets.ite_iff, Meets.pure_eq]
  refine ⟨fun _ => h, fun _ => ⟨fun _ => onStalePrepare_stamped h hh, fun _ => ⟨fun _ => h, ?_⟩⟩⟩
  refine fun _ => (onPrepare_stamped h hh).weaken fun ⟨result, r⟩ h => ?_
  cases result with
  | accepted => exact onAcceptedPrepare_stamped h hh
  | stale    => exact onStalePrepare_stamped h hh
  | futureOp => exact onFuturePrepare_stamped h

theorem onPrepareOkMessage_stamped {prepareOk : PrepareOk}
    (hm : prepareOk.checkpointId = stamp ids prepareOk.op) :
    Meets Undiverged (Stamped ids) (r.onPrepareOkMessage prepareOk) := by
  unfold onPrepareOkMessage
  simp only [Meets.bind_eq, Meets.ite_iff, Meets.pure_eq, undiverged_assert]
  refine fun _ => ⟨fun _ => h, fun _ => ?_⟩
  refine (onPrepareOk_stamped h fun prepare hp hop => ?_).weaken fun _ h => ?_
  · exact (h.pipeline prepare hp).trans (hop ▸ hm.symm)
  split
  case h_3 => exact h
  all_goals exact Meets.ite_iff.mpr ⟨fun _ => commitDispatchEnter_stamped h, fun _ => h⟩

theorem onCommit_stamped {commit : Commit} :
    Meets Undiverged (Stamped ids) (r.onCommit commit now) := by
  unfold onCommit
  simp only [Meets.bind_eq, Meets.ite_iff, Meets.pure_eq, undiverged_assert]
  refine ⟨fun _ => h, fun _ _ => (onCommitHeartbeat_stamped h).weaken fun _ h => ?_⟩
  split
  case h_2 => exact commitJournal_stamped h
  case h_1 =>
    simp only [Meets.bind_eq, Meets.ite_iff, undiverged_assert]
    refine ⟨fun _ => undiverged.meets validHashChainBetween_unwatched fun _ _ _ => ?_, fun _ => ?_⟩
    all_goals exact commitJournal_stamped h

theorem onMessage_stamped (hm : message.Stamped ids) :
    Meets Undiverged (Stamped ids) (r.onMessage message now) := by
  unfold onMessage
  cases message
  all_goals refine Meets.ite_iff.mpr ⟨fun _ => ?_, fun _ => h⟩
  case request    => exact onRequest_stamped h
  case prepare    => exact onPrepareMessage_stamped h hm
  case prepareOk  => exact onPrepareOkMessage_stamped h hm
  case commit     => exact onCommit_stamped h
  case exitView   => exact onExitView_stamped h
  case joinView   => exact onJoinView_stamped h hm
  case view       => exact onView_stamped h hm
  case getPrepare => exact onGetPrepare_stamped h
  case getHeaders => exact onGetHeaders_stamped h
  case headers    => exact onHeaders_stamped h hm
  case getView    => exact onGetView_stamped h

-- The handlers of the timeouts.

omit [Env] in
theorem onPrepareTimeout_stamped : Meets Undiverged (Stamped ids) r.onPrepareTimeout := by
  unfold onPrepareTimeout
  simp only [Meets.bind_eq, undiverged_timeout]
  intro _ _
  split
  case h_1 => exact h
  case h_2 =>
    split
    case h_2 => exact undiverged_abort
    case h_1 =>
      simp only [Meets.bind_eq, undiverged_assert]
      intro _
      split
      case h_2 => exact undiverged_abort
      case h_1 hh => exact Stamped.copies h (h.journal.headerWithOp hh)

theorem onCommitMessageTimeout_stamped :
    Meets Undiverged (Stamped ids) (r.onCommitMessageTimeout now) := by
  unfold onCommitMessageTimeout
  simp only [Meets.bind_eq, undiverged_assert, undiverged_timeout]
  exact fun _ _ _ => sendCommit_stamped h

omit [Env] in
theorem onExitViewWindowTimeout_stamped :
    Meets Undiverged (Stamped ids) r.onExitViewWindowTimeout := by
  unfold onExitViewWindowTimeout
  simp only [Meets.bind_eq, Meets.pure_eq, undiverged_assert, undiverged_timeout]
  exact fun _ _ _ => h

omit [Env] in
theorem onExitViewMessageTimeout_stamped :
    Meets Undiverged (Stamped ids) r.onExitViewMessageTimeout := by
  unfold onExitViewMessageTimeout
  simp only [Meets.bind_eq, Meets.ite_iff, Meets.pure_eq, undiverged_assert, undiverged_timeout]
  exact fun _ _ => ⟨fun _ => sendExitView_stamped h, fun _ => h⟩

omit [Env] in
theorem onViewChangeStatusTimeout_stamped :
    Meets Undiverged (Stamped ids) r.onViewChangeStatusTimeout := by
  unfold onViewChangeStatusTimeout
  simp only [Meets.bind_eq, undiverged_timeout]
  exact fun _ => sendExitView_stamped h

omit [Env] in
theorem onJoinViewMessageTimeout_stamped :
    Meets Undiverged (Stamped ids) r.onJoinViewMessageTimeout := by
  unfold onJoinViewMessageTimeout
  simp only [Meets.bind_eq, Meets.ite_iff, Meets.pure_eq, undiverged_assert, undiverged_timeout]
  exact fun _ _ => ⟨fun _ _ => h, fun _ _ => sendJoinView_stamped h⟩

omit [Env] in
theorem onGetViewMessageTimeout_stamped :
    Meets Undiverged (Stamped ids) r.onGetViewMessageTimeout := by
  unfold onGetViewMessageTimeout
  simp only [Meets.bind_eq, undiverged_timeout]
  exact fun _ _ => sendGetView_stamped h

omit [Env] in
theorem onPrimaryAbdicateTimeout_stamped :
    Meets Undiverged (Stamped ids) r.onPrimaryAbdicateTimeout := by
  unfold onPrimaryAbdicateTimeout
  simp only [Meets.bind_eq, Meets.pure_eq, undiverged_timeout]
  intro _ _
  split
  all_goals exact h

theorem onJournalRepairTimeout_stamped :
    Meets Undiverged (Stamped ids) r.onJournalRepairTimeout := by
  unfold onJournalRepairTimeout
  simp only [Meets.bind_eq, undiverged_timeout]
  exact fun _ => repair_stamped h

theorem onPulseTimeout_stamped : Meets Undiverged (Stamped ids) (r.onPulseTimeout now) := by
  unfold onPulseTimeout
  simp only [Meets.bind_eq, Meets.ite_iff, Meets.pure_eq, undiverged_timeout]
  intro _ _
  refine ⟨fun _ => h, fun _ => undiverged.meets pulseEnabled_unwatched fun _ _ => ?_⟩
  refine ⟨fun _ => h, fun _ => ?_⟩
  refine ⟨fun _ => ⟨fun _ => h, fun _ => ?_⟩, fun _ => h⟩
  refine sendRequestPulseToSelf_meets undiverged <|
    Meets.weaken (Q := fun out => out.2.Stamped ids) (fun _ h _ => h) <|
      primaryPipelinePrepare_stamped ?_
  exact h

theorem onCommitStallTimeout_stamped : Meets Undiverged (Stamped ids) r.onCommitStallTimeout := by
  unfold onCommitStallTimeout
  simp only [Meets.bind_eq, undiverged_assert]
  exact fun _ => commitDispatchResume_stamped h

omit [Env] in
theorem tickTimeout_stamped {get : Timeouts → Timeout} {set : Timeouts → Timeout → Timeouts}
    {onTimeout : Replica → Result Replica}
    (hon : ∀ {r : Replica}, r.Stamped ids → Meets Undiverged (Stamped ids) (onTimeout r)) :
    Meets Undiverged (Stamped ids) (r.tickTimeout get set onTimeout) := by
  unfold tickTimeout
  exact Meets.ite_iff.mpr ⟨fun _ => hon h, fun _ => h⟩

theorem tick_stamped : Meets Undiverged (Stamped ids) (r.tick now) := by
  unfold tick
  refine Meets.ite_iff.mpr ⟨fun _ => ?normal, fun _ => ?other⟩
  case' normal => refine (tickNormalHeartbeatFault_stamped h).bind fun r h => ?_
  case' other => refine Meets.bind (R := Stamped ids) h fun r h => ?_
  all_goals
    refine Meets.bind (tickTimeout_stamped h id) fun r h => ?_
    refine Meets.bind (tickTimeout_stamped h onPrepareTimeout_stamped) fun r h => ?_
    refine Meets.bind (tickTimeout_stamped h onCommitMessageTimeout_stamped) fun r h => ?_
    refine Meets.bind (tickTimeout_stamped h onExitViewMessageTimeout_stamped) fun r h => ?_
    refine Meets.bind (tickTimeout_stamped h onExitViewWindowTimeout_stamped) fun r h => ?_
    refine Meets.bind (tickTimeout_stamped h onJoinViewMessageTimeout_stamped) fun r h => ?_
    refine Meets.bind (tickTimeout_stamped h onGetViewMessageTimeout_stamped) fun r h => ?_
    refine Meets.bind (tickTimeout_stamped h onViewChangeStatusTimeout_stamped) fun r h => ?_
    refine Meets.bind (tickTimeout_stamped h onPrimaryAbdicateTimeout_stamped) fun r h => ?_
    refine Meets.bind (tickTimeout_stamped h onJournalRepairTimeout_stamped) fun r h => ?_
    refine Meets.bind (tickTimeout_stamped h id) fun r h => ?_
    refine Meets.bind (tickTimeout_stamped h onPulseTimeout_stamped) fun r h => ?_
    exact tickTimeout_stamped h onCommitStallTimeout_stamped

theorem pollClientReplies_stamped :
    Meets Undiverged (Stamped ids) (r.pollClientReplies completions) := by
  unfold pollClientReplies
  simp only [Meets.bind_eq, Meets.ite_iff, Meets.pure_eq, undiverged_assert]
  refine ⟨fun _ => h, fun _ => ⟨fun _ _ _ => ?_, fun _ => h⟩⟩
  exact commitDispatchResume_stamped h

end

end Replica

namespace Checkpointing

open Replica

-- The event of one of the replicas of a cluster.
abbrev Event (n : Nat) := Fin n × Ticking.Event

variable {n : Nat}

def step [Env] (c : Fin n → Replica) (e : Event n) : Result (Fin n → Replica) := do
  return Function.update c e.1 (← Ticking.step (c e.1) e.2)

-- The superblock of a replica that has been formatted.
structure Formatted (superblock : SuperBlock) : Prop where
  queue : superblock.queue = []
  checkpoint : superblock.working.checkpoint = .initial
  parent : superblock.working.parentCheckpointId = 0
  grandparent : superblock.working.grandparentCheckpointId = 0

-- The replicas of a fresh cluster, with the ids of its checkpoints.
def machine (n : Nat) (ids : Nat → Nat) [Env] : Machine (Fin n → Replica) (Event n) Fault where
  init c := ∃ cluster, ids 0 = 0 ∧ ids 1 = 0 ∧ ∀ i : Fin n, ∃ superblock clientReplies,
    c i = { started cluster i n i.isLt with superblock, clientReplies } ∧
      (superblock = none → ids 2 = 0) ∧
      ∀ superblock' ∈ superblock, Formatted superblock' ∧ superblock'.Identical ids
  step := step

-- What replicas receive was sent by others, or by clients.
def Delivered (c : Fin n → Replica) : Ticking.Event → Prop
  | .message (.request ..) _ => True
  | .message message _       => ∃ i, message ∈ (c i).sendQueue
  | _                        => True

-- The replicas only receive what was sent, and have identical checkpoints.
def Correct (ids : Nat → Nat) (c : Fin n → Replica) (e : Event n) : Prop :=
  Delivered c e.2 ∧ ∀ superblock ∈ (c e.1).superblock, superblock.Identical ids

-- No replica remembers another checkpoint for an op than the one that its prepare, its pipeline
-- entry or its acknowledgement is stamped with.
structure Agree (c : Fin n → Replica) : Prop where
  prepared : ∀ i j header body, .prepare header body ∈ (c i).sendQueue →
    ∀ id ∈ (c j).checkpointIdForOp header.op, header.checkpointId = id
  pipelined : ∀ i j, ∀ prepare ∈ (c i).pipelineQueue.prepareQueue,
    ∀ id ∈ (c j).checkpointIdForOp prepare.op, prepare.checkpointId = id
  acknowledged : ∀ i j prepareOk, .prepareOk prepareOk ∈ (c i).sendQueue →
    ∀ id ∈ (c j).checkpointIdForOp prepareOk.op, prepareOk.checkpointId = id

section

variable [Env] {ids : Nat → Nat} {c : Fin n → Replica}

theorem started_stamped {cluster : Nat} {i : Fin n} {superblock : Option SuperBlock}
    {clientReplies : ClientReplies} (h₀ : ids 0 = 0) (h₁ : ids 1 = 0)
    (hn : superblock = none → ids 2 = 0)
    (hs : ∀ superblock' ∈ superblock, Formatted superblock' ∧ superblock'.Identical ids) :
    Stamped ids { started cluster i n i.isLt with superblock, clientReplies } where
  preceding := ⟨h₀, h₁⟩
  unmounted := hn
  superblock superblock' hm := by
    obtain ⟨hf, hi⟩ := hs superblock' hm
    have hstates : superblock'.states = [superblock'.working] := by
      simp [SuperBlock.states, hf.queue]
    have hawaits : superblock'.working.Awaits ids 0 :=
      ⟨hf.checkpoint, hf.parent.trans h₁.symm, hf.grandparent.trans h₀.symm⟩
    have hmem {state : VsrState} (hm : state ∈ superblock'.states) :
        state = superblock'.working := by
      simpa [hstates] using hm
    constructor
    case working =>
      exact ⟨0, { hawaits with checkpointId := hi _ (by simp [hstates]) 0 hf.checkpoint }⟩
    case awaits => exact fun state hm => ⟨0, hmem hm ▸ hawaits⟩
    case known => exact fun state hm _ => hmem hm ▸ rfl
    case sorted => simp [hstates]
    case bounded =>
      intro state hm
      rw [hmem hm, hf.checkpoint]
      exact le_rfl
  journal slot ho := absurd rfl ho
  pipeline := fun _ h => by cases h
  pending := fun _ h => by cases h
  joinViewHeaders := List.forall_mem_singleton.mpr (root_stamped cluster h₁)
  viewHeaders := fun _ h => by cases h
  joinViews slot hm := by
    rw [List.eq_of_mem_replicate hm]
    exact fun _ h => by cases h
  sendQueue := fun _ h => by cases h
  committed _ := le_rfl
  cleared := fun h => by cases h

theorem step_stamped {e : Event n} (h : ∀ i, (c i).Stamped ids) (hc : Correct ids c e) :
    Meets Undiverged (fun c' => ∀ i, (c' i).Stamped ids) (step c e) := by
  obtain ⟨i, e⟩ := e
  have hstep : Meets Undiverged (Stamped ids) (Ticking.step (c i) e) := by
    cases e with
    | message message now =>
      refine onMessage_stamped (h i) ?_
      have hm := hc.1
      cases message
      case request => trivial
      all_goals
        have ⟨j, hm⟩ := hm
        exact (h j).sendQueue _ hm
    | tick now                      => exact tick_stamped (h i)
    | driveSuperblock completions   => exact driveSuperblock_stamped (h i) hc.2
    | pollClientReplies completions => exact pollClientReplies_stamped (h i)
  unfold step
  simp only [Meets.bind_eq, Meets.pure_eq]
  refine hstep.weaken fun r hr j => ?_
  rw [Function.update_apply]
  split
  case isTrue  => exact hr
  case isFalse => exact h j

theorem stamped_of_correct (h : (machine n ids).Reachable (Correct ids) c) (i : Fin n) :
    (c i).Stamped ids := by
  refine h.invariant (p := fun c => ∀ i, (c i).Stamped ids) ?init ?step i
  case init =>
    rintro c ⟨cluster, h₀, h₁, hc⟩ i
    obtain ⟨superblock, clientReplies, he, hn, hs⟩ := hc i
    rw [he]
    exact started_stamped h₀ h₁ hn hs
  case step => exact fun _ _ _ h hc hs => (step_stamped h hc).post hs

-- Replicas with identical checkpoints agree on the checkpoint of every prepare, so that none of the
-- assertions about it fails.
theorem agree_of_correct (h : (machine n ids).Reachable (Correct ids) c) :
    Agree c ∧ ∀ e, Correct ids c e → Meets (Besides .checkpoint) (fun _ => True) (step c e) := by
  have hs := stamped_of_correct h
  have hid {op id : Nat} {j : Fin n} (hid : (c j).checkpointIdForOp op = some id) :
      stamp ids op = id := ((hs j).held.checkpointIdForOp hid).symm
  refine ⟨⟨?prepared, ?pipelined, ?acknowledged⟩, fun e he => ?_⟩
  case prepared     => exact fun i j _ _ hm _ h => ((hs i).sendQueue _ hm).trans (hid h)
  case pipelined    => exact fun i j prepare hm _ h => ((hs i).pipeline prepare hm).trans (hid h)
  case acknowledged => exact fun i j _ hm _ h => ((hs i).sendQueue _ hm).trans (hid h)
  · exact (step_stamped hs he).weaken fun _ _ => trivial

end

section

attribute [local instance] Env.plain

def formatted : SuperBlock where
  working := {
    checkpoint := .initial, checkpointChecksum := 0, checkpointId := 9, parentCheckpointId := 0
    grandparentCheckpointId := 0, release := releaseMinimum, commitMax := 0, view := 0, logView := 0 }
  queue := []

def pairIds (k : Nat) : Nat :=
  if k < 2 then 0 else 9

theorem formatted_identical : formatted.Identical pairIds := by
  intro state hm k _
  cases List.mem_singleton.mp hm
  rfl

-- Two replicas that have been formatted.
def pair : Fin 2 → Replica :=
  fun i => { started 0 i 2 i.isLt with superblock := some formatted }

theorem pair_started : (machine 2 pairIds).init pair :=
  ⟨0, rfl, rfl, fun _ => ⟨some formatted, _, rfl, nofun, fun _ hm => by
    cases hm
    exact ⟨⟨rfl, rfl, rfl, rfl⟩, formatted_identical⟩⟩⟩

-- What `Correct` amounts to for replicas that have been formatted.
def Fresh (c : Fin 2 → Replica) (e : Event 2) : Prop :=
  Delivered c e.2 ∧ (c e.1).superblock = some formatted

instance {c : Fin 2 → Replica} {e : Ticking.Event} : Decidable (Delivered c e) :=
  match e with
  | .message message _ =>
    match message with
    | .request .. => .isTrue trivial
    | .prepare .. | .prepareOk _ | .commit _ | .exitView _ | .joinView .. | .view ..
    | .getPrepare _ | .getHeaders _ | .headers .. | .getView _ =>
      inferInstanceAs (Decidable (∃ _ : Fin 2, _ ∈ _))
  | .tick _ | .driveSuperblock _ | .pollClientReplies _ => .isTrue trivial

instance {c : Fin 2 → Replica} {e : Event 2} : Decidable (Fresh c e) :=
  inferInstanceAs (Decidable (_ ∧ _))

def registration : Message :=
  .request
    { checksum := 1
      cluster := 0
      size := headerSize + registerRequestSize
      view := 0
      release := releaseMinimum
      replica := 0
      parent := 0
      client := 7
      session := 0
      request := 0
      operation := .register }
    (List.replicate registerRequestSize 0)

def registered : Prepare :=
  (pair 0).prepareHeader 7 0 .register (List.replicate registerRequestSize 0) 1 0 1

-- The primary prepares the registration of a client, and its backup acknowledges it.
theorem agree_of_correct_pair : ∃ c, (machine 2 pairIds).Reachable (Correct pairIds) c ∧
    (∃ prepareOk ∈ (c 1).sendQueue, ∃ header, prepareOk = .prepareOk header) ∧ Agree c ∧
    ∀ e, Correct pairIds c e → Meets (Besides .checkpoint) (fun _ => True) (step c e) := by
  have hl : (machine 2 pairIds).Leads Fresh
      (fun c => .prepareOk ((c 1).prepareOk registered 0) ∈ (c 1).sendQueue)
      [(0, .message registration 0),
        (1, .message (.prepare registered (List.replicate registerRequestSize 0)) 0)] pair := by
    decide +kernel
  have ⟨c, hr, hm⟩ := Machine.Reachable.leads (.init pair_started) hl
  have hc : (machine 2 pairIds).Reachable (Correct pairIds) c :=
    hr.mono fun c e ⟨hd, hn⟩ => ⟨hd, by simp [hn, formatted_identical]⟩
  exact ⟨c, hc, ⟨_, hm, _, rfl⟩, agree_of_correct hc⟩

end

end Checkpointing

end TigerBeetle
