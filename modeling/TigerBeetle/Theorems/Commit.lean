import TigerBeetle.Theorems.Pipeline

namespace TigerBeetle

open Fallible Fault

-- The table of the clients fails no assertion that is singled out.

namespace ClientSessions

variable {sessions : ClientSessions}

theorem oldest_unwatched {evictee : Option Reply} {entries : List Entry} :
    Unwatched (oldest evictee entries) := by
  induction entries generalizing evictee with
  | nil => trivial
  | cons entry entries ih =>
    unfold Unwatched oldest
    simp only [Meets.bind_eq, unwatched_assert]
    intro _ _
    cases evictee with
    | none => exact ih
    | some reply =>
      simp only [Meets.bind_eq, unwatched_assert]
      exact fun _ _ => ih

theorem evictee_unwatched : Unwatched sessions.evictee := by
  unfold Unwatched evictee
  simp only [Meets.bind_eq, unwatched_assert]
  refine fun _ => oldest_unwatched.weaken fun reply _ => ?_
  cases reply with
  | none   => exact rfl
  | some _ => trivial

theorem remove_unwatched {client : Nat} : Unwatched (sessions.remove client) := by
  unfold Unwatched remove
  cases sessions.slotOf client with
  | none   => exact rfl
  | some _ => trivial

theorem put_unwatched {session : Nat} {header : Reply} : Unwatched (sessions.put session header) := by
  unfold Unwatched put
  simp only [Meets.bind_eq, unwatched_assert]
  intro _
  split
  case h_1 =>
    simp only [Meets.bind_eq, unwatched_assert, implies_true, Meets.pure_eq]
  case h_2 =>
    cases sessions.entries.findIdx? (·.isNone) with
    | none   => exact rfl
    | some _ => trivial

end ClientSessions

theorem ClientReplies.writeReply_unwatched {replies : ClientReplies} :
    Unwatched replies.writeReply := by
  unfold Unwatched writeReply
  simp only [Meets.bind_eq, unwatched_assert, implies_true, Meets.pure_eq]

namespace Replica

-- What the execution of a prepare leaves as it is.

variable [Env] {E : Fault → Prop} {r : Replica} {prepare : Prepare} {body result : Body}
  {reply : Reply}

omit [Env] in
theorem executeOpRegister_unwatched : Unwatched (executeOpRegister body) := by
  unfold Unwatched executeOpRegister
  simp only [Meets.bind_eq, Meets.ite_iff, meets_assert_eq, Meets.pure_eq,
    Lenient.unspecific.general, implies_true, and_true]

omit [Env] in
theorem executeOpReconfiguration_unwatched : Unwatched (executeOpReconfiguration body) := by
  unfold Unwatched executeOpReconfiguration
  simp only [Meets.bind_eq, Meets.ite_iff, meets_assert_eq, Meets.pure_eq,
    Lenient.unspecific.general, implies_true, and_true]

section

variable {Q : Replica → Prop}

omit [Env] in
theorem executeOpUpgrade_meets (he : Lenient E) (h : ∀ upgradeRelease, Q { r with upgradeRelease }) :
    Meets E Q (r.executeOpUpgrade body) := by
  unfold executeOpUpgrade
  simp only [Meets.bind_eq, Meets.ite_iff, meets_assert_eq, Meets.pure_eq,
    he.general, implies_true, and_true]
  refine ⟨fun _ _ => h r.upgradeRelease, fun _ _ _ _ => ⟨fun _ _ => h r.upgradeRelease, ?_⟩⟩
  exact fun _ _ => h _

omit [Env] in
theorem recordExecution_meets (he : Lenient E)
    (h : r.stateMachine.commitTimestamp ≤ prepare.timestamp → Q { r with
      stateMachine :=
        { commitTimestamp := prepare.timestamp
          executed := r.stateMachine.executed ++ [(prepare, body)] } }) :
    Meets E Q (r.recordExecution prepare body) := by
  unfold recordExecution
  simp only [Meets.bind_eq, meets_assert_eq, Meets.pure_eq, he.general, implies_true, and_true]
  exact h

end

theorem executePrepare_meets {Q : Body × Replica → Prop} (he : Lenient E)
    (h : ∀ result upgradeRelease, Q (result, { r with upgradeRelease })) :
    Meets E Q (r.executePrepare prepare body) := by
  unfold executePrepare
  split
  case isTrue =>
    cases Env.execute r.stateMachine.executed prepare.operation prepare.timestamp body with
    | none        => exact he.general _
    | some result => exact h result r.upgradeRelease
  case isFalse =>
    simp only [Meets.bind_eq, Meets.ite_iff, meets_assert_eq, Meets.pure_eq,
      he.general, implies_true, and_true]
    intro _ _
    refine ⟨fun _ => ?_, fun _ => ⟨fun _ => ?_, fun _ => ⟨fun _ => ?_, fun _ => ?_⟩⟩⟩
    · exact he.meets executeOpRegister_unwatched fun _ _ => h _ r.upgradeRelease
    · exact he.meets executeOpReconfiguration_unwatched fun _ _ => h _ r.upgradeRelease
    · exact executeOpUpgrade_meets he fun _ => h _ _
    · exact h _ r.upgradeRelease

-- The replica after the execution of a prepare, before it refills its pipeline.
structure Executes (r : Replica) (prepare : Prepare) (body : Body) (r' : Replica) : Prop where
  commitPrepare : r.commitPrepare = some prepare.op
  op_eq : prepare.op = r.commitMin + 1
  op_le : prepare.op ≤ r.op
  header : r.journal.headerWithOp prepare.op = some prepare
  body_eq : body = (r.journal.bodyWithOp prepare.op).getD []
  timestamp : r.stateMachine.commitTimestamp ≤ prepare.timestamp
  frame : ∃ clientSessions clientReplies clientSendQueue upgradeRelease journal,
    journal.headers = r.journal.headers ∧ journal.prepareBodies = r.journal.prepareBodies ∧
    r' = { r with
      stateMachine :=
        { commitTimestamp := prepare.timestamp
          executed := r.stateMachine.executed ++ [(prepare, body)] }
      commitMin := prepare.op
      commitMax := max r.commitMax prepare.op
      clientSessions, clientReplies, clientSendQueue, upgradeRelease, journal }

-- The reply to the request of a prepare.
structure Answers (reply : Reply) (prepare : Prepare) : Prop where
  client : reply.client = prepare.client
  request : reply.request = prepare.request
  operation : reply.operation = prepare.operation
  release : reply.release = prepare.release
  op : reply.op = prepare.op
  commit : reply.commit = prepare.op

theorem buildReply_meets {Q : Reply → Prop} (he : Lenient E)
    (h : ∀ reply, Answers reply prepare → Q reply) : Meets E Q (buildReply prepare result) := by
  unfold buildReply
  simp only [Meets.bind_eq, meets_assert_eq, Meets.pure_eq, he.general, implies_true, and_true]
  exact fun _ _ => h _ ⟨rfl, rfl, rfl, rfl, rfl, rfl⟩

section

omit [Env]

theorem clientSessionsWithRoom_unwatched : Unwatched r.clientSessionsWithRoom := by
  unfold Unwatched clientSessionsWithRoom
  simp only [Meets.ite_iff, Meets.bind_eq, Meets.pure_eq, unwatched_assert, implies_true, and_true]
  exact fun _ => ClientSessions.evictee_unwatched.weaken fun _ _ => ClientSessions.remove_unwatched

variable {Q : Replica → Prop} (he : Lenient E)

include he

theorem clientTableEntryCreate_meets
    (h : ∀ clientSessions clientReplies, Q { r with clientSessions, clientReplies }) :
    Meets E Q (r.clientTableEntryCreate reply body) := by
  unfold clientTableEntryCreate
  simp only [Meets.bind_eq, he.assert_eq]
  intro _ _ _ _ _ _ _ _
  refine he.meets clientSessionsWithRoom_unwatched fun _ _ => ?_
  refine he.meets ClientSessions.put_unwatched fun _ _ _ => ?_
  split
  all_goals simp only [Meets.bind_eq, Meets.pure_eq]
  case isTrue  => exact he.meets ClientReplies.writeReply_unwatched fun _ _ => h _ _
  case isFalse => exact h _ _

theorem clientTableEntryUpdate_meets (hs : ∀ message, E (.panic .session message))
    (h : ∀ clientSessions clientReplies, Q { r with clientSessions, clientReplies }) :
    Meets E Q (r.clientTableEntryUpdate reply) := by
  unfold clientTableEntryUpdate
  simp only [Meets.bind_eq, he.assert_eq]
  intro _ _ _ _ _
  split
  case h_2 => exact h r.clientSessions r.clientReplies
  case h_1 =>
    simp only [Meets.bind_eq, meets_assertOn_eq, hs, implies_true, and_true]
    intro _ _ _ _ _ _
    split
    all_goals simp only [Meets.bind_eq, Meets.pure_eq]
    case isTrue  => exact he.meets ClientReplies.writeReply_unwatched fun _ _ => h _ _
    case isFalse => exact h _ _

theorem updateClientTable_meets (hs : ∀ message, E (.panic .session message))
    (h : ∀ clientSessions clientReplies, Q { r with clientSessions, clientReplies }) :
    Meets E Q (r.updateClientTable reply result) := by
  unfold updateClientTable
  split
  case isTrue => exact clientTableEntryCreate_meets he h
  case isFalse =>
    simp only [Meets.ite_iff, Meets.bind_eq, he.assert_eq, Meets.pure_eq]
    exact ⟨fun _ _ => h r.clientSessions r.clientReplies, fun _ =>
      clientTableEntryUpdate_meets he hs h⟩

end

theorem executeOpReplyToClient_unwatched {op : Nat} : Unwatched (r.executeOpReplyToClient op) := by
  unfold Unwatched executeOpReplyToClient
  simp only [Meets.ite_iff, Meets.bind_eq, unwatched_assert, implies_true, and_true, Meets.pure_eq]

section

omit [Env]

theorem pulseEnabled_unwatched : Unwatched r.pulseEnabled := by
  unfold Unwatched pulseEnabled
  simp only [Meets.bind_eq, unwatched_assert, implies_true, Meets.pure_eq]

theorem releaseOfBar_unwatched {foundUpgrade count op : Nat} :
    Unwatched (r.releaseOfBar foundUpgrade count op) := by
  induction count generalizing foundUpgrade op with
  | zero =>
    unfold Unwatched releaseOfBar
    simp only [Meets.bind_eq, unwatched_assert, implies_true, Meets.pure_eq]
  | succ count ih =>
    unfold Unwatched releaseOfBar
    cases r.journal.headerForOp op with
    | none => exact rfl
    | some header =>
      simp only [Meets.ite_iff, Meets.bind_eq, unwatched_assert, implies_true, and_true, Meets.pure_eq]
      exact fun _ => ih

theorem opCheckpointNextTrigger_unwatched : Unwatched r.opCheckpointNextTrigger := by
  unfold Unwatched opCheckpointNextTrigger
  simp only [Meets.bind_eq]
  refine opCheckpointNext_unwatched.weaken fun _ _ => ?_
  rw [Checkpoint.triggerForCheckpoint_checkpointAfter]
  trivial

theorem releaseForNextCheckpoint_unwatched : Unwatched r.releaseForNextCheckpoint := by
  unfold Unwatched releaseForNextCheckpoint
  simp only [Meets.bind_eq, Meets.ite_iff, unwatched_assert, implies_true, Meets.pure_eq]
  intro _
  refine opCheckpointNextTrigger_unwatched.weaken fun _ _ => ⟨trivial, fun _ => ?_⟩
  refine opCheckpointNext_unwatched.weaken fun _ _ => ?_
  exact opCheckpointNextTrigger_unwatched.weaken fun _ _ => releaseOfBar_unwatched

end

section

variable {Q : Replica → Prop} (he : Lenient E)

include he

theorem sendReplyMessageToClient_meets (h : ∀ clientSendQueue, Q { r with clientSendQueue }) :
    Meets E Q (r.sendReplyMessageToClient reply body) := by
  unfold sendReplyMessageToClient
  simp only [Meets.bind_eq, he.assert_eq, Meets.pure_eq]
  exact fun _ _ => h _

theorem replyToClient_meets (h : ∀ clientSendQueue, Q { r with clientSendQueue }) :
    Meets E Q (r.replyToClient reply body) := by
  unfold replyToClient
  simp only [Meets.ite_iff, Meets.bind_eq, Meets.pure_eq]
  refine ⟨fun _ => ?_, fun _ => h r.clientSendQueue⟩
  refine he.meets executeOpReplyToClient_unwatched fun _ _ => ?_
  exact ⟨fun _ => sendReplyMessageToClient_meets he h, fun _ => h r.clientSendQueue⟩

theorem commitExecute_meets {T : Prepare → ClientSessions → Prop}
    (table : ∀ (r' : Replica) prepare reply result, r'.clientSessions = r.clientSessions →
      r.journal.headerWithOp (r.commitMin + 1) = some prepare → Answers reply prepare →
      Meets E (fun r'' => ∃ clientSessions clientReplies,
        r'' = { r' with clientSessions, clientReplies } ∧ T prepare clientSessions)
        (r'.updateClientTable reply result))
    (h : ∀ prepare body r', r.Executes prepare body r' → T prepare r'.clientSessions →
      Meets E Q (r'.refillPipeline prepare.op)) :
    Meets E Q r.commitExecute := by
  unfold commitExecute
  cases hop : r.commitPrepare with
  | none => exact he.general _
  | some op =>
    simp only [Meets.bind_eq, he.assert_eq]
    intro hmin
    cases hh : r.journal.headerWithOp op with
    | none => exact he.general _
    | some prepare =>
      have hpop := Journal.op_of_headerWithOp hh
      subst hpop
      simp only [Meets.bind_eq, he.assert_eq]
      refine executePrepare_meets he fun _ _ => ?_
      refine recordExecution_meets he fun htimestamp => ?_
      refine buildReply_meets he fun reply hreply => ?_
      refine Meets.weaken ?step (table _ prepare reply _ ?same (hmin ▸ hh) hreply)
      case same => rfl
      case step =>
        rintro _ ⟨_, _, rfl, ht⟩
        refine replyToClient_meets he fun _ => ?_
        refine commitOp_meets he fun journal hle _ hheaders hbodies _ => ?_
        refine h prepare _ _ ⟨hop, hmin.symm, hle, hh, rfl, htimestamp, ?_⟩ ht
        exact ⟨_, _, _, _, journal, hheaders, hbodies, rfl⟩

-- How a primary fills its pipeline by itself.

theorem prepareNextRequest_meets (empty : r.pipelineQueue.requestQueue = [] → Q r)
    (pop : ∀ request, r.pipelineQueue.requestQueue.getLast? = some request →
      Meets E (fun out => out.1.toBool → Q out.2)
        ({ r with
          pipelineQueue.requestQueue :=
            r.pipelineQueue.requestQueue.dropLast }.primaryPipelinePrepare request.client
          request.request request.operation request.body request.requestChecksum)) :
    Meets E Q r.prepareNextRequest := by
  unfold prepareNextRequest
  cases hr : r.pipelineQueue.requestQueue.getLast? with
  | none => exact empty (List.getLast?_eq_none_iff.mp hr)
  | some request =>
    simp only [Meets.bind_eq, he.assert_eq, Meets.pure_eq]
    exact pop request hr

theorem sendRequestPulseToSelf_meets
    (h : Meets E (fun out => out.1.toBool → Q out.2) (r.primaryPipelinePrepare 0 0 .pulse [] 0)) :
    Meets E Q r.sendRequestPulseToSelf := by
  unfold sendRequestPulseToSelf
  simp only [Meets.bind_eq, he.assert_eq, Meets.pure_eq]
  intro _ _ _ _ _
  refine he.meets pulseEnabled_unwatched fun _ _ _ _ => ?_
  exact h.weaken fun _ hq ht _ => hq ht

theorem injectPulse_meets (skip : Q r)
    (pulse : Meets E (fun out => out.1.toBool → Q out.2)
      (r.primaryPipelinePrepare 0 0 .pulse [] 0)) :
    Meets E Q r.injectPulse := by
  unfold injectPulse
  simp only [Meets.bind_eq, Meets.ite_iff, he.assert_eq, Meets.pure_eq]
  refine he.meets pulseEnabled_unwatched fun _ _ => ⟨fun _ _ => ?_, fun _ => skip⟩
  exact sendRequestPulseToSelf_meets he pulse

theorem sendRequestUpgradeToSelf_meets
    (h : ∀ body, Meets E (fun out => out.1.toBool → Q out.2)
      (r.primaryPipelinePrepare 0 0 .upgrade body 0)) :
    Meets E Q r.sendRequestUpgradeToSelf := by
  unfold sendRequestUpgradeToSelf
  simp only [Meets.bind_eq, he.assert_eq]
  intro _ _ _
  cases r.upgradeRelease with
  | none => exact he.general _
  | some release =>
    simp only [Meets.bind_eq, he.assert_eq, Meets.pure_eq]
    exact fun _ => (h _).weaken fun _ hq ht _ => hq ht

theorem redriveUpgrade_meets (skip : Q r)
    (upgrade : ∀ body, Meets E (fun out => out.1.toBool → Q out.2)
      (r.primaryPipelinePrepare 0 0 .upgrade body 0)) :
    Meets E Q r.redriveUpgrade := by
  unfold redriveUpgrade
  cases r.upgradeRelease with
  | none => exact skip
  | some release =>
    simp only [Meets.bind_eq, Meets.ite_iff, he.assert_eq, Meets.pure_eq]
    intro _
    refine he.meets pulseEnabled_unwatched fun _ _ _ => ?_
    refine he.meets releaseForNextCheckpoint_unwatched fun _ _ => ⟨fun _ => ?_, fun _ => skip⟩
    exact sendRequestUpgradeToSelf_meets he upgrade

theorem refillPipeline_meets {op : Nat} (backup : ¬(r.status = .normal ∧ r.isPrimary) → Q r)
    (primary : ∀ prepare prepares, r.status = .normal ∧ r.isPrimary → r.commitMin = r.commitMax →
      r.pipelineQueue.prepareQueue = prepare :: prepares → prepare.op = op →
      Meets E (fun r => Meets E (fun r => Meets E Q r.redriveUpgrade) r.injectPulse)
        (prepareNextRequest { r with
          pipelineQueue.prepareQueue := prepares
          okFromAllReplicas := r.okFromAllReplicas.tail })) :
    Meets E Q (r.refillPipeline op) := by
  unfold refillPipeline
  split
  case isFalse hp => exact backup hp
  case isTrue hp =>
    simp only [Meets.bind_eq, he.assert_eq]
    intro hc
    unfold popCommitted
    cases hq : r.pipelineQueue.prepareQueue with
    | nil => simp
    | cons prepare prepares => exact fun hop => primary prepare prepares hp hc hq (by simpa using hop)

end

section

variable {Q : Replica → Prop} (he : Careless E)

include he

theorem onPulseTimeout_meets {now : Nat} (hp : r.isPrimary ∧ r.status = .normal)
    (skip : ∀ prepareTimestamp timeouts, Q { r with prepareTimestamp, timeouts })
    (pulse : ∀ prepareTimestamp timeouts, Meets E (fun out => out.1.toBool → Q out.2)
      ({ r with prepareTimestamp, timeouts }.primaryPipelinePrepare 0 0 .pulse [] 0)) :
    Meets E Q (r.onPulseTimeout now) := by
  unfold onPulseTimeout
  simp only [Meets.bind_eq, Meets.ite_iff, meets_assertOn_eq, Meets.pure_eq]
  refine ⟨fun _ => ⟨fun _ => ?_, fun h => absurd hp.1 h⟩, fun h => absurd hp.2 h⟩
  refine ⟨fun _ => skip r.prepareTimestamp _, fun _ => ?_⟩
  refine he.meets pulseEnabled_unwatched fun _ _ => ⟨fun _ => skip r.prepareTimestamp _, fun _ => ?_⟩
  refine ⟨fun _ => ⟨fun _ => skip _ _, fun _ => ?_⟩, fun _ => skip r.prepareTimestamp _⟩
  exact sendRequestPulseToSelf_meets he.toLenient (pulse _ _)

-- A view starts with what is left of the last one in the pipeline.
theorem primaryStartView_meets {now : Nat} (hq : ∀ message, E (.panic .quorum message))
    (h : ∀ prepareQueue okFromAllReplicas commitMins headOps commitFault superblock timeouts,
      r.isPrimary → r.commitMin = r.commitMax → r.commitMax ≤ r.op →
      r.op - pipelinePrepareQueueMax ≤ r.commitMax →
      prepareQueue.map (·.op) = List.range' (r.commitMax + 1) (r.op - r.commitMax) →
      (∀ prepare ∈ prepareQueue, ∃ header body, r.journal.entry prepare.op = some (header, body) ∧
        prepare.core = (PipelinePrepare.ofPrepare header body).core) →
      Q { r with
        status := .normal
        logView := r.view
        heartbeatTimestamp := 0
        exitViewFromAllReplicas := 0
        joinViewFromAllReplicas := List.replicate replicasMax none
        joinViewQuorum := false
        pipelineQueue := { prepareQueue, requestQueue := [] }
        okFromAllReplicas, commitMins, headOps, commitFault, superblock, timeouts }) :
    Meets E Q (r.primaryStartViewAsTheNewPrimary now) := by
  unfold primaryStartViewAsTheNewPrimary
  simp only [Meets.bind_eq, he.assert_eq]
  intro _ hp hv _
  refine he.meets primaryJournalRepaired_unwatched fun _ _ _ hc hle => ?_
  refine he.meets committedAnchor_unwatched fun _ _ => ?_
  refine loadSurvivors_meets he.toLenient fun prepares hops hall _ => ?_
  refine transitionToNormalFromViewChangeStatus_meets he.toLenient fun _ _ _ hop _ => ?_
  refine acknowledgeSurvivors_frame he hq fun prepareQueue _ _ _ _ hcore => ?_
  refine h prepareQueue _ _ _ _ _ _ hp hc hle hop ?ops ?all
  case ops => exact (PipelinePrepare.map_congr (fun _ => rfl) hcore).trans hops
  case all =>
    intro prepare hm
    have hm' : prepare.core ∈ prepares.map .core := hcore ▸ List.mem_map_of_mem hm
    obtain ⟨prepare', hm', he⟩ := List.mem_map.mp hm'
    obtain ⟨header, hh, he'⟩ := hall prepare' hm'
    have hop : prepare'.op = prepare.op := congrArg (·.op) he
    refine ⟨header, _, Journal.entry_eq_some.mpr ⟨hop ▸ hh, rfl⟩, ?_⟩
    rw [← he, he', hop]

end

end Replica

end TigerBeetle
