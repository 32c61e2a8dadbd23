import TigerBeetle.Theorems.Commit

namespace TigerBeetle

-- What a primary prepares by itself.
def PipelineRequest.Internal (request : PipelineRequest) : Prop :=
  request.client = 0 ∧ request.request = 0 ∧
    (request.operation = .pulse ∨ request.operation = .upgrade)

namespace Replica

open Fallible Fault

-- The prepares that a replica did not execute yet, according to its journal.
def uncommitted (r : Replica) : List (Prepare × Body) :=
  (List.range' (r.commitMin + 1) (r.op - r.commitMin)).filterMap r.journal.entry

def log (r : Replica) : List (Prepare × Body) :=
  r.stateMachine.executed ++ r.uncommitted

-- A primary with a pipeline of what it did not commit yet.
structure Leading (r : Replica) : Prop where
  primary : r.isPrimary ∧ r.status = .normal
  commitMin_le : r.commitMin ≤ r.op
  ops : r.pipelineQueue.prepareQueue.map (·.op) = List.range' (r.commitMin + 1) (r.op - r.commitMin)
  head : ∀ op, r.op < op → r.journal.headerWithOp op = none

-- A primary that did not prepare anything yet.
structure Fresh (r : Replica) : Prop where
  leading : r.Leading
  op_eq : r.op = 0
  executed_eq : r.stateMachine.executed = []
  requestQueue_eq : r.pipelineQueue.requestQueue = []
  clientSessions_eq : r.clientSessions = .new

-- The replica after it prepared a request, whose prepare has the given header and body.
structure Prepares [Env] (r : Replica) (request : PipelineRequest) (header : Prepare) (body : Body)
    (r' : Replica) : Prop where
  ready : r.prepareReject = none
  body_eq : primaryPrepareBody request.operation request.body = .ok body
  header_eq : ∃ checkpointId, r.prepareCheckpointId = .ok checkpointId ∧
    header = r.prepareHeader request.client request.request request.operation body
      request.requestChecksum checkpointId (max r.prepareTimestamp r.commitMax + 1)
  leading : r'.Leading
  uncommitted_eq : r'.uncommitted = r.uncommitted ++ [(header, body)]
  queue_eq : r'.pipelineQueue.prepareQueue.map PipelinePrepare.core =
    r.pipelineQueue.prepareQueue.map .core ++ [(PipelinePrepare.ofPrepare header body).core]
  length_eq : r'.okFromAllReplicas.length = r.okFromAllReplicas.length + 1
  frame : ∃ journal prepareQueue okFromAllReplicas commitMins headOps timeouts sendQueue,
    r' = { r with
      op := header.op
      prepareTimestamp := header.timestamp
      pipelineQueue.prepareQueue := prepareQueue
      journal, okFromAllReplicas, commitMins, headOps, timeouts, sendQueue }

-- The replica after it executed the first prepare of its pipeline.
structure Commits (r : Replica) (prepare : Prepare) (body : Body) (r' : Replica) : Prop where
  op_eq : prepare.op = r.commitMin + 1
  leading : r'.Leading
  uncommitted_eq : r.uncommitted = (prepare, body) :: r'.uncommitted
  queue_eq : ∃ first, r.pipelineQueue.prepareQueue = first :: r'.pipelineQueue.prepareQueue
  frame : ∃ clientSessions clientReplies clientSendQueue upgradeRelease journal prepareQueue
    okFromAllReplicas, r' = { r with
      stateMachine :=
        { commitTimestamp := prepare.timestamp
          executed := r.stateMachine.executed ++ [(prepare, body)] }
      commitMin := prepare.op
      commitMax := max r.commitMax prepare.op
      pipelineQueue.prepareQueue := prepareQueue
      clientSessions, clientReplies, clientSendQueue, upgradeRelease, journal, okFromAllReplicas }

variable {E : Fault → Prop} {r r' : Replica} {prepare header : Prepare} {body : Body}

namespace Leading

theorem length_eq (h : r.Leading) :
    r.pipelineQueue.prepareQueue.length = r.op - r.commitMin := by
  simpa using congrArg List.length h.ops

theorem of_eq (h : r.Leading) (hp : r'.isPrimary ∧ r'.status = .normal) (hop : r'.op = r.op)
    (hc : r'.commitMin = r.commitMin)
    (hq : r'.pipelineQueue.prepareQueue.map PipelinePrepare.core =
      r.pipelineQueue.prepareQueue.map .core)
    (hj : r'.journal = r.journal) : r'.Leading where
  primary := hp
  commitMin_le := by rw [hop, hc]; exact h.commitMin_le
  ops := by rw [PipelinePrepare.map_congr (fun _ => rfl) hq, hop, hc]; exact h.ops
  head := by rw [hop, hj]; exact h.head

-- The prepare that is executed next is the first one of the log.
theorem first (h : r.Leading) (hh : r.journal.headerWithOp (r.commitMin + 1) = some prepare) :
    ∃ body rest, r.uncommitted = (prepare, body) :: rest := by
  have hlt : r.commitMin < r.op := by
    by_contra hge
    rw [h.head _ (by omega)] at hh
    exact nomatch hh
  have hentry := Journal.entry_eq_some.mpr ⟨hh, rfl⟩
  rw [uncommitted, show r.op - r.commitMin = r.op - (r.commitMin + 1) + 1 by omega,
    List.range'_succ, List.filterMap_cons, hentry]
  exact ⟨_, _, rfl⟩

end Leading

theorem Fresh.uncommitted_eq (h : r.Fresh) : r.uncommitted = [] := by
  simp [uncommitted, h.op_eq]

theorem Fresh.log_eq (h : r.Fresh) : r.log = [] := by
  simp [log, h.uncommitted_eq, h.executed_eq]

theorem fresh_started [Env] {cluster replicaCount : Nat} {h : 0 < replicaCount} :
    (started cluster 0 replicaCount h).Fresh where
  leading :=
    { primary := ⟨by simp [isPrimary, primaryIndex, primaryIndexForView, started, new], rfl⟩
      commitMin_le := le_rfl
      ops := rfl
      head := fun _ _ => rfl }
  op_eq := rfl
  executed_eq := rfl
  requestQueue_eq := rfl
  clientSessions_eq := rfl

variable [Env]

theorem Leading.prepare_meets {client request requestChecksum : Nat}
    {operation : Operation} {Q : Except PrepareReject Nat × Replica → Prop} (hl : r.Leading)
    (he : Careless E) (reject : ∀ reason, r.prepareReject = some reason → Q (.error reason, r))
    (accept : ∀ header body' r',
      r.Prepares { client, request, requestChecksum, operation, body } header body' r' →
      Q (.ok header.op, r')) :
    Meets E Q (r.primaryPipelinePrepare client request operation body requestChecksum) := by
  refine primaryPipelinePrepare_meets he.toLenient reject ?accept
  intro timestamp checkpointId body' header journal hreject ht hcheckpoint hbody hheader hj
  obtain ⟨hp, _, hlt⟩ := prepareReject_eq_none.mp hreject
  have hop : header.op = r.op + 1 := by rw [hheader]; rfl
  have htimestamp : header.timestamp = timestamp := by rw [hheader]; rfl
  obtain ⟨hentry, hother⟩ := (Journal.record_meets he.toLenient (hl.head header.op (by omega))).post hj
  have hle := hl.commitMin_le
  have hlen := hl.length_eq
  have hsucc : header.op - r.commitMin = r.op - r.commitMin + 1 := by omega
  have hlast : r.commitMin + 1 + (r.op - r.commitMin) = header.op := by omega
  have huncommitted : (List.range' (r.commitMin + 1) (header.op - r.commitMin)).filterMap
      journal.entry = r.uncommitted ++ [(header, body')] := by
    rw [hsucc, List.range'_1_concat, List.filterMap_append, hlast, uncommitted]
    congr 1
    · refine List.filterMap_congr fun op hm => ?_
      have hm := List.mem_range'_1.mp hm
      rw [hother op (by omega), if_neg (Journal.slotForOp_ne ?_ ?_)]
      · omega
      · simp only [journalSlotCount, pipelineLimit, pipelinePrepareQueueMax, pipelineRequestQueueMax,
          clientsMax] at *
        omega
    · simp [hentry]
  have hpush : Leading ({ r with prepareTimestamp := timestamp, op := header.op, journal }.pushPrepare
      header body') := by
    constructor
    case primary      => exact hp
    case commitMin_le => exact hle.trans (by simp [pushPrepare, hop])
    case ops =>
      simp only [pushPrepare, List.map_append, List.map_cons, List.map_nil, hl.ops]
      rw [hsucc, List.range'_1_concat, hlast]
      rfl
    case head =>
      intro op hlt
      have hlt : header.op < op := hlt
      have hnone : journal.entry op = none := by
        rw [hother op hlt.ne', Journal.entry_eq_none.mpr (hl.head op (by omega)), ite_self]
      exact Journal.entry_eq_none.mp hnone
  refine onPrepareOk_frame he fun _ queue oks mins heads timeouts hcore hlength _ => ?_
  refine accept header body' _ ?_
  have hsend (r' : Replica) (hr : r' = { r with
      op := header.op, prepareTimestamp := timestamp, journal
      pipelineQueue.prepareQueue := queue, okFromAllReplicas := oks, commitMins := mins,
      headOps := heads, timeouts }) :
      r.Prepares { client, request, requestChecksum, operation, body } header body'
        (r'.startPipelineTimeouts.broadcast (.prepare header body')) := by
    obtain ⟨timeouts, he⟩ := r'.startPipelineTimeouts_eq
    have hqueue : queue.map PipelinePrepare.core = r.pipelineQueue.prepareQueue.map .core ++
        [(PipelinePrepare.ofPrepare header body').core] := by
      simpa [pushPrepare] using hcore
    rw [he, hr]
    constructor
    case ready          => exact hreject
    case body_eq        => exact hbody
    case header_eq      => exact ⟨checkpointId, hcheckpoint, ht ▸ hheader⟩
    case leading        => exact hpush.of_eq hp rfl rfl hcore rfl
    case uncommitted_eq => exact huncommitted
    case queue_eq       => exact hqueue
    case length_eq      => exact hlength.trans (by simp [pushPrepare])
    case frame          => exact ⟨journal, queue, oks, mins, heads, timeouts, _, by rw [htimestamp]; rfl⟩
  exact hsend _ rfl

namespace Prepares

variable {request : PipelineRequest} (h : r.Prepares request header body r')

include h

theorem log_eq : r'.log = r.log ++ [(header, body)] := by
  have ⟨_, _, _, _, _, _, _, hr⟩ := h.frame
  rw [log, h.uncommitted_eq, log, List.append_assoc, hr]

theorem client_eq : header.client = request.client := by
  obtain ⟨_, _, rfl⟩ := h.header_eq
  rfl

theorem request_eq : header.request = request.request := by
  obtain ⟨_, _, rfl⟩ := h.header_eq
  rfl

theorem operation_eq : header.operation = request.operation := by
  obtain ⟨_, _, rfl⟩ := h.header_eq
  rfl

theorem release_eq : header.release = releaseMinimum := by
  obtain ⟨_, _, rfl⟩ := h.header_eq
  rfl

theorem timestamp_eq : header.timestamp = max r.prepareTimestamp r.commitMax + 1 := by
  obtain ⟨_, _, rfl⟩ := h.header_eq
  rfl

end Prepares

-- What the refill of the pipeline preserves: whatever each single prepare does.
theorem refill_meets {I : Replica → Prop} (he : Careless E) (hi : I r) (lead : ∀ r, I r → r.Leading)
    (internal : ∀ r request header body r', I r → request.Internal →
      r.Prepares request header body r' → I r')
    (pop : ∀ request header body r', r.pipelineQueue.requestQueue.getLast? = some request →
      Prepares { r with pipelineQueue.requestQueue := r.pipelineQueue.requestQueue.dropLast }
        request header body r' → I r') :
    Meets E (fun r => Meets E (fun r => Meets E I r.redriveUpgrade) r.injectPulse)
      r.prepareNextRequest := by
  have hupgrade (r : Replica) (hi : I r) : Meets E I r.redriveUpgrade := by
    refine redriveUpgrade_meets he.toLenient hi fun body => ?_
    refine (lead r hi).prepare_meets he (fun _ _ => nofun) fun _ _ r' hp _ => ?_
    exact internal r _ _ _ r' hi ⟨rfl, rfl, .inr rfl⟩ hp
  have hpulse (r : Replica) (hi : I r) :
      Meets E (fun r => Meets E I r.redriveUpgrade) r.injectPulse := by
    refine injectPulse_meets he.toLenient (hupgrade r hi) ?_
    refine (lead r hi).prepare_meets he (fun _ _ => nofun) fun _ _ r' hp _ => hupgrade r' ?_
    exact internal r _ _ _ r' hi ⟨rfl, rfl, .inl rfl⟩ hp
  refine prepareNextRequest_meets he.toLenient (fun _ => hpulse r hi) fun request hm => ?_
  have hl : Leading { r with
      pipelineQueue.requestQueue := r.pipelineQueue.requestQueue.dropLast } :=
    (lead r hi).of_eq (lead r hi).primary rfl rfl rfl rfl
  refine hl.prepare_meets he (fun _ _ => nofun) fun _ _ r' hp _ => hpulse r' ?_
  exact pop request _ _ r' hm hp

omit [Env] in
-- An execution moves the first prepare of the log to the state machine.
theorem Executes.commits {first : PipelinePrepare} {prepares : List PipelinePrepare}
    (hx : r.Executes prepare body r') (hl : r.Leading)
    (hq : r.pipelineQueue.prepareQueue = first :: prepares) :
    r.Commits prepare body { r' with
      pipelineQueue.prepareQueue := prepares
      okFromAllReplicas := r'.okFromAllReplicas.tail } := by
  have hops := hl.ops
  obtain ⟨_, hop, hle, hheader, hbody, _, _, _, _, _, journal, hheaders, hbodies, rfl⟩ := hx
  have hentry : journal.entry = r.journal.entry := Journal.entry_congr hheaders hbodies
  have hsucc : r.op - r.commitMin = r.op - prepare.op + 1 := by omega
  constructor
  case op_eq => exact hop
  case leading =>
    constructor
    case primary      => exact hl.primary
    case commitMin_le => exact hle
    case ops =>
      rw [hq, hsucc, List.range'_succ] at hops
      have htail := (List.cons_eq_cons.mp hops).2
      rw [← hop] at htail
      exact htail
    case head =>
      intro op hlt
      rw [← Journal.entry_eq_none, hentry, Journal.entry_eq_none]
      exact hl.head op hlt
  case uncommitted_eq =>
    have hfirst : r.journal.entry (r.commitMin + 1) = some (prepare, body) :=
      hop ▸ Journal.entry_eq_some.mpr ⟨hheader, hbody⟩
    simp only [uncommitted]
    rw [hentry, hsucc, List.range'_succ, List.filterMap_cons, hfirst, hop]
  case queue_eq => exact ⟨first, hq⟩
  case frame => exact ⟨_, _, _, _, journal, _, _, rfl⟩

omit [Env] in
theorem Commits.log_eq (h : r.Commits prepare body r') : r'.log = r.log := by
  have ⟨_, _, _, _, _, _, _, hr⟩ := h.frame
  rw [log, log, h.uncommitted_eq, hr, List.append_assoc, List.singleton_append]

-- What a commit preserves: the execution, and the refill of the pipeline after it.
theorem commit_meets {I : Replica → Prop} {T : Prepare → ClientSessions → Prop} (he : Careless E)
    (hl : r.Leading) (lead : ∀ r, I r → r.Leading)
    (table : ∀ (r' : Replica) prepare reply result, r'.clientSessions = r.clientSessions →
      r.journal.headerWithOp (r.commitMin + 1) = some prepare → Answers reply prepare →
      Meets E (fun r'' => ∃ clientSessions clientReplies,
        r'' = { r' with clientSessions, clientReplies } ∧ T prepare clientSessions)
        (r'.updateClientTable reply result))
    (execute : ∀ prepare body r', r.Commits prepare body r' → T prepare r'.clientSessions → I r')
    (internal : ∀ r request header body r', I r → request.Internal →
      r.Prepares request header body r' → I r')
    (pop : ∀ prepare body r' request header body' r'', r.Commits prepare body r' → I r' →
      r'.pipelineQueue.requestQueue.getLast? = some request →
      Prepares { r' with pipelineQueue.requestQueue := r'.pipelineQueue.requestQueue.dropLast }
        request header body' r'' → I r'') :
    Meets E I r.commitExecute := by
  refine commitExecute_meets he.toLenient table fun prepare body r' hx ht => ?_
  have ⟨_, _, _, _, _, _, _, hr⟩ := hx.frame
  refine refillPipeline_meets he.toLenient ?backup ?primary
  case backup =>
    rw [hr]
    exact fun hn => absurd ⟨hl.primary.2, hl.primary.1⟩ hn
  case primary =>
    intro first prepares _ _ hq _
    rw [hr] at hq
    have hc := hx.commits hl hq
    have hi := execute prepare body _ hc ht
    exact refill_meets he hi lead internal fun request header body' r'' hm hp =>
      pop prepare body _ request header body' r'' hc hi hm hp

end Replica

end TigerBeetle
