import TigerBeetle.Machine
import TigerBeetle.Theorems.ClientSessions
import TigerBeetle.Theorems.Requests

namespace TigerBeetle

open Fallible Fault Replica

-- The client and the number of the request that a prepare is for.
def requestKey (entry : Prepare × Body) : Nat × Nat :=
  (entry.1.client, entry.1.request)

-- No request of a client occurs twice. What a primary prepares by itself has no client.
def AtMostOnce (keys : List (Nat × Nat)) : Prop :=
  (keys.filter (·.1 ≠ 0)).Nodup

-- The requests that the primary accepted but did not execute yet.
def Replica.inflight (r : Replica) : List (Nat × Nat) :=
  r.uncommitted.map requestKey ++
    r.pipelineQueue.requestQueue.map fun request => (request.client, request.request)

-- Commits the first prepare of the pipeline, if it is marked as having a quorum.
def Replica.commitHead [Env] (r : Replica) : Result Replica := do
  match r.pipelineQueue.prepareQueue with
  | [] => return r
  | head :: _ =>
    if head.okQuorumReceived then
      return { ← { r with commitPrepare := some head.op }.commitExecute with commitPrepare := none }
    else
      return r

-- A primary that serves requests.
namespace Serving

inductive Event
  | request (request : Request) (body : Body)
  | prepareOk (op checksum checkpointId commitMin replica : Nat)
  | pulseTimeout (now : Nat)
  | commit

def step [Env] (r : Replica) : Event → Result Replica
  | .request request body => r.onRequest request body
  | .prepareOk op checksum checkpointId commitMin replica => do
    let (_, r) ← r.onPrepareOk op checksum checkpointId commitMin replica
    return r
  | .pulseTimeout now => r.onPulseTimeout now
  | .commit => r.commitHead

def machine [Env] : Machine Replica Event Fault where
  init := Fresh
  step := step

-- Requests are prepared and executed at most once, and no step that meets the guard fails an
-- assertion about sessions.
structure Once [Env] (guard : Replica → Event → Prop) (r : Replica) : Prop where
  prepared : AtMostOnce (r.log.map requestKey)
  executed : AtMostOnce (r.stateMachine.executed.map requestKey)
  upright : ∀ e, guard r e → Meets (Besides .session) (fun _ => True) (step r e)

-- A request that the session table admits is not sent again while its first copy is in the pipeline
-- or in the request queue, and no client registers again after its session was evicted.
def Serial (r : Replica) : Event → Prop
  | .request request _ => r.Admits request → request.client ≠ 0 →
    (request.client, request.request) ∉ r.inflight ∧
    (r.clientSessions.get request.client = none →
      ∀ entry ∈ r.stateMachine.executed, entry.1.client ≠ request.client)
  | _ => True

-- The requests that are in flight are of different clients, and each follows what its client
-- executed.
structure Queued (prepares : List Prepare) (sessions : ClientSessions) (keys : List (Nat × Nat)) :
    Prop where
  distinct : ((keys.map Prod.fst).filter (· ≠ 0)).Nodup
  pending : ∀ key ∈ keys, key.1 ≠ 0 → Pending prepares sessions key.1 key.2

structure Invariant (r : Replica) : Prop where
  leading : r.Leading
  released : ∀ entry ∈ r.uncommitted, entry.1.release = releaseMinimum
  tabled : Tabled (r.stateMachine.executed.map Prod.fst) r.commitMin r.clientSessions
  queued : Queued (r.stateMachine.executed.map Prod.fst) r.clientSessions r.inflight
  once : AtMostOnce (r.stateMachine.executed.map requestKey)

namespace Queued

variable {prepares : List Prepare} {prepare : Prepare} {sessions sessions' : ClientSessions}
  {keys keys' : List (Nat × Nat)} {key : Nat × Nat}

theorem perm (h : Queued prepares sessions keys) (hp : keys.Perm keys') :
    Queued prepares sessions keys' where
  distinct := ((hp.map Prod.fst).filter _).nodup_iff.mp h.distinct
  pending key hm := h.pending key (hp.mem_iff.mpr hm)

theorem concat (h : Queued prepares sessions keys) (hn : key.1 ≠ 0 → key.1 ∉ keys.map Prod.fst)
    (hp : key.1 ≠ 0 → Pending prepares sessions key.1 key.2) :
    Queued prepares sessions (keys ++ [key]) where
  distinct := by
    rw [List.map_append, List.filter_append, List.nodup_append]
    refine ⟨h.distinct, ?_, ?_⟩
    · by_cases hz : key.1 = 0
      all_goals simp [hz]
    · grind
  pending key' hm hz := by
    rcases List.mem_append.mp hm with hm | hm
    · exact h.pending key' hm hz
    · obtain rfl := List.mem_singleton.mp hm
      exact hp hz

theorem execute (h : Queued prepares sessions (key :: keys)) (hk : prepare.client = key.1)
    (hs : Keeps prepare.client sessions sessions') :
    Queued (prepares ++ [prepare]) sessions' keys where
  distinct := h.distinct.sublist (((List.sublist_cons_self ..).map _).filter _)
  pending key' hm hz := by
    have hne : prepare.client ≠ key'.1 := by
      intro he
      have hd := h.distinct
      rw [List.map_cons, List.filter_cons_of_pos (by simpa [← hk, he] using hz)] at hd
      refine (List.nodup_cons.mp hd).1 (List.mem_filter.mpr ⟨?_, by simpa [← hk, he] using hz⟩)
      exact List.mem_map.mpr ⟨key', hm, by rw [← hk, he]⟩
    have hp := h.pending key' (.tail _ hm) hz
    constructor
    case fresh =>
      intro other hm hc
      rcases List.mem_append.mp hm with hm | hm
      · exact hp.fresh other hm hc
      · exact absurd (List.mem_singleton.mp hm ▸ hc) hne
    case next =>
      intro slot entry hh hc
      have ⟨slot', hh⟩ := hs slot entry hh (by rw [hc]; exact hne.symm)
      exact hp.next slot' entry hh hc
    case known =>
      intro hn
      have ⟨other, hm, hc⟩ := hp.known hn
      exact ⟨other, List.mem_append_left _ hm, hc⟩

theorem sublist (h : Queued prepares sessions keys) (hs : List.Sublist keys' keys) :
    Queued prepares sessions keys' where
  distinct := h.distinct.sublist ((hs.map _).filter _)
  pending key hm := h.pending key (hs.subset hm)

end Queued

theorem Invariant.init {r : Replica} (h : r.Fresh) : Invariant r where
  leading := h.leading
  released := by simp [h.uncommitted_eq]
  tabled := by
    have hn (slot : Nat) (entry : Entry) : ¬r.clientSessions.Holds slot entry := by
      simp [h.clientSessions_eq, ClientSessions.Holds, ClientSessions.new, List.getElem?_replicate]
    exact ⟨fun _ _ _ _ hh => absurd hh (hn _ _), fun _ _ hh => absurd hh (hn _ _)⟩
  queued := by
    have hnil : r.inflight = [] := by simp [inflight, h.uncommitted_eq, h.requestQueue_eq]
    exact hnil ▸ ⟨List.nodup_nil, by simp⟩
  once := by simp [h.executed_eq, AtMostOnce]

namespace Invariant

variable {r r' : Replica} {request : PipelineRequest} {header prepare : Prepare} {body : Body}

theorem of_eq (hi : Invariant r) (hl : r'.Leading) (hu : r'.uncommitted = r.uncommitted)
    (hs : r'.stateMachine = r.stateMachine) (hc : r'.commitMin = r.commitMin)
    (ht : r'.clientSessions = r.clientSessions)
    (hq : r'.pipelineQueue.requestQueue = r.pipelineQueue.requestQueue) : Invariant r' where
  leading := hl
  released := by rw [hu]; exact hi.released
  tabled := by rw [hs, hc, ht]; exact hi.tabled
  queued := by rw [hs, ht, inflight, hu, hq]; exact hi.queued
  once := by rw [hs]; exact hi.once

theorem atMostOnce (hi : Invariant r) : AtMostOnce (r.log.map requestKey) := by
  rw [AtMostOnce, log, List.map_append, List.filter_append, List.nodup_append]
  refine ⟨hi.once, ?uncommitted, ?disjoint⟩
  case uncommitted =>
    have hd := (hi.queued.sublist (List.sublist_append_left ..)).distinct
    rw [List.filter_map] at hd
    exact hd.of_map
  case disjoint =>
    intro key hm key' hm' he
    subst he
    obtain ⟨hm, hz⟩ := List.mem_filter.mp hm
    have hm' := (List.mem_filter.mp hm').1
    have hp := hi.queued.pending key (List.mem_append_left _ hm') (by simpa using hz)
    obtain ⟨entry, hentry, rfl⟩ := List.mem_map.mp hm
    exact absurd (hp.fresh entry.1 (List.mem_map_of_mem hentry) rfl) (lt_irrefl _)

theorem prepares [Env] (hi : Invariant r) (hp : r.Prepares request header body r')
    (hq : Queued (r.stateMachine.executed.map Prod.fst) r.clientSessions
      (r.inflight ++ [(request.client, request.request)])) : Invariant r' := by
  have ⟨_, _, _, _, _, _, _, hr⟩ := hp.frame
  have hs : r'.stateMachine = r.stateMachine := by rw [hr]
  have hc : r'.clientSessions = r.clientSessions := by rw [hr]
  constructor
  case leading => exact hp.leading
  case released =>
    intro entry hm
    rw [hp.uncommitted_eq, List.mem_append, List.mem_singleton] at hm
    rcases hm with hm | rfl
    · exact hi.released entry hm
    · exact hp.release_eq
  case tabled =>
    rw [hs, hc, show r'.commitMin = r.commitMin by rw [hr]]
    exact hi.tabled
  case queued =>
    rw [hs, hc]
    refine hq.perm ?_
    rw [inflight, inflight, hp.uncommitted_eq, List.map_append, List.map_singleton, requestKey,
      hp.client_eq, hp.request_eq, List.append_assoc, List.append_assoc,
      show r'.pipelineQueue.requestQueue = r.pipelineQueue.requestQueue by rw [hr]]
    exact List.perm_append_comm.append_left _
  case once => exact hs ▸ hi.once

theorem internal [Env] (hi : Invariant r) (hr : request.Internal)
    (hp : r.Prepares request header body r') : Invariant r' :=
  hi.prepares hp <| hi.queued.concat (fun hn => absurd hr.1 hn) fun hn => absurd hr.1 hn

theorem execute (hi : Invariant r) (hc : r.Commits prepare body r')
    (ht : Records (r.stateMachine.executed.map Prod.fst) r prepare r'.clientSessions) :
    Invariant r' := by
  have ⟨_, _, _, _, _, _, _, hr⟩ := hc.frame
  have hs : r'.stateMachine.executed.map Prod.fst =
      r.stateMachine.executed.map Prod.fst ++ [prepare] := by
    rw [hr]
    exact List.map_append
  have hinflight : r.inflight = requestKey (prepare, body) :: r'.inflight := by
    rw [inflight, inflight, hc.uncommitted_eq, hr]
    rfl
  have hq := hinflight ▸ hi.queued
  constructor
  case leading  => exact hc.leading
  case released => exact fun entry hm => hi.released entry (hc.uncommitted_eq ▸ .tail _ hm)
  case tabled =>
    rw [hs, show r'.commitMin = prepare.op by rw [hr]]
    exact ht.tabled
  case queued => exact hs ▸ hq.execute rfl ht.keeps
  case once =>
    rw [AtMostOnce, show r'.stateMachine.executed = r.stateMachine.executed ++ [(prepare, body)] by
      rw [hr], List.map_append, List.filter_append, List.nodup_append]
    refine ⟨hi.once, (List.nodup_singleton _).filter _, fun key hm key' hm' he => ?_⟩
    subst he
    obtain ⟨hm', hz⟩ := List.mem_filter.mp hm'
    obtain rfl := List.mem_singleton.mp hm'
    obtain ⟨entry, hm, he⟩ := List.mem_map.mp (List.mem_filter.mp hm).1
    have hp := hq.pending _ (.head _) (by simpa using hz)
    have hlt := hp.fresh entry.1 (List.mem_map_of_mem hm) (congrArg Prod.fst he)
    exact absurd (congrArg Prod.snd he) hlt.ne

theorem dequeue (hi : Invariant r) (hq : r.pipelineQueue.requestQueue.getLast? = some request) :
    let r' := { r with pipelineQueue.requestQueue := r.pipelineQueue.requestQueue.dropLast }
    Invariant r' ∧ Queued (r'.stateMachine.executed.map Prod.fst) r'.clientSessions
      (r'.inflight ++ [(request.client, request.request)]) := by
  obtain ⟨requests, hq⟩ := List.getLast?_eq_some_iff.mp hq
  have hinflight : r.inflight =
      inflight { r with pipelineQueue.requestQueue := r.pipelineQueue.requestQueue.dropLast } ++
        [(request.client, request.request)] := by
    simp only [inflight, hq, List.dropLast_concat, List.map_append, List.append_assoc]
    rfl
  have hqueued := hinflight ▸ hi.queued
  refine ⟨?_, hqueued⟩
  exact
    { leading := hi.leading.of_eq hi.leading.primary rfl rfl rfl rfl
      released := hi.released
      tabled := hi.tabled
      queued := hqueued.sublist (List.sublist_append_left ..)
      once := hi.once }

variable [Env] {E : Fault → Prop} (he : Careless E)

include he

theorem commit (hi : Invariant r) : Meets E Invariant r.commitHead := by
  unfold commitHead
  cases hq : r.pipelineQueue.prepareQueue with
  | nil => exact hi
  | cons head rest =>
    simp only [Meets.ite_iff, Meets.bind_eq, Meets.pure_eq]
    refine ⟨fun _ => ?_, fun _ => hi⟩
    have hl : Leading { r with commitPrepare := some head.op } :=
      hi.leading.of_eq hi.leading.primary rfl rfl rfl rfl
    have hcommit : Meets E Invariant { r with commitPrepare := some head.op }.commitExecute := by
      refine commit_meets (T := Records (r.stateMachine.executed.map Prod.fst) r) he hl
        (fun _ => leading) ?table ?execute (fun _ _ _ _ _ => internal) ?pop
      case table =>
        intro r' prepare reply result hs hh ha
        have hs : r'.clientSessions = r.clientSessions := hs
        obtain ⟨body, rest, hu⟩ := hi.leading.first hh
        have hop := Journal.op_of_headerWithOp hh
        have hm : (prepare, body) ∈ r.uncommitted := hu ▸ .head _
        have hp := hi.queued.pending (requestKey (prepare, body))
          (List.mem_append_left _ (List.mem_map_of_mem hm))
        refine Meets.weaken ?_ <| updateClientTable_records he.toLenient (hs ▸ hi.tabled)
          (hop ▸ Nat.lt_succ_self _) (hi.released _ hm) (hs ▸ hp) ha
        rintro _ ⟨sessions, replies, hr, ht, hk⟩
        exact ⟨sessions, replies, hr, ht, hs ▸ hk⟩
      case execute =>
        intro prepare body r' hc ht
        have hi' : Invariant { r with commitPrepare := some head.op } :=
          hi.of_eq hl rfl rfl rfl rfl rfl
        exact hi'.execute hc ⟨ht.tabled, ht.keeps⟩
      case pop =>
        intro _ _ r' request header body r'' _ hi hm hp
        obtain ⟨hi, hq⟩ := hi.dequeue hm
        exact hi.prepares hp hq
    refine hcommit.weaken fun r hi => ?_
    exact hi.of_eq (hi.leading.of_eq hi.leading.primary rfl rfl rfl rfl) rfl rfl rfl rfl rfl

omit [Env] he in
-- A request that is admitted follows what its client executed, and nothing of the client is in
-- flight.
theorem accept {request : Request} {body : Body} (hi : Invariant r)
    (hg : Serial r (.request request body)) (hv : request.invalidHeader = none)
    (ha : r.Admits request) :
    Queued (r.stateMachine.executed.map Prod.fst) r.clientSessions
      (r.inflight ++ [(request.client, request.request)]) := by
  have hpending (hz : request.client ≠ 0) :
      Pending (r.stateMachine.executed.map Prod.fst) r.clientSessions request.client
        request.request ∧
      ∀ number, (request.client, number) ∈ r.inflight → number = request.request := by
    have hnew := hg ha hz
    rcases r.clientSessions.lookup hi.tabled.distinct request.client with
      ⟨slot, entry, _, hget, hh, hc⟩ | ⟨_, hget, hn⟩
    · have hnext : request.request = entry.header.request + 1 := by
        have hf := ha.follows
        rw [hget] at hf
        obtain ⟨entry', he, _, hn, _⟩ | ⟨hn, _⟩ := hf
        · exact Option.mem_some.mp he ▸ hn
        · exact nomatch hn
      have hrecorded := hi.tabled.recorded slot entry hh
      refine ⟨⟨fun prepare hm he => ?_, fun slot' entry' hh' he => ?_, fun _ => ?_⟩, ?_⟩
      · have := hrecorded.latest prepare hm (he.trans hc.symm)
        omega
      · rw [hi.tabled.distinct.eq hh' hh (he.trans hc.symm), hnext]
      · exact hc ▸ hrecorded.known
      · intro number hm
        have := (hi.queued.pending _ hm hz).next slot entry hh hc
        omega
    · have hop : request.operation = .register := by
        have hf := ha.follows
        rw [hget] at hf
        obtain ⟨_, hm, _⟩ | ⟨_, hop | hc⟩ := hf
        · exact nomatch hm
        · exact hop
        · exact absurd hc hz
      have hzero := (Request.register_of_valid hv hop).2
      have hnone (prepare : Prepare) (hm : prepare ∈ r.stateMachine.executed.map Prod.fst) :
          prepare.client ≠ request.client := by
        obtain ⟨entry, hentry, rfl⟩ := List.mem_map.mp hm
        exact hnew.2 hget entry hentry
      refine ⟨⟨fun prepare hm he => ?_, fun slot entry hh he => ?_, fun hn => ?_⟩, ?_⟩
      · exact absurd he (hnone prepare hm)
      · exact absurd he (hn slot entry hh)
      · exact absurd hzero hn
      · intro number hm
        by_contra hne
        have ⟨prepare, hm, he⟩ := (hi.queued.pending _ hm hz).known (hzero ▸ hne)
        exact hnone prepare hm he
  refine hi.queued.concat (fun hz hm => ?_) fun hz => (hpending hz).1
  obtain ⟨⟨client, number⟩, hm, rfl⟩ := List.mem_map.mp hm
  exact (hg ha hz).1 ((hpending hz).2 number hm ▸ hm)

theorem onRequest {request : Request} {body : Body} (hi : Invariant r)
    (hg : Serial r (.request request body)) : Meets E Invariant (Replica.onRequest r request body) := by
  refine onRequest_meets he.toLenient ?ignore ?enqueue ?prepare
  case ignore =>
    exact fun _ => hi.of_eq (hi.leading.of_eq hi.leading.primary rfl rfl rfl rfl) rfl rfl rfl rfl rfl
  case enqueue =>
    intro hv ha _
    exact
      { leading := hi.leading.of_eq hi.leading.primary rfl rfl rfl rfl
        released := hi.released
        tabled := hi.tabled
        queued := by
          have hq := hi.accept hg hv ha
          rw [inflight, List.append_assoc] at hq
          rw [inflight, pushRequest, List.map_append]
          exact hq
        once := hi.once }
  case prepare =>
    intro hv ha _
    refine hi.leading.prepare_meets he (fun _ _ => nofun) fun _ _ _ hp _ => ?_
    exact hi.prepares hp (hi.accept hg hv ha)

theorem step {e : Event} (hi : Invariant r) (hg : Serial r e) : Meets E Invariant (step r e) := by
  cases e with
  | request => exact hi.onRequest he hg
  | prepareOk =>
    simp only [Serving.step, Meets.bind_eq]
    refine onPrepareOk_frame he fun _ _ _ _ _ _ hcore _ => ?_
    exact hi.of_eq (hi.leading.of_eq hi.leading.primary rfl rfl hcore rfl) rfl rfl rfl rfl rfl
  | pulseTimeout =>
    have hi' (prepareTimestamp : Nat) (timeouts : Timeouts) :
        Invariant { r with prepareTimestamp, timeouts } :=
      hi.of_eq (hi.leading.of_eq hi.leading.primary rfl rfl rfl rfl) rfl rfl rfl rfl rfl
    refine onPulseTimeout_meets he hi.leading.primary hi' fun _ _ => ?_
    refine (hi' _ _).leading.prepare_meets he (fun _ _ => nofun) fun _ _ _ hp _ => ?_
    exact (hi' _ _).internal ⟨rfl, rfl, .inl rfl⟩ hp
  | commit => exact hi.commit he

end Invariant

-- In a run without early resends, no request is prepared or executed twice.
theorem once_of_serial [Env] {r : Replica} (h : machine.Reachable Serial r) : Once Serial r := by
  have hi : Invariant r := h.invariant (fun _ => .init) fun _ _ _ hi hg => (hi.step .all hg).post
  constructor
  case prepared => exact hi.atMostOnce
  case executed => exact hi.once
  case upright =>
    intro e hg
    exact (hi.step (.besides (by decide) (by decide)) hg).weaken fun _ _ => trivial

section

attribute [local instance] Env.plain

instance {keys : List (Nat × Nat)} : Decidable (AtMostOnce keys) :=
  inferInstanceAs (Decidable (List.Nodup _))

instance {r : Replica} {request : Request} : Decidable (r.Admits request) :=
  decidable_of_iff
    (request.release = releaseMinimum ∧
      ((∃ entry ∈ r.clientSessions.get request.client,
          (request.operation = .register ∨ request.session = entry.session) ∧
          request.request = entry.header.request + 1 ∧ request.parent = entry.header.context) ∨
        r.clientSessions.get request.client = none ∧
          (request.operation = .register ∨ request.client = 0)))
    ⟨fun ⟨hr, hf⟩ => ⟨hr, hf⟩, fun h => ⟨h.release, h.follows⟩⟩

instance {r : Replica} {e : Event} : Decidable (Serial r e) :=
  match e with
  | .request ..      => inferInstanceAs (Decidable (_ → _ → _ ∧ (_ → ∀ _ ∈ _, _)))
  | .prepareOk ..    => .isTrue trivial
  | .pulseTimeout .. => .isTrue trivial
  | .commit          => .isTrue trivial

def fresh : Replica :=
  .started 0 0 1 (by decide)

def registration : Request :=
  { checksum := 1
    cluster := 0
    size := headerSize + registerRequestSize
    view := 0
    release := releaseMinimum
    replica := 0
    parent := 0
    client := 7
    session := 0
    request := 0
    operation := .register }

-- The first request after the registration, which proves that its reply arrived.
def creation : Request :=
  { registration with
    checksum := 2
    size := headerSize + 128
    parent := 2
    session := 1
    request := 1
    operation := .createAccounts }

-- The client registers, which is followed by a pulse, and sends its first request.
def session : List Event :=
  [.request registration (List.replicate registerRequestSize 0), .commit, .commit,
    .request creation (List.replicate 128 0)]

theorem once_of_serial_fresh : ∃ r, machine.Reachable Serial r ∧
    r.stateMachine.executed.map requestKey = [(7, 0), (0, 0), (7, 1)] ∧ Once Serial r := by
  have hl : machine.Leads Serial
      (·.stateMachine.executed.map requestKey = [(7, 0), (0, 0), (7, 1)])
      (session ++ [.commit]) fresh := by
    decide +kernel
  have ⟨r, hr, hk⟩ := Machine.Reachable.leads (.init fresh_started) hl
  exact ⟨r, hr, hk, once_of_serial hr⟩

-- A request that is sent again while its first copy is in the pipeline is prepared twice, and the
-- execution of its second copy fails an assertion about its session.
theorem not_once :
    ¬∀ r, machine.Reachable (fun _ _ => True) r → Once (fun _ _ => True) r := by
  intro h
  have hl : machine.Leads (fun _ _ => True)
      (fun r => ¬AtMostOnce (r.log.map requestKey) ∧
        ¬Meets (Besides .session) (fun _ => True) (step r .commit))
      (session ++ [.request creation (List.replicate 128 0), .commit]) fresh := by
    decide +kernel
  have ⟨r, hr, hk, _⟩ := Machine.Reachable.leads (.init fresh_started) hl
  exact hk (h r hr).prepared

end

end Serving

end TigerBeetle
