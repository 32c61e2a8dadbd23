import TigerBeetle.Theorems.ClientReplies

namespace TigerBeetle.ClientSide

open Fallible Prng

namespace Event

def calls : Event → List Call
  | .register callback userData _ => [⟨.register callback, userData, .register, registerBody⟩]
  | .request submission           =>
    [⟨.request submission.callback, submission.userData, submission.operation, submission.events⟩]
  | .tick _ | .onMessage _ _ _    => []

variable {P : Type} (client : Client P)

-- The calls of callbacks that are due.
def due : Event → List Completion
  | .onMessage message _ _ => client.taken message
  | _                      => []

variable [Checksums]

-- What the network may deliver: the pongs and the replies of a correct cluster, and what is dropped
-- unread.
def Honest : Frame → Prop
  | .pongClient pong  => pong.replica < replicasMax
  | .reply reply body => client.Answered reply body
  | .eviction _       => False
  | .other            => True

-- What the callers keep to: one request at a time, and only in a session. So does the hook.
def Permitted : Event → Prop
  | .register _ _ _           => client.requestInflight = none ∧ client.requestNumber = 0
  | .request submission       => client.requestInflight = none ∧ client.Submittable submission
  | .tick _                   => True
  | .onMessage message _ hook =>
    (message.invalid = false → message.cluster = client.cluster → Honest client message.frame) ∧
      ∀ submission ∈ hook, client.Submittable submission

-- No request is made in the recovery mode or past the last number, and the hook makes none at all.
def Fine : Event → Prop
  | .register _ _ _ | .tick _ => True
  | .request _                => client.aofRecovery = false ∧ client.requestNumber < u32Max
  | .onMessage message _ hook => hook = none ∨ client.taken message = []

end Event

theorem pingTimeout_counting : (Timeout.new (30000 / tickMs)).start.Counting :=
  ⟨rfl, _, rfl, by decide⟩

theorem requestTimeout_calibrated : (Timeout.new (rttTicks * rttMultiple)).Calibrated :=
  ⟨by decide, by decide, by decide⟩

variable {P : Type} [Prng P] [Checksums]

namespace Client

variable {client client' : Client P} {e : Event}

theorem sendRequestForTheFirstTime_stopped
    (h : client.sendRequestForTheFirstTime = .ok client') : client.requestTimeout.ticking = false := by
  unfold sendRequestForTheFirstTime at h
  obtain ⟨_, h⟩ := assert_ok h
  split at h
  · cases h
  · iterate 5 obtain ⟨_, h⟩ := assert_ok h
    exact (assert_ok h).1

theorem rawRequest_ok {callback userData : Nat} {header : Request} {body : Body}
    (h : client.rawRequest callback userData header body = .ok client')
    (hheader : header.timestamp = 0) :
    client.aofRecovery = false ∧ client.requestNumber < u32Max ∧
      client.requestTimeout.ticking = false := by
  unfold rawRequest at h
  iterate 7 obtain ⟨_, h⟩ := assert_ok h
  split at h
  · cases h
  · iterate 5 obtain ⟨_, h⟩ := assert_ok h
    obtain ⟨haof, h⟩ := assert_ok h
    have haof : client.aofRecovery = false := by
      rw [decide_eq_true hheader] at haof
      exact Bool.eq_false_iff.mpr (Ne.symm haof)
    rw [if_neg (by rw [haof]; exact Bool.false_ne_true)] at h
    obtain ⟨_, h⟩ := assert_ok h
    obtain ⟨number, hnumber, h⟩ := bind_eq_ok.mp h
    have hstopped := sendRequestForTheFirstTime_stopped h
    exact ⟨haof, (assert_ok hnumber).1, hstopped⟩

theorem request_ok {submission : Submission} (h : client.request submission = .ok client') :
    client.aofRecovery = false ∧ client.requestNumber < u32Max ∧
      client.requestTimeout.ticking = false := by
  unfold request at h
  iterate 4 obtain ⟨_, h⟩ := assert_ok h
  split at h
  · cases h
  · obtain ⟨_, h⟩ := assert_ok h
    obtain ⟨_, _, h⟩ := bind_eq_ok.mp h
    obtain ⟨_, h⟩ := assert_ok h
    obtain ⟨_, _, h⟩ := bind_eq_ok.mp h
    have hraw := rawRequest_ok h rfl
    exact hraw

-- The hook is run while the timeout of the request that is answered still counts.
theorem Ready.hook_fails (h : client.Ready) {reply : Reply} {body : Body} {inflight : RequestInflight}
    (ha : client.Answered reply body) (hf : client.requestInflight = some inflight)
    (hn : reply.request = inflight.header.request) (submission : Submission)
    (client' : Client P) : client.onReply reply body (some submission) ≠ .ok client' := by
  intro hok
  have hr := h.answers ha hf hn
  have hin := h.inflight inflight hf
  unfold onReply validChecksumBody at hok
  rw [assert_of hr.checksum, ok_bind, assert_of hr.size, ok_bind] at hok
  dsimp only [pure, Except.pure] at hok
  rw [ok_bind, assert_of (decide_eq_true hr.checksumBody), ok_bind,
    assert_of (hr.release.trans hin.release), ok_bind,
    if_neg (not_not_intro (hr.client.trans hin.addressed.2.2)), hf] at hok
  dsimp only at hok
  rw [if_neg (Nat.not_lt_of_le (Nat.le_of_eq hn.symm)), assert_of hn, ok_bind,
    assert_of hr.requestChecksum, ok_bind, hin.assertRequestNumber_eq, ok_bind] at hok
  obtain ⟨_, hrequest, _⟩ := bind_eq_ok.mp hok
  have hcounting := h.counting (by rw [hf]; exact Option.some_ne_none _)
  have hticking : client.requestTimeout.ticking = false := (request_ok hrequest).2.2
  rw [hcounting.ticking] at hticking
  cases hticking

theorem Ready.onMessage (h : client.Ready) {message : Inbound} {now : Nat} {hook : Option Submission}
    (hp : (Event.onMessage message now hook).Permitted client)
    (hfine : hook = none ∨ client.taken message = []) :
    ∃ client', client.onMessage message now hook = .ok client' ∧ client'.Ready ∧
      client'.completions = client.completions ++ client.taken message ∧
      client'.records.map (·.call) = client.records.map (·.call) := by
  have hself : client.completions = client.completions ++ [] := (List.append_nil _).symm
  unfold Client.onMessage
  rw [assert_of h.evicted, ok_bind]
  unfold taken at hfine ⊢
  by_cases hinvalid : message.invalid
  · rw [if_pos hinvalid, if_pos (.inl hinvalid)]
    exact ⟨client, rfl, h, hself, rfl⟩
  by_cases hcluster : message.cluster = client.cluster
  · rw [if_neg hinvalid, if_neg (not_not_intro hcluster)]
    rw [if_neg (by rintro (h | h); exacts [hinvalid h, h hcluster])] at hfine ⊢
    have hhonest := hp.1 (Bool.eq_false_iff.mpr hinvalid) hcluster
    cases hm : message.frame with
    | pongClient pong =>
      rw [hm] at hhonest
      obtain ⟨client', hok, hready, hcompletions, hrecords⟩ := h.onPongClient hhonest now
      exact ⟨client', hok, hready, hcompletions.trans hself, congrArg _ hrecords⟩
    | reply reply body =>
      rw [hm] at hhonest hfine
      rcases Option.eq_none_or_eq_some client.requestInflight with hf | ⟨inflight, hf⟩
      · rw [hf]
        exact ⟨client, h.onReply_idle hhonest hf, h, hself, rfl⟩
      · by_cases hn : reply.request = inflight.header.request
        · rw [hf] at hfine ⊢
          dsimp only at hfine ⊢
          rw [if_pos hn] at hfine ⊢
          obtain rfl : hook = none := hfine.resolve_right (List.cons_ne_nil _ _)
          obtain ⟨client', hok, hready, hcompletions, hrecords⟩ := h.onReply_first hhonest hf hn
          exact ⟨client', hok, hready, hcompletions, congrArg _ hrecords⟩
        · rw [hf]
          dsimp only
          rw [if_neg hn]
          exact ⟨client, h.onReply_stale hhonest hf hn, h, hself, rfl⟩
    | eviction header =>
      rw [hm] at hhonest
      exact hhonest.elim
    | other => exact ⟨client, rfl, h, hself, rfl⟩
  · rw [if_neg hinvalid, if_pos hcluster, if_pos (.inr hcluster)]
    exact ⟨client, rfl, h, hself, rfl⟩

-- What one step does: it does not fail, and calls just the callbacks that are due.
theorem Ready.step (h : client.Ready) (hp : e.Permitted client) (hfine : e.Fine client) :
    ∃ client', client.step e = .ok client' ∧ client'.Ready ∧
      client'.completions = client.completions ++ e.due client ∧
      client'.records.map (·.call) = client.records.map (·.call) ++ e.calls := by
  cases e with
  | register callback userData now =>
    obtain ⟨client', hok, hready, hcompletions, hrecords⟩ :=
      h.register hp.1 hp.2 callback userData now
    exact ⟨client', hok, hready, hcompletions.trans (List.append_nil _).symm, hrecords⟩
  | request submission =>
    obtain ⟨client', hok, hready, hcompletions, hrecords⟩ := h.request hp.1 hp.2 hfine.1 hfine.2
    exact ⟨client', hok, hready, hcompletions.trans (List.append_nil _).symm, hrecords⟩
  | tick now =>
    obtain ⟨client', hok, hready, hcompletions, hrecords⟩ := h.tick now
    refine ⟨client', hok, hready, hcompletions.trans (List.append_nil _).symm, ?_⟩
    rw [hrecords]
    exact (List.append_nil _).symm
  | onMessage message now hook =>
    obtain ⟨client', hok, hready, hcompletions, hrecords⟩ := h.onMessage hp hfine
    exact ⟨client', hok, hready, hcompletions, hrecords.trans (List.append_nil _).symm⟩

theorem Ready.fine_of_step (h : client.Ready) (hp : e.Permitted client)
    (hok : client.step e = .ok client') : e.Fine client := by
  cases e with
  | register _ _ _ => trivial
  | tick _ => trivial
  | request submission => exact ⟨(request_ok hok).1, (request_ok hok).2.1⟩
  | onMessage message now hook =>
    cases hook with
    | none => exact .inl rfl
    | some submission =>
      refine .inr ?_
      by_contra htaken
      unfold taken at htaken
      by_cases hdrop : message.invalid ∨ message.cluster ≠ client.cluster
      · exact htaken (if_pos hdrop)
      rw [if_neg hdrop] at htaken
      obtain ⟨hinvalid, hcluster⟩ := not_or.mp hdrop
      have hhonest := hp.1 (Bool.eq_false_iff.mpr hinvalid) (not_not.mp hcluster)
      split at htaken
      · rename_i reply body inflight hm hf
        rw [hm] at hhonest
        by_cases hn : reply.request = inflight.header.request
        · refine h.hook_fails hhonest hf hn submission client' ?_
          change client.onMessage message now (some submission) = .ok client' at hok
          unfold Client.onMessage at hok
          rw [assert_of h.evicted, ok_bind, if_neg hinvalid, if_neg hcluster, hm] at hok
          exact hok
        · exact htaken (if_neg hn)
      · exact htaken rfl

theorem new_ready {id cluster replicaCount : Nat} {aofRecovery onEvictionCallback : Bool}
    {pool : MessagePool} (hpool : pool.outstanding = 0) (hmax : 2 ≤ pool.messagesMax)
    (h : Client.new id cluster replicaCount aofRecovery onEvictionCallback pool = .ok client) :
    client.Ready ∧ client.records = [] := by
  unfold Client.new at h
  obtain ⟨_, h⟩ := assert_ok h
  obtain ⟨hcount, h⟩ := assert_ok h
  obtain rfl := Except.ok.inj h
  refine ⟨?_, rfl⟩
  exact {
    evicted := rfl
    replicaCount := hcount
    times := List.length_replicate
    pool := hpool
    messagesMax := hmax
    ping := pingTimeout_counting
    calibrated := requestTimeout_calibrated
    idle := fun _ => rfl
    counting := fun hn => absurd rfl hn
    fresh := fun _ => ⟨rfl, rfl⟩
    registered := fun _ hl => absurd hl.symm (Option.some_ne_none _)
    parent := fun _ => rfl
    inflight := fun _ hn => absurd hn.symm (Option.some_ne_none _)
    sent := fun _ hm => absurd hm (List.not_mem_nil)
    numbers := rfl
    linked := trivial
    answered := fun _ hm => absurd hm (List.not_mem_nil) }

end Client

-- A client, with the calls of `register` and `request` so far.
structure Session (P : Type) where
  client : Client P
  submitted : List Call

namespace Session

def machine : Machine (Session P) Event Fault where
  init session := session.submitted = [] ∧
    ∃ id cluster replicaCount aofRecovery onEvictionCallback pool,
      pool.outstanding = 0 ∧ 2 ≤ pool.messagesMax ∧
        Client.new id cluster replicaCount aofRecovery onEvictionCallback pool = .ok session.client
  step session e := do
    let client ← session.client.step e
    return { client, submitted := session.submitted ++ e.calls }

-- The callbacks were called in the order of the calls, once each but for that of the request that is
-- in flight, with the replies to the very requests. The requests are numbered in this order, and each
-- has the context of the reply before as its parent. The next step fails only if it is not fine, and
-- it calls just the callback of the request that is answered for the first time.
structure ExactlyOnce (session : Session P) : Prop where
  submitted : session.submitted = session.client.records.map (·.call)
  answered : ∀ c ∈ session.client.completions, Answers c.inflight.header c.reply c.body
  numbered : session.client.records.map (·.header.request) =
    List.range session.submitted.length
  linked : Linked 0 session.client.completions
  parent : ∀ inflight ∈ session.client.requestInflight,
    inflight.header.parent = contextAfter 0 session.client.completions
  fails : ∀ e, e.Permitted session.client →
    ((∃ session', machine.step session e = .ok session') ↔ e.Fine session.client)
  due : ∀ e session', e.Permitted session.client → machine.step session e = .ok session' →
    session'.client.completions = session.client.completions ++ e.due session.client

variable {session : Session P}

theorem ready_of_reachable
    (h : machine.Reachable (fun s e => e.Permitted s.client ∧ e.Fine s.client) session) :
    session.client.Ready ∧ session.submitted = session.client.records.map (·.call) := by
  refine h.invariant (p := fun s =>
    s.client.Ready ∧ s.submitted = s.client.records.map (·.call)) ?_ ?_
  · rintro s ⟨hnil, id, cluster, replicaCount, aof, eviction, pool, hpool, hmax, hnew⟩
    have ⟨hready, hrecords⟩ := Client.new_ready hpool hmax hnew
    rw [hrecords, hnil]
    exact ⟨hready, rfl⟩
  · rintro s e t ⟨hready, hsubmitted⟩ ⟨hp, hfine⟩ hstep
    obtain ⟨client', hok, hready', _, hrecords⟩ := hready.step hp hfine
    obtain ⟨client'', hok', ht⟩ := bind_eq_ok.mp hstep
    obtain rfl := Except.ok.inj (hok.symm.trans hok')
    obtain rfl := Except.ok.inj ht
    exact ⟨hready', by rw [hrecords, ← hsubmitted]⟩

theorem exactlyOnce_of_reachable
    (h : machine.Reachable (fun s e => e.Permitted s.client ∧ e.Fine s.client) session) :
    session.ExactlyOnce := by
  have ⟨hready, hsubmitted⟩ := ready_of_reachable h
  have hnumbers := hready.numbers
  refine {
    submitted := hsubmitted
    answered := hready.answered
    numbered := ?_
    linked := hready.linked
    parent := fun inflight hf => (hready.inflight inflight hf).parent
    fails := fun e hp => ⟨?_, fun hfine => ?_⟩
    due := fun e session' hp hstep => ?_ }
  · have hlength := congrArg List.length hnumbers
    rw [List.length_map, List.length_range] at hlength
    rw [hnumbers, hsubmitted, List.length_map, hlength]
  · rintro ⟨session', hstep⟩
    obtain ⟨_, hok, _⟩ := bind_eq_ok.mp hstep
    exact hready.fine_of_step hp hok
  · obtain ⟨client', hok, _⟩ := hready.step hp hfine
    exact ⟨_, bind_eq_ok.mpr ⟨client', hok, rfl⟩⟩
  · obtain ⟨client', hok, ht⟩ := bind_eq_ok.mp hstep
    obtain ⟨client'', hok', _, hdue, _⟩ := hready.step hp (hready.fine_of_step hp hok)
    obtain rfl := Except.ok.inj (hok.symm.trans hok')
    obtain rfl := Except.ok.inj ht
    exact hdue

end Session

end TigerBeetle.ClientSide

namespace TigerBeetle.ClientSide.Session.Runs

open Fallible

-- A generator that is never drawn from, as there is one replica only.
@[reducible]
def noDraws : Prng Unit where
  fromSeed _ := ()
  genIntInclusive _ _ := (0, ())
  le _ max := Nat.zero_le max

-- The checksums of the headers and the bodies of these runs.
@[reducible]
def checksums : Checksums where
  request header :=
    if header.request = 0 then 166468482890031457547595500560887189342
    else 252896691216758250780384834766713989347
  ping _ := 221632863125904287315680524188018900350
  reply header :=
    if header.request = 0 then 337339011017662377395995077734737281384
    else 166266464876431618414131379597611736536
  body bytes :=
    if bytes = [] then 98287347720187652707502696638535748739
    else if bytes = registerBody then 80262522984338905420932325260476423013
    else 32411413746896858696526384829824831279

attribute [local instance] noDraws checksums

def client : Client Unit where
  messageBus := []
  completions := []
  id := 1
  cluster := 0
  replicaCount := 1
  aofRecovery := false
  release := releaseMinimum
  parent := 0
  session := 0
  requestNumber := 0
  batchSizeLimit := none
  view := 0
  requestInflight := none
  requestTimeout := Timeout.new (rttTicks * rttMultiple)
  pingTimeout := (Timeout.new (30000 / tickMs)).start
  replicaRoundTripTimesNs := List.replicate replicasMax none
  prng := ()
  pool := { messagesMax := 16, outstanding := 0 }
  evicted := false
  onEvictionCallback := false

def registerReply : Reply where
  checksum := 337339011017662377395995077734737281384
  checksumBody := 32411413746896858696526384829824831279
  cluster := 0
  size := 512
  view := 0
  release := 1
  replica := 0
  requestChecksum := 166468482890031457547595500560887189342
  context := 7
  client := 1
  op := 5
  commit := 5
  timestamp := 9
  request := 0
  operation := .register

-- The limit is that of the largest message.
def registerResult : Body :=
  [0, 255, 15, 0] ++ List.replicate 252 0

def lookupReply : Reply where
  checksum := 166266464876431618414131379597611736536
  checksumBody := 98287347720187652707502696638535748739
  cluster := 0
  size := 256
  view := 3
  release := 1
  replica := 0
  requestChecksum := 252896691216758250780384834766713989347
  context := 8
  client := 1
  op := 6
  commit := 6
  timestamp := 10
  request := 1
  operation := .lookupAccounts

def lookup : Submission where
  callback := 1
  userData := 0
  operation := .lookupAccounts
  events := []

def inbound (reply : Reply) (body : Body) (hook : Option Submission) : Event :=
  .onMessage { invalid := false, cluster := 0, frame := .reply reply body } 0 hook

def after (session : Session Unit) (e : Event) : Session Unit :=
  match machine.step session e with
  | .ok session' => session'
  | .error _     => session

theorem step_after {session : Session Unit} {e : Event}
    (h : (machine.step session e).isOk = true) :
    machine.step session e = .ok (after session e) := by
  unfold after
  cases hstep : machine.step session e with
  | ok session' => rfl
  | error fault =>
    rw [hstep] at h
    cases h

def registered : Session Unit := after ⟨client, []⟩ (.register 0 0 0)

def opened : Session Unit := after registered (inbound registerReply registerResult none)

def requested : Session Unit := after opened (.request lookup)

-- The reply to the register request comes once more, and then that to the lookup.
def repeated : Session Unit := after requested (inbound registerReply registerResult none)

def answered : Session Unit := after repeated (inbound lookupReply [] none)

def registerRequest : Request where
  checksum := 166468482890031457547595500560887189342
  checksumBody := 80262522984338905420932325260476423013
  cluster := 0
  size := 512
  view := 0
  release := 1
  parent := 0
  client := 1
  session := 0
  timestamp := 0
  request := 0
  operation := .register

def lookupRequest : Request where
  checksum := 252896691216758250780384834766713989347
  checksumBody := 98287347720187652707502696638535748739
  cluster := 0
  size := 256
  view := 0
  release := 1
  parent := 7
  client := 1
  session := 5
  timestamp := 0
  request := 1
  operation := .lookupAccounts

theorem steps_succeed :
    (machine.step ⟨client, []⟩ (.register 0 0 0)).isOk = true ∧
    (machine.step registered (inbound registerReply registerResult none)).isOk = true ∧
    (machine.step opened (.request lookup)).isOk = true ∧
    (machine.step requested (inbound registerReply registerResult none)).isOk = true ∧
    (machine.step repeated (inbound lookupReply [] none)).isOk = true ∧
    (machine.step repeated (inbound lookupReply [] (some lookup))).isOk = false ∧
    registerRequest ∈ requests registered.client.messageBus ∧
    registerRequest ∈ requests requested.client.messageBus ∧
    lookupRequest ∈ requests repeated.client.messageBus ∧
    (opened.client.requestInflight = none ∧ opened.client.batchSizeLimit = some 1048320 ∧
      opened.client.aofRecovery = false ∧ opened.client.requestNumber < u32Max) ∧
    repeated.client.batchSizeLimit = some 1048320 ∧ answered.client.completions.length = 2 := by
  decide +kernel

theorem registerResult_fits :
    registerReply.size = headerSize + registerResult.length ∧
    registerReply.checksumBody = Checksums.body registerResult ∧
    0 < LittleEndian.ofBytes (registerResult.take 4) ∧
    LittleEndian.ofBytes (registerResult.take 4) ≤ messageBodySizeMax := by
  decide +kernel

theorem registerReply_answers : Answers registerRequest registerReply registerResult where
  checksum := rfl
  size := registerResult_fits.1
  checksumBody := registerResult_fits.2.1
  release := rfl
  cluster := rfl
  client := rfl
  number := rfl
  requestChecksum := rfl
  operation := rfl
  commit := rfl
  session := fun _ => by decide
  result := fun _ => ⟨rfl, registerResult_fits.2.2⟩

theorem lookupReply_answers : Answers lookupRequest lookupReply [] where
  checksum := rfl
  size := rfl
  checksumBody := rfl
  release := rfl
  cluster := rfl
  client := rfl
  number := rfl
  requestChecksum := rfl
  operation := rfl
  commit := rfl
  session := fun h => absurd h (by decide)
  result := fun h => absurd h (by decide)

def Kept (session : Session Unit) (e : Event) : Prop :=
  e.Permitted session.client ∧ e.Fine session.client

theorem kept_of_reply {session : Session Unit} {reply : Reply} {body : Body}
    (h : session.client.Answered reply body) : Kept session (inbound reply body none) :=
  ⟨⟨fun _ _ => h, fun _ hs => absurd hs.symm (Option.some_ne_none _)⟩, .inl rfl⟩

theorem registered_reachable : machine.Reachable Kept registered := by
  have hkept : Kept ⟨client, []⟩ (.register 0 0 0) := ⟨⟨rfl, rfl⟩, trivial⟩
  have hinit : machine.init (⟨client, []⟩ : Session Unit) :=
    ⟨rfl, 1, 0, 1, false, false, ⟨16, 0⟩, rfl, by decide, rfl⟩
  exact .step (.init hinit) hkept (step_after steps_succeed.1)

theorem opened_reachable : machine.Reachable Kept opened := by
  have ⟨_, hopen, _, _, _, _, hsent, _⟩ := steps_succeed
  have hkept : Kept registered (inbound registerReply registerResult none) :=
    kept_of_reply ⟨registerRequest, hsent, registerReply_answers⟩
  exact registered_reachable.step hkept (step_after hopen)

theorem requested_reachable : machine.Reachable Kept requested := by
  have ⟨_, _, hrequest, _, _, _, _, _, _, ⟨hnone, hlimit, haof, hnumber⟩, _⟩ := steps_succeed
  have hkept : Kept opened (.request lookup) :=
    ⟨⟨hnone, ⟨1048320, hlimit, by decide⟩, ⟨16, rfl, rfl⟩⟩, ⟨haof, hnumber⟩⟩
  exact opened_reachable.step hkept (step_after hrequest)

theorem repeated_reachable : machine.Reachable Kept repeated := by
  have ⟨_, _, _, hrepeat, _, _, _, hsent, _⟩ := steps_succeed
  have hkept : Kept requested (inbound registerReply registerResult none) :=
    kept_of_reply ⟨registerRequest, hsent, registerReply_answers⟩
  exact requested_reachable.step hkept (step_after hrepeat)

theorem lookupReply_answered : repeated.client.Answered lookupReply [] :=
  have ⟨_, _, _, _, _, _, _, _, hsent, _⟩ := steps_succeed
  ⟨lookupRequest, hsent, lookupReply_answers⟩

theorem answered_reachable : machine.Reachable Kept answered := by
  have ⟨_, _, _, _, hanswer, _⟩ := steps_succeed
  exact repeated_reachable.step (kept_of_reply lookupReply_answered) (step_after hanswer)

theorem exactlyOnce_of_lookup :
    ∃ session : Session Unit, session.client.completions.length = 2 ∧ session.ExactlyOnce :=
  have ⟨_, _, _, _, _, _, _, _, _, _, _, hcount⟩ := steps_succeed
  ⟨answered, hcount, exactlyOnce_of_reachable answered_reachable⟩

-- The hook submits a request while the reply to the one before is still being handled.
theorem not_always_succeeds :
    ¬∀ session : Session Unit, machine.Reachable (fun s e => e.Permitted s.client) session →
      ∀ e, e.Permitted session.client → ∃ session', machine.step session e = .ok session' := by
  intro h
  have ⟨_, _, _, _, _, hstops, _, _, _, _, hlimit, _⟩ := steps_succeed
  have ⟨session', hstep⟩ := h repeated (repeated_reachable.mono fun _ _ => And.left)
    (inbound lookupReply [] (some lookup))
    ⟨fun _ _ => lookupReply_answered, fun submission hs => by
      obtain rfl := Option.some.inj hs
      exact ⟨⟨1048320, hlimit, by decide⟩, ⟨16, rfl, rfl⟩⟩⟩
  rw [hstep] at hstops
  cases hstops

end TigerBeetle.ClientSide.Session.Runs
