import TigerBeetle.Client

namespace TigerBeetle.ClientSide

open Fallible Prng

variable {P : Type} [Prng P]

namespace Timeout

variable {timeout : Timeout}

-- A timeout that counts, and that has not come to its end.
structure Counting (timeout : Timeout) : Prop where
  ticking : timeout.ticking = true
  before : ∃ after, timeout.afterDynamic = some after ∧ timeout.ticks < after

-- A timeout whose round-trip time has been calibrated.
structure Calibrated (timeout : Timeout) : Prop where
  rtt : 0 < timeout.rtt
  rttMultiple : 0 < timeout.rttMultiple
  after : 0 < timeout.after

theorem exponentialBackoffWithJitter_ok (prng : P) (attempt : Nat) :
    ∃ r, exponentialBackoffWithJitter prng backoffMinTicks backoffMaxTicks attempt = .ok r := by
  have hle := Prng.le prng (min (backoffMaxTicks - backoffMinTicks)
    (max backoffMinTicks 1 * 2 ^ min attempt 63))
  have hmax : min (backoffMaxTicks - backoffMinTicks) (max backoffMinTicks 1 * 2 ^ min attempt 63) ≤
      backoffMaxTicks - backoffMinTicks := Nat.min_le_left _ _
  unfold exponentialBackoffWithJitter
  rw [assert_of (by decide), ok_bind]
  dsimp only
  rw [assert_of (by decide), ok_bind, assert_of (Nat.pow_pos (by decide)), ok_bind,
    assert_of (Nat.le_add_right _ _), ok_bind, assert_of, ok_bind]
  · exact ⟨_, rfl⟩
  · have h : backoffMinTicks ≤ backoffMaxTicks := by decide
    omega

theorem backoff_ok (prng : P) (hticking : timeout.ticking = true) (hc : timeout.Calibrated) :
    ∃ timeout' prng', timeout.backoff prng = .ok (timeout', prng') ∧ timeout'.Counting ∧
      timeout'.Calibrated := by
  obtain ⟨⟨jitter, prng'⟩, hjitter⟩ :=
    exponentialBackoffWithJitter_ok prng ((timeout.attempts + 1) % 256)
  have hpos : 0 < min (timeout.rtt * timeout.rttMultiple) u64Max :=
    Nat.lt_min.mpr ⟨Nat.mul_pos hc.rtt hc.rttMultiple, by decide⟩
  unfold backoff setAfterForRttAndAttempts
  rw [assert_of hticking, ok_bind, assert_of rfl, ok_bind, assert_of hc.rtt, ok_bind, hjitter, ok_bind]
  dsimp only
  rw [assert_of (Nat.add_pos_left hpos _), ok_bind]
  exact ⟨_, _, rfl, ⟨hticking, _, rfl, Nat.add_pos_left hpos _⟩, ⟨hc.rtt, hc.rttMultiple, hc.after⟩⟩

theorem start_counting (hc : timeout.Calibrated) : timeout.start.Counting :=
  ⟨rfl, _, rfl, hc.after⟩

theorem start_calibrated (hc : timeout.Calibrated) : timeout.start.Calibrated :=
  ⟨hc.rtt, hc.rttMultiple, hc.after⟩

theorem stop_calibrated (hc : timeout.Calibrated) : timeout.stop.Calibrated :=
  ⟨hc.rtt, hc.rttMultiple, hc.after⟩

theorem setRttNs_ok (rttNs : Nat) (hc : timeout.Calibrated) :
    ∃ rtt, timeout.setRttNs rttNs = .ok { timeout with rtt } ∧ 0 < rtt := by
  unfold setRttNs
  rw [assert_of hc.rtt, ok_bind]
  exact ⟨_, rfl, Nat.lt_min.mpr ⟨by omega, by decide⟩⟩

-- One tick brings a timeout that counts no further than to its end.
theorem tick_fired (h : timeout.Counting) :
    timeout.tick.fired = .ok false ∧ timeout.tick.Counting ∨ timeout.tick.fired = .ok true := by
  have ⟨hticking, after, hafter, hlt⟩ := h
  unfold fired tick
  rw [if_pos hticking, hticking, hafter]
  dsimp only
  by_cases hle : after ≤ timeout.ticks + 1
  · rw [if_pos hle, assert_of (by omega), ok_bind]
    exact .inr rfl
  · rw [if_neg hle]
    exact .inl ⟨rfl, rfl, after, rfl, Nat.lt_of_not_le hle⟩

theorem tick_of_not_ticking (h : timeout.ticking = false) :
    timeout.tick = timeout ∧ timeout.fired = .ok false := by
  unfold tick fired
  rw [h]
  exact ⟨rfl, rfl⟩

theorem tick_calibrated (hc : timeout.Calibrated) : timeout.tick.Calibrated := by
  unfold tick
  split
  · exact ⟨hc.rtt, hc.rttMultiple, hc.after⟩
  · exact hc

theorem tick_ticking : timeout.tick.ticking = timeout.ticking := by
  unfold tick
  split <;> rfl

theorem tick_afterDynamic : timeout.tick.afterDynamic = timeout.afterDynamic := by
  unfold tick
  split <;> rfl

end Timeout

-- The requests that were sent.
def requests (messageBus : List (Nat × Outbound)) : List Request :=
  messageBus.filterMap fun
    | (_, .request header _) => some header
    | (_, .pingClient _)     => none

theorem requests_append {bus bus' : List (Nat × Outbound)} :
    requests (bus ++ bus') = requests bus ++ requests bus' :=
  List.filterMap_append

theorem mem_requests_request {replicas : List Nat} {header request : Request} {body : Body}
    (h : request ∈ requests (replicas.map (·, .request header body))) : request = header := by
  simp only [requests, List.mem_filterMap, List.mem_map] at h
  obtain ⟨_, ⟨_, _, rfl⟩, h⟩ := h
  exact (Option.some.inj h).symm

theorem requests_ping (replicas : List Nat) (header : PingClient) :
    requests (replicas.map (·, .pingClient header)) = [] := by
  simp [requests]

namespace Client

section Sending

variable {P : Type} [Checksums] {client : Client P}

-- What the bus is handed must be from this client.
def Addressed (client : Client P) : Outbound → Prop
  | .request request _ =>
    request.validChecksum = true ∧ request.cluster = client.cluster ∧ request.client = client.id
  | .pingClient ping   =>
    ping.validChecksum = true ∧ ping.cluster = client.cluster ∧ ping.client = client.id

theorem sendMessageToReplica_eq {replica : Nat} {message : Outbound}
    (hm : client.Addressed message) (hr : replica < client.replicaCount) :
    client.sendMessageToReplica replica message =
      .ok { client with messageBus := client.messageBus ++ [(replica, message)] } := by
  unfold sendMessageToReplica
  rw [assert_of hr, ok_bind]
  cases message with
  | request request body =>
    have ⟨hv, hc, hi⟩ := hm
    dsimp only
    rw [assert_of hv, ok_bind, assert_of hc, ok_bind, assert_of hi]
    rfl
  | pingClient ping =>
    have ⟨hv, hc, hi⟩ := hm
    dsimp only
    rw [assert_of hv, ok_bind, assert_of hc, ok_bind, assert_of hi]
    rfl

theorem sendMessages_eq {message : Outbound} {replicas : List Nat} (client : Client P)
    (hr : ∀ replica ∈ replicas, replica < client.replicaCount) (hm : client.Addressed message) :
    replicas.foldlM (fun client replica => client.sendMessageToReplica replica message) client =
      .ok { client with messageBus := client.messageBus ++ replicas.map (·, message) } := by
  induction replicas generalizing client with
  | nil => simp [pure, Except.pure]
  | cons replica replicas ih =>
    rw [List.foldlM_cons, sendMessageToReplica_eq hm (hr replica List.mem_cons_self), ok_bind]
    refine (ih _ ?_ ?_).trans ?_
    · exact fun replica h => hr replica (List.mem_cons_of_mem _ h)
    · cases message <;> exact hm
    · simp

-- Pings go to all replicas, and leave the message pool as it was.
theorem sendHeaderToReplicas_ok {header : PingClient}
    (hpool : client.pool.outstanding < client.pool.messagesMax)
    (hc : header.cluster = client.cluster) (hi : header.client = client.id) :
    ∃ pings, client.sendHeaderToReplicas header =
      .ok { client with messageBus := client.messageBus ++ pings } ∧ requests pings = [] := by
  refine ⟨_, ?_, requests_ping (List.range client.replicaCount)
    (header.setChecksumBody []).setChecksum⟩
  unfold sendHeaderToReplicas MessagePool.getMessage MessagePool.release sendMessageToReplicas
  rw [assert_of hpool, ok_bind]
  dsimp only [pure, Except.pure]
  have hm : { client with pool := { client.pool with outstanding := client.pool.outstanding + 1 }
      }.Addressed (.pingClient (header.setChecksumBody []).setChecksum) :=
    ⟨decide_eq_true rfl, hc, hi⟩
  rw [ok_bind, sendMessages_eq _ (fun replica h => List.mem_range.mp h) hm, ok_bind,
    assert_of (Nat.succ_pos _)]
  rfl

theorem onPingTimeout_ok (client : Client P) (now : Nat) (hticking : client.pingTimeout.ticking = true)
    (hpool : client.pool.outstanding < client.pool.messagesMax) :
    ∃ pings, client.onPingTimeout now = .ok { client with
        messageBus := client.messageBus ++ pings
        pingTimeout := { client.pingTimeout with attempts := 0, ticks := 0 } } ∧
      requests pings = [] := by
  unfold onPingTimeout Timeout.reset
  rw [assert_of hticking, ok_bind]
  exact sendHeaderToReplicas_ok hpool rfl rfl

end Sending

variable [Checksums] {client : Client P}

theorem sendRequestWithHedging_ok (client : Client P) {inflight : RequestInflight}
    (hf : client.requestInflight = some inflight) (hn : 0 < client.replicaCount)
    (hm : client.Addressed (.request inflight.header inflight.body)) :
    ∃ replicas prng, client.sendRequestWithHedging = .ok { client with
      messageBus := client.messageBus ++
        List.map (·, .request inflight.header inflight.body) replicas
      prng } := by
  obtain ⟨client, rfl⟩ : ∃ client', client = { client' with requestInflight := some inflight } :=
    ⟨client, by rw [← hf]⟩
  have hlt := Nat.mod_lt client.view hn
  unfold sendRequestWithHedging
  dsimp only at hn hlt ⊢
  rw [sendMessageToReplica_eq hm hlt, ok_bind]
  dsimp only
  obtain ⟨drawn, hdrawn⟩ : ∃ drawn, genIntInclusive client.prng (client.replicaCount - 2) = drawn :=
    ⟨_, rfl⟩
  have hle := Prng.le client.prng (client.replicaCount - 2)
  rw [hdrawn] at hle ⊢
  by_cases h : 1 < client.replicaCount
  · -- The offset is at least one and less than the number of replicas.
    have hne : (client.view % client.replicaCount + (1 + drawn.1)) % client.replicaCount ≠
        client.view % client.replicaCount := by
      replace hlt : client.view % client.replicaCount < client.replicaCount := hlt
      generalize client.view % client.replicaCount = primary at hlt
      by_cases hsum : primary + (1 + drawn.1) < client.replicaCount
      · rw [Nat.mod_eq_of_lt hsum]
        omega
      · rw [Nat.mod_eq_sub_mod (by omega), Nat.mod_eq_of_lt (by omega)]
        omega
    rw [if_pos h, assert_of hne, ok_bind]
    refine ⟨[client.view % client.replicaCount,
      (client.view % client.replicaCount + (1 + drawn.1)) % client.replicaCount], drawn.2, ?_⟩
    refine (sendMessageToReplica_eq ?_ ?_).trans ?_
    · exact hm
    · exact Nat.mod_lt _ hn
    dsimp only
    rw [List.append_assoc]
    rfl
  · rw [if_neg h]
    exact ⟨[client.view % client.replicaCount], client.prng, rfl⟩

-- The header that a request is sent with.
def stamped (client : Client P) (header : Request) (body : Body) : Request :=
  ({ header with parent := client.parent, session := client.session, view := client.view
    }.setChecksumBody body).setChecksum

-- A header that has not been stamped yet.
structure Unstamped (client : Client P) (header : Request) : Prop where
  parent : header.parent = 0
  session : header.session = 0
  request : header.request < client.requestNumber
  view : header.view = 0
  size : header.size ≤ messageSizeMax
  cluster : header.cluster = client.cluster
  client : header.client = client.id

theorem sendRequestForTheFirstTime_ok (client : Client P) {inflight : RequestInflight}
    (hf : client.requestInflight = some inflight) (hn : 0 < client.replicaCount)
    (hu : client.Unstamped inflight.header) (ht : client.requestTimeout.ticking = false) :
    ∃ replicas prng, client.sendRequestForTheFirstTime = .ok { client with
      messageBus := client.messageBus ++ List.map
        (·, .request (client.stamped inflight.header inflight.body) inflight.body) replicas
      requestInflight := some { inflight with
        header := client.stamped inflight.header inflight.body }
      parent := (client.stamped inflight.header inflight.body).checksum
      requestTimeout := client.requestTimeout.start
      prng } := by
  obtain ⟨client, rfl⟩ : ∃ client', client = { client' with requestInflight := some inflight } :=
    ⟨client, by rw [← hf]⟩
  unfold sendRequestForTheFirstTime
  rw [assert_of (Nat.zero_lt_of_lt hu.request), ok_bind]
  dsimp only at ht ⊢
  rw [assert_of hu.parent, ok_bind, assert_of hu.session, ok_bind, assert_of hu.request, ok_bind,
    assert_of hu.view, ok_bind, assert_of hu.size, ok_bind, assert_of ht, ok_bind]
  let header := client.stamped inflight.header inflight.body
  exact sendRequestWithHedging_ok { client with
    requestInflight := some { inflight with header }
    parent := header.checksum
    requestTimeout := client.requestTimeout.start } rfl hn
    ⟨decide_eq_true rfl, hu.cluster, hu.client⟩

end Client

-- A call of `register` or `request`.
structure Call where
  callback : Callback
  userData : Nat
  operation : Operation
  body : Body
  deriving DecidableEq, Repr

def RequestInflight.call (inflight : RequestInflight) : Call where
  callback := inflight.callback
  userData := inflight.userData
  operation := inflight.header.operation
  body := inflight.body

-- The requests are linked when the first has the given parent, and each of the others the context of
-- the reply before.
def Linked : Nat → List Completion → Prop
  | _, []           => True
  | parent, c :: cs => c.inflight.header.parent = parent ∧ Linked c.reply.context cs

def contextAfter : Nat → List Completion → Nat
  | parent, []  => parent
  | _, c :: cs  => contextAfter c.reply.context cs

theorem contextAfter_append {parent : Nat} {cs : List Completion} {c : Completion} :
    contextAfter parent (cs ++ [c]) = c.reply.context := by
  induction cs generalizing parent with
  | nil => rfl
  | cons c cs ih => exact ih

theorem Linked.append {parent : Nat} {cs : List Completion} {c : Completion} (h : Linked parent cs)
    (hc : c.inflight.header.parent = contextAfter parent cs) : Linked parent (cs ++ [c]) := by
  induction cs generalizing parent with
  | nil => exact ⟨hc, trivial⟩
  | cons c cs ih => exact ⟨h.1, ih h.2 hc⟩

variable [Checksums]

-- What a correct cluster replies to a request. The view may be any.
structure Answers (request : Request) (reply : Reply) (body : Body) : Prop where
  checksum : validChecksum reply = true
  size : reply.size = headerSize + body.length
  checksumBody : reply.checksumBody = Checksums.body body
  release : reply.release = request.release
  cluster : reply.cluster = request.cluster
  client : reply.client = request.client
  number : reply.request = request.request
  requestChecksum : reply.requestChecksum = request.checksum
  operation : reply.operation = request.operation
  commit : reply.op = reply.commit
  session : request.operation = .register → 0 < reply.commit
  result : request.operation = .register → reply.size = headerSize + 256 ∧
    0 < LittleEndian.ofBytes (body.take 4) ∧ LittleEndian.ofBytes (body.take 4) ≤ messageBodySizeMax

variable {P : Type} [Prng P]

namespace Client

-- The requests whose callbacks were called, and the one that is in flight.
def records (client : Client P) : List RequestInflight :=
  client.completions.map (·.inflight) ++ client.requestInflight.toList

structure InFlight (client : Client P) (inflight : RequestInflight) : Prop where
  checksum : inflight.header.checksum = client.parent
  session : inflight.header.session = client.session
  addressed : client.Addressed (.request inflight.header inflight.body)
  release : inflight.header.release = client.release
  parent : inflight.header.parent = contextAfter 0 client.completions
  number : inflight.header.request + 1 = client.requestNumber
  register : inflight.header.operation = .register → inflight.header.request = 0 ∧
    client.session = 0 ∧ client.batchSizeLimit = none ∧ ∃ callback, inflight.callback = .register callback
  other : inflight.header.operation ≠ .register → 0 < inflight.header.request ∧
    ∃ callback, inflight.callback = .request callback

structure Sent (client : Client P) (request : Request) : Prop where
  number : request.request < client.requestNumber
  inflight : ∀ inflight, client.requestInflight = some inflight →
    request.request = inflight.header.request → request = inflight.header
  cluster : request.cluster = client.cluster
  release : request.release = client.release
  sender : request.client = client.id

-- What holds of a client between the calls to it.
structure Ready (client : Client P) : Prop where
  evicted : client.evicted = false
  replicaCount : 0 < client.replicaCount
  times : client.replicaRoundTripTimesNs.length = replicasMax
  pool : client.pool.outstanding = client.requestInflight.toList.length
  messagesMax : 2 ≤ client.pool.messagesMax
  ping : client.pingTimeout.Counting
  calibrated : client.requestTimeout.Calibrated
  idle : client.requestInflight = none → client.requestTimeout.ticking = false
  counting : client.requestInflight ≠ none → client.requestTimeout.Counting
  fresh : client.requestNumber = 0 → client.session = 0 ∧ client.batchSizeLimit = none
  registered : ∀ limit, client.batchSizeLimit = some limit →
    limit ≤ messageBodySizeMax ∧ 0 < client.requestNumber
  parent : client.requestInflight = none → client.parent = contextAfter 0 client.completions
  inflight : ∀ inflight, client.requestInflight = some inflight → client.InFlight inflight
  sent : ∀ request ∈ requests client.messageBus, client.Sent request
  numbers : client.records.map (·.header.request) = List.range client.requestNumber
  linked : Linked 0 client.completions
  answered : ∀ c ∈ client.completions, Answers c.inflight.header c.reply c.body

variable {client : Client P}

omit [Prng P] in
theorem Ready.outstanding_lt (h : client.Ready) : client.pool.outstanding < client.pool.messagesMax := by
  have hpool := h.pool
  have hmax := h.messagesMax
  have hle : client.requestInflight.toList.length ≤ 1 := by cases client.requestInflight <;> simp
  omega

omit [Prng P] in
theorem Ready.onPingTimeout (h : client.Ready) (now : Nat) :
    ∃ client', client.onPingTimeout now = .ok client' ∧ client'.Ready ∧
      client'.completions = client.completions ∧ client'.requestInflight = client.requestInflight ∧
      client'.requestTimeout = client.requestTimeout := by
  obtain ⟨pings, hping, hnone⟩ := onPingTimeout_ok client now h.ping.ticking h.outstanding_lt
  refine ⟨_, hping, ?_, rfl, rfl, rfl⟩
  have ⟨_, after, hafter, hlt⟩ := h.ping
  refine { h with
    ping := ⟨h.ping.ticking, after, hafter, Nat.zero_lt_of_lt hlt⟩
    inflight := fun inflight hf => { h.inflight inflight hf with }
    sent := fun request hr => ?_ }
  rw [requests_append, hnone, List.append_nil] at hr
  exact { h.sent request hr with }

-- A header that `register` or `request` makes.
structure Submits (client : Client P) (inflight : RequestInflight) : Prop where
  parent : inflight.header.parent = 0
  session : inflight.header.session = 0
  view : inflight.header.view = 0
  size : inflight.header.size ≤ messageSizeMax
  cluster : inflight.header.cluster = client.cluster
  sender : inflight.header.client = client.id
  release : inflight.header.release = client.release
  number : inflight.header.request = client.requestNumber
  register : inflight.header.operation = .register → client.requestNumber = 0 ∧
    ∃ callback, inflight.callback = .register callback
  other : inflight.header.operation ≠ .register → 0 < client.requestNumber ∧
    ∃ callback, inflight.callback = .request callback

theorem Ready.submit (h : client.Ready) (hnone : client.requestInflight = none)
    (inflight : RequestInflight) (hs : client.Submits inflight) :
    ∃ client', Client.sendRequestForTheFirstTime { client with
        pool := { client.pool with outstanding := client.pool.outstanding + 1 }
        requestNumber := client.requestNumber + 1
        requestInflight := some inflight } = .ok client' ∧ client'.Ready ∧
      client'.completions = client.completions ∧
      client'.records.map (·.call) = client.records.map (·.call) ++ [inflight.call] := by
  obtain ⟨replicas, prng, hsend⟩ := sendRequestForTheFirstTime_ok { client with
    pool := { client.pool with outstanding := client.pool.outstanding + 1 }
    requestNumber := client.requestNumber + 1
    requestInflight := some inflight } rfl h.replicaCount
    ⟨hs.parent, hs.session, by rw [hs.number]; exact Nat.lt_succ_self _, hs.view, hs.size,
      hs.cluster, hs.sender⟩ (h.idle hnone)
  refine ⟨_, hsend, ?_, rfl, ?_⟩
  · refine {
      evicted := h.evicted
      replicaCount := h.replicaCount
      times := h.times
      pool := by rw [h.pool, hnone]; rfl
      messagesMax := h.messagesMax
      ping := h.ping
      calibrated := Timeout.start_calibrated h.calibrated
      idle := fun hn => absurd hn (Option.some_ne_none _)
      counting := fun _ => Timeout.start_counting h.calibrated
      fresh := fun hn => absurd hn (Nat.succ_ne_zero _)
      registered := fun limit hl => ⟨(h.registered limit hl).1, Nat.succ_pos _⟩
      parent := fun hn => absurd hn (Option.some_ne_none _)
      inflight := fun f hf => ?_
      sent := fun request hr => ?_
      numbers := ?_
      linked := h.linked
      answered := h.answered }
    · obtain rfl := Option.some.inj hf
      exact {
        checksum := rfl
        session := rfl
        addressed := ⟨decide_eq_true rfl, hs.cluster, hs.sender⟩
        release := hs.release
        parent := h.parent hnone
        number := congrArg (· + 1) hs.number
        register := fun ho => by
          have ⟨hn, hc⟩ := hs.register ho
          exact ⟨hs.number.trans hn, (h.fresh hn).1, (h.fresh hn).2, hc⟩
        other := fun ho => by
          have ⟨hn, hc⟩ := hs.other ho
          exact ⟨Nat.lt_of_lt_of_eq hn hs.number.symm, hc⟩ }
    · rw [requests_append, List.mem_append] at hr
      rcases hr with hr | hr
      · have hsent := h.sent request hr
        exact { hsent with
          number := Nat.lt_succ_of_lt hsent.number
          inflight := fun f hf hn => by
            obtain rfl := Option.some.inj hf
            exact absurd (hn.trans hs.number) (Nat.ne_of_lt hsent.number) }
      · obtain rfl := mem_requests_request hr
        exact {
          number := Nat.lt_of_le_of_lt (Nat.le_of_eq hs.number) (Nat.lt_succ_self _)
          inflight := fun f hf _ => by
            obtain rfl := Option.some.inj hf
            rfl
          cluster := hs.cluster
          sender := hs.sender
          release := hs.release }
    · have hnumbers := h.numbers
      rw [records, hnone] at hnumbers
      simp only [Option.toList_none, List.append_nil] at hnumbers
      rw [records, List.map_append, hnumbers, List.range_succ]
      exact congrArg (_ ++ [·]) hs.number
  · rw [records, records, hnone]
    simp only [Option.toList_none, List.append_nil, List.map_append]
    rfl

end Client

end TigerBeetle.ClientSide
