import TigerBeetle.Theorems.Client

namespace TigerBeetle.ClientSide

open Fallible Prng

namespace Client

theorem vsrReserved_of_eventSize {operation : Operation} {size : Nat}
    (h : eventSize operation = .ok size) : operation.vsrReserved = false := by
  unfold eventSize at h
  split_ifs at h with h₁ h₂ h₃ h₄ h₅
  · rcases h₁ with rfl | rfl <;> rfl
  · rcases h₂ with rfl | rfl <;> rfl
  · rcases h₃ with rfl | rfl <;> rfl
  · rw [h₄]
    rfl
  · rcases h₅ with rfl | rfl <;> rfl
  · cases h

variable {P : Type} {client : Client P}

theorem nextRequestNumber_eq (h : client.requestNumber < u32Max) :
    client.nextRequestNumber = .ok (client.requestNumber + 1) := by
  unfold nextRequestNumber
  rw [assert_of h]
  rfl

theorem registerBody_size : headerSize + registerBody.length ≤ messageSizeMax := by
  rw [registerBody, List.length_replicate]
  decide

variable [Checksums] [Prng P]

theorem Ready.register (h : client.Ready) (hnone : client.requestInflight = none)
    (hzero : client.requestNumber = 0) (callback userData now : Nat) :
    ∃ client', client.register callback userData now = .ok client' ∧ client'.Ready ∧
      client'.completions = client.completions ∧
      client'.records.map (·.call) = client.records.map (·.call) ++
        [⟨.register callback, userData, .register, registerBody⟩] := by
  obtain ⟨client₁, hsend, hready, hcompletions, hrecords⟩ := h.submit hnone {
    header := {
      checksum := 0
      checksumBody := 0
      cluster := client.cluster
      size := headerSize + registerBody.length
      view := 0
      release := client.release
      parent := 0
      client := client.id
      session := 0
      timestamp := if client.aofRecovery then 1 else 0
      request := client.requestNumber
      operation := .register }
    body := registerBody, userData, callback := .register callback } {
      parent := rfl, session := rfl, view := rfl, size := registerBody_size, cluster := rfl, sender := rfl
      release := rfl, number := rfl
      register := fun _ => ⟨hzero, _, rfl⟩
      other := fun ho => absurd rfl ho }
  obtain ⟨client₂, hping, hready', hcompletions', hinflight, _⟩ := hready.onPingTimeout now
  refine ⟨client₂, ?_, hready', hcompletions'.trans hcompletions, ?_⟩
  · unfold Client.register MessagePool.getMessage
    rw [assert_of h.evicted, ok_bind, assert_of hnone, ok_bind, assert_of hzero, ok_bind,
      assert_of h.outstanding_lt, ok_bind]
    dsimp only [pure, Except.pure]
    rw [ok_bind, nextRequestNumber_eq (by rw [hzero]; decide), ok_bind, hsend, ok_bind]
    exact hping
  · rw [show client₂.records = client₁.records by rw [records, records, hcompletions', hinflight]]
    exact hrecords

-- A submission that is in order.
structure Submittable (client : Client P) (submission : Submission) : Prop where
  limit : ∃ limit, client.batchSizeLimit = some limit ∧ submission.events.length ≤ limit
  size : ∃ size, eventSize submission.operation = .ok size ∧ submission.events.length % size = 0

theorem Ready.request (h : client.Ready) (hnone : client.requestInflight = none)
    {submission : Submission} (hs : client.Submittable submission) (haof : client.aofRecovery = false)
    (hnumber : client.requestNumber < u32Max) :
    ∃ client', client.request submission = .ok client' ∧ client'.Ready ∧
      client'.completions = client.completions ∧
      client'.records.map (·.call) = client.records.map (·.call) ++
        [⟨.request submission.callback, submission.userData, submission.operation,
          submission.events⟩] := by
  obtain ⟨limit, hlimit, hle⟩ := hs.limit
  obtain ⟨size, hsize, hmod⟩ := hs.size
  obtain ⟨client, rfl⟩ : ∃ client', client = { client' with batchSizeLimit := some limit } :=
    ⟨client, by rw [← hlimit]⟩
  replace haof : client.aofRecovery = false := haof
  have ⟨hmax, hpos⟩ := h.registered limit hlimit
  have hreserved := vsrReserved_of_eventSize hsize
  have hbody : submission.events.length ≤ messageBodySizeMax := Nat.le_trans hle hmax
  have htotal : headerSize + submission.events.length ≤ messageSizeMax :=
    Nat.le_trans (Nat.add_le_add_left hbody _) (by decide)
  obtain ⟨client', hsend, hready, hcompletions, hrecords⟩ := h.submit hnone {
    header := {
      checksum := 0
      checksumBody := 0
      cluster := client.cluster
      size := headerSize + submission.events.length
      view := 0
      release := client.release
      parent := 0
      client := client.id
      session := 0
      timestamp := 0
      request := client.requestNumber
      operation := submission.operation }
    body := submission.events, userData := submission.userData
    callback := .request submission.callback } {
      parent := rfl, session := rfl, view := rfl, size := htotal, cluster := rfl, sender := rfl
      release := rfl, number := rfl
      register := fun ho => by
        rw [show submission.operation = .register from ho] at hreserved
        cases hreserved
      other := fun _ => ⟨hpos, _, rfl⟩ }
  refine ⟨client', ?_, hready, hcompletions, hrecords⟩
  unfold Client.request MessagePool.getMessage
  rw [assert_of h.evicted, ok_bind, assert_of hnone, ok_bind, assert_of hpos, ok_bind,
    assert_of hbody, ok_bind]
  dsimp only
  rw [assert_of hle, ok_bind, hsize, ok_bind, assert_of hmod, ok_bind, assert_of h.outstanding_lt,
    ok_bind]
  dsimp only [pure, Except.pure]
  rw [ok_bind]
  unfold rawRequest
  dsimp only
  rw [assert_of hnone, ok_bind, assert_of hpos, ok_bind, assert_of rfl, ok_bind, assert_of rfl,
    ok_bind, assert_of rfl, ok_bind, assert_of (Nat.le_add_right _ _), ok_bind, assert_of htotal,
    ok_bind]
  rw [assert_of (Nat.add_le_add_left hle _), ok_bind, assert_of rfl, ok_bind, assert_of rfl, ok_bind,
    assert_of rfl, ok_bind, assert_of rfl, ok_bind, assert_of (by simp [haof]), ok_bind,
    if_neg (by rw [haof]; decide), assert_of (.inr (by rw [hreserved]; rfl)), ok_bind]
  rw [nextRequestNumber_eq (by exact hnumber), ok_bind]
  exact hsend

variable {timeout : Timeout}

section

variable (h : client.Ready)

include h

omit [Prng P] in
theorem Ready.pinged (pings : List (Nat × Outbound))
    (hnone : requests pings = []) (ht : timeout.Counting) :
    Ready { client with messageBus := client.messageBus ++ pings, pingTimeout := timeout } := by
  refine { h with
    ping := ht
    inflight := fun inflight hf => { h.inflight inflight hf with }
    sent := fun request hr => ?_ }
  rw [requests_append, hnone, List.append_nil] at hr
  exact { h.sent request hr with }

omit [Prng P] in
theorem Ready.timed (hc : timeout.Calibrated)
    (hidle : client.requestInflight = none → timeout.ticking = false)
    (hcounting : client.requestInflight ≠ none → timeout.Counting) :
    Ready { client with requestTimeout := timeout } :=
  { h with
    calibrated := hc
    idle := hidle
    counting := hcounting
    inflight := fun inflight hf => { h.inflight inflight hf with }
    sent := fun request hr => { h.sent request hr with } }

omit [Prng P] in
theorem Ready.resent {inflight : RequestInflight}
    (hf : client.requestInflight = some inflight) (replicas : List Nat) (prng : P) :
    Ready { client with
      messageBus := client.messageBus ++
        List.map (·, .request inflight.header inflight.body) replicas
      prng } := by
  have hin := h.inflight inflight hf
  refine { h with
    inflight := fun inflight hf => { h.inflight inflight hf with }
    sent := fun request hr => ?_ }
  rw [requests_append, List.mem_append] at hr
  rcases hr with hr | hr
  · exact { h.sent request hr with }
  · obtain rfl := mem_requests_request hr
    exact {
      number := Nat.lt_of_succ_le (Nat.le_of_eq hin.number)
      inflight := fun inflight' hf' _ => by
        obtain rfl := Option.some.inj (hf.symm.trans hf')
        rfl
      cluster := hin.addressed.2.1
      release := hin.release
      sender := hin.addressed.2.2 }

theorem Ready.onRequestTimeout {inflight : RequestInflight}
    (hf : client.requestInflight = some inflight) (hticking : timeout.ticking = true)
    (hc : timeout.Calibrated) :
    ∃ client', onRequestTimeout { client with requestTimeout := timeout } = .ok client' ∧
      client'.Ready ∧ client'.completions = client.completions ∧ client'.records = client.records := by
  obtain ⟨client, rfl⟩ : ∃ client', client = { client' with requestInflight := some inflight } :=
    ⟨client, by rw [← hf]⟩
  have hin := h.inflight inflight hf
  obtain ⟨timeout', prng', hbackoff, hcounting, hc'⟩ :=
    Timeout.backoff_ok client.prng hticking hc
  have hready : Ready { client with
      requestInflight := some inflight, requestTimeout := timeout', prng := prng' } :=
    { h.timed hc' (fun hn => absurd hn (Option.some_ne_none _)) (fun _ => hcounting) with
      inflight := fun inflight hf => { h.inflight inflight hf with }
      sent := fun request hr => { h.sent request hr with } }
  obtain ⟨replicas, prng, hsend⟩ := sendRequestWithHedging_ok { client with
    requestInflight := some inflight, requestTimeout := timeout', prng := prng' } rfl h.replicaCount
    hin.addressed
  refine ⟨_, ?_, hready.resent rfl replicas prng, rfl, rfl⟩
  · unfold Client.onRequestTimeout
    dsimp only
    rw [hbackoff, ok_bind]
    dsimp only
    rw [assert_of (Nat.lt_of_succ_le (Nat.le_of_eq hin.number)), ok_bind, assert_of hin.checksum,
      ok_bind, assert_of hin.session, ok_bind]
    exact hsend

theorem Ready.requestTick : ∃ client', (do
        let client := { client with requestTimeout := client.requestTimeout.tick }
        if ← client.requestTimeout.fired then client.onRequestTimeout else return client :
          Result (Client P)) = .ok client' ∧
      client'.Ready ∧ client'.completions = client.completions ∧ client'.records = client.records := by
  dsimp only
  have hc := Timeout.tick_calibrated h.calibrated
  rcases Option.eq_none_or_eq_some client.requestInflight with hf | ⟨inflight, hf⟩
  · have ⟨htick, hfired⟩ := Timeout.tick_of_not_ticking (h.idle hf)
    rw [htick, hfired]
    exact ⟨client, rfl, h, rfl, rfl⟩
  · have hcounting := h.counting (by rw [hf]; exact Option.some_ne_none _)
    rcases Timeout.tick_fired hcounting with ⟨hfired, hcounting'⟩ | hfired
    · rw [hfired, ok_bind, if_neg Bool.false_ne_true]
      exact ⟨_, rfl, h.timed hc (fun hn => by rw [hf] at hn; cases hn) (fun _ => hcounting'), rfl, rfl⟩
    · rw [hfired, ok_bind, if_pos rfl]
      exact h.onRequestTimeout hf (Timeout.tick_ticking.trans hcounting.ticking) hc

theorem Ready.tick (now : Nat) :
    ∃ client', client.tick now = .ok client' ∧ client'.Ready ∧
      client'.completions = client.completions ∧ client'.records = client.records := by
  unfold Client.tick
  rw [assert_of h.evicted, ok_bind]
  dsimp only
  rcases Timeout.tick_fired h.ping with ⟨hfired, hcounting⟩ | hfired
  · rw [hfired, ok_bind, if_neg Bool.false_ne_true]
    have hready := h.pinged [] rfl hcounting
    rw [List.append_nil] at hready
    exact hready.requestTick
  · obtain ⟨pings, hping, hnone⟩ := onPingTimeout_ok { client with
      pingTimeout := client.pingTimeout.tick, requestTimeout := client.requestTimeout.tick } now
      (Timeout.tick_ticking.trans h.ping.ticking) h.outstanding_lt
    rw [hfired, ok_bind, if_pos rfl, hping, ok_bind]
    have ⟨_, after, hafter, hlt⟩ := h.ping
    refine (h.pinged pings hnone ⟨?_, after, ?_, Nat.zero_lt_of_lt hlt⟩).requestTick
    · exact Timeout.tick_ticking.trans h.ping.ticking
    · exact Timeout.tick_afterDynamic.trans hafter

omit [Prng P] in
theorem Ready.onPongClient {pong : PongClient} (hp : pong.replica < replicasMax)
    (now : Nat) : ∃ client', client.onPongClient pong now = .ok client' ∧ client'.Ready ∧
      client'.completions = client.completions ∧ client'.records = client.records := by
  have hview (view : Nat) : Ready { client with view } :=
    { h with
      inflight := fun inflight hf => { h.inflight inflight hf with }
      sent := fun request hr => { h.sent request hr with } }
  obtain ⟨view, hv⟩ : ∃ view, (if client.view < pong.view then { client with view := pong.view }
      else client) = { client with view } := by
    split
    · exact ⟨_, rfl⟩
    · exact ⟨client.view, rfl⟩
  unfold Client.onPongClient
  dsimp only
  rw [hv]
  by_cases hnow : pong.pingTimestampMonotonic ≤ now
  · have hmem : some (now - pong.pingTimestampMonotonic) ∈ client.replicaRoundTripTimesNs.set
        pong.replica (some (now - pong.pingTimestampMonotonic)) :=
      List.mem_set (by rw [h.times]; exact hp) _
    have hne : (client.replicaRoundTripTimesNs.set pong.replica
        (some (now - pong.pingTimestampMonotonic))).reduceOption.mergeSort ≠ [] :=
      List.ne_nil_of_mem <| List.mem_mergeSort.mpr (List.reduceOption_mem_iff.mpr hmem)
    rw [if_pos hnow, assert_of (by rw [h.times]; exact hp), ok_bind, assert_of hne, ok_bind]
    obtain ⟨rtt, hrtt, hpos⟩ := Timeout.setRttNs_ok _ h.calibrated
    rw [hrtt, ok_bind]
    refine ⟨_, rfl, ?_, rfl, rfl⟩
    exact { hview view with
      times := (List.length_set ..).trans h.times
      calibrated := ⟨hpos, h.calibrated.rttMultiple, h.calibrated.after⟩
      counting := fun hn => ⟨(h.counting hn).ticking, (h.counting hn).before⟩
      inflight := fun inflight hf => { h.inflight inflight hf with }
      sent := fun request hr => { h.sent request hr with } }
  · rw [if_neg hnow]
    exact ⟨_, rfl, hview view, rfl, rfl⟩

end

end Client

end TigerBeetle.ClientSide
