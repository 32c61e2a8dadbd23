import TigerBeetle.Theorems.ClientSteps

namespace TigerBeetle.ClientSide

open Fallible Prng

variable [Checksums] {P : Type}

namespace Client

variable {client : Client P}
variable {inflight : RequestInflight} {reply : Reply} {body : Body}

theorem complete_ok (client : Client P)
    (ha : Answers inflight.header reply body)
    (hregister : inflight.header.operation = .register → inflight.header.request = 0 ∧
      client.session = 0 ∧ client.batchSizeLimit = none ∧
      ∃ callback, inflight.callback = .register callback)
    (hother : inflight.header.operation ≠ .register → ∃ callback, inflight.callback = .request callback) :
    ∃ session batchSizeLimit, client.complete inflight reply body = .ok { client with
        completions := client.completions ++ [⟨inflight, reply, body⟩], session, batchSizeLimit } ∧
      ∀ limit, batchSizeLimit = some limit →
        limit ≤ messageBodySizeMax ∨ client.batchSizeLimit = some limit := by
  unfold complete
  dsimp only
  by_cases ho : inflight.header.operation = .register
  · have ⟨hrequest, hsession, hlimit, callback, hcallback⟩ := hregister ho
    have ⟨hsize, hpos, hmax⟩ := ha.result ho
    rw [if_pos ho, assert_of hrequest, ok_bind, assert_of hlimit, ok_bind, assert_of hsession, ok_bind,
      assert_of (ha.session ho), ok_bind, assert_of hsize, ok_bind, assert_of hpos, ok_bind,
      assert_of hmax, ok_bind]
    refine ⟨reply.commit, some (LittleEndian.ofBytes (body.take 4)), by rw [hcallback]; rfl, ?_⟩
    intro limit hl
    exact .inl (Option.some.inj hl ▸ hmax)
  · have ⟨callback, hcallback⟩ := hother ho
    rw [if_neg ho]
    refine ⟨client.session, client.batchSizeLimit, by rw [hcallback]; rfl, fun limit hl => .inr hl⟩

-- The completion that a reply leads to, which is none for those to requests that are answered already.
def taken (client : Client P) (message : Inbound) : List Completion :=
  if message.invalid ∨ message.cluster ≠ client.cluster then []
  else
    match message.frame, client.requestInflight with
    | .reply reply body, some inflight =>
      if reply.request = inflight.header.request then [⟨inflight, reply, body⟩] else []
    | _, _ => []

-- The reply answers a request that was sent.
def Answered (client : Client P) (reply : Reply) (body : Body) : Prop :=
  ∃ request ∈ requests client.messageBus, Answers request reply body

theorem InFlight.assertRequestNumber_eq (h : client.InFlight inflight) :
    assertRequestNumber inflight.header = .ok () := by
  unfold assertRequestNumber
  split
  · exact assert_of (h.register ‹_›).1
  · exact assert_of (h.other ‹_›).1

variable [Prng P]

-- Without a request in flight, a reply can only be one more of the same.
theorem Ready.onReply_idle (h : client.Ready) {hook : Option Submission}
    (ha : client.Answered reply body) (hf : client.requestInflight = none) :
    client.onReply reply body hook = .ok client := by
  obtain ⟨request, hmem, ha⟩ := ha
  have hsent := h.sent request hmem
  unfold onReply validChecksumBody
  rw [assert_of ha.checksum, ok_bind, assert_of ha.size, ok_bind]
  dsimp only [pure, Except.pure]
  rw [ok_bind, assert_of (decide_eq_true ha.checksumBody), ok_bind,
    assert_of (ha.release.trans hsent.release), ok_bind,
    if_neg (not_not_intro (ha.client.trans hsent.sender)), hf]
  dsimp only
  rw [assert_of (Nat.lt_of_le_of_lt (Nat.le_of_eq ha.number) hsent.number)]
  rfl

-- A late reply, or one more of the same, is passed over.
theorem Ready.onReply_stale (h : client.Ready) {hook : Option Submission}
    (ha : client.Answered reply body)
    (hf : client.requestInflight = some inflight) (hne : reply.request ≠ inflight.header.request) :
    client.onReply reply body hook = .ok client := by
  obtain ⟨request, hmem, ha⟩ := ha
  have hsent := h.sent request hmem
  have hin := h.inflight inflight hf
  have hlt : reply.request < inflight.header.request := by
    have hnumber := ha.number
    have hle := hsent.number
    have hin := hin.number
    omega
  have hpos := Nat.zero_lt_of_lt hlt
  have ho : inflight.header.operation ≠ .register := fun ho =>
    absurd (hin.register ho).1 (Nat.ne_of_gt hpos)
  unfold onReply validChecksumBody
  rw [assert_of ha.checksum, ok_bind, assert_of ha.size, ok_bind]
  dsimp only [pure, Except.pure]
  rw [ok_bind, assert_of (decide_eq_true ha.checksumBody), ok_bind,
    assert_of (ha.release.trans hsent.release), ok_bind,
    if_neg (not_not_intro (ha.client.trans hsent.sender)), hf]
  dsimp only
  rw [if_pos hlt, assert_of hpos, ok_bind, assert_of ho]
  rfl

omit [Prng P] in
-- A reply to the request in flight is one to that very request.
theorem Ready.answers (h : client.Ready)
    (ha : client.Answered reply body) (hf : client.requestInflight = some inflight)
    (hn : reply.request = inflight.header.request) : Answers inflight.header reply body := by
  obtain ⟨request, hmem, ha⟩ := ha
  rw [← (h.sent request hmem).inflight inflight hf (ha.number.symm.trans hn)]
  exact ha

theorem Ready.onReply_first (h : client.Ready) (ha : client.Answered reply body)
    (hf : client.requestInflight = some inflight) (hn : reply.request = inflight.header.request) :
    ∃ client', client.onReply reply body none = .ok client' ∧ client'.Ready ∧
      client'.completions = client.completions ++ [⟨inflight, reply, body⟩] ∧
      client'.records = client.records := by
  have hr := h.answers ha hf hn
  obtain ⟨client, rfl⟩ : ∃ client', client = { client' with requestInflight := some inflight } :=
    ⟨client, by rw [← hf]⟩
  have hin := h.inflight inflight hf
  have hpool : client.pool.outstanding = 1 := h.pool
  obtain ⟨session, limit, hcomplete, hlimit⟩ := complete_ok { client with
    requestInflight := none
    parent := reply.context
    view := max client.view reply.view
    requestTimeout := client.requestTimeout.stop
    pool := { client.pool with outstanding := client.pool.outstanding - 1 } } hr
    (by exact hin.register) (fun ho => (hin.other ho).2)
  refine ⟨{ client with
    completions := client.completions ++ [⟨inflight, reply, body⟩]
    requestInflight := none
    parent := reply.context
    session
    batchSizeLimit := limit
    view := max client.view reply.view
    requestTimeout := client.requestTimeout.stop
    pool := { client.pool with outstanding := client.pool.outstanding - 1 } }, ?_, ?_, rfl, ?_⟩
  · unfold onReply validChecksumBody MessagePool.release
    rw [assert_of hr.checksum, ok_bind, assert_of hr.size, ok_bind]
    dsimp only [pure, Except.pure]
    rw [ok_bind, assert_of (decide_eq_true hr.checksumBody), ok_bind,
      assert_of (hr.release.trans hin.release), ok_bind,
      if_neg (not_not_intro (hr.client.trans hin.addressed.2.2)),
      if_neg (Nat.not_lt_of_le (Nat.le_of_eq hn.symm)), assert_of hn, ok_bind,
      assert_of hr.requestChecksum, ok_bind]
    rw [hin.assertRequestNumber_eq, ok_bind]
    unfold onReplyHook
    dsimp only [pure, Except.pure]
    rw [ok_bind, assert_of (hr.requestChecksum.trans hin.checksum), ok_bind,
      assert_of (hr.client.trans hin.addressed.2.2), ok_bind, assert_of hn, ok_bind,
      assert_of (hr.cluster.trans hin.addressed.2.1), ok_bind, assert_of hr.commit, ok_bind,
      assert_of hr.operation, ok_bind, assert_of (by rw [hpool]; decide), ok_bind]
    exact hcomplete
  · have hnumbers := h.numbers
    exact {
      evicted := h.evicted
      replicaCount := h.replicaCount
      times := h.times
      pool := by rw [hpool]; rfl
      messagesMax := h.messagesMax
      ping := h.ping
      calibrated := Timeout.stop_calibrated h.calibrated
      idle := fun _ => rfl
      counting := fun hn => absurd rfl hn
      fresh := fun hzero => absurd (hin.number.trans hzero) (Nat.succ_ne_zero _)
      registered := fun l hl => ⟨(hlimit l hl).elim (fun hle => hle) fun hl => (h.registered l hl).1,
        Nat.lt_of_lt_of_eq (Nat.succ_pos _) hin.number⟩
      parent := fun _ => (contextAfter_append (c := ⟨inflight, reply, body⟩)).symm
      inflight := fun _ hn => absurd hn.symm (Option.some_ne_none _)
      sent := fun request hm =>
        { h.sent request hm with inflight := fun _ hn => absurd hn.symm (Option.some_ne_none _) }
      numbers := by
        rw [← hnumbers, records, records]
        simp
      linked := h.linked.append hin.parent
      answered := fun c hc => by
        rcases List.mem_append.mp hc with hc | hc
        · exact h.answered c hc
        · obtain rfl := List.mem_singleton.mp hc
          exact hr }
  · rw [records, records]
    simp

end Client

end TigerBeetle.ClientSide
