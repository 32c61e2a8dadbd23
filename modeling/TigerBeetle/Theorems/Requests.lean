import TigerBeetle.Theorems.Log

namespace TigerBeetle

open Fallible Fault

theorem Request.register_of_valid {request : Request} (h : request.invalidHeader = none)
    (hop : request.operation = .register) : request.client ≠ 0 ∧ request.request = 0 := by
  unfold invalidHeader at h
  grind

namespace Replica

variable {E : Fault → Prop} {r : Replica} {request : Request} {body : Body}

-- A request that the primary does not ignore: it is the next one of a session, or it does not need
-- one.
structure Admits (r : Replica) (request : Request) : Prop where
  release : request.release = releaseMinimum
  follows : (∃ entry ∈ r.clientSessions.get request.client,
      (request.operation = .register ∨ request.session = entry.session) ∧
      request.request = entry.header.request + 1 ∧ request.parent = entry.header.context) ∨
    r.clientSessions.get request.client = none ∧
      (request.operation = .register ∨ request.client = 0)

section

variable {Q : Replica → Prop} (he : Lenient E) (h : ∀ clientSendQueue, Q { r with clientSendQueue })

include he h

theorem sendEvictionMessageToClient_meets {client : Nat} {reason : Reason} :
    Meets E Q (r.sendEvictionMessageToClient client reason) := by
  unfold sendEvictionMessageToClient
  simp only [Meets.bind_eq, he.assert_eq, Meets.pure_eq]
  exact fun _ _ => h _

theorem onRequestRepeatReply_meets [Env] {reply : Reply} :
    Meets E Q (r.onRequestRepeatReply request reply) := by
  unfold onRequestRepeatReply
  simp only [Meets.bind_eq, Meets.ite_iff, he.assert_eq, Meets.pure_eq]
  exact fun _ _ _ => ⟨fun _ => sendReplyMessageToClient_meets he h, fun _ => h r.clientSendQueue⟩

end

section

variable [Env] {Q : Bool × Replica → Prop} (he : Lenient E)
  (ignore : ∀ clientSendQueue, Q (true, { r with clientSendQueue }))

include he ignore

theorem ignoreRequestOfSession_meets {entry : Entry}
    (accept : (request.operation = .register ∨ request.session = entry.session) →
      request.request = entry.header.request + 1 → request.parent = entry.header.context →
      Q (false, r)) :
    Meets E Q (r.ignoreRequestOfSession request entry) := by
  unfold ignoreRequestOfSession
  simp only [Meets.bind_eq, Meets.ite_iff, he.assert_eq, Meets.pure_eq]
  intro _
  refine ⟨fun _ => ?_, fun hlow => ⟨fun _ => ?_, fun hhigh => ⟨fun _ => ?_, fun _ => ⟨fun _ => ?_,
    fun _ => ⟨fun _ => ⟨fun _ _ => ?_, fun _ => ?_⟩, fun _ => ⟨fun hn => ?_, fun _ => ?_⟩⟩⟩⟩⟩⟩
  · exact sendEvictionMessageToClient_meets he ignore
  · exact ignore r.clientSendQueue
  · exact sendEvictionMessageToClient_meets he ignore
  · exact ignore r.clientSendQueue
  · exact onRequestRepeatReply_meets he ignore
  · exact ignore r.clientSendQueue
  · by_cases hp : request.parent = entry.header.context
    · have hs : request.operation = .register ∨ request.session = entry.session := by
        grind
      simpa [hp] using accept hs hn.symm hp
    · simpa [hp] using ignore r.clientSendQueue
  · exact ignore r.clientSendQueue

theorem ignoreRequestMessage_meets (accept : r.Admits request → Q (false, r)) :
    Meets E Q (r.ignoreRequestMessage request) := by
  unfold ignoreRequestMessage
  simp only [Meets.bind_eq, Meets.ite_iff, Meets.pure_eq]
  refine ⟨fun _ => ?_, fun _ => ⟨fun _ => ?_, fun hlow => ⟨fun _ => ?_, fun hhigh => ⟨fun _ => ?_,
    fun _ => ?_⟩⟩⟩⟩
  · exact ignore r.clientSendQueue
  · exact sendEvictionMessageToClient_meets he ignore
  · exact sendEvictionMessageToClient_meets he ignore
  · exact sendEvictionMessageToClient_meets he ignore
  · have hrelease : request.release = releaseMinimum := by omega
    cases hg : r.clientSessions.get request.client with
    | some entry =>
      refine ignoreRequestOfSession_meets he ignore fun hs hn hp => ?_
      exact accept ⟨hrelease, .inl ⟨entry, hg, hs, hn, hp⟩⟩
    | none =>
      simp only [Meets.bind_eq, Meets.ite_iff, he.assert_eq, Meets.pure_eq]
      refine ⟨fun hop => accept ⟨hrelease, .inr ⟨hg, .inl hop⟩⟩, fun _ => ⟨fun _ => ?_, fun _ =>
        ⟨fun hc _ => accept ⟨hrelease, .inr ⟨hg, .inr hc⟩⟩, fun _ => ?_⟩⟩⟩
      · exact ignore r.clientSendQueue
      · exact sendEvictionMessageToClient_meets he ignore

end

theorem onRequest_meets [Env] {Q : Replica → Prop} (he : Lenient E)
    (ignore : ∀ clientSendQueue, Q { r with clientSendQueue })
    (enqueue : request.invalidHeader = none → r.Admits request → r.pipelineQueue.prepareQueueFull →
      Q (r.pushRequest request body))
    (prepare : request.invalidHeader = none → r.Admits request → ¬r.pipelineQueue.prepareQueueFull →
      Meets E (fun out => out.1.toBool → Q out.2) (r.primaryPipelinePrepare request.client
        request.request request.operation body request.checksum)) :
    Meets E Q (r.onRequest request body) := by
  unfold onRequest
  simp only [Meets.bind_eq, Meets.ite_iff, Meets.pure_eq]
  refine ⟨fun _ => ignore r.clientSendQueue, fun hn => ?_⟩
  have hvalid : request.invalidHeader = none := by simp_all
  refine ignoreRequestMessage_meets he (fun _ => ?ignored) fun ha => ?admitted
  case ignored => exact ⟨fun _ => ignore _, fun h => absurd rfl h⟩
  case admitted =>
    refine ⟨fun h => (by cases h), fun _ => ?_⟩
    simp only [he.assert_eq]
    exact fun _ => ⟨enqueue hvalid ha, prepare hvalid ha⟩

end Replica

end TigerBeetle
