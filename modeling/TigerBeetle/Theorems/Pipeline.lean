import TigerBeetle.Theorems.ViewChange

namespace TigerBeetle

-- The part of a pipeline entry that acknowledgements do not change.
def PipelinePrepare.core (prepare : PipelinePrepare) : PipelinePrepare :=
  { prepare with checksum := 0, acksReceived := 0, okQuorumReceived := false }

theorem PipelinePrepare.map_congr {α : Type} {f : PipelinePrepare → α}
    (hf : ∀ prepare, f prepare.core = f prepare) {l l' : List PipelinePrepare}
    (h : l.map core = l'.map core) : l.map f = l'.map f := by
  have hmap (l : List PipelinePrepare) : l.map f = (l.map core).map f := by simp [hf]
  rw [hmap l, hmap l', h]

namespace Replica

open Fallible Fault

-- The outcomes of preparing, acknowledging and committing.

variable {E : Fault → Prop} {r : Replica}

theorem map_set {α β : Type} {f : α → β} {l : List α} {slot : Nat} {x y : α}
    (h : l[slot]? = some x) (he : f y = f x) : (l.set slot y).map f = l.map f := by
  refine List.ext_getElem? fun i => ?_
  rw [List.getElem?_map, List.getElem?_map, List.getElem?_set]
  split
  case isTrue hi =>
    subst hi
    rw [if_pos (List.getElem?_eq_some_iff.mp h).1, h, Option.map_some, Option.map_some, he]
  case isFalse => rfl

section

variable {op checksum checkpointId commitMin replica : Nat} {Q : PrepareOkResult × Replica → Prop}

theorem onPrepareOk_meets (he : Lenient E)
    (diverged : ∀ prepare ∈ r.pipelineQueue.prepareQueue, prepare.op = op →
      (prepare.checkpointId = checkpointId →
        ∃ id, r.checkpointIdForOp op = some id ∧ prepare.checkpointId ≠ id) →
      ∀ message, E (.panic .checkpoint message))
    (ignored : ¬(r.isPrimary ∧ r.status = .normal) → Q (.ignored, r))
    (unknown : r.isPrimary ∧ r.status = .normal →
      (∀ prepare ∈ r.pipelineQueue.prepareQueue, prepare.op ≠ op) →
      Q (.unknownOp, r.trackProgress op commitMin replica))
    (mismatch : r.isPrimary ∧ r.status = .normal → replica < r.replicaCount →
      ∀ prepare ∈ r.pipelineQueue.prepareQueue, prepare.op = op → prepare.checksum ≠ checksum →
      Q (.checksumMismatch, r.trackProgress op commitMin replica))
    (count : r.isPrimary ∧ r.status = .normal → replica < r.replicaCount → replica < 64 →
      ∀ slot prepare acks, r.pipelineQueue.prepareQueue[slot]? = some prepare →
      r.okFromAllReplicas[slot]? = some acks → prepare.op = op →
      (prepare.checksum ≠ 0 → prepare.checksum = checksum) →
      Q ((r.trackProgress op commitMin replica).countAck slot prepare acks checksum commitMin
        replica)) :
    Meets E Q (r.onPrepareOk op checksum checkpointId commitMin replica) := by
  unfold onPrepareOk
  simp only [Meets.ite_iff, Meets.pure_eq, Meets.bind_eq, he.assert_eq]
  refine ⟨fun hp => ignored (by simp_all), fun hp => ⟨fun hs => ignored fun h => hs h.2, ?_⟩⟩
  intro hs hr
  have hp : r.isPrimary ∧ r.status = .normal := by simp_all
  have queue : (r.trackProgress op commitMin replica).pipelineQueue = r.pipelineQueue := rfl
  rw [queue]
  cases hslot : r.pipelineQueue.prepareQueue.findIdx? (·.op = op) with
  | none =>
    refine unknown hp fun prepare hm => ?_
    simpa using List.findIdx?_eq_none_iff.mp hslot prepare hm
  | some slot =>
    have ⟨hlt, hop, _⟩ := List.findIdx?_eq_some_iff_getElem.mp hslot
    have hop : r.pipelineQueue.prepareQueue[slot].op = op := by simpa using hop
    have hget := List.getElem?_eq_getElem hlt
    dsimp only
    rw [hget]
    generalize r.pipelineQueue.prepareQueue[slot] = prepare at hget hop
    simp only [Meets.ite_iff, Meets.pure_eq, Meets.bind_eq]
    refine ⟨fun ⟨_, hne⟩ => mismatch hp hr _ (List.mem_of_getElem? hget) hop hne, fun heq => ?_⟩
    rw [meets_assertOn]
    refine ⟨fun _ => ?_, fun hne =>
      diverged _ (List.mem_of_getElem? hget) hop (fun he => absurd he hne) _⟩
    cases hid : (r.trackProgress op commitMin replica).checkpointIdForOp op with
    | none => exact he.general _
    | some expected =>
      simp only [Meets.bind_eq, meets_assert_eq, meets_assertOn_eq, he.general, implies_true, and_true]
      refine ⟨fun _ h64 => ?_, fun hne =>
        diverged _ (List.mem_of_getElem? hget) hop (fun _ => ⟨_, hid, hne⟩) _⟩
      cases hacks : (r.trackProgress op commitMin replica).okFromAllReplicas[slot]? with
      | none => exact he.general _
      | some acks => exact count hp hr h64 _ _ _ hget hacks hop (by simpa using heq)

theorem onPrepareOk_frame (he : Careless E)
    (h : ∀ result prepareQueue okFromAllReplicas commitMins headOps timeouts,
      prepareQueue.map PipelinePrepare.core = r.pipelineQueue.prepareQueue.map .core →
      okFromAllReplicas.length = r.okFromAllReplicas.length →
      Q (result, { r with
        pipelineQueue.prepareQueue := prepareQueue
        okFromAllReplicas, commitMins, headOps, timeouts })) :
    Meets E Q (r.onPrepareOk op checksum checkpointId commitMin replica) := by
  refine onPrepareOk_meets he.toLenient (fun _ _ _ _ => he.checkpoint) ?ignored ?unknown ?mismatch
    ?count
  case ignored => exact fun _ => h _ _ _ r.commitMins r.headOps r.timeouts rfl rfl
  case unknown => exact fun _ _ => h _ _ _ _ _ r.timeouts rfl rfl
  case mismatch => exact fun _ _ _ _ _ _ => h _ _ _ _ _ r.timeouts rfl rfl
  case count =>
    intro _ _ _ slot prepare _ hs _ _ _
    have hset (prepare' : PipelinePrepare) (he : prepare'.core = prepare.core) :
        (r.pipelineQueue.prepareQueue.set slot prepare').map PipelinePrepare.core =
          r.pipelineQueue.prepareQueue.map .core :=
      map_set hs he
    unfold countAck
    dsimp only
    split
    case isTrue => exact h _ _ _ _ _ r.timeouts (hset _ rfl) rfl
    case isFalse =>
      split
      case isTrue => exact h _ _ _ _ _ _ (hset _ rfl) List.length_set
      case isFalse => exact h _ _ _ _ _ r.timeouts (hset _ rfl) List.length_set

end

-- What the acknowledgements of the survivors leave as it is.
theorem acknowledgeSurvivors_frame {prepares : List PipelinePrepare} {Q : Replica → Prop}
    (he : Careless E) (hq : ∀ message, E (.panic .quorum message))
    (h : ∀ prepareQueue okFromAllReplicas commitMins headOps timeouts,
      prepareQueue.map PipelinePrepare.core = r.pipelineQueue.prepareQueue.map .core →
      Q { r with
        pipelineQueue.prepareQueue := prepareQueue
        okFromAllReplicas, commitMins, headOps, timeouts }) :
    Meets E Q (acknowledgeSurvivors prepares r) := by
  induction prepares generalizing r with
  | nil => exact h _ _ r.commitMins r.headOps r.timeouts rfl
  | cons prepare prepares ih =>
    unfold acknowledgeSurvivors
    simp only [Meets.bind_eq, meets_assertOn_eq, hq, implies_true, and_true]
    refine onPrepareOk_frame he fun _ _ _ _ _ _ hcore _ _ => ih fun _ _ _ _ _ hcore' => ?_
    exact h _ _ _ _ _ (hcore'.trans hcore)

theorem onPrepare_meets {header : Prepare} {Q : OnPrepareResult × Replica → Prop} (he : Lenient E)
    (diverged : r.status = .normal → r.op < header.op → header.op ≤ r.opPrepareMaxSync →
      header.checkpointId ≠ r.checkpointId → header.checkpointId ≠ r.parentCheckpointId →
      ∀ message, E (.panic .checkpoint message))
    (stale : header.op ≤ r.op → Q (.stale, r)) (future : r.op + 1 < header.op → Q (.futureOp, r))
    (accepted : ∀ journal, header.op = r.op + 1 → r.journal.setHeaderAsDirty header = .ok journal →
      Q (.accepted, { r with op := header.op, journal })) :
    Meets E Q (r.onPrepare header) := by
  unfold onPrepare
  simp only [Meets.ite_iff, Meets.pure_eq, Meets.bind_eq, meets_assert_eq, meets_assertOn_eq,
    he.general, implies_true, and_true]
  intro hs _ _ _ _ _
  refine ⟨stale, fun hlt => ⟨fun _ => ⟨future, fun _ hop _ => ?_⟩, fun hn => ?diverged⟩⟩
  case diverged =>
    obtain ⟨hmax, hne, hne'⟩ := not_not.mp hn
    exact diverged hs (not_le.mp hlt) hmax hne hne' _
  exact he.meets Journal.setHeaderAsDirty_unwatched fun journal hj => accepted journal hop hj

theorem opCheckpointNext_unwatched : Unwatched r.opCheckpointNext := by
  unfold Unwatched opCheckpointNext
  simp only [Meets.bind_eq, meets_assert_eq, Meets.pure_eq,
    Lenient.unspecific.general, implies_true, and_true]

theorem prepareCheckpointId_unwatched : Unwatched r.prepareCheckpointId := by
  unfold Unwatched prepareCheckpointId
  simp only [Meets.bind_eq, Meets.ite_iff, Meets.pure_eq, implies_true, and_true]
  exact opCheckpointNext_unwatched

theorem prepareCheckpointId_known {id : Nat} (h : r.prepareCheckpointId = .ok id) :
    id = r.checkpointId ∨ id = r.parentCheckpointId := by
  have hmeets : Meets (fun _ => True)
      (fun id => id = r.checkpointId ∨ id = r.parentCheckpointId) r.prepareCheckpointId := by
    unfold prepareCheckpointId
    simp only [Meets.bind_eq, Meets.ite_iff, Meets.pure_eq]
    exact Meets.iff_forall.mpr fun _ _ => ⟨fun _ => .inr trivial, fun _ => .inl trivial⟩
  exact hmeets.post h

theorem prepareReject_eq_none : r.prepareReject = none ↔
    (r.isPrimary ∧ r.status = .normal) ∧ r.commitMin = r.commitMax ∧
      r.pipelineQueue.prepareQueue.length < pipelineLimit := by
  unfold prepareReject
  grind

variable (r) in
theorem startPipelineTimeouts_eq : ∃ timeouts, r.startPipelineTimeouts = { r with timeouts } := by
  unfold startPipelineTimeouts
  split
  case isTrue  => exact ⟨_, rfl⟩
  case isFalse => exact ⟨r.timeouts, rfl⟩

variable [Env]

theorem primaryPrepareBody_unwatched {operation : Operation} {body : Body} :
    Unwatched (primaryPrepareBody operation body) := by
  unfold Unwatched primaryPrepareBody primaryPrepareReconfiguration
  simp only [Meets.ite_iff, Meets.pure_eq, implies_true, and_true, true_and]
  intro _ _
  cases Env.reconfigure body with
  | none   => exact rfl
  | some _ => trivial

section

variable {client request requestChecksum : Nat} {operation : Operation} {body : Body}
  {Q : Except PrepareReject Nat × Replica → Prop}

theorem primaryPipelinePrepare_meets (he : Lenient E)
    (reject : ∀ reason, r.prepareReject = some reason → Q (.error reason, r))
    (accept : ∀ timestamp checkpointId body' header journal,
      r.prepareReject = none → timestamp = max r.prepareTimestamp r.commitMax + 1 →
      r.prepareCheckpointId = .ok checkpointId → primaryPrepareBody operation body = .ok body' →
      header = r.prepareHeader client request operation body' requestChecksum checkpointId
        timestamp →
      (do (← r.journal.setHeaderAsDirty header).setPrepareBody header.op body') = .ok journal →
      Meets E
        (fun (result, r') => result.acknowledged →
          Q (.ok header.op, r'.startPipelineTimeouts.broadcast (.prepare header body')))
        (({ r with prepareTimestamp := timestamp, op := header.op, journal }.pushPrepare header
          body').onPrepareOk header.op header.checksum header.checkpointId r.commitMin
          r.replicaIndex)) :
    Meets E Q (r.primaryPipelinePrepare client request operation body requestChecksum) := by
  unfold primaryPipelinePrepare
  split
  case h_1 reason hreject => exact reject reason hreject
  case h_2 hreject =>
    simp only [Meets.bind_eq, he.assert_eq]
    intro _ _
    refine he.meets prepareCheckpointId_unwatched fun checkpointId hcheckpoint => ?_
    refine he.meets primaryPrepareBody_unwatched fun body' hbody => ?_
    refine onPrepare_meets he ?diverged ?stale ?future ?accepted
    case diverged =>
      intro _ _ _ hne hne'
      exact (prepareCheckpointId_known hcheckpoint).elim (absurd · hne) (absurd · hne')
    case stale => simp
    case future => simp
    case accepted =>
      intro journal hop hj _
      refine he.meets Journal.setPrepareBody_unwatched fun journal' hj' => ?_
      refine (accept _ checkpointId body' _ journal' hreject rfl hcheckpoint hbody rfl ?_).weaken ?_
      · exact bind_eq_ok.mpr ⟨journal, hj, hj'⟩
      · exact fun _ hq ha => hq ha

end

section

variable {op : Nat} {Q : Replica → Prop}

omit [Env] in
theorem commitOp_meets (he : Lenient E)
    (h : ∀ journal, op ≤ r.op → r.commitMin < op → journal.headers = r.journal.headers →
      journal.prepareBodies = r.journal.prepareBodies →
      Q { r with commitMin := op, commitMax := max r.commitMax op, journal }) :
    Meets E Q (r.commitOp op) := by
  unfold commitOp
  simp only [Meets.bind_eq, he.assert_eq, advanceCommitMax_eq]
  intro hle hlt
  split
  case h_1 => exact h _ hle hlt rfl rfl
  case h_2 => exact h r.journal hle hlt rfl rfl

end

end Replica

end TigerBeetle
