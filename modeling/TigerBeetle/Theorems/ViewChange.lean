import TigerBeetle.Replica.Messages
import TigerBeetle.Theorems.Journal

namespace TigerBeetle

open Fallible Fault

-- The updates of the superblock fail no watched assertion.

variable {headers : List Prepare} {command : ViewChangeCommand} {header : Prepare}

namespace ViewChangeHeaders

variable [Env]

theorem jvHeaderType_unwatched : Unwatched (jvHeaderType header) := by
  unfold Unwatched jvHeaderType
  simp only [Meets.ite_iff, Meets.bind_eq, meets_assert_eq, Meets.pure_eq,
    Lenient.unspecific.general, implies_true, and_true]

theorem verifyFrom_unwatched {headOp index : Nat} {child : Prepare} : Unwatched
    (verifyFrom command headOp child index headers) := by
  induction headers generalizing child index with
  | nil => trivial
  | cons header headers ih =>
    unfold Unwatched verifyFrom
    simp only [Meets.ite_iff, Meets.bind_eq, unwatched_assert]
    intro _
    constructor
    all_goals
      intros
      refine jvHeaderType_unwatched.weaken fun type _ => ?_
      cases type with
      | blank => exact ih
      | valid =>
        simp only [Meets.ite_iff, Meets.bind_eq, unwatched_assert]
        exact fun _ _ => ⟨fun _ _ => ih, fun _ => ih⟩

theorem verify_unwatched : Unwatched (verify command headers) := by
  unfold Unwatched verify
  cases headers with
  | nil => exact rfl
  | cons head headers =>
    simp only [List.head?_cons, Meets.bind_eq, unwatched_assert]
    exact fun _ => jvHeaderType_unwatched.weaken fun _ _ _ => verifyFrom_unwatched

end ViewChangeHeaders

theorem VsrState.monotonic_unwatched {old new : VsrState} : Unwatched (old.monotonic new) := by
  unfold Unwatched monotonic assertInternallyConsistent
  simp only [Meets.ite_iff, Meets.bind_eq, unwatched_assert, implies_true, and_true]

variable {superblock : SuperBlock}

theorem SuperBlock.acquire_unwatched {caller : Caller} {state : VsrState} :
    Unwatched (superblock.acquire caller state) := by
  unfold Unwatched acquire
  split
  case h_1 => trivial
  case h_2 =>
    simp only [Meets.bind_eq, meets_assert_eq, Meets.pure_eq,
      Lenient.unspecific.general, implies_true, and_true]
  case h_3 => exact rfl

theorem SuperBlock.checkpoint_unwatched [Env]
    {op : Checkpoint} {commitMax : Nat} : Unwatched (superblock.checkpoint header op commitMax) := by
  unfold Unwatched checkpoint
  simp only [Meets.bind_eq, unwatched_assert]
  refine fun _ _ _ _ => VsrState.monotonic_unwatched.weaken fun _ _ => ?_
  exact acquire_unwatched

theorem SuperBlock.viewChange_unwatched [Env] {commitMax logView view : Nat} :
    Unwatched (superblock.viewChange commitMax logView view command headers) := by
  unfold Unwatched viewChange
  simp only [Meets.bind_eq, unwatched_assert]
  refine ViewChangeHeaders.verify_unwatched.weaken fun _ _ => ?_
  intros
  exact VsrState.monotonic_unwatched.weaken fun _ _ => SuperBlock.acquire_unwatched

namespace Replica

-- What the handlers of a view change leave as it is: the outcome of each handler is the replica
-- that it started from, except for the fields that are listed here.

variable {E : Fault → Prop} {Q : Replica → Prop} {r : Replica}

theorem primaryReceiveJoinView_meets {joinView : JoinView} (he : Lenient E)
    (h : ∀ joinViewFromAllReplicas, Q { r with joinViewFromAllReplicas }) :
    Meets E Q (r.primaryReceiveJoinView joinView headers) := by
  unfold primaryReceiveJoinView
  split
  case h_2 => exact he.general _
  case h_1 =>
    simp only [Meets.ite_iff, Meets.pure_eq]
    exact ⟨fun _ => h _, fun _ => h r.joinViewFromAllReplicas⟩

variable [Env]

theorem viewDurableUpdate_meets (he : Lenient E) (h : ∀ superblock, Q { r with superblock }) :
    Meets E Q r.viewDurableUpdate := by
  unfold viewDurableUpdate
  split
  case h_2 => exact h r.superblock
  case h_1 =>
    simp only [Meets.bind_eq, he.assert_eq]
    intros
    split
    case h_2 => exact he.general _
    case h_1 =>
      simp only [Meets.bind_eq, he.assert_eq, Meets.ite_iff, Meets.pure_eq]
      intros
      refine ⟨fun _ => h r.superblock, fun _ => ?_⟩
      exact he.meets SuperBlock.viewChange_unwatched fun superblock _ => h superblock

theorem journalHeaderOrRoot_unwatched {op : Nat} : Unwatched (r.journalHeaderOrRoot op) := by
  unfold Unwatched journalHeaderOrRoot
  split
  case h_1 => trivial
  case h_2 =>
    simp only [Meets.bind_eq, meets_assert_eq, Meets.pure_eq,
      Lenient.unspecific.general, implies_true, and_true]

theorem joinViewHeadersFrom_unwatched {op : Nat} : Unwatched (r.joinViewHeadersFrom op) := by
  induction op with
  | zero => exact Meets.bind_iff.mpr <| journalHeaderOrRoot_unwatched.weaken fun _ _ => trivial
  | succ op ih =>
    unfold Unwatched joinViewHeadersFrom
    split
    case h_1 => exact rfl
    case h_2 =>
      simp only [Meets.ite_iff, Meets.pure_eq, implies_true, Meets.bind_eq, true_and]
      exact fun _ => ih

theorem updateJoinViewHeaders_meets (he : Lenient E)
    (h : ∀ joinViewHeaders, Q { r with joinViewHeaders }) : Meets E Q r.updateJoinViewHeaders := by
  unfold updateJoinViewHeaders
  simp only [Meets.bind_eq, he.assert_eq, Meets.pure_eq]
  intros
  exact he.meets joinViewHeadersFrom_unwatched fun headers _ _ _ => h headers

omit [Env] in
theorem isPresent_unwatched : Unwatched (r.isPresent header) := by
  unfold Unwatched isPresent
  dsimp only
  split
  case h_1 => trivial
  case h_2 =>
    simp only [Meets.ite_iff, Meets.bind_eq, meets_assert_eq, Meets.pure_eq,
      Lenient.unspecific.general, implies_true, and_true]

omit [Env] in
theorem joinViewBitsets_unwatched {index : Nat} : Unwatched (r.joinViewBitsets index headers) := by
  induction headers generalizing index with
  | nil => trivial
  | cons header headers ih =>
    unfold Unwatched joinViewBitsets
    simp only [Meets.bind_eq, meets_assert_eq, Meets.pure_eq,
      Lenient.unspecific.general, implies_true, and_true]
    exact fun _ => isPresent_unwatched.weaken fun _ _ => ih

omit [Env] in
theorem sendJoinView_meets (he : Lenient E)
    (h : ∀ sendQueue joinViewFromAllReplicas, Q { r with sendQueue, joinViewFromAllReplicas }) :
    Meets E Q r.sendJoinView := by
  unfold sendJoinView
  simp only [Meets.bind_eq, he.assert_eq]
  intros
  split
  case h_2 => exact he.general _
  case h_1 =>
    simp only [Meets.bind_eq]
    refine he.meets joinViewBitsets_unwatched fun _ _ => ?_
    simp only [Meets.ite_iff, Meets.pure_eq]
    exact ⟨fun _ => primaryReceiveJoinView_meets he fun _ => h _ _, fun _ => h _ _⟩

variable {viewNew : Nat}

theorem transitionToViewChangeStatus_meets (he : Lenient E)
    (h : ∀ joinViewHeaders superblock timeouts sendQueue joinViewFromAllReplicas,
      r.view < viewNew → Q { r with
        status := .viewChange
        view := viewNew
        exitViewFromAllReplicas := 0
        joinViewQuorum := false
        pipelineQueue := .empty
        okFromAllReplicas := []
        primaryAbdicating := false
        joinViewHeaders, superblock, timeouts, sendQueue, joinViewFromAllReplicas }) :
    Meets E Q (r.transitionToViewChangeStatus viewNew) := by
  unfold transitionToViewChangeStatus
  simp only [Meets.bind_eq, he.assert_eq]
  intro hv
  split
  all_goals simp only [Meets.bind_eq, Meets.pure_eq]
  case isTrue =>
    refine updateJoinViewHeaders_meets he fun _ => ?_
    refine viewDurableUpdate_meets he fun _ => ?_
    exact sendJoinView_meets he fun _ _ => h _ _ _ _ _ hv
  case isFalse =>
    refine viewDurableUpdate_meets he fun _ => ?_
    exact sendJoinView_meets he fun _ _ => h r.joinViewHeaders _ _ _ _ hv

theorem becomePrimary_meets (he : Lenient E)
    (h : r.view = viewNew → r.commitMin = r.commitMax → ∀ superblock timeouts,
      Q { r with view := viewNew, logView := viewNew, superblock, timeouts }) :
    Meets E Q (r.becomePrimary viewNew) := by
  unfold becomePrimary
  simp only [Meets.bind_eq, he.assert_eq]
  intro hv hl hc _
  refine viewDurableUpdate_meets he fun _ => ?_
  rw [hv, hl]
  exact h hv hc _ _

theorem becomeBackup_meets (he : Lenient E)
    (h : ∀ superblock timeouts, Q { r with view := viewNew, logView := viewNew, superblock, timeouts }) :
    Meets E Q (r.becomeBackup viewNew) := by
  unfold becomeBackup
  simp only [Meets.bind_eq]
  refine viewDurableUpdate_meets he fun _ => ?_
  simp only [he.assert_eq]
  exact fun _ _ => h _ _

theorem transitionToNormalFromViewChangeStatus_meets {now : Nat} (he : Lenient E)
    (h : ∀ commitFault superblock timeouts, r.op - pipelinePrepareQueueMax ≤ r.commitMax →
      (r.isPrimary → r.view = viewNew) → Q { r with
      status := .normal
      view := viewNew
      logView := viewNew
      commitMins := fun _ => 0
      headOps := fun _ => 0
      heartbeatTimestamp := 0
      exitViewFromAllReplicas := 0
      joinViewFromAllReplicas := List.replicate replicasMax none
      joinViewQuorum := false
      commitFault, superblock, timeouts }) :
    Meets E Q (r.transitionToNormalFromViewChangeStatus viewNew now) := by
  unfold transitionToNormalFromViewChangeStatus FaultDetector.reset
  simp only [Meets.bind_eq, he.assert_eq, Meets.pure_eq]
  intro _ hop _ _ _ _ _ _
  split
  all_goals simp only [Meets.bind_eq, Meets.pure_eq]
  case isTrue => exact becomePrimary_meets he fun hv _ _ _ => h _ _ _ hop fun _ => hv
  case isFalse hp => exact becomeBackup_meets he fun _ _ => h _ _ _ hop fun hp' => absurd hp' hp

-- The new primary checks that its journal is complete, and loads what is left of the last view.

omit [Env] in
theorem validHashChainFrom_unwatched {opMin count : Nat} {b : Prepare} :
    Unwatched (r.validHashChainFrom opMin count b) := by
  induction count generalizing b with
  | zero => trivial
  | succ count ih =>
    unfold Unwatched validHashChainFrom
    cases r.journal.headerWithOp (opMin + count) with
    | none => trivial
    | some a =>
      simp only [Meets.bind_eq, Meets.ite_iff, meets_assert_eq, Meets.pure_eq,
        Lenient.unspecific.general, implies_true, and_true, true_and]
      exact fun _ _ _ => ih

omit [Env] in
theorem validHashChainBetween_unwatched {opMin opMax : Nat} :
    Unwatched (r.validHashChainBetween opMin opMax) := by
  unfold Unwatched validHashChainBetween
  simp only [Meets.bind_eq, unwatched_assert]
  intros
  cases r.journal.headerWithOp opMax with
  | none   => trivial
  | some b => exact validHashChainFrom_unwatched

omit [Env] in
theorem preparesWritten_unwatched {count op : Nat} : Unwatched (r.preparesWritten count op) := by
  induction count generalizing op with
  | zero => trivial
  | succ count ih =>
    unfold Unwatched preparesWritten
    cases r.journal.headerWithOp op with
    | none => exact rfl
    | some header =>
      simp only [Meets.ite_iff, Meets.pure_eq, implies_true, true_and]
      exact fun _ => ih

omit [Env] in
theorem primaryJournalRepaired_unwatched : Unwatched r.primaryJournalRepaired := by
  unfold Unwatched primaryJournalRepaired primaryJournalHeadersRepaired
    primaryJournalPreparesRepaired
  simp only [Meets.bind_eq, Meets.ite_iff, meets_assert_eq, Meets.pure_eq,
    Lenient.unspecific.general, implies_true, and_true]
  intro _ _ _ _
  exact validHashChainBetween_unwatched.weaken fun _ _ _ _ _ _ _ => preparesWritten_unwatched

omit [Env] in
theorem committedAnchor_unwatched : Unwatched r.committedAnchor := by
  unfold Unwatched committedAnchor
  cases r.journal.headerWithOp r.commitMax with
  | some header => trivial
  | none =>
    simp only [Meets.bind_eq, meets_assert_eq, Meets.pure_eq,
      Lenient.unspecific.general, implies_true, and_true]

omit [Env] in
theorem loadSurvivors_meets {count op parent : Nat} (he : Lenient E)
    (h : ∀ prepares, prepares.map (·.op) = List.range' op count →
      (∀ prepare ∈ prepares, ∃ header, r.journal.headerWithOp prepare.op = some header ∧
        prepare = .ofPrepare header ((r.journal.bodyWithOp prepare.op).getD [])) →
      Q { r with
        pipelineQueue.prepareQueue := r.pipelineQueue.prepareQueue ++ prepares
        okFromAllReplicas := r.okFromAllReplicas ++ List.replicate count 0 }) :
    Meets E Q (loadSurvivors count op parent r) := by
  induction count generalizing op parent r with
  | zero => simpa [loadSurvivors] using h [] rfl
  | succ count ih =>
    unfold loadSurvivors
    cases hh : r.journal.headerWithOp op with
    | none => exact he.general _
    | some header =>
      have hop := Journal.op_of_headerWithOp hh
      simp only [Meets.bind_eq, he.assert_eq]
      intros
      refine ih fun prepares hops hall => ?_
      have hq := h (.ofPrepare header ((r.journal.bodyWithOp op).getD []) :: prepares) ?ops ?all
      case ops => simp [PipelinePrepare.ofPrepare, hop, hops, List.range'_succ]
      case all =>
        simp only [List.mem_cons, forall_eq_or_imp]
        refine ⟨⟨header, ?_, ?_⟩, hall⟩
        all_goals simp [PipelinePrepare.ofPrepare, hop, hh]
      simpa [pushPrepare, List.replicate_succ] using hq

end Replica

end TigerBeetle
