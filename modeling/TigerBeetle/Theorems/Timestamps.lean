import TigerBeetle.Machine
import TigerBeetle.Theorems.Log

namespace TigerBeetle

open Fallible Fault StateMachine

-- The timestamps of all events of a log.
def timestamps (log : List (Prepare × Body)) : List Int :=
  log.flatMap fun (prepare, body) => eventTimestamps prepare body

def lastTimestamp (log : List (Prepare × Body)) : Int :=
  (timestamps log).getLast?.getD 0

structure Increasing (timestamps : List Int) : Prop where
  positive : ∀ timestamp ∈ timestamps, 0 < timestamp
  increase : timestamps.Pairwise (· < ·)

section

variable {log log' : List (Prepare × Body)} {prepare : Prepare} {body : Body}

theorem mem_eventTimestamps {timestamp : Int} : timestamp ∈ eventTimestamps prepare body ↔
    prepare.timestamp - eventCount prepare.operation body < timestamp ∧
      timestamp ≤ prepare.timestamp := by
  simp only [eventTimestamps, timestampEvent, List.mem_map, List.mem_range]
  constructor
  · rintro ⟨index, hlt, rfl⟩
    omega
  · rintro ⟨hlt, hle⟩
    refine ⟨(timestamp - prepare.timestamp + eventCount prepare.operation body - 1).toNat, ?_, ?_⟩
    all_goals omega

theorem pairwise_eventTimestamps : (eventTimestamps prepare body).Pairwise (· < ·) := by
  refine List.pairwise_map.mpr <| List.pairwise_lt_range.imp fun hlt => ?_
  simp only [timestampEvent]
  omega

theorem Increasing.le_lastTimestamp (h : Increasing (timestamps log)) :
    0 ≤ lastTimestamp log ∧ ∀ timestamp ∈ timestamps log, timestamp ≤ lastTimestamp log := by
  obtain ⟨hpos, hinc⟩ := h
  unfold lastTimestamp
  generalize timestamps log = l at hpos hinc
  cases hl : l.getLast? with
  | none => simp [List.getLast?_eq_none_iff.mp hl]
  | some last =>
    obtain ⟨init, rfl⟩ := List.getLast?_eq_some_iff.mp hl
    refine ⟨(hpos last (by simp)).le, fun timestamp hm => ?_⟩
    rcases List.mem_append.mp hm with hm | hm
    · exact ((List.pairwise_append.mp hinc).2.2 timestamp hm last (by simp)).le
    · exact (List.mem_singleton.mp hm).le

theorem Increasing.of_prefix (h : Increasing (timestamps log)) (hp : log' <+: log) :
    Increasing (timestamps log') := by
  obtain ⟨rest, rfl⟩ := hp
  have hsub : List.Sublist (timestamps log') (timestamps (log' ++ rest)) := by
    simp [timestamps]
  exact ⟨fun timestamp hm => h.positive timestamp (hsub.subset hm), h.increase.sublist hsub⟩

theorem increasing_append : Increasing (timestamps (log ++ [(prepare, body)])) ↔
    Increasing (timestamps log) ∧ (eventCount prepare.operation body = 0 ∨
      lastTimestamp log + eventCount prepare.operation body ≤ prepare.timestamp) := by
  have hsplit : timestamps (log ++ [(prepare, body)]) =
      timestamps log ++ eventTimestamps prepare body := by
    simp [timestamps]
  constructor
  case mp =>
    intro h
    refine ⟨h.of_prefix (List.prefix_append ..), or_iff_not_imp_left.mpr fun hn => ?_⟩
    rw [hsplit] at h
    have hfirst : (prepare.timestamp - eventCount prepare.operation body + 1 : Int) ∈
        eventTimestamps prepare body :=
      mem_eventTimestamps.mpr (by omega)
    unfold lastTimestamp
    cases hl : (timestamps log).getLast? with
    | none =>
      have := h.positive _ (List.mem_append_right _ hfirst)
      simp only [Option.getD_none]
      omega
    | some last =>
      have := (List.pairwise_append.mp h.increase).2.2 last (List.mem_of_getLast? hl) _ hfirst
      simp only [Option.getD_some]
      omega
  case mpr =>
    intro ⟨h, hf⟩
    have ⟨hnonneg, hlast⟩ := h.le_lastTimestamp
    have hnew (timestamp : Int) (hm : timestamp ∈ eventTimestamps prepare body) :
        lastTimestamp log < timestamp := by
      have ⟨hlt, hle⟩ := mem_eventTimestamps.mp hm
      omega
    rw [hsplit]
    constructor
    case positive =>
      intro timestamp hm
      rcases List.mem_append.mp hm with hm | hm
      · exact h.positive timestamp hm
      · exact hnonneg.trans_lt (hnew timestamp hm)
    case increase =>
      refine List.pairwise_append.mpr ⟨h.increase, pairwise_eventTimestamps, ?_⟩
      exact fun timestamp hm timestamp' hm' => (hlast timestamp hm).trans_lt (hnew timestamp' hm')

end

namespace Replica

-- A batch that is prepared while the commit number is `commit` has at most as many events as there
-- are timestamps between those of the log and its own.
def Fits (r : Replica) (commit : Nat) (operation : Operation) (body : Body) : Prop :=
  eventCount operation body = 0 ∨
    lastTimestamp r.log + eventCount operation body ≤ max r.prepareTimestamp commit + 1

-- The log of the replica continues that of another one, which ends at its head.
structure Inherits (r' r : Replica) : Prop where
  log : r'.log <+: r.log
  head : ∀ op, r'.op < op → r'.journal.headerWithOp op = none

end Replica

-- A primary that prepares and commits, until another replica takes over.
namespace Preparing

open Replica

inductive Event
  | prepare (client request : Nat) (operation : Operation) (body : Body) (requestChecksum : Nat)
  | enqueue (request : Request) (body : Body)
  | pulseTimeout (now : Nat)
  | commit
  | startView (r : Replica) (now : Nat)

def step [Env] (r : Replica) : Event → Result Replica
  | .prepare client request operation body requestChecksum => do
    let (_, r) ← r.primaryPipelinePrepare client request operation body requestChecksum
    return r
  | .enqueue request body => return r.pushRequest request body
  | .pulseTimeout now => r.onPulseTimeout now
  | .commit => do
    let r ← { r with commitPrepare := some (r.commitMin + 1) }.commitExecute
    return { r with commitPrepare := none }
  | .startView r now => r.primaryStartViewAsTheNewPrimary now

def machine [Env] : Machine Replica Event Fault where
  init := Fresh
  step := step

-- The runs in which new primaries inherit what is not committed.
def Inheriting (r : Replica) : Event → Prop
  | .startView r' _ => r'.Inherits r
  | _               => True

-- The runs in which, besides, no batch has more events than there are timestamps for it.
def Fitting (r : Replica) : Event → Prop
  | .prepare _ _ operation body _ => r.prepareReject = none → r.Fits r.commitMax operation body
  | .commit => ∀ request ∈ r.pipelineQueue.requestQueue.getLast?,
    r.Fits (r.commitMin + 1) request.operation request.body
  | e => Inheriting r e

structure Invariant (r : Replica) : Prop where
  leading : r.Leading
  increasing : Increasing (timestamps r.log)

namespace Invariant

variable {r r' : Replica} {request : PipelineRequest} {header : Prepare} {operation : Operation}
  {body : Body}

theorem init (h : r.Fresh) : Invariant r where
  leading := h.leading
  increasing := h.log_eq ▸ ⟨by simp [timestamps], by simp [timestamps]⟩

theorem of_eq (hi : Invariant r) (hl : r'.Leading) (hlog : r'.log = r.log) : Invariant r' where
  leading := hl
  increasing := hlog ▸ hi.increasing

variable [Env]

-- Only the body of a reconfiguration changes when it is prepared, which has no events.
theorem eventCount_of_primaryPrepareBody {body' : Body}
    (h : primaryPrepareBody operation body = .ok body') :
    eventCount operation body' = eventCount operation body := by
  unfold primaryPrepareBody at h
  split at h
  case isTrue hop => simp [eventCount, hop, Operation.reconfigure, Operation.createAccounts,
    Operation.createTransfers, vsrOperationsReserved]
  case isFalse => rw [Except.ok.inj h]

theorem prepares (hi : Invariant r) (hp : r.Prepares request header body r')
    (hf : r.Fits r.commitMax request.operation request.body) : Invariant r' where
  leading := hp.leading
  increasing := by
    rw [hp.log_eq, increasing_append, hp.operation_eq, hp.timestamp_eq,
      eventCount_of_primaryPrepareBody hp.body_eq]
    exact ⟨hi.increasing, by exact_mod_cast hf⟩

theorem internal (hi : Invariant r) (hr : request.Internal)
    (hp : r.Prepares request header body r') : Invariant r' := by
  refine hi.prepares hp (.inl ?_)
  rcases hr.2.2 with hop | hop
  all_goals simp [eventCount, hop, Operation.pulse, Operation.upgrade, Operation.createAccounts,
    Operation.createTransfers, vsrOperationsReserved]

theorem commit (hi : Invariant r) (hg : Fitting r .commit) :
    Meets (fun _ => True) Invariant (Preparing.step r .commit) := by
  have hl : Leading { r with commitPrepare := some (r.commitMin + 1) } :=
    hi.leading.of_eq hi.leading.primary rfl rfl rfl rfl
  have hcommit : Meets (fun _ => True) Invariant
      { r with commitPrepare := some (r.commitMin + 1) }.commitExecute := by
    refine commit_meets (T := fun _ _ => True) .all hl (fun _ => leading) ?table ?execute
      (fun _ _ _ _ _ => internal) ?pop
    case table =>
      intro _ _ _ _ _ _ _
      exact updateClientTable_meets .all (fun _ => trivial) fun _ _ => ⟨_, _, rfl, trivial⟩
    case execute => exact fun _ _ _ hc _ => hi.of_eq hc.leading hc.log_eq
    case pop =>
      intro prepare body r' request header body' r'' hc hi' hm hp
      have hlog := hc.log_eq
      have hop := hc.op_eq
      have hmax := (prepareReject_eq_none.mp hp.ready).2.1
      have ⟨_, _, _, _, _, _, _, hr⟩ := hc.frame
      have hfits := hg request (by rw [hr] at hm; exact hm)
      have hfits' : r'.Fits r'.commitMin request.operation request.body := by
        have hc : r'.commitMin = r.commitMin + 1 := by rw [hr]; exact hop
        have ht : r'.prepareTimestamp = r.prepareTimestamp := by rw [hr]
        rw [Fits, hlog, hc, ht]
        exact hfits
      have hpop : Invariant { r' with
          pipelineQueue.requestQueue := r'.pipelineQueue.requestQueue.dropLast } :=
        hi'.of_eq (hi'.leading.of_eq hi'.leading.primary rfl rfl rfl rfl) rfl
      exact hpop.prepares hp (hmax ▸ hfits')
  simp only [Preparing.step, Meets.bind_eq, Meets.pure_eq]
  exact hcommit.weaken fun r hi => hi.of_eq (hi.leading.of_eq hi.leading.primary rfl rfl rfl rfl) rfl

theorem startView {now : Nat} (hi : Invariant r) (hr : r'.Inherits r) :
    Meets (fun _ => True) Invariant (Preparing.step r (.startView r' now)) := by
  refine primaryStartView_meets .all (fun _ => trivial) ?_
  intro prepareQueue _ _ _ _ _ _ hp hc hle hop hops _
  constructor
  case leading =>
    constructor
    case primary      => exact ⟨hp, rfl⟩
    case commitMin_le => exact hc.trans_le hle
    case ops          => exact hops.trans (by rw [hc])
    case head         => exact hr.head
  case increasing => exact hi.increasing.of_prefix hr.log

theorem step {e : Event} (hi : Invariant r) (hg : Fitting r e) :
    Meets (fun _ => True) Invariant (Preparing.step r e) := by
  cases e with
  | prepare =>
    simp only [Preparing.step, Meets.bind_eq]
    refine hi.leading.prepare_meets .all (fun _ _ => hi) fun _ _ _ hp => ?_
    exact hi.prepares hp (hg hp.ready)
  | enqueue => exact hi.of_eq (hi.leading.of_eq hi.leading.primary rfl rfl rfl rfl) rfl
  | pulseTimeout =>
    have hi' (prepareTimestamp : Nat) (timeouts : Timeouts) :
        Invariant { r with prepareTimestamp, timeouts } :=
      hi.of_eq (hi.leading.of_eq hi.leading.primary rfl rfl rfl rfl) rfl
    refine onPulseTimeout_meets .all hi.leading.primary hi' fun _ _ => ?_
    refine (hi' _ _).leading.prepare_meets .all (fun _ _ => nofun) fun _ _ _ hp _ => ?_
    exact (hi' _ _).internal ⟨rfl, rfl, .inl rfl⟩ hp
  | commit    => exact hi.commit hg
  | startView => exact hi.startView hg

end Invariant

-- In a run in which all batches fit, the timestamps of all events that were executed increase.
theorem increasing_of_fitting [Env] {r : Replica} (h : machine.Reachable Fitting r) :
    Increasing (timestamps r.stateMachine.executed) := by
  have hi : Invariant r := h.invariant (fun _ => .init) fun _ _ _ hi hg => (hi.step hg).post
  exact hi.increasing.of_prefix <| List.prefix_append ..

section

attribute [local instance] Env.plain

open Classical in
noncomputable instance {r : Replica} {e : Event} : Decidable (Inheriting r e) :=
  match e with
  | .startView ..    => inferInstance
  | .prepare ..      => .isTrue trivial
  | .enqueue ..      => .isTrue trivial
  | .pulseTimeout .. => .isTrue trivial
  | .commit          => .isTrue trivial

instance {r : Replica} {commit : Nat} {operation : Operation} {body : Body} :
    Decidable (r.Fits commit operation body) :=
  inferInstanceAs (Decidable (_ ∨ _))

noncomputable instance {r : Replica} {e : Event} : Decidable (Fitting r e) :=
  match e with
  | .prepare ..      => inferInstanceAs (Decidable (_ → Fits ..))
  | .commit          => inferInstanceAs (Decidable (∀ request ∈ _, Fits ..))
  | .enqueue ..      => .isTrue trivial
  | .pulseTimeout .. => .isTrue trivial
  | .startView r' n  => inferInstanceAs (Decidable (Inheriting r (.startView r' n)))

theorem zero_lt_replicas : 0 < 3 := by
  decide

def fresh : Replica :=
  .started 0 0 3 zero_lt_replicas

-- A client registers, which is followed by a pulse, and then creates accounts. Each batch is committed
-- before the next one.
def batches (counts : List Nat) : List Event :=
  [.prepare 7 0 .register [] 0, .commit, .commit] ++ counts.zipIdx.flatMap fun (count, index) =>
    [.prepare 7 (index + 1) .createAccounts (List.replicate (count * eventSize) 0) 0, .commit]

theorem increasing_of_fitting_fresh : ∃ r, machine.Reachable Fitting r ∧
    timestamps r.stateMachine.executed = [3, 4] ∧ Increasing (timestamps r.stateMachine.executed) := by
  have hl : machine.Leads Fitting (timestamps ·.stateMachine.executed = [3, 4]) (batches [1, 1])
      fresh := by
    decide +kernel
  have ⟨r, hr, ht⟩ := Machine.Reachable.leads (.init fresh_started) hl
  exact ⟨r, hr, ht, increasing_of_fitting hr⟩

-- The first event of a batch of two has the timestamp of the event before it.
theorem not_increasing :
    ¬∀ r, machine.Reachable Inheriting r → Increasing (timestamps r.stateMachine.executed) := by
  intro h
  have hl : machine.Leads Inheriting (timestamps ·.stateMachine.executed = [3, 3, 4])
      (batches [1, 2]) fresh := by
    decide +kernel
  have ⟨r, hr, ht⟩ := Machine.Reachable.leads (.init fresh_started) hl
  have hinc := (h r hr).increase
  rw [ht] at hinc
  exact absurd hinc (by decide)

end

end Preparing

end TigerBeetle
