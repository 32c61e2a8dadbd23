import TigerBeetle.Theorems.Timers

namespace TigerBeetle

open Fallible Fault

namespace Checkpoint

-- The checkpoints of a cluster in their order.
def nth : Nat → Checkpoint
  | 0     => .initial
  | k + 1 => (nth k).checkpointAfter

theorem nth_op {k : Nat} : (nth k).op = 960 * k - 1 := by
  induction k with
  | zero => rfl
  | succ k ih =>
    simp only [nth, checkpointAfter, ih, vsrCheckpointOps, journalSlotCount, lsmCompactionOps,
      pipelinePrepareQueueMax]
    split <;> omega

theorem nth_op_lt {k : Nat} : (nth k).op < (nth (k + 1)).op :=
  lt_checkpointAfter

theorem nth_op_strictMono : StrictMono fun k => (nth k).op :=
  strictMono_nat_of_lt_succ fun _ => nth_op_lt

end Checkpoint

-- The ids of the checkpoints of a cluster, after those of the two that precede its first one. A
-- prepare is stamped with the id of the checkpoint before the last one that precedes it.
def stamp (ids : Nat → Nat) (op : Nat) : Nat :=
  ids (op / vsrCheckpointOps + 1)

variable {op : Nat}

theorem stamp_eq {ids : Nat → Nat} {k : Nat} (hlo : 960 * k ≤ op) (hhi : op < 960 * (k + 1)) :
    stamp ids op = ids (k + 1) := by
  have hk : op / vsrCheckpointOps = k :=
    Nat.div_eq_of_lt_le (Nat.mul_comm k _ ▸ hlo) (Nat.mul_comm (k + 1) _ ▸ hhi)
  rw [stamp, hk]

def Prepare.Stamped (ids : Nat → Nat) (header : Prepare) : Prop :=
  header.checkpointId = stamp ids header.op

-- All headers that a message carries are stamped, and so is the acknowledgement of one.
def Message.Stamped (ids : Nat → Nat) : Message → Prop
  | .prepare header _    => header.Stamped ids
  | .prepareOk header    => header.checkpointId = stamp ids header.op
  | .joinView _ prepares => ∀ header ∈ prepares, header.Stamped ids
  | .view _ prepares     => ∀ header ∈ prepares, header.Stamped ids
  | .headers _ prepares  => ∀ header ∈ prepares, header.Stamped ids
  | _                    => True

def Journal.Stamped (ids : Nat → Nat) (journal : Journal) : Prop :=
  ∀ slot, (journal.headers slot).operation ≠ .reserved → (journal.headers slot).Stamped ids

namespace VsrState

-- A state at the given checkpoint, whose id need not be known yet.
structure Awaits (ids : Nat → Nat) (k : Nat) (state : VsrState) : Prop where
  checkpoint : state.checkpoint = .nth k
  parent : state.parentCheckpointId = ids (k + 1)
  grandparent : state.grandparentCheckpointId = ids k

structure Follows (ids : Nat → Nat) (k : Nat) (state : VsrState) : Prop extends
    state.Awaits ids k where
  checkpointId : state.checkpointId = ids (k + 2)

end VsrState

variable {headers : List Prepare} {commitMax completions : Nat}

namespace SuperBlock

-- All states of the superblock.
def states (superblock : SuperBlock) : List VsrState :=
  superblock.working :: superblock.queue.map (·.2)

-- The superblock is at a checkpoint of the cluster, and only moves on to later ones.
structure Follows (ids : Nat → Nat) (limit : Nat) (superblock : SuperBlock) : Prop where
  working : ∃ k, superblock.working.Follows ids k
  awaits : ∀ state ∈ superblock.states, ∃ k, state.Awaits ids k
  known : ∀ state ∈ superblock.states, state.checkpoint = superblock.working.checkpoint →
    state.checkpointId = superblock.working.checkpointId
  sorted : (superblock.states.map (·.checkpoint.op)).Pairwise (· ≤ ·)
  bounded : ∀ state ∈ superblock.states, state.checkpoint.op ≤ limit

-- The checkpoints of the superblock are those of the cluster.
def Identical (ids : Nat → Nat) (superblock : SuperBlock) : Prop :=
  ∀ state ∈ superblock.states, ∀ k, state.checkpoint = .nth k → state.checkpointId = ids (k + 2)

variable {ids : Nat → Nat} {limit limit' : Nat} {superblock superblock' : SuperBlock}
  {caller : Caller} {state : VsrState}

theorem Follows.mono (h : superblock.Follows ids limit) (hl : limit ≤ limit') :
    superblock.Follows ids limit' :=
  { h with bounded := fun state hm => (h.bounded state hm).trans hl }

theorem staging_mem : superblock.staging ∈ superblock.states := by
  unfold staging states
  split <;> simp [*]

theorem Follows.acquire (h : superblock.Follows ids limit) (ha : ∃ k, state.Awaits ids k)
    (hk : state.checkpoint = superblock.working.checkpoint →
      state.checkpointId = superblock.working.checkpointId)
    (hs : superblock.staging.checkpoint.op ≤ state.checkpoint.op)
    (hb : state.checkpoint.op ≤ limit) :
    Meets Undiverged (Follows ids limit) (superblock.acquire caller state) := by
  obtain ⟨working, queue⟩ := superblock
  have hnew (queue' : List (Caller × VsrState)) (hq : queue' = queue ++ [(caller, state)])
      (hle : ∀ s ∈ states ⟨working, queue⟩, s.checkpoint.op ≤ state.checkpoint.op) :
      Follows ids limit ⟨working, queue'⟩ := by
    have hstates : states ⟨working, queue'⟩ = states ⟨working, queue⟩ ++ [state] := by
      simp [states, hq]
    constructor
    case working => exact h.working
    case awaits =>
      rw [hstates]
      simp only [List.mem_append, List.mem_singleton]
      rintro s (hm | rfl)
      · exact h.awaits s hm
      · exact ha
    case known =>
      rw [hstates]
      simp only [List.mem_append, List.mem_singleton]
      rintro s (hm | rfl)
      · exact h.known s hm
      · exact hk
    case sorted =>
      rw [hstates, List.map_append, List.pairwise_append]
      refine ⟨h.sorted, by simp, ?_⟩
      simp only [List.mem_map, List.map_cons, List.map_nil, List.mem_singleton]
      rintro _ ⟨s, hm, rfl⟩ _ rfl
      exact hle s hm
    case bounded =>
      rw [hstates]
      simp only [List.mem_append, List.mem_singleton]
      rintro s (hm | rfl)
      · exact h.bounded s hm
      · exact hb
  unfold SuperBlock.acquire
  split
  case h_1 hq =>
    obtain rfl : queue = [] := hq
    refine hnew _ rfl fun s hm => ?_
    obtain rfl : s = working := by simpa [states] using hm
    exact hs
  case h_2 head hq =>
    obtain rfl : queue = [head] := hq
    simp only [Meets.bind_eq, Meets.pure_eq, undiverged_assert]
    refine fun _ => hnew _ rfl fun s hm => ?_
    have hsorted : working.checkpoint.op ≤ head.2.checkpoint.op := by
      simpa [states] using h.sorted
    obtain rfl | rfl : s = working ∨ s = head.2 := by simpa [states] using hm
    · exact hsorted.trans hs
    · exact hs
  case h_3 => exact undiverged_abort

-- The updates that are completed leave the later ones.
theorem Follows.poll (h : superblock.Follows ids limit)
    (hi : superblock.Identical ids) :
    (SuperBlock.poll completions superblock).2.Follows ids limit := by
  induction completions generalizing superblock with
  | zero => exact h
  | succ completions ih =>
    obtain ⟨working, queue⟩ := superblock
    cases queue with
    | nil => exact h
    | cons update queue =>
      obtain ⟨caller, state⟩ := update
      have hstates : states ⟨working, (caller, state) :: queue⟩ =
          working :: states ⟨state, queue⟩ := rfl
      have hi' : Identical ids ⟨state, queue⟩ := fun s hm => hi s (List.mem_cons_of_mem _ hm)
      have ⟨k, hk⟩ := h.awaits state (by simp [states])
      have hid : state.checkpointId = ids (k + 2) := hi' state (by simp [states]) k hk.checkpoint
      refine ih ?_ hi'
      constructor
      case working => exact ⟨k, { hk with checkpointId := hid }⟩
      case awaits => exact fun s hm => h.awaits s (List.mem_cons_of_mem _ hm)
      case known =>
        intro s hm hc
        exact (hi' s hm k (hc.trans hk.checkpoint)).trans hid.symm
      case sorted =>
        have hs := h.sorted
        rw [hstates, List.map_cons] at hs
        exact (List.pairwise_cons.mp hs).2
      case bounded => exact fun s hm => h.bounded s (List.mem_cons_of_mem _ hm)

theorem Follows.working_le (h : superblock.Follows ids limit)
    (hm : state ∈ superblock.states) : superblock.working.checkpoint.op ≤ state.checkpoint.op := by
  have hs := h.sorted
  simp only [states, List.map_cons, List.pairwise_cons] at hs hm
  rcases List.mem_cons.mp hm with rfl | hm
  · exact le_rfl
  · exact hs.1 _ (List.mem_map_of_mem hm)

variable [Env]

theorem Follows.viewChange {logView view : Nat} {command : ViewChangeCommand}
    (h : superblock.Follows ids limit) :
    Meets Undiverged (Follows ids limit)
      (superblock.viewChange commitMax logView view command headers) := by
  unfold SuperBlock.viewChange
  simp only [Meets.bind_eq, undiverged_assert]
  refine undiverged.meets ViewChangeHeaders.verify_unwatched fun _ _ _ _ _ _ _ _ _ => ?_
  refine undiverged.meets VsrState.monotonic_unwatched fun _ _ => ?_
  have ⟨k, hk⟩ := h.awaits _ staging_mem
  refine h.acquire ⟨k, ?_⟩ (h.known superblock.staging staging_mem) le_rfl
    (h.bounded superblock.staging staging_mem)
  exact ⟨hk.checkpoint, hk.parent, hk.grandparent⟩

-- The next checkpoint is the one after that of the working state.
theorem Follows.checkpoint {header : Prepare} (h : superblock.Follows ids limit)
    (hb : superblock.working.checkpoint.checkpointAfter.op ≤ limit) :
    Meets Undiverged (Follows ids limit)
      (superblock.checkpoint header superblock.working.checkpoint.checkpointAfter commitMax) := by
  unfold SuperBlock.checkpoint
  simp only [Meets.bind_eq, undiverged_assert]
  intro _ hlt _ _
  refine undiverged.meets VsrState.monotonic_unwatched fun _ _ => ?_
  have ⟨k, hk⟩ := h.working
  have ⟨k', hk'⟩ := h.awaits _ staging_mem
  have hle := h.working_le staging_mem
  have hlt' : superblock.working.checkpoint.op <
      superblock.working.checkpoint.checkpointAfter.op :=
    Checkpoint.lt_checkpointAfter
  rw [hk.checkpoint] at hle hlt
  rw [hk'.checkpoint] at hle hlt
  obtain rfl : k' = k := by
    have hlower := Checkpoint.nth_op_strictMono.le_iff_le.mp hle
    have hupper : k' < k + 1 := Checkpoint.nth_op_strictMono.lt_iff_lt.mp hlt
    omega
  have hid : superblock.staging.checkpointId = ids (k' + 2) :=
    (h.known _ staging_mem (hk'.checkpoint.trans hk.checkpoint.symm)).trans hk.checkpointId
  refine h.acquire ⟨k' + 1, ?_⟩ ?_ ?_ hb
  · exact ⟨by rw [hk.checkpoint]; rfl, hid, hk'.parent⟩
  · exact fun he => absurd (congrArg Checkpoint.op he) hlt'.ne'
  · rw [hk'.checkpoint, hk.checkpoint]
    exact Checkpoint.nth_op_lt.le

end SuperBlock

variable {opMin count : Nat} {body : Body}

namespace Journal

variable {ids : Nat → Nat} {journal : Journal} {header : Prepare}

theorem Stamped.headerWithOp (h : journal.Stamped ids)
    (hh : journal.headerWithOp op = some header) : header.Stamped ids := by
  have ⟨he, ho, _⟩ := headerWithOp_eq_some.mp hh
  subst he
  exact h _ ho

theorem Stamped.setHeaderAsDirty (h : journal.Stamped ids) (hh : header.Stamped ids) :
    Meets Undiverged (Journal.Stamped ids) (journal.setHeaderAsDirty header) := by
  refine setHeaderAsDirty_meets undiverged (fun _ _ => h) fun _ _ _ slot ho => ?_
  simp only [insert, Function.update_apply] at ho ⊢
  split at ho
  case isTrue hs =>
    rw [if_pos hs]
    exact hh
  case isFalse hs =>
    rw [if_neg hs]
    exact h slot ho

variable [Env]

section

variable (h : journal.Stamped ids)

include h

theorem Stamped.removeEntries {p : Nat → Prop} [DecidablePred p] :
    (journal.removeEntries p).Stamped ids := by
  intro slot ho
  simp only [Journal.removeEntries] at ho ⊢
  split at ho
  case isTrue => exact absurd rfl ho
  case isFalse hp =>
    rw [if_neg hp]
    exact h slot ho

theorem Stamped.removeEntriesFrom :
    Meets Undiverged (Journal.Stamped ids) (journal.removeEntriesFrom opMin) := by
  unfold Journal.removeEntriesFrom
  simp only [Meets.bind_eq, Meets.pure_eq, undiverged_assert]
  exact fun _ => h.removeEntries

omit [Env] in
theorem Stamped.setPrepareBody :
    Meets Undiverged (Journal.Stamped ids) (journal.setPrepareBody op body) :=
  setPrepareBody_meets undiverged fun _ => h

omit [Env] in
theorem Stamped.copyLatestHeaders {room : Nat} :
    ∀ header ∈ journal.copyLatestHeaders opMin count room, header.Stamped ids := by
  induction count generalizing room with
  | zero => simp [Journal.copyLatestHeaders]
  | succ count ih =>
    cases room with
    | zero => simp [Journal.copyLatestHeaders]
    | succ room =>
      unfold Journal.copyLatestHeaders
      split
      case h_1 header hh => exact List.forall_mem_cons.mpr ⟨h.headerWithOp hh, ih⟩
      case h_2 => exact ih

end

end Journal

-- What a replica holds of the prepares and checkpoints of the cluster.
structure Memory where
  status : Status
  op : Nat
  commitMin : Nat
  superblock : Option SuperBlock
  journal : Journal
  prepareQueue : List PipelinePrepare
  joinViewHeaders : List Prepare
  viewHeaders : List Prepare
  joinViewFromAllReplicas : List (Option JoinedView)
  sendQueue : List Message

-- The replica holds and sends only what is stamped, and its checkpoints are those of the cluster.
structure Memory.Held (ids : Nat → Nat) (m : Memory) : Prop where
  preceding : ids 0 = 0 ∧ ids 1 = 0
  unmounted : m.superblock = none → ids 2 = 0
  superblock : ∀ superblock ∈ m.superblock, superblock.Follows ids m.commitMin
  journal : m.journal.Stamped ids
  pipeline : ∀ prepare ∈ m.prepareQueue, prepare.checkpointId = stamp ids prepare.op
  pending : ∀ prepare ∈ m.prepareQueue, prepare.op ≤ m.op
  joinViewHeaders : ∀ header ∈ m.joinViewHeaders, header.Stamped ids
  viewHeaders : ∀ header ∈ m.viewHeaders, header.Stamped ids
  joinViews : ∀ slot ∈ m.joinViewFromAllReplicas, ∀ joinView ∈ slot,
    ∀ header ∈ joinView.headers, header.Stamped ids
  sendQueue : ∀ message ∈ m.sendQueue, message.Stamped ids

-- The log of a view reaches beyond what is committed, and a view change starts without a pipeline.
structure Memory.Stamped (ids : Nat → Nat) (m : Memory) : Prop extends m.Held ids where
  committed : m.status = .normal → m.commitMin ≤ m.op
  cleared : m.status = .viewChange → m.prepareQueue = []

variable {now checksum : Nat} {message : Message}

namespace Replica

def memory (r : Replica) : Memory where
  status := r.status
  op := r.op
  commitMin := r.commitMin
  superblock := r.superblock
  journal := r.journal
  prepareQueue := r.pipelineQueue.prepareQueue
  joinViewHeaders := r.joinViewHeaders
  viewHeaders := r.viewHeaders
  joinViewFromAllReplicas := r.joinViewFromAllReplicas
  sendQueue := r.sendQueue

def Held (ids : Nat → Nat) (r : Replica) : Prop :=
  r.memory.Held ids

def Stamped (ids : Nat → Nat) (r : Replica) : Prop :=
  r.memory.Stamped ids

variable {ids : Nat → Nat} {r : Replica} {header : Prepare} {id : Nat}

theorem Stamped.held (h : r.Stamped ids) : r.Held ids :=
  h.toHeld

theorem Held.checkpoint (h : r.Held ids) : ∃ k, r.checkpoint = .nth k ∧
    r.checkpointId = ids (k + 2) ∧ r.parentCheckpointId = ids (k + 1) ∧
    r.grandparentCheckpointId = ids k := by
  unfold Replica.checkpoint Replica.checkpointId parentCheckpointId grandparentCheckpointId
  cases hs : r.superblock with
  | none => exact ⟨0, rfl, (h.unmounted hs).symm, h.preceding.2.symm, h.preceding.1.symm⟩
  | some superblock =>
    have ⟨k, hk⟩ := (h.superblock superblock hs).working
    exact ⟨k, hk.checkpoint, hk.checkpointId, hk.parent, hk.grandparent⟩

theorem Held.opCheckpoint_le (h : r.Held ids) : r.opCheckpoint ≤ r.commitMin := by
  unfold opCheckpoint Replica.checkpoint
  cases hs : r.superblock with
  | none => exact Nat.zero_le _
  | some superblock => exact (h.superblock superblock hs).bounded _ (List.mem_cons_self ..)

theorem Held.checkpointOps (h : r.Held ids) : ∃ k,
    (r.checkpointId = ids (k + 2) ∧ r.parentCheckpointId = ids (k + 1) ∧
      r.grandparentCheckpointId = ids k) ∧ r.opCheckpoint = 960 * k - 1 ∧
    r.checkpoint.checkpointAfter.op = 960 * (k + 1) - 1 ∧
    r.checkpoint.checkpointAfter.checkpointAfter.op = 960 * (k + 2) - 1 := by
  have ⟨k, hk, hids⟩ := h.checkpoint
  rw [opCheckpoint, hk]
  exact ⟨k, hids, Checkpoint.nth_op, @Checkpoint.nth_op (k + 1), @Checkpoint.nth_op (k + 2)⟩

theorem Held.checkpointIdForOp (h : r.Held ids)
    (hid : r.checkpointIdForOp op = some id) : id = stamp ids op := by
  have ⟨k, ⟨hid₀, hid₁, hid₂⟩, hop, hop₁, hop₂⟩ := h.checkpointOps
  have hops : vsrCheckpointOps = 960 := rfl
  unfold Replica.checkpointIdForOp at hid
  simp only [hop, hop₁, hop₂, hid₀, hid₁, hid₂, hops] at hid
  split at hid
  case isTrue => cases hid
  case isFalse hlo =>
    split at hid
    case isTrue hhi =>
      obtain rfl : ids k = id := Option.some.inj hid
      cases k with
      | zero =>
        rw [stamp_eq (k := 0) (by omega) (by omega), h.preceding.1, h.preceding.2]
      | succ k => rw [stamp_eq (k := k) (by omega) (by omega)]
    case isFalse hlo =>
      split at hid
      case isTrue hhi =>
        obtain rfl : ids (k + 1) = id := Option.some.inj hid
        rw [stamp_eq (k := k) (by omega) (by omega)]
      case isFalse hlo =>
        split at hid
        case isFalse => cases hid
        case isTrue hhi =>
          obtain rfl : ids (k + 2) = id := Option.some.inj hid
          rw [stamp_eq (k := k + 1) (by omega) (by omega)]

-- What the primary stamps the prepare at its next op with, if it remembers a checkpoint for it.
theorem Held.prepareCheckpointId (h : r.Held ids)
    (hid : r.prepareCheckpointId = .ok id)
    (hr : ∃ id, r.checkpointIdForOp (r.op + 1) = some id) : id = stamp ids (r.op + 1) := by
  have ⟨k, ⟨hid₀, hid₁, _⟩, hop, hop₁, hop₂⟩ := h.checkpointOps
  have hops : vsrCheckpointOps = 960 := rfl
  have hmeets : Meets Undiverged (fun id => id = stamp ids (r.op + 1))
      r.prepareCheckpointId := by
    unfold Replica.prepareCheckpointId opCheckpointNext
    simp only [Meets.bind_eq, Meets.ite_iff, Meets.pure_eq, undiverged_assert]
    intro _ hle
    rw [hop] at hle
    rw [hop₁, hid₀, hid₁]
    refine ⟨fun hlt => ?_, fun hge => ?_⟩
    · rw [stamp_eq (k := k) (by omega) (by omega)]
    · have hlast : r.op + 1 ≤ 960 * (k + 2) - 1 := by
        obtain ⟨id, hr⟩ := hr
        unfold Replica.checkpointIdForOp at hr
        simp only [hop, hop₁, hop₂, hops] at hr
        grind
      rw [stamp_eq (k := k + 1) (by omega) (by omega)]
  exact hmeets.post hid

-- The prepares that a backup receives within its log have the id of its parent checkpoint.
theorem Stamped.parentCheckpointId (h : r.Stamped ids) (hs : r.status = .normal)
    (hh : header.Stamped ids) (hlt : r.op < header.op) (hle : header.op ≤ r.opPrepareMaxSync) :
    header.checkpointId = r.parentCheckpointId := by
  have ⟨k, hk, _, hid, _⟩ := h.held.checkpoint
  have hop : r.opCheckpoint = 960 * k - 1 := by
    rw [opCheckpoint, hk, Checkpoint.nth_op]
  have hops : vsrCheckpointOps = 960 := rfl
  have hmin : r.opCheckpoint ≤ r.op := h.held.opCheckpoint_le.trans (h.committed hs)
  unfold opPrepareMaxSync at hle
  rw [hid, hh, stamp_eq (k := k) (by omega) (by omega)]

-- What the pipeline does to a replica that holds only what is stamped.

theorem Held.enqueue (h : r.Held ids) (hm : message.Stamped ids) : (r.enqueue message).Held ids :=
  { h with
    sendQueue := fun _ hm' => (List.mem_append.mp hm').elim (h.sendQueue _) fun hm' =>
      (List.mem_singleton.mp hm') ▸ hm }

section

variable (h : r.Stamped ids)

include h

theorem Stamped.enqueue (hm : message.Stamped ids) : (r.enqueue message).Stamped ids :=
  { h.held.enqueue hm with committed := h.committed, cleared := h.cleared }

theorem Stamped.copies (hm : message.Stamped ids) :
    Stamped ids { r with sendQueue := r.sendQueue ++ List.replicate count message } :=
  { h with
    sendQueue := fun _ hm' => (List.mem_append.mp hm').elim (h.sendQueue _) fun hm' =>
      (List.eq_of_mem_replicate hm') ▸ hm }

theorem Stamped.advanceCommitMax {commit : Nat} : (r.advanceCommitMax commit).Stamped ids := by
  rw [advanceCommitMax_eq]
  exact h

theorem onPrepare_stamped (hh : header.Stamped ids) :
    Meets Undiverged (fun out => out.2.Stamped ids) (r.onPrepare header) := by
  refine onPrepare_meets undiverged ?diverged (fun _ => h) (fun _ => h) fun journal hop hj => ?_
  case diverged => exact fun hs hlt hle _ hne => absurd (h.parentCheckpointId hs hh hlt hle) hne
  have hj : journal.Stamped ids := (h.journal.setHeaderAsDirty hh).post hj
  have hle : r.op ≤ header.op := (Nat.le_succ r.op).trans_eq hop.symm
  exact { h with
    committed := fun hs => (h.committed hs).trans hle
    journal := hj
    pending := fun prepare hm => (h.pending prepare hm).trans hle }

theorem countAck_stamped {slot acks commitMin replica : Nat} {prepare : PipelinePrepare}
    (hn : r.status = .normal)
    (hs : r.pipelineQueue.prepareQueue[slot]? = some prepare) :
    (r.countAck slot prepare acks checksum commitMin replica).2.Stamped ids := by
  have hset (prepare' : PipelinePrepare) (hop : prepare'.op = prepare.op)
      (hid : prepare'.checkpointId = prepare.checkpointId) :
      Stamped ids { r with
        pipelineQueue.prepareQueue := r.pipelineQueue.prepareQueue.set slot prepare' } := by
    have hall : ∀ p ∈ r.pipelineQueue.prepareQueue.set slot prepare',
        p.checkpointId = stamp ids p.op ∧ p.op ≤ r.op := by
      intro p hm
      rcases List.mem_or_eq_of_mem_set hm with hm | rfl
      · exact ⟨h.pipeline p hm, h.pending p hm⟩
      · have hm := List.mem_of_getElem? hs
        rw [hop, hid]
        exact ⟨h.pipeline prepare hm, h.pending prepare hm⟩
    exact { h with
      pipeline := fun p hm => (hall p hm).1
      pending := fun p hm => (hall p hm).2
      cleared := fun hv => absurd (hn.symm.trans hv) nofun }
  unfold countAck
  simp only
  split
  case isTrue => exact hset _ rfl rfl
  case isFalse =>
    split
    case isTrue =>
      have h := hset { prepare with
        checksum := if prepare.checksum = 0 then checksum else prepare.checksum
        acksReceived := prepare.acksReceived + 1, okQuorumReceived := true } rfl rfl
      exact { h with }
    case isFalse =>
      have h := hset { prepare with
        checksum := if prepare.checksum = 0 then checksum else prepare.checksum
        acksReceived := prepare.acksReceived + 1 } rfl rfl
      exact { h with }

end

section

variable {op checksum checkpointId commitMin replica : Nat}

theorem onPrepareOk_stamped (h : r.Stamped ids)
    (hid : ∀ prepare ∈ r.pipelineQueue.prepareQueue, prepare.op = op →
      prepare.checkpointId = checkpointId) :
    Meets Undiverged (fun out => out.2.Stamped ids)
      (r.onPrepareOk op checksum checkpointId commitMin replica) := by
  refine onPrepareOk_meets undiverged ?diverged (fun _ => h) (fun _ _ => h)
    (fun _ _ _ _ _ _ => h) ?count
  case diverged =>
    intro prepare hm hop hne
    have ⟨id, hid', hne⟩ := hne (hid prepare hm hop)
    exact absurd ((h.pipeline prepare hm).trans (hop ▸ (h.held.checkpointIdForOp hid').symm)) hne
  case count =>
    intro ⟨_, hn⟩ _ _ slot prepare _ hs _ _ _
    exact countAck_stamped (r := r.trackProgress ..) h hn hs

-- An acknowledgement only counts for an op whose checkpoint is remembered.
theorem onPrepareOk_remembers : Meets (fun _ => True)
      (fun out => out.1.acknowledged → ∃ id, r.checkpointIdForOp op = some id)
      (r.onPrepareOk op checksum checkpointId commitMin replica) := by
  unfold onPrepareOk
  simp only [Meets.ite_iff, Meets.pure_eq, Meets.bind_eq, partial_assert]
  refine ⟨fun _ h => absurd h Bool.false_ne_true, fun _ => ⟨fun _ h => absurd h Bool.false_ne_true,
    fun _ _ => ?_⟩⟩
  split
  case h_2 => exact fun h => absurd h Bool.false_ne_true
  case h_1 =>
    split
    case h_2 => trivial
    case h_1 =>
      simp only [Meets.ite_iff, Meets.pure_eq, Meets.bind_eq, meets_assertOn_eq, implies_true,
        and_true]
      refine ⟨fun _ h => absurd h Bool.false_ne_true, fun _ _ => ?_⟩
      split
      case h_2 => trivial
      case h_1 id hid =>
        simp only [Meets.bind_eq, meets_assertOn_eq, implies_true, and_true]
        exact fun _ => Meets.iff_forall.mpr fun _ _ => Meets.iff_forall.mpr fun _ _ _ => ⟨id, hid⟩

end

variable [Env]

theorem root_stamped (cluster : Nat) (h : ids 1 = 0) : (Prepare.root cluster).Stamped ids := by
  have hop : (Prepare.root cluster).op = 0 := rfl
  rw [Prepare.Stamped, hop]
  exact h.symm

section

variable {client request requestChecksum : Nat} {operation : Operation} {body : Body}

-- The primary stamps its prepare well if it remembers a checkpoint for it, and fails otherwise.
theorem primaryPipelinePrepare_stamped (h : r.Stamped ids) :
    Meets Undiverged (fun out => out.2.Stamped ids)
      (r.primaryPipelinePrepare client request operation body requestChecksum) := by
  refine primaryPipelinePrepare_meets undiverged (fun _ _ => h) ?_
  intro timestamp checkpointId body' header journal hreject _ hid _ hh hj
  have hn : r.status = .normal := (prepareReject_eq_none.mp hreject).1.2
  have hop : header.op = r.op + 1 := congrArg Prepare.op hh
  have hcheckpoint : header.checkpointId = checkpointId := congrArg Prepare.checkpointId hh
  have hqueue {prepare : PipelinePrepare}
      (hm : prepare ∈ r.pipelineQueue.prepareQueue ++ [PipelinePrepare.ofPrepare header body']) :
      prepare ∈ r.pipelineQueue.prepareQueue ∧ prepare.op ≤ r.op ∨
        prepare.op = header.op ∧ prepare.checkpointId = header.checkpointId := by
    rcases List.mem_append.mp hm with hm | hm
    · exact .inl ⟨hm, h.pending prepare hm⟩
    · rw [List.mem_singleton.mp hm]
      exact .inr ⟨rfl, rfl⟩
  by_cases hr : ∃ id, r.checkpointIdForOp header.op = some id
  case neg =>
    have hmeets : Meets Undiverged (fun _ => True)
        (({ r with prepareTimestamp := timestamp, op := header.op, journal }.pushPrepare header
          body').onPrepareOk header.op header.checksum header.checkpointId r.commitMin
          r.replicaIndex) := by
      refine onPrepareOk_meets undiverged (fun prepare hm hop' hne => ?_) (fun _ => trivial)
        (fun _ _ => trivial) (fun _ _ _ _ _ _ => trivial) fun _ _ _ _ _ _ _ _ _ _ => trivial
      rcases hqueue hm with ⟨_, hle⟩ | ⟨_, hid⟩
      · omega
      · have ⟨id, hid', _⟩ := hne hid
        exact absurd ⟨id, hid'⟩ hr
    refine (hmeets.and_post onPrepareOk_remembers).weaken fun out ⟨_, ho⟩ ha => ?_
    exact absurd (ho ha) hr
  case pos =>
    have hstamp : header.Stamped ids := by
      rw [hop] at hr
      rw [Prepare.Stamped, hcheckpoint, hop]
      exact h.held.prepareCheckpointId hid hr
    have hjournal : journal.Stamped ids := by
      have ⟨_, hset, hbody⟩ := bind_eq_ok.mp hj
      exact ((h.journal.setHeaderAsDirty hstamp).post hset).setPrepareBody.post hbody
    have hpushed : Stamped ids
        ({ r with prepareTimestamp := timestamp, op := header.op, journal }.pushPrepare header
          body') := by
      have hle : r.op ≤ header.op := (Nat.le_succ r.op).trans_eq hop.symm
      refine { h with
        committed := fun hs => (h.committed hs).trans hle
        cleared := fun hv => absurd (hn.symm.trans hv) nofun
        journal := hjournal
        pipeline := ?pipeline
        pending := ?pending }
      case pipeline =>
        intro prepare hm
        rcases hqueue hm with ⟨hm, _⟩ | ⟨hop', hid⟩
        · exact h.pipeline prepare hm
        · rw [hop', hid]
          exact hstamp
      case pending =>
        intro prepare hm
        rcases hqueue hm with ⟨_, hle'⟩ | ⟨hop', _⟩
        · exact hle'.trans hle
        · exact hop'.le
    refine Meets.weaken (Q := fun out => out.2.Stamped ids) (fun out ho _ => ?_)
      (onPrepareOk_stamped hpushed fun prepare hm hop' => ?_)
    · have ⟨_, ht⟩ := out.2.startPipelineTimeouts_eq
      rw [ht]
      exact Stamped.copies ho hstamp
    · exact (hpushed.pipeline prepare hm).trans (hop' ▸ hstamp.symm)

end

section

variable (h : r.Stamped ids)

include h

theorem prepareNextRequest_stamped : Meets Undiverged (Stamped ids) r.prepareNextRequest := by
  refine prepareNextRequest_meets undiverged (fun _ => h) fun _ _ => ?_
  refine Meets.weaken (Q := fun out => out.2.Stamped ids) (fun _ h _ => h)
    (primaryPipelinePrepare_stamped ?_)
  exact h

theorem injectPulse_stamped : Meets Undiverged (Stamped ids) r.injectPulse :=
  injectPulse_meets undiverged h <| (primaryPipelinePrepare_stamped h).weaken fun _ h _ => h

theorem redriveUpgrade_stamped : Meets Undiverged (Stamped ids) r.redriveUpgrade :=
  redriveUpgrade_meets undiverged h fun _ =>
    (primaryPipelinePrepare_stamped h).weaken fun _ h _ => h

theorem refillPipeline_stamped : Meets Undiverged (Stamped ids) (r.refillPipeline op) := by
  refine refillPipeline_meets undiverged (fun _ => h) fun prepare prepares _ _ hq _ => ?_
  have hrest {p : PipelinePrepare} (hm : p ∈ prepares) : p ∈ r.pipelineQueue.prepareQueue :=
    hq ▸ List.mem_cons_of_mem _ hm
  refine Meets.weaken (Q := Stamped ids) (fun _ h => ?_) (prepareNextRequest_stamped { h with
    pipeline := fun p hm => h.pipeline p (hrest hm)
    pending := fun p hm => h.pending p (hrest hm)
    cleared := fun hv => absurd (hq.symm.trans (h.cleared hv)) nofun })
  exact (injectPulse_stamped h).weaken fun _ h => redriveUpgrade_stamped h

theorem commitExecute_stamped : Meets Undiverged (Stamped ids) r.commitExecute := by
  refine commitExecute_meets (T := fun _ _ => True) undiverged ?table ?step
  case table =>
    intro _ _ _ _ _ _ _
    exact updateClientTable_meets undiverged (fun _ => undiverged_session)
      fun _ _ => ⟨_, _, rfl, trivial⟩
  case step =>
    intro prepare _ _ he _
    have hlt : r.commitMin ≤ prepare.op := he.op_eq ▸ Nat.le_succ _
    have hle := he.op_le
    obtain ⟨_, _, _, _, journal, hheaders, _, rfl⟩ := he.frame
    have hjournal : journal.Stamped ids := by
      unfold Journal.Stamped
      rw [hheaders]
      exact h.journal
    exact refillPipeline_stamped { h with
      committed := fun _ => hle
      superblock := fun superblock hs => (h.superblock superblock hs).mono hlt
      journal := hjournal }

end

theorem viewDurableUpdate_follows {limit : Nat} {Q : Replica → Prop}
    (hs : ∀ superblock ∈ r.superblock, superblock.Follows ids limit)
    (h : ∀ superblock, (superblock = none → r.superblock = none) →
      (∀ superblock' ∈ superblock, superblock'.Follows ids limit) → Q { r with superblock }) :
    Meets Undiverged Q r.viewDurableUpdate := by
  have hsame : Q r := h r.superblock id hs
  unfold viewDurableUpdate
  split
  case h_2 => exact hsame
  case h_1 superblock hs' =>
    simp only [Meets.bind_eq, undiverged_assert]
    intro _ _ _ _ _
    split
    case h_2 => exact undiverged_abort
    case h_1 =>
      simp only [Meets.bind_eq, Meets.ite_iff, Meets.pure_eq, undiverged_assert]
      refine fun _ _ => ⟨fun _ => hsame, fun _ => ?_⟩
      refine (hs superblock hs').viewChange.weaken fun superblock' hf => h _ (fun h => by cases h) ?_
      rintro _ ⟨⟩
      exact hf

section

variable (h : r.Stamped ids)

include h

theorem viewDurableUpdate_stamped : Meets Undiverged (Stamped ids) r.viewDurableUpdate :=
  viewDurableUpdate_follows h.superblock fun _ hn hs =>
    { h with unmounted := fun hs' => h.unmounted (hn hs'), superblock := hs }

theorem commitCheckpointSuperblock_stamped :
    Meets Undiverged (fun out => out.2.Stamped ids) r.commitCheckpointSuperblock := by
  unfold commitCheckpointSuperblock commitTriggersCheckpoint opCheckpointNextTrigger
  rw [Checkpoint.triggerForCheckpoint_checkpointAfter]
  cases r.commitPrepare with
  | none => exact undiverged_abort
  | some op =>
    simp only [Meets.bind_eq, Meets.ite_iff, Meets.pure_eq, undiverged_assert]
    intro hop
    refine undiverged.meets opCheckpointNext_unwatched fun _ _ _ => ?_
    refine ⟨fun htrigger _ _ => ?_, fun _ => h⟩
    split
    case h_2 => exact undiverged_abort
    case h_1 =>
      split
      case h_2 => exact undiverged_abort
      case h_1 superblock hs =>
        have hcheckpoint : r.checkpoint = superblock.working.checkpoint := by
          simp only [checkpoint, hs]
        have hlimit : superblock.working.checkpoint.checkpointAfter.op ≤ r.commitMin := by
          have htrigger := of_decide_eq_true htrigger
          rw [← hop, htrigger, hcheckpoint]
          exact Nat.le_add_right _ _
        rw [hcheckpoint]
        simp only [Meets.bind_eq, Meets.pure_eq]
        refine ((h.superblock superblock hs).checkpoint hlimit).weaken fun superblock' hs' => ?_
        refine { h with unmounted := fun hs => (by cases hs), superblock := ?_ }
        rintro _ ⟨⟩
        exact hs'

-- What the stages of a commit do to it.

omit [Env] in
theorem commitStart_stamped : Meets Undiverged (Stamped ids) r.commitStart := by
  unfold commitStart
  split
  case isTrue =>
    unfold commitStartPipeline
    simp only [Meets.bind_eq, undiverged_assert]
    intro _ _ _
    split
    case h_1 => exact h
    case h_2 =>
      simp only [Meets.ite_iff, Meets.bind_eq, Meets.pure_eq, meets_assertOn_eq, undiverged_quorum,
        implies_true, and_true]
      exact ⟨fun _ => h, fun _ _ _ => h⟩
  case isFalse =>
    unfold commitStartJournal
    simp only [Meets.ite_iff, Meets.bind_eq, Meets.pure_eq, undiverged_assert]
    intro _ _ _ _ _
    refine ⟨fun _ => ?_, fun _ => h⟩
    split
    case h_2 => exact h
    case h_1 =>
      simp only [Meets.ite_iff, Meets.bind_eq, Meets.pure_eq]
      exact validHashChain_concurs.meets fun _ _ => ⟨fun _ => h, fun _ => h⟩

theorem commitStall_stamped : Meets Undiverged (fun out => out.2.Stamped ids) r.commitStall := by
  unfold commitStall
  simp only [Meets.bind_eq, undiverged_assert]
  intro _
  split
  case h_2 => exact undiverged_abort
  case h_1 =>
    simp only [Meets.bind_eq, Meets.ite_iff, undiverged_assert]
    intro _
    refine ⟨fun _ => h, fun _ => ?_⟩
    split
    case h_2 => exact undiverged_abort
    case h_1 =>
      simp only [Meets.bind_eq, Meets.ite_iff, Meets.pure_eq, undiverged_assert]
      intro _
      refine ⟨fun _ => ⟨fun _ => h, fun _ => ?_⟩, fun _ => h⟩
      split
      all_goals exact h

theorem commitAdvance_stamped :
    Meets Undiverged (fun out => out.2.Stamped ids) r.commitAdvance := by
  unfold commitAdvance
  dsimp only
  split
  case h_1 =>
    simp only [Meets.bind_eq, Meets.pure_eq, undiverged_assert]
    exact fun _ => commitStart_stamped h
  case h_2 => split <;> exact h
  case h_3 =>
    simp only [Meets.bind_eq, undiverged_assert]
    intro _
    split
    all_goals simp only [Meets.bind_eq, Meets.pure_eq]
    case h_1 => exact commitPrefetch_concurs.meets fun _ _ => h
    case h_2 => exact commitStall_stamped h
    case h_3 =>
      unfold commitReplySetup
      simp only [Meets.bind_eq, Meets.ite_iff, Meets.pure_eq]
      exact ⟨fun _ => h, fun _ => ClientReplies.ready_concurs.meets fun _ _ => h⟩
    case h_4 => exact commitExecute_stamped h
    case h_7 =>
      unfold commitCheckpointData
      simp only [Meets.bind_eq, Meets.ite_iff, Meets.pure_eq]
      refine commitTriggersCheckpoint_concurs.meets fun _ _ => ⟨fun _ => ?_, fun _ => h⟩
      exact ClientReplies.checkpoint_concurs.meets fun _ _ => h
    case h_8 => exact commitCheckpointSuperblock_stamped h
    all_goals exact h

theorem commitLoop_stamped {fuel : Nat} : Meets Undiverged (Stamped ids) (commitLoop fuel r) := by
  induction fuel generalizing r with
  | zero => exact undiverged.cutOff
  | succ fuel ih =>
    unfold commitLoop
    simp only [Meets.bind_eq, Meets.ite_iff, Meets.pure_eq]
    exact (commitAdvance_stamped h).weaken fun _ h => ⟨fun _ => ih h, fun _ => h⟩

theorem commitDispatchEnter_stamped : Meets Undiverged (Stamped ids) r.commitDispatchEnter := by
  unfold commitDispatchEnter commitDispatch
  simp only [Meets.bind_eq, undiverged_assert]
  intro _ _ _
  apply commitLoop_stamped
  exact h

theorem commitDispatchResume_stamped : Meets Undiverged (Stamped ids) r.commitDispatchResume := by
  unfold commitDispatchResume commitDispatch
  simp only [Meets.bind_eq, undiverged_assert]
  intro _ _ _
  apply commitLoop_stamped
  exact h

theorem commitJournal_stamped : Meets Undiverged (Stamped ids) r.commitJournal := by
  unfold commitJournal
  simp only [Meets.bind_eq, Meets.ite_iff, Meets.pure_eq, undiverged_assert]
  exact fun _ _ _ _ => ⟨fun _ => h, fun _ => commitDispatchEnter_stamped h⟩

end

-- The prepare_oks are all that changes, so that they may precede the check of the commit number.
theorem sendPrepareOk_held {prepare : Prepare} (h : r.Held ids) (hp : prepare.Stamped ids) :
    Meets Undiverged (fun r' => r'.Held ids ∧ ∃ sendQueue, r' = { r with sendQueue })
      (r.sendPrepareOk prepare) := by
  have hsame : r.Held ids ∧ ∃ sendQueue, r = { r with sendQueue } := ⟨h, r.sendQueue, rfl⟩
  unfold sendPrepareOk
  simp only [Meets.bind_eq, Meets.ite_iff, Meets.pure_eq, undiverged_assert]
  intro _ _
  refine ⟨fun _ => hsame, fun _ => ⟨fun _ _ => hsame, fun _ => ?_⟩⟩
  refine opPrepareOkMax_concurs.meets fun _ _ => ⟨fun _ => hsame, fun _ => ?_⟩
  split
  case h_1 => exact hsame
  case h_2 checkpointId hid =>
    have hid : checkpointId = stamp ids prepare.op := h.checkpointIdForOp hid
    simp only [Meets.bind_eq, Meets.pure_eq, meets_assertOn_eq]
    exact ⟨fun _ => ⟨h.enqueue hid, _, rfl⟩, fun hne => absurd (hid.trans hp.symm) hne⟩

theorem sendPrepareOksFrom_held {opStart : Nat} (h : r.Held ids) :
    Meets Undiverged (fun r' => r'.Held ids ∧ ∃ sendQueue, r' = { r with sendQueue })
      (r.sendPrepareOksFrom opStart) := by
  unfold sendPrepareOksFrom
  generalize r.op + 1 - opStart = count
  induction count generalizing opStart r with
  | zero => exact ⟨h, r.sendQueue, rfl⟩
  | succ count ih =>
    unfold sendPrepareOksUpTo
    split
    case h_1 header hh =>
      simp only [Meets.bind_eq]
      refine (sendPrepareOk_held h (h.journal.headerWithOp hh)).weaken fun _ hresult => ?_
      obtain ⟨h, _, he⟩ := hresult
      refine (ih h).weaken fun _ hresult => ?_
      obtain ⟨h, sendQueue, he'⟩ := hresult
      refine ⟨h, sendQueue, ?_⟩
      rw [he', he]
    case h_2 => exact ih h

section

variable (h : r.Stamped ids)

include h

omit [Env] in
theorem Stamped.of_held {r' : Replica}
    (h' : r'.Held ids ∧ ∃ sendQueue, r' = { r with sendQueue }) : r'.Stamped ids := by
  obtain ⟨h', _, rfl⟩ := h'
  exact { h' with committed := h.committed, cleared := h.cleared }

theorem sendPrepareOk_stamped {prepare : Prepare}
    (hp : prepare.Stamped ids) : Meets Undiverged (Stamped ids) (r.sendPrepareOk prepare) :=
  (sendPrepareOk_held h.held hp).weaken fun _ => h.of_held

theorem sendPrepareOksFrom_stamped {opStart : Nat} :
    Meets Undiverged (Stamped ids) (r.sendPrepareOksFrom opStart) :=
  (sendPrepareOksFrom_held h.held).weaken fun _ => h.of_held

theorem sendPrepareOksAfterCheckpoint_stamped :
    Meets Undiverged (Stamped ids) r.sendPrepareOksAfterCheckpoint := by
  unfold sendPrepareOksAfterCheckpoint
  simp only [Meets.bind_eq, undiverged_assert]
  intro _
  split
  case h_2 => exact undiverged_abort
  case h_1 =>
    simp only [Meets.bind_eq, undiverged_assert]
    exact fun _ => sendPrepareOksFrom_stamped h

theorem driveSuperblock_stamped (hi : ∀ superblock ∈ r.superblock, superblock.Identical ids) :
    Meets Undiverged (Stamped ids) (r.driveSuperblock completions) := by
  unfold driveSuperblock
  split
  case h_2 => exact h
  case h_1 superblock hs =>
    have hresume {r : Replica} (h : r.Stamped ids) : Meets Undiverged
        (fun r => Meets Undiverged (Stamped ids) r.commitDispatchResume)
        r.sendPrepareOksAfterCheckpoint :=
      (sendPrepareOksAfterCheckpoint_stamped h).weaken fun _ h => commitDispatchResume_stamped h
    have hpoll : Stamped ids
        { r with superblock := some (SuperBlock.poll completions superblock).2 } := by
      refine { h with unmounted := nofun, superblock := ?_ }
      rintro _ ⟨⟩
      exact (h.superblock superblock hs).poll (hi superblock hs)
    simp only [Meets.bind_eq, Meets.ite_iff, Meets.pure_eq, undiverged_assert]
    have hupdate := viewDurableUpdate_stamped hpoll
    refine ⟨fun _ _ _ => ⟨fun _ => ?_, fun _ => ?_⟩, fun _ => ⟨fun _ => ?_, fun _ => ?_⟩⟩
    · exact hupdate.weaken fun _ h => ⟨fun _ _ => hresume h, fun _ => h⟩
    · exact ⟨fun _ _ => hresume hpoll, fun _ => hpoll⟩
    · exact hupdate.weaken fun _ h => ⟨fun _ _ => hresume h, fun _ => h⟩
    · exact ⟨fun _ _ => hresume hpoll, fun _ => hpoll⟩

-- The view messages, whose headers are journaled.

theorem journalHeaderOrRoot_stamped :
    Meets Undiverged (Prepare.Stamped ids) (r.journalHeaderOrRoot op) := by
  unfold journalHeaderOrRoot
  split
  case h_1 header hh => exact h.journal.headerWithOp hh
  case h_2 =>
    simp only [Meets.bind_eq, Meets.pure_eq, undiverged_assert]
    exact fun _ => root_stamped r.cluster h.preceding.2

theorem headersBelow_stamped :
    Meets Undiverged (∀ header ∈ ·, header.Stamped ids) (r.headersBelow count op) := by
  induction count generalizing op with
  | zero => simp [headersBelow]
  | succ count ih =>
    cases op with
    | zero => simp [headersBelow]
    | succ op =>
      unfold headersBelow
      simp only [Meets.bind_eq, Meets.pure_eq]
      exact (journalHeaderOrRoot_stamped h).weaken fun _ hh => ih.weaken fun _ hs =>
        List.forall_mem_cons.mpr ⟨hh, hs⟩

theorem headersAtHooks_stamped {hooks : List Nat} :
    Meets Undiverged (∀ header ∈ ·, header.Stamped ids) (r.headersAtHooks opMin op hooks) := by
  induction hooks generalizing op with
  | nil => simp [headersAtHooks]
  | cons hook hooks ih =>
    unfold headersAtHooks
    simp only [Meets.ite_iff, Meets.bind_eq, Meets.pure_eq]
    refine ⟨fun _ => (journalHeaderOrRoot_stamped h).weaken fun _ hh => ?_, fun _ => ih⟩
    exact ih.weaken fun _ hs => List.forall_mem_cons.mpr ⟨hh, hs⟩

theorem joinViewHeadersFrom_stamped :
    Meets Undiverged (∀ header ∈ ·, header.Stamped ids) (r.joinViewHeadersFrom op) := by
  induction op with
  | zero =>
    unfold joinViewHeadersFrom
    simp only [Meets.bind_eq, Meets.pure_eq]
    exact (journalHeaderOrRoot_stamped h).weaken fun _ hh => by simpa using hh
  | succ op ih =>
    unfold joinViewHeadersFrom
    split
    case h_1 => exact undiverged_abort
    case h_2 header hh =>
      have hh := h.journal.headerWithOp hh
      simp only [Meets.ite_iff, Meets.bind_eq, Meets.pure_eq]
      refine ⟨fun _ => by simpa using hh, fun _ => ih.weaken fun _ hs => ?_⟩
      exact List.forall_mem_cons.mpr ⟨hh, hs⟩

theorem makeViewMessage_stamped {nonce : Nat} :
    Meets Undiverged (fun out => out.1.Stamped ids ∧ out.2.Stamped ids)
      (r.makeViewMessage nonce) := by
  unfold makeViewMessage primaryUpdateViewHeaders
  simp only [Meets.bind_eq, Meets.pure_eq, undiverged_assert]
  intro _ _ _ _ _ _ _
  refine Journal.findLatestHeadersBreakBetween_concurs.meets fun _ _ => ?_
  refine (headersBelow_stamped h).weaken fun suffix hsuffix => ?_
  refine (headersAtHooks_stamped h).weaken fun hooks hhooks _ => ?_
  have hheaders : ∀ header ∈ suffix ++ hooks, header.Stamped ids :=
    List.forall_mem_append.mpr ⟨hsuffix, hhooks⟩
  split
  case h_2 => exact undiverged_abort
  case h_1 =>
    simp only [Meets.bind_eq, Meets.pure_eq, undiverged_assert]
    exact fun _ => ⟨hheaders, { h with viewHeaders := hheaders }⟩

theorem primarySendView_stamped : Meets Undiverged (Stamped ids) r.primarySendView := by
  unfold primarySendView
  simp only [Meets.bind_eq, Meets.pure_eq, undiverged_assert]
  intro _ _
  refine primaryJournalHeadersRepaired_concurs.meets fun _ _ _ => ?_
  exact (makeViewMessage_stamped h).weaken fun _ ⟨hm, h⟩ => h.enqueue hm

-- The transitions between the statuses.

theorem updateJoinViewHeaders_stamped : Meets Undiverged (Stamped ids) r.updateJoinViewHeaders := by
  unfold updateJoinViewHeaders
  simp only [Meets.bind_eq, Meets.pure_eq, undiverged_assert]
  intro _ _
  exact (joinViewHeadersFrom_stamped h).weaken fun _ hs _ _ => { h with joinViewHeaders := hs }

omit [Env] in
theorem primaryReceiveJoinView_stamped {joinView : JoinView}
    (hs : ∀ header ∈ headers, header.Stamped ids) :
    Meets Undiverged (Stamped ids) (r.primaryReceiveJoinView joinView headers) := by
  unfold primaryReceiveJoinView
  split
  case h_2 => exact undiverged_abort
  case h_1 =>
    simp only [Meets.ite_iff, Meets.pure_eq]
    refine ⟨fun _ => { h with joinViews := fun slot hm => ?_ }, fun _ => h⟩
    rcases List.mem_or_eq_of_mem_set hm with hm | rfl
    · exact h.joinViews slot hm
    · rintro _ ⟨⟩
      exact hs

omit [Env] in
theorem sendJoinView_stamped : Meets Undiverged (Stamped ids) r.sendJoinView := by
  unfold sendJoinView
  simp only [Meets.bind_eq, undiverged_assert]
  intro _ _ _
  split
  case h_2 => exact undiverged_abort
  case h_1 =>
    simp only [Meets.bind_eq, Meets.ite_iff, Meets.pure_eq]
    refine undiverged.meets joinViewBitsets_unwatched fun _ _ => ?_
    have hsend (joinView : JoinView) :
        (r.enqueue (.joinView joinView r.joinViewHeaders)).Stamped ids :=
      h.enqueue h.joinViewHeaders
    exact ⟨fun _ => primaryReceiveJoinView_stamped (hsend _) h.joinViewHeaders,
      fun _ => hsend _⟩

theorem transitionToViewChangeStatus_stamped {viewNew : Nat} :
    Meets Undiverged (Stamped ids) (r.transitionToViewChangeStatus viewNew) := by
  have hleave {r : Replica} (h : r.Held ids) :
      Meets Undiverged (fun r' => r'.Held ids ∧ r'.status = .viewChange)
        ({ r with status := .viewChange, view := viewNew }.viewDurableUpdate) :=
    viewDurableUpdate_follows h.superblock fun _ hn hs =>
      ⟨{ h with unmounted := fun hs' => h.unmounted (hn hs'), superblock := hs }, rfl⟩
  have hjoin {r : Replica} (h : r.Held ids) (hs : r.status = .viewChange) (timeouts : Timeouts) :
      Meets Undiverged (Stamped ids) (sendJoinView
        { r with
          exitViewFromAllReplicas := 0
          joinViewFromAllReplicas := List.replicate replicasMax none
          joinViewQuorum := false
          pipelineQueue := .empty
          okFromAllReplicas := []
          primaryAbdicating := false
          timeouts }) := by
    refine sendJoinView_stamped { h with
      committed := fun hn => absurd (hn.symm.trans hs) (by decide)
      cleared := fun _ => rfl
      pipeline := fun _ hp => absurd hp List.not_mem_nil
      pending := fun _ hp => absurd hp List.not_mem_nil
      joinViews := fun slot hm => ?_ }
    rw [List.eq_of_mem_replicate hm]
    exact fun _ hj => absurd hj (Option.not_mem_none _)
  unfold transitionToViewChangeStatus
  simp only [Meets.bind_eq, undiverged_assert]
  intro _
  split
  all_goals simp only [Meets.bind_eq, Meets.pure_eq]
  case isTrue =>
    refine (updateJoinViewHeaders_stamped h).weaken fun _ h => ?_
    exact Meets.weaken (fun r' h => hjoin (r := r') h.1 h.2 _) (hleave h.held)
  case isFalse => exact Meets.weaken (fun r' h => hjoin (r := r') h.1 h.2 _) (hleave h.held)

end

-- A replica that resumes its normal status has to be checked for its commit number.
theorem transitionToNormalFromViewChangeStatus_stamped {viewNew : Nat} (h : r.Held ids) :
    Meets Undiverged
      (fun r' => r'.Held ids ∧ (r'.commitMin ≤ r'.op → r'.Stamped ids) ∧
        (r.isPrimary → r'.Stamped ids))
      (r.transitionToNormalFromViewChangeStatus viewNew now) := by
  unfold transitionToNormalFromViewChangeStatus FaultDetector.reset
  simp only [Meets.bind_eq, Meets.pure_eq, undiverged_assert]
  intro _ _ _ _ _ _ _ _
  have hnone : ∀ slot ∈ List.replicate replicasMax (none : Option JoinedView), ∀ joinView ∈ slot,
      ∀ header ∈ joinView.headers, header.Stamped ids := by
    intro slot hm
    rw [List.eq_of_mem_replicate hm]
    exact fun _ hj => absurd hj (Option.not_mem_none _)
  split
  case isTrue hp =>
    unfold becomePrimary
    simp only [Meets.bind_eq, Meets.pure_eq, undiverged_assert]
    intro _ _ hmin hop
    have hle : r.commitMin ≤ r.op := by
      have hmin : r.commitMin = r.commitMax := hmin
      have hop : r.commitMax + r.pipelineQueue.prepareQueue.length = r.op := hop
      omega
    refine viewDurableUpdate_follows h.superblock fun _ hn hs => ?_
    refine ⟨?held, fun _ => ?_, fun _ => ?_⟩
    case held => exact { h with
      unmounted := fun hs' => h.unmounted (hn hs')
      superblock := hs
      joinViews := hnone }
    all_goals exact { h with
      committed := fun _ => hle
      cleared := fun h => by cases h
      unmounted := fun hs' => h.unmounted (hn hs')
      superblock := hs
      joinViews := hnone }
  case isFalse hp =>
    unfold becomeBackup
    simp only [Meets.bind_eq, Meets.pure_eq, undiverged_assert]
    refine viewDurableUpdate_follows h.superblock fun _ hn hs _ _ => ?_
    refine ⟨?held, fun hle => ?_, fun hp' => absurd hp' hp⟩
    case held => exact { h with
      unmounted := fun hs' => h.unmounted (hn hs')
      superblock := hs
      joinViews := hnone }
    exact { h with
      committed := fun _ => hle
      cleared := fun h => by cases h
      unmounted := fun hs' => h.unmounted (hn hs')
      superblock := hs
      joinViews := hnone }

section

variable (h : r.Stamped ids)

include h

omit [Env] in
theorem acknowledgeSurvivors_stamped {prepares : List PipelinePrepare}
    (hp : ∀ prepare ∈ prepares, prepare.checkpointId = stamp ids prepare.op) :
    Meets Undiverged (Stamped ids) (acknowledgeSurvivors prepares r) := by
  induction prepares generalizing r with
  | nil => exact h
  | cons prepare prepares ih =>
    have ⟨hid, hp⟩ := List.forall_mem_cons.mp hp
    unfold acknowledgeSurvivors
    simp only [Meets.bind_eq, meets_assertOn_eq, undiverged_quorum, implies_true, and_true]
    refine (onPrepareOk_stamped h fun prepare' hm hop => ?_).weaken fun _ h _ => ih h hp
    exact (h.pipeline prepare' hm).trans (hop ▸ hid.symm)

theorem primaryStartViewAsTheNewPrimary_stamped :
    Meets Undiverged (Stamped ids) (r.primaryStartViewAsTheNewPrimary now) := by
  unfold primaryStartViewAsTheNewPrimary
  simp only [Meets.bind_eq, undiverged_assert]
  intro _ hp _ _
  refine undiverged.meets primaryJournalRepaired_unwatched fun _ _ _ _ hle => ?_
  refine undiverged.meets committedAnchor_unwatched fun _ _ => ?_
  have hload {parent : Nat} : Meets Undiverged (fun r' => r'.Held ids ∧ r'.isPrimary)
      (loadSurvivors (r.op - r.commitMax) (r.commitMax + 1) parent
        { r with pipelineQueue := .empty, okFromAllReplicas := [] }) := by
    refine loadSurvivors_meets undiverged fun prepares hops hall => ⟨?_, hp⟩
    refine { h.held with pipeline := fun prepare hm => ?_, pending := fun prepare hm => ?_ }
    · obtain ⟨header, hh, he⟩ := hall prepare hm
      have hstamp := h.journal.headerWithOp hh
      rw [he]
      exact hstamp
    · have hm : prepare.op ∈ List.range' (r.commitMax + 1) (r.op - r.commitMax) :=
        hops ▸ List.mem_map_of_mem hm
      have hop : prepare.op < r.commitMax + 1 + (r.op - r.commitMax) := (List.mem_range'_1.mp hm).2
      have hle : r.commitMax ≤ r.op := hle
      show prepare.op ≤ r.op
      omega
  refine hload.weaken fun r' hr' _ => ?_
  obtain ⟨h, hp⟩ := hr'
  refine (transitionToNormalFromViewChangeStatus_stamped h).weaken fun _ hresult => ?_
  obtain ⟨_, _, h⟩ := hresult
  exact acknowledgeSurvivors_stamped (h hp) (h hp).pipeline

-- The headers of a new view are those of the join views.

theorem replaceHeader_stamped (hh : header.Stamped ids) :
    Meets Undiverged (Stamped ids) (r.replaceHeader header) := by
  unfold replaceHeader
  simp only [Meets.bind_eq, Meets.ite_iff, Meets.pure_eq, meets_assert_eq, meets_assertOn_eq,
    undiverged.general, undiverged_window, implies_true, and_true]
  intro _ _ _ _ _ _
  have hset : ¬header.op < r.opRepairMin → Meets Undiverged
      (fun found => (found = true → r.Stamped ids) ∧ (¬found = true → Meets Undiverged
        (fun journal => Stamped ids { r with journal }) (r.journal.setHeaderAsDirty header)))
      (r.journal.hasHeader header) := by
    refine fun _ => Journal.hasHeader_concurs.meets fun _ _ => ⟨fun _ => h, fun _ => ?_⟩
    exact (h.journal.setHeaderAsDirty hh).weaken fun _ hj => { h with journal := hj }
  refine ⟨fun _ => Journal.hasHeader_concurs.meets fun _ _ _ => ⟨fun _ _ => ?_, fun _ => ?_⟩,
    fun _ => ⟨fun _ _ => ?_, fun _ => ?_⟩⟩
  all_goals exact ⟨fun _ => h, hset⟩

theorem replaceHeaders_stamped (hs : ∀ header ∈ headers, header.Stamped ids) :
    Meets Undiverged (Stamped ids) (replaceHeaders headers r) := by
  induction headers generalizing r with
  | nil => exact h
  | cons header headers ih =>
    have ⟨hh, hs⟩ := List.forall_mem_cons.mp hs
    unfold replaceHeaders
    simp only [Meets.bind_eq]
    exact (replaceHeader_stamped h hh).weaken fun _ h => ih h hs

theorem setOpAndCommitMax_stamped (hop : r.status = .normal → r.commitMin ≤ op)
    (hq : ∀ prepare ∈ r.pipelineQueue.prepareQueue, prepare.op ≤ op) :
    Meets Undiverged (Stamped ids) (r.setOpAndCommitMax op commitMax) := by
  unfold setOpAndCommitMax
  simp only [Meets.bind_eq, Meets.ite_iff, Meets.pure_eq, meets_assert_eq, meets_assertOn_eq,
    undiverged.general, undiverged_window, implies_true, and_true]
  intros
  refine ⟨fun _ _ _ _ => ?_, fun _ _ => ?_⟩
  all_goals exact h.journal.removeEntriesFrom.weaken fun _ hj _ _ =>
    { h with committed := hop, pending := hq, journal := hj }

end

end Replica

end TigerBeetle
