import TigerBeetle.Machine
import TigerBeetle.Theorems.Pipeline

namespace TigerBeetle

open Fallible Fault

@[ext]
structure Ack where
  op : Nat
  checksum : Nat
  replica : Nat
  deriving DecidableEq, Repr

theorem PrepareOkResult.counted {result : PrepareOkResult} (h : result.acknowledged)
    (hn : ∀ op checksum, result ≠ .quorumReached op checksum) :
    result = .ackCounted ∨ result = .duplicateAck := by
  cases result with
  | ackCounted                => exact .inl rfl
  | duplicateAck              => exact .inr rfl
  | quorumReached op checksum => exact absurd rfl (hn op checksum)
  | unknownOp                 => exact nomatch h
  | checksumMismatch          => exact nomatch h
  | ignored                   => exact nomatch h

variable {E : Fault → Prop}

namespace Replica

-- The replicas that acknowledged a prepare.
def ackers (acks : Finset Ack) (op checksum : Nat) : Finset Nat :=
  (acks.filter fun ack => ack.op = op ∧ ack.checksum = checksum).image (·.replica)

-- The acknowledgements of a replica of its own pipeline.
def ownAcks (r : Replica) : List Ack :=
  r.pipelineQueue.prepareQueue.map fun prepare =>
    { op := prepare.op, checksum := prepare.checksum, replica := r.replicaIndex }

-- The acknowledgements after another one that a primary receives, which only counts for the prepares
-- that are in the pipeline.
def acknowledged (r : Replica) (acks : Finset Ack) (op checksum replica : Nat) : Finset Ack :=
  if r.isPrimary ∧ r.status = .normal ∧ ∃ prepare ∈ r.pipelineQueue.prepareQueue, prepare.op = op then
    insert ⟨op, checksum, replica⟩ acks
  else
    acks

-- The acknowledgement does not come from a replica whose index is at least the size of a quorum
-- before there is a quorum. If the checksum of the prepare is unknown, so is that of the
-- acknowledgement.
def RegularAck (r : Replica) (acks : Finset Ack) (op checksum replica : Nat) : Prop :=
  ∀ prepare ∈ r.pipelineQueue.prepareQueue, prepare.op = op →
    (prepare.checksum = 0 → checksum = 0) ∧
    (prepare.checksum = checksum →
      let ackers := insert replica (ackers acks op checksum)
      r.quorum.replication ≤ ackers.card ∨ ackers ⊆ Finset.range r.quorum.replication)

-- The pipeline counts the given acknowledgements, and marks what has a quorum of them.
structure Tallied (r : Replica) (acks : Finset Ack) : Prop where
  length_eq : r.okFromAllReplicas.length = r.pipelineQueue.prepareQueue.length
  bits : ∀ (slot : Nat) (prepare : PipelinePrepare) (bits : Nat),
    r.pipelineQueue.prepareQueue[slot]? = some prepare → r.okFromAllReplicas[slot]? = some bits →
    bits < 2 ^ 64 ∧ BitSet.ones 64 bits = ackers acks prepare.op prepare.checksum
  marked : ∀ (slot : Nat) (prepare : PipelinePrepare), r.pipelineQueue.prepareQueue[slot]? = some prepare →
    (prepare.okQuorumReceived ↔
      r.quorum.replication ≤ (ackers acks prepare.op prepare.checksum).card)
  ascending : (r.pipelineQueue.prepareQueue.map (·.op)).Pairwise (· < ·)
  head : ∀ prepare ∈ r.pipelineQueue.prepareQueue, prepare.op ≤ r.op
  past : ∀ ack ∈ acks, ack.op ≤ r.op ∧ ack.replica < r.replicaCount

variable {r : Replica} {acks : Finset Ack} {op checksum replica slot : Nat}
  {prepare prepare' : PipelinePrepare}

@[simp]
theorem mem_ackers : replica ∈ ackers acks op checksum ↔ ⟨op, checksum, replica⟩ ∈ acks := by
  simp only [ackers, Finset.mem_image, Finset.mem_filter]
  constructor
  · rintro ⟨⟨_, _, _⟩, ⟨hm, rfl, rfl⟩, rfl⟩
    exact hm
  · exact fun h => ⟨_, ⟨h, rfl, rfl⟩, rfl⟩

@[simp]
theorem ackers_insert : ackers (insert ⟨op, checksum, replica⟩ acks) op checksum =
    insert replica (ackers acks op checksum) := by
  ext
  simp

theorem ackers_insert_of_ne {op' checksum' : Nat} (h : op ≠ op' ∨ checksum ≠ checksum') :
    ackers (insert ⟨op, checksum, replica⟩ acks) op' checksum' = ackers acks op' checksum' := by
  ext
  simp only [mem_ackers, Finset.mem_insert, Ack.mk.injEq]
  grind

theorem getElem?_concat {α : Type} {l : List α} {x y : α} :
    (l ++ [x])[slot]? = some y ↔ l[slot]? = some y ∨ slot = l.length ∧ x = y := by
  rw [List.getElem?_append]
  split
  case isTrue hs => simp [hs.ne]
  case isFalse hs =>
    rw [List.getElem?_eq_none (Nat.not_lt.mp hs)]
    by_cases he : slot = l.length
    · simp [he]
    · simp [he, show slot - l.length ≠ 0 by omega]

theorem popCommitted_quorum : r.popCommitted.2.quorum = r.quorum := by
  unfold popCommitted
  split <;> rfl

variable {prepares : List PipelinePrepare}

namespace Tallied

variable (h : r.Tallied acks)

include h

theorem eq_of_op_eq {slot' : Nat} (hp : r.pipelineQueue.prepareQueue[slot]? = some prepare)
    (hp' : r.pipelineQueue.prepareQueue[slot']? = some prepare') (he : prepare.op = prepare'.op) :
    slot = slot' := by
  have hn : (r.pipelineQueue.prepareQueue.map (·.op)).Nodup := h.ascending.imp fun hlt => hlt.ne
  have hlt := (List.getElem?_eq_some_iff.mp hp).1
  refine (List.getElem?_inj (by simpa using hlt) hn).mp ?_
  simp [hp, hp', he]

theorem eq_of_mem (hp : prepare ∈ r.pipelineQueue.prepareQueue)
    (hp' : prepare' ∈ r.pipelineQueue.prepareQueue) (he : prepare.op = prepare'.op) :
    prepare = prepare' := by
  have ⟨slot, hs⟩ := List.mem_iff_getElem?.mp hp
  have ⟨slot', hs'⟩ := List.mem_iff_getElem?.mp hp'
  rw [h.eq_of_op_eq hs hs' he, hs'] at hs
  exact (Option.some.inj hs).symm

-- The acknowledgement of something that is not in the pipeline does not count.
theorem insert_of_ne (hop : op ≤ r.op) (hr : replica < r.replicaCount)
    (hne : ∀ prepare ∈ r.pipelineQueue.prepareQueue, op ≠ prepare.op ∨ checksum ≠ prepare.checksum) :
    r.Tallied (insert ⟨op, checksum, replica⟩ acks) where
  length_eq := h.length_eq
  bits slot prepare bits hp hb := by
    rw [ackers_insert_of_ne (hne prepare (List.mem_of_getElem? hp))]
    exact h.bits slot prepare bits hp hb
  marked slot prepare hp := by
    rw [ackers_insert_of_ne (hne prepare (List.mem_of_getElem? hp))]
    exact h.marked slot prepare hp
  ascending := h.ascending
  head := h.head
  past ack ha := by
    rcases Finset.mem_insert.mp ha with rfl | ha
    · exact ⟨hop, hr⟩
    · exact h.past ack ha

-- Counts one more acknowledgement of the entry in a slot.
theorem set {bits : Nat} {commitMins : Nat → Nat} (timeouts : Timeouts)
    (hp : r.pipelineQueue.prepareQueue[slot]? = some prepare) (hr : replica < r.replicaCount)
    (hop : prepare'.op = prepare.op) (hc : prepare'.checksum = prepare.checksum)
    (hw : bits < 2 ^ 64)
    (ho : BitSet.ones 64 bits = insert replica (ackers acks prepare.op prepare.checksum))
    (hm : prepare'.okQuorumReceived ↔
      r.quorum.replication ≤ (insert replica (ackers acks prepare.op prepare.checksum)).card) :
    Tallied { r with
        pipelineQueue.prepareQueue := r.pipelineQueue.prepareQueue.set slot prepare'
        okFromAllReplicas := r.okFromAllReplicas.set slot bits
        commitMins, timeouts }
      (insert ⟨prepare.op, prepare.checksum, replica⟩ acks) := by
  have hlt := (List.getElem?_eq_some_iff.mp hp).1
  have hmap := map_set (f := PipelinePrepare.op) hp hop
  have hother (slot' : Nat) (other : PipelinePrepare) (hne : slot ≠ slot')
      (ho : r.pipelineQueue.prepareQueue[slot']? = some other) :
      ackers (insert ⟨prepare.op, prepare.checksum, replica⟩ acks) other.op other.checksum =
        ackers acks other.op other.checksum :=
    ackers_insert_of_ne <| .inl fun he => hne (h.eq_of_op_eq hp ho he)
  constructor
  case length_eq => simpa using h.length_eq
  case bits =>
    intro slot' other bits' hq hb
    rw [List.getElem?_set] at hq hb
    by_cases he : slot = slot'
    · obtain rfl : prepare' = other := by simpa [he, he ▸ hlt] using hq
      obtain rfl : bits = bits' := by simpa [he, he ▸ hlt, h.length_eq] using hb
      rw [hop, hc, ackers_insert]
      exact ⟨hw, ho⟩
    · rw [if_neg he] at hq hb
      rw [hother slot' other he hq]
      exact h.bits slot' other bits' hq hb
  case marked =>
    intro slot' other hq
    rw [List.getElem?_set] at hq
    by_cases he : slot = slot'
    · obtain rfl : prepare' = other := by simpa [he, he ▸ hlt] using hq
      rw [hop, hc, ackers_insert]
      exact hm
    · rw [if_neg he] at hq
      rw [hother slot' other he hq]
      exact h.marked slot' other hq
  case ascending => exact hmap ▸ h.ascending
  case head =>
    intro other ho
    rcases List.mem_or_eq_of_mem_set ho with ho | rfl
    · exact h.head other ho
    · exact hop ▸ h.head prepare (List.mem_of_getElem? hp)
  case past =>
    intro ack ha
    rcases Finset.mem_insert.mp ha with rfl | ha
    · exact ⟨h.head prepare (List.mem_of_getElem? hp), hr⟩
    · exact h.past ack ha

theorem of_eq {r' : Replica}
    (hq : r'.pipelineQueue.prepareQueue = r.pipelineQueue.prepareQueue)
    (ho : r'.okFromAllReplicas = r.okFromAllReplicas) (hop : r'.op = r.op)
    (hn : r'.replicaCount = r.replicaCount) : r'.Tallied acks where
  length_eq := by rw [hq, ho, h.length_eq]
  bits := by
    rw [hq, ho]
    exact h.bits
  marked := by
    rw [hq, quorum, hn]
    exact h.marked
  ascending := by
    rw [hq]
    exact h.ascending
  head := by
    rw [hq, hop]
    exact h.head
  past := by
    rw [hop, hn]
    exact h.past

theorem countAck {bits : Nat} (commitMin : Nat)
    (hp : r.pipelineQueue.prepareQueue[slot]? = some prepare)
    (hb : r.okFromAllReplicas[slot]? = some bits) (hr : replica < r.replicaCount)
    (h64 : replica < 64)
    (hreg : let ackers := insert replica (ackers acks prepare.op prepare.checksum)
      r.quorum.replication ≤ ackers.card ∨ ackers ⊆ Finset.range r.quorum.replication) :
    let out := r.countAck slot prepare bits prepare.checksum commitMin replica
    out.2.Tallied (insert ⟨prepare.op, prepare.checksum, replica⟩ acks) ∧
      out.2.ownAcks = r.ownAcks ∧
      out.1.acknowledged ∧
      (r.quorum.replication ≤ (insert replica (ackers acks prepare.op prepare.checksum)).card ∨
        ∀ op checksum, out.1 ≠ .quorumReached op checksum) := by
  obtain ⟨hw, ho⟩ := h.bits slot prepare bits hp hb
  have hsame : { prepare with
      checksum := if prepare.checksum = 0 then prepare.checksum else prepare.checksum } = prepare := by
    simp
  unfold Replica.countAck
  rw [hsame]
  dsimp only
  split
  case isTrue hdup =>
    have hm : ⟨prepare.op, prepare.checksum, replica⟩ ∈ acks := by
      rw [← mem_ackers, ← ho]
      exact BitSet.mem_ones.mpr ⟨h64, hdup⟩
    rw [Finset.insert_eq_of_mem hm]
    refine ⟨h.of_eq ?_ rfl rfl rfl, ?_, rfl, .inr fun _ _ h => by cases h⟩
    · simpa using map_set (f := id) hp rfl
    · exact map_set hp rfl
  case isFalse hnew =>
    have hw' := BitSet.insert_lt hw h64
    have ho' : BitSet.ones 64 (BitSet.insert bits replica) =
        insert replica (ackers acks prepare.op prepare.checksum) := by
      rw [BitSet.ones_insert h64, ho]
    have hmask := BitSet.mask_le_iff (q := r.quorum.replication) hw'
    rw [BitSet.countOnes, ho'] at hmask
    split
    case isTrue hq =>
      have hcard := (hmask.mp hq).elim id fun hn => hreg.resolve_right hn
      exact ⟨h.set _ hp hr rfl rfl hw' ho' (by simpa using hcard), map_set hp rfl, rfl, .inl hcard⟩
    case isFalse hq =>
      have hcard := (not_or.mp (hmask.not.mp hq)).1
      have hle := Finset.card_le_card <|
        Finset.subset_insert replica (ackers acks prepare.op prepare.checksum)
      have hm := h.marked slot prepare hp
      refine ⟨?_, map_set hp rfl, rfl, .inr fun _ _ h => by cases h⟩
      refine h.set r.timeouts hp hr rfl rfl hw' ho' (hm.trans ⟨?_, ?_⟩)
      · exact fun hc => hc.trans hle
      · exact fun hc => absurd hc hcard

theorem onPrepareOk {checkpointId commitMin : Nat} (he : Careless E)
    (hreg : r.RegularAck acks op checksum replica) :
    Meets E
      (fun out =>
        out.2.Tallied (r.acknowledged acks op checksum replica) ∧ out.2.ownAcks = r.ownAcks ∧
          (r.isPrimary ∧ r.status = .normal →
            (∃ prepare ∈ r.pipelineQueue.prepareQueue,
              prepare.op = op ∧ prepare.checksum = checksum) →
            out.1.acknowledged) ∧
          (r.quorum.replication ≤
              (ackers (r.acknowledged acks op checksum replica) op checksum).card ∨
            ∀ op checksum, out.1 ≠ .quorumReached op checksum))
      (r.onPrepareOk op checksum checkpointId commitMin replica) := by
  refine onPrepareOk_meets he.toLenient (fun _ _ _ _ => he.checkpoint) ?ignored ?unknown ?mismatch
    ?count
  case ignored =>
    intro hn
    rw [acknowledged, if_neg fun hp => hn ⟨hp.1, hp.2.1⟩]
    exact ⟨h, rfl, fun hp => absurd hp hn, .inr nofun⟩
  case unknown =>
    intro _ hn
    rw [acknowledged, if_neg fun ⟨_, _, prepare, hp, he⟩ => hn prepare hp he]
    refine ⟨h.of_eq rfl rfl rfl rfl, rfl, fun _ ⟨prepare, hm, hop, _⟩ => ?_, .inr nofun⟩
    exact absurd hop (hn prepare hm)
  case mismatch =>
    intro hp hr prepare hm hop hne
    rw [acknowledged, if_pos ⟨hp.1, hp.2, prepare, hm, hop⟩]
    refine ⟨?_, rfl, fun _ ⟨other, ho, hop', hc⟩ => ?_, .inr nofun⟩
    · refine of_eq (insert_of_ne h (hop ▸ h.head prepare hm) hr fun other ho => ?_) rfl rfl rfl rfl
      by_cases he : op = other.op
      · obtain rfl := h.eq_of_mem hm ho (hop.trans he)
        exact .inr hne.symm
      · exact .inl he
    · obtain rfl := h.eq_of_mem hm ho (hop.trans hop'.symm)
      exact absurd hc hne
  case count =>
    intro hp hr h64 slot prepare bits hs hb hop hc
    have hm := List.mem_of_getElem? hs
    have ⟨hzero, hreg⟩ := hreg prepare hm hop
    obtain rfl : prepare.checksum = checksum := by
      by_cases hz : prepare.checksum = 0
      · rw [hz, hzero hz]
      · exact hc hz
    subst hop
    rw [acknowledged, if_pos ⟨hp.1, hp.2, prepare, hm, rfl⟩, ackers_insert]
    have ht : (r.trackProgress prepare.op commitMin replica).Tallied acks := h.of_eq rfl rfl rfl rfl
    have ⟨ht, ho, ha, hq⟩ := ht.countAck commitMin hs hb hr h64 (hreg rfl)
    exact ⟨ht, ho, fun _ _ => ha, hq⟩

theorem ackers_eq_empty (hlt : r.op < op) : ackers acks op checksum = ∅ := by
  ext replica
  simp only [mem_ackers, Finset.notMem_empty, iff_false]
  intro ha
  have := (h.past _ ha).1
  dsimp only at this
  omega

theorem card_ackers_le : (ackers acks op checksum).card ≤ r.replicaCount := by
  have hs : ackers acks op checksum ⊆ Finset.range r.replicaCount := fun _ hr =>
    Finset.mem_range.mpr (h.past _ (mem_ackers.mp hr)).2
  simpa using Finset.card_le_card hs

theorem countOnes_head (hq : r.pipelineQueue.prepareQueue = prepare :: prepares) :
    (r.okFromAllReplicas.head?.map (BitSet.countOnes 64)).getD 0 =
      (ackers acks prepare.op prepare.checksum).card := by
  have hlen := h.length_eq
  rw [hq, List.length_cons] at hlen
  have ⟨bits, rest, hb⟩ := List.exists_cons_of_length_eq_add_one hlen
  have ho := (h.bits 0 prepare bits (by rw [hq]; rfl) (by rw [hb]; rfl)).2
  simp [hb, BitSet.countOnes, ho]

theorem pushPrepare {header : Prepare} {body : Body} (hlt : r.op < header.op) :
    ({ r with op := header.op }.pushPrepare header body).Tallied acks := by
  have hnone : ackers acks header.op header.checksum = ∅ := h.ackers_eq_empty hlt
  constructor
  case length_eq => simp [Replica.pushPrepare, h.length_eq]
  case bits =>
    intro slot prepare bits hp hb
    rcases getElem?_concat.mp hp with hp | ⟨hs, rfl⟩
    all_goals rcases getElem?_concat.mp hb with hb | ⟨hs', rfl⟩
    · exact h.bits slot prepare bits hp hb
    · have hs : slot < r.pipelineQueue.prepareQueue.length := (List.getElem?_eq_some_iff.mp hp).1
      exact absurd (hs'.trans h.length_eq) hs.ne
    · have hs' : slot < r.okFromAllReplicas.length := (List.getElem?_eq_some_iff.mp hb).1
      exact absurd (hs.trans h.length_eq.symm) hs'.ne
    · exact ⟨by decide, BitSet.ones_zero.trans hnone.symm⟩
  case marked =>
    intro slot prepare hp
    rcases getElem?_concat.mp hp with hp | ⟨hs, rfl⟩
    · exact h.marked slot prepare hp
    · have hq := Quorum.replication_pos (Nat.zero_lt_of_lt r.index_lt)
      simp only [PipelinePrepare.ofPrepare, hnone, Finset.card_empty, Bool.false_eq_true, false_iff,
        not_le]
      exact hq
  case ascending =>
    simp only [Replica.pushPrepare, List.map_append, List.map_cons, List.map_nil,
      List.pairwise_append, List.mem_map, List.mem_singleton]
    refine ⟨h.ascending, List.pairwise_singleton _ _, ?_⟩
    rintro _ ⟨prepare, hp, rfl⟩ _ rfl
    exact (h.head prepare hp).trans_lt hlt
  case head =>
    intro prepare hp
    rcases List.mem_append.mp hp with hp | hp
    · exact (h.head prepare hp).trans hlt.le
    · obtain rfl := List.mem_singleton.mp hp
      exact le_rfl
  case past => exact fun ack ha => ⟨(h.past ack ha).1.trans hlt.le, (h.past ack ha).2⟩

theorem popCommitted : r.popCommitted.2.Tallied acks := by
  unfold Replica.popCommitted
  split
  case h_1 => exact h
  case h_2 prepare prepares he =>
    constructor
    case length_eq => simp [h.length_eq, he]
    case bits =>
      intro slot prepare bits hp hb
      refine h.bits (slot + 1) prepare bits (by simpa [he] using hp) (by simpa using hb)
    case marked =>
      intro slot prepare hp
      exact h.marked (slot + 1) prepare (by simpa [he] using hp)
    case ascending => exact (List.pairwise_cons.mp (by simpa [he] using h.ascending)).2
    case head => exact fun other ho => h.head other (by simpa [he] using .inr ho)
    case past => exact h.past

omit h in
theorem load (hops : (prepares.map (·.op)).Pairwise (· < ·))
    (hle : ∀ prepare ∈ prepares, prepare.op ≤ r.op ∧ ¬prepare.okQuorumReceived) :
    Tallied { r with
      pipelineQueue.prepareQueue := prepares
      okFromAllReplicas := List.replicate prepares.length 0 } ∅ where
  length_eq := List.length_replicate
  bits slot prepare bits hp hb := by
    obtain rfl : bits = 0 := List.eq_of_mem_replicate (List.mem_of_getElem? hb)
    exact ⟨by decide, BitSet.ones_zero⟩
  marked slot prepare hp := by
    have hm := (hle prepare (List.mem_of_getElem? hp)).2
    have hq := Quorum.replication_pos (Nat.zero_lt_of_lt r.index_lt)
    simpa [hm, ackers, quorum] using hq.ne'
  ascending := hops
  head prepare hp := (hle prepare hp).1
  past := by simp

end Tallied

theorem mem_ownAcks {ack : Ack} : ack ∈ r.ownAcks ↔ ∃ prepare ∈ r.pipelineQueue.prepareQueue,
    prepare.op = ack.op ∧ prepare.checksum = ack.checksum ∧ r.replicaIndex = ack.replica := by
  simp only [ownAcks, List.mem_map, Ack.ext_iff]

-- The new primary acknowledges its own survivors, which never completes a quorum.
theorem acknowledgeSurvivors_meets
    (he : Careless E) (h : r.Tallied acks) (hp : r.isPrimary ∧ r.status = .normal)
    (hq : prepares ≠ [] → 1 < r.quorum.replication ∧ r.replicaIndex < r.quorum.replication)
    (hown : ∀ ack ∈ acks, ack.replica = r.replicaIndex)
    (hall : ∀ prepare ∈ prepares, ⟨prepare.op, prepare.checksum, r.replicaIndex⟩ ∈ r.ownAcks) :
    Meets E
      (fun r' => r'.quorum = r.quorum ∧ r'.ownAcks = r.ownAcks ∧ r'.Tallied (acks ∪
        (prepares.map fun prepare => ⟨prepare.op, prepare.checksum, r.replicaIndex⟩).toFinset))
      (acknowledgeSurvivors prepares r) := by
  induction prepares generalizing r acks with
  | nil => exact ⟨rfl, rfl, by simpa using h⟩
  | cons prepare prepares ih =>
    have ⟨hq1, hqi⟩ := hq (List.cons_ne_nil _ _)
    have ⟨entry, hm, hop, hc, _⟩ := mem_ownAcks.mp (hall prepare (.head _))
    let acks' := insert ⟨prepare.op, prepare.checksum, r.replicaIndex⟩ acks
    have hown' : ∀ ack ∈ acks', ack.replica = r.replicaIndex := by simpa [acks'] using hown
    have hsub : insert r.replicaIndex (ackers acks prepare.op prepare.checksum) ⊆
        {r.replicaIndex} := by
      intro replica hr
      rw [← ackers_insert] at hr
      simpa using hown' _ (mem_ackers.mp hr)
    have hreg : r.RegularAck acks prepare.op prepare.checksum r.replicaIndex := by
      intro other ho hop'
      obtain rfl := h.eq_of_mem ho hm (hop'.trans hop.symm)
      refine ⟨fun hz => hc.symm.trans hz, fun _ => .inr (hsub.trans ?_)⟩
      simpa using hqi
    have hacks : r.acknowledged acks prepare.op prepare.checksum r.replicaIndex = acks' :=
      if_pos ⟨hp.1, hp.2, entry, hm, hop⟩
    have hframe : Meets E
        (fun out => out.2.isPrimary = r.isPrimary ∧ out.2.status = r.status ∧
          out.2.replicaIndex = r.replicaIndex ∧ out.2.quorum = r.quorum)
        (r.onPrepareOk prepare.op prepare.checksum prepare.checkpointId r.commitMin
          r.replicaIndex) :=
      onPrepareOk_frame he fun _ _ _ _ _ _ _ _ => ⟨rfl, rfl, rfl, rfl⟩
    unfold acknowledgeSurvivors
    simp only [Meets.bind_eq, meets_assertOn_eq]
    refine ((h.onPrepareOk he hreg).and hframe).weaken ?_
    rintro ⟨result, r'⟩ ⟨⟨ht, ho, ha, hr⟩, hprimary, hstatus, hindex, hquorum⟩
    rw [hacks] at ht hr
    have hcard : (ackers acks' prepare.op prepare.checksum).card ≤ 1 := by
      simpa only [acks', ackers_insert, Finset.card_singleton] using Finset.card_le_card hsub
    have hcounted := PrepareOkResult.counted (ha hp ⟨entry, hm, hop, hc⟩)
      (hr.resolve_left (by omega))
    refine ⟨fun _ => ?_, fun hn => absurd hcounted hn⟩
    have hrest := ih ht (by rw [hprimary, hstatus]; exact hp)
      (fun _ => by rw [hquorum, hindex]; exact ⟨hq1, hqi⟩)
      (by rw [hindex]; exact hown')
      (fun other hother => by rw [hindex, ho]; exact hall other (.tail _ hother))
    rw [hindex, ho, hquorum] at hrest
    simpa [acks', Finset.insert_union, Finset.union_insert] using hrest

end Replica

-- A primary with the acknowledgements that it received for the prepares of its pipeline. The
-- decisions record who had acknowledged a prepare whenever it was found to have a quorum, or
-- committed.
structure Acknowledging where
  replica : Replica
  acks : Finset Ack
  decisions : List (Finset Nat)

namespace Acknowledging

open Replica

inductive Event
  | prepare (client request : Nat) (operation : Operation) (body : Body) (requestChecksum : Nat)
  | prepareOk (op checksum checkpointId commitMin replica : Nat)
  | commit
  | startView (now : Nat)

def step [Env] (s : Acknowledging) : Event → Result Acknowledging
  | .prepare client request operation body requestChecksum => do
    let (result, r) ←
      s.replica.primaryPipelinePrepare client request operation body requestChecksum
    match result with
    | .ok op   => return { s with
      replica := r, acks := s.acks ∪ (r.ownAcks.filter (·.op = op)).toFinset }
    | .error _ => return { s with replica := r }
  | .prepareOk op checksum checkpointId commitMin replica => do
    let (result, r) ← s.replica.onPrepareOk op checksum checkpointId commitMin replica
    let acks := s.replica.acknowledged s.acks op checksum replica
    match result with
    | .quorumReached .. =>
      return { replica := r, acks, decisions := s.decisions ++ [ackers acks op checksum] }
    | _ => return { s with replica := r, acks }
  | .commit => do
    let r ← s.replica.commitStartPipeline
    match r.commitPrepare, r.pipelineQueue.prepareQueue with
    | some op, head :: _ =>
      let r ← { r with commitPrepare := none }.commitOp op
      return { s with
        replica := r.popCommitted.2
        decisions := s.decisions ++ [ackers s.acks head.op head.checksum] }
    | _, _ => return { s with replica := r }
  | .startView now => do
    let r ← s.replica.primaryStartViewAsTheNewPrimary now
    return { s with replica := r, acks := r.ownAcks.toFinset }

def machine [Env] : Machine Acknowledging Event Fault where
  init s := s.replica.pipelineQueue.prepareQueue = [] ∧ s.replica.okFromAllReplicas = [] ∧
    s.acks = ∅ ∧ s.decisions = []
  step := step

-- A prepare is marked and committed by a quorum of replicas, and marked as soon as there is one.
structure ByQuorum (s : Acknowledging) : Prop where
  replicas : ∀ ack ∈ s.acks, ack.replica < s.replica.replicaCount
  marked : ∀ prepare ∈ s.replica.pipelineQueue.prepareQueue, prepare.okQuorumReceived ↔
    s.replica.quorum.replication ≤ (ackers s.acks prepare.op prepare.checksum).card
  decided : ∀ ackers ∈ s.decisions, s.replica.quorum.replication ≤ ackers.card

-- Besides, no step that meets the guard fails an assertion about quorums.
structure Sound [Env] (guard : Acknowledging → Event → Prop) (s : Acknowledging) : Prop
    extends ByQuorum s where
  upright : ∀ e, guard s e → Meets (Besides .quorum) (fun _ => True) (s.step e)

-- The index of a primary that prepares, or that has survivors, is below the size of a quorum. So are
-- those of the replicas that acknowledge a prepare before it has a quorum.
def Regular (s : Acknowledging) : Event → Prop
  | .prepare .. => s.replica.prepareReject = none →
    s.replica.quorum.replication ≤ 1 ∨ s.replica.replicaIndex < s.replica.quorum.replication
  | .prepareOk op checksum _ _ replica => s.replica.RegularAck s.acks op checksum replica
  | .commit => True
  | .startView _ => s.replica.commitMax < s.replica.op →
    1 < s.replica.quorum.replication ∧ s.replica.replicaIndex < s.replica.quorum.replication

structure Invariant (s : Acknowledging) : Prop where
  tallied : s.replica.Tallied s.acks
  decided : ∀ ackers ∈ s.decisions, s.replica.quorum.replication ≤ ackers.card

namespace Invariant

variable {s : Acknowledging} (hi : s.Invariant)

include hi

theorem byQuorum : s.ByQuorum where
  replicas ack ha := (hi.tallied.past ack ha).2
  marked prepare hp := by
    have ⟨slot, hs⟩ := List.mem_iff_getElem?.mp hp
    exact hi.tallied.marked slot prepare hs
  decided := hi.decided

variable [Env] {E : Fault → Prop} (he : Careless E)

include he

theorem prepare {client request requestChecksum : Nat} {operation : Operation} {body : Body}
    (hg : s.Regular (.prepare client request operation body requestChecksum)) :
    Meets E Invariant (s.step (.prepare client request operation body requestChecksum)) := by
  simp only [step, Meets.bind_eq]
  refine primaryPipelinePrepare_meets he.toLenient (fun _ _ => hi) ?accept
  intro timestamp checkpointId body' header journal hreject _ _ _ hheader _
  have hop : header.op = s.replica.op + 1 := by rw [hheader]; rfl
  have hp := (prepareReject_eq_none.mp hreject).1
  generalize hr : ({ s.replica with
    prepareTimestamp := timestamp, op := header.op, journal }.pushPrepare header body') = r
  have ht : r.Tallied s.acks := by
    rw [← hr]
    exact (hi.tallied.pushPrepare (by omega)).of_eq rfl rfl rfl rfl
  have hpr : r.isPrimary ∧ r.status = .normal := hr ▸ hp
  have hqr : r.quorum = s.replica.quorum := by rw [← hr]; rfl
  have hir : r.replicaIndex = s.replica.replicaIndex := by rw [← hr]; rfl
  have hqueue : r.pipelineQueue.prepareQueue =
    s.replica.pipelineQueue.prepareQueue ++ [.ofPrepare header body'] := by rw [← hr]; rfl
  have hnone : ackers s.acks header.op header.checksum = ∅ := hi.tallied.ackers_eq_empty (by omega)
  have hlast : PipelinePrepare.ofPrepare header body' ∈ r.pipelineQueue.prepareQueue := by
    simp [hqueue]
  have hreg : r.RegularAck s.acks header.op header.checksum s.replica.replicaIndex := by
    intro other ho hop'
    obtain rfl := ht.eq_of_mem ho hlast hop'
    refine ⟨id, fun _ => ?_⟩
    simpa [hnone, hqr] using hg hreject
  have hown : (r.ownAcks.filter (·.op = header.op)).toFinset =
      {⟨header.op, header.checksum, s.replica.replicaIndex⟩} := by
    ext ack
    simp only [List.mem_toFinset, List.mem_filter, mem_ownAcks, decide_eq_true_eq,
      Finset.mem_singleton, Ack.ext_iff, hir]
    constructor
    · rintro ⟨⟨prepare, hm, hop', hc, hr⟩, he⟩
      obtain rfl := ht.eq_of_mem hm hlast (hop'.trans he)
      exact ⟨he, hc.symm, hr.symm⟩
    · rintro ⟨he, hc, hr⟩
      exact ⟨⟨_, hlast, he.symm, hc.symm, hr.symm⟩, he⟩
  have hframe : Meets E (·.2.quorum = s.replica.quorum)
      (r.onPrepareOk header.op header.checksum header.checkpointId s.replica.commitMin
        s.replica.replicaIndex) :=
    onPrepareOk_frame he fun _ _ _ _ _ _ _ _ => hqr
  refine ((ht.onPrepareOk he hreg).and hframe).weaken ?_
  rintro ⟨result, r'⟩ ⟨⟨ht', hown', _⟩, hq⟩ _
  have hacks : r.acknowledged s.acks header.op header.checksum s.replica.replicaIndex =
      s.acks ∪ (r'.ownAcks.filter (·.op = header.op)).toFinset := by
    rw [hown', hown, acknowledged, if_pos ⟨hpr.1, hpr.2, _, hlast, rfl⟩, Finset.insert_eq,
      Finset.union_comm]
  rw [hacks] at ht'
  have ⟨timeouts, htimeouts⟩ := r'.startPipelineTimeouts_eq
  dsimp only
  rw [htimeouts]
  exact ⟨ht'.of_eq rfl rfl rfl rfl, fun ackers ha => hq ▸ hi.decided ackers ha⟩

theorem prepareOk {op checksum checkpointId commitMin replica : Nat}
    (hg : s.Regular (.prepareOk op checksum checkpointId commitMin replica)) :
    Meets E Invariant (s.step (.prepareOk op checksum checkpointId commitMin replica)) := by
  simp only [step, Meets.bind_eq]
  have hframe : Meets E (·.2.quorum = s.replica.quorum)
      (s.replica.onPrepareOk op checksum checkpointId commitMin replica) :=
    onPrepareOk_frame he fun _ _ _ _ _ _ _ _ => rfl
  refine ((hi.tallied.onPrepareOk he hg).and hframe).weaken ?_
  rintro ⟨result, r⟩ ⟨⟨ht, _, _, hr⟩, hq⟩
  cases result with
  | quorumReached op' checksum' =>
    refine ⟨ht, fun ackers ha => hq ▸ ?_⟩
    rcases List.mem_append.mp ha with ha | ha
    · exact hi.decided ackers ha
    · obtain rfl := List.mem_singleton.mp ha
      exact hr.resolve_right fun hn => hn op' checksum' rfl
  | _ => exact ⟨ht, fun ackers ha => hq ▸ hi.decided ackers ha⟩

theorem commit : Meets E Invariant (s.step .commit) := by
  simp only [step, Meets.bind_eq, commitStartPipeline]
  simp only [he.assert_eq]
  intro hn _ _
  have hn : s.replica.commitPrepare = none := by simpa using hn
  cases hq : s.replica.pipelineQueue.prepareQueue with
  | nil => simpa [hn] using hi
  | cons head prepares =>
    simp only [Meets.ite_iff, Meets.pure_eq, Meets.bind_eq, meets_assertOn_eq]
    refine ⟨fun _ => by simpa [hn] using hi, fun hm => ?_⟩
    have hmarked := (hi.tallied.marked 0 head (by rw [hq]; rfl)).mp (by simpa using hm)
    have hle : (ackers s.acks head.op head.checksum).card ≤ s.replica.replicaCount :=
      hi.tallied.card_ackers_le
    rw [hi.tallied.countOnes_head hq]
    refine ⟨fun _ => ⟨fun _ => ?_, fun hn => absurd hle hn⟩, fun hn => absurd hmarked hn⟩
    rw [hq]
    refine Meets.bind_iff.mpr <| commitOp_meets he.toLenient fun journal _ _ _ _ => ?_
    constructor
    case tallied =>
      apply Tallied.popCommitted
      exact hi.tallied.of_eq rfl rfl rfl rfl
    case decided =>
      intro ackers ha
      refine (congrArg Quorum.replication popCommitted_quorum).trans_le ?_
      rcases List.mem_append.mp ha with ha | ha
      · exact hi.decided ackers ha
      · obtain rfl := List.mem_singleton.mp ha
        exact hmarked

theorem startView {now : Nat} (hg : s.Regular (.startView now)) :
    Meets E Invariant (s.step (.startView now)) := by
  simp only [step, Meets.bind_eq, primaryStartViewAsTheNewPrimary]
  simp only [he.assert_eq]
  intro _ _ _ _
  refine he.meets primaryJournalRepaired_unwatched fun _ _ _ _ hle => ?_
  refine he.meets committedAnchor_unwatched fun _ _ => ?_
  refine loadSurvivors_meets he.toLenient fun prepares hops hall => ?_
  intro _
  refine transitionToNormalFromViewChangeStatus_meets he.toLenient fun _ _ _ _ _ => ?_
  have hload (r : Replica) (hqueue : r.pipelineQueue.prepareQueue = prepares)
      (ho : r.okFromAllReplicas = List.replicate (s.replica.op - s.replica.commitMax) 0)
      (hop : r.op = s.replica.op) (hp : r.isPrimary ∧ r.status = .normal)
      (hq : r.quorum = s.replica.quorum) (hindex : r.replicaIndex = s.replica.replicaIndex) :
      Meets E (fun r' => Invariant { s with replica := r', acks := r'.ownAcks.toFinset })
        (acknowledgeSurvivors r.pipelineQueue.prepareQueue r) := by
    have hlen := congrArg List.length hops
    rw [List.length_map, List.length_range'] at hlen
    have hle (prepare : PipelinePrepare) (hm : prepare ∈ prepares) :
        prepare.op ≤ r.op ∧ ¬prepare.okQuorumReceived := by
      have hrange := List.mem_map_of_mem (f := PipelinePrepare.op) hm
      rw [hops, List.mem_range'_1] at hrange
      obtain ⟨_, _, he⟩ := hall prepare hm
      have hn : prepare.okQuorumReceived = false := by rw [he]; rfl
      exact ⟨by omega, by simp [hn]⟩
    have ht : r.Tallied ∅ :=
      (Tallied.load (hops ▸ List.pairwise_lt_range') hle).of_eq hqueue (by rw [ho, ← hlen]) rfl rfl
    refine (acknowledgeSurvivors_meets he ht hp ?guard (by simp) ?own).weaken ?_
    case guard =>
      intro hne
      rw [hqueue, ← List.length_pos_iff, hlen] at hne
      rw [hq, hindex]
      exact hg (by omega)
    case own => exact fun prepare hm => List.mem_map_of_mem hm
    rintro r' ⟨hq', hown, ht'⟩
    rw [Finset.empty_union] at ht'
    refine ⟨?_, fun ackers ha => ?_⟩
    · dsimp only
      rw [hown]
      exact ht'
    · dsimp only
      rw [hq', hq]
      exact hi.decided ackers ha
  exact hload _ rfl rfl rfl ⟨‹_›, rfl⟩ rfl rfl

end Invariant

variable {s : Acknowledging}

section

variable [Env]

theorem Invariant.init (h : machine.init s) : s.Invariant where
  tallied := by
    obtain ⟨hq, ho, ha, _⟩ := h
    rw [ha]
    have ht : Replica.Tallied { s.replica with
      pipelineQueue.prepareQueue := []
      okFromAllReplicas := List.replicate 0 0 } ∅ := Tallied.load .nil (by simp)
    exact ht.of_eq hq ho rfl rfl
  decided := by simp [h.2.2.2]

theorem Invariant.step {e : Event} (hi : s.Invariant) (he : Careless E)
    (hg : s.Regular e) : Meets E Invariant (s.step e) := by
  cases e with
  | prepare   => exact hi.prepare he hg
  | prepareOk => exact hi.prepareOk he hg
  | commit    => exact hi.commit he
  | startView => exact hi.startView he hg

-- In a run without irregular acknowledgements, prepares have a quorum when they are marked.
theorem sound_of_regular (h : machine.Reachable Regular s) : s.Sound Regular := by
  have hi : s.Invariant := h.invariant (fun _ => .init) fun _ _ _ hi hg => (hi.step .all hg).post
  constructor
  case toByQuorum => exact hi.byQuorum
  case upright =>
    intro e hg
    exact (hi.step (.besides (by decide) (by decide)) hg).weaken fun _ _ => trivial

end

section

attribute [local instance] Env.plain

instance {r : Replica} {acks : Finset Ack} {op checksum replica : Nat} :
    Decidable (r.RegularAck acks op checksum replica) :=
  inferInstanceAs (Decidable (∀ _ ∈ _, _ → (_ → _) ∧ (_ → _ ∨ _)))

instance {e : Event} : Decidable (s.Regular e) :=
  match e with
  | .prepare ..   => inferInstanceAs (Decidable (_ → _ ∨ _))
  | .prepareOk .. => inferInstanceAs (Decidable (RegularAck ..))
  | .commit       => .isTrue trivial
  | .startView _  => inferInstanceAs (Decidable (_ → _ ∧ _))

-- The primary of the view in a cluster of three that has the index of the view.
def primaryOf (view : Nat) (h : view < 3) : Acknowledging where
  replica := { Replica.started 0 view 3 h with view, logView := view }
  acks := ∅
  decisions := []

theorem init_primaryOf {view : Nat} {h : view < 3} : machine.init (primaryOf view h) :=
  ⟨rfl, rfl, rfl, rfl⟩

def registration : Event :=
  .prepare 7 0 .register [] 0

theorem zero_lt_replicas : 0 < 3 := by
  decide

def registrationChecksum : Nat :=
  ((primaryOf 0 zero_lt_replicas).replica.prepareHeader 7 0 .register [] 0 0 1).checksum

-- The first prepare of the primary with index 0 and a backup commit it.
theorem sound_of_regular_primaryOf :
    ∃ s, machine.Reachable Regular s ∧ s.Sound Regular ∧ s.decisions = [{0, 1}, {0, 1}] := by
  have hl : machine.Leads Regular (·.decisions = [{0, 1}, {0, 1}])
      [registration, .prepareOk 1 registrationChecksum 0 0 1, .commit]
      (primaryOf 0 (by decide)) := by
    decide
  have ⟨s, hs, hd⟩ := Machine.Reachable.leads (.init init_primaryOf) hl
  exact ⟨s, hs, sound_of_regular hs, hd⟩

-- The primary with index 2 marks its own prepare before any backup acknowledges it.
theorem not_sound : ¬∀ s, machine.Reachable (fun _ _ => True) s → s.Sound fun _ _ => True := by
  intro h
  have hl : machine.Leads (fun _ _ => True)
      (fun s => ∃ prepare ∈ s.replica.pipelineQueue.prepareQueue, prepare.okQuorumReceived ∧
        (ackers s.acks prepare.op prepare.checksum).card < s.replica.quorum.replication)
      [registration] (primaryOf 2 (by decide)) := by
    decide
  have ⟨s, hs, prepare, hp, hm, hlt⟩ := Machine.Reachable.leads (.init init_primaryOf) hl
  exact absurd (((h s hs).marked prepare hp).mp hm) (by omega)

end

end Acknowledging

end TigerBeetle
