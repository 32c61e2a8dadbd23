import TigerBeetle.Reconfiguration
import TigerBeetle.Theorems.SuperblockWire

-- Reconfigurations reorder the members of a cluster.
namespace TigerBeetle.Reconfiguration

open Fallible Superblock Wire

section Members

variable {members members' : List Nat} {nodes nodes' : List Nat} {count count' : Nat}

-- The members are distinct, and stand before the zeros.
structure Packs (members nodes : List Nat) (count : Nat) : Prop where
  eq : members = nodes ++ List.replicate count 0
  zero : 0 ∉ nodes
  nodup : nodes.Nodup

def Packed (members : List Nat) : Prop :=
  ∃ nodes count, Packs members nodes count

theorem packed_of_validMembers (h : validMembers members = true) : Packed members := by
  unfold validMembers at h
  rw [decide_eq_true_iff] at h
  induction h with
  | nil => exact ⟨[], 0, rfl, nofun, .nil⟩
  | @cons member rest hmember _ ih =>
    by_cases hzero : member = 0
    · have hrest : ∀ after ∈ rest, after = 0 := fun after ha => by
        by_contra hne
        exact (hmember after ha).1 ⟨hzero, hne⟩
      have hreplicate : rest = List.replicate rest.length 0 := List.eq_replicate_iff.mpr ⟨rfl, hrest⟩
      refine ⟨[], rest.length + 1, ?_, nofun, .nil⟩
      rw [List.replicate_succ, ← hreplicate, hzero]
      rfl
    · obtain ⟨nodes, count, heq, hnodes, hnodup⟩ := ih
      refine ⟨member :: nodes, count, by rw [heq]; rfl, ?_,
        List.nodup_cons.mpr ⟨fun hm => ?_, hnodup⟩⟩
      · rw [List.mem_cons, not_or]
        exact ⟨Ne.symm hzero, hnodes⟩
      · have hrest : member ∈ rest := by
          rw [heq]
          exact List.mem_append_left _ hm
        exact (hmember member hrest).2 ⟨hzero, rfl⟩

theorem validMembers_of_packs (h : Packs members nodes count) : validMembers members = true := by
  obtain ⟨rfl, hzero, hnodup⟩ := h
  unfold validMembers
  rw [decide_eq_true_iff]
  refine List.pairwise_append.mpr ⟨?_, ?_, fun before hb after ha => ?_⟩
  · refine hnodup.imp_of_mem fun hb _ hne => ?_
    exact ⟨fun h => hzero (h.1 ▸ hb), fun h => hne h.2⟩
  · refine List.pairwise_replicate.mpr (.inr ?_)
    exact ⟨fun h => h.2 rfl, fun h => h.1 rfl⟩
  · obtain rfl := List.eq_of_mem_replicate ha
    exact ⟨fun h => h.2 rfl, fun h => h.1 h.2⟩

theorem validMembers_iff : validMembers members = true ↔ Packed members :=
  ⟨packed_of_validMembers, fun ⟨_, _, h⟩ => validMembers_of_packs h⟩

theorem memberCount_of {members : Members} (h : Packs members.val nodes count) :
    memberCount members = nodes.length := by
  have hnone : nodes.findIdx? (· = 0) = none :=
    List.findIdx?_eq_none_iff.mpr fun node hn => decide_eq_false fun hz => h.zero (hz ▸ hn)
  have hlength : nodes.length + count = membersMax := by
    rw [← members.property, h.eq, List.length_append, List.length_replicate]
  unfold memberCount
  rw [h.eq, List.findIdx?_append, hnone]
  cases count with
  | zero => simpa using hlength.symm
  | succ count => simp [List.replicate_succ, List.findIdx?_cons]

theorem memberCount_perm {members members' : Members} (h : Packed members.val)
    (h' : Packed members'.val) (hperm : members.val.Perm members'.val) :
    memberCount members = memberCount members' := by
  have hcount : ∀ {members : Members}, Packed members.val →
      memberCount members + members.val.count 0 = membersMax := by
    intro members ⟨nodes, count, hpacks⟩
    have hlength := members.property
    rw [hpacks.eq, List.length_append, List.length_replicate] at hlength
    rw [memberCount_of hpacks, hpacks.eq, List.count_append, List.count_eq_zero.mpr hpacks.zero,
      List.count_replicate_self, Nat.zero_add, hlength]
  have hsum := hcount h
  have hsum' := hcount h'
  rw [hperm.count_eq] at hsum
  omega

theorem requested_iff (h : Packs members' nodes' count') :
    requested members members' = true ↔ nodes' ⊆ members := by
  obtain ⟨rfl, hzero, hnodup⟩ := h
  induction nodes' with
  | nil =>
    refine ⟨fun _ => List.nil_subset _, fun _ => ?_⟩
    cases count' with
    | zero => rfl
    | succ count' => rfl
  | cons node nodes' ih =>
    obtain ⟨hnode, hzero⟩ := not_or.mp (mt List.mem_cons.mpr hzero)
    have hrest := ih hzero (List.nodup_cons.mp hnodup).2
    rw [List.cons_append, requested, if_neg (Ne.symm hnode), List.cons_subset]
    by_cases hm : node ∈ members
    · rw [if_neg (not_not.mpr hm), hrest]
      exact ⟨fun hs => ⟨hm, hs⟩, And.right⟩
    · rw [if_pos hm]
      exact ⟨nofun, fun hs => absurd hs.1 hm⟩

-- Among as many distinct members, a subset is a permutation.
theorem requested_iff_perm (h : Packs members nodes count) (h' : Packs members' nodes' count')
    (hlength : nodes'.length = nodes.length) (hmembers : members.length = members'.length) :
    requested members members' = true ↔ members.Perm members' := by
  rw [requested_iff h']
  refine ⟨fun hsub => ?_, fun hperm node hn => ?_⟩
  · have hnodes : nodes' ⊆ nodes := fun node hn => by
      have hm := hsub hn
      rw [h.eq, List.mem_append] at hm
      refine hm.resolve_right fun hz => ?_
      exact h'.zero (List.eq_of_mem_replicate hz ▸ hn)
    have hperm : nodes'.Perm nodes :=
      (List.subperm_of_subset h'.nodup hnodes).perm_of_length_le (Nat.le_of_eq hlength.symm)
    have hcount : count = count' := by
      rw [h.eq, h'.eq, List.length_append, List.length_append, List.length_replicate,
        List.length_replicate] at hmembers
      omega
    rw [h.eq, h'.eq, hcount]
    exact hperm.symm.append_right _
  · refine hperm.mem_iff.mpr ?_
    rw [h'.eq]
    exact List.mem_append_left _ hn

end Members

variable {request : ReconfigurationRequest} {current : ReconfigurationCurrent}

-- What a request has to meet before its members are compared with the current ones.
structure Admissible (request : ReconfigurationRequest) (current : ReconfigurationCurrent) : Prop where
  replicaCount_pos : request.replicaCount ≠ 0
  replicaCount_le : request.replicaCount.toNat ≤ replicasMax
  standbyCount_le : request.standbyCount.toNat ≤ standbysMax
  packed : Packed request.members.val
  counted : memberCount request.members =
    request.replicaCount.toNat + request.standbyCount.toNat
  reserved : request.reserved.val = zeros 54
  result : request.result = .reserved
  replicaCount : request.replicaCount = current.replicaCount
  standbyCount : request.standbyCount = current.standbyCount
  epoch : request.epoch.toNat = current.epoch.toNat + 1

theorem zeroed_reserved : zeroed request.reserved.val = true ↔ request.reserved.val = zeros 54 := by
  rw [zeroed_iff, request.reserved.property]

-- An epoch that is neither in the past, nor the current one, nor too far in the future is the next one.
theorem epoch_next (hpast : ¬request.epoch < current.epoch) (hne : request.epoch ≠ current.epoch)
    (hfuture : ¬1 < request.epoch - current.epoch) : request.epoch.toNat = current.epoch.toNat + 1 := by
  have hle : current.epoch ≤ request.epoch := UInt32.not_lt.mp hpast
  have hsub := UInt32.toNat_sub_of_le _ _ hle
  rw [UInt32.le_iff_toNat_le] at hle
  rw [UInt32.lt_iff_toNat_lt, hsub] at hfuture
  have hne' : request.epoch.toNat ≠ current.epoch.toNat := fun h => hne (UInt32.toNat_inj.mp h)
  have hone : (1 : UInt32).toNat = 1 := rfl
  omega

theorem validate_of (hcount : memberCount current.members =
    current.replicaCount.toNat + current.standbyCount.toNat) (h : Admissible request current) :
    request.validate current = request.validateMembers current := by
  have hvalid : ¬validMembers request.members.val = false := by
    rw [validMembers_iff.mpr h.packed]
    decide
  have hreserved : ¬zeroed request.reserved.val = false := by
    rw [zeroed_reserved.mpr h.reserved]
    decide
  have hepoch := h.epoch
  have hle : current.epoch ≤ request.epoch := by
    rw [UInt32.le_iff_toNat_le]
    omega
  have hpast : ¬request.epoch < current.epoch := UInt32.not_lt.mpr hle
  have hne : request.epoch ≠ current.epoch := fun he => by
    rw [he] at hepoch
    omega
  have hfuture : ¬1 < request.epoch - current.epoch := by
    rw [UInt32.lt_iff_toNat_lt, UInt32.toNat_sub_of_le _ _ hle, hepoch, Nat.add_sub_cancel_left]
    decide
  unfold ReconfigurationRequest.validate
  rw [assert_of hcount, ok_bind, if_neg h.replicaCount_pos, if_neg (Nat.not_lt.mpr h.replicaCount_le),
    if_neg (Nat.not_lt.mpr h.standbyCount_le), if_neg hvalid, if_neg (not_not.mpr h.counted),
    if_neg hreserved, if_neg (not_not.mpr h.result), if_neg (not_not.mpr h.replicaCount),
    if_neg (not_not.mpr h.standbyCount), if_neg hpast, if_neg hne, if_neg hfuture]

-- An answer that rejects the request.
def Rejects (answer : Result ReconfigurationResult) : Prop :=
  ∃ result, answer = .ok result ∧ result ≠ .ok ∧ result ≠ .configurationIsNoOp

theorem rejects_of {result : ReconfigurationResult}
    (h : result ≠ .ok ∧ result ≠ .configurationIsNoOp) : Rejects (.ok result) :=
  ⟨result, rfl, h⟩

theorem rejects_ite {c : Prop} [Decidable c] {answer rest : Result ReconfigurationResult}
    (h : Rejects answer) (hrest : ¬c → Rejects rest) : Rejects (if c then answer else rest) := by
  split
  · exact h
  · next hc => exact hrest hc

theorem rejects_validate (hcount : memberCount current.members =
    current.replicaCount.toNat + current.standbyCount.toNat) (h : ¬Admissible request current) :
    Rejects (request.validate current) := by
  unfold ReconfigurationRequest.validate
  rw [assert_of hcount, ok_bind]
  refine rejects_ite (rejects_of (by decide)) fun hzero => ?_
  refine rejects_ite (rejects_of (by decide)) fun hreplicas => ?_
  refine rejects_ite (rejects_of (by decide)) fun hstandbys => ?_
  refine rejects_ite (rejects_of (by decide)) fun hvalid => ?_
  refine rejects_ite (rejects_of (by decide)) fun hcounted => ?_
  refine rejects_ite (rejects_of (by decide)) fun hreserved => ?_
  refine rejects_ite (rejects_of (by decide)) fun hresult => ?_
  refine rejects_ite (rejects_of (by decide)) fun hreplicaCount => ?_
  refine rejects_ite (rejects_of (by decide)) fun hstandbyCount => ?_
  refine rejects_ite (rejects_of (by decide)) fun hpast => ?_
  refine rejects_ite ?_ fun hne => ?_
  · exact rejects_ite (rejects_of (by decide)) fun _ => rejects_of (by decide)
  refine rejects_ite (rejects_of (by decide)) fun hfuture => ?_
  refine absurd ?_ h
  exact ⟨hzero, Nat.not_lt.mp hreplicas, Nat.not_lt.mp hstandbys,
    validMembers_iff.mp (Bool.not_eq_false _ ▸ hvalid), not_not.mp hcounted,
    zeroed_reserved.mp (Bool.not_eq_false _ ▸ hreserved), not_not.mp hresult, not_not.mp hreplicaCount,
    not_not.mp hstandbyCount, epoch_next hpast hne hfuture⟩

theorem validateMembers_of (hvalid : validMembers current.members.val = true)
    (hcount : memberCount current.members = current.replicaCount.toNat + current.standbyCount.toNat)
    (h : Admissible request current) : request.validateMembers current =
      .ok (if ¬request.members.val.Perm current.members.val then .differentMemberSet
        else if request.members = current.members then .configurationIsNoOp else .ok) := by
  have hroom : current.epoch.toNat + 1 < UInt32.size := h.epoch ▸ UInt32.toNat_lt_size _
  have hepoch : request.epoch = current.epoch + 1 := by
    refine UInt32.toNat_inj.mp ?_
    rw [UInt32.toNat_add, h.epoch]
    exact (Nat.mod_eq_of_lt hroom).symm
  have hcounts : memberCount current.members = memberCount request.members := by
    rw [hcount, h.counted, h.replicaCount, h.standbyCount]
  obtain ⟨nodes, count, hpacks⟩ := h.packed
  obtain ⟨nodes', count', hpacks'⟩ := validMembers_iff.mp hvalid
  have hlength : nodes'.length = nodes.length := by
    rw [← memberCount_of hpacks, ← memberCount_of hpacks', hcounts]
  have hperm := requested_iff_perm hpacks hpacks' hlength
    (request.members.property.trans current.members.property.symm)
  unfold ReconfigurationRequest.validateMembers
  rw [assert_of hroom, assert_of hepoch, assert_of hvalid, assert_of (validMembers_of_packs hpacks),
    assert_of hcounts]
  simp only [ok_bind, ← hperm, Bool.not_eq_true]
  split
  · rfl
  · split <;> rfl

-- The requests that keep the members of the cluster, in the same or in another order.
structure Reorders (request : ReconfigurationRequest) (current : ReconfigurationCurrent) : Prop where
  replicaCount_pos : request.replicaCount ≠ 0
  replicaCount_le : request.replicaCount.toNat ≤ replicasMax
  standbyCount_le : request.standbyCount.toNat ≤ standbysMax
  packed : Packed request.members.val
  perm : request.members.val.Perm current.members.val
  reserved : request.reserved.val = zeros 54
  result : request.result = .reserved
  replicaCount : request.replicaCount = current.replicaCount
  standbyCount : request.standbyCount = current.standbyCount
  epoch : request.epoch.toNat = current.epoch.toNat + 1

theorem Reorders.admissible (hvalid : validMembers current.members.val = true)
    (hcount : memberCount current.members = current.replicaCount.toNat + current.standbyCount.toNat)
    (h : Reorders request current) : Admissible request current where
  replicaCount_pos := h.replicaCount_pos
  replicaCount_le := h.replicaCount_le
  standbyCount_le := h.standbyCount_le
  packed := h.packed
  counted := by
    rw [memberCount_perm h.packed (validMembers_iff.mp hvalid) h.perm, hcount, h.replicaCount,
      h.standbyCount]
  reserved := h.reserved
  result := h.result
  replicaCount := h.replicaCount
  standbyCount := h.standbyCount
  epoch := h.epoch

theorem Admissible.reorders (h : Admissible request current)
    (hperm : request.members.val.Perm current.members.val) : Reorders request current where
  replicaCount_pos := h.replicaCount_pos
  replicaCount_le := h.replicaCount_le
  standbyCount_le := h.standbyCount_le
  packed := h.packed
  perm := hperm
  reserved := h.reserved
  result := h.result
  replicaCount := h.replicaCount
  standbyCount := h.standbyCount
  epoch := h.epoch

-- A request is accepted exactly if it reorders the members.
theorem validate_exact (hvalid : validMembers current.members.val = true)
    (hcount : memberCount current.members = current.replicaCount.toNat + current.standbyCount.toNat) :
    (∃ result, request.validate current = .ok result) ∧
    (request.validate current = .ok .ok ↔
      Reorders request current ∧ request.members ≠ current.members) ∧
    (request.validate current = .ok .configurationIsNoOp ↔
      Reorders request current ∧ request.members = current.members) := by
  by_cases h : Admissible request current
  · rw [validate_of hcount h, validateMembers_of hvalid hcount h]
    refine ⟨⟨_, rfl⟩, ?_⟩
    by_cases hperm : request.members.val.Perm current.members.val
    · rw [if_neg (not_not.mpr hperm)]
      have hreorders := h.reorders hperm
      by_cases hsame : request.members = current.members
      · rw [if_pos hsame]
        exact ⟨⟨nofun, fun hr => absurd hsame hr.2⟩, fun _ => ⟨hreorders, hsame⟩, fun _ => rfl⟩
      · rw [if_neg hsame]
        exact ⟨⟨fun _ => ⟨hreorders, hsame⟩, fun _ => rfl⟩, nofun, fun hr => absurd hr.2 hsame⟩
    · rw [if_pos hperm]
      exact ⟨⟨nofun, fun hr => absurd hr.1.perm hperm⟩, nofun, fun hr => absurd hr.1.perm hperm⟩
  · obtain ⟨result, hresult, hok, hnoop⟩ := rejects_validate hcount h
    rw [hresult]
    refine ⟨⟨_, rfl⟩, ⟨fun he => ?_, fun hr => absurd (hr.1.admissible hvalid hcount) h⟩, fun he => ?_,
      fun hr => absurd (hr.1.admissible hvalid hcount) h⟩
    · exact absurd (Except.ok.inj he) hok
    · exact absurd (Except.ok.inj he) hnoop

section Exact

def membersOf (nodes : List Nat) (h : nodes.length ≤ membersMax) : Members :=
  ⟨nodes ++ List.replicate (membersMax - nodes.length) 0, by
    rw [List.length_append, List.length_replicate, Nat.add_sub_cancel' h]⟩

def currentOf (replicaCount standbyCount : UInt8) : ReconfigurationCurrent where
  members := membersOf [1, 2] (by decide)
  epoch := 0
  replicaCount := replicaCount
  standbyCount := standbyCount

def swapOf (replicaCount standbyCount : UInt8) : ReconfigurationRequest where
  members := membersOf [2, 1] (by decide)
  epoch := 1
  replicaCount := replicaCount
  standbyCount := standbyCount
  reserved := ⟨zeros 54, length_zeros⟩
  result := .reserved

theorem validate_exact_swap : (∃ result, (swapOf 1 1).validate (currentOf 1 1) = .ok result) ∧
    ((swapOf 1 1).validate (currentOf 1 1) = .ok .ok ↔
      Reorders (swapOf 1 1) (currentOf 1 1) ∧ (swapOf 1 1).members ≠ (currentOf 1 1).members) ∧
    ((swapOf 1 1).validate (currentOf 1 1) = .ok .configurationIsNoOp ↔
      Reorders (swapOf 1 1) (currentOf 1 1) ∧ (swapOf 1 1).members = (currentOf 1 1).members) :=
  validate_exact (by decide) (by decide)

-- A cluster of standbys only has matching counts, but no request to reorder it is accepted.
theorem not_validate_exact : ¬∀ (request : ReconfigurationRequest) (current : ReconfigurationCurrent),
    validMembers current.members.val = true →
    memberCount current.members = current.replicaCount.toNat + current.standbyCount.toNat →
    (request.validate current = .ok .ok ↔
      Packed request.members.val ∧ request.members.val.Perm current.members.val ∧
      request.members ≠ current.members ∧ request.replicaCount = current.replicaCount ∧
      request.standbyCount = current.standbyCount ∧
      request.epoch.toNat = current.epoch.toNat + 1 ∧ request.reserved.val = zeros 54 ∧
      request.result = .reserved) := by
  intro hclaim
  have hzero : (swapOf 0 2).validate (currentOf 0 2) = .ok .replicaCountZero := by decide
  have hok := (hclaim (swapOf 0 2) (currentOf 0 2) (by decide) (by decide)).mpr
    ⟨validMembers_iff.mp (by decide), by decide, by decide, rfl, rfl, rfl, rfl, rfl⟩
  rw [hzero] at hok
  cases hok

end Exact

end TigerBeetle.Reconfiguration
