import TigerBeetle.Constants

namespace TigerBeetle

-- The sizes of the quorums for a given replica count.
structure Quorum where
  replication : Nat
  viewChange : Nat
  nackPrepare : Nat
  majority : Nat
  deriving DecidableEq, Repr

def quorums (replicaCount : Nat) : Quorum :=
  let replication :=
    if replicaCount = 2 then
      2
    else
      let divCeil := (replicaCount + 1) / 2
      if quorumReplicationMax < divCeil then quorumReplicationMax else divCeil
  let viewChange := if replicaCount = 2 then 2 else replicaCount - replication + 1
  let nackPrepare := replicaCount - replication + 1
  let majority := (replicaCount + 1) / 2 + if replicaCount % 2 = 0 then 1 else 0
  { replication, viewChange, nackPrepare, majority }

namespace Quorum

variable {n : Nat}

theorem replication_eq :
    (quorums n).replication = if n = 2 then 2 else min quorumReplicationMax ((n + 1) / 2) := by
  simp only [quorums, quorumReplicationMax]
  grind

theorem viewChange_eq :
    (quorums n).viewChange = if n = 2 then 2 else n - (quorums n).replication + 1 :=
  rfl

theorem replication_pos (h : 0 < n) : 0 < (quorums n).replication := by
  grind [replication_eq, quorumReplicationMax]

theorem viewChange_pos : 0 < (quorums n).viewChange := by
  grind [viewChange_eq]

-- Every replication quorum intersects every view-change quorum.
theorem intersect : n < (quorums n).replication + (quorums n).viewChange := by
  grind [viewChange_eq, replication_eq]

end Quorum

end TigerBeetle
