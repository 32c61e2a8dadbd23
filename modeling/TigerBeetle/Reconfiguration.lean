import TigerBeetle.SuperblockWire

-- The requests to reconfigure a cluster.
namespace TigerBeetle.Reconfiguration

open Superblock Wire

abbrev Members := { members : List Nat // members.length = membersMax }

inductive ReconfigurationResult
  | reserved
  | ok
  | replicaCountZero
  | replicaCountMaxExceeded
  | standbyCountMaxExceeded
  | membersInvalid
  | membersCountInvalid
  | reservedField
  | resultMustBeReserved
  | epochInThePast
  | epochInTheFuture
  | differentReplicaCount
  | differentStandbyCount
  | differentMemberSet
  | configurationApplied
  | configurationConflict
  | configurationIsNoOp
  deriving DecidableEq

structure ReconfigurationRequest where
  members : Members
  epoch : UInt32
  replicaCount : UInt8
  standbyCount : UInt8
  reserved : Bytes 54
  result : ReconfigurationResult

structure ReconfigurationCurrent where
  members : Members
  epoch : UInt32
  replicaCount : UInt8
  standbyCount : UInt8

-- The index of the first member that is zero.
def memberCount (members : Members) : Nat :=
  (members.val.findIdx? (· = 0)).getD membersMax

-- The current members up to the first zero are all requested.
def requested (members : List Nat) : (current : List Nat) → Bool
  | [] => true
  | member :: rest =>
    if member = 0 then true else if member ∉ members then false else requested members rest

namespace ReconfigurationRequest

-- What is checked once the epoch is known to be the next one.
def validateMembers (request : ReconfigurationRequest) (current : ReconfigurationCurrent) :
    Result ReconfigurationResult := do
  assert (current.epoch.toNat + 1 < UInt32.size) "attempt to add with overflow"
  assert (request.epoch = current.epoch + 1) "self.epoch == current.epoch + 1"
  assert (validMembers current.members.val) "valid_members(&current.members)"
  assert (validMembers request.members.val) "valid_members(&self.members)"
  assert (memberCount current.members = memberCount request.members)
    "member_count(&current.members) == member_count(&self.members)"
  if requested request.members.val current.members.val = false then
    return .differentMemberSet
  else if request.members = current.members then
    return .configurationIsNoOp
  else
    return .ok

def validate (request : ReconfigurationRequest) (current : ReconfigurationCurrent) :
    Result ReconfigurationResult := do
  assert (memberCount current.members = current.replicaCount.toNat + current.standbyCount.toNat)
    "member_count(&current.members) == replica_count + standby_count"
  if request.replicaCount = 0 then
    return .replicaCountZero
  else if replicasMax < request.replicaCount.toNat then
    return .replicaCountMaxExceeded
  else if standbysMax < request.standbyCount.toNat then
    return .standbyCountMaxExceeded
  else if validMembers request.members.val = false then
    return .membersInvalid
  else if memberCount request.members ≠ request.replicaCount.toNat + request.standbyCount.toNat then
    return .membersCountInvalid
  else if zeroed request.reserved.val = false then
    return .reservedField
  else if request.result ≠ .reserved then
    return .resultMustBeReserved
  -- The counts of the nodes of the cluster cannot change.
  else if request.replicaCount ≠ current.replicaCount then
    return .differentReplicaCount
  else if request.standbyCount ≠ current.standbyCount then
    return .differentStandbyCount
  else if request.epoch < current.epoch then
    return .epochInThePast
  else if request.epoch = current.epoch then
    if request.members = current.members then
      return .configurationApplied
    else
      return .configurationConflict
  else if 1 < request.epoch - current.epoch then
    return .epochInTheFuture
  else
    validateMembers request current

end ReconfigurationRequest

end TigerBeetle.Reconfiguration
