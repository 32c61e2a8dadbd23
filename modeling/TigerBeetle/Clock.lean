import TigerBeetle.Marzullo

-- The clock of a replica, which aggregates the offsets of all replicas' clocks.
namespace TigerBeetle.Clocks

open Marzullo

-- All times are in nanoseconds.

def clockOffsetToleranceMax : Nat := 10000 * 1000000

def epochMax : Nat := 60000 * 1000000

def windowMin : Nat := 2000 * 1000000

def windowMax : Nat := 20000 * 1000000

def errorMargin : Int := 10000000

def u64 (value : Nat) : Except Failure Nat :=
  if value < 2 ^ 64 then .ok value else .error .overflow

-- The wrapping arithmetic of 64-bit integers.
def wrap (value : Int) : Int :=
  value.bmod (2 ^ 64)

def saturate (value : Nat) : Int :=
  min value i64Max

structure Sample where
  clockOffset : Int
  oneWayDelay : Nat
  deriving DecidableEq, Repr

structure Epoch (replicaCount : Nat) where
  -- The best sample of each source.
  sources : Fin replicaCount → Option Sample
  samples : Nat
  -- The readings of the local clocks when this epoch began.
  monotonic : Nat
  realtime : Int
  synchronized : Option Interval
  -- Guards against synchronizing without any new samples.
  learned : Bool

variable {replicaCount : Nat}

def Epoch.reset (replica : Fin replicaCount) (monotonic : Nat) (realtime : Int) :
    Epoch replicaCount where
  sources := fun source => if source = replica then some ⟨0, 0⟩ else none
  samples := 1
  monotonic := monotonic
  realtime := realtime
  synchronized := none
  learned := false

structure Clock (replicaCount : Nat) where
  replica : Fin replicaCount
  quorum : Nat
  -- The epoch that the time is read from.
  epoch : Epoch replicaCount
  -- The next epoch, which collects samples.
  window : Epoch replicaCount
  -- The scratch buffer of the agreement algorithm.
  marzulloTuples : List Tuple
  synchronizationDisabled : Bool

structure ClockOptions where
  replicaCount : UInt8
  replica : UInt8
  quorum : UInt8
  deriving DecidableEq, Repr

namespace Clock

def new (options : ClockOptions) (monotonic : Nat) (realtime : Int) :
    Except Failure (Clock options.replicaCount.toNat) := do
  ensure (0 < options.replicaCount) "options.replica_count > 0"
  if h : options.replica.toNat < options.replicaCount.toNat then
    ensure (0 < options.quorum) "options.quorum > 0"
    ensure (options.quorum ≤ options.replicaCount) "options.quorum <= options.replica_count"
    ensure (1 < options.replicaCount → 1 < options.quorum) "options.quorum > 1"
    let replica := ⟨options.replica.toNat, h⟩
    return {
      replica
      quorum := options.quorum.toNat
      epoch := .reset replica monotonic realtime
      window := .reset replica monotonic realtime
      marzulloTuples := List.replicate (options.replicaCount.toNat * 2) ⟨0, 0, .lower⟩
      synchronizationDisabled := options.replicaCount = 1 }
  else
    .error (.panic "options.replica < options.replica_count")

variable {replicaCount : Nat} (clock : Clock replicaCount)

def estimateAsymmetricDelay (replica : Fin replicaCount) (oneWayDelay : Nat) (clockOffset : Int) :
    Except Failure Int := do
  match clock.epoch.sources replica with
  | none => return 0
  | some epochSample =>
    if oneWayDelay ≤ epochSample.oneWayDelay then
      return 0
    else if (← i64 (epochSample.clockOffset + errorMargin)) < clockOffset then
      return 0 - saturate (oneWayDelay - epochSample.oneWayDelay)
    else if clockOffset < (← i64 (epochSample.clockOffset - errorMargin)) then
      return saturate (oneWayDelay - epochSample.oneWayDelay)
    else
      return 0

def minimumOneWayDelay : (a b : Option Sample) → Option Sample
  | none, b => b
  | a, none => a
  | some a, some b => if a.oneWayDelay < b.oneWayDelay then some a else some b

-- A pong arrives, which carries the monotonic time of its ping.
def learn (replica : Fin replicaCount) (m0 : Nat) (t1 : Int) (m2 : Nat) :
    Except Failure (Clock replicaCount) := do
  ensure (replica ≠ clock.replica) "replica != self.replica"
  if clock.synchronizationDisabled then
    return clock
  else if m2 < m0 then
    return clock
  else if m0 < clock.window.monotonic then
    return clock
  else
    ensure (clock.window.monotonic ≤ m2) "m2 >= self.window.monotonic"
    let elapsed := m2 - clock.window.monotonic
    if windowMax < elapsed then
      return clock
    else
      let oneWayDelay := (m2 - m0) / 2
      let t2 := wrap (clock.window.realtime + saturate elapsed)
      let clockOffset := wrap (wrap (t1 + saturate oneWayDelay) - t2)
      let asymmetricDelay ← clock.estimateAsymmetricDelay replica oneWayDelay clockOffset
      let candidate := { clockOffset := wrap (clockOffset + asymmetricDelay), oneWayDelay }
      return { clock with
        window := { clock.window with
          sources := Function.update clock.window.sources replica
            (minimumOneWayDelay (clock.window.sources replica) (some candidate))
          samples := clock.window.samples + 1
          learned := true } }

-- The margin of error of a sample.
def padding (tolerance : Nat) (sample : Sample) : Int :=
  saturate (sample.oneWayDelay + tolerance)

-- Writes the tuples of a source, if it is sampled, and counts them.
def fillTuples (sources : Fin replicaCount → Option Sample) (tolerance : Nat)
    (filled : List Tuple × Nat) (source : Fin replicaCount) : Except Failure (List Tuple × Nat) :=
  let (tuples, count) := filled
  match sources source with
  | none => return (tuples, count)
  | some sample => do
    let _ ← u64 (sample.oneWayDelay + tolerance)
    let lower ← i64 (sample.clockOffset - padding tolerance sample)
    ensure (count < tuples.length) "index out of bounds"
    let tuples := tuples.set count ⟨source, lower, .lower⟩
    let upper ← i64 (sample.clockOffset + padding tolerance sample)
    ensure (count + 1 < tuples.length) "index out of bounds"
    let tuples := tuples.set (count + 1) ⟨source, upper, .upper⟩
    return (tuples, count + 2)

def fillWindowTuples (tuples : List Tuple) (sources : Fin replicaCount → Option Sample)
    (tolerance : Nat) : Except Failure (List Tuple × Nat) :=
  (List.finRange replicaCount).foldlM (fillTuples sources tolerance) (tuples, 0)

-- The rounds that are left, with less tolerance in each. The last one is that without tolerance.
def synchronizeRounds (sources : Fin replicaCount → Option Sample) (quorum : Nat) :
    (rounds : Nat) → (tolerance : Nat) → List Tuple → Option Interval →
    Except Failure (List Tuple × Option Interval)
  | 0, _, tuples, synchronized => return (tuples, synchronized)
  | rounds + 1, tolerance, tuples, synchronized => do
    -- The number of the tuples that were filled is not used: the agreement is on the whole buffer.
    let (tuples, _) ← fillWindowTuples tuples sources tolerance
    let (interval, tuples) ← smallestInterval tuples
    if interval.sourcesTrue < quorum then
      return (tuples, synchronized)
    else if tolerance = 0 then
      return (tuples, some interval)
    else
      synchronizeRounds sources quorum rounds (tolerance / 2) tuples (some interval)

-- The readings of the local clocks during a tick, in the order in which they are taken.
structure Readings where
  start : Nat
  startRealtime : Int
  installed : Nat
  installedRealtime : Int
  done : Nat
  doneRealtime : Int
  deriving DecidableEq, Repr

-- The bounds that the local time is clamped to, which have to be in order.
def afterSynchronization (nowNs : Nat) : Except Failure Unit := do
  match clock.epoch.synchronized with
  | none => .error (.panic "after_synchronization requires a synchronized epoch")
  | some interval =>
    ensure (clock.epoch.monotonic ≤ nowNs) "attempt to subtract with overflow"
    let elapsed := wrap (nowNs - clock.epoch.monotonic)
    let lower ← i64 ((← i64 (clock.epoch.realtime + elapsed)) + interval.lowerBound)
    let upper ← i64 ((← i64 (clock.epoch.realtime + elapsed)) + interval.upperBound)
    ensure (lower ≤ upper) "min <= max"

def synchronize (readings : Readings) : Except Failure (Clock replicaCount) := do
  ensure (clock.window.synchronized = none) "self.window.synchronized.is_none()"
  ensure (clock.window.monotonic ≤ readings.start) "attempt to subtract with overflow"
  let elapsed := readings.start - clock.window.monotonic
  if elapsed < windowMin then
    return clock
  else if windowMax ≤ elapsed then
    return { clock with window := .reset clock.replica readings.start readings.startRealtime }
  else if !clock.window.learned then
    return clock
  else
    ensure (clock.window.sources clock.replica = some ⟨0, 0⟩)
      "self.window.sources[usize::from(self.replica)].is_some_and(zero)"
    let (tuples, synchronized) ← synchronizeRounds clock.window.sources clock.quorum 64
      clockOffsetToleranceMax clock.marzulloTuples none
    let window := { clock.window with learned := false, synchronized }
    match synchronized with
    | none => return { clock with window, marzulloTuples := tuples }
    | some _ =>
      let clock := { clock with
        epoch := window
        window := .reset clock.replica readings.installed readings.installedRealtime
        marzulloTuples := tuples }
      clock.afterSynchronization readings.installed
      return clock

def tick (readings : Readings) : Except Failure (Clock replicaCount) := do
  if clock.synchronizationDisabled then
    return clock
  else
    let clock ← clock.synchronize readings
    ensure (clock.epoch.monotonic ≤ readings.done) "attempt to subtract with overflow"
    if epochMax ≤ readings.done - clock.epoch.monotonic then
      return { clock with epoch := .reset clock.replica readings.done readings.doneRealtime }
    else
      return clock

end Clock

end TigerBeetle.Clocks
