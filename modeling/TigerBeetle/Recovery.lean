import TigerBeetle.Wal

-- How a slot of the journal is classified when the journal is recovered from disk.
namespace TigerBeetle.Wal

-- A header in the wrong slot, or of the wrong cluster, may be from a misdirected read or write.
def headerOk [Env] (cluster slot : Nat) (header : Prepare) : Option Prepare :=
  if header.validChecksum ∧ header.cluster = cluster ∧
      slot = (if header.operation = .reserved then header.op else header.op % journalSlotCount) then
    some header
  else
    none

inductive RecoveryDecision
  | eql
  | nil
  | fix
  | vsr
  | cut
  | cutTorn
  | unr
  deriving DecidableEq, Repr

inductive Matcher
  | any
  | isFalse
  | isTrue
  | assertIsFalse
  | assertIsTrue
  deriving DecidableEq, Repr

inductive CaseCheckError
  | expectTrue
  | expectFalse
  deriving DecidableEq, Repr

structure Case where
  label : String
  decisionMultiple : RecoveryDecision
  decisionSingle : RecoveryDecision
  pattern : List Matcher
  deriving DecidableEq, Repr

namespace Case

-- The assertions behind a property that does not match are not looked at.
def checkFrom : List Matcher → List Bool → Except CaseCheckError Bool
  | pattern :: patterns, parameter :: parameters =>
    match pattern, parameter with
    | .isFalse, true | .isTrue, false => .ok false
    | .assertIsFalse, true => .error .expectFalse
    | .assertIsTrue, false => .error .expectTrue
    | _, _ => checkFrom patterns parameters
  | _, _ => .ok true

def check (c : Case) (parameters : List Bool) : Except CaseCheckError Bool :=
  checkFrom c.pattern parameters

def decision (c : Case) (solo : Bool) : RecoveryDecision :=
  if solo then c.decisionSingle else c.decisionMultiple

end Case

section Cases

abbrev __ : Matcher := .any

abbrev _0 : Matcher := .isFalse

abbrev _1 : Matcher := .isTrue

abbrev A0 : Matcher := .assertIsFalse

abbrev A1 : Matcher := .assertIsTrue

-- The properties are those of `recoveryParameters`, in their order.
def recoveryCases : List Case :=
  -- The prepare is corrupt.
  [⟨"@A", .vsr, .vsr, [_0, __, _0, __, __, A0, A0, __, __, __, __]⟩,
   ⟨"@B", .vsr, .vsr, [_1, _1, _0, __, __, A0, __, __, __, __, __]⟩,
   ⟨"@C", .vsr, .vsr, [_1, _0, _0, __, __, A0, __, __, __, __, __]⟩,
   -- The redundant header is corrupt, or it was not written after its prepare.
   ⟨"@D", .vsr, .fix, [_0, __, _1, _1, __, __, A0, __, __, __, __]⟩,
   ⟨"@E", .vsr, .fix, [_0, __, _1, _0, _0, _0, A0, __, __, __, __]⟩,
   ⟨"@F", .fix, .fix, [_0, __, _1, _0, _1, _0, A0, __, __, __, __]⟩,
   ⟨"@G", .fix, .fix, [_1, _1, _1, _0, __, _0, __, __, __, __, __]⟩,
   -- There is an op past the last one that may be replayed on the checkpoint.
   ⟨"@H", .cut, .unr, [__, __, _1, _0, __, _1, __, __, __, __, __]⟩,
   ⟨"@I", .cut, .unr, [_1, _0, _1, _0, __, _0, _1, __, __, A0, __]⟩,
   ⟨"@J", .cut, .unr, [_1, _0, _1, _1, __, __, _1, __, __, A0, __]⟩,
   -- The prepare was not written, or nothing was.
   ⟨"@K", .vsr, .vsr, [_1, _0, _1, _1, __, __, _0, __, __, __, __]⟩,
   ⟨"@L", .nil, .nil, [_1, _1, _1, _1, __, __, __, A1, A1, A0, A1]⟩,
   -- Both are valid.
   ⟨"@M", .fix, .fix, [_1, _0, _1, _0, __, _0, _0, _0, _0, _1, __]⟩,
   ⟨"@N", .vsr, .vsr, [_1, _0, _1, _0, __, _0, _0, _0, _0, _0, __]⟩,
   ⟨"@O", .vsr, .vsr, [_1, _0, _1, _0, __, _0, _0, _0, _1, A0, A0]⟩,
   ⟨"@P", .eql, .eql, [_1, _0, _1, _0, __, _0, _0, _1, A1, A0, A1]⟩]

end Cases

structure RecoveryData where
  opMax : Nat
  opPrepareMax : Nat

def recoveryParameters (header prepare : Option Prepare) (data : RecoveryData) : List Bool :=
  let both (p : Prepare → Prepare → Bool) := header.any fun h => prepare.any (p h)
  [header.isSome,
   header.any (·.operation = .reserved),
   prepare.isSome,
   prepare.any (·.operation = .reserved),
   prepare.any (·.op = data.opMax),
   prepare.any (data.opPrepareMax < ·.op),
   header.any (data.opPrepareMax < ·.op),
   both (·.checksum = ·.checksum),
   both (·.op = ·.op),
   both (·.op < ·.op),
   both (·.view = ·.view)]

def matchCase (parameters : List Bool) : List Case → Option Case → Result Case
  | [], some result => return result
  | [], none => abort "recovery table is exhaustive"
  | c :: cases, result =>
    match c.check parameters with
    | .ok true => do
      assert (result = none) "multiple cases matched"
      matchCase parameters cases (some c)
    | .ok false => matchCase parameters cases result
    | .error _ => abort ("recovery_case: impossible state: case=" ++ c.label)

def recoveryCase (header prepare : Option Prepare) (data : RecoveryData) : Result Case :=
  matchCase (recoveryParameters header prepare data) recoveryCases none

end TigerBeetle.Wal
