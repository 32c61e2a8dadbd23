import TigerBeetle.Replica.SuperBlock

-- The views in which the prepare of an op can have been prepared, by the headers of a view change.
namespace TigerBeetle

structure ViewRange where
  min : Nat
  max : Nat
  deriving DecidableEq, Repr

namespace ViewChangeHeaders

variable [Env]

-- The last header that is valid.
def oldestFrom : (index : Nat) → (oldest : Option Prepare) → List Prepare → Result (Option Prepare)
  | _, oldest, [] => return oldest
  | index, oldest, header :: headers => do
    match ← jvHeaderType header with
    | .blank =>
      assert (0 < index) "index > 0"
      oldestFrom (index + 1) oldest headers
    | .valid => oldestFrom (index + 1) (some header) headers

def validAt (op : Nat) : List Prepare → Result (Option Prepare)
  | [] => return none
  | header :: headers => do
    if (← jvHeaderType header) = .valid ∧ header.op = op then
      return some header
    else
      validAt op headers

-- The views of the valid headers around the op, where `next` is the last one that is above it.
def between (op : Nat) : (next : Prepare) → List Prepare → Result (Option ViewRange)
  | _, [] => return none
  | next, header :: headers => do
    match ← jvHeaderType header with
    | .blank => between op next headers
    | .valid =>
      if header.op < op ∧ op < next.op then
        return some ⟨header.view, next.view⟩
      else
        between op header headers

def viewForOp (headers : List Prepare) (op logView : Nat) : Result ViewRange := do
  let some headerNewest := headers.head? | abort "index out of bounds"
  let some headerOldest ← oldestFrom 0 none headers | abort "head is always valid"
  assert (headerNewest.view ≤ logView) "header_newest.view <= log_view"
  assert (headerOldest.view ≤ headerNewest.view) "header_newest.view >= header_oldest.view"
  assert (headerOldest.op ≤ headerNewest.op) "header_newest.op >= header_oldest.op"
  if op < headerOldest.op then
    return ⟨0, headerOldest.view⟩
  else if headerNewest.op < op then
    return ⟨logView, logView⟩
  else
    match ← validAt op headers with
    | some header => return ⟨header.view, header.view⟩
    | none => do
      assert ((← jvHeaderType headerNewest) = .valid) "jv_header_type(header_next) == Valid"
      let some range ← between op headerNewest headers.tail
        | abort "op is between the oldest and newest ops"
      return range

end ViewChangeHeaders

end TigerBeetle
