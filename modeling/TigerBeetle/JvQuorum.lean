import TigerBeetle.BitSet
import TigerBeetle.Header

namespace TigerBeetle

-- A received join-view message. Its headers are in descending order of their ops.
structure JoinedView where
  header : JoinView
  headers : List Prepare
  deriving DecidableEq, Repr

inductive JvHeaderType
  | blank
  | valid
  deriving DecidableEq, Repr

structure QuorumOptions where
  replicaCount : Nat
  quorumViewChange : Nat
  quorumNackPrepare : Nat
  deriving DecidableEq, Repr

inductive QuorumHeadersResult
  | awaitingQuorum
  | awaitingRepair
  | completeInvalid
  | completeValid (opHead opMin : Nat) (headers : List Prepare)
  deriving DecidableEq, Repr

namespace JvQuorum

def jvHeaderType (header : Prepare) : JvHeaderType :=
  if header.operation = .reserved then .blank else .valid

-- The messages that were received. The slot of a message is the replica that sent it, and `replica`
-- is the first slot.
def received : (replica : Nat) → List (Option JoinedView) → Result (List JoinedView)
  | _, [] => return []
  | replica, none :: jvs => received (replica + 1) jvs
  | replica, some message :: jvs => do
    assert (message.header.replica = replica) "message.header.replica == replica"
    return message :: (← received (replica + 1) jvs)

def jvsAll (jvs : List (Option JoinedView)) : Result (List JoinedView) :=
  received 0 jvs

def maximum : List Nat → Option Nat :=
  List.foldl (fun m n => some (max (m.getD n) n)) none

def logViewMax (jvs : List (Option JoinedView)) : Result Nat := do
  let all ← jvsAll jvs
  assert (∀ jv ∈ all, jv.header.logView < jv.header.view)
    "message.header.log_view < message.header.view"
  let some logView := maximum (all.map (·.header.logView)) | abort "empty JV quorum"
  return logView

def jvsWithLogView (jvs : List (Option JoinedView)) (logView : Nat) : Result (List JoinedView) := do
  return (← jvsAll jvs).filter (·.header.logView = logView)

def jvsCanonical (jvs : List (Option JoinedView)) : Result (List JoinedView) := do
  jvsWithLogView jvs (← logViewMax jvs)

def jvsUncanonical (jvs : List (Option JoinedView)) : Result (List JoinedView) := do
  let logView ← logViewMax jvs
  let all ← jvsAll jvs
  assert (∀ jv ∈ all, jv.header.logView ≤ logView) "message.header.log_view <= log_view_max"
  return all.filter (·.header.logView < logView)

-- What a message reveals to be committed: the op that its headers end at, the ops beyond its
-- pipeline, the ops that its sender committed, and the commit of its head.
def commitMaxOf (jv : JoinedView) : Result Nat := do
  let some head := jv.headers.head? | abort "index out of bounds"
  let some tail := jv.headers.getLast? | abort "index out of bounds"
  return max (max tail.op (jv.header.op - pipelinePrepareQueueMax))
    (max jv.header.commitMin head.commit)

def commitMax (jvs : List (Option JoinedView)) : Result Nat := do
  let all ← jvsAll jvs
  assert (all ≠ []) "!all.is_empty()"
  return (← all.mapM commitMaxOf).foldl max 0

def timestampMax (jvs : List (Option JoinedView)) : Result Nat := do
  let heads ← (← jvsAll jvs).mapM fun jv =>
    match jv.headers.head? with
    | some head => pure head.timestamp
    | none => abort "index out of bounds"
  let some timestamp := maximum heads | abort "empty JV quorum"
  return timestamp

def opMaxCanonical (jvs : List (Option JoinedView)) : Result Nat := do
  let some op := maximum ((← jvsCanonical jvs).map (·.header.op)) | abort "no canonical JVs"
  return op

def headerCanonical (op : Nat) : List JoinedView → Result (Option Prepare)
  | [] => return none
  | jv :: jvs =>
    if jv.header.op < op then
      headerCanonical op jvs
    else
      match jv.headers[jv.header.op - op]? with
      | none => abort "header_index < headers.len()"
      | some header => do
        assert (header.op = op) "header.op == op"
        if jvHeaderType header = .valid then
          return some header
        else
          headerCanonical op jvs

structure Tally where
  copies : Nat
  nacks : Nat
  deriving DecidableEq, Repr

-- How a message counts for an op: as a copy of the canonical header, as a nack, as both or as
-- neither.
def tallyOf (op logViewCanonical : Nat) (canonical : Option Prepare) (jv : JoinedView) :
    Result Tally :=
  if jv.header.op < op then
    return { copies := 0, nacks := 1 }
  else
    let index := jv.header.op - op
    match jv.headers[index]? with
    | none => return { copies := 0, nacks := 1 }
    | some header => do
      assert (header.op = op) "header.op == op"
      assert (header.view ≤ logViewCanonical) "header.view <= log_view_canonical"
      assert (index < 128) "index < 128"
      let valid := jvHeaderType header = .valid
      let copies :=
        if valid ∧ jv.header.presentBitset.testBit index ∧
            canonical.any (·.checksum = header.checksum) then 1 else 0
      if jv.header.nackBitset.testBit index then
        return { copies, nacks := 1 }
      else if valid then
        match canonical with
        | some h =>
          if h.checksum ≠ header.checksum then
            assert (jv.header.logView < logViewCanonical)
              "jv.header.log_view < log_view_canonical"
            return { copies, nacks := 1 }
          else
            return { copies, nacks := 0 }
        | none =>
          assert (header.view < logViewCanonical) "header.view < log_view_canonical"
          assert (jv.header.logView < logViewCanonical) "jv.header.log_view < log_view_canonical"
          return { copies, nacks := 1 }
      else
        return { copies, nacks := 0 }

def tally (op logViewCanonical : Nat) (canonical : Option Prepare) (all : List JoinedView) :
    Result Tally := do
  let tallies ← all.mapM (tallyOf op logViewCanonical canonical)
  return { copies := (tallies.map (·.copies)).sum, nacks := (tallies.map (·.nacks)).sum }

-- The head of the log that the messages determine, if they do.
inductive Head
  | found (op : Nat)
  | awaitingRepair
  | completeInvalid
  deriving DecidableEq, Repr

-- Decides the `count` ops from `op` upwards one by one.
def findHead (options : QuorumOptions) (all canonical : List JoinedView)
    (logViewCanonical opHeadMin : Nat) : (count op : Nat) → Result Head
  | 0, op => return .found (op - 1)
  | count + 1, op => do
    let header ← headerCanonical op canonical
    let tally ← tally op logViewCanonical header all
    if options.quorumNackPrepare ≤ tally.nacks then
      assert (opHeadMin < op) "op > op_head_min"
      return .found (op - 1)
    else if header.isNone ∨ tally.copies = 0 then
      if all.length < options.replicaCount then
        return .awaitingRepair
      else
        return .completeInvalid
    else
      findHead options all canonical logViewCanonical opHeadMin count (op + 1)

-- The valid header that the messages have for an op. They must not disagree about it.
def headerForOp (op logView : Nat) : (found : Option Prepare) → List JoinedView →
    Result (Option Prepare)
  | found, [] => return found
  | found, jv :: jvs => do
    assert (logView = jv.header.logView) "log_view == jv.header.log_view"
    if jv.header.op < op then
      headerForOp op logView found jvs
    else
      match jv.headers[jv.header.op - op]? with
      | none => headerForOp op logView found jvs
      | some header =>
        if jvHeaderType header = .valid then
          match found with
          | some h => do
            assert (h.checksum = header.checksum) "h.checksum == jv_header.checksum"
            headerForOp op logView found jvs
          | none => headerForOp op logView (some header) jvs
        else
          headerForOp op logView found jvs

-- The headers of the `count` ops below `opMin + count`, from high to low.
def collectHeaders (canonical : List JoinedView) (logView opMin : Nat) :
    (count : Nat) → (childParent : Option Nat) → Result (List Prepare)
  | 0, _ => return []
  | count + 1, childParent => do
    let header ← headerForOp (opMin + count) logView none canonical
    assert (∀ parent ∈ childParent, ∃ h ∈ header, h.checksum = parent) "broken parent chain"
    match header with
    | none => abort "no header found"
    | some header =>
      return header :: (← collectHeaders canonical logView opMin count (some header.parent))

def headersForView (canonical : List JoinedView) (opMax opMin : Nat) : Result (List Prepare) := do
  let some jv := canonical.head? | abort "!jvs_canonical.is_empty()"
  assert (opMin ≤ opMax) "op_min <= op_max"
  collectHeaders canonical jv.header.logView opMin (opMax + 1 - opMin) none

def quorumHeaders (jvs : List (Option JoinedView)) (options : QuorumOptions) :
    Result QuorumHeadersResult := do
  assert (2 ≤ options.replicaCount) "options.replica_count >= 2"
  assert (2 ≤ options.quorumViewChange) "options.quorum_view_change >= 2"
  assert (options.quorumViewChange ≤ options.replicaCount)
    "options.quorum_view_change <= options.replica_count"
  if options.replicaCount = 2 then
    assert (options.quorumNackPrepare = 1) "options.quorum_nack_prepare == 1"
  else
    assert (options.quorumNackPrepare = options.quorumViewChange)
      "options.quorum_nack_prepare == options.quorum_view_change"
  let all ← jvsAll jvs
  if all.length < options.quorumViewChange then
    return .awaitingQuorum
  else
    let logViewCanonical ← logViewMax jvs
    let canonical ← jvsCanonical jvs
    assert (canonical ≠ []) "!jvs_canonical_.is_empty()"
    assert (canonical.length ≤ all.length) "jvs_canonical_.len() <= all.len()"
    let opHeadMax ← opMaxCanonical jvs
    let opHeadMin ← commitMax jvs
    assert (opHeadMin ≤ opHeadMax) "op_head_min <= op_head_max"
    match ← findHead options all canonical logViewCanonical opHeadMin
        (opHeadMax + 1 - opHeadMin) opHeadMin with
    | .awaitingRepair => return .awaitingRepair
    | .completeInvalid => return .completeInvalid
    | .found opHead =>
      assert (opHeadMin ≤ opHead) "op_head >= op_head_min"
      assert (opHead ≤ opHeadMax) "op_head <= op_head_max"
      let headers ← headersForView canonical opHead opHeadMin
      return .completeValid opHead opHeadMin headers

def verifyMessage (message : JoinedView) : Result Unit := do
  assert (message.header.commitMin ≤ message.header.op) "message.header.commit_min <= message.header.op"
  assert (message.header.checkpointOp ≤ message.header.commitMin)
    "message.header.checkpoint_op <= message.header.commit_min"
  assert (message.header.logView < message.header.view) "log_view < message.header.view"
  let some head := message.headers.head? | abort "!headers.is_empty()"
  assert (message.headers.length ≤ pipelinePrepareQueueMax + 1)
    "headers.len() <= PIPELINE_PREPARE_QUEUE_MAX + 1"
  assert (head.op = message.header.op) "headers[0].op == message.header.op"
  assert (head.view ≤ message.header.logView) "headers[0].view <= log_view"
  assert (BitSet.countOnes 128 message.header.nackBitset ≤ message.headers.length)
    "message.header.nack_bitset.count_ones() <= headers.len()"
  assert (message.header.nackBitset < 2 ^ message.headers.length)
    "message.header.nack_bitset.leading_zeros() + headers.len() >= 128"
  assert (BitSet.countOnes 128 message.header.presentBitset ≤ message.headers.length)
    "message.header.present_bitset.count_ones() <= headers.len()"
  assert (message.header.presentBitset < 2 ^ message.headers.length)
    "message.header.present_bitset.leading_zeros() + headers.len() >= 128"

-- Two messages with the same log view must not disagree about the `count` ops from `opMin` upwards.
def verifyOps (a b : JoinedView) (opMin : Nat) : (count : Nat) → Result Unit
  | 0 => return
  | count + 1 => do
    verifyOps a b opMin count
    let op := opMin + count
    let some left := a.headers[a.header.op - op]? | abort "index out of bounds"
    let some right := b.headers[b.header.op - op]? | abort "index out of bounds"
    if jvHeaderType left = .valid ∧ jvHeaderType right = .valid then
      assert (left.checksum = right.checksum) "left_header.checksum == right_header.checksum"

def verifyPair (a b : JoinedView) : Result Unit :=
  if a.header.logView ≠ b.header.logView then
    return
  else
    match a.headers.getLast?, b.headers.getLast? with
    | some tailA, some tailB =>
      let opMax := min a.header.op b.header.op
      let opMin := max tailA.op tailB.op
      verifyOps a b opMin (opMax + 1 - opMin)
    | _, _ => abort "index out of bounds"

-- Compares each message to the ones before it.
def verifyPairs : (before after : List JoinedView) → Result Unit
  | _, [] => return
  | before, jv :: jvs => do
    before.forM (verifyPair jv)
    verifyPairs (before ++ [jv]) jvs

def verify (jvs : List (Option JoinedView)) : Result Unit := do
  let all ← jvsAll jvs
  all.forM verifyMessage
  verifyPairs [] all

end JvQuorum

end TigerBeetle
