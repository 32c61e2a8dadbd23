import TigerBeetle.SegmentedArray

namespace TigerBeetle

open SegmentedArray (read)

structure MergeStreams.Pending where
  deriving DecidableEq, Repr

structure Node (Key : Type) where
  key : Key
  id : Nat
  deriving DecidableEq, Repr

namespace Node

variable {Key : Type}

def idSentinel : Nat := 2 ^ 32 - 1

-- The sentinel key is the greatest one.
def sentinel [LE Key] [OrderTop Key] : Node Key where
  key := ⊤
  id := idSentinel

variable [LinearOrder Key]

def beats (direction : Direction) (a b : Node Key) : Bool :=
  let eqAndIdWins := a.key = b.key && a.id < b.id
  match direction with
  | .ascending => a.key < b.key || eqAndIdWins
  | .descending =>
    let bIsSentinel := b.id = idSentinel
    let aIsSentinel := a.id = idSentinel
    let keyWins := b.key < a.key || eqAndIdWins
    bIsSentinel || !aIsSentinel && keyWins

end Node

structure TournamentTree (Key : Type) where
  loserKeys : List Key
  loserIds : List Nat
  winKey : Key
  winId : Nat
  contestantsLeft : Nat
  height : Nat
  direction : Direction
  deriving DecidableEq, Repr

namespace TournamentTree

variable {Key : Type}

def select {α : Type} (aWins : Bool) (a b : α) : α :=
  if aWins then a else b

def write {α : Type} (values : List α) (i : Nat) (value : α) : Result (List α) := do
  assert (i < values.length) "index out of bounds"
  return values.set i value

def ceilPowerOfTwo (n : Nat) : Nat :=
  2 ^ Nat.clog 2 n

-- The number of contestants that are there to begin with.
def countContestants : (contestantPrevious : Option (Node Key)) → List (Node Key) → Result Nat
  | _, [] => return 0
  | contestantPrevious, contestant :: contestants =>
    if contestant.id = Node.idSentinel then
      countContestants contestantPrevious contestants
    else do
      assert (∀ previous ∈ contestantPrevious, previous.id < contestant.id)
        "previous.id < contestant.id"
      return (← countContestants (some contestant) contestants) + 1

variable [LinearOrder Key]

-- The winner moves up one slot among the contestants, and the loser stays in the tree.
def compete (direction : Direction) (levelMin : Nat)
    (state : List (Node Key) × TournamentTree Key) (competitorIndex : Nat) :
    Result (List (Node Key) × TournamentTree Key) := do
  let (contestants, tree) := state
  let loserIndex := levelMin + competitorIndex
  let a ← read contestants (competitorIndex * 2)
  let b ← read contestants (competitorIndex * 2 + 1)
  let aWins := Node.beats direction a b
  let contestants ← write contestants competitorIndex (select aWins a b)
  let loserKeys ← write tree.loserKeys loserIndex (select aWins b.key a.key)
  let loserIds ← write tree.loserIds loserIndex (select aWins b.id a.id)
  return (contestants, { tree with loserKeys, loserIds })

def playLevel (direction : Direction) (nodeCount : Nat)
    (state : List (Node Key) × TournamentTree Key) (level : Nat) :
    Result (List (Node Key) × TournamentTree Key) :=
  let levelMin := (nodeCount >>> (level + 1)) - 1
  let levelMax := (nodeCount >>> level) - 1
  (List.range (levelMax - levelMin)).foldlM (compete direction levelMin) state

-- Replays the path of the winner up to the root.
def replay (tree : TournamentTree Key) :
    (levels idx : Nat) → (new : Node Key) → Result (Node Key × TournamentTree Key)
  | 0, _, new => return (new, tree)
  | levels + 1, idx, new => do
    assert (0 < idx) "attempt to subtract with overflow"
    let idx := (idx - 1) >>> 1
    let oppKey ← read tree.loserKeys idx
    let oppId ← read tree.loserIds idx
    let newWins := Node.beats tree.direction new { key := oppKey, id := oppId }
    let loserKeys ← write tree.loserKeys idx (select newWins oppKey new.key)
    let loserIds ← write tree.loserIds idx (select newWins oppId new.id)
    let tree := { tree with loserKeys, loserIds }
    tree.replay levels idx
      { key := select newWins new.key oppKey, id := select newWins new.id oppId }

variable [OrderTop Key]

def init (direction : Direction) (contestants : List (Node Key)) (contestantCount : Nat) :
    Result (TournamentTree Key) := do
  let nodeCountMax := contestants.length
  assert (contestantCount ≤ nodeCountMax) "contestant_count <= NODE_COUNT_MAX"
  let contestantsLeft ← countContestants none (contestants.take contestantCount)
  assert (∀ contestant ∈ contestants.drop contestantCount, contestant.id = Node.idSentinel)
    "contestant.id == Node::ID_SENTINEL"
  let tree : TournamentTree Key := {
    winKey := ⊤, winId := Node.idSentinel, loserKeys := List.replicate nodeCountMax ⊤,
    loserIds := List.replicate nodeCountMax Node.idSentinel, direction, contestantsLeft, height := 0
  }
  if contestantsLeft = 0 then
    return tree
  else do
    let nodeCount := ceilPowerOfTwo contestantCount
    let tree := { tree with height := nodeCount.log2 }
    let (contestants, tree) ←
      (List.range tree.height).foldlM (playLevel direction nodeCount) (contestants, tree)
    let winner ← read contestants 0
    return { tree with winKey := winner.key, winId := winner.id }

-- Replaces the winner with the entrant, and with nothing when its stream has come to its end.
def popWinner (tree : TournamentTree Key) (entrant : Option Key) : Result (TournamentTree Key) := do
  let nodeCount := 1 <<< tree.height
  let winnerId := tree.winId
  assert (winnerId < nodeCount) "winner_id < node_count as u32"
  assert (entrant = none → 0 < tree.contestantsLeft) "attempt to subtract with overflow"
  let contestantsLeft := if entrant = none then tree.contestantsLeft - 1 else tree.contestantsLeft
  let new : Node Key := {
    key := entrant.getD ⊤, id := if entrant ≠ none then winnerId else Node.idSentinel
  }
  let (new, tree) ← replay { tree with contestantsLeft } tree.height ((nodeCount - 1) + winnerId) new
  assert (new.id = Node.idSentinel → tree.contestantsLeft = 0) "self.contestants_left == 0"
  return { tree with winKey := new.key, winId := new.id }

end TournamentTree

-- The streams that are merged, with the values that are left in each. Any of the peeks may find that
-- its stream is not ready.
structure MergeStreams (Value : Type) where
  values : List (List Value)
  pending : Nat → Bool
  peeks : Nat

namespace MergeStreams

variable {Key Value : Type} (streams : MergeStreams Value)

def streamPeek (valueKey : Value → Key) (streamIndex : Nat) :
    Result (Except Pending (Option Key) × MergeStreams Value) := do
  let stream ← read streams.values streamIndex
  let answer := if streams.pending streams.peeks then .error {} else .ok (stream.head?.map valueKey)
  return (answer, { streams with peeks := streams.peeks + 1 })

def streamPop (streamIndex : Nat) : Result (Value × MergeStreams Value) := do
  match ← read streams.values streamIndex with
  | [] => abort "index out of bounds"
  | value :: rest => return (value, { streams with values := streams.values.set streamIndex rest })

end MergeStreams

structure KWayMergeSpec (Key Value : Type) where
  streamsMax : Nat
  nodeCountMax : Nat
  deduplicate : Bool
  valueKey : Value → Key

structure KWayMergeIterator (Key Value : Type) where
  context : MergeStreams Value
  streamsCount : Nat
  direction : Direction
  keyPopped : Option Key
  tree : Option (TournamentTree Key)

namespace KWayMergeIterator

variable {Key Value : Type} (spec : KWayMergeSpec Key Value)

def init (context : MergeStreams Value) (streamsCount : Nat) (direction : Direction) :
    Result (KWayMergeIterator Key Value) := do
  assert (spec.streamsMax ≥ 1 ∧ spec.streamsMax ≤ 1024) "STREAMS_MAX >= 1 && STREAMS_MAX <= 1024"
  assert (spec.nodeCountMax = 2 ^ spec.nodeCountMax.log2 ∧ spec.nodeCountMax ≥ spec.streamsMax)
    "NODE_COUNT_MAX.is_power_of_two() && NODE_COUNT_MAX >= STREAMS_MAX"
  assert (streamsCount ≤ spec.streamsMax) "usize::from(streams_count) <= STREAMS_MAX"
  return { context, keyPopped := none, direction, streamsCount, tree := none }

variable (iterator : KWayMergeIterator Key Value)

def reset : KWayMergeIterator Key Value :=
  { iterator with tree := none }

def peekHeads : (ids : List Nat) → MergeStreams Value → (contestants : List (Node Key)) →
    Result (Except MergeStreams.Pending (List (Node Key)) × MergeStreams Value)
  | [], context, contestants => return (.ok contestants, context)
  | id :: ids, context, contestants => do
    match ← context.streamPeek spec.valueKey id with
    | (.error pending, context) => return (.error pending, context)
    | (.ok none, context) => peekHeads ids context contestants
    | (.ok (some key), context) => peekHeads ids context (contestants.set id { key, id })

variable [LinearOrder Key] [OrderTop Key]

def load : Result (Except MergeStreams.Pending (TournamentTree Key) × KWayMergeIterator Key Value) := do
  assert (iterator.tree.isNone) "self.tree.is_none()"
  let contestants := List.replicate spec.nodeCountMax Node.sentinel
  let ids := List.range (min iterator.streamsCount spec.nodeCountMax)
  match ← peekHeads spec ids iterator.context contestants with
  | (.error pending, context) => return (.error pending, { iterator with context })
  | (.ok contestants, context) => do
    let tree ← TournamentTree.init iterator.direction contestants iterator.streamsCount
    return (.ok tree, { iterator with context, tree := some tree })

-- Each further round has taken one more value from a stream, so that the rounds come to an end.
def popRounds : (rounds : Nat) → KWayMergeIterator Key Value → TournamentTree Key →
    Result (Except MergeStreams.Pending (Option Value) × KWayMergeIterator Key Value)
  | 0, _, _ => abort "out of rounds"
  | rounds + 1, iterator, tree =>
    if tree.contestantsLeft > 0 then do
      match ← iterator.context.streamPeek spec.valueKey tree.winId with
      | (.error pending, context) => return (.error pending, { iterator with context })
      | (.ok key, context) => do
        let tree ← tree.popWinner key
        if tree.contestantsLeft = 0 then
          return (.ok none, { iterator with context, tree := some tree })
        else do
          let (value, context) ← context.streamPop tree.winId
          let iterator := { iterator with context, tree := some tree }
          let keyNext := spec.valueKey value
          if spec.deduplicate ∧ iterator.keyPopped = some keyNext then
            popRounds rounds iterator tree
          else if spec.deduplicate then
            return (.ok (some value), { iterator with keyPopped := some keyNext })
          else
            return (.ok (some value), iterator)
    else
      return (.ok none, iterator)

def pop : Result (Except MergeStreams.Pending (Option Value) × KWayMergeIterator Key Value) := do
  let rounds := (iterator.context.values.map List.length).sum + 1
  match iterator.tree with
  | some tree => popRounds spec rounds iterator tree
  | none => do
    match ← iterator.load spec with
    | (.error pending, iterator) => return (.error pending, iterator)
    | (.ok tree, iterator) => popRounds spec rounds iterator tree

end KWayMergeIterator

end TigerBeetle
