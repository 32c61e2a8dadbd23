import TigerBeetle.Header

namespace TigerBeetle

-- A client's session and the header of the reply to its latest committed request.
structure Entry where
  session : Nat
  header : Reply
  deriving DecidableEq, Repr

-- The table of the active clients. Free slots hold `none`.
structure ClientSessions where
  entries : List (Option Entry)
  length_eq : entries.length = clientsMax

namespace ClientSessions

def new : ClientSessions where
  entries := List.replicate clientsMax none
  length_eq := List.length_replicate

variable (sessions : ClientSessions)

def active : List Entry :=
  sessions.entries.reduceOption

def count : Nat :=
  sessions.active.length

def slotOf (client : Nat) : Option Nat :=
  sessions.entries.findIdx? fun entry => entry.any (·.header.client = client)

def get (client : Nat) : Option Entry :=
  sessions.active.find? (·.header.client = client)

def set (slot : Nat) (entry : Option Entry) : ClientSessions where
  entries := sessions.entries.set slot entry
  length_eq := by rw [List.length_set, sessions.length_eq]

def put (session : Nat) (header : Reply) : Result ClientSessions := do
  assert (session ≠ 0) "session != 0"
  match sessions.slotOf header.client, sessions.get header.client with
  | some slot, some existing => do
    assert (existing.session = session) "existing.session == session"
    assert (existing.header.cluster = header.cluster) "existing.header.cluster == header.cluster"
    assert (existing.header.commit < header.commit) "existing.header.commit < header.commit"
    return sessions.set slot (some { existing with header })
  | _, _ =>
    match sessions.entries.findIdx? (·.isNone) with
    | some slot => return sessions.set slot (some { session, header })
    | none => abort "caller ensures capacity"

-- The entry with the oldest commit, where `evictee` is the oldest one so far.
def oldest : (evictee : Option Reply) → List Entry → Result (Option Reply)
  | evictee, [] => return evictee
  | evictee, entry :: entries => do
    assert (entry.header.op = entry.header.commit) "entry.header.op == entry.header.commit"
    assert (entry.session ≤ entry.header.commit) "entry.header.commit >= entry.session"
    match evictee with
    | none => oldest (some entry.header) entries
    | some reply => do
      assert (entry.header.client ≠ reply.client) "entry.header.client != evictee_reply.client"
      assert (entry.header.commit ≠ reply.commit) "entry.header.commit != evictee_reply.commit"
      oldest (some (if entry.header.commit < reply.commit then entry.header else reply)) entries

def evictee : Result Nat := do
  assert (sessions.count = clientsMax) "self.count() == CLIENTS"
  match ← oldest none sessions.active with
  | some reply => return reply.client
  | none => abort "table is full"

def remove (client : Nat) : Result ClientSessions :=
  match sessions.slotOf client with
  | some slot => return sessions.set slot none
  | none => abort "client has an entry"

end ClientSessions

end TigerBeetle
