import TigerBeetle.Theorems.Commit

namespace TigerBeetle

open Fallible Fault

namespace ClientSessions

def Holds (sessions : ClientSessions) (slot : Nat) (entry : Entry) : Prop :=
  sessions.entries[slot]? = some (some entry)

def Distinct (sessions : ClientSessions) : Prop :=
  ∀ slot slot' entry entry', sessions.Holds slot entry → sessions.Holds slot' entry' →
    entry.header.client = entry'.header.client → slot = slot'

variable {sessions sessions' : ClientSessions} {slot slot' client : Nat} {entry entry' : Entry}

theorem Holds.unique (h : sessions.Holds slot entry) (h' : sessions.Holds slot entry') :
    entry = entry' :=
  Option.some.inj <| Option.some.inj <| h.symm.trans h'

theorem Holds.lt (h : sessions.Holds slot entry) : slot < clientsMax :=
  sessions.length_eq ▸ (List.getElem?_eq_some_iff.mp h).1

theorem mem_active : entry ∈ sessions.active ↔ ∃ slot, sessions.Holds slot entry := by
  rw [active, List.reduceOption_mem_iff, List.mem_iff_getElem?]
  rfl

theorem Distinct.eq (hd : sessions.Distinct) (h : sessions.Holds slot entry)
    (h' : sessions.Holds slot' entry') (hc : entry.header.client = entry'.header.client) :
    entry = entry' := by
  obtain rfl := hd _ _ _ _ h h' hc
  exact h.unique h'

theorem lookup (hd : sessions.Distinct) (client : Nat) :
    (∃ slot entry, sessions.slotOf client = some slot ∧ sessions.get client = some entry ∧
      sessions.Holds slot entry ∧ entry.header.client = client) ∨
    sessions.slotOf client = none ∧ sessions.get client = none ∧
      ∀ slot entry, sessions.Holds slot entry → entry.header.client ≠ client := by
  cases hs : sessions.slotOf client with
  | none =>
    have hn := List.findIdx?_eq_none_iff.mp hs
    have hall (slot : Nat) (entry : Entry) (h : sessions.Holds slot entry) :
        entry.header.client ≠ client := by
      simpa using hn _ (List.mem_of_getElem? h)
    refine .inr ⟨rfl, List.find?_eq_none.mpr fun entry hm => ?_, hall⟩
    have ⟨slot, h⟩ := mem_active.mp hm
    simpa using hall slot entry h
  | some slot =>
    have ⟨hlt, hany, _⟩ := List.findIdx?_eq_some_iff_getElem.mp hs
    have ⟨entry, he, hc⟩ : ∃ entry, sessions.entries[slot] = some entry ∧
        entry.header.client = client := by
      simpa [Option.any_eq_true] using hany
    have h : sessions.Holds slot entry := (List.getElem?_eq_getElem hlt).trans (congrArg _ he)
    cases hg : sessions.get client with
    | none =>
      have hn := List.find?_eq_none.mp hg entry (mem_active.mpr ⟨slot, h⟩)
      exact absurd hc (by simpa using hn)
    | some entry' =>
      have hc' : entry'.header.client = client := by simpa using List.find?_some hg
      have ⟨slot', h'⟩ := mem_active.mp (List.mem_of_find?_eq_some hg)
      obtain rfl := hd.eq h h' (hc.trans hc'.symm)
      exact .inl ⟨slot, entry, rfl, rfl, h, hc⟩

theorem holds_set (hlt : slot < clientsMax) {new : Option Entry} :
    (sessions.set slot new).Holds slot' entry ↔
      slot' = slot ∧ new = some entry ∨ slot' ≠ slot ∧ sessions.Holds slot' entry := by
  simp only [Holds, set, List.getElem?_set, sessions.length_eq, hlt, if_true]
  by_cases h : slot = slot'
  · simp [h]
  · simp [h, Ne.symm h]

variable {E : Fault → Prop} {Q : ClientSessions → Prop} (he : Lenient E)

include he

theorem remove_meets (h : ∀ slot < clientsMax, Q (sessions.set slot none)) :
    Meets E Q (sessions.remove client) := by
  unfold remove
  cases hs : sessions.slotOf client with
  | none => exact he.general _
  | some slot =>
    have hlt := (List.findIdx?_eq_some_iff_getElem.mp hs).1
    exact h slot (sessions.length_eq ▸ hlt)

theorem put_meets {session : Nat} {header : Reply} (hd : sessions.Distinct)
    (hn : ∀ slot entry, sessions.Holds slot entry → entry.header.client ≠ header.client)
    (h : ∀ slot < clientsMax, Q (sessions.set slot (some { session, header }))) :
    Meets E Q (sessions.put session header) := by
  unfold put
  simp only [Meets.bind_eq, he.assert_eq]
  intro _
  rcases sessions.lookup hd header.client with ⟨slot, entry, _, _, hh, hc⟩ | ⟨hs, hg, _⟩
  · exact absurd hc (hn slot entry hh)
  · rw [hs, hg]
    cases hf : sessions.entries.findIdx? (·.isNone) with
    | none => exact he.general _
    | some slot =>
      have hlt := (List.findIdx?_eq_some_iff_getElem.mp hf).1
      exact h slot (sessions.length_eq ▸ hlt)

end ClientSessions

-- What an entry records of the prepares that were executed so far.
structure Recorded (prepares : List Prepare) (commitMin : Nat) (entry : Entry) : Prop where
  client_ne : entry.header.client ≠ 0
  op_eq : entry.header.op = entry.header.commit
  session_le : entry.session ≤ entry.header.commit
  commit_le : entry.header.commit ≤ commitMin
  release_eq : entry.header.release = releaseMinimum
  known : ∃ prepare ∈ prepares, prepare.client = entry.header.client
  latest : ∀ prepare ∈ prepares, prepare.client = entry.header.client →
    prepare.request ≤ entry.header.request

structure Tabled (prepares : List Prepare) (commitMin : Nat) (sessions : ClientSessions) : Prop where
  distinct : sessions.Distinct
  recorded : ∀ slot entry, sessions.Holds slot entry → Recorded prepares commitMin entry

-- A request of a client that follows all of its requests that were executed so far.
structure Pending (prepares : List Prepare) (sessions : ClientSessions) (client request : Nat) :
    Prop where
  fresh : ∀ prepare ∈ prepares, prepare.client = client → prepare.request < request
  next : ∀ slot entry, sessions.Holds slot entry → entry.header.client = client →
    entry.header.request + 1 = request
  known : request ≠ 0 → ∃ prepare ∈ prepares, prepare.client = client

-- The entries of other clients than the given one were there before.
def Keeps (client : Nat) (sessions sessions' : ClientSessions) : Prop :=
  ∀ slot entry, sessions'.Holds slot entry → entry.header.client ≠ client →
    ∃ slot', sessions.Holds slot' entry

section

variable {prepares : List Prepare} {prepare : Prepare} {commitMin slot session : Nat}
  {sessions sessions' : ClientSessions} {entry : Entry} {reply : Reply}

theorem Recorded.append (h : Recorded prepares commitMin entry) (hop : commitMin ≤ prepare.op)
    (hc : entry.header.client ≠ prepare.client) :
    Recorded (prepares ++ [prepare]) prepare.op entry where
  client_ne := h.client_ne
  op_eq := h.op_eq
  session_le := h.session_le
  commit_le := h.commit_le.trans hop
  release_eq := h.release_eq
  known := by
    have ⟨prepare, hm, hc⟩ := h.known
    exact ⟨prepare, List.mem_append_left _ hm, hc⟩
  latest other hm ho := by
    rcases List.mem_append.mp hm with hm | hm
    · exact h.latest other hm ho
    · exact absurd (List.mem_singleton.mp hm ▸ ho.symm) hc

theorem Recorded.of_answers (ha : Replica.Answers reply prepare) (hc : prepare.client ≠ 0)
    (hs : session ≤ prepare.op) (hr : prepare.release = releaseMinimum)
    (hf : ∀ other ∈ prepares, other.client = prepare.client → other.request < prepare.request) :
    Recorded (prepares ++ [prepare]) prepare.op { session, header := reply } where
  client_ne := by rw [ha.client]; exact hc
  op_eq := ha.op.trans ha.commit.symm
  session_le := by rw [ha.commit]; exact hs
  commit_le := ha.commit.le
  release_eq := ha.release.trans hr
  known := ⟨prepare, by simp, ha.client.symm⟩
  latest other hm ho := by
    rw [ha.client] at ho
    rw [ha.request]
    rcases List.mem_append.mp hm with hm | hm
    · exact (hf other hm ho).le
    · rw [List.mem_singleton.mp hm]

namespace Tabled

variable (ht : Tabled prepares commitMin sessions)

include ht

-- The table after the execution of a prepare whose client has no entry.
theorem append (hop : commitMin ≤ prepare.op)
    (hn : ∀ slot entry, sessions.Holds slot entry → entry.header.client ≠ prepare.client) :
    Tabled (prepares ++ [prepare]) prepare.op sessions where
  distinct := ht.distinct
  recorded slot entry h := (ht.recorded slot entry h).append hop (hn slot entry h)

theorem remove (hlt : slot < clientsMax) : Tabled prepares commitMin (sessions.set slot none) where
  distinct slot' slot'' entry entry' h h' := by
    simp only [ClientSessions.holds_set hlt, reduceCtorEq, and_false, false_or] at h h'
    exact ht.distinct _ _ _ _ h.2 h'.2
  recorded slot' entry h := by
    simp only [ClientSessions.holds_set hlt, reduceCtorEq, and_false, false_or] at h
    exact ht.recorded _ _ h.2

theorem set (hop : commitMin ≤ prepare.op) (hlt : slot < clientsMax)
    (hn : ∀ slot' entry', slot' ≠ slot → sessions.Holds slot' entry' →
      entry'.header.client ≠ prepare.client)
    (hc : entry.header.client = prepare.client)
    (hr : Recorded (prepares ++ [prepare]) prepare.op entry) :
    Tabled (prepares ++ [prepare]) prepare.op (sessions.set slot (some entry)) where
  distinct slot' slot'' e e' h h' he := by
    simp only [ClientSessions.holds_set hlt, Option.some.injEq] at h h'
    rcases h with ⟨rfl, rfl⟩ | ⟨hs, h⟩
    all_goals rcases h' with ⟨rfl, rfl⟩ | ⟨hs', h'⟩
    · rfl
    · exact absurd (he.symm.trans hc) (hn _ _ hs' h')
    · exact absurd (he.trans hc) (hn _ _ hs h)
    · exact ht.distinct _ _ _ _ h h' he
  recorded slot' e h := by
    simp only [ClientSessions.holds_set hlt, Option.some.injEq] at h
    rcases h with ⟨rfl, rfl⟩ | ⟨hs, h⟩
    · exact hr
    · exact (ht.recorded _ _ h).append hop (hn _ _ hs h)

end Tabled

end

namespace Replica

variable {E : Fault → Prop} {r : Replica} {prepares : List Prepare} {prepare : Prepare}
  {commitMin : Nat} {reply : Reply} {result : Body}

-- The table after it recorded the execution of a prepare.
structure Records (prepares : List Prepare) (r : Replica) (prepare : Prepare)
    (sessions : ClientSessions) : Prop where
  tabled : Tabled (prepares ++ [prepare]) prepare.op sessions
  keeps : Keeps prepare.client r.clientSessions sessions

theorem clientSessionsWithRoom_meets {Q : ClientSessions → Prop} (he : Lenient E)
    (ht : Tabled prepares commitMin r.clientSessions)
    (h : ∀ sessions, Tabled prepares commitMin sessions →
      (∀ slot entry, sessions.Holds slot entry → r.clientSessions.Holds slot entry) → Q sessions) :
    Meets E Q r.clientSessionsWithRoom := by
  unfold clientSessionsWithRoom
  simp only [Meets.ite_iff, Meets.bind_eq, Meets.pure_eq, he.assert_eq]
  refine ⟨fun _ => ?_, fun _ => h _ ht fun _ _ => id⟩
  refine he.meets ClientSessions.evictee_unwatched fun _ _ => ?_
  refine ClientSessions.remove_meets he fun slot hlt _ => h _ (ht.remove hlt) fun slot' entry hh => ?_
  simp only [ClientSessions.holds_set hlt, reduceCtorEq, and_false, false_or] at hh
  exact hh.2

variable (he : Lenient E) (ht : Tabled prepares commitMin r.clientSessions)
  (hop : commitMin < prepare.op) (hr : prepare.release = releaseMinimum)
  (hp : prepare.client ≠ 0 → Pending prepares r.clientSessions prepare.client prepare.request)
  (ha : Answers reply prepare)

include he ht hop hr hp ha

theorem clientTableEntryCreate_records :
    Meets E (fun r' => ∃ clientSessions clientReplies,
      r' = { r with clientSessions, clientReplies } ∧ Records prepares r prepare clientSessions)
      (r.clientTableEntryCreate reply result) := by
  unfold clientTableEntryCreate
  simp only [Meets.bind_eq, he.assert_eq]
  intro _ hc _ _ _ _ hz _
  rw [ha.client] at hc
  rw [ha.request] at hz
  have hp := hp hc
  -- A client that registers has no entry yet.
  have hn (slot : Nat) (entry : Entry) (hh : r.clientSessions.Holds slot entry) :
      entry.header.client ≠ prepare.client := by
    intro he
    have := hp.next slot entry hh he
    omega
  refine clientSessionsWithRoom_meets he ht fun sessions ht hs => ?_
  refine ClientSessions.put_meets he ht.distinct (fun slot entry hh => ?_) fun slot hlt _ => ?_
  · rw [ha.client]
    exact hn slot entry (hs slot entry hh)
  have hrecords : Records prepares r prepare
      (sessions.set slot (some { session := reply.commit, header := reply })) := by
    constructor
    case tabled =>
      refine ht.set hop.le hlt (fun slot' entry _ hh => hn _ _ (hs _ _ hh)) ha.client ?_
      exact .of_answers ha hc ha.commit.le hr hp.fresh
    case keeps =>
      intro slot' entry hh he
      simp only [ClientSessions.holds_set hlt, Option.some.injEq] at hh
      rcases hh with ⟨_, rfl⟩ | ⟨_, hh⟩
      · exact absurd ha.client he
      · exact ⟨slot', hs _ _ hh⟩
  split
  all_goals simp only [Meets.bind_eq, Meets.pure_eq]
  case isTrue =>
    exact he.meets ClientReplies.writeReply_unwatched fun _ _ => ⟨_, _, rfl, hrecords⟩
  case isFalse => exact ⟨_, _, rfl, hrecords⟩

theorem clientTableEntryUpdate_records :
    Meets E (fun r' => ∃ clientSessions clientReplies,
      r' = { r with clientSessions, clientReplies } ∧ Records prepares r prepare clientSessions)
      (r.clientTableEntryUpdate reply) := by
  unfold clientTableEntryUpdate
  simp only [Meets.bind_eq, he.assert_eq]
  intro _ hc _ _ _
  rw [ha.client] at hc
  have hp := hp hc
  rcases r.clientSessions.lookup ht.distinct reply.client with
    ⟨slot, entry, hs, hg, hh, hclient⟩ | ⟨hs, hg, hn⟩
  all_goals rw [hs, hg]
  · have hrecorded := ht.recorded slot entry hh
    have hclient := hclient.trans ha.client
    have hnext := hp.next slot entry hh hclient
    have hlt := hrecorded.commit_le.trans_lt hop
    simp only [Meets.bind_eq, meets_assertOn_eq]
    refine ⟨fun _ => ⟨fun _ => ⟨fun _ => ⟨fun _ => ⟨fun _ => ⟨fun _ => ?_, ?_⟩, ?_⟩, ?_⟩, ?_⟩, ?_⟩, ?_⟩
    · have hrecords : Records prepares r prepare
          (r.clientSessions.set slot (some { entry with header := reply })) := by
        constructor
        case tabled =>
          refine ht.set hop.le hh.lt (fun slot' entry' hne hh' he => ?_) ha.client ?_
          · exact hne (ht.distinct _ _ _ _ hh' hh (he.trans hclient.symm))
          · exact .of_answers ha hc (hrecorded.session_le.trans hlt.le) hr hp.fresh
        case keeps =>
          intro slot' entry' hh' he
          simp only [ClientSessions.holds_set hh.lt, Option.some.injEq] at hh'
          rcases hh' with ⟨_, rfl⟩ | ⟨_, hh'⟩
          · exact absurd ha.client he
          · exact ⟨slot', hh'⟩
      split
      all_goals simp only [Meets.bind_eq, Meets.pure_eq]
      case isTrue =>
        exact he.meets ClientReplies.writeReply_unwatched fun _ _ => ⟨_, _, rfl, hrecords⟩
      case isFalse => exact ⟨_, _, rfl, hrecords⟩
    · exact fun hn => absurd (hrecorded.release_eq.trans (ha.release.trans hr).symm) hn
    · exact fun hn => absurd (ha.commit ▸ hlt) hn
    · exact fun hn => absurd (hrecorded.op_eq ▸ ha.op ▸ hlt) hn
    · exact fun hn => absurd (hnext.trans ha.request.symm) hn
    · exact fun hn => absurd hrecorded.session_le hn
    · exact fun hn => absurd hrecorded.op_eq hn
  · refine ⟨r.clientSessions, r.clientReplies, rfl, ?_, fun slot _ hh _ => ⟨slot, hh⟩⟩
    exact ht.append hop.le fun slot entry hh => ha.client ▸ hn slot entry hh

theorem updateClientTable_records :
    Meets E (fun r' => ∃ clientSessions clientReplies,
      r' = { r with clientSessions, clientReplies } ∧ Records prepares r prepare clientSessions)
      (r.updateClientTable reply result) := by
  unfold updateClientTable
  split
  case isTrue => exact clientTableEntryCreate_records he ht hop hr hp ha
  case isFalse =>
    simp only [Meets.ite_iff, Meets.bind_eq, he.assert_eq, Meets.pure_eq]
    refine ⟨fun _ hc => ?_, fun _ => clientTableEntryUpdate_records he ht hop hr hp ha⟩
    refine ⟨r.clientSessions, r.clientReplies, rfl, ?_, fun slot _ hh _ => ⟨slot, hh⟩⟩
    refine ht.append hop.le fun slot entry hh => ?_
    rw [← ha.client, hc]
    exact (ht.recorded slot entry hh).client_ne

end Replica

end TigerBeetle
