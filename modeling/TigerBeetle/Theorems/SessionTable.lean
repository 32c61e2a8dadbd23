import TigerBeetle.SessionTable

namespace TigerBeetle.SessionTable

open Fallible LittleEndian Relation

namespace Reply

variable {reply : Reply}

theorem length_toWire : reply.toWire.length = headerSize := by
  simp [toWire, fields, headerSize]

section Fields

variable {i : Nat}

theorem slice_toWire {field : List UInt8} (offset size : Nat) (h : reply.fields[i]? = some field)
    (ho : ((reply.fields.take i).map List.length).sum = offset) (hs : field.length = size) :
    slice reply.toWire offset size = field := by
  rw [← ho, ← hs]
  exact slice_flatten _ h

theorem getWord_toWire {size : Nat} {word : BitVec (8 * size)} (i offset : Nat)
    (h : reply.fields[i]? = some (toBytes size word.toNat))
    (ho : ((reply.fields.take i).map List.length).sum = offset) :
    getWord size reply.toWire offset = word := by
  rw [getWord, slice_toWire offset size h ho length_toBytes, ofNat_ofBytes]

theorem getArray_toWire {size : Nat} {array : Vector UInt8 size} (i offset : Nat)
    (h : reply.fields[i]? = some array.toList)
    (ho : ((reply.fields.take i).map List.length).sum = offset) :
    getArray size reply.toWire offset = array := by
  rw [getArray, slice_toWire offset size h ho array.length_toList]
  refine Vector.ext fun i hi => ?_
  simp [List.getD_eq_getElem?_getD]

end Fields

theorem sum_length_take {i : Nat} : ((reply.fields.take i).map List.length).sum =
    ([16, 16, 16, 16, 16, 16, 4, 4, 4, 4, 2, 1, 1, 12, 16, 16, 16, 16, 16, 8, 8, 8, 4, 1,
      19].take i).sum := by
  rw [List.map_take]
  simp [fields]

theorem fromWire_toWire (h : reply.command = .reply) : fromWire reply.toWire = some reply := by
  have hcommand : slice reply.toWire 114 1 = [Command.reply.code] :=
    slice_toWire (i := 11) 114 1 (by rw [← h]; rfl) (by rw [sum_length_take]; rfl) rfl
  unfold fromWire
  rw [if_neg (not_not_intro hcommand)]
  refine congrArg some (Reply.ext ?checksum ?checksumPadding ?checksumBody ?checksumBodyPadding
    ?nonceReserved ?cluster ?size ?epoch ?view ?release ?protocol ?command ?replica ?reservedFrame
    ?requestChecksum ?requestChecksumPadding ?context ?contextPadding ?client ?op ?commit ?timestamp
    ?request ?operation ?reserved)
  case checksum => exact getWord_toWire 0 0 rfl (sum_length_take.trans rfl)
  case checksumPadding => exact getWord_toWire 1 16 rfl (sum_length_take.trans rfl)
  case checksumBody => exact getWord_toWire 2 32 rfl (sum_length_take.trans rfl)
  case checksumBodyPadding => exact getWord_toWire 3 48 rfl (sum_length_take.trans rfl)
  case nonceReserved => exact getWord_toWire 4 64 rfl (sum_length_take.trans rfl)
  case cluster => exact getWord_toWire 5 80 rfl (sum_length_take.trans rfl)
  case size => exact getWord_toWire 6 96 rfl (sum_length_take.trans rfl)
  case epoch => exact getWord_toWire 7 100 rfl (sum_length_take.trans rfl)
  case view => exact getWord_toWire 8 104 rfl (sum_length_take.trans rfl)
  case release => exact getWord_toWire 9 108 rfl (sum_length_take.trans rfl)
  case protocol => exact getWord_toWire 10 112 rfl (sum_length_take.trans rfl)
  case command => exact h.symm
  case replica => exact getWord_toWire 12 115 rfl (sum_length_take.trans rfl)
  case reservedFrame => exact getArray_toWire 13 116 rfl (sum_length_take.trans rfl)
  case requestChecksum => exact getWord_toWire 14 128 rfl (sum_length_take.trans rfl)
  case requestChecksumPadding => exact getWord_toWire 15 144 rfl (sum_length_take.trans rfl)
  case context => exact getWord_toWire 16 160 rfl (sum_length_take.trans rfl)
  case contextPadding => exact getWord_toWire 17 176 rfl (sum_length_take.trans rfl)
  case client => exact getWord_toWire 18 192 rfl (sum_length_take.trans rfl)
  case op => exact getWord_toWire 19 208 rfl (sum_length_take.trans rfl)
  case commit => exact getWord_toWire 20 216 rfl (sum_length_take.trans rfl)
  case timestamp => exact getWord_toWire 21 224 rfl (sum_length_take.trans rfl)
  case request => exact getWord_toWire 22 232 rfl (sum_length_take.trans rfl)
  case operation => exact getWord_toWire 23 236 rfl (sum_length_take.trans rfl)
  case reserved => exact getArray_toWire 24 237 rfl (sum_length_take.trans rfl)

end Reply

-- What is checked of an entry that is read back.
def Entry.Valid (checksum : List UInt8 → BitVec 128) (entry : Entry) : Prop :=
  entry.header.validChecksum checksum ∧ entry.session ≤ entry.header.commit

namespace ClientSessions

variable {sessions sessions' : ClientSessions} {client : BitVec 128} {slot : Slot}
  {session : BitVec 64} {header : Reply}

-- The three representations of the clients that have a session agree.
structure Consistent (sessions : ClientSessions) : Prop where
  mapped : ∀ client slot, sessions.getSlotForClient client = some slot ↔
    sessions.entriesPresent slot ∧ (sessions.entries slot).header.client = client
  active : ∀ slot, sessions.entriesPresent slot ↔ (sessions.entries slot).session ≠ 0
  zeroed : ∀ slot, ¬sessions.entriesPresent slot → sessions.entries slot = .zeroed
  replies : ∀ slot, sessions.entriesPresent slot → (sessions.entries slot).header.command = .reply
  counted : sessions.count = sessions.present.length

theorem mem_present : slot ∈ sessions.present ↔ sessions.entriesPresent slot := by
  simp [present]

theorem nodup_present : sessions.present.Nodup :=
  (List.nodup_finRange _).filter _

theorem Consistent.new : new.Consistent where
  mapped := fun client slot => by
    simp [getSlotForClient, ClientSessions.new]
  active := fun _ => by simp [ClientSessions.new, Entry.zeroed]
  zeroed := fun _ _ => rfl
  replies := fun _ h => absurd h (by simp [ClientSessions.new])
  counted := by
    have hnil : ClientSessions.new.present = [] := List.filter_eq_nil_iff.mpr fun _ _ => by
      simp [ClientSessions.new]
    rw [hnil]
    exact Std.ExtHashMap.size_empty

theorem equivBEq_client : EquivBEq (BitVec 128) :=
  inferInstance

theorem lawfulHashable_client : LawfulHashable (BitVec 128) :=
  inferInstance

-- A new entry in a free slot.
attribute [local instance] equivBEq_client lawfulHashable_client in
def occupy (sessions : ClientSessions) (index : Slot) (session : BitVec 64) (header : Reply) :
    ClientSessions where
  entriesByClient := sessions.entriesByClient.insert header.client index
  entries := Function.update sessions.entries index { session, header }
  entriesPresent := Function.update sessions.entriesPresent index true

theorem getSlotForClient_occupy :
    (sessions.occupy slot session header).getSlotForClient client =
      if client = header.client then some slot else sessions.getSlotForClient client := by
  simp only [getSlotForClient, occupy, Std.ExtHashMap.getElem?_insert, beq_iff_eq]
  simp only [@eq_comm _ client]

theorem present_occupy (hslot : ¬sessions.entriesPresent slot) :
    (sessions.occupy slot session header).present.Perm (slot :: sessions.present) := by
  have hm : slot ∉ sessions.present := fun h => hslot (mem_present.mp h)
  refine (List.perm_ext_iff_of_nodup nodup_present
    (List.nodup_cons.mpr ⟨hm, nodup_present⟩)).mpr fun slot' => ?_
  rw [mem_present, List.mem_cons, mem_present, occupy]
  by_cases he : slot' = slot
  · simp [he]
  · simp [he]

section

variable (h : sessions.Consistent)

include h

theorem Consistent.occupy (hslot : ¬sessions.entriesPresent slot)
    (hclient : sessions.getSlotForClient header.client = none) (hs : session ≠ 0)
    (hc : header.command = .reply) : (sessions.occupy slot session header).Consistent where
  mapped := fun client slot' => by
    rw [getSlotForClient_occupy]
    have hm := h.mapped client slot'
    have hn := h.mapped header.client slot'
    simp only [ClientSessions.occupy]
    by_cases he : slot' = slot
    · subst he
      simp only [Function.update_self, true_and]
      split
      case isTrue hcl => simp [hcl]
      case isFalse hcl =>
        simp only [hm, hslot]
        simpa using fun hcl' : header.client = client => hcl hcl'.symm
    · rw [Function.update_of_ne he, Function.update_of_ne he, ← hm]
      split
      case isTrue hcl =>
        subst hcl
        simp [hclient, Ne.symm he]
      case isFalse => rfl
  active := fun slot' => by
    simp only [ClientSessions.occupy]
    by_cases he : slot' = slot
    · subst he
      simpa using hs
    · rw [Function.update_of_ne he, Function.update_of_ne he]
      exact h.active slot'
  zeroed := fun slot' => by
    simp only [ClientSessions.occupy]
    by_cases he : slot' = slot
    · simp [he]
    · rw [Function.update_of_ne he, Function.update_of_ne he]
      exact h.zeroed slot'
  replies := fun slot' => by
    simp only [ClientSessions.occupy]
    by_cases he : slot' = slot
    · subst he
      simpa using hc
    · rw [Function.update_of_ne he, Function.update_of_ne he]
      exact h.replies slot'
  counted := by
    have hnew : header.client ∉ sessions.entriesByClient := by
      rw [Std.ExtHashMap.mem_iff_isSome_getElem?]
      simpa [getSlotForClient] using hclient
    have hlen := (@present_occupy _ _ session header hslot).length_eq
    have hcount := h.counted
    rw [hlen, List.length_cons, ← hcount]
    exact Std.ExtHashMap.size_insert.trans (if_neg hnew)

theorem Consistent.replace (hslot : sessions.entriesPresent slot)
    (hclient : (sessions.entries slot).header.client = header.client)
    (hc : header.command = .reply) :
    Consistent { sessions with
      entries := Function.update sessions.entries slot { sessions.entries slot with header } } where
  mapped := fun client slot' => by
    refine Iff.trans (h.mapped client slot') ?_
    by_cases he : slot' = slot
    · subst he
      simp [← hclient]
    · simp [he]
  active := fun slot' => by
    by_cases he : slot' = slot
    · subst he
      simpa using h.active slot'
    · simpa [he] using h.active slot'
  zeroed := fun slot' hn => by
    have he : slot' ≠ slot := fun he => hn (he ▸ hslot)
    simpa [he] using h.zeroed slot' hn
  replies := fun slot' => by
    by_cases he : slot' = slot
    · subst he
      simp [hc]
    · simpa [he] using h.replies slot'
  counted := h.counted

theorem Consistent.put (hput : sessions.put session header = .ok (slot, sessions')) :
    sessions'.Consistent ∧
    (∀ client, sessions'.getSlotForClient client =
      if client = header.client then some slot else sessions.getSlotForClient client) ∧
    ∀ slot', sessions.getSlotForClient header.client = some slot' → slot' = slot := by
  unfold ClientSessions.put at hput
  have ⟨hs, hput⟩ := assert_ok hput
  have ⟨hc, hput⟩ := assert_ok hput
  split at hput
  case h_1 index hindex =>
    have ⟨hpresent, hput⟩ := assert_ok hput
    have ⟨_, hput⟩ := assert_ok hput
    have ⟨_, hput⟩ := assert_ok hput
    have ⟨hclient, hput⟩ := assert_ok hput
    have ⟨_, hput⟩ := assert_ok hput
    cases hput
    refine ⟨h.replace hpresent hclient hc, fun client => ?_, fun slot' hslot' => ?_⟩
    · split
      case isTrue he => exact he ▸ hindex
      case isFalse => rfl
    · exact Option.some.inj (hslot'.symm.trans hindex)
  case h_2 hnone =>
    split at hput
    case h_1 => cases hput
    case h_2 index hunset =>
      have ⟨_, hput⟩ := assert_ok hput
      cases hput
      have hfree : ¬sessions.entriesPresent slot := by
        simpa using List.find?_some hunset
      refine ⟨h.occupy hfree hnone hs hc, fun _ => getSlotForClient_occupy, fun slot' hslot' => ?_⟩
      rw [getSlotForClient, hnone] at hslot'
      cases hslot'

theorem Consistent.remove (hremove : sessions.remove client = .ok sessions') :
    sessions'.Consistent ∧ ∀ client', sessions'.getSlotForClient client' =
      if client' = client then none else sessions.getSlotForClient client' := by
  unfold ClientSessions.remove at hremove
  split at hremove
  case h_1 => cases hremove
  case h_2 index hindex =>
    have ⟨hpresent, hremove⟩ := assert_ok hremove
    have ⟨hclient, hremove⟩ := assert_ok hremove
    have ⟨_, hremove⟩ := assert_ok hremove
    cases hremove
    have hslots : ∀ client', (sessions.entriesByClient.erase client)[client']? =
        if client' = client then none else sessions.getSlotForClient client' := by
      intro client'
      simp only [Std.ExtHashMap.getElem?_erase, beq_iff_eq, @eq_comm _ client]
      rfl
    have hperm : sessions.present.Perm
        (index :: List.filter (Function.update sessions.entriesPresent index false)
          (List.finRange clientsMax)) := by
      refine (List.perm_ext_iff_of_nodup nodup_present (List.nodup_cons.mpr
        ⟨by simp, (List.nodup_finRange _).filter _⟩)).mpr fun slot' => ?_
      rw [mem_present, List.mem_cons, List.mem_filter]
      by_cases he : slot' = index
      · simp [he, hpresent]
      · simp [he]
    refine ⟨⟨?mapped, ?active, ?zeroed, ?replies, ?counted⟩, hslots⟩
    case mapped =>
      intro client' slot'
      refine (iff_of_eq (congrArg (· = some slot') (hslots client'))).trans ?_
      have hm := h.mapped client' slot'
      by_cases he : slot' = index
      · subst he
        simp only [Function.update_self, Bool.false_eq_true, false_and, iff_false]
        split
        case isTrue => simp
        case isFalse hcl =>
          rw [hm]
          exact fun hp => hcl (hp.2.symm.trans hclient)
      · simp only [ne_eq, he, not_false_eq_true, Function.update_of_ne]
        rw [← hm]
        split
        case isTrue hcl =>
          subst hcl
          have hne : sessions.getSlotForClient client' ≠ some slot' := fun hs =>
            he (Option.some.inj (hs.symm.trans hindex))
          simp [hne]
        case isFalse => rfl
    case active =>
      intro slot'
      by_cases he : slot' = index
      · subst he
        simp [Entry.zeroed]
      · simpa [he] using h.active slot'
    case zeroed =>
      intro slot' hn
      by_cases he : slot' = index
      · simp [he]
      · simpa [he] using h.zeroed slot' (by simpa [he] using hn)
    case replies =>
      intro slot' hp
      by_cases he : slot' = index
      · subst he
        simp at hp
      · simpa [he] using h.replies slot' (by simpa [he] using hp)
    case counted =>
      have hmem : client ∈ sessions.entriesByClient := by
        rw [Std.ExtHashMap.mem_iff_isSome_getElem?, hindex]
        rfl
      have hlen := hperm.length_eq
      have hcount := h.counted
      have hsize : (sessions.entriesByClient.erase client).size = sessions.entriesByClient.size - 1 :=
        Std.ExtHashMap.size_erase.trans (if_pos hmem)
      rw [List.length_cons, ← hcount] at hlen
      exact hsize.trans (by rw [count] at hlen; rw [hlen]; rfl)

theorem Consistent.step (hs : Step sessions sessions') :
    sessions'.Consistent ∧ ∀ client slot slot', sessions.getSlotForClient client = some slot →
      sessions'.getSlotForClient client = some slot' → slot' = slot := by
  have ⟨c, hcall⟩ := hs
  cases c with
  | put session header =>
    have ⟨⟨index, _⟩, hput, hreturn⟩ := bind_eq_ok.mp hcall
    cases hreturn
    have ⟨hc, hslots, hsame⟩ := h.put hput
    refine ⟨hc, fun client slot slot' hslot hslot' => ?_⟩
    rw [hslots] at hslot'
    split at hslot'
    case isTrue he =>
      subst he
      exact (Option.some.inj hslot').symm.trans (hsame _ hslot).symm
    case isFalse => exact Option.some.inj (hslot'.symm.trans hslot)
  | remove client' =>
    have ⟨hc, hslots⟩ := h.remove hcall
    refine ⟨hc, fun client slot slot' hslot hslot' => ?_⟩
    rw [hslots] at hslot'
    split at hslot'
    case isTrue => cases hslot'
    case isFalse => exact Option.some.inj (hslot'.symm.trans hslot)

end

theorem Reachable.consistent (h : Reachable sessions) : sessions.Consistent := by
  induction h with
  | refl => exact .new
  | tail _ hs ih => exact (ih.step hs).1

section Evictee

-- The replies among which the oldest one is searched.
def candidates (evictee : Option Reply) (entries : List Entry) : List Reply :=
  evictee.toList ++ entries.map Entry.header

theorem oldest_cons {evictee : Option Reply} {entry : Entry} {entries : List Entry} :
    oldest evictee (entry :: entries) = (do
      assert (entry.header.command = .reply) "entry.header.command == Reply"
      assert (entry.header.op = entry.header.commit) "entry.header.op == entry.header.commit"
      assert (entry.session ≤ entry.header.commit) "entry.header.commit >= entry.session"
      match evictee with
      | none       => oldest (some entry.header) entries
      | some reply => do
        assert (entry.header.client ≠ reply.client) "entry.header.client != evictee_reply.client"
        assert (entry.header.commit ≠ reply.commit) "entry.header.commit != evictee_reply.commit"
        oldest (some (if entry.header.commit < reply.commit then entry.header else reply)) entries) := by
  cases evictee <;> rfl

theorem oldest_least {evictee result : Option Reply} {entries : List Entry} {reply : Reply}
    (h : oldest evictee entries = .ok result) (hr : result = some reply) :
    reply ∈ candidates evictee entries ∧
      ∀ other ∈ candidates evictee entries, other = reply ∨ reply.commit < other.commit := by
  induction entries generalizing evictee with
  | nil =>
    cases h
    subst hr
    simp [candidates]
  | cons entry entries ih =>
    rw [oldest_cons] at h
    have ⟨_, h⟩ := assert_ok h
    have ⟨_, h⟩ := assert_ok h
    have ⟨_, h⟩ := assert_ok h
    cases evictee with
    | none => exact ih h
    | some first =>
      have ⟨_, h⟩ := assert_ok h
      have ⟨hne, h⟩ := assert_ok h
      have ⟨hmem, hleast⟩ := ih h
      simp only [candidates, Option.toList_some, List.singleton_append, List.map_cons,
        List.mem_cons] at hmem hleast ⊢
      have hle := hleast _ (.inl rfl)
      refine ⟨?_, fun other hother => ?_⟩
      · split at hmem <;> tauto
      · rcases hother with rfl | rfl | hother
        all_goals grind

theorem oldest_succeeds {evictee : Option Reply} {entries : List Entry}
    (hentries : ∀ entry ∈ entries, entry.header.command = .reply ∧
      entry.header.op = entry.header.commit ∧ entry.session ≤ entry.header.commit)
    (hdistinct : (candidates evictee entries).Pairwise fun a b =>
      b.client ≠ a.client ∧ b.commit ≠ a.commit) :
    ∃ result, oldest evictee entries = .ok result ∧
      (result = none → candidates evictee entries = []) := by
  induction entries generalizing evictee with
  | nil => exact ⟨evictee, rfl, fun h => by simp [candidates, h]⟩
  | cons entry entries ih =>
    obtain ⟨hcommand, hop, hsession⟩ := hentries entry List.mem_cons_self
    have hentries' := fun e he => hentries e (List.mem_cons_of_mem entry he)
    rw [oldest_cons, assert_of hcommand, assert_of hop, assert_of hsession]
    cases evictee with
    | none =>
      obtain ⟨result, hresult, hnone⟩ := @ih (some entry.header) hentries' hdistinct
      exact ⟨result, hresult, hnone⟩
    | some first =>
      simp only [candidates, Option.toList_some, List.singleton_append, List.map_cons,
        List.pairwise_cons, List.mem_cons] at hdistinct
      obtain ⟨hfirst, hentry, hrest⟩ := hdistinct
      obtain ⟨hclient, hcommit⟩ := hfirst _ (.inl rfl)
      simp only [ok_bind, assert_of hclient, assert_of hcommit]
      have hpairwise : (candidates
          (some (if entry.header.commit < first.commit then entry.header else first))
          entries).Pairwise fun a b => b.client ≠ a.client ∧ b.commit ≠ a.commit := by
        simp only [candidates, Option.toList_some, List.singleton_append, List.pairwise_cons]
        refine ⟨fun other hother => ?_, hrest⟩
        split
        case isTrue => exact hentry other hother
        case isFalse => exact hfirst other (.inr hother)
      obtain ⟨result, hresult, hnone⟩ := @ih _ hentries' hpairwise
      exact ⟨result, hresult, fun h => by simp [candidates] at hnone; exact absurd h hnone⟩

theorem mem_iterator {entry : Entry} : entry ∈ sessions.iterator ↔
    ∃ slot, sessions.entries slot = entry ∧ entry.session ≠ 0 := by
  simp only [iterator, List.mem_filter, List.mem_map, List.mem_finRange, true_and,
    decide_eq_true_eq]
  tauto

-- The client that is evicted is the one with the oldest reply.
theorem Consistent.evictee_least (h : sessions.Consistent) (he : sessions.evictee = .ok client) :
    ∃ slot, sessions.getSlotForClient client = some slot ∧
      ∀ slot' ≠ slot, sessions.entriesPresent slot' →
        (sessions.entries slot).header.commit < (sessions.entries slot').header.commit := by
  unfold evictee at he
  have ⟨_, he⟩ := assert_ok he
  have ⟨_, he⟩ := assert_ok he
  have ⟨result, holdest, he⟩ := bind_eq_ok.mp he
  have ⟨_, he⟩ := assert_ok he
  cases result with
  | none => cases he
  | some reply =>
    cases he
    have ⟨hmem, hleast⟩ := oldest_least holdest rfl
    have ⟨entry, hentry, hreply⟩ := List.mem_map.mp hmem
    have ⟨slot, hslot, hsession⟩ := mem_iterator.mp hentry
    subst hslot
    subst hreply
    have hpresent := (h.active slot).mpr hsession
    refine ⟨slot, (h.mapped _ slot).mpr ⟨hpresent, rfl⟩, fun slot' hne hpresent' => ?_⟩
    have hmem' : (sessions.entries slot').header ∈ candidates none sessions.iterator :=
      List.mem_map.mpr ⟨_, mem_iterator.mpr ⟨slot', rfl, (h.active slot').mp hpresent'⟩, rfl⟩
    refine (hleast _ hmem').resolve_left fun hsame => hne ?_
    have hslot' := (h.mapped _ slot').mpr ⟨hpresent', rfl⟩
    rw [hsame, (h.mapped _ slot).mpr ⟨hpresent, rfl⟩] at hslot'
    exact (Option.some.inj hslot').symm

-- A full table with a reply for each of several ops has a client to evict.
theorem Consistent.evictee_succeeds (h : sessions.Consistent)
    (hfull : ∀ slot, sessions.entriesPresent slot)
    (hops : ∀ slot, (sessions.entries slot).header.op = (sessions.entries slot).header.commit ∧
      (sessions.entries slot).session ≤ (sessions.entries slot).header.commit)
    (hdistinct : ∀ slot slot', (sessions.entries slot).header.commit =
      (sessions.entries slot').header.commit → slot = slot') :
    ∃ client, sessions.evictee = .ok client := by
  have hpresent : sessions.present = List.finRange clientsMax :=
    List.filter_eq_self.mpr fun slot _ => hfull slot
  have hiterator : sessions.iterator = (List.finRange clientsMax).map sessions.entries := by
    refine List.filter_eq_self.mpr fun entry hentry => ?_
    obtain ⟨slot, _, rfl⟩ := List.mem_map.mp hentry
    simpa using (h.active slot).mp (hfull slot)
  have hlen : sessions.present.length = clientsMax := by rw [hpresent, List.length_finRange]
  have hcount : sessions.count = clientsMax := h.counted.trans hlen
  have hiterated : sessions.iterator.length = clientsMax := by
    rw [hiterator, List.length_map, List.length_finRange]
  have ⟨result, holdest, hnone⟩ := @oldest_succeeds none sessions.iterator
    (fun entry hentry => by
      have ⟨slot, hslot, _⟩ := mem_iterator.mp hentry
      exact hslot ▸ ⟨h.replies slot (hfull slot), hops slot⟩)
    (by
      rw [hiterator]
      simp only [candidates, Option.toList_none, List.nil_append, List.map_map, List.pairwise_map]
      refine (List.nodup_finRange clientsMax).imp fun {a b} hne => ?_
      refine ⟨fun hclient => hne ?_, fun hcommit => hne (hdistinct _ _ hcommit.symm)⟩
      have ha := (h.mapped _ a).mpr ⟨hfull a, rfl⟩
      have hb := (h.mapped _ b).mpr ⟨hfull b, rfl⟩
      simp only [Function.comp_apply] at hclient
      rw [hclient, ha] at hb
      exact Option.some.inj hb)
  unfold evictee
  rw [assert_of hlen, assert_of hcount, holdest]
  cases result with
  | some reply =>
    refine ⟨reply.client, ?_⟩
    rw [ok_bind, ok_bind, ok_bind, assert_of hiterated]
    rfl
  | none =>
    have hnil := hnone rfl
    have hzero : sessions.iterator.length = 0 := by simpa [candidates] using hnil
    rw [hzero] at hiterated
    cases hiterated

end Evictee

section Restore

theorem length_headers : ((List.finRange clientsMax).flatMap fun slot =>
    (sessions.entries slot).header.toWire).length = clientsMax * headerSize := by
  rw [length_flatMap fun _ => Reply.length_toWire, List.length_finRange]

theorem encoding_eq : sessions.encoding =
    ((List.finRange clientsMax).flatMap fun slot => (sessions.entries slot).header.toWire) ++
      (List.finRange clientsMax).flatMap fun slot =>
        toBytes 8 (sessions.entries slot).session.toNat := by
  have hheaders : headersOffset = 0 := rfl
  have hsessions : sessionsOffset - clientsMax * headerSize = 0 := rfl
  simp only [encoding, hheaders, List.replicate_zero, List.nil_append, length_headers, hsessions,
    List.append_nil]

theorem length_encoding : sessions.encoding.length = encodeSize := by
  rw [encoding_eq, List.length_append, length_headers, length_flatMap fun _ => length_toBytes,
    List.length_finRange]
  rfl

theorem get_of_le {source : List UInt8} {offset size : Nat} (h : offset + size ≤ source.length) :
    get source offset size = .ok (slice source offset size) := by
  rw [get, assert_of h]
  rfl

theorem getElem?_finRange : (List.finRange clientsMax)[slot.val]? = some slot := by
  simp

theorem get_header : get sessions.encoding (headersOffset + slot * headerSize) headerSize =
    .ok (sessions.entries slot).header.toWire := by
  have hoffset : headersOffset + slot * headerSize = slot * headerSize := Nat.zero_add _
  have hlt := slot.isLt
  rw [hoffset, get_of_le, encoding_eq, slice_flatMap (fun _ => Reply.length_toWire) getElem?_finRange]
  rw [length_encoding]
  simp only [encodeSize, sessionsOffset, headersOffset, alignForward, clientsMax, headerSize] at hlt ⊢
  omega

theorem get_session : get sessions.encoding (sessionsOffset + slot * 8) 8 =
    .ok (toBytes 8 (sessions.entries slot).session.toNat) := by
  have hlt := slot.isLt
  have hoffset : sessionsOffset = clientsMax * headerSize := rfl
  have hslice := @slice_flatMap _ _ (fun slot => toBytes 8 (sessions.entries slot).session.toNat) 8
    (fun _ => length_toBytes) _ _ _ (@getElem?_finRange slot) []
  rw [List.append_nil, slice] at hslice
  rw [get_of_le, encoding_eq, slice, hoffset, ← List.drop_drop, ← @length_headers sessions,
    List.drop_left, hslice]
  rw [length_encoding]
  simp only [encodeSize, clientsMax] at hlt ⊢
  omega

variable {checksum : List UInt8 → BitVec 128} {restored : ClientSessions} {slots rest : List Slot}

-- The table of the entries in the given slots.
structure Restored (sessions : ClientSessions) (slots : List Slot) (restored : ClientSessions) :
    Prop where
  consistent : restored.Consistent
  present : ∀ slot, restored.entriesPresent slot ↔ sessions.entriesPresent slot ∧ slot ∈ slots
  entries : ∀ slot ∈ slots, restored.entries slot = sessions.entries slot

theorem Restored.new : sessions.Restored [] .new where
  consistent := .new
  present := fun _ => by simp [ClientSessions.new]
  entries := fun _ h => absurd h List.not_mem_nil

theorem Restored.eq (h : sessions.Consistent)
    (hr : sessions.Restored (List.finRange clientsMax) restored) :
    restored = sessions := by
  have hentries : restored.entries = sessions.entries :=
    funext fun slot => hr.entries slot (List.mem_finRange slot)
  have hpresent : restored.entriesPresent = sessions.entriesPresent :=
    funext fun slot => Bool.eq_iff_iff.mpr (by simpa using hr.present slot)
  have hmap : restored.entriesByClient = sessions.entriesByClient := by
    refine Std.ExtHashMap.ext_getElem? fun client => Option.ext fun slot => ?_
    refine (hr.consistent.mapped client slot).trans (Iff.trans ?_ (h.mapped client slot).symm)
    rw [hentries, hpresent]
  cases restored
  cases sessions
  simp_all

theorem Restored.skip (h : sessions.Consistent) (hr : sessions.Restored slots restored)
    (hs : slot ∉ slots) (hp : ¬sessions.entriesPresent slot) :
    sessions.Restored (slots ++ [slot]) restored where
  consistent := hr.consistent
  present := fun slot' => by
    rw [hr.present, List.mem_append, List.mem_singleton]
    by_cases he : slot' = slot
    · simp [he, hp]
    · simp [he]
  entries := fun slot' hslot' => by
    cases List.mem_append.mp hslot' with
    | inl hmem => exact hr.entries slot' hmem
    | inr hmem =>
      obtain rfl := List.mem_singleton.mp hmem
      have hfree : ¬restored.entriesPresent slot' := fun hp' => hp ((hr.present slot').mp hp').1
      rw [hr.consistent.zeroed slot' hfree, h.zeroed slot' hp]

theorem Restored.occupy (h : sessions.Consistent) (hr : sessions.Restored slots restored)
    (hs : slot ∉ slots) (hp : sessions.entriesPresent slot) :
    sessions.Restored (slots ++ [slot])
      (restored.occupy slot (sessions.entries slot).session (sessions.entries slot).header) where
  consistent := by
    have hfree : ¬restored.entriesPresent slot := fun hp' => hs ((hr.present slot).mp hp').2
    refine hr.consistent.occupy hfree ?_ ((h.active slot).mp hp) (h.replies slot hp)
    refine Option.eq_none_iff_forall_ne_some.mpr fun slot' hslot' => hs ?_
    have ⟨hpresent, hclient⟩ := (hr.consistent.mapped _ slot').mp hslot'
    have ⟨hpresent', hmem⟩ := (hr.present slot').mp hpresent
    rw [hr.entries slot' hmem] at hclient
    have hsame := (h.mapped _ slot').mpr ⟨hpresent', hclient⟩
    rw [(h.mapped _ slot).mpr ⟨hp, rfl⟩] at hsame
    exact Option.some.inj hsame ▸ hmem
  present := fun slot' => by
    simp only [ClientSessions.occupy, List.mem_append, List.mem_singleton]
    by_cases he : slot' = slot
    · simp [he, hp]
    · simp [he, hr.present]
  entries := fun slot' hslot' => by
    simp only [ClientSessions.occupy]
    by_cases he : slot' = slot
    · simp [he]
    · rw [Function.update_of_ne he]
      exact hr.entries slot' (by simpa [he] using hslot')

theorem toBytes_zero {size : Nat} : ∀ byte ∈ toBytes size 0, byte = 0 := by
  induction size with
  | zero         => exact fun _ h => absurd h List.not_mem_nil
  | succ size ih => exact List.forall_mem_cons.mpr ⟨rfl, ih⟩

theorem zeroed_toWire : ∀ byte ∈ Reply.zeroed.toWire, byte = 0 := by
  simp only [Reply.toWire, Reply.fields, List.flatten_cons, List.forall_mem_append]
  and_intros
  all_goals first
    | exact toBytes_zero
    | exact fun _ h => List.eq_of_mem_replicate h
    | exact fun _ h => List.mem_singleton.mp h
    | exact fun _ h => absurd h List.not_mem_nil

theorem decodeEntry_free (h : sessions.Consistent) (hp : ¬sessions.entriesPresent slot) :
    decodeEntry checksum sessions.encoding restored slot = .ok restored := by
  unfold decodeEntry
  rw [get_header, get_session, h.zeroed slot hp]
  have hsession : BitVec.ofNat 64 (ofBytes (toBytes 8 Entry.zeroed.session.toNat)) = 0 :=
    @ofNat_ofBytes 8 0
  simp only [ok_bind, hsession, ↓reduceIte]
  rw [Entry.zeroed, assert_of zeroed_toWire]
  rfl

theorem decodeEntry_present (h : sessions.Consistent) (hp : sessions.entriesPresent slot) :
    decodeEntry checksum sessions.encoding restored slot = (do
      assert ((sessions.entries slot).header.validChecksum checksum) "header.valid_checksum()"
      assert ((sessions.entries slot).session ≤ (sessions.entries slot).header.commit)
        "header.commit >= session"
      return restored.occupy slot (sessions.entries slot).session (sessions.entries slot).header) := by
  unfold decodeEntry
  rw [get_header, get_session]
  have hsession : BitVec.ofNat 64 (ofBytes (toBytes 8 (sessions.entries slot).session.toNat)) =
      (sessions.entries slot).session := @ofNat_ofBytes 8 _
  simp only [ok_bind, hsession, (h.active slot).mp hp, ↓reduceIte,
    Reply.fromWire_toWire (h.replies slot hp)]
  rfl

theorem decodeEntries (h : sessions.Consistent) (hr : sessions.Restored slots restored)
    (hnodup : (slots ++ rest).Nodup)
    (hvalid : ∀ slot ∈ rest, sessions.entriesPresent slot → (sessions.entries slot).Valid checksum) :
    ∃ restored', rest.foldlM (decodeEntry checksum sessions.encoding) restored = .ok restored' ∧
      sessions.Restored (slots ++ rest) restored' := by
  induction rest generalizing slots restored with
  | nil => exact ⟨restored, rfl, (List.append_nil slots).symm ▸ hr⟩
  | cons slot rest ih =>
    have hs : slot ∉ slots := fun hmem =>
      List.disjoint_of_nodup_append hnodup hmem List.mem_cons_self
    have hvalid' := fun slot' hmem => hvalid slot' (List.mem_cons_of_mem slot hmem)
    rw [List.append_cons] at hnodup ⊢
    rw [List.foldlM_cons]
    by_cases hp : sessions.entriesPresent slot
    · have ⟨hchecksum, hcommit⟩ := hvalid slot List.mem_cons_self hp
      rw [decodeEntry_present h hp, assert_of hchecksum, assert_of hcommit]
      exact ih (hr.occupy h hs hp) hnodup hvalid'
    · rw [decodeEntry_free h hp, ok_bind]
      exact ih (hr.skip h hs hp) hnodup hvalid'

theorem decodeEntries_valid (h : sessions.Consistent) {restored' : ClientSessions}
    (hdecode : rest.foldlM (decodeEntry checksum sessions.encoding) restored = .ok restored') :
    ∀ slot ∈ rest, sessions.entriesPresent slot → (sessions.entries slot).Valid checksum := by
  induction rest generalizing restored with
  | nil => exact fun _ hmem => absurd hmem List.not_mem_nil
  | cons first rest ih =>
    rw [List.foldlM_cons] at hdecode
    have ⟨next, hfirst, hrest⟩ := bind_eq_ok.mp hdecode
    intro slot hmem hp
    cases List.mem_cons.mp hmem with
    | inl he =>
      subst he
      rw [decodeEntry_present h hp] at hfirst
      have ⟨hchecksum, hfirst⟩ := assert_ok hfirst
      exact ⟨hchecksum, (assert_ok hfirst).1⟩
    | inr hmem => exact ih hrest slot hmem hp

theorem decode_new {source : List UInt8} (hlen : source.length = encodeSize) :
    new.decode checksum source = (do
      let sessions ← (List.finRange clientsMax).foldlM (decodeEntry checksum source) new
      assert (sessions.present.length = sessions.count) "a client must have at most one entry"
      return sessions) := by
  have hcounted := Consistent.new.counted
  have hcount : new.count = 0 := Std.ExtHashMap.size_empty
  have hne : source ≠ [] := by
    rintro rfl
    cases hlen
  have hsessions : ∀ slot, (new.entries slot).session = 0 := fun _ => rfl
  have hheaders : ∀ slot, ∀ byte ∈ (new.entries slot).header.toWire, byte = 0 :=
    fun _ => zeroed_toWire
  unfold decode
  rw [assert_of hcount, assert_of (hcounted.symm.trans hcount), assert_of hsessions,
    assert_of hheaders, assert_of hne, assert_of hlen.le]
  rfl

-- A table is read back as it was written, as long as its replies are valid.
theorem Consistent.decode_encoding (h : sessions.Consistent) :
    ClientSessions.new.decode checksum sessions.encoding = .ok sessions ↔
      ∀ slot, sessions.entriesPresent slot → (sessions.entries slot).Valid checksum := by
  rw [decode_new length_encoding]
  constructor
  · intro hdecode slot
    have ⟨_, hfold, _⟩ := bind_eq_ok.mp hdecode
    exact decodeEntries_valid h hfold slot (List.mem_finRange slot)
  · intro hvalid
    have ⟨restored, hfold, hr⟩ : ∃ restored, (List.finRange clientsMax).foldlM
        (decodeEntry checksum sessions.encoding) ClientSessions.new = .ok restored ∧
        sessions.Restored (List.finRange clientsMax) restored :=
      decodeEntries h .new (List.nodup_finRange clientsMax) fun slot _ => hvalid slot
    rw [hfold, ok_bind, hr.eq h, assert_of h.counted.symm]
    rfl

end Restore

-- A call that leaves a client present leaves it in its slot.
theorem Reachable.slot_stable (h : Reachable sessions)
    (hs : ReflTransGen (fun before after => Step before after ∧
      (after.getSlotForClient client).isSome) sessions sessions')
    (hslot : sessions.getSlotForClient client = some slot) :
    sessions'.getSlotForClient client = some slot := by
  have hall : Reachable sessions' ∧ sessions'.getSlotForClient client = some slot := by
    induction hs with
    | refl => exact ⟨h, hslot⟩
    | tail _ hs ih =>
      have ⟨hreach, hslot⟩ := ih
      have ⟨slot', hslot'⟩ := Option.isSome_iff_exists.mp hs.2
      have hsame := (hreach.consistent.step hs.1).2 client slot slot' hslot hslot'
      exact ⟨hreach.tail hs.1, hsame ▸ hslot'⟩
  exact hall.2

-- The table is a bounded map: the index, the bits and the entries describe the same clients, who
-- keep their slots, and the oldest reply is evicted. It is restored as it was from its encoding
-- precisely if its replies pass the checks.
theorem Reachable.tracks (h : Reachable sessions) :
    (∀ client slot, sessions.getSlotForClient client = some slot ↔
      sessions.entriesPresent slot ∧ (sessions.entries slot).header.client = client) ∧
    (∀ slot, sessions.entriesPresent slot ↔ (sessions.entries slot).session ≠ 0) ∧
    sessions.count = sessions.present.length ∧
    (∀ client slot sessions', ReflTransGen (fun before after => Step before after ∧
        (after.getSlotForClient client).isSome) sessions sessions' →
      sessions.getSlotForClient client = some slot →
      sessions'.getSlotForClient client = some slot) ∧
    (∀ client, sessions.evictee = .ok client → ∃ slot,
      sessions.getSlotForClient client = some slot ∧ ∀ slot' ≠ slot, sessions.entriesPresent slot' →
        (sessions.entries slot).header.commit < (sessions.entries slot').header.commit) ∧
    ((∀ slot, sessions.entriesPresent slot ∧
        (sessions.entries slot).header.op = (sessions.entries slot).header.commit ∧
        (sessions.entries slot).session ≤ (sessions.entries slot).header.commit) →
      (∀ slot slot', (sessions.entries slot).header.commit = (sessions.entries slot').header.commit →
        slot = slot') →
      ∃ client, sessions.evictee = .ok client) ∧
    ∀ checksum target, encodeSize ≤ target.length → ∃ encoded,
      sessions.encode target = .ok (encoded, encodeSize) ∧
      (new.decode checksum (encoded.take encodeSize) = .ok sessions ↔
        ∀ slot, sessions.entriesPresent slot → (sessions.entries slot).Valid checksum) := by
  have hc := h.consistent
  refine ⟨hc.mapped, hc.active, hc.counted, fun _ _ _ hs => h.slot_stable hs,
    fun _ => hc.evictee_least, fun hfull => ?_, fun checksum target hlen => ?_⟩
  · exact hc.evictee_succeeds (fun slot => (hfull slot).1) fun slot => (hfull slot).2
  · refine ⟨sessions.encoding ++ target.drop sessions.encoding.length, ?_, ?_⟩
    · rw [encode, assert_of hlen, assert_of length_encoding, length_encoding]
      rfl
    · rw [← @length_encoding sessions, List.take_left]
      exact hc.decode_encoding

section Single

def firstSlot : Slot :=
  ⟨0, by decide⟩

theorem put_unset (hnone : sessions.entriesByClient[header.client]? = none)
    (hunset : sessions.firstUnset = some slot) (hfree : (sessions.entries slot).session = 0)
    (hs : session ≠ 0) (hc : header.command = .reply) :
    sessions.put session header = .ok (slot, sessions.occupy slot session header) := by
  unfold put
  rw [assert_of hs, assert_of hc, hnone, hunset]
  simp only [ok_bind, assert_of hfree]
  rfl

theorem reachable_first (hs : session ≠ 0) (hc : header.command = .reply) :
    Reachable (new.occupy firstSlot session header) :=
  .single ⟨.put session header, by
    rw [call, put_unset Std.ExtHashMap.getElem?_empty (show new.firstUnset = some firstSlot from rfl) rfl hs hc]
    rfl⟩

def secondSlot : Slot :=
  ⟨1, by decide⟩

def reply (client : BitVec 128) (commit : BitVec 64) : Reply :=
  { Reply.zeroed with command := .reply, client, commit }

def first : ClientSessions :=
  new.occupy firstSlot 1 (reply 1 1)

def second : ClientSessions :=
  first.occupy secondSlot 2 (reply 2 2)

theorem put_second : first.call (.put 2 (reply 2 2)) = .ok second := by
  have hnone : first.entriesByClient[(reply 2 2).client]? = none := by
    simp [first, occupy, new, reply]
  have hunset : first.firstUnset = some secondSlot := rfl
  rw [call, put_unset hnone hunset rfl (by decide) rfl]
  rfl

theorem remove_first : ∃ remaining, second.call (.remove 1) = .ok remaining ∧
    ∀ slot, remaining.entriesPresent slot →
      slot = secondSlot ∧ remaining.entries slot = ⟨2, reply 2 2⟩ := by
  have hsome : second.entriesByClient[(1 : BitVec 128)]? = some firstSlot := by
    show ((new.entriesByClient.insert 1 firstSlot).insert 2 secondSlot)[(1 : BitVec 128)]? = _
    rw [Std.ExtHashMap.getElem?_insert, Std.ExtHashMap.getElem?_insert]
    rfl
  have hpresent : second.entriesPresent firstSlot = true := rfl
  have hclient : (second.entries firstSlot).header.client = 1 := rfl
  rw [call, remove, hsome]
  dsimp only
  rw [assert_of hpresent, assert_of hclient, assert_of Std.ExtHashMap.getElem?_erase_self]
  refine ⟨_, rfl, fun slot hp => ?_⟩
  have he : slot = secondSlot := by
    by_contra hne
    simp [second, first, occupy, new, Function.update_apply, hne] at hp
  subst he
  exact ⟨rfl, rfl⟩

theorem Reachable.tracks_first : ∃ remaining encoded, second.call (.remove 1) = .ok remaining ∧
    remaining.encode (List.replicate encodeSize 0) = .ok (encoded, encodeSize) ∧
    new.decode (fun _ => 0) (encoded.take encodeSize) = .ok remaining := by
  obtain ⟨remaining, hremove, hpresent⟩ := remove_first
  have hr : Reachable remaining :=
    ((reachable_first (by decide) rfl).tail ⟨_, put_second⟩).tail ⟨_, hremove⟩
  obtain ⟨encoded, hencode, hdecode⟩ := (Reachable.tracks hr).2.2.2.2.2.2 (fun _ => 0)
    (List.replicate encodeSize 0) List.length_replicate.ge
  refine ⟨remaining, encoded, hremove, hencode, hdecode.mpr fun slot hp => ?_⟩
  obtain ⟨rfl, he⟩ := hpresent slot hp
  rw [he]
  exact ⟨rfl, by decide⟩

-- A reply that is older than its session is taken in, but it is not read back.
theorem decode_older : ∃ sessions, Reachable sessions ∧
    ∀ checksum restored, new.decode checksum sessions.encoding ≠ .ok restored := by
  have hr : Reachable (new.occupy firstSlot 1 { Reply.zeroed with command := .reply }) :=
    reachable_first (by decide) rfl
  refine ⟨_, hr, fun checksum restored hdecode => ?_⟩
  rw [decode_new length_encoding] at hdecode
  have ⟨_, hfold, _⟩ := bind_eq_ok.mp hdecode
  have hvalid := decodeEntries_valid hr.consistent hfold firstSlot (List.mem_finRange _) rfl
  exact absurd hvalid.2 (by decide)

end Single

end ClientSessions

end TigerBeetle.SessionTable
