import TigerBeetle.Theorems.MessageBuffer

namespace TigerBeetle

open Fallible LittleEndian

namespace MessageBuffer

variable [Checksum] {b : MessageBuffer} {todo : List (List UInt8)} {known : Nat}

-- A buffer that has not been invalidated: the messages that are kept for the next iteration, those
-- that are to come, and what has been received of these.
structure Alive (tail : List UInt8) (b : MessageBuffer) (kept todo : List (List UInt8))
    (rest : List UInt8) (known : Nat) : Prop where
  layout : ∃ hole free, Layout b kept.flatten hole rest free
  advance : b.advanceSize = b.processSize + known
  within : known ≤ rest.length
  knows : Known tail todo known
  settled : Settled tail rest.length known todo

-- If the buffer is invalidated, then all messages have been handed out before.
def Holds (tail : List UInt8) (b : MessageBuffer) (kept todo : List (List UInt8))
    (rest : List UInt8) : Prop :=
  (todo = [] ∧ Dead b) ∨ ∃ known, Alive tail b kept todo rest known

section Operations

variable {kept queue : List (List UInt8)} {hole rest free future tail message : List UInt8}

theorem Layout.holds (hv : ∀ message ∈ todo, Valid message) (ht : Malformed tail)
    (hstream : rest ++ future = todo.flatten ++ tail)
    (h : Layout b kept.flatten hole rest free) (ha : b.advanceSize = b.processSize + known)
    (hw : known ≤ rest.length) (hk : Known tail todo known) :
    Meets (fun _ => False) (fun b' => Holds tail b' kept todo rest ∧
        (b'.processSize = b.processSize ∧ b'.iteratorState = b.iteratorState ∨
          Dead b' ∧ b'.iteratorState = .idle)) b.advance := by
  refine (h.advances hv ht hstream ha hw hk).weaken fun b' hb' => ?_
  obtain ⟨hnil, _, hd, hidle⟩ | ⟨known', hk', hs', hw', _, rfl⟩ := hb'
  · exact ⟨.inl ⟨hnil, hd⟩, .inr ⟨hd, hidle⟩⟩
  · exact ⟨.inr ⟨known', ⟨hole, free, h.advanced⟩, rfl, hw', hk', hs'⟩, .inl ⟨rfl, rfl⟩⟩

theorem Holds.iterator {state : IteratorState} (h : Holds tail b kept todo rest) :
    Holds tail { b with iteratorState := state } kept todo rest := by
  obtain ⟨hnil, hd⟩ | ⟨known, ⟨hole, free, hl⟩, ha, hw, hk, hs⟩ := h
  · exact .inl ⟨hnil, hd.invalid, hd.suspendSize, hd.processSize, hd.advanceSize, hd.receiveSize⟩
  · exact .inr ⟨known, ⟨hole, free, hl.message, hl.length, hl.suspend, hl.process, hl.receive,
      hl.valid⟩, ha, hw, hk, hs⟩

omit [Checksum] in
-- The bytes of the message that the iteration is at.
theorem head_eq (hle : message.length ≤ rest.length)
    (hstream : rest ++ future = (message :: queue).flatten ++ tail) :
    rest.take message.length = message ∧
      rest.drop message.length ++ future = queue.flatten ++ tail := by
  have htake : rest.take message.length = message := by
    rw [take_eq_head hstream rfl hle (Nat.le_refl _), List.take_length]
  refine ⟨htake, ?_⟩
  have hdrop := congrArg (List.drop message.length) hstream
  rw [List.drop_append_of_le_length hle, List.flatten_cons, List.append_assoc,
    List.drop_append_of_le_length (Nat.le_refl _), List.drop_length, List.nil_append] at hdrop
  exact hdrop

theorem Alive.consume (h : Alive tail b kept (message :: queue) rest known)
    (hv : ∀ m ∈ message :: queue, Valid m) (ht : Malformed tail)
    (hstream : rest ++ future = (message :: queue).flatten ++ tail)
    (hle : message.length ≤ known) (hpeek : b.iteratorState = .afterPeek) :
    Meets (fun _ => False)
      (fun r => r.1.take message.length = message ∧ r.2.iteratorState = .afterConsumeSuspend ∧
        Holds tail r.2 kept queue (rest.drop message.length))
      (b.consumeMessage (headerOf message)) := by
  have hvalid := hv message (List.mem_cons_self ..)
  have hmin := hvalid.headerSize_le
  have hmax : message.length ≤ messageSizeMax := hvalid.size ▸ hvalid.header.sizeMax
  have hw := h.within
  have ha := h.advance
  obtain ⟨hole, free, hl⟩ := h.layout
  obtain ⟨htake, hstream'⟩ := head_eq (by omega) hstream
  obtain ⟨known', rfl, hk'⟩ := h.knows.uncons hle hmin
  have hrange := hl.range (Nat.zero_le message.length) (by omega)
  unfold slice at hrange
  rw [Nat.add_zero, List.drop_zero, Nat.sub_zero, htake] at hrange
  unfold consumeMessage
  rw [assert_of hpeek, ok_bind, checkedSub_of (by omega : b.processSize ≤ b.advanceSize), ok_bind,
    hvalid.size, assert_of (by omega), ok_bind, assert_of hl.valid, ok_bind, hrange, ok_bind]
  dsimp only
  rw [assert_of (by rw [hl.process, hl.receive]; omega), ok_bind]
  let b₁ : MessageBuffer := { b with processSize := b.processSize + message.length }
  have hl₁ : Layout b₁ kept.flatten (hole ++ message) (rest.drop message.length) free := by
    refine ⟨?_, hl.length, hl.suspend, ?_, ?_, hl.valid⟩
    · show b.message = _
      conv_lhs => rw [hl.message, ← List.take_append_drop message.length rest, htake]
      simp only [List.append_assoc]
    · show b.processSize + message.length = _
      rw [hl.process, List.length_append]
      omega
    · show b.receiveSize = _
      rw [hl.receive, List.length_append, List.length_drop]
      omega
  have ha₁ : b₁.advanceSize = b₁.processSize + known' := by
    show b.advanceSize = b.processSize + message.length + known'
    omega
  have hw₁ : known' ≤ (rest.drop message.length).length := by
    rw [List.length_drop]
    omega
  rw [Meets.bind_iff]
  refine (hl₁.holds (fun m hm => hv m (List.mem_cons_of_mem _ hm)) ht hstream' ha₁ hw₁ hk').weaken
    fun b₂ ⟨hb₂, _⟩ => ?_
  have hcopy : Slots.put (List.replicate messageSizeMax 0) 0 message =
      message ++ List.replicate (messageSizeMax - message.length) 0 := by
    unfold Slots.put
    rw [List.take_zero, List.nil_append, Nat.zero_add, List.drop_replicate]
  have hwire : MessageHeader.fromWire ((Slots.put (List.replicate messageSizeMax 0) 0 message).take
      headerSize) = some (headerOf message) := by
    rw [hcopy, List.take_append_of_le_length hmin, fromWire_of hvalid.header.command]
    rfl
  rw [hwire, Option.map_some, assert_of rfl, ok_bind]
  refine ⟨?_, rfl, hb₂.iterator⟩
  rw [hcopy, List.take_left]

theorem Alive.suspend (h : Alive tail b kept (message :: queue) rest known)
    (hv : ∀ m ∈ message :: queue, Valid m) (ht : Malformed tail)
    (hstream : rest ++ future = (message :: queue).flatten ++ tail)
    (hle : message.length ≤ known) (hpeek : b.iteratorState = .afterPeek) :
    Meets (fun _ => False)
      (fun b' => b'.iteratorState = .afterConsumeSuspend ∧
        Holds tail b' (kept ++ [message]) queue (rest.drop message.length))
      (b.suspendMessage (headerOf message)) := by
  have hvalid := hv message (List.mem_cons_self ..)
  have hmin := hvalid.headerSize_le
  have hmax : message.length ≤ messageSizeMax := hvalid.size ▸ hvalid.header.sizeMax
  have hw := h.within
  have ha := h.advance
  obtain ⟨hole, free, hl⟩ := h.layout
  have hlr : message.length ≤ rest.length := by omega
  obtain ⟨htake, hstream'⟩ := head_eq hlr hstream
  obtain ⟨known', rfl, hk'⟩ := h.knows.uncons hle hmin
  have hmoved := hl.moveBack hlr
  rw [htake] at hmoved
  unfold suspendMessage
  rw [assert_of hpeek, ok_bind, checkedSub_of (by omega : b.processSize ≤ b.advanceSize), ok_bind,
    hvalid.size, assert_of (by omega), ok_bind, assert_of hl.valid, ok_bind, assert_of hmax, ok_bind,
    assert_of (by rw [hl.suspend, hl.process]; omega), ok_bind, hmoved, ok_bind]
  let b₁ : MessageBuffer := { b with
    message := kept.flatten ++ message ++ b.message.drop (kept.flatten.length + message.length)
    suspendSize := b.suspendSize + message.length
    processSize := b.processSize + message.length }
  have hdrop : b.message.drop (kept.flatten.length + message.length) =
      (hole ++ message).drop message.length ++ (rest.drop message.length ++ free) := by
    conv_lhs => rw [hl.message, ← List.take_append_drop message.length rest, htake]
    rw [List.append_assoc, List.append_assoc, List.append_assoc, List.drop_append,
      List.drop_of_length_le (Nat.le_add_right ..), List.nil_append, Nat.add_sub_cancel_left,
      ← List.append_assoc hole, List.drop_append_of_le_length (by rw [List.length_append]; omega)]
  have hl₁ : Layout b₁ (kept ++ [message]).flatten ((hole ++ message).drop message.length)
      (rest.drop message.length) free := by
    have hlength := hl.length
    rw [hl.message] at hlength
    simp only [List.length_append] at hlength
    refine ⟨?_, ?_, ?_, ?_, ?_, hl.valid⟩
    · show kept.flatten ++ message ++ b.message.drop (kept.flatten.length + message.length) = _
      rw [hdrop]
      simp only [List.flatten_append, List.flatten_cons, List.flatten_nil, List.append_nil,
        List.append_assoc]
    · show (kept.flatten ++ message ++ b.message.drop _).length = _
      simp only [List.length_append, List.length_drop, hl.length]
      omega
    · show b.suspendSize + message.length = _
      simp [hl.suspend]
    · show b.processSize + message.length = _
      simp [hl.process]
      omega
    · show b.receiveSize = _
      simp [hl.receive]
      omega
  have ha₁ : b₁.advanceSize = b₁.processSize + known' := by
    show b.advanceSize = b.processSize + message.length + known'
    omega
  have hw₁ : known' ≤ (rest.drop message.length).length := by
    rw [List.length_drop]
    omega
  rw [Meets.bind_iff]
  refine (hl₁.holds (fun m hm => hv m (List.mem_cons_of_mem _ hm)) ht hstream' ha₁ hw₁ hk').weaken
    fun b₂ ⟨hb₂, _⟩ => ?_
  exact ⟨rfl, hb₂.iterator⟩

theorem Alive.receive (h : Alive tail b [] todo rest known) (hv : ∀ m ∈ todo, Valid m)
    (ht : Malformed tail) {bytes : List UInt8}
    (hstream : rest ++ bytes ++ future = todo.flatten ++ tail) (hpos : 0 < bytes.length)
    (hprocess : b.processSize = 0) (hidle : b.iteratorState = .idle)
    (hroom : b.receiveSize + bytes.length ≤ messageSizeMax) :
    Meets (fun _ => False)
      (fun b' => Holds tail b' [] todo (rest ++ bytes) ∧
        b'.processSize = 0 ∧ b'.iteratorState = .idle)
      (b.receive bytes >>= fun b => b.recvAdvance bytes.length) := by
  obtain ⟨hole, free, hl⟩ := h.layout
  have hhole : hole = [] := by
    have hp := hl.process
    simp only [List.flatten_nil, List.length_nil] at hp
    exact List.eq_nil_of_length_eq_zero (by omega)
  subst hhole
  have hreceive := hl.receive
  have hlength := hl.length
  rw [hl.message] at hlength
  simp only [List.length_append, List.flatten_nil, List.length_nil, Nat.zero_add] at hreceive hlength
  unfold MessageBuffer.receive
  rw [assert_of (by omega), ok_bind, assert_of hidle, ok_bind, assert_of hl.valid, ok_bind, pure_bind]
  unfold recvAdvance
  rw [assert_of hidle, ok_bind, assert_of hprocess, ok_bind, assert_of hpos, ok_bind,
    assert_of (by omega), ok_bind]
  dsimp only
  rw [assert_of hroom, ok_bind]
  have hwritten : Slots.put b.message b.receiveSize bytes =
      rest ++ bytes ++ free.drop bytes.length := by
    unfold Slots.put
    rw [hreceive, hl.message, List.flatten_nil, List.nil_append, List.nil_append, List.take_left,
      List.drop_append, List.drop_of_length_le (Nat.le_add_right ..), List.nil_append,
      Nat.add_sub_cancel_left]
  let b₁ : MessageBuffer := { b with
    message := Slots.put b.message b.receiveSize bytes
    receiveSize := b.receiveSize + bytes.length }
  have hl₁ : Layout b₁ (List.flatten []) [] (rest ++ bytes) (free.drop bytes.length) := by
    refine ⟨hwritten, ?_, hl.suspend, hl.process, ?_, hl.valid⟩
    · show (Slots.put b.message b.receiveSize bytes).length = _
      rw [hwritten]
      simp only [List.length_append, List.length_drop]
      omega
    · show b.receiveSize + bytes.length = _
      simp only [List.flatten_nil, List.length_nil, List.length_append]
      omega
  have hw₁ : known ≤ (rest ++ bytes).length := by
    have := h.within
    rw [List.length_append]
    omega
  refine (hl₁.holds hv ht hstream h.advance hw₁ h.knows).weaken fun b₂ ⟨hb₂, hstate⟩ => ⟨hb₂, ?_⟩
  obtain ⟨hp, hi⟩ | ⟨hd, hi⟩ := hstate
  · exact ⟨hp.trans hprocess, hi.trans hidle⟩
  · exact ⟨hd.processSize, hi⟩

theorem Alive.next (h : Alive tail b kept todo rest known) (hkept : ∀ m ∈ kept, Valid m)
    (hv : ∀ m ∈ todo, Valid m) (ht : Malformed tail)
    (hstream : rest ++ future = todo.flatten ++ tail) (hpeek : b.iteratorState ≠ .afterPeek) :
    Meets (fun _ => False)
      (fun r => r.1 = upcoming todo rest.length ∧ r.2.invalid = none ∧
        (r.1 = none → Holds tail r.2 [] (kept ++ todo) (kept.flatten ++ rest) ∧
          r.2.processSize = 0 ∧ r.2.iteratorState = .idle) ∧
        (r.1 ≠ none → r.2 = { b with iteratorState := .afterPeek }))
      b.nextHeader := by
  obtain ⟨hole, free, hl⟩ := h.layout
  unfold nextHeader
  rw [assert_of hpeek, ok_bind,
    hl.peek hv ht hstream h.advance h.within h.knows h.settled, ok_bind]
  cases hup : upcoming todo rest.length with
  | some header => exact ⟨rfl, hl.valid, nofun, fun _ => rfl⟩
  | none =>
    rw [Meets.bind_iff]
    refine (hl.shifts hv ht hstream h.advance h.within h.knows h.settled hkept).weaken
      fun b' ⟨⟨free', hl'⟩, ha', hi'⟩ => ?_
    have hw' : kept.flatten.length + known ≤ (kept.flatten ++ rest).length := by
      have := h.within
      rw [List.length_append]
      omega
    exact ⟨rfl, hl'.valid, fun _ => ⟨.inr ⟨_, ⟨[], free', hl'⟩, ha', hw', h.knows.append,
      h.settled.append hkept⟩, hl'.process, hi'⟩, fun hn => absurd rfl hn⟩

theorem Dead.next (h : Dead b) (hpeek : b.iteratorState ≠ .afterPeek) :
    Meets (fun _ => False) (fun r => r.1 = none ∧ Dead r.2 ∧ r.2.iteratorState = .idle)
      b.nextHeader := by
  have hpeek' : b.peek = .ok none := by
    unfold MessageBuffer.peek
    rw [checkedSub_of (Nat.le_of_eq (by rw [h.processSize, h.advanceSize])), ok_bind,
      h.advanceSize, h.processSize, if_neg (by decide)]
    rfl
  have hmove : b.moveBack b.receiveSize = .ok b.message := by
    unfold MessageBuffer.moveBack
    rw [if_neg (by rw [h.suspendSize, h.processSize]; omega)]
    rfl
  unfold nextHeader MessageBuffer.shift
  rw [assert_of hpeek, ok_bind, hpeek', ok_bind]
  dsimp only
  rw [assert_of (by rw [h.suspendSize]; omega), ok_bind, assert_of (by rw [h.processSize]; omega),
    ok_bind, hmove, ok_bind, checkedSub_of (by rw [h.processSize]; omega), ok_bind,
    checkedSub_of (by rw [h.processSize]; omega), ok_bind]
  have hd : Dead { b with
      receiveSize := b.receiveSize - (b.processSize - b.suspendSize)
      advanceSize := b.advanceSize - (b.processSize - b.suspendSize)
      suspendSize := 0
      processSize := 0
      iteratorState := .idle } := by
    refine ⟨h.invalid, rfl, rfl, ?_, ?_⟩
    · show b.advanceSize - _ = 0
      rw [h.advanceSize]
      omega
    · show b.receiveSize - _ = 0
      rw [h.receiveSize]
      omega
  rw [hd.advance rfl, ok_bind, assert_of rfl]
  exact ⟨rfl, hd, rfl⟩

end Operations

end MessageBuffer

namespace Framing

open MessageBuffer

variable [Checksum] {messages kept todo : List (List UInt8)} {tail rest : List UInt8} {s : Framing}
    {e : Event}

-- A connection: what has been consumed, what this iteration has suspended and what is to come are
-- the messages of the stream.
structure Framed (messages : List (List UInt8)) (tail : List UInt8) (s : Framing)
    (kept todo : List (List UInt8)) (rest : List UInt8) : Prop where
  perm : (s.consumed ++ kept ++ todo).Perm messages
  ordered : (kept ++ todo).Sublist messages
  stream : rest ++ s.incoming = todo.flatten ++ tail
  holds : Holds tail s.buffer kept todo rest
  suspended : s.suspended = kept.map headerOf
  header : ∀ header, s.header = some header → s.buffer.invalid = none ∧
    s.buffer.iteratorState = .afterPeek ∧ ∃ message queue, todo = message :: queue ∧
      header = headerOf message ∧ message.length ≤ rest.length
  peeked : s.header = none → s.buffer.iteratorState ≠ .afterPeek
  idle : s.buffer.iteratorState = .idle → s.buffer.invalid = none →
    kept = [] ∧ s.buffer.processSize = 0

section

variable (h : Framed messages tail s kept todo rest)

include h

theorem Framed.valid (hv : ∀ m ∈ messages, Valid m) : (∀ m ∈ kept, Valid m) ∧ ∀ m ∈ todo, Valid m :=
  ⟨fun m hm => hv m (h.ordered.subset (List.mem_append_left _ hm)),
    fun m hm => hv m (h.ordered.subset (List.mem_append_right _ hm))⟩

theorem Framed.alive (hn : s.buffer.invalid = none) :
    ∃ known, Alive tail s.buffer kept todo rest known :=
  h.holds.resolve_left fun hd => hd.2.invalid hn

section

variable (hv : ∀ m ∈ messages, Valid m)

include hv

section

variable (ht : Malformed tail)

include ht

theorem Framed.receive {size : Nat} (hg : Allowed s (.receive size)) (incoming : List UInt8) :
    Meets (fun _ => False) (fun s' => ∃ kept todo rest, Framed messages tail s' kept todo rest)
      ((machine incoming).step s (.receive size)) := by
  obtain ⟨hheader, hidle, hvalid, hpos, hle, hroom⟩ := hg
  obtain ⟨rfl, hprocess⟩ := h.idle hidle hvalid
  obtain ⟨known, ha⟩ := h.alive hvalid
  have htake : (s.incoming.take size).length = size := by
    rw [List.length_take]
    omega
  have hstream : rest ++ s.incoming.take size ++ s.incoming.drop size = todo.flatten ++ tail := by
    rw [List.append_assoc, List.take_append_drop]
    exact h.stream
  have hreceive := ha.receive (h.valid hv).2 ht hstream (by omega) hprocess hidle (by omega)
  rw [htake, Meets.bind_iff] at hreceive
  simp only [machine, Meets.bind_eq, Meets.pure_eq]
  refine hreceive.weaken fun b' hb' => hb'.weaken fun b'' ⟨hb, hprocess', hidle'⟩ => ?_
  refine ⟨[], todo, rest ++ s.incoming.take size, h.perm, h.ordered, hstream, hb,
    h.suspended, fun header hh => ?_, fun _ => ?_, fun _ _ => ⟨rfl, hprocess'⟩⟩
  · rw [hheader] at hh
    exact absurd hh.symm (Option.some_ne_none _)
  · rw [hidle']
    nofun

theorem Framed.next (hn : s.header = none) (incoming : List UInt8) :
    Meets (fun _ => False)
      (fun s' => s'.header = upcoming todo rest.length ∧
        ∃ kept todo rest, Framed messages tail s' kept todo rest)
      ((machine incoming).step s .next) := by
  have hpeek := h.peeked hn
  have ⟨hkept, htodo⟩ := h.valid hv
  simp only [machine, Meets.bind_eq, Meets.pure_eq]
  obtain ⟨rfl, hd⟩ | ⟨known, ha⟩ := h.holds
  · refine (hd.next hpeek).weaken fun ⟨header, b'⟩ ⟨hnone, hd', hidle⟩ => ⟨hnone, ?_⟩
    have hnone : header = none := hnone
    subst hnone
    refine ⟨kept, [], rest, h.perm, h.ordered, h.stream, .inl ⟨rfl, hd'⟩,
      (if_pos (.inr (Option.isSome_iff_ne_none.mpr hd'.invalid))).trans h.suspended, nofun, fun _ => ?_,
      fun _ hvalid => absurd hvalid hd'.invalid⟩
    rw [hidle]
    nofun
  refine (ha.next hkept htodo ht h.stream hpeek).weaken
    fun ⟨header, b'⟩ ⟨hup, hvalid, hnone, hsome⟩ => ⟨hup, ?_⟩
  dsimp only at hup hvalid hnone hsome
  cases header with
  | none =>
    obtain ⟨hholds, hprocess, hidle⟩ := hnone rfl
    refine ⟨[], kept ++ todo, kept.flatten ++ rest, ?_, h.ordered, ?_, hholds, ?_, nofun, fun _ => ?_,
      fun _ _ => ⟨rfl, hprocess⟩⟩
    · rw [List.append_nil, ← List.append_assoc]
      exact h.perm
    · rw [List.append_assoc, h.stream, List.flatten_append, List.append_assoc]
    · -- A buffer that is invalidated here holds no message, so none has been suspended.
      obtain ⟨hnil, _⟩ | ⟨_, ⟨_, _, hl⟩, _⟩ := hholds
      · have hsuspended := h.suspended
        rw [(List.append_eq_nil_iff.mp hnil).1] at hsuspended
        rw [hsuspended]
        exact ite_self _
      · exact if_neg (by simp [hl.valid])
    · rw [hidle]
      nofun
  | some header =>
    have hb := hsome nofun
    subst hb
    refine ⟨kept, todo, rest, h.perm, h.ordered, h.stream, .iterator (.inr ⟨known, ha⟩),
      by simpa using h.suspended, fun header' hh => ⟨hvalid, rfl, ?_⟩, nofun, nofun⟩
    obtain rfl : header = header' := Option.some.inj hh
    cases todo with
    | nil => exact absurd hup (Option.some_ne_none _)
    | cons message queue =>
      unfold upcoming at hup
      dsimp only at hup
      split at hup
      · next hle => exact ⟨message, queue, rfl, Option.some.inj hup, hle⟩
      · exact absurd hup (Option.some_ne_none _)

theorem Framed.consume (hg : s.header.isSome = true) (incoming : List UInt8) :
    Meets (fun _ => False) (fun s' => ∃ kept todo rest, Framed messages tail s' kept todo rest)
      ((machine incoming).step s .consume) := by
  obtain ⟨header, hheader⟩ := Option.isSome_iff_exists.mp hg
  obtain ⟨hvalid, hpeek, message, queue, rfl, rfl, hle⟩ := h.header header hheader
  obtain ⟨known, ha⟩ := h.alive hvalid
  have htodo := (h.valid hv).2
  have hsize := (htodo message (List.mem_cons_self ..)).size
  simp only [machine, hheader, Meets.bind_eq, Meets.pure_eq]
  refine (ha.consume htodo ht h.stream (ha.settled.2 hle) hpeek).weaken
    fun ⟨bytes, b'⟩ ⟨hbytes, hstate, hholds⟩ => ?_
  dsimp only at hbytes hstate hholds
  refine ⟨kept, queue, rest.drop message.length, ?_, ?_, (head_eq hle h.stream).2, hholds, h.suspended,
    nofun, fun _ => ?_, fun hidle => ?_⟩
  · show (s.consumed ++ [bytes.take (headerOf message).size] ++ kept ++ queue).Perm messages
    rw [hsize, hbytes]
    refine List.Perm.trans ?_ h.perm
    rw [List.append_assoc, List.append_assoc, List.append_assoc, List.singleton_append]
    exact List.Perm.append_left _ List.perm_middle.symm
  · exact List.Sublist.trans (List.Sublist.append_left (List.sublist_cons_self ..) _) h.ordered
  · show b'.iteratorState ≠ _
    rw [hstate]
    nofun
  · have hidle : b'.iteratorState = .idle := hidle
    rw [hstate] at hidle
    exact absurd hidle (by decide)

theorem Framed.suspend (hg : s.header.isSome = true) (incoming : List UInt8) :
    Meets (fun _ => False) (fun s' => ∃ kept todo rest, Framed messages tail s' kept todo rest)
      ((machine incoming).step s .suspend) := by
  obtain ⟨header, hheader⟩ := Option.isSome_iff_exists.mp hg
  obtain ⟨hvalid, hpeek, message, queue, rfl, rfl, hle⟩ := h.header header hheader
  obtain ⟨known, ha⟩ := h.alive hvalid
  have htodo := (h.valid hv).2
  simp only [machine, hheader, Meets.bind_eq, Meets.pure_eq]
  refine (ha.suspend htodo ht h.stream (ha.settled.2 hle) hpeek).weaken
    fun b' ⟨hstate, hholds⟩ => ?_
  refine ⟨kept ++ [message], queue, rest.drop message.length, ?_, ?_, (head_eq hle h.stream).2, hholds,
    ?_, nofun, fun _ => ?_, fun hidle => ?_⟩
  · show (s.consumed ++ (kept ++ [message]) ++ queue).Perm messages
    rw [List.append_assoc, List.append_assoc, List.singleton_append, ← List.append_assoc]
    exact h.perm
  · rw [List.append_assoc, List.singleton_append]
    exact h.ordered
  · show s.suspended ++ [headerOf message] = _
    rw [h.suspended, List.map_append]
    rfl
  · show b'.iteratorState ≠ _
    rw [hstate]
    nofun
  · have hidle : b'.iteratorState = .idle := hidle
    rw [hstate] at hidle
    exact absurd hidle (by decide)

theorem Framed.step (hg : Allowed s e) (incoming : List UInt8) :
    Meets (fun _ => False) (fun s' => ∃ kept todo rest, Framed messages tail s' kept todo rest)
      ((machine incoming).step s e) := by
  cases e with
  | receive size => exact h.receive hv ht hg incoming
  | next         => exact (h.next hv ht hg incoming).weaken fun _ hs => hs.2
  | consume      => exact h.consume hv ht hg incoming
  | suspend      => exact h.suspend hv ht hg incoming

end

end

end

theorem framed_new (hv : ∀ m ∈ messages, Valid m) :
    Framed messages tail ⟨.new, messages.flatten ++ tail, none, [], []⟩ [] messages [] := by
  have hpos : 0 < headerSize := by decide
  refine ⟨.refl _, .refl _, rfl, .inr ⟨0, ⟨[], List.replicate messageSizeMax 0, rfl,
    List.length_replicate, rfl, rfl, rfl, rfl⟩, rfl, Nat.zero_le _, .none, ?_⟩, rfl, nofun,
    fun _ => nofun, fun _ _ => ⟨rfl, rfl⟩⟩
  cases messages with
  | nil => exact fun hle => absurd hle (by decide)
  | cons head queue =>
    have hmin := (hv head (List.mem_cons_self ..)).headerSize_le
    exact ⟨fun hle => absurd hle (by decide), fun hle => absurd (Nat.le_trans hmin hle) (by decide)⟩

-- The messages of a stream are handed out in their order and as they are, each of them until it is
-- consumed, and nothing fails. The buffer is invalidated only when all of them have been handed out.
theorem framing_exact (hv : ∀ m ∈ messages, Valid m) (ht : Malformed tail)
    (h : (machine (messages.flatten ++ tail)).Reachable Allowed s) :
    (∃ kept todo received, (s.consumed ++ kept ++ todo).Perm messages ∧
      (kept ++ todo).Sublist messages ∧
      received ++ s.incoming = todo.flatten ++ tail ∧
      s.suspended = kept.map headerOf ∧
      (s.buffer.invalid ≠ none → todo = []) ∧
      (∀ header, s.header = some header → ∃ message queue, todo = message :: queue ∧
        header = headerOf message) ∧
      (s.header = none → Meets (fun _ => False)
        (fun s' => s'.header = upcoming todo received.length)
        ((machine (messages.flatten ++ tail)).step s .next))) ∧
    ∀ e, Allowed s e → Succeeds ((machine (messages.flatten ++ tail)).step s e) := by
  obtain ⟨kept, todo, rest, hframed⟩ : ∃ kept todo rest, Framed messages tail s kept todo rest := by
    refine h.invariant (p := fun s => ∃ kept todo rest, Framed messages tail s kept todo rest)
      (fun s hi => ?_) fun s e s' ⟨_, _, _, hs⟩ hg hstep => (hs.step hv ht hg _).post hstep
    have hi : s = ⟨.new, messages.flatten ++ tail, none, [], []⟩ := hi
    subst hi
    exact ⟨[], messages, [], framed_new hv⟩
  refine ⟨⟨kept, todo, rest, hframed.perm, hframed.ordered, hframed.stream, hframed.suspended,
    fun hinvalid => ?_, fun header hh => ?_, fun hn => ?_⟩, fun e hg => ?_⟩
  · obtain ⟨hnil, _⟩ | ⟨known, ⟨hole, free, hl⟩, _⟩ := hframed.holds
    · exact hnil
    · exact absurd hl.valid hinvalid
  · obtain ⟨_, _, message, queue, hq, hheader, _⟩ := hframed.header header hh
    exact ⟨message, queue, hq, hheader⟩
  · exact (hframed.next hv ht hn _).weaken fun _ hs => hs.1
  · exact (hframed.step hv ht hg _).weaken fun _ _ => trivial

end Framing

namespace Framing.Runs

open MessageBuffer

-- A ping with its checksums.
def ping : List UInt8 :=
  toBytes 16 0x444b5807ff34b2828e5cd939f5640ba6 ++ List.replicate 16 0 ++
    toBytes 16 0x49f174618255402de6e7e3c40d60cc83 ++ List.replicate 48 0 ++ toBytes 4 256 ++
    List.replicate 14 0 ++ [1] ++ List.replicate 141 0

-- The checksums of the header and of the empty body.
@[reducible]
def pingChecksum : Checksum where
  checksum bytes :=
    if bytes = ping.drop 16 then
      0x444b5807ff34b2828e5cd939f5640ba6
    else
      0x49f174618255402de6e7e3c40d60cc83

attribute [local instance] pingChecksum

-- What follows the pings: a header with a wrong checksum.
def wrong : List UInt8 :=
  List.replicate 256 0

-- Two pings are received with what is wrong, and the first of them is suspended.
theorem framing_exact_of_pings : ∃ s, (machine ([ping, ping].flatten ++ wrong)).Reachable Allowed s ∧
    s.suspended = [headerOf ping] ∧ s.header = some (headerOf ping) ∧
    Succeeds ((machine ([ping, ping].flatten ++ wrong)).step s .consume) := by
  have hvalid : ∀ message ∈ [ping, ping], Valid message := by
    have hping : Valid ping := by
      refine ⟨⟨?_, ?_, ?_, ?_⟩, ?_, fun hlt => absurd hlt ?_⟩
      all_goals decide +kernel
    simp [hping]
  have hwrong : Malformed wrong := by
    have hne : ofBytes (slice (wrong.take headerSize) 0 16) ≠
        Checksum.checksum ((wrong.take headerSize).drop 16) := by
      decide +kernel
    exact ⟨fun _ heq => absurd heq hne, fun _ hok => absurd hok.checksum hne⟩
  have hlength : ([ping, ping].flatten ++ wrong).length = 768 := by
    decide +kernel
  have hexact := fun s h => @framing_exact _ [ping, ping] wrong s hvalid hwrong h
  generalize [ping, ping].flatten ++ wrong = stream at hlength hexact ⊢
  -- Once all has been received, the next of the pings is found.
  have hnext : ∀ s, (machine stream).Reachable Allowed s → s.header = none → s.consumed = [] →
      s.incoming = [] → s.suspended.length < 2 →
      ∃ buffer, (machine stream).step s .next =
        .ok { s with buffer, header := some (headerOf ping) } := by
    intro s h hheader hconsumed hincoming hn
    obtain ⟨⟨kept, todo, received, hperm, hsub, hreceived, hkept, _, _, hup⟩, _⟩ := hexact s h
    have hlen := hperm.length_eq
    obtain ⟨s', hs', hup⟩ := Meets.iff_exists.mp (hup hheader)
    obtain ⟨⟨header, buffer⟩, _, hreturn⟩ := bind_eq_ok.mp hs'
    cases hreturn
    rw [hkept, List.length_map] at hn
    cases todo with
    | nil =>
      simp [hconsumed] at hlen
      omega
    | cons message queue =>
      obtain rfl : message = ping := by
        simpa using hsub.subset (List.mem_append_right _ (List.mem_cons_self ..))
      have hup : header = _ := hup
      rw [upcoming, if_pos (by rw [← List.append_nil received, ← hincoming, hreceived]; simp)] at hup
      subst hup
      exact ⟨buffer, hs'⟩
  obtain ⟨s₀, h₀, ha₀, hheader, hconsumed, hsuspended, hincoming⟩ : ∃ s₀,
      (machine stream).Reachable Allowed s₀ ∧ Allowed s₀ (.receive 768) ∧ s₀.header = none ∧
      s₀.consumed = [] ∧ s₀.suspended = [] ∧ s₀.incoming.drop 768 = [] :=
    ⟨⟨.new, stream, none, [], []⟩, .init rfl, ⟨rfl, rfl, rfl, by decide, hlength.ge,
      (by decide : 0 + 768 ≤ messageSizeMax)⟩, rfl, rfl, rfl, List.drop_of_length_le hlength.le⟩
  obtain ⟨_, hs₁, -⟩ := Meets.iff_exists.mp ((hexact _ h₀).2 _ ha₀)
  have h₁ := h₀.step ha₀ hs₁
  obtain ⟨_, _, hs₁⟩ := bind_eq_ok.mp hs₁
  obtain ⟨_, _, hs₁⟩ := bind_eq_ok.mp hs₁
  cases hs₁
  obtain ⟨_, hs₂⟩ := hnext _ h₁ hheader hconsumed hincoming (by simp [hsuspended])
  have h₂ := h₁.step (show Allowed _ .next from hheader) hs₂
  obtain ⟨_, hs₃, -⟩ := Meets.iff_exists.mp ((hexact _ h₂).2 .suspend rfl)
  have h₃ := h₂.step (show Allowed _ .suspend from rfl) hs₃
  obtain ⟨_, _, hs₃⟩ := bind_eq_ok.mp hs₃
  cases hs₃
  obtain ⟨_, hs₄⟩ := hnext _ h₃ rfl hconsumed hincoming (by simp [hsuspended])
  have h₄ := h₃.step (show Allowed _ .next from rfl) hs₄
  exact ⟨_, h₄, by simp [hsuspended], rfl, (hexact _ h₄).2 .consume rfl⟩

end Framing.Runs

end TigerBeetle
