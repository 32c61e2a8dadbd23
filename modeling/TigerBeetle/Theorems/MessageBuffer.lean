import TigerBeetle.MessageBuffer

namespace TigerBeetle

open Fallible LittleEndian

namespace MessageBuffer

variable [Checksum]

-- A header that is accepted.
structure HeaderOk (bytes : List UInt8) : Prop where
  checksum : ofBytes (slice bytes 0 16) = Checksum.checksum (bytes.drop 16)
  command : bytes.getD 114 0 ≤ commandMax
  sizeMin : headerSize ≤ MessageHeader.size ⟨bytes⟩
  sizeMax : MessageHeader.size ⟨bytes⟩ ≤ messageSizeMax

def headerOf (message : List UInt8) : MessageHeader :=
  ⟨message.take headerSize⟩

-- The body that the header at the start of the bytes is followed by.
def BodyOk (bytes : List UInt8) : Prop :=
  (headerOf bytes).checksumBody =
    Checksum.checksum (slice bytes headerSize ((headerOf bytes).size - headerSize))

-- A message that is accepted. That of an empty body is not looked at, as there is nothing to read.
structure Valid (message : List UInt8) : Prop where
  header : HeaderOk (message.take headerSize)
  size : (headerOf message).size = message.length
  body : headerSize < message.length → BodyOk message

-- Bytes that do not start with a message that is accepted, whatever follows: the header, the size or
-- the body is wrong, or they end before that.
structure Malformed (bytes : List UInt8) : Prop where
  command : headerSize ≤ bytes.length → ofBytes (slice (bytes.take headerSize) 0 16) =
    Checksum.checksum ((bytes.take headerSize).drop 16) →
      (bytes.take headerSize).getD 114 0 ≤ commandMax
  wrong : headerSize ≤ bytes.length → HeaderOk (bytes.take headerSize) →
    headerSize < (headerOf bytes).size ∧
      ((headerOf bytes).size ≤ bytes.length → ¬BodyOk bytes)

theorem Valid.headerSize_le {message : List UInt8} (h : Valid message) :
    headerSize ≤ message.length := by
  have hmin := h.header.sizeMin
  have hsize := h.size
  unfold headerOf at hsize
  omega

variable {b : MessageBuffer} {kept hole rest free future tail message : List UInt8}
    {todo : List (List UInt8)} {known n m : Nat}

-- Where the bytes are: what is kept for a later iteration, what has been consumed, what is not
-- processed yet, and what is free.
structure Layout (b : MessageBuffer) (kept hole rest free : List UInt8) : Prop where
  message : b.message = kept ++ hole ++ rest ++ free
  length : b.message.length = messageSizeMax
  suspend : b.suspendSize = kept.length
  process : b.processSize = kept.length + hole.length
  receive : b.receiveSize = kept.length + hole.length + rest.length
  valid : b.invalid = none

omit [Checksum] in
theorem checkedSub_of (h : m ≤ n) : checkedSub n m = .ok (n - m) := by
  unfold checkedSub
  rw [assert_of h]
  rfl

omit [Checksum] in
theorem Layout.range (h : Layout b kept hole rest free) (hn : n ≤ m) (hm : m ≤ rest.length) :
    Bytes.range b.message (b.processSize + n) (b.processSize + m) = .ok (slice rest n (m - n)) := by
  have hlength := h.length
  rw [h.message] at hlength
  simp only [List.length_append] at hlength
  unfold Bytes.range
  rw [assert_of ⟨by omega, by rw [h.length, h.process]; omega⟩, ok_bind]
  have hdrop : b.message.drop (b.processSize + n) = rest.drop n ++ free := by
    rw [h.message, h.process, List.append_assoc (kept ++ hole), List.drop_append,
      List.drop_of_length_le (by rw [List.length_append]; omega), List.nil_append,
      List.length_append, Nat.add_sub_cancel_left, List.drop_append_of_le_length (by omega)]
  unfold slice
  rw [hdrop, Nat.add_sub_add_left, List.take_append_of_le_length (by rw [List.length_drop]; omega)]
  rfl

-- How much is known to be valid of the bytes that are not processed: some messages and maybe the
-- header of the next one.
inductive Known (tail : List UInt8) : List (List UInt8) → Nat → Prop
  | none {queue : List (List UInt8)} : Known tail queue 0
  | header {queue : List (List UInt8)} :
    HeaderOk ((queue.flatten ++ tail).take headerSize) → Known tail queue headerSize
  | message {head : List UInt8} {queue : List (List UInt8)} {size : Nat} :
    Known tail queue size → Known tail (head :: queue) (head.length + size)

-- All that has been received of the next message is known to be valid.
def Settled (tail : List UInt8) (received known : Nat) : List (List UInt8) → Prop
  | message :: _ =>
    (headerSize ≤ received → headerSize ≤ known) ∧
      (message.length ≤ received → message.length ≤ known)
  | [] => headerSize ≤ received → HeaderOk (tail.take headerSize) ∧ known = headerSize ∧
    received < (headerOf tail).size

-- What is left of a buffer that has been invalidated.
structure Dead (b : MessageBuffer) : Prop where
  invalid : b.invalid ≠ none
  suspendSize : b.suspendSize = 0
  processSize : b.processSize = 0
  advanceSize : b.advanceSize = 0
  receiveSize : b.receiveSize = 0

omit [Checksum] in
theorem Dead.invariants (h : Dead b) (hidle : b.iteratorState = .idle) :
    b.invariants = .ok () := by
  unfold MessageBuffer.invariants
  rw [h.suspendSize, h.processSize, h.advanceSize, h.receiveSize, hidle]
  simp [Option.isSome_iff_ne_none.mpr h.invalid, assert, assertOn]

omit [Checksum] in
theorem invalidate_dead {reason : InvalidReason} (h : b.invalid = none) :
    Meets (fun _ => False) (fun b' => Dead b' ∧ b'.iteratorState = .idle) (b.invalidate reason) := by
  unfold invalidate
  rw [assert_of h, ok_bind]
  have hdead : Dead { b with
      suspendSize := 0, processSize := 0, advanceSize := 0, receiveSize := 0, iteratorState := .idle
      invalid := some reason } := ⟨nofun, rfl, rfl, rfl, rfl⟩
  dsimp only
  rw [hdead.invariants rfl, ok_bind]
  exact ⟨hdead, rfl⟩

theorem Dead.advance (h : Dead b) (hidle : b.iteratorState = .idle) : b.advance = .ok b := by
  unfold MessageBuffer.advance
  rw [if_neg h.invalid, pure_bind]
  dsimp only
  rw [if_neg h.invalid, pure_bind, h.invariants hidle]
  rfl

section

variable (h : Layout b kept hole rest free)

include h

omit [Checksum] in
theorem Layout.invariants (ha : b.advanceSize = b.processSize + known) (hw : known ≤ rest.length) :
    b.invariants = .ok () := by
  unfold MessageBuffer.invariants
  rw [assert_of (by rw [h.suspend, h.process]; omega), ok_bind, assert_of (by omega), ok_bind,
    assert_of (by rw [ha, h.process, h.receive]; omega), ok_bind, h.valid]
  rfl

omit [Checksum] in
theorem Layout.advanced : Layout { b with advanceSize := n } kept hole rest free :=
  ⟨h.message, h.length, h.suspend, h.process, h.receive, h.valid⟩

omit [Checksum] in
theorem Layout.received : checkedSub b.receiveSize b.processSize = .ok rest.length := by
  rw [checkedSub_of (by rw [h.receive, h.process]; omega), h.receive, h.process,
    Nat.add_sub_cancel_left]

omit [Checksum] in
theorem Layout.header (hr : headerSize ≤ rest.length) :
    Bytes.range b.message b.processSize (b.processSize + headerSize) =
      .ok (rest.take headerSize) := by
  have hrange := h.range (Nat.zero_le headerSize) hr
  unfold slice at hrange
  exact hrange

omit [Checksum] in
theorem Layout.moveBack (hn : n ≤ rest.length) :
    b.moveBack (b.processSize + n) =
      .ok (kept ++ rest.take n ++ b.message.drop (kept.length + n)) := by
  have hlength := h.length
  rw [h.message] at hlength
  simp only [List.length_append] at hlength
  unfold MessageBuffer.moveBack
  by_cases hlt : b.suspendSize < b.processSize
  · have hrange := h.range (Nat.zero_le n) hn
    unfold slice at hrange
    rw [Nat.add_zero, List.drop_zero, Nat.sub_zero] at hrange
    have htake : (rest.take n).length = n := by
      rw [List.length_take]
      omega
    unfold Bytes.copyWithin
    rw [if_pos hlt, hrange, ok_bind, assert_of (by rw [h.suspend, h.length, htake]; omega), ok_bind]
    unfold Slots.put
    rw [h.suspend, htake]
    conv_lhs =>
      rw [h.message, List.append_assoc kept, List.append_assoc kept, List.take_left]
    rw [h.message]
    simp only [List.append_assoc]
    rfl
  · have hhole : hole = [] := by
      rw [h.suspend, h.process] at hlt
      exact List.eq_nil_of_length_eq_zero (by omega)
    have hdrop : b.message.drop (kept.length + n) = rest.drop n ++ free := by
      rw [h.message, hhole, List.append_nil, List.append_assoc, List.drop_append,
        List.drop_of_length_le (Nat.le_add_right ..), List.nil_append, Nat.add_sub_cancel_left,
        List.drop_append_of_le_length hn]
    rw [if_neg hlt, hdrop, h.message, hhole, List.append_nil, List.append_assoc kept (rest.take n),
      ← List.append_assoc (rest.take n), List.take_append_drop, List.append_assoc]
    rfl

end

omit [Checksum] in
theorem fromWire_of {bytes : List UInt8} (h : bytes.getD 114 0 ≤ commandMax) :
    MessageHeader.fromWire bytes = some ⟨bytes⟩ :=
  if_pos h

theorem Layout.copyHeader (h : Layout b kept hole rest free) (hr : headerSize ≤ rest.length)
    (hok : HeaderOk (rest.take headerSize)) : b.copyHeader = .ok (headerOf rest) := by
  unfold MessageBuffer.copyHeader
  rw [h.received, ok_bind, assert_of hr, ok_bind, h.header hr, ok_bind, fromWire_of hok.command]
  rfl

-- A header that has been received is accepted or the buffer is invalidated.
theorem Layout.advanceHeader (h : Layout b kept hole rest free)
    (ha : b.advanceSize = b.processSize + known) (hw : known ≤ rest.length)
    (hk : known = 0 ∨ headerSize ≤ known ∧ HeaderOk (rest.take headerSize))
    (hcommand : headerSize ≤ rest.length → ofBytes (slice (rest.take headerSize) 0 16) =
      Checksum.checksum ((rest.take headerSize).drop 16) →
        (rest.take headerSize).getD 114 0 ≤ commandMax) :
    Meets (fun _ => False)
      (fun b' => (headerSize ≤ rest.length ∧ ¬HeaderOk (rest.take headerSize) ∧ Dead b' ∧
          b'.iteratorState = .idle) ∨
        (headerSize ≤ rest.length → HeaderOk (rest.take headerSize)) ∧
          b' = { b with
            advanceSize := (b.processSize +
              max known (if headerSize ≤ rest.length then headerSize else 0)) })
      b.advanceHeader := by
  unfold MessageBuffer.advanceHeader
  rw [assert_of h.valid, ok_bind, assert_of (by rw [ha, h.process, h.receive]; omega), ok_bind]
  have hpos : 0 < headerSize := by decide
  by_cases hknown : headerSize ≤ known
  · have hr : headerSize ≤ rest.length := by omega
    rw [if_pos (by omega : b.processSize + headerSize ≤ b.advanceSize)]
    have hok : HeaderOk (rest.take headerSize) := by
      obtain hk | ⟨_, hk⟩ := hk
      · omega
      · exact hk
    refine .inr ⟨fun _ => hok, ?_⟩
    rw [if_pos hr, Nat.max_eq_left hknown, ← ha]
  have hzero : known = 0 := by omega
  subst hzero
  rw [if_neg (by omega : ¬b.processSize + headerSize ≤ b.advanceSize),
    assert_of (show b.advanceSize = b.processSize from ha), ok_bind, h.received, ok_bind]
  by_cases hr : headerSize ≤ rest.length
  case neg =>
    rw [if_pos (by omega : rest.length < headerSize)]
    refine .inr ⟨fun hr' => absurd hr' hr, ?_⟩
    rw [if_neg hr, Nat.max_self, ← ha]
  rw [if_neg (by omega : ¬rest.length < headerSize), h.header hr, ok_bind]
  by_cases hc : ofBytes (slice (rest.take headerSize) 0 16) =
      Checksum.checksum ((rest.take headerSize).drop 16)
  case neg =>
    rw [if_pos hc]
    exact (invalidate_dead h.valid).weaken fun b' hd => .inl ⟨hr, fun hok => hc hok.checksum, hd⟩
  rw [if_neg (not_not.mpr hc), fromWire_of (hcommand hr hc)]
  dsimp only
  by_cases hs : MessageHeader.size ⟨rest.take headerSize⟩ < headerSize ∨
      messageSizeMax < MessageHeader.size ⟨rest.take headerSize⟩
  · rw [if_pos hs]
    refine (invalidate_dead h.valid).weaken fun b' hd => .inl ⟨hr, fun hok => ?_, hd⟩
    have hmin := hok.sizeMin
    have hmax := hok.sizeMax
    omega
  · rw [if_neg hs]
    refine .inr ⟨fun _ => ⟨hc, hcommand hr hc, by omega, by omega⟩, ?_⟩
    rw [if_pos hr, Nat.zero_max, ha]
    rfl

-- A body that has been received is accepted or the buffer is invalidated.
theorem Layout.advanceBody (h : Layout b kept hole rest free)
    (ha : b.advanceSize = b.processSize + known) (hw : known ≤ rest.length)
    (hheader : headerSize ≤ known → HeaderOk (rest.take headerSize))
    (hk : known ≤ headerSize ∨ (headerOf rest).size ≤ known) :
    Meets (fun _ => False)
      (fun b' => (headerSize ≤ known ∧ known < (headerOf rest).size ∧
          (headerOf rest).size ≤ rest.length ∧ ¬BodyOk rest ∧ Dead b' ∧ b'.iteratorState = .idle) ∨
        ∃ known', b' = { b with advanceSize := b.processSize + known' } ∧
          (known' = known ∧ (known < headerSize ∨ rest.length < (headerOf rest).size ∨
            (headerOf rest).size ≤ known) ∨
          known' = (headerOf rest).size ∧ headerSize ≤ known ∧ known < (headerOf rest).size ∧
            (headerOf rest).size ≤ rest.length ∧ BodyOk rest))
      b.advanceBody := by
  have hsame : b = { b with advanceSize := b.processSize + known } := by
    rw [← ha]
  unfold MessageBuffer.advanceBody
  rw [assert_of h.valid, ok_bind]
  by_cases hknown : headerSize ≤ known
  case neg =>
    rw [if_pos (by omega : b.advanceSize < b.processSize + headerSize)]
    exact .inr ⟨known, hsame, .inl ⟨rfl, .inl (by omega)⟩⟩
  have hok := hheader hknown
  have hmin : headerSize ≤ (headerOf rest).size := hok.sizeMin
  rw [if_neg (by omega : ¬b.advanceSize < b.processSize + headerSize), h.copyHeader (by omega) hok,
    ok_bind, h.received, ok_bind]
  by_cases hr : (headerOf rest).size ≤ rest.length
  case neg =>
    rw [if_pos (by omega : rest.length < (headerOf rest).size)]
    exact .inr ⟨known, hsame, .inl ⟨rfl, .inr (.inl (by omega))⟩⟩
  rw [if_neg (by omega : ¬rest.length < (headerOf rest).size)]
  by_cases hs : (headerOf rest).size ≤ known
  · rw [if_pos (by omega : b.processSize + (headerOf rest).size ≤ b.advanceSize)]
    exact .inr ⟨known, hsame, .inl ⟨rfl, .inr (.inr hs)⟩⟩
  rw [if_neg (by omega : ¬b.processSize + (headerOf rest).size ≤ b.advanceSize),
    checkedSub_of (by omega : b.processSize ≤ b.advanceSize), ok_bind,
    assert_of (by omega : b.advanceSize - b.processSize = headerSize), ok_bind, h.range hmin hr,
    ok_bind]
  have hlength : (slice rest headerSize ((headerOf rest).size - headerSize)).length =
      (headerOf rest).size - headerSize := by
    unfold slice
    rw [List.length_take, List.length_drop]
    omega
  unfold MessageHeader.validChecksumBody
  rw [assert_of (by omega : (headerOf rest).size = headerSize +
    (slice rest headerSize ((headerOf rest).size - headerSize)).length), ok_bind]
  by_cases hbody : BodyOk rest
  · rw [show decide ((headerOf rest).checksumBody = Checksum.checksum
      (slice rest headerSize ((headerOf rest).size - headerSize))) = true from decide_eq_true hbody]
    rw [pure_bind, if_pos rfl, checkedSub_of hmin, ok_bind]
    refine .inr ⟨(headerOf rest).size, ?_, .inr ⟨rfl, hknown, by omega, hr, hbody⟩⟩
    rw [show b.advanceSize + ((headerOf rest).size - headerSize) =
      b.processSize + (headerOf rest).size by omega]
  · rw [show decide ((headerOf rest).checksumBody = Checksum.checksum
      (slice rest headerSize ((headerOf rest).size - headerSize))) = false from decide_eq_false hbody]
    rw [pure_bind, if_neg Bool.false_ne_true]
    exact (invalidate_dead h.valid).weaken fun b' hd =>
      .inl ⟨hknown, by omega, hr, hbody, hd.1, hd.2⟩

-- Bytes that the buffer is invalidated by.
def Rejects (bytes : List UInt8) (known : Nat) : Prop :=
  headerSize ≤ bytes.length ∧ (HeaderOk (bytes.take headerSize) →
    headerSize < (headerOf bytes).size ∧ known < (headerOf bytes).size ∧
      (headerOf bytes).size ≤ bytes.length ∧ ¬BodyOk bytes)

-- How much is known of the bytes after they have been looked at.
structure Reaches (bytes : List UInt8) (known known' : Nat) : Prop where
  within : known' ≤ bytes.length
  accepts : headerSize ≤ bytes.length → HeaderOk (bytes.take headerSize)
  cases : known' = known ∨ known' = headerSize ∧ headerSize ≤ bytes.length ∨
    known' = (headerOf bytes).size ∧ headerSize ≤ bytes.length
  header : headerSize ≤ bytes.length → headerSize ≤ known'
  message : headerSize ≤ bytes.length → (headerOf bytes).size ≤ bytes.length →
    (headerOf bytes).size ≤ known'
  body : headerSize ≤ bytes.length → headerSize < (headerOf bytes).size →
    known < (headerOf bytes).size → (headerOf bytes).size ≤ bytes.length → BodyOk bytes
  same : (headerSize ≤ bytes.length → headerSize ≤ known) →
    (headerSize ≤ bytes.length → (headerOf bytes).size ≤ bytes.length →
      (headerOf bytes).size ≤ known) → known' = known

theorem Layout.advance (h : Layout b kept hole rest free)
    (ha : b.advanceSize = b.processSize + known) (hw : known ≤ rest.length)
    (hk : known = 0 ∨ headerSize ≤ known ∧ HeaderOk (rest.take headerSize))
    (hsize : known ≤ headerSize ∨ (headerOf rest).size ≤ known)
    (hcommand : headerSize ≤ rest.length → ofBytes (slice (rest.take headerSize) 0 16) =
      Checksum.checksum ((rest.take headerSize).drop 16) →
        (rest.take headerSize).getD 114 0 ≤ commandMax) :
    Meets (fun _ => False)
      (fun b' => (Rejects rest known ∧ Dead b' ∧ b'.iteratorState = .idle) ∨
        ∃ known', Reaches rest known known' ∧ b' = { b with advanceSize := b.processSize + known' })
      b.advance := by
  have hpos : 0 < headerSize := by decide
  unfold MessageBuffer.advance
  rw [if_pos h.valid, Meets.bind_iff]
  refine (h.advanceHeader ha hw hk hcommand).weaken fun b₁ hb₁ => ?_
  obtain ⟨hr, hn, hd, hidle⟩ | ⟨hok, hb₁⟩ := hb₁
  · dsimp only
    rw [if_neg hd.invalid, pure_bind, hd.invariants hidle]
    exact .inl ⟨⟨hr, fun hok => absurd hok hn⟩, hd, hidle⟩
  subst hb₁
  dsimp only
  rw [if_pos h.valid, Meets.bind_iff]
  generalize hreach : max known (if headerSize ≤ rest.length then headerSize else 0) = reach
  have hreach' : reach = known ∨ reach = headerSize ∧ headerSize ≤ rest.length := by
    split at hreach <;> omega
  have hheader : headerSize ≤ rest.length → headerSize ≤ reach := by
    intro hr
    rw [if_pos hr] at hreach
    omega
  have hle : known ≤ reach := by omega
  have hmin : headerSize ≤ rest.length → headerSize ≤ (headerOf rest).size :=
    fun hr => (hok hr).sizeMin
  refine ((h.advanced (n := b.processSize + reach)).advanceBody rfl (by omega)
    (fun hr => hok (by omega)) (by omega)).weaken fun b₂ hb₂ => ?_
  obtain ⟨hk₂, hlt, hr, hbody, hd, hidle⟩ | ⟨known', rfl, hknown'⟩ := hb₂
  · rw [hd.invariants hidle]
    exact .inl ⟨⟨by omega, fun _ => ⟨by omega, by omega, hr, hbody⟩⟩, hd, hidle⟩
  · have hwithin : known' ≤ rest.length := by omega
    have hinvariants := (h.advanced (n := b.processSize + known')).invariants rfl hwithin
    rw [hinvariants]
    refine .inr ⟨known', ⟨hwithin, hok, ?_, ?_, ?_, ?_, ?_⟩, rfl⟩
    · omega
    · omega
    · omega
    · intro hr hbody hlt hle
      have hheader := hheader hr
      obtain ⟨_, hcase⟩ | ⟨_, _, _, _, hbody⟩ := hknown'
      · omega
      · exact hbody
    · intro h₁ h₂
      by_cases hr : headerSize ≤ rest.length
      · have h₁ := h₁ hr
        have hmin := hmin hr
        rw [if_pos hr] at hreach
        by_cases hs : (headerOf rest).size ≤ rest.length
        · have h₂ := h₂ hr hs
          omega
        · omega
      · rw [if_neg hr] at hreach
        omega

section Stream

-- Two streams that start alike have the same header and the same body.
omit [Checksum] in
theorem headerOf_eq {x y : List UInt8} (h : x.take headerSize = y.take headerSize) :
    headerOf x = headerOf y :=
  congrArg MessageHeader.mk h

theorem bodyOk_iff {x y : List UInt8} (h : x.take headerSize = y.take headerSize)
    (hb : x.take (headerOf x).size = y.take (headerOf x).size) : BodyOk x ↔ BodyOk y := by
  have hslice : ∀ z : List UInt8, slice z headerSize ((headerOf x).size - headerSize) =
      (z.take (headerOf x).size).drop headerSize := by
    intro z
    unfold slice
    rw [List.drop_take]
  unfold BodyOk
  rw [← headerOf_eq h, hslice, hslice, hb]

omit [Checksum] in
theorem take_eq {stream : List UInt8} (h : rest ++ future = stream) (hn : n ≤ rest.length) :
    rest.take n = stream.take n := by
  rw [← h, List.take_append_of_le_length hn]

variable (hv : ∀ message ∈ todo, Valid message) (ht : Malformed tail)
    (hstream : rest ++ future = todo.flatten ++ tail)

include hstream

omit [Checksum] in
theorem take_eq_head {queue : List (List UInt8)} (hq : todo = message :: queue) (hn : n ≤ rest.length)
    (hm : n ≤ message.length) : rest.take n = message.take n := by
  rw [take_eq hstream hn, hq, List.flatten_cons, List.append_assoc, List.take_append_of_le_length hm]

omit [Checksum] in
theorem take_eq_tail (hq : todo = []) (hn : n ≤ rest.length) : rest.take n = tail.take n := by
  rw [take_eq hstream hn, hq]
  rfl

omit [Checksum] in
theorem length_le_tail (hq : todo = []) : rest.length ≤ tail.length := by
  have hlength := congrArg List.length hstream
  rw [hq] at hlength
  simp only [List.length_append, List.flatten_nil, List.length_nil] at hlength
  omega

include hv

theorem rejects_tail (hr : Rejects rest known) : todo = [] := by
  cases todo with
  | nil => rfl
  | cons head queue =>
    have hvalid := hv head (List.mem_cons_self ..)
    have htake := take_eq_head hstream rfl hr.1 hvalid.headerSize_le
    obtain ⟨hbody, _, hle, hn⟩ := hr.2 (htake ▸ hvalid.header)
    rw [headerOf_eq htake, hvalid.size] at hbody hle
    refine absurd ((bodyOk_iff htake ?_).mpr (hvalid.body hbody)) hn
    rw [headerOf_eq htake, hvalid.size]
    exact take_eq_head hstream rfl hle (Nat.le_refl _)

-- What the buffer rejects is not settled.
theorem not_settled (hr : Rejects rest known) : ¬Settled tail rest.length known todo := by
  obtain rfl := rejects_tail hv hstream hr
  intro hs
  obtain ⟨hok, _, hlt⟩ := hs hr.1
  have htake := take_eq_tail hstream rfl hr.1
  obtain ⟨_, _, hle, _⟩ := hr.2 (htake ▸ hok)
  rw [headerOf_eq htake] at hle
  omega

include ht

-- The header of what comes next, if it has been received.
theorem Known.front (hk : Known tail todo known) (hw : known ≤ rest.length) :
    (known = 0 ∨ headerSize ≤ known ∧ HeaderOk (rest.take headerSize)) ∧
      (known ≤ headerSize ∨ (headerOf rest).size ≤ known) ∧
      (headerSize ≤ rest.length → ofBytes (slice (rest.take headerSize) 0 16) =
        Checksum.checksum ((rest.take headerSize).drop 16) →
          (rest.take headerSize).getD 114 0 ≤ commandMax) := by
  refine ⟨?_, ?_, fun hr hc => ?_⟩
  · cases hk with
    | none        => exact .inl rfl
    | header hok  => exact .inr ⟨Nat.le_refl _, take_eq hstream hw ▸ hok⟩
    | @message head queue size hk =>
      have hvalid := hv head (List.mem_cons_self ..)
      have hle := hvalid.headerSize_le
      exact .inr ⟨by omega, take_eq_head hstream rfl (by omega) hle ▸ hvalid.header⟩
  · cases hk with
    | none        => exact .inl (Nat.zero_le _)
    | header hok  => exact .inl (Nat.le_refl _)
    | @message head queue size hk =>
      have hvalid := hv head (List.mem_cons_self ..)
      have hle := hvalid.headerSize_le
      rw [headerOf_eq (take_eq_head hstream rfl (by omega) hle), hvalid.size]
      exact .inr (Nat.le_add_right ..)
  · cases todo with
    | nil =>
      have hlength := length_le_tail hstream rfl
      rw [take_eq_tail hstream rfl hr] at hc ⊢
      exact ht.command (by omega) hc
    | cons head queue =>
      have hvalid := hv head (List.mem_cons_self ..)
      rw [take_eq_head hstream rfl hr hvalid.headerSize_le]
      exact hvalid.header.command

theorem Known.reach {known' : Nat} (hk : Known tail todo known) (hw : known ≤ rest.length)
    (h : Reaches rest known known') :
    Known tail todo known' ∧ Settled tail rest.length known' todo := by
  cases todo with
  | nil =>
    have hlength := length_le_tail hstream rfl
    have hsettled : Settled tail rest.length known' [] := by
      intro hr
      have htake := take_eq_tail hstream rfl hr
      have hok := htake ▸ h.accepts hr
      obtain ⟨hbody, hwrong⟩ := ht.wrong (by omega) hok
      have hsize := headerOf_eq htake
      have hknown : known ≤ headerSize := by
        cases hk with
        | none       => exact Nat.zero_le _
        | header hok => exact Nat.le_refl _
      have hlt : rest.length < (headerOf tail).size := by
        by_contra hle
        refine hwrong (by omega) ((bodyOk_iff htake ?_).mp (h.body hr ?_ ?_ ?_)) <;>
          rw [hsize]
        · exact take_eq_tail hstream rfl (by omega)
        · omega
        · omega
        · omega
      have hle := h.header hr
      have hwithin := h.within
      refine ⟨hok, ?_, hlt⟩
      obtain hc | ⟨hc, _⟩ | ⟨hc, _⟩ := h.cases
      · omega
      · exact hc
      · rw [hsize] at hc
        omega
    refine ⟨?_, hsettled⟩
    obtain rfl | ⟨rfl, hr⟩ | ⟨rfl, hr⟩ := h.cases
    · exact hk
    · exact .header (take_eq_tail hstream rfl hr ▸ h.accepts hr)
    · rw [(hsettled hr).2.1]
      exact .header (take_eq_tail hstream rfl hr ▸ h.accepts hr)
  | cons head queue =>
    have hvalid := hv head (List.mem_cons_self ..)
    have hmin := hvalid.headerSize_le
    have hsize : headerSize ≤ rest.length → (headerOf rest).size = head.length := by
      intro hr
      rw [headerOf_eq (take_eq_head hstream rfl hr hmin), hvalid.size]
    refine ⟨?_, fun hr => h.header hr, fun hle => ?_⟩
    · obtain rfl | ⟨rfl, hr⟩ | ⟨rfl, hr⟩ := h.cases
      · exact hk
      · refine .header ?_
        rw [List.flatten_cons, List.append_assoc, List.take_append_of_le_length hmin]
        exact hvalid.header
      · rw [hsize hr]
        exact .message .none
    · have hr : headerSize ≤ rest.length := by omega
      have hmessage := h.message hr
      rw [hsize hr] at hmessage
      exact hmessage hle

omit ht in
theorem settled_same {known' : Nat} (h : Reaches rest known known')
    (hs : Settled tail rest.length known todo) : known' = known := by
  cases todo with
  | nil =>
    refine h.same (fun hr => Nat.le_of_eq (hs hr).2.1.symm) fun hr hle => ?_
    have hlt := (hs hr).2.2
    rw [headerOf_eq (take_eq_tail hstream rfl hr)] at hle
    omega
  | cons head queue =>
    have hvalid := hv head (List.mem_cons_self ..)
    refine h.same hs.1 fun hr hle => ?_
    rw [headerOf_eq (take_eq_head hstream rfl hr hvalid.headerSize_le), hvalid.size] at hle ⊢
    exact hs.2 hle

theorem Layout.advances (h : Layout b kept hole rest free)
    (ha : b.advanceSize = b.processSize + known) (hw : known ≤ rest.length)
    (hk : Known tail todo known) :
    Meets (fun _ => False)
      (fun b' => (todo = [] ∧ ¬Settled tail rest.length known todo ∧ Dead b' ∧
          b'.iteratorState = .idle) ∨
        ∃ known', Known tail todo known' ∧ Settled tail rest.length known' todo ∧
          known' ≤ rest.length ∧ (Settled tail rest.length known todo → known' = known) ∧
          b' = { b with advanceSize := b.processSize + known' })
      b.advance := by
  obtain ⟨h₁, h₂, h₃⟩ := hk.front hv ht hstream hw
  refine (h.advance ha hw h₁ h₂ h₃).weaken fun b' hb' => ?_
  obtain ⟨hr, hd⟩ | ⟨known', hreach, rfl⟩ := hb'
  · exact .inl ⟨rejects_tail hv hstream hr, not_settled hv hstream hr, hd⟩
  · obtain ⟨hk', hs'⟩ := hk.reach hv ht hstream hw hreach
    exact .inr ⟨known', hk', hs', hreach.within, settled_same hv hstream hreach, rfl⟩

end Stream

-- The header of the next message, if this has been received.
def upcoming (todo : List (List UInt8)) (received : Nat) : Option MessageHeader :=
  match todo with
  | message :: _ => if message.length ≤ received then some (headerOf message) else none
  | []           => none

section Cursors

variable {kept : List (List UInt8)} {hole rest free future tail message : List UInt8}

theorem Known.append (h : Known tail todo known) :
    Known tail (kept ++ todo) (kept.flatten.length + known) := by
  induction kept with
  | nil => rwa [List.flatten_nil, List.length_nil, Nat.zero_add]
  | cons head kept ih =>
    rw [List.flatten_cons, List.length_append, Nat.add_assoc]
    exact .message ih

theorem Known.uncons {queue : List (List UInt8)} (h : Known tail (message :: queue) known)
    (hle : message.length ≤ known) (hmin : headerSize ≤ message.length) :
    ∃ known', known = message.length + known' ∧ Known tail queue known' := by
  have hpos : 0 < headerSize := by decide
  cases h with
  | none      => omega
  | header _  => exact ⟨0, by omega, .none⟩
  | message h => exact ⟨_, rfl, h⟩

theorem Settled.append (h : Settled tail rest.length known todo)
    (hv : ∀ message ∈ kept, Valid message) :
    Settled tail (kept.flatten ++ rest).length (kept.flatten.length + known) (kept ++ todo) := by
  cases kept with
  | nil => rwa [List.flatten_nil, List.length_nil, Nat.zero_add, List.nil_append]
  | cons head kept =>
    have hmin := (hv head (List.mem_cons_self ..)).headerSize_le
    have hlength : (head :: kept).flatten.length = head.length + kept.flatten.length := by
      rw [List.flatten_cons, List.length_append]
    exact ⟨fun _ => by omega, fun _ => by omega⟩

variable (hv : ∀ message ∈ todo, Valid message) (ht : Malformed tail)
    (hstream : rest ++ future = todo.flatten ++ tail)
    (h : Layout b kept.flatten hole rest free) (ha : b.advanceSize = b.processSize + known)
    (hw : known ≤ rest.length) (hk : Known tail todo known)

include hv ht hstream h ha hw hk

theorem Layout.peek (hs : Settled tail rest.length known todo) :
    b.peek = .ok (upcoming todo rest.length) := by
  unfold MessageBuffer.peek
  rw [checkedSub_of (by omega : b.processSize ≤ b.advanceSize), ok_bind, ha, Nat.add_sub_cancel_left]
  by_cases hknown : headerSize ≤ known
  case neg =>
    rw [if_neg hknown]
    cases todo with
    | nil => rfl
    | cons head queue =>
      have hmin := (hv head (List.mem_cons_self ..)).headerSize_le
      have hn : ¬head.length ≤ rest.length := by
        intro hle
        have := hs.2 hle
        omega
      unfold upcoming
      dsimp only
      rw [if_neg hn]
      rfl
  have hpos : 0 < headerSize := by decide
  have hr : headerSize ≤ rest.length := by omega
  have hok : HeaderOk (rest.take headerSize) := by
    obtain hzero | ⟨_, hok⟩ := (hk.front hv ht hstream hw).1
    · omega
    · exact hok
  rw [if_pos hknown, assert_of h.valid, ok_bind, h.copyHeader hr hok, ok_bind]
  cases todo with
  | nil =>
    have hlt := (hs hr).2.2
    rw [headerOf_eq (take_eq_tail hstream rfl hr), if_neg (by omega)]
    rfl
  | cons head queue =>
    have hvalid := hv head (List.mem_cons_self ..)
    have hhead := headerOf_eq (take_eq_head hstream rfl hr hvalid.headerSize_le)
    have hiff : head.length ≤ known ↔ head.length ≤ rest.length := ⟨fun hle => by omega, hs.2⟩
    unfold upcoming
    simp only [hhead, hvalid.size, hiff]
    rfl

-- The shift keeps the bytes that are not consumed, and what is known of them.
theorem Layout.shifts (hs : Settled tail rest.length known todo)
    (hkept : ∀ message ∈ kept, Valid message) :
    Meets (fun _ => False)
      (fun b' => (∃ free', Layout b' [] [] (kept.flatten ++ rest) free') ∧
        b'.advanceSize = b'.processSize + (kept.flatten.length + known) ∧ b'.iteratorState = .idle)
      b.shift := by
  have hlength := h.length
  rw [h.message] at hlength
  simp only [List.length_append] at hlength
  have hmoved := h.moveBack (Nat.le_refl rest.length)
  rw [List.take_length, show b.processSize + rest.length = b.receiveSize by rw [h.receive, h.process]]
    at hmoved
  obtain ⟨free', hfree⟩ : ∃ free', free' = b.message.drop (kept.flatten.length + rest.length) :=
    ⟨_, rfl⟩
  rw [← hfree] at hmoved
  have hlength' : (kept.flatten ++ rest ++ free').length = messageSizeMax := by
    rw [hfree]
    simp only [List.length_append, List.length_drop, h.length]
    omega
  unfold MessageBuffer.shift
  rw [assert_of (by rw [h.suspend, h.process]; omega), ok_bind,
    assert_of (by rw [h.receive, h.process]; omega), ok_bind, hmoved, ok_bind,
    checkedSub_of (by rw [h.receive, h.process, h.suspend]; omega), ok_bind,
    checkedSub_of (by rw [ha, h.process, h.suspend]; omega), ok_bind]
  dsimp only
  let b₁ : MessageBuffer := { b with
    message := kept.flatten ++ rest ++ free'
    receiveSize := b.receiveSize - (b.processSize - b.suspendSize)
    advanceSize := b.advanceSize - (b.processSize - b.suspendSize)
    suspendSize := 0
    processSize := 0
    iteratorState := .idle }
  have h₁ : Layout b₁ (List.flatten []) [] (kept.flatten ++ rest) free' := by
    refine ⟨rfl, hlength', rfl, rfl, ?_, h.valid⟩
    show b.receiveSize - (b.processSize - b.suspendSize) = _
    simp only [List.flatten_nil, List.length_nil, List.length_append]
    rw [h.receive, h.process, h.suspend]
    omega
  have ha₁ : b₁.advanceSize = b₁.processSize + (kept.flatten.length + known) := by
    show b.advanceSize - (b.processSize - b.suspendSize) = 0 + _
    rw [ha, h.process, h.suspend]
    omega
  have hv₁ : ∀ message ∈ kept ++ todo, Valid message :=
    fun message hm => (List.mem_append.mp hm).elim (hkept message) (hv message)
  have hstream₁ : kept.flatten ++ rest ++ future = (kept ++ todo).flatten ++ tail := by
    rw [List.append_assoc, hstream, List.flatten_append, List.append_assoc]
  have hs₁ := Settled.append hs hkept
  have hw₁ : kept.flatten.length + known ≤ (kept.flatten ++ rest).length := by
    rw [List.length_append]
    omega
  rw [Meets.bind_iff]
  refine (h₁.advances hv₁ ht hstream₁ ha₁ hw₁ hk.append).weaken fun b₂ hb₂ => ?_
  obtain ⟨_, hn, _⟩ | ⟨known', _, _, _, hsame, rfl⟩ := hb₂
  · exact absurd hs₁ hn
  · rw [hsame hs₁, ← ha₁]
    rw [assert_of (by rfl), ok_bind]
    exact ⟨⟨free', h₁⟩, ha₁, rfl⟩

end Cursors

end MessageBuffer

end TigerBeetle
