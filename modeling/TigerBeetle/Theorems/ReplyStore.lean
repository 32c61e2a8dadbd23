import TigerBeetle.ReplyStore
import TigerBeetle.Theorems.SessionTable

namespace TigerBeetle.ReplyStore

open Fallible LittleEndian

-- What the callers promise of a reply that is written: it has a body, and it is padded with zeros.
structure Message.WellFormed (message : Message) : Prop where
  header : ∃ header, message.header = some header ∧ header.size ≠ BitVec.ofNat 32 headerSize
  body : headerSize < message.sizeRaw
  fits : message.sizeRaw ≤ messageSizeMax
  padding : ∀ byte ∈ slice message.buffer message.sizeRaw
    (sectorCeil message.sizeRaw - message.sizeRaw), byte = 0

theorem sectorCeil_le {size : Nat} (h : size ≤ messageSizeMax) : sectorCeil size ≤ messageSizeMax := by
  simp only [sectorCeil, sectorSize, messageSizeMax] at h ⊢
  omega

theorem le_sectorCeil {size : Nat} : size ≤ sectorCeil size := by
  simp only [sectorCeil, sectorSize]
  omega

namespace WriteOp

variable {write : WriteOp}

theorem length_request (h : write.message.WellFormed) :
    write.request.buffer.length = sectorCeil write.message.sizeRaw := by
  have hfits := h.fits
  have hle := @le_sectorCeil write.message.sizeRaw
  have hlen := write.message.length_eq
  simp only [request, List.length_append, List.length_take, List.length_replicate]
  omega

theorem getD_request (h : write.message.WellFormed) {i : Nat} (hi : i < write.message.sizeRaw) :
    write.request.buffer.getD i 0 = write.message.buffer.getD i 0 := by
  have hlen : i < (write.message.buffer.take write.message.sizeRaw).length := by
    have hfits := h.fits
    rw [List.length_take, write.message.length_eq]
    omega
  rw [request, List.getD_append _ _ _ _ hlen, List.getD_eq_getElem _ _ hlen, List.getElem_take]
  exact (List.getD_eq_getElem _ _ _).symm

end WriteOp

section Zone

variable {zone : Nat → UInt8} {log : List WriteOp} {write : WriteOp} {slot : Slot} {i : Nat}

-- The zone after some writes.
def written (zone : Nat → UInt8) (log : List WriteOp) : Nat → UInt8 :=
  log.foldl (fun zone write => write.request.apply zone) zone

theorem written_concat : written zone (log ++ [write]) = write.request.apply (written zone log) := by
  rw [written, List.foldl_concat]
  rfl

theorem written_last (hlog : ∀ write ∈ log, write.message.WellFormed)
    (hlast : (log.filter (·.slot = slot)).getLast? = some write)
    (hi : i < sectorCeil write.message.sizeRaw) :
    written zone log (slotOffset slot + i) = write.request.buffer.getD i 0 := by
  induction log using List.reverseRecOn with
  | nil => cases hlast
  | append_singleton log last ih =>
    have hlen := WriteOp.length_request (hlog last (by simp))
    have hceil := sectorCeil_le (hlog last (by simp)).fits
    rw [written_concat, WriteRequest.apply]
    by_cases hs : last.slot = slot
    · have he : last = write := by simpa [hs] using hlast
      subst he
      have hoffset : last.request.offset = slotOffset slot := by rw [← hs]; rfl
      rw [hoffset, if_pos (by omega), Nat.add_sub_cancel_left]
    · have hlast' : (log.filter (·.slot = slot)).getLast? = some write := by simpa [hs] using hlast
      have hmem : write ∈ log := (List.mem_filter.mp (List.mem_of_getLast? hlast')).1
      have hfits := sectorCeil_le (hlog write (by simp [hmem])).fits
      have hne : last.slot.val ≠ slot.val := fun he => hs (Fin.ext he)
      have hapart : ¬(last.request.offset ≤ slotOffset slot + i ∧
          slotOffset slot + i < last.request.offset + last.request.buffer.length) := by
        rw [hlen]
        simp only [WriteOp.request, slotOffset, messageSizeMax] at hceil hfits ⊢
        omega
      rw [if_neg hapart]
      exact ih (fun write hw => hlog write (by simp [hw])) hlast'

end Zone

variable {buffer : List UInt8}

namespace ClientReplies

variable {replies replies' : ClientReplies} {requests : List WriteRequest} {live : List WriteOp}
  {slot : Slot} {message : Message} {trigger : WriteTrigger}

-- The writes that are in progress, with the requests that the storage has not completed. Of the two
-- that there may be, the second one is queued if it is to the slot of the first one.
inductive Live (replies : ClientReplies) : List WriteRequest → List WriteOp → Prop
  | idle :
      (∀ i, replies.writes i = none) → replies.writesInFlight = [] → replies.writeQueue = [] →
      (∀ slot, replies.writing slot = false) → Live replies [] []
  | one {a : WriteIndex} {x : WriteOp} :
      replies.writes a = some x → (∀ i ≠ a, replies.writes i = none) →
      replies.writesInFlight = [a] → replies.writeQueue = [] →
      (∀ slot, replies.writing slot = decide (slot = x.slot)) → Live replies [x.request] [x]
  | two {a b : WriteIndex} {x y : WriteOp} :
      a ≠ b → replies.writes a = some x → replies.writes b = some y →
      replies.writesInFlight = [a, b] → replies.writeQueue = [] → x.slot ≠ y.slot →
      (∀ slot, replies.writing slot = (decide (slot = x.slot) || decide (slot = y.slot))) →
      Live replies [x.request, y.request] [x, y]
  | queued {a b : WriteIndex} {x y : WriteOp} :
      a ≠ b → replies.writes a = some x → replies.writes b = some y →
      replies.writesInFlight = [a, b] → replies.writeQueue = [b] → x.slot = y.slot →
      (∀ slot, replies.writing slot = decide (slot = x.slot)) → Live replies [x.request] [x, y]

variable {i : WriteIndex}

theorem eq_of_ne {a b : WriteIndex} (h : a ≠ b) (hi : i ≠ a) : i = b := by
  have ha := a.isLt
  have hb := b.isLt
  have hi' := i.isLt
  have hab := Fin.val_ne_of_ne h
  have hia := Fin.val_ne_of_ne hi
  simp only [clientRepliesIopsWriteMax] at ha hb hi'
  exact Fin.ext (by omega)

section

variable (h : replies.Live requests live)

include h

theorem Live.map_writes : replies.writesInFlight.map replies.writes = live.map some := by
  cases h with
  | idle _ hf => simp [hf]
  | one hx _ hf => simp [hf, hx]
  | two _ hx hy hf => simp [hf, hx, hy]
  | queued _ hx hy hf => simp [hf, hx, hy]

theorem Live.nodup : replies.writesInFlight.Nodup := by
  cases h with
  | idle _ hf => simp [hf]
  | one _ _ hf => simp [hf]
  | two hne _ _ hf => simp [hf, hne]
  | queued hne _ _ hf => simp [hf, hne]

theorem Live.mem (hi : (replies.writes i).isSome) : i ∈ replies.writesInFlight := by
  cases h with
  | idle hn => simp [hn] at hi
  | @one a _ _ hn hf =>
    have he : i = a := by
      by_contra hne
      simp [hn i hne] at hi
    simp [hf, he]
  | @two a b _ _ hne _ _ hf =>
    by_cases he : i = a
    · simp [hf, he]
    · simp [hf, eq_of_ne hne he]
  | @queued a b _ _ hne _ _ hf =>
    by_cases he : i = a
    · simp [hf, he]
    · simp [hf, eq_of_ne hne he]

theorem Live.head : requests.head? = live.head?.map WriteOp.request := by
  cases h <;> rfl

-- The writes do not depend on the rest of the store.
theorem Live.congr (hw : replies'.writes = replies.writes)
    (hf : replies'.writesInFlight = replies.writesInFlight)
    (hq : replies'.writeQueue = replies.writeQueue) (hb : replies'.writing = replies.writing) :
    replies'.Live requests live := by
  cases h with
  | idle h₁ h₂ h₃ h₄ => exact .idle (hw ▸ h₁) (hf ▸ h₂) (hq ▸ h₃) (hb ▸ h₄)
  | one h₁ h₂ h₃ h₄ h₅ => exact .one (hw ▸ h₁) (hw ▸ h₂) (hf ▸ h₃) (hq ▸ h₄) (hb ▸ h₅)
  | two h₁ h₂ h₃ h₄ h₅ h₆ h₇ => exact .two h₁ (hw ▸ h₂) (hw ▸ h₃) (hf ▸ h₄) (hq ▸ h₅) h₆ (hb ▸ h₇)
  | queued h₁ h₂ h₃ h₄ h₅ h₆ h₇ =>
    exact .queued h₁ (hw ▸ h₂) (hw ▸ h₃) (hf ▸ h₄) (hq ▸ h₅) h₆ (hb ▸ h₇)

end

variable {write : WriteOp}

theorem writeReplyNext_start (hw : replies.writes i = some write)
    (hm : write.message.WellFormed) (hb : replies.writing write.slot = false) :
    replies.writeReplyNext [i] = .ok ({ replies with
      writing := Function.update replies.writing write.slot true, writeQueue := [] },
      [write.request]) := by
  have hceil : sectorCeil write.message.sizeRaw ≤ write.message.buffer.length := by
    rw [write.message.length_eq]
    exact sectorCeil_le hm.fits
  unfold writeReplyNext
  simp only [hw, hb, Bool.false_eq_true, ↓reduceIte, assert_of hceil, assert_of hm.padding]
  rfl

theorem writeReplyNext_wait (hw : replies.writes i = some write)
    (hb : replies.writing write.slot = true) :
    replies.writeReplyNext [i] = .ok ({ replies with writeQueue := [i] }, []) := by
  unfold writeReplyNext
  simp only [hw, hb, ↓reduceIte]
  rfl

-- The reads that are in progress, with the requests that the storage has not completed.
inductive Pending (replies : ClientReplies) : List ReadRequest → Prop
  | idle : (∀ i, replies.reads i = none) → replies.readsInFlight = [] → Pending replies []
  | one {i : ReadIndex} {read : ReadOp} :
      replies.reads i = some read → replies.readsInFlight = [i] → read.header.command = .reply →
      headerSize ≤ read.header.size.toNat → read.header.size.toNat ≤ messageSizeMax →
      Pending replies [read.request]

variable {reads : List ReadRequest}

theorem Pending.congr (h : replies.Pending reads)
    (hr : replies'.reads = replies.reads) (hf : replies'.readsInFlight = replies.readsInFlight) :
    replies'.Pending reads := by
  cases h with
  | idle h₁ h₂ => exact .idle (hr ▸ h₁) (hf ▸ h₂)
  | one h₁ h₂ h₃ h₄ h₅ => exact .one (hr ▸ h₁) (hf ▸ h₂) h₃ h₄ h₅

-- Of what is told of anew, `CheckpointDone` is only told of where it is `allowed`.
def Emits (allowed : Prop) (events events' : List Event) : Prop :=
  ∃ emitted, events' = events ++ emitted ∧ (.checkpointDone ∈ emitted → allowed)

variable {events : List Event} {allowed : Prop}

theorem Emits.refl : Emits allowed events events :=
  ⟨[], by simp, nofun⟩

theorem Emits.mono {allowed' : Prop} {events' : List Event}
    (h : Emits allowed events events') (hi : allowed → allowed') : Emits allowed' events events' :=
  h.imp fun _ hemitted => hemitted.imp_right fun h hmem => hi (h hmem)

theorem Emits.concat {events' : List Event} {event : Event}
    (h : Emits allowed events events') (he : event = .checkpointDone → allowed) :
    Emits allowed events (events' ++ [event]) := by
  obtain ⟨emitted, rfl, hemitted⟩ := h
  refine ⟨emitted ++ [event], by simp, fun hmem => ?_⟩
  obtain hmem | hmem := List.mem_append.mp hmem
  · exact hemitted hmem
  · exact he (List.mem_singleton.mp hmem).symm

variable {header : SessionTable.Reply}

theorem resolveReads_foldl (indices : List ReadIndex)
    (current : ClientReplies) (h : ∃ reads events, current = { replies with reads, events } ∧
      (∀ i, reads i = replies.reads i ∨ ∃ read, replies.reads i = some read ∧
        reads i = some { read with wanted := false }) ∧
      Emits False replies.events events) :
    ∃ reads events, indices.foldl (fun replies index =>
        match replies.reads index with
        | none      => replies
        | some read =>
          if read.wanted ∧ read.header.checksum = header.checksum then
            { replies with
              reads := Function.update replies.reads index (some { read with wanted := false })
              events := replies.events ++
                [.readReply read.slot read.header read.destinationReplica
                  (.resolvedByWrite message)] }
          else
            replies) current = { replies with reads, events } ∧
      (∀ i, reads i = replies.reads i ∨ ∃ read, replies.reads i = some read ∧
        reads i = some { read with wanted := false }) ∧
      Emits False replies.events events := by
  induction indices generalizing current with
  | nil => exact h
  | cons index indices ih =>
    obtain ⟨reads, events, rfl, hreads, hevents⟩ := h
    rw [List.foldl_cons]
    apply ih
    cases hread : reads index with
    | none =>
      simp only [hread]
      exact ⟨reads, events, rfl, hreads, hevents⟩
    | some read =>
      simp only [hread]
      split
      case isTrue =>
        refine ⟨_, _, rfl, fun i => ?_, hevents.concat nofun⟩
        by_cases he : i = index
        · subst he
          right
          obtain hsame | ⟨original, horiginal, hsame⟩ := hreads i
          · exact ⟨read, hsame.symm.trans hread, by simp⟩
          · rw [hread] at hsame
            cases hsame
            exact ⟨original, horiginal, by simp⟩
        · simpa [he] using hreads i
      case isFalse => exact ⟨reads, events, rfl, hreads, hevents⟩

-- Resolving reads changes no more than whether they are wanted, and tells of nothing else.
theorem resolveReads_eq : ∃ reads events,
    replies.resolveReads header message = { replies with reads, events } ∧
      (∀ i, reads i = replies.reads i ∨ ∃ read, replies.reads i = some read ∧
        reads i = some { read with wanted := false }) ∧
      Emits False replies.events events :=
  resolveReads_foldl _ replies ⟨replies.reads, replies.events, rfl, fun _ => .inl rfl, .refl⟩

theorem Pending.resolve (h : replies.Pending reads)
    (hf : replies'.readsInFlight = replies.readsInFlight)
    (hr : ∀ i, replies'.reads i = replies.reads i ∨ ∃ read, replies.reads i = some read ∧
      replies'.reads i = some { read with wanted := false }) : replies'.Pending reads := by
  cases h with
  | idle h₁ h₂ =>
    refine .idle (fun i => ?_) (hf ▸ h₂)
    obtain hsame | ⟨read, hread, _⟩ := hr i
    · exact hsame.trans (h₁ i)
    · rw [h₁] at hread
      cases hread
  | @one i read h₁ h₂ h₃ h₄ h₅ =>
    obtain hsame | ⟨read', hread, hsame⟩ := hr i
    · exact .one (hsame.trans h₁) (hf ▸ h₂) h₃ h₄ h₅
    · rw [h₁] at hread
      cases hread
      exact @Pending.one _ _ { read with wanted := false } hsame (hf ▸ h₂) h₃ h₄ h₅

theorem find?_free (h : replies.writes i = none) : ∃ index,
    (List.finRange clientRepliesIopsWriteMax).find? (fun index => (replies.writes index).isNone) =
      some index ∧ replies.writes index = none := by
  have hsome : ((List.finRange clientRepliesIopsWriteMax).find? fun index =>
      (replies.writes index).isNone).isSome := by
    rw [List.find?_isSome]
    exact ⟨i, List.mem_finRange i, by simp [h]⟩
  have ⟨index, hindex⟩ := Option.isSome_iff_exists.mp hsome
  exact ⟨index, hindex, by simpa using List.find?_some hindex⟩

-- A write that is acquired with an empty queue.
def stage (replies : ClientReplies) (index : WriteIndex) (write : WriteOp) : ClientReplies :=
  { replies with
    writes := Function.update replies.writes index (some write)
    writesInFlight := replies.writesInFlight ++ [index]
    writeQueue := [index] }

section

variable (h : replies.Live requests live)

include h

-- A write is started at once, unless another one to its slot is in progress.
theorem Live.stage {index : WriteIndex}
    (hr : replies.readySync) (hm : write.message.WellFormed) (hi : replies.writes index = none) :
    ∃ writing writeQueue issued, (replies.stage index write).writeReplyNext [index] =
        .ok ({ replies.stage index write with writing, writeQueue }, issued) ∧
      Live { replies.stage index write with writing, writeQueue } (requests ++ issued)
        (live ++ [write]) ∧
      (writing write.slot ∨ writeQueue = [index]) := by
  have hw : (replies.stage index write).writes index = some write := Function.update_self ..
  cases h with
  | idle hn hf hq hb =>
    refine ⟨_, _, _, writeReplyNext_start hw hm (hb write.slot), ?_, .inl (Function.update_self ..)⟩
    refine .one hw (fun i hne => ?_) (by simp [ClientReplies.stage, hf]) rfl fun slot => ?_
    · simp [ClientReplies.stage, hne, hn]
    · by_cases he : slot = write.slot
      · simp [he]
      · simp [ClientReplies.stage, he, hb]
  | @one a x hx hn hf hq hb =>
    have hne : a ≠ index := by
      rintro rfl
      rw [hx] at hi
      cases hi
    have hx' : (replies.stage index write).writes a = some x := by simp [ClientReplies.stage, hne, hx]
    have hf' : (replies.stage index write).writesInFlight = [a, index] := by
      simp [ClientReplies.stage, hf]
    by_cases hs : x.slot = write.slot
    · have hbusy : (replies.stage index write).writing write.slot = true := by
        simp [ClientReplies.stage, hb, hs]
      refine ⟨_, _, _, writeReplyNext_wait hw hbusy, ?_, .inr rfl⟩
      exact .queued hne hx' hw hf' rfl hs hb
    · have hfree : (replies.stage index write).writing write.slot = false := by
        simp [ClientReplies.stage, hb, Ne.symm hs]
      refine ⟨_, _, _, writeReplyNext_start hw hm hfree, ?_, .inl (Function.update_self ..)⟩
      refine .two hne hx' hw hf' rfl hs fun slot => ?_
      by_cases he : slot = write.slot
      · simp [he]
      · simp [ClientReplies.stage, he, hb]
  | two _ _ _ hf => simp [readySync, hf, clientRepliesIopsWriteMax] at hr
  | queued _ _ _ hf => simp [readySync, hf, clientRepliesIopsWriteMax] at hr

theorem Live.exists_free (hr : replies.readySync) : ∃ i, replies.writes i = none := by
  cases h with
  | idle hn => exact ⟨⟨0, by decide⟩, hn _⟩
  | @one a _ _ hn =>
    by_cases he : a = ⟨0, by decide⟩
    · exact ⟨⟨1, by decide⟩, hn _ (by rw [he]; decide)⟩
    · exact ⟨⟨0, by decide⟩, hn _ (Ne.symm he)⟩
  | two _ _ _ hf => simp [readySync, hf, clientRepliesIopsWriteMax] at hr
  | queued _ _ _ hf => simp [readySync, hf, clientRepliesIopsWriteMax] at hr

theorem Live.queue_nil (hr : replies.readySync) : replies.writeQueue = [] := by
  cases h with
  | idle _ _ hq => exact hq
  | one _ _ _ hq => exact hq
  | two _ _ _ _ hq => exact hq
  | queued _ _ _ hf => simp [readySync, hf, clientRepliesIopsWriteMax] at hr

theorem Live.writeReply
    (hp : replies.Pending reads) (hr : replies.readySync) (hm : message.WellFormed)
    (hc : trigger = .commit → replies.checkpointWaiting = false)
    (hf : trigger = .repair → replies.faulty slot = true) :
    ∃ replies' issued, replies.writeReply slot message trigger = .ok (replies', issued) ∧
      replies'.Live (requests ++ issued) (live ++ [⟨slot, message, trigger⟩]) ∧
      replies'.Pending reads ∧
      Emits False replies.events replies'.events := by
  have ⟨header, hheader, hsize⟩ := hm.header
  have ⟨resolvedReads, events, hresolved, hreads, hevents⟩ := @resolveReads_eq replies message header
  have hlive : Live ((replies.resolveReads header message).removeReply slot) requests live :=
    h.congr (by rw [hresolved]; rfl) (by rw [hresolved]; rfl) (by rw [hresolved]; rfl)
      (by rw [hresolved]; rfl)
  have hpending : Pending ((replies.resolveReads header message).removeReply slot) reads :=
    hp.resolve (by rw [hresolved]; rfl) (by rw [hresolved]; exact hreads)
  have hready : ((replies.resolveReads header message).removeReply slot).readySync := by
    rw [hresolved]
    exact hr
  have hquiet : Emits False replies.events
      ((replies.resolveReads header message).removeReply slot).events := by
    rw [hresolved]
    exact hevents
  generalize hgen : (replies.resolveReads header message).removeReply slot = resolved at *
  have ⟨_, hfree⟩ := hlive.exists_free hready
  have ⟨index, hindex, hnone⟩ := find?_free hfree
  have hqueue := hlive.queue_nil hready
  have ⟨writing, writeQueue, issued, hnext, hlive', hdone⟩ :=
    @Live.stage resolved requests live ⟨slot, message, trigger⟩ hlive index hready hm hnone
  have hstage : enqueue { resolved with
      writes := Function.update resolved.writes index (some ⟨slot, message, trigger⟩)
      writesInFlight := resolved.writesInFlight ++ [index] } slot index =
      resolved.stage index ⟨slot, message, trigger⟩ := by
    simp only [enqueue, hqueue, List.find?_nil, List.nil_append]
    rfl
  refine ⟨_, issued, ?_, hlive', hpending.congr rfl rfl, hquiet⟩
  have hentry : replies.checkTrigger slot trigger = .ok () := by
    cases trigger with
    | commit => exact assert_of (by simp [hc rfl])
    | repair => exact assert_of (hf rfl)
  have hasserted : writing slot ∨ writeQueue.any (isQueued { resolved.stage index
      ⟨slot, message, trigger⟩ with writing, writeQueue } slot) := by
    refine hdone.imp_right fun hq => ?_
    rw [hq]
    simp [isQueued, ClientReplies.stage]
  unfold ClientReplies.writeReply
  rw [assert_of hr, ok_bind, hheader]
  simp only [assert_of hsize, ok_bind]
  rw [hentry]
  simp only [ok_bind, hgen, hindex, hstage]
  rw [show (resolved.stage index ⟨slot, message, trigger⟩).writeQueue = [index] from rfl, hnext]
  simp only [ok_bind, assert_of hasserted]
  rfl

end

-- The store without its oldest write.
def release (replies : ClientReplies) (index : WriteIndex) (rest : List WriteIndex) (slot : Slot) :
    ClientReplies :=
  { replies with
    writesInFlight := rest
    writes := Function.update replies.writes index none
    writing := Function.update replies.writing slot false }

theorem completeWrite_eq {index : WriteIndex} {rest : List WriteIndex}
    (hf : replies.writesInFlight = index :: rest) (hw : replies.writes index = some write)
    (hb : replies.writing write.slot = true) : replies.completeWrite =
      (replies.release index rest write.slot).writeReplyNext replies.writeQueue := by
  unfold ClientReplies.completeWrite
  simp only [hf, hw, assert_of hb]
  rfl

theorem Live.completeWrite (h : replies.Live requests live)
    (hp : replies.Pending reads) (hm : ∀ write ∈ live, write.message.WellFormed)
    (hne : requests ≠ []) :
    ∃ replies' issued write rest, replies.completeWrite = .ok (replies', issued) ∧
      live = write :: rest ∧ replies'.Live (requests.tail ++ issued) rest ∧
      replies'.Pending reads ∧ replies'.events = replies.events := by
  cases h with
  | idle => exact absurd rfl hne
  | @one a x hx hn hf hq hb =>
    have hbusy : replies.writing x.slot = true := by simp [hb]
    have hlive : Live (replies.release a [] x.slot) [] [] := by
      refine .idle (fun i => ?_) rfl hq fun slot => ?_
      · by_cases he : i = a
        · simp [release, he]
        · simp [release, he, hn]
      · by_cases he : slot = x.slot
        · simp [release, he]
        · simp [release, he, hb]
    refine ⟨{ replies.release a [] x.slot with writeQueue := [] }, [], x, [], ?_, rfl,
      hlive.congr rfl rfl hq.symm rfl, hp.congr rfl rfl, rfl⟩
    rw [completeWrite_eq hf hx hbusy, hq]
    rfl
  | @two a b x y hab hx hy hf hq hs hb =>
    have hbusy : replies.writing x.slot = true := by simp [hb]
    have hlive : Live (replies.release a [b] x.slot) [y.request] [y] := by
      refine @Live.one _ b y ?_ (fun i hi => ?_) rfl hq fun slot => ?_
      · simp [release, hab.symm, hy]
      · simp [release, eq_of_ne hab.symm hi]
      · by_cases he : slot = x.slot
        · simp [release, he, hs]
        · simp [release, he, hb]
    refine ⟨{ replies.release a [b] x.slot with writeQueue := [] }, [], x, [y], ?_, rfl,
      hlive.congr rfl rfl hq.symm rfl, hp.congr rfl rfl, rfl⟩
    rw [completeWrite_eq hf hx hbusy, hq]
    rfl
  | @queued a b x y hab hx hy hf hq hs hb =>
    have hbusy : replies.writing x.slot = true := by simp [hb]
    have hy' : (replies.release a [b] x.slot).writes b = some y := by simp [release, hab.symm, hy]
    have hfree : (replies.release a [b] x.slot).writing y.slot = false := by simp [release, hs]
    have hlive : Live { replies.release a [b] x.slot with
        writing := Function.update (replies.release a [b] x.slot).writing y.slot true
        writeQueue := [] } [y.request] [y] := by
      refine @Live.one _ b y hy' (fun i hi => ?_) rfl rfl fun slot => ?_
      · simp [release, eq_of_ne hab.symm hi]
      · by_cases he : slot = y.slot
        · simp [he]
        · simp [release, he, hs, hb]
    refine ⟨_, [y.request], x, [y], ?_, rfl, hlive, hp.congr rfl rfl, rfl⟩
    rw [completeWrite_eq hf hx hbusy, hq]
    exact writeReplyNext_start hy' (hm y (by simp)) hfree

theorem Pending.readReply {session : SessionTable.Entry} {destination : Option Nat}
    (h : replies.Pending reads) (hl : replies.Live requests live)
    (hn : replies.writeInFlightLatest slot session = .ok none)
    (hc : session.header.command = .reply) (hmin : headerSize ≤ session.header.size.toNat)
    (hmax : session.header.size.toNat ≤ messageSizeMax) :
    replies.readReply slot session destination = .ok none ∨
      ∃ replies' request, replies.readReply slot session destination = .ok (some (replies', request)) ∧
        replies'.Live requests live ∧ replies'.Pending (reads ++ [request]) ∧
        replies'.events = replies.events := by
  unfold ClientReplies.readReply
  rw [hn]
  simp only [ok_bind, Option.isNone_none, assert_of trivial]
  split
  case h_1 => exact .inl rfl
  case h_2 index hindex =>
    refine .inr ⟨_, _, rfl, hl.congr rfl rfl rfl rfl, ?_, rfl⟩
    have hfree : replies.reads index = none := by simpa using List.find?_some hindex
    cases h with
    | idle _ hf =>
      refine @Pending.one _ index ⟨slot, session.header, destination, true⟩ ?_ ?_ hc hmin hmax
      · exact Function.update_self ..
      · simp [hf]
    | @one i read hread =>
      have hsame : i = index := Subsingleton.elim (α := Fin 1) i index
      rw [hsame, hfree] at hread
      cases hread

-- Whether a read buffer can be classified: with a command that is known, the size that it states has
-- to be that of a message.
def Legible (buffer : List UInt8) : Prop :=
  ∀ message, Message.copied buffer = .ok message → message.parses → message.sizeRaw ≤ messageSizeMax

theorem command_of_fromWire {bytes : List UInt8}
    (h : SessionTable.Reply.fromWire bytes = some header) : header.command = .reply := by
  unfold SessionTable.Reply.fromWire at h
  split at h
  case isTrue => cases h
  case isFalse =>
    cases h
    rfl

variable {checksum : List UInt8 → BitVec 128}

theorem classify_returns {message : Message}
    {expected : SessionTable.Reply} (hc : expected.command = .reply) (valid : Bool) :
    ∃ outcome, (if (message.parses ∧
      SessionTable.Reply.getWord 16 message.frame 0 = checksum (message.frame.drop 16)) ∧ valid then
        match message.header with
        | none        => return ReadOutcome.corrupt
        | some header => do
          assert (header.command = expected.command) "header.command == expected.command"
          return if header.checksum ≠ expected.checksum then .unexpected else .found message
      else
        return .corrupt : Result ReadOutcome) = .ok outcome := by
  split
  case isTrue =>
    split
    case h_1 => exact ⟨_, rfl⟩
    case h_2 header hheader =>
      have hcommand : header.command = expected.command := (command_of_fromWire hheader).trans hc.symm
      rw [assert_of hcommand]
      exact ⟨_, rfl⟩
  case isFalse => exact ⟨_, rfl⟩

theorem classifyReadBuffer_iff {expected : SessionTable.Reply} (hc : expected.command = .reply)
    (hlen : buffer.length ≤ messageSizeMax) :
    (∃ outcome, classifyReadBuffer checksum buffer expected = .ok outcome) ↔ Legible buffer := by
  obtain ⟨message, hmessage⟩ : ∃ message, Message.copied buffer = .ok message := ⟨_, dif_pos hlen⟩
  have hlegible : Legible buffer ↔ (message.parses → message.sizeRaw ≤ messageSizeMax) := by
    constructor
    · exact fun h => h message hmessage
    · intro h message' hmessage'
      rw [hmessage] at hmessage'
      exact Except.ok.inj hmessage' ▸ h
  rw [hlegible]
  unfold classifyReadBuffer
  rw [hmessage, ok_bind]
  simp only
  split
  case isTrue hbody =>
    have hslice : message.sizeRaw ≤ messageSizeMax → message.sizeRaw =
        headerSize + (slice message.buffer headerSize (message.sizeRaw - headerSize)).length := by
      intro hle
      have hl := message.length_eq
      have hge := hbody.1
      simp only [slice, List.length_take, List.length_drop]
      omega
    constructor
    · rintro ⟨outcome, h⟩ _
      obtain ⟨_, hbodyUsed, _⟩ := bind_eq_ok.mp h
      unfold Message.bodyUsed at hbodyUsed
      obtain ⟨_, hrest⟩ := assert_ok hbodyUsed
      obtain ⟨hle, _⟩ := assert_ok hrest
      rwa [message.length_eq] at hle
    · intro hle
      have hmax := hle hbody.2
      have hbodyUsed : message.bodyUsed =
          .ok (slice message.buffer headerSize (message.sizeRaw - headerSize)) := by
        unfold Message.bodyUsed
        rw [assert_of hbody.1, assert_of (by rwa [message.length_eq])]
        rfl
      rw [hbodyUsed, ok_bind, assert_of (hslice hmax)]
      exact classify_returns hc _
  case isFalse hbody =>
    refine iff_of_true (classify_returns hc false) fun hparses => ?_
    by_contra hlt
    refine hbody ⟨?_, hparses⟩
    simp only [headerSize, messageSizeMax] at hlt ⊢
    omega

theorem Pending.completeRead (h : replies.Pending reads) (hl : replies.Live requests live)
    (hlen : ∃ request ∈ reads.head?, buffer.length = request.length) :
    ((∃ replies', replies.completeRead checksum buffer = .ok replies') ↔
      ∀ index ∈ replies.readsInFlight.head?, ∀ read ∈ replies.reads index,
        read.wanted → Legible buffer) ∧
    ∀ replies', replies.completeRead checksum buffer = .ok replies' →
      replies'.Live requests live ∧ replies'.Pending reads.tail ∧
      Emits False replies.events replies'.events := by
  cases h with
  | idle =>
    have ⟨_, hmem, _⟩ := hlen
    cases hmem
  | @one i read hread hf hc _ hmax =>
    have ⟨request, hmem, hlength⟩ := hlen
    obtain rfl : read.request = request := by simpa using hmem
    have hbuffer : buffer.length ≤ messageSizeMax := hlength ▸ sectorCeil_le hmax
    have hclassify := @classifyReadBuffer_iff buffer checksum read.header hc hbuffer
    have hnone : ∀ j, Function.update replies.reads i none j = none := fun j => by
      have hsame : j = i := Subsingleton.elim (α := Fin 1) j i
      simp [hsame]
    simp only [hf, List.head?_cons, Option.mem_def, Option.some.injEq, forall_eq', hread]
    unfold ClientReplies.completeRead
    simp only [hf, hread]
    split
    case isTrue hw =>
      refine ⟨?_, fun replies' hreplies' => ?_⟩
      · simp only [hw, true_imp_iff, ← hclassify]
        constructor
        · rintro ⟨_, h⟩
          have ⟨outcome, houtcome, _⟩ := bind_eq_ok.mp h
          exact ⟨outcome, houtcome⟩
        · rintro ⟨outcome, houtcome⟩
          rw [houtcome]
          exact ⟨_, rfl⟩
      · have ⟨_, _, hreturn⟩ := bind_eq_ok.mp hreplies'
        cases hreturn
        exact ⟨hl.congr rfl rfl rfl rfl, .idle hnone rfl, Emits.refl.concat nofun⟩
    case isFalse hw =>
      refine ⟨iff_of_true ⟨_, rfl⟩ fun hwanted => absurd hwanted hw, fun replies' hreplies' => ?_⟩
      cases hreplies'
      exact ⟨hl.congr rfl rfl rfl rfl, .idle hnone rfl, .refl⟩

theorem notify_eq : ∃ readyWaiting checkpointWaiting events,
    replies.notify = { replies with readyWaiting, checkpointWaiting, events } := by
  unfold notify
  by_cases hr : replies.readyWaiting ∧ replies.readySync
  · simp only [hr, and_self, if_true]
    split <;> exact ⟨_, _, _, rfl⟩
  · simp only [hr, if_false]
    split <;> exact ⟨_, _, _, rfl⟩

theorem Live.executing (h : replies.Live requests live) :
    replies.writesExecutingByTrigger trigger = live.countP (·.trigger = trigger) := by
  have hmap : replies.writesInFlight.filterMap replies.writes = live := by
    have hmap := congrArg (List.filterMap id) h.map_writes
    simpa [List.filterMap_map] using hmap
  rw [writesExecutingByTrigger, hmap]

theorem Live.checkpointed (h : replies.Live requests live) :
    Emits (∀ write ∈ live, write.trigger ≠ .commit) replies.events replies.notify.events := by
  have hzero : replies.writesExecutingByTrigger .commit = 0 →
      ∀ write ∈ live, write.trigger ≠ .commit := by
    rw [h.executing, List.countP_eq_zero]
    simp
  unfold notify
  by_cases hr : replies.readyWaiting ∧ replies.readySync
  · simp only [hr, and_self, if_true]
    split
    case isTrue hw => exact (Emits.refl.concat nofun).concat fun _ => hzero hw.2
    case isFalse => exact Emits.refl.concat nofun
  · simp only [hr, if_false]
    split
    case isTrue hw => exact Emits.refl.concat fun _ => hzero hw.2
    case isFalse => exact .refl

end ClientReplies

namespace System

variable {checksum : List UInt8 → BitVec 128} {zone : Nat → UInt8} {system system' : System}
  {action : Action}

-- What the callers check before they act, and what a completion is of.
def Admits (system : System) : Action → Prop
  | .writeReply slot message trigger =>
    system.replies.readySync ∧ message.WellFormed ∧
      (trigger = .commit → system.replies.checkpointWaiting = false) ∧
      (trigger = .repair → system.replies.faulty slot = true)
  | .readReply slot session _ =>
    system.replies.writeInFlightLatest slot session = .ok none ∧ session.header.command = .reply ∧
      headerSize ≤ session.header.size.toNat ∧ session.header.size.toNat ≤ messageSizeMax
  | .ready => system.replies.readyWaiting = false ∧ system.replies.readySync = false
  | .checkpoint => system.replies.checkpointWaiting = false
  | .completeRead buffer => ∃ request ∈ system.reads.head?, buffer.length = request.length
  | .completeWrite => system.writes ≠ []
  | .removeReply _ | .markFaulty _ | .notify | .takeEvents => True

-- What is read for a reply that is still wanted can be classified.
def Clean (system : System) : Action → Prop
  | .completeRead buffer => ∀ index ∈ system.replies.readsInFlight.head?,
    ∀ read ∈ system.replies.reads index, read.wanted → ClientReplies.Legible buffer
  | _ => True

-- The writes that the storage has not completed.
abbrev outstanding (system : System) : List WriteOp :=
  system.log.drop system.completed

structure Sound (zone : Nat → UInt8) (system : System) : Prop where
  live : system.replies.Live system.writes system.outstanding
  pending : system.replies.Pending system.reads
  completed : system.completed ≤ system.log.length
  wellFormed : ∀ write ∈ system.log, write.message.WellFormed
  zone : system.zone = written zone (system.log.take system.completed)

theorem Sound.new : Sound zone (new zone) where
  live := .idle (fun _ => rfl) rfl rfl (fun _ => rfl)
  pending := .idle (fun _ => rfl) rfl
  completed := Nat.le_refl 0
  wellFormed := nofun
  zone := rfl

theorem Sound.replies {replies : ClientReplies} (h : Sound zone system)
    (hl : replies.Live system.writes system.outstanding) (hp : replies.Pending system.reads) :
    Sound zone { system with replies } where
  live := hl
  pending := hp
  completed := h.completed
  wellFormed := h.wellFormed
  zone := h.zone

-- The events that are still to be taken after an action, without those that it adds.
def kept (system : System) : Action → List Event
  | .takeEvents => []
  | _ => system.replies.events

-- What a step leads to, if it is taken.
def Leads (zone : Nat → UInt8) (system : System) (action : Action) (system' : System) : Prop :=
  Sound zone system' ∧ ClientReplies.Emits
    (action = .notify ∧ ∀ write ∈ system.outstanding, write.trigger ≠ .commit)
    (system.kept action) system'.replies.events

section

variable (h : Sound zone system)

include h

theorem Sound.writeReply {slot : Slot} {message : Message} {trigger : WriteTrigger}
    (ha : system.Admits (.writeReply slot message trigger)) :
    ∃ system', system.run checksum (.writeReply slot message trigger) = .ok system' ∧
      Leads zone system (.writeReply slot message trigger) system' := by
  have ⟨hr, hm, hc, hf⟩ := ha
  have ⟨replies', issued, hrun, hlive, hpending, hquiet⟩ := h.live.writeReply h.pending hr hm hc hf
  refine ⟨{ system with
    replies := replies'
    writes := system.writes ++ issued
    log := system.log ++ [⟨slot, message, trigger⟩] }, ?_, ⟨?_, hpending, ?_, ?_, ?_⟩, hquiet.mono False.elim⟩
  · simp only [run, hrun]
    rfl
  · rwa [outstanding, List.drop_append_of_le_length h.completed]
  · exact Nat.le_trans h.completed (by simp)
  · intro write hw
    obtain hw | hw := List.mem_append.mp hw
    · exact h.wellFormed write hw
    · rw [List.mem_singleton.mp hw]
      exact hm
  · rw [List.take_append_of_le_length h.completed]
    exact h.zone

theorem Sound.readReply {slot : Slot} {session : SessionTable.Entry} {destination : Option Nat}
    (ha : system.Admits (.readReply slot session destination)) :
    ∃ system', system.run checksum (.readReply slot session destination) = .ok system' ∧
      Leads zone system (.readReply slot session destination) system' := by
  have ⟨hn, hc, hmin, hmax⟩ := ha
  obtain hrun | ⟨replies', request, hrun, hlive, hpending, hevents⟩ :=
    @ClientReplies.Pending.readReply _ _ _ _ _ _ destination h.pending h.live hn hc hmin hmax
  · refine ⟨system, ?_, h, .refl⟩
    simp only [run, hrun]
    rfl
  · refine ⟨{ system with replies := replies', reads := system.reads ++ [request] }, ?_,
      ⟨hlive, hpending, h.completed, h.wellFormed, h.zone⟩, hevents ▸ .refl⟩
    simp only [run, hrun]
    rfl

theorem Sound.completeWrite (ha : system.Admits .completeWrite) :
    ∃ system', system.run checksum .completeWrite = .ok system' ∧
      Leads zone system .completeWrite system' := by
  have hmem : ∀ write ∈ system.outstanding, write.message.WellFormed :=
    fun write hw => h.wellFormed write (List.mem_of_mem_drop hw)
  have ⟨replies', issued, write, rest, hrun, hlog, hlive, hpending, hevents⟩ :=
    h.live.completeWrite h.pending hmem ha
  have hhead : system.writes.head? = some write.request := by
    rw [h.live.head, hlog]
    rfl
  have hlt : system.completed < system.log.length := by
    by_contra hge
    rw [outstanding, List.drop_of_length_le (Nat.not_lt.mp hge)] at hlog
    cases hlog
  have hget : system.log[system.completed] = write ∧
      system.log.drop (system.completed + 1) = rest := by
    rw [outstanding, List.drop_eq_getElem_cons hlt] at hlog
    exact List.cons.inj hlog
  refine ⟨{ system with
    replies := replies'
    writes := system.writes.tail ++ issued
    zone := write.request.apply system.zone
    completed := system.completed + 1 }, ?_, ⟨?_, hpending, hlt, h.wellFormed, ?_⟩,
    hevents ▸ .refl⟩
  · simp only [run, hrun, hhead]
    rfl
  · rw [outstanding, hget.2]
    exact hlive
  · rw [List.take_succ_eq_append_getElem hlt, written_concat, hget.1, h.zone]

theorem Sound.completeRead (ha : system.Admits (.completeRead buffer)) :
    ((∃ system', system.run checksum (.completeRead buffer) = .ok system') ↔
      system.Clean (.completeRead buffer)) ∧
    ∀ system', system.run checksum (.completeRead buffer) = .ok system' →
      Leads zone system (.completeRead buffer) system' := by
  have ⟨hok, hnext⟩ := @ClientReplies.Pending.completeRead buffer _ _ _ _ checksum h.pending h.live ha
  refine ⟨Iff.trans ?_ hok, fun system' hrun => ?_⟩
  · constructor
    · rintro ⟨_, hrun⟩
      have ⟨replies', hreplies', _⟩ := bind_eq_ok.mp hrun
      exact ⟨replies', hreplies'⟩
    · rintro ⟨replies', hreplies'⟩
      simp only [run, hreplies']
      exact ⟨_, rfl⟩
  · have ⟨replies', hreplies', hreturn⟩ := bind_eq_ok.mp hrun
    have ⟨hlive, hpending, hquiet⟩ := hnext replies' hreplies'
    cases hreturn
    exact ⟨⟨hlive, hpending, h.completed, h.wellFormed, h.zone⟩, hquiet.mono False.elim⟩

-- An action is taken if and only if it is clean, and leads to a sound state.
theorem Sound.run (ha : system.Admits action) :
    ((∃ system', system.run checksum action = .ok system') ↔ system.Clean action) ∧
    ∀ system', system.run checksum action = .ok system' → Leads zone system action system' := by
  have hdone : ∀ system'', system.run checksum action = .ok system'' → Leads zone system action system'' →
      system.Clean action →
      ((∃ system', system.run checksum action = .ok system') ↔ system.Clean action) ∧
      ∀ system', system.run checksum action = .ok system' → Leads zone system action system' := by
    intro system'' hrun hleads hclean
    refine ⟨iff_of_true ⟨system'', hrun⟩ hclean, fun system' hrun' => ?_⟩
    rw [hrun] at hrun'
    cases hrun'
    exact hleads
  cases action with
  | writeReply =>
    have ⟨_, hrun, hleads⟩ := @Sound.writeReply checksum zone system h _ _ _ ha
    exact hdone _ hrun hleads trivial
  | readReply =>
    have ⟨_, hrun, hleads⟩ := @Sound.readReply checksum zone system h _ _ _ ha
    exact hdone _ hrun hleads trivial
  | completeWrite =>
    have ⟨_, hrun, hleads⟩ := @Sound.completeWrite checksum zone system h ha
    exact hdone _ hrun hleads trivial
  | completeRead => exact h.completeRead ha
  | removeReply slot =>
    exact hdone _ rfl ⟨h.replies (h.live.congr rfl rfl rfl rfl) (h.pending.congr rfl rfl), .refl⟩ trivial
  | markFaulty slot =>
    exact hdone _ rfl ⟨h.replies (h.live.congr rfl rfl rfl rfl) (h.pending.congr rfl rfl), .refl⟩ trivial
  | takeEvents =>
    exact hdone _ rfl ⟨h.replies (h.live.congr rfl rfl rfl rfl) (h.pending.congr rfl rfl), .refl⟩ trivial
  | ready =>
    have hrun : system.replies.ready = .ok { system.replies with readyWaiting := true } := by
      unfold ClientReplies.ready
      rw [assert_of (by simp [ha.1]), ok_bind, assert_of (by simp [ha.2])]
      rfl
    refine hdone { system with replies := { system.replies with readyWaiting := true } } ?_
      ⟨h.replies (h.live.congr rfl rfl rfl rfl) (h.pending.congr rfl rfl), .refl⟩ trivial
    simp only [System.run, hrun]
    rfl
  | checkpoint =>
    have hrun : system.replies.checkpoint = .ok { system.replies with checkpointWaiting := true } := by
      unfold ClientReplies.checkpoint
      rw [assert_of (by simp [show system.replies.checkpointWaiting = false from ha])]
      rfl
    refine hdone { system with replies := { system.replies with checkpointWaiting := true } } ?_
      ⟨h.replies (h.live.congr rfl rfl rfl rfl) (h.pending.congr rfl rfl), .refl⟩ trivial
    simp only [System.run, hrun]
    rfl
  | notify =>
    have ⟨_, _, _, hnotify⟩ := @ClientReplies.notify_eq system.replies
    have hlive : system.replies.notify.Live system.writes system.outstanding := by
      rw [hnotify]
      exact h.live.congr rfl rfl rfl rfl
    have hpending : system.replies.notify.Pending system.reads := by
      rw [hnotify]
      exact h.pending.congr rfl rfl
    exact hdone _ rfl ⟨h.replies hlive hpending, h.live.checkpointed.mono fun hn => ⟨rfl, hn⟩⟩ trivial

end

-- The states that are reached by actions whose reads can be classified.
inductive Reachable (checksum : List UInt8 → BitVec 128) (zone : Nat → UInt8) : System → Prop
  | new : Reachable checksum zone (System.new zone)
  | step {system system' : System} {action : Action} :
      Reachable checksum zone system → system.Admits action → system.Clean action →
      system.run checksum action = .ok system' → Reachable checksum zone system'

theorem Reachable.sound (h : Reachable checksum zone system) : Sound zone system := by
  induction h with
  | new => exact .new
  | step _ ha _ hrun ih => exact ((ih.run ha).2 _ hrun).1

-- The writes are tracked in the order of their requests, and their replies end up in the zone.
theorem Reachable.attributes (h : Reachable checksum zone system) :
    system.replies.writesInFlight.map system.replies.writes = system.outstanding.map some ∧
    system.replies.writesInFlight.Nodup ∧
    (∀ i, (system.replies.writes i).isSome → i ∈ system.replies.writesInFlight) ∧
    (system.replies.readySync ↔ system.outstanding.length < clientRepliesIopsWriteMax) ∧
    system.writes.head? = system.outstanding.head?.map WriteOp.request ∧
    (system.outstanding = [] → ∀ slot write,
      (system.log.filter (·.slot = slot)).getLast? = some write → ∀ i < write.message.sizeRaw,
        system.zone (slotOffset slot + i) = write.message.buffer.getD i 0) ∧
    (∀ action system', system.Admits action → system.run checksum action = .ok system' →
      ∃ emitted, system'.replies.events = system.kept action ++ emitted ∧
        (.checkpointDone ∈ emitted →
          action = .notify ∧ ∀ write ∈ system.outstanding, write.trigger ≠ .commit)) ∧
    ∀ action, system.Admits action →
      ((∃ system', system.run checksum action = .ok system') ↔ system.Clean action) := by
  have hs := h.sound
  refine ⟨hs.live.map_writes, hs.live.nodup, fun i hi => hs.live.mem hi, ?_, hs.live.head, ?_,
    fun action system' ha hrun => ((hs.run ha).2 system' hrun).2, fun action ha => (hs.run ha).1⟩
  · have hlen := congrArg List.length hs.live.map_writes
    rw [List.length_map, List.length_map] at hlen
    rw [ClientReplies.readySync, decide_eq_true_iff, hlen]
  · intro hnil slot write hlast i hi
    have hall : system.log.take system.completed = system.log :=
      List.take_of_length_le (List.drop_eq_nil_iff.mp hnil)
    have hzone := hs.zone
    rw [hall] at hzone
    have hle := @le_sectorCeil write.message.sizeRaw
    rw [hzone, written_last hs.wellFormed hlast (by omega)]
    have hmem : write ∈ system.log := (List.mem_filter.mp (List.mem_of_getLast? hlast)).1
    exact WriteOp.getD_request (hs.wellFormed write hmem) hi

section Single

open SessionTable.ClientSessions (firstSlot)

-- A reply with a result, in the buffer of its message.
def reply : SessionTable.Reply :=
  { SessionTable.Reply.zeroed with command := .reply, size := 384 }

def replyMessage : Message where
  buffer := (reply.toWire ++ List.replicate 128 1) ++ List.replicate (messageSizeMax - 384) 0
  length_eq := by
    rw [List.length_append, List.length_append, SessionTable.Reply.length_toWire,
      List.length_replicate, List.length_replicate]
    rfl

theorem sizeRaw_replyMessage : replyMessage.sizeRaw = 384 := by
  have hflat : replyMessage.buffer =
      (reply.fields ++ [List.replicate 128 1, List.replicate (messageSizeMax - 384) 0]).flatten := by
    rw [List.flatten_append, List.flatten_cons, List.flatten_singleton, ← List.append_assoc]
    rfl
  rw [Message.sizeRaw, hflat,
    show slice _ 96 4 = _ from @slice_flatten _ _ 6 (toBytes 4 384) rfl]
  rfl

theorem wellFormed_replyMessage : replyMessage.WellFormed where
  header := by
    have hframe : replyMessage.frame = reply.toWire := by
      rw [Message.frame, show replyMessage.buffer = _ from List.append_assoc ..]
      exact List.take_left' SessionTable.Reply.length_toWire
    exact ⟨reply, by rw [Message.header, hframe, SessionTable.Reply.fromWire_toWire rfl], by decide⟩
  body := by rw [sizeRaw_replyMessage]; decide
  fits := by rw [sizeRaw_replyMessage]; decide
  padding := by
    intro byte hb
    have hzeros : replyMessage.buffer.drop 384 = List.replicate (messageSizeMax - 384) 0 :=
      List.drop_left' (by rw [List.length_append, SessionTable.Reply.length_toWire,
        List.length_replicate]; rfl)
    rw [sizeRaw_replyMessage, slice, hzeros] at hb
    exact List.eq_of_mem_replicate (List.mem_of_mem_take hb)

-- The checksum of everything is zero.
def unchecked : List UInt8 → BitVec 128 :=
  fun _ => 0

def unwritten : Nat → UInt8 :=
  fun _ => 0

theorem Reachable.attributes_replyMessage : ∃ written notified completed : System,
    (System.new unwritten).run unchecked (.writeReply firstSlot replyMessage .commit) = .ok written ∧
    written.run unchecked .notify = .ok notified ∧
    .checkpointDone ∉ notified.replies.events ∧
    written.run unchecked .completeWrite = .ok completed ∧
    ∀ i < 384, completed.zone (slotOffset firstSlot + i) = replyMessage.buffer.getD i 0 := by
  have ha : (System.new unwritten).Admits (.writeReply firstSlot replyMessage .commit) :=
    ⟨rfl, wellFormed_replyMessage, fun _ => rfl, nofun⟩
  have h := @Reachable.new unchecked unwritten
  have ⟨written, hwrite⟩ := (h.attributes.2.2.2.2.2.2.2 _ ha).mpr trivial
  have hw := h.step ha trivial hwrite
  have ⟨events, hevents, hquiet⟩ := h.attributes.2.2.2.2.2.2.1 _ _ ha hwrite
  obtain ⟨⟨replies, issued⟩, _, hreturn⟩ := bind_eq_ok.mp hwrite
  cases hreturn
  have hevents : replies.events = events := hevents
  have hc : Admits _ .completeWrite := fun hnil => by
    have hhead := hw.attributes.2.2.2.2.1
    rw [hnil] at hhead
    cases hhead
  have ⟨completed, hcomplete⟩ := (hw.attributes.2.2.2.2.2.2.2 _ hc).mpr trivial
  have ⟨_, hevents', hquiet'⟩ := hw.attributes.2.2.2.2.2.2.1 .notify _ trivial rfl
  refine ⟨_, _, _, hwrite, rfl, fun hdone => ?_, hcomplete, fun i hi => ?_⟩
  · rw [hevents'] at hdone
    obtain hdone | hdone := List.mem_append.mp hdone
    · cases (hquiet (hevents ▸ hdone)).1
    · exact (hquiet' hdone).2 _ (List.mem_singleton.mpr rfl) rfl
  · have hd := hw.step hc trivial hcomplete
    obtain ⟨_, _, hreturn⟩ := bind_eq_ok.mp hcomplete
    cases hreturn
    exact hd.attributes.2.2.2.2.2.1 rfl firstSlot ⟨firstSlot, replyMessage, .commit⟩ rfl
      i (by rw [sizeRaw_replyMessage]; exact hi)

-- A client's first reply, which has an empty body.
def emptyReply : SessionTable.Entry where
  session := 1
  header := { SessionTable.Reply.zeroed with command := .reply, size := BitVec.ofNat 32 headerSize }

-- What is read has a command that is known, but a size that is more than that of any message.
def oversized : List (List UInt8) :=
  [List.replicate 96 0, List.replicate 4 255, List.replicate 14 0, [Command.reply.code],
    List.replicate 3981 0]

theorem length_oversized : oversized.flatten.length = 4096 := by
  simp only [oversized, List.length_flatten, List.map_cons, List.map_nil, List.length_replicate,
    List.length_cons, List.length_nil, List.sum_cons, List.sum_nil, Nat.reduceAdd]

theorem not_legible_oversized : ¬ClientReplies.Legible oversized.flatten := by
  intro hlegible
  have hle : oversized.flatten.length ≤ messageSizeMax := by
    rw [length_oversized]
    decide
  obtain ⟨message, hmessage, hbuffer⟩ : ∃ message, Message.copied oversized.flatten = .ok message ∧
      message.buffer = (oversized ++ [List.replicate (messageSizeMax - 4096) 0]).flatten := by
    refine ⟨_, dif_pos hle, ?_⟩
    simp only [length_oversized, List.flatten_append, List.flatten_singleton]
  have hparses : message.parses := by
    have hcommand := @slice_flatten _ (oversized ++ [List.replicate (messageSizeMax - 4096) 0]) 3
      [Command.reply.code] rfl
    rw [← hbuffer] at hcommand
    rw [Message.parses, show slice message.buffer 114 1 = _ from hcommand]
    decide
  have hsize : message.sizeRaw = ofBytes (List.replicate 4 255) := by
    have hsize := @slice_flatten _ (oversized ++ [List.replicate (messageSizeMax - 4096) 0]) 1
      (List.replicate 4 255) rfl
    rw [← hbuffer] at hsize
    rw [Message.sizeRaw, show slice message.buffer 96 4 = _ from hsize]
  have hmax := hlegible message hmessage hparses
  rw [hsize] at hmax
  exact absurd hmax (by decide)

-- The first reply is read, from where `oversized` is found.
def reading (zone : Nat → UInt8) : System where
  replies := { ClientReplies.new with
    reads := Function.update (fun _ => none) ⟨0, by decide⟩
      (some ⟨firstSlot, emptyReply.header, none, true⟩)
    readsInFlight := [⟨0, by decide⟩] }
  reads := [⟨0, 4096⟩]
  writes := []
  zone := zone
  log := []
  completed := 0

theorem completeRead_oversized : ∃ checksum zone system, Reachable checksum zone system ∧
    system.Admits (.completeRead oversized.flatten) ∧
    ∀ system', system.run checksum (.completeRead oversized.flatten) ≠ .ok system' := by
  have hr : Reachable (fun _ => 0) (fun _ => 0) (reading fun _ => 0) :=
    @Reachable.step _ _ _ _ (.readReply firstSlot emptyReply none) .new
      ⟨rfl, rfl, by decide, by decide⟩ trivial rfl
  have ha : (reading fun _ => 0).Admits (.completeRead oversized.flatten) :=
    ⟨⟨0, 4096⟩, rfl, length_oversized⟩
  refine ⟨_, _, _, hr, ha, fun system' hrun => ?_⟩
  have hclean := (hr.sound.run ha).1.mp ⟨system', hrun⟩
  exact not_legible_oversized (hclean ⟨0, by decide⟩ rfl _ rfl rfl)

end Single

end System

end TigerBeetle.ReplyStore
