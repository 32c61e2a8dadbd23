import TigerBeetle.Superblock.SuperBlock

namespace TigerBeetle.Superblock

open Fallible

-- What an update writes: the state and the view headers that its context holds.
structure Update where
  caller : Caller
  state : VsrState
  headers : ViewChangeHeadersArray

def Update.context (update : Update) : Context where
  caller := update.caller
  copy := none
  readThreshold := none
  vsrState := some update.state
  viewHeaders := some update.headers
  repairs := none

def SuperBlockHeader.copies (header : SuperBlockHeader) : List SuperBlockHeader :=
  (List.range superblockCopies).map fun copy => { header with copy }

-- The header before its checksum is set.
def Update.successor (update : Update) (working : SuperBlockHeader) : SuperBlockHeader :=
  { working with
    sequence := working.sequence + 1
    parent := working.checksum
    vsrState := update.state
    viewHeaders := update.headers.array }

variable [Checksums]

-- The header that an update writes over the working one.
def Update.staged (update : Update) (working : SuperBlockHeader) : SuperBlockHeader :=
  let staged := update.successor working
  { staged with checksum := staged.calculateChecksum }

-- A state that may follow another one, and that fits the data file.
structure Update.Follows (limit : Nat) (old : VsrState) (update : Update) : Prop where
  caller : update.caller = .checkpoint ∨ update.caller = .viewChange
  monotonic : old.monotonic update.state = .ok true
  storageSize : update.state.checkpoint.storageSize ≤ limit

-- A header as the superblock installs it.
structure SuperBlockHeader.Sound (header : SuperBlockHeader) : Prop where
  copy : header.copy = 0
  version : header.version = superblockVersion
  releaseFormat : 0 < header.releaseFormat
  flags : header.flags = 0
  checksumPadding : header.checksumPadding = 0
  parentPadding : header.parentPadding = 0
  checksum : header.checksum = header.calculateChecksum

variable {old new : VsrState} {working header : SuperBlockHeader} {update : Update} {limit copy : Nat}

namespace VsrState

theorem consistent_of_monotonic (h : old.monotonic new = .ok true) :
    new.assertInternallyConsistent = .ok () := by
  unfold monotonic at h
  obtain ⟨_, _, h⟩ := bind_eq_ok.mp h
  obtain ⟨_, hc, h⟩ := bind_eq_ok.mp h
  exact hc

theorem replicaId_of_monotonic (h : old.monotonic new = .ok true) :
    old.replicaId = new.replicaId := by
  unfold monotonic at h
  obtain ⟨_, _, h⟩ := bind_eq_ok.mp h
  obtain ⟨_, _, h⟩ := bind_eq_ok.mp h
  obtain ⟨_, _, h⟩ := bind_eq_ok.mp h
  exact (assert_ok h).1

theorem monotonic_of_updated {updated : Bool} (h : old.wouldBeUpdatedBy new = .ok updated) :
    old.monotonic new = .ok true := by
  unfold wouldBeUpdatedBy at h
  obtain ⟨monotonic, hmonotonic, h⟩ := bind_eq_ok.mp h
  obtain ⟨rfl, _⟩ := assert_ok h
  exact hmonotonic

theorem le_storageSize (h : new.assertInternallyConsistent = .ok ()) :
    dataFileSizeMin ≤ new.checkpoint.storageSize := by
  unfold assertInternallyConsistent at h
  iterate 5 obtain ⟨_, h⟩ := assert_ok h
  obtain ⟨_, _, h⟩ := bind_eq_ok.mp h
  iterate 9 obtain ⟨_, h⟩ := assert_ok h
  exact (assert_ok h).1

end VsrState

namespace SuperBlockHeader

theorem Sound.staged (h : working.Sound) : (update.staged working).Sound where
  copy := h.copy
  version := h.version
  releaseFormat := h.releaseFormat
  flags := h.flags
  checksumPadding := h.checksumPadding
  parentPadding := h.parentPadding
  checksum := rfl

theorem Sound.valid (h : header.Sound) : { header with copy }.validChecksum :=
  decide_eq_true ⟨h.checksum, h.checksumPadding⟩

theorem Sound.equal (h : header.Sound) {copy' : Nat} :
    { header with copy }.equal { header with copy := copy' } = .ok true := by
  simp [SuperBlockHeader.equal, assert, assertOn, h.checksumPadding, h.parentPadding]

end SuperBlockHeader

namespace SuperBlock

variable {s : SuperBlock} {op : Context} {tail : Option Update}

-- No operation is active, and all copies are those of the working header.
def resting (s : SuperBlock) (working : SuperBlockHeader) : SuperBlock :=
  { s with
    working
    staging := working
    opened := true
    queueHead := none
    queueTail := none
    storage := { copies := working.copies, requests := [] } }

-- The given copy of the staged header is being written.
def writing (s : SuperBlock) (working : SuperBlockHeader) (update : Update) (tail : Option Update)
    (copy : Nat) : SuperBlock :=
  let staged := update.staged working
  { s with
    working
    staging := { staged with copy }
    opened := true
    queueHead := some { update.context with copy := some copy }
    queueTail := tail.map Update.context
    storage := {
      copies := staged.copies.take copy ++ working.copies.drop copy
      requests := [.write copy { staged with copy }]
    } }

-- The given copy of the staged header is being read, after all of them were written.
def verifying (s : SuperBlock) (working : SuperBlockHeader) (update : Update) (tail : Option Update)
    (copy : Nat) : SuperBlock :=
  let staged := update.staged working
  { s with
    working
    staging := { staged with copy := superblockCopies - 1 }
    reading := staged.copies.take copy ++ List.replicate (superblockCopies - copy) headerZeroed
    opened := true
    queueHead := some { update.context with copy := some copy, readThreshold := some .verify }
    queueTail := tail.map Update.context
    storage := { copies := staged.copies, requests := [.read copy] } }

theorem writeHeader_ok (hop : s.queueHead = some op) (hcopy : op.copy = some copy)
    (hlt : copy < superblockCopies) (hcaller : op.caller ≠ .open)
    (hsequence : s.staging.sequence = s.working.sequence + 1)
    (hparent : s.staging.parent = s.working.checksum)
    (hcluster : s.staging.cluster = s.working.cluster)
    (hreplica : s.staging.vsrState.replicaId = s.working.vsrState.replicaId)
    (hmin : dataFileSizeMin ≤ s.staging.vsrState.checkpoint.storageSize)
    (hmax : s.staging.vsrState.checkpoint.storageSize ≤ storageSizeLimitMax)
    (hvalid : { s.staging with copy }.validChecksum) :
    s.writeHeader = .ok ({ s with staging := { s.staging with copy } }.submit
      (.write copy { s.staging with copy })) := by
  unfold writeHeader
  rw [hop]
  simp only [hcopy]
  rw [if_neg hcaller, assert_of hsequence, ok_bind, assert_of hparent, ok_bind, assert_of hcluster,
    ok_bind, assert_of hreplica, ok_bind, assert_of hmin, ok_bind, assert_of hmax, ok_bind,
    assert_of hlt, ok_bind, assert_of hvalid]
  rfl

-- The event that an update emits when it is released.
def event (update : Update) : Event :=
  if update.caller = .checkpoint then .checkpointDone else .viewChangeDone

-- What is left once an update is verified: the update that was queued behind it is started.
def verified (s : SuperBlock) (working : SuperBlockHeader) (update : Update) (tail : Option Update) :
    SuperBlock :=
  let staged := update.staged working
  let s := { s with reading := staged.copies, events := s.events ++ [event update] }
  match tail with
  | none      => resting s staged
  | some tail => writing s staged tail none 0

theorem setChecksum_ok {header : SuperBlockHeader} (hcopy : header.copy = 0)
    (hversion : header.version = superblockVersion) (hrelease : 0 < header.releaseFormat)
    (hflags : header.flags = 0) (hchecksum : header.checksumPadding = 0)
    (hparent : header.parentPadding = 0) :
    header.setChecksum = .ok { header with checksum := header.calculateChecksum } := by
  unfold SuperBlockHeader.setChecksum
  rw [assert_of (by rw [hcopy]; decide), ok_bind, assert_of hcopy, ok_bind, assert_of hversion,
    ok_bind, assert_of hrelease, ok_bind, assert_of hflags, ok_bind, assert_of hchecksum, ok_bind,
    assert_of hparent]
  rfl

theorem writeStaging_ok {state : VsrState} {headers : ViewChangeHeadersArray}
    (hop : s.queueHead = some op) (hcaller : op.caller ≠ .open)
    (hopened : op.caller ≠ .format → s.opened) (htail : s.queueTail = none)
    (hcopy : op.copy = none) (hstate : op.vsrState = some state)
    (hconsistent : state.assertInternallyConsistent = .ok ())
    (hheaders : op.viewHeaders = some headers) (h : s.working.Sound) :
    s.writeStaging =
      ({ s with staging := (Update.mk op.caller state headers).staged s.working }.setCopy
        (some 0)).writeHeader := by
  have hnone : s.queueTail.isNone := by
    rw [htail]
    rfl
  have hstart : op.copy.isNone := by
    rw [hcopy]
    rfl
  have hchecksum : ((Update.mk op.caller state headers).successor s.working).setChecksum =
      .ok ((Update.mk op.caller state headers).staged s.working) :=
    setChecksum_ok h.copy h.version h.releaseFormat h.flags h.checksumPadding h.parentPadding
  unfold Update.successor at hchecksum
  unfold writeStaging
  rw [hop]
  simp only [hstate, hheaders]
  rw [assert_of hcaller, ok_bind]
  split
  · rename_i hformat
    rw [assert_of (hopened hformat), ok_bind, assert_of hnone, ok_bind, assert_of hstart, ok_bind,
      hconsistent, ok_bind, hchecksum, ok_bind]
  · rw [assert_of hnone, ok_bind, assert_of hstart, ok_bind, hconsistent, ok_bind, hchecksum, ok_bind]

theorem acquire_resting (h : working.Sound) (hf : update.Follows limit working.vsrState)
    (hmax : limit ≤ storageSizeLimitMax) :
    (resting s working).acquire update.context = .ok (writing s working update none 0) := by
  have hcaller : update.caller ≠ .open := by
    obtain hc | hc := hf.caller <;> simp [hc]
  have hconsistent := VsrState.consistent_of_monotonic hf.monotonic
  have hstaging : SuperBlock.writeStaging { resting s working with
      queueHead := some update.context } = .ok (writing s working update none 0) := by
    refine (writeStaging_ok rfl hcaller (fun _ => rfl) rfl rfl rfl hconsistent rfl h).trans ?_
    exact writeHeader_ok rfl rfl (by decide) hcaller rfl rfl rfl
      (VsrState.replicaId_of_monotonic hf.monotonic).symm (VsrState.le_storageSize hconsistent)
      (hf.storageSize.trans hmax) h.staged.valid
  unfold acquire
  obtain hc | hc := hf.caller
  all_goals
    simp only [resting, Update.context, hc] at hstaging ⊢
    exact hstaging

omit [Checksums] in
theorem set_copies {staged : SuperBlockHeader} (hlt : copy < superblockCopies) :
    (staged.copies.take copy ++ working.copies.drop copy).set copy { staged with copy } =
      staged.copies.take (copy + 1) ++ working.copies.drop (copy + 1) := by
  unfold superblockCopies at hlt
  interval_cases copy <;> rfl

theorem pollWrite_ok (hop : s.queueHead = some op) (hcopy : op.copy = some copy)
    (hcaller : op.caller ≠ .open) :
    s.pollWrite copy = if copy + 1 = superblockCopies then
      (s.setCopy none).readWorking .verify
    else
      (s.setCopy (some (copy + 1))).writeHeader := by
  unfold pollWrite
  rw [hop]
  simp only
  rw [assert_of hcopy, ok_bind, if_neg hcaller]

variable [Env]

theorem poll_writing_eq (hcaller : update.caller ≠ .open) (hlt : copy < superblockCopies) :
    (writing s working update tail copy).poll =
      let written := { writing s working update tail copy with
        storage := {
          copies := (update.staged working).copies.take (copy + 1) ++ working.copies.drop (copy + 1)
          requests := [] } }
      if copy + 1 = superblockCopies then
        (written.setCopy none).readWorking .verify
      else
        (written.setCopy (some (copy + 1))).writeHeader := by
  rw [← set_copies hlt]
  exact @pollWrite_ok _ copy { writing s working update tail copy with
    storage := {
      copies := ((update.staged working).copies.take copy ++ working.copies.drop copy).set copy
        { update.staged working with copy }
      requests := [] } } { update.context with copy := some copy } rfl rfl hcaller

theorem poll_writing (h : working.Sound) (hf : update.Follows limit working.vsrState)
    (hmax : limit ≤ storageSizeLimitMax) (hlt : copy + 1 < superblockCopies) :
    (writing s working update tail copy).poll = .ok (writing s working update tail (copy + 1)) := by
  have hcaller : update.caller ≠ .open := by
    obtain hc | hc := hf.caller <;> simp [hc]
  have hconsistent := VsrState.consistent_of_monotonic hf.monotonic
  have hwrite := writeHeader_ok (s := { writing s working update tail copy with
      queueHead := some { update.context with copy := some (copy + 1) }
      storage := {
        copies := (update.staged working).copies.take (copy + 1) ++ working.copies.drop (copy + 1)
        requests := [] } }) rfl rfl hlt hcaller rfl rfl rfl
    (VsrState.replicaId_of_monotonic hf.monotonic).symm (VsrState.le_storageSize hconsistent)
    (hf.storageSize.trans hmax) h.staged.valid
  rw [poll_writing_eq hcaller (Nat.lt_of_succ_lt hlt), if_neg (by omega)]
  exact hwrite

theorem poll_written (hf : update.Follows limit working.vsrState)
    (hlast : copy + 1 = superblockCopies) :
    (writing s working update tail copy).poll = .ok (verifying s working update tail 0) := by
  have hcaller : update.caller ≠ .open := by
    obtain hc | hc := hf.caller <;> simp [hc]
  rw [poll_writing_eq hcaller (by omega), if_pos hlast]
  obtain rfl : copy = superblockCopies - 1 := by omega
  rfl

theorem poll_verifying (hlt : copy + 1 < superblockCopies) :
    (verifying s working update tail copy).poll = .ok (verifying s working update tail (copy + 1)) := by
  unfold superblockCopies at hlt
  have hlt : copy < 3 := by omega
  interval_cases copy <;> rfl

omit [Env] in
theorem working_copies (h : header.Sound) :
    SuperBlockQuorums.working header.copies .verify = .ok (.ok {
      header := { header with copy := 0 }
      valid := true
      copies := {3, 2, 1, 0}
      slots := [some 0, some 1, some 2, some 3] }) := by
  have hcopies : header.copies = [{ header with copy := 0 }, { header with copy := 1 },
    { header with copy := 2 }, { header with copy := 3 }] := rfl
  have hvalid : ∀ copy, { header with copy }.validChecksum := fun _ => h.valid
  have hequal : ∀ copy, { header with copy := 0 }.equal { header with copy } = .ok true :=
    fun _ => h.equal
  unfold SuperBlockQuorums.working
  rw [hcopies]
  simp only [SuperBlockQuorums.countCopies, SuperBlockQuorums.countCopy, hvalid,
    SuperBlockQuorums.findOrInsertQuorumForCopy]
  simp [hequal, hvalid, assert, assertOn, superblockCopies, Threshold.count,
    SuperBlockQuorums.verifySorted, SuperBlockQuorums.connected]

theorem readWorkingDone_ok {quorum : Quorum} (hop : s.queueHead = some op)
    (hcaller : op.caller = .checkpoint ∨ op.caller = .viewChange)
    (hworking : SuperBlockQuorums.working s.reading .verify = .ok (.ok quorum))
    (hvalid : quorum.valid) (hcount : 3 ≤ quorum.copies.card)
    (hversion : quorum.header.version = superblockVersion)
    (hchecksum : quorum.header.checksum = s.staging.checksum)
    (hequal : quorum.header.equal s.staging = .ok true)
    (hsize : quorum.header.vsrState.checkpoint.storageSize ≤ s.storageSizeLimit) :
    s.readWorkingDone .verify = SuperBlock.release { s with
      working := { quorum.header with copy := 0 }, staging := { quorum.header with copy := 0 } } := by
  have hformat : op.caller ≠ .format := by
    obtain hc | hc := hcaller <;> simp [hc]
  have hopen : op.caller ≠ .open := by
    obtain hc | hc := hcaller <;> simp [hc]
  have hcount : Threshold.verify.count ≤ quorum.copies.card := hcount
  unfold readWorkingDone
  rw [hop]
  simp only
  rw [hworking, ok_bind]
  simp only
  rw [assert_of hvalid, ok_bind, assert_of hcount, ok_bind, assert_of hversion, ok_bind, if_pos trivial,
    assert_of hchecksum, ok_bind, hequal, ok_bind, assert_of rfl, ok_bind, if_neg hformat,
    assert_of hsize, ok_bind, if_neg hopen]

omit [Env] in
theorem release_ok (h : working.Sound) (hcaller : update.caller = .checkpoint ∨ update.caller = .viewChange)
    (htail : ∀ t ∈ tail, t.Follows limit update.state) (hmax : limit ≤ storageSizeLimitMax)
    (hstate : working.vsrState = update.state) :
    SuperBlock.release { resting s working with
      queueHead := some update.context, queueTail := tail.map Update.context } =
        .ok (match tail with
          | none      => (resting s working).emit (event update)
          | some tail => (writing s working tail none 0).emit (event update)) := by
  unfold release
  cases tail with
  | none =>
    obtain hc | hc := hcaller
    all_goals
      simp only [resting, Update.context, hc, hstate, event]
      rw [assert_of trivial, ok_bind, assert_of trivial]
      rfl
  | some tail =>
    have hacquire := acquire_resting (s := s) h (hstate ▸ htail tail rfl) hmax
    obtain hc | hc := hcaller
    all_goals
      simp only [resting, Update.context, hc, hstate, event, Option.map_some] at hacquire ⊢
      rw [assert_of trivial, ok_bind, assert_of trivial, ok_bind, pure_bind, hacquire]
      rfl

theorem poll_verified (h : working.Sound) (hf : update.Follows limit working.vsrState)
    (htail : ∀ t ∈ tail, t.Follows limit update.state) (hmax : limit ≤ storageSizeLimitMax)
    (hlimit : limit ≤ s.storageSizeLimit) (hlast : copy + 1 = superblockCopies) :
    (verifying s working update tail copy).poll = .ok (verified s working update tail) := by
  obtain rfl : copy = superblockCopies - 1 := by omega
  have hsound : (update.staged working).Sound := h.staged
  have hcopy : { update.staged working with copy := 0 } = update.staged working := by
    rw [← hsound.copy]
  have hdone := readWorkingDone_ok (s := { s with
      working
      staging := { update.staged working with copy := superblockCopies - 1 }
      reading := (update.staged working).copies
      opened := true
      queueHead := some update.context
      queueTail := tail.map Update.context
      storage := { copies := (update.staged working).copies, requests := [] } })
    rfl hf.caller (working_copies hsound) rfl
    (show 3 ≤ ({3, 2, 1, 0} : Finset Nat).card by decide) hsound.version rfl hsound.equal
    (hf.storageSize.trans hlimit)
  refine hdone.trans ?_
  simp only [hcopy]
  refine (release_ok (s := { s with reading := (update.staged working).copies }) hsound hf.caller
    htail hmax rfl).trans ?_
  cases tail <;> rfl

-- How far an update has come.
inductive Phase (limit : Nat) : SuperBlock → Prop
  | resting {s : SuperBlock} {working : SuperBlockHeader} :
    working.Sound → working.vsrState.checkpoint.storageSize ≤ limit → s.storageSizeLimit = limit →
    Phase limit (resting s working)
  | writing {s : SuperBlock} {working : SuperBlockHeader} {update : Update} {tail : Option Update}
    {copy : Nat} : working.Sound → update.Follows limit working.vsrState →
    (∀ t ∈ tail, t.caller ≠ update.caller ∧ t.Follows limit update.state) →
    copy < superblockCopies → s.storageSizeLimit = limit →
    Phase limit (writing s working update tail copy)
  | verifying {s : SuperBlock} {working : SuperBlockHeader} {update : Update} {tail : Option Update}
    {copy : Nat} : working.Sound → update.Follows limit working.vsrState →
    (∀ t ∈ tail, t.caller ≠ update.caller ∧ t.Follows limit update.state) →
    copy < superblockCopies → s.storageSizeLimit = limit →
    Phase limit (verifying s working update tail copy)

-- What a completion makes of the working header.
def Advances (before after : SuperBlockHeader) : Prop :=
  after = before ∨ before.vsrState.monotonic after.vsrState = .ok true ∧
    after.sequence = before.sequence + 1 ∧ after.parent = before.checksum

theorem Phase.poll (h : Phase limit s) (hmax : limit ≤ storageSizeLimitMax) :
    ∃ s', s.poll = .ok s' ∧ Phase limit s' ∧ Advances s.working s'.working := by
  cases h with
  | resting hsound hsize hlimit => exact ⟨_, rfl, .resting hsound hsize hlimit, .inl rfl⟩
  | @writing s working update tail copy hsound hf htail hlt hlimit =>
    by_cases hlast : copy + 1 = superblockCopies
    · exact ⟨_, poll_written hf hlast, .verifying hsound hf htail (by decide) hlimit, .inl rfl⟩
    · have hlt' : copy + 1 < superblockCopies := by omega
      exact ⟨_, poll_writing hsound hf hmax hlt', .writing hsound hf htail hlt' hlimit, .inl rfl⟩
  | @verifying s working update tail copy hsound hf htail hlt hlimit =>
    by_cases hlast : copy + 1 = superblockCopies
    · refine ⟨_, poll_verified hsound hf (fun t ht => (htail t ht).2) hmax hlimit.ge hlast, ?_⟩
      cases tail with
      | none => exact ⟨.resting hsound.staged hf.storageSize hlimit, .inr ⟨hf.monotonic, rfl, rfl⟩⟩
      | some t =>
        refine ⟨.writing hsound.staged (htail t rfl).2 (fun _ ht => by cases ht) (by decide) hlimit, ?_⟩
        exact .inr ⟨hf.monotonic, rfl, rfl⟩
    · have hlt' : copy + 1 < superblockCopies := by omega
      exact ⟨_, poll_verifying hlt', .verifying hsound hf htail hlt' hlimit, .inl rfl⟩

variable {s' : SuperBlock} {t : Update}

omit [Env] in
theorem acquire_active (hop : s.queueHead = some op)
    (h : s.acquire t.context = .ok s') :
    op.caller ≠ t.caller ∧ s.queueTail = none ∧ s' = { s with queueTail := some t.context } := by
  unfold acquire at h
  rw [hop] at h
  obtain ⟨hne, h⟩ := assert_ok h
  obtain ⟨_, h⟩ := assert_ok h
  obtain ⟨hnone, h⟩ := assert_ok h
  exact ⟨hne, Option.isNone_iff_eq_none.mp hnone, by rw [← Except.ok.inj h, ← hop]⟩

omit [Env] in
theorem Phase.acquire (h : Phase limit s)
    (hmax : limit ≤ storageSizeLimitMax) (hf : t.Follows limit s.staging.vsrState)
    (hacquire : s.acquire t.context = .ok s') : Phase limit s' := by
  cases h with
  | resting hsound _ hlimit =>
    rw [acquire_resting hsound hf hmax] at hacquire
    cases hacquire
    exact .writing hsound hf (fun _ ht => by cases ht) (by decide) hlimit
  | @writing s working update tail copy hsound hu htail hlt hlimit =>
    obtain ⟨hne, hnone, rfl⟩ := acquire_active rfl hacquire
    obtain rfl := Option.map_eq_none_iff.mp hnone
    exact @Phase.writing _ _ s working update (some t) copy hsound hu
      (fun t ht => by cases ht; exact ⟨hne.symm, hf⟩) hlt hlimit
  | @verifying s working update tail copy hsound hu htail hlt hlimit =>
    obtain ⟨hne, hnone, rfl⟩ := acquire_active rfl hacquire
    obtain rfl := Option.map_eq_none_iff.mp hnone
    exact @Phase.verifying _ _ s working update (some t) copy hsound hu
      (fun t ht => by cases ht; exact ⟨hne.symm, hf⟩) hlt hlimit

variable {c : UpdateCheckpoint} {context : Context}

theorem checkpointContext_ok (h : s.checkpointContext c = .ok context) :
    ∃ headers, context = (Update.mk .checkpoint (s.checkpointVsrState c) headers).context ∧
      s.staging.vsrState.monotonic (s.checkpointVsrState c) = .ok true ∧
      c.storageSize ≤ s.storageSizeLimit ∧
      headers.array = (c.viewAttributes.map (·.headers.array)).getD s.staging.viewHeaders := by
  unfold checkpointContext at h
  iterate 6 obtain ⟨_, h⟩ := assert_ok h
  obtain ⟨hsize, h⟩ := assert_ok h
  obtain ⟨_, h⟩ := assert_ok h
  obtain ⟨_, _, h⟩ := bind_eq_ok.mp h
  obtain ⟨_, h⟩ := assert_ok h
  obtain ⟨_, _, h⟩ := bind_eq_ok.mp h
  obtain ⟨_, hupdated, h⟩ := bind_eq_ok.mp h
  obtain ⟨_, h⟩ := assert_ok h
  obtain ⟨headers, hheaders, h⟩ := bind_eq_ok.mp h
  cases h
  refine ⟨headers, rfl, VsrState.monotonic_of_updated hupdated, hsize, ?_⟩
  unfold checkpointHeaders at hheaders
  cases hattributes : c.viewAttributes with
  | some attributes =>
    rw [hattributes] at hheaders
    cases hheaders
    rfl
  | none =>
    rw [hattributes] at hheaders
    obtain ⟨_, _, hheaders⟩ := bind_eq_ok.mp hheaders
    cases hheaders
    rfl

variable {v : UpdateViewChange}

theorem viewChangeContext_ok (h : s.viewChangeContext v = .ok context) :
    context = (Update.mk .viewChange (s.viewChangeVsrState v) v.headers).context ∧
      s.staging.vsrState.monotonic (s.viewChangeVsrState v) = .ok true := by
  unfold viewChangeContext at h
  iterate 6 obtain ⟨_, h⟩ := assert_ok h
  split at h
  case h_2 => cases h
  case h_1 =>
    obtain ⟨_, h⟩ := assert_ok h
    obtain ⟨_, _, h⟩ := bind_eq_ok.mp h
    obtain ⟨_, h⟩ := assert_ok h
    obtain ⟨_, _, h⟩ := bind_eq_ok.mp h
    obtain ⟨_, hupdated, h⟩ := bind_eq_ok.mp h
    obtain ⟨_, h⟩ := assert_ok h
    cases h
    exact ⟨rfl, VsrState.monotonic_of_updated hupdated⟩

omit [Env] in
theorem checkpointVsrState_checkpoint : (s.checkpointVsrState c).checkpoint = s.checkpointState c := by
  unfold checkpointVsrState
  split <;> rfl

-- The checkpoint that a view change brings, if any, fits the data file.
def Fits (limit : Nat) (v : UpdateViewChange) : Prop :=
  ∀ sync ∈ v.syncCheckpoint, sync.checkpoint.storageSize ≤ limit

omit [Env] in
theorem Phase.storageSize (h : Phase limit s) :
    s.staging.vsrState.checkpoint.storageSize ≤ limit := by
  cases h with
  | resting _ hsize _ => exact hsize
  | writing _ hf _ _ _ => exact hf.storageSize
  | verifying _ hf _ _ _ => exact hf.storageSize

omit [Env] in
theorem Phase.limit_eq (h : Phase limit s) : s.storageSizeLimit = limit := by
  cases h <;> assumption

omit [Env] in
theorem Phase.follows_checkpoint {headers : ViewChangeHeadersArray}
    (h : Phase limit s) (hmonotonic : s.staging.vsrState.monotonic (s.checkpointVsrState c) = .ok true)
    (hsize : c.storageSize ≤ s.storageSizeLimit) :
    (Update.mk .checkpoint (s.checkpointVsrState c) headers).Follows limit s.staging.vsrState where
  caller := .inl rfl
  monotonic := hmonotonic
  storageSize := by
    rw [checkpointVsrState_checkpoint, ← h.limit_eq]
    exact hsize

omit [Env] in
theorem Phase.follows_viewChange (h : Phase limit s)
    (hmonotonic : s.staging.vsrState.monotonic (s.viewChangeVsrState v) = .ok true)
    (hfits : Fits s.storageSizeLimit v) :
    (Update.mk .viewChange (s.viewChangeVsrState v) v.headers).Follows limit s.staging.vsrState where
  caller := .inr rfl
  monotonic := hmonotonic
  storageSize := by
    unfold viewChangeVsrState
    split
    · rename_i sync hsync
      exact h.limit_eq ▸ hfits sync hsync
    · exact h.storageSize

-- The update that is requested: its own assertions hold, and its checkpoint fits the data file.
inductive Requested (s : SuperBlock) : Context → Prop
  | checkpoint {c : UpdateCheckpoint} {context : Context} :
    s.checkpointContext c = .ok context → Requested s context
  | viewChange {v : UpdateViewChange} {context : Context} :
    Fits s.storageSizeLimit v → s.viewChangeContext v = .ok context → Requested s context

theorem Phase.requested (h : Phase limit s) (hr : Requested s context) :
    ∃ t : Update, context = t.context ∧ t.Follows limit s.staging.vsrState := by
  cases hr with
  | checkpoint hc =>
    obtain ⟨headers, rfl, hmonotonic, hsize, _⟩ := checkpointContext_ok hc
    exact ⟨_, rfl, h.follows_checkpoint hmonotonic hsize⟩
  | viewChange hfits hv =>
    obtain ⟨rfl, hmonotonic⟩ := viewChangeContext_ok hv
    exact ⟨_, rfl, h.follows_viewChange hmonotonic hfits⟩

-- The runs of an open superblock: requests come at any point, and the storage completes them.
inductive Reaches : SuperBlock → Prop
  | resting {s : SuperBlock} {working : SuperBlockHeader} :
    working.Sound → working.vsrState.checkpoint.storageSize ≤ s.storageSizeLimit →
    s.storageSizeLimit ≤ storageSizeLimitMax → Reaches (resting s working)
  | acquire {s s' : SuperBlock} {context : Context} :
    Reaches s → Requested s context → s.acquire context = .ok s' → Reaches s'
  | poll {s s' : SuperBlock} : Reaches s → s.poll = .ok s' → Reaches s'

theorem Phase.of_poll (h : Phase limit s) (hmax : limit ≤ storageSizeLimitMax)
    (hpoll : s.poll = .ok s') : Phase limit s' := by
  obtain ⟨s'', hpoll', hphase, _⟩ := h.poll hmax
  rw [hpoll] at hpoll'
  cases hpoll'
  exact hphase

theorem Reaches.phase (h : Reaches s) : ∃ limit ≤ storageSizeLimitMax, Phase limit s := by
  induction h with
  | resting hsound hsize hmax => exact ⟨_, hmax, .resting hsound hsize rfl⟩
  | acquire _ hr hacquire ih =>
    obtain ⟨limit, hmax, hphase⟩ := ih
    obtain ⟨t, rfl, hf⟩ := hphase.requested hr
    exact ⟨limit, hmax, hphase.acquire hmax hf hacquire⟩
  | poll _ hpoll ih =>
    obtain ⟨limit, hmax, hphase⟩ := ih
    exact ⟨limit, hmax, hphase.of_poll hmax hpoll⟩

-- The completions of requests, without any further update.
abbrev Polls : SuperBlock → SuperBlock → Prop :=
  Relation.ReflTransGen fun s s' => s.poll = .ok s'

theorem polls_verifying (h : working.Sound) (hf : update.Follows limit working.vsrState)
    (htail : ∀ t ∈ tail, t.Follows limit update.state) (hmax : limit ≤ storageSizeLimitMax)
    (hlimit : limit ≤ s.storageSizeLimit) (n : Nat) (hn : copy + n + 1 = superblockCopies) :
    Polls (verifying s working update tail copy) (verified s working update tail) := by
  induction n generalizing copy with
  | zero => exact .single (poll_verified h hf htail hmax hlimit hn)
  | succ n ih => exact .head (poll_verifying (by omega)) (ih (by omega))

theorem polls_writing (h : working.Sound) (hf : update.Follows limit working.vsrState)
    (htail : ∀ t ∈ tail, t.Follows limit update.state) (hmax : limit ≤ storageSizeLimitMax)
    (hlimit : limit ≤ s.storageSizeLimit) (n : Nat) (hn : copy + n + 1 = superblockCopies) :
    Polls (writing s working update tail copy) (verified s working update tail) := by
  induction n generalizing copy with
  | zero => exact .head (poll_written hf hn) (polls_verifying h hf htail hmax hlimit 3 rfl)
  | succ n ih => exact .head (poll_writing h hf hmax (by omega)) (ih (by omega))

-- Both of two updates complete, one after the other, and the second one is what is left.
theorem polls_both (h : working.Sound)
    (ht : t.Follows limit update.state) (hmax : limit ≤ storageSizeLimitMax)
    (hlimit : limit ≤ s.storageSizeLimit) :
    ∃ s', Polls (verified s working update (some t)) s' ∧ s'.queueHead = none ∧
      s'.queueTail = none ∧ s'.storage.requests = [] ∧
      s'.events = s.events ++ [event update, event t] ∧
      s'.working.vsrState = t.state ∧ s'.working.viewHeaders = t.headers.array := by
  refine ⟨_, polls_writing h.staged ht (fun _ hn => by cases hn) hmax ?_ 3 rfl, rfl, rfl, rfl, ?_,
    rfl, rfl⟩
  · exact hlimit
  · exact List.append_assoc ..

section

variable (h : Phase limit s)

include h

omit [Env] in
-- What the active operation carries is what is staged.
theorem Phase.carries (hop : s.queueHead = some op) :
    op.vsrState = some s.staging.vsrState ∧
      ∃ headers, op.viewHeaders = some headers ∧ headers.array = s.staging.viewHeaders := by
  cases h with
  | resting => cases hop
  | writing =>
    cases hop
    exact ⟨rfl, _, rfl, rfl⟩
  | verifying =>
    cases hop
    exact ⟨rfl, _, rfl, rfl⟩

section

variable (hmax : limit ≤ storageSizeLimitMax)

include hmax

theorem Phase.completes (hop : s.queueHead = some op)
    (hf : t.Follows limit s.staging.vsrState) (hacquire : s.acquire t.context = .ok s') :
    ∃ update s'', update.caller = op.caller ∧ Polls s' s'' ∧ s''.queueHead = none ∧
      s''.queueTail = none ∧ s''.storage.requests = [] ∧
      s''.events = s.events ++ [event update, event t] ∧
      s''.working.vsrState = t.state ∧ s''.working.viewHeaders = t.headers.array := by
  have hn {copy : Nat} (hlt : copy < superblockCopies) :
      copy + (superblockCopies - 1 - copy) + 1 = superblockCopies := by
    unfold superblockCopies at hlt ⊢
    omega
  have ht {state : VsrState} (hf : t.Follows limit state) :
      ∀ t' ∈ some t, t'.Follows limit state := fun _ ht => by
    cases ht
    exact hf
  cases h with
  | resting => cases hop
  | @writing s working update tail copy hsound hu htail hlt hlimit =>
    obtain ⟨_, hnone, rfl⟩ := acquire_active rfl hacquire
    obtain rfl := Option.map_eq_none_iff.mp hnone
    obtain ⟨s'', hpolls, hrest⟩ := polls_both (s := s) hsound hf hmax hlimit.ge
    refine ⟨update, s'', by cases hop; rfl, ?_, hrest⟩
    exact (polls_writing hsound hu (ht hf) hmax hlimit.ge _ (hn hlt)).trans hpolls
  | @verifying s working update tail copy hsound hu htail hlt hlimit =>
    obtain ⟨_, hnone, rfl⟩ := acquire_active rfl hacquire
    obtain rfl := Option.map_eq_none_iff.mp hnone
    obtain ⟨s'', hpolls, hrest⟩ := polls_both (s := s) hsound hf hmax hlimit.ge
    refine ⟨update, s'', by cases hop; rfl, ?_, hrest⟩
    exact (polls_verifying hsound hu (ht hf) hmax hlimit.ge _ (hn hlt)).trans hpolls

omit [Env] in
theorem Phase.starts (hidle : s.queueHead = none) (hf : t.Follows limit s.staging.vsrState) :
    ∃ s', s.acquire t.context = .ok s' := by
  cases h with
  | resting hsound => exact ⟨_, acquire_resting hsound hf hmax⟩
  | writing => cases hidle
  | verifying => cases hidle

-- A view change that is requested during a checkpoint.
theorem Phase.viewChange (hop : s.queueHead = some op)
    (hcaller : op.caller = .checkpoint) (hfits : Fits s.storageSizeLimit v)
    (hv : s.viewChange v = .ok s') :
    ∃ state s'', op.vsrState = some state ∧ Polls s' s'' ∧ s''.queueHead = none ∧
      s''.events = s.events ++ [.checkpointDone, .viewChangeDone] ∧
      s''.working.vsrState.checkpoint = (v.syncCheckpoint.map (·.checkpoint)).getD state.checkpoint ∧
      s''.working.vsrState.view = v.view ∧ s''.working.vsrState.logView = v.logView ∧
      s''.working.viewHeaders = v.headers.array := by
  obtain ⟨context, hcontext, hacquire⟩ := bind_eq_ok.mp hv
  obtain ⟨rfl, hmonotonic⟩ := viewChangeContext_ok hcontext
  obtain ⟨update, s'', hupdate, hpolls, hhead, _, _, hevents, hstate, hheaders⟩ :=
    h.completes hmax hop (h.follows_viewChange hmonotonic hfits) hacquire
  refine ⟨_, s'', (h.carries hop).1, hpolls, hhead, ?_, ?_, ?_, ?_, hheaders⟩
  · rw [hevents, event, event, if_pos (hupdate.trans hcaller)]
    rfl
  all_goals
    rw [hstate]
    unfold viewChangeVsrState
    cases v.syncCheckpoint <;> rfl

-- A checkpoint that is requested during a view change.
theorem Phase.checkpoint (hop : s.queueHead = some op)
    (hcaller : op.caller = .viewChange) (hc : s.checkpoint c = .ok s') :
    ∃ state headers s'', op.vsrState = some state ∧ op.viewHeaders = some headers ∧ Polls s' s'' ∧
      s''.queueHead = none ∧ s''.events = s.events ++ [.viewChangeDone, .checkpointDone] ∧
      s''.working.vsrState.checkpoint = s.checkpointState c ∧
      s''.working.vsrState.view = (c.viewAttributes.map (·.view)).getD state.view ∧
      s''.working.vsrState.logView = (c.viewAttributes.map (·.logView)).getD state.logView ∧
      s''.working.viewHeaders = (c.viewAttributes.map (·.headers.array)).getD headers.array := by
  obtain ⟨context, hcontext, hacquire⟩ := bind_eq_ok.mp hc
  obtain ⟨headers, rfl, hmonotonic, hsize, harray⟩ := checkpointContext_ok hcontext
  obtain ⟨update, s'', hupdate, hpolls, hhead, _, _, hevents, hstate, hheaders⟩ :=
    h.completes hmax hop (h.follows_checkpoint hmonotonic hsize) hacquire
  obtain ⟨hcarried, carried, hcarriedHeaders, hcarriedArray⟩ := h.carries hop
  refine ⟨_, carried, s'', hcarried, hcarriedHeaders, hpolls, hhead, ?_, ?_, ?_, ?_, ?_⟩
  · have hne : update.caller ≠ .checkpoint := by
      rw [hupdate, hcaller]
      decide
    rw [hevents, event, event, if_neg hne]
    rfl
  · rw [hstate, checkpointVsrState_checkpoint]
  · rw [hstate]
    unfold checkpointVsrState
    cases c.viewAttributes <;> rfl
  · rw [hstate]
    unfold checkpointVsrState
    cases c.viewAttributes <;> rfl
  · rw [hheaders, harray, hcarriedArray]

end

end

-- Two updates that overlap both complete, and the second one builds on what the first one staged.
theorem Reaches.overlaps (h : Reaches s) :
    (∃ s', s.poll = .ok s' ∧ Advances s.working s'.working) ∧
    (∀ context, Requested s context → s.queueHead = none → ∃ s', s.acquire context = .ok s') ∧
    (∀ op v s', s.queueHead = some op → op.caller = .checkpoint → Fits s.storageSizeLimit v →
      s.viewChange v = .ok s' →
      ∃ state s'', op.vsrState = some state ∧ Polls s' s'' ∧ s''.queueHead = none ∧
        s''.events = s.events ++ [.checkpointDone, .viewChangeDone] ∧
        s''.working.vsrState.checkpoint =
          (v.syncCheckpoint.map (·.checkpoint)).getD state.checkpoint ∧
        s''.working.vsrState.view = v.view ∧ s''.working.vsrState.logView = v.logView ∧
        s''.working.viewHeaders = v.headers.array) ∧
    (∀ op c s', s.queueHead = some op → op.caller = .viewChange → s.checkpoint c = .ok s' →
      ∃ state headers s'', op.vsrState = some state ∧ op.viewHeaders = some headers ∧ Polls s' s'' ∧
        s''.queueHead = none ∧ s''.events = s.events ++ [.viewChangeDone, .checkpointDone] ∧
        s''.working.vsrState.checkpoint = s.checkpointState c ∧
        s''.working.vsrState.view = (c.viewAttributes.map (·.view)).getD state.view ∧
        s''.working.vsrState.logView = (c.viewAttributes.map (·.logView)).getD state.logView ∧
        s''.working.viewHeaders = (c.viewAttributes.map (·.headers.array)).getD headers.array) := by
  obtain ⟨limit, hmax, hphase⟩ := h.phase
  obtain ⟨s', hpoll, _, hadvances⟩ := hphase.poll hmax
  refine ⟨⟨s', hpoll, hadvances⟩, fun context hr hidle => ?_, fun op v s' hop hcaller hfits hv => ?_,
    fun op c s' hop hcaller hc => ?_⟩
  · obtain ⟨t, rfl, hf⟩ := hphase.requested hr
    exact hphase.starts hmax hidle hf
  · exact hphase.viewChange hmax hop hcaller hfits hv
  · exact hphase.checkpoint hmax hop hcaller hc

end SuperBlock

end TigerBeetle.Superblock

namespace TigerBeetle.Superblock

-- Checksums with which the model can be evaluated.
@[reducible]
def Checksums.plain : Checksums where
  header header := header.sequence
  checkpointState state := state.header.op + 1
  bodyEmpty := 0

namespace SuperBlock

section Single

open Fallible

attribute [local instance] Env.plain Checksums.plain

-- The header of a data file that was just formatted.
def formatted : SuperBlockHeader :=
  { headerZeroed with
    checksum := 1
    version := superblockVersion
    releaseFormat := 1
    sequence := 1
    vsrState := { headerZeroed.vsrState with
      checkpoint := { checkpointStateZeroed with storageSize := dataFileSizeMin }
      replicaId := 1
      members := [1]
      replicaCount := 1 }
    viewHeaders := ⟨[.root 0], by decide⟩ }

-- The superblock of that data file.
def idle : SuperBlock :=
  resting {
    working := formatted
    staging := formatted
    reading := []
    opened := true
    storageSizeLimit := storageSizeLimitMax
    queueHead := none
    queueTail := none
    replicaIndex := some 0
    events := []
    storage := { copies := [], requests := [] } } formatted

theorem reaches_idle : Reaches idle :=
  .resting ⟨rfl, rfl, by decide, rfl, rfl, rfl, rfl⟩ (by decide) (by decide)

def trailerEmpty : TrailerReference where
  checksum := 0
  lastBlockAddress := 0
  lastBlockChecksum := 0
  trailerSize := 0

-- The first checkpoint, and a view change that brings the second one.
def firstCheckpoint : UpdateCheckpoint where
  header := { Prepare.zeroed with checksum := 1, op := vsrCheckpointOps - 1 }
  viewAttributes := none
  commitMax := vsrCheckpointOps
  syncOpMin := 0
  syncOpMax := 0
  manifestReferences := ⟨0, 0, 0, 0, 0⟩
  freeSetReferences := ⟨trailerEmpty, trailerEmpty⟩
  clientSessionsReference := trailerEmpty
  storageSize := dataFileSizeMin
  release := 1

def secondCheckpoint : CheckpointState :=
  { checkpointStateZeroed with
    header := { Prepare.zeroed with checksum := 2, op := 2 * vsrCheckpointOps - 1 }
    parentCheckpointId := vsrCheckpointOps
    storageSize := dataFileSizeMin }

def syncViewChange : UpdateViewChange where
  commitMax := 2 * vsrCheckpointOps
  logView := 1
  view := 1
  headers := {
    command := .view
    array := ⟨[Prepare.setChecksum { Prepare.zeroed with
      op := 2 * vsrCheckpointOps, release := 1, timestamp := 1, operation := .pulse }], by decide⟩ }
  syncCheckpoint := some { checkpoint := secondCheckpoint, syncOpMin := 0, syncOpMax := 0 }

def firstUpdate : Update where
  caller := .checkpoint
  state := idle.checkpointVsrState firstCheckpoint
  headers := { command := .view, array := formatted.viewHeaders }

theorem checkpoint_idle :
    idle.checkpoint firstCheckpoint = .ok (writing idle formatted firstUpdate none 0) :=
  rfl

theorem viewChange_writing : (writing idle formatted firstUpdate none 0).viewChange syncViewChange =
    .ok { writing idle formatted firstUpdate none 0 with
      queueTail := some (Update.mk .viewChange
        ((writing idle formatted firstUpdate none 0).viewChangeVsrState syncViewChange)
        syncViewChange.headers).context } :=
  rfl

theorem fits_syncViewChange : Fits storageSizeLimitMax syncViewChange := by
  intro sync hsync
  cases hsync
  decide

theorem reaches_writing : Reaches (writing idle formatted firstUpdate none 0) := by
  obtain ⟨context, hcontext, hacquire⟩ := bind_eq_ok.mp checkpoint_idle
  exact .acquire reaches_idle (.checkpoint hcontext) hacquire

theorem Reaches.overlaps_writing :
    ∃ s s'', (writing idle formatted firstUpdate none 0).viewChange syncViewChange = .ok s ∧
      Polls s s'' ∧ s''.events = [.checkpointDone, .viewChangeDone] ∧
      s''.working.vsrState.view = 1 := by
  obtain ⟨_, s'', _, hpolls, _, hevents, _, hview, _⟩ :=
    (Reaches.overlaps reaches_writing).2.2.1 _ syncViewChange _ rfl rfl fits_syncViewChange
      viewChange_writing
  exact ⟨_, s'', viewChange_writing, hpolls, hevents, hview⟩

-- The checkpoint that a view change brings is what is left, not the one that was being written.
theorem viewChange_sync :
    ∃ s s'', idle.checkpoint firstCheckpoint = .ok (writing idle formatted firstUpdate none 0) ∧
      (writing idle formatted firstUpdate none 0).viewChange syncViewChange = .ok s ∧ Polls s s'' ∧
      s''.events = [.checkpointDone, .viewChangeDone] ∧
      s''.working.vsrState.checkpoint ≠ idle.checkpointState firstCheckpoint := by
  obtain ⟨limit, hmax, hphase⟩ := reaches_writing.phase
  obtain ⟨_, s'', _, hpolls, _, hevents, hcheckpoint, _⟩ :=
    hphase.viewChange hmax rfl rfl fits_syncViewChange viewChange_writing
  refine ⟨_, s'', checkpoint_idle, viewChange_writing, hpolls, hevents, ?_⟩
  rw [hcheckpoint]
  show secondCheckpoint ≠ idle.checkpointState firstCheckpoint
  decide

end Single

end SuperBlock

end TigerBeetle.Superblock
