import TigerBeetle.Theorems.GridReopen
import TigerBeetle.Theorems.GridRequests

-- A grid that is restarted from a checkpoint is compared with the one that keeps running.
namespace TigerBeetle.GridTrailer

open Fallible DynamicBitSet

open Ewah (Byte wordBytes)

open FreeSet (encoding freeBlocks Effect)

variable [Checksums] {shards shards' : Nat} {grid after : Grid shards} {set fresh : FreeSet shards}

section Operations

omit [Checksums] in
theorem Sound.operation {operation : FreeSet.Operation} {freeSet : FreeSet shards} (h : Sound grid)
    (hn : operation ≠ .markCheckpointNotDurable) (he : Effect grid.freeSet operation freeSet) :
    Sound { grid with freeSet } := by
  have hvalid := he.valid h.valid
  cases he with
  | reserve hr =>
    cases hr with
    | none => exact h
    | some => exact { h with valid := hvalid }
  | acquire ha hr =>
    cases hr with
    | none => exact h
    | some hf hb hindex =>
      refine { h with
        valid := hvalid
        acquired := fun hd hne => ?_ }
      obtain ⟨i, hi⟩ := h.acquired hd hne
      refine ⟨i, ?_⟩
      dsimp only
      rw [bit_insert hb, hi]
      rfl
  | forfeit hr => cases hr <;> exact { h with valid := hvalid }
  | release hb hr =>
    cases hr with
    | durable hd =>
      refine { h with
        valid := hvalid
        released := fun hd hne => ?_ }
      obtain ⟨i, hi⟩ := h.released hd hne
      refine ⟨i, ?_⟩
      dsimp only
      rw [bit_insert hb.within, hi]
      rfl
    | notDurable hd =>
      exact { h with
        valid := hvalid
        pending := fun _ _ => by simp }
  | markCheckpointNotDurable => exact absurd rfl hn
  | markCheckpointDurable hd =>
    have hsame := hd.same
    -- What has been released before is released from now on.
    have hpending : grid.freeSetCheckpointBlocksAcquired.blockIndex ≠ 0 ∨
        grid.freeSetCheckpointBlocksReleased.blockIndex ≠ 0 →
          ∃ i, freeSet.blocksAcquired.bit i = true ∧ freeSet.blocksReleased.bit i = true := by
      intro hne
      obtain ⟨i, hi⟩ := List.exists_mem_of_ne_nil _ (h.pending hd.notDurable hne)
      have ⟨hlt, ha, hr⟩ := h.valid.prior i hi
      exact ⟨i, (hd.acquired i hlt).mpr ⟨ha, hr⟩, (hd.released i hlt).mpr hi⟩
    refine ⟨h.nonempty, hvalid, ?_, fun _ hne => ?_, fun _ hne => ?_, fun hdurable => ?_, h.addresses⟩
    · rw [hsame]
      exact h.capacity
    · obtain ⟨i, hi, _⟩ := hpending (.inl hne)
      exact ⟨i, hi⟩
    · obtain ⟨i, _, hi⟩ := hpending (.inr hne)
      exact ⟨i, hi⟩
    · rw [hsame] at hdurable
      cases hdurable

theorem checkpoint_admits (h : grid.checkpoint = .ok after) :
    grid.freeSet.checkpointDurable = true ∧ grid.freeSet.reservationCount = 0 := by
  have hmeets : Meets (fun _ => True) (fun _ => grid.freeSet.checkpointDurable = true ∧
      grid.freeSet.reservationCount = 0) grid.checkpoint := by
    unfold Grid.checkpoint
    refine Meets.bind_iff.mpr (meets_assert.mpr ⟨fun hc => ?_, fun _ => trivial⟩)
    refine Meets.bind Meets.trivial.returned fun encoded ⟨heq, _⟩ => ?_
    exact Meets.trivial.weaken fun _ _ => ⟨FreeSet.durable_of_encodeChunks heq, hc⟩
  exact hmeets.post h

theorem Sound.checkpointed (h : Sound grid) (hc : grid.checkpoint = .ok after) :
    ∃ blocksAcquired blocksReleased, Checkpointed grid blocksAcquired blocksReleased after := by
  have ⟨hd, hcount⟩ := checkpoint_admits hc
  exact (h.checkpoint hd hcount).post hc

omit [Checksums] in
theorem exists_bit {bits : DynamicBitSet (shards * shardBits)}
    (h : blockCountForTrailerSize (encoding bits).length ≠ 0) : ∃ i, bits.bit i = true := by
  by_contra hn
  refine h ?_
  have hnil : encoding bits = [] := encoding_nil_iff.mpr fun i => by
    rw [Bool.eq_false_iff]
    exact fun hi => hn ⟨i, hi⟩
  rw [hnil]
  exact blockCount_zero

theorem Checkpointed.sound {blocksAcquired blocksReleased : List Block}
    (h : Checkpointed grid blocksAcquired blocksReleased after) (hs : Sound grid)
    (hd : grid.freeSet.checkpointDurable = true) : Sound after := by
  have hsame := h.same
  refine ⟨hs.nonempty, h.valid, ?_, fun _ hne => ?_, fun _ hne => ?_, fun hdurable => ?_, fun hne => ?_⟩
  · rw [hsame]
    exact hs.capacity
  · rw [h.savedAcquired.blockIndex] at hne
    obtain ⟨i, hi⟩ := exists_bit hne
    exact ⟨i, h.acquired_iff.mpr (.inl hi)⟩
  · rw [h.savedReleased.blockIndex] at hne
    rw [hsame]
    exact exists_bit hne
  · rw [hsame, hd] at hdurable
    cases hdurable
  · rw [h.savedAcquired.blockIndex, h.savedReleased.blockIndex, ← h.savedAcquired.length,
      ← h.savedReleased.length] at hne
    rw [h.savedAcquired.addresses, h.savedReleased.addresses, ← List.map_append]
    intro hnil
    have hlength := congrArg List.length hnil
    rw [List.length_map, List.length_append, List.length_nil] at hlength
    omega

-- What the blocks that are released leave of a set that is not durable.
structure Kept (set : FreeSet shards) (addresses : List Nat) (after : FreeSet shards) : Prop where
  valid : after.Valid
  durable : after.checkpointDurable = false
  capacity : after.blocksReleasedPriorCheckpointDurability.capacity =
    set.blocksReleasedPriorCheckpointDurability.capacity
  keys : set.blocksReleasedPriorCheckpointDurability.keys ≠ [] ∨ addresses ≠ [] →
    after.blocksReleasedPriorCheckpointDurability.keys ≠ []

omit [Checksums] in
theorem release_kept {addresses : List Nat} (hv : set.Valid) (hd : set.checkpointDurable = false) :
    Meets (fun _ => True) (Kept set addresses) (Grid.release addresses set) := by
  induction addresses generalizing set with
  | nil => exact ⟨hv, hd, rfl, fun hne => hne.elim id fun hn => absurd rfl hn⟩
  | cons address addresses ih =>
    refine Meets.bind (FreeSet.release_meets.mono (fun _ hr => hr) fun _ _ => trivial) fun next hr => ?_
    obtain ⟨block, rfl, hb, hr⟩ := hr
    have hvalid := (FreeSet.Effect.release hb hr).valid hv
    cases hr with
    | durable hdurable =>
      rw [hd] at hdurable
      cases hdurable
    | notDurable _ =>
      refine (ih hvalid hd).weaken fun after hk =>
        ⟨hk.valid, hk.durable, hk.capacity, fun _ => hk.keys (.inl ?_)⟩
      simp

omit [Checksums] in
theorem Sound.markCheckpointNotDurable (h : Sound grid) :
    Meets (fun _ => True) Sound grid.markCheckpointNotDurable := by
  unfold Grid.markCheckpointNotDurable
  have hstep := @FreeSet.step_meets _ _ .markCheckpointNotDurable h.valid
  refine Meets.bind (hstep : Meets _ _ grid.freeSet.markCheckpointNotDurable) fun next he => ?_
  have hvalid := he.valid h.valid
  cases he with
  | markCheckpointNotDurable hd hk =>
    refine Meets.bind (release_kept hvalid rfl) fun freeSet hkept => ?_
    refine ⟨h.nonempty, hkept.valid, ?_, fun hdurable => ?_, fun hdurable => ?_, fun _ hne => ?_, h.addresses⟩
    · rw [hkept.capacity]
      exact h.capacity
    · rw [hkept.durable] at hdurable
      cases hdurable
    · rw [hkept.durable] at hdurable
      cases hdurable
    · exact hkept.keys (.inr (h.addresses hne))

end Operations

section Restarts

variable {storage : Nat → Option Block} {storageSize : Nat} {references : GridOpenReferences}

theorem open_inv {acquired released : CheckpointTrailer}
    {chunksAcquired chunksReleased : List (List Byte)}
    (ha : ∀ result, Grid.trailerOpen storage (blockCountForTrailerSize fresh.encodeSizeMax)
      references.blocksAcquired = .ok result → result = (acquired, chunksAcquired))
    (hr : ∀ result, Grid.trailerOpen storage (blockCountForTrailerSize fresh.encodeSizeMax)
      references.blocksReleased = .ok result → result = (released, chunksReleased))
    (h : Grid.open fresh storage storageSize references = .ok grid) :
    fresh.open chunksAcquired chunksReleased acquired.addresses released.addresses = .ok grid.freeSet ∧
      grid.freeSetCheckpointBlocksAcquired = acquired ∧ grid.freeSetCheckpointBlocksReleased = released := by
  have hmeets : Meets (fun _ => True) (fun grid : Grid shards =>
      fresh.open chunksAcquired chunksReleased
      acquired.addresses released.addresses = .ok grid.freeSet ∧
      grid.freeSetCheckpointBlocksAcquired = acquired ∧ grid.freeSetCheckpointBlocksReleased = released)
      (Grid.open fresh storage storageSize references) := by
    unfold Grid.open
    refine Meets.bind_iff.mpr (meets_assert.mpr ⟨fun _ => ?_, fun _ => trivial⟩)
    refine Meets.bind_iff.mpr (meets_assert.mpr ⟨fun _ => ?_, fun _ => trivial⟩)
    refine Meets.bind Meets.trivial.returned fun result ⟨heq, _⟩ => ?_
    obtain rfl := ha _ heq
    refine Meets.bind Meets.trivial.returned fun result ⟨heq, _⟩ => ?_
    obtain rfl := hr _ heq
    refine Meets.bind Meets.trivial.returned fun freeSet ⟨heq, _⟩ => ?_
    iterate 4 refine Meets.bind Meets.trivial fun _ _ => ?_
    exact ⟨heq, rfl, rfl⟩
  exact hmeets.post h

theorem trailerOpen_fits {reference : TrailerReference} {blockCountMax : Nat}
    {result : CheckpointTrailer × List (List Byte)}
    (h : Grid.trailerOpen storage blockCountMax reference = .ok result) :
    blockCountForTrailerSize reference.trailerSize ≤ blockCountMax := by
  have hmeets : Meets (fun _ => True) (fun _ =>
    blockCountForTrailerSize reference.trailerSize ≤ blockCountMax)
      (Grid.trailerOpen storage blockCountMax reference) := by
    unfold Grid.trailerOpen
    refine Meets.bind_iff.mpr (meets_assert.mpr ⟨fun _ => ?_, fun _ => trivial⟩)
    refine Meets.bind_iff.mpr (meets_assert.mpr ⟨fun hm => ?_, fun _ => trivial⟩)
    exact Meets.trivial.weaken fun _ _ => hm
  exact hmeets.post h

theorem Saved.opened {encoded : List Byte} {blocks : List Block} {trailer : CheckpointTrailer}
    {blockCountMax : Nat} (hc : ∀ block : Block, Checksums.block block ≠ 0)
    (h : Saved storage encoded blocks trailer) (ha : encoded.length % wordBytes = 0) :
    ∀ result, Grid.trailerOpen storage blockCountMax (referenceTo encoded blocks) = .ok result →
      result = (openedFrom encoded blocks, blocks.map (·.body)) := by
  intro result heq
  rw [h.trailerOpen hc ha (trailerOpen_fits heq)] at heq
  exact (Except.ok.inj heq).symm

theorem saved_none : Saved storage [] [] .new where
  size := rfl
  checksum := fun hn => absurd rfl hn
  blockIndex := blockCount_zero.symm
  addresses := rfl
  checksums := rfl
  bodies := rfl
  length := blockCount_zero.symm
  stored := ⟨trivial, nofun, nofun, nofun, .nil⟩

variable {capacityBlocks : Nat}

omit [Checksums] in
theorem capacity_freeSetFor : FreeSet.shardsFor (capacityBlocks * blockSize) * shardBits ≤
      (Grid.freeSetFor capacityBlocks).blocksReleasedPriorCheckpointDurability.capacity :=
  Nat.le_add_right _ _

omit [Checksums] in
theorem shardsFor_pos (h : 0 < capacityBlocks) :
    0 < FreeSet.shardsFor (capacityBlocks * blockSize) := by
  have hpos := FreeSet.shardBits_pos
  have hblock : 0 < blockSize := by decide
  unfold FreeSet.shardsFor
  rw [Nat.mul_div_cancel _ hblock]
  exact Nat.div_pos (by omega) hpos

omit [Checksums] in
theorem sound_of_opens {set' : FreeSet shards'} {blocks : List Nat}
    {grid : Grid (FreeSet.shardsFor (capacityBlocks * blockSize))} (hpos : 0 < capacityBlocks)
    (ho : (Grid.freeSetFor capacityBlocks).Opens set' blocks grid.freeSet)
    (hr : ∀ i, set'.blocksReleased.bit i = true → set'.blocksAcquired.bit i = true)
    (ha : grid.freeSetCheckpointBlocksAcquired.blockIndex = 0)
    (hb : grid.freeSetCheckpointBlocksReleased.blockIndex = 0) : Sound grid := by
  refine ⟨shardsFor_pos hpos, ho.valid FreeSet.fresh_new hr, ?_, fun _ hn => absurd ha hn,
    fun _ hn => absurd hb hn, fun _ hn => ?_, fun hn => ?_⟩
  · rw [ho.same]
    exact capacity_freeSetFor
  · exact hn.elim (absurd ha) (absurd hb)
  · exact hn.elim (absurd ha) (absurd hb)

variable {s : Σ shards, Grid shards}

theorem Sound.init (hc : ∀ block : Block, Checksums.block block ≠ 0)
    (h : machine.init s) : Sound s.2 := by
  obtain ⟨capacityBlocks, storage, storageSize, grid, hpos, hopen, rfl⟩ := h
  have hnone := fun max => @Saved.opened _ storage _ _ _ max hc saved_none rfl
  obtain ⟨hfree, ha, hr⟩ := open_inv (hnone _) (hnone _) hopen
  have hopens := FreeSet.opens_of_init hfree
  refine sound_of_opens hpos hopens (fun i hi => ?_) (ha ▸ rfl) (hr ▸ rfl)
  rw [show (FreeSet.new _ _).blocksReleased = newEmpty from rfl, bit_newEmpty] at hi
  cases hi

theorem Sound.step {t : Σ shards, Grid shards} {e : Event}
    (hc : ∀ block : Block, Checksums.block block ≠ 0)
    (h : Sound s.2) (hp : e.Proper) (hs : machine.step s e = .ok t) : Sound t.2 := by
  obtain ⟨shards, grid⟩ := s
  cases e with
  | operation operation =>
    obtain ⟨freeSet, hstep, heq⟩ := bind_eq_ok.mp hs
    obtain rfl := Except.ok.inj heq
    exact h.operation hp ((FreeSet.step_meets h.valid).post hstep)
  | checkpoint =>
    obtain ⟨after, hstep, heq⟩ := bind_eq_ok.mp hs
    obtain rfl := Except.ok.inj heq
    obtain ⟨_, _, hcheckpointed⟩ := h.checkpointed hstep
    exact hcheckpointed.sound h (checkpoint_admits hstep).1
  | markCheckpointNotDurable =>
    obtain ⟨after, hstep, heq⟩ := bind_eq_ok.mp hs
    obtain rfl := Except.ok.inj heq
    exact h.markCheckpointNotDurable.post hstep
  | restart capacityBlocks storageSize =>
    obtain ⟨after, hstep, hs⟩ := bind_eq_ok.mp hs
    obtain ⟨blocksAcquired, blocksReleased, hcheckpointed⟩ := h.checkpointed hstep
    obtain ⟨references, hreferences, hs⟩ := bind_eq_ok.mp hs
    obtain ⟨reopened, hopen, heq⟩ := bind_eq_ok.mp hs
    obtain rfl := Except.ok.inj heq
    unfold Grid.freeSetCheckpointReferences at hreferences
    rw [hcheckpointed.savedAcquired.checkpointReference, ok_bind,
      hcheckpointed.savedReleased.checkpointReference, ok_bind] at hreferences
    obtain rfl := Except.ok.inj hreferences
    obtain ⟨hfree, ha, hr⟩ := open_inv (hcheckpointed.savedAcquired.opened hc encoding_aligned)
      (hcheckpointed.savedReleased.opened hc encoding_aligned) hopen
    have hopens := (FreeSet.open_meets FreeSet.fresh_new hcheckpointed.savedAcquired.bodies
      hcheckpointed.savedReleased.bodies).post hfree
    exact sound_of_opens hp hopens h.valid.released_acquired (ha ▸ rfl) (hr ▸ rfl)

theorem sound_of_reachable (hc : ∀ block : Block, Checksums.block block ≠ 0)
    (h : machine.Reachable (fun _ e => e.Proper) s) : Sound s.2 :=
  h.invariant (p := fun s => Sound s.2) (fun _ => .init hc) fun _ _ _ hsound hp hs => hsound.step hc hp hs

end Restarts

section Equality

-- Each acquired block has fewer free blocks below it than the trailers need.
def Covered (set : FreeSet shards) : Prop :=
  ∀ block, set.blocksAcquired.bit block = true →
    (freeBlocks set.blocksAcquired 0 block).length < trailerBlockCount set

-- What is acquired and released is the same, and so is what is acquired next.
structure Equal (running reopened : FreeSet shards) : Prop where
  acquired : reopened.blocksAcquired = running.blocksAcquired
  released : reopened.blocksReleased = running.blocksReleased
  prior : reopened.blocksReleasedPriorCheckpointDurability.keys =
    running.blocksReleasedPriorCheckpointDurability.keys
  next : ∀ requests, (responses requests reopened).toOption = (responses requests running).toOption

-- A fresh grid is opened from the references of a checkpoint, with the size of the data file that is
-- due to the highest acquired block.
def Restarts (after : Grid shards) (fresh : FreeSet shards) : Prop :=
  ∃ running references reopened, after.markCheckpointNotDurable = .ok running ∧
    after.freeSetCheckpointReferences = .ok references ∧
    Grid.open fresh after.storage (storageSizeFor after.freeSet) references = .ok reopened ∧
    Equal running.freeSet reopened.freeSet

omit [Checksums] in
theorem ext_of_bits {bits bits' : DynamicBitSet (shards * shardBits)}
    (h : ∀ i, bits.bit i = bits'.bit i) :
    bits = bits' := by
  have hwords := FreeSet.word_eq_of_bits h
  have hlist : bits.words.toList = bits'.words.toList := by
    refine List.ext_getElem (by rw [Vector.length_toList, Vector.length_toList]) fun w hw hw' => ?_
    have hword := hwords w
    rwa [List.getD_eq_getElem?_getD, List.getD_eq_getElem?_getD, List.getElem?_eq_getElem hw,
      List.getElem?_eq_getElem hw'] at hword
  cases bits
  cases bits'
  congr 1
  exact Vector.toList_inj.mp hlist

theorem Checkpointed.restarts_iff {blocksAcquired blocksReleased : List Block}
    (h : Checkpointed grid blocksAcquired blocksReleased after) (hs : Sound grid)
    (hc : ∀ block : Block, Checksums.block block ≠ 0) (hd : grid.freeSet.checkpointDurable = true)
    (hcount : grid.freeSet.reservationCount = 0) (hf : fresh.Fresh)
    (hcapacity : shards * shardBits ≤ fresh.blocksReleasedPriorCheckpointDurability.capacity)
    (hlimit : fresh.blocksCountLimit = grid.freeSet.blocksCountLimit) :
    Restarts after fresh ↔ Covered grid.freeSet := by
  have hlength : (trailerBlocks blocksAcquired blocksReleased).length =
      trailerBlockCount grid.freeSet := by
    unfold trailerBlocks trailerBlockCount
    rw [List.length_map, List.length_append, h.savedAcquired.length, h.savedReleased.length]
  have hrunning := h.markCheckpointNotDurable hs hd
  have hreferences : after.freeSetCheckpointReferences = .ok
      ⟨referenceTo (encoding grid.freeSet.blocksAcquired) blocksAcquired,
        referenceTo (encoding grid.freeSet.blocksReleased) blocksReleased⟩ := by
    unfold Grid.freeSetCheckpointReferences
    rw [h.savedAcquired.checkpointReference, ok_bind, h.savedReleased.checkpointReference, ok_bind]
    rfl
  obtain ⟨reopened, hopens, hopen⟩ := h.open_iff hs hc hf hcapacity
  rw [hlength] at hopen
  constructor
  · rintro ⟨running, references, result, _, hreferences', hresult, _⟩
    obtain rfl := Except.ok.inj (hreferences.symm.trans hreferences')
    exact ((hopen result).mp hresult).1
  · intro hcovered
    refine ⟨_, _, reopened, hrunning, hreferences, (hopen reopened).mpr ⟨hcovered, rfl⟩, ?_⟩
    have hsame := h.same
    have hacquired : reopened.freeSet.blocksAcquired = after.freeSet.blocksAcquired := by
      refine ext_of_bits fun i => ?_
      rw [Bool.eq_iff_iff, hopens.acquired, h.acquired_iff]
    have hreleased : reopened.freeSet.blocksReleased = after.freeSet.blocksReleased := by
      refine ext_of_bits fun i => ?_
      rw [hopens.released, hsame]
    have hreopened := hopens.valid hf hs.valid.released_acquired
    have hvalid := h.markCheckpointNotDurable hs hd
    have hkept := ((h.sound hs hd).markCheckpointNotDurable.post hvalid).valid
    have hopened := hopens.same
    have ⟨hblocks, hstate⟩ := hs.valid.unreserved hcount
    refine ⟨hacquired, hreleased, ?_, ?_⟩
    · rw [hopened]
    · refine Similar.responses ⟨hreopened, hkept, ?_, hacquired.symm, ?_, ?_, ?_⟩
      · dsimp only
        rw [hopened, hsame, hlimit]
      · dsimp only
        rw [hopened, hsame, hf.reservationBlocks, hblocks]
      · dsimp only
        rw [hopened, hsame, hf.reservationCount, hcount]
      · dsimp only
        rw [hopened, hsame, hf.reservationState, hstate]

-- Without reservations, a checkpoint that is not too large for the data file is written if and only if the
-- one before is durable. Its grid is opened again, and is then equal to the one that keeps running, if and
-- only if the trailers cover the acquired blocks.
theorem checkpoint_restarts {capacityBlocks : Nat}
    {grid : Grid (FreeSet.shardsFor (capacityBlocks * blockSize))}
    (hc : ∀ block : Block, Checksums.block block ≠ 0)
    (h : machine.Reachable (fun _ e => e.Proper) ⟨_, grid⟩)
    (hlimit : grid.freeSet.blocksCountLimit = (Grid.freeSetFor capacityBlocks).blocksCountLimit)
    (hcount : grid.freeSet.reservationCount = 0) :
    Meets
      (fun fault => grid.freeSet.checkpointDurable = true →
        fault = tooLarge ∧ (roomFor grid.freeSet).length < trailerBlockCount grid.freeSet)
      (fun after => grid.freeSet.checkpointDurable = true ∧
        (Restarts after (Grid.freeSetFor capacityBlocks) ↔ Covered grid.freeSet))
      grid.checkpoint := by
  have hs : Sound grid := sound_of_reachable hc h
  by_cases hd : grid.freeSet.checkpointDurable = true
  · refine (hs.checkpoint hd hcount).mono (fun after ⟨_, _, hcheckpointed⟩ => ⟨hd, ?_⟩) fun _ hf _ => hf
    exact hcheckpointed.restarts_iff hs hc hd hcount FreeSet.fresh_new capacity_freeSetFor hlimit.symm
  · refine Meets.trivial.returned.mono (fun after ⟨heq, _⟩ => ?_) fun _ _ hdurable => absurd hdurable hd
    exact absurd (checkpoint_admits heq).1 hd

end Equality

end TigerBeetle.GridTrailer
