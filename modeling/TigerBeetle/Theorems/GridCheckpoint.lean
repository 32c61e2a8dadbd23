import TigerBeetle.Theorems.BitCounts
import TigerBeetle.Theorems.GridTrailer

namespace TigerBeetle.GridTrailer

open Fallible DynamicBitSet

open Ewah (Byte Encoder wordBytes segments Segment stripped trailingZeroRuns writeWords)

open FreeSet (encoding encodeBits Suffices Splits freeBlocks Marks Markable)

open Superblock (dataFileSizeMin)

section Encoding

variable {shards : Nat} {set : FreeSet shards} {bits : DynamicBitSet (shards * shardBits)}
    {sizes : List Nat}

theorem length_encoding :
    (encoding bits).length = ((stripped bits.words.toList).flatMap Segment.encoded).length * wordBytes :=
  Ewah.length_writeWords

theorem encoding_aligned : (encoding bits).length % wordBytes = 0 := by
  rw [length_encoding]
  exact Nat.mul_mod_left _ _

theorem encodeBits_sized :
    Meets (fun _ => ¬Suffices sizes ((segments bits.words.toList).flatMap Segment.encoded))
      (fun (_, size) => size = (encoding bits).length) (encodeBits bits sizes) := by
  have hinto := @FreeSet.encodeInto_meets sizes _ _ _ (@Encoder.Follows.new bits.words.toList)
  rw [Encoder.pending_new] at hinto
  refine Meets.bind hinto fun ⟨chunks, total, after⟩ hr => ?_
  obtain ⟨htotal, _, hcount⟩ := hr
  have ⟨tail, hlen, hsplit⟩ := @Ewah.encoded_stripped bits.words.toList
  have hlength := congrArg List.length hsplit
  rw [List.length_append, hlen] at hlength
  dsimp only
  rw [hcount]
  rw [hlength, Nat.add_mul] at htotal
  rw [assert_of (by omega), ok_bind]
  show total - _ = _
  rw [length_encoding]
  omega

theorem decodeBits_nil {chunks : List (List Byte)} (hn : chunks = []) (h : encoding bits = []) :
    ∃ after, FreeSet.decodeBits (newEmpty : DynamicBitSet (shards * shardBits)) chunks = .ok after ∧
      ∀ i, after.bit i = bits.bit i := by
  have hchunks : chunks.flatten = encoding bits := by
    rw [hn, h]
    rfl
  have hdecode := @FreeSet.decodeBits_meets shards shards bits chunks hchunks
  refine Meets.iff_exists.mp (hdecode.mono (fun _ hd => hd) fun _ hf => ?_)
  cases hf with
  | inl hlt => exact Nat.lt_irrefl shards hlt
  | inr hf =>
    refine hf fun chunk hm => ?_
    rw [hn] at hm
    cases hm

theorem encoding_nil_iff : encoding bits = [] ↔ ∀ i, bits.bit i = false := by
  constructor
  · intro h i
    obtain ⟨after, heq, hafter⟩ := decodeBits_nil rfl h
    obtain ⟨after', heq', hafter'⟩ := decodeBits_nil rfl (@FreeSet.encoding_newEmpty shards)
    obtain rfl := Except.ok.inj (heq.symm.trans heq')
    rw [← hafter, hafter', bit_newEmpty]
  · intro h
    have hsame : encoding bits = encoding (newEmpty : DynamicBitSet (shards * shardBits)) :=
      FreeSet.encoding_congr fun i => (h i).trans bit_newEmpty.symm
    rw [hsame, FreeSet.encoding_newEmpty]

theorem chunkSizeMax_aligned : chunkSizeMax % wordBytes = 0 := by
  decide

theorem splits_encodeSizeMax (hs : 0 < shards) : Splits [set.encodeSizeMax] set.encodeSizeMax := by
  have hlength := @FreeSet.length_words shards
  have hmul := Nat.mul_pos hs FreeSet.shardBits_pos
  have hwords : 0 < shards * shardBits / wordBits := by
    unfold wordBits at *
    omega
  have hpos : 0 < set.encodeSizeMax := Nat.add_pos_right _ (Nat.mul_pos hwords (by decide))
  refine ⟨fun size hm => ?_, fun size hm => ?_, List.sum_singleton⟩
  · rw [List.mem_singleton.mp hm]
    unfold FreeSet.encodeSizeMax Ewah.encodeSizeMax
    rw [← Nat.add_mul]
    exact Nat.mul_mod_left _ _
  · rwa [List.mem_singleton.mp hm]

theorem suffices_trailerSizes {grid : Grid shards} (hs : 0 < shards)
    (bits : DynamicBitSet (shards * shardBits)) :
    Suffices grid.trailerSizes ((segments bits.words.toList).flatMap Segment.encoded) := by
  have hsplits := @splits_encodeSizeMax _ grid.freeSet hs
  have hpos := hsplits.filled _ (List.mem_singleton_self _)
  have hone := hsplits.suffices hs bits
  have ⟨_, _, hle⟩ := blockCount_spec hpos
  refine ⟨hone.some, fun size hm => ?_, fun size hm => ?_, ?_⟩
  · rw [List.eq_of_mem_replicate hm]
    exact chunkSizeMax_aligned
  · rw [List.eq_of_mem_replicate hm]
    exact chunkSizeMax_pos
  · have hroom := hone.room
    unfold Grid.trailerSizes
    rw [List.map_replicate, List.sum_replicate_nat]
    rw [List.map_singleton, List.sum_singleton] at hroom
    have hmul : blockCountForTrailerSize grid.freeSet.encodeSizeMax * chunkSizeMax =
        blockCountForTrailerSize grid.freeSet.encodeSizeMax * (chunkSizeMax / wordBytes) * wordBytes := by
      rw [Nat.mul_assoc, Nat.div_mul_cancel (Nat.dvd_of_mod_eq_zero chunkSizeMax_aligned)]
    rw [hmul] at hle
    exact hroom.trans (Nat.div_le_of_le_mul (by rwa [Nat.mul_comm]))

theorem length_encoding_le (hs : 0 < shards) : (encoding bits).length ≤ set.encodeSizeMax := by
  have hroom := ((@splits_encodeSizeMax _ set hs).suffices hs bits).room
  have ⟨tail, _, hsplit⟩ := @Ewah.encoded_stripped bits.words.toList
  rw [hsplit, List.length_append, List.map_singleton, List.sum_singleton] at hroom
  rw [length_encoding]
  have hmul := Nat.mul_le_mul_right wordBytes (Nat.le_of_add_right_le hroom)
  exact hmul.trans (Nat.div_mul_le_self _ _)

theorem blockCount_mono {size size' : Nat} (h : size ≤ size') :
    blockCountForTrailerSize size ≤ blockCountForTrailerSize size' :=
  Nat.div_le_div_right (Nat.add_le_add_right h _)

end Encoding

section Release

variable {shards block : Nat} {blocks : List Nat} {set : FreeSet shards}

theorem release_ok (ho : set.opened = true) (hd : set.checkpointDurable = false)
    (hb : set.Releasable block) (hr : set.blocksReleasedPriorCheckpointDurability.keys.length <
      set.blocksReleasedPriorCheckpointDurability.capacity) :
    set.release (block + 1) = .ok { set with
      blocksReleasedPriorCheckpointDurability := { set.blocksReleasedPriorCheckpointDurability with
        keys := set.blocksReleasedPriorCheckpointDurability.keys ++ [block] } } := by
  have hblock : FreeSet.blockOf (block + 1) = .ok block := by
    unfold FreeSet.blockOf
    rw [assert_of (Nat.succ_pos _)]
    rfl
  have hprior : (!set.blocksReleasedPriorCheckpointDurability.contains block) = true := by
    simpa [ReleasedPriorCheckpointDurability.contains] using hb.prior
  unfold FreeSet.release ReleasedPriorCheckpointDurability.putAssumeCapacity
  rw [assert_of ho, ok_bind, hblock, ok_bind, get_eq hb.within, ok_bind, hb.acquired, assert_of rfl, ok_bind,
    get_eq hb.within, ok_bind, hb.released, assert_of (by decide), ok_bind, assert_of hprior, ok_bind, hd]
  simp only [Bool.false_eq_true, if_false]
  rw [assert_of hprior, ok_bind, assert_of hr]
  rfl

theorem release_all (ho : set.opened = true) (hd : set.checkpointDurable = false)
    (hb : ∀ block ∈ blocks, set.Releasable block) (hn : blocks.Nodup)
    (hr : set.blocksReleasedPriorCheckpointDurability.keys.length + blocks.length ≤
      set.blocksReleasedPriorCheckpointDurability.capacity) :
    Grid.release (blocks.map (· + 1)) set = .ok { set with
      blocksReleasedPriorCheckpointDurability := { set.blocksReleasedPriorCheckpointDurability with
        keys := set.blocksReleasedPriorCheckpointDurability.keys ++ blocks } } := by
  induction blocks generalizing set with
  | nil =>
    rw [List.append_nil]
    rfl
  | cons block blocks ih =>
    rw [List.length_cons] at hr
    rw [List.map_cons, Grid.release, release_ok ho hd (hb block (by simp)) (by omega), ok_bind]
    refine (@ih { set with
      blocksReleasedPriorCheckpointDurability := { set.blocksReleasedPriorCheckpointDurability with
        keys := set.blocksReleasedPriorCheckpointDurability.keys ++ [block] } }
      ho hd (fun b hm => ?_) hn.of_cons ?_).trans ?_
    · have hreleasable := hb b (by simp [hm])
      refine ⟨hreleasable.within, hreleasable.acquired, hreleasable.released, ?_⟩
      have hne : b ≠ block := fun he => (List.nodup_cons.mp hn).1 (he ▸ hm)
      simp [hreleasable.prior, hne]
    · simp only [List.length_append, List.length_singleton]
      omega
    · simp only [List.append_assoc, List.singleton_append]

end Release

section Open

variable {shards : Nat} {set set' after : FreeSet shards}
    {addresses addressesAcquired addressesReleased : List Nat}
    {chunksAcquired chunksReleased : List (List Byte)}

theorem markReleased_ok (ho : set.opened = false) (hd : set.checkpointDurable = false)
    (hm : set.Markable 0 addresses) :
    ∃ after, set.markReleased addresses = .ok after ∧ set.Marks (addresses.map (· - 1)) after := by
  unfold FreeSet.markReleased
  rw [ho, hd, assert_of (by decide), ok_bind, assert_of (by decide), ok_bind]
  exact Meets.iff_exists.mp (FreeSet.markReleasedFrom_meets.mono (fun _ h => h) fun _ hn => hn hm)

-- A set is opened with the blocks of two trailers, each in the order of their addresses.
structure Stores (set set' : FreeSet shards) (chunksAcquired chunksReleased : List (List Byte))
    (addressesAcquired addressesReleased : List Nat) : Prop where
  aligned : ∀ chunk ∈ chunksAcquired ++ chunksReleased, chunk.length % wordBytes = 0
  stored : (chunksAcquired.isEmpty && chunksReleased.isEmpty) =
    (addressesAcquired.isEmpty && addressesReleased.isEmpty)
  orderedAcquired : (0 :: addressesAcquired).Pairwise (· < ·)
  orderedReleased : (0 :: addressesReleased).Pairwise (· < ·)
  apart : ∀ address ∈ addressesReleased, address ∉ addressesAcquired
  free : ∀ address ∈ addressesAcquired ++ addressesReleased,
    address - 1 < shards * shardBits ∧ set'.blocksAcquired.bit (address - 1) = false ∧
      set'.blocksReleased.bit (address - 1) = false
  room : (addressesAcquired ++ addressesReleased).length ≤
    set.blocksReleasedPriorCheckpointDurability.capacity

theorem Stores.opens (h : Stores set set' chunksAcquired chunksReleased addressesAcquired addressesReleased)
    (hf : set.Fresh) (ha : chunksAcquired.flatten = encoding set'.blocksAcquired)
    (hr : chunksReleased.flatten = encoding set'.blocksReleased) :
    ∃ after, set.open chunksAcquired chunksReleased addressesAcquired addressesReleased = .ok after ∧
      set.Opens set' ((addressesAcquired ++ addressesReleased).map (· - 1)) after := by
  have hopens := @FreeSet.open_meets shards set shards set' chunksAcquired chunksReleased addressesAcquired
    addressesReleased hf ha hr
  obtain ⟨decoded, hdecode, acquired, released, hdecoded, hacquired, hreleased⟩ :=
    Meets.iff_exists.mp ((FreeSet.decode_meets hf ha hr).mono (fun _ hd => hd)
      fun _ hn => hn.elim (Nat.lt_irrefl _) fun hn => hn h.aligned)
  have hroom := h.room
  rw [List.length_append] at hroom
  have hkeys : decoded.blocksReleasedPriorCheckpointDurability.keys = [] := by rw [hdecoded, hf.keys]
  have hcapacity : decoded.blocksReleasedPriorCheckpointDurability.capacity =
      set.blocksReleasedPriorCheckpointDurability.capacity := by rw [hdecoded]
  have hclosed : decoded.opened = false := by rw [hdecoded, hf.opened]
  have hdurable : decoded.checkpointDurable = false := by rw [hdecoded, hf.checkpointDurable]
  have hmarkable : decoded.Markable 0 addressesAcquired := by
    refine ⟨h.orderedAcquired, fun address hm => ?_, ?_⟩
    · have ⟨hlt, hfree, hfree'⟩ := h.free address (List.mem_append_left _ hm)
      rw [hkeys, hdecoded]
      exact ⟨hlt, (hacquired _).trans hfree, (hreleased _).trans hfree', List.not_mem_nil⟩
    · rw [hkeys, hcapacity, List.length_nil]
      omega
  obtain ⟨next, hnext, hmarks⟩ := markReleased_ok hclosed hdurable hmarkable
  have hsame := hmarks.same
  have hclosed' : next.opened = false := by rw [hsame, hclosed]
  have hdurable' : next.checkpointDurable = false := by rw [hsame, hdurable]
  have hpos : ∀ address ∈ addressesAcquired ++ addressesReleased, 0 < address := by
    intro address hm
    cases List.mem_append.mp hm with
    | inl hm => exact List.rel_of_pairwise_cons h.orderedAcquired hm
    | inr hm => exact List.rel_of_pairwise_cons h.orderedReleased hm
  have hmarkable' : next.Markable 0 addressesReleased := by
    refine ⟨h.orderedReleased, fun address hm => ?_, ?_⟩
    · have ⟨hlt, hfree, hfree'⟩ := h.free address (List.mem_append_right _ hm)
      have hnot : address - 1 ∉ addressesAcquired.map (· - 1) := by
        intro hm'
        obtain ⟨a, ha', he⟩ := List.mem_map.mp hm'
        have hpos' := hpos a (List.mem_append_left _ ha')
        have hpos := hpos address (List.mem_append_right _ hm)
        have heq : a = address := by omega
        exact h.apart address hm (heq ▸ ha')
      refine ⟨hlt, ?_, ?_, ?_⟩
      · rw [Bool.eq_false_iff]
        intro hset
        cases (hmarks.acquired _).mp hset with
        | inl hset =>
          rw [hdecoded] at hset
          have hfalse := (hacquired _).trans hfree
          dsimp only at hset
          rw [hfalse] at hset
          cases hset
        | inr hset => exact hnot hset
      · rw [hsame, hdecoded]
        exact (hreleased _).trans hfree'
      · rw [hsame, hkeys, List.nil_append]
        exact hnot
    · rw [hsame, hkeys, hcapacity, List.nil_append, List.length_map]
      exact hroom
  obtain ⟨marked, hmarked, _⟩ := markReleased_ok hclosed' hdurable' hmarkable'
  have heq : set.open chunksAcquired chunksReleased addressesAcquired addressesReleased =
      .ok { marked with opened := true } := by
    unfold FreeSet.open
    dsimp only
    rw [hf.opened, assert_of (by decide), ok_bind, assert_of h.stored, ok_bind, hdecode, ok_bind, hnext,
      ok_bind, hmarked]
    rfl
  exact ⟨_, heq, hopens.post heq⟩

end Open

section Checkpoint

variable [Checksums] {shards : Nat} {grid after : Grid shards}
    {blocks blocksAcquired blocksReleased : List Block}

-- A trailer of a later checkpoint is not empty if there has been one before.
structure Sound (grid : Grid shards) : Prop where
  nonempty : 0 < shards
  valid : grid.freeSet.Valid
  capacity : shards * shardBits ≤ grid.freeSet.blocksReleasedPriorCheckpointDurability.capacity
  acquired : grid.freeSet.checkpointDurable = true →
    grid.freeSetCheckpointBlocksAcquired.blockIndex ≠ 0 →
    ∃ i, grid.freeSet.blocksAcquired.bit i = true
  released : grid.freeSet.checkpointDurable = true →
    grid.freeSetCheckpointBlocksReleased.blockIndex ≠ 0 →
    ∃ i, grid.freeSet.blocksReleased.bit i = true
  pending : grid.freeSet.checkpointDurable = false →
    grid.freeSetCheckpointBlocksAcquired.blockIndex ≠ 0 ∨
      grid.freeSetCheckpointBlocksReleased.blockIndex ≠ 0 →
      grid.freeSet.blocksReleasedPriorCheckpointDurability.keys ≠ []
  addresses :
    grid.freeSetCheckpointBlocksAcquired.blockIndex ≠ 0 ∨
      grid.freeSetCheckpointBlocksReleased.blockIndex ≠ 0 →
      grid.freeSetCheckpointBlocksAcquired.addresses ++
        grid.freeSetCheckpointBlocksReleased.addresses ≠ []

omit [Checksums] in
theorem Sound.encodeChunks (h : Sound grid) (hd : grid.freeSet.checkpointDurable = true)
    (hc : grid.freeSet.reservationCount = 0) :
    Meets (fun _ => False) (fun (acquired, released) =>
      (acquired.1.take acquired.2 = encoding grid.freeSet.blocksAcquired ∧
        acquired.2 = (encoding grid.freeSet.blocksAcquired).length) ∧
      released.1.take released.2 = encoding grid.freeSet.blocksReleased ∧
        released.2 = (encoding grid.freeSet.blocksReleased).length)
      (grid.freeSet.encodeChunks grid.trailerSizes grid.trailerSizes) := by
  have hencode := fun bits => ((@FreeSet.encodeBits_meets shards grid.trailerSizes bits).and
    encodeBits_sized).mono (fun _ he => he) fun _ hn => hn (suffices_trailerSizes h.nonempty bits)
  unfold FreeSet.encodeChunks
  rw [assert_of h.valid.opened, ok_bind, assert_of hd, ok_bind, assert_of hc, ok_bind,
    assert_of (h.valid.unreserved hc).1, ok_bind]
  refine Meets.bind (hencode _) fun acquired ha => ?_
  exact Meets.bind (hencode _) fun released hr => ⟨ha, hr⟩

-- The blocks of both trailers are the first that have been free.
structure Checkpointed (grid : Grid shards) (blocksAcquired blocksReleased : List Block)
    (after : Grid shards) : Prop where
  same : after.freeSet = { grid.freeSet with
    index := after.freeSet.index
    blocksAcquired := after.freeSet.blocksAcquired
    reservationSession := after.freeSet.reservationSession }
  valid : after.freeSet.Valid
  acquired : ∀ i, after.freeSet.blocksAcquired.bit i = true ↔
    grid.freeSet.blocksAcquired.bit i = true ∨ i + 1 ∈ (blocksAcquired ++ blocksReleased).map (·.address)
  addresses : (blocksAcquired ++ blocksReleased).map (·.address) =
    ((freeBlocks grid.freeSet.blocksAcquired 0 (shards * shardBits)).take
      (blocksAcquired ++ blocksReleased).length).map (· + 1)
  savedAcquired : Saved after.storage (encoding grid.freeSet.blocksAcquired) blocksAcquired
    after.freeSetCheckpointBlocksAcquired
  savedReleased : Saved after.storage (encoding grid.freeSet.blocksReleased) blocksReleased
    after.freeSetCheckpointBlocksReleased
  agrees : (∀ s < shards, grid.freeSet.Agrees s) → ∀ s < shards, after.freeSet.Agrees s

-- The blocks that the encoded sets need.
def trailerBlockCount (set : FreeSet shards) : Nat :=
  blockCountForTrailerSize (encoding set.blocksAcquired).length +
    blockCountForTrailerSize (encoding set.blocksReleased).length

-- The free blocks that may be acquired.
def roomFor (set : FreeSet shards) : List Nat :=
  freeBlocks set.blocksAcquired 0 (min set.blocksCountLimit (shards * shardBits))

theorem Sound.checkpoint (h : Sound grid) (hd : grid.freeSet.checkpointDurable = true)
    (hc : grid.freeSet.reservationCount = 0) :
    Meets (fun fault => fault = tooLarge ∧ (roomFor grid.freeSet).length < trailerBlockCount grid.freeSet)
      (fun after => ∃ blocksAcquired blocksReleased,
        Checkpointed grid blocksAcquired blocksReleased after) grid.checkpoint := by
  unfold Grid.checkpoint
  rw [assert_of hc, ok_bind]
  refine Meets.bind ((h.encodeChunks hd hc).mono (fun _ he => he) fun _ hn => hn.elim)
    fun (acquired, released) ⟨⟨hacquired, hsize⟩, hreleased, hsize'⟩ => ?_
  have hfits : acquired.2 = 0 → grid.freeSetCheckpointBlocksAcquired.blockIndex = 0 := by
    intro hzero
    by_contra hne
    obtain ⟨i, hi⟩ := h.acquired hd hne
    rw [encoding_nil_iff.mp (List.eq_nil_of_length_eq_zero (hsize ▸ hzero)) i] at hi
    cases hi
  have hfits' : released.2 = 0 → grid.freeSetCheckpointBlocksReleased.blockIndex = 0 := by
    intro hzero
    by_contra hne
    obtain ⟨i, hi⟩ := h.released hd hne
    rw [encoding_nil_iff.mp (List.eq_nil_of_length_eq_zero (hsize' ▸ hzero)) i] at hi
    cases hi
  refine Meets.bind ((trailerCheckpoint_meets h.valid hc hacquired hsize
    (hsize ▸ encoding_aligned) hfits).mono
    (fun _ ht => ht) fun _ ⟨he, hfew⟩ => ⟨he, Nat.lt_add_right _ hfew⟩)
    fun (trailer, next) ⟨blocks, hsaved, haddresses, hw⟩ => ?_
  have hsame := hw.same
  have hc' : next.freeSet.reservationCount = 0 := by rw [hsame, hc]
  have htrailer : next.freeSetCheckpointBlocksReleased =
      grid.freeSetCheckpointBlocksReleased := by rw [hsame]
  dsimp only
  rw [htrailer]
  have hlimit : next.freeSet.blocksCountLimit = grid.freeSet.blocksCountLimit := by rw [hsame]
  -- There are as many blocks fewer as the first trailer has.
  have hroom : (freeBlocks next.freeSet.blocksAcquired 0
      (min next.freeSet.blocksCountLimit (shards * shardBits))).length <
        blockCountForTrailerSize (encoding grid.freeSet.blocksReleased).length →
      (roomFor grid.freeSet).length < trailerBlockCount grid.freeSet := by
    intro hfew
    by_contra hge
    unfold roomFor trailerBlockCount at hge
    rw [← hsaved.length] at hge
    have hsplit := @FreeSet.freeBlocks_append _ grid.freeSet.blocksAcquired 0
      (min grid.freeSet.blocksCountLimit (shards * shardBits)) (shards * shardBits) (Nat.zero_le _)
      (Nat.min_le_right _ _)
    have hleft : freeBlocks next.freeSet.blocksAcquired 0
        (min grid.freeSet.blocksCountLimit (shards * shardBits)) =
        (freeBlocks grid.freeSet.blocksAcquired 0
          (min grid.freeSet.blocksCountLimit (shards * shardBits))).drop blocks.length := by
      refine freeBlocks_taken fun i => ?_
      rw [hw.acquired, haddresses, List.mem_map_of_injective Nat.succ_injective, hsplit,
        List.take_append_of_le_length (by omega)]
    rw [hlimit, hleft, List.length_drop] at hfew
    omega
  refine Meets.bind ((trailerCheckpoint_meets hw.valid hc' hreleased hsize' (hsize' ▸ encoding_aligned)
    hfits').mono (fun _ ht => ht) fun _ ⟨he, hfew⟩ => ⟨he, hroom hfew⟩)
    fun (trailer', after) ⟨blocks', hsaved', haddresses', hw'⟩ => ?_
  have hsame' := hw'.same
  -- The blocks of the second trailer follow those of the first one.
  have htaken : freeBlocks next.freeSet.blocksAcquired 0 (shards * shardBits) =
      (freeBlocks grid.freeSet.blocksAcquired 0 (shards * shardBits)).drop blocks.length := by
    refine freeBlocks_taken fun i => ?_
    rw [hw.acquired, haddresses, List.mem_map_of_injective Nat.succ_injective]
  rw [htaken] at haddresses'
  have hall : (blocks ++ blocks').map (·.address) =
      ((freeBlocks grid.freeSet.blocksAcquired 0 (shards * shardBits)).take
        (blocks ++ blocks').length).map (· + 1) := by
    rw [List.map_append, haddresses, haddresses', List.length_append, List.take_add, List.map_append]
  refine ⟨blocks, blocks', ?_, hw'.valid, fun i => ?_, hall, hsaved.congr fun block hm => ?_, hsaved',
    fun ha => hw'.agrees (hw.agrees ha)⟩
  · show after.freeSet = _
    rw [hsame', hsame]
  · show after.freeSet.blocksAcquired.bit i = true ↔ _
    rw [hw'.acquired, hw.acquired, List.map_append, List.mem_append, or_assoc]
  · refine hw'.untouched _ fun hm' => ?_
    have hnodup : ((blocks ++ blocks').map (·.address)).Nodup := by
      rw [hall]
      exact (nodup_freeBlocks.sublist (List.take_sublist _ _)).map Nat.succ_injective
    rw [List.map_append, List.nodup_append] at hnodup
    exact hnodup.2.2 _ (List.mem_map_of_mem hm) _ hm' rfl

end Checkpoint

end TigerBeetle.GridTrailer
