import TigerBeetle.Theorems.GridCheckpoint

namespace TigerBeetle.GridTrailer

open Fallible DynamicBitSet

open Ewah (Byte Encoder wordBytes segments Segment stripped trailingZeroRuns writeWords)

open FreeSet (encoding encodeBits Suffices Splits freeBlocks Marks Markable)

open Superblock (dataFileSizeMin)

section Reopen

variable [Checksums] {storage : Nat → Option Block} {encoded : List Byte} {blocks : List Block}
    {trailer : CheckpointTrailer} {blockCountMax : Nat}

-- How a trailer is referred to, empty or not.
def referenceTo (encoded : List Byte) (blocks : List Block) : TrailerReference where
  checksum := Checksums.body encoded
  lastBlockAddress := (lastReference (0, 0) blocks).1
  lastBlockChecksum := (lastReference (0, 0) blocks).2
  trailerSize := encoded.length

section

variable (h : Saved storage encoded blocks trailer)

include h

theorem Saved.blocks_nil (he : encoded = []) : blocks = [] := by
  refine List.eq_nil_of_length_eq_zero ?_
  rw [h.length, he]
  exact blockCount_zero

theorem Saved.aligned (ha : encoded.length % wordBytes = 0) :
    ∀ chunk ∈ blocks.map (·.body), chunk.length % wordBytes = 0 := by
  intro chunk hm
  obtain ⟨block, hb, rfl⟩ := List.mem_map.mp hm
  obtain ⟨i, hi⟩ := List.mem_iff_getElem?.mp hb
  have hpos : 0 < encoded.length := by
    refine Nat.pos_of_ne_zero fun hzero => ?_
    rw [h.blocks_nil (List.eq_nil_of_length_eq_zero hzero)] at hb
    cases hb
  rw [h.stored.sized i block hi]
  exact chunkSize_aligned hpos ha

theorem Saved.exists_concat (he : encoded ≠ []) : ∃ before last, blocks = before ++ [last] := by
  have ⟨hcount, _, _⟩ := blockCount_spec (List.length_pos_iff.mpr he)
  have hne : blocks ≠ [] := List.ne_nil_of_length_pos (h.length ▸ hcount)
  exact ⟨_, _, (List.dropLast_append_getLast hne).symm⟩

theorem Saved.checkpointReference :
    trailer.checkpointReference = .ok (referenceTo encoded blocks) := by
  unfold CheckpointTrailer.checkpointReference
  by_cases he : encoded = []
  · have hzero : trailer.size = 0 := by
      rw [h.size, he]
      rfl
    rw [h.blocks_nil he, he, if_pos hzero]
    unfold TrailerReference.empty TrailerReference.none
    simp only [if_true, assert_of trivial, ok_bind, hzero, decide_true]
    rfl
  · obtain ⟨before, last, hblocks⟩ := h.exists_concat he
    have hpos : ¬trailer.size = 0 := by
      rw [h.size, List.length_eq_zero_iff]
      exact he
    have hlast : 0 < trailer.addresses.getLastD 0 := by
      have haddress := h.stored.pos last (by simp [hblocks])
      rw [h.addresses, hblocks]
      simpa using haddress
    rw [if_neg hpos]
    unfold TrailerReference.empty
    simp only [hpos, if_false, assert_of hlast, ok_bind, pure_bind, decide_false, assert_of trivial]
    rw [h.checksum he, h.addresses, h.checksums, h.size, hblocks]
    simp [referenceTo, lastReference, Block.reference]
    rfl

end

-- A trailer that is opened from its blocks.
def openedFrom (encoded : List Byte) (blocks : List Block) : CheckpointTrailer where
  size := encoded.length
  checksum := Checksums.body encoded
  blockIndex := 0
  addresses := blocks.map (·.address)
  checksums := blocks.map Checksums.block

theorem Saved.trailerOpen (hc : ∀ block : Block, Checksums.block block ≠ 0)
    (h : Saved storage encoded blocks trailer) (ha : encoded.length % wordBytes = 0)
    (hm : blockCountForTrailerSize encoded.length ≤ blockCountMax) :
    Grid.trailerOpen storage blockCountMax (referenceTo encoded blocks) =
      .ok (openedFrom encoded blocks, blocks.map (·.body)) := by
  have ha' : (referenceTo encoded blocks).trailerSize % wordBytes = 0 := ha
  have hm' : blockCountForTrailerSize (referenceTo encoded blocks).trailerSize ≤ blockCountMax := hm
  unfold Grid.trailerOpen
  dsimp only
  rw [assert_of ha', ok_bind, assert_of hm', ok_bind]
  by_cases he : encoded = []
  · have hzero : (referenceTo encoded blocks).trailerSize = 0 := List.length_eq_zero_iff.mpr he
    have hnil := h.blocks_nil he
    have haddress : (referenceTo encoded blocks).lastBlockAddress = 0 := by
      rw [hnil]
      rfl
    have hchecksum : (referenceTo encoded blocks).lastBlockChecksum = 0 := by
      rw [hnil]
      rfl
    have hsum : Checksums.body ([] : List (List Byte)).flatten =
        (referenceTo encoded blocks).checksum := by
      unfold referenceTo
      rw [he]
      rfl
    rw [if_pos hzero, assert_of haddress, ok_bind, assert_of hchecksum, ok_bind, pure_bind]
    dsimp only
    rw [assert_of hsum, ok_bind, hnil]
    rfl
  · obtain ⟨before, last, hblocks⟩ := h.exists_concat he
    have hstored := h.stored
    have hlength := h.length
    rw [hblocks] at hstored hlength
    rw [List.length_append, List.length_singleton] at hlength
    have hread := @Stored.read _ _ before last _ _ hc hstored [] fun _ _ => List.not_mem_nil
    have hlast : lastReference (0, 0) blocks = last.reference := by
      rw [hblocks]
      simp [lastReference]
    have hpos : ¬(referenceTo encoded blocks).trailerSize = 0 := mt List.length_eq_zero_iff.mp he
    have hsum : Checksums.body ((before ++ [last]).map (·.body)).flatten =
        (referenceTo encoded blocks).checksum := by
      rw [← hblocks, h.bodies]
      rfl
    have hopen : Grid.trailerOpenReadNext storage
        (blockCountForTrailerSize (referenceTo encoded blocks).trailerSize)
        (referenceTo encoded blocks).trailerSize
        (blockCountForTrailerSize (referenceTo encoded blocks).trailerSize)
        (referenceTo encoded blocks).lastBlockAddress (referenceTo encoded blocks).lastBlockChecksum [] =
          .ok ((before ++ [last]).map Block.reference, (before ++ [last]).map (·.body)) := by
      unfold referenceTo
      dsimp only
      rw [hlast]
      conv_lhs => arg 4; rw [← hlength]
      exact hread
    rw [if_neg hpos, hopen, ok_bind]
    dsimp only
    rw [assert_of hsum, ok_bind, List.map_map, List.map_map, hblocks]
    rfl

end Reopen

section Highest

variable {shards k i : Nat} {set : FreeSet shards} {bits : DynamicBitSet (shards * shardBits)}
    {list addresses : List Nat}

theorem le_foldr_max (h : i ∈ list) : i ≤ list.foldr max 0 := by
  induction list with
  | nil => cases h
  | cons j list ih =>
    cases List.mem_cons.mp h with
    | inl he => exact he ▸ Nat.le_max_left _ _
    | inr hm => exact (ih hm).trans (Nat.le_max_right _ _)

theorem foldr_max_mem (h : 0 < list.foldr max 0) : list.foldr max 0 ∈ list := by
  induction list with
  | nil => exact absurd h (Nat.lt_irrefl _)
  | cons j list ih =>
    rw [List.foldr_cons] at h ⊢
    rcases Nat.le_total j (list.foldr max 0) with hle | hle
    · rw [Nat.max_eq_right hle] at h ⊢
      exact List.mem_cons_of_mem _ (ih h)
    · rw [Nat.max_eq_left hle]
      exact List.mem_cons_self ..

theorem pairwise_freeBlocks {lo hi : Nat} : (freeBlocks bits lo hi).Pairwise (· < ·) := by
  unfold freeBlocks
  exact List.Pairwise.filter _ List.pairwise_lt_range'

theorem le_highestAddressAcquired (h : set.blocksAcquired.bit i = true) :
    i + 1 ≤ highestAddressAcquired set := by
  have hlt : i < shards * shardBits := FreeSet.lt_of_bit h
  have hm : i ∈ set.blocksAcquired.iterSet := mem_iterSet.mpr ⟨hlt, h⟩
  have hne : set.blocksAcquired.iterSet ≠ [] := List.ne_nil_of_mem hm
  unfold highestAddressAcquired
  rw [List.getLast?_eq_some_getLast hne]
  refine Nat.succ_le_succ ?_
  have hsorted : set.blocksAcquired.iterSet.Pairwise (· < ·) :=
      List.Pairwise.filter _ List.pairwise_lt_range
  rw [← List.dropLast_append_getLast hne] at hm hsorted
  cases List.mem_append.mp hm with
  | inl hm => exact ((List.pairwise_append.mp hsorted).2.2 i hm _ (by simp)).le
  | inr hm => exact (List.mem_singleton.mp hm).le

theorem highestAddressAcquired_mem (h : 0 < highestAddressAcquired set) :
    ∃ i, set.blocksAcquired.bit i = true ∧ highestAddressAcquired set = i + 1 := by
  unfold highestAddressAcquired at h ⊢
  cases hlast : set.blocksAcquired.iterSet.getLast? with
  | none =>
    rw [hlast] at h
    exact absurd h (Nat.lt_irrefl _)
  | some i => exact ⟨i, (mem_iterSet.mp (List.mem_of_getLast? hlast)).2, rfl⟩

-- A block is below one of the first free ones if there are fewer free blocks below it.
theorem exists_above_iff (hk : k ≤ (freeBlocks bits 0 (shards * shardBits)).length)
    (hi : i < shards * shardBits) :
    (∃ j ∈ (freeBlocks bits 0 (shards * shardBits)).take k, i ≤ j) ↔ (freeBlocks bits 0 i).length < k := by
  have hsplit := @FreeSet.freeBlocks_append _ bits 0 i (shards * shardBits) (Nat.zero_le _) hi.le
  rw [hsplit] at hk ⊢
  constructor
  · rintro ⟨j, hj, hle⟩
    by_contra hge
    rw [List.take_append_of_le_length (Nat.not_lt.mp hge)] at hj
    have ⟨⟨_, hlt⟩, _⟩ := FreeSet.mem_freeBlocks.mp (List.mem_of_mem_take hj)
    omega
  · intro hlt
    rw [List.length_append] at hk
    rw [List.take_append, List.take_of_length_le hlt.le]
    cases hrest : freeBlocks bits i (shards * shardBits) with
    | nil =>
      rw [hrest, List.length_nil] at hk
      omega
    | cons j rest =>
      have hj : j ∈ freeBlocks bits i (shards * shardBits) := hrest ▸ List.mem_cons_self ..
      obtain ⟨d, hd⟩ := Nat.exists_eq_succ_of_ne_zero (Nat.sub_ne_zero_of_lt hlt)
      refine ⟨j, ?_, (FreeSet.mem_freeBlocks.mp hj).1.1⟩
      rw [hd, List.take_succ_cons]
      simp

theorem assert_iff {p : Prop} [Decidable p] {message : String} : assert p message = .ok () ↔ p := by
  constructor
  · intro h
    have hmeets : Meets (fun _ => True) (fun _ => p) (assert p message) :=
      meets_assert.mpr ⟨fun hp => hp, fun _ => trivial⟩
    exact hmeets.post h
  · exact fun h => assert_of h

theorem dataFileSizeMin_pos : 0 < dataFileSizeMin := by
  decide

theorem checkStorageSize_iff : Grid.checkStorageSize (storageSizeFor set) addresses = .ok () ↔
    addresses.foldr max 0 = highestAddressAcquired set := by
  have hne : ¬storageSizeFor set = 0 := by
    have hpos := dataFileSizeMin_pos
    unfold storageSizeFor
    omega
  unfold Grid.checkStorageSize
  dsimp only
  rw [if_neg hne, assert_iff]
  unfold storageSizeFor
  have hblock : 0 < blockSize := by decide
  rw [Nat.add_left_cancel_iff]
  exact Nat.mul_left_inj hblock.ne'

end Highest

section Restart

variable [Checksums] {shards : Nat} {grid after : Grid shards} {fresh opened : FreeSet shards}
    {blocksAcquired blocksReleased : List Block} {addresses : List Nat}

-- The blocks of the trailers of a grid.
def trailerBlocks (blocksAcquired blocksReleased : List Block) : List Nat :=
  (blocksAcquired ++ blocksReleased).map (·.address - 1)

namespace Checkpointed

variable (h : Checkpointed grid blocksAcquired blocksReleased after)

include h

theorem trailerBlocks_eq : trailerBlocks blocksAcquired blocksReleased =
    (freeBlocks grid.freeSet.blocksAcquired 0 (shards * shardBits)).take
      (blocksAcquired ++ blocksReleased).length := by
  have haddresses := congrArg (List.map (· - 1)) h.addresses
  rw [List.map_map, List.map_map] at haddresses
  refine Eq.trans haddresses ?_
  exact List.map_id' _

theorem addresses_eq : (blocksAcquired ++ blocksReleased).map (·.address) =
    (trailerBlocks blocksAcquired blocksReleased).map (· + 1) := by
  rw [h.trailerBlocks_eq]
  exact h.addresses

theorem nodup : (trailerBlocks blocksAcquired blocksReleased).Nodup := by
  rw [h.trailerBlocks_eq]
  exact nodup_freeBlocks.sublist (List.take_sublist _ _)

theorem free {i : Nat} (hv : grid.freeSet.Valid) (hi : i ∈ trailerBlocks blocksAcquired blocksReleased) :
    i < shards * shardBits ∧ grid.freeSet.blocksAcquired.bit i = false ∧
      grid.freeSet.blocksReleased.bit i = false := by
  rw [h.trailerBlocks_eq] at hi
  have ⟨⟨_, hlt⟩, hfree⟩ := FreeSet.mem_freeBlocks.mp (List.mem_of_mem_take hi)
  refine ⟨hlt, hfree, ?_⟩
  rw [Bool.eq_false_iff]
  intro hr
  rw [hv.released_acquired i hr] at hfree
  cases hfree

theorem acquired_iff {i : Nat} : after.freeSet.blocksAcquired.bit i = true ↔
    grid.freeSet.blocksAcquired.bit i = true ∨ i ∈ trailerBlocks blocksAcquired blocksReleased := by
  rw [h.acquired, h.addresses_eq, List.mem_map_of_injective Nat.succ_injective]

theorem length_le : (trailerBlocks blocksAcquired blocksReleased).length ≤ shards * shardBits := by
  rw [h.trailerBlocks_eq]
  refine (List.length_take_le' _ _).trans ?_
  unfold freeBlocks
  refine (List.length_filter_le _ _).trans ?_
  rw [List.length_range', Nat.sub_zero]

theorem markCheckpointNotDurable (hs : Sound grid) (hd : grid.freeSet.checkpointDurable = true) :
    after.markCheckpointNotDurable = .ok { after with
      freeSet := { after.freeSet with
        checkpointDurable := false
        blocksReleasedPriorCheckpointDurability :=
          { after.freeSet.blocksReleasedPriorCheckpointDurability with
          keys := trailerBlocks blocksAcquired blocksReleased } } } := by
  have hsame := h.same
  have hkeys : after.freeSet.blocksReleasedPriorCheckpointDurability.keys = [] := by
    rw [hsame]
    exact hs.valid.durable hd
  have hdurable : after.freeSet.checkpointDurable = true := by rw [hsame, hd]
  have hcapacity : shards * shardBits ≤ after.freeSet.blocksReleasedPriorCheckpointDurability.capacity := by
    rw [hsame]
    exact hs.capacity
  have hzero : after.freeSet.blocksReleasedPriorCheckpointDurability.keys.length = 0 := by
    rw [hkeys]
    rfl
  have haddresses : after.freeSetCheckpointBlocksAcquired.addresses ++
      after.freeSetCheckpointBlocksReleased.addresses =
        (trailerBlocks blocksAcquired blocksReleased).map (· + 1) := by
    rw [h.savedAcquired.addresses, h.savedReleased.addresses, ← List.map_append, h.addresses_eq]
  have hrelease := @release_all shards (trailerBlocks blocksAcquired blocksReleased)
    { after.freeSet with checkpointDurable := false } h.valid.opened rfl (fun block hm => ?_) h.nodup ?_
  · unfold Grid.markCheckpointNotDurable FreeSet.markCheckpointNotDurable
    rw [assert_of h.valid.opened, ok_bind, assert_of hdurable, ok_bind, assert_of hzero, ok_bind, pure_bind,
      haddresses, hrelease]
    rw [hkeys]
    rfl
  · have ⟨hlt, _, hreleased⟩ := h.free hs.valid hm
    refine ⟨hlt, h.acquired_iff.mpr (.inr hm), ?_, ?_⟩
    · rw [hsame]
      exact hreleased
    · rw [hkeys]
      exact List.not_mem_nil
  · have hle := h.length_le
    dsimp only
    omega

theorem stores (hs : Sound grid) (hcapacity : shards * shardBits ≤
      fresh.blocksReleasedPriorCheckpointDurability.capacity) :
    Stores fresh grid.freeSet (blocksAcquired.map (·.body)) (blocksReleased.map (·.body))
      (blocksAcquired.map (·.address)) (blocksReleased.map (·.address)) := by
  have haddresses := h.addresses_eq
  have hnodup : ((blocksAcquired ++ blocksReleased).map (·.address)).Nodup := by
    rw [haddresses]
    exact h.nodup.map Nat.succ_injective
  have hordered : (0 :: (blocksAcquired ++ blocksReleased).map (·.address)).Pairwise (· < ·) := by
    rw [haddresses, List.pairwise_cons]
    refine ⟨fun address hm => ?_, ?_⟩
    · obtain ⟨i, _, rfl⟩ := List.mem_map.mp hm
      exact Nat.succ_pos i
    · rw [List.pairwise_map, h.trailerBlocks_eq]
      exact (pairwise_freeBlocks.sublist (List.take_sublist _ _)).imp Nat.succ_lt_succ
  rw [List.map_append] at hnodup hordered haddresses
  refine ⟨fun chunk hm => ?_, ?_, ?_, ?_, fun address hm hm' => ?_, fun address hm => ?_, ?_⟩
  · cases List.mem_append.mp hm with
    | inl hm => exact h.savedAcquired.aligned encoding_aligned chunk hm
    | inr hm => exact h.savedReleased.aligned encoding_aligned chunk hm
  · simp only [List.isEmpty_map]
  · exact hordered.sublist (List.Sublist.cons_cons _ (List.sublist_append_left _ _))
  · exact hordered.sublist (List.Sublist.cons_cons _ (List.sublist_append_right _ _))
  · exact (List.nodup_append.mp hnodup).2.2 address hm' address hm rfl
  · rw [haddresses] at hm
    obtain ⟨i, hi, rfl⟩ := List.mem_map.mp hm
    exact h.free hs.valid hi
  · rw [haddresses, List.length_map]
    exact h.length_le.trans hcapacity

-- The highest acquired block is one of a trailer if there are fewer free blocks below each of the others.
theorem covers_iff : ((blocksAcquired ++ blocksReleased).map (·.address)).foldr max 0 =
    highestAddressAcquired after.freeSet ↔ ∀ i, grid.freeSet.blocksAcquired.bit i = true →
      (freeBlocks grid.freeSet.blocksAcquired 0 i).length <
        (trailerBlocks blocksAcquired blocksReleased).length := by
  have hle : (trailerBlocks blocksAcquired blocksReleased).length ≤
      (freeBlocks grid.freeSet.blocksAcquired 0 (shards * shardBits)).length := by
    rw [h.trailerBlocks_eq]
    exact List.length_take_le' _ _
  have htrailers : trailerBlocks blocksAcquired blocksReleased =
      (freeBlocks grid.freeSet.blocksAcquired 0 (shards * shardBits)).take
        (trailerBlocks blocksAcquired blocksReleased).length := by
    conv_lhs => rw [h.trailerBlocks_eq]
    unfold trailerBlocks
    rw [List.length_map]
  have hbound : ∀ i, grid.freeSet.blocksAcquired.bit i = true → i < shards * shardBits :=
    fun _ hi => FreeSet.lt_of_bit hi
  have hfree : ∀ i ∈ trailerBlocks blocksAcquired blocksReleased,
      grid.freeSet.blocksAcquired.bit i = false := by
    intro i hi
    rw [h.trailerBlocks_eq] at hi
    exact (FreeSet.mem_freeBlocks.mp (List.mem_of_mem_take hi)).2
  rw [h.addresses_eq]
  have habove : ∀ i, grid.freeSet.blocksAcquired.bit i = true →
      ((freeBlocks grid.freeSet.blocksAcquired 0 i).length <
        (trailerBlocks blocksAcquired blocksReleased).length ↔
        i + 1 ≤ ((trailerBlocks blocksAcquired blocksReleased).map (· + 1)).foldr max 0) := by
    intro i hi
    rw [← exists_above_iff hle (hbound i hi), ← htrailers]
    constructor
    · rintro ⟨j, hj, hij⟩
      exact (Nat.succ_le_succ hij).trans (le_foldr_max (List.mem_map_of_mem hj))
    · intro hmax
      obtain ⟨j, hj, he⟩ := List.mem_map.mp (foldr_max_mem (Nat.lt_of_lt_of_le (Nat.succ_pos i) hmax))
      exact ⟨j, hj, by omega⟩
  constructor
  · intro he i hi
    rw [habove i hi, he]
    exact le_highestAddressAcquired (h.acquired_iff.mpr (.inl hi))
  · intro hall
    refine Nat.le_antisymm ?_ ?_
    · by_cases hpos : 0 < ((trailerBlocks blocksAcquired blocksReleased).map (· + 1)).foldr max 0
      · obtain ⟨j, hj, he⟩ := List.mem_map.mp (foldr_max_mem hpos)
        rw [← he]
        exact le_highestAddressAcquired (h.acquired_iff.mpr (.inr hj))
      · omega
    · by_cases hpos : 0 < highestAddressAcquired after.freeSet
      · obtain ⟨j, hj, he⟩ := highestAddressAcquired_mem hpos
        rw [he]
        cases h.acquired_iff.mp hj with
        | inl hj => exact (habove j hj).mp (hall j hj)
        | inr hj => exact le_foldr_max (List.mem_map_of_mem hj)
      · omega

-- The grid that is opened from the trailers, if the size of the data file is that of its highest block.
theorem open_iff (hs : Sound grid) (hc : ∀ block : Block, Checksums.block block ≠ 0) (hf : fresh.Fresh)
    (hcapacity : shards * shardBits ≤ fresh.blocksReleasedPriorCheckpointDurability.capacity) :
    ∃ reopened : Grid shards, fresh.Opens grid.freeSet (trailerBlocks blocksAcquired blocksReleased)
        reopened.freeSet ∧
      ∀ result, Grid.open fresh after.storage (storageSizeFor after.freeSet)
          ⟨referenceTo (encoding grid.freeSet.blocksAcquired) blocksAcquired,
            referenceTo (encoding grid.freeSet.blocksReleased) blocksReleased⟩ = .ok result ↔
        (∀ i, grid.freeSet.blocksAcquired.bit i = true →
          (freeBlocks grid.freeSet.blocksAcquired 0 i).length <
          (trailerBlocks blocksAcquired blocksReleased).length) ∧ result = reopened := by
  have hopenAcquired := h.savedAcquired.trailerOpen hc encoding_aligned
    (blockCount_mono (@length_encoding_le shards fresh grid.freeSet.blocksAcquired hs.nonempty))
  have hopenReleased := h.savedReleased.trailerOpen hc encoding_aligned
    (blockCount_mono (@length_encoding_le shards fresh grid.freeSet.blocksReleased hs.nonempty))
  obtain ⟨freeSet, hopen, hopens⟩ := (h.stores hs hcapacity).opens hf h.savedAcquired.bodies
    h.savedReleased.bodies
  have hopen : fresh.open (blocksAcquired.map (·.body)) (blocksReleased.map (·.body))
      (openedFrom (encoding grid.freeSet.blocksAcquired) blocksAcquired).addresses
      (openedFrom (encoding grid.freeSet.blocksReleased) blocksReleased).addresses = .ok freeSet := hopen
  rw [← List.map_append, List.map_map] at hopens
  have hclosed : (!fresh.opened) = true := by
    rw [hf.opened]
    rfl
  have hdurable : (!fresh.checkpointDurable) = true := by
    rw [hf.checkpointDurable]
    rfl
  have hsame := hopens.same
  have hidle : freeSet.reservationCount = 0 := by
    rw [hsame]
    exact hf.reservationCount
  have hlength : (trailerBlocks blocksAcquired blocksReleased).length =
      blocksAcquired.length + blocksReleased.length := by
    unfold trailerBlocks
    rw [List.length_map, List.length_append]
  have hcount : (openedFrom (encoding grid.freeSet.blocksAcquired) blocksAcquired).addresses.length ≤
      freeSet.blocksAcquired.count := by
    have hle := @length_le_count _ freeSet.blocksAcquired _ h.nodup fun i hi =>
      ⟨(h.free hs.valid hi).1, (hopens.acquired i).mpr (.inr hi)⟩
    show (blocksAcquired.map (·.address)).length ≤ _
    rw [List.length_map]
    omega
  have hcount' : (openedFrom (encoding grid.freeSet.blocksAcquired) blocksAcquired).addresses.length +
      (openedFrom (encoding grid.freeSet.blocksReleased) blocksReleased).addresses.length ≤
        freeSet.blocksReleased.count + freeSet.blocksReleasedPriorCheckpointDurability.keys.length := by
    have hkeys : freeSet.blocksReleasedPriorCheckpointDurability.keys =
        trailerBlocks blocksAcquired blocksReleased := by
      rw [hsame]
      rfl
    show (blocksAcquired.map (·.address)).length + (blocksReleased.map (·.address)).length ≤ _
    rw [hkeys, hlength, List.length_map, List.length_map]
    omega
  have heq : Grid.open fresh after.storage (storageSizeFor after.freeSet)
      ⟨referenceTo (encoding grid.freeSet.blocksAcquired) blocksAcquired,
        referenceTo (encoding grid.freeSet.blocksReleased) blocksReleased⟩ =
      (Grid.checkStorageSize (storageSizeFor after.freeSet)
        ((blocksAcquired ++ blocksReleased).map (·.address)) >>= fun _ => .ok {
          freeSet
          freeSetCheckpointBlocksAcquired := openedFrom (encoding grid.freeSet.blocksAcquired) blocksAcquired
          freeSetCheckpointBlocksReleased := openedFrom (encoding grid.freeSet.blocksReleased) blocksReleased
          storage := after.storage }) := by
    unfold Grid.open
    dsimp only
    rw [assert_of hclosed, ok_bind, assert_of hdurable, ok_bind, hopenAcquired, ok_bind,
      hopenReleased, ok_bind]
    dsimp only
    rw [hopen, ok_bind, List.map_append]
    refine bind_congr fun _ => ?_
    rw [assert_of hidle, ok_bind, assert_of hcount, ok_bind, assert_of hcount', ok_bind]
    rfl
  refine ⟨{
    freeSet
    freeSetCheckpointBlocksAcquired := openedFrom (encoding grid.freeSet.blocksAcquired) blocksAcquired
    freeSetCheckpointBlocksReleased := openedFrom (encoding grid.freeSet.blocksReleased) blocksReleased
    storage := after.storage }, hopens, fun result => ?_⟩
  rw [heq, ← h.covers_iff, ← @checkStorageSize_iff _ after.freeSet]
  constructor
  · intro hresult
    obtain ⟨_, hsize, hresult⟩ := bind_eq_ok.mp hresult
    exact ⟨hsize, (Except.ok.inj hresult).symm⟩
  · rintro ⟨hsize, rfl⟩
    rw [hsize, ok_bind]

end Checkpointed

end Restart

end TigerBeetle.GridTrailer
