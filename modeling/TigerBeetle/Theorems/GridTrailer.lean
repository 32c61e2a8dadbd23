import TigerBeetle.GridTrailer
import TigerBeetle.Theorems.Restarts

namespace TigerBeetle.GridTrailer

open Fallible DynamicBitSet

open Ewah (Byte wordBytes Segment segments stripped)

open FreeSet (encoding freeBlocks)

open Superblock (dataFileSizeMin)

section Chunks

variable {bytes : List Byte} {size i : Nat}

theorem chunkSizeMax_pos : 0 < chunkSizeMax := by
  decide

theorem blockCount_spec (h : 0 < size) : 0 < blockCountForTrailerSize size ∧
    (blockCountForTrailerSize size - 1) * chunkSizeMax < size ∧
    size ≤ blockCountForTrailerSize size * chunkSizeMax := by
  have hpos := chunkSizeMax_pos
  unfold blockCountForTrailerSize
  generalize chunkSizeMax = m at *
  have hdiv := Nat.div_add_mod (size + (m - 1)) m
  have hmod := Nat.mod_lt (size + (m - 1)) hpos
  have hcount : 0 < (size + (m - 1)) / m := Nat.div_pos (by omega) hpos
  have hsub : ((size + (m - 1)) / m - 1) * m + m = (size + (m - 1)) / m * m := by
    rw [← Nat.succ_mul, Nat.succ_eq_add_one, Nat.sub_add_cancel hcount]
  rw [Nat.mul_comm] at hdiv
  exact ⟨hcount, by omega, by omega⟩

theorem blockCount_zero : blockCountForTrailerSize 0 = 0 := by
  decide

theorem length_chunkBodies : (chunkBodies bytes size).length = blockCountForTrailerSize size := by
  simp [chunkBodies]

theorem getElem?_chunkBodies (hi : i < blockCountForTrailerSize size) :
    (chunkBodies bytes size)[i]? = some ((bytes.drop (i * chunkSizeMax)).take
      (chunkSize i (blockCountForTrailerSize size) size)) := by
  simp [chunkBodies, hi]

theorem chunk_end_le (h : 0 < size) (hi : i < blockCountForTrailerSize size) :
    i * chunkSizeMax + chunkSize i (blockCountForTrailerSize size) size ≤ size := by
  have ⟨_, hlast, _⟩ := blockCount_spec h
  unfold chunkSize
  split
  case isTrue he =>
    rw [he]
    omega
  case isFalse hne =>
    have hle : (i + 1) * chunkSizeMax ≤ (blockCountForTrailerSize size - 1) * chunkSizeMax :=
      Nat.mul_le_mul_right _ (by omega)
    rw [Nat.succ_mul] at hle
    omega

-- The chunks have the sizes that they are read back with.
theorem length_of_mem_chunkBodies (h : 0 < size) (hle : size ≤ bytes.length)
    {body : List Byte} (hb : (chunkBodies bytes size)[i]? = some body) :
    body.length = chunkSize i (blockCountForTrailerSize size) size := by
  have hi : i < blockCountForTrailerSize size := by
    rw [← @length_chunkBodies bytes]
    exact (List.getElem?_eq_some_iff.mp hb).1
  rw [getElem?_chunkBodies hi] at hb
  cases hb
  have hend := chunk_end_le h hi
  rw [List.length_take, List.length_drop]
  omega

theorem flatten_chunkBodies (h : 0 < size) :
    (chunkBodies bytes size).flatten = bytes.take size := by
  have ⟨hcount, hlast, _⟩ := blockCount_spec h
  have hfull : ∀ n ≤ blockCountForTrailerSize size - 1, ((List.range n).map fun i =>
      (bytes.drop (i * chunkSizeMax)).take (chunkSize i (blockCountForTrailerSize size) size)).flatten =
        bytes.take (n * chunkSizeMax) := by
    intro n hn
    induction n with
    | zero => simp
    | succ n ih =>
      rw [List.range_succ, List.map_append, List.flatten_append, ih (by omega), Nat.succ_mul,
        List.take_add]
      have hne : n ≠ blockCountForTrailerSize size - 1 := by omega
      simp [chunkSize, hne]
  have hrange : List.range (blockCountForTrailerSize size) =
      List.range (blockCountForTrailerSize size - 1) ++ [blockCountForTrailerSize size - 1] := by
    rw [← List.range_succ, Nat.succ_eq_add_one, Nat.sub_add_cancel hcount]
  have hsize : size = (blockCountForTrailerSize size - 1) * chunkSizeMax +
      (size - (blockCountForTrailerSize size - 1) * chunkSizeMax) := by omega
  unfold chunkBodies
  simp only
  rw [hrange, List.map_append, List.flatten_append, hfull _ (Nat.le_refl _)]
  conv_rhs => rw [hsize, List.take_add]
  simp [chunkSize]

theorem chunkSize_aligned (h : 0 < size) (ha : size % wordBytes = 0) :
    chunkSize i (blockCountForTrailerSize size) size % wordBytes = 0 := by
  have hmax : chunkSizeMax % wordBytes = 0 := by decide
  unfold chunkSize
  split
  · have ⟨_, hlast, _⟩ := blockCount_spec h
    have hmul : (blockCountForTrailerSize size - 1) * chunkSizeMax % wordBytes = 0 := by
      rw [Nat.mul_mod, hmax, Nat.mul_zero, Nat.zero_mod]
    unfold wordBytes at *
    omega
  · exact hmax

end Chunks

section Chain

variable [Checksums] {storage : Nat → Option Block} {blocks : List Block} {block : Block}

def Block.reference (block : Block) : Nat × Nat :=
  (block.address, Checksums.block block)

-- Each block refers to the one before it.
def Linked (previous : Nat × Nat) : List Block → Prop
  | []              => True
  | block :: blocks =>
    (block.previousTrailerBlockAddress, block.previousTrailerBlockChecksum) = previous ∧
      Linked block.reference blocks

-- The reference to the last one of some blocks.
def lastReference (previous : Nat × Nat) (blocks : List Block) : Nat × Nat :=
  (blocks.getLast?.map Block.reference).getD previous

theorem lastReference_cons {previous : Nat × Nat} :
    lastReference previous (block :: blocks) = lastReference block.reference blocks := by
  cases blocks <;> simp [lastReference, List.getLast?_cons]

theorem linked_concat {previous : Nat × Nat} : Linked previous (blocks ++ [block]) ↔
    Linked previous blocks ∧ (block.previousTrailerBlockAddress,
      block.previousTrailerBlockChecksum) = lastReference previous blocks := by
  induction blocks generalizing previous with
  | nil => simp [Linked, lastReference]
  | cons first blocks ih =>
    rw [List.cons_append, Linked, Linked, ih, lastReference_cons, and_assoc]

-- The blocks of a trailer as they are stored, each with the chunk that it is read back with.
structure Stored (storage : Nat → Option Block) (blockCount trailerSize : Nat) (blocks : List Block) :
    Prop where
  linked : Linked (0, 0) blocks
  found : ∀ block ∈ blocks, storage block.address = some block
  pos : ∀ block ∈ blocks, 0 < block.address
  sized : ∀ i block, blocks[i]? = some block →
    block.body.length = chunkSize i blockCount trailerSize
  nodup : (blocks.map (·.address)).Nodup

theorem Stored.read {blockCount trailerSize : Nat} (hc : ∀ block : Block, Checksums.block block ≠ 0)
    (h : Stored storage blockCount trailerSize (blocks ++ [block])) {later : List Nat}
    (hd : ∀ b ∈ blocks ++ [block], b.address ∉ later) :
    Grid.trailerOpenReadNext storage blockCount trailerSize (blocks.length + 1) block.address
      (Checksums.block block) later =
        .ok ((blocks ++ [block]).map Block.reference, (blocks ++ [block]).map (·.body)) := by
  induction blocks using List.reverseRecOn generalizing block later with
  | nil =>
    obtain ⟨hzero, hzero'⟩ := Prod.mk.inj h.linked.1
    have hfound : (storage block.address).filter
        (fun found => Checksums.block found = Checksums.block block) = some block := by
      rw [h.found block (by simp), Option.filter_some, if_pos (by simp)]
    have hbody : block.body.take (chunkSize 0 blockCount trailerSize) = block.body :=
      List.take_of_length_le (h.sized 0 block (by simp)).le
    simp only [Grid.trailerOpenReadNext, List.length_nil, assert_of (h.pos block (by simp)),
      assert_of (hc block), assert_of (hd block (by simp)), ok_bind, hfound, hbody, hzero, hzero', if_true,
      assert_of trivial]
    rfl
  | append_singleton blocks before ih =>
    have ⟨hlinked, hprevious⟩ := linked_concat.mp h.linked
    have hlast : lastReference (0, 0) (blocks ++ [before]) = before.reference := by
      simp [lastReference]
    rw [hlast] at hprevious
    obtain ⟨haddress, hchecksum⟩ := Prod.mk.inj hprevious
    have hfound : (storage block.address).filter
        (fun found => Checksums.block found = Checksums.block block) = some block := by
      rw [h.found block (by simp), Option.filter_some, if_pos (by simp)]
    have hbody : block.body.take (chunkSize (blocks ++ [before]).length blockCount trailerSize) =
        block.body :=
      List.take_of_length_le (h.sized _ block (by simp)).le
    have hpos : ¬block.previousTrailerBlockAddress = 0 := by
      rw [haddress]
      exact (h.pos before (by simp)).ne'
    have hnext : Stored storage blockCount trailerSize (blocks ++ [before]) := by
      refine ⟨hlinked, fun b hb => h.found b (List.mem_append_left _ hb),
        fun b hb => h.pos b (List.mem_append_left _ hb), fun i b hb => h.sized i b ?_, ?_⟩
      · rw [List.getElem?_append_left (List.getElem?_eq_some_iff.mp hb).1, hb]
      · have hnodup := h.nodup
        rw [List.map_append] at hnodup
        exact hnodup.of_append_left
    have hapart : ∀ b ∈ blocks ++ [before], b.address ∉ block.address :: later := by
      intro b hb hm
      cases List.mem_cons.mp hm with
      | inl he =>
        have hnodup := h.nodup
        rw [List.map_append, List.nodup_append] at hnodup
        exact hnodup.2.2 b.address (List.mem_map_of_mem hb) block.address (by simp) he
      | inr hm => exact hd b (List.mem_append_left _ hb) hm
    have hread := ih hnext hapart
    have hindex : 0 < (blocks ++ [before]).length := by simp
    rw [List.length_append, List.length_singleton] at hbody hindex
    rw [List.length_append, List.length_singleton, Grid.trailerOpenReadNext]
    simp only [assert_of (h.pos block (by simp)), assert_of (hc block), assert_of (hd block (by simp)),
      ok_bind, hfound, hbody, hpos, if_false, assert_of hindex]
    rw [haddress, hchecksum, hread]
    simp only [ok_bind, List.map_append, List.map_cons, List.map_nil]
    rfl

end Chain

section Acquired

variable {shards lo hi n : Nat} {bits bits' : DynamicBitSet (shards * shardBits)}

theorem nodup_freeBlocks : (freeBlocks bits lo hi).Nodup := by
  unfold freeBlocks
  exact List.Nodup.filter _ List.nodup_range'

-- What is left once the first free blocks are acquired.
theorem freeBlocks_taken (h : ∀ i, bits'.bit i = true ↔
    bits.bit i = true ∨ i ∈ (freeBlocks bits lo hi).take n) :
    freeBlocks bits' lo hi = (freeBlocks bits lo hi).drop n := by
  have hfilter : freeBlocks bits' lo hi =
      (freeBlocks bits lo hi).filter fun i => i ∉ (freeBlocks bits lo hi).take n := by
    rw [freeBlocks, freeBlocks, List.filter_filter]
    refine List.filter_congr fun i _ => ?_
    rw [Bool.eq_iff_iff, Bool.and_eq_true, Bool.not_eq_true', Bool.not_eq_true', ← Bool.not_eq_true,
      ← Bool.not_eq_true, decide_eq_true_iff, h, not_or]
    exact and_comm
  have hsplit := List.take_append_drop n (freeBlocks bits lo hi)
  have hnodup := @nodup_freeBlocks shards lo hi bits
  rw [← hsplit, List.nodup_append] at hnodup
  rw [hfilter]
  conv_lhs => rw [← hsplit]
  rw [List.filter_append, hsplit, List.filter_eq_nil_iff.mpr fun i hi => by simpa using hi,
    List.nil_append]
  refine List.filter_eq_self.mpr fun i hi => ?_
  rw [decide_eq_true_iff]
  exact fun hm => hnodup.2.2 i hm i hi rfl

end Acquired

section Writing

variable [Checksums] {shards : Nat} {grid after : Grid shards} {blocks : List Block}
    {reservation : Reservation} {previousAddress previousChecksum : Nat} {bodies : List (List Byte)}

-- Free blocks are acquired and written, and nothing else.
structure Written (grid : Grid shards) (blocks : List Block) (after : Grid shards) : Prop where
  same : after = { grid with
    freeSet := { grid.freeSet with
      index := after.freeSet.index
      blocksAcquired := after.freeSet.blocksAcquired
      reservationSession := after.freeSet.reservationSession }
    storage := after.storage }
  valid : after.freeSet.Valid
  acquired : ∀ i, after.freeSet.blocksAcquired.bit i = true ↔
    grid.freeSet.blocksAcquired.bit i = true ∨ i + 1 ∈ blocks.map (·.address)
  untouched : ∀ address, address ∉ blocks.map (·.address) → after.storage address = grid.storage address
  found : ∀ block ∈ blocks, after.storage block.address = some block
  agrees : (∀ s < shards, grid.freeSet.Agrees s) → ∀ s < shards, after.freeSet.Agrees s

theorem createBlocks_meets (hv : grid.freeSet.Valid) (ha : grid.freeSet.Admits reservation)
    (hlen : bodies.length ≤ (freeBlocks grid.freeSet.blocksAcquired reservation.blockBase
      (reservation.blockBase + reservation.blockCount)).length) :
    Meets (fun _ => False) (fun (references, after) => ∃ blocks : List Block,
      references = blocks.map Block.reference ∧ blocks.map (·.body) = bodies ∧
      Linked (previousAddress, previousChecksum) blocks ∧
      blocks.map (·.address) = ((freeBlocks grid.freeSet.blocksAcquired reservation.blockBase
        (reservation.blockBase + reservation.blockCount)).take bodies.length).map (· + 1) ∧
      after.freeSet.reservationSession = grid.freeSet.reservationSession ∧ Written grid blocks after)
      (Grid.createBlocks reservation grid previousAddress previousChecksum bodies) := by
  induction bodies generalizing grid previousAddress previousChecksum with
  | nil => exact ⟨[], rfl, rfl, trivial, rfl, rfl, rfl, hv, by simp, fun _ _ => rfl, nofun, id⟩
  | cons body bodies ih =>
    refine Meets.bind ((FreeSet.acquire_meets hv).mono (fun _ hr => hr) fun _ hn => hn ha)
      fun ⟨found, freeSet⟩ ⟨_, hr⟩ => ?_
    have hvalid := (FreeSet.Effect.acquire ha hr).valid hv
    have hagrees := (FreeSet.Effect.acquire ha hr).agrees
    cases hr with
    | none hfull =>
      rw [FreeSet.freeBlocks_eq_nil hfull] at hlen
      exact absurd hlen (by simp)
    | some hf hb hindex =>
      rename_i b index _
      have hfree := FreeSet.freeBlocks_first hf
      have hbit : (grid.freeSet.blocksAcquired.insert b).get (b + 1 - 1) = .ok true := by
        rw [Nat.add_sub_cancel, get_eq hb, bit_insert hb, decide_eq_true rfl, Bool.or_true]
      dsimp only
      rw [hbit, ok_bind, assert_of rfl, ok_bind]
      rw [hfree, List.length_cons, List.length_cons] at hlen
      have hrest := FreeSet.freeBlocks_insert hf hb
      refine Meets.bind (ih hvalid ⟨ha.opened, ha.count, ha.blocks, ha.base, ha.within, ha.session⟩
        (by dsimp only; rw [hrest]; omega)) fun ⟨references, after⟩ hr => ?_
      obtain ⟨blocks, href, hbodies, hlinked, haddresses, hsession, hw⟩ := hr
      dsimp only at haddresses
      rw [hrest] at haddresses
      refine ⟨⟨b + 1, previousAddress, previousChecksum, body⟩ :: blocks, ?_, ?_, ⟨rfl, hlinked⟩, ?_,
        hsession, ?_⟩
      · rw [href]
        rfl
      · rw [List.map_cons, hbodies]
      · rw [List.map_cons, haddresses, hfree, List.length_cons, List.take_succ_cons, List.map_cons]
      · have hnotin : b + 1 ∉ blocks.map (·.address) := by
          rw [haddresses]
          intro hm
          obtain ⟨i, hi, he⟩ := List.mem_map.mp hm
          have ⟨⟨hl, _⟩, _⟩ := FreeSet.mem_freeBlocks.mp (List.mem_of_mem_take hi)
          omega
        refine ⟨hw.same, hw.valid, fun i => ?_, fun address hn => ?_, fun block hm => ?_,
          fun h => hw.agrees (hagrees h)⟩
        · rw [hw.acquired, bit_insert hb, Bool.or_eq_true, decide_eq_true_iff, or_assoc, List.map_cons,
            List.mem_cons, Nat.succ_inj, @eq_comm _ b i]
        · rw [List.map_cons, List.mem_cons, not_or] at hn
          rw [hw.untouched address hn.2]
          exact Function.update_of_ne hn.1 _ _
        · cases List.mem_cons.mp hm with
          | inl he =>
            rw [he, hw.untouched _ hnotin]
            exact Function.update_self ..
          | inr hm => exact hw.found block hm

end Writing

section Reserving

variable {shards lo start count limit : Nat} {bits : DynamicBitSet (shards * shardBits)}
    {set : FreeSet shards}

theorem First.unique {p : Nat → Prop} {hi : Nat} {found found' : Option Nat} (h : First p lo hi found)
    (h' : First p lo hi found') : found = found' := by
  cases found with
  | none =>
    cases found' with
    | none => rfl
    | some i => exact absurd h'.1.2.2 (h i h'.1.1 h'.1.2.1)
  | some i =>
    cases found' with
    | none => exact absurd h.1.2.2 (h' i h.1.1 h.1.2.1)
    | some j =>
      have ⟨⟨hi, _, hp⟩, hbefore⟩ := h
      have ⟨⟨hj, _, hp'⟩, hbefore'⟩ := h'
      congr 1
      by_contra hne
      rcases Nat.lt_or_gt_of_ne hne with hlt | hlt
      · exact hbefore' i hi hlt hp
      · exact hbefore j hj hlt hp'

theorem findBit_first {bitLength lo hi : Nat} {bits : DynamicBitSet bitLength} {kind : BitKind}
    (hle : lo ≤ hi) (hn : hi ≤ bitLength) :
    ∃ found, bits.findBit lo hi kind = .ok found ∧ First (bits.Is kind) lo hi found :=
  Meets.iff_exists.mp (findBit_meets hle hn)

theorem reserveFrom_skip (hle : lo ≤ start) (hs : start ≤ shards * shardBits) (hc : 0 < count)
    (h : ∀ i, lo ≤ i → i < start → bits.bit i = true) :
    FreeSet.reserveFrom bits limit count lo = FreeSet.reserveFrom bits limit count start := by
  obtain ⟨count, rfl⟩ := Nat.exists_eq_succ_of_ne_zero hc.ne'
  obtain ⟨found, heq, hf⟩ := @findBit_first _ lo _ bits .unset (hle.trans hs) (Nat.le_refl _)
  obtain ⟨found', heq', hf'⟩ := @findBit_first _ start _ bits .unset hs (Nat.le_refl _)
  have hmono := hf'.mono hle fun i hl hi _ => by
    rw [FreeSet.is_unset, h i hl hi]
    decide
  unfold FreeSet.reserveFrom
  rw [heq, heq', First.unique hf hmono]

-- The index only makes it faster to find the first free block.
theorem reserve_eq (hv : set.Valid) (hr : set.reservationState = .reserving) (hc : 0 < count) :
    set.reserve count = FreeSet.reserveFrom set.blocksAcquired set.blocksCountLimit count
      set.reservationBlocks >>= fun found => match found with
      | none       => return (none, set)
      | some block => return (some
          { blockBase := set.reservationBlocks
            blockCount := block - set.reservationBlocks
            session := set.reservationSession },
        { set with
          reservationBlocks := set.reservationBlocks + (block - set.reservationBlocks)
          reservationCount := set.reservationCount + 1 }) := by
  have hpos := FreeSet.shardBits_pos
  have hreserved := hv.reserved
  have hdiv : set.reservationBlocks / shardBits ≤ shards :=
    Nat.div_le_of_le_mul (by rwa [Nat.mul_comm])
  obtain ⟨found, heq, hf⟩ := @findBit_first _ (set.reservationBlocks / shardBits) _ set.index .unset hdiv
    (Nat.le_refl _)
  -- The shards before the first that has free blocks are full.
  have hfull : ∀ bound, (∀ s, set.reservationBlocks / shardBits ≤ s → s < bound →
      ¬set.index.Is .unset s) → bound ≤ shards → ∀ i, set.reservationBlocks ≤ i →
      i < max (bound * shardBits) set.reservationBlocks → set.blocksAcquired.bit i = true := by
    intro bound hb hle i hi hi'
    have hlt : i / shardBits < bound := by
      rw [Nat.div_lt_iff_lt_mul hpos]
      omega
    have hset := hb _ (Nat.div_le_div_right hi) hlt
    rw [FreeSet.is_unset, Bool.not_eq_false] at hset
    exact hv.index _ (by omega) hset i rfl
  unfold FreeSet.reserve
  rw [assert_of hv.opened, ok_bind, assert_of hr, ok_bind, assert_of hc, ok_bind, heq, ok_bind]
  cases found with
  | none =>
    have hskip := @reserveFrom_skip shards set.reservationBlocks
      (max (shards * shardBits) set.reservationBlocks) count set.blocksCountLimit set.blocksAcquired
      (Nat.le_max_right _ _) (by omega) hc (hfull shards (fun s hl hh => hf s hl hh) (Nat.le_refl _))
    obtain ⟨count, rfl⟩ := Nat.exists_eq_succ_of_ne_zero hc.ne'
    obtain ⟨found, heq', hf'⟩ := @findBit_first _ (max (shards * shardBits) set.reservationBlocks) _
      set.blocksAcquired .unset (by omega) (Nat.le_refl _)
    have hnone : found = none := by
      cases found with
      | none => rfl
      | some i =>
        obtain ⟨⟨hl, hh, _⟩, _⟩ := hf'
        omega
    rw [hskip]
    unfold FreeSet.reserveFrom
    rw [heq', hnone]
    rfl
  | some shardStart =>
    obtain ⟨⟨hl, hh, _⟩, hbefore⟩ := hf
    have hend := FreeSet.shard_end_le hh
    have hskip := @reserveFrom_skip shards set.reservationBlocks
      (max (shardStart * shardBits) set.reservationBlocks) count set.blocksCountLimit set.blocksAcquired
      (Nat.le_max_right _ _) (by omega) hc (hfull shardStart hbefore hh.le)
    rewrite [hskip]
    refine bind_congr fun found => ?_
    cases found <;> rfl

-- No reservation is made if there are too few free blocks.
theorem reserveFrom_none {block : Nat} (hb : block ≤ shards * shardBits) :
    Meets (fun _ => False) (fun found => found = none →
      (freeBlocks bits block (min limit (shards * shardBits))).length < count)
      (FreeSet.reserveFrom bits limit count block) := by
  induction count generalizing block with
  | zero => exact fun hfound => by cases hfound
  | succ count ih =>
    unfold FreeSet.reserveFrom
    refine Meets.bind (findBit_meets hb (Nat.le_refl _)) fun found hf => ?_
    have hnil : (∀ i, block ≤ i → i < min limit (shards * shardBits) → bits.bit i = true) →
        (freeBlocks bits block (min limit (shards * shardBits))).length < count + 1 := by
      intro hall
      rw [FreeSet.freeBlocks_eq_nil hall]
      exact Nat.succ_pos _
    cases found with
    | none =>
      refine fun _ => hnil fun i hl hh => ?_
      have hset := hf i hl (by omega)
      rwa [FreeSet.is_unset, Bool.not_eq_false] at hset
    | some free =>
      obtain ⟨⟨hl, hh, hfree⟩, hbefore⟩ := hf
      dsimp only
      split
      · next hlt =>
        refine fun _ => hnil fun i hl hh => ?_
        have hset := hbefore i hl (by omega)
        rwa [FreeSet.is_unset, Bool.not_eq_false] at hset
      · next hge =>
        refine (ih hh).weaken fun found hn he => ?_
        have hfirst : First (fun i => bits.bit i = false) block (min limit (shards * shardBits))
          (some free) :=
          ⟨⟨hl, by omega, hfree⟩, hbefore⟩
        rw [FreeSet.freeBlocks_first hfirst, List.length_cons]
        exact Nat.succ_lt_succ (hn he)

theorem reserve_meets (hv : set.Valid) (hr : set.reservationState = .reserving) (hc : 0 < count) :
    Meets (fun _ => False) (fun (found, after) => FreeSet.Reserves set count found after ∧
      (found = none → (freeBlocks set.blocksAcquired set.reservationBlocks
        (min set.blocksCountLimit (shards * shardBits))).length < count)) (set.reserve count) := by
  rw [reserve_eq hv hr hc]
  refine Meets.bind ((FreeSet.reserveFrom_meets hv.reserved).and (reserveFrom_none hv.reserved))
    fun found ⟨hf, hnone⟩ => ?_
  cases found with
  | none => exact ⟨.none, fun _ => hnone rfl⟩
  | some block =>
    have ⟨hle, hn, hlen⟩ := hf block rfl
    have hlt : set.reservationBlocks < block := by
      by_contra hge
      rw [FreeSet.freeBlocks_eq_nil fun i hi hi' => absurd hi' (by omega), List.length_nil] at hlen
      omega
    have hadd : set.reservationBlocks + (block - set.reservationBlocks) = block := by omega
    dsimp only
    rw [hadd]
    exact ⟨.some hv.opened hr hc hlt hn hlen, nofun⟩

theorem forfeit_last {reservation : Reservation} (ho : set.opened = true)
    (hs : set.reservationSession = reservation.session) (hc : set.reservationCount = 1) :
    set.forfeit reservation = .ok { set with
      reservationCount := 0
      reservationBlocks := 0
      reservationSession := (set.reservationSession + 1) % usizeModulus
      reservationState := .reserving } := by
  unfold FreeSet.forfeit
  rw [assert_of ho, ok_bind, assert_of hs, ok_bind, assert_of (hc ▸ Nat.one_pos), ok_bind, if_pos hc]
  rfl

theorem idle_eq (hc : set.reservationCount = 0) (hb : set.reservationBlocks = 0)
    (hs : set.reservationState = .reserving) : set = { set with
      reservationCount := 0
      reservationBlocks := 0
      reservationState := .reserving } := by
  cases set
  dsimp only at hc hb hs
  subst hc hb hs
  rfl

end Reserving

section Checkpoint

variable [Checksums] {shards : Nat} {set freeSet : FreeSet shards} {grid after : Grid shards}
    {blocks : List Block} {trailer : CheckpointTrailer} {bytes encoded : List Byte} {size count : Nat}
    {storage storage' : Nat → Option Block}

-- A trailer that is written to the blocks that it refers to.
structure Saved (storage : Nat → Option Block) (encoded : List Byte) (blocks : List Block)
    (trailer : CheckpointTrailer) : Prop where
  size : trailer.size = encoded.length
  checksum : encoded ≠ [] → trailer.checksum = Checksums.body encoded
  blockIndex : trailer.blockIndex = blockCountForTrailerSize encoded.length
  addresses : trailer.addresses = blocks.map (·.address)
  checksums : trailer.checksums = blocks.map Checksums.block
  bodies : (blocks.map (·.body)).flatten = encoded
  length : blocks.length = blockCountForTrailerSize encoded.length
  stored : Stored storage (blockCountForTrailerSize encoded.length) encoded.length blocks

theorem Saved.congr (h : Saved storage encoded blocks trailer)
    (hs : ∀ block ∈ blocks, storage' block.address = storage block.address) :
    Saved storage' encoded blocks trailer :=
  { h with stored := { h.stored with
      found := fun block hm => (hs block hm).trans (h.stored.found block hm) } }

theorem trailerCheckpoint_meets (hv : grid.freeSet.Valid) (hc : grid.freeSet.reservationCount = 0)
    (htake : bytes.take size = encoded) (hsize : size = encoded.length) (ha : size % wordBytes = 0)
    (hfits : size = 0 → trailer.blockIndex = 0) :
    Meets (fun fault => fault = tooLarge ∧ (freeBlocks grid.freeSet.blocksAcquired 0
        (min grid.freeSet.blocksCountLimit (shards * shardBits))).length <
          blockCountForTrailerSize encoded.length)
      (fun (trailer, after) => ∃ blocks, Saved after.storage encoded blocks trailer ∧
      blocks.map (·.address) = ((freeBlocks grid.freeSet.blocksAcquired 0 (shards * shardBits)).take
        blocks.length).map (· + 1) ∧ Written grid blocks after)
      (grid.trailerCheckpoint trailer bytes size) := by
  have ⟨hblocks, hstate⟩ := hv.unreserved hc
  unfold Grid.trailerCheckpoint
  rw [assert_of ha, ok_bind]
  split
  · next hzero =>
    have hnil : encoded = [] := List.eq_nil_of_length_eq_zero (hsize ▸ hzero)
    have hdone : trailer.blockIndex = blockCountForTrailerSize size := by
      rw [hzero, blockCount_zero, hfits hzero]
    dsimp only
    unfold CheckpointTrailer.checkpointDone
    rw [assert_of hdone, ok_bind]
    refine ⟨[], ⟨hsize, fun hn => absurd hnil hn, ?_, rfl, rfl, hnil.symm, ?_, ?_⟩, rfl, ?_⟩
    · rw [← hsize]
      exact hdone
    · rw [← hsize, hzero, blockCount_zero]
      rfl
    · exact ⟨trivial, nofun, nofun, nofun, .nil⟩
    · exact ⟨rfl, hv, by simp, fun _ _ => rfl, nofun, id⟩
  · next hpos =>
    have hpos : 0 < size := Nat.pos_of_ne_zero hpos
    have hlen : size ≤ bytes.length := by
      have hlength := congrArg List.length htake
      rw [List.length_take] at hlength
      omega
    have ⟨hcount, _, _⟩ := blockCount_spec hpos
    dsimp only
    rw [length_chunkBodies]
    refine Meets.bind ((reserve_meets hv hstate hcount).mono (fun _ hr => hr) fun _ hn => hn.elim)
      fun ⟨found, freeSet⟩ ⟨hr, hfew⟩ => ?_
    have hvalid := (FreeSet.Effect.reserve hr).valid hv
    have hagrees := (FreeSet.Effect.reserve hr).agrees
    cases hr with
    | none =>
      have hfew := hfew rfl
      rw [hblocks, hsize] at hfew
      exact ⟨rfl, hfew⟩
    | some ho hs hcount' hlt hn hfree =>
      rename_i final _
      have hadmits : ({ grid.freeSet with
          reservationBlocks := final
          reservationCount := grid.freeSet.reservationCount + 1 } : FreeSet shards).Admits
            ⟨grid.freeSet.reservationBlocks, final - grid.freeSet.reservationBlocks,
              grid.freeSet.reservationSession⟩ :=
        ⟨hv.opened, Nat.succ_pos _, by dsimp only; omega, hlt, by dsimp only; omega, rfl⟩
      have hend : grid.freeSet.reservationBlocks +
        (final - grid.freeSet.reservationBlocks) = final := by omega
      dsimp only
      have hcreate := @createBlocks_meets _ shards { grid with freeSet := { grid.freeSet with
          reservationBlocks := final
          reservationCount := grid.freeSet.reservationCount + 1 } }
        ⟨grid.freeSet.reservationBlocks, final - grid.freeSet.reservationBlocks,
          grid.freeSet.reservationSession⟩ 0 0 (chunkBodies bytes size) hvalid hadmits
        (by dsimp only; rw [length_chunkBodies, hend, hfree])
      refine Meets.bind (hcreate.mono (fun _ h => h) fun _ hn => hn.elim)
        fun ⟨references, after⟩ h => ?_
      obtain ⟨blocks, rfl, hbodies, hlinked, haddresses, hsession, hw⟩ := h
      have hsame := hw.same
      have hone : after.freeSet.reservationCount = 1 := by
        rw [hsame]
        show grid.freeSet.reservationCount + 1 = 1
        rw [hc]
      have hforfeit := @forfeit_last _ after.freeSet ⟨grid.freeSet.reservationBlocks,
        final - grid.freeSet.reservationBlocks, grid.freeSet.reservationSession⟩ hw.valid.opened hsession hone
      have heffect := FreeSet.Effect.forfeit (@FreeSet.Forfeits.last _ _
        ⟨grid.freeSet.reservationBlocks, final - grid.freeSet.reservationBlocks,
          grid.freeSet.reservationSession⟩ hsession.symm hone)
      have hafter := heffect.valid hw.valid
      have hflatten : (chunkBodies bytes size).flatten = encoded :=
          (flatten_chunkBodies hpos).trans htake
      have hlength : blocks.length = blockCountForTrailerSize encoded.length := by
        rw [← hsize, ← @length_chunkBodies bytes, ← hbodies, List.length_map]
      have hfirst : (freeBlocks grid.freeSet.blocksAcquired 0 (shards * shardBits)).take blocks.length =
          freeBlocks grid.freeSet.blocksAcquired 0 final := by
        rw [hblocks] at hfree
        rw [FreeSet.freeBlocks_append (Nat.zero_le final) hn, List.take_append_of_le_length
          (by rw [hfree, hlength, hsize]), List.take_of_length_le (by rw [hfree, hlength, hsize])]
      have haddresses' : blocks.map (·.address) =
          (freeBlocks grid.freeSet.blocksAcquired 0 final).map (· + 1) := by
        rw [haddresses, hend, hblocks, List.take_of_length_le]
        rw [length_chunkBodies, ← hfree, hblocks]
      dsimp only
      rw [hforfeit, ok_bind]
      unfold CheckpointTrailer.checkpointDone
      rw [assert_of rfl, ok_bind]
      refine ⟨blocks, ⟨hsize, fun _ => ?_, ?_, ?_, ?_, ?_, hlength, ?_⟩, ?_, ?_⟩
      · rw [← hflatten]
      · rw [← hsize]
      · exact List.map_map
      · exact List.map_map
      · rw [hbodies, hflatten]
      · refine ⟨hlinked, hw.found, fun block hm => ?_, fun i block hi => ?_, ?_⟩
        · have hm' : block.address ∈ blocks.map (·.address) := List.mem_map_of_mem hm
          rw [haddresses'] at hm'
          obtain ⟨i, _, he⟩ := List.mem_map.mp hm'
          rw [← he]
          exact Nat.succ_pos i
        · have hbody : (chunkBodies bytes size)[i]? = some block.body := by
            rw [← hbodies, List.getElem?_map, hi]
            rfl
          rw [← hsize]
          exact length_of_mem_chunkBodies hpos hlen hbody
        · rw [haddresses']
          exact nodup_freeBlocks.map Nat.succ_injective
      · rw [haddresses', hfirst]
      · refine ⟨?_, hafter, hw.acquired, hw.untouched, hw.found,
          fun h => heffect.agrees (hw.agrees (hagrees h))⟩
        rw [hsame]
        dsimp only
        conv_rhs => rw [idle_eq hc hblocks hstate]

end Checkpoint

end TigerBeetle.GridTrailer
