import TigerBeetle.Theorems.FullShards
import TigerBeetle.Theorems.GridRuns

-- A run after which the blocks of the trailers are not the highest ones.
namespace TigerBeetle.GridTrailer

open Fallible DynamicBitSet

open FreeSet (encoding freeBlocks Effect)

section Durable

variable {shards block : Nat} {set : FreeSet shards} {blocks : List Nat}

-- A block that may be freed.
structure Freeable (set : FreeSet shards) (block : Nat) : Prop where
  within : block < shards * shardBits
  acquired : set.blocksAcquired.bit block = true
  released : set.blocksReleased.bit block = true
  prior : block ∉ set.blocksReleasedPriorCheckpointDurability.keys

-- There are no reservations, and the checkpoint is durable.
structure Frees (set : FreeSet shards) : Prop where
  opened : set.opened = true
  checkpointDurable : set.checkpointDurable = true
  reservationCount : set.reservationCount = 0
  reservationBlocks : set.reservationBlocks = 0

theorem Frees.free (h : Frees set) (hb : Freeable set block) : set.free (block + 1) = .ok { set with
    index := set.index.erase (block / shardBits)
    blocksAcquired := set.blocksAcquired.erase block
    blocksReleased := set.blocksReleased.erase block } := by
  have hblock : FreeSet.blockOf (block + 1) = .ok block := by
    unfold FreeSet.blockOf
    rw [assert_of (Nat.succ_pos _)]
    rfl
  have hprior : (!set.blocksReleasedPriorCheckpointDurability.contains block) = true := by
    simpa [ReleasedPriorCheckpointDurability.contains] using hb.prior
  unfold FreeSet.free
  rw [assert_of h.opened, ok_bind, assert_of h.checkpointDurable, ok_bind, hblock, ok_bind, get_eq hb.within,
    ok_bind, assert_of hb.acquired, ok_bind, get_eq hb.within, ok_bind, assert_of hb.released, ok_bind,
    assert_of hprior, ok_bind, assert_of h.reservationCount, ok_bind, assert_of h.reservationBlocks, ok_bind,
    unset_eq (FreeSet.div_lt_shards hb.within), ok_bind, unset_eq hb.within, ok_bind, unset_eq hb.within]
  rfl

theorem Frees.freeAll (h : Frees set) (hb : ∀ block ∈ blocks, Freeable set block) (hn : blocks.Nodup) :
    Succeeds (FreeSet.freeAll (blocks.map (· + 1)) set) := by
  induction blocks generalizing set with
  | nil => trivial
  | cons block blocks ih =>
    have hfirst := hb block (by simp)
    rw [List.map_cons, FreeSet.freeAll, h.free hfirst, ok_bind]
    refine ih ⟨h.opened, h.checkpointDurable, h.reservationCount, h.reservationBlocks⟩
      (fun b hm => ?_) hn.of_cons
    have hlater := hb b (by simp [hm])
    have hne : block ≠ b := fun he => (List.nodup_cons.mp hn).1 (he ▸ hm)
    refine ⟨hlater.within, ?_, ?_, hlater.prior⟩
    · dsimp only
      rw [bit_erase hfirst.within, hlater.acquired, decide_eq_true hne]
      rfl
    · dsimp only
      rw [bit_erase hfirst.within, hlater.released, decide_eq_true hne]
      rfl

-- A checkpoint becomes durable unless a block is reserved or the index is wrong.
theorem markCheckpointDurable_ok (hv : set.Valid) (hd : set.checkpointDurable = false)
    (hc : set.reservationCount = 0) (ha : ∀ shard < shards, set.Agrees shard) :
    ∃ after, set.markCheckpointDurable = .ok after ∧ set.Durable after := by
  have hfrees : Frees { set with checkpointDurable := true } :=
    ⟨hv.opened, rfl, hc, (hv.unreserved hc).1⟩
  have hfreeable : ∀ block ∈ set.blocksReleased.iterSet,
      Freeable { set with checkpointDurable := true } block := by
    intro block hm
    have ⟨hlt, hr⟩ := mem_iterSet.mp hm
    refine ⟨hlt, hv.released block hlt hr, hr, fun hp => ?_⟩
    rw [(hv.prior block hp).2.2] at hr
    cases hr
  have hmeets : Meets (fun _ => False) (fun _ => True) set.markCheckpointDurable := by
    unfold FreeSet.markCheckpointDurable
    rw [assert_of hv.opened, ok_bind, hd, assert_of (by decide), ok_bind]
    dsimp only
    have hfreed := (FreeSet.freeAll_meets.mono (fun _ hf => hf) fun _ _ => trivial).total
      (hfrees.freeAll hfreeable nodup_iterSet)
    refine Meets.bind hfreed fun freed hf => ?_
    have hsame := hf.same
    have hunset : ∀ i, freed.blocksReleased.bit i = false := by
      intro i
      rw [Bool.eq_false_iff]
      intro hi
      have ⟨hr, hn⟩ := (hf.released i).mp hi
      exact hn (mem_iterSet.mpr ⟨FreeSet.lt_of_bit hr, hr⟩)
    have hkeys : ∀ i ∈ freed.blocksReleasedPriorCheckpointDurability.keys.reverse,
      i < shards * shardBits := by
      intro i hi
      rw [hsame] at hi
      exact (hv.prior i (List.mem_reverse.mp hi)).1
    rw [assert_of (FreeSet.count_of_unset hunset), ok_bind]
    refine Meets.bind (FreeSet.setAll_succeeds hkeys) fun released _ => ?_
    refine Meets.bind (FreeSet.verifyIndex_meets.mono (fun _ _ => trivial) fun _ hn => hn.2 (hf.agrees ha))
      fun _ _ => trivial
  obtain ⟨after, heq, _⟩ := Meets.iff_exists.mp hmeets
  exact ⟨after, heq, FreeSet.markCheckpointDurable_meets.post heq⟩

theorem acquire_first {reservation : Reservation} (hv : set.Valid)
    (ha : set.Admits reservation)
    (hf : First (fun i => set.blocksAcquired.bit i = false) reservation.blockBase
      (reservation.blockBase + reservation.blockCount) (some block)) :
    ∃ next, set.acquire reservation = .ok (some (block + 1), next) ∧
      FreeSet.Acquires set reservation (some (block + 1)) next := by
  obtain ⟨⟨found, next⟩, heq, _, hr⟩ := Meets.iff_exists.mp
    ((FreeSet.acquire_meets hv).mono (fun _ hr => hr)
    fun _ hn => hn ha)
  have hfound : found = some (block + 1) := by
    cases hr with
    | none hfull =>
      have hset := hfull _ hf.1.1 hf.1.2.1
      rw [hf.1.2.2] at hset
      cases hset
    | some hf' =>
      obtain rfl := Option.some.inj (First.unique hf hf')
      rfl
  subst hfound
  exact ⟨next, heq, hr⟩

theorem acquires_first {reservation : Reservation} (hv : set.Valid)
    (ha : set.Admits reservation) (hlo : reservation.blockBase ≤ block)
    (hhi : block < reservation.blockBase + reservation.blockCount)
    (hfree : set.blocksAcquired.bit block = false)
    (hbefore : ∀ i, reservation.blockBase ≤ i → i < block → set.blocksAcquired.bit i = true) :
    ∃ index, set.acquire reservation = .ok (some (block + 1), { set with
      index
      blocksAcquired := set.blocksAcquired.insert block }) := by
  have hf : First (fun i => set.blocksAcquired.bit i = false) reservation.blockBase
      (reservation.blockBase + reservation.blockCount) (some block) :=
    ⟨⟨hlo, hhi, hfree⟩, fun i hl hi => by simp [hbefore i hl hi]⟩
  obtain ⟨next, heq, hr⟩ := acquire_first hv ha hf
  cases hr with
  | some => exact ⟨_, heq⟩

end Durable

section Sizes

variable {shards : Nat}

theorem blockCount_one {size : Nat} (h : 0 < size) (hle : size ≤ chunkSizeMax) :
    blockCountForTrailerSize size = 1 := by
  have hpos := chunkSizeMax_pos
  unfold blockCountForTrailerSize
  exact Nat.div_eq_of_lt_le (by omega) (by omega)

-- In one shard, a set that is not empty is stored in one block.
theorem blockCount_encoding {bits : DynamicBitSet (shards * shardBits)} {i : Nat} (set : FreeSet shards)
    (hs : shards = 1) (h : bits.bit i = true) : blockCountForTrailerSize (encoding bits).length = 1 := by
  refine blockCount_one (List.length_pos_iff.mpr fun hnil => ?_) ?_
  · rw [encoding_nil_iff.mp hnil] at h
    cases h
  · have hle := @length_encoding_le shards set bits (by omega)
    refine hle.trans ?_
    unfold FreeSet.encodeSizeMax
    rw [hs]
    unfold shardBits
    decide

theorem shardsFor_sixteen : FreeSet.shardsFor (16 * blockSize) = 1 := by
  unfold FreeSet.shardsFor shardBits
  decide

theorem sixteen_le : 16 ≤ FreeSet.shardsFor (16 * blockSize) * shardBits := by
  rw [shardsFor_sixteen]
  unfold shardBits
  decide

end Sizes

section Run

variable [Checksums] {shards : Nat} {grid after : Grid shards} {acquired released : List Nat} {durable : Bool}

-- A grid that is reached, whose index is as it should be.
structure Runs (grid : Grid shards) : Prop where
  reachable : machine.Reachable (fun _ e => e.Proper) ⟨_, grid⟩
  sound : Sound grid
  agrees : ∀ s < shards, grid.freeSet.Agrees s

theorem Runs.step {operation : FreeSet.Operation} {freeSet : FreeSet shards} (h : Runs grid)
    (hn : operation ≠ .markCheckpointNotDurable) (hs : grid.freeSet.step operation = .ok freeSet) :
    Runs { grid with freeSet } := by
  have heffect := (FreeSet.step_meets h.sound.valid).post hs
  have hstep : machine.step ⟨_, grid⟩ (.operation operation) = .ok ⟨_, { grid with freeSet }⟩ := by
    show (grid.freeSet.step operation >>= _) = _
    rw [hs]
    rfl
  exact ⟨@Machine.Reachable.step _ _ _ _ _ _ _ (.operation operation) h.reachable hn hstep,
    h.sound.operation hn heffect, heffect.agrees h.agrees⟩

theorem Runs.acquire {reservation : Reservation} {block : Nat} (h : Runs grid)
    (ha : grid.freeSet.Admits reservation) (hlo : reservation.blockBase ≤ block)
    (hhi : block < reservation.blockBase + reservation.blockCount)
    (hfree : grid.freeSet.blocksAcquired.bit block = false)
    (hbefore : ∀ i, reservation.blockBase ≤ i → i < block → grid.freeSet.blocksAcquired.bit i = true) :
    ∃ index, Runs { grid with freeSet := { grid.freeSet with
      index
      blocksAcquired := grid.freeSet.blocksAcquired.insert block } } := by
  obtain ⟨index, heq⟩ := acquires_first h.sound.valid ha hlo hhi hfree hbefore
  have hstep : grid.freeSet.step (.acquire reservation) = .ok { grid.freeSet with
      index
      blocksAcquired := grid.freeSet.blocksAcquired.insert block } := by
    show (_ >>= _) = _
    rw [heq]
    rfl
  have hne : FreeSet.Operation.acquire reservation ≠ .markCheckpointNotDurable := nofun
  exact ⟨index, h.step hne hstep⟩

-- The blocks of a grid that is idle.
structure At (grid : Grid shards) (durable : Bool) (acquired released : List Nat) : Prop where
  runs : Runs grid
  durable : grid.freeSet.checkpointDurable = durable
  count : grid.freeSet.reservationCount = 0
  limit : grid.freeSet.blocksCountLimit = 16
  acquired : ∀ i, grid.freeSet.blocksAcquired.bit i = true ↔ i ∈ acquired
  released : ∀ i, grid.freeSet.blocksReleased.bit i = true ↔ i ∈ released

theorem At.unset {i : Nat} (h : At grid durable acquired released) (hi : i ∉ acquired) :
    grid.freeSet.blocksAcquired.bit i = false := by
  rw [Bool.eq_false_iff, Ne, h.acquired]
  exact hi

theorem At.markCheckpointDurable {prior : List Nat} (h : At grid false acquired released)
    (hk : grid.freeSet.blocksReleasedPriorCheckpointDurability.keys = prior) :
    ∃ after : Grid shards, At after true (acquired.filter (· ∉ released)) prior := by
  obtain ⟨freeSet, heq, hd⟩ := markCheckpointDurable_ok h.runs.sound.valid h.durable h.count
    h.runs.agrees
  have hne : FreeSet.Operation.markCheckpointDurable ≠ .markCheckpointNotDurable := nofun
  have hsame := hd.same
  have hkeys : ∀ i, i ∈ grid.freeSet.blocksReleasedPriorCheckpointDurability.keys → i < shards * shardBits :=
    fun i hi => (h.runs.sound.valid.prior i hi).1
  have hacquired : ∀ {i}, i ∈ acquired → i < shards * shardBits :=
    fun hi => FreeSet.lt_of_bit ((h.acquired _).mpr hi)
  refine ⟨{ grid with freeSet }, h.runs.step hne heq, ?_, ?_, ?_, fun i => ?_, fun i => ?_⟩
  · rw [hsame]
  · rw [hsame]
    exact h.count
  · rw [hsame]
    exact h.limit
  · by_cases hlt : i < shards * shardBits
    · show freeSet.blocksAcquired.bit i = true ↔ _
      rw [hd.acquired i hlt, h.acquired, List.mem_filter, decide_eq_true_iff, Bool.eq_false_iff, Ne,
        h.released]
    · exact ⟨fun hi => absurd (FreeSet.lt_of_bit hi) hlt,
        fun hm => absurd (hacquired (List.mem_filter.mp hm).1) hlt⟩
  · by_cases hlt : i < shards * shardBits
    · show freeSet.blocksReleased.bit i = true ↔ _
      rw [hd.released i hlt, hk]
    · exact ⟨fun hi => absurd (FreeSet.lt_of_bit hi) hlt, fun hm => absurd (hkeys i (hk ▸ hm)) hlt⟩

theorem open_none {capacityBlocks : Nat}
    {freeSet : FreeSet (FreeSet.shardsFor (capacityBlocks * blockSize))}
    (hc : ∀ block : Block, Checksums.block block ≠ 0)
    (hopen : (Grid.freeSetFor capacityBlocks).open [] [] [] [] = .ok freeSet)
    (hidle : freeSet.reservationCount = 0) :
    Grid.open (Grid.freeSetFor capacityBlocks) (fun _ => none) 0 ⟨.none, .none⟩ = .ok {
      freeSet
      freeSetCheckpointBlocksAcquired := openedFrom [] []
      freeSetCheckpointBlocksReleased := openedFrom [] []
      storage := fun _ => none } := by
  have hempty : Grid.trailerOpen (fun _ => none)
      (blockCountForTrailerSize (Grid.freeSetFor capacityBlocks).encodeSizeMax) .none =
        .ok (openedFrom [] [], []) :=
    saved_none.trailerOpen hc rfl (blockCount_zero ▸ Nat.zero_le _)
  have hopen : (Grid.freeSetFor capacityBlocks).open [] [] (openedFrom [] []).addresses
      (openedFrom [] []).addresses = .ok freeSet := hopen
  have hclosed : (!(Grid.freeSetFor capacityBlocks).opened) = true := rfl
  have hdurable : (!(Grid.freeSetFor capacityBlocks).checkpointDurable) = true := rfl
  have hsize : Grid.checkStorageSize 0 ((openedFrom [] []).addresses ++ (openedFrom [] []).addresses) =
      .ok () := rfl
  have hcount : (openedFrom [] []).addresses.length ≤ freeSet.blocksAcquired.count := Nat.zero_le _
  have hcount' : (openedFrom [] []).addresses.length + (openedFrom [] []).addresses.length ≤
      freeSet.blocksReleased.count + freeSet.blocksReleasedPriorCheckpointDurability.keys.length :=
    Nat.zero_le _
  unfold Grid.open
  dsimp only
  rw [assert_of hclosed, ok_bind, assert_of hdurable, ok_bind, hempty, ok_bind, ok_bind]
  dsimp only
  rw [hopen, ok_bind, hsize, ok_bind, assert_of hidle, ok_bind, assert_of hcount, ok_bind, assert_of hcount',
    ok_bind]
  rfl

theorem At.init (hc : ∀ block : Block, Checksums.block block ≠ 0) :
    ∃ grid : Grid (FreeSet.shardsFor (16 * blockSize)), At grid false [] [] ∧
      grid.freeSet.blocksReleasedPriorCheckpointDurability.keys = [] := by
  obtain ⟨freeSet, hopen, hopens⟩ := @FreeSet.open_new (16 * blockSize)
    (FreeSet.blockCountMax (16 * blockSize))
  have ⟨hunset, hunreleased, _⟩ := hopens.unset
  have hsame := hopens.same
  have hidle : freeSet.reservationCount = 0 := by
    rw [hsame]
    rfl
  have heq := open_none hc hopen hidle
  have hinit : machine.init ⟨_, _⟩ := ⟨16, fun _ => none, 0, _, by decide, heq, rfl⟩
  have hreach := @Machine.Reachable.init _ _ _ machine (fun _ e => e.Proper) _ hinit
  refine ⟨_, ⟨⟨hreach, sound_of_reachable hc hreach, fun s _ => ?_⟩, ?_, hidle, ?_, fun i => ?_,
    fun i => ?_⟩, ?_⟩
  · refine hopens.agrees.mpr fun hf => ?_
    have hbit := hf (s * shardBits) (Nat.mul_div_cancel _ FreeSet.shardBits_pos)
    rw [show (FreeSet.new _ _).blocksAcquired = newEmpty from rfl, bit_newEmpty] at hbit
    cases hbit
  · rw [hsame]
    rfl
  · rw [hsame]
    exact Nat.mul_div_cancel _ (by decide)
  · rw [hunset]
    simp
  · rw [hunreleased]
    simp
  · rw [hsame]

theorem At.acquire (hn : 16 ≤ shards * shardBits) (h : At grid false [] []) :
    ∃ after : Grid shards, At after false [0, 1] [] ∧
      after.freeSet.blocksReleasedPriorCheckpointDurability =
        grid.freeSet.blocksReleasedPriorCheckpointDurability := by
  have hv := h.runs.sound.valid
  have hunset : ∀ i, grid.freeSet.blocksAcquired.bit i = false := fun _ => h.unset List.not_mem_nil
  have hindex : grid.freeSet.index.bit 0 = false := by
    rw [Bool.eq_false_iff]
    intro hset
    have hbit := hv.index 0 h.runs.sound.nonempty hset 0 (Nat.zero_div _)
    rw [hunset] at hbit
    cases hbit
  have hreserve := FreeSet.reserve_of_unset hv h.count Nat.two_pos hindex (fun i _ => hunset i)
    (show 2 ≤ shards * shardBits by omega) (by rw [h.limit]; decide)
  have hreserved : Runs { grid with freeSet := { grid.freeSet with
      reservationBlocks := 2
      reservationCount := grid.freeSet.reservationCount + 1 } } :=
    @Runs.step _ _ _ (.reserve 2) _ h.runs nofun (by show (_ >>= _) = _; rw [hreserve]; rfl)
  obtain ⟨index, hfirst⟩ := @Runs.acquire _ _ _ ⟨0, 2, grid.freeSet.reservationSession⟩ 0 hreserved
    ⟨hv.opened, Nat.succ_pos _, Nat.two_pos, Nat.two_pos, Nat.le_refl _, rfl⟩ (Nat.le_refl _) Nat.two_pos
    (hunset 0) fun i _ hi => absurd hi (Nat.not_lt_zero i)
  obtain ⟨index', hsecond⟩ := @Runs.acquire _ _ _ ⟨0, 2, grid.freeSet.reservationSession⟩ 1 hfirst
    ⟨hv.opened, Nat.succ_pos _, Nat.two_pos, Nat.two_pos, Nat.le_refl _, rfl⟩ (Nat.zero_le _) Nat.one_lt_two
    (by dsimp only; rw [bit_insert (by omega), hunset]; rfl)
    fun i _ hi => by
      dsimp only
      rw [bit_insert (by omega), Nat.lt_one_iff.mp hi]
      simp
  have hforfeit := @Runs.step _ _ _ (.forfeit ⟨0, 2, grid.freeSet.reservationSession⟩) _ hsecond nofun
    (forfeit_last hv.opened rfl (congrArg (· + 1) h.count))
  refine ⟨_, ⟨hforfeit, h.durable, rfl, h.limit, fun i => ?_, h.released⟩, rfl⟩
  dsimp only
  rw [bit_insert (by omega), bit_insert (by omega), hunset, Bool.false_or, Bool.or_eq_true,
    decide_eq_true_iff, decide_eq_true_iff, List.mem_cons, List.mem_singleton, @eq_comm _ 0 i, @eq_comm _ 1 i]

-- What is released before the checkpoint is durable is only noted.
theorem At.release {block : Nat} (h : At grid false acquired []) (hb : block ∈ acquired)
    (hk : block ∉ grid.freeSet.blocksReleasedPriorCheckpointDurability.keys)
    (hr : grid.freeSet.blocksReleasedPriorCheckpointDurability.keys.length <
      grid.freeSet.blocksReleasedPriorCheckpointDurability.capacity) :
    ∃ after : Grid shards, At after false acquired [] ∧
      after.freeSet.blocksReleasedPriorCheckpointDurability.capacity =
        grid.freeSet.blocksReleasedPriorCheckpointDurability.capacity ∧
      after.freeSet.blocksReleasedPriorCheckpointDurability.keys =
        grid.freeSet.blocksReleasedPriorCheckpointDurability.keys ++ [block] := by
  have hbit := (h.acquired block).mpr hb
  have hlt : block < shards * shardBits := FreeSet.lt_of_bit hbit
  have hunreleased : grid.freeSet.blocksReleased.bit block = false := by
    rw [Bool.eq_false_iff, Ne, h.released]
    exact List.not_mem_nil
  have heq := release_ok h.runs.sound.valid.opened h.durable ⟨hlt, hbit, hunreleased, hk⟩ hr
  exact ⟨_, ⟨@Runs.step _ _ _ (.release (block + 1)) _ h.runs nofun heq,
    h.durable, h.count, h.limit, h.acquired, h.released⟩, rfl, rfl⟩

theorem At.trailerBlockCount {i j : Nat} (h : At grid durable acquired released) (hs : shards = 1)
    (hi : i ∈ acquired) (hj : j ∈ released) : trailerBlockCount grid.freeSet = 2 := by
  unfold GridTrailer.trailerBlockCount
  rw [blockCount_encoding grid.freeSet hs ((h.acquired i).mpr hi),
    blockCount_encoding grid.freeSet hs ((h.released j).mpr hj)]

-- The trailers of a checkpoint are written to the first two free blocks.
theorem At.checkpoint {a b i j : Nat} (h : At grid true acquired released) (hs : shards = 1)
    (hn : 16 ≤ shards * shardBits) (hi : i ∈ acquired) (hj : j ∈ released) (hab : a < b) (hb : b < 16)
    (hfree : a ∉ acquired) (hfree' : b ∉ acquired)
    (hbefore : ∀ i < b, i ≠ a → i ∈ acquired) :
    ∃ after blocksAcquired blocksReleased, grid.checkpoint = .ok after ∧
      Checkpointed grid blocksAcquired blocksReleased after ∧
        trailerBlocks blocksAcquired blocksReleased = [a, b] := by
  have hcount := h.trailerBlockCount hs hi hj
  have hroom : 2 ≤ (roomFor grid.freeSet).length := by
    have hnodup : [a, b].Nodup := by
      simp
      omega
    refine hnodup.length_le_of_subset fun i hi => ?_
    have hlt : i < 16 ∧ i ∉ acquired := by
      cases List.mem_pair.mp hi with
      | inl he => exact he ▸ ⟨by omega, hfree⟩
      | inr he => exact he ▸ ⟨hb, hfree'⟩
    refine FreeSet.mem_freeBlocks.mpr ⟨⟨Nat.zero_le _, ?_⟩, h.unset hlt.2⟩
    rw [h.limit]
    omega
  obtain ⟨after, heq, blocksAcquired, blocksReleased, hcheckpointed⟩ := Meets.iff_exists.mp
    ((h.runs.sound.checkpoint h.durable h.count).mono (fun _ hc => hc) fun _ ⟨_, hfew⟩ => by omega)
  refine ⟨after, blocksAcquired, blocksReleased, heq, hcheckpointed, ?_⟩
  have hlength : (blocksAcquired ++ blocksReleased).length = 2 := by
    rw [← hcount, List.length_append, hcheckpointed.savedAcquired.length,
      hcheckpointed.savedReleased.length]
    rfl
  have hfirst : First (fun i => grid.freeSet.blocksAcquired.bit i = false) 0 (shards * shardBits) (some a) :=
    ⟨⟨Nat.zero_le _, by omega, h.unset hfree⟩, fun i _ hi => by
      simp [(h.acquired i).mpr (hbefore i (by omega) (by omega))]⟩
  have hsecond : First (fun i => grid.freeSet.blocksAcquired.bit i = false) (a + 1)
      (shards * shardBits) (some b) :=
    ⟨⟨hab, by omega, h.unset hfree'⟩, fun i hl hi => by
      simp [(h.acquired i).mpr (hbefore i hi (by omega))]⟩
  rw [hcheckpointed.trailerBlocks_eq, hlength, FreeSet.freeBlocks_first hfirst,
    FreeSet.freeBlocks_first hsecond]
  rfl

-- The blocks of the trailers are released for the next checkpoint.
theorem At.markCheckpointNotDurable {a b : Nat} {blocksAcquired blocksReleased : List Block}
    (h : At grid true acquired released) (hs : grid.checkpoint = .ok after)
    (hc : Checkpointed grid blocksAcquired blocksReleased after)
    (ht : trailerBlocks blocksAcquired blocksReleased = [a, b]) :
    ∃ next : Grid shards, At next false (acquired ++ [a, b]) released ∧
      next.freeSet.blocksReleasedPriorCheckpointDurability.keys = [a, b] := by
  have hsame := hc.same
  have hmark := hc.markCheckpointNotDurable h.runs.sound h.durable
  have hsound := hc.sound h.runs.sound h.durable
  have hcheckpoint : machine.step ⟨_, grid⟩ .checkpoint = .ok ⟨_, after⟩ := by
    show (grid.checkpoint >>= _) = _
    rw [hs]
    rfl
  have hreach := @Machine.Reachable.step _ _ _ _ _ _ _ Event.checkpoint h.runs.reachable trivial hcheckpoint
  have hnext : ∀ {next : Grid shards}, after.markCheckpointNotDurable = .ok next →
      machine.Reachable (fun _ e => e.Proper) (⟨shards, next⟩ : Σ shards, Grid shards) := by
    intro next heq
    have hstep : machine.step (⟨shards, after⟩ : Σ shards, Grid shards) .markCheckpointNotDurable =
        .ok (⟨shards, next⟩ : Σ shards, Grid shards) := by
      show (after.markCheckpointNotDurable >>= _) = _
      rw [heq]
      rfl
    exact @Machine.Reachable.step _ _ _ _ _ _ _ Event.markCheckpointNotDurable hreach trivial hstep
  refine ⟨_, ⟨⟨hnext hmark, hsound.markCheckpointNotDurable.post hmark, hc.agrees h.runs.agrees⟩, rfl, ?_, ?_,
    fun i => ?_, fun i => ?_⟩, ht⟩
  · dsimp only
    rw [hsame]
    exact h.count
  · dsimp only
    rw [hsame]
    exact h.limit
  · dsimp only
    rw [hc.acquired_iff, ht, h.acquired, List.mem_append]
  · dsimp only
    rw [hsame]
    exact h.released i

-- Two blocks are released that the next checkpoint may free.
theorem exists_durable (hc : ∀ block : Block, Checksums.block block ≠ 0) :
    ∃ grid : Grid (FreeSet.shardsFor (16 * blockSize)), At grid true [0, 1] [0, 1] := by
  obtain ⟨opened, hopened, hkeys⟩ := At.init hc
  obtain ⟨acquired, hacquired, hprior⟩ := hopened.acquire sixteen_le
  have hcapacity := hacquired.runs.sound.capacity
  have hlarge := sixteen_le
  rw [← hprior] at hkeys
  obtain ⟨first, hfirst, hsame, hkeys'⟩ := @At.release _ _ _ _ 0 hacquired (by simp)
    (by simp [hkeys]) (by rw [hkeys, List.length_nil]; omega)
  rw [hkeys] at hkeys'
  obtain ⟨second, hsecond, _, hkeys''⟩ := @At.release _ _ _ _ 1 hfirst (by simp)
    (by simp [hkeys']) (by rw [hkeys', hsame, List.nil_append, List.length_singleton]; omega)
  rw [hkeys'] at hkeys''
  exact hsecond.markCheckpointDurable hkeys''

-- The trailers of the checkpoint before have kept the two highest blocks.
theorem exists_uncovered (hc : ∀ block : Block, Checksums.block block ≠ 0) :
    ∃ grid : Grid (FreeSet.shardsFor (16 * blockSize)), At grid true [2, 3] [2, 3] := by
  obtain ⟨grid, hgrid⟩ := exists_durable hc
  obtain ⟨after, _, _, hs, hcheckpointed, ht⟩ := @At.checkpoint _ _ _ _ _ 2 3 0 0 hgrid shardsFor_sixteen
    sixteen_le (by decide) (by decide) (by decide) (by decide) (by decide) (by decide) (by decide)
  obtain ⟨next, hnext, hkeys⟩ := hgrid.markCheckpointNotDurable hs hcheckpointed ht
  exact hnext.markCheckpointDurable hkeys

theorem At.not_covered (h : At grid true [2, 3] [2, 3]) (hs : shards = 1) : ¬Covered grid.freeSet := by
  intro hcovered
  have hlt := hcovered 3 ((h.acquired 3).mpr (by decide))
  rw [@At.trailerBlockCount _ _ _ _ _ _ 2 2 h hs (by decide) (by decide)] at hlt
  have hfree : ∀ i ∈ [0, 1], i ∈ freeBlocks grid.freeSet.blocksAcquired 0 3 := by
    intro i hi
    refine FreeSet.mem_freeBlocks.mpr ?_
    cases List.mem_pair.mp hi with
    | inl he =>
      subst he
      exact ⟨⟨Nat.le_refl _, by decide⟩, h.unset (by decide)⟩
    | inr he =>
      subst he
      exact ⟨⟨Nat.zero_le _, by decide⟩, h.unset (by decide)⟩
  have hle : 2 ≤ _ := List.Nodup.length_le_of_subset (by decide) hfree
  omega

end Run

-- After two checkpoints, the highest acquired blocks are not those of the trailers.
theorem checkpoint_uncovered : ∃ (_ : Checksums)
    (grid after : Grid (FreeSet.shardsFor (16 * blockSize))),
    (∀ block : Block, Checksums.block block ≠ 0) ∧ machine.Reachable (fun _ e => e.Proper) ⟨_, grid⟩ ∧
      grid.freeSet.checkpointDurable = true ∧ grid.freeSet.reservationCount = 0 ∧
      grid.checkpoint = .ok after ∧ ¬Restarts after (Grid.freeSetFor 16) := by
  let : Checksums := ⟨fun block => block.address + 1, fun body => body.length + 1⟩
  have hc : ∀ block : Block, Checksums.block block ≠ 0 := fun block => Nat.succ_ne_zero block.address
  obtain ⟨grid, hgrid⟩ := exists_uncovered hc
  obtain ⟨after, _, _, hs, hcheckpointed, _⟩ := @At.checkpoint _ _ _ _ _ 0 1 2 2 hgrid shardsFor_sixteen
    sixteen_le (by decide) (by decide) (by decide) (by decide) (by decide) (by decide) (by decide)
  refine ⟨inferInstance, grid, after, hc, hgrid.runs.reachable, hgrid.durable, hgrid.count, hs, ?_⟩
  have hlimit : (Grid.freeSetFor 16).blocksCountLimit = grid.freeSet.blocksCountLimit := hgrid.limit.symm
  have hrestarts := hcheckpointed.restarts_iff hgrid.runs.sound hc hgrid.durable hgrid.count FreeSet.fresh_new
    capacity_freeSetFor hlimit
  exact fun h => hgrid.not_covered shardsFor_sixteen (hrestarts.mp h)

theorem checkpoint_restarts_sixteen : ∃ (_ : Checksums)
    (grid : Grid (FreeSet.shardsFor (16 * blockSize))),
    Meets
      (fun fault => grid.freeSet.checkpointDurable = true →
        fault = tooLarge ∧ (roomFor grid.freeSet).length < trailerBlockCount grid.freeSet)
      (fun after => grid.freeSet.checkpointDurable = true ∧
        (Restarts after (Grid.freeSetFor 16) ↔ Covered grid.freeSet))
      grid.checkpoint := by
  let : Checksums := ⟨fun block => block.address + 1, fun body => body.length + 1⟩
  have hc : ∀ block : Block, Checksums.block block ≠ 0 := fun block => Nat.succ_ne_zero block.address
  obtain ⟨grid, hgrid⟩ := exists_durable hc
  exact ⟨inferInstance, grid, checkpoint_restarts hc hgrid.runs.reachable (hgrid.limit.trans rfl) hgrid.count⟩

end TigerBeetle.GridTrailer
