import TigerBeetle.FreeSet
import TigerBeetle.Theorems.DynamicBitSet

namespace TigerBeetle.FreeSet

open Fallible DynamicBitSet

variable {shards : Nat} {set : FreeSet shards} {bits : DynamicBitSet (shards * shardBits)}

theorem shardBits_pos : 0 < shardBits := by
  unfold shardBits
  decide

-- Every block of a shard is acquired.
def Full (bits : DynamicBitSet (shards * shardBits)) (shard : Nat) : Prop :=
  ∀ i, i / shardBits = shard → bits.bit i = true

variable {shard i : Nat}

theorem div_eq_shard :
    i / shardBits = shard ↔ shard * shardBits ≤ i ∧ i < shard * shardBits + shardBits := by
  rw [Nat.div_eq_iff shardBits_pos]
  have := shardBits_pos
  omega

theorem div_lt_shards (h : i < shards * shardBits) : i / shardBits < shards :=
  Nat.div_lt_of_lt_mul (Nat.mul_comm _ _ ▸ h)

theorem shard_end_le (h : shard < shards) : shard * shardBits + shardBits ≤ shards * shardBits := by
  rw [← Nat.succ_mul]
  exact Nat.mul_le_mul_right _ h

@[simp]
theorem is_unset {n : Nat} {bits : DynamicBitSet n} : bits.Is .unset i ↔ bits.bit i = false :=
  Iff.rfl

theorem findFreeBlockInShard_meets (h : shard < shards) :
    Meets (fun _ => False) (fun found => found.isNone = true ↔ Full set.blocksAcquired shard)
      (set.findFreeBlockInShard shard) := by
  have hpos := shardBits_pos
  have hle := shard_end_le h
  unfold findFreeBlockInShard
  dsimp only
  rw [assert_of (by omega), ok_bind]
  refine (findBit_meets (Nat.le_add_right _ _) hle).weaken fun found hf => ?_
  cases found with
  | none =>
    refine ⟨fun _ i hi => ?_, fun _ => rfl⟩
    have ⟨hl, hh⟩ := div_eq_shard.mp hi
    simpa using hf i hl hh
  | some i =>
    refine ⟨nofun, fun hfull => ?_⟩
    have ⟨⟨hl, hh, hi⟩, _⟩ := hf
    rw [is_unset, hfull i (div_eq_shard.mpr ⟨hl, hh⟩)] at hi
    cases hi

theorem updateIndex_meets (h : shard < shards) :
    Meets (fun _ => False) (fun after => ∃ index, after = { set with index } ∧
      ∀ s, index.bit s = true ↔
        set.index.bit s = true ∨ s = shard ∧ Full set.blocksAcquired shard)
      (set.updateIndex shard) := by
  unfold updateIndex
  refine Meets.bind (findFreeBlockInShard_meets h) fun found hf => ?_
  split
  · next hn =>
    rw [set_eq h, ok_bind]
    refine ⟨_, rfl, fun s => ?_⟩
    rw [bit_insert h, Bool.or_eq_true, decide_eq_true_iff]
    exact or_congr_right ⟨fun he => ⟨he.symm, hf.mp hn⟩, fun he => he.1.symm⟩
  · next hn => exact ⟨_, rfl, fun s => ⟨.inl, fun hs => hs.resolve_right fun he => hn (hf.mpr he.2)⟩⟩

-- What holds of every open free set.
structure Valid (set : FreeSet shards) : Prop where
  opened : set.opened = true
  released : ∀ i < shards * shardBits, set.blocksReleased.bit i = true →
    set.blocksAcquired.bit i = true
  prior : ∀ i ∈ set.blocksReleasedPriorCheckpointDurability.keys,
    i < shards * shardBits ∧ set.blocksAcquired.bit i = true ∧ set.blocksReleased.bit i = false
  index : ∀ s < shards, set.index.bit s = true → Full set.blocksAcquired s
  reserved : set.reservationBlocks ≤ shards * shardBits
  unreserved : set.reservationCount = 0 →
    set.reservationBlocks = 0 ∧ set.reservationState = .reserving
  durable : set.checkpointDurable = true →
    set.blocksReleasedPriorCheckpointDurability.keys = []

section Acquire

variable {reservation : Reservation}

-- The reservation is one of the current session.
structure Admits (set : FreeSet shards) (reservation : Reservation) : Prop where
  opened : set.opened = true
  count : 0 < set.reservationCount
  blocks : 0 < reservation.blockCount
  base : reservation.blockBase < set.reservationBlocks
  within : reservation.blockBase + reservation.blockCount ≤ set.reservationBlocks
  session : reservation.session = set.reservationSession

-- The first free block of the range is acquired, if there is one.
inductive Acquires (set : FreeSet shards) (reservation : Reservation) :
    Option Nat → FreeSet shards → Prop
  | none :
    (∀ i, reservation.blockBase ≤ i → i < reservation.blockBase + reservation.blockCount →
      set.blocksAcquired.bit i = true) →
    Acquires set reservation none set
  | some {block : Nat} {index : DynamicBitSet shards} :
    First (fun i => set.blocksAcquired.bit i = false) reservation.blockBase
      (reservation.blockBase + reservation.blockCount) (some block) →
    block < shards * shardBits →
    (∀ s, index.bit s = true ↔ set.index.bit s = true ∨
      s = block / shardBits ∧ Full (set.blocksAcquired.insert block) s) →
    Acquires set reservation (some (block + 1))
      { set with blocksAcquired := set.blocksAcquired.insert block, index }

theorem acquire_meets (h : set.Valid) :
    Meets (fun _ => ¬set.Admits reservation)
      (fun (found, after) => set.Admits reservation ∧ Acquires set reservation found after)
      (set.acquire reservation) := by
  have hpos := shardBits_pos
  unfold acquire
  refine Meets.bind_iff.mpr (meets_assert.mpr ⟨fun ho => ?_, fun hn ha => hn ha.opened⟩)
  refine Meets.bind_iff.mpr (meets_assert.mpr ⟨fun hc => ?_, fun hn ha => hn ha.count⟩)
  refine Meets.bind_iff.mpr (meets_assert.mpr ⟨fun hb => ?_, fun hn ha => hn ha.blocks⟩)
  refine Meets.bind_iff.mpr (meets_assert.mpr ⟨fun hr => ?_, fun hn ha => hn ha.base⟩)
  refine Meets.bind_iff.mpr (meets_assert.mpr ⟨fun hw => ?_, fun hn ha => hn ha.within⟩)
  refine Meets.bind_iff.mpr (meets_assert.mpr ⟨fun hs => ?_, fun hn ha => hn ha.session⟩)
  have hadmits : set.Admits reservation := ⟨ho, hc, hb, hr, hw, hs⟩
  dsimp only
  generalize hend : reservation.blockBase + reservation.blockCount = hi at *
  have hin : hi ≤ shards * shardBits := Nat.le_trans hw h.reserved
  have hceil : (hi + (shardBits - 1)) / shardBits ≤ shards := by
    rw [← Nat.lt_succ_iff, Nat.div_lt_iff_lt_mul hpos, Nat.succ_mul]
    omega
  have hshard : ∀ i < hi, i / shardBits < (hi + (shardBits - 1)) / shardBits := by
    intro i hi'
    rw [Nat.lt_div_iff_mul_lt hpos]
    have := Nat.div_mul_le_self i shardBits
    omega
  -- Shards whose bit is set have no free blocks.
  have hfull : ∀ i < hi, set.index.bit (i / shardBits) = true → set.blocksAcquired.bit i = true :=
    fun i hi' hbit => h.index _ (div_lt_shards (by omega)) hbit i rfl
  refine Meets.bind ((findBit_meets (Nat.div_le_div_right (by omega)) hceil).mono
    (fun _ hf => hf) fun _ hf => hf.elim) fun found hf => ?_
  cases found with
  | none =>
    refine ⟨hadmits, .none fun i hl hh => ?_⟩
    rw [hend] at hh
    refine hfull i hh ?_
    simpa using hf _ (Nat.div_le_div_right hl) (hshard i hh)
  | some shardStart =>
    obtain ⟨⟨hlo, hhi, hbit⟩, hbefore⟩ := hf
    have hstart : shardStart * shardBits < hi := by
      rw [Nat.lt_div_iff_mul_lt hpos] at hhi
      omega
    dsimp only
    rw [get_eq (by omega), ok_bind, is_unset.mp hbit, assert_of (by decide), ok_bind]
    refine Meets.bind ((findBit_meets (by omega) hin).mono (fun _ hf => hf) fun _ hf => hf.elim)
      fun found hf => ?_
    have hf : First (set.blocksAcquired.Is .unset) reservation.blockBase hi found := by
      refine hf.mono (Nat.le_max_right _ _) fun i hl hs' hh hi' => ?_
      have hlt : i / shardBits < shardStart := by
        rw [Nat.div_lt_iff_lt_mul hpos]
        omega
      have hset := hbefore _ (Nat.div_le_div_right hl) hlt
      rw [is_unset, Bool.not_eq_false] at hset
      rw [is_unset, hfull i hh hset] at hi'
      cases hi'
    cases found with
    | none =>
      refine ⟨hadmits, .none fun i hl hh => ?_⟩
      rw [hend] at hh
      simpa using hf i hl hh
    | some block =>
      have ⟨⟨hl, hh, hfree⟩, _⟩ := hf
      rw [is_unset] at hfree
      have hblock : block < shards * shardBits := by omega
      have hlate : shardStart ≤ block / shardBits := by
        by_contra hlt
        have hset := hbefore _ (Nat.div_le_div_right hl) (by omega)
        rw [is_unset, Bool.not_eq_false] at hset
        rw [hfull block hh hset] at hfree
        cases hfree
      have hreleased : set.blocksReleased.bit block = false := by
        by_contra hr
        rw [h.released block hblock (by simpa using hr)] at hfree
        cases hfree
      have hprior : set.blocksReleasedPriorCheckpointDurability.contains block = false := by
        refine decide_eq_false fun hm => ?_
        rw [(h.prior block hm).2.1] at hfree
        cases hfree
      dsimp only
      rw [assert_of hl, ok_bind, assert_of (by omega), ok_bind, get_eq hblock, ok_bind, hfree,
        assert_of (by decide), ok_bind, get_eq hblock, ok_bind, hreleased, assert_of (by decide),
        ok_bind, hprior, assert_of (by decide), ok_bind, assert_of hlate, ok_bind, set_eq hblock,
        ok_bind]
      refine Meets.bind ((updateIndex_meets (div_lt_shards hblock)).mono (fun _ hf => hf)
        fun _ hf => hf.elim) fun after ⟨index, hafter, hindex⟩ => ?_
      rw [hafter]
      refine ⟨hadmits, .some (hend ▸ hf) hblock fun s => ?_⟩
      exact (hindex s).trans (or_congr_right (and_congr_right fun he => by rw [he]))

end Acquire

section Verify

-- The fault of the index verification.
def verifyFailed : Fault :=
  .panic .general verifyMessage

-- The bit of a shard tells whether the shard is full.
def Agrees (set : FreeSet shards) (shard : Nat) : Prop :=
  set.index.bit shard = true ↔ Full set.blocksAcquired shard

theorem verifyShard_meets (h : shard < shards) :
    Meets (fun fault => fault = verifyFailed ∧ ¬set.Agrees shard) (fun _ => set.Agrees shard)
      (set.verifyShard shard) := by
  unfold verifyShard Agrees
  refine Meets.bind ((findFreeBlockInShard_meets h).mono (fun _ hf => hf) fun _ hf => hf.elim)
    fun found hf => ?_
  rw [get_eq h, ok_bind, ← hf, meets_assert]
  cases found.isNone <;> cases set.index.bit shard <;> simp [verifyFailed]

theorem forM_verifyShard_meets {list : List Nat} (h : ∀ shard ∈ list, shard < shards) :
    Meets (fun fault => fault = verifyFailed ∧ ¬∀ shard ∈ list, set.Agrees shard)
      (fun _ => ∀ shard ∈ list, set.Agrees shard) (list.forM set.verifyShard) := by
  induction list with
  | nil => exact fun _ hs => absurd hs List.not_mem_nil
  | cons shard list ih =>
    show Meets _ _ (set.verifyShard shard >>= fun _ => list.forM set.verifyShard)
    refine Meets.bind ((verifyShard_meets (h shard (by simp))).mono (fun _ hf => hf)
      fun fault hf => ⟨hf.1, fun ha => hf.2 (ha shard (by simp))⟩) fun _ hf => ?_
    refine (ih fun s hs => h s (by simp [hs])).mono (fun _ hr => ?_)
      fun fault hr => ⟨hr.1, fun ha => hr.2 fun s hs => ha s (by simp [hs])⟩
    intro s hs
    cases hs with
    | head => exact hf
    | tail _ hs => exact hr s hs

theorem verifyIndex_meets :
    Meets (fun fault => fault = verifyFailed ∧ ¬∀ shard < shards, set.Agrees shard)
      (fun _ => ∀ shard < shards, set.Agrees shard) set.verifyIndex :=
  (forM_verifyShard_meets fun _ hs => List.mem_range.mp hs).mono
    (fun _ hr s hs => hr s (List.mem_range.mpr hs))
    fun _ hr => ⟨hr.1, fun ha => hr.2 fun s hs => ha s (List.mem_range.mp hs)⟩

end Verify

variable {blocks : List Nat}

section Free

-- Another fault than that of the index verification.
def Other (fault : Fault) : Prop :=
  fault ≠ verifyFailed

theorem other_of_ne {message : String} (h : message ≠ verifyMessage) :
    Other (.panic .general message) :=
  fun he => h (Fault.panic.inj he).2

theorem meets_blockOf {address : Nat} :
    Meets Other (fun block => address = block + 1) (blockOf address) := by
  unfold blockOf
  refine Meets.bind_iff.mpr (meets_assert.mpr ⟨fun hp => ?_, fun _ => other_of_ne (by decide)⟩)
  exact (Nat.sub_add_cancel hp).symm

theorem meets_get {n : Nat} {bits : DynamicBitSet n} :
    Meets Other (fun bit => i < n ∧ bit = bits.bit i) (bits.get i) := by
  unfold DynamicBitSet.get
  refine Meets.bind_iff.mpr (meets_assert.mpr ⟨fun hi => ⟨hi, rfl⟩, fun _ => other_of_ne (by decide)⟩)

theorem free_meets {address : Nat} :
    Meets Other (fun after => ∃ block, address = block + 1 ∧ block < shards * shardBits ∧
      set.reservationCount = 0 ∧ after = { set with
        index := set.index.erase (block / shardBits)
        blocksAcquired := set.blocksAcquired.erase block
        blocksReleased := set.blocksReleased.erase block })
      (set.free address) := by
  unfold free
  refine Meets.bind_iff.mpr (meets_assert.mpr ⟨fun _ => ?_, fun _ => other_of_ne (by decide)⟩)
  refine Meets.bind_iff.mpr (meets_assert.mpr ⟨fun _ => ?_, fun _ => other_of_ne (by decide)⟩)
  refine Meets.bind meets_blockOf fun block hb => ?_
  refine Meets.bind meets_get fun _ ⟨hi, _⟩ => ?_
  refine Meets.bind_iff.mpr (meets_assert.mpr ⟨fun _ => ?_, fun _ => other_of_ne (by decide)⟩)
  refine Meets.bind meets_get fun _ _ => ?_
  refine Meets.bind_iff.mpr (meets_assert.mpr ⟨fun _ => ?_, fun _ => other_of_ne (by decide)⟩)
  refine Meets.bind_iff.mpr (meets_assert.mpr ⟨fun _ => ?_, fun _ => other_of_ne (by decide)⟩)
  refine Meets.bind_iff.mpr (meets_assert.mpr ⟨fun hc => ?_, fun _ => other_of_ne (by decide)⟩)
  refine Meets.bind_iff.mpr (meets_assert.mpr ⟨fun _ => ?_, fun _ => other_of_ne (by decide)⟩)
  rw [unset_eq (div_lt_shards hi), ok_bind, unset_eq hi, ok_bind, unset_eq hi, ok_bind]
  exact ⟨block, hb, hi, hc, rfl⟩

-- The blocks are no longer acquired, and so their shards are not full.
structure Freed (set : FreeSet shards) (blocks : List Nat) (after : FreeSet shards) : Prop where
  same : after = { set with
    index := after.index
    blocksAcquired := after.blocksAcquired
    blocksReleased := after.blocksReleased }
  acquired : ∀ i, after.blocksAcquired.bit i = true ↔
    set.blocksAcquired.bit i = true ∧ i ∉ blocks
  released : ∀ i, after.blocksReleased.bit i = true ↔
    set.blocksReleased.bit i = true ∧ i ∉ blocks
  index : ∀ s, after.index.bit s = true ↔
    set.index.bit s = true ∧ ∀ b ∈ blocks, b / shardBits ≠ s
  unheld : blocks = [] ∨ set.reservationCount = 0

theorem freeAll_meets : Meets Other (set.Freed blocks) (freeAll (blocks.map (· + 1)) set) := by
  induction blocks generalizing set with
  | nil => exact ⟨rfl, by simp, by simp, by simp, .inl rfl⟩
  | cons block blocks ih =>
    refine Meets.bind free_meets fun next ⟨b, hb, hi, hc, hnext⟩ => ?_
    obtain rfl := Nat.succ.inj hb
    refine ih.weaken fun after hf => ?_
    rw [hnext] at hf
    refine ⟨hf.same, fun i => ?_, fun i => ?_, fun s => ?_, .inr hc⟩
    · rw [hf.acquired, bit_erase hi]
      simp only [Bool.and_eq_true, decide_eq_true_iff, List.mem_cons, not_or]
      constructor
      · exact fun ⟨⟨h₁, h₂⟩, h₃⟩ => ⟨h₁, Ne.symm h₂, h₃⟩
      · exact fun ⟨h₁, h₂, h₃⟩ => ⟨⟨h₁, Ne.symm h₂⟩, h₃⟩
    · rw [hf.released, bit_erase hi]
      simp only [Bool.and_eq_true, decide_eq_true_iff, List.mem_cons, not_or]
      constructor
      · exact fun ⟨⟨h₁, h₂⟩, h₃⟩ => ⟨h₁, Ne.symm h₂, h₃⟩
      · exact fun ⟨h₁, h₂, h₃⟩ => ⟨⟨h₁, Ne.symm h₂⟩, h₃⟩
    · rw [hf.index, bit_erase (div_lt_shards hi)]
      simp only [Bool.and_eq_true, decide_eq_true_iff, List.mem_cons, forall_eq_or_imp]
      exact and_assoc

theorem setAll_meets :
    Meets Other (fun after => ∀ i, after.bit i = true ↔ bits.bit i = true ∨ i ∈ blocks)
      (setAll bits blocks) := by
  induction blocks generalizing bits with
  | nil => exact fun i => by simp
  | cons block blocks ih =>
    unfold setAll DynamicBitSet.set
    rw [bind_assoc]
    refine Meets.bind_iff.mpr (meets_assert.mpr ⟨fun hi => ?_, fun _ => other_of_ne (by decide)⟩)
    rw [pure_bind]
    refine ih.weaken fun after ha i => ?_
    rw [ha, bit_insert hi, Bool.or_eq_true, decide_eq_true_iff, List.mem_cons, or_assoc,
      @eq_comm _ block]

end Free

section Checkpoint

-- What becomes free is what was released before the checkpoint that is durable now. What has been
-- released since then is to be freed next.
structure Durable (set after : FreeSet shards) : Prop where
  opened : set.opened = true
  notDurable : set.checkpointDurable = false
  same : after = { set with
    checkpointDurable := true
    index := after.index
    blocksAcquired := after.blocksAcquired
    blocksReleased := after.blocksReleased
    blocksReleasedPriorCheckpointDurability :=
      { set.blocksReleasedPriorCheckpointDurability with keys := [] } }
  acquired : ∀ i < shards * shardBits, after.blocksAcquired.bit i = true ↔
    set.blocksAcquired.bit i = true ∧ set.blocksReleased.bit i = false
  released : ∀ i < shards * shardBits, after.blocksReleased.bit i = true ↔
    i ∈ set.blocksReleasedPriorCheckpointDurability.keys
  agrees : ∀ shard < shards, after.Agrees shard
  unheld : (∀ i < shards * shardBits, set.blocksReleased.bit i = false) ∨
    set.reservationCount = 0

-- A shard with a block that becomes free is not full.
theorem Freed.agrees {after : FreeSet shards} (h : set.Freed blocks after)
    (ha : ∀ shard < shards, set.Agrees shard) : ∀ shard < shards, after.Agrees shard := by
  intro shard hs
  have hbefore : set.index.bit shard = true ↔ Full set.blocksAcquired shard := ha shard hs
  unfold Agrees Full
  rw [h.index, hbefore]
  constructor
  · intro ⟨hfull, hnone⟩ i hi
    exact (h.acquired i).mpr ⟨hfull i hi, fun hm => hnone i hm hi⟩
  · intro hfull
    exact ⟨fun i hi => ((h.acquired i).mp (hfull i hi)).1,
      fun b hb hi => ((h.acquired b).mp (hfull b hi)).2 hb⟩

theorem markCheckpointDurable_meets :
    Meets (fun fault => (∀ shard < shards, set.Agrees shard) → Other fault) set.Durable
      set.markCheckpointDurable := by
  unfold markCheckpointDurable
  refine Meets.bind_iff.mpr (meets_assert.mpr ⟨fun ho => ?_, fun _ _ => other_of_ne (by decide)⟩)
  refine Meets.bind_iff.mpr (meets_assert.mpr ⟨fun hd => ?_, fun _ _ => other_of_ne (by decide)⟩)
  dsimp only
  refine Meets.bind (freeAll_meets.mono (fun _ hf => hf) fun _ hf _ => hf) fun freed hf => ?_
  refine Meets.bind_iff.mpr (meets_assert.mpr ⟨fun _ => ?_, fun _ _ => other_of_ne (by decide)⟩)
  refine Meets.bind (setAll_meets.mono (fun _ hf => hf) fun _ hf _ => hf) fun released hr => ?_
  have hsame := hf.same
  refine Meets.bind (verifyIndex_meets.mono (fun _ hv => hv) fun fault hn ha => ?_) fun _ hv => ?_
  · exact absurd (hf.agrees ha) hn.2
  have hmem : ∀ i < shards * shardBits, i ∈ set.blocksReleased.iterSet ↔
      set.blocksReleased.bit i = true := fun i hi => by simp [mem_iterSet, hi]
  refine ⟨ho, by simpa using hd, ?_, fun i hi => ?_, fun i hi => ?_, hv, ?_⟩
  · dsimp only
    rw [hsame]
  · rw [hf.acquired, hmem i hi, Bool.not_eq_true]
  · rw [hr, hf.released, hmem i hi, List.mem_reverse]
    rw [hsame]
    exact ⟨fun h => h.resolve_left fun h => h.2 h.1, .inr⟩
  · refine hf.unheld.imp_left fun hnil i hi => ?_
    have := (hmem i hi).mpr.mt
    rw [hnil] at this
    simpa using this

end Checkpoint

section Reserve

-- The free blocks from `lo` up to `hi`.
def freeBlocks (bits : DynamicBitSet (shards * shardBits)) (lo hi : Nat) : List Nat :=
  (List.range' lo (hi - lo)).filter fun i => !bits.bit i

variable {lo mid hi block : Nat}

theorem mem_freeBlocks : i ∈ freeBlocks bits lo hi ↔ (lo ≤ i ∧ i < hi) ∧ bits.bit i = false := by
  unfold freeBlocks
  rw [List.mem_filter, List.mem_range'_1, Bool.not_eq_true']
  exact and_congr_left fun _ => by omega

theorem freeBlocks_append (hlo : lo ≤ mid) (hhi : mid ≤ hi) :
    freeBlocks bits lo hi = freeBlocks bits lo mid ++ freeBlocks bits mid hi := by
  have hsplit : List.range' lo (hi - lo) =
      List.range' lo (mid - lo) ++ List.range' mid (hi - mid) := by
    rw [show hi - lo = (mid - lo) + (hi - mid) by omega, ← List.range'_append_1,
      show lo + (mid - lo) = mid by omega]
  unfold freeBlocks
  rw [hsplit, List.filter_append]

theorem freeBlocks_eq_nil (h : ∀ i, lo ≤ i → i < hi → bits.bit i = true) :
    freeBlocks bits lo hi = [] := by
  refine List.eq_nil_iff_forall_not_mem.mpr fun i hm => ?_
  have ⟨⟨hl, hh⟩, hf⟩ := mem_freeBlocks.mp hm
  rw [h i hl hh] at hf
  cases hf

theorem freeBlocks_first (h : First (fun i => bits.bit i = false) lo hi (some block)) :
    freeBlocks bits lo hi = block :: freeBlocks bits (block + 1) hi := by
  have ⟨⟨hl, hh, hf⟩, hbefore⟩ := h
  have hnil : freeBlocks bits lo block = [] :=
    freeBlocks_eq_nil fun i hl hi => by simpa using hbefore i hl hi
  have hone : freeBlocks bits block (block + 1) = [block] := by
    unfold freeBlocks
    rw [show block + 1 - block = 1 by omega]
    simp [hf]
  rw [freeBlocks_append hl (by omega), hnil, freeBlocks_append (Nat.le_succ block) hh, hone]
  rfl

theorem freeBlocks_congr {bits' : DynamicBitSet (shards * shardBits)}
    (h : ∀ i, lo ≤ i → i < hi → bits'.bit i = bits.bit i) :
    freeBlocks bits' lo hi = freeBlocks bits lo hi := by
  refine List.filter_congr fun i hm => ?_
  have ⟨hl, hh⟩ := List.mem_range'_1.mp hm
  rw [h i hl (by omega)]

-- The first free block is no longer one once it is acquired.
theorem freeBlocks_insert (h : First (fun i => bits.bit i = false) lo hi (some block))
    (hb : block < shards * shardBits) :
    freeBlocks (bits.insert block) lo hi = freeBlocks bits (block + 1) hi := by
  have ⟨⟨hl, hh, _⟩, hbefore⟩ := h
  have hnil : freeBlocks (bits.insert block) lo (block + 1) = [] := by
    refine freeBlocks_eq_nil fun i hi hi' => ?_
    rw [bit_insert hb, Bool.or_eq_true, decide_eq_true_iff]
    by_cases he : block = i
    · exact .inr he
    · exact .inl (by simpa using hbefore i hi (by omega))
  rw [freeBlocks_append (show lo ≤ block + 1 by omega) hh, hnil, List.nil_append]
  refine freeBlocks_congr fun i hi _ => ?_
  rw [bit_insert hb, decide_eq_false (by omega), Bool.or_false]

theorem reserveFrom_meets {limit count : Nat} (hb : block ≤ shards * shardBits) :
    Meets (fun _ => False) (fun found => ∀ final, found = some final →
      block ≤ final ∧ final ≤ shards * shardBits ∧
        (freeBlocks bits block final).length = count)
      (reserveFrom bits limit count block) := by
  induction count generalizing block with
  | zero =>
    intro final hf
    obtain rfl := Option.some.inj hf
    refine ⟨Nat.le_refl _, hb, ?_⟩
    unfold freeBlocks
    rw [Nat.sub_self]
    rfl
  | succ count ih =>
    unfold reserveFrom
    refine Meets.bind (findBit_meets hb (Nat.le_refl _)) fun found hf => ?_
    cases found with
    | none => exact nofun
    | some free =>
      dsimp only
      split
      · exact nofun
      · have ⟨⟨hl, hh, _⟩, _⟩ := hf
        refine (ih hh).weaken fun found hr final heq => ?_
        have ⟨hle, hn, hlen⟩ := hr final heq
        have hf' : First (fun i => bits.bit i = false) block final (some free) :=
          ⟨⟨hl, hle, hf.1.2.2⟩, hf.2⟩
        refine ⟨by omega, hn, ?_⟩
        rw [freeBlocks_first hf', List.length_cons, hlen]

-- The range of a new reservation follows those of the others.
inductive Reserves (set : FreeSet shards) (count : Nat) :
    Option Reservation → FreeSet shards → Prop
  | none : Reserves set count none set
  | some {block : Nat} :
    set.opened = true → set.reservationState = .reserving → 0 < count →
    set.reservationBlocks < block → block ≤ shards * shardBits →
    (freeBlocks set.blocksAcquired set.reservationBlocks block).length = count →
    Reserves set count
      (some ⟨set.reservationBlocks, block - set.reservationBlocks, set.reservationSession⟩)
      { set with
        reservationBlocks := block
        reservationCount := set.reservationCount + 1 }

theorem reserve_meets {count : Nat} (h : set.Valid) :
    Meets Other (fun (found, after) => Reserves set count found after) (set.reserve count) := by
  have hpos := shardBits_pos
  have hreserved := h.reserved
  unfold reserve
  refine Meets.bind_iff.mpr (meets_assert.mpr ⟨fun ho => ?_, fun _ => other_of_ne (by decide)⟩)
  refine Meets.bind_iff.mpr (meets_assert.mpr ⟨fun hs => ?_, fun _ => other_of_ne (by decide)⟩)
  refine Meets.bind_iff.mpr (meets_assert.mpr ⟨fun hc => ?_, fun _ => other_of_ne (by decide)⟩)
  refine Meets.bind ((findBit_meets (Nat.div_le_of_le_mul (by rwa [Nat.mul_comm])) (Nat.le_refl _)).mono
    (fun _ hf => hf) fun _ hf => hf.elim) fun found hf => ?_
  cases found with
  | none => exact .none
  | some shardStart =>
    have ⟨⟨hl, hh, _⟩, hbefore⟩ := hf
    have hend := shard_end_le hh
    dsimp only
    refine Meets.bind ((reserveFrom_meets (by omega)).mono (fun _ hr => hr)
      fun _ hr => hr.elim) fun found hr => ?_
    cases found with
    | none => exact .none
    | some block =>
      have ⟨hle, hn, hlen⟩ := hr block rfl
      -- The shards before the first that has free blocks are full.
      have hskipped : freeBlocks set.blocksAcquired set.reservationBlocks
          (max (shardStart * shardBits) set.reservationBlocks) = [] := by
        refine freeBlocks_eq_nil fun i hi hi' => ?_
        have hlt : i / shardBits < shardStart := by
          rw [Nat.div_lt_iff_lt_mul hpos]
          omega
        have hset := hbefore _ (Nat.div_le_div_right hi) hlt
        rw [is_unset, Bool.not_eq_false] at hset
        exact h.index _ (by omega) hset i rfl
      have hlen' : (freeBlocks set.blocksAcquired set.reservationBlocks block).length = count := by
        rw [freeBlocks_append (Nat.le_max_right _ _) hle, hskipped, List.nil_append, hlen]
      have hlt : set.reservationBlocks < block := by
        by_contra hge
        rw [freeBlocks_eq_nil fun i hi hi' => absurd hi' (by omega)] at hlen'
        rw [List.length_nil] at hlen'
        omega
      have hadd : set.reservationBlocks + (block - set.reservationBlocks) = block := by omega
      dsimp only
      rw [hadd]
      exact .some ho hs hc hlt hn hlen'

end Reserve

end TigerBeetle.FreeSet
