import TigerBeetle.Theorems.Restarts

-- Runs that fill the start of a set before the replica restarts.
namespace TigerBeetle.FreeSet

open Fallible DynamicBitSet

open Ewah (Segment segments)

variable {shards : Nat} {set after : FreeSet shards} {reservation : Reservation}
variable {bits : DynamicBitSet (shards * shardBits)}

theorem setAll_succeeds {blocks : List Nat}
    (h : ∀ i ∈ blocks, i < shards * shardBits) : Succeeds (setAll bits blocks) := by
  induction blocks generalizing bits with
  | nil => trivial
  | cons block blocks ih =>
    unfold setAll
    rw [set_eq (h block (by simp)), ok_bind]
    exact ih fun i hi => h i (by simp [hi])

theorem count_of_unset (h : ∀ i, bits.bit i = false) : bits.count = 0 := by
  have heq : bits = newEmpty := by
    have hw : bits.words = Vector.replicate _ 0 := by
      apply Vector.ext
      intro i hi
      have hbits : ∀ i, bits.bit i = (newEmpty : DynamicBitSet (shards * shardBits)).bit i :=
        fun i => by rw [h, bit_newEmpty]
      have hword := word_eq_of_bits hbits i
      unfold newEmpty at hword
      simpa [List.getD_eq_getElem?_getD, hi] using hword
    cases bits
    exact congrArg _ hw
  rw [heq, count_newEmpty]

-- When nothing is released yet, only the index can be at fault.
theorem markCheckpointDurable_of_unreleased (hv : set.Valid) (hd : set.checkpointDurable = false)
    (hr : ∀ i, set.blocksReleased.bit i = false) :
    Meets (fun fault => fault = verifyFailed ∧ ¬∀ shard < shards, set.Agrees shard)
      (fun _ => ∀ shard < shards, set.Agrees shard) set.markCheckpointDurable := by
  have hnone : set.blocksReleased.iterSet = [] := by
    unfold iterSet
    exact List.filter_eq_nil_iff.mpr fun i _ => by simp [hr]
  have hkeys : ∀ i ∈ set.blocksReleasedPriorCheckpointDurability.keys.reverse,
      i < shards * shardBits := fun i hi => (hv.prior i (List.mem_reverse.mp hi)).1
  unfold markCheckpointDurable
  rw [assert_of hv.opened, ok_bind, hd, assert_of (by decide), ok_bind]
  dsimp only
  rw [hnone, List.map_nil, freeAll, pure_bind, assert_of (count_of_unset hr), ok_bind]
  refine Meets.bind ((setAll_succeeds hkeys).mono (fun _ _ => trivial) fun _ hn => hn.elim)
    fun released _ => ?_
  exact Meets.bind verifyIndex_meets fun _ ha => ha

variable {count : Nat}

theorem reserveFrom_of_unset {limit block : Nat}
    (h : ∀ i, block ≤ i → i < block + count → bits.bit i = false)
    (hn : block + count ≤ shards * shardBits) (hl : block + count ≤ limit) :
    reserveFrom bits limit count block = .ok (some (block + count)) := by
  induction count generalizing block with
  | zero => rfl
  | succ count ih =>
    obtain ⟨found, heq, hf⟩ := Meets.iff_exists.mp
      (@findBit_meets _ bits block (shards * shardBits) .unset (by omega) (Nat.le_refl _))
    have hunset := h block (Nat.le_refl _) (by omega)
    have hfound : found = some block := by
      cases found with
      | none => exact absurd hunset (hf block (Nat.le_refl _) (by omega))
      | some i =>
        have hle := hf.1.1
        by_cases hi : i = block
        · rw [hi]
        · exact absurd hunset (hf.2 block (Nat.le_refl _) (by omega))
    unfold reserveFrom
    rw [heq, hfound, ok_bind]
    dsimp only
    rw [if_neg (by omega), ih (fun i hi hi' => h i (by omega) (by omega)) (by omega) (by omega),
      Nat.add_assoc, Nat.add_comm 1]

-- The first blocks are reserved as long as they are free.
theorem reserve_of_unset (hv : set.Valid) (hc : set.reservationCount = 0)
    (hpos : 0 < count) (hindex : set.index.bit 0 = false)
    (ha : ∀ i < count, set.blocksAcquired.bit i = false) (hn : count ≤ shards * shardBits)
    (hl : count ≤ set.blocksCountLimit) : set.reserve count =
      .ok (some ⟨0, count, set.reservationSession⟩, { set with
        reservationBlocks := count
        reservationCount := set.reservationCount + 1 }) := by
  have ⟨hb, hs⟩ := hv.unreserved hc
  have hshards : 0 < shards := Nat.pos_of_ne_zero fun hz => by
    rw [hz, Nat.zero_mul] at hn
    omega
  obtain ⟨found, heq, hf⟩ := Meets.iff_exists.mp
    (@findBit_meets _ set.index 0 shards .unset (Nat.zero_le _) (Nat.le_refl _))
  have hfound : found = some 0 := by
    cases found with
    | none => exact absurd hindex (hf 0 (Nat.le_refl _) hshards)
    | some i =>
      by_cases hi : i = 0
      · rw [hi]
      · exact absurd hindex (hf.2 0 (Nat.le_refl _) (by omega))
  have hfrom := @reserveFrom_of_unset _ set.blocksAcquired count set.blocksCountLimit 0
    (fun i _ hi => ha i (by omega)) (by omega) (by omega)
  unfold reserve
  rw [assert_of hv.opened, ok_bind, assert_of hs, ok_bind, assert_of hpos, ok_bind, hb, Nat.zero_div,
    heq, hfound, ok_bind]
  dsimp only
  rw [Nat.zero_mul, Nat.max_self, hfrom, ok_bind, Nat.zero_add]
  dsimp only
  rw [Nat.sub_zero, Nat.zero_add]
  rfl

theorem reachable_of_step {operation : Operation}
    (h : machine.Reachable (fun s e => e.Restores s ∧ e.Sparse s) ⟨shards, set⟩)
    (hs : set.step operation = .ok after) :
    machine.Reachable (fun s e => e.Restores s ∧ e.Sparse s) ⟨shards, after⟩ := by
  have hguard : Event.Restores ⟨shards, set⟩ (.operation operation) ∧
      Event.Sparse ⟨shards, set⟩ (.operation operation) := ⟨trivial, trivial⟩
  have hstep : machine.step ⟨shards, set⟩ (.operation operation) = .ok ⟨shards, after⟩ := by
    show (set.step operation >>= _) = _
    rw [hs]
    rfl
  exact h.step hguard hstep

-- The blocks of a reservation are acquired one after the other.
theorem acquire_all (h : machine.Reachable (fun s e => e.Restores s ∧ e.Sparse s) ⟨shards, set⟩)
    (ha : set.Admits reservation) : ∃ after : FreeSet shards,
      machine.Reachable (fun s e => e.Restores s ∧ e.Sparse s) ⟨shards, after⟩ ∧
        after = { set with index := after.index, blocksAcquired := after.blocksAcquired } ∧
        ∀ i, after.blocksAcquired.bit i = true ↔ set.blocksAcquired.bit i = true ∨
          reservation.blockBase ≤ i ∧ i < reservation.blockBase + reservation.blockCount := by
  induction hn : (freeBlocks set.blocksAcquired reservation.blockBase
      (reservation.blockBase + reservation.blockCount)).length using Nat.strong_induction_on
    generalizing set with
  | _ n ih =>
    have hv := valid_of_reachable (h.mono fun _ _ hg => hg.1)
    obtain ⟨⟨found, next⟩, heq, _, hr⟩ := Meets.iff_exists.mp
      ((acquire_meets hv).mono (fun _ hr => hr) fun _ hn => hn ha)
    cases hr with
    | none hfull => exact ⟨set, h, rfl, fun i => ⟨.inl, fun hi => hi.elim id fun hi => hfull i hi.1 hi.2⟩⟩
    | some hf hb hindex =>
      rename_i block index
      have hlt : (freeBlocks (set.blocksAcquired.insert block) reservation.blockBase
          (reservation.blockBase + reservation.blockCount)).length < n := by
        rw [← hn, freeBlocks_insert hf hb, freeBlocks_first hf]
        exact Nat.lt_succ_self _
      have hstep : set.step (.acquire reservation) =
          .ok { set with blocksAcquired := set.blocksAcquired.insert block, index } := by
        show (set.acquire reservation >>= fun r => pure r.2) = _
        rw [heq]
        rfl
      obtain ⟨after, hreach, hsame, hbits⟩ := ih _ hlt (reachable_of_step h hstep)
        ⟨ha.opened, ha.count, ha.blocks, ha.base, ha.within, ha.session⟩ rfl
      refine ⟨after, hreach, hsame, fun i => ?_⟩
      rw [hbits, bit_insert hb, Bool.or_eq_true, decide_eq_true_iff]
      have ⟨hl, hh, _⟩ := hf.1
      constructor
      · rintro ((hi | rfl) | hi)
        · exact .inl hi
        · exact .inr ⟨hl, hh⟩
        · exact .inr hi
      · exact fun hi => hi.elim (fun hi => .inl (.inl hi)) .inr

-- A restart from what a set is encoded to, which is kept in the first block of the second shard.
def restarted {gridSizeLimit : Nat} (set : FreeSet (shardsFor gridSizeLimit)) : Event :=
  .restart gridSizeLimit 1 [encoding set.blocksAcquired] [encoding set.blocksReleased]
    [shardBits + 1] []

-- A set that has just been encoded can be restarted. Only the shards that are not full agree then.
theorem restart_filled {gridSizeLimit : Nat} {set : FreeSet (shardsFor gridSizeLimit)}
    (hv : set.Valid) (hd : set.checkpointDurable = true) (hc : set.reservationCount = 0)
    (hs : 1 < shardsFor gridSizeLimit) (hle : count ≤ shardBits)
    (ha : ∀ i, set.blocksAcquired.bit i = true ↔ i < count)
    (hr : ∀ i, set.blocksReleased.bit i = false) :
    set.restarted.Restores ⟨_, set⟩ ∧ ∃ after : FreeSet (shardsFor gridSizeLimit),
      machine.step ⟨_, set⟩ set.restarted = .ok ⟨_, after⟩ ∧
        (∀ shard, after.Agrees shard ↔ ¬Full set.blocksAcquired shard) ∧
        after.checkpointDurable = false ∧ (∀ i, after.blocksReleased.bit i = false) ∧
        ∀ i < count, after.blocksAcquired.bit i = true := by
  have hpos := shardBits_pos
  have hsize : set.encodeSizeMax % Ewah.wordBytes = 0 ∧ 0 < set.encodeSizeMax := by
    have hlen := @length_words (shardsFor gridSizeLimit)
    have hbits := Nat.mul_pos (show 0 < shardsFor gridSizeLimit by omega) hpos
    unfold encodeSizeMax Ewah.encodeSizeMax Ewah.wordBytes wordBits at *
    dsimp only
    omega
  have hsplits : Splits [set.encodeSizeMax] set.encodeSizeMax :=
    ⟨by simpa using hsize.1, by simpa using hsize.2, by simp⟩
  obtain ⟨⟨acquired, released⟩, hencode, hacquired, hreleased⟩ := Meets.iff_exists.mp
    ((@encodeChunks_meets _ set [set.encodeSizeMax] [set.encodeSizeMax]).mono (fun _ he => he)
      fun _ hn => hn ⟨hv.opened, hd, hc, (hv.unreserved hc).1, hsplits.suffices (by omega) _,
        hsplits.suffices (by omega) _⟩)
  have hrestores : set.restarted.Restores ⟨_, set⟩ :=
    ⟨_, _, _, _, hencode, by simpa using hacquired.symm, by simpa using hreleased.symm⟩
  have hopenable : Openable (new gridSizeLimit 1) set [encoding set.blocksAcquired]
      [encoding set.blocksReleased] [shardBits + 1] := by
    refine ⟨Nat.le_refl _, ?_, rfl, by simp, ?_, Nat.le_add_right _ _⟩
    · simp [encoding_aligned]
    · intro address hm
      obtain rfl := List.mem_singleton.mp hm
      have hlt := Nat.mul_le_mul_right shardBits hs
      rw [Nat.add_sub_cancel, Bool.eq_false_iff]
      exact ⟨by omega, fun hset => absurd ((ha _).mp hset) (Nat.not_lt.mpr hle), hr _⟩
  obtain ⟨after, heq, hopens⟩ := open_succeeds fresh_new (by simp) (by simp) hopenable
  have hstep : machine.step ⟨_, set⟩ set.restarted = .ok ⟨_, after⟩ := by
    show (_ >>= _) = _
    rw [heq]
    rfl
  refine ⟨hrestores, after, hstep, fun shard => hopens.agrees, ?_, fun i => ?_, fun i hi => ?_⟩
  · rw [hopens.same]
    rfl
  · rw [hopens.released, hr]
  · exact (hopens.acquired i).mpr (.inl ((ha i).mpr hi))

theorem Opens.unset {gridSizeLimit max : Nat} {set : FreeSet (shardsFor gridSizeLimit)}
    (h : (new gridSizeLimit max).Opens (new gridSizeLimit max) [] set) :
    (∀ i, set.blocksAcquired.bit i = false) ∧ (∀ i, set.blocksReleased.bit i = false) ∧
      ∀ s, set.index.bit s = false := by
  refine ⟨fun i => ?_, fun i => ?_, fun s => ?_⟩
  · rw [Bool.eq_false_iff, Ne, h.acquired]
    simp [new]
  · rw [h.released]
    exact bit_newEmpty
  · rw [Bool.eq_false_iff, Ne, h.index]
    simp

-- A block is reserved from a set that has just been opened.
theorem reserve_first : ∃ set reserved,
    machine.init ⟨shardsFor (shardBits * blockSize), set⟩ ∧
      set.reserve 1 = .ok (some ⟨0, 1, set.reservationSession⟩, reserved) ∧
      reserved.Admits ⟨0, 1, set.reservationSession⟩ := by
  obtain ⟨set, hopen, hopens⟩ := @open_new (shardBits * blockSize) 0
  have hshards : shardsFor (shardBits * blockSize) = 1 := by
    unfold shardsFor shardBits
    decide
  have hlimit : shardBits * blockSize / blockSize = shardBits := Nat.mul_div_cancel _ (by decide)
  have hpos := shardBits_pos
  have hinit : machine.init ⟨_, set⟩ := ⟨_, _, set, hopen, rfl⟩
  have hv : set.Valid := valid_of_init hinit
  have ⟨hunset, _, hindex⟩ := hopens.unset
  have hroom : 1 ≤ shardsFor (shardBits * blockSize) * shardBits := by
    rw [hshards]
    omega
  have hallowed : 1 ≤ set.blocksCountLimit := by
    rw [hopens.same]
    exact (hlimit.symm ▸ hpos : 0 < shardBits * blockSize / blockSize)
  have hreserve := reserve_of_unset hv (by rw [hopens.same]; rfl) Nat.one_pos (hindex 0)
    (fun i _ => hunset i) hroom hallowed
  exact ⟨set, _, hinit, hreserve, hv.opened, Nat.succ_pos _, Nat.one_pos, Nat.one_pos, Nat.le_refl _, rfl⟩

-- The first blocks of a set of two shards are acquired, after its first checkpoint.
theorem reachable_filled (hpos : 0 < count) (hle : count ≤ shardBits) :
    ∃ gridSizeLimit, ∃ set : FreeSet (shardsFor gridSizeLimit), 1 < shardsFor gridSizeLimit ∧
      machine.Reachable (fun s e => e.Restores s ∧ e.Sparse s) ⟨_, set⟩ ∧
      set.checkpointDurable = true ∧ set.reservationCount = 0 ∧
      (∀ i, set.blocksAcquired.bit i = true ↔ i < count) ∧
      ∀ i, set.blocksReleased.bit i = false := by
  have hbitspos := shardBits_pos
  have hshards : shardsFor (2 * shardBits * blockSize) = 2 := by
    unfold shardsFor shardBits
    decide
  have hlimit : 2 * shardBits * blockSize / blockSize = 2 * shardBits :=
    Nat.mul_div_cancel _ (by decide)
  generalize 2 * shardBits * blockSize = gridSizeLimit at hshards hlimit
  -- The first checkpoint becomes durable.
  obtain ⟨opened, hopen, hopens⟩ := @open_new gridSizeLimit 0
  have hreach := @Machine.Reachable.init _ _ _ machine (fun s e => e.Restores s ∧ e.Sparse s) _
    (show machine.init ⟨_, opened⟩ from ⟨gridSizeLimit, 0, opened, hopen, rfl⟩)
  have ⟨hunset, hunreleased, _⟩ := hopens.unset
  have hagrees : ∀ shard < shardsFor gridSizeLimit, opened.Agrees shard := fun shard _ =>
    hopens.agrees.mpr fun hf => by simpa [new] using hf _ (Nat.mul_div_cancel shard hbitspos)
  obtain ⟨durable, heq, _⟩ := Meets.iff_exists.mp
    ((markCheckpointDurable_of_unreleased (valid_of_reachable
      (hreach.mono fun _ _ hg => hg.1)) (by rw [hopens.same]; rfl)
      hunreleased).mono (fun _ hd => hd) fun _ hn => hn.2 hagrees)
  have hdurable : opened.Durable durable := markCheckpointDurable_meets.post heq
  have hreach := @reachable_of_step _ _ _ .markCheckpointDurable hreach heq
  have hsame := hdurable.same
  have hbits : ∀ i, durable.blocksAcquired.bit i = false := by
    intro i
    rw [Bool.eq_false_iff]
    intro hset
    have hbit := ((hdurable.acquired i (lt_of_bit hset)).mp hset).1
    rw [hunset] at hbit
    cases hbit
  have hreleased : ∀ i, durable.blocksReleased.bit i = false := by
    intro i
    rw [Bool.eq_false_iff]
    intro hset
    have hbit := (hdurable.released i (lt_of_bit hset)).mp hset
    rw [hopens.same] at hbit
    cases hbit
  have hindex : durable.index.bit 0 = false := by
    rw [Bool.eq_false_iff]
    intro hset
    have hbit := (hdurable.agrees 0 (by omega)).mp hset 0 (Nat.zero_div _)
    rw [hbits] at hbit
    cases hbit
  have hcount : durable.reservationCount = 0 := by
    rw [hsame, hopens.same]
    rfl
  have hlimit' : durable.blocksCountLimit = 2 * shardBits := by
    rw [hsame, hopens.same]
    exact hlimit
  -- The first blocks are reserved and acquired.
  have hroom : count ≤ shardsFor gridSizeLimit * shardBits := by
    rw [hshards]
    omega
  have hallowed : count ≤ durable.blocksCountLimit := by omega
  have hreserve := reserve_of_unset (valid_of_reachable (hreach.mono fun _ _ hg => hg.1)) hcount hpos hindex
    (fun i _ => hbits i) hroom hallowed
  generalize hreserved : { durable with
    reservationBlocks := count
    reservationCount := durable.reservationCount + 1 } = reserved at hreserve
  have hreach := @reachable_of_step _ _ reserved (.reserve count) hreach (by
    show (durable.reserve count >>= _) = _
    rw [hreserve]
    rfl)
  have hv := valid_of_reachable (hreach.mono fun _ _ hg => hg.1)
  obtain ⟨full, hreach, hfull, hacquired⟩ :=
    @acquire_all _ _ ⟨0, count, durable.reservationSession⟩ hreach
      ⟨hv.opened, by rw [← hreserved]; exact Nat.succ_pos _, hpos, by rw [← hreserved]; exact hpos,
        by rw [← hreserved]; exact (Nat.zero_add _).le, by rw [← hreserved]⟩
  have hone : full.reservationCount = 1 := by
    rw [hfull, ← hreserved, hcount]
  have hforfeit : full.forfeit ⟨0, count, durable.reservationSession⟩ = .ok { full with
      reservationCount := 0
      reservationBlocks := 0
      reservationSession := (full.reservationSession + 1) % usizeModulus
      reservationState := .reserving } := by
    unfold forfeit
    rw [assert_of (valid_of_reachable (hreach.mono fun _ _ hg => hg.1)).opened, ok_bind,
      assert_of (by rw [hfull, ← hreserved]), ok_bind, assert_of (by omega), ok_bind, if_pos hone]
    rfl
  have hreach := @reachable_of_step _ _ _ (.forfeit _) hreach hforfeit
  refine ⟨gridSizeLimit, _, by omega, hreach, by rw [hfull, ← hreserved, hsame], rfl, fun i => ?_,
    fun i => ?_⟩
  · dsimp only
    rw [hacquired, ← hreserved]
    simp [hbits]
  · rw [hfull, ← hreserved]
    exact hreleased i

-- A shard that has been filled before a restart is not known to be full afterwards, and so the next
-- checkpoint cannot become durable.
theorem full_shard_restarted : ∃ s, machine.Reachable (fun s e => e.Restores s) s ∧ 0 < s.1 ∧
    ¬s.2.Agrees 0 ∧ s.2.markCheckpointDurable = .error verifyFailed := by
  obtain ⟨_, set, hs, hreach, hd, hc, ha, hr⟩ := reachable_filled shardBits_pos (Nat.le_refl _)
  have hreach := hreach.mono fun _ _ hg => hg.1
  obtain ⟨hrestores, after, hstep, hagrees, hd, hr, _⟩ :=
    restart_filled (valid_of_reachable hreach) hd hc hs (Nat.le_refl _) ha hr
  have hreach := hreach.step hrestores hstep
  have hnot : ¬after.Agrees 0 := fun h => (hagrees 0).mp h fun i hi => (ha i).mpr (by
    have hpos := shardBits_pos
    rw [Nat.div_eq_zero_iff] at hi
    omega)
  refine ⟨_, hreach, Nat.lt_of_succ_lt hs, hnot, ?_⟩
  have hfails := markCheckpointDurable_of_unreleased (valid_of_reachable hreach) hd hr
  cases hm : after.markCheckpointDurable with
  | ok final => exact absurd (hfails.post hm 0 (Nat.lt_of_succ_lt hs)) hnot
  | error fault => rw [(hfails.fault hm).1]

-- A shard that is filled in part is restarted, and still agrees.
theorem index_agrees_restarted : ∃ (gridSizeLimit : Nat)
    (set after : FreeSet (shardsFor gridSizeLimit)),
    machine.Reachable (fun s e => e.Restores s ∧ e.Sparse s) ⟨_, set⟩ ∧
      (∀ i, set.blocksAcquired.bit i = true ↔ i < 100) ∧
      machine.step ⟨_, set⟩ set.restarted = .ok ⟨_, after⟩ ∧
      (∀ i < 100, after.blocksAcquired.bit i = true) ∧
      (∀ shard < shardsFor gridSizeLimit, after.Agrees shard) ∧
      Meets Other (fun _ => True) after.markCheckpointDurable := by
  have hlt : 101 ≤ shardBits := by
    unfold shardBits
    decide
  obtain ⟨gridSizeLimit, set, hs, hreach, hd, hc, ha, hr⟩ :=
    @reachable_filled 100 (by decide) (by omega)
  obtain ⟨hrestores, after, hstep, _, _, _, hset⟩ :=
    restart_filled (valid_of_reachable (hreach.mono fun _ _ hg => hg.1)) hd hc hs (by omega) ha hr
  have hsparse : set.restarted.Sparse ⟨_, set⟩ := fun shard _ hfull => by
    have hbit := (ha _).mp (hfull (shardBits * shard + 100) (by
      rw [Nat.mul_add_div shardBits_pos, Nat.div_eq_of_lt (by omega), Nat.add_zero]))
    omega
  exact ⟨gridSizeLimit, set, after, hreach, ha, hstep, hset,
    index_agrees (hreach.step ⟨hrestores, hsparse⟩ hstep)⟩

end TigerBeetle.FreeSet
