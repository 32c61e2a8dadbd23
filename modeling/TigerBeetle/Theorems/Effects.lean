import TigerBeetle.Theorems.EncodedSets

namespace TigerBeetle.FreeSet

open Fallible DynamicBitSet

variable {shards : Nat} {set after : FreeSet shards} {block : Nat} {reservation : Reservation}
variable {operation : Operation}

section Effects

-- The reservations end with the last of them.
inductive Forfeits (set : FreeSet shards) (reservation : Reservation) : FreeSet shards → Prop
  | last : reservation.session = set.reservationSession → set.reservationCount = 1 →
    Forfeits set reservation { set with
      reservationCount := 0
      reservationBlocks := 0
      reservationSession := (set.reservationSession + 1) % usizeModulus
      reservationState := .reserving }
  | next : reservation.session = set.reservationSession → 1 < set.reservationCount →
    Forfeits set reservation { set with
      reservationCount := set.reservationCount - 1
      reservationState := .forfeiting }

theorem forfeit_meets : Meets Other (Forfeits set reservation) (set.forfeit reservation) := by
  unfold forfeit
  refine Meets.bind_iff.mpr (meets_assert.mpr ⟨fun _ => ?_, fun _ => other_of_ne (by decide)⟩)
  refine Meets.bind_iff.mpr (meets_assert.mpr ⟨fun hs => ?_, fun _ => other_of_ne (by decide)⟩)
  refine Meets.bind_iff.mpr (meets_assert.mpr ⟨fun hc => ?_, fun _ => other_of_ne (by decide)⟩)
  split
  · next h => exact .last hs.symm h
  · next h => exact .next hs.symm (by omega)

-- A block that is acquired and not released.
structure Releasable (set : FreeSet shards) (block : Nat) : Prop where
  within : block < shards * shardBits
  acquired : set.blocksAcquired.bit block = true
  released : set.blocksReleased.bit block = false
  prior : block ∉ set.blocksReleasedPriorCheckpointDurability.keys

-- It depends on the durability of the checkpoint to which of the two a block is added.
inductive Releases (set : FreeSet shards) (block : Nat) : FreeSet shards → Prop
  | durable : set.checkpointDurable = true →
    Releases set block { set with blocksReleased := set.blocksReleased.insert block }
  | notDurable : set.checkpointDurable = false →
    Releases set block { set with
      blocksReleasedPriorCheckpointDurability := { set.blocksReleasedPriorCheckpointDurability with
        keys := set.blocksReleasedPriorCheckpointDurability.keys ++ [block] } }

theorem release_meets {address : Nat} :
    Meets Other (fun after => ∃ block, address = block + 1 ∧ set.Releasable block ∧
      Releases set block after) (set.release address) := by
  unfold release
  refine Meets.bind_iff.mpr (meets_assert.mpr ⟨fun _ => ?_, fun _ => other_of_ne (by decide)⟩)
  refine Meets.bind meets_blockOf fun block hb => ?_
  refine Meets.bind meets_get fun acquired ⟨hi, ha⟩ => ?_
  refine Meets.bind_iff.mpr (meets_assert.mpr ⟨fun hacquired => ?_, fun _ => other_of_ne (by decide)⟩)
  refine Meets.bind meets_get fun released ⟨_, hr⟩ => ?_
  refine Meets.bind_iff.mpr (meets_assert.mpr ⟨fun hreleased => ?_, fun _ => other_of_ne (by decide)⟩)
  refine Meets.bind_iff.mpr (meets_assert.mpr ⟨fun hprior => ?_, fun _ => other_of_ne (by decide)⟩)
  have hp : block ∉ set.blocksReleasedPriorCheckpointDurability.keys := by
    simpa [ReleasedPriorCheckpointDurability.contains] using hprior
  have hreleasable : set.Releasable block :=
    ⟨hi, ha ▸ hacquired, by rw [← hr]; simpa using hreleased, hp⟩
  split
  · next hd =>
    rw [set_eq hi, ok_bind]
    exact ⟨block, hb, hreleasable, .durable hd⟩
  · next hd =>
    unfold ReleasedPriorCheckpointDurability.putAssumeCapacity
    rw [assert_of hprior, ok_bind, bind_assoc]
    refine Meets.bind_iff.mpr (meets_assert.mpr ⟨fun _ => ?_, fun _ => other_of_ne (by decide)⟩)
    exact ⟨block, hb, hreleasable, .notDurable (by simpa using hd)⟩

-- What the operations make of a set.
inductive Effect (set : FreeSet shards) : Operation → FreeSet shards → Prop
  | reserve {count : Nat} {found : Option Reservation} {after : FreeSet shards} :
    Reserves set count found after → Effect set (.reserve count) after
  | acquire {reservation : Reservation} {found : Option Nat} {after : FreeSet shards} :
    set.Admits reservation → Acquires set reservation found after →
    Effect set (.acquire reservation) after
  | forfeit {reservation : Reservation} {after : FreeSet shards} :
    Forfeits set reservation after → Effect set (.forfeit reservation) after
  | release {block : Nat} {after : FreeSet shards} :
    set.Releasable block → Releases set block after → Effect set (.release (block + 1)) after
  | markCheckpointNotDurable : set.checkpointDurable = true →
    set.blocksReleasedPriorCheckpointDurability.keys = [] →
    Effect set .markCheckpointNotDurable { set with checkpointDurable := false }
  | markCheckpointDurable {after : FreeSet shards} :
    Durable set after → Effect set .markCheckpointDurable after

theorem step_meets (h : set.Valid) :
    Meets (fun _ => True) (Effect set operation) (set.step operation) := by
  cases operation with
  | reserve count =>
    refine Meets.bind ((reserve_meets h).mono (fun _ hr => hr) fun _ _ => trivial) fun _ hr => ?_
    exact .reserve hr
  | acquire reservation =>
    refine Meets.bind ((acquire_meets h).mono (fun _ hr => hr) fun _ _ => trivial)
      fun _ ⟨ha, hr⟩ => ?_
    exact .acquire ha hr
  | forfeit reservation => exact forfeit_meets.mono (fun _ => .forfeit) fun _ _ => trivial
  | release address =>
    refine release_meets.mono (fun _ hr => ?_) fun _ _ => trivial
    obtain ⟨block, rfl, hb, hr⟩ := hr
    exact .release hb hr
  | markCheckpointNotDurable =>
    show Meets _ _ set.markCheckpointNotDurable
    unfold markCheckpointNotDurable
    refine Meets.bind_iff.mpr (meets_assert.mpr ⟨fun _ => ?_, fun _ => trivial⟩)
    refine Meets.bind_iff.mpr (meets_assert.mpr ⟨fun hd => ?_, fun _ => trivial⟩)
    refine Meets.bind_iff.mpr (meets_assert.mpr ⟨fun hk => ?_, fun _ => trivial⟩)
    exact .markCheckpointNotDurable hd (List.eq_nil_of_length_eq_zero hk)
  | markCheckpointDurable =>
    exact markCheckpointDurable_meets.mono (fun _ => .markCheckpointDurable) fun _ _ => trivial

theorem Full.insert {bits : DynamicBitSet (shards * shardBits)} {s : Nat} (hb : block < shards * shardBits)
    (h : Full bits s) : Full (bits.insert block) s := by
  intro i hi
  rw [bit_insert hb, h i hi]
  rfl

theorem Durable.full {s : Nat} (h : set.Durable after) (hs : s < shards)
    (hi : after.index.bit s = true) : Full after.blocksAcquired s :=
  (h.agrees s hs).mp hi

theorem Effect.valid (he : Effect set operation after) (h : set.Valid) : after.Valid := by
  cases he with
  | reserve hr =>
    cases hr with
    | none => exact h
    | some ho hs hc hlt hn hlen =>
      exact { h with reserved := hn, unreserved := nofun }
  | acquire ha hr =>
    cases hr with
    | none => exact h
    | some hf hb hindex =>
      rename_i b index
      have hkeep : ∀ i, set.blocksAcquired.bit i = true → (set.blocksAcquired.insert b).bit i = true := by
        intro i hi
        rw [bit_insert hb, hi]
        rfl
      refine { h with
        released := fun i hi hr => hkeep i (h.released i hi hr)
        prior := fun i hi => ⟨(h.prior i hi).1, hkeep i (h.prior i hi).2.1, (h.prior i hi).2.2⟩
        index := fun s hs hi => ?_ }
      exact ((hindex s).mp hi).elim (fun hi => (h.index s hs hi).insert hb) And.right
  | forfeit hr =>
    cases hr with
    | last hs hc => exact { h with reserved := Nat.zero_le _, unreserved := fun _ => ⟨rfl, rfl⟩ }
    | next hs hc =>
      refine { h with unreserved := fun hzero => ?_ }
      dsimp only at hzero
      omega
  | release hb hr =>
    rename_i b
    cases hr with
    | durable hd =>
      refine { h with
        released := fun i hi hr => ?_
        prior := fun i hi => ?_ }
      · dsimp only at hr
        rw [bit_insert hb.within, Bool.or_eq_true, decide_eq_true_iff] at hr
        exact hr.elim (h.released i hi) fun he => he ▸ hb.acquired
      · rw [h.durable hd] at hi
        cases hi
    | notDurable hd =>
      refine { h with
        prior := fun i hi => ?_
        durable := fun hd' => ?_ }
      · cases List.mem_append.mp hi with
        | inl hi => exact h.prior i hi
        | inr hi =>
          obtain rfl := List.mem_singleton.mp hi
          exact ⟨hb.within, hb.acquired, hb.released⟩
      · dsimp only at hd'
        rw [hd] at hd'
        cases hd'
  | markCheckpointNotDurable hd hk => exact { h with durable := fun hd' => hk }
  | markCheckpointDurable hd =>
    have hsame := hd.same
    have hprior : ∀ i < shards * shardBits, after.blocksReleased.bit i = true →
        after.blocksAcquired.bit i = true := by
      intro i hi hr
      have ⟨_, ha, hf⟩ := h.prior i ((hd.released i hi).mp hr)
      exact (hd.acquired i hi).mpr ⟨ha, hf⟩
    have hindex : ∀ s < shards, after.index.bit s = true → Full after.blocksAcquired s :=
      fun s hs hi => hd.full hs hi
    rw [hsame] at hprior hindex ⊢
    exact ⟨h.opened, hprior, nofun, hindex, h.reserved, h.unreserved, fun _ => rfl⟩

end Effects

section Index

-- A block is acquired, and the bit of its shard is set once the shard is full.
theorem agrees_insert {index : DynamicBitSet shards} {s : Nat} (hb : block < shards * shardBits)
    (hindex : index.bit s = true ↔ set.index.bit s = true ∨
      s = block / shardBits ∧ Full (set.blocksAcquired.insert block) s) (h : set.Agrees s) :
    index.bit s = true ↔ Full (set.blocksAcquired.insert block) s := by
  rw [hindex]
  refine ⟨fun hi => hi.elim (fun hi => (h.mp hi).insert hb) And.right, fun hfull => ?_⟩
  by_cases he : s = block / shardBits
  · exact .inr ⟨he, hfull⟩
  · refine .inl (h.mpr fun i hi => ?_)
    have hbit := hfull i hi
    rw [bit_insert hb, Bool.or_eq_true, decide_eq_true_iff] at hbit
    exact hbit.resolve_right fun hib => he (by rw [← hi, hib])

theorem Effect.agrees (he : Effect set operation after)
    (h : ∀ s < shards, set.Agrees s) : ∀ s < shards, after.Agrees s := by
  cases he with
  | reserve hr => cases hr <;> exact h
  | acquire _ hr =>
    cases hr with
    | none => exact h
    | some _ hb hindex => exact fun s hs => agrees_insert hb (hindex s) (h s hs)
  | forfeit hr => cases hr <;> exact h
  | release _ hr => cases hr <;> exact h
  | markCheckpointNotDurable => exact h
  | markCheckpointDurable hd => exact hd.agrees

end Index

end TigerBeetle.FreeSet
