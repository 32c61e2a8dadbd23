import TigerBeetle.Theorems.FullShards

-- When the blocks that have been released become free.
namespace TigerBeetle.FreeSet

open Fallible DynamicBitSet

variable {shards block : Nat} {set after : FreeSet shards} {s t : Σ shards, FreeSet shards} {e : Event}

-- The checkpoint is not durable after the event.
def Event.Unsettles : Event → Prop
  | operation op        => op = .markCheckpointNotDurable
  | restart _ _ _ _ _ _ => True

-- The block has been released since the checkpoint that is the current one.
structure Waits (set : FreeSet shards) (block : Nat) : Prop where
  acquired : set.blocksAcquired.bit block = true
  released : if set.checkpointDurable then set.blocksReleased.bit block = true
    else block ∈ set.blocksReleasedPriorCheckpointDurability.keys

-- The block has been released before the checkpoint that is to become durable.
structure Expires (set : FreeSet shards) (block : Nat) : Prop where
  acquired : set.blocksAcquired.bit block = true
  notDurable : set.checkpointDurable = false
  released : set.blocksReleased.bit block = true

theorem waits_of_release {address : Nat} (h : set.release address = .ok after) :
    ∃ block, address = block + 1 ∧ after.Waits block := by
  obtain ⟨block, he, hb, hr⟩ := release_meets.post h
  refine ⟨block, he, ?_⟩
  cases hr with
  | durable hd =>
    refine ⟨hb.acquired, ?_⟩
    dsimp only
    rw [hd, if_pos rfl, bit_insert hb.within, decide_eq_true rfl, Bool.or_true]
  | notDurable hd =>
    refine ⟨hb.acquired, ?_⟩
    dsimp only
    rw [hd, if_neg (by decide)]
    exact List.mem_append_right _ (List.mem_singleton_self _)

variable {operation : Operation}

-- A block becomes free only when a checkpoint becomes durable, and only if it is released.
theorem Effect.freed (h : Effect set operation after)
    (ha : set.blocksAcquired.bit block = true) (hf : after.blocksAcquired.bit block = false) :
    operation = .markCheckpointDurable ∧ set.blocksReleased.bit block = true := by
  have hkeep : after.blocksAcquired = set.blocksAcquired → False := by
    intro he
    rw [he, ha] at hf
    cases hf
  cases h with
  | reserve hr => cases hr <;> exact (hkeep rfl).elim
  | acquire _ hr =>
    cases hr with
    | none => exact (hkeep rfl).elim
    | some _ hb =>
      dsimp only at hf
      rw [bit_insert hb, ha] at hf
      cases hf
  | forfeit hr => cases hr <;> exact (hkeep rfl).elim
  | release _ hr => cases hr <;> exact (hkeep rfl).elim
  | markCheckpointNotDurable => exact (hkeep rfl).elim
  | markCheckpointDurable hd =>
    refine ⟨rfl, ?_⟩
    have hn := (hd.acquired block (lt_of_bit ha)).not.mp (by simp [hf])
    simpa [ha] using hn

theorem Waits.effect (hw : set.Waits block) (hv : set.Valid)
    (h : Effect set operation after) : after.Waits block ∨
      operation = .markCheckpointNotDurable ∧ after.Expires block := by
  have hreleased := hw.released
  have hacquired : after.blocksAcquired.bit block = true := by
    by_contra hf
    have ⟨hop, hr⟩ := h.freed hw.acquired (by simpa using hf)
    subst hop
    cases h with
    | markCheckpointDurable hd =>
      rw [hd.notDurable, if_neg (by decide)] at hreleased
      have hprior := (hv.prior block hreleased).2.2
      rw [hr] at hprior
      cases hprior
  cases h with
  | reserve hr => cases hr <;> exact .inl ⟨hacquired, hreleased⟩
  | acquire _ hr => cases hr <;> exact .inl ⟨hacquired, hreleased⟩
  | forfeit hr => cases hr <;> exact .inl ⟨hacquired, hreleased⟩
  | release hb hr =>
    refine .inl ⟨hacquired, ?_⟩
    cases hr with
    | durable hd =>
      dsimp only
      rw [hd, if_pos rfl] at hreleased ⊢
      rw [bit_insert hb.within, hreleased]
      rfl
    | notDurable hd =>
      dsimp only
      rw [hd, if_neg (by decide)] at hreleased ⊢
      exact List.mem_append_left _ hreleased
  | markCheckpointNotDurable hd hk =>
    rw [hd, if_pos rfl] at hreleased
    exact .inr ⟨rfl, hacquired, rfl, hreleased⟩
  | markCheckpointDurable hd =>
    refine .inl ⟨hacquired, ?_⟩
    have hdurable : after.checkpointDurable = true := by rw [hd.same]
    rw [hd.notDurable, if_neg (by decide)] at hreleased
    rw [hdurable, if_pos rfl]
    exact (hd.released block (hv.prior block hreleased).1).mpr hreleased

theorem Expires.effect (hw : set.Expires block)
    (h : Effect set operation after) : after.Expires block ∨ operation = .markCheckpointDurable := by
  by_cases hop : operation = .markCheckpointDurable
  · exact .inr hop
  have hacquired : after.blocksAcquired.bit block = true := by
    by_contra hf
    exact hop (h.freed hw.acquired (by simpa using hf)).1
  left
  cases h with
  | reserve hr => cases hr <;> exact ⟨hacquired, hw.notDurable, hw.released⟩
  | acquire _ hr => cases hr <;> exact ⟨hacquired, hw.notDurable, hw.released⟩
  | forfeit hr => cases hr <;> exact ⟨hacquired, hw.notDurable, hw.released⟩
  | release hb hr =>
    cases hr with
    | durable hd => exact absurd (hd.symm.trans hw.notDurable) nofun
    | notDurable => exact ⟨hacquired, hw.notDurable, hw.released⟩
  | markCheckpointNotDurable hd => exact absurd (hd.symm.trans hw.notDurable) nofun
  | markCheckpointDurable => exact absurd rfl hop

theorem Expires.moves (hw : s.2.Expires block) (hr : e.Restores s) (h : Moves s e t) :
    t.2.Expires block ∨ e = .operation .markCheckpointDurable := by
  cases h with
  | operation he => exact (hw.effect he).imp_right fun h => congrArg _ h
  | restart ho =>
    obtain ⟨_, _, _, _, hencode, _⟩ := hr
    have hdurable := durable_of_encodeChunks hencode
    exact absurd (hdurable.symm.trans hw.notDurable) nofun

theorem Waits.moves (hw : s.2.Waits block) (hv : s.2.Valid) (hr : e.Restores s) (h : Moves s e t) :
    t.2.Waits block ∨ e.Unsettles ∧ t.2.Expires block := by
  cases h with
  | operation he => exact hw.effect hv he
  | restart ho =>
    obtain ⟨_, _, _, _, hencode, _⟩ := hr
    have hreleased := hw.released
    rw [durable_of_encodeChunks hencode, if_pos rfl] at hreleased
    refine .inr ⟨trivial, (ho.acquired block).mpr (.inl hw.acquired), ?_, ?_⟩
    · rw [ho.same]
      rfl
    · rw [ho.released, hreleased]

section Runs

variable {q : (Σ shards, FreeSet shards) → Prop} {events : List Event}

theorem Expires.run (hq : ∀ t, q t → t.2.Valid → t.2.blocksAcquired.bit block = false)
    (hw : s.2.Expires block) (hv : s.2.Valid)
    (h : machine.Leads (fun s e => e.Restores s) q events s) :
    ∃ between rest, events = between ++ .operation .markCheckpointDurable :: rest := by
  induction events generalizing s with
  | nil =>
    have hfree := hq s h hv
    rw [hw.acquired] at hfree
    cases hfree
  | cons e events ih =>
    have ⟨hr, hl⟩ := h
    have ⟨t, ht, hl⟩ := Meets.iff_exists.mp hl
    have hm := moves_of_step hv hr ht
    obtain hw | rfl := hw.moves hr hm
    · obtain ⟨between, rest, rfl⟩ := ih hw (hm.valid hv) hl
      exact ⟨e :: between, rest, rfl⟩
    · exact ⟨[], events, rfl⟩

theorem Waits.run (hq : ∀ t, q t → t.2.Valid → t.2.blocksAcquired.bit block = false)
    (hw : s.2.Waits block) (hv : s.2.Valid)
    (h : machine.Leads (fun s e => e.Restores s) q events s) :
    ∃ before e between rest, events =
      before ++ e :: between ++ .operation .markCheckpointDurable :: rest ∧ e.Unsettles := by
  induction events generalizing s with
  | nil =>
    have hfree := hq s h hv
    rw [hw.acquired] at hfree
    cases hfree
  | cons e events ih =>
    have ⟨hr, hl⟩ := h
    have ⟨t, ht, hl⟩ := Meets.iff_exists.mp hl
    have hm := moves_of_step hv hr ht
    obtain hw | ⟨he, hw⟩ := hw.moves hv hr hm
    · obtain ⟨before, e', between, rest, rfl, he⟩ := ih hw (hm.valid hv) hl
      exact ⟨e :: before, e', between, rest, rfl, he⟩
    · obtain ⟨between, rest, rfl⟩ := hw.run hq (hm.valid hv) hl
      exact ⟨[], e, between, rest, rfl, he⟩

end Runs

-- The blocks that are released are acquired, and a block becomes free only if it is released. Once it
-- is, it is not returned from acquire until a checkpoint becomes durable that was not durable at some
-- time since.
theorem released_not_reused (h : machine.Reachable (fun s e => e.Restores s) s) :
    (∀ i, (s.2.blocksReleased.bit i = true → s.2.blocksAcquired.bit i = true) ∧
      (i ∈ s.2.blocksReleasedPriorCheckpointDurability.keys →
        s.2.blocksAcquired.bit i = true ∧ s.2.blocksReleased.bit i = false)) ∧
    (∀ operation after, s.2.step operation = .ok after → ∀ i,
      s.2.blocksAcquired.bit i = true → after.blocksAcquired.bit i = false →
        operation = .markCheckpointDurable ∧ s.2.blocksReleased.bit i = true) ∧
    ∀ address released events, s.2.release address = .ok released →
      machine.Leads (fun s e => e.Restores s)
        (fun t => ∃ reservation after, t.2.acquire reservation = .ok (some address, after))
        events ⟨s.1, released⟩ →
      ∃ before e between rest, events =
        before ++ e :: between ++ .operation .markCheckpointDurable :: rest ∧ e.Unsettles := by
  have hv := valid_of_reachable h
  refine ⟨fun i => ⟨hv.released_acquired i, fun hi => (hv.prior i hi).2⟩, fun operation after ho i => ?_,
    fun address released events hr hl => ?_⟩
  · exact ((step_meets hv).post ho).freed
  · obtain ⟨block, rfl, hw⟩ := waits_of_release hr
    have hstep : s.2.step (.release (block + 1)) = .ok released := hr
    refine hw.run (fun t ⟨reservation, after, ha⟩ hv => ?_) (((step_meets hv).post hstep).valid hv) hl
    obtain ⟨_, ha⟩ := (acquire_meets hv).post ha
    cases ha with
    | some hf => exact hf.1.2.2

theorem released_not_reused_of_one : ∃ s : Σ shards, FreeSet shards,
    s.2.blocksAcquired.bit 0 = true ∧ ∀ released events, s.2.release 1 = .ok released →
      machine.Leads (fun s e => e.Restores s)
        (fun t => ∃ reservation after, t.2.acquire reservation = .ok (some 1, after))
        events ⟨s.1, released⟩ →
      ∃ before e between rest, events =
        before ++ e :: between ++ .operation .markCheckpointDurable :: rest ∧ e.Unsettles := by
  obtain ⟨set, reserved, hinit, hreserve, hadmits⟩ := reserve_first
  have hstep : set.step (.reserve 1) = .ok reserved := by
    show (set.reserve 1 >>= _) = _
    rw [hreserve]
    rfl
  have hreach := reachable_of_step (.init hinit) hstep
  obtain ⟨after, hreach, _, hacquired⟩ := acquire_all hreach hadmits
  have ⟨_, _, hreused⟩ := released_not_reused (hreach.mono fun _ _ hg => hg.1)
  exact ⟨⟨_, after⟩, (hacquired 0).mpr (.inr ⟨Nat.le_refl _, Nat.one_pos⟩), hreused 1⟩

end TigerBeetle.FreeSet
