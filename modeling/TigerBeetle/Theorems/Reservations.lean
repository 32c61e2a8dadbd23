import TigerBeetle.Theorems.FullShards

-- Reservations are exclusive, and what is acquired from them does not depend on the order.
namespace TigerBeetle.FreeSet

open Fallible DynamicBitSet

-- An active reservation with the blocks of its range that were free when it was made.
structure Lease where
  reservation : Reservation
  reserveCount : Nat
  blocks : List Nat
  taken : Nat
  deriving DecidableEq, Repr

-- A free set with its active reservations, and the addresses that have been returned from acquire and
-- not become free since.
structure Tracked where
  set : Σ shards, FreeSet shards
  leases : List Lease
  returned : List Nat

namespace Tracked

def lease {shards : Nat} (set : FreeSet shards) (reserveCount : Nat) (reservation : Reservation) :
    Lease where
  reservation
  reserveCount
  blocks := freeBlocks set.blocksAcquired reservation.blockBase
    (reservation.blockBase + reservation.blockCount)
  taken := 0

def take (reservation : Reservation) (lease : Lease) : Lease :=
  if lease.reservation = reservation then { lease with taken := lease.taken + 1 } else lease

def step (t : Tracked) : Event → Result Tracked
  | .operation (.reserve reserveCount) => do
    let (found, after) ← t.set.2.reserve reserveCount
    return { t with
      set := ⟨_, after⟩
      leases := t.leases ++ found.toList.map (lease t.set.2 reserveCount) }
  | .operation (.acquire reservation) => do
    let (found, after) ← t.set.2.acquire reservation
    return {
      set := ⟨_, after⟩
      leases := t.leases.map (take reservation)
      returned := t.returned ++ found.toList }
  | .operation (.forfeit reservation) => do
    return { t with
      set := ⟨_, ← t.set.2.forfeit reservation⟩
      leases := t.leases.eraseP (·.reservation = reservation) }
  | .operation operation => do
    let after ← t.set.2.step operation
    return { t with
      set := ⟨_, after⟩
      returned := t.returned.filter fun address => after.blocksAcquired.bit (address - 1) }
  | event => do
    return ⟨← machine.step t.set event, [], []⟩

-- Reservations are used as long as they are active.
def Proper (t : Tracked) : Event → Prop
  | .operation (.acquire reservation) => ∃ lease ∈ t.leases, lease.reservation = reservation
  | .operation (.forfeit reservation) => ∃ lease ∈ t.leases, lease.reservation = reservation
  | event                             => event.Restores t.set

def machine : Machine Tracked Event Fault where
  init t := FreeSet.machine.init t.set ∧ t.leases = [] ∧ t.returned = []
  step := step

end Tracked

namespace Lease

variable (lease lease' : Lease)

def reservationEnd : Nat :=
  lease.reservation.blockBase + lease.reservation.blockCount

-- The ranges of the reservations do not overlap.
def Apart : Prop :=
  lease.reservationEnd ≤ lease'.reservation.blockBase ∨ lease'.reservationEnd ≤ lease.reservation.blockBase

variable {lease lease'}

instance : Std.Symm Apart where
  symm _ _ := Or.symm

-- The lease is held on a free set.
structure Held {shards : Nat} (set : FreeSet shards) (lease : Lease) : Prop where
  session : lease.reservation.session = set.reservationSession
  blocks : 0 < lease.reservation.blockCount
  within : lease.reservationEnd ≤ set.reservationBlocks
  free : freeBlocks set.blocksAcquired lease.reservation.blockBase lease.reservationEnd =
    lease.blocks.drop lease.taken
  length : lease.blocks.length = lease.reserveCount

end Lease

open Lease

variable {reservation : Reservation}

section Steps

variable {shards : Nat} {set after : FreeSet shards} {lease lease' : Lease}

-- A lease stays held when the blocks of its range stay as they are.
theorem Lease.Held.of_blocks (h : lease.Held set) (hs : after.reservationSession = set.reservationSession)
    (hr : set.reservationBlocks ≤ after.reservationBlocks)
    (hb : ∀ i, lease.reservation.blockBase ≤ i → i < lease.reservationEnd →
      after.blocksAcquired.bit i = set.blocksAcquired.bit i) : lease.Held after where
  session := h.session.trans hs.symm
  blocks := h.blocks
  within := h.within.trans hr
  free := (freeBlocks_congr hb).trans h.free
  length := h.length

theorem Lease.held_lease {count block : Nat}
    (hlt : set.reservationBlocks < block)
    (hlen : (freeBlocks set.blocksAcquired set.reservationBlocks block).length = count) :
    (Tracked.lease set count ⟨set.reservationBlocks, block - set.reservationBlocks,
      set.reservationSession⟩).Held { set with
        reservationBlocks := block
        reservationCount := set.reservationCount + 1 } := by
  have hend : set.reservationBlocks + (block - set.reservationBlocks) = block := by omega
  refine ⟨rfl, Nat.sub_pos_of_lt hlt, hend.le, rfl, ?_⟩
  show (freeBlocks _ _ (set.reservationBlocks + (block - set.reservationBlocks))).length = count
  rw [hend, hlen]

-- Each lease is left with the blocks that it has not taken yet.
theorem Lease.Held.take {found : Option Nat}
    (h : lease'.Held set) (hl : lease.reservation = reservation)
    (ha : Acquires set reservation found after) (hapart : lease' ≠ lease → Lease.Apart lease' lease) :
    (Tracked.take reservation lease').Held after := by
  subst hl
  have hend : lease.reservation.blockBase + lease.reservation.blockCount = lease.reservationEnd := rfl
  unfold Tracked.take
  split
  · next he =>
    have hfree := h.free
    have hend' : lease'.reservationEnd = lease.reservationEnd := by
      unfold reservationEnd
      rw [he]
    rw [he, hend'] at hfree
    cases ha with
    | none hfull =>
      have hnil := freeBlocks_eq_nil hfull
      rw [hend, hfree] at hnil
      refine ⟨h.session, h.blocks, h.within, ?_, h.length⟩
      show freeBlocks _ lease'.reservation.blockBase lease'.reservationEnd = _
      rw [he, hend', hfree, hnil, List.drop_of_length_le]
      exact Nat.le_succ_of_le (List.drop_eq_nil_iff.mp hnil)
    | some hf hb hindex =>
      refine ⟨h.session, h.blocks, h.within, ?_, h.length⟩
      show freeBlocks _ lease'.reservation.blockBase lease'.reservationEnd = _
      dsimp only
      rw [he, hend', ← hend, freeBlocks_insert hf hb]
      rw [← hend, freeBlocks_first hf] at hfree
      rw [← List.drop_drop, ← hfree]
      rfl
  · next hne =>
    have hapart := hapart fun he => hne (he ▸ rfl)
    cases ha with
    | none => exact h
    | some hf hb hindex =>
      refine h.of_blocks rfl (Nat.le_refl _) fun i hi hi' => ?_
      have ⟨hl, hh, _⟩ := hf.1
      rw [hend] at hh
      unfold Apart at hapart
      rw [bit_insert hb, decide_eq_false (by omega), Bool.or_false]

theorem Acquires.blocks {found : Option Nat}
    (h : Acquires set reservation found after) {i : Nat} (hi : set.blocksAcquired.bit i = true) :
    after.blocksAcquired.bit i = true := by
  cases h with
  | none => exact hi
  | some _ hb =>
    dsimp only
    rw [bit_insert hb, hi]
    rfl

-- What is returned has not been acquired, and is from then on.
theorem Acquires.found {found : Option Nat} {address : Nat}
    (h : Acquires set reservation found after) (hm : address ∈ found) :
    ∃ block, address = block + 1 ∧ set.blocksAcquired.bit block = false ∧
      after.blocksAcquired.bit block = true := by
  cases h with
  | none => cases hm
  | some hf hb hindex =>
    rename_i block index
    obtain rfl := Option.some.inj hm
    refine ⟨block, rfl, hf.1.2.2, ?_⟩
    dsimp only
    rw [bit_insert hb, decide_eq_true rfl, Bool.or_true]

-- Blocks stay acquired while there are reservations.
theorem Durable.blocks (h : set.Durable after)
    (hc : set.reservationCount ≠ 0) (i : Nat) :
    after.blocksAcquired.bit i = set.blocksAcquired.bit i := by
  by_cases hi : i < shards * shardBits
  · have hfree := h.unheld.resolve_right hc i hi
    rw [Bool.eq_iff_iff, h.acquired i hi, hfree]
    exact and_iff_left rfl
  · rw [bit_of_ge (Nat.not_lt.mp hi), bit_of_ge (Nat.not_lt.mp hi)]

end Steps

namespace Tracked

-- The leases are held, on ranges of their own.
structure Exclusive (t : Tracked) : Prop where
  valid : t.set.2.Valid
  count : t.set.2.reservationCount = t.leases.length
  held : ∀ lease ∈ t.leases, lease.Held t.set.2
  apart : t.leases.Pairwise Lease.Apart
  returned : ∀ address ∈ t.returned, ∃ block, address = block + 1 ∧
    t.set.2.blocksAcquired.bit block = true
  nodup : t.returned.Nodup

variable {t t' : Tracked}

theorem Exclusive.admits (h : t.Exclusive) {lease : Lease} (hl : lease ∈ t.leases) :
    t.set.2.Admits lease.reservation := by
  have hheld := h.held lease hl
  have hb := hheld.blocks
  have hw := hheld.within
  unfold reservationEnd at hw
  exact ⟨h.valid.opened, h.count ▸ List.length_pos_of_mem hl, hb, by omega, hw, hheld.session⟩

-- The next of the blocks is returned, as long as there are any.
theorem Exclusive.acquire (h : t.Exclusive) {lease : Lease} (hl : lease ∈ t.leases) :
    Meets (fun _ => False) (fun (found, after) =>
      found = lease.blocks[lease.taken]?.map (· + 1) ∧
        Acquires t.set.2 lease.reservation found after) (t.set.2.acquire lease.reservation) := by
  have hfree := (h.held lease hl).free
  refine (acquire_meets h.valid).mono (fun ⟨found, after⟩ ⟨_, hr⟩ => ⟨?_, hr⟩)
    fun _ hn => hn (h.admits hl)
  cases hr with
  | none hfull =>
    have hnil := freeBlocks_eq_nil hfull
    unfold reservationEnd at hfree
    rw [hnil] at hfree
    rw [List.getElem?_eq_none (List.drop_eq_nil_iff.mp hfree.symm)]
    rfl
  | some hf hb hindex =>
    unfold reservationEnd at hfree
    rw [freeBlocks_first hf] at hfree
    rename_i block index _
    have hhead : some block = lease.blocks[lease.taken]? := by
      rw [← List.head?_drop, ← hfree]
      rfl
    rw [← hhead]
    rfl

theorem Exclusive.init (h : machine.init t) : t.Exclusive := by
  obtain ⟨hinit, hleases, hreturned⟩ := h
  have hv := valid_of_init hinit
  obtain ⟨gridSizeLimit, max, set, hopen, heq⟩ := hinit
  refine ⟨hv, ?_, by simp [hleases], by simp [hleases], by simp [hreturned], by simp [hreturned]⟩
  rw [hleases, heq, (opens_of_init hopen).same]
  rfl

section

variable (h : t.Exclusive)

include h

theorem Exclusive.not_returned {found : Option Nat}
    {after : FreeSet t.set.1} (ha : Acquires t.set.2 reservation found after) :
    ∀ address ∈ found, address ∉ t.returned := by
  intro address hm hr
  obtain ⟨block, rfl, hb⟩ := h.returned address hr
  obtain ⟨block', heq, hb', _⟩ := ha.found hm
  obtain rfl := Nat.succ.inj heq
  rw [hb'] at hb
  cases hb

theorem Exclusive.step_acquire (hp : ∃ lease ∈ t.leases, lease.reservation = reservation) :
    Meets (fun _ => True) Exclusive (t.step (.operation (.acquire reservation))) := by
  obtain ⟨lease, hl, rfl⟩ := hp
  refine Meets.bind ((acquire_meets h.valid).mono (fun _ ha => ha) fun _ _ => trivial)
    fun ⟨found, after⟩ ⟨hadmits, ha⟩ => ?_
  have hcount : after.reservationCount = t.set.2.reservationCount := by cases ha <;> rfl
  refine ⟨(Effect.acquire hadmits ha).valid h.valid, ?_, fun l hm => ?_, ?_, fun address hm => ?_, ?_⟩
  · show after.reservationCount = _
    rw [hcount, h.count, List.length_map]
  · obtain ⟨l', hm', rfl⟩ := List.mem_map.mp hm
    exact (h.held l' hm').take rfl ha fun hne => h.apart.forall hm' hl hne
  · refine List.pairwise_map.mpr (h.apart.imp fun hapart => ?_)
    unfold Tracked.take Apart reservationEnd at *
    split <;> split <;> exact hapart
  · cases List.mem_append.mp hm with
    | inl hm =>
      obtain ⟨block, he, hb⟩ := h.returned address hm
      exact ⟨block, he, ha.blocks hb⟩
    | inr hm =>
      obtain ⟨block, he, _, hb⟩ := ha.found (Option.mem_toList.mp hm)
      exact ⟨block, he, hb⟩
  · refine List.nodup_append.mpr ⟨h.nodup, by cases found <;> simp, fun a hm b hb => ?_⟩
    rintro rfl
    exact h.not_returned ha a (Option.mem_toList.mp hb) hm

theorem Exclusive.step_reserve {count : Nat} :
    Meets (fun _ => True) Exclusive (t.step (.operation (.reserve count))) := by
  refine Meets.bind ((reserve_meets h.valid).mono (fun _ ha => ha) fun _ _ => trivial)
    fun ⟨found, after⟩ hr => ?_
  have hvalid : after.Valid := (Effect.reserve hr).valid h.valid
  cases hr with
  | none =>
    have hsame : t.leases ++ (none : Option Reservation).toList.map (lease t.set.2 count) = t.leases :=
      List.append_nil _
    show Exclusive _
    rw [hsame]
    exact h
  | some ho hs hc hlt hn hlen =>
    rename_i block
    refine ⟨hvalid, ?_, fun l hm => ?_, ?_, h.returned, h.nodup⟩
    · show t.set.2.reservationCount + 1 = _
      rw [h.count, List.length_append]
      rfl
    · cases List.mem_append.mp hm with
      | inl hm => exact (h.held l hm).of_blocks rfl hlt.le fun _ _ _ => rfl
      | inr hm =>
        obtain rfl := List.mem_singleton.mp hm
        exact held_lease hlt hlen
    · refine List.pairwise_append.mpr ⟨h.apart, List.pairwise_singleton _ _, fun l hm l' hm' => ?_⟩
      obtain rfl := List.mem_singleton.mp hm'
      exact .inl (h.held l hm).within

theorem Exclusive.step_forfeit (hp : ∃ lease ∈ t.leases, lease.reservation = reservation) :
    Meets (fun _ => True) Exclusive (t.step (.operation (.forfeit reservation))) := by
  obtain ⟨lease, hl, rfl⟩ := hp
  refine Meets.bind (forfeit_meets.mono (fun _ ha => ha) fun _ _ => trivial) fun after hf => ?_
  have hlength : (t.leases.eraseP (·.reservation = lease.reservation)).length + 1 = t.leases.length :=
    List.length_eraseP_add_one hl (by simp)
  have hvalid : after.Valid := (Effect.forfeit hf).valid h.valid
  have hcount := h.count
  cases hf with
  | last hs hc =>
    have hnil : t.leases.eraseP (·.reservation = lease.reservation) = [] :=
      List.eq_nil_of_length_eq_zero (by omega)
    refine ⟨hvalid, ?_, fun l hm => ?_, ?_, h.returned, h.nodup⟩
    · rw [hnil]
      rfl
    · rw [hnil] at hm
      cases hm
    · rw [hnil]
      exact .nil
  | next hs hc =>
    refine ⟨hvalid, ?_, fun l hm => ?_, h.apart.sublist List.eraseP_sublist, h.returned, h.nodup⟩
    · show t.set.2.reservationCount - 1 =
        (t.leases.eraseP (·.reservation = lease.reservation)).length
      omega
    · exact (h.held l (List.mem_of_mem_eraseP hm)).of_blocks rfl (Nat.le_refl _) fun _ _ _ => rfl

theorem Exclusive.step_other {after : FreeSet t.set.1} (hv : after.Valid)
    (hc : after.reservationCount = t.set.2.reservationCount)
    (hs : after.reservationSession = t.set.2.reservationSession)
    (hr : after.reservationBlocks = t.set.2.reservationBlocks)
    (hb : t.set.2.reservationCount ≠ 0 → ∀ i,
      after.blocksAcquired.bit i = t.set.2.blocksAcquired.bit i) : Exclusive { t with
        set := ⟨_, after⟩
        returned := t.returned.filter fun address => after.blocksAcquired.bit (address - 1) } := by
  refine ⟨hv, hc.trans h.count, fun l hm => ?_, h.apart, fun address hm => ?_, h.nodup.filter _⟩
  · have hne : t.set.2.reservationCount ≠ 0 := by
      rw [h.count]
      exact (List.length_pos_of_mem hm).ne'
    exact (h.held l hm).of_blocks hs hr.ge fun i _ _ => hb hne i
  · have ⟨hm, hbit⟩ := List.mem_filter.mp hm
    obtain ⟨block, rfl, _⟩ := h.returned address hm
    exact ⟨block, rfl, hbit⟩

theorem Exclusive.step_meets {e : Event} (hp : t.Proper e) :
    Meets (fun _ => True) Exclusive (t.step e) := by
  cases e with
  | operation operation =>
    have hstep := @FreeSet.step_meets _ _ operation h.valid
    cases operation with
    | reserve count       => exact h.step_reserve
    | acquire reservation => exact h.step_acquire hp
    | forfeit reservation => exact h.step_forfeit hp
    | release address =>
      refine Meets.bind hstep fun after he => ?_
      have hvalid := he.valid h.valid
      cases he with
      | release _ hr => cases hr <;> exact h.step_other hvalid rfl rfl rfl fun _ _ => rfl
    | markCheckpointNotDurable =>
      refine Meets.bind hstep fun after he => ?_
      have hvalid := he.valid h.valid
      cases he with
      | markCheckpointNotDurable => exact h.step_other hvalid rfl rfl rfl fun _ _ => rfl
    | markCheckpointDurable =>
      refine Meets.bind hstep fun after he => ?_
      have hvalid := he.valid h.valid
      cases he with
      | markCheckpointDurable hd =>
        have hsame := hd.same
        exact h.step_other hvalid (by rw [hsame]) (by rw [hsame]) (by rw [hsame]) hd.blocks
  | restart gridSizeLimit max acquired released addressesAcquired addressesReleased =>
    refine Meets.bind_iff.mpr (Meets.iff_forall.mpr fun s hs => ?_)
    have hrestores : Event.Restores t.set (.restart gridSizeLimit max acquired released addressesAcquired
        addressesReleased) := hp
    have hmoves := moves_of_step h.valid hrestores hs
    have hvalid := hmoves.valid h.valid
    cases hmoves with
    | restart ho =>
      refine ⟨hvalid, ?_, nofun, .nil, nofun, List.nodup_nil⟩
      show _ = 0
      rw [ho.same]
      rfl

end

theorem exclusive_of_reachable (h : machine.Reachable Proper t) : t.Exclusive :=
  h.invariant (fun _ => .init) fun _ _ _ he hp hs => (he.step_meets hp).post hs

-- Active reservations cover disjoint ranges, each with as many free blocks as have been reserved. What
-- is acquired next from one of them is the next of its own blocks, whatever has been acquired from the
-- others. No address is returned again before its block becomes free.
theorem reservations_exclusive (h : machine.Reachable Proper t) :
    t.leases.Pairwise Lease.Apart ∧ t.returned.Nodup ∧
      ∀ lease ∈ t.leases, lease.blocks.length = lease.reserveCount ∧
        ∃ found after, t.set.2.acquire lease.reservation = .ok (found, after) ∧
          found = lease.blocks[lease.taken]?.map (· + 1) ∧
          (lease.taken < lease.reserveCount → found ≠ none) ∧
          ∀ address ∈ found, address ∉ t.returned := by
  have he := exclusive_of_reachable h
  refine ⟨he.apart, he.nodup, fun lease hl => ⟨(he.held lease hl).length, ?_⟩⟩
  obtain ⟨⟨found, after⟩, heq, hfound, ha⟩ := Meets.iff_exists.mp (he.acquire hl)
  refine ⟨found, after, heq, hfound, fun hlt => ?_, fun address hm hr => ?_⟩
  · have hlength := (he.held lease hl).length
    rw [hfound, List.getElem?_eq_getElem (by omega)]
    exact nofun
  · exact he.not_returned ha address hm hr

theorem reservations_exclusive_of_one : ∃ t lease found after, machine.Reachable Proper t ∧
    t.leases = [lease] ∧ t.set.2.acquire lease.reservation = .ok (found, after) ∧
    (lease.taken < lease.reserveCount → found ≠ none) := by
  obtain ⟨set, reserved, hinit, hreserve, _⟩ := reserve_first
  have hinit : machine.init ⟨⟨_, set⟩, [], []⟩ := ⟨hinit, rfl, rfl⟩
  have hstep : machine.step ⟨⟨_, set⟩, [], []⟩ (.operation (.reserve 1)) =
      .ok ⟨⟨_, reserved⟩, [lease set 1 ⟨0, 1, set.reservationSession⟩], []⟩ := by
    show (set.reserve 1 >>= _) = _
    rw [hreserve]
    rfl
  have hproper : Proper ⟨⟨_, set⟩, [], []⟩ (.operation (.reserve 1)) := trivial
  have hreach := (@Machine.Reachable.init _ _ _ machine Proper _ hinit).step hproper hstep
  have ⟨_, _, hleases⟩ := reservations_exclusive hreach
  obtain ⟨_, found, after, heq, _, hfirst, _⟩ := hleases _ (List.mem_singleton_self _)
  exact ⟨_, _, found, after, hreach, rfl, heq, hfirst⟩

end Tracked

end TigerBeetle.FreeSet
