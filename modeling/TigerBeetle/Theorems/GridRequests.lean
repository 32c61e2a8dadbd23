import TigerBeetle.Theorems.GridTrailer

-- Free sets with the same blocks answer requests alike.
namespace TigerBeetle.GridTrailer

open Fallible DynamicBitSet

section Similar

variable {shards : Nat} {set set' after : FreeSet shards} {count : Nat}

inductive Request
  | reserve (reserveCount : Nat)
  | acquire (blockBase blockCount : Nat)
  | forfeit (blockBase blockCount : Nat)
  deriving DecidableEq, Repr

inductive Response
  | reserved (range : Option (Nat × Nat))
  | acquired (address : Option Nat)
  | forfeited
  deriving DecidableEq, Repr

-- Reservations are those of the current session.
def respond (set : FreeSet shards) : Request → Result (Response × FreeSet shards)
  | .reserve reserveCount         => do
    let (found, set) ← set.reserve reserveCount
    return (.reserved (found.map fun found => (found.blockBase, found.blockCount)), set)
  | .acquire blockBase blockCount => do
    let (found, set) ← set.acquire ⟨blockBase, blockCount, set.reservationSession⟩
    return (.acquired found, set)
  | .forfeit blockBase blockCount => do
    return (.forfeited, ← set.forfeit ⟨blockBase, blockCount, set.reservationSession⟩)

def responses : List Request → FreeSet shards → Result (List Response)
  | [], _                     => return []
  | request :: requests, set => do
    let (response, set) ← respond set request
    return response :: (← responses requests set)

-- The index and the session may be others.
structure Similar (set set' : FreeSet shards) : Prop where
  valid : set.Valid
  valid' : set'.Valid
  blocksCountLimit : set'.blocksCountLimit = set.blocksCountLimit
  blocksAcquired : set'.blocksAcquired = set.blocksAcquired
  reservationBlocks : set'.reservationBlocks = set.reservationBlocks
  reservationCount : set'.reservationCount = set.reservationCount
  reservationState : set'.reservationState = set.reservationState

-- Both respond alike, or neither responds.
def Alike (result result' : Result (Response × FreeSet shards)) : Prop :=
  (∃ response set set', result = .ok (response, set) ∧ result' = .ok (response, set') ∧ Similar set set') ∨
    ∃ fault fault', result = .error fault ∧ result' = .error fault'

theorem reserve_admits {found : Option Reservation × FreeSet shards}
    (h : set.reserve count = .ok found) :
    set.reservationState = .reserving ∧ 0 < count := by
  have hmeets : Meets (fun _ => True) (fun _ => set.reservationState = .reserving ∧ 0 < count)
      (set.reserve count) := by
    unfold FreeSet.reserve
    refine Meets.bind_iff.mpr (meets_assert.mpr ⟨fun _ => ?_, fun _ => trivial⟩)
    refine Meets.bind_iff.mpr (meets_assert.mpr ⟨fun hs => ?_, fun _ => trivial⟩)
    refine Meets.bind_iff.mpr (meets_assert.mpr ⟨fun hc => ?_, fun _ => trivial⟩)
    exact Meets.trivial.weaken fun _ _ => ⟨hs, hc⟩
  exact hmeets.post h

theorem exists_error {α : Type} {result : Result α} (h : ∀ a, result ≠ .ok a) :
    ∃ fault, result = .error fault := by
  cases result with
  | ok a        => exact absurd rfl (h a)
  | error fault => exact ⟨fault, rfl⟩

section

variable (h : Similar set set')

include h

theorem Similar.reserve : Alike (respond set (.reserve count)) (respond set' (.reserve count)) := by
  by_cases hr : set.reservationState = .reserving ∧ 0 < count
  · have ⟨hstate, hc⟩ := hr
    have hreserve := reserve_eq h.valid hstate hc
    have hreserve' := reserve_eq h.valid' (h.reservationState.trans hstate) hc
    rw [h.blocksCountLimit, h.blocksAcquired, h.reservationBlocks] at hreserve'
    obtain ⟨found, hfound, hf⟩ := Meets.iff_exists.mp
      (@FreeSet.reserveFrom_meets _ set.blocksAcquired _ set.blocksCountLimit count h.valid.reserved)
    rw [hfound, ok_bind] at hreserve hreserve'
    unfold GridTrailer.respond
    dsimp only
    rw [hreserve, hreserve']
    cases found with
    | none       => exact .inl ⟨_, _, _, rfl, rfl, h⟩
    | some block =>
      have ⟨hafter, _⟩ := (reserve_meets h.valid hstate hc).post hreserve
      have ⟨hafter', _⟩ := (reserve_meets h.valid' (h.reservationState.trans hstate) hc).post hreserve'
      exact .inl ⟨_, _, _, rfl, rfl, (FreeSet.Effect.reserve hafter).valid h.valid,
        (FreeSet.Effect.reserve hafter').valid h.valid', rfl, rfl, rfl,
        congrArg (· + 1) h.reservationCount, h.reservationState⟩
  · have hr' : ¬(set'.reservationState = .reserving ∧ 0 < count) := h.reservationState ▸ hr
    obtain ⟨fault, heq⟩ := exists_error fun _ hok => hr (reserve_admits hok)
    obtain ⟨fault', heq'⟩ := exists_error fun _ hok => hr' (reserve_admits hok)
    unfold GridTrailer.respond
    dsimp only
    rw [heq, heq']
    exact .inr ⟨_, _, rfl, rfl⟩

theorem Similar.acquire {base : Nat} :
    Alike (respond set (.acquire base count)) (respond set' (.acquire base count)) := by
  have hadmits : set'.Admits ⟨base, count, set'.reservationSession⟩ ↔
      set.Admits ⟨base, count, set.reservationSession⟩ := by
    constructor
    · intro ha
      exact ⟨h.valid.opened, h.reservationCount ▸ ha.count, ha.blocks, h.reservationBlocks ▸ ha.base,
        h.reservationBlocks ▸ ha.within, rfl⟩
    · intro ha
      exact ⟨h.valid'.opened, h.reservationCount ▸ ha.count, ha.blocks, h.reservationBlocks ▸ ha.base,
        h.reservationBlocks ▸ ha.within, rfl⟩
  have hacquire := @FreeSet.acquire_meets _ set ⟨base, count, set.reservationSession⟩ h.valid
  have hacquire' := @FreeSet.acquire_meets _ set' ⟨base, count, set'.reservationSession⟩ h.valid'
  unfold GridTrailer.respond
  dsimp only
  by_cases ha : set.Admits ⟨base, count, set.reservationSession⟩
  · obtain ⟨⟨found, next⟩, heq, _, hr⟩ := Meets.iff_exists.mp
      (hacquire.mono (fun _ hr => hr) fun _ hn => hn ha)
    obtain ⟨⟨found', next'⟩, heq', _, hr'⟩ := Meets.iff_exists.mp
      (hacquire'.mono (fun _ hr => hr) fun _ hn => hn (hadmits.mpr ha))
    have hvalid := (FreeSet.Effect.acquire ha hr).valid h.valid
    have hvalid' := (FreeSet.Effect.acquire (hadmits.mpr ha) hr').valid h.valid'
    rw [heq, heq']
    -- The first free block of the range is the same.
    cases hr with
    | none hfull =>
      cases hr' with
      | none => exact .inl ⟨_, _, _, rfl, rfl, h⟩
      | some hf =>
        rw [h.blocksAcquired] at hf
        have hset := hfull _ hf.1.1 hf.1.2.1
        rw [hf.1.2.2] at hset
        cases hset
    | some hf hb hindex =>
      cases hr' with
      | none hfull =>
        rw [h.blocksAcquired] at hfull
        have hset := hfull _ hf.1.1 hf.1.2.1
        rw [hf.1.2.2] at hset
        cases hset
      | some hf' hb' hindex' =>
        rw [h.blocksAcquired] at hf'
        obtain rfl := Option.some.inj (First.unique hf hf')
        exact .inl ⟨_, _, _, rfl, rfl, hvalid, hvalid', h.blocksCountLimit,
          congrArg (DynamicBitSet.insert · _) h.blocksAcquired, h.reservationBlocks,
            h.reservationCount, h.reservationState⟩
  · obtain ⟨fault, heq⟩ := exists_error fun _ hok => ha (hacquire.post hok).1
    obtain ⟨fault', heq'⟩ := exists_error fun _ hok => ha (hadmits.mp (hacquire'.post hok).1)
    rw [heq, heq']
    exact .inr ⟨_, _, rfl, rfl⟩

theorem Similar.forfeit {base : Nat} :
    Alike (respond set (.forfeit base count)) (respond set' (.forfeit base count)) := by
  have hcount := h.reservationCount
  have hvalid : ∀ {set next : FreeSet shards}, set.Valid →
      set.forfeit ⟨base, count, set.reservationSession⟩ = .ok next → next.Valid :=
    fun hv heq => (FreeSet.Effect.forfeit (FreeSet.forfeit_meets.post heq)).valid hv
  have hv := @hvalid set
  have hv' := @hvalid set'
  unfold GridTrailer.respond FreeSet.forfeit at *
  dsimp only at hv hv' ⊢
  rw [assert_of h.valid.opened, ok_bind, assert_of rfl, ok_bind] at hv ⊢
  rw [assert_of h.valid'.opened, ok_bind, assert_of rfl, ok_bind] at hv' ⊢
  by_cases hpos : 0 < set.reservationCount
  · rw [assert_of hpos, ok_bind] at hv ⊢
    rw [assert_of (hcount ▸ hpos), ok_bind] at hv' ⊢
    by_cases hone : set.reservationCount = 1
    · rw [if_pos hone] at hv ⊢
      rw [if_pos (hcount.trans hone)] at hv' ⊢
      exact .inl ⟨_, _, _, rfl, rfl, hv h.valid rfl, hv' h.valid' rfl, h.blocksCountLimit, h.blocksAcquired,
        rfl, rfl, rfl⟩
    · rw [if_neg hone] at hv ⊢
      rw [if_neg (hcount ▸ hone)] at hv' ⊢
      exact .inl ⟨_, _, _, rfl, rfl, hv h.valid rfl, hv' h.valid' rfl, h.blocksCountLimit, h.blocksAcquired,
        h.reservationBlocks, congrArg (· - 1) hcount, rfl⟩
  · have hpos' : ¬0 < set'.reservationCount := hcount ▸ hpos
    unfold assert assertOn
    rw [if_neg hpos, if_neg hpos']
    exact .inr ⟨_, _, rfl, rfl⟩

theorem Similar.respond (request : Request) :
    Alike (respond set request) (respond set' request) := by
  cases request with
  | reserve reserveCount         => exact h.reserve
  | acquire blockBase blockCount => exact h.acquire
  | forfeit blockBase blockCount => exact h.forfeit

theorem Similar.responses (requests : List Request) :
    (responses requests set).toOption = (responses requests set').toOption := by
  induction requests generalizing set set' with
  | nil => rfl
  | cons request requests ih =>
    unfold GridTrailer.responses
    rcases h.respond request with ⟨response, next, next', heq, heq', hnext⟩ | ⟨fault, fault', heq, heq'⟩
    · have hrest := ih hnext
      rw [heq, heq', ok_bind, ok_bind]
      dsimp only
      cases hr : GridTrailer.responses requests next <;>
        cases hr' : GridTrailer.responses requests next' <;>
        rw [hr, hr'] at hrest
      · rfl
      · cases hrest
      · cases hrest
      · cases hrest
        rfl
    · rw [heq, heq']
      rfl

end

end Similar

end TigerBeetle.GridTrailer
