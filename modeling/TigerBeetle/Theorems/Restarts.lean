import TigerBeetle.Theorems.Effects

namespace TigerBeetle.FreeSet

open Fallible DynamicBitSet

variable {shards : Nat} {set after : FreeSet shards}

section Open

variable {blocks blocks' : List Nat} {shards' : Nat} {set' : FreeSet shards'}
    {chunksAcquired chunksReleased : List (List Ewah.Byte)}

-- Free blocks are acquired and released at once.
structure Marks (set : FreeSet shards) (blocks : List Nat) (after : FreeSet shards) : Prop where
  same : after = { set with
    index := after.index
    blocksAcquired := after.blocksAcquired
    blocksReleasedPriorCheckpointDurability := { set.blocksReleasedPriorCheckpointDurability with
      keys := set.blocksReleasedPriorCheckpointDurability.keys ++ blocks } }
  free : ∀ i ∈ blocks, i < shards * shardBits ∧ set.blocksAcquired.bit i = false ∧
    set.blocksReleased.bit i = false
  acquired : ∀ i, after.blocksAcquired.bit i = true ↔ set.blocksAcquired.bit i = true ∨ i ∈ blocks
  index : ∀ s, after.index.bit s = true ↔ set.index.bit s = true ∨
    (∃ i ∈ blocks, i / shardBits = s) ∧ Full after.blocksAcquired s

theorem Marks.refl : set.Marks [] set where
  same := by simp
  free := nofun
  acquired := by simp
  index := by simp

theorem Marks.trans {next : FreeSet shards} (h : set.Marks blocks next)
    (h' : next.Marks blocks' after) : set.Marks (blocks ++ blocks') after := by
  have hsame := h.same
  have hkeep : ∀ s, Full next.blocksAcquired s → Full after.blocksAcquired s :=
    fun s hf i hi => (h'.acquired i).mpr (.inl (hf i hi))
  refine ⟨?_, fun i hi => ?_, fun i => ?_, fun s => ?_⟩
  · rw [h'.same, hsame, List.append_assoc]
  · cases List.mem_append.mp hi with
    | inl hi => exact h.free i hi
    | inr hi =>
      have ⟨hlt, ha, hr⟩ := h'.free i hi
      refine ⟨hlt, ?_, ?_⟩
      · rw [Bool.eq_false_iff] at ha ⊢
        exact fun hset => ha ((h.acquired i).mpr (.inl hset))
      · rwa [hsame] at hr
  · rw [h'.acquired, h.acquired, List.mem_append, or_assoc]
  · rw [h'.index, h.index]
    constructor
    · rintro ((hi | ⟨⟨i, hm, hi⟩, hf⟩) | ⟨⟨i, hm, hi⟩, hf⟩)
      · exact .inl hi
      · exact .inr ⟨⟨i, by simp [hm], hi⟩, hkeep s hf⟩
      · exact .inr ⟨⟨i, by simp [hm], hi⟩, hf⟩
    · rintro (hi | ⟨⟨i, hm, hi⟩, hf⟩)
      · exact .inl (.inl hi)
      · by_cases hlater : ∃ i ∈ blocks', i / shardBits = s
        · exact .inr ⟨hlater, hf⟩
        -- The last block of the shard is among the first.
        · refine .inl (.inr ⟨⟨i, (List.mem_append.mp hm).resolve_right fun hm => hlater ⟨i, hm, hi⟩, hi⟩, ?_⟩)
          exact fun j hj => ((h'.acquired j).mp (hf j hj)).resolve_right fun hm => hlater ⟨j, hm, hj⟩

-- The addresses are in order, and those of free blocks for which there is room.
structure Markable (set : FreeSet shards) (addressPrevious : Nat) (addresses : List Nat) : Prop where
  ordered : (addressPrevious :: addresses).Pairwise (· < ·)
  free : ∀ address ∈ addresses, address - 1 < shards * shardBits ∧
    set.blocksAcquired.bit (address - 1) = false ∧ set.blocksReleased.bit (address - 1) = false ∧
    address - 1 ∉ set.blocksReleasedPriorCheckpointDurability.keys
  room : set.blocksReleasedPriorCheckpointDurability.keys.length + addresses.length ≤
    set.blocksReleasedPriorCheckpointDurability.capacity

theorem markReleasedFrom_meets {addressPrevious : Nat} {addresses : List Nat} :
    Meets (fun _ => ¬Markable set addressPrevious addresses)
      (set.Marks (addresses.map (· - 1)))
      (markReleasedFrom addressPrevious addresses set) := by
  induction addresses generalizing set addressPrevious with
  | nil => exact .refl
  | cons address addresses ih =>
    have hnone : ¬(address - 1 < shards * shardBits) → ¬Markable set addressPrevious (address :: addresses) :=
      fun hn hm => hn (hm.free address (by simp)).1
    unfold markReleasedFrom
    refine Meets.bind_iff.mpr (meets_assert.mpr ⟨fun hpos => ?_, fun hn hm => ?_⟩)
    case refine_2 =>
      exact hn (Nat.zero_lt_of_lt (List.rel_of_pairwise_cons hm.ordered (List.mem_cons_self ..)))
    refine Meets.bind_iff.mpr (meets_assert.mpr ⟨fun hlt => ?_, fun hn hm => ?_⟩)
    case refine_2 => exact hn (List.rel_of_pairwise_cons hm.ordered (List.mem_cons_self ..))
    dsimp only
    by_cases hb : address - 1 < shards * shardBits
    case neg =>
      unfold DynamicBitSet.get
      rw [bind_assoc]
      exact Meets.bind_iff.mpr (meets_assert.mpr ⟨fun hp => absurd hp hb, fun _ => hnone hb⟩)
    rw [get_eq hb, ok_bind]
    refine Meets.bind_iff.mpr (meets_assert.mpr ⟨fun ha => ?_, fun hn hm => hn ?_⟩)
    case refine_2 => simp [(hm.free address (by simp)).2.1]
    rw [get_eq hb, ok_bind]
    refine Meets.bind_iff.mpr (meets_assert.mpr ⟨fun hr => ?_, fun hn hm => hn ?_⟩)
    case refine_2 => simp [(hm.free address (by simp)).2.2.1]
    refine Meets.bind_iff.mpr (meets_assert.mpr ⟨fun hk => ?_, fun hn hm => hn ?_⟩)
    case refine_2 =>
      simp [ReleasedPriorCheckpointDurability.contains, (hm.free address (by simp)).2.2.2]
    rw [set_eq hb, ok_bind]
    refine Meets.bind ((updateIndex_meets (div_lt_shards hb)).mono (fun _ hu => hu) fun _ hu => hu.elim)
      fun next hnext => ?_
    obtain ⟨index, hnext, hindex⟩ := hnext
    rw [hnext]
    unfold ReleasedPriorCheckpointDurability.putAssumeCapacity
    rw [assert_of hk, ok_bind, bind_assoc]
    refine Meets.bind_iff.mpr (meets_assert.mpr ⟨fun hroom => ?_, fun hn hm => hn ?_⟩)
    case refine_2 =>
      have := hm.room
      rw [List.length_cons] at this
      show set.blocksReleasedPriorCheckpointDurability.keys.length <
        set.blocksReleasedPriorCheckpointDurability.capacity
      omega
    rw [pure_bind]
    have hfirst : set.Marks [address - 1] { set with
        index
        blocksAcquired := set.blocksAcquired.insert (address - 1)
        blocksReleasedPriorCheckpointDurability := { set.blocksReleasedPriorCheckpointDurability with
          keys := set.blocksReleasedPriorCheckpointDurability.keys ++ [address - 1] } } := by
      refine ⟨rfl, fun i hi => ?_, fun i => ?_, fun s => ?_⟩
      · obtain rfl := List.mem_singleton.mp hi
        exact ⟨hb, by simpa using ha, by simpa using hr⟩
      · rw [bit_insert hb, Bool.or_eq_true, decide_eq_true_iff, List.mem_singleton, @eq_comm _ i]
      · refine (hindex s).trans (or_congr_right ?_)
        simp only [List.mem_singleton, exists_eq_left]
        exact ⟨fun h => ⟨h.1.symm, h.1 ▸ h.2⟩, fun h => ⟨h.1.symm, h.1 ▸ h.2⟩⟩
    refine ih.mono (fun after hm => hfirst.trans hm) fun _ hn hm => hn ?_
    refine ⟨hm.ordered.of_cons, fun a ha' => ?_, ?_⟩
    · obtain ⟨hlt', ha'', hr', hk'⟩ := hm.free a (by simp [ha'])
      have hne : address - 1 ≠ a - 1 := by
        have := List.rel_of_pairwise_cons hm.ordered.of_cons ha'
        omega
      refine ⟨hlt', ?_, hr', ?_⟩
      · dsimp only
        rw [bit_insert hb, ha'', decide_eq_false hne]
        rfl
      · simpa [hk'] using hne.symm
    · have := hm.room
      rw [List.length_cons] at this
      simp only [List.length_append, List.length_singleton]
      omega

-- The chunks and the addresses for which a set is opened.
structure Openable (set : FreeSet shards) (set' : FreeSet shards')
    (chunksAcquired chunksReleased : List (List Ewah.Byte)) (addresses : List Nat) : Prop where
  large : shards' ≤ shards
  aligned : ∀ chunk ∈ chunksAcquired ++ chunksReleased, chunk.length % Ewah.wordBytes = 0
  stored : (chunksAcquired.isEmpty && chunksReleased.isEmpty) = addresses.isEmpty
  ordered : (0 :: addresses).Pairwise (· < ·)
  free : ∀ address ∈ addresses, address - 1 < shards * shardBits ∧
    set'.blocksAcquired.bit (address - 1) = false ∧ set'.blocksReleased.bit (address - 1) = false
  room : addresses.length ≤ set.blocksReleasedPriorCheckpointDurability.capacity

-- A set is opened with the blocks of another one, and those that store it.
structure Opens (set : FreeSet shards) (set' : FreeSet shards') (blocks : List Nat)
    (after : FreeSet shards) : Prop where
  same : after = { set with
    opened := true
    index := after.index
    blocksAcquired := after.blocksAcquired
    blocksReleased := after.blocksReleased
    blocksReleasedPriorCheckpointDurability := { set.blocksReleasedPriorCheckpointDurability with
      keys := blocks } }
  free : ∀ i ∈ blocks, i < shards * shardBits ∧ set'.blocksAcquired.bit i = false ∧
    set'.blocksReleased.bit i = false
  acquired : ∀ i, after.blocksAcquired.bit i = true ↔ set'.blocksAcquired.bit i = true ∨ i ∈ blocks
  released : ∀ i, after.blocksReleased.bit i = set'.blocksReleased.bit i
  index : ∀ s, after.index.bit s = true ↔
    (∃ i ∈ blocks, i / shardBits = s) ∧ Full after.blocksAcquired s

theorem open_meets {addressesAcquired addressesReleased : List Nat} (hf : set.Fresh)
    (ha : chunksAcquired.flatten = encoding set'.blocksAcquired)
    (hr : chunksReleased.flatten = encoding set'.blocksReleased) :
    Meets (fun _ => ¬(addressesReleased = [] ∧
        Openable set set' chunksAcquired chunksReleased addressesAcquired))
      (set.Opens set' ((addressesAcquired ++ addressesReleased).map (· - 1)))
      (set.open chunksAcquired chunksReleased addressesAcquired addressesReleased) := by
  unfold «open»
  rw [hf.opened, assert_of (by decide), ok_bind]
  refine Meets.bind_iff.mpr (meets_assert.mpr ⟨fun _ => ?_, fun hn ho => hn ?_⟩)
  case refine_2 =>
    rw [ho.2.stored, ho.1]
    simp
  refine Meets.bind ((decode_meets hf ha hr).mono (fun _ hd => hd) fun _ hn ho =>
    hn.elim (fun hlt => absurd ho.2.large (by omega)) fun hn => hn ho.2.aligned)
    fun decoded ⟨acquired, released, hdecoded, hacquired, hreleased⟩ => ?_
  have hopened : (!decoded.opened) = true := by
    rw [hdecoded, hf.opened]
    rfl
  have hdurable : (!decoded.checkpointDurable) = true := by
    rw [hdecoded, hf.checkpointDurable]
    rfl
  have hkeys : decoded.blocksReleasedPriorCheckpointDurability.keys = [] := by
    rw [hdecoded, hf.keys]
  have hmarkable : Openable set set' chunksAcquired chunksReleased addressesAcquired →
      decoded.Markable 0 addressesAcquired := by
    intro ho
    refine ⟨ho.ordered, fun address hm => ?_, ?_⟩
    · have ⟨hlt, hfree, hfree'⟩ := ho.free address hm
      rw [hkeys, hdecoded, hacquired, hreleased]
      exact ⟨hlt, hfree, hfree', List.not_mem_nil⟩
    · rw [hkeys, hdecoded, List.length_nil, Nat.zero_add]
      exact ho.room
  unfold markReleased
  rw [assert_of hopened, ok_bind, assert_of hdurable, ok_bind]
  refine Meets.bind (markReleasedFrom_meets.mono (fun _ hm => hm) fun _ hn ho => hn (hmarkable ho.2))
    fun next hnext => ?_
  have hsame := hnext.same
  have hmarkable' : Openable set set' chunksAcquired chunksReleased addressesAcquired →
      next.Markable 0 [] := by
    intro ho
    have hroom := ho.room
    refine ⟨List.pairwise_singleton _ _, nofun, ?_⟩
    rw [hsame, hkeys, hdecoded]
    simpa using hroom
  have hopened' : (!next.opened) = true := by rwa [hsame]
  have hdurable' : (!next.checkpointDurable) = true := by rwa [hsame]
  rw [bind_assoc, assert_of hopened', ok_bind, bind_assoc, assert_of hdurable', ok_bind]
  refine Meets.bind (markReleasedFrom_meets.mono (fun _ hm => hm) fun _ hn ho =>
    hn (ho.1 ▸ hmarkable' ho.2)) fun marked hmarked => ?_
  · have hm := hnext.trans hmarked
    rw [← List.map_append] at hm
    have hm' := hm.same
    refine ⟨?_, fun i hi => ?_, fun i => ?_, fun i => ?_, fun s => ?_⟩
    · rw [hm', hdecoded, hf.keys]
      rfl
    · have ⟨hlt, hfree, hfree'⟩ := hm.free i hi
      rw [hdecoded] at hfree hfree'
      exact ⟨hlt, (hacquired i).symm.trans hfree, (hreleased i).symm.trans hfree'⟩
    · show marked.blocksAcquired.bit i = true ↔ _
      rw [hm.acquired, hdecoded, hacquired]
    · show marked.blocksReleased.bit i = _
      rw [hm', hdecoded, hreleased]
    · show marked.index.bit s = true ↔ _ ∧ Full marked.blocksAcquired s
      rw [hm.index, hdecoded, hf.index, bit_newEmpty]
      simp

theorem open_succeeds {addresses : List Nat} (hf : set.Fresh)
    (ha : chunksAcquired.flatten = encoding set'.blocksAcquired)
    (hr : chunksReleased.flatten = encoding set'.blocksReleased)
    (ho : Openable set set' chunksAcquired chunksReleased addresses) :
    ∃ after, set.open chunksAcquired chunksReleased addresses [] = .ok after ∧
      set.Opens set' (addresses.map (· - 1)) after := by
  have hopen := (@open_meets _ _ _ _ _ _ addresses [] hf ha hr).mono (fun _ h => h)
    fun _ hn => hn ⟨rfl, ho⟩
  rw [List.append_nil] at hopen
  exact Meets.iff_exists.mp hopen

theorem Opens.valid (h : set.Opens set' blocks after) (hf : set.Fresh)
    (hr : ∀ i, set'.blocksReleased.bit i = true → set'.blocksAcquired.bit i = true) : after.Valid := by
  have hsame := h.same
  have hopened : after.opened = true := by rw [hsame]
  have hkeys : after.blocksReleasedPriorCheckpointDurability.keys = blocks := by rw [hsame]
  refine ⟨hopened, fun i _ hi => ?_, fun i hi => ?_, fun s _ hi => ((h.index s).mp hi).2, ?_, ?_, ?_⟩
  · rw [h.released] at hi
    exact (h.acquired i).mpr (.inl (hr i hi))
  · rw [hkeys] at hi
    have ⟨hlt, _, hfree⟩ := h.free i hi
    exact ⟨hlt, (h.acquired i).mpr (.inr hi), (h.released i).trans hfree⟩
  · rw [hsame, hf.reservationBlocks]
    exact Nat.zero_le _
  · rw [hsame]
    exact fun _ => ⟨hf.reservationBlocks, hf.reservationState⟩
  · rw [hsame, hf.checkpointDurable]
    exact nofun

-- The bits agree unless a shard is full of blocks that have been decoded.
theorem Opens.agrees (h : set.Opens set' blocks after) {s : Nat} :
    after.Agrees s ↔ ¬Full set'.blocksAcquired s := by
  have hkeep : Full set'.blocksAcquired s → Full after.blocksAcquired s :=
    fun hf i hi => (h.acquired i).mpr (.inl (hf i hi))
  unfold Agrees
  rw [h.index]
  constructor
  · intro hi hf
    have ⟨⟨i, hm, hs⟩, _⟩ := hi.mpr (hkeep hf)
    have hfree := (h.free i hm).2.1
    rw [hf i hs] at hfree
    cases hfree
  · intro hn
    refine ⟨And.right, fun hf => ⟨?_, hf⟩⟩
    by_contra hnone
    exact hn fun i hi => ((h.acquired i).mp (hf i hi)).resolve_right fun hm => hnone ⟨i, hm, hi⟩

end Open

section Runs

variable {s : Σ shards, FreeSet shards}
variable {bits : DynamicBitSet (shards * shardBits)}

theorem bit_of_ge {i : Nat} (h : shards * shardBits ≤ i) : bits.bit i = false := by
  have hlen := @length_words shards
  have hle : bits.words.toList.length ≤ i / wordBits := by
    rw [Vector.length_toList]
    unfold wordBits at *
    omega
  rw [bit_eq, word, List.getD_eq_getElem?_getD, List.getElem?_eq_none hle]
  exact BitVec.getLsbD_zero

theorem lt_of_bit {i : Nat} (h : bits.bit i = true) : i < shards * shardBits := by
  by_contra hge
  rw [bit_of_ge (Nat.not_lt.mp hge)] at h
  cases h

theorem Valid.released_acquired (h : set.Valid) (i : Nat) (hi : set.blocksReleased.bit i = true) :
    set.blocksAcquired.bit i = true :=
  h.released i (lt_of_bit hi) hi

theorem encoding_newEmpty : encoding (newEmpty : DynamicBitSet (shards * shardBits)) = [] := by
  unfold encoding newEmpty
  rw [Vector.toList_replicate, Ewah.stripped_zeros]
  rfl

-- What the steps of a run do.
inductive Moves (s : Σ shards, FreeSet shards) : Event → (Σ shards, FreeSet shards) → Prop
  | operation {operation : Operation} {after : FreeSet s.1} :
    Effect s.2 operation after → Moves s (.operation operation) ⟨s.1, after⟩
  | restart {gridSizeLimit max : Nat} {acquired released : List (List Ewah.Byte)}
      {addressesAcquired addressesReleased blocks : List Nat}
      {after : FreeSet (shardsFor gridSizeLimit)} :
    (new gridSizeLimit max).Opens s.2 blocks after →
    Moves s (.restart gridSizeLimit max acquired released addressesAcquired addressesReleased)
      ⟨_, after⟩

theorem moves_of_step {e : Event} {t : Σ shards, FreeSet shards} (hv : s.2.Valid)
    (hr : e.Restores s) (h : machine.step s e = .ok t) : Moves s e t := by
  cases e with
  | operation operation =>
    obtain ⟨after, hstep, heq⟩ := bind_eq_ok.mp h
    obtain rfl := Except.ok.inj heq
    exact .operation ((step_meets hv).post hstep)
  | restart gridSizeLimit max acquired released addressesAcquired addressesReleased =>
    obtain ⟨after, hopen, heq⟩ := bind_eq_ok.mp h
    obtain rfl := Except.ok.inj heq
    obtain ⟨_, _, _, _, hencode, hacquired, hreleased⟩ := hr
    have ⟨ha, hr⟩ := encodeChunks_meets.post hencode
    exact .restart ((open_meets fresh_new (hacquired.trans ha) (hreleased.trans hr)).post hopen)

theorem open_new {gridSizeLimit max : Nat} : ∃ set, (new gridSizeLimit max).open [] [] [] [] = .ok set ∧
    (new gridSizeLimit max).Opens (new gridSizeLimit max) [] set := by
  have ha : ([] : List (List Ewah.Byte)).flatten = encoding (new gridSizeLimit max).blocksAcquired :=
    encoding_newEmpty.symm
  have hopenable : Openable (new gridSizeLimit max) (new gridSizeLimit max) [] [] [] :=
    ⟨Nat.le_refl _, nofun, rfl, List.pairwise_singleton _ _, nofun, Nat.zero_le _⟩
  exact open_succeeds fresh_new ha ha hopenable

theorem opens_of_init {gridSizeLimit max : Nat} {set : FreeSet (shardsFor gridSizeLimit)}
    (h : (new gridSizeLimit max).open [] [] [] [] = .ok set) :
    (new gridSizeLimit max).Opens (new gridSizeLimit max) [] set := by
  have ha : ([] : List (List Ewah.Byte)).flatten = encoding (new gridSizeLimit max).blocksAcquired :=
    encoding_newEmpty.symm
  exact (open_meets fresh_new ha ha).post h

theorem valid_of_init (h : machine.init s) : s.2.Valid := by
  obtain ⟨gridSizeLimit, max, set, hopen, rfl⟩ := h
  refine (opens_of_init hopen).valid fresh_new fun i hi => ?_
  rw [show (new gridSizeLimit max).blocksReleased = newEmpty from rfl, bit_newEmpty] at hi
  cases hi

theorem Moves.valid {e : Event} {t : Σ shards, FreeSet shards} (h : Moves s e t) (hv : s.2.Valid) :
    t.2.Valid := by
  cases h with
  | operation he => exact he.valid hv
  | restart ho   => exact ho.valid fresh_new hv.released_acquired

theorem valid_of_reachable (h : machine.Reachable (fun s e => e.Restores s) s) : s.2.Valid :=
  h.invariant (p := fun s => s.2.Valid) (fun _ => valid_of_init) fun _ _ _ hv hr hs =>
    (moves_of_step hv hr hs).valid hv

-- No shard is full in what a restart decodes.
def Event.Sparse (s : Σ shards, FreeSet shards) : Event → Prop
  | operation _         => True
  | restart _ _ _ _ _ _ => ∀ shard < s.1, ¬Full s.2.blocksAcquired shard

theorem not_full_of_ge {shard : Nat} (h : shards ≤ shard) : ¬Full bits shard := by
  intro hf
  have hbit := hf (shard * shardBits) (Nat.mul_div_cancel _ shardBits_pos)
  rw [bit_of_ge (Nat.mul_le_mul_right _ h)] at hbit
  cases hbit

-- The bit of a shard tells whether the shard is full, as long as no restart decodes a full shard. So
-- the index is verified whenever a checkpoint becomes durable.
theorem index_agrees (h : machine.Reachable (fun s e => e.Restores s ∧ e.Sparse s) s) :
    (∀ shard < s.1, s.2.Agrees shard) ∧ Meets Other (fun _ => True) s.2.markCheckpointDurable := by
  have hagrees : ∀ shard < s.1, s.2.Agrees shard := by
    refine (h.invariant (p := fun s => s.2.Valid ∧ ∀ shard < s.1, s.2.Agrees shard)
      (fun s hi => ⟨valid_of_init hi, ?_⟩)
      fun s e t ⟨hv, ha⟩ hg hs => ?_).2
    · obtain ⟨gridSizeLimit, max, set, hopen, rfl⟩ := hi
      intro shard _
      refine (opens_of_init hopen).agrees.mpr fun hf => ?_
      have hbit := hf (shard * shardBits) (Nat.mul_div_cancel _ shardBits_pos)
      rw [show (new gridSizeLimit max).blocksAcquired = newEmpty from rfl, bit_newEmpty] at hbit
      cases hbit
    · have hm := moves_of_step hv hg.1 hs
      refine ⟨hm.valid hv, fun shard hshard => ?_⟩
      cases hm with
      | operation he => exact he.agrees ha shard hshard
      | restart ho =>
        refine ho.agrees.mpr ?_
        by_cases hlt : shard < s.1
        · exact hg.2 shard hlt
        · exact not_full_of_ge (Nat.not_lt.mp hlt)
  exact ⟨hagrees, markCheckpointDurable_meets.mono (fun _ _ => trivial) fun _ hn => hn hagrees⟩

end Runs

end TigerBeetle.FreeSet