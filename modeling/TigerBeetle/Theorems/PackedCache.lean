import TigerBeetle.PackedCache
import TigerBeetle.Theorems.PackedArray

namespace TigerBeetle.Packed

open Fallible PackedUnsignedIntegerArray

section Elements

variable {α : Type} {xs : List α} {index i : Nat} {x : α}

theorem element_eq [Inhabited α] (h : index < xs.length) :
    element xs index = .ok (xs.getD index default) := by
  unfold element
  rw [assert_of h]
  rfl

theorem setElement_eq (h : index < xs.length) : setElement xs index x = .ok (xs.set index x) := by
  unfold setElement
  rw [assert_of h]
  rfl

theorem getD_set [Inhabited α] (h : index < xs.length) :
    (xs.set index x).getD i default = if i = index then x else xs.getD i default := by
  rw [List.getD_eq_getElem?_getD, List.getD_eq_getElem?_getD, List.getElem?_set]
  split
  next heq => simp [heq]
  next hne => rw [if_neg (Ne.symm hne)]

end Elements

namespace SetAssociativeCache

variable {way : Nat}

-- The ways that have the tag are those whose bits are set.
theorem getLsbD_searchTags_foldl {tags : List Tag} {tag : Tag} {start : Nat} {bits : BitVec 16}
    (hw : way < 16) :
    ((tags.zipIdx start).foldl
      (fun bits (t, i) => if t = tag then bits ||| 1#16 <<< i else bits) bits).getLsbD way =
        (bits.getLsbD way || decide (start ≤ way ∧ tags[way - start]? = some tag)) := by
  induction tags generalizing start bits with
  | nil => simp
  | cons t tags ih =>
    have hbit : (if t = tag then bits ||| 1#16 <<< start else bits).getLsbD way =
        (bits.getLsbD way || decide (t = tag ∧ way = start)) := by
      split
      next ht =>
        rw [BitVec.getLsbD_or, BitVec.getLsbD_shiftLeft, BitVec.getLsbD_one]
        congr 1
        simp only [ht, hw, decide_true, Bool.true_and, true_and]
        by_cases heq : way = start
        · simp [heq]
        · have : way < start ∨ ¬way - start = 0 := by omega
          rcases this with h | h <;> simp [h, heq]
      next ht => simp [ht]
    rw [List.zipIdx_cons, List.foldl_cons, ih, hbit]
    rcases Nat.lt_trichotomy way start with hlt | heq | hgt
    · have h₁ : ¬start ≤ way := by omega
      have h₂ : ¬start + 1 ≤ way := by omega
      have h₃ : way ≠ start := by omega
      simp [h₁, h₂, h₃]
    · subst heq
      simp
    · have h₁ : start ≤ way := by omega
      have h₂ : start + 1 ≤ way := by omega
      have h₃ : way ≠ start := by omega
      have h₄ : way - start = (way - (start + 1)) + 1 := by omega
      simp [h₁, h₂, h₃, h₄]

theorem getLsbD_searchTags {tags : List Tag} {tag : Tag} {ways : Nat} (hw : way < 16)
    (h : way < ways) :
    (searchTags tags tag ways).getLsbD way = decide (tags[way]? = some tag) := by
  unfold searchTags
  rw [getLsbD_searchTags_foldl hw]
  simp [h]

variable {K V : Type} (layout : Layout) (spec : SetAssociativeCacheSpec K V)
variable (cache : SetAssociativeCache V)

-- The slots that are in use.
def occupied : Finset Nat :=
  cache.counts.nonzero (cache.sets * layout.ways)

def tagAt (index : Nat) : Tag :=
  cache.tags.getD index default

-- A slot of the set of `key`.
def InSet (key : K) (index : Nat) : Prop :=
  (cache.associate layout spec key).offset ≤ index ∧
    index < (cache.associate layout spec key).offset + layout.ways

-- The arrays have the sizes that go with the number of sets.
structure Sized : Prop where
  ways : layout.ways = 2 ∨ layout.ways = 4 ∨ layout.ways = 16
  clockBits : layout.clockBits = 1 ∨ layout.clockBits = 2 ∨ layout.clockBits = 4
  sets : 0 < cache.sets
  tags : cache.tags.length = cache.sets * layout.ways
  values : cache.values.length = cache.sets * layout.ways
  counts : cache.counts.bitsPerUint = layout.clockBits
  room : cache.sets * layout.ways ≤ cache.counts.capacity
  clocks : cache.clocks.bitsPerUint = layout.ways.log2

variable {layout spec cache}

theorem inSet_way {key : K} (hw : way < layout.ways) :
    cache.InSet layout spec key ((cache.associate layout spec key).offset + way) :=
  ⟨Nat.le_add_right .., Nat.add_lt_add_left hw _⟩

namespace Sized

section

variable (h : cache.Sized layout)

include h

theorem ways_pos : 0 < layout.ways := by
  have := h.ways
  omega

theorem ways_le : layout.ways ≤ 16 := by
  have := h.ways
  omega

theorem aligned_counts : cache.counts.Aligned := by
  have hc := h.counts
  obtain hb | hb | hb := h.clockBits <;> rw [hb] at hc <;>
    exact ⟨by omega, by omega, by rw [hc]; decide⟩

theorem aligned_clocks : cache.clocks.Aligned := by
  have hc := h.clocks
  obtain hb | hb | hb := h.ways <;> rw [hb] at hc <;>
    exact ⟨by rw [hc]; decide, by rw [hc]; decide, by rw [hc]; decide⟩

theorem mask_clocks : 2 ^ cache.clocks.bitsPerUint - 1 = layout.ways - 1 := by
  rw [h.clocks]
  obtain hb | hb | hb := h.ways <;> rw [hb] <;> decide

theorem hand_lt (clock : Nat) : cache.clocks.uint clock < layout.ways := by
  have hle := h.aligned_clocks.uint_le clock
  rw [h.mask_clocks] at hle
  have := h.ways_pos
  omega

theorem one_le_count : 1 ≤ 2 ^ cache.counts.bitsPerUint - 1 := by
  have hc := h.counts
  obtain hb | hb | hb := h.clockBits <;> rw [hb] at hc <;> rw [hc] <;> decide

theorem offset_le (spec : SetAssociativeCacheSpec K V) (key : K) :
    (cache.associate layout spec key).offset + layout.ways ≤ cache.sets * layout.ways := by
  have hlt : fastrange (spec.hash key).toNat cache.sets < cache.sets := by
    refine Nat.div_lt_of_lt_mul ?_
    exact Nat.mul_lt_mul_of_pos_right (spec.hash key).isLt h.sets
  calc _ = (fastrange (spec.hash key).toNat cache.sets + 1) * layout.ways := by
        rw [Nat.add_mul, Nat.one_mul]
        rfl
    _ ≤ _ := Nat.mul_le_mul_right _ hlt

theorem lt_slots {key : K} {index : Nat}
    (hi : cache.InSet layout spec key index) : index < cache.sets * layout.ways :=
  Nat.lt_of_lt_of_le hi.2 (h.offset_le spec key)

theorem way_lt (spec : SetAssociativeCacheSpec K V) (key : K)
    (hw : way < layout.ways) :
    (cache.associate layout spec key).offset + way < cache.sets * layout.ways :=
  h.lt_slots (inSet_way hw : cache.InSet layout spec key _)

theorem lt_capacity {index : Nat} (hi : index < cache.sets * layout.ways) :
    index < cache.counts.capacity :=
  Nat.lt_of_lt_of_le hi h.room

end

end Sized

variable [Inhabited V]

def valueAt (cache : SetAssociativeCache V) (index : Nat) : V :=
  cache.values.getD index default

def keyAt (spec : SetAssociativeCacheSpec K V) (cache : SetAssociativeCache V) (index : Nat) : K :=
  spec.keyFromValue (cache.valueAt index)

-- No key is in two slots, each slot is in its key's set and has its key's tag, and the slots in use
-- are counted.
structure Representation (layout : Layout) (spec : SetAssociativeCacheSpec K V)
    (cache : SetAssociativeCache V) : Prop where
  unique : ∀ i ∈ cache.occupied layout, ∀ j ∈ cache.occupied layout,
    cache.keyAt spec i = cache.keyAt spec j → i = j
  placed : ∀ i ∈ cache.occupied layout, cache.InSet layout spec (cache.keyAt spec i) i
  tagged : ∀ i ∈ cache.occupied layout,
    cache.tagAt i = (cache.associate layout spec (cache.keyAt spec i)).tag
  valueCount : cache.metrics.valueCount = (cache.occupied layout).card

section Search

variable [DecidableEq K]

-- What a search for `key` has found.
def Found (layout : Layout) (spec : SetAssociativeCacheSpec K V) (cache : SetAssociativeCache V)
    (key : K) : Option Nat → Prop
  | some way => way < layout.ways ∧
      (cache.associate layout spec key).offset + way ∈ cache.occupied layout ∧
      cache.keyAt spec ((cache.associate layout spec key).offset + way) = key
  | none => ∀ i ∈ cache.occupied layout, cache.keyAt spec i ≠ key

theorem bit_eq_one {bits : BitVec 16} : bits >>> way &&& 1#16 = 1#16 ↔ bits.getLsbD way = true := by
  constructor
  · intro h
    have := congrArg (BitVec.getLsbD · 0) h
    simpa using this
  · intro h
    refine BitVec.eq_of_getLsbD_eq fun k _ => ?_
    rw [BitVec.getLsbD_and, BitVec.getLsbD_ushiftRight, BitVec.getLsbD_one]
    by_cases hk : k = 0
    · simp [hk, h]
    · simp [hk]

theorem Sized.holds (h : cache.Sized layout) {key : K} {ways : BitVec 16}
    (hw : way < layout.ways) :
    cache.holds spec (cache.associate layout spec key) ways key way =
      .ok (decide (ways.getLsbD way = true ∧
        (cache.associate layout spec key).offset + way ∈ cache.occupied layout ∧
        cache.keyAt spec ((cache.associate layout spec key).offset + way) = key)) := by
  have hs := h.way_lt spec key hw
  unfold SetAssociativeCache.holds
  simp only [bit_eq_one, h.aligned_counts.get_eq (h.lt_capacity hs), ok_bind,
    element_eq (h.values ▸ hs)]
  split
  next hb =>
    split
    next hc => simp [hb, occupied, hs, hc, keyAt, valueAt, pure, Except.pure]
    next hc => simp [hb, occupied, hs, hc, pure, Except.pure]
  next hb => simp [hb, pure, Except.pure]

theorem Sized.searchWays (h : cache.Sized layout) {key : K} {ways : BitVec 16} {list : List Nat}
    (hl : ∀ way ∈ list, way < layout.ways) :
    Meets (fun _ => False)
      (fun
        | some way => cache.Found layout spec key (some way)
        | none     => ∀ way ∈ list, ways.getLsbD way = true →
            (cache.associate layout spec key).offset + way ∈ cache.occupied layout →
            cache.keyAt spec ((cache.associate layout spec key).offset + way) ≠ key)
      (cache.searchWays spec (cache.associate layout spec key) ways key list) := by
  induction list with
  | nil => exact nofun
  | cons way rest ih =>
    have ⟨hw, hl⟩ := List.forall_mem_cons.mp hl
    unfold SetAssociativeCache.searchWays
    rw [h.holds hw, ok_bind]
    split
    next hd =>
      have ⟨_, ho, hk⟩ := of_decide_eq_true hd
      exact ⟨hw, ho, hk⟩
    next hd =>
      refine (ih hl).weaken fun
        | some _, hf => hf
        | none, hf => List.forall_mem_cons.mpr ⟨fun hb ho hk => ?_, hf⟩
      exact hd (decide_eq_true ⟨hb, ho, hk⟩)

theorem Sized.search (h : cache.Sized layout) (hr : cache.Representation layout spec) (key : K) :
    Meets (fun _ => False) (cache.Found layout spec key)
      (cache.search layout spec (cache.associate layout spec key) key) := by
  unfold SetAssociativeCache.search
  have hle := h.offset_le spec key
  rw [assert_of (h.tags ▸ hle), ok_bind]
  -- The slots that hold the key are among the ways with its tag.
  have htag : ∀ i ∈ cache.occupied layout, cache.keyAt spec i = key →
      ∃ way < layout.ways, i = (cache.associate layout spec key).offset + way ∧
        (searchTags (cache.tags.drop (cache.associate layout spec key).offset)
          (cache.associate layout spec key).tag layout.ways).getLsbD way = true := by
    intro i hi hk
    have ⟨hlo, hhi⟩ := hr.placed i hi
    have ht := hr.tagged i hi
    rw [hk] at hlo hhi ht
    obtain ⟨way, rfl⟩ := Nat.exists_eq_add_of_le hlo
    have hw : way < layout.ways := by omega
    refine ⟨way, hw, rfl, ?_⟩
    rw [getLsbD_searchTags (Nat.lt_of_lt_of_le hw h.ways_le) hw, List.getElem?_drop, decide_eq_true_eq]
    have hlt : (cache.associate layout spec key).offset + way < cache.tags.length := by
      rw [h.tags]
      omega
    rw [tagAt, List.getD_eq_getElem?_getD, List.getElem?_eq_getElem hlt] at ht
    rw [List.getElem?_eq_getElem hlt, ← ht]
    rfl
  dsimp only
  split
  next hz =>
    intro i hi hk
    have ⟨way, _, _, hb⟩ := htag i hi hk
    rw [hz] at hb
    simp at hb
  next =>
    refine (h.searchWays fun way hw => List.mem_range.mp hw).weaken fun
      | some _, hf => hf
      | none, hf => fun i hi hk => ?_
    obtain ⟨way, hw, rfl, hb⟩ := htag i hi hk
    exact hf way (List.mem_range.mpr hw) hb hi hk

end Search

-- The value is in one of the slots in use.
def Stored (layout : Layout) (cache : SetAssociativeCache V) (value : V) : Prop :=
  ∃ i ∈ cache.occupied layout, cache.valueAt i = value

-- A cache that represents values, with arrays of the right sizes.
structure Sound (layout : Layout) (spec : SetAssociativeCacheSpec K V)
    (cache : SetAssociativeCache V) : Prop extends
  cache.Sized layout, cache.Representation layout spec

-- The caches have the same sets, and arrays of the same sizes.
structure Alike (before after : SetAssociativeCache V) : Prop where
  sets : after.sets = before.sets
  tags : after.tags.length = before.tags.length
  values : after.values.length = before.values.length
  counts : after.counts.bitsPerUint = before.counts.bitsPerUint
  room : after.counts.capacity = before.counts.capacity
  clocks : after.clocks.bitsPerUint = before.clocks.bitsPerUint
  hands : after.clocks.capacity = before.clocks.capacity

variable {after : SetAssociativeCache V}

omit [Inhabited V] in
theorem Alike.associate (h : cache.Alike after) (key : K) :
    after.associate layout spec key = cache.associate layout spec key := by
  simp only [SetAssociativeCache.associate, h.sets]

omit [Inhabited V] in
theorem Alike.inSet (h : cache.Alike after) {key : K} {index : Nat} :
    after.InSet layout spec key index ↔ cache.InSet layout spec key index := by
  simp only [InSet, h.associate]

omit [Inhabited V] in
theorem Alike.sized (h : cache.Alike after) (hs : cache.Sized layout) : after.Sized layout where
  ways := hs.ways
  clockBits := hs.clockBits
  sets := h.sets ▸ hs.sets
  tags := by rw [h.tags, h.sets, hs.tags]
  values := by rw [h.values, h.sets, hs.values]
  counts := h.counts.trans hs.counts
  room := by rw [h.room, h.sets]; exact hs.room
  clocks := h.clocks.trans hs.clocks

-- Where slots only become free, what is left stays as it is.
theorem Sound.vacate (h : cache.Sound layout spec) (ha : cache.Alike after)
    (ho : after.occupied layout ⊆ cache.occupied layout)
    (ht : after.tags = cache.tags) (hv : after.values = cache.values)
    (hc : after.metrics.valueCount = (after.occupied layout).card) : after.Sound layout spec := by
  have hk : ∀ i, after.keyAt spec i = cache.keyAt spec i := by simp [keyAt, valueAt, hv]
  refine { ha.sized h.toSized with
    unique := ?unique, placed := ?placed, tagged := ?tagged, valueCount := hc }
  case unique =>
    intro i hi j hj heq
    rw [hk, hk] at heq
    exact h.unique i (ho hi) j (ho hj) heq
  case placed => exact fun i hi => ha.inSet.mpr (hk i ▸ h.placed i (ho hi))
  case tagged =>
    intro i hi
    rw [hk, ha.associate, ← h.tagged i (ho hi), tagAt, tagAt, ht]

-- The cache after a slot of the value's set was given to it, and what was in the slot.
structure Filled (layout : Layout) (spec : SetAssociativeCacheSpec K V)
    (cache : SetAssociativeCache V) (value : V) (index : Nat) (evicted : Option V)
    (after : SetAssociativeCache V) : Prop extends cache.Alike after where
  inSet : cache.InSet layout spec (spec.keyFromValue value) index
  only : ∀ i ∈ cache.occupied layout, cache.keyAt spec i = spec.keyFromValue value → i = index
  evicted : ∀ old, evicted = some old ↔ index ∈ cache.occupied layout ∧ cache.valueAt index = old
  occupied : after.occupied layout = insert index (cache.occupied layout)
  tagAt : ∀ i, after.tagAt i =
    if i = index then (cache.associate layout spec (spec.keyFromValue value)).tag else cache.tagAt i
  valueAt : ∀ i, after.valueAt i = if i = index then value else cache.valueAt i
  count : after.metrics.valueCount = (after.occupied layout).card

variable {value : V} {index : Nat} {evicted : Option V}

namespace Filled

section

variable (h : cache.Filled layout spec value index evicted after)

include h

theorem keyAt {i : Nat} :
    after.keyAt spec i =
      if i = index then spec.keyFromValue value else cache.keyAt spec i := by
  rw [SetAssociativeCache.keyAt, h.valueAt]
  split <;> rfl

theorem mem {i : Nat} : i ∈ after.occupied layout ↔ i = index ∨ i ∈ cache.occupied layout := by
  rw [h.occupied, Finset.mem_insert]

theorem sound (hs : cache.Sound layout spec) : after.Sound layout spec := by
  have ha := h.toAlike
  refine { ha.sized hs.toSized with
    unique := ?unique, placed := ?placed, tagged := ?tagged, valueCount := h.count }
  case unique =>
    intro i hi j hj heq
    rw [h.keyAt, h.keyAt] at heq
    split at heq <;> split at heq
    next hi' hj' => rw [hi', hj']
    next hi' hj' => exact hi'.trans (h.only j ((h.mem.mp hj).resolve_left hj') heq.symm).symm
    next hi' hj' => exact (h.only i ((h.mem.mp hi).resolve_left hi') heq).trans hj'.symm
    next hi' hj' =>
      exact hs.unique i ((h.mem.mp hi).resolve_left hi') j ((h.mem.mp hj).resolve_left hj') heq
  case placed =>
    intro i hi
    rw [h.keyAt, ha.inSet]
    split
    next heq => exact heq ▸ h.inSet
    next hne => exact hs.placed i ((h.mem.mp hi).resolve_left hne)
  case tagged =>
    intro i hi
    rw [h.tagAt, h.keyAt, ha.associate]
    split
    next => rfl
    next hne => exact hs.tagged i ((h.mem.mp hi).resolve_left hne)

-- The value is stored, and of the others what was in the slot is not any more.
theorem stored (hs : cache.Sound layout spec) : after.Stored layout value ∧
      (∀ old, evicted = some old → cache.Stored layout old) ∧
      ∀ other, other ≠ value →
        (after.Stored layout other ↔ cache.Stored layout other ∧ evicted ≠ some other) := by
  refine ⟨⟨index, h.mem.mpr (.inl rfl), by rw [h.valueAt, if_pos rfl]⟩, fun old he => ?_, ?_⟩
  case refine_1 =>
    have ⟨hi, hv⟩ := (h.evicted old).mp he
    exact ⟨index, hi, hv⟩
  case refine_2 =>
    intro other hne
    constructor
    · rintro ⟨i, hi, hv⟩
      rw [h.valueAt] at hv
      split at hv
      next => exact absurd hv.symm hne
      next hi' =>
        have hi := (h.mem.mp hi).resolve_left hi'
        refine ⟨⟨i, hi, hv⟩, fun he => ?_⟩
        have ⟨hm, hv'⟩ := (h.evicted other).mp he
        refine hi' (hs.unique i hi index hm ?_)
        rw [SetAssociativeCache.keyAt, SetAssociativeCache.keyAt, hv, hv']
    · rintro ⟨⟨i, hi, hv⟩, he⟩
      have hi' : i ≠ index := by
        rintro rfl
        exact he ((h.evicted other).mpr ⟨hi, hv⟩)
      exact ⟨i, h.mem.mpr (.inr hi), by rw [h.valueAt, if_neg hi', hv]⟩

end

end Filled

-- The hand takes away one count in each iteration in which it does not stop.
theorem evict_meets {ways offset n iterations : Nat} {values : List V}
    {counts : PackedUnsignedIntegerArray} (ha : counts.Aligned) (hw : way < ways)
    (hn : offset + ways ≤ n) (hc : n ≤ counts.capacity) (hv : values.length = n)
    (hsum : ∑ w ∈ Finset.range ways, (counts.uint (offset + w) - 1) < iterations) :
    Meets (fun _ => False)
      (fun r => r.1 < ways ∧ r.2.2.bitsPerUint = counts.bitsPerUint ∧
        r.2.2.capacity = counts.capacity ∧
        r.2.2.nonzero n = (counts.nonzero n).erase (offset + r.1) ∧
        ∀ old, r.2.1 = some old ↔
          offset + r.1 ∈ counts.nonzero n ∧ values.getD (offset + r.1) default = old)
      (evict ways values offset iterations way counts) := by
  induction iterations generalizing way counts with
  | zero => exact absurd hsum (Nat.not_lt_zero _)
  | succ iterations ih =>
    have hi : offset + way < n := by omega
    have hi' : offset + way < counts.capacity := Nat.lt_of_lt_of_le hi hc
    have hle := ha.uint_le (offset + way)
    have hset : counts.set (offset + way) (counts.uint (offset + way) - 1) =
        .ok (counts.put (offset + way) (counts.uint (offset + way) - 1)) :=
      ha.set_eq hi' (by omega)
    have hle' : counts.uint (offset + way) - 1 ≤ 2 ^ counts.bitsPerUint - 1 := by omega
    have hput := ha.nonzero_put hi' hi hle'
    unfold evict
    simp only [ha.get_eq hi', ok_bind, hset, element_eq (hv ▸ hi)]
    split
    next hz =>
      have hm : offset + way ∉ counts.nonzero n := by simp [hz]
      refine ⟨hw, rfl, rfl, (Finset.erase_eq_of_notMem hm).symm, fun old => ?_⟩
      simp [hm]
    next hz =>
      have hm : offset + way ∈ counts.nonzero n := mem_nonzero.mpr ⟨hi, Nat.pos_of_ne_zero hz⟩
      split
      next hone =>
        rw [if_pos hone] at hput
        refine ⟨hw, rfl, capacity_put, hput, fun old => ?_⟩
        simp only [hm, true_and, Option.some.injEq]
      next hone =>
        rw [if_neg hone, Finset.insert_eq_of_mem hm] at hput
        have huint := fun i => ha.uint_put (i := i) hi' hle'
        refine (ih (ha.put) (Nat.mod_lt _ (by omega)) (by simpa using hc) ?_).weaken
          fun r ⟨h₁, h₂, h₃, h₄, h₅⟩ => ?_
        case refine_1 =>
          -- This way has lost one, and the others have lost nothing.
          refine Nat.lt_of_lt_of_le (Finset.sum_lt_sum (fun w _ => ?_)
            ⟨way, Finset.mem_range.mpr hw, ?_⟩) (Nat.le_of_lt_succ hsum)
          · rw [huint]
            split
            next heq => rw [heq]; omega
            next => exact Nat.le_refl _
          · rw [huint, if_pos rfl]
            omega
        case refine_2 =>
          rw [hput] at h₄ h₅
          exact ⟨h₁, h₂, h₃.trans capacity_put, h₄, h₅⟩

variable {key : K}

namespace Sound

theorem recount (h : cache.Sound layout spec) (count : Nat) (metrics : Metrics)
    (hi : index ∈ cache.occupied layout) (hc : count ≤ 2 ^ cache.counts.bitsPerUint - 1)
    (hm : metrics.valueCount =
      (if count = 0 then (cache.occupied layout).erase index else cache.occupied layout).card) :
    cache.counts.set index count = .ok (cache.counts.put index count) ∧
    Sound layout spec { cache with counts := cache.counts.put index count, metrics } ∧
    occupied layout { cache with counts := cache.counts.put index count, metrics } =
      if count = 0 then (cache.occupied layout).erase index else cache.occupied layout := by
  have hlt : index < cache.sets * layout.ways := (mem_nonzero.mp hi).1
  have ho : (cache.counts.put index count).nonzero (cache.sets * layout.ways) =
      if count = 0 then (cache.occupied layout).erase index else cache.occupied layout := by
    rw [h.aligned_counts.nonzero_put (h.lt_capacity hlt) hlt hc]
    exact congrArg _ (Finset.insert_eq_of_mem hi)
  refine ⟨h.aligned_counts.set_eq (h.lt_capacity hlt) hc, ?_, ho⟩
  refine h.vacate ⟨rfl, rfl, rfl, rfl, capacity_put, rfl, rfl⟩ ?_ rfl rfl (hm.trans ?_)
  · refine Finset.Subset.trans (subset_of_eq ho) ?_
    split
    · exact Finset.erase_subset _ _
    · exact Finset.Subset.refl _
  · exact congrArg _ ho.symm

theorem found (h : cache.Sound layout spec)
    (hf : cache.Found layout spec key (some way)) {value : V} :
    cache.valueAt ((cache.associate layout spec key).offset + way) = value ↔
      cache.Stored layout value ∧ spec.keyFromValue value = key := by
  have ⟨_, ho, hk⟩ := hf
  constructor
  · rintro rfl
    exact ⟨⟨_, ho, rfl⟩, hk⟩
  · rintro ⟨⟨i, hi, rfl⟩, hk'⟩
    rw [h.unique _ ho i hi (hk.trans hk'.symm)]

theorem not_found (hf : cache.Found layout spec key none) {value : V} :
    ¬(cache.Stored layout value ∧ spec.keyFromValue value = key) := by
  rintro ⟨⟨i, hi, rfl⟩, hk⟩
  exact hf i hi hk

variable [DecidableEq K]

theorem get (h : cache.Sound layout spec) (key : K) :
    Meets (fun _ => False)
      (fun r => r.2.Sound layout spec ∧ cache.Alike r.2 ∧
        (∀ value, r.2.Stored layout value ↔ cache.Stored layout value) ∧
        ∀ value, r.1 = some value ↔ cache.Stored layout value ∧ spec.keyFromValue value = key)
      (cache.get layout spec key) := by
  unfold SetAssociativeCache.get getIndex
  simp only [Meets.bind_eq]
  refine (h.search h.toRepresentation key).weaken fun found hf => ?_
  cases found
  case some way =>
    obtain ⟨hw, ho, hk⟩ := hf
    have hs := h.way_lt spec key hw
    have hone := h.one_le_count
    let index := (cache.associate layout spec key).offset + way
    let count := min (cache.counts.uint index + 1) cache.counts.mask.toNat
    have hc : count ≤ 2 ^ cache.counts.bitsPerUint - 1 :=
      Nat.le_trans (Nat.min_le_right _ _) (Nat.le_of_eq h.aligned_counts.mask)
    have hz : count ≠ 0 := by
      have := h.aligned_counts.mask
      omega
    let metrics := { cache.metrics with hits := cache.metrics.hits + 1 }
    obtain ⟨hset, hsound, hocc⟩ := h.recount count metrics ho hc
      (by rw [if_neg hz]; exact h.valueCount)
    rw [if_neg hz] at hocc
    dsimp only
    rw [h.aligned_counts.get_eq (h.lt_capacity hs), ok_bind,
      show cache.counts.set _ (min _ _) = _ from hset, ok_bind, Meets.pure_iff]
    dsimp only
    rw [element_eq (h.values ▸ hs), ok_bind]
    refine ⟨hsound, ⟨rfl, rfl, rfl, rfl, capacity_put, rfl, rfl⟩, fun value => ?_, fun value => ?_⟩
    · show (∃ i ∈ occupied layout _, _) ↔ _
      rw [hocc]
      rfl
    · rw [Option.some.injEq]
      exact h.found ⟨hw, ho, hk⟩
  case none =>
    refine ⟨h.vacate ⟨rfl, rfl, rfl, rfl, rfl, rfl, rfl⟩ (Finset.Subset.refl _) rfl rfl h.valueCount,
      ⟨rfl, rfl, rfl, rfl, rfl, rfl, rfl⟩, fun _ => Iff.rfl, fun value => ?_⟩
    simp [not_found hf]

theorem remove (h : cache.Sound layout spec) (key : K) :
    Meets (fun _ => False)
      (fun r => r.2.Sound layout spec ∧ cache.Alike r.2 ∧
        (∀ value, r.2.Stored layout value ↔
          cache.Stored layout value ∧ spec.keyFromValue value ≠ key) ∧
        ∀ value, r.1 = some value ↔ cache.Stored layout value ∧ spec.keyFromValue value = key)
      (cache.remove layout spec key) := by
  unfold SetAssociativeCache.remove
  simp only [Meets.bind_eq]
  refine (h.search h.toRepresentation key).weaken fun found hf => ?_
  cases found
  case some way =>
    obtain ⟨hw, ho, hk⟩ := hf
    have hs := h.way_lt spec key hw
    let metrics := { cache.metrics with valueCount := cache.metrics.valueCount - 1 }
    obtain ⟨hset, hsound, hocc⟩ := h.recount 0 metrics ho (Nat.zero_le _)
      (by rw [if_pos rfl, Finset.card_erase_of_mem ho, ← h.valueCount])
    rw [if_pos rfl] at hocc
    have hpos : 0 < cache.metrics.valueCount := by
      rw [h.valueCount]
      exact Finset.card_pos.mpr ⟨_, ho⟩
    dsimp only
    rw [element_eq (h.values ▸ hs), ok_bind, hset, ok_bind, assert_of hpos, ok_bind]
    refine ⟨hsound, ⟨rfl, rfl, rfl, rfl, capacity_put, rfl, rfl⟩, fun value => ?_, fun value => ?_⟩
    · show (∃ i ∈ occupied layout _, _) ↔ _
      rw [hocc]
      constructor
      · rintro ⟨i, hi, rfl⟩
        obtain ⟨hne, hi⟩ := Finset.mem_erase.mp hi
        exact ⟨⟨i, hi, rfl⟩, fun hk' => hne (h.unique i hi _ ho (hk'.trans hk.symm))⟩
      · rintro ⟨⟨i, hi, rfl⟩, hne⟩
        refine ⟨i, Finset.mem_erase.mpr ⟨?_, hi⟩, rfl⟩
        rintro rfl
        exact hne hk
    · rw [Option.some.injEq]
      exact h.found ⟨hw, ho, hk⟩
  case none =>
    refine ⟨h, ⟨rfl, rfl, rfl, rfl, rfl, rfl, rfl⟩, fun value => ?_, fun value => ?_⟩
    · exact (and_iff_left_of_imp fun hs hk => not_found hf ⟨hs, hk⟩).symm
    · simp [not_found hf]

theorem demote (h : cache.Sound layout spec) (key : K) :
    Meets (fun _ => False)
      (fun after => after.Sound layout spec ∧ cache.Alike after ∧
        ∀ value, after.Stored layout value ↔ cache.Stored layout value)
      (cache.demote layout spec key) := by
  unfold SetAssociativeCache.demote
  simp only [Meets.bind_eq]
  refine (h.search h.toRepresentation key).weaken fun found hf => ?_
  cases found
  case none => exact ⟨h, ⟨rfl, rfl, rfl, rfl, rfl, rfl, rfl⟩, fun _ => Iff.rfl⟩
  case some way =>
    obtain ⟨hw, ho, _⟩ := hf
    obtain ⟨hset, hsound, hocc⟩ := h.recount 1 cache.metrics ho h.one_le_count
      h.valueCount
    dsimp only
    rw [hset]
    refine ⟨hsound, ⟨rfl, rfl, rfl, rfl, capacity_put, rfl, rfl⟩, fun value => ?_⟩
    show (∃ i ∈ occupied layout _, _) ↔ _
    rw [hocc]
    rfl

omit [DecidableEq K] in
theorem of_empty (h : cache.Sized layout) (ho : cache.occupied layout = ∅)
    (hv : cache.metrics.valueCount = 0) : cache.Sound layout spec := by
  refine { h with unique := ?_, placed := ?_, tagged := ?_, valueCount := ?_ }
  all_goals simp [ho, hv]

end Sound

theorem Sized.reset (h : cache.Sized layout) :
    cache.reset.Sound layout spec ∧ cache.Alike cache.reset ∧ cache.reset.occupied layout = ∅ := by
  have ho : cache.reset.occupied layout = ∅ := by
    refine Finset.eq_empty_of_forall_notMem fun i hi => ?_
    have hz : cache.counts.reset.uint i = 0 := uint_reset
    exact Nat.lt_irrefl 0 (hz ▸ (mem_nonzero.mp hi).2)
  have ha : cache.Alike cache.reset :=
    ⟨rfl, List.length_map _, rfl, rfl, capacity_reset, rfl, capacity_reset⟩
  exact ⟨.of_empty (ha.sized h) ho rfl, ha, ho⟩

theorem not_stored_of_empty (ho : cache.occupied layout = ∅) (value : V) :
    ¬cache.Stored layout value := by
  rintro ⟨i, hi, _⟩
  simp [ho] at hi

-- The clock of a set has room for its hand.
def Clocked (layout : Layout) (spec : SetAssociativeCacheSpec K V) (cache : SetAssociativeCache V)
    (key : K) : Prop :=
  (cache.associate layout spec key).offset / layout.ways < cache.clocks.capacity

namespace Sound

variable [DecidableEq K]

theorem upsert (h : cache.Sound layout spec) {value : V}
    (hc : Clocked layout spec cache (spec.keyFromValue value)) :
    Meets (fun _ => False)
      (fun r => ∃ index, cache.Filled layout spec value index r.1.evicted r.2)
      (cache.upsert layout spec value) := by
  unfold SetAssociativeCache.upsert
  simp only [Meets.bind_eq]
  refine (h.search h.toRepresentation _).weaken fun found hf => ?_
  cases found
  case some way =>
    obtain ⟨hw, ho, hk⟩ := hf
    have hin : cache.InSet layout spec (spec.keyFromValue value) (_ + way) := inSet_way hw
    have hs := h.lt_slots hin
    obtain ⟨hset, _, hocc⟩ := h.recount 1 cache.metrics ho h.one_le_count
      h.valueCount
    have hv : _ < cache.values.length := h.values ▸ hs
    dsimp only
    rw [hset, ok_bind, element_eq hv, ok_bind, setElement_eq hv, ok_bind, Meets.pure_iff]
    refine ⟨_, ⟨rfl, rfl, List.length_set, rfl, capacity_put, rfl, rfl⟩, hin, fun i hi hk' => ?_,
      fun old => ?_, ?_, fun i => ?_, fun i => getD_set hv, ?_⟩
    case refine_1 => exact h.unique i hi _ ho (hk'.trans hk.symm)
    case refine_2 => simp only [Option.some.injEq, ho, true_and]; rfl
    case refine_3 => exact hocc.trans (Finset.insert_eq_of_mem ho).symm
    case refine_4 =>
      split
      next heq =>
        have ht := h.tagged _ ho
        rw [hk] at ht
        rw [heq]
        exact ht
      next => rfl
    case refine_5 => exact h.valueCount.trans (congrArg _ hocc.symm)
  case none =>
    have hclock := h.aligned_clocks.get_eq hc
    dsimp only
    rw [hclock, ok_bind]
    have hle := h.offset_le spec (spec.keyFromValue value)
    have hsum : ∑ w ∈ Finset.range layout.ways, (cache.counts.uint
        ((cache.associate layout spec (spec.keyFromValue value)).offset + w) - 1) <
          layout.ways * (2 ^ layout.clockBits - 1 - 1) + 1 := by
      have hle := Finset.sum_le_card_nsmul (Finset.range layout.ways)
        (fun w => cache.counts.uint
          ((cache.associate layout spec (spec.keyFromValue value)).offset + w) - 1)
        (2 ^ layout.clockBits - 1 - 1) fun w _ =>
          Nat.sub_le_sub_right (h.counts ▸ h.aligned_counts.uint_le _) 1
      rw [Finset.card_range, smul_eq_mul] at hle
      exact Nat.lt_succ_of_le hle
    refine (evict_meets h.aligned_counts (h.hand_lt _) hle h.room h.values hsum).bind
      fun result hresult => ?_
    obtain ⟨way, evicted, counts⟩ := result
    obtain ⟨hw, hb, hcap, hocc, hev⟩ := hresult
    dsimp only at hw hb hcap hocc hev ⊢
    have hin : cache.InSet layout spec (spec.keyFromValue value) (_ + way) := inSet_way hw
    have hs := h.lt_slots hin
    generalize hindex : (cache.associate layout spec (spec.keyFromValue value)).offset + way = index
      at hin hs hocc hev ⊢
    have ha : counts.Aligned := by
      have ha := h.aligned_counts
      exact ⟨hb ▸ ha.pos, hb ▸ ha.lt, hb ▸ ha.dvd⟩
    have hi : index < counts.capacity := hcap ▸ h.lt_capacity hs
    have hz : counts.uint index = 0 := by
      have hn : index ∉ counts.nonzero (cache.sets * layout.ways) := by simp [hocc]
      simpa [hs] using hn
    have hone : 1 ≤ 2 ^ counts.bitsPerUint - 1 := hb ▸ h.one_le_count
    have ht : index < cache.tags.length := h.tags ▸ hs
    have hv : index < cache.values.length := h.values ▸ hs
    have hhand : (way + 1) % layout.ways ≤ 2 ^ cache.clocks.bitsPerUint - 1 := by
      rw [h.mask_clocks]
      have := Nat.mod_lt (way + 1) h.ways_pos
      omega
    rw [ha.get_eq hi, ok_bind, hz, assert_of rfl, ok_bind, setElement_eq ht, ok_bind,
      setElement_eq hv, ok_bind, ha.set_eq hi hone, ok_bind,
      h.aligned_clocks.set_eq hc hhand, ok_bind, Meets.pure_iff]
    have hput := ha.nonzero_put hi hs hone
    rw [if_neg Nat.one_ne_zero, hocc] at hput
    have hins : insert index ((cache.counts.nonzero (cache.sets * layout.ways)).erase index) =
        insert index (cache.counts.nonzero (cache.sets * layout.ways)) := by
      ext i
      by_cases heq : i = index <;> simp [heq]
    have hocc := hput.trans hins
    refine ⟨index, ⟨rfl, List.length_set, List.length_set, hb, capacity_put.trans hcap, rfl,
      capacity_put⟩, hin, fun i hi hk => absurd hk (hf i hi), hev, hocc, fun i => getD_set ht,
      fun i => getD_set hv, ?_⟩
    refine Eq.trans ?_ (congrArg _ hocc.symm)
    cases evicted with
    | none =>
      have hn : index ∉ cache.occupied layout := fun hm => by
        simpa using (hev _).mpr ⟨hm, rfl⟩
      exact (congrArg (· + 1) h.valueCount).trans (Finset.card_insert_of_notMem hn).symm
    | some old =>
      have hm : index ∈ cache.occupied layout := ((hev old).mp rfl).1
      exact h.valueCount.trans (congrArg _ (Finset.insert_eq_of_mem hm).symm)

theorem upsert_fails (h : cache.Sound layout spec) {value : V}
    (hn : ∀ i ∈ cache.occupied layout, cache.keyAt spec i ≠ spec.keyFromValue value)
    (hc : ¬Clocked layout spec cache (spec.keyFromValue value)) :
    cache.upsert layout spec value = abort "index out of bounds" := by
  have ⟨found, hs, hf⟩ := Meets.iff_exists.mp (h.search h.toRepresentation (spec.keyFromValue value))
  unfold SetAssociativeCache.upsert
  dsimp only
  rw [hs, ok_bind]
  cases found with
  | some way => exact absurd hf.2.2 (hn _ hf.2.1)
  | none =>
    dsimp only
    rw [h.aligned_clocks.get_fails hc]
    rfl

end Sound

end SetAssociativeCache

end TigerBeetle.Packed
