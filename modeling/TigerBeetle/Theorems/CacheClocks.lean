import TigerBeetle.Theorems.PackedCache

namespace TigerBeetle.Packed

open Fallible PackedUnsignedIntegerArray

theorem isPowerOfTwo_dvd_max {m n : Nat} (hm : ∃ a, m = 2 ^ a) (hn : ∃ b, n = 2 ^ b) :
    n ∣ max m n := by
  obtain ⟨a, rfl⟩ := hm
  obtain ⟨b, rfl⟩ := hn
  rcases Nat.le_total a b with hab | hab
  · rw [Nat.max_eq_right (Nat.pow_le_pow_right (by decide) hab)]
  · rw [Nat.max_eq_left (Nat.pow_le_pow_right (by decide) hab)]
    exact Nat.pow_dvd_pow 2 hab

-- A layout that the validation accepts.
structure Layout.Valid (layout : Layout) : Prop where
  ways : layout.ways = 2 ∨ layout.ways = 4 ∨ layout.ways = 16
  clockBits : layout.clockBits = 1 ∨ layout.clockBits = 2 ∨ layout.clockBits = 4
  valueSize : ∃ a, layout.valueSize = 2 ^ a
  cacheLineSize : ∃ a, layout.cacheLineSize = 2 ^ a

theorem validateLayout_meets {layout : Layout} :
    Meets (fun _ => True) (fun _ => layout.Valid) layout.validateLayout := by
  unfold Layout.validateLayout
  simp only [Meets.bind_eq, partial_assert]
  intro _ hvalue hways _ hclock _ _ _ hline _ _ _
  exact Meets.trivial.weaken fun _ _ => ⟨hways, hclock, ⟨_, hvalue⟩, ⟨_, hline⟩⟩

theorem clockHandBits_meets {ways : Nat} :
    Meets (fun _ => True) (fun bits => bits = ways.log2) (clockHandBits ways) := by
  unfold clockHandBits
  simp

theorem mul_meets {a b : Nat} :
    Meets (fun _ => True) (fun c => c = a * b ∧ a * b < 2 ^ 64) (mul a b) := by
  unfold mul
  simp

theorem Layout.Valid.counts_aligned {layout : Layout} (h : layout.Valid) {valueCountMax : Nat}
    (hm : valueCountMax % layout.valueCountMaxMultiple = 0) :
    8 ∣ valueCountMax * layout.clockBits := by
  obtain ⟨a, ha⟩ := h.valueSize
  obtain ⟨c, hc⟩ := h.cacheLineSize
  have hline : ∃ b, layout.cacheLineSize * 8 / layout.clockBits = 2 ^ b := by
    obtain hb | hb | hb := h.clockBits <;> rw [hb, hc]
    · exact ⟨c + 3, by rw [Nat.pow_add, Nat.div_one]⟩
    · exact ⟨c + 2, by rw [Nat.pow_add]; omega⟩
    · exact ⟨c + 1, by rw [Nat.pow_add]; omega⟩
  have hvalues : ∃ b, max layout.valueSize layout.cacheLineSize /
      min layout.valueSize layout.cacheLineSize * layout.ways = 2 ^ b := by
    have hdiv : ∃ b, max layout.valueSize layout.cacheLineSize /
        min layout.valueSize layout.cacheLineSize = 2 ^ b := by
      rw [ha, hc]
      rcases Nat.le_total a c with hac | hac
      · have hle : 2 ^ a ≤ 2 ^ c := Nat.pow_le_pow_right (by decide) hac
        exact ⟨c - a, by rw [Nat.max_eq_right hle, Nat.min_eq_left hle, Nat.pow_div hac (by decide)]⟩
      · have hle : 2 ^ c ≤ 2 ^ a := Nat.pow_le_pow_right (by decide) hac
        exact ⟨a - c, by rw [Nat.max_eq_left hle, Nat.min_eq_right hle, Nat.pow_div hac (by decide)]⟩
    obtain ⟨b, hb⟩ := hdiv
    obtain hw | hw | hw := h.ways <;> rw [hb, hw]
    · exact ⟨b + 1, (Nat.pow_add 2 b 1).symm⟩
    · exact ⟨b + 2, (Nat.pow_add 2 b 2).symm⟩
    · exact ⟨b + 4, (Nat.pow_add 2 b 4).symm⟩
  have hdvd : layout.cacheLineSize * 8 / layout.clockBits ∣ valueCountMax :=
    (isPowerOfTwo_dvd_max hvalues hline).trans (Nat.dvd_of_mod_eq_zero hm)
  have hline : layout.cacheLineSize * 8 / layout.clockBits * layout.clockBits =
      layout.cacheLineSize * 8 := by
    refine Nat.div_mul_cancel (Dvd.dvd.mul_left ?_ _)
    obtain hb | hb | hb := h.clockBits <;> rw [hb] <;> decide
  calc 8 ∣ layout.cacheLineSize * 8 := Nat.dvd_mul_left ..
    _ = layout.cacheLineSize * 8 / layout.clockBits * layout.clockBits := hline.symm
    _ ∣ valueCountMax * layout.clockBits := Nat.mul_dvd_mul_right hdvd _

-- What the hands of the clocks leave over of their whole words, if anything, is at least a byte.
def Layout.ClocksFit (layout : Layout) (valueCountMax : Nat) : Prop :=
  let bits := valueCountMax / layout.ways * layout.ways.log2
  bits % 64 = 0 ∨ 8 ≤ bits % 64

instance {layout : Layout} {valueCountMax : Nat} : Decidable (layout.ClocksFit valueCountMax) :=
  inferInstanceAs (Decidable (_ ∨ _))

variable {K V : Type} [Inhabited V] {layout : Layout} {spec : SetAssociativeCacheSpec K V}
  {cache : SetAssociativeCache V} {valueCountMax : Nat}

omit [Inhabited V] in
-- The arrays that a cache is made with have the right sizes, apart from the clocks.
theorem Layout.Valid.sized (h : layout.Valid) (hpos : layout.ways ≤ valueCountMax)
    (hmod : valueCountMax % layout.ways = 0)
    (hmultiple : valueCountMax % layout.valueCountMaxMultiple = 0)
    (hsets : cache.sets = valueCountMax / layout.ways)
    (htags : cache.tags.length = valueCountMax) (hvalues : cache.values.length = valueCountMax)
    (hcounts : cache.counts.bitsPerUint = layout.clockBits)
    (hcounts' : cache.counts.words.length = (valueCountMax * layout.clockBits / 8 + 7) / 8)
    (hclocks : cache.clocks.bitsPerUint = layout.ways.log2)
    (hclocks' : cache.clocks.words.length =
      (valueCountMax / layout.ways * layout.ways.log2 / 8 + 7) / 8) :
    cache.Sized layout ∧
      (cache.sets ≤ cache.clocks.capacity ↔ layout.ClocksFit valueCountMax) := by
  have hslots : cache.sets * layout.ways = valueCountMax := by
    rw [hsets]
    exact Nat.div_mul_cancel (Nat.dvd_of_mod_eq_zero hmod)
  have hways : 0 < layout.ways := by
    have := h.ways
    omega
  constructor
  case left =>
    refine ⟨h.ways, h.clockBits, ?_, htags.trans hslots.symm, hvalues.trans hslots.symm, hcounts, ?_,
      hclocks⟩
    · exact hsets ▸ Nat.div_pos hpos hways
    · obtain ⟨bytes, hbytes⟩ := h.counts_aligned hmultiple
      rw [hslots, capacity, uintsPerWord, hcounts, hcounts', hbytes]
      obtain hb | hb | hb := h.clockBits <;> rw [hb] at hbytes ⊢ <;> omega
  case right =>
    rw [capacity, uintsPerWord, hclocks, hclocks', hsets]
    unfold Layout.ClocksFit
    generalize valueCountMax / layout.ways = sets
    obtain hw | hw | hw := h.ways <;> rw [hw]
    · rw [show Nat.log2 2 = 1 by decide]
      omega
    · rw [show Nat.log2 4 = 2 by decide]
      omega
    · rw [show Nat.log2 16 = 4 by decide]
      omega

theorem new_meets (spec : SetAssociativeCacheSpec K V) :
    Meets (fun _ => True)
      (fun (cache : SetAssociativeCache V) => cache.Sound layout spec ∧
        cache.occupied layout = ∅ ∧ cache.sets < 2 ^ 64 ∧
        (cache.sets ≤ cache.clocks.capacity ↔ layout.ClocksFit valueCountMax))
      (SetAssociativeCache.new layout valueCountMax) := by
  unfold SetAssociativeCache.new PackedUnsignedIntegerArray.new
  simp only [Meets.bind_eq]
  refine validateLayout_meets.weaken fun _ hvalid => ?_
  simp only [partial_assert]
  intro hpos hle hmod
  refine mul_meets.weaken fun _ _ => ?_
  intro _ _
  refine mul_meets.weaken fun _ ⟨hcounts, hlt⟩ => ?_
  subst hcounts
  intro _ _
  refine clockHandBits_meets.weaken fun _ hbits => ?_
  subst hbits
  refine mul_meets.weaken fun _ ⟨hclocks, _⟩ => ?_
  subst hclocks
  intro hmultiple
  simp only [Meets.pure_eq]
  intro hone _ _ _ _ _
  let cache : SetAssociativeCache V := {
    sets := valueCountMax / layout.ways
    metrics := {}
    tags := List.replicate valueCountMax 0
    values := List.replicate valueCountMax default
    counts := ⟨layout.clockBits, List.replicate ((valueCountMax * layout.clockBits / 8 + 7) / 8) 0⟩
    clocks := ⟨layout.ways.log2,
      List.replicate ((valueCountMax / layout.ways * layout.ways.log2 / 8 + 7) / 8) 0⟩
  }
  have hs : cache.Sized layout ∧
      (cache.sets ≤ cache.clocks.capacity ↔ layout.ClocksFit valueCountMax) :=
    hvalid.sized hle hmod hmultiple rfl List.length_replicate List.length_replicate rfl
      List.length_replicate rfl List.length_replicate
  have hr : cache.reset.Sound layout spec ∧ _ := hs.1.reset
  refine ⟨hr.1, hr.2.2, ?_, ?_⟩
  · calc valueCountMax / layout.ways ≤ valueCountMax := Nat.div_le_self ..
      _ ≤ valueCountMax * layout.clockBits := Nat.le_mul_of_pos_right _ hone
      _ < 2 ^ 64 := hlt
  · rw [hr.2.1.sets, hr.2.1.hands]
    exact hs.2

variable [DecidableEq K]

-- The value is what the cache has for its key.
def Reached (layout : Layout) (spec : SetAssociativeCacheSpec K V) (cache : SetAssociativeCache V)
    (value : V) : Prop :=
  Meets (fun _ => False) (fun r => r.1 = some value)
    (cache.get layout spec (spec.keyFromValue value))

-- What an operation does to the values that are reached.
def Exact (layout : Layout) (spec : SetAssociativeCacheSpec K V) (cache : SetAssociativeCache V) :
    Call K V → Prop
  | .upsert value => Meets (fun _ => False)
      (fun r => Reached layout spec r.2 value ∧
        (∀ old, r.1.evicted = some old → Reached layout spec cache old) ∧
        ∀ other, other ≠ value → (Reached layout spec r.2 other ↔
          Reached layout spec cache other ∧ r.1.evicted ≠ some other))
      (cache.upsert layout spec value)
  | .get key => Meets (fun _ => False)
      (fun r =>
        (∀ value, r.1 = some value ↔
          Reached layout spec cache value ∧ spec.keyFromValue value = key) ∧
        ∀ value, Reached layout spec r.2 value ↔ Reached layout spec cache value)
      (cache.get layout spec key)
  | .remove key => Meets (fun _ => False)
      (fun r =>
        (∀ value, r.1 = some value ↔
          Reached layout spec cache value ∧ spec.keyFromValue value = key) ∧
        ∀ value, Reached layout spec r.2 value ↔
          Reached layout spec cache value ∧ spec.keyFromValue value ≠ key)
      (cache.remove layout spec key)
  | .demote key => Meets (fun _ => False)
      (fun after => ∀ value, Reached layout spec after value ↔ Reached layout spec cache value)
      (cache.demote layout spec key)
  | .reset => ∀ value, ¬Reached layout spec cache.reset value

theorem reached_iff (h : cache.Sound layout spec) {value : V} :
    Reached layout spec cache value ↔ cache.Stored layout value := by
  have hget := h.get (spec.keyFromValue value)
  constructor
  · intro hr
    have ⟨_, _, ⟨_, _, _, hf⟩, hr⟩ := Meets.iff_exists.mp (hget.and hr)
    exact ((hf value).mp hr).1
  · exact fun hs => hget.weaken fun _ ⟨_, _, _, hf⟩ => (hf value).mpr ⟨hs, rfl⟩

-- A sound cache with a clock for each set.
structure Ready (layout : Layout) (spec : SetAssociativeCacheSpec K V)
    (cache : SetAssociativeCache V) : Prop extends cache.Sound layout spec where
  hands : cache.sets ≤ cache.clocks.capacity

namespace Ready

section

variable (h : Ready layout spec cache)

include h

omit [DecidableEq K] in
theorem alike {after : SetAssociativeCache V} (ha : cache.Alike after)
    (hs : after.Sound layout spec) : Ready layout spec after where
  toSound := hs
  hands := by
    rw [ha.sets, ha.hands]
    exact h.hands

omit [DecidableEq K] in
theorem clocked (key : K) : SetAssociativeCache.Clocked layout spec cache key := by
  have hle := h.offset_le spec key
  have hlt : (cache.associate layout spec key).offset < cache.sets * layout.ways := by
    have := h.ways_pos
    omega
  exact Nat.lt_of_lt_of_le ((Nat.div_lt_iff_lt_mul h.ways_pos).mpr hlt) h.hands

theorem step (call : Call K V) :
    Meets (fun _ => False) (Ready layout spec)
      ((machine layout spec valueCountMax).step cache call) := by
  cases call with
  | upsert value =>
    refine (h.toSound.upsert (h.clocked _)).bind fun r ⟨_, hf⟩ => ?_
    exact h.alike hf.toAlike (hf.sound h.toSound)
  | get key    => exact (h.toSound.get key).bind fun _ ⟨hs, ha, _⟩ => h.alike ha hs
  | remove key => exact (h.toSound.remove key).bind fun _ ⟨hs, ha, _⟩ => h.alike ha hs
  | demote key => exact (h.toSound.demote key).weaken fun _ ⟨hs, ha, _⟩ => h.alike ha hs
  | reset =>
    have hr : cache.reset.Sound layout spec ∧ _ := h.toSized.reset
    exact h.alike hr.2.1 hr.1

theorem exact (call : Call K V) : Exact layout spec cache call := by
  cases call with
  | upsert value =>
    refine (h.toSound.upsert (h.clocked _)).weaken fun r ⟨_, hf⟩ => ?_
    have hs := hf.sound h.toSound
    have ⟨hv, hold, hother⟩ := hf.stored h.toSound
    simp only [reached_iff hs, reached_iff h.toSound]
    exact ⟨hv, hold, hother⟩
  | get key =>
    refine (h.toSound.get key).weaken fun r ⟨hs, _, hkept, hf⟩ => ?_
    simp only [reached_iff hs, reached_iff h.toSound]
    exact ⟨hf, hkept⟩
  | remove key =>
    refine (h.toSound.remove key).weaken fun r ⟨hs, _, hkept, hf⟩ => ?_
    simp only [reached_iff hs, reached_iff h.toSound]
    exact ⟨hf, hkept⟩
  | demote key =>
    refine (h.toSound.demote key).weaken fun r ⟨hs, _, hkept⟩ => ?_
    simp only [reached_iff hs, reached_iff h.toSound]
    exact hkept
  | reset =>
    have hs : cache.reset.Sound layout spec ∧ _ := h.toSized.reset
    intro value hr
    exact SetAssociativeCache.not_stored_of_empty hs.2.2 value ((reached_iff hs.1).mp hr)

end

end Ready

theorem fastrange_allOnes {sets : Nat} (hpos : 0 < sets) (hlt : sets < 2 ^ 64) :
    fastrange (BitVec.allOnes 64).toNat sets = sets - 1 := by
  unfold fastrange
  rw [BitVec.toNat_allOnes]
  omega

-- The cache represents its values and is exact with them, whatever the hashes are, if and only if
-- each set has its clock.
theorem exact_iff_clocksFit (keyFromValue : V → K)
    (h : Succeeds (SetAssociativeCache.new layout valueCountMax : Result (SetAssociativeCache V))) :
    (∀ hash cache,
      (machine layout ⟨keyFromValue, hash⟩ valueCountMax).Reachable (fun _ _ => True) cache →
        cache.Representation layout ⟨keyFromValue, hash⟩ ∧
          ∀ call, Exact layout ⟨keyFromValue, hash⟩ cache call) ↔
      layout.ClocksFit valueCountMax := by
  constructor
  case mp =>
    intro hexact
    by_contra hfit
    let spec : SetAssociativeCacheSpec K V := ⟨keyFromValue, fun _ => BitVec.allOnes 64⟩
    have ⟨cache, hnew, hs, hempty, hlt, hiff⟩ := Meets.iff_exists.mp
      ((new_meets spec).total h)
    have hcap := Nat.lt_of_not_le (mt hiff.mp hfit)
    have hclock : ¬SetAssociativeCache.Clocked layout spec cache (keyFromValue default) := by
      unfold SetAssociativeCache.Clocked
      show ¬fastrange (BitVec.allOnes 64).toNat cache.sets * layout.ways / layout.ways < _
      rw [Nat.mul_div_cancel _ hs.ways_pos, fastrange_allOnes hs.sets hlt]
      omega
    have hfails := hs.upsert_fails (by simp [hempty]) hclock
    have hupsert := (hexact spec.hash cache (.init hnew)).2 (.upsert default)
    unfold Exact at hupsert
    dsimp only at hupsert
    rw [show cache.upsert layout ⟨keyFromValue, spec.hash⟩ default = _ from hfails] at hupsert
    exact hupsert
  case mpr =>
    intro hfit hash cache hr
    have hready : Ready layout ⟨keyFromValue, hash⟩ cache := by
      refine hr.invariant (fun cache hnew => ?_) fun cache call _ h _ hstep => (h.step call).post hstep
      have ⟨hs, _, _, hiff⟩ := (new_meets ⟨keyFromValue, hash⟩).post hnew
      exact ⟨hs, hiff.mpr hfit⟩
    exact ⟨hready.toRepresentation, hready.exact⟩

namespace Runs

-- A layout of cache lines that hold the values of one slot.
def shortLines : Layout where
  ways := 2
  clockBits := 4
  cacheLineSize := 2
  keySize := 1
  valueSize := 2

-- Values with their keys in the lower half, which spread over all sets.
def halves : SetAssociativeCacheSpec (BitVec 8) (BitVec 16) where
  keyFromValue value := value.setWidth 8
  hash key := key.setWidth 64 <<< 56

-- The default layout, for these values.
def fullLines : Layout where
  keySize := 1
  valueSize := 2

theorem exact_of_fullLines : ∃ cache,
    (machine fullLines halves 512).Reachable (fun _ _ => True) cache ∧
      Reached fullLines halves cache 7 ∧ cache.Representation fullLines halves ∧
      ∀ call, Exact fullLines halves cache call := by
  have hnew : Succeeds
      (SetAssociativeCache.new fullLines 512 : Result (SetAssociativeCache (BitVec 16))) := by
    decide
  have ⟨cache, hcache, _⟩ := Meets.iff_exists.mp hnew
  have hexact {cache} (hr : (machine fullLines halves 512).Reachable (fun _ _ => True) cache) :=
    (exact_iff_clocksFit halves.keyFromValue (by decide)).mpr (by decide) halves.hash cache hr
  have hr : (machine fullLines halves 512).Reachable (fun _ _ => True) cache := .init hcache
  have ⟨⟨_, cache'⟩, hupsert, hreached, _⟩ := Meets.iff_exists.mp ((hexact hr).2 (.upsert 7))
  have hr' := hr.step (e := .upsert 7) trivial (by simp only [machine, hupsert]; rfl)
  exact ⟨cache', hr', hreached, hexact hr'⟩

-- Two sets of two ways: their clocks get no words.
theorem not_exact : ¬∀ (layout : Layout) (valueCountMax : Nat)
    (spec : SetAssociativeCacheSpec (BitVec 8) (BitVec 16))
    (cache : SetAssociativeCache (BitVec 16)),
      (machine layout spec valueCountMax).Reachable (fun _ _ => True) cache →
        cache.Representation layout spec ∧ ∀ call, Exact layout spec cache call := by
  intro h
  have hnew : Succeeds
      (SetAssociativeCache.new shortLines 4 : Result (SetAssociativeCache (BitVec 16))) := by
    decide
  have hupsert : Succeeds
      (SetAssociativeCache.new shortLines 4 >>= fun cache => cache.upsert shortLines halves 0) := by
    refine Meets.bind_iff.mpr ((Meets.returned hnew).weaken fun cache ⟨hcache, _⟩ => ?_)
    exact Meets.weaken (fun _ _ => trivial) ((h shortLines 4 halves cache (.init hcache)).2 (.upsert 0))
  exact absurd hupsert (by decide)

end Runs

end TigerBeetle.Packed
