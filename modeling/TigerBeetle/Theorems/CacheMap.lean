import TigerBeetle.CacheMap

namespace TigerBeetle

open Fallible Layout

namespace SetAssociativeCache

variable {K V : Type}

def Occupied (cache : SetAssociativeCache V) (index : Nat) : Prop :=
  0 < (cache.slots index).count

@[simp]
theorem occupied_setCount {cache : SetAssociativeCache V} {index count i : Nat} :
    (cache.setCount index count).Occupied i ↔
      if i = index then 0 < count else cache.Occupied i := by
  unfold Occupied setCount setSlot
  by_cases h : i = index <;> simp [h]

@[simp]
theorem tag_setCount {cache : SetAssociativeCache V} {index count i : Nat} :
    ((cache.setCount index count).slots i).tag = (cache.slots i).tag := by
  unfold setCount setSlot
  by_cases h : i = index <;> simp [h]

@[simp]
theorem value_setCount {cache : SetAssociativeCache V} {index count i : Nat} :
    ((cache.setCount index count).slots i).value = (cache.slots i).value := by
  unfold setCount setSlot
  by_cases h : i = index <;> simp [h]

-- The ways of `after` hold what those of `before` hold, where some may have become free.
structure Frees (before after : SetAssociativeCache V) : Prop where
  sets : after.sets = before.sets
  clocks : after.clocks = before.clocks
  tag : ∀ i, (after.slots i).tag = (before.slots i).tag
  value : ∀ i, (after.slots i).value = (before.slots i).value

theorem Frees.refl {cache : SetAssociativeCache V} : cache.Frees cache :=
  ⟨rfl, rfl, fun _ => rfl, fun _ => rfl⟩

theorem Frees.trans {before between after : SetAssociativeCache V} (h : before.Frees between)
    (h' : between.Frees after) : before.Frees after where
  sets := h'.sets.trans h.sets
  clocks := h'.clocks.trans h.clocks
  tag i := (h'.tag i).trans (h.tag i)
  value i := (h'.value i).trans (h.value i)

theorem Frees.setCount {cache : SetAssociativeCache V} {index count : Nat} :
    cache.Frees (cache.setCount index count) :=
  ⟨rfl, rfl, fun _ => tag_setCount, fun _ => value_setCount⟩

-- The clock hand stops at a way that it has freed or that was free.
theorem evict_meets {offset : Nat} {iterations way : Nat} {cache : SetAssociativeCache V}
    (hw : way < ways) :
    Meets (fun _ => True)
      (fun (r : Nat × Option V × SetAssociativeCache V) =>
        r.1 < ways ∧ cache.Frees r.2.2 ∧
        (∀ i, r.2.2.Occupied i ↔ cache.Occupied i ∧ i ≠ offset + r.1) ∧
        (cache.Occupied (offset + r.1) → r.2.1 = some (cache.slots (offset + r.1)).value) ∧
        (¬cache.Occupied (offset + r.1) → r.2.1 = none))
      (evict offset iterations way cache) := by
  induction iterations generalizing way cache with
  | zero => trivial
  | succ iterations ih =>
    unfold evict
    simp only [Meets.ite_iff, Meets.pure_eq]
    refine ⟨fun h => ?_, fun h => ⟨fun h' => ?_, fun h' => ?_⟩⟩
    case refine_1 =>
      have hf : ¬cache.Occupied (offset + way) := by simp [Occupied, h]
      refine ⟨hw, .refl, fun i => ⟨fun hi => ⟨hi, ?_⟩, And.left⟩, fun hi => absurd hi hf, fun _ => trivial⟩
      rintro rfl
      exact hf hi
    case refine_2 =>
      have ho : cache.Occupied (offset + way) := Nat.pos_of_ne_zero h
      refine ⟨hw, .setCount, fun i => ?_, fun _ => trivial, fun hi => absurd ho hi⟩
      by_cases hi : i = offset + way <;> simp [hi]
    case refine_3 =>
      have ho : cache.Occupied (offset + way) := Nat.pos_of_ne_zero h
      have hn : 0 < (cache.slots (offset + way)).count - 1 := Nat.pos_of_ne_zero h'
      have hi : ∀ i, (cache.setCount (offset + way)
          ((cache.slots (offset + way)).count - 1)).Occupied i ↔ cache.Occupied i := by
        intro i
        by_cases hi : i = offset + way <;> simp [hi, hn, ho]
      refine (ih (Nat.mod_lt _ (by decide))).weaken fun r ⟨h₁, h₂, h₃, h₄, h₅⟩ => ?_
      simp only [hi, value_setCount] at h₃ h₄ h₅
      exact ⟨h₁, Frees.setCount.trans h₂, h₃, h₄, h₅⟩

variable [CacheMapSpec K V] {cache : SetAssociativeCache V}

def keyAt (cache : SetAssociativeCache V) (index : Nat) : K :=
  keyFromValue (cache.slots index).value

-- Each key is in one way only, which is one of its set.
structure Coherent (cache : SetAssociativeCache V) : Prop where
  tagged : ∀ i, cache.Occupied i → (cache.slots i).tag = tagOf V (cache.keyAt i)
  placed : ∀ i, cache.Occupied i →
    cache.offsetOf (cache.keyAt i) ≤ i ∧ i < cache.offsetOf (cache.keyAt i) + ways
  unique : ∀ i j, cache.Occupied i → cache.Occupied j → cache.keyAt i = cache.keyAt j → i = j
  hands : ∀ clock, cache.clocks clock < ways

theorem coherent_new [Inhabited V] {valueCountMax : Nat} :
    (new valueCountMax : SetAssociativeCache V).Coherent where
  tagged := nofun
  placed := nofun
  unique := nofun
  hands _ := by simp [new, ways]

theorem Frees.keyAt {before after : SetAssociativeCache V} (h : before.Frees after) (i : Nat) :
    after.keyAt i = before.keyAt i := by
  simp only [SetAssociativeCache.keyAt, h.value]

theorem Frees.offsetOf {before after : SetAssociativeCache V} (h : before.Frees after) (key : K) :
    after.offsetOf key = before.offsetOf key := by
  simp only [SetAssociativeCache.offsetOf, h.sets]

theorem Coherent.frees {after : SetAssociativeCache V} (h : cache.Coherent) (hf : cache.Frees after)
    (ho : ∀ i, after.Occupied i → cache.Occupied i) : after.Coherent where
  tagged i hi := by
    rw [hf.tag, hf.keyAt]
    exact h.tagged i (ho i hi)
  placed i hi := by
    rw [hf.keyAt, hf.offsetOf]
    exact h.placed i (ho i hi)
  unique i j hi hj := by
    rw [hf.keyAt, hf.keyAt]
    exact h.unique i j (ho i hi) (ho j hj)
  hands := hf.clocks ▸ h.hands

variable [DecidableEq K] {key : K} {value : V}

-- What the cache holds, disregarding the counts.
def view (cache : SetAssociativeCache V) (key : K) : Option V :=
  (cache.search key).map fun index => (cache.slots index).value

theorem of_search_eq_some {i : Nat} (h : cache.search key = some i) :
    cache.Occupied i ∧ cache.keyAt i = key := by
  have h := List.find?_some h
  simp at h
  exact ⟨h.2.1, h.2.2⟩

-- What `upsert` has found and done.
def Upserts (cache : SetAssociativeCache V) (value : V) (result : Upserted V) : Prop :=
  match result.updated with
  | .update =>
    cache.view (keyFromValue value) = result.evicted ∧ result.evicted.isSome ∧
      result.cache.view = Function.update cache.view (keyFromValue value) (some value)
  | .insert =>
    cache.view (keyFromValue value) = none ∧
      match result.evicted with
      | none =>
        result.cache.view = Function.update cache.view (keyFromValue value) (some value)
      | some evicted =>
        cache.view (keyFromValue evicted) = some evicted ∧
          result.cache.view =
            Function.update (Function.update cache.view (keyFromValue evicted) none)
              (keyFromValue value) (some value)

namespace Coherent

section

variable (h : cache.Coherent)

include h

theorem search_eq_some {i : Nat} :
    cache.search key = some i ↔ cache.Occupied i ∧ cache.keyAt i = key := by
  constructor
  case mp => exact of_search_eq_some
  case mpr =>
    intro ⟨ho, hk⟩
    have hp := h.placed i ho
    have ht := h.tagged i ho
    rw [hk] at hp ht
    cases hs : cache.search key with
    | some j =>
      have ⟨hj, hk'⟩ := of_search_eq_some hs
      rw [h.unique i j ho hj (hk.trans hk'.symm)]
    | none =>
      have hn := List.find?_eq_none.mp hs i (by simp [hp])
      simp [ht] at hn
      exact absurd hk (hn ho)

theorem search_eq_none : cache.search key = none ↔ ∀ i, cache.Occupied i → cache.keyAt i ≠ key := by
  simp only [Option.eq_none_iff_forall_ne_some, ne_eq, h.search_eq_some, not_and]

theorem view_eq_some : cache.view key = some value ↔
      ∃ i, cache.Occupied i ∧ cache.keyAt i = key ∧ (cache.slots i).value = value := by
  simp only [view, Option.map_eq_some_iff, h.search_eq_some, and_assoc]

theorem keyFromValue_eq (hv : cache.view key = some value) : keyFromValue value = key := by
  have ⟨_, _, hk, hv⟩ := h.view_eq_some.mp hv
  exact hv ▸ hk

-- The views of two caches agree at a key if their occupied ways of that key do.
theorem view_congr {after : SetAssociativeCache V} (h' : after.Coherent)
    (hf : cache.Frees after)
    (ho : ∀ i, cache.keyAt i = key → (after.Occupied i ↔ cache.Occupied i)) :
    after.view key = cache.view key := by
  apply Option.ext
  intro value
  rw [h'.view_eq_some, h.view_eq_some]
  constructor
  case mp =>
    intro ⟨i, hi, hk, hv⟩
    rw [hf.keyAt] at hk
    exact ⟨i, (ho i hk).mp hi, hk, hf.value i ▸ hv⟩
  case mpr =>
    intro ⟨i, hi, hk, hv⟩
    exact ⟨i, (ho i hk).mpr hi, hf.keyAt i ▸ hk, hf.value i ▸ hv⟩

end

theorem view_eq_none {after : SetAssociativeCache V} (h' : after.Coherent)
    (ho : ∀ i, after.keyAt i = key → ¬after.Occupied i) : after.view key = none := by
  simp only [view, h'.search_eq_none.mpr fun i hi hk => ho i hk hi, Option.map_none]

theorem get (key : K) (h : cache.Coherent) :
    (cache.get key).1 = cache.view key ∧ (cache.get key).2.Coherent ∧
      ∀ k, (cache.get key).2.view k = cache.view k := by
  unfold SetAssociativeCache.get SetAssociativeCache.view
  cases hs : cache.search key with
  | none => exact ⟨rfl, h, fun _ => rfl⟩
  | some index =>
    have ⟨hi, _⟩ := of_search_eq_some hs
    have ho : ∀ i, (cache.setCount index (min ((cache.slots index).count + 1)
        (2 ^ clockBits - 1))).Occupied i ↔ cache.Occupied i := by
      intro i
      by_cases h : i = index
      · simp [h, hi, clockBits]
      · simp [h]
    have h' := h.frees .setCount fun i => (ho i).mp
    exact ⟨rfl, h', fun k => h.view_congr h' .setCount fun i _ => ho i⟩

theorem remove (key : K) (h : cache.Coherent) :
    (cache.remove key).1 = cache.view key ∧ (cache.remove key).2.Coherent ∧
      (cache.remove key).2.view = Function.update cache.view key none := by
  unfold SetAssociativeCache.remove
  cases hs : cache.search key with
  | none =>
    have hn : cache.view key = none := by simp [view, hs]
    refine ⟨hn.symm, h, ?_⟩
    rw [← hn, Function.update_eq_self]
  | some index =>
    have ⟨hi, hk⟩ := of_search_eq_some hs
    have hf : cache.Frees (cache.setCount index 0) := .setCount
    have h' := h.frees hf fun i hi => by
      simp at hi
      exact hi.2
    refine ⟨by simp [view, hs], h', ?_⟩
    funext k
    by_cases hk' : k = key
    · subst hk'
      rw [Function.update_self]
      refine h'.view_eq_none fun i hi' => ?_
      rw [Frees.setCount.keyAt] at hi'
      by_cases ho : cache.Occupied i
      · simp [h.unique i index ho hi (hi'.trans hk.symm)]
      · simp [ho]
    · rw [Function.update_of_ne hk']
      refine h.view_congr h' .setCount fun i hi' => ?_
      have hne : i ≠ index := fun he => hk' (by rw [← hi', he, hk])
      simp [hne]

theorem update (h : cache.Coherent) {index : Nat}
    (hs : cache.search (keyFromValue value) = some index) {after : SetAssociativeCache V}
    (ha : after = cache.setSlot index { cache.slots index with value, count := 1 }) :
    after.Coherent ∧
      after.view = Function.update cache.view (keyFromValue value) (some value) := by
  have ⟨hi, hk⟩ := of_search_eq_some hs
  have hself : after.slots index = { cache.slots index with value, count := 1 } := by
    simp [ha, setSlot]
  have hne : ∀ i, i ≠ index → after.slots i = cache.slots i := fun i hi => by
    simp [ha, setSlot, hi]
  have hkey : ∀ i, after.keyAt i = cache.keyAt i := by
    intro i
    by_cases h : i = index
    · subst h
      rw [hk]
      simp [keyAt, hself]
    · simp [keyAt, hne i h]
  have hoff : ∀ k, after.offsetOf k = cache.offsetOf k := fun k => by
    simp [ha, setSlot, SetAssociativeCache.offsetOf]
  have htag : ∀ i, (after.slots i).tag = (cache.slots i).tag := by
    intro i
    by_cases h : i = index
    · simp [h, hself]
    · rw [hne i h]
  have hocc : ∀ i, after.Occupied i ↔ cache.Occupied i := by
    intro i
    by_cases h : i = index
    · subst h
      simpa [Occupied, hself] using hi
    · simp [Occupied, hne i h]
  have h' : after.Coherent := {
    tagged := fun i hi => by
      rw [htag, hkey]
      exact h.tagged i ((hocc i).mp hi)
    placed := fun i hi => by
      rw [hkey, hoff]
      exact h.placed i ((hocc i).mp hi)
    unique := fun i j hi hj => by
      rw [hkey, hkey]
      exact h.unique i j ((hocc i).mp hi) ((hocc j).mp hj)
    hands := by
      rw [ha]
      exact h.hands
  }
  refine ⟨h', ?_⟩
  funext k
  by_cases hk' : k = keyFromValue value
  · subst hk'
    rw [Function.update_self, h'.view_eq_some]
    exact ⟨index, (hocc index).mpr hi, (hkey index).trans hk, by rw [hself]⟩
  · rw [Function.update_of_ne hk']
    apply Option.ext
    intro v
    rw [h'.view_eq_some, h.view_eq_some]
    simp only [hocc, hkey]
    refine exists_congr fun i => and_congr_right fun _ => and_congr_right fun hi' => ?_
    rw [hne i fun he => hk' (by rw [← hi', he, hk])]

theorem insert (h : cache.Coherent) (hs : cache.search (keyFromValue value) = none) (index : Nat)
    (hands : Nat → Nat) {after : SetAssociativeCache V} (hf : ¬cache.Occupied index)
    (hp : cache.offsetOf (keyFromValue value) ≤ index ∧
      index < cache.offsetOf (keyFromValue value) + ways)
    (hh : ∀ clock, hands clock < ways)
    (ha : after = { cache.setSlot index { tag := tagOf V (keyFromValue value), value, count := 1 }
      with clocks := hands }) :
    after.Coherent ∧
      after.view = Function.update cache.view (keyFromValue value) (some value) := by
  have hn := h.search_eq_none.mp hs
  have hself : after.slots index = { tag := tagOf V (keyFromValue value), value, count := 1 } := by
    simp [ha, setSlot]
  have hne : ∀ i, i ≠ index → after.slots i = cache.slots i := fun i hi => by
    simp [ha, setSlot, hi]
  have hoff : ∀ k, after.offsetOf k = cache.offsetOf k := fun k => by
    simp [ha, setSlot, SetAssociativeCache.offsetOf]
  have hkey : after.keyAt index = keyFromValue value := by simp [keyAt, hself]
  have hkey' : ∀ i, i ≠ index → after.keyAt i = cache.keyAt i := fun i hi => by
    simp [keyAt, hne i hi]
  have hocc : ∀ i, i ≠ index → (after.Occupied i ↔ cache.Occupied i) := fun i hi => by
    simp [Occupied, hne i hi]
  have h' : after.Coherent := {
    tagged := by
      intro i hi
      by_cases he : i = index
      · subst he
        rw [hkey, hself]
      · rw [hkey' i he, hne i he]
        exact h.tagged i ((hocc i he).mp hi)
    placed := by
      intro i hi
      rw [hoff]
      by_cases he : i = index
      · subst he
        rw [hkey]
        exact hp
      · rw [hkey' i he]
        exact h.placed i ((hocc i he).mp hi)
    unique := by
      intro i j hi hj hk
      by_cases he : i = index <;> by_cases he' : j = index
      · rw [he, he']
      · rw [he, hkey, hkey' j he'] at hk
        exact absurd hk.symm (hn j ((hocc j he').mp hj))
      · rw [he', hkey, hkey' i he] at hk
        exact absurd hk (hn i ((hocc i he).mp hi))
      · rw [hkey' i he, hkey' j he'] at hk
        exact h.unique i j ((hocc i he).mp hi) ((hocc j he').mp hj) hk
    hands := by
      rw [ha]
      exact hh
  }
  refine ⟨h', ?_⟩
  funext k
  by_cases hk' : k = keyFromValue value
  · subst hk'
    rw [Function.update_self, h'.view_eq_some]
    exact ⟨index, by simp [Occupied, hself], hkey, by rw [hself]⟩
  · rw [Function.update_of_ne hk']
    apply Option.ext
    intro v
    rw [h'.view_eq_some, h.view_eq_some]
    constructor
    case mp =>
      intro ⟨i, hi, hki, hv⟩
      have he : i ≠ index := fun he => hk' (by rw [← hki, he, hkey])
      exact ⟨i, (hocc i he).mp hi, hkey' i he ▸ hki, hne i he ▸ hv⟩
    case mpr =>
      intro ⟨i, hi, hki, hv⟩
      have he : i ≠ index := fun he => hf (he ▸ hi)
      exact ⟨i, (hocc i he).mpr hi, (hkey' i he).trans hki, (hne i he).symm ▸ hv⟩

-- To make room for a key is to forget the value that had its way.
theorem freed (h : cache.Coherent) {index : Nat} {after : SetAssociativeCache V}
    (hf : cache.Frees after) (ho : ∀ i, after.Occupied i ↔ cache.Occupied i ∧ i ≠ index) :
    after.Coherent ∧ (cache.Occupied index →
      after.view = Function.update cache.view (cache.keyAt index) none) ∧
      (¬cache.Occupied index → after.view = cache.view) := by
  have h' := h.frees hf fun i hi => ((ho i).mp hi).1
  refine ⟨h', fun hi => ?_, fun hi => ?_⟩
  · funext k
    by_cases hk : k = cache.keyAt index
    · subst hk
      rw [Function.update_self]
      refine h'.view_eq_none fun i hki ho' => ?_
      have ⟨hoi, hne⟩ := (ho i).mp ho'
      exact hne (h.unique i index hoi hi (hf.keyAt i ▸ hki))
    · rw [Function.update_of_ne hk]
      refine h.view_congr h' hf fun i hki => ?_
      have hne : i ≠ index := fun he => hk (by rw [← hki, he])
      simp [ho, hne]
  · funext k
    refine h.view_congr h' hf fun i _ => ?_
    have hne : cache.Occupied i → i ≠ index := fun hoi he => hi (he ▸ hoi)
    simpa [ho] using hne

theorem upsert (h : cache.Coherent) :
    Meets (fun _ => True) (fun result => result.cache.Coherent ∧ cache.Upserts value result)
      (cache.upsert value) := by
  unfold SetAssociativeCache.upsert
  dsimp only
  cases hs : cache.search (keyFromValue value) with
  | some index =>
    obtain ⟨h', hv⟩ := h.update hs rfl
    exact ⟨h', by simp [view, hs], rfl, hv⟩
  | none =>
    simp only [Meets.bind_eq, Meets.pure_eq, partial_assert]
    refine (evict_meets (h.hands _)).weaken fun r hr _ => ?_
    obtain ⟨way, evicted, after⟩ := r
    obtain ⟨hw, hf, ho, he, he'⟩ := hr
    dsimp only at hw hf ho he he'
    obtain ⟨h', hv, hv'⟩ := h.freed hf ho
    have hs' : after.search (keyFromValue value) = none :=
      h'.search_eq_none.mpr fun i hi => by
        rw [hf.keyAt]
        exact h.search_eq_none.mp hs i ((ho i).mp hi).1
    obtain ⟨h'', hv''⟩ := h'.insert hs' (cache.offsetOf (keyFromValue value) + way)
      (Function.update after.clocks (cache.offsetOf (keyFromValue value) / ways) ((way + 1) % ways))
      (fun hi => ((ho _).mp hi).2 rfl)
      (by rw [hf.offsetOf]; omega)
      (fun clock => by
        by_cases hc : clock = cache.offsetOf (keyFromValue value) / ways
        · rw [hc, Function.update_self]
          exact Nat.mod_lt _ (by decide)
        · rw [Function.update_of_ne hc]
          exact h'.hands clock) rfl
    refine ⟨h'', by simp [view, hs], ?_⟩
    by_cases hi : cache.Occupied (cache.offsetOf (keyFromValue value) + way)
    · rw [he hi]
      exact ⟨h.view_eq_some.mpr ⟨_, hi, rfl, rfl⟩, hv''.trans (by rw [hv hi]; rfl)⟩
    · rw [he' hi]
      exact hv''.trans (by rw [hv' hi])

end Coherent

theorem view_new [Inhabited V] {valueCountMax : Nat} {key : K} :
    (new valueCountMax : SetAssociativeCache V).view key = none :=
  coherent_new.view_eq_none fun _ _ => nofun

end SetAssociativeCache

namespace CacheMap

variable {K V : Type} [DecidableEq K] [CacheMapSpec K V] {map : CacheMap K V} {key : K} {value : V}

def cached (map : CacheMap K V) (key : K) : Option V :=
  map.cache.bind (·.view key)

-- What `get` returns for a key.
def view (map : CacheMap K V) (key : K) : Option V :=
  map.cached key <|> map.stashGet key

-- A key is either in the cache or in the stash, and no value is a tombstone.
structure Sound (map : CacheMap K V) : Prop where
  coherent : ∀ cache ∈ map.cache, cache.Coherent
  cached : ∀ key value, map.cached key = some value → !CacheMapSpec.tombstone value
  stashed : ∀ key value, map.stash.lookup key = some value →
    keyFromValue value = key ∧ !CacheMapSpec.tombstone value
  apart : ∀ key, (map.cached key).isSome → map.stash.lookup key = none

-- What undoes an upsert.
def Undoes (action : RollbackLogAction K V) (view : K → Option V) : K → Option V :=
  match action with
  | .restore value       => Function.update view (keyFromValue value) (some value)
  | .restoreTombstone _  => view
  | .remove key          => Function.update view key none

def rewind (log : List (RollbackLogAction K V)) (view : K → Option V) : K → Option V :=
  log.foldr Undoes view

theorem rewind_append {log : List (RollbackLogAction K V)} {action : RollbackLogAction K V}
    {view : K → Option V} : rewind (log ++ [action]) view = rewind log (Undoes action view) := by
  simp [rewind]

-- Two maps that differ in their reference counts only.
structure Alike (map map' : CacheMap K V) : Prop where
  view : map'.view = map.view
  active : map'.scopeIsActive = map.scopeIsActive
  log : map'.scopeRollbackLog = map.scopeRollbackLog
  options : map'.options = map.options

-- What a successful upsert does, up to the scope's log.
structure Fetches (map : CacheMap K V) (value : V) (old : Option V) (map' : CacheMap K V) :
    Prop where
  old : old = map.view (keyFromValue value)
  sound : map'.Sound
  view : map'.view = Function.update map.view (keyFromValue value) (some value)
  active : map'.scopeIsActive = map.scopeIsActive
  log : map'.scopeRollbackLog = map.scopeRollbackLog
  options : map'.options = map.options

variable {map' : CacheMap K V}

namespace Sound

section

variable (h : map.Sound)

include h

theorem stashGet_eq (key : K) : map.stashGet key = map.stash.lookup key := by
  unfold stashGet
  cases hs : map.stash.lookup key with
  | none       => rfl
  | some value => simpa using (h.stashed key value hs).2

theorem view_eq (key : K) : map.view key = (map.cached key <|> map.stash.lookup key) := by
  rw [view, h.stashGet_eq]

theorem keyFromValue_eq (hv : map.view key = some value) : keyFromValue value = key := by
  rw [h.view_eq] at hv
  cases hc : map.cached key with
  | none =>
    rw [hc] at hv
    exact (h.stashed key value hv).1
  | some found =>
    rw [hc] at hv
    cases hv
    obtain ⟨cache, hm, hv⟩ := Option.bind_eq_some_iff.mp hc
    exact (h.coherent cache hm).keyFromValue_eq hv

theorem tombstone_eq (hv : map.view key = some value) : CacheMapSpec.tombstone value = false := by
  rw [h.view_eq] at hv
  cases hc : map.cached key with
  | none =>
    rw [hc] at hv
    simpa using (h.stashed key value hv).2
  | some found =>
    rw [hc] at hv
    cases hv
    simpa using h.cached key value hc

theorem of_cached (hc : ∀ cache ∈ map'.cache, cache.Coherent) (hv : map'.cached = map.cached)
    (hs : map'.stash = map.stash) : map'.Sound where
  coherent := hc
  cached := hv ▸ h.cached
  stashed := hs ▸ h.stashed
  apart := hv ▸ hs ▸ h.apart

theorem get : (map.get key).1 = map.view key ∧ (map.get key).2.Sound ∧ map.Alike (map.get key).2 := by
  unfold CacheMap.get
  cases hm : map.cache with
  | none =>
    refine ⟨?_, h, rfl, rfl, rfl, rfl⟩
    simp [CacheMap.view, CacheMap.cached, hm]
  | some cache =>
    have ⟨h₁, h₂, h₃⟩ := (h.coherent cache hm).get key
    have hv : ({ map with cache := some (cache.get key).2 } : CacheMap K V).cached = map.cached := by
      funext k
      simp [CacheMap.cached, hm, h₃]
    refine ⟨?_, h.of_cached ?_ hv rfl, ?_, rfl, rfl, rfl⟩
    · simp [CacheMap.view, CacheMap.cached, hm, h₁]
    · intro _ hc
      cases hc
      exact h₂
    · funext k
      simp only [CacheMap.view, hv]
      rfl

theorem stash_insert {evicted : V} {stash : HashMap K V}
    (ht : !CacheMapSpec.tombstone evicted)
    (hs : stash = map.stash.insert (keyFromValue evicted) evicted) :
    ∀ key value, stash.lookup key = some value →
      keyFromValue value = key ∧ !CacheMapSpec.tombstone value := by
  intro key value hl
  subst hs
  by_cases hk : key = keyFromValue evicted
  · subst hk
    rw [AList.lookup_insert] at hl
    cases hl
    exact ⟨rfl, ht⟩
  · rw [AList.lookup_insert_ne hk] at hl
    exact h.stashed key value hl

end

-- The stash gives up its value of a key that is now in the cache.
theorem stash_erase {stash : HashMap K V} {key : K}
    (h : ∀ k value, stash.lookup k = some value →
      keyFromValue value = k ∧ !CacheMapSpec.tombstone value) :
    ∀ k value, (stash.erase key).lookup k = some value →
      keyFromValue value = k ∧ !CacheMapSpec.tombstone value := by
  intro k value hl
  by_cases hk : k = key
  · rw [hk, AList.lookup_erase] at hl
    cases hl
  · rw [AList.lookup_erase_ne hk] at hl
    exact h k value hl

theorem stashUpsert (h : map.Sound) (hc : map.cache = none) (ht : !CacheMapSpec.tombstone value) :
    Meets (fun _ => True) (fun (r : Option V × CacheMap K V) => map.Fetches value r.1 r.2)
      (map.stashUpsert value) := by
  unfold CacheMap.stashUpsert
  simp only [Meets.bind_eq, Meets.pure_eq, partial_assert]
  intro _
  have hcached : ∀ key, map.cached key = none := fun key => by simp [CacheMap.cached, hc]
  have hs : ({ map with stash := map.stash.insert (keyFromValue value) value } :
      CacheMap K V).Sound := {
    coherent := by simp [hc]
    cached := h.cached
    stashed := h.stash_insert ht rfl
    apart := fun key hk => by simp [CacheMap.cached, hc] at hk
  }
  refine ⟨by simp [h.view_eq, hcached], hs, ?_, rfl, rfl, rfl⟩
  funext k
  rw [hs.view_eq]
  by_cases hk : k = keyFromValue value
  · subst hk
    simp [CacheMap.cached, hc]
  · rw [Function.update_of_ne hk, h.view_eq]
    simp [CacheMap.cached, hc, AList.lookup_insert_ne hk]

-- The value has gone to the cache, from which nothing else had to go to the stash.
theorem settled {cache : SetAssociativeCache V} {stash : HashMap K V}
    (h : map.Sound) (hm : map.cache = some cache)
    (ht : !CacheMapSpec.tombstone value) {after : SetAssociativeCache V} (ha : after.Coherent)
    (hs : ∀ k v, stash.lookup k = some v → keyFromValue v = k ∧ !CacheMapSpec.tombstone v)
    (hn : stash.lookup (keyFromValue value) = none)
    (hv : ∀ k, k ≠ keyFromValue value →
      (after.view k = none ∨ after.view k = cache.view k ∧
        ((cache.view k).isSome → stash.lookup k = none)) ∧
      (after.view k <|> stash.lookup k) = (cache.view k <|> map.stash.lookup k))
    (hv' : after.view (keyFromValue value) = some value)
    (hm' : map' = { map with cache := some after, stash }) :
    map'.Sound ∧ map'.view = Function.update map.view (keyFromValue value) (some value) := by
  have hc : ∀ k, map'.cached k = after.view k := fun k => by simp [CacheMap.cached, hm']
  have hc' : ∀ k, map.cached k = cache.view k := fun k => by simp [CacheMap.cached, hm]
  have hst : map'.stash = stash := by simp [hm']
  have h' : map'.Sound := {
    coherent := by
      simpa [hm'] using ha
    cached := by
      intro k v hk
      rw [hc] at hk
      by_cases he : k = keyFromValue value
      · rw [he, hv'] at hk
        cases hk
        exact ht
      · cases (hv k he).1
        case inl hn' => simp [hn'] at hk
        case inr hk' => exact h.cached k v ((hc' k).trans (hk'.1.symm.trans hk))
    stashed := hst ▸ hs
    apart := by
      intro k hk
      rw [hc] at hk
      rw [hst]
      by_cases he : k = keyFromValue value
      · rw [he, hn]
      · cases (hv k he).1
        case inl hn' => simp [hn'] at hk
        case inr hk' => exact hk'.2 (hk'.1 ▸ hk)
  }
  refine ⟨h', ?_⟩
  funext k
  rw [h'.view_eq, hc, hst]
  by_cases he : k = keyFromValue value
  · rw [he, hv', Function.update_self]
    rfl
  · rw [Function.update_of_ne he, h.view_eq, hc', (hv k he).2]

theorem fetchUpsert (h : map.Sound) (ht : !CacheMapSpec.tombstone value) :
    Meets (fun _ => True) (fun (r : Option V × CacheMap K V) => map.Fetches value r.1 r.2)
      (map.fetchUpsert value) := by
  unfold CacheMap.fetchUpsert
  cases hm : map.cache with
  | none => exact h.stashUpsert hm ht
  | some cache =>
    have hc : ∀ k, map.cached k = cache.view k := fun k => by simp [CacheMap.cached, hm]
    simp only [Meets.bind_eq]
    refine (h.coherent cache hm).upsert.weaken fun result hresult => ?_
    obtain ⟨updated, evicted, after⟩ := result
    obtain ⟨ha, hu⟩ := hresult
    dsimp only at ha hu ⊢
    cases updated with
    | update =>
      obtain ⟨hu₁, hu₂, hu₃⟩ := hu
      dsimp only at hu₁ hu₂ hu₃
      cases evicted with
      | none => cases hu₂
      | some old =>
        simp only [Meets.bind_eq, Meets.pure_eq, partial_assert]
        intro _ _
        have hn := h.apart (keyFromValue value) (by simp [hc, hu₁])
        obtain ⟨h₁, h₂⟩ := h.settled hm ht ha
          h.stashed hn (fun k hk => by
            have he : after.view k = cache.view k := by rw [hu₃, Function.update_of_ne hk]
            exact ⟨.inr ⟨he, fun hk => h.apart k (hc k ▸ hk)⟩, by rw [he]⟩)
          (by rw [hu₃, Function.update_self]) rfl
        refine ⟨?_, h₁, h₂, rfl, rfl, rfl⟩
        rw [h.view_eq, hc, hu₁]
        rfl
    | insert =>
      obtain ⟨hu₁, hu₂⟩ := hu
      have hold : map.view (keyFromValue value) = map.stash.lookup (keyFromValue value) := by
        rw [h.view_eq, hc, hu₁]
        rfl
      cases evicted with
      | none =>
        dsimp only at hu₂ ⊢
        simp only [Meets.bind_eq, Meets.pure_eq, partial_assert, CacheMap.stashRemove, forall_const]
        intro _
        obtain ⟨h₁, h₂⟩ := h.settled hm ht ha
          (Sound.stash_erase h.stashed) (AList.lookup_erase ..) (fun k hk => by
            have he : after.view k = cache.view k := by rw [hu₂, Function.update_of_ne hk]
            rw [AList.lookup_erase_ne hk]
            exact ⟨.inr ⟨he, fun hk => h.apart k (hc k ▸ hk)⟩, by rw [he]⟩)
          (by rw [hu₂, Function.update_self]) rfl
        exact ⟨hold.symm, h₁, h₂, rfl, rfl, rfl⟩
      | some old =>
        obtain ⟨hu₃, hu₄⟩ := hu₂
        dsimp only at hu₄ ⊢
        simp only [Meets.bind_eq, Meets.pure_eq, partial_assert,
          CacheMap.stashRemove, CacheMap.stashUpsert]
        intro hne _ _ _
        have hto := h.cached (keyFromValue old) old ((hc _).trans hu₃)
        obtain ⟨h₁, h₂⟩ := h.settled hm ht ha
          (Sound.stash_erase (h.stash_insert hto rfl)) (AList.lookup_erase ..) (fun k hk => by
            rw [AList.lookup_erase_ne hk]
            by_cases ho : k = keyFromValue old
            · have he : after.view k = none := by
                rw [hu₄, Function.update_of_ne hk, ho, Function.update_self]
              refine ⟨.inl he, ?_⟩
              rw [he, ho, AList.lookup_insert, hu₃]
              rfl
            · have he : after.view k = cache.view k := by
                rw [hu₄, Function.update_of_ne hk, Function.update_of_ne ho]
              rw [AList.lookup_insert_ne ho]
              exact ⟨.inr ⟨he, fun hk => h.apart k (hc k ▸ hk)⟩, by rw [he]⟩)
          (by rw [hu₄, Function.update_self]) rfl
        refine ⟨?_, h₁, h₂, rfl, rfl, rfl⟩
        rw [AList.lookup_insert_ne (Ne.symm hne), hold]

theorem upsert_idle (h : map.Sound) (hi : map.scopeIsActive = false)
    (ht : !CacheMapSpec.tombstone value) :
    Meets (fun _ => True)
      (fun (map' : CacheMap K V) => map'.Sound ∧
        map'.view = Function.update map.view (keyFromValue value) (some value) ∧
        map'.scopeIsActive = false ∧ map'.scopeRollbackLog = map.scopeRollbackLog)
      (map.upsert value) := by
  unfold CacheMap.upsert
  simp only [Meets.bind_eq]
  refine (h.fetchUpsert ht).weaken fun r hf => ?_
  simp [hf.active, hi, hf.sound, hf.view, hf.log]

theorem undoes_upsert (value : V) (h : map.Sound) :
    Undoes (match map.view (keyFromValue value) with
        | none     => .remove (keyFromValue value)
        | some old => .restore old)
      (Function.update map.view (keyFromValue value) (some value)) = map.view := by
  cases hv : map.view (keyFromValue value) with
  | none =>
    rw [Undoes, Function.update_idem, ← hv, Function.update_eq_self]
  | some old =>
    rw [Undoes, h.keyFromValue_eq hv, Function.update_idem, ← hv, Function.update_eq_self]

theorem replay (h : map.Sound) (hi : map.scopeIsActive = false)
    {action : RollbackLogAction K V} :
    Meets (fun _ => True)
      (fun (map' : CacheMap K V) => map'.Sound ∧ map'.view = Undoes action map.view ∧
        map'.scopeIsActive = false)
      (map.replay action) := by
  unfold CacheMap.replay
  cases action with
  | restoreTombstone key => trivial
  | restore old =>
    simp only [Meets.bind_eq, partial_assert]
    intro ht
    exact (h.upsert_idle hi ht).weaken fun _ h' => ⟨h'.1, h'.2.1, h'.2.2.1⟩
  | remove key =>
    -- Both the cache and the stash forget the key, whichever of them had it.
    have key_lemma : ∀ (map' : CacheMap K V), (∀ cache ∈ map'.cache, cache.Coherent) →
        map'.cached = Function.update map.cached key none → map'.stash = map.stash.erase key →
        map'.scopeIsActive = false →
        map'.Sound ∧ map'.view = Undoes (.remove key) map.view ∧ map'.scopeIsActive = false := by
      intro map' hm hc hs ha
      have h' : map'.Sound := {
        coherent := hm
        cached := by
          intro k v hk
          by_cases he : k = key
          · simp [hc, he] at hk
          · rw [hc, Function.update_of_ne he] at hk
            exact h.cached k v hk
        stashed := hs ▸ Sound.stash_erase h.stashed
        apart := by
          intro k hk
          by_cases he : k = key
          · simp [hc, he] at hk
          · rw [hc, Function.update_of_ne he] at hk
            rw [hs, AList.lookup_erase_ne he]
            exact h.apart k hk
      }
      refine ⟨h', ?_, ha⟩
      funext k
      rw [h'.view_eq, hc, hs, Undoes]
      by_cases he : k = key
      · rw [he, Function.update_self, Function.update_self, AList.lookup_erase]
        rfl
      · rw [Function.update_of_ne he, Function.update_of_ne he, AList.lookup_erase_ne he, h.view_eq]
    cases hm : map.cache with
    | none =>
      simp only [CacheMap.stashRemove, Meets.bind_eq, Meets.pure_eq, partial_assert]
      intro _
      have hk := key_lemma { map with stash := map.stash.erase key } (by simp [hm])
        (by
          have hc : map.cached = fun _ => none := by funext k; simp [CacheMap.cached, hm]
          rw [hc, Function.update_eq_self key fun _ => none]
          exact hc) rfl hi
      simp only [hm] at hk
      cases map.stash.lookup key with
      | none   => simp
      | some _ => simpa using hk
    | some cache =>
      obtain ⟨_, hr₂, hr₃⟩ := (h.coherent cache hm).remove key
      simp only [CacheMap.stashRemove, Meets.bind_eq, Meets.pure_eq, partial_assert]
      intro _
      have hk := key_lemma
        { map with cache := some (cache.remove key).2, stash := map.stash.erase key }
        (by simpa using hr₂)
        (by funext k; by_cases he : k = key <;> simp [CacheMap.cached, hm, hr₃, he]) rfl hi
      cases map.stash.lookup key <;> simpa using fun _ => hk

theorem replayAll (h : map.Sound) (hi : map.scopeIsActive = false)
    {actions : List (RollbackLogAction K V)} :
    Meets (fun _ => True)
      (fun (map' : CacheMap K V) => map'.Sound ∧ map'.view = rewind actions.reverse map.view ∧
        map'.scopeIsActive = false)
      (replayAll actions map) := by
  induction actions generalizing map with
  | nil => exact ⟨h, rfl, hi⟩
  | cons action actions ih =>
    unfold CacheMap.replayAll
    simp only [Meets.bind_eq]
    refine (h.replay hi).weaken fun map₁ ⟨h₁, h₂, h₃⟩ => ?_
    refine (ih h₁ h₃).weaken fun map₂ ⟨h₄, h₅, h₆⟩ => ⟨h₄, ?_, h₆⟩
    rw [h₅, h₂, List.reverse_cons, rewind_append]

end Sound

omit [DecidableEq K] [CacheMapSpec K V] in
theorem append_meets {action : RollbackLogAction K V} :
    Meets (fun _ => True)
      (fun (map' : CacheMap K V) =>
        map' = { map with scopeRollbackLog := map.scopeRollbackLog ++ [action] })
      (map.append action) := by
  unfold CacheMap.append
  simp only [Meets.bind_eq, Meets.pure_eq, partial_assert, implies_true]

-- A map in an open scope, in which `opened` was the view when it was opened.
structure Scoped (map : CacheMap K V) (opened : K → Option V) : Prop where
  sound : map.Sound
  active : map.scopeIsActive = true
  rewinds : rewind map.scopeRollbackLog map.view = opened

-- A map out of a scope.
structure Idle (map : CacheMap K V) : Prop where
  sound : map.Sound
  inactive : map.scopeIsActive = false

theorem Idle.scopeOpen (h : map.Idle) :
    Meets (fun _ => True) (fun (map' : CacheMap K V) => map'.Scoped map.view ∧ map'.view = map.view)
      map.scopeOpen := by
  unfold CacheMap.scopeOpen
  simp only [Meets.bind_eq, Meets.pure_eq, partial_assert]
  intro _ hl
  refine ⟨⟨h.sound.of_cached h.sound.coherent rfl rfl, rfl, ?_⟩, rfl⟩
  rw [List.length_eq_zero_iff.mp hl]
  rfl

theorem Idle.upsert (h : map.Idle) (ht : !CacheMapSpec.tombstone value) :
    Meets (fun _ => True)
      (fun (map' : CacheMap K V) => map'.Idle ∧
        map'.view = Function.update map.view (keyFromValue value) (some value))
      (map.upsert value) :=
  (h.sound.upsert_idle h.inactive ht).weaken fun _ ⟨h₁, h₂, h₃, _⟩ => ⟨⟨h₁, h₃⟩, h₂⟩

theorem Idle.get (h : map.Idle) : (map.get key).2.Idle where
  sound := h.sound.get.2.1
  inactive := h.sound.get.2.2.active.trans h.inactive

namespace Scoped

variable {opened : K → Option V}

theorem get (h : map.Scoped opened) : (map.get key).2.Scoped opened where
  sound := h.sound.get.2.1
  active := h.sound.get.2.2.active.trans h.active
  rewinds := by
    rw [h.sound.get.2.2.log, h.sound.get.2.2.view]
    exact h.rewinds

theorem upsert (h : map.Scoped opened) (ht : !CacheMapSpec.tombstone value) :
    Meets (fun _ => True)
      (fun (map' : CacheMap K V) => map'.Scoped opened ∧
        map'.view = Function.update map.view (keyFromValue value) (some value))
      (map.upsert value) := by
  unfold CacheMap.upsert
  simp only [Meets.bind_eq]
  refine (h.sound.fetchUpsert ht).weaken fun ⟨old, map'⟩ hf => ?_
  have ⟨hf₁, hf₂, hf₃, hf₄, hf₅, _⟩ := hf
  dsimp only at hf₁ hf₂ hf₃ hf₄ hf₅ ⊢
  have hu := h.sound.undoes_upsert value
  rw [← hf₁, ← hf₃] at hu
  have logged : ∀ action, Undoes action map'.view = map.view →
      Meets (fun _ => True)
        (fun (map' : CacheMap K V) => map'.Scoped opened ∧
          map'.view = Function.update map.view (keyFromValue value) (some value))
        (map'.append action) := by
    intro action hu
    refine append_meets.weaken fun map'' hm => ?_
    subst hm
    refine ⟨⟨hf₂.of_cached hf₂.coherent rfl rfl, hf₄.trans h.active, ?_⟩, hf₃⟩
    show rewind (map'.scopeRollbackLog ++ [action]) map'.view = opened
    rw [rewind_append, hf₅, hu]
    exact h.rewinds
  rw [hf₄, h.active]
  cases old with
  | none => exact logged _ hu
  | some old =>
    have ht : CacheMapSpec.tombstone old = false := h.sound.tombstone_eq hf₁.symm
    simpa [ht] using logged _ hu

-- What a discarded scope leaves behind is what it found.
theorem discard (h : map.Scoped opened) :
    Meets (fun _ => True) (fun (map' : CacheMap K V) => map'.Idle ∧ map'.view = opened)
      (map.scopeClose .discard) := by
  unfold CacheMap.scopeClose
  simp only [Meets.bind_eq, Meets.pure_eq, partial_assert]
  intro _
  have h' : ({ map with scopeIsActive := false, scopeRollbackLog := [] } : CacheMap K V).Sound :=
    h.sound.of_cached h.sound.coherent rfl rfl
  refine (h'.replayAll rfl).weaken fun map' hmap => ?_
  obtain ⟨h₁, h₂, h₃⟩ := hmap
  refine ⟨⟨h₁.of_cached h₁.coherent rfl rfl, h₃⟩, ?_⟩
  rw [List.reverse_reverse] at h₂
  exact h₂.trans h.rewinds

theorem persist (h : map.Scoped opened) :
    Meets (fun _ => True) (fun (map' : CacheMap K V) => map'.Idle ∧ map'.view = map.view)
      (map.scopeClose .persist) := by
  unfold CacheMap.scopeClose
  simp only [Meets.bind_eq, Meets.pure_eq, partial_assert]
  intro _
  exact ⟨⟨h.sound.of_cached h.sound.coherent rfl rfl, rfl⟩, rfl⟩

end Scoped

-- What holds of a map in a scope as well as of one that is not in a scope.
structure Usable (P : CacheMap K V → Prop) : Prop where
  sound : ∀ map, P map → map.Sound
  get : ∀ map key, P map → P (map.get key).2
  upsert : ∀ map value, P map → !CacheMapSpec.tombstone value →
    Meets (fun _ => True)
      (fun (map' : CacheMap K V) => P map' ∧
        map'.view = Function.update map.view (keyFromValue value) (some value))
      (map.upsert value)

theorem usable_idle : Usable (Idle : CacheMap K V → Prop) :=
  ⟨fun _ h => h.sound, fun _ _ h => h.get, fun _ _ h => h.upsert⟩

theorem usable_scoped {opened : K → Option V} :
    Usable fun map : CacheMap K V => map.Scoped opened :=
  ⟨fun _ h => h.sound, fun _ _ h => h.get, fun _ _ h => h.upsert⟩

namespace Usable

variable {P : CacheMap K V → Prop} (hu : Usable P)

include hu

theorem get_fst (key : K) (h : P map) : (map.get key).1 = map.view key :=
  (hu.sound map h).get.1

theorem view_get (key : K) (h : P map) : (map.get key).2.view = map.view :=
  (hu.sound map h).get.2.2.view

end Usable

theorem Idle.get_eq (h : map.Idle) (h' : map'.Idle)
    (hv : map'.view = map.view) : (map'.get key).1 = (map.get key).1 := by
  rw [usable_idle.get_fst key h, usable_idle.get_fst key h', hv]

variable {options : CacheMapOptions}

theorem cached_new [Inhabited V] : (new options : CacheMap K V).cached key = none := by
  unfold CacheMap.cached new
  dsimp only
  split
  · exact SetAssociativeCache.view_new
  · rfl

theorem view_new [Inhabited V] : (new options : CacheMap K V).view key = none := by
  unfold CacheMap.view
  rw [cached_new]
  rfl

theorem idle_new [Inhabited V] :
    (new options : CacheMap K V).Idle where
  sound := {
    coherent := by
      intro cache hc
      unfold new at hc
      dsimp only at hc
      split at hc
      · cases hc
        exact SetAssociativeCache.coherent_new
      · cases hc
    cached := by simp [cached_new]
    stashed := by simp [new]
    apart := by simp [cached_new]
  }
  inactive := rfl

end CacheMap

end TigerBeetle
