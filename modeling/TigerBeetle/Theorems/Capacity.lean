import TigerBeetle.Theorems.CacheMap

namespace TigerBeetle

open Fallible

-- The assertions on the capacity of a cache map.
def Fault.Overflows (fault : Fault) : Prop :=
  fault = .panic .general "scope rollback log overflow" ∨
    fault = .panic .general "self.stash.len() <= self.options.stash_value_count_max"

-- Failures that are not for lack of capacity.
def Fault.Contained (fault : Fault) : Prop :=
  ¬fault.Overflows

@[simp]
theorem Fault.contained_panic {concern : Concern} {message : String} :
    (Fault.panic concern message).Contained ↔ concern = .general →
      message ≠ "scope rollback log overflow" ∧
        message ≠ "self.stash.len() <= self.options.stash_value_count_max" := by
  simp only [Contained, Overflows, Fault.panic.injEq]
  tauto

namespace SetAssociativeCache

variable {K V : Type} [DecidableEq K] [CacheMapSpec K V] {cache : SetAssociativeCache V}

omit [DecidableEq K] [CacheMapSpec K V] in
theorem evict_contained {offset iterations way : Nat} :
    Meets Fault.Contained (fun _ => True) (evict offset iterations way cache) := by
  induction iterations generalizing way cache with
  | zero => simp [evict]
  | succ iterations ih =>
    unfold evict
    dsimp only
    split
    · trivial
    split
    · trivial
    · exact ih

theorem upsert_contained {value : V} : Meets Fault.Contained (fun _ => True) (cache.upsert value) := by
  unfold upsert
  dsimp only
  split
  · trivial
  · rw [Meets.bind_iff]
    refine evict_contained.weaken fun _ _ => ?_
    simp

end SetAssociativeCache

namespace CacheMap

variable {K V : Type} [DecidableEq K] [CacheMapSpec K V] {map : CacheMap K V} {key : K} {value : V}
    {values actions : Nat} {opened : K → Option V}

variable {stash : HashMap K V}

omit [CacheMapSpec K V] in
theorem length_erase : (stash.erase key).entries.length =
      stash.entries.length - if (stash.lookup key).isSome then 1 else 0 := by
  have hkeys := congrArg List.length (List.keys_kerase (a := key) (l := stash.entries))
  rw [List.length_erase] at hkeys
  simp only [List.keys, List.length_map] at hkeys
  show (stash.entries.kerase key).length = _
  have hmem : key ∈ stash.entries.map Sigma.fst ↔ (stash.lookup key).isSome = true :=
    AList.lookup_isSome.symm
  by_cases hm : (stash.lookup key).isSome = true
  · rw [hkeys, if_pos (hmem.mpr hm), if_pos hm]
  · rw [hkeys, if_neg (mt hmem.mp hm), if_neg hm, Nat.sub_zero]

omit [CacheMapSpec K V] in
theorem length_pos (h : (stash.lookup key).isSome = true) : 0 < stash.entries.length := by
  have := List.length_pos_of_mem (AList.mem_keys.mp (AList.lookup_isSome.mp h))
  simpa [AList.keys, List.keys] using this

omit [CacheMapSpec K V] in
theorem length_insert : (stash.insert key value).entries.length =
      stash.entries.length + if (stash.lookup key).isSome then 0 else 1 := by
  have h := @length_erase _ _ _ key stash
  have hpos := @length_pos _ _ _ key stash
  have hinsert : (stash.insert key value).entries.length = (stash.erase key).entries.length + 1 := by
    rw [AList.entries_insert, List.length_cons]
    rfl
  by_cases hm : (stash.lookup key).isSome = true
  · rw [if_pos hm] at h ⊢
    have := hpos hm
    omega
  · rw [if_neg hm] at h ⊢
    omega

-- The stash grows by no more than a value that the map did not hold.
theorem Sound.fetchUpsert_contained (h : map.Sound)
    (hs : map.stash.entries.length < map.options.stashValueCountMax) :
    Meets Fault.Contained (fun (r : Option V × CacheMap K V) => r.2.stash.entries.length ≤
        map.stash.entries.length + if (map.view (keyFromValue value)).isSome then 0 else 1)
      (map.fetchUpsert value) := by
  unfold CacheMap.fetchUpsert
  cases hm : map.cache with
  | none =>
    have hview : map.view (keyFromValue value) = map.stash.lookup (keyFromValue value) := by
      rw [h.view_eq, CacheMap.cached, hm]
      rfl
    have hlen := @length_insert _ _ _ (keyFromValue value) value map.stash
    simp only [CacheMap.stashUpsert, Meets.bind_eq, Meets.pure_eq, meets_assert_eq]
    rw [hview, ← hlen]
    refine ⟨fun _ => Nat.le_refl _, fun hn => absurd ?_ hn⟩
    split at hlen <;> omega
  | some cache =>
    have hc : ∀ k, map.cached k = cache.view k := fun k => by simp [CacheMap.cached, hm]
    have hcoherent := (@SetAssociativeCache.Coherent.upsert _ _ _ _ _ value (h.coherent cache hm))
    have hupsert := SetAssociativeCache.upsert_contained.and_post hcoherent
    simp only [Meets.bind_eq]
    refine hupsert.weaken fun result hresult => ?_
    obtain ⟨updated, evicted, after⟩ := result
    obtain ⟨_, _, hu⟩ := hresult
    dsimp only at hu ⊢
    cases updated with
    | update =>
      cases evicted with
      | none => simp
      | some old =>
        simp only [Meets.bind_eq, Meets.pure_eq, meets_assert_eq]
        exact ⟨fun _ => ⟨fun _ => Nat.le_add_right .., by simp⟩, by simp⟩
    | insert =>
      obtain ⟨hu₁, _⟩ := hu
      have hview : map.view (keyFromValue value) = map.stash.lookup (keyFromValue value) := by
        rw [h.view_eq, hc, hu₁]
        rfl
      cases evicted with
      | none =>
        have herase := @length_erase _ _ _ (keyFromValue value) map.stash
        simp only [Meets.bind_eq, Meets.pure_eq, meets_assert_eq, CacheMap.stashRemove]
        refine ⟨fun _ => ⟨fun _ => by omega, fun hn => absurd (Nat.le_of_lt hs) hn⟩, by simp⟩
      | some old =>
        have hinsert := @length_insert _ _ _ (keyFromValue old) old map.stash
        simp only [Meets.bind_eq, Meets.pure_eq, meets_assert_eq, CacheMap.stashRemove,
          CacheMap.stashUpsert]
        refine ⟨fun hne => ⟨fun hle => ⟨fun _ => ⟨fun _ => ?_, fun hn => absurd hle hn⟩, by simp⟩,
          fun hn => absurd ?_ hn⟩, by simp⟩
        · have herase := @length_erase _ _ _ (keyFromValue value)
            (map.stash.insert (keyFromValue old) old)
          rw [AList.lookup_insert_ne (Ne.symm hne), ← hview] at herase
          rw [herase]
          split at hinsert <;> split <;> omega
        · split at hinsert <;> omega

-- What is undone has been done: the keys whose values are restored are there.
def Undoable : List (RollbackLogAction K V) → (K → Option V) → Prop
  | [], _ => True
  | action :: actions, view =>
    (match action with
      | .restore value => (view (keyFromValue value)).isSome = true
      | _              => True) ∧ Undoable actions (Undoes action view)

-- Room for so many more values, and for so many upserts in the scope.
structure Spare (limits : CacheMapOptions) (map : CacheMap K V) (values actions : Nat) : Prop where
  options : map.options = limits
  stash : map.stash.entries.length + values < limits.stashValueCountMax
  log : map.scopeIsActive = true →
    map.scopeRollbackLog.length + actions ≤ limits.scopeValueCountMax
  undoable : map.scopeIsActive = true → Undoable map.scopeRollbackLog.reverse map.view

namespace Spare

variable {limits : CacheMapOptions} {map' : CacheMap K V}

theorem mono {values' actions' : Nat} (h : map.Spare limits values actions)
    (hv : values' ≤ values) (ha : map.scopeIsActive = true → actions' ≤ actions) :
    map.Spare limits values' actions' where
  options := h.options
  stash := by
    have := h.stash
    omega
  log hactive := by
    have := h.log hactive
    have := ha hactive
    omega
  undoable := h.undoable

theorem get (h : map.Spare limits values actions) (hs : map.Sound) :
    (map.get key).2.Spare limits values actions := by
  have ⟨_, _, hv, ha, hl, ho⟩ := @Sound.get _ _ _ _ map key hs
  have hstash : (map.get key).2.stash = map.stash := by
    unfold CacheMap.get
    cases map.cache <;> rfl
  exact ⟨ho.trans h.options, hstash ▸ h.stash, ha ▸ hl ▸ h.log, ha ▸ hl ▸ hv ▸ h.undoable⟩

theorem upsert (h : map.Spare limits (values + if (map.view (keyFromValue value)).isSome then 0 else 1)
      (actions + 1)) (hs : map.Sound) (ht : !CacheMapSpec.tombstone value) :
    Meets Fault.Contained (fun map' => map'.Spare limits values actions) (map.upsert value) := by
  have hstash := h.stash
  have ho := h.options
  have hfetch := (hs.fetchUpsert_contained (by rw [ho]; omega)).and_post (hs.fetchUpsert ht)
  unfold CacheMap.upsert
  rw [Meets.bind_iff]
  refine hfetch.weaken fun ⟨old, map'⟩ ⟨hlen, hf⟩ => ?_
  have ⟨hf₁, hf₂, hf₃, hf₄, hf₅, hf₆⟩ := hf
  dsimp only at hlen hf₁ hf₂ hf₃ hf₄ hf₅ hf₆ ⊢
  have hstash' : map'.stash.entries.length + values < limits.stashValueCountMax := by omega
  cases hactive : map.scopeIsActive with
  | false =>
    rw [hf₄, hactive]
    refine ⟨hf₆.trans ho, hstash', fun h => ?_, fun h => ?_⟩ <;> rw [hf₄, hactive] at h <;> cases h
  | true =>
    have hlog := h.log hactive
    have hundoes := hs.undoes_upsert value
    rw [← hf₁, ← hf₃] at hundoes
    have logged : ∀ action, Undoes action map'.view = map.view →
        (∀ old, action = .restore old → (map'.view (keyFromValue old)).isSome = true) →
        Meets Fault.Contained (fun map' => map'.Spare limits values actions)
          (map'.append action) := by
      intro action hundoes haction
      unfold CacheMap.append
      simp only [Meets.bind_eq, Meets.pure_eq, meets_assert_eq]
      rw [hf₅, hf₆, ho]
      refine ⟨fun _ => ⟨rfl, hstash', fun _ => ?_, fun _ => ?_⟩, fun hn => absurd ?_ hn⟩
      · simp only [List.length_append, List.length_singleton]
        omega
      · rw [List.reverse_append]
        refine ⟨?_, ?_⟩
        · cases action with
          | restore old => exact haction old rfl
          | _           => trivial
        · show Undoable _ (Undoes action map'.view)
          rw [hundoes]
          exact h.undoable hactive
      · omega
    rw [hf₄, hactive, if_pos rfl]
    cases old with
    | none => exact logged _ hundoes nofun
    | some old =>
      have ht : CacheMapSpec.tombstone old = false := hs.tombstone_eq hf₁.symm
      dsimp only
      rw [if_neg (by rw [ht]; nofun)]
      refine logged _ hundoes fun old' he => ?_
      cases he
      rw [hf₃, hs.keyFromValue_eq hf₁.symm, Function.update_self]
      rfl

theorem insert (h : map.Spare limits (values + 1) (actions + 1)) (hs : map.Sound)
    (ht : !CacheMapSpec.tombstone value) :
    Meets Fault.Contained (fun map' => map'.Spare limits values actions) (map.upsert value) := by
  refine upsert (h.mono ?_ fun _ => Nat.le_refl _) hs ht
  split <;> omega

theorem update (h : map.Spare limits values (actions + 1)) (hs : map.Sound)
    (ht : !CacheMapSpec.tombstone value) (hv : (map.view (keyFromValue value)).isSome = true) :
    Meets Fault.Contained (fun map' => map'.Spare limits values actions) (map.upsert value) := by
  refine upsert ?_ hs ht
  rw [if_pos hv]
  exact h

section

variable (h : map.Spare limits values actions)

include h

theorem scopeOpen :
    Meets Fault.Contained (fun map' => map'.Spare limits values limits.scopeValueCountMax)
      map.scopeOpen := by
  unfold CacheMap.scopeOpen
  simp only [Meets.bind_eq, Meets.pure_eq, meets_assert_eq]
  refine ⟨fun _ => ⟨fun hl => ⟨h.options, h.stash, fun _ => ?_, fun _ => ?_⟩, by simp⟩, by simp⟩
  · show map.scopeRollbackLog.length + _ ≤ _
    omega
  · show Undoable map.scopeRollbackLog.reverse _
    rw [List.length_eq_zero_iff.mp hl]
    trivial

theorem persist (actions' : Nat) :
    Meets Fault.Contained (fun map' => map'.Spare limits values actions')
      (map.scopeClose .persist) := by
  unfold CacheMap.scopeClose
  simp only [Meets.bind_eq, Meets.pure_eq, meets_assert_eq]
  exact ⟨fun _ => ⟨h.options, h.stash, nofun, nofun⟩, by simp⟩

theorem replay {action : RollbackLogAction K V}
    (hs : map.Sound) (hi : map.scopeIsActive = false)
    (ha : ∀ old, action = .restore old → (map.view (keyFromValue old)).isSome = true) :
    Meets Fault.Contained (fun map' => map'.Spare limits values actions) (map.replay action) := by
  unfold CacheMap.replay
  cases action with
  | restoreTombstone key => simp
  | restore old =>
    simp only [Meets.bind_eq, meets_assert_eq]
    have h := h.mono (Nat.le_refl values) fun hactive =>
      (absurd (hi.symm.trans hactive) nofun : actions + 1 ≤ actions)
    exact ⟨fun ht => h.update hs (by simpa using ht) (ha old rfl), by simp⟩
  | remove key =>
    have hstash := h.stash
    have ho := h.options
    have erased : ∀ cache, ({ map with cache, stash := map.stash.erase key } : CacheMap K V).Spare
        limits values actions := by
      intro cache
      refine ⟨ho, ?_, fun hactive => absurd (hi.symm.trans hactive) nofun,
        fun hactive => absurd (hi.symm.trans hactive) nofun⟩
      have := @length_erase _ _ _ key map.stash
      show (map.stash.erase key).entries.length + values < _
      omega
    have hle : map.stash.entries.length ≤ map.options.stashValueCountMax := by
      rw [ho]
      omega
    cases hm : map.cache with
    | none =>
      simp only [CacheMap.stashRemove, Meets.bind_eq, Meets.pure_eq, meets_assert_eq]
      refine ⟨fun _ => ?_, fun hn => absurd hle hn⟩
      cases map.stash.lookup key with
      | none   => simp
      | some _ => simpa using erased none
    | some cache =>
      simp only [CacheMap.stashRemove, Meets.bind_eq, Meets.pure_eq, meets_assert_eq]
      refine ⟨fun _ => ?_, fun hn => absurd hle hn⟩
      cases map.stash.lookup key <;> simpa using fun _ => erased _

theorem replayAll {log : List (RollbackLogAction K V)}
    (hs : map.Sound) (hi : map.scopeIsActive = false) (hu : Undoable log map.view) :
    Meets Fault.Contained (fun map' => map'.Spare limits values actions)
      (CacheMap.replayAll log map) := by
  induction log generalizing map with
  | nil => exact h
  | cons action log ih =>
    unfold CacheMap.replayAll
    rw [Meets.bind_iff]
    obtain ⟨ha, hu⟩ := hu
    refine ((h.replay hs hi ?_).and_post (hs.replay hi)).weaken fun map' h => ?_
    · rintro old rfl
      exact ha
    · obtain ⟨h', hs', hv, hi'⟩ := h
      exact ih h' hs' hi' (hv ▸ hu)

theorem discard (hs : map.Scoped opened) (actions' : Nat) :
    Meets Fault.Contained (fun map' => map'.Spare limits values actions')
      (map.scopeClose .discard) := by
  have hsound : ({ map with scopeIsActive := false, scopeRollbackLog := [] } : CacheMap K V).Sound :=
    hs.sound.of_cached hs.sound.coherent rfl rfl
  have hspare : ({ map with scopeIsActive := false, scopeRollbackLog := [] } : CacheMap K V).Spare
      limits values actions := ⟨h.options, h.stash, nofun, nofun⟩
  unfold CacheMap.scopeClose
  simp only [Meets.bind_eq, Meets.pure_eq, meets_assert_eq]
  refine ⟨fun _ => ?_, by simp⟩
  refine ((hspare.replayAll hsound rfl (h.undoable hs.active)).and_post
    (hsound.replayAll rfl)).weaken fun map' ⟨h', _, _, hi⟩ => ?_
  exact ⟨h'.options, h'.stash, fun hactive => absurd (hi.symm.trans hactive) nofun,
    fun hactive => absurd (hi.symm.trans hactive) nofun⟩

theorem compact :
    Meets Fault.Contained (fun map' => map'.Spare limits values actions) map.compact := by
  have hstash := h.stash
  unfold CacheMap.compact
  simp only [Meets.bind_eq, Meets.pure_eq, meets_assert_eq]
  refine ⟨fun hi => ⟨fun _ => ⟨fun _ => ?_, fun hn => absurd ?_ hn⟩, by simp⟩, by simp⟩
  · have hi : map.scopeIsActive = false := by simpa using hi
    refine ⟨h.options, ?_, fun hactive => absurd (hi.symm.trans hactive) nofun,
      fun hactive => absurd (hi.symm.trans hactive) nofun⟩
    show 0 + values < _
    omega
  · rw [h.options]
    omega

end

theorem new [Inhabited V] (h : values < limits.stashValueCountMax) :
    (CacheMap.new limits : CacheMap K V).Spare limits values actions :=
  ⟨rfl, by simpa [CacheMap.new] using h, nofun, nofun⟩

end Spare

end CacheMap

end TigerBeetle
