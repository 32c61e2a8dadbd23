import TigerBeetle.Theorems.StateMachine

namespace TigerBeetle.Accounting

open Fallible

section Agreement

variable {K V : Type} [DecidableEq K] {keys : K → Prop} {f g : K → Option V} {key : K} {value : V}

-- Two maps that agree on some of the keys.
def AgreeOn (keys : K → Prop) (f g : K → Option V) : Prop :=
  ∀ key, keys key → f key = g key

-- A map has no keys but those of the other one.
def Within (f g : K → Option V) : Prop :=
  ∀ key, g key = none → f key = none

theorem AgreeOn.update (h : AgreeOn keys f g) :
    AgreeOn keys (Function.update f key value) (Function.update g key value) := by
  intro k hk
  simp only [Function.update_apply, h k hk]

theorem Within.update (h : Within f g) :
    Within (Function.update f key (some value)) (Function.update g key (some value)) := by
  intro k hk
  simp only [Function.update_apply] at hk ⊢
  split at hk
  · cases hk
  · next hne => rw [if_neg hne, h k hk]

end Agreement

variable {K V : Type} [DecidableEq K] [CacheMapSpec K V] {committed : HashMap K V}
    {map : CacheMap K V} {keys : List K}

-- What a cache is like once it has been filled.
structure Filled (committed : HashMap K V) (keys : List K) (map map' : CacheMap K V) : Prop where
  idle : map'.Idle
  agree : AgreeOn (· ∈ keys) map'.view fun key => committed.lookup key
  keep : ∀ key, map.view key = committed.lookup key → map'.view key = committed.lookup key
  within : Within map'.view fun key => committed.lookup key

theorem StateMachine.fill_meets (hi : map.Idle)
    (hv : ∀ key value, committed.lookup key = some value →
      keyFromValue value = key ∧ !CacheMapSpec.tombstone value)
    (hw : Within map.view fun key => committed.lookup key) :
    Meets (fun _ => True) (Filled committed keys map) (fill committed keys map) := by
  induction keys generalizing map with
  | nil => exact ⟨hi, nofun, fun _ h => h, hw⟩
  | cons key keys ih =>
    unfold fill
    cases hl : committed.lookup key with
    | none =>
      refine (ih hi hw).weaken fun map' h => ⟨h.idle, fun k hk => ?_, h.keep, h.within⟩
      cases hk with
      | head      => exact h.keep key ((hw key hl).trans hl.symm)
      | tail _ hk => exact h.agree k hk
    | some value =>
      have ⟨hkey, ht⟩ := hv key value hl
      simp only [Meets.bind_eq]
      refine (CacheMap.usable_idle.upsert map value hi ht).weaken fun map₁ ⟨hi₁, hv₁⟩ => ?_
      rw [hkey] at hv₁
      have hw₁ : Within map₁.view fun key => committed.lookup key := by
        intro k hk
        rw [hv₁, Function.update_apply, if_neg, hw k hk]
        intro he
        subst he
        exact Option.some_ne_none value (hl.symm.trans hk)
      have hkeep : ∀ k, map.view k = committed.lookup k ∨ k = key →
          map₁.view k = committed.lookup k := by
        intro k hk
        rw [hv₁, Function.update_apply]
        split
        · next he => rw [he, hl]
        · next he => exact hk.resolve_right he
      refine (ih hi₁ hw₁).weaken fun map' h => ⟨h.idle, fun k hk => ?_,
        fun k hk => h.keep k (hkeep k (.inl hk)), h.within⟩
      cases hk with
      | head      => exact h.keep key (hkeep key (.inr rfl))
      | tail _ hk => exact h.agree k hk

theorem mem_enqueue {keys : List K} {key key' : K} :
    key' ∈ enqueue keys key ↔ key' ∈ keys ∨ key' = key := by
  unfold enqueue
  split
  · next h =>
    constructor
    · exact .inl
    · intro h'
      cases h' with
      | inl h' => exact h'
      | inr h' => exact h' ▸ h
  · simp

theorem mem_foldl_enqueue {new keys : List K} {key : K} :
    key ∈ new.foldl enqueue keys ↔ key ∈ keys ∨ key ∈ new := by
  induction new generalizing keys with
  | nil           => simp
  | cons k new ih =>
    rw [List.foldl_cons, ih, mem_enqueue, List.mem_cons, or_assoc]

end TigerBeetle.Accounting
