import TigerBeetle.CacheMap

namespace TigerBeetle

namespace HashMap

variable {K V : Type}

-- The sum of a quantity over the values of a map.
def total (f : V → Nat) (map : HashMap K V) : Nat :=
  (map.entries.map fun entry => f entry.2).sum

variable [DecidableEq K] {f g : V → Nat} {map : HashMap K V} {key : K} {value old : V}

theorem lookup_insert_eq {key' : K} :
    (map.insert key value).lookup key' = if key' = key then some value else map.lookup key' := by
  split
  · next h => rw [h, AList.lookup_insert]
  · next h => rw [AList.lookup_insert_ne h]

theorem lookup_insert :
    (fun k => (map.insert key value).lookup k) =
      Function.update (fun k => map.lookup k) key (some value) := by
  funext k
  rw [lookup_insert_eq, Function.update_apply]

theorem total_erase (h : map.lookup key = some old) :
    total f map = f old + total f (map.erase key) := by
  have hk : key ∈ map.entries.keys := AList.lookup_isSome.mp (h ▸ rfl)
  have ⟨value, l₁, l₂, _, hl, he⟩ := List.exists_of_kerase hk
  have hm : (⟨key, value⟩ : Sigma fun _ : K => V) ∈ map.entries := hl ▸ by simp
  have hv : map.lookup key = some value := AList.mem_lookup_iff.mpr hm
  obtain rfl : value = old := Option.some.inj (hv.symm.trans h)
  have hentries : (map.erase key).entries = l₁ ++ l₂ := he
  unfold total
  rw [hl, hentries]
  simp only [List.map_append, List.sum_append, List.map_cons, List.sum_cons]
  omega

theorem total_insert : total f (map.insert key value) = f value + total f (map.erase key) := by
  unfold total
  rw [AList.entries_insert]
  rfl

theorem total_insert_of_none (h : map.lookup key = none) :
    total f (map.insert key value) = f value + total f map := by
  unfold total
  rw [AList.entries_insert_of_notMem (AList.lookup_eq_none.mp h)]
  rfl

theorem total_insert_of_some (value : V) (h : map.lookup key = some old) :
    total f (map.insert key value) + f old = f value + total f map := by
  rw [total_insert, total_erase h]
  omega

theorem total_mono (h : ∀ key value, map.lookup key = some value → f value ≤ g value) :
    total f map ≤ total g map := by
  refine List.sum_le_sum fun entry hm => ?_
  exact h entry.1 entry.2 (AList.mem_lookup_iff.mpr hm)

theorem total_congr (h : ∀ key value, map.lookup key = some value → f value = g value) :
    total f map = total g map :=
  le_antisymm (total_mono fun key value hl => (h key value hl).le)
    (total_mono fun key value hl => (h key value hl).ge)

theorem total_eq_of_lookup {map' : HashMap K V} (h : ∀ key, map.lookup key = map'.lookup key) :
    total f map = total f map' := by
  have hp := List.lookup_ext map.nodupKeys map'.nodupKeys fun key value => by
    show value ∈ map.lookup key ↔ value ∈ map'.lookup key
    rw [h key]
  exact (hp.map _).sum_eq

-- A quantity that is less by some amount for one of the values.
theorem total_add_eq {amount : Nat} (hl : map.lookup key = some old) (ha : f old + amount = g old)
    (h : ∀ key' value, map.lookup key' = some value → key' ≠ key → f value = g value) :
    total f map + amount = total g map := by
  have herase : total f (map.erase key) = total g (map.erase key) := by
    refine total_congr fun key' value hl' => ?_
    have hne : key' ≠ key := by
      intro he
      rw [he, AList.lookup_erase] at hl'
      cases hl'
    exact h key' value (AList.lookup_erase_ne hne ▸ hl') hne
  rw [total_erase hl, total_erase hl, herase]
  omega

end HashMap

end TigerBeetle
