import Mathlib

variable {α κ : Type}

-- Lists with the same elements for each key are permutations of each other.
theorem perm_of_filter [DecidableEq κ] {key : α → κ} {source target : List α}
    (h : ∀ k, target.filter (key · = k) = source.filter (key · = k)) : target.Perm source := by
  classical
  rw [List.perm_iff_count]
  intro a
  have hcount : ∀ l : List α, l.count a = (l.filter (key · = key a)).count a :=
    fun l => (List.count_filter (by simp)).symm
  rw [hcount, h, ← hcount]

-- A list that is sorted by a key, and that keeps the order of the elements with the same key.
structure SortsBy [LinearOrder κ] (key : α → κ) (source target : List α) : Prop where
  ascending : target.Pairwise fun a b => key a ≤ key b
  stable : ∀ k, target.filter (key · = k) = source.filter (key · = k)

namespace SortsBy

variable [LinearOrder κ] {key : α → κ} {source mid target : List α}

theorem perm (h : SortsBy key source target) : target.Perm source :=
  perm_of_filter h.stable

theorem mem_iff (h : SortsBy key source target) {a : α} : a ∈ target ↔ a ∈ source :=
  h.perm.mem_iff

theorem same (h : source.Pairwise fun a b => key a ≤ key b) : SortsBy key source source :=
  ⟨h, fun _ => rfl⟩

-- Elements that all have the same key are sorted.
theorem of_constant {k : κ} (h : ∀ a ∈ source, key a = k) : SortsBy key source source :=
  same <| List.pairwise_of_forall_mem_list fun a ha b hb => by rw [h a ha, h b hb]

-- Two keys of the same order sort in the same way.
theorem of_order {κ' : Type} [LinearOrder κ'] {key' : α → κ'} (h : SortsBy key source target)
    (hkey : ∀ a ∈ source, ∀ b ∈ source, key a ≤ key b ↔ key' a ≤ key' b) :
    SortsBy key' source target where
  ascending := h.ascending.imp_of_mem fun ha hb hle =>
    (hkey _ (h.mem_iff.mp ha) _ (h.mem_iff.mp hb)).mp hle
  stable k := by
    by_cases hk : ∃ c ∈ source, key' c = k
    · obtain ⟨c, hc, rfl⟩ := hk
      have heq : ∀ a ∈ source, (key' a = key' c ↔ key a = key c) := fun a ha => by
        rw [le_antisymm_iff, le_antisymm_iff, hkey a ha c hc, hkey c hc a ha]
      have hfilter : ∀ l : List α, (∀ a ∈ l, a ∈ source) →
          l.filter (key' · = key' c) = l.filter (key · = key c) := fun l hl =>
        List.filter_congr fun a ha => by simp only [heq a (hl a ha)]
      rw [hfilter target fun a => h.mem_iff.mp, hfilter source fun _ => id, h.stable]
    · have hfilter : ∀ l : List α, (∀ a ∈ l, a ∈ source) → l.filter (key' · = k) = [] := fun l hl =>
        List.filter_eq_nil_iff.mpr fun a ha hka => hk ⟨a, hl a ha, by simpa using hka⟩
      rw [hfilter target fun a => h.mem_iff.mp, hfilter source fun _ => id]

-- What is sorted by its low part is sorted by the whole after it has been sorted by its high part.
theorem lexicographic {low high key : α → Nat} {m : Nat} (hl : SortsBy low source mid)
    (hh : SortsBy high mid target) (hm : ∀ a, low a < m) (hkey : ∀ a, key a = high a * m + low a) :
    SortsBy key source target where
  ascending := by
    rw [List.pairwise_iff_forall_sublist]
    intro a b hab
    have hle := List.pairwise_iff_forall_sublist.mp hh.ascending hab
    rw [hkey, hkey]
    obtain hlt | heq := Nat.lt_or_eq_of_le hle
    · have hmul : (high a + 1) * m ≤ high b * m := Nat.mul_le_mul_right m hlt
      have hma := hm a
      rw [Nat.add_mul, Nat.one_mul] at hmul
      omega
    · -- Both have the same high part, among which the order is that of the low part.
      have hsub : [a, b].Sublist (mid.filter (high · = high b)) := by
        have hf := hab.filter (high · = high b)
        rw [hh.stable] at hf
        simpa [heq] using hf
      have hlow := List.pairwise_iff_forall_sublist.mp hl.ascending
        (hsub.trans List.filter_sublist)
      rw [heq]
      exact Nat.add_le_add_left hlow _
  stable k := by
    have hsplit : ∀ l : List α, l.filter (key · = k) =
        (l.filter (high · = k / m)).filter (low · = k % m) := by
      intro l
      rw [List.filter_filter]
      refine List.filter_congr fun a _ => ?_
      have hma := hm a
      have hpos : 0 < m := by omega
      rw [← Bool.decide_and, decide_eq_decide, hkey]
      constructor
      · rintro rfl
        rw [Nat.mul_comm, Nat.mul_add_mod, Nat.mod_eq_of_lt hma, Nat.mul_add_div hpos,
          Nat.div_eq_of_lt hma]
        exact ⟨rfl, rfl⟩
      · rintro ⟨h₁, h₂⟩
        rw [h₁, h₂, Nat.div_add_mod']
    have hswap : ∀ l : List α, (l.filter (high · = k / m)).filter (low · = k % m) =
        (l.filter (low · = k % m)).filter (high · = k / m) := fun l => by
      rw [List.filter_filter, List.filter_filter]
      exact List.filter_congr fun a _ => Bool.and_comm _ _
    rw [hsplit, hsplit, hh.stable, hswap mid, hl.stable, hswap source]

-- In what is sorted, of two elements one comes first.
theorem le_total_of_mem {R : α → α → Prop} (h : target.Pairwise R) {a b : α} (ha : a ∈ target)
    (hb : b ∈ target) (hne : a ≠ b) : R a b ∨ R b a := by
  have : Std.Symm fun a b => R a b ∨ R b a := ⟨fun _ _ => Or.symm⟩
  have hor : target.Pairwise fun a b => R a b ∨ R b a := h.imp Or.inl
  exact hor.forall ha hb hne

end SortsBy

-- The buckets of a list, one after the other.
def gather (digit : α → Nat) (buckets : Nat) (source : List α) : List α :=
  (List.range buckets).flatMap fun j => source.filter (digit · = j)

theorem flatMap_range_ite {buckets k : Nat} {l : List α} :
    ((List.range buckets).flatMap fun j => if j = k then l else []) =
      if k < buckets then l else [] := by
  induction buckets with
  | zero => rfl
  | succ n ih =>
    rw [List.range_succ, List.flatMap_append, ih, List.flatMap_singleton]
    split <;> split <;> split <;> first | omega | simp

theorem sortsBy_gather {digit : α → Nat} {buckets : Nat} {source : List α}
    (h : ∀ a ∈ source, digit a < buckets) :
    SortsBy digit source (gather digit buckets source) where
  ascending := by
    unfold gather
    rw [List.pairwise_flatMap]
    refine ⟨fun j _ => ?_, ?_⟩
    · refine List.pairwise_of_forall_mem_list fun a ha b hb => ?_
      simp at ha hb
      rw [ha.2, hb.2]
    · refine List.pairwise_lt_range.imp fun {j j'} hlt a ha b hb => ?_
      simp at ha hb
      rw [ha.2, hb.2]
      exact Nat.le_of_lt hlt
  stable k := by
    unfold gather
    rw [List.filter_flatMap]
    have hbucket : ∀ j, (source.filter (digit · = j)).filter (digit · = k) =
        if j = k then source.filter (digit · = k) else [] := by
      intro j
      rw [List.filter_filter]
      split
      case isTrue hj => simp [hj]
      case isFalse hj =>
        refine List.filter_eq_nil_iff.mpr fun a _ hd => hj ?_
        simp at hd
        omega
    simp only [hbucket, flatMap_range_ite]
    split
    case isTrue => rfl
    case isFalse hk =>
      refine (List.filter_eq_nil_iff.mpr fun a ha hd => ?_).symm
      have hlt := h a ha
      simp at hd
      omega
