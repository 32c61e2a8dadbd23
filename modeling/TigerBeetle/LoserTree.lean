import Mathlib

namespace Tournament

variable {α : Type} (beats : α → α → Bool)

def winner (a b : α) : α :=
  if beats a b then a else b

def loser (a b : α) : α :=
  if beats a b then b else a

-- The winner of the `i`-th subtree of those that are `level` levels high.
def champion (leaf : Nat → α) : (level i : Nat) → α
  | 0, i => leaf i
  | level + 1, i => winner beats (champion leaf level (2 * i)) (champion leaf level (2 * i + 1))

-- Of any two leaves that differ one beats the other.
structure Contest (leaf : Nat → α) : Prop where
  total : ∀ i j, leaf i ≠ leaf j → beats (leaf i) (leaf j) = !beats (leaf j) (leaf i)
  trans : ∀ i j k, beats (leaf i) (leaf j) → beats (leaf j) (leaf k) → beats (leaf i) (leaf k)

variable {beats} {leaf leaf' : Nat → α} {level i j : Nat}

theorem winner_eq_or (beats : α → α → Bool) (a b : α) : winner beats a b = a ∨ winner beats a b = b := by
  unfold winner
  split
  · exact .inl rfl
  · exact .inr rfl

theorem loser_of_winner_left {a b : α} (h : winner beats a b = a) : loser beats a b = b := by
  unfold winner at h
  unfold loser
  split at h
  · rw [if_pos ‹_›]
  · rw [if_neg ‹_›, h]

theorem loser_of_winner_right {a b : α} (h : winner beats a b = b) : loser beats a b = a := by
  unfold winner at h
  unfold loser
  split at h
  · rw [if_pos ‹_›, h]
  · rw [if_neg ‹_›]

theorem champion_mem (beats : α → α → Bool) (leaf : Nat → α) (level i : Nat) :
    ∃ j, j / 2 ^ level = i ∧ champion beats leaf level i = leaf j := by
  induction level generalizing i with
  | zero => exact ⟨i, by simp, rfl⟩
  | succ level ih =>
    have hdiv : ∀ j, j / 2 ^ (level + 1) = j / 2 ^ level / 2 := fun j => by
      rw [Nat.pow_succ, Nat.div_div_eq_div_mul]
    rw [champion]
    obtain h | h := winner_eq_or beats (champion beats leaf level (2 * i))
      (champion beats leaf level (2 * i + 1))
    all_goals rw [h]
    · obtain ⟨j, hj, hc⟩ := ih (2 * i)
      exact ⟨j, by rw [hdiv]; omega, hc⟩
    · obtain ⟨j, hj, hc⟩ := ih (2 * i + 1)
      exact ⟨j, by rw [hdiv]; omega, hc⟩

theorem champion_congr (h : ∀ j, j / 2 ^ level = i → leaf j = leaf' j) :
    champion beats leaf level i = champion beats leaf' level i := by
  induction level generalizing i with
  | zero => exact h i (by simp)
  | succ level ih =>
    have hdiv : ∀ j, j / 2 ^ (level + 1) = j / 2 ^ level / 2 := fun j => by
      rw [Nat.pow_succ, Nat.div_div_eq_div_mul]
    rw [champion, champion, ih fun j hj => h j (by rw [hdiv]; omega),
      ih fun j hj => h j (by rw [hdiv]; omega)]

namespace Contest

theorem winner_comm (h : Contest beats leaf) (i j : Nat) :
    winner beats (leaf i) (leaf j) = winner beats (leaf j) (leaf i) := by
  by_cases heq : leaf i = leaf j
  · rw [heq]
  · unfold winner
    rw [h.total i j heq]
    cases beats (leaf j) (leaf i) <;> rfl

theorem loser_comm (h : Contest beats leaf) (i j : Nat) :
    loser beats (leaf i) (leaf j) = loser beats (leaf j) (leaf i) := by
  by_cases heq : leaf i = leaf j
  · rw [heq]
  · unfold loser
    rw [h.total i j heq]
    cases beats (leaf j) (leaf i) <;> rfl

-- The champion beats all leaves of its subtree.
theorem champion_beats (h : Contest beats leaf) (hj : j / 2 ^ level = i) :
    champion beats leaf level i = leaf j ∨ beats (champion beats leaf level i) (leaf j) := by
  induction level generalizing i with
  | zero => exact .inl (by rw [champion, ← hj]; simp)
  | succ level ih =>
    have hdiv : j / 2 ^ level / 2 = i := by
      rw [← hj, Nat.pow_succ, Nat.div_div_eq_div_mul]
    obtain ⟨l, -, hl⟩ := champion_mem beats leaf level (2 * i)
    obtain ⟨r, -, hr⟩ := champion_mem beats leaf level (2 * i + 1)
    rw [champion]
    -- The side of the leaf, and the other one.
    have hside : ∀ m o, champion beats leaf level (j / 2 ^ level) = leaf m →
        winner beats (leaf m) (leaf o) = leaf j ∨ beats (winner beats (leaf m) (leaf o)) (leaf j) := by
      intro m o hm
      have hbest := ih rfl
      rw [hm] at hbest
      by_cases hw : beats (leaf m) (leaf o)
      · rw [winner, if_pos hw]
        exact hbest
      · rw [winner, if_neg hw]
        by_cases heq : leaf o = leaf m
        · rw [heq]
          exact hbest
        · have hom : beats (leaf o) (leaf m) := by
            rw [h.total o m heq]
            simpa using hw
          obtain hmj | hmj := hbest
          · exact .inr (hmj ▸ hom)
          · exact .inr (h.trans o m j hom hmj)
    rw [hl, hr]
    obtain heven | hodd : j / 2 ^ level = 2 * i ∨ j / 2 ^ level = 2 * i + 1 := by omega
    · exact hside l r (heven ▸ hl)
    · rw [h.winner_comm]
      exact hside r l (hodd ▸ hr)

end Contest

section Path

variable (hunique : ∀ k, leaf k = leaf j → k = j)

include hunique

theorem champion_below (h : champion beats leaf (level + 1) (j / 2 ^ (level + 1)) = leaf j) :
    champion beats leaf level (j / 2 ^ level) = leaf j := by
  obtain ⟨l, hl, hcl⟩ := champion_mem beats leaf level (2 * (j / 2 ^ (level + 1)))
  obtain ⟨r, hr, hcr⟩ := champion_mem beats leaf level (2 * (j / 2 ^ (level + 1)) + 1)
  rw [champion, hcl, hcr] at h
  obtain hw | hw := winner_eq_or beats (leaf l) (leaf r)
  · have := hunique l (hw ▸ h)
    subst this
    rw [hl, hcl]
  · have := hunique r (hw ▸ h)
    subst this
    rw [hr, hcr]

-- The champion of a tree has won all of the subtrees that it is in.
theorem champion_path (n : Nat) (h : champion beats leaf (level + n) (j / 2 ^ (level + n)) = leaf j) :
    champion beats leaf level (j / 2 ^ level) = leaf j := by
  induction n with
  | zero => exact h
  | succ n ih => exact ih (champion_below hunique h)

-- Another leaf in the place of the champion meets those that have lost against the champion.
theorem replay (hc : Contest beats leaf')
    (h : champion beats leaf (level + 1) (j / 2 ^ (level + 1)) = leaf j)
    (hleaf : ∀ k, k ≠ j → leaf' k = leaf k) :
    let lost := loser beats (champion beats leaf level (2 * (j / 2 ^ (level + 1))))
      (champion beats leaf level (2 * (j / 2 ^ (level + 1)) + 1))
    let new := champion beats leaf' level (j / 2 ^ level)
    winner beats new lost = champion beats leaf' (level + 1) (j / 2 ^ (level + 1)) ∧
      loser beats new lost = loser beats (champion beats leaf' level (2 * (j / 2 ^ (level + 1))))
        (champion beats leaf' level (2 * (j / 2 ^ (level + 1)) + 1)) := by
  have hbelow := champion_below hunique h
  have hother : ∀ i, i ≠ j / 2 ^ level →
      champion beats leaf level i = champion beats leaf' level i := fun i hi =>
    champion_congr fun k hk => (hleaf k fun hkj => hi (by rw [← hk, hkj])).symm
  have hdiv : j / 2 ^ (level + 1) = j / 2 ^ level / 2 := by
    rw [Nat.pow_succ, Nat.div_div_eq_div_mul]
  rw [champion] at h
  intro lost new
  obtain heven | hodd : j / 2 ^ level = 2 * (j / 2 ^ (level + 1)) ∨
      j / 2 ^ level = 2 * (j / 2 ^ (level + 1)) + 1 := by omega
  · have hlost : lost = champion beats leaf' level (2 * (j / 2 ^ (level + 1)) + 1) := by
      rw [← hother _ (by omega)]
      refine loser_of_winner_left ?_
      rw [h, ← heven, hbelow]
    rw [hlost]
    simp only [new, heven, champion, and_self]
  · have hlost : lost = champion beats leaf' level (2 * (j / 2 ^ (level + 1))) := by
      rw [← hother _ (by omega)]
      refine loser_of_winner_right ?_
      rw [h, ← hodd, hbelow]
    obtain ⟨l, -, hl⟩ := champion_mem beats leaf' level (2 * (j / 2 ^ (level + 1)))
    obtain ⟨r, -, hr⟩ := champion_mem beats leaf' level (2 * (j / 2 ^ (level + 1)) + 1)
    rw [hlost]
    simp only [new, hodd, champion, hl, hr]
    exact ⟨hc.winner_comm r l, hc.loser_comm r l⟩

end Path

end Tournament
