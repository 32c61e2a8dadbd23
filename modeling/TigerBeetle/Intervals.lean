import Mathlib

-- Lists of disjoint intervals in their order.
namespace Intervals

universe u v

variable {α : Type u} {K : Type v} [LinearOrder K] (lo hi : α → K)

-- Each interval ends before the next one begins.
def Ordered (as : List α) : Prop :=
  as.Pairwise fun a b => hi a < lo b

def Meets (a b : α) : Prop :=
  lo b ≤ hi a ∧ lo a ≤ hi b

instance {a : α} : DecidablePred (Meets lo hi a) := fun b =>
  inferInstanceAs (Decidable (lo b ≤ hi a ∧ lo a ≤ hi b))

-- How many intervals meet one.
def overlaps (bs : List α) (a : α) : Nat :=
  bs.countP fun b => Meets lo hi a b

-- How many intervals end before a point.
def ended (bs : List α) (k : K) : Nat :=
  bs.countP fun b => hi b < k

-- How many intervals begin up to a point.
def begun (bs : List α) (k : K) : Nat :=
  bs.countP fun b => lo b ≤ k

variable {lo hi} {as bs : List α} {a : α} {k k' : K}

-- What meets an interval has begun until its end, and has not ended before it.
theorem overlaps_add_ended (hb : ∀ b ∈ bs, lo b ≤ hi b) (ha : lo a ≤ hi a) :
    overlaps lo hi bs a + ended hi bs (lo a) = begun lo bs (hi a) := by
  unfold overlaps ended begun
  induction bs with
  | nil => rfl
  | cons b bs ih =>
    have hrest := ih fun c hc => hb c (List.mem_cons_of_mem _ hc)
    have hle := hb b List.mem_cons_self
    rw [List.countP_cons, List.countP_cons, List.countP_cons]
    by_cases hended : hi b < lo a
    · have hbegun : lo b ≤ hi a := hle.trans (hended.le.trans ha)
      have hmeets : ¬Meets lo hi a b := fun h => not_le.mpr hended h.2
      rw [if_neg (by simpa using hmeets), if_pos (decide_eq_true hended), if_pos (decide_eq_true hbegun)]
      omega
    · by_cases hbegun : lo b ≤ hi a
      · have hmeets : Meets lo hi a b := ⟨hbegun, not_lt.mp hended⟩
        rw [if_pos (decide_eq_true hmeets), if_neg (by simpa using hended), if_pos (decide_eq_true hbegun)]
        omega
      · have hmeets : ¬Meets lo hi a b := fun h => hbegun h.1
        rw [if_neg (by simpa using hmeets), if_neg (by simpa using hended), if_neg (by simpa using hbegun)]
        omega

-- Of the intervals that begin up to a point at most one has not ended before a later one.
theorem begun_le_ended (ho : Ordered lo hi bs) (hk : k < k') : begun lo bs k ≤ ended hi bs k' + 1 := by
  unfold begun ended
  induction bs with
  | nil => exact Nat.zero_le _
  | cons b bs ih =>
    obtain ⟨hhead, htail⟩ := List.pairwise_cons.mp ho
    have hrest := ih htail
    rw [List.countP_cons, List.countP_cons]
    by_cases hended : hi b < k'
    · rw [if_pos (decide_eq_true hended)]
      split <;> omega
    · have hnone : (bs.countP fun c => lo c ≤ k) = 0 := by
        refine List.countP_eq_zero.mpr fun c hc => ?_
        have hlt : k < lo c := hk.trans_le ((not_lt.mp hended).trans (hhead c hc).le)
        simpa using hlt
      rw [hnone]
      split <;> omega

section

variable (hb : ∀ b ∈ bs, lo b ≤ hi b)

include hb

-- An interval that meets several others is counted once, and once more for each gap in it.
theorem sum_overlaps_le (hbs : Ordered lo hi bs)
    (ha : ∀ a ∈ as, lo a ≤ hi a) (has : Ordered lo hi as) :
    ∀ first ∈ as.head?, (as.map (overlaps lo hi bs)).sum + ended hi bs (lo first) + 1 ≤
      bs.length + as.length := by
  induction as with
  | nil => exact nofun
  | cons a as ih =>
    rintro _ ⟨⟩
    obtain ⟨hhead, htail⟩ := List.pairwise_cons.mp has
    have hrest := ih (fun b hb => ha b (List.mem_cons_of_mem _ hb)) htail
    have hcount := overlaps_add_ended hb (ha a List.mem_cons_self)
    rw [List.map_cons, List.sum_cons, List.length_cons]
    cases as with
    | nil =>
      have hle : begun lo bs (hi a) ≤ bs.length := List.countP_le_length
      rw [List.map_nil, List.sum_nil, List.length_nil]
      omega
    | cons b as =>
      have hnext := hrest b rfl
      have hgap := begun_le_ended hbs (hhead b List.mem_cons_self)
      omega

-- If there are not many more intervals than others then one of the others meets few of them.
theorem exists_overlaps_le {n : Nat} (hbs : Ordered lo hi bs)
    (ha : ∀ a ∈ as, lo a ≤ hi a) (has : Ordered lo hi as) (hne : as ≠ [])
    (hlen : bs.length ≤ n * as.length) : ∃ a ∈ as, overlaps lo hi bs a ≤ n := by
  by_contra hall
  simp only [not_exists, not_and, not_le] at hall
  have hsum : ∀ list : List α, (∀ a ∈ list, n < overlaps lo hi bs a) →
      (n + 1) * list.length ≤ (list.map (overlaps lo hi bs)).sum := fun list => by
    induction list with
    | nil => exact fun _ => Nat.zero_le _
    | cons b list ih =>
      intro h
      have hrest := ih fun c hc => h c (List.mem_cons_of_mem _ hc)
      have hb' := h b List.mem_cons_self
      rw [List.map_cons, List.sum_cons, List.length_cons, Nat.mul_succ]
      omega
  cases as with
  | nil => exact hne rfl
  | cons a as =>
    have hle := sum_overlaps_le hb hbs ha has a rfl
    have hge := hsum (a :: as) hall
    rw [Nat.succ_mul] at hge
    omega

-- In an ordered list the intervals that have begun, or ended, are the first ones.
theorem length_takeWhile_ended (hbs : Ordered lo hi bs) :
    (bs.takeWhile fun b => hi b < k).length = ended hi bs k := by
  unfold ended
  induction bs with
  | nil => rfl
  | cons b bs ih =>
    obtain ⟨hhead, htail⟩ := List.pairwise_cons.mp hbs
    have hrest := ih (fun c hc => hb c (List.mem_cons_of_mem _ hc)) htail
    rw [List.takeWhile_cons, List.countP_cons]
    by_cases h : hi b < k
    · rw [if_pos (decide_eq_true h), if_pos (decide_eq_true h), List.length_cons, hrest]
    · have hnone : (bs.countP fun c => hi c < k) = 0 := by
        refine List.countP_eq_zero.mpr fun c hc => ?_
        have hle : k ≤ hi c :=
          (not_lt.mp h).trans ((hhead c hc).le.trans (hb c (List.mem_cons_of_mem _ hc)))
        simpa using hle
      rw [if_neg (by simpa using h), if_neg (by simpa using h), hnone]
      rfl

theorem length_takeWhile_begun (hbs : Ordered lo hi bs) :
    (bs.takeWhile fun b => lo b ≤ k).length = begun lo bs k := by
  unfold begun
  induction bs with
  | nil => rfl
  | cons b bs ih =>
    obtain ⟨hhead, htail⟩ := List.pairwise_cons.mp hbs
    have hrest := ih (fun c hc => hb c (List.mem_cons_of_mem _ hc)) htail
    rw [List.takeWhile_cons, List.countP_cons]
    by_cases h : lo b ≤ k
    · rw [if_pos (decide_eq_true h), if_pos (decide_eq_true h), List.length_cons, hrest]
    · have hnone : (bs.countP fun c => lo c ≤ k) = 0 := by
        refine List.countP_eq_zero.mpr fun c hc => ?_
        have hlt : k < lo c := (not_le.mp h).trans_le ((hb b List.mem_cons_self).trans (hhead c hc).le)
        simpa using hlt
      rw [if_neg (by simpa using h), if_neg (by simpa using h), hnone]
      rfl

end

end Intervals
