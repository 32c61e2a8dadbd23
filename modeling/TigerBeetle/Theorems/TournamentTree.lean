import TigerBeetle.KWayMerge
import TigerBeetle.LoserTree

namespace TigerBeetle

open Fallible Tournament
open SegmentedArray (read)

namespace TournamentTree

variable {Key : Type} [LinearOrder Key]

section Beats

variable {direction : Direction} {k k' : Key} {i j : Nat}

theorem beats_ascending {a b : Node Key} :
    Node.beats .ascending a b ↔ a.key < b.key ∨ a.key = b.key ∧ a.id < b.id := by
  simp [Node.beats]

theorem beats_descending {a b : Node Key} :
    Node.beats .descending a b ↔ b.id = Node.idSentinel ∨
      a.id ≠ Node.idSentinel ∧ (b.key < a.key ∨ a.key = b.key ∧ a.id < b.id) := by
  simp [Node.beats]

theorem beats_iff (hi : i < Node.idSentinel) (hj : j < Node.idSentinel) :
    Node.beats direction ⟨k, i⟩ ⟨k', j⟩ ↔ direction.cmpLt k k' ∨ k = k' ∧ i < j := by
  cases direction
  · simp [beats_ascending, Direction.cmpLt]
  · simp [beats_descending, Direction.cmpLt, hi.ne, hj.ne]

variable [OrderTop Key]

theorem beats_sentinel (hi : i < Node.idSentinel) :
    Node.beats direction ⟨k, i⟩ Node.sentinel := by
  cases direction
  · rw [beats_ascending]
    obtain h | h := (le_top : k ≤ ⊤).lt_or_eq
    · exact .inl h
    · exact .inr ⟨h, hi⟩
  · exact beats_descending.mpr (.inl rfl)

theorem sentinel_beats (hj : j < Node.idSentinel) :
    Node.beats direction Node.sentinel ⟨k, j⟩ = false := by
  rw [Bool.eq_false_iff]
  cases direction
  · rw [ne_eq, beats_ascending]
    rintro (h | ⟨-, h⟩)
    · exact not_top_lt h
    · exact absurd h hj.not_gt
  · rw [ne_eq, beats_descending]
    rintro (h | ⟨h, -⟩)
    · exact hj.ne h
    · exact h rfl

-- The contestant of each stream, by the heads of the streams.
def leaf (heads : Nat → Option Key) (j : Nat) : Node Key :=
  match heads j with
  | some key => { key, id := j }
  | none     => Node.sentinel

variable {heads : Nat → Option Key}

theorem leaf_some (h : heads i = some k) : leaf heads i = ⟨k, i⟩ := by
  rw [leaf, h]

theorem leaf_none (h : heads i = none) : leaf heads i = Node.sentinel := by
  rw [leaf, h]

omit [LinearOrder Key] [OrderTop Key] in
theorem lt_of_some (hin : ∀ j ≥ Node.idSentinel, heads j = none) (h : heads i = some k) :
    i < Node.idSentinel := by
  by_contra hge
  rw [hin i (by omega)] at h
  cases h

theorem leaf_id (hin : ∀ j ≥ Node.idSentinel, heads j = none) :
    (leaf heads i).id = Node.idSentinel ↔ heads i = none := by
  cases h : heads i with
  | none => simp [leaf_none h, Node.sentinel]
  | some key =>
    rw [leaf_some h]
    simpa using (lt_of_some hin h).ne

theorem leaf_unique (hin : ∀ j ≥ Node.idSentinel, heads j = none) (h : heads i ≠ none) :
    ∀ j, leaf heads j = leaf heads i → j = i := by
  intro j hj
  obtain ⟨key, hkey⟩ := Option.ne_none_iff_exists'.mp h
  cases hj' : heads j with
  | none =>
    rw [ne_eq, ← leaf_id hin, ← hj, leaf_none hj'] at h
    exact absurd rfl h
  | some key' =>
    rw [leaf_some hkey, leaf_some hj', Node.mk.injEq] at hj
    exact hj.2

omit [OrderTop Key] in
theorem cmpLt_trichotomy (direction : Direction) (k k' : Key) :
    direction.cmpLt k k' = true ∨ k = k' ∨ direction.cmpLt k' k = true := by
  cases direction <;> simp only [Direction.cmpLt, decide_eq_true_eq]
  · exact lt_trichotomy k k'
  · obtain h | h | h := lt_trichotomy k k'
    · exact .inr (.inr h)
    · exact .inr (.inl h)
    · exact .inl h

omit [OrderTop Key] in
theorem cmpLt_asymm (h : direction.cmpLt k k' = true) : ¬direction.cmpLt k' k = true := by
  cases direction <;> simp only [Direction.cmpLt, decide_eq_true_eq] at h ⊢ <;> exact h.asymm

omit [OrderTop Key] in
theorem cmpLt_irrefl : ¬direction.cmpLt k k = true := fun h => cmpLt_asymm h h

omit [OrderTop Key] in
theorem cmpLt_trans {k'' : Key} (h : direction.cmpLt k k' = true)
    (h' : direction.cmpLt k' k'' = true) : direction.cmpLt k k'' = true := by
  cases direction <;> simp only [Direction.cmpLt, decide_eq_true_eq] at h h' ⊢
  · exact h.trans h'
  · exact h'.trans h

theorem contest (hin : ∀ j ≥ Node.idSentinel, heads j = none) :
    Contest (Node.beats direction) (leaf heads) where
  total i j hne := by
    cases hi : heads i with
    | none =>
      cases hj : heads j with
      | none => exact absurd (by rw [leaf_none hi, leaf_none hj]) hne
      | some key =>
        rw [leaf_none hi, leaf_some hj, sentinel_beats (lt_of_some hin hj),
          beats_sentinel (lt_of_some hin hj)]
        rfl
    | some key =>
      cases hj : heads j with
      | none =>
        rw [leaf_some hi, leaf_none hj, sentinel_beats (lt_of_some hin hi),
          beats_sentinel (lt_of_some hin hi)]
        rfl
      | some key' =>
        rw [leaf_some hi, leaf_some hj] at hne ⊢
        rw [Bool.eq_not, ne_eq, Bool.eq_iff_iff, beats_iff (lt_of_some hin hi) (lt_of_some hin hj),
          beats_iff (lt_of_some hin hj) (lt_of_some hin hi)]
        obtain h | rfl | h := cmpLt_trichotomy direction key key'
        · have hasymm := cmpLt_asymm h
          have hne' : key' ≠ key := fun heq => cmpLt_irrefl (heq ▸ h)
          simp [h, hasymm, hne']
        · have hij : i ≠ j := fun heq => hne (by rw [heq])
          have hirrefl : ¬direction.cmpLt key key := cmpLt_irrefl
          simp only [hirrefl, true_and, Bool.false_eq_true, false_or]
          omega
        · have hasymm := cmpLt_asymm h
          have hne' : key ≠ key' := fun heq => cmpLt_irrefl (heq ▸ h)
          simp [h, hasymm, hne']
  trans i j k hij hjk := by
    cases hi : heads i with
    | none =>
      cases hj : heads j with
      | none => rwa [leaf_none hi, ← leaf_none hj]
      | some key =>
        rw [leaf_none hi, leaf_some hj, sentinel_beats (lt_of_some hin hj)] at hij
        cases hij
    | some key =>
      cases hk : heads k with
      | none => rw [leaf_some hi, leaf_none hk, beats_sentinel (lt_of_some hin hi)]
      | some key'' =>
        cases hj : heads j with
        | none =>
          rw [leaf_none hj, leaf_some hk, sentinel_beats (lt_of_some hin hk)] at hjk
          cases hjk
        | some key' =>
          rw [leaf_some hi, leaf_some hj, beats_iff (lt_of_some hin hi) (lt_of_some hin hj)] at hij
          rw [leaf_some hj, leaf_some hk, beats_iff (lt_of_some hin hj) (lt_of_some hin hk)] at hjk
          rw [leaf_some hi, leaf_some hk, beats_iff (lt_of_some hin hi) (lt_of_some hin hk)]
          obtain h | ⟨rfl, h⟩ := hij
          · obtain h' | ⟨rfl, h'⟩ := hjk
            · exact .inl (cmpLt_trans h h')
            · exact .inl h
          · obtain h' | ⟨rfl, h'⟩ := hjk
            · exact .inl h'
            · exact .inr ⟨rfl, h.trans h'⟩

end Beats

section Replay

theorem read_of_some {α : Type} {values : List α} {i : Nat} {value : α}
    (h : values[i]? = some value) : read values i = .ok value := by
  rw [SegmentedArray.read, h]
  rfl

theorem write_of_lt {α : Type} {values : List α} {i : Nat} {value : α} (h : i < values.length) :
    write values i value = .ok (values.set i value) := by
  rw [write, assert_of h]
  rfl

variable {direction : Direction} {a b : Node Key}

theorem write_of_some {α : Type} {values : List α} {i : Nat} {old value : α}
    (h : values[i]? = some old) : write values i value = .ok (values.set i value) :=
  write_of_lt (List.getElem?_eq_some_iff.mp h).1

theorem select_winner :
    (⟨select (Node.beats direction a b) a.key b.key, select (Node.beats direction a b) a.id b.id⟩ :
      Node Key) = winner (Node.beats direction) a b := by
  unfold select winner
  split <;> rfl

theorem select_loser_key :
    select (Node.beats direction a b) b.key a.key = (loser (Node.beats direction) a b).key := by
  unfold select loser
  split <;> rfl

theorem select_loser_id :
    select (Node.beats direction a b) b.id a.id = (loser (Node.beats direction) a b).id := by
  unfold select loser
  split <;> rfl

-- The index of the `i`-th subtree of those that are `level` levels high.
def slot (height level i : Nat) : Nat :=
  2 ^ (height - level) - 1 + i

variable {height level level' i i' j : Nat}

theorem slot_injective (hl : level ≤ height) (hl' : level' ≤ height) (hi : i < 2 ^ (height - level))
    (hi' : i' < 2 ^ (height - level')) (h : slot height level i = slot height level' i') :
    level = level' ∧ i = i' := by
  unfold slot at h
  have hpow : ∀ l, l < height → 2 ^ (height - l) = 2 * 2 ^ (height - (l + 1)) := fun l hl => by
    rw [← Nat.pow_succ', show height - l = height - (l + 1) + 1 by omega]
  -- A level that is lower has all of its slots behind those of a higher one.
  have hbehind : ∀ l l', l < l' → l' ≤ height → 2 * 2 ^ (height - l') ≤ 2 ^ (height - l) := by
    intro l l' hlt hle
    rw [hpow l (by omega)]
    exact Nat.mul_le_mul_left 2 (Nat.pow_le_pow_right (by decide) (by omega))
  have hpos := Nat.two_pow_pos (height - level)
  have hpos' := Nat.two_pow_pos (height - level')
  obtain hlt | rfl | hgt := Nat.lt_trichotomy level level'
  · have := hbehind level level' hlt hl'
    omega
  · exact ⟨rfl, by omega⟩
  · have := hbehind level' level hgt hl
    omega

theorem slot_parent (h : level < height) :
    0 < slot height level i ∧ (slot height level i - 1) >>> 1 = slot height (level + 1) (i / 2) := by
  have hpow : 2 ^ (height - level) = 2 * 2 ^ (height - (level + 1)) := by
    rw [← Nat.pow_succ', show height - level = height - (level + 1) + 1 by omega]
  have hpos := Nat.two_pow_pos (height - (level + 1))
  unfold slot
  rw [Nat.shiftRight_eq_div_pow, hpow]
  omega

theorem div_two_pow_lt (h : level ≤ height) (hj : j < 2 ^ height) :
    j / 2 ^ level < 2 ^ (height - level) := by
  rw [Nat.div_lt_iff_lt_mul (Nat.two_pow_pos level), ← Nat.pow_add, Nat.sub_add_cancel h]
  exact hj

-- The node is the one that has lost at the given place of the tree.
def Lost (tree : TournamentTree Key) (level i : Nat) (node : Node Key) : Prop :=
  tree.loserKeys[slot tree.height level i]? = some node.key ∧
    tree.loserIds[slot tree.height level i]? = some node.id

def setLoser (tree : TournamentTree Key) (idx : Nat) (node : Node Key) : TournamentTree Key :=
  { tree with loserKeys := tree.loserKeys.set idx node.key, loserIds := tree.loserIds.set idx node.id }

variable {tree : TournamentTree Key} {node node' : Node Key}

omit [LinearOrder Key] in
theorem Lost.set (h : tree.Lost level i node) :
    (tree.setLoser (slot tree.height level i) node').Lost level i node' :=
  ⟨List.getElem?_set_self (List.getElem?_eq_some_iff.mp h.1).1,
    List.getElem?_set_self (List.getElem?_eq_some_iff.mp h.2).1⟩

omit [LinearOrder Key] in
theorem Lost.set_ne (h : tree.Lost level' i' node) (hl : level ≤ tree.height)
    (hl' : level' ≤ tree.height) (hi : i < 2 ^ (tree.height - level))
    (hi' : i' < 2 ^ (tree.height - level')) (hne : ¬(level = level' ∧ i = i')) :
    (tree.setLoser (slot tree.height level i) node').Lost level' i' node := by
  have hslot : slot tree.height level i ≠ slot tree.height level' i' := fun heq =>
    hne (slot_injective hl hl' hi hi' heq)
  exact ⟨by rw [← h.1]; exact List.getElem?_set_ne hslot,
    by rw [← h.2]; exact List.getElem?_set_ne hslot⟩

variable [OrderTop Key] {heads heads' : Nat → Option Key}

def best (direction : Direction) (heads : Nat → Option Key) (level i : Nat) : Node Key :=
  champion (Node.beats direction) (leaf heads) level i

def lost (direction : Direction) (heads : Nat → Option Key) (level i : Nat) : Node Key :=
  loser (Node.beats direction) (best direction heads level (2 * i))
    (best direction heads level (2 * i + 1))

theorem best_congr (hother : ∀ k, k ≠ j → heads' k = heads k) (hi : i ≠ j / 2 ^ level) :
    best direction heads' level i = best direction heads level i :=
  champion_congr fun k hk => by
    rw [leaf, leaf, hother k fun hkj => hi (by rw [← hk, hkj])]

theorem lost_congr (hother : ∀ k, k ≠ j → heads' k = heads k) (hi : i ≠ j / 2 ^ (level + 1)) :
    lost direction heads' level i = lost direction heads level i := by
  have hdiv : j / 2 ^ (level + 1) = j / 2 ^ level / 2 := by
    rw [Nat.pow_succ, Nat.div_div_eq_div_mul]
  rw [lost, lost, best_congr hother (by omega), best_congr hother (by omega)]

variable (level tree heads heads') in
theorem replay_ok {n : Nat} (hn : level + n = tree.height) (hj : j < 2 ^ tree.height)
    (hwon : best tree.direction heads tree.height 0 = leaf heads j) (hhead : heads j ≠ none)
    (hin : ∀ k ≥ Node.idSentinel, heads k = none) (hin' : ∀ k ≥ Node.idSentinel, heads' k = none)
    (hother : ∀ k, k ≠ j → heads' k = heads k)
    (hdone : ∀ l < level, ∀ i < 2 ^ (tree.height - (l + 1)),
      tree.Lost (l + 1) i (lost tree.direction heads' l i))
    (htodo : ∀ l < tree.height, level ≤ l → ∀ i < 2 ^ (tree.height - (l + 1)),
      tree.Lost (l + 1) i (lost tree.direction heads l i)) :
    ∃ loserKeys loserIds, tree.replay n (slot tree.height level (j / 2 ^ level))
        (best tree.direction heads' level (j / 2 ^ level)) =
          .ok (best tree.direction heads' tree.height 0, { tree with loserKeys, loserIds }) ∧
      ∀ l < tree.height, ∀ i < 2 ^ (tree.height - (l + 1)),
        Lost { tree with loserKeys, loserIds } (l + 1) i (lost tree.direction heads' l i) := by
  induction n generalizing level tree with
  | zero =>
    have hlevel : level = tree.height := hn
    refine ⟨tree.loserKeys, tree.loserIds, ?_, fun l hl i hi => hdone l (by omega) i hi⟩
    rw [hlevel, Nat.div_eq_of_lt hj]
    rfl
  | succ n ih =>
    have hlt : level < tree.height := by omega
    have hi : j / 2 ^ (level + 1) < 2 ^ (tree.height - (level + 1)) := div_two_pow_lt hlt hj
    have hlost := htodo level hlt (Nat.le_refl _) _ hi
    obtain ⟨hpos, hparent⟩ := slot_parent (i := j / 2 ^ level) hlt
    rw [Nat.div_div_eq_div_mul, ← Nat.pow_succ] at hparent
    have hpath : best tree.direction heads (level + 1) (j / 2 ^ (level + 1)) = leaf heads j := by
      refine champion_path (leaf_unique hin hhead) (tree.height - (level + 1)) ?_
      rw [Nat.add_sub_cancel' hlt, Nat.div_eq_of_lt hj]
      exact hwon
    have hreplayed := Tournament.replay (leaf_unique hin hhead)
      (contest hin' : Contest (Node.beats tree.direction) _) hpath fun k hk => by
        rw [leaf, leaf, hother k hk]
    have hwinner : winner (Node.beats tree.direction)
        (best tree.direction heads' level (j / 2 ^ level))
        (lost tree.direction heads level (j / 2 ^ (level + 1))) =
          best tree.direction heads' (level + 1) (j / 2 ^ (level + 1)) := hreplayed.1
    have hloser : loser (Node.beats tree.direction)
        (best tree.direction heads' level (j / 2 ^ level))
        (lost tree.direction heads level (j / 2 ^ (level + 1))) =
          lost tree.direction heads' level (j / 2 ^ (level + 1)) := hreplayed.2
    obtain ⟨loserKeys, loserIds, hreplay, hall⟩ := ih (level + 1)
      (tree.setLoser (slot tree.height (level + 1) (j / 2 ^ (level + 1)))
        (lost tree.direction heads' level (j / 2 ^ (level + 1))))
      (show level + 1 + n = tree.height by omega) hj hwon
      (fun l hl i' hi' => by
        by_cases hsame : l = level ∧ i' = j / 2 ^ (level + 1)
        · obtain ⟨rfl, rfl⟩ := hsame
          exact hlost.set
        · refine Lost.set_ne ?_ hlt (by omega) hi hi' (by omega)
          by_cases hl' : l = level
          · subst hl'
            rw [lost_congr hother fun heq => hsame ⟨rfl, heq⟩]
            exact htodo l hlt (Nat.le_refl _) i' hi'
          · exact hdone l (by omega) i' hi')
      (fun l hl hle i' hi' =>
        (htodo l hl (by omega) i' hi').set_ne hlt hl hi hi' (by omega))
    refine ⟨loserKeys, loserIds, ?_, hall⟩
    rw [TournamentTree.replay, assert_of hpos, ok_bind]
    simp only [hparent]
    rw [read_of_some hlost.1, ok_bind, read_of_some hlost.2, ok_bind, write_of_some hlost.1, ok_bind,
      write_of_some hlost.2, ok_bind]
    simp only [select_winner, select_loser_key, select_loser_id, Nat.succ_eq_add_one, hwinner, hloser]
    exact hreplay

end Replay

section Holds

-- The number of streams that have a head.
def headsLeft (heads : Nat → Option Key) (streamsCount : Nat) : Nat :=
  (List.range streamsCount).countP fun j => (heads j).isSome

variable {heads heads' : Nat → Option Key} {n j : Nat} {entrant : Option Key}

omit [LinearOrder Key] in
theorem headsLeft_congr (h : ∀ i < n, heads' i = heads i) : headsLeft heads' n = headsLeft heads n :=
  List.countP_congr fun i hi => by rw [h i (List.mem_range.mp hi)]

omit [LinearOrder Key] in
theorem headsLeft_succ :
    headsLeft heads (n + 1) = headsLeft heads n + if (heads n).isSome then 1 else 0 := by
  rw [headsLeft, headsLeft, List.range_succ, List.countP_append, List.countP_singleton]

omit [LinearOrder Key] in
theorem headsLeft_eq_zero : headsLeft heads n = 0 ↔ ∀ i < n, heads i = none := by
  simp [headsLeft, List.countP_eq_zero]

omit [LinearOrder Key] in
theorem headsLeft_update (heads : Nat → Option Key) (entrant : Option Key) (hj : j < n) :
    headsLeft (Function.update heads j entrant) n + (if (heads j).isSome then 1 else 0) =
      headsLeft heads n + if entrant.isSome then 1 else 0 := by
  induction n with
  | zero => omega
  | succ n ih =>
    rw [headsLeft_succ, headsLeft_succ]
    obtain hlt | rfl := Nat.lt_succ_iff_lt_or_eq.mp hj
    · rw [Function.update_of_ne (by omega)]
      have := ih hlt
      omega
    · have hsame : headsLeft (Function.update heads j entrant) j = headsLeft heads j :=
        headsLeft_congr fun i hi => Function.update_of_ne (by omega) _ _
      rw [Function.update_self, hsame]
      omega

variable [OrderTop Key] {direction : Direction} {tree : TournamentTree Key} {streamsCount : Nat}

-- The tree is the one of a tournament between the heads.
structure Holds (streamsCount : Nat) (tree : TournamentTree Key) (heads : Nat → Option Key) :
    Prop where
  fits : streamsCount ≤ 2 ^ tree.height
  bound : streamsCount ≤ Node.idSentinel
  absent : ∀ j ≥ streamsCount, heads j = none
  winner : (⟨tree.winKey, tree.winId⟩ : Node Key) = best tree.direction heads tree.height 0
  losers : ∀ level < tree.height, ∀ i < 2 ^ (tree.height - (level + 1)),
    tree.Lost (level + 1) i (lost tree.direction heads level i)
  left : tree.contestantsLeft = headsLeft heads streamsCount

theorem none_of_best (direction : Direction) (hin : ∀ k ≥ Node.idSentinel, heads k = none)
    (h : (best direction heads n 0).id = Node.idSentinel) (hj : j < 2 ^ n) : heads j = none := by
  obtain ⟨m, -, hm⟩ := champion_mem (Node.beats direction) (leaf heads) n 0
  have hbest : best direction heads n 0 = Node.sentinel := by
    rw [best, hm] at h ⊢
    exact leaf_none ((leaf_id hin).mp h)
  rw [← leaf_id hin]
  obtain heq | hbeats := (contest hin : Contest (Node.beats direction) _).champion_beats
    (Nat.div_eq_of_lt hj)
  · rw [← heq]
    exact h
  · by_contra hid
    obtain ⟨key, hkey⟩ := Option.ne_none_iff_exists'.mp (mt (leaf_id hin).mpr hid)
    rw [← best, hbest, leaf_some hkey, sentinel_beats (lt_of_some hin hkey)] at hbeats
    cases hbeats

namespace Holds

variable (h : Holds streamsCount tree heads)

include h

theorem inside : ∀ k ≥ Node.idSentinel, heads k = none := fun k hk =>
  h.absent k (Nat.le_trans h.bound hk)

theorem lt_count (hj : heads j ≠ none) : j < streamsCount := by
  by_contra hge
  exact hj (h.absent j (by omega))

theorem winner_leaf (hwin : heads tree.winId ≠ none) :
    best tree.direction heads tree.height 0 = leaf heads tree.winId := by
  obtain ⟨m, -, hm⟩ := champion_mem (Node.beats tree.direction) (leaf heads) tree.height 0
  have hid : tree.winId = (leaf heads m).id := by rw [← hm]; exact congrArg Node.id h.winner
  rw [best, hm]
  cases hhead : heads m with
  | none =>
    rw [leaf_none hhead] at hid
    exact absurd (h.inside _ (hid ▸ Nat.le_refl _)) hwin
  | some key =>
    rw [leaf_some hhead] at hid
    rw [hid]

theorem win_some (hleft : 0 < tree.contestantsLeft) : heads tree.winId ≠ none := by
  intro hnone
  rw [h.left, Nat.pos_iff_ne_zero] at hleft
  refine hleft (headsLeft_eq_zero.mpr fun i hi => ?_)
  refine none_of_best tree.direction h.inside ?_ (Nat.lt_of_lt_of_le hi h.fits)
  obtain ⟨m, -, hm⟩ := champion_mem (Node.beats tree.direction) (leaf heads) tree.height 0
  have hid : tree.winId = (leaf heads m).id := by rw [← hm]; exact congrArg Node.id h.winner
  rw [best, hm, leaf_id h.inside]
  cases hhead : heads m with
  | none => rfl
  | some key =>
    rw [leaf_some hhead] at hid
    have hid : tree.winId = m := hid
    rw [← hnone, hid, hhead]

theorem win_first {key key' : Key} (hwin : heads tree.winId = some key) (hj : heads j = some key') :
    tree.direction.cmpLt key key' ∨ key = key' ∧ tree.winId ≤ j := by
  have hne : heads tree.winId ≠ none := by simp [hwin]
  have hlt := Nat.lt_of_lt_of_le (h.lt_count (j := j) (by simp [hj])) h.fits
  obtain heq | hbeats := (contest h.inside : Contest (Node.beats tree.direction) _).champion_beats
    (Nat.div_eq_of_lt hlt)
  · rw [← best, h.winner_leaf hne, leaf_some hwin, leaf_some hj, Node.mk.injEq] at heq
    exact .inr ⟨heq.1, heq.2.le⟩
  · rw [← best, h.winner_leaf hne, leaf_some hwin, leaf_some hj,
      beats_iff (lt_of_some h.inside hwin) (lt_of_some h.inside hj)] at hbeats
    exact hbeats.imp_right fun hb => ⟨hb.1, hb.2.le⟩

theorem popWinner_ok (hwin : heads tree.winId ≠ none) (entrant : Option Key) :
    ∃ tree', tree.popWinner entrant = .ok tree' ∧ tree'.direction = tree.direction ∧
      Holds streamsCount tree' (Function.update heads tree.winId entrant) := by
  have hcount := h.lt_count hwin
  have hlt := Nat.lt_of_lt_of_le hcount h.fits
  have hsome : (heads tree.winId).isSome := Option.isSome_iff_ne_none.mpr hwin
  have hupdate := headsLeft_update heads entrant hcount
  rw [if_pos hsome, ← h.left] at hupdate
  have habsent : ∀ k ≥ streamsCount, Function.update heads tree.winId entrant k = none :=
    fun k hk => by rw [Function.update_of_ne (by omega), h.absent k hk]
  have hin' : ∀ k ≥ Node.idSentinel, Function.update heads tree.winId entrant k = none :=
    fun k hk => habsent k (Nat.le_trans h.bound hk)
  have hpos : entrant = none → 0 < tree.contestantsLeft := fun hnone => by
    rw [hnone] at hupdate
    simp at hupdate
    omega
  have hleft : (if entrant = none then tree.contestantsLeft - 1 else tree.contestantsLeft) =
      headsLeft (Function.update heads tree.winId entrant) streamsCount := by
    cases entrant with
    | none =>
      rw [if_pos rfl]
      simp at hupdate
      omega
    | some key =>
      rw [if_neg (by simp)]
      simp at hupdate
      omega
  have hnew : ({ key := entrant.getD ⊤, id := if entrant ≠ none then tree.winId else Node.idSentinel } :
      Node Key) = leaf (Function.update heads tree.winId entrant) tree.winId := by
    cases entrant with
    | none =>
      rw [leaf_none (Function.update_self ..)]
      rfl
    | some key =>
      rw [leaf_some (Function.update_self ..), if_pos (by simp)]
      rfl
  obtain ⟨loserKeys, loserIds, hreplay, hall⟩ := replay_ok 0 { tree with
      contestantsLeft := if entrant = none then tree.contestantsLeft - 1 else tree.contestantsLeft }
    heads (Function.update heads tree.winId entrant) (Nat.zero_add _) hlt (h.winner_leaf hwin) hwin
    h.inside hin'
    (fun k hk => Function.update_of_ne hk _ _) (fun l hl => absurd hl (by omega))
    (fun l hl _ => h.losers l hl)
  have hidx : (1 <<< tree.height - 1) + tree.winId = slot tree.height 0 (tree.winId / 2 ^ 0) := by
    simp [slot, Nat.shiftLeft_eq]
  have hbest : best tree.direction (Function.update heads tree.winId entrant) 0 (tree.winId / 2 ^ 0) =
      leaf (Function.update heads tree.winId entrant) tree.winId := by
    simp [best, champion]
  rw [hbest] at hreplay
  refine ⟨{
    loserKeys, loserIds, height := tree.height, direction := tree.direction
    winKey := (best tree.direction (Function.update heads tree.winId entrant) tree.height 0).key
    winId := (best tree.direction (Function.update heads tree.winId entrant) tree.height 0).id
    contestantsLeft := if entrant = none then tree.contestantsLeft - 1 else tree.contestantsLeft
  }, ?_, rfl, ?_⟩
  · rw [popWinner, assert_of (by rw [Nat.shiftLeft_eq, Nat.one_mul]; exact hlt), ok_bind,
      assert_of hpos, ok_bind]
    simp only [hnew, hidx]
    rw [hreplay, ok_bind, assert_of ?_, ok_bind]
    rfl
    · intro hid
      refine hleft.trans (headsLeft_eq_zero.mpr fun i hi => ?_)
      exact none_of_best _ hin' hid (Nat.lt_of_lt_of_le hi h.fits)
  · exact {
      fits := h.fits
      bound := h.bound
      absent := habsent
      winner := rfl
      losers := hall
      left := hleft
    }

end Holds

end Holds

section Init

theorem foldlM_range {β : Type} {f : β → Nat → Result β} {P : Nat → β → Prop} {n : Nat} {b : β}
    (hb : P 0 b) (hstep : ∀ m < n, ∀ b, P m b → ∃ b', f b m = .ok b' ∧ P (m + 1) b') :
    ∃ b', (List.range n).foldlM f b = .ok b' ∧ P n b' := by
  induction n with
  | zero => exact ⟨b, rfl, hb⟩
  | succ n ih =>
    obtain ⟨b', hfold, hb'⟩ := ih fun m hm => hstep m (by omega)
    obtain ⟨b'', hf, hb''⟩ := hstep n (by omega) b' hb'
    refine ⟨b'', ?_, hb''⟩
    rw [List.range_succ, List.foldlM_append, hfold, ok_bind, List.foldlM_cons, hf, ok_bind]
    rfl

variable [OrderTop Key] {direction : Direction} {heads : Nat → Option Key}
  {contestants : List (Node Key)} {tree tree₀ : TournamentTree Key} {level m nodeCountMax : Nat}
  {streamsCount : Nat}

theorem countContestants_ok {n start : Nat} {previous : Option (Node Key)}
    (hin : ∀ k ≥ Node.idSentinel, heads k = none) (hprev : ∀ p ∈ previous, p.id < start) :
    countContestants previous ((List.range' start n).map (leaf heads)) =
      .ok ((List.range' start n).countP fun j => (heads j).isSome) := by
  induction n generalizing start previous with
  | zero => rfl
  | succ n ih =>
    rw [List.range'_succ, List.map_cons, List.countP_cons, countContestants]
    cases hhead : heads start with
    | none =>
      rw [if_pos ((leaf_id hin).mpr hhead), ih fun p hp => by have := hprev p hp; omega]
      rfl
    | some key =>
      have hid : (leaf heads start).id = start := by rw [leaf_some hhead]
      rw [if_neg (by rw [leaf_id hin, hhead]; simp), assert_of (by rw [hid]; exact hprev), ok_bind,
        ih fun p hp => ?_]
      · rfl
      · cases hp
        omega

-- After all matches of the lower levels, and the first `m` matches of the level.
structure Played (direction : Direction) (heads : Nat → Option Key) (tree₀ : TournamentTree Key)
    (level m : Nat) (state : List (Node Key) × TournamentTree Key) : Prop where
  front : ∀ i < m, state.1[i]? = some (best direction heads (level + 1) i)
  back : ∀ i, 2 * m ≤ i → i < 2 ^ (tree₀.height - level) →
    state.1[i]? = some (best direction heads level i)
  lower : ∀ l < level, ∀ i < 2 ^ (tree₀.height - (l + 1)),
    state.2.Lost (l + 1) i (lost direction heads l i)
  same : ∀ i < m, state.2.Lost (level + 1) i (lost direction heads level i)
  keys : 2 ^ tree₀.height ≤ state.2.loserKeys.length
  ids : 2 ^ tree₀.height ≤ state.2.loserIds.length
  frame : state.2.height = tree₀.height ∧ state.2.direction = tree₀.direction ∧
    state.2.contestantsLeft = tree₀.contestantsLeft

theorem two_pow_level {height : Nat} (h : level < height) :
    2 ^ (height - level) = 2 * 2 ^ (height - (level + 1)) := by
  rw [← Nat.pow_succ', show height - level = height - (level + 1) + 1 by omega]

namespace Played

theorem compete_ok {state : List (Node Key) × TournamentTree Key}
    (h : Played direction heads tree₀ level m state) (hlevel : level < tree₀.height)
    (hm : m < 2 ^ (tree₀.height - (level + 1))) :
    ∃ state', compete direction (2 ^ (tree₀.height - (level + 1)) - 1) state m = .ok state' ∧
      Played direction heads tree₀ level (m + 1) state' := by
  obtain ⟨contestants, tree⟩ := state
  have hheight : tree.height = tree₀.height := h.frame.1
  have hpow := two_pow_level hlevel
  have hslot : slot tree.height (level + 1) m = 2 ^ (tree₀.height - (level + 1)) - 1 + m := by
    rw [slot, hheight]
  have hle : 2 ^ (tree₀.height - level) ≤ 2 ^ tree₀.height :=
    Nat.pow_le_pow_right (by decide) (Nat.sub_le ..)
  have ha : contestants[m * 2]? = some (best direction heads level (2 * m)) := by
    rw [Nat.mul_comm]
    exact h.back _ (Nat.le_refl _) (by omega)
  have hb : contestants[m * 2 + 1]? = some (best direction heads level (2 * m + 1)) := by
    rw [Nat.mul_comm]
    exact h.back _ (by omega) (by omega)
  have hfront : m < contestants.length := by
    have := (List.getElem?_eq_some_iff.mp ha).1
    omega
  have hkeys : 2 ^ (tree₀.height - (level + 1)) - 1 + m < tree.loserKeys.length :=
    Nat.lt_of_lt_of_le (by omega) h.keys
  have hids : 2 ^ (tree₀.height - (level + 1)) - 1 + m < tree.loserIds.length :=
    Nat.lt_of_lt_of_le (by omega) h.ids
  refine ⟨(contestants.set m (best direction heads (level + 1) m),
    tree.setLoser (slot tree.height (level + 1) m) (lost direction heads level m)), ?_, ?_⟩
  · rw [compete, read_of_some ha, ok_bind, read_of_some hb, ok_bind]
    simp only
    rw [write_of_lt hfront, ok_bind, write_of_lt hkeys, ok_bind, write_of_lt hids, ok_bind, hslot]
    simp only [select_loser_key, select_loser_id]
    rfl
  · refine {
      front := fun i hi => ?_
      back := fun i hi hi' => ?_
      lower := fun l hl i hi => ?_
      same := fun i hi => ?_
      keys := by rw [setLoser, List.length_set]; exact h.keys
      ids := by rw [setLoser, List.length_set]; exact h.ids
      frame := h.frame
    }
    · obtain hlt | rfl := Nat.lt_succ_iff_lt_or_eq.mp hi
      · rw [List.getElem?_set_ne (by omega)]
        exact h.front i hlt
      · rw [List.getElem?_set_self hfront]
    · rw [List.getElem?_set_ne (by omega)]
      exact h.back i (by omega) hi'
    · refine (h.lower l hl i hi).set_ne ?_ ?_ ?_ ?_ ?_
      all_goals try rw [hheight]
      all_goals omega
    · obtain hlt | rfl := Nat.lt_succ_iff_lt_or_eq.mp hi
      · refine (h.same i hlt).set_ne ?_ ?_ ?_ ?_ ?_
        all_goals try rw [hheight]
        all_goals omega
      · exact ⟨List.getElem?_set_self (hslot ▸ hkeys), List.getElem?_set_self (hslot ▸ hids)⟩

theorem playLevel_ok {state : List (Node Key) × TournamentTree Key}
    (h : Played direction heads tree₀ level 0 state) (hlevel : level < tree₀.height) :
    ∃ state', playLevel direction (2 ^ tree₀.height) state level = .ok state' ∧
      Played direction heads tree₀ (level + 1) 0 state' := by
  have hshift : ∀ l, l ≤ tree₀.height → 2 ^ tree₀.height >>> l = 2 ^ (tree₀.height - l) :=
    fun l hl => by rw [Nat.shiftRight_eq_div_pow, Nat.pow_div hl (by decide)]
  have hpow := two_pow_level hlevel
  have hpos := Nat.two_pow_pos (tree₀.height - (level + 1))
  obtain ⟨state', hfold, h'⟩ := foldlM_range (P := Played direction heads tree₀ level) h
    fun m (hm : m < 2 ^ (tree₀.height - (level + 1))) state hs => hs.compete_ok hlevel hm
  refine ⟨state', ?_, ?_⟩
  · rw [playLevel, hshift _ hlevel, hshift _ hlevel.le]
    simp only [show 2 ^ (tree₀.height - level) - 1 - (2 ^ (tree₀.height - (level + 1)) - 1) =
      2 ^ (tree₀.height - (level + 1)) by omega]
    exact hfold
  · exact {
      front := fun i hi => absurd hi (by omega)
      back := fun i _ hi => h'.front i hi
      lower := fun l hl i hi => by
        obtain hlt | rfl := Nat.lt_succ_iff_lt_or_eq.mp hl
        · exact h'.lower l hlt i hi
        · exact h'.same i hi
      same := fun i hi => absurd hi (by omega)
      keys := h'.keys
      ids := h'.ids
      frame := h'.frame
    }

end Played

theorem init_ok (direction : Direction) (hcount : streamsCount ≤ nodeCountMax)
    (hpow : ∃ k, nodeCountMax = 2 ^ k) (hbound : streamsCount ≤ Node.idSentinel)
    (habsent : ∀ j ≥ streamsCount, heads j = none) :
    ∃ tree, init direction ((List.range nodeCountMax).map (leaf heads)) streamsCount = .ok tree ∧
      tree.direction = direction ∧ tree.contestantsLeft = headsLeft heads streamsCount ∧
      (0 < tree.contestantsLeft → Holds streamsCount tree heads) := by
  have hin : ∀ k ≥ Node.idSentinel, heads k = none := fun k hk =>
    habsent k (Nat.le_trans hbound hk)
  have hlength : ((List.range nodeCountMax).map (leaf heads)).length = nodeCountMax := by simp
  have htake : ((List.range nodeCountMax).map (leaf heads)).take streamsCount =
      (List.range' 0 streamsCount).map (leaf heads) := by
    rw [← List.map_take, List.take_range, Nat.min_eq_left hcount, List.range_eq_range']
  have hleft : countContestants none (((List.range nodeCountMax).map (leaf heads)).take streamsCount) =
      .ok (headsLeft heads streamsCount) := by
    rw [htake, countContestants_ok hin (by simp), headsLeft, List.range_eq_range']
  have hrest : ∀ c ∈ ((List.range nodeCountMax).map (leaf heads)).drop streamsCount,
      c.id = Node.idSentinel := by
    intro c hc
    obtain ⟨j, hj, rfl⟩ := List.mem_drop_iff_getElem.mp hc
    rw [List.getElem_map, List.getElem_range, leaf_id hin]
    exact habsent _ (by omega)
  rw [init]
  simp only [hlength]
  rw [assert_of hcount, ok_bind, hleft, ok_bind, assert_of hrest, ok_bind]
  split
  · exact ⟨_, rfl, rfl, rfl, fun hpos => absurd hpos (by simp [*])⟩
  · obtain ⟨k, hk⟩ := hpow
    have hheight : (ceilPowerOfTwo streamsCount).log2 = Nat.clog 2 streamsCount :=
      Nat.log2_two_pow
    have hfits : 2 ^ Nat.clog 2 streamsCount ≤ nodeCountMax := by
      rw [hk] at hcount ⊢
      exact Nat.pow_le_pow_right (by decide) (Nat.clog_le_of_le_pow hcount)
    have hstart : Played direction heads {
          winKey := ⊤, winId := Node.idSentinel, loserKeys := List.replicate nodeCountMax ⊤
          loserIds := List.replicate nodeCountMax Node.idSentinel, direction
          contestantsLeft := headsLeft heads streamsCount, height := Nat.clog 2 streamsCount
        } 0 0 ((List.range nodeCountMax).map (leaf heads), {
          winKey := ⊤, winId := Node.idSentinel, loserKeys := List.replicate nodeCountMax ⊤
          loserIds := List.replicate nodeCountMax Node.idSentinel, direction
          contestantsLeft := headsLeft heads streamsCount, height := Nat.clog 2 streamsCount
        }) := {
      front := fun i hi => absurd hi (by omega)
      back := fun i _ hi => by
        rw [List.getElem?_map, List.getElem?_range (Nat.lt_of_lt_of_le hi hfits)]
        rfl
      lower := fun l hl => absurd hl (by omega)
      same := fun i hi => absurd hi (by omega)
      keys := by rw [List.length_replicate]; exact hfits
      ids := by rw [List.length_replicate]; exact hfits
      frame := ⟨rfl, rfl, rfl⟩
    }
    obtain ⟨⟨contestants, tree⟩, hfold, hplayed⟩ := foldlM_range (n := Nat.clog 2 streamsCount)
      (P := fun level => Played direction heads _ level 0) hstart
      fun level hl state hs => hs.playLevel_ok hl
    have hfirst : contestants[0]? = some (best direction heads (Nat.clog 2 streamsCount) 0) :=
      hplayed.back 0 (Nat.le_refl _) (Nat.two_pow_pos _)
    have hframe := hplayed.frame
    refine ⟨{ tree with
      winKey := (best direction heads (Nat.clog 2 streamsCount) 0).key
      winId := (best direction heads (Nat.clog 2 streamsCount) 0).id }, ?_,
      hframe.2.1, hframe.2.2, fun _ => ?_⟩
    · simp only [hheight]
      rw [show ceilPowerOfTwo streamsCount = 2 ^ Nat.clog 2 streamsCount from rfl, hfold, ok_bind]
      simp only
      rw [read_of_some hfirst]
      rfl
    · have hheight' : tree.height = Nat.clog 2 streamsCount := hframe.1
      have hdirection : tree.direction = direction := hframe.2.1
      have hlosers : ∀ l < tree.height, ∀ i < 2 ^ (tree.height - (l + 1)),
          tree.Lost (l + 1) i (lost tree.direction heads l i) := by
        rw [hdirection, hheight']
        exact hplayed.lower
      exact {
        fits := by
          show streamsCount ≤ 2 ^ tree.height
          rw [hheight']
          exact Nat.le_pow_clog (by decide) _
        bound := hbound
        absent := habsent
        winner := by simp only [hheight', hdirection]
        losers := hlosers
        left := hframe.2.2
      }

end Init

end TournamentTree

end TigerBeetle
