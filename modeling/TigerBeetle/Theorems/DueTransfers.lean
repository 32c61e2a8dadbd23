import TigerBeetle.Theorems.ClosedAccounts

namespace TigerBeetle.HashMap

theorem total_add {K V : Type} [DecidableEq K] {f g h : V → Nat} {map : HashMap K V}
    (hadd : ∀ key value, map.lookup key = some value → f value + g value = h value) :
    total f map + total g map = total h map := by
  rw [← total_congr hadd]
  unfold total
  rw [← List.sum_map_add]

end TigerBeetle.HashMap

namespace TigerBeetle.Accounting

open Fallible HashMap

namespace StateMachine

variable {sm sm' : StateMachine} {timestamp : Nat} {message : String}

-- A pending transfer that has a timeout.
def Outstanding (sm : StateMachine) (t : Transfer) : Prop :=
  (sm.transfersPending.lookup t.timestamp).map TransferPending.status = some .pending ∧ 0 < t.timeout

instance {t : Transfer} : Decidable (sm.Outstanding t) :=
  inferInstanceAs (Decidable (_ ∧ _))

-- A pending transfer whose time has come.
def Expiring (sm : StateMachine) (timestamp : Nat) (t : Transfer) : Prop :=
  sm.Outstanding t ∧ t.timestamp + t.timeoutNs ≤ timestamp

instance {t : Transfer} : Decidable (sm.Expiring timestamp t) :=
  inferInstanceAs (Decidable (_ ∧ _))

-- The number of the transfers whose time has come.
def expiringCount (sm : StateMachine) (timestamp : Nat) : Nat :=
  sm.transfers.entries.countP fun entry => sm.Expiring timestamp entry.2

-- What is listed for a pending transfer that has a timeout.
def Lists (sm : StateMachine) (x : Nat × Nat × U128) (p : Transfer) : Prop :=
  sm.transfers.lookup x.2.2 = some p ∧ sm.Outstanding p ∧
    x = (p.timestamp + p.timeoutNs, p.timestamp, x.2.2)

theorem expect_of {α : Type} {x : Option α} {a : α} (h : x = some a) :
    expect x message = .ok a := by
  subst h
  rfl

-- The row of a pending transfer is that of the one transfer with its timestamp.
theorem row_transfer (hb : sm.ledger.Balanced) {row : TransferPending}
    (hr : sm.transfersPending.lookup timestamp = some row) :
    ∃ id p, sm.transfersByTimestamp.lookup timestamp = some id ∧ sm.transfers.lookup id = some p ∧
      p.flags.pending = true ∧ p.timestamp = timestamp := by
  obtain ⟨id, p, hp, hpending, hts⟩ := hb.rows timestamp row hr
  exact ⟨id, p, hts ▸ hb.timestamp id p hp, hp, hpending, hts⟩

theorem expiring_succeeds (hb : sm.ledger.Balanced) : Succeeds (sm.expiring message) := by
  unfold expiring
  simp only [Meets.bind_eq, Meets.pure_eq]
  refine Meets.weaken (fun _ _ => trivial) (mapM_meets (Q := fun _ => True) fun entry hm => ?_)
  have hr : sm.transfersPending.lookup entry.1 = some entry.2 := AList.mem_lookup_iff.mpr hm
  obtain ⟨id, p, hid, hp, hpending, _⟩ := row_transfer hb hr
  split
  · trivial
  · rw [expect_of hid, ok_bind, expect_of hp, ok_bind, assert_of hpending, ok_bind]
    trivial

-- Each pending transfer that has a timeout is listed, and nothing else is.
theorem expiring_lists (hb : sm.ledger.Balanced) :
    Meets (fun _ => True) (fun listed => ∀ x, x ∈ listed ↔ ∃ p, sm.Lists x p)
      (sm.expiring message) := by
  have hlisted := sm.entries_listed message
  unfold expiring
  simp only [Meets.bind_eq, Meets.pure_eq]
  refine (mapM_related hlisted).weaken fun rows ⟨hrows, hentries⟩ x => ?_
  rw [List.mem_mergeSort]
  constructor
  case mp =>
    intro hx
    obtain ⟨_, hm, rfl⟩ := List.mem_filterMap.mp hx
    obtain ⟨⟨t, row⟩, he, hl⟩ := hrows _ hm
    have hr : sm.transfersPending.lookup t = some row := AList.mem_lookup_iff.mpr he
    obtain ⟨key, p, hkey, hp, _, hts⟩ := row_transfer hb hr
    unfold Listed at hl
    split at hl
    · exact absurd hl (Option.some_ne_none _)
    · next hs =>
      obtain ⟨id, p', hid, hp', hx⟩ := hl
      obtain rfl : key = id := Option.some.inj (hkey.symm.trans hid)
      obtain rfl : p = p' := Option.some.inj (Eq.trans (Eq.symm hp) hp')
      split at hx
      · exact absurd hx (Option.some_ne_none _)
      · next ht =>
        obtain rfl : x = _ := Option.some.inj hx
        refine ⟨p, hp, ⟨?_, Nat.pos_of_ne_zero ht⟩, by rw [hts]⟩
        rw [hts, hr, Option.map_some, not_not.mp hs]
  case mpr =>
    rintro ⟨p, hp, ⟨hs, ht⟩, hx⟩
    have ⟨row, hr, hstatus⟩ := Option.map_eq_some_iff.mp hs
    have ⟨listed, hm, hl⟩ := hentries ⟨p.timestamp, row⟩ (AList.mem_lookup_iff.mp hr)
    unfold Listed at hl
    rw [if_neg (by simp [hstatus])] at hl
    obtain ⟨key, p', hkey, hp', rfl⟩ := hl
    obtain rfl : x.2.2 = key := Option.some.inj ((hb.timestamp x.2.2 p hp).symm.trans hkey)
    obtain rfl : p = p' := Option.some.inj (Eq.trans (Eq.symm hp) hp')
    rw [if_neg (by omega), ← hx] at hm
    exact List.mem_filterMap.mpr ⟨_, hm, rfl⟩

section Sorted

variable {α : Type} {f : α → Nat} {xs : List α} {x : α} {bound index : Nat}

-- In a list that is sorted, what is within a bound comes first.
theorem le_iff_lt_countP (hs : xs.Pairwise fun x y => f x ≤ f y) (hx : xs[index]? = some x) :
    f x ≤ bound ↔ index < xs.countP fun y => f y ≤ bound := by
  induction xs generalizing index with
  | nil => simp at hx
  | cons y ys ih =>
    obtain ⟨hy, hs⟩ := List.pairwise_cons.mp hs
    have hnone (h : ¬f y ≤ bound) : ys.countP (fun z => f z ≤ bound) = 0 := by
      refine List.countP_eq_zero.mpr fun z hz => ?_
      have := hy z hz
      simp only [decide_eq_true_eq]
      omega
    rw [List.countP_cons]
    cases index with
    | zero =>
      obtain rfl : y = x := by simpa using hx
      by_cases h : f y ≤ bound
      · simp [h]
      · simp [h, hnone h]
    | succ index =>
      have hx : ys[index]? = some x := by simpa using hx
      have hle := hy x (List.mem_of_getElem? hx)
      rw [ih hs hx]
      by_cases h : f y ≤ bound
      · simp [h]
      · simp [h, hnone h]

end Sorted

-- The listed transfers whose time has come by then are as many as there are.
theorem countP_eq_expiringCount {listed : List (Nat × Nat × U128)}
    (hl : ∀ x, x ∈ listed ↔ ∃ p, sm.Lists x p) (hd : listed.Pairwise fun x y => x.2.1 ≠ y.2.1) :
    listed.countP (fun x => x.1 ≤ timestamp) = sm.expiringCount timestamp := by
  let row (entry : Sigma fun _ : U128 => Transfer) : Option (Nat × Nat × U128) :=
    if sm.Outstanding entry.2 then
      some (entry.2.timestamp + entry.2.timeoutNs, entry.2.timestamp, entry.1)
    else
      none
  have hnodup : listed.Nodup := hd.imp fun h he => h (congrArg (·.2.1) he)
  have hkey : ∀ {entry x}, row entry = some x → x.2.2 = entry.1 := by
    intro entry x hx
    unfold row at hx
    split at hx
    · exact Option.some.inj hx ▸ rfl
    · exact absurd hx.symm (Option.some_ne_none _)
  have hrows : (sm.transfers.entries.filterMap row).Nodup := by
    refine List.Pairwise.filterMap row (fun entry entry' hne x hx x' hx' he => hne ?_)
      sm.transfers.nodupKeys.pairwise_ne
    rw [← hkey hx, ← hkey hx', he]
  have hperm : listed.Perm (sm.transfers.entries.filterMap row) := by
    refine (List.perm_ext_iff_of_nodup hnodup hrows).mpr fun x => ?_
    rw [hl, List.mem_filterMap]
    constructor
    · rintro ⟨p, hp, ho, hx⟩
      refine ⟨⟨x.2.2, p⟩, AList.mem_lookup_iff.mp hp, ?_⟩
      unfold row
      rw [if_pos ho, ← hx]
    · rintro ⟨⟨key, p⟩, hm, hx⟩
      unfold row at hx
      split at hx
      · next ho =>
        obtain rfl := Option.some.inj hx
        exact ⟨p, AList.mem_lookup_iff.mpr hm, ho, rfl⟩
      · exact absurd hx.symm (Option.some_ne_none _)
  rw [hperm.countP_eq, List.countP_filterMap]
  unfold expiringCount
  refine List.countP_congr fun entry _ => ?_
  rw [decide_eq_true_iff]
  by_cases ho : sm.Outstanding entry.2
  · have hrow : row entry = some _ := if_pos ho
    rw [hrow, Option.map_some, Option.getD_some, decide_eq_true_iff]
    exact ⟨fun h => ⟨ho, h⟩, And.right⟩
  · have hrow : row entry = none := if_neg ho
    rw [hrow]
    exact ⟨fun h => absurd h Bool.false_ne_true, fun h => absurd h.1 ho⟩

end StateMachine

end TigerBeetle.Accounting
