import TigerBeetle.Theorems.DueTransfers

namespace TigerBeetle.Accounting

open Fallible HashMap

namespace StateMachine

variable {sm sm' sm'' : StateMachine} {timestamp count index : Nat} {id : U128} {p : Transfer}
    {original : U128 → Prop} {due : List (Nat × Nat × U128)}

-- The replica sets the timestamp of the last commit.
def setCommitTimestamp (sm : StateMachine) (timestamp : Nat) : StateMachine :=
  { sm with commitTimestamp := timestamp }

-- What the transfers of a party whose time has come amount to.
def expiringTotal (sm : StateMachine) (timestamp : Nat) (party : Transfer → U128) (id : U128) : Nat :=
  total (fun t => if party t = id ∧ sm.Expiring timestamp t then t.amount.toNat else 0) sm.transfers

-- An account that is closed by a transfer whose time has come.
def Reopens (sm : StateMachine) (timestamp : Nat) (id : U128) : Prop :=
  ∃ key t, sm.transfers.lookup key = some t ∧ sm.Expiring timestamp t ∧ t.Closes id

-- An account before and after the transfers expire.
structure Released (sm : StateMachine) (timestamp : Nat) (id : U128) (old new : Account) : Prop where
  debits : new.debitsPending.toNat + sm.expiringTotal timestamp Transfer.debitAccountId id =
    old.debitsPending.toNat
  credits : new.creditsPending.toNat + sm.expiringTotal timestamp Transfer.creditAccountId id =
    old.creditsPending.toNat
  reopened : sm.Reopens timestamp id → old.flags.closed = true ∧ new.flags = old.flags.withoutClosed
  flags : ¬sm.Reopens timestamp id → new.flags = old.flags
  rest : new = { old with
    debitsPending := new.debitsPending
    creditsPending := new.creditsPending
    flags := new.flags }

-- The transfers whose time has come expire, and nothing else happens to the accounts, to the transfers
-- and to their statuses.
structure Expires (sm : StateMachine) (timestamp : Nat) (sm' : StateMachine) : Prop where
  transfers : sm'.transfers = sm.transfers
  timestamps : sm'.transfersByTimestamp = sm.transfersByTimestamp
  expired : ∀ key t, sm.transfers.lookup key = some t → sm.Expiring timestamp t →
    sm'.transfersPending.lookup t.timestamp = some ⟨t.timestamp, .expired⟩
  statuses : ∀ time, (∀ key t, sm.transfers.lookup key = some t → sm.Expiring timestamp t →
    t.timestamp ≠ time) → sm'.transfersPending.lookup time = sm.transfersPending.lookup time
  accounts : ∀ id, (sm.accounts.lookup id).Rel (sm.Released timestamp id) (sm'.accounts.lookup id)

theorem updateAccountIf_succeeds {updated : Bool} {account old : Account}
    (h : sm.accounts.lookup account.id = some old) (ht : old.timestamp = account.timestamp) :
    Meets (fun _ => False)
      (fun sm' => sm'.transfersPending = sm.transfersPending ∧
        sm'.accountEvents = sm.accountEvents ∧
        ∀ id ≠ account.id, sm'.accounts.lookup id = sm.accounts.lookup id)
      (sm.updateAccountIf updated account) := by
  unfold updateAccountIf
  split
  · unfold updateAccount
    rw [expect_of h, ok_bind, assert_of ht, ok_bind]
    exact ⟨rfl, rfl, fun id hne => AList.lookup_insert_ne hne⟩
  · exact ⟨rfl, rfl, fun _ _ => rfl⟩

theorem updateTransferPendingStatus_succeeds {status : TransferPendingStatus}
    (h : (sm.transfersPending.lookup timestamp).map TransferPending.status = some .pending) :
    Meets (fun _ => False) (fun sm' => sm'.accountEvents = sm.accountEvents)
      (sm.updateTransferPendingStatus timestamp status) := by
  obtain ⟨row, hr, hs⟩ := Option.map_eq_some_iff.mp h
  unfold updateTransferPendingStatus
  rw [expect_of hr, ok_bind, assert_of hs, ok_bind]
  rfl

-- The event of an expiry is recorded if there is none at its time.
theorem accountEvent_succeeds_iff {dr cr : Account} {flags : TransferFlags} {requested amount : U128}
    (ht : 0 < timestamp) (hl : dr.ledger = cr.ledger) :
    Succeeds (sm.accountEvent timestamp dr cr flags .expired (some p) requested amount) ↔
      sm.accountEvents.lookup timestamp = none := by
  unfold accountEvent
  simp only [Meets.bind_eq, Meets.pure_eq, meets_assert_eq]
  simp [ht, hl]

-- A pending transfer that is due expires unless its time comes after the timestamp, or there is an
-- event at the timestamp.
theorem expire_succeeds_iff [Hasher] (hs : Sound sm) (hshut : sm.ledger.Shut original)
    (hp : sm.transfers.lookup id = some p)
    (hstatus : (sm.transfersPending.lookup p.timestamp).map TransferPending.status = some .pending)
    (ht : sm.commitTimestamp < timestamp) :
    Succeeds (sm.expire timestamp id) ↔
      p.timestamp + p.timeoutNs ≤ timestamp ∧ sm.accountEvents.lookup timestamp = none := by
  obtain ⟨dr, cr, h⟩ := holds_of_pending hs hp hstatus
  have hl : sm.ledger.transfers.lookup id = some p := hp
  have hd : sm.ledger.accounts.lookup p.debitAccountId = some dr := h.debit
  have hc : sm.ledger.accounts.lookup p.creditAccountId = some cr := h.credit
  have ⟨hdc, hcc⟩ := hshut.closed hl hstatus hd hc
  have hparties := hs.balanced.parties id p hl
  have hledger : (expireDebit p dr).ledger = (expireCredit p cr).ledger := by
    show dr.ledger = cr.ledger
    have hdl := hparties.debit
    have hcl := hparties.credit
    rw [hd, Option.map_some] at hdl
    rw [hc, Option.map_some] at hcl
    exact Option.some.inj (hdl.trans hcl.symm)
  have hdid := hs.balanced.accountId _ _ hd
  have hcid := hs.balanced.accountId _ _ hc
  have hdistinct := hs.balanced.distinct id p hl
  unfold expire
  simp only [assert_of ht, ok_bind]
  rw [expect_of hp, ok_bind]
  by_cases he : p.timestamp + p.timeoutNs ≤ timestamp
  case neg =>
    simp [he]
  rw [and_iff_right he, assert_of he, ok_bind, expect_of h.debit, ok_bind, expect_of h.credit, ok_bind,
    assert_of h.debits, ok_bind, assert_of h.credits, ok_bind, assert_of hdc, ok_bind, assert_of hcc,
    ok_bind]
  have hold : sm.accounts.lookup (expireDebit p dr).id = some dr := by
    show sm.accounts.lookup dr.id = some dr
    rw [hdid]
    exact h.debit
  obtain ⟨sm₁, h₁, hrows₁, hevents₁, hl₁⟩ := Meets.iff_exists.mp
    (@updateAccountIf_succeeds { sm with commitTimestamp := timestamp }
      (0 < p.amount ∨ (expireDebit p dr).flags.closed ≠ dr.flags.closed) _ _ hold rfl)
  rw [h₁, ok_bind]
  have hold₁ : sm₁.accounts.lookup (expireCredit p cr).id = some cr := by
    show sm₁.accounts.lookup cr.id = some cr
    have hne : cr.id ≠ (expireDebit p dr).id := by
      show cr.id ≠ dr.id
      rw [hdid, hcid]
      exact hdistinct
    rw [hl₁ _ hne, hcid]
    exact h.credit
  obtain ⟨sm₂, h₂, hrows₂, hevents₂, _⟩ := Meets.iff_exists.mp
    (@updateAccountIf_succeeds sm₁
      (0 < p.amount ∨ (expireCredit p cr).flags.closed ≠ cr.flags.closed) _ _ hold₁ rfl)
  rw [h₂, ok_bind]
  obtain ⟨sm₃, h₃, hevents₃⟩ := Meets.iff_exists.mp
    (@updateTransferPendingStatus_succeeds sm₂ p.timestamp .expired
      (by rw [hrows₂, hrows₁]; exact hstatus))
  rw [h₃, ok_bind, accountEvent_succeeds_iff (Nat.zero_lt_of_lt ht) hledger, hevents₃, hevents₂,
    hevents₁]

theorem expire_commitTimestamp :
    Meets (fun _ => True) (fun sm' => sm'.commitTimestamp = timestamp) (sm.expire timestamp id) := by
  have hupdate : ∀ {sm : StateMachine} {updated account}, Meets (fun _ => True)
      (fun sm' => sm'.commitTimestamp = sm.commitTimestamp) (sm.updateAccountIf updated account) := by
    intro sm updated account
    unfold updateAccountIf updateAccount
    simp only [Meets.ite_iff, Meets.bind_eq, Meets.pure_eq, partial_assert, implies_true, and_true]
    exact fun _ => Meets.trivial
  have hpush : ∀ {sm : StateMachine} {account},
      (sm.pushAccountEvent account timestamp).commitTimestamp = sm.commitTimestamp := by
    intro sm account
    unfold pushAccountEvent
    split <;> rfl
  unfold expire
  simp only [Meets.bind_eq, partial_assert]
  refine fun _ => Meets.trivial.weaken fun p _ _ => Meets.trivial.weaken fun dr _ =>
    Meets.trivial.weaken fun cr _ _ _ _ _ => ?_
  refine hupdate.weaken fun sm₁ h₁ => hupdate.weaken fun sm₂ h₂ => ?_
  unfold updateTransferPendingStatus accountEvent
  simp only [Meets.bind_eq, Meets.pure_eq, partial_assert]
  refine Meets.trivial.weaken fun row _ _ _ _ _ _ => ?_
  rw [hpush, hpush]
  exact h₂.trans h₁

-- An account but for what is pending in it and whether it is closed.
structure Retains (old new : Account) : Prop where
  flags : new.flags.withoutClosed = old.flags.withoutClosed
  rest : new = { old with
    debitsPending := new.debitsPending
    creditsPending := new.creditsPending
    flags := new.flags }

theorem Retains.refl {account : Account} : Retains account account :=
  ⟨rfl, rfl⟩

theorem Retains.trans {x y z : Account} (h : Retains x y) (h' : Retains y z) : Retains x z where
  flags := h'.flags.trans h.flags
  rest := by
    rw [h'.rest, h.rest]

variable {flags : AccountFlags}

theorem withoutClosed_ite {c : Bool} :
    (if c then flags.withoutClosed else flags).withoutClosed = flags.withoutClosed := by
  split
  · unfold AccountFlags.withoutClosed
    rw [BitVec.and_assoc, BitVec.and_self]
  · rfl

theorem getLsbD_withoutClosed {i : Nat} (hi : i < 16) :
    flags.withoutClosed.raw.getLsbD i = (flags.raw.getLsbD i && decide (i ≠ 5)) := by
  have hmask : ∀ i < 16, (~~~(1#16 <<< 5)).getLsbD i = decide (i ≠ 5) := by
    decide
  unfold AccountFlags.withoutClosed
  rw [BitVec.getLsbD_and, hmask i hi]

-- Flags that agree but for whether the account is closed.
theorem flags_eq_of_withoutClosed {f g : AccountFlags} (h : f.withoutClosed = g.withoutClosed)
    (hc : f.closed = true ↔ g.closed = true) : f = g := by
  obtain ⟨x⟩ := f
  obtain ⟨y⟩ := g
  refine congrArg AccountFlags.mk (BitVec.eq_of_getLsbD_eq fun i hi => ?_)
  by_cases h5 : i = 5
  · subst h5
    exact Bool.eq_iff_iff.mpr hc
  · have hbit := congrArg (fun flags => flags.raw.getLsbD i) h
    simpa [getLsbD_withoutClosed hi, h5] using hbit

theorem withoutClosed_of_open (h : flags.closed = false) : flags.withoutClosed = flags :=
  flags_eq_of_withoutClosed (withoutClosed_ite (c := true)) (by simp [h, closed_withoutClosed])

theorem retains_expireDebit {dr : Account} : Retains dr (expireDebit p dr) :=
  ⟨withoutClosed_ite, rfl⟩

theorem retains_expireCredit {cr : Account} : Retains cr (expireCredit p cr) :=
  ⟨withoutClosed_ite, rfl⟩

-- The state after the transfers that are listed have expired.
structure Progress (due : List (Nat × Nat × U128)) (sm sm' : StateMachine) : Prop where
  transfers : sm'.transfers = sm.transfers
  timestamps : sm'.transfersByTimestamp = sm.transfersByTimestamp
  expired : ∀ x ∈ due, sm'.transfersPending.lookup x.2.1 = some ⟨x.2.1, .expired⟩
  others : ∀ time, (∀ x ∈ due, x.2.1 ≠ time) →
    sm'.transfersPending.lookup time = sm.transfersPending.lookup time
  accounts : ∀ id, (sm.accounts.lookup id).Rel Retains (sm'.accounts.lookup id)

theorem rel_retains {x : Option Account} : x.Rel Retains x := by
  cases x with
  | none   => exact .none
  | some a => exact .some .refl

theorem Progress.nil : Progress [] sm sm :=
  ⟨rfl, rfl, nofun, fun _ _ => rfl, fun _ => rel_retains⟩

variable {x : Nat × Nat × U128}

theorem Progress.cons (h : Progress [x] sm sm') (h' : Progress due sm' sm'')
    (hne : ∀ y ∈ due, x.2.1 ≠ y.2.1) : Progress (x :: due) sm sm'' where
  transfers := h'.transfers.trans h.transfers
  timestamps := h'.timestamps.trans h.timestamps
  expired := by
    refine List.forall_mem_cons.mpr ⟨?_, h'.expired⟩
    rw [h'.others _ fun y hy => (hne y hy).symm]
    exact h.expired x (List.mem_cons_self ..)
  others := by
    intro time hall
    obtain ⟨hx, hall⟩ := List.forall_mem_cons.mp hall
    rw [h'.others time hall, h.others time (List.forall_mem_singleton.mpr hx)]
  accounts := by
    intro id
    have h := h.accounts id
    have h' := h'.accounts id
    revert h h'
    generalize sm.accounts.lookup id = a, sm'.accounts.lookup id = b, sm''.accounts.lookup id = c
    rintro (hab | _) (hbc | _)
    · exact .some (hab.trans hbc)
    · exact .none

theorem due_of_lists (h : sm.Lists x p) (hb : sm.ledger.Balanced) : sm.Due x := by
  obtain ⟨hp, ⟨hs, _⟩, hx⟩ := h
  obtain ⟨row, hr, _⟩ := Option.map_eq_some_iff.mp hs
  obtain ⟨key, t, hkey, ht, hpending, _⟩ := row_transfer hb hr
  obtain rfl : key = x.2.2 := Option.some.inj (hkey.symm.trans (hb.timestamp x.2.2 p hp))
  obtain rfl : t = p := Option.some.inj (Eq.trans (Eq.symm ht) hp)
  refine ⟨t, hp, hpending, ?_, hs⟩
  rw [hx]

theorem expire_progress (hb : sm.ledger.Balanced) (hx : sm.Due x) :
    Meets (fun _ => True) (Progress [x] sm) (sm.expire timestamp x.2.2) := by
  obtain ⟨p, hp, hpending, hts, _⟩ := hx
  refine (expire_meets hb fun p₂ hp₂ => ?_).weaken
    fun sm' ⟨_, _, p₂, accounts, hp₂, _, _, hl, dr, cr, hd, hc, hput⟩ => ?_
  · obtain rfl : p = p₂ := Option.some.inj (Eq.trans (Eq.symm hp) hp₂)
    exact hpending
  obtain rfl : p = p₂ := Option.some.inj (Eq.trans (Eq.symm hp) hp₂)
  have htransfers : sm'.transfers = sm.transfers := congrArg Ledger.transfers hl
  have htimestamps : sm'.transfersByTimestamp = sm.transfersByTimestamp := congrArg Ledger.timestamps hl
  have hrows : sm'.transfersPending =
      sm.transfersPending.insert p.timestamp ⟨p.timestamp, .expired⟩ := congrArg Ledger.pendings hl
  have haccounts : sm'.accounts = accounts := congrArg Ledger.accounts hl
  refine ⟨htransfers, htimestamps, List.forall_mem_singleton.mpr ?_, fun time hne => ?_, fun id => ?_⟩
  · rw [hrows, ← hts, AList.lookup_insert]
  · rw [hrows, AList.lookup_insert_ne (hts ▸ (List.forall_mem_singleton.mp hne).symm)]
  · have hdid : (expireDebit p dr).id = p.debitAccountId := hb.accountId _ dr hd
    have hcid : (expireCredit p cr).id = p.creditAccountId := hb.accountId _ cr hc
    rw [haccounts, hput]
    unfold Ledger.putAccounts
    rw [lookup_insert_eq, lookup_insert_eq, hdid, hcid]
    split
    · next hi =>
      have hc : sm.accounts.lookup id = some cr := hi ▸ hc
      rw [hc]
      exact .some retains_expireCredit
    · split
      · next hi =>
        have hd : sm.accounts.lookup id = some dr := hi ▸ hd
        rw [hd]
        exact .some retains_expireDebit
      · exact rel_retains

theorem Lists.others {y : Nat × Nat × U128} (h : sm.Lists y p) (hprogress : Progress [x] sm sm')
    (hne : x.2.1 ≠ y.2.1) : sm'.Lists y p := by
  obtain ⟨hp, ⟨hs, ht⟩, hy⟩ := h
  refine ⟨hprogress.transfers ▸ hp, ⟨?_, ht⟩, hy⟩
  rw [hprogress.others p.timestamp (List.forall_mem_singleton.mpr ?_)]
  · exact hs
  · rw [hy] at hne
    exact hne

theorem expireAll_progress [Hasher] (hs : Sound sm) (hdue : ∀ x ∈ due, ∃ p, sm.Lists x p)
    (hdistinct : due.Pairwise fun x y => x.2.1 ≠ y.2.1) :
    Meets (fun _ => True) (Progress due sm) (expireAll timestamp count index due sm) := by
  induction due generalizing index sm with
  | nil => exact .nil
  | cons x due ih =>
    obtain ⟨hne, hdistinct⟩ := List.pairwise_cons.mp hdistinct
    obtain ⟨⟨p, hx⟩, hdue⟩ := List.forall_mem_cons.mp hdue
    have hdx := due_of_lists hx hs.balanced
    simp only [StateMachine.expireAll, Meets.bind_eq]
    refine Meets.trivial.weaken fun t _ => ?_
    refine ((expire_progress hs.balanced hdx).and (hs.expire fun p hp => ?_)).weaken
      fun sm₁ hsm₁ => ?_
    · obtain ⟨p₂, hp₂, hpending, _⟩ := hdx
      obtain rfl : p = p₂ := Option.some.inj (Eq.trans (Eq.symm hp) hp₂)
      exact hpending
    · obtain ⟨hprogress, hs₁, _⟩ := hsm₁
      refine (ih hs₁ (fun y hy => ?_) hdistinct).weaken fun sm₂ h₂ => hprogress.cons h₂ hne
      obtain ⟨p', hl⟩ := hdue y hy
      exact ⟨p', hl.others hprogress (hne y hy)⟩

-- The transfers that are listed expire unless one of them is listed too late for its timestamp, or
-- there is an event at it.
theorem expireAll_succeeds_iff [Hasher] (hs : Sound sm) (hshut : sm.ledger.Shut original)
    (hdue : ∀ x ∈ due, ∃ p, sm.Lists x p) (hdistinct : due.Pairwise fun x y => x.2.1 ≠ y.2.1)
    (hn : count ≤ timestamp) (ht : sm.commitTimestamp < stamp timestamp count index) :
    Succeeds (expireAll timestamp count index due sm) ↔ ∀ i x, due[i]? = some x →
      x.1 ≤ stamp timestamp count (index + i) ∧
        sm.accountEvents.lookup (stamp timestamp count (index + i)) = none := by
  induction due generalizing index sm with
  | nil => exact ⟨nofun, fun _ => trivial⟩
  | cons x due ih =>
    obtain ⟨hne, hdistinct⟩ := List.pairwise_cons.mp hdistinct
    obtain ⟨⟨p, hx⟩, hdue⟩ := List.forall_mem_cons.mp hdue
    have hdx := due_of_lists hx hs.balanced
    have hfirst := expire_succeeds_iff hs hshut hx.1 hx.2.1.1 ht
    have hexpiry : x.1 = p.timestamp + p.timeoutNs := congrArg Prod.fst hx.2.2
    rw [← hexpiry] at hfirst
    have hstamp : timestampEvent timestamp count index = .ok (stamp timestamp count index) := by
      unfold timestampEvent
      rw [assert_of hn]
      rfl
    unfold StateMachine.expireAll
    rw [hstamp, ok_bind]
    cases hstep : sm.expire (stamp timestamp count index) x.2.2 with
    | error fault =>
      rw [hstep] at hfirst
      exact ⟨False.elim, fun h => hfirst.mpr (h 0 x rfl)⟩
    | ok sm₁ =>
      rw [hstep] at hfirst
      rw [ok_bind]
      have hpending : ∀ p, sm.ledger.transfer x.2.2 = some p → p.flags.pending = true := by
        intro p hp
        obtain ⟨p₂, hp₂, hpending, _⟩ := hdx
        obtain rfl : p = p₂ := Option.some.inj (Eq.trans (Eq.symm hp) hp₂)
        exact hpending
      have hs₁ := ((hs.expire hpending).post hstep).1
      have hshut₁ := ((expire_shut hshut hs.balanced hdx).post hstep).1
      have hprogress := (expire_progress hs.balanced hdx).post hstep
      have hcommit := expire_commitTimestamp.post hstep
      obtain ⟨_, _, hvacant, event, _, _, hevents⟩ :=
        (expire_events (P := False) False.elim).post hstep
      have hdue₁ : ∀ y ∈ due, ∃ p, sm₁.Lists y p := by
        intro y hy
        obtain ⟨p', hl⟩ := hdue y hy
        exact ⟨p', hl.others hprogress (hne y hy)⟩
      have hlater : ∀ i, stamp timestamp count (index + 1 + i) =
          stamp timestamp count (index + (i + 1)) := by
        intro i
        rw [Nat.add_assoc, Nat.add_comm 1]
      have hvacant : ∀ i, sm₁.accountEvents.lookup (stamp timestamp count (index + 1 + i)) =
          sm.accountEvents.lookup (stamp timestamp count (index + 1 + i)) := by
        intro i
        rw [hevents, lookup_insert_eq, if_neg (by unfold stamp; omega)]
      rw [ih hs₁ hshut₁ hdue₁ hdistinct (by rw [hcommit]; unfold stamp; omega)]
      constructor
      · intro h i y hy
        cases i with
        | zero   =>
          obtain rfl : x = y := by simpa using hy
          exact hfirst.mp trivial
        | succ i =>
          have h := h i y (by simpa using hy)
          rwa [hvacant, hlater] at h
      · intro h i y hy
        rw [hvacant, hlater]
        exact h (i + 1) y (by simpa using hy)

-- No more transfers are to expire within the last `j` timestamps than `j`, and those that are counted
-- back have no event.
structure CountsBack (sm : StateMachine) (timestamp : Nat) : Prop where
  spread : ∀ j, sm.expiringCount timestamp ≤ sm.expiringCount (timestamp - j) + j
  vacant : ∀ t, timestamp - sm.expiringCount timestamp < t → t ≤ timestamp →
    sm.accountEvents.lookup t = none

theorem countsBack_iff {listed : List (Nat × Nat × U128)}
    (hl : ∀ x, x ∈ listed ↔ ∃ p, sm.Lists x p) (hd : listed.Pairwise fun x y => x.2.1 ≠ y.2.1)
    (hsorted : listed.Pairwise fun x y => x.1 ≤ y.1)
    (hn : sm.expiringCount timestamp ≤ timestamp) :
    sm.CountsBack timestamp ↔
      ∀ i x, (listed.filter fun x => x.1 ≤ timestamp)[i]? = some x →
        x.1 ≤ stamp timestamp (sm.expiringCount timestamp) i ∧
          sm.accountEvents.lookup (stamp timestamp (sm.expiringCount timestamp) i) = none := by
  have hlength : (listed.filter fun x => x.1 ≤ timestamp).length = sm.expiringCount timestamp := by
    rw [← countP_eq_expiringCount hl hd, List.countP_eq_length_filter]
  have hcount : ∀ {t}, t ≤ timestamp →
      (listed.filter fun x => x.1 ≤ timestamp).countP (fun x => x.1 ≤ t) = sm.expiringCount t := by
    intro t ht
    rw [← countP_eq_expiringCount hl hd, List.countP_filter]
    refine List.countP_congr fun x _ => ?_
    simp only [Bool.and_eq_true, decide_eq_true_eq]
    omega
  constructor
  · intro h i x hx
    have hi : i < sm.expiringCount timestamp := hlength ▸ (List.getElem?_eq_some_iff.mp hx).1
    have ht : stamp timestamp (sm.expiringCount timestamp) i =
        timestamp - (sm.expiringCount timestamp - 1 - i) := by
      unfold stamp
      omega
    have hspread := h.spread (sm.expiringCount timestamp - 1 - i)
    refine ⟨?_, h.vacant _ (by unfold stamp; omega) (by omega)⟩
    rw [le_iff_lt_countP (hsorted.filter _) hx, ht, hcount (by omega)]
    omega
  · intro h
    refine ⟨fun j => ?_, fun t hlt hle => ?_⟩
    · by_cases hj : sm.expiringCount timestamp ≤ j
      · omega
      have hi : sm.expiringCount timestamp - 1 - j <
          (listed.filter fun x => x.1 ≤ timestamp).length := by omega
      have hx := List.getElem?_eq_getElem hi
      have ht : stamp timestamp (sm.expiringCount timestamp) (sm.expiringCount timestamp - 1 - j) =
          timestamp - j := by
        unfold stamp
        omega
      have hle := (h _ _ hx).1
      rw [le_iff_lt_countP (hsorted.filter _) hx, ht, hcount (by omega)] at hle
      omega
    · have hi : t - (timestamp - sm.expiringCount timestamp) - 1 <
          (listed.filter fun x => x.1 ≤ timestamp).length := by omega
      have ht : stamp timestamp (sm.expiringCount timestamp)
          (t - (timestamp - sm.expiringCount timestamp) - 1) = t := by
        unfold stamp
        omega
      have hvacant := (h _ _ (List.getElem?_eq_getElem hi)).2
      rwa [ht] at hvacant

-- What cannot fail once it is reached does not matter for whether a computation fails.
theorem succeeds_bind_iff {α β : Type} {x : Result α} {f : α → Result β}
    (h : Meets (fun _ => True) (fun a => Succeeds (f a)) x) : Succeeds (x >>= f) ↔ Succeeds x := by
  cases x with
  | ok a        => exact iff_of_true h trivial
  | error fault => rfl

section

variable [Hasher]

-- The transfers that are listed and whose time has come.
theorem expiring_spec (hs : Sound sm) (message : String) :
    ∃ listed, sm.expiring message = .ok listed ∧ (∀ x, x ∈ listed ↔ ∃ p, sm.Lists x p) ∧
      (listed.Pairwise fun x y => x.2.1 ≠ y.2.1) ∧ listed.Pairwise fun x y => x.1 ≤ y.1 := by
  have hb := hs.balanced
  obtain ⟨listed, hlisted, ⟨hl, _, hd⟩, _, hsorted⟩ := Meets.iff_exists.mp
    ((((expiring_lists hb).and (expiring_due hb)).and (expiring_sorted hb)).total
      (@expiring_succeeds sm message hb))
  exact ⟨listed, hlisted, hl, hd, hsorted⟩

theorem expirePendingTransfers_succeeds_iff (hs : Sound sm) (hshut : sm.ledger.Shut original)
    (hn : sm.commitTimestamp + sm.expiringCount timestamp ≤ timestamp) :
    Succeeds (sm.expirePendingTransfers timestamp) ↔
      sm.commitTimestamp < timestamp ∧ sm.CountsBack timestamp := by
  unfold expirePendingTransfers
  by_cases ht : sm.commitTimestamp < timestamp
  case neg => simp [ht]
  rw [and_iff_right ht, assert_of ht, ok_bind, assert_of (Nat.zero_lt_of_lt ht), ok_bind]
  obtain ⟨listed, hlisted, hl, hd, hsorted⟩ := expiring_spec hs
    "pending transfer status row implies a committed pending transfer"
  rw [hlisted, ok_bind, countsBack_iff hl hd hsorted (by omega)]
  have hdue : ∀ x ∈ listed.filter (fun x => x.1 ≤ timestamp), ∃ p, sm.Lists x p :=
    fun x hx => (hl x).mp (List.mem_filter.mp hx).1
  have hpending : ∀ x ∈ listed.filter (fun x => x.1 ≤ timestamp), ∀ p,
      sm.ledger.transfer x.2.2 = some p → p.flags.pending = true := by
    intro x hx p hp
    obtain ⟨p', hl⟩ := hdue x hx
    obtain ⟨p₂, hp₂, hpending, _⟩ := due_of_lists hl hs.balanced
    obtain rfl : p = p₂ := Option.some.inj (Eq.trans (Eq.symm hp) hp₂)
    exact hpending
  have hlength : (listed.filter fun x => x.1 ≤ timestamp).length = sm.expiringCount timestamp := by
    rw [← countP_eq_expiringCount hl hd, List.countP_eq_length_filter]
  dsimp only
  rewrite [hlength]
  refine (succeeds_bind_iff ((hs.expireAll hpending).weaken fun sm₁ h => ?pulse)).trans ?expire
  case pulse =>
    unfold updatePulseNextTimestamp
    simp only [Meets.bind_eq, Meets.pure_eq]
    exact expiring_succeeds h.1.balanced
  case expire =>
    cases hzero : sm.expiringCount timestamp with
    | zero =>
      have hnil := List.length_eq_zero_iff.mp (hlength.trans hzero)
      rw [hnil]
      exact ⟨fun _ i x hx => (by cases hx), fun _ => trivial⟩
    | succ n =>
      rw [expireAll_succeeds_iff hs hshut hdue (hd.filter _) (by omega) (by unfold stamp; omega)]
      refine forall_congr' fun i => ?_
      rw [Nat.zero_add]

section Effect

variable (hs : Sound sm) (hs' : Sound sm')
    (hdue : ∀ x, x ∈ due ↔ ∃ p, sm.Lists x p ∧ sm.Expiring timestamp p) (h : Progress due sm sm')

include hdue h

omit [Hasher] in
theorem Progress.expired_of_expiring {key : U128} {t : Transfer}
    (ht : sm.transfers.lookup key = some t) (he : sm.Expiring timestamp t) :
    sm'.transfersPending.lookup t.timestamp = some ⟨t.timestamp, .expired⟩ :=
  h.expired (t.timestamp + t.timeoutNs, t.timestamp, key) ((hdue _).mpr ⟨t, ⟨ht, he.1, rfl⟩, he⟩)

omit [Hasher] in
theorem Progress.status_kept {time : Nat} (hne : ∀ key t, sm.transfers.lookup key = some t →
      sm.Expiring timestamp t → t.timestamp ≠ time) :
    sm'.transfersPending.lookup time = sm.transfersPending.lookup time := by
  refine h.others time fun x hx => ?_
  obtain ⟨p, ⟨hp, _, hlisted⟩, he⟩ := (hdue x).mp hx
  rw [hlisted]
  exact hne _ p hp he

include hs

-- A transfer is pending afterwards if it has been and its time has not come.
theorem Progress.pending_iff {key : U128} {t : Transfer} (ht : sm.transfers.lookup key = some t) :
    (sm'.transfersPending.lookup t.timestamp).map TransferPending.status = some .pending ↔
      (sm.transfersPending.lookup t.timestamp).map TransferPending.status = some .pending ∧
        ¬sm.Expiring timestamp t := by
  by_cases he : sm.Expiring timestamp t
  · rw [h.expired_of_expiring hdue ht he]
    exact ⟨nofun, fun hn => absurd he hn.2⟩
  · rw [h.status_kept hdue fun key' t' ht' he' hts => ?_, and_iff_left he]
    obtain rfl : key' = key := hs.balanced.key_eq ht' ht hts
    obtain rfl : t' = t := Option.some.inj (ht'.symm.trans ht)
    exact he he'

-- What the pending transfers of a party amount to is less by those that expire.
theorem Progress.pendingTotal_add (party : Transfer → U128) (id : U128) :
    sm'.pendingTotal party id + sm.expiringTotal timestamp party id = sm.pendingTotal party id := by
  unfold pendingTotal expiringTotal
  rw [h.transfers]
  refine total_add fun key t ht => ?_
  have hiff := h.pending_iff hs hdue ht
  by_cases hid : party t = id
  · by_cases he : sm.Expiring timestamp t
    · simp [hid, hiff, he, he.1.1]
    · simp [hid, hiff, he]
  · simp [hid]

-- What closes an account afterwards has closed it before, and its time has not come.
theorem Progress.closer_iff {id key : U128} :
    sm'.ledger.Closer id key ↔ sm.ledger.Closer id key ∧
      ∀ t, sm.transfers.lookup key = some t → ¬sm.Expiring timestamp t := by
  have htransfers : sm'.ledger.transfers = sm.ledger.transfers := h.transfers
  unfold Ledger.Closer
  rw [htransfers]
  constructor
  · rintro ⟨t, ht, hp, hc⟩
    obtain ⟨hp, hn⟩ := (h.pending_iff hs hdue ht).mp hp
    refine ⟨⟨t, ht, hp, hc⟩, fun t' ht' => ?_⟩
    obtain rfl : t' = t := Option.some.inj (Eq.trans (Eq.symm ht') ht)
    exact hn
  · rintro ⟨⟨t, ht, hp, hc⟩, hn⟩
    exact ⟨t, ht, (h.pending_iff hs hdue ht).mpr ⟨hp, hn t ht⟩, hc⟩

-- An account that is closed afterwards has been closed, and nothing that closes it expires.
theorem Progress.closed_iff (hshut : sm.ledger.Shut original) (hshut' : sm'.ledger.Shut original) :
    sm'.ledger.Closed id ↔ sm.ledger.Closed id ∧ ¬sm.Reopens timestamp id := by
  constructor
  · intro hc
    obtain ho | ⟨key, hk⟩ := hshut'.exclusive.caused id hc
    · refine ⟨hshut.exclusive.kept id ho, ?_⟩
      rintro ⟨key, t, ht, he, hcloses⟩
      exact (hshut.exclusive.closes id key ⟨t, ht, he.1.1, hcloses⟩).2 ho
    · obtain ⟨hk, hn⟩ := (h.closer_iff hs hdue).mp hk
      refine ⟨(hshut.exclusive.closes id key hk).1, ?_⟩
      rintro ⟨key', t, ht, he, hcloses⟩
      obtain rfl : key' = key := hshut.exclusive.unique id key' key ⟨t, ht, he.1.1, hcloses⟩ hk
      exact hn t ht he
  · rintro ⟨hc, hn⟩
    obtain ho | ⟨key, hk⟩ := hshut.exclusive.caused id hc
    · exact hshut'.exclusive.kept id ho
    · refine (hshut'.exclusive.closes id key ((h.closer_iff hs hdue).mpr ⟨hk, fun t ht he => hn ?_⟩)).1
      obtain ⟨t', ht', _, hcloses⟩ := hk
      obtain rfl : t' = t := Option.some.inj (Eq.trans (Eq.symm ht') ht)
      exact ⟨key, t', ht, he, hcloses⟩

include hs'

theorem Progress.released (hshut : sm.ledger.Shut original) (hshut' : sm'.ledger.Shut original)
    {old new : Account} (hold : sm.accounts.lookup id = some old)
    (hnew : sm'.accounts.lookup id = some new) (hr : Retains old new) :
    sm.Released timestamp id old new := by
  have hclosed : new.flags.closed = true ↔ old.flags.closed = true ∧ ¬sm.Reopens timestamp id := by
    have hiff : sm'.ledger.Closed id ↔ sm.ledger.Closed id ∧ ¬sm.Reopens timestamp id :=
      h.closed_iff hs hdue hshut hshut'
    have hclosed : ∀ {sm : StateMachine} {account}, sm.accounts.lookup id = some account →
        (sm.ledger.Closed id ↔ account.flags.closed = true) := by
      intro sm account hl
      refine ⟨fun ⟨account', hl', hc⟩ => ?_, fun hc => ⟨account, hl, hc⟩⟩
      obtain rfl : account' = account := Option.some.inj (Eq.trans (Eq.symm hl') hl)
      exact hc
    rwa [hclosed hold, hclosed hnew] at hiff
  have hreopens : sm.Reopens timestamp id → old.flags.closed = true := by
    rintro ⟨key, t, ht, he, hcloses⟩
    obtain ⟨account, hl, hc⟩ := (hshut.exclusive.closes id key ⟨t, ht, he.1.1, hcloses⟩).1
    obtain rfl : account = old := Option.some.inj (Eq.trans (Eq.symm hl) hold)
    exact hc
  have hbalances : ∀ {sm : StateMachine} {account}, Sound sm → sm.accounts.lookup id = some account →
      sm.pendingTotal Transfer.debitAccountId id = account.debitsPending.toNat ∧
        sm.pendingTotal Transfer.creditAccountId id = account.creditsPending.toNat := by
    intro sm account hs hl
    have hl : sm.ledger.accounts.lookup id = some account := hl
    have hdebits := hs.balanced.debits id
    have hcredits := hs.balanced.credits id
    rw [heldTotal_eq hs.balanced, hl] at hdebits hcredits
    exact ⟨hdebits, hcredits⟩
  obtain ⟨hdebits, hcredits⟩ := hbalances hs hold
  obtain ⟨hdebits', hcredits'⟩ := hbalances hs' hnew
  exact {
    debits := by
      rw [← hdebits, ← hdebits']
      exact h.pendingTotal_add hs hdue _ _
    credits := by
      rw [← hcredits, ← hcredits']
      exact h.pendingTotal_add hs hdue _ _
    reopened := fun hre => ⟨hreopens hre, by
      rw [← hr.flags]
      refine (withoutClosed_of_open ?_).symm
      simpa [hre] using hclosed⟩
    flags := fun hn => flags_eq_of_withoutClosed hr.flags (by simpa [hn] using hclosed)
    rest := hr.rest
  }

theorem Progress.expires (hshut : sm.ledger.Shut original) (hshut' : sm'.ledger.Shut original) :
    sm.Expires timestamp sm' where
  transfers := h.transfers
  timestamps := h.timestamps
  expired := fun _ _ => h.expired_of_expiring hdue
  statuses := fun _ => h.status_kept hdue
  accounts := by
    intro id
    have hrel := h.accounts id
    cases hold : sm.accounts.lookup id with
    | none =>
      rw [hold] at hrel
      generalize sm'.accounts.lookup id = new at hrel
      cases hrel
      exact .none
    | some old =>
      rw [hold] at hrel
      cases hnew : sm'.accounts.lookup id with
      | none     => rw [hnew] at hrel; exact nomatch hrel
      | some new =>
        rw [hnew] at hrel
        obtain ⟨hr⟩ := hrel
        exact .some (h.released hs hs' hdue hshut hshut' hold hnew hr)

end Effect

omit [Hasher] in
theorem Expires.congr (h : sm.Expires timestamp sm') (hl : sm''.ledger = sm'.ledger) :
    sm.Expires timestamp sm'' := by
  have haccounts : sm''.accounts = sm'.accounts := congrArg Ledger.accounts hl
  have htransfers : sm''.transfers = sm'.transfers := congrArg Ledger.transfers hl
  have htimestamps : sm''.transfersByTimestamp = sm'.transfersByTimestamp :=
    congrArg Ledger.timestamps hl
  have hrows : sm''.transfersPending = sm'.transfersPending := congrArg Ledger.pendings hl
  exact {
    transfers := htransfers.trans h.transfers
    timestamps := htimestamps.trans h.timestamps
    expired := hrows ▸ h.expired
    statuses := hrows ▸ h.statuses
    accounts := haccounts ▸ h.accounts
  }

theorem expirePendingTransfers_expires (hs : Sound sm) (hshut : sm.ledger.Shut original) :
    Meets (fun _ => True) (sm.Expires timestamp) (sm.expirePendingTransfers timestamp) := by
  unfold expirePendingTransfers
  simp only [Meets.bind_eq, partial_assert]
  intro _ _
  obtain ⟨listed, hlisted, hl, hd, _⟩ := expiring_spec hs
    "pending transfer status row implies a committed pending transfer"
  rw [hlisted, Meets.ok_iff]
  have hdue : ∀ x, x ∈ listed.filter (fun x => x.1 ≤ timestamp) ↔
      ∃ p, sm.Lists x p ∧ sm.Expiring timestamp p := by
    intro x
    rw [List.mem_filter, hl, decide_eq_true_iff]
    constructor
    · rintro ⟨⟨p, hp⟩, ht⟩
      have hexpiry : x.1 = p.timestamp + p.timeoutNs := congrArg Prod.fst hp.2.2
      exact ⟨p, hp, hp.2.1, hexpiry ▸ ht⟩
    · rintro ⟨p, hp, he⟩
      have hexpiry : x.1 = p.timestamp + p.timeoutNs := congrArg Prod.fst hp.2.2
      exact ⟨⟨p, hp⟩, hexpiry.trans_le he.2⟩
  have hlists : ∀ x ∈ listed.filter (fun x => x.1 ≤ timestamp), ∃ p, sm.Lists x p :=
    fun x hx => (hl x).mp (List.mem_filter.mp hx).1
  have hdues : ∀ x ∈ listed.filter (fun x => x.1 ≤ timestamp), sm.Due x := by
    intro x hx
    obtain ⟨p, hp⟩ := hlists x hx
    exact due_of_lists hp hs.balanced
  refine (((expireAll_progress hs hlists (hd.filter _)).and (hs.expireAll fun x hx p hp => ?_)).and
    ((expireAll_shut hshut hs hdues (hd.filter _)).mono (fun _ h => h) fun _ _ => trivial)).weaken
      fun sm₁ ⟨⟨hprogress, hs₁, _⟩, hshut₁⟩ => ?_
  · obtain ⟨p₂, hp₂, hpending, _⟩ := hdues x hx
    obtain rfl : p = p₂ := Option.some.inj (Eq.trans (Eq.symm hp) hp₂)
    exact hpending
  · have hexpires := hprogress.expires hs hs₁ hdue hshut hshut₁
    exact updatePulseNextTimestamp_meets.weaken fun sm₂ ⟨hledger, _⟩ => hexpires.congr hledger

theorem Sound.setCommitTimestamp (h : Sound sm) : Sound (sm.setCommitTimestamp timestamp) :=
  ⟨h.accountsIdle, h.transfersIdle, h.pendingsIdle, h.balanced, h.valid, h.accountsWithin,
    h.transfersWithin, h.pendingsWithin⟩

-- At a timestamp that there is room for, the transfers whose time has come expire exactly if it is
-- later than that of the last commit, and if they can be counted back from it.
theorem expires_iff_countsBack {s : StateMachine × List U128}
    (h : originating.Reachable FreshOriginating s) {commit timestamp : Nat}
    (hn : commit + (s.1.setCommitTimestamp commit).expiringCount timestamp ≤ timestamp) :
    Meets (fun _ => False) ((s.1.setCommitTimestamp commit).Expires timestamp)
        ((s.1.setCommitTimestamp commit).expirePendingTransfers timestamp) ↔
      commit < timestamp ∧ (s.1.setCommitTimestamp commit).CountsBack timestamp := by
  obtain ⟨hs, hshut⟩ := shut_of_reachable h
  have hs : Sound (s.1.setCommitTimestamp commit) := hs.setCommitTimestamp
  have hshut : (s.1.setCommitTimestamp commit).ledger.Shut (· ∈ s.2) := hshut
  have hsucceeds := expirePendingTransfers_succeeds_iff hs hshut hn
  refine Iff.trans ?_ hsucceeds
  exact ⟨fun h => h.weaken fun _ _ => trivial, (expirePendingTransfers_expires hs hshut).total⟩

end

end StateMachine

namespace StateMachine.Runs

open Accounting.Runs

attribute [local instance] identityHasher

-- A pending transfer with a timeout of a second.
def times : List Call := [
  accounts,
  .createTransfers [{ transfer 1 1 2 2 with timeout := 1 }] 200]

theorem expires_of_times : ∃ s, originating.Reachable FreshOriginating s ∧
    (s.1.setCommitTimestamp 200).expiringCount 1000000200 = 1 ∧
    Meets (fun _ => False) ((s.1.setCommitTimestamp 200).Expires 1000000200)
      ((s.1.setCommitTimestamp 200).expirePendingTransfers 1000000200) := by
  have ⟨s, hr, hone, hvacant⟩ := (Machine.Reachable.init rfl).leads (show
    originating.Leads FreshOriginating
      (fun s => (s.1.setCommitTimestamp 200).expiringCount 1000000200 = 1 ∧
        (s.1.setCommitTimestamp 200).accountEvents.lookup 1000000200 = none) times (default, [])
    by decide +kernel)
  refine ⟨s, hr, hone, (expires_iff_countsBack hr (by rw [hone]; decide)).mpr ⟨by decide, ?_, ?_⟩⟩
  · intro j
    rw [hone]
    cases j with
    | zero   => exact hone.ge
    | succ j => omega
  · intro t hlt hle
    rw [hone] at hlt
    obtain rfl : t = 1000000200 := by omega
    exact hvacant

-- Another one that is created a second before both of them are to expire.
def timesTwice : List Call := [
  accounts,
  .createTransfers [{ transfer 1 1 2 2 with timeout := 2 }] 200,
  .createTransfers [{ transfer 2 1 2 2 with timeout := 1 }] 1000000200]

-- The first of them gets the timestamp before that of its expiry.
theorem not_expires : ¬∀ (_ : Hasher) (s : StateMachine × List U128) (commit timestamp : Nat),
    originating.Reachable FreshOriginating s → TimestampRange.valid timestamp → commit < timestamp →
    commit + (s.1.setCommitTimestamp commit).expiringCount timestamp ≤ timestamp →
    Meets (fun _ => False) ((s.1.setCommitTimestamp commit).Expires timestamp)
      ((s.1.setCommitTimestamp commit).expirePendingTransfers timestamp) := by
  intro h
  have ⟨s, hr, htwo, hnone⟩ := (Machine.Reachable.init rfl).leads (show
    originating.Leads FreshOriginating
      (fun s => (s.1.setCommitTimestamp 1000000200).expiringCount 2000000200 = 2 ∧
        (s.1.setCommitTimestamp 1000000200).expiringCount 2000000199 = 0) timesTwice (default, [])
    by decide +kernel)
  have hn : 1000000200 + (s.1.setCommitTimestamp 1000000200).expiringCount 2000000200 ≤ 2000000200 := by
    rw [htwo]
    decide
  have hexpires := h identityHasher s 1000000200 2000000200 hr (by decide) (by decide) hn
  obtain ⟨hs, hshut⟩ := shut_of_reachable hr
  have hs : Sound (s.1.setCommitTimestamp 1000000200) := hs.setCommitTimestamp
  have hshut : (s.1.setCommitTimestamp 1000000200).ledger.Shut (· ∈ s.2) := hshut
  have hcounts := ((expirePendingTransfers_succeeds_iff hs hshut hn).mp
    (hexpires.weaken fun _ _ => trivial)).2
  have hspread := hcounts.spread 1
  rw [htwo, hnone] at hspread
  exact absurd hspread (by decide)

end StateMachine.Runs

end TigerBeetle.Accounting
