import TigerBeetle.Theorems.Persisted

namespace TigerBeetle.Accounting

open Fallible HashMap Orchestrator

namespace Ledger

variable {ledger : Ledger} {record p : Transfer} {dr cr : Account}

-- The times at which the pending transfers that have a timeout expire.
def expiries (ledger : Ledger) : Set Nat :=
  {expiresAt | ∃ id p, ledger.transfer id = some p ∧
    (ledger.pending p.timestamp).map TransferPending.status = some .pending ∧ 0 < p.timeout ∧
    p.timestamp + p.timeoutNs = expiresAt}

-- No transfer expires later than there are timestamps.
def Expirable (ledger : Ledger) : Prop :=
  ∀ id p, ledger.transfer id = some p → 0 < p.timeout →
    p.timestamp + p.timeoutNs ≤ TimestampRange.timestampMax

theorem Expirable.le (h : ledger.Expirable) {expiresAt : Nat} (he : expiresAt ∈ ledger.expiries) :
    expiresAt ≤ TimestampRange.timestampMax := by
  obtain ⟨id, p, hp, _, ht, rfl⟩ := he
  exact h id p hp ht

-- A transfer that is created is one more that may expire.
theorem expiries_create (hb : ledger.Balanced) (hn : ledger.transfers.lookup record.id = none)
    (hfresh : (ledger.timestamps.lookup record.timestamp).all (· = record.id) = true) :
    (ledger.create record dr cr).expiries =
      if record.flags.pending = true ∧ 0 < record.timeout then
        insert (record.timestamp + record.timeoutNs) ledger.expiries
      else
        ledger.expiries := by
  -- No other transfer has the timestamp.
  have hne : ∀ id p, ledger.transfer id = some p → p.timestamp ≠ record.timestamp := by
    intro id p hp ht
    have hts := hb.timestamp id p hp
    rw [ht] at hts
    rw [hts] at hfresh
    obtain rfl : id = record.id := by simpa using hfresh
    exact absurd (hn.symm.trans hp) nofun
  have hrow : ∀ id p, ledger.transfer id = some p →
      (ledger.create record dr cr).pending p.timestamp = ledger.pending p.timestamp := by
    intro id p hp
    rw [pending_create]
    split
    · exact Function.update_of_ne (hne id p hp) _ _
    · rfl
  have hself : ((ledger.create record dr cr).pending record.timestamp).map TransferPending.status =
      some .pending → record.flags.pending = true := by
    intro hs
    rw [pending_create] at hs
    split at hs
    · assumption
    · have ⟨row, hl, _⟩ := Option.map_eq_some_iff.mp hs
      have ⟨id, t, ht, _, hts⟩ := hb.rows _ row hl
      exact absurd hts (hne id t ht)
  have hold : ∀ e, e ∈ ledger.expiries → e ∈ (ledger.create record dr cr).expiries := by
    rintro e ⟨id, p, hp, hs, ht, he⟩
    have hid : id ≠ record.id := by
      rintro rfl
      exact absurd (hn.symm.trans hp) nofun
    refine ⟨id, p, ?_, by rwa [hrow id p hp], ht, he⟩
    rw [transfer_create, Function.update_of_ne hid]
    exact hp
  have hnew : ∀ e, e ∈ (ledger.create record dr cr).expiries → e ∈ ledger.expiries ∨
      record.flags.pending = true ∧ 0 < record.timeout ∧ record.timestamp + record.timeoutNs = e := by
    rintro e ⟨id, p, hp, hs, ht, he⟩
    rw [transfer_create, Function.update_apply] at hp
    split at hp
    · cases hp
      exact .inr ⟨hself hs, ht, he⟩
    · exact .inl ⟨id, p, hp, by rwa [hrow id p hp] at hs, ht, he⟩
  ext e
  split
  · next hp =>
    constructor
    case mp =>
      intro he
      obtain h | ⟨_, _, rfl⟩ := hnew e he
      · exact .inr h
      · exact .inl rfl
    case mpr =>
      rintro (rfl | he)
      · refine ⟨record.id, record, ?_, ?_, hp.2, rfl⟩
        · rw [transfer_create, Function.update_self]
        · rw [pending_create, if_pos hp.1, Function.update_self]
          rfl
      · exact hold e he
  · next hp => exact ⟨fun he => (hnew e he).resolve_right fun h => hp ⟨h.1, h.2.1⟩, hold e⟩

-- Some transfer that was pending has been posted or voided, or has expired.
def Settled (ledger : Ledger) : Prop :=
  ∃ timestamp row, ledger.pending timestamp = some row ∧ row.status ≠ .pending

theorem Settled.of_create (h : (ledger.create record dr cr).Settled) : ledger.Settled := by
  obtain ⟨timestamp, row, hl, hs⟩ := h
  rw [pending_create] at hl
  split at hl
  · rw [Function.update_apply] at hl
    split at hl
    · cases hl
      exact absurd rfl hs
    · exact ⟨timestamp, row, hl, hs⟩
  · exact ⟨timestamp, row, hl, hs⟩

end Ledger

namespace StateMachine

variable {sm sm' : StateMachine}

-- The next pulse is no later than any expiry.
def Early (sm : StateMachine) : Prop :=
  ∀ expiresAt ∈ sm.ledger.expiries, sm.pulseNextTimestamp ≤ expiresAt

-- The next pulse is at the time of an expiry, or at the last timestamp.
def Pointed (sm : StateMachine) : Prop :=
  sm.pulseNextTimestamp = TimestampRange.timestampMax ∨ sm.pulseNextTimestamp ∈ sm.ledger.expiries

-- A computation for each element of a list returns what is related to it.
theorem mapM_related {ε α β : Type} {E : ε → Prop} {R : α → β → Prop} {f : α → Except ε β}
    {xs : List α} (h : ∀ x ∈ xs, Meets E (R x) (f x)) :
    Meets E (fun ys => (∀ y ∈ ys, ∃ x ∈ xs, R x y) ∧ ∀ x ∈ xs, ∃ y ∈ ys, R x y) (xs.mapM f) := by
  induction xs with
  | nil => exact ⟨nofun, nofun⟩
  | cons x xs ih =>
    simp only [List.mapM_cons, Meets.bind_eq, Meets.pure_eq]
    refine (h x (List.mem_cons_self ..)).weaken fun y hy => ?_
    refine (ih fun x hx => h x (List.mem_cons_of_mem _ hx)).weaken fun ys ⟨hys, hxs⟩ => ⟨?_, ?_⟩
    · refine List.forall_mem_cons.mpr ⟨⟨x, List.mem_cons_self .., hy⟩, fun y' hy' => ?_⟩
      have ⟨x', hx', hr⟩ := hys y' hy'
      exact ⟨x', List.mem_cons_of_mem _ hx', hr⟩
    · refine List.forall_mem_cons.mpr ⟨⟨y, List.mem_cons_self .., hy⟩, fun x' hx' => ?_⟩
      have ⟨y', hy', hr⟩ := hxs x' hx'
      exact ⟨y', List.mem_cons_of_mem _ hy', hr⟩

-- What is listed for a row of a pending transfer.
def Listed (sm : StateMachine) (entry : Sigma fun _ : Nat => TransferPending)
    (listed : Option (Nat × Nat × U128)) : Prop :=
  if entry.2.status ≠ .pending then
    listed = none
  else
    ∃ id p, sm.transfersByTimestamp.lookup entry.1 = some id ∧ sm.transfers.lookup id = some p ∧
      listed = if p.timeout = 0 then none else some (p.timestamp + p.timeoutNs, entry.1, id)

theorem mem_expiries_iff (hb : sm.ledger.Balanced) {rows : List (Option (Nat × Nat × U128))}
    (hrows : ∀ row ∈ rows, ∃ entry ∈ sm.transfersPending.entries, sm.Listed entry row)
    (hentries : ∀ entry ∈ sm.transfersPending.entries, ∃ row ∈ rows, sm.Listed entry row)
    {expiresAt : Nat} :
    expiresAt ∈ sm.ledger.expiries ↔ ∃ x ∈ rows.filterMap id, x.1 = expiresAt := by
  constructor
  case mp =>
    rintro ⟨key, p, hp, hs, ht, rfl⟩
    have ⟨row, hl, hstatus⟩ := Option.map_eq_some_iff.mp hs
    have ⟨listed, hm, hlisted⟩ := hentries ⟨p.timestamp, row⟩ (AList.mem_lookup_iff.mp hl)
    unfold Listed at hlisted
    rw [if_neg (by simp [hstatus])] at hlisted
    obtain ⟨key', p', hkey, hp', rfl⟩ := hlisted
    obtain rfl : key = key' := Option.some.inj ((hb.timestamp key p hp).symm.trans hkey)
    obtain rfl : p = p' := Option.some.inj (Eq.trans (Eq.symm hp) hp')
    rw [if_neg (by omega)] at hm
    exact ⟨_, List.mem_filterMap.mpr ⟨_, hm, rfl⟩, rfl⟩
  case mpr =>
    rintro ⟨x, hx, rfl⟩
    obtain ⟨_, hm, rfl⟩ := List.mem_filterMap.mp hx
    obtain ⟨⟨timestamp, row⟩, he, hlisted⟩ := hrows _ hm
    have hl : sm.transfersPending.lookup timestamp = some row := AList.mem_lookup_iff.mpr he
    unfold Listed at hlisted
    split at hlisted
    · cases hlisted
    · next hs =>
      obtain ⟨key, p, hkey, hp, hx⟩ := hlisted
      split at hx
      · cases hx
      · next ht =>
        cases hx
        obtain ⟨key', t, ht', _, hts⟩ := hb.rows timestamp row hl
        have hkey' := hb.timestamp key' t ht'
        rw [hts] at hkey'
        obtain rfl : key' = key := Option.some.inj (hkey'.symm.trans hkey)
        obtain rfl : t = p := Option.some.inj (Eq.trans (Eq.symm ht') hp)
        refine ⟨key', t, ht', ?_, Nat.pos_of_ne_zero ht, rfl⟩
        rw [hts]
        show (sm.transfersPending.lookup timestamp).map _ = _
        rw [hl, Option.map_some, not_not.mp hs]

theorem entries_listed (sm : StateMachine) (message : String) :
    ∀ entry ∈ sm.transfersPending.entries, Meets (fun _ => True) (sm.Listed entry)
      ((fun entry : Sigma fun _ : Nat => TransferPending => (do
        if entry.2.status ≠ .pending then return none
        else
          let id ← expect (sm.transfersByTimestamp.lookup entry.1) message
          let p ← expect (sm.transfers.lookup id) message
          assert p.flags.pending "p.flags.pending()"
          return if p.timeout = 0 then none
            else some (p.timestamp + p.timeoutNs, entry.1, id) : Result _)) entry) := by
  intro entry _
  unfold Listed
  dsimp only
  split
  · rfl
  · simp only [Meets.pure_eq, Meets.bind_eq, partial_assert]
    exact expect_meets.weaken fun id hid => expect_meets.weaken fun p hp _ => ⟨id, p, hid, hp, rfl⟩

theorem expiring_sorted {message : String} (hb : sm.ledger.Balanced) :
    Meets (fun _ => True)
      (fun due => (∀ expiresAt, expiresAt ∈ sm.ledger.expiries ↔ ∃ x ∈ due, x.1 = expiresAt) ∧
        due.Pairwise fun x y => x.1 ≤ y.1)
      (sm.expiring message) := by
  unfold expiring
  simp only [Meets.bind_eq, Meets.pure_eq]
  refine (mapM_related (sm.entries_listed message)).weaken ?_
  · intro rows ⟨hrows, hentries⟩
    refine ⟨fun expiresAt => ?_, (List.pairwise_mergeSort ?_ ?_ _).imp fun {x y} h => ?_⟩
    · simp only [List.mem_mergeSort]
      exact mem_expiries_iff hb hrows hentries
    · intro a b c hab hbc
      simp only [decide_eq_true_eq] at hab hbc ⊢
      grind
    · intro a b
      simp only [Bool.or_eq_true, decide_eq_true_eq]
      grind
    · simp only [decide_eq_true_eq] at h
      omega

theorem updatePulseNextTimestamp_points (hb : sm.ledger.Balanced) :
    Meets (fun _ => True) (fun sm' => Early sm' ∧ Pointed sm') sm.updatePulseNextTimestamp := by
  unfold updatePulseNextTimestamp
  simp only [Meets.bind_eq, Meets.pure_eq]
  refine (expiring_sorted hb).weaken fun due ⟨hdue, hsorted⟩ => ?_
  cases due with
  | nil =>
    refine ⟨fun expiresAt he => ?_, .inl rfl⟩
    have ⟨x, hx, _⟩ := (hdue expiresAt).mp he
    cases hx
  | cons first due =>
    refine ⟨fun expiresAt he => ?_, .inr ((hdue first.1).mpr ⟨first, List.mem_cons_self .., rfl⟩)⟩
    obtain ⟨x, hx, rfl⟩ := (hdue expiresAt).mp he
    cases hx with
    | head       => exact Nat.le_refl _
    | tail _ hx => exact List.rel_of_pairwise_cons hsorted hx

theorem insertTransfer_pulse {id : U128} {transfer : Transfer} :
    Meets (fun _ => True) (fun sm' => sm'.pulseNextTimestamp = sm.pulseNextTimestamp)
      (sm.insertTransfer id transfer) := by
  unfold insertTransfer
  simp only [Meets.bind_eq, Meets.pure_eq, partial_assert, implies_true]

theorem insertTransferPending_pulse {pending : TransferPending} :
    Meets (fun _ => True) (fun sm' => sm'.pulseNextTimestamp = sm.pulseNextTimestamp)
      (sm.insertTransferPending pending) := by
  unfold insertTransferPending
  simp only [Meets.bind_eq, Meets.pure_eq, partial_assert, implies_true]

variable {account : Account}

theorem insertAccount_pulse {id : U128} :
    Meets (fun _ => True) (fun sm' => sm'.pulseNextTimestamp = sm.pulseNextTimestamp)
      (sm.insertAccount id account) := by
  unfold insertAccount
  simp only [Meets.bind_eq, Meets.pure_eq, partial_assert, implies_true]

theorem updateAccount_pulse :
    Meets (fun _ => True) (fun sm' => sm'.pulseNextTimestamp = sm.pulseNextTimestamp)
      (sm.updateAccount account) := by
  unfold updateAccount
  simp only [Meets.bind_eq, Meets.pure_eq, partial_assert, implies_true]
  exact Meets.trivial

variable {timestamp : Nat}

theorem pushAccountEvent_pulse :
    (sm.pushAccountEvent account timestamp).pulseNextTimestamp = sm.pulseNextTimestamp := by
  unfold pushAccountEvent
  split <;> rfl

variable {amount : U128}

theorem accountEvent_pulse {dr cr : Account} {flags : TransferFlags}
    {status : TransferPendingStatus} {pending : Option Transfer} {requested : U128} :
    Meets (fun _ => True) (fun sm' => sm'.pulseNextTimestamp = sm.pulseNextTimestamp)
      (sm.accountEvent timestamp dr cr flags status pending requested amount) := by
  unfold accountEvent
  simp only [Meets.bind_eq, partial_assert]
  intro _
  cases status
  all_goals
    simp only [Meets.bind_eq, Meets.pure_eq, partial_assert, implies_true, pushAccountEvent_pulse]

variable {event : Transfer}

-- A transfer that is created may bring the next pulse forward.
theorem commitTransfer_pulse {requested : U128} :
    Meets (fun _ => True)
      (fun sm' => (0 < event.timeout → event.flags.pending = true) ∧
        sm'.pulseNextTimestamp = if 0 < event.timeout then
          min sm.pulseNextTimestamp (event.timestamp + event.timeoutNs) else sm.pulseNextTimestamp)
      (sm.commitTransfer event amount requested) := by
  unfold commitTransfer
  simp only [Meets.bind_eq]
  refine Meets.trivial.weaken fun dr _ => Meets.trivial.weaken fun cr _ => ?_
  refine updateAccount_pulse.weaken fun sm₁ h₁ => updateAccount_pulse.weaken fun sm₂ h₂ => ?_
  refine accountEvent_pulse.weaken fun sm₃ h₃ => ?_
  have hpulse := h₃.trans (h₂.trans h₁)
  split
  · simp only [Meets.bind_eq, Meets.pure_eq, partial_assert]
    exact fun hp _ => ⟨fun _ => hp, by rw [hpulse]⟩
  · next ht => exact ⟨fun h => absurd h ht, hpulse⟩

theorem persistTransfer_pulse (hplain : event.flags.postOrVoid = false) :
    Meets (fun _ => True)
      (fun sm' => (0 < event.timeout → event.flags.pending = true) ∧
        sm'.pulseNextTimestamp = if 0 < event.timeout then
          min sm.pulseNextTimestamp (event.timestamp + event.timeoutNs) else sm.pulseNextTimestamp)
      (sm.persistTransfer event amount) := by
  unfold persistTransfer
  simp only [hplain, Bool.false_eq_true, ↓reduceIte, Meets.ite_iff, Meets.bind_eq]
  refine ⟨fun _ => ?_, fun _ => ?_⟩
  · refine insertTransfer_pulse.weaken fun sm₁ h₁ => ?_
    refine insertTransferPending_pulse.weaken fun sm₂ h₂ => ?_
    exact commitTransfer_pulse.weaken fun sm₃ ⟨hp, h₃⟩ => ⟨hp, by rw [h₃, h₂, h₁]; rfl⟩
  · refine insertTransfer_pulse.weaken fun sm₁ h₁ => ?_
    exact commitTransfer_pulse.weaken fun sm₃ ⟨hp, h₃⟩ => ⟨hp, by rw [h₃, h₁]; rfl⟩

theorem persistPostVoid_pulse :
    Meets (fun _ => True) (fun sm' => ∃ sm₁ : StateMachine, sm₁.updatePulseNextTimestamp = .ok sm')
      (sm.persistPostVoid event amount) := by
  unfold persistPostVoid
  simp only [Meets.bind_eq]
  iterate 4 refine Meets.trivial.weaken fun _ _ => Meets.trivial.weaken fun _ _ => ?_
  exact Meets.trivial.weaken fun sm₁ _ => Meets.trivial.returned.weaken fun _ ⟨h, _⟩ => ⟨sm₁, h⟩

theorem expirePendingTransfers_pulse :
    Meets (fun _ => True) (fun sm' => ∃ sm₁ : StateMachine, sm₁.updatePulseNextTimestamp = .ok sm')
      (sm.expirePendingTransfers timestamp) := by
  unfold expirePendingTransfers
  simp only [Meets.bind_eq, partial_assert]
  intro _ _
  refine Meets.trivial.weaken fun _ _ => Meets.trivial.weaken fun sm₁ _ => ?_
  exact Meets.trivial.returned.weaken fun _ ⟨h, _⟩ => ⟨sm₁, h⟩

theorem points_of_updated {sm₁ : StateMachine} (hb : sm.ledger.Balanced)
    (h : sm₁.updatePulseNextTimestamp = .ok sm) : Early sm ∧ Pointed sm := by
  have ⟨hl, _⟩ := updatePulseNextTimestamp_meets.post h
  exact (updatePulseNextTimestamp_points (hl ▸ hb)).post h

-- What holds of the next pulse. Before the first pump it may be due for nothing.
structure Pulses (pumped : Bool) (sm : StateMachine) : Prop where
  expirable : sm.ledger.Expirable
  early : Early sm
  pointed : pumped = true ∨ sm.ledger.Settled → Pointed sm

variable {pumped : Bool}

-- The next pulse is about the transfers and their pending rows.
theorem Pulses.congr (h : Pulses pumped sm) (ht : sm'.ledger.transfer = sm.ledger.transfer)
    (hr : sm'.ledger.pending = sm.ledger.pending)
    (hp : sm'.pulseNextTimestamp = sm.pulseNextTimestamp) : Pulses pumped sm' := by
  have hexpiries : sm'.ledger.expiries = sm.ledger.expiries := by
    unfold Ledger.expiries
    rw [ht, hr]
  refine ⟨?_, ?_, fun hs => ?_⟩
  · unfold Ledger.Expirable
    rw [ht]
    exact h.expirable
  · unfold Early
    rw [hexpiries, hp]
    exact h.early
  · unfold Pointed
    rw [hexpiries, hp]
    unfold Ledger.Settled at hs
    rw [hr] at hs
    exact h.pointed hs

theorem Pulses.create {record : Transfer} {dr cr : Account} (h : Pulses pumped sm)
    (hb : sm.ledger.Balanced) (hn : sm.ledger.transfers.lookup record.id = none)
    (hfresh : (sm.ledger.timestamps.lookup record.timestamp).all (· = record.id) = true)
    (hexpiry : record.timestamp + record.timeoutNs ≤ TimestampRange.timestampMax)
    (hl : sm'.ledger = sm.ledger.create record dr cr)
    (hpending : 0 < record.timeout → record.flags.pending = true)
    (hp : sm'.pulseNextTimestamp = if 0 < record.timeout then
      min sm.pulseNextTimestamp (record.timestamp + record.timeoutNs) else sm.pulseNextTimestamp) :
    Pulses pumped sm' := by
  have hexpiries := @Ledger.expiries_create sm.ledger record dr cr hb hn hfresh
  have hiff : record.flags.pending = true ∧ 0 < record.timeout ↔ 0 < record.timeout :=
    ⟨And.right, fun ht => ⟨hpending ht, ht⟩⟩
  simp only [hiff] at hexpiries
  refine ⟨?_, ?_, fun hs => ?_⟩
  · intro id p hp ht
    rw [hl, Ledger.transfer_create, Function.update_apply] at hp
    split at hp
    · cases hp
      exact hexpiry
    · exact h.expirable id p hp ht
  · intro expiresAt he
    rw [hl, hexpiries] at he
    rw [hp]
    split at he
    · next ht =>
      rw [if_pos ht]
      obtain rfl | he := he
      · exact Nat.min_le_right _ _
      · exact (Nat.min_le_left _ _).trans (h.early _ he)
    · next ht =>
      rw [if_neg ht]
      exact h.early _ he
  · rw [hl] at hs
    unfold Pointed
    rw [hl, hexpiries, hp]
    have hpointed := h.pointed (hs.imp_right Ledger.Settled.of_create)
    split
    · next ht =>
      rcases Nat.le_total sm.pulseNextTimestamp (record.timestamp + record.timeoutNs) with hle | hle
      · rw [Nat.min_eq_left hle]
        exact hpointed.imp_right (Set.mem_insert_of_mem _)
      · rw [Nat.min_eq_right hle]
        exact .inr (Set.mem_insert _ _)
    · exact hpointed

theorem Pulses.persist {count index : Nat}
    {result : CreateTransferResult} (h : Pulses pumped sm) (hp : Persisting sm event result) :
    Meets (fun _ => True) (fun sm' => sm'.ledger.Balanced → Pulses pumped sm')
      (persistTransferEvent timestamp count index event result sm) := by
  refine persistTransferEvent_meets ?_
  obtain ⟨view, dr, cr, after, hcreates⟩ | ⟨view, p, row, dr, cr, dr', cr', after, hresolves⟩ :=
    hp.effect
  · have hplain : ({ event with timestamp := result.timestamp } : Transfer).flags.postOrVoid = false :=
      hcreates.creatable.plain
    refine ((persistTransfer_of_plain hplain).and (persistTransfer_pulse hplain)).weaken
      fun sm' ⟨⟨_, _, _, _, _, _, _, _, hfresh, hl, _⟩, hpending, hpulse⟩ _ => ?_
    exact @Pulses.create _ _ _
      { event with amount := result.amountActual, timestamp := result.timestamp } _ _ h hp.balanced
      hp.absent hfresh hcreates.expiry hl hpending hpulse
  · have hres := hresolves.resolvable
    rw [persistTransfer_resolving hres.plain hres.resolves]
    refine (persistPostVoid_meets.and persistPostVoid_pulse).weaken
      fun sm' ⟨⟨p, _, _, _, _, _, _, _, _, _, _, _, hl, _⟩, sm₁, hupdate⟩ hb => ?_
    have ⟨hearly, hpointed⟩ := points_of_updated hb hupdate
    refine ⟨fun id t ht htimeout => ?_, hearly, fun _ => hpointed⟩
    rw [hl, Ledger.transfer_resolve, Function.update_apply] at ht
    split at ht
    · cases ht
      exact absurd htimeout (Nat.lt_irrefl 0)
    · exact h.expirable id t ht htimeout

variable [Hasher]

theorem createAccounts_pulse {events : List Account} :
    Meets (fun _ => True)
      (fun r => r.2.ledger.transfer = sm.ledger.transfer ∧ r.2.ledger.pending = sm.ledger.pending ∧
        r.2.pulseNextTimestamp = sm.pulseNextTimestamp)
      (sm.createAccounts events timestamp) := by
  unfold createAccounts createAccountsPrefetch
  simp only [Meets.bind_eq, Meets.pure_eq, partial_assert]
  refine fun _ => Meets.trivial.weaken fun _ _ => Meets.trivial.weaken fun _ _ => ?_
  suffices hevent : ∀ index event result (sm' : StateMachine),
      (sm'.ledger.transfer = sm.ledger.transfer ∧ sm'.ledger.pending = sm.ledger.pending ∧
        sm'.pulseNextTimestamp = sm.pulseNextTimestamp) →
      Meets (fun _ => True) (fun sm'' : StateMachine =>
        sm''.ledger.transfer = sm.ledger.transfer ∧ sm''.ledger.pending = sm.ledger.pending ∧
          sm''.pulseNextTimestamp = sm.pulseNextTimestamp)
        (persistAccountEvent timestamp events.length index event result sm') by
    exact persistBatch_meets hevent ⟨rfl, rfl, rfl⟩
  intro index event result sm' h
  have hinsert : ∀ event : Account, Meets (fun _ => True) (fun sm'' : StateMachine =>
      sm''.ledger.transfer = sm.ledger.transfer ∧ sm''.ledger.pending = sm.ledger.pending ∧
        sm''.pulseNextTimestamp = sm.pulseNextTimestamp) (sm'.insertAccount event.id event) := by
    refine fun event => (insertAccount_meets.and insertAccount_pulse).weaken
      fun sm'' ⟨⟨hl, _⟩, hpulse⟩ => ?_
    rw [hl, hpulse]
    exact h
  unfold persistAccountEvent
  simp only [Meets.ite_iff, Meets.bind_eq, Meets.pure_eq, partial_assert]
  exact ⟨fun _ _ => hinsert _, fun _ => Meets.trivial.weaken fun _ _ _ => hinsert _⟩

-- The state machine together with whether an expiry pump has run.
def pumping : Machine (StateMachine × Bool) Call Fault where
  init s := s = (default, false)
  step
    | (sm, _), .expirePendingTransfers timestamp => return (← sm.expirePendingTransfers timestamp, true)
    | (sm, pumped), call                         => return (← machine.step sm call, pumped)

def TimelyPumping (s : StateMachine × Bool) (call : Call) : Prop :=
  Timely s.1 call

theorem Pulses.step {s t : StateMachine × Bool} {call : Call} (h : Sound s.1)
    (hp : Pulses s.2 s.1) (ht : TimelyPumping s call) (hstep : pumping.step s call = .ok t) :
    Sound t.1 ∧ Pulses t.2 t.1 := by
  have hvalid : TimestampRange.valid call.timestamp := ht
  cases call with
  | createAccounts events timestamp =>
    obtain ⟨sm', hr, he⟩ := bind_eq_ok.mp hstep
    have hs := h.step ht hr
    cases he
    obtain ⟨r, hcall, he⟩ := bind_eq_ok.mp hr
    cases he
    have ⟨htransfer, hpending, hpulse⟩ := createAccounts_pulse.post hcall
    exact ⟨hs, hp.congr htransfer hpending hpulse⟩
  | createTransfers events timestamp =>
    obtain ⟨sm', hr, he⟩ := bind_eq_ok.mp hstep
    have hs := h.step ht hr
    cases he
    obtain ⟨⟨results, sm'⟩, hcall, he⟩ := bind_eq_ok.mp hr
    cases he
    refine ⟨hs, h.persisted hvalid.2 hcall (fun _ _ _ _ => hp.congr rfl rfl rfl) ?_⟩
    exact fun sm₁ event result index _ hpersisting hi => hi.persist hpersisting
  | expirePendingTransfers timestamp =>
    obtain ⟨sm', hr, he⟩ := bind_eq_ok.mp hstep
    cases he
    have ⟨hs, htransfer, _⟩ := h.expirePendingTransfers.post hr
    obtain ⟨sm₁, hupdate⟩ := expirePendingTransfers_pulse.post hr
    have ⟨hearly, hpointed⟩ := points_of_updated hs.balanced hupdate
    refine ⟨hs, ?_, hearly, fun _ => hpointed⟩
    unfold Ledger.Expirable
    rw [htransfer]
    exact hp.expirable

theorem pulses_of_reachable (h : pumping.Reachable TimelyPumping (sm, pumped)) :
    Sound sm ∧ Pulses pumped sm := by
  refine h.invariant (p := fun s => Sound s.1 ∧ Pulses s.2 s.1) (fun s hi => ?_)
    fun s call t ⟨hs, hp⟩ ht hstep => hp.step hs ht hstep
  subst hi
  refine ⟨sound_default, nofun, ?_, ?_⟩
  · rintro _ ⟨_, _, hp, _⟩
    cases hp
  · rintro (hp | ⟨_, _, hl, _⟩)
    · cases hp
    · cases hl
-- No expiry is missed, and once there has been a pump, or a post or a void, the next pulse is at the
-- first of them.
theorem pulse_next (h : pumping.Reachable TimelyPumping (sm, pumped)) :
    (∀ id p timestamp, sm.transfers.lookup id = some p →
      (sm.transfersPending.lookup p.timestamp).map TransferPending.status = some .pending →
        0 < p.timeout → p.timestamp + p.timeoutNs ≤ timestamp → sm.pulseNeeded timestamp = true) ∧
    (pumped = true ∨ (∃ timestamp row, sm.transfersPending.lookup timestamp = some row ∧
        (row.status = .posted ∨ row.status = .voided)) →
      IsLeast sm.ledger.expiries sm.pulseNextTimestamp ∨
        sm.ledger.expiries = ∅ ∧ sm.pulseNextTimestamp = TimestampRange.timestampMax) := by
  have ⟨_, hp⟩ := pulses_of_reachable h
  refine ⟨fun id p timestamp ht hs htimeout hle => ?_, fun hs => ?_⟩
  · exact decide_eq_true ((hp.early _ ⟨id, p, ht, hs, htimeout, rfl⟩).trans hle)
  · have hsettled : pumped = true ∨ sm.ledger.Settled := by
      refine hs.imp_right fun ⟨timestamp, row, hl, hstatus⟩ => ⟨timestamp, row, hl, ?_⟩
      rintro heq
      rw [heq] at hstatus
      obtain h | h := hstatus <;> cases h
    obtain hmax | hmem := hp.pointed hsettled
    · rcases Set.eq_empty_or_nonempty sm.ledger.expiries with hempty | ⟨expiresAt, he⟩
      · exact .inr ⟨hempty, hmax⟩
      · -- The last timestamp is that of an expiry.
        have hle := hp.early _ he
        have hmin := hp.expirable.le he
        obtain rfl : expiresAt = sm.pulseNextTimestamp := by omega
        exact .inl ⟨he, hp.early⟩
    · exact .inl ⟨hmem, hp.early⟩

end StateMachine

namespace StateMachine.Runs

open Accounting.Runs

attribute [local instance] identityHasher

instance {s : StateMachine × Bool} {call : Call} : Decidable (TimelyPumping s call) :=
  inferInstanceAs (Decidable (Timely s.1 call))

-- A transfer that is pending for five seconds, and a pump before it expires.
def pumps : List Call := [
  accounts,
  .createTransfers [{ transfer 1 1 2 2 with timeout := 5 }] 200,
  .expirePendingTransfers 300]

theorem pulse_next_of_pumps : ∃ sm, pumping.Reachable TimelyPumping (sm, true) ∧
    sm.pulseNextTimestamp = 5000000200 ∧ sm.pulseNeeded 5000000200 = true ∧
    IsLeast sm.ledger.expiries 5000000200 := by
  obtain ⟨⟨sm, pumped⟩, hr, rfl, hpulse, p, hp, hrow, htimeout, hexpiry⟩ :=
    (Machine.Reachable.init rfl).leads (show pumping.Leads TimelyPumping
      (fun s => s.2 = true ∧ s.1.pulseNextTimestamp = 5000000200 ∧
        ∃ p ∈ s.1.transfers.lookup 1,
          (s.1.transfersPending.lookup p.timestamp).map TransferPending.status = some .pending ∧
            0 < p.timeout ∧ p.timestamp + p.timeoutNs = 5000000200) pumps (default, false)
      by decide +kernel)
  have ⟨hneeded, hleast⟩ := pulse_next hr
  refine ⟨sm, hr, hpulse, hneeded 1 p _ hp hrow htimeout hexpiry.le, ?_⟩
  obtain hleast | ⟨hempty, _⟩ := hleast (.inl rfl)
  · exact hpulse ▸ hleast
  · have he : p.timestamp + p.timeoutNs ∈ sm.ledger.expiries := ⟨1, p, hp, hrow, htimeout, rfl⟩
    rw [hempty] at he
    cases he

end StateMachine.Runs

end TigerBeetle.Accounting
