import TigerBeetle.Theorems.Apart

namespace TigerBeetle.Accounting

open Fallible HashMap Fault

namespace StateMachine

variable {sm sm' : StateMachine} {P : Prop} {timestamp : Nat}

-- An account event is recorded at a time at which there has been none.
def RecordsEvent (sm : StateMachine) (timestamp : Nat) (status : TransferPendingStatus)
    (pending : Option Transfer) (sm' : StateMachine) : Prop :=
  sm.accountEvents.lookup timestamp = none ∧ ∃ event : AccountEvent,
    event.transferPendingStatus = status ∧ event.transferPendingId = pending.elim 0 Transfer.id ∧
      sm'.accountEvents = sm.accountEvents.insert timestamp event

-- No event that has been recorded is lost or changed.
def KeepsEvents (sm sm' : StateMachine) : Prop :=
  ∀ t event, sm.accountEvents.lookup t = some event → sm'.accountEvents.lookup t = some event

theorem KeepsEvents.of_eq (h : sm'.accountEvents = sm.accountEvents) : sm.KeepsEvents sm' :=
  fun _ _ hl => h ▸ hl

theorem KeepsEvents.trans {sm'' : StateMachine} (h : sm.KeepsEvents sm')
    (h' : sm'.KeepsEvents sm'') : sm.KeepsEvents sm'' :=
  fun t event hl => h' t event (h t event hl)

variable {status : TransferPendingStatus} {pending : Option Transfer}

theorem RecordsEvent.keeps (h : sm.RecordsEvent timestamp status pending sm') : sm.KeepsEvents sm' := by
  intro t event hl
  obtain ⟨hn, _, _, _, he⟩ := h
  rw [he, lookup_insert_eq, if_neg ?_]
  · exact hl
  · rintro rfl
    rw [hn] at hl
    cases hl

variable {account : Account} {id : U128}

section

variable {E : Fault → Prop} [Lax E]

theorem insertTransfer_events {transfer : Transfer} :
    Meets E
      (fun sm' => (sm.transfersByTimestamp.lookup transfer.timestamp).all (· = id) = true ∧
        sm'.accountEvents = sm.accountEvents)
      (sm.insertTransfer id transfer) := by
  unfold insertTransfer
  simp only [Meets.bind_eq, Meets.pure_eq, meets_assert_eq]
  simp [allows E, watched, importing]

theorem insertTransferPending_events {pending : TransferPending} :
    Meets E (fun sm' => sm'.accountEvents = sm.accountEvents)
      (sm.insertTransferPending pending) := by
  unfold insertTransferPending
  simp [allows E, watched, importing]

theorem updateTransferPendingStatus_events : Meets E (fun sm' => sm'.accountEvents = sm.accountEvents)
      (sm.updateTransferPendingStatus timestamp status) := by
  unfold updateTransferPendingStatus
  simp [allows E, watched, importing, expect_allowed]

theorem updateAccount_events :
    Meets E (fun sm' => sm'.accountEvents = sm.accountEvents) (sm.updateAccount account) := by
  unfold updateAccount
  simp [allows E, watched, importing, expect_allowed]

theorem updateAccountIf_events {updated : Bool} :
    Meets E (fun sm' => sm'.accountEvents = sm.accountEvents)
      (sm.updateAccountIf updated account) := by
  unfold updateAccountIf
  simp [Meets.ite_iff, updateAccount_events]

theorem expiring_apart {message : String} (h : message ∉ watched) (h' : message ∉ importing) :
    Meets E (fun _ => True) (sm.expiring message) := by
  unfold expiring
  simp only [Meets.bind_eq, Meets.pure_eq]
  refine Meets.weaken (fun _ _ => trivial) (mapM_meets (Q := fun _ => True) fun row _ => ?_)
  simp [allows E, watched, importing, Meets.ite_iff, expect_allowed h h']

theorem updatePulseNextTimestamp_events :
    Meets E (fun sm' => sm'.accountEvents = sm.accountEvents) sm.updatePulseNextTimestamp := by
  unfold updatePulseNextTimestamp
  simp [expiring_apart, watched, importing]

end

theorem pushAccountEvent_events :
    (sm.pushAccountEvent account timestamp).accountEvents = sm.accountEvents := by
  unfold pushAccountEvent
  split <;> rfl

theorem accountEvent_events {dr cr : Account} {flags : TransferFlags}
    {requested amount : U128}
    (h : P → sm.accountEvents.lookup timestamp = none) :
    Meets (fun fault => P → fault.Apart) (sm.RecordsEvent timestamp status pending)
      (sm.accountEvent timestamp dr cr flags status pending requested amount) := by
  unfold accountEvent
  cases status
  all_goals
    simp only [Meets.bind_eq, Meets.pure_eq, meets_assert_eq]
    simp [RecordsEvent, pushAccountEvent_events]
    exact fun _ _ _ => ⟨fun hn => ⟨hn, _, rfl, rfl, rfl⟩, fun hn hp => hn (h hp)⟩

theorem RecordsEvent.congr {sm₁ sm₂ : StateMachine} (h : sm₁.RecordsEvent timestamp status pending sm₂)
    (h₁ : sm₁.accountEvents = sm.accountEvents) (h₂ : sm'.accountEvents = sm₂.accountEvents) :
    sm.RecordsEvent timestamp status pending sm' := by
  unfold RecordsEvent
  rw [← h₁, h₂]
  exact h

theorem commitTransfer_events {event : Transfer} {amount requested : U128}
    (h : P → sm.accountEvents.lookup event.timestamp = none) :
    Meets (fun fault => P → fault.Apart)
      (sm.RecordsEvent event.timestamp (if event.flags.pending then .pending else .none) none)
      (sm.commitTransfer event amount requested) := by
  have hE : ∀ fault : Fault, fault.Apart → P → fault.Apart := fun _ h _ => h
  unfold commitTransfer
  simp only [Meets.bind_eq]
  refine (expect_apart (by simp [watched])).mono (fun dr _ => ?_) hE
  refine (expect_apart (by simp [watched])).mono (fun cr _ => ?_) hE
  refine updateAccount_events.mono (fun sm₁ h₁ => ?_) hE
  refine updateAccount_events.mono (fun sm₂ h₂ => ?_) hE
  have heq := h₂.trans h₁
  refine (accountEvent_events (heq ▸ h)).weaken fun sm₃ h₃ => ?_
  simp only [Meets.ite_iff, Meets.bind_eq, Meets.pure_eq, meets_assert_eq, apart_panic]
  exact ⟨fun _ => ⟨fun _ => ⟨fun _ => h₃.congr heq rfl, by simp⟩, by simp⟩,
    fun _ => h₃.congr heq rfl⟩

theorem persistTransfer_events {event : Transfer} {amount : U128}
    (h : P → (sm.transfersByTimestamp.lookup event.timestamp).all (· = event.id) = true →
      sm.accountEvents.lookup event.timestamp = none) :
    Meets (fun fault => P → fault.Apart)
      (fun sm' => ∃ status ≠ .expired, ∃ pending, sm.RecordsEvent event.timestamp status pending sm')
      (sm.persistTransfer event amount) := by
  have hE : ∀ fault : Fault, fault.Apart → P → fault.Apart := fun _ h _ => h
  unfold persistTransfer
  simp only [Meets.ite_iff, Meets.bind_eq]
  refine ⟨fun hp => ?_, fun hp => ⟨fun _ => ?_, fun _ => ?_⟩⟩
  · refine insertTransfer_events.mono (fun sm₁ ⟨hn, h₁⟩ => ?_) hE
    refine insertTransferPending_events.mono (fun sm₂ h₂ => ?_) hE
    have heq := h₂.trans h₁
    refine (commitTransfer_events fun hp => ?_).weaken
      fun sm₃ h₃ => ⟨.pending, nofun, none, ?_⟩
    · rw [heq]
      exact h hp hn
    · rw [if_pos hp] at h₃
      exact h₃.congr heq rfl
  · unfold persistPostVoid
    simp only [Meets.bind_eq]
    refine (expect_apart (by simp [watched])).mono (fun p _ => ?_) hE
    refine insertTransfer_events.mono (fun sm₁ ⟨hn, h₁⟩ => ?_) hE
    refine updateTransferPendingStatus_events.mono (fun sm₂ h₂ => ?_) hE
    refine (expect_apart (by simp [watched])).mono (fun dr _ => ?_) hE
    refine (expect_apart (by simp [watched])).mono (fun cr _ => ?_) hE
    refine commitPostVoidAccounts_apart.mono (fun accounts _ => ?_) hE
    refine updateAccount_events.mono (fun sm₃ h₃ => ?_) hE
    refine updateAccount_events.mono (fun sm₄ h₄ => ?_) hE
    have heq := h₄.trans (h₃.trans (h₂.trans h₁))
    refine (accountEvent_events fun hp => ?_).weaken fun sm₅ h₅ => ?_
    · rw [heq]
      exact h hp hn
    · refine updatePulseNextTimestamp_events.mono (fun sm₆ h₆ => ⟨_, ?_, _, h₅.congr heq h₆⟩) hE
      split <;> nofun
  · refine insertTransfer_events.mono (fun sm₁ ⟨hn, h₁⟩ => ?_) hE
    refine (commitTransfer_events fun hp => ?_).weaken
      fun sm₂ h₂ => ⟨.none, nofun, none, ?_⟩
    · rw [h₁]
      exact h hp hn
    · rw [if_neg hp] at h₂
      exact h₂.congr h₁ rfl

theorem persistTransferEvent_events {count index : Nat} {event : Transfer}
    {result : CreateTransferResult}
    (h : P → (sm.transfersByTimestamp.lookup result.timestamp).all (· = event.id) = true →
      sm.accountEvents.lookup result.timestamp = none) :
    Meets (fun fault => P → fault.Apart)
      (fun sm' => ∃ status ≠ .expired, ∃ pending, sm.RecordsEvent result.timestamp status pending sm')
      (persistTransferEvent timestamp count index event result sm) := by
  have hpersist : Meets (fun fault => P → fault.Apart)
      (fun sm' => ∃ status ≠ .expired, ∃ pending, sm.RecordsEvent result.timestamp status pending sm')
      (sm.persistTransfer { event with timestamp := result.timestamp } result.amountActual) :=
    @persistTransfer_events _ _ { event with timestamp := result.timestamp } _ h
  unfold persistTransferEvent
  simp only [Meets.ite_iff, Meets.bind_eq, Meets.pure_eq, meets_assert_eq]
  refine ⟨fun _ => ⟨fun ht => ?_, by simp⟩, fun _ => timestampEvent_apart.mono (fun t _ =>
    ⟨fun ht => ?_, by simp⟩) fun _ h _ => h⟩
  · rw [← ht] at hpersist ⊢
    exact hpersist
  · rw [← ht] at hpersist ⊢
    exact hpersist

theorem expire_events (h : P → sm.accountEvents.lookup timestamp = none) :
    Meets (fun fault => P → fault.Apart) (fun sm' => ∃ p,
        sm.ledger.transfers.lookup id = some p ∧ sm.RecordsEvent timestamp .expired (some p) sm')
      (sm.expire timestamp id) := by
  have hE : ∀ fault : Fault, fault.Apart → P → fault.Apart := fun _ h _ => h
  unfold expire
  simp only [Meets.bind_eq, meets_assert_eq]
  refine ⟨fun _ => ((expect_apart (by simp [watched])).and_post expect_meets).mono
    (fun p ⟨_, hp⟩ => ?_) hE, by simp⟩
  refine ⟨fun _ => (expect_apart (by simp [watched])).mono (fun dr _ => ?_) hE, by simp⟩
  refine (expect_apart (by simp [watched])).mono (fun cr _ => ?_) hE
  refine ⟨fun _ => ⟨fun _ => ⟨fun _ => ⟨fun _ => ?_, by simp⟩, by simp⟩, by simp⟩, by simp⟩
  refine updateAccountIf_events.mono (fun sm₁ h₁ => ?_) hE
  refine updateAccountIf_events.mono (fun sm₂ h₂ => ?_) hE
  refine updateTransferPendingStatus_events.mono (fun sm₃ h₃ => ?_) hE
  have heq : sm₃.accountEvents = sm.accountEvents := h₃.trans (h₂.trans h₁)
  exact (accountEvent_events (heq ▸ h)).weaken fun sm₄ h₄ => ⟨p, hp, h₄.congr heq rfl⟩

-- Each transfer and each expiry has its event, and each event is that of one of them.
structure Registered (sm : StateMachine) : Prop where
  owned : ∀ t id, sm.ledger.timestamps.lookup t = some id →
    (sm.ledger.transfers.lookup id).isSome = true
  events : ∀ t event, sm.accountEvents.lookup t = some event →
    event.transferPendingStatus = .expired ∨ (sm.ledger.timestamps.lookup t).isSome = true
  recorded : ∀ id record, sm.ledger.transfers.lookup id = some record →
    ∃ event, sm.accountEvents.lookup record.timestamp = some event ∧
      event.transferPendingStatus ≠ .expired
  expired : ∀ t row, sm.ledger.pendings.lookup t = some row → row.status = .expired →
    ∃ id p at' event, sm.ledger.transfers.lookup id = some p ∧ p.timestamp = t ∧
      sm.accountEvents.lookup at' = some event ∧ event.transferPendingStatus = .expired ∧
      event.transferPendingId = p.id

theorem Registered.congr (h : Registered sm) (ht : sm'.ledger.transfers = sm.ledger.transfers)
    (hts : sm'.ledger.timestamps = sm.ledger.timestamps)
    (hps : sm'.ledger.pendings = sm.ledger.pendings)
    (he : sm'.accountEvents = sm.accountEvents) : Registered sm' := by
  refine ⟨?_, ?_, ?_, ?_⟩
  · rw [ht, hts]
    exact h.owned
  · rw [he, hts]
    exact h.events
  · rw [ht, he]
    exact h.recorded
  · rw [ht, hps, he]
    exact h.expired

-- A transfer that is created takes the place of its own event.
theorem Registered.vacant (h : Registered sm) {event : Transfer} {t : Nat}
    (hn : sm.ledger.transfers.lookup event.id = none)
    (hx : ∀ e, sm.accountEvents.lookup t = some e → e.transferPendingStatus ≠ .expired)
    (hfresh : (sm.transfersByTimestamp.lookup t).all (· = event.id) = true) :
    sm.accountEvents.lookup t = none := by
  cases he : sm.accountEvents.lookup t with
  | none => rfl
  | some e =>
    obtain hexpired | hsome := h.events t e he
    · exact absurd hexpired (hx e he)
    · have ⟨id, hid⟩ := Option.isSome_iff_exists.mp hsome
      have hid' : sm.transfersByTimestamp.lookup t = some id := hid
      rw [hid'] at hfresh
      obtain rfl : id = event.id := by simpa using hfresh
      have := h.owned t _ hid
      rw [hn] at this
      cases this

theorem Registered.insert (h : Registered sm) {record : Transfer}
    (hs : status ≠ .expired)
    (habsent : sm.ledger.transfers.lookup id = none)
    (ht : sm'.ledger.transfers = sm.ledger.transfers.insert id record)
    (hts : sm'.ledger.timestamps = sm.ledger.timestamps.insert record.timestamp id)
    (hps : ∀ t row, sm'.ledger.pendings.lookup t = some row → row.status = .expired →
      sm.ledger.pendings.lookup t = some row)
    (hrecords : sm.RecordsEvent record.timestamp status pending sm') : Registered sm' := by
  have hkeeps := hrecords.keeps
  obtain ⟨hn, event, hstatus, _, he⟩ := hrecords
  refine ⟨fun t key hk => ?_, fun t e hl => ?_, fun key r hr => ?_, fun t row hl hx => ?_⟩
  · rw [hts, lookup_insert_eq] at hk
    rw [ht, lookup_insert_eq]
    split
    · rfl
    · next hne =>
      split at hk
      · cases hk
        exact absurd rfl hne
      · exact h.owned t key hk
  · rw [he, lookup_insert_eq] at hl
    rw [hts, lookup_insert_eq]
    split
    · exact .inr rfl
    · next hne =>
      rw [if_neg hne] at hl
      exact h.events t e hl
  · rw [ht, lookup_insert_eq] at hr
    split at hr
    · cases hr
      rw [he]
      exact ⟨event, by simp, hstatus ▸ hs⟩
    · obtain ⟨e, hl, hx⟩ := h.recorded key r hr
      exact ⟨e, hkeeps _ _ hl, hx⟩
  · obtain ⟨key, p, at', e, hp, hpt, hl, he⟩ := h.expired t row (hps t row hl hx) hx
    refine ⟨key, p, at', e, ?_, hpt, hkeeps _ _ hl, he⟩
    rw [ht, lookup_insert_eq, if_neg ?_]
    · exact hp
    · rintro rfl
      rw [habsent] at hp
      cases hp

theorem expired_of_insert {pendings : HashMap Nat TransferPending} {t : Nat}
    {inserted row : TransferPending} (hn : inserted.status ≠ .expired)
    (hl : (pendings.insert timestamp inserted).lookup t = some row) (hx : row.status = .expired) :
    pendings.lookup t = some row := by
  rw [lookup_insert_eq] at hl
  split at hl
  · cases hl
    exact absurd hx hn
  · exact hl

theorem Registered.persist {count index : Nat} {event : Transfer} {result : CreateTransferResult}
    (h : Registered sm) (hp : Persisting sm event result) :
    Meets (fun _ => True) Registered
      (persistTransferEvent timestamp count index event result sm) := by
  have hinserts : Meets (fun _ => True)
      (fun sm' => ∃ record : Transfer, record.timestamp = result.timestamp ∧
        sm'.ledger.transfers = sm.ledger.transfers.insert event.id record ∧
        sm'.ledger.timestamps = sm.ledger.timestamps.insert result.timestamp event.id ∧
        ∀ t row, sm'.ledger.pendings.lookup t = some row → row.status = .expired →
          sm.ledger.pendings.lookup t = some row)
      (persistTransferEvent timestamp count index event result sm) := by
    refine persistTransferEvent_meets ?_
    obtain ⟨view, dr, cr, after, hc⟩ | ⟨view, p, row, dr, cr, dr', cr', after, hr⟩ := hp.effect
    · have hplain : ({ event with timestamp := result.timestamp } : Transfer).flags.postOrVoid =
          false := hc.creatable.plain
      refine (persistTransfer_of_plain hplain).weaken fun sm' ⟨_, _, _, _, _, _, _, _, _, hl, _⟩ => ?_
      refine ⟨_, rfl, by rw [hl]; rfl, by rw [hl]; rfl, fun t row hrow hx => ?_⟩
      rw [hl] at hrow
      unfold Ledger.create at hrow
      dsimp only at hrow
      split at hrow
      · refine expired_of_insert ?_ hrow hx
        nofun
      · exact hrow
    · rw [persistTransfer_resolving hr.resolvable.plain hr.resolvable.resolves]
      refine persistPostVoid_meets.weaken
        fun sm' ⟨_, _, _, _, _, _, _, _, _, _, _, _, hl, _⟩ => ?_
      refine ⟨_, rfl, by rw [hl]; rfl, by rw [hl]; rfl, fun t row hrow hx => ?_⟩
      rw [hl] at hrow
      refine expired_of_insert ?_ hrow hx
      unfold resolvedStatus
      split <;> nofun
  have hevents := (@persistTransferEvent_events sm False timestamp count index event result
    False.elim).mono (fun _ h => h) fun _ _ => trivial
  refine (hinserts.and hevents).weaken
    fun sm' ⟨⟨record, hts, ht, htimestamps, hpendings⟩, status, hs, pending, he⟩ => ?_
  rw [← hts] at htimestamps he
  exact h.insert hs hp.absent ht htimestamps hpendings he

theorem expireAll_apart {count index : Nat} {due : List (Nat × Nat × U128)}
    (h : ∀ i, index ≤ i → i < index + due.length →
      sm.accountEvents.lookup (stamp timestamp count i) = none) :
    Meets Apart (fun _ => True) (expireAll timestamp count index due sm) := by
  induction due generalizing index sm with
  | nil => trivial
  | cons x due ih =>
    rw [List.length_cons] at h
    simp only [StateMachine.expireAll, Meets.bind_eq]
    refine (timestampEvent_apart.and_post timestampEvent_meets).weaken fun t ht => ?_
    obtain ⟨_, ht, _⟩ := ht
    subst ht
    refine (expire_events (P := True) fun _ => h index (Nat.le_refl _) (by omega)).mono
      (fun sm₁ h₁ => ?_) fun _ h => h trivial
    obtain ⟨_, _, _, event, _, _, he⟩ := h₁
    refine ih fun i hle hlt => ?_
    rw [he, lookup_insert_eq, if_neg (by unfold stamp; omega)]
    exact h i (by omega) (by omega)

-- The pending transfers that a pump expires.
def due (sm : StateMachine) (timestamp : Nat) : List (Nat × Nat × U128) :=
  ((sm.expiring "pending transfer status row implies a committed pending transfer").toOption.getD
    []).filter fun (expiresAt, _) => expiresAt ≤ timestamp

theorem expirePendingTransfers_apart (h : ∀ index < (sm.due timestamp).length,
      sm.accountEvents.lookup (stamp timestamp (sm.due timestamp).length index) = none) :
    Meets Apart (fun _ => True) (sm.expirePendingTransfers timestamp) := by
  unfold expirePendingTransfers
  simp only [Meets.bind_eq, meets_assert_eq]
  refine ⟨fun _ => ⟨fun _ => ?_, by simp⟩, by simp⟩
  refine (expiring_apart (by simp [watched]) (by simp [importing])).returned.weaken fun byMap ⟨heq, _⟩ => ?_
  have hdue : byMap.filter (fun (expiresAt, _) => expiresAt ≤ timestamp) = sm.due timestamp := by
    unfold due
    rw [heq]
    rfl
  rw [hdue]
  refine (expireAll_apart fun i _ hlt => h i (by omega)).weaken fun sm₁ _ => ?_
  exact updatePulseNextTimestamp_events.weaken fun _ _ => trivial

variable [Hasher]

-- A pending transfer that expires leaves the transfers alone.
theorem Registered.expire (h : Registered sm) (hs : Sound sm)
    (hp : ∀ p, sm.ledger.transfer id = some p → p.flags.pending = true) :
    Meets (fun _ => True) Registered (sm.expire timestamp id) := by
  have hevents := (@expire_events sm False timestamp id False.elim).mono (fun _ h => h)
    fun _ _ => trivial
  refine ((expire_meets hs.balanced hp).and hevents).weaken
    fun sm' ⟨⟨_, _, p, accounts, hp, _, _, hl, _⟩, p', hp', hrecords⟩ => ?_
  obtain rfl : p' = p := Option.some.inj (hp'.symm.trans hp)
  have hkeeps := hrecords.keeps
  obtain ⟨hn, event, hstatus, hid, he⟩ := hrecords
  have ht : sm'.ledger.transfers = sm.ledger.transfers := by rw [hl]; rfl
  have hts : sm'.ledger.timestamps = sm.ledger.timestamps := by rw [hl]; rfl
  refine ⟨?_, fun t e hl => ?_, fun key r hr => ?_, fun t row hrow hx => ?_⟩
  · rw [ht, hts]
    exact h.owned
  · rw [he, lookup_insert_eq] at hl
    rw [hts]
    split at hl
    · cases hl
      exact .inl hstatus
    · exact h.events t e hl
  · rw [ht] at hr
    obtain ⟨e, hl, hx⟩ := h.recorded key r hr
    exact ⟨e, hkeeps _ _ hl, hx⟩
  · rw [ht]
    rw [hl] at hrow
    unfold Ledger.expire at hrow
    rw [lookup_insert_eq] at hrow
    split at hrow
    · next heq =>
      exact ⟨id, p', timestamp, event, hp, heq.symm, by simp [he], hstatus, hid⟩
    · obtain ⟨key, r, at', e, hr, hrt, hl, he⟩ := h.expired t row hrow hx
      exact ⟨key, r, at', e, hr, hrt, hkeeps _ _ hl, he⟩

omit [Hasher] in
theorem expireAll_keepsEvents {count index : Nat} {due : List (Nat × Nat × U128)} :
    Meets (fun _ => True) sm.KeepsEvents (StateMachine.expireAll timestamp count index due sm) := by
  induction due generalizing index sm with
  | nil => exact .of_eq rfl
  | cons x due ih =>
    simp only [StateMachine.expireAll, Meets.bind_eq]
    refine Meets.trivial.weaken fun t _ => ?_
    have hexpire := (@expire_events sm False t x.2.2 False.elim).mono (fun _ h => h) fun _ _ => trivial
    refine hexpire.weaken fun sm₁ h₁ => ?_
    obtain ⟨_, _, h₁⟩ := h₁
    exact ih.weaken fun _ h => h₁.keeps.trans h

theorem Registered.expireAll {count index : Nat} {due : List (Nat × Nat × U128)}
    (h : Registered sm) (hs : Sound sm)
    (hp : ∀ x ∈ due, ∀ p, sm.ledger.transfer x.2.2 = some p → p.flags.pending = true) :
    Meets (fun _ => True) Registered (expireAll timestamp count index due sm) := by
  induction due generalizing index sm with
  | nil => exact h
  | cons x due ih =>
    simp only [StateMachine.expireAll, Meets.bind_eq]
    refine timestampEvent_meets.weaken fun _ _ => ?_
    have hx := hp x (List.mem_cons_self ..)
    refine ((hs.expire hx).and (h.expire hs hx)).weaken fun sm₁ hsm₁ => ?_
    obtain ⟨⟨hs₁, ht₁, _⟩, h₁⟩ := hsm₁
    exact ih h₁ hs₁ fun y hy => ht₁ ▸ hp y (List.mem_cons_of_mem _ hy)

-- A batch of transfers has no failure that neither executing it has nor persisting a transfer.
theorem Sound.createTransfers_tolerates {E : Fault → Prop} [Tolerant E] [DecidablePred E]
    {events : List Transfer} {Inv : StateMachine → Prop} (h : Sound sm)
    (ht : timestamp ≤ TimestampRange.timestampMax)
    (hstart : ∀ accountsObjects transfersObjects transfersPendingObjects orphaned,
      Inv (sm.withCaches accountsObjects transfersObjects transfersPendingObjects orphaned))
    (hexecute : ∀ accountTimestamps sm₁,
      Prefetched sm (prefetchCreateTransfers events fun id => sm.transfers.lookup id) sm₁ →
        Meets E (fun _ => True)
          ((transfersBatch events timestamp accountTimestamps sm₁).orchestrator.orchestrate timestamp
            events (transfersState sm₁)))
    (hstep : ∀ (batch : TransfersBatch) prefetch resolves view after sm₁ event result index,
      event ∈ events →
        (event.flags.imported = events.head?.any fun event => event.flags.imported) →
          Prefetches prefetch resolves events → Follows prefetch resolves view sm₁.ledger →
            batch.Step view event (stamp timestamp events.length index) result after →
              result.status = .created → Inv sm₁ →
                Meets E Inv (persistTransferEvent timestamp events.length index event result sm₁)) :
    Meets E (fun r => Inv r.2) (sm.createTransfers events timestamp) := by
  unfold StateMachine.createTransfers
  simp only [Meets.bind_eq, Meets.pure_eq, meets_assert_eq]
  refine ⟨fun _ => ?_, fun _ => tolerates E _ (by simp [watched])⟩
  have hprefetch : Meets E (fun r => ∃ accountsObjects transfersObjects transfersPendingObjects,
      r.2 = sm.withCaches accountsObjects transfersObjects transfersPendingObjects
        sm.transfersOrphaned)
      (sm.createTransfersPrefetch
        (prefetchCreateTransfers events fun id => sm.transfers.lookup id)) := by
    unfold StateMachine.createTransfersPrefetch
    simp only [Meets.bind_eq, Meets.pure_eq]
    refine fill_apart.weaken fun _ _ => fill_apart.weaken fun _ _ => ?_
    exact fill_apart.weaken fun _ _ => ⟨_, _, _, rfl⟩
  refine (hprefetch.and_post h.createTransfersPrefetch).weaken
    fun ⟨accountTimestamps, sm₁⟩ ⟨⟨_, _, _, he⟩, hp⟩ => ?_
  dsimp only at he
  have hpre := hp.prefetch_eq events
  have hfollows := hp.follows h
  have hkeys := hp.prefetches events
  unfold executeCreateTransfers
  dsimp only
  rw [← hpre] at hfollows ⊢
  let batch := transfersBatch events timestamp accountTimestamps sm₁
  let law := @TransfersBatch.law _ batch ht
  have hidle : law.Idle (transfersState sm₁) :=
    ⟨hp.accounts.idle, hp.transfers.idle, hp.pendings.idle⟩
  refine ((hexecute accountTimestamps sm₁ hp).and_post (law.orchestrate_meets
    (R := fun _ _ => True) hidle (fun _ h => h) fun _ _ _ _ _ _ => True.intro)).weaken
    fun loop ⟨_, _, hs⟩ => ?_
  let sm₂ := StateMachine.orphan { sm₁ with
    accountsObjects := loop.state.accountsObjects
    transfersObjects := loop.state.transfersObjects
    transfersPendingObjects := loop.state.transfersPendingObjects } (events.zip loop.results)
  have hledger : sm₂.ledger = sm.ledger := hp.ledger
  have hinv : Inv sm₂ := by
    have hsm : sm₂ = sm.withCaches loop.state.accountsObjects loop.state.transfersObjects
        loop.state.transfersPendingObjects sm₂.transfersOrphaned := by
      subst he
      rfl
    rw [hsm]
    exact hstart _ _ _ _
  have hpersists := @persists _ _ events sm₂ _ batch ht hkeys
  have hheld : ∀ index a event result b sm₃, event ∈ events →
      batch.orchestrator.created result = true →
      law.Step a event (stamp timestamp events.length index) result b →
      Follows (prefetchCreateTransfers events fun id => sm₁.transfers.lookup id) (sm.Tracks events) a
        sm₃.ledger → Inv sm₃ →
      Meets E Inv (persistTransferEvent timestamp events.length index event result sm₃) := by
    intro index a event result b sm₃ hm hc hs hf hi
    have hc : result.status = .created := by simpa [TransfersBatch.orchestrator] using hc
    have himported : event.flags.imported =
        events.head?.any fun event => event.flags.imported := by
      have := hs.accepted hc
      unfold TransfersBatch.reject at this
      by_contra hne
      simp [batch, transfersBatch, Ne.symm hne] at this
    exact hstep _ _ _ _ _ sm₃ event result index hm himported hkeys hf hs hc hi
  have hkept : law.Persists timestamp events.length events
      (persistTransferEvent timestamp events.length) (fun view sm₃ =>
        (Follows (prefetchCreateTransfers events fun id => sm₁.transfers.lookup id)
          (sm.Tracks events) view sm₃.ledger ∧ Keeps sm₂ sm₃ ∧ ∀ id,
            id ∉ (prefetchCreateTransfers events fun id => sm₁.transfers.lookup id).transferIds →
              sm₃.ledger.transfer id = sm₂.ledger.transfer id) ∧ Inv sm₃) := by
    refine ⟨fun index view event result after sm₃ hm hc hs ⟨hf, hi⟩ => ?_,
      fun _ _ _ _ _ ⟨hf, hi⟩ => ⟨hpersists.rewind _ _ _ _ _ hf, hi⟩⟩
    exact (hpersists.step index view event result after sm₃ hm hc hs hf).and
      ((hheld index view event result after sm₃ hm hc hs hf.1 hi).mono (fun _ h => h)
        fun _ _ => trivial)
  have hsame : ∀ index a event result b sm₃, event ∈ events →
      batch.orchestrator.created result = true →
      law.Step a event (stamp timestamp events.length index) result b →
      ((Follows (prefetchCreateTransfers events fun id => sm₁.transfers.lookup id)
          (sm.Tracks events) a sm₃.ledger ∧ Keeps sm₂ sm₃ ∧ ∀ id,
            id ∉ (prefetchCreateTransfers events fun id => sm₁.transfers.lookup id).transferIds →
              sm₃.ledger.transfer id = sm₂.ledger.transfer id) ∧ Inv sm₃) →
      replaced E (persistTransferEvent timestamp events.length index event result sm₃) =
        persistTransferEvent timestamp events.length index event result sm₃ :=
    fun index a event result b sm₃ hm hc hs ⟨hf, hi⟩ =>
      replaced_eq ((hheld index a event result b sm₃ hm hc hs hf.1 hi).weaken fun _ _ => trivial)
  have hrel : (Follows (prefetchCreateTransfers events fun id => sm₁.transfers.lookup id)
      (sm.Tracks events) (transfersState sm₁).view sm₂.ledger ∧ Keeps sm₂ sm₂ ∧ ∀ id,
        id ∉ (prefetchCreateTransfers events fun id => sm₁.transfers.lookup id).transferIds →
          sm₂.ledger.transfer id = sm₂.ledger.transfer id) ∧ Inv sm₂ :=
    ⟨⟨hledger ▸ hfollows, .refl, fun _ _ => rfl⟩, hinv⟩
  -- Persisting the batch makes no difference to what would be another failure.
  have hfaults : Meets E (fun _ => True)
      (persistBatch batch.orchestrator.linked batch.orchestrator.created
        (fun index event result sm₃ =>
          replaced E (persistTransferEvent timestamp events.length index event result sm₃))
        0 [] (events.zip loop.results) sm₂) :=
    persistBatch_meets (fun _ _ _ _ _ => meets_replaced) trivial
  rw [hs.persist_congr hkept hsame (fun _ he => he) hrel] at hfaults
  exact (hfaults.and_post (hs.persist hkept (fun _ he => he) hrel)).weaken fun _ h => h.2.2

-- The batch assigns the timestamp to a transfer, or the client does.
def Assigns (events : List Transfer) (timestamp t : Nat) : Prop :=
  if events.head?.any fun event => event.flags.imported then
    ∃ event ∈ events, event.flags.imported = true ∧ event.timestamp = t
  else
    timestamp - events.length < t

-- No timestamp that a batch of transfers comes with is that of an expiry, and none that a pump counts
-- back to is that of any account event.
def Unrepeated (sm : StateMachine) (call : Call) : Prop :=
  Timely sm call ∧ match call with
    | .createAccounts _ _ => True
    | .createTransfers events timestamp => ∀ t event, sm.accountEvents.lookup t = some event →
      event.transferPendingStatus = .expired → ¬Assigns events timestamp t
    | .expirePendingTransfers timestamp => ∀ index < (sm.due timestamp).length,
      sm.accountEvents.lookup (stamp timestamp (sm.due timestamp).length index) = none

theorem step_apart {call : Call} (h : Sound sm) (hr : Registered sm) (hg : Unrepeated sm call) :
    Meets Apart (fun _ => True) (machine.step sm call) := by
  obtain ⟨ht, hg⟩ := hg
  have ht : TimestampRange.valid call.timestamp := ht
  cases call with
  | createAccounts events timestamp =>
    simp only [machine, Meets.bind_eq, Meets.pure_eq]
    exact createAccounts_apart
  | createTransfers events timestamp =>
    simp only [machine, Meets.bind_eq, Meets.pure_eq]
    let Inv (sm : StateMachine) : Prop := Registered sm ∧ ∀ t event,
      sm.accountEvents.lookup t = some event → event.transferPendingStatus = .expired →
        ¬Assigns events timestamp t
    have hstart : ∀ accountsObjects transfersObjects transfersPendingObjects orphaned,
        Inv (sm.withCaches accountsObjects transfersObjects transfersPendingObjects orphaned) :=
      fun _ _ _ _ => ⟨hr.congr rfl rfl rfl rfl, hg⟩
    refine Meets.weaken (fun _ _ => trivial) (h.createTransfers_tolerates ht.2 hstart
      (fun _ _ _ => TransfersBatch.orchestrator_apart.orchestrate) ?_)
    intro batch prefetch resolves view after sm₁ event result index hm himported hkeys hf hs hc
      ⟨hr₁, hg₁⟩
    have hp := persisting_of_follows hf hkeys hm hs hc
    have ⟨_, _, _, htime, _⟩ := hs.created hc
    have hassigns : Assigns events timestamp result.timestamp := by
      unfold Assigns
      rw [← himported, htime]
      split
      · next hi => exact ⟨event, hm, hi, rfl⟩
      · unfold stamp
        omega
    have hvacant := @Registered.vacant sm₁ hr₁ event result.timestamp hp.absent
      fun e he hexpired => hg₁ _ e he hexpired hassigns
    have hevents := (@persistTransferEvent_events sm₁ True timestamp events.length index event
      result fun _ => hvacant).mono (fun _ h => h) fun _ hf => hf trivial
    refine (hevents.and_post (hr₁.persist hp)).weaken
      fun sm₂ ⟨⟨status, hs, _, _, e, hstatus, _, he⟩, hr₂⟩ => ⟨hr₂, fun t e' hl hexpired => ?_⟩
    rw [he, lookup_insert_eq] at hl
    split at hl
    · cases hl
      exact absurd (hstatus.symm.trans hexpired) hs
    · exact hg₁ t e' hl hexpired
  | expirePendingTransfers timestamp => exact expirePendingTransfers_apart hg

theorem createAccounts_events {events : List Account} :
    Meets (fun _ => True)
      (fun r => r.2.ledger.transfers = sm.ledger.transfers ∧
        r.2.ledger.timestamps = sm.ledger.timestamps ∧ r.2.ledger.pendings = sm.ledger.pendings ∧
        r.2.accountEvents = sm.accountEvents)
      (sm.createAccounts events timestamp) := by
  unfold createAccounts createAccountsPrefetch
  simp only [Meets.bind_eq, Meets.pure_eq, partial_assert]
  refine fun _ => Meets.trivial.weaken fun _ _ => Meets.trivial.weaken fun _ _ => ?_
  let Inv (sm' : StateMachine) : Prop := sm'.ledger.transfers = sm.ledger.transfers ∧
    sm'.ledger.timestamps = sm.ledger.timestamps ∧ sm'.ledger.pendings = sm.ledger.pendings ∧
    sm'.accountEvents = sm.accountEvents
  have hinsert : ∀ sm' (event : Account), Inv sm' → Meets (fun _ => True) Inv
      (sm'.insertAccount event.id event) := by
    intro sm' event h
    unfold insertAccount
    simp only [Meets.bind_eq, Meets.pure_eq, partial_assert]
    exact fun _ _ => h
  have hevent : ∀ index event result sm', Inv sm' → Meets (fun _ => True) Inv
      (persistAccountEvent timestamp events.length index event result sm') := by
    intro index event result sm' h
    unfold persistAccountEvent
    simp only [Meets.ite_iff, Meets.bind_eq, Meets.pure_eq, partial_assert]
    exact ⟨fun _ _ => hinsert _ _ h, fun _ => Meets.trivial.weaken fun _ _ _ => hinsert _ _ h⟩
  exact persistBatch_meets hevent ⟨rfl, rfl, rfl, rfl⟩

theorem Registered.step {call : Call} (h : Registered sm) (hs : Sound sm) (ht : Timely sm call)
    (hstep : machine.step sm call = .ok sm') : Registered sm' ∧ sm.KeepsEvents sm' := by
  have hvalid : TimestampRange.valid call.timestamp := ht
  cases call with
  | createAccounts events timestamp =>
    obtain ⟨r, hcall, he⟩ := bind_eq_ok.mp hstep
    cases he
    obtain ⟨ht, hts, hps, he⟩ := createAccounts_events.post hcall
    exact ⟨h.congr ht hts hps he, .of_eq he⟩
  | createTransfers events timestamp =>
    obtain ⟨⟨results, sm'⟩, hcall, he⟩ := bind_eq_ok.mp hstep
    cases he
    refine hs.persisted (I := fun sm' => Registered sm' ∧ sm.KeepsEvents sm') hvalid.2 hcall
      (fun _ _ _ _ => ⟨h.congr rfl rfl rfl rfl, .of_eq rfl⟩) fun sm₁ event result index _ hp hi => ?_
    have hevents := (@persistTransferEvent_events sm₁ False timestamp events.length index event
      result False.elim).mono (fun _ h => h) fun _ _ => trivial
    exact ((hi.1.persist hp).and hevents).weaken
      fun _ ⟨hr, _, _, _, he⟩ _ => ⟨hr, hi.2.trans he.keeps⟩
  | expirePendingTransfers timestamp =>
    refine Meets.post (E := fun _ => True) (Q := fun sm' => Registered sm' ∧ sm.KeepsEvents sm')
      ?_ hstep
    show Meets (fun _ => True) _ (sm.expirePendingTransfers timestamp)
    unfold expirePendingTransfers
    simp only [Meets.bind_eq, partial_assert]
    intro _ _
    refine expiring_meets.weaken fun due hdue => ?_
    refine ((h.expireAll hs fun x hx => hdue x (List.mem_filter.mp hx).1).and
      expireAll_keepsEvents).weaken fun sm₁ ⟨h₁, hkeeps⟩ => ?_
    have hevents : Meets (fun _ => True) (fun sm' => sm'.accountEvents = sm₁.accountEvents)
        sm₁.updatePulseNextTimestamp :=
      (@updatePulseNextTimestamp_events sm₁ Fault.Apart _).mono (fun _ h => h) fun _ _ => trivial
    refine (updatePulseNextTimestamp_meets.and hevents).weaken fun sm₂ ⟨⟨hl, _⟩, he⟩ => ?_
    exact ⟨h₁.congr (by rw [hl]) (by rw [hl]) (by rw [hl]) he, hkeeps.trans (.of_eq he)⟩

-- No two account events are recorded under the same timestamp, and none is lost: what has been
-- recorded stays, and each transfer and each expiry has its event.
theorem event_timestamps_unique (h : machine.Reachable Unrepeated sm) :
    (∀ call, Unrepeated sm call → (∀ fault, machine.step sm call = .error fault →
      fault ≠ .panic .general "each account event has a unique timestamp") ∧
      ∀ sm', machine.step sm call = .ok sm' → sm.KeepsEvents sm') ∧
    (∀ id t, sm.transfers.lookup id = some t →
      ∃ event, sm.accountEvents.lookup t.timestamp = some event ∧
        event.transferPendingStatus ≠ .expired) ∧
    ∀ t row, sm.transfersPending.lookup t = some row → row.status = .expired →
      ∃ id p at' event, sm.transfers.lookup id = some p ∧ p.timestamp = t ∧
        sm.accountEvents.lookup at' = some event ∧ event.transferPendingStatus = .expired ∧
        event.transferPendingId = p.id := by
  have ⟨hs, hr⟩ : Sound sm ∧ Registered sm := by
    refine h.invariant (p := fun sm => Sound sm ∧ Registered sm) (fun sm hi => ?_)
      fun sm call sm' ⟨hs, hr⟩ hg hstep => ⟨hs.step hg.1 hstep, (hr.step hs hg.1 hstep).1⟩
    have hi : sm = default := hi
    subst hi
    exact ⟨sound_default, nofun, nofun, nofun, nofun⟩
  exact ⟨fun call hg => ⟨fun fault hf => (step_apart hs hr hg).fault hf,
    fun sm' hstep => (hr.step hs hg.1 hstep).2⟩, hr.recorded, hr.expired⟩

-- The state machine together with the timestamp of the last op.
def advancing : Machine (StateMachine × Nat) Call Fault where
  init s := s = (default, 0)
  step s call := return (← machine.step s.1 call, call.timestamp)

-- The timestamps of the ops advance.
def Advances (s : StateMachine × Nat) (call : Call) : Prop :=
  Timely s.1 call ∧ s.2 < call.timestamp

end StateMachine

namespace StateMachine.Runs

open Accounting.Runs

attribute [local instance] identityHasher

instance {events : List Transfer} {timestamp t : Nat} : Decidable (Assigns events timestamp t) := by
  unfold Assigns
  infer_instance

instance {sm : StateMachine} {call : Call} : Decidable (Unrepeated sm call) :=
  match call with
  | .createAccounts _ _ => inferInstanceAs (Decidable (_ ∧ True))
  | .createTransfers events timestamp =>
    decidable_of_iff (Timely sm (.createTransfers events timestamp) ∧
      ∀ x ∈ sm.accountEvents.entries, x.2.transferPendingStatus = .expired →
        ¬Assigns events timestamp x.1)
      (and_congr_right fun _ =>
        ⟨fun h t event hl => h ⟨t, event⟩ (AList.mem_lookup_iff.mp hl),
          fun h x hx => h x.1 x.2 (AList.mem_lookup_iff.mpr hx)⟩)
  | .expirePendingTransfers _ => inferInstanceAs (Decidable (_ ∧ ∀ index < _, _ = none))

instance {s : StateMachine × Nat} {call : Call} : Decidable (Advances s call) :=
  inferInstanceAs (Decidable (_ ∧ _ < _))

-- A transfer that is pending for a second, and the pump by which it expires.
def expires : List Call := [
  accounts,
  .createTransfers [{ transfer 1 1 2 2 with timeout := 1 }] 200,
  .expirePendingTransfers 2000000000]

-- An imported transfer.
def imports (timestamp : Nat) : Call :=
  .createTransfers [{ transfer 2 1 2 256 with timestamp := timestamp }] 3000000000

theorem event_timestamps_unique_of_imports : ∃ sm, machine.Reachable Unrepeated sm ∧
    (∃ event, sm.accountEvents.lookup 2000000000 = some event ∧
      event.transferPendingStatus = .expired) ∧
    ∀ fault, machine.step sm (imports 2000000001) = .error fault →
      fault ≠ .panic .general "each account event has a unique timestamp" := by
  have ⟨sm, hr, ⟨event, he, hstatus⟩, hg⟩ := (Machine.Reachable.init rfl).leads (show
    machine.Leads Unrepeated (fun sm => (∃ event ∈ sm.accountEvents.lookup 2000000000,
      event.transferPendingStatus = .expired) ∧ Unrepeated sm (imports 2000000001)) expires default
    by decide +kernel)
  exact ⟨sm, hr, ⟨event, he, hstatus⟩, ((event_timestamps_unique hr).1 _ hg).1⟩

-- The imported transfer comes with the timestamp of the expiry.
theorem not_event_timestamps_unique : ¬∀ (_ : Hasher) (s : StateMachine × Nat) (call : Call),
    advancing.Reachable Advances s → Advances s call →
    Meets Fault.Apart (fun _ => True) (machine.step s.1 call) := by
  intro h
  have ⟨s, hr, hg, hfails⟩ := (Machine.Reachable.init rfl).leads (show advancing.Leads Advances
    (fun s => Advances s (imports 2000000000) ∧
      Meets (fun fault => fault = .panic .general "each account event has a unique timestamp")
        (fun _ => False) (machine.step s.1 (imports 2000000000))) expires (default, 0)
    by decide +kernel)
  have hapart := h identityHasher s _ hr hg
  cases hstep : machine.step s.1 (imports 2000000000) with
  | ok _        => exact hfails.post hstep
  | error fault => exact hapart.fault hstep (hfails.fault hstep)

end StateMachine.Runs

end TigerBeetle.Accounting
