import TigerBeetle.Theorems.Closers

namespace TigerBeetle.Accounting

open Fallible HashMap Orchestrator Fault

-- The closed accounts are those that have been so from the start, and those that a pending transfer
-- closes. No transfer that closes an account has been posted.
structure Ledger.Shut (ledger : Ledger) (original : U128 → Prop) : Prop where
  exclusive : Exclusive ledger.Closed ledger.Closer original
  posts : ∀ id t, ledger.transfers.lookup id = some t → t.flags.postPendingTransfer = true →
    ∃ p, ledger.transfers.lookup t.pendingId = some p ∧ p.flags.closingDebit = false ∧
      p.flags.closingCredit = false

variable {result : CreateTransferResult} {count index : Nat}

section Step

variable {prefetch : TransferPrefetchKeys} {resolves : U128 → Prop} {view after : TransfersView}
    {ledger : Ledger} {event p : Transfer} {timestamp : Nat} {amount : U128} {dr cr dr' cr' : Account}
    {row : TransferPending} {original : U128 → Prop}

section

variable (h : ledger.Shut original)

include h

theorem Ledger.Shut.posts_insert {record : Transfer}
    (hn : ledger.transfers.lookup record.id = none)
    (hr : record.flags.postPendingTransfer = true →
      ∃ p, ledger.transfers.lookup record.pendingId = some p ∧ p.flags.closingDebit = false ∧
        p.flags.closingCredit = false) :
    ∀ id t, (ledger.transfers.insert record.id record).lookup id = some t →
      t.flags.postPendingTransfer = true →
        ∃ p, (ledger.transfers.insert record.id record).lookup t.pendingId = some p ∧
          p.flags.closingDebit = false ∧ p.flags.closingCredit = false := by
  intro id t ht hp
  have ⟨p, hl, hc⟩ : ∃ p, ledger.transfers.lookup t.pendingId = some p ∧
      p.flags.closingDebit = false ∧ p.flags.closingCredit = false := by
    rw [lookup_insert_eq] at ht
    split at ht
    · cases ht
      exact hr hp
    · exact h.posts id t ht hp
  refine ⟨p, ?_, hc⟩
  rw [lookup_insert_eq, if_neg ?_]
  · exact hl
  · rintro heq
    rw [heq, hn] at hl
    cases hl

theorem Ledger.Shut.create (hb : ledger.Balanced)
    (hc : TransfersBatch.Creates view event timestamp amount dr cr after)
    (hn : ledger.transfers.lookup event.id = none)
    (hfresh : (ledger.timestamps.lookup timestamp).all (· = event.id) = true)
    (hd : ledger.accounts.lookup event.debitAccountId = some dr)
    (hcr : ledger.accounts.lookup event.creditAccountId = some cr) :
    (ledger.create { event with amount, timestamp } (commitTransferAccounts event amount dr cr).1
      (commitTransferAccounts event amount dr cr).2).Shut original where
  exclusive :=
    have hids := @commitTransferAccounts_id dr cr amount event
    have hclosed := @commitTransferAccounts_closed dr cr event amount
    Ledger.exclusive_create hb h.exclusive hn hfresh
      hc.creatable.distinct hd hcr hc.creatable.opened hc.creatable.closing hids.1 hids.2 hclosed.1
      hclosed.2
  posts := by
    refine @posts_insert _ _ h { event with amount, timestamp } hn fun hp => ?_
    have hplain := hc.creatable.plain
    unfold TransferFlags.postOrVoid at hplain
    simp [show event.flags.postPendingTransfer = true from hp] at hplain

theorem Ledger.Shut.resolve (hb : ledger.Balanced)
    (hr : TransfersBatch.Resolves view event timestamp amount p row dr cr dr' cr' after)
    (hrel : ledger.Releases event p dr cr) (hn : ledger.transfers.lookup event.id = none)
    (hfresh : (ledger.timestamps.lookup timestamp).all (· = event.id) = true) :
    (ledger.resolve (foldPostVoidTransfer event p amount timestamp) p
      (StateMachine.resolvedStatus event) dr' cr').Shut original where
  exclusive := by
    have ⟨hdid, _, hcid, _⟩ := commitPostVoidAccounts_meets.post hr.commit
    have ⟨hdr, hcr⟩ := (commitPostVoidAccounts_closed hr.opened).post hr.commit
    have hn' : ledger.transfers.lookup (foldPostVoidTransfer event p amount timestamp).id = none :=
      hn
    have hfresh' : (ledger.timestamps.lookup
        (foldPostVoidTransfer event p amount timestamp).timestamp).all
          (· = (foldPostVoidTransfer event p amount timestamp).id) = true := hfresh
    refine Ledger.exclusive_resolve hb h.exclusive hrel.pending hrel.status hrel.debit hrel.credit
      hdid hcid hdr hcr hn' hfresh' ?_
    unfold StateMachine.resolvedStatus
    split <;> nofun
  posts := by
    refine @posts_insert _ _ h (foldPostVoidTransfer event p amount timestamp) hn
      fun hp => ⟨p, hrel.pending, ?_⟩
    have hp : event.flags.postPendingTransfer = true := hp
    have hcommit := hr.commit
    unfold commitPostVoidAccounts at hcommit
    rw [if_pos hp] at hcommit
    obtain ⟨_, hd, hcommit⟩ := bind_eq_ok.mp hcommit
    obtain ⟨_, hc, _⟩ := bind_eq_ok.mp hcommit
    unfold assert assertOn at hd hc
    constructor
    · by_contra hne
      simp [hne] at hd
    · by_contra hne
      simp [hne] at hc

theorem Ledger.Shut.closed {key : U128}
    (hp : ledger.transfers.lookup key = some p)
    (hrow : (ledger.pendings.lookup p.timestamp).map TransferPending.status = some .pending)
    (hd : ledger.accounts.lookup p.debitAccountId = some dr)
    (hc : ledger.accounts.lookup p.creditAccountId = some cr) :
    (p.flags.closingDebit = true → dr.flags.closed = true) ∧
      (p.flags.closingCredit = true → cr.flags.closed = true) := by
  constructor
  · intro hclosing
    obtain ⟨⟨account, hl, hclosed⟩, _⟩ := h.exclusive.closes p.debitAccountId key
      ⟨p, hp, hrow, .inl ⟨hclosing, rfl⟩⟩
    rw [hd] at hl
    cases hl
    exact hclosed
  · intro hclosing
    obtain ⟨⟨account, hl, hclosed⟩, _⟩ := h.exclusive.closes p.creditAccountId key
      ⟨p, hp, hrow, .inr ⟨hclosing, rfl⟩⟩
    rw [hc] at hl
    cases hl
    exact hclosed

end

variable {events : List Transfer} {batch : TransfersBatch}

-- A ledger that a view could have gives way to one that the next view could have.
theorem Ledger.Shut.follows (h : ledger.Shut original) (hf : Follows prefetch resolves view ledger)
    (hp : Prefetches prefetch resolves events) (hm : event ∈ events)
    (hs : batch.Step view event timestamp result after) (hc : result.status = .created)
    (hfresh : (ledger.timestamps.lookup result.timestamp).all (· = event.id) = true) :
    ∃ ledger' : Ledger, Follows prefetch resolves after ledger' ∧ ledger'.Shut original ∧
      ledger'.timestamps = ledger.timestamps.insert result.timestamp event.id := by
  have ⟨_, _, hn, _, hvalid, hstep⟩ := hs.created hc
  have hn' : ledger.transfers.lookup event.id = none :=
    (hf.transfers _ (hp.id event hm)).symm.trans hn
  obtain ⟨dr, cr, hcreates⟩ | ⟨p, row, dr, cr, dr', cr', hresolves⟩ := hstep
  · have ⟨hd, hcr, hf'⟩ := hf.creates hp hm hcreates hn hvalid hfresh
    exact ⟨_, hf', h.create hf.balanced hcreates hn' hfresh hd hcr, rfl⟩
  · have ⟨hrel, hf'⟩ := hf.releases hp hm hresolves hn hvalid hfresh
    exact ⟨_, hf', h.resolve hf.balanced hresolves hrel hn' hfresh, rfl⟩

-- A view that a ledger could have, in which the next events may be created.
def Shutting (prefetch : TransferPrefetchKeys) (resolves : U128 → Prop) (imported : Bool)
    (timestamp count : Nat) (original : U128 → Prop) (index : Nat) (view : TransfersView) : Prop :=
  index ≤ count → ∃ ledger : Ledger, Follows prefetch resolves view ledger ∧
    (imported = false → Checked.Unused ledger timestamp count index) ∧ ledger.Shut original

theorem shutting_step (hp : Prefetches prefetch resolves events) (hm : event ∈ events)
    (hs : batch.Step view event (stamp batch.timestamp count index) result after)
    (h : Shutting prefetch resolves batch.imported batch.timestamp count original index view) :
    Shutting prefetch resolves batch.imported batch.timestamp count original (index + 1) after := by
  intro hlt
  have ⟨ledger, hf, hu, hshut⟩ := h (by omega)
  by_cases hc : result.status = .created
  case neg =>
    rw [hs.failed hc]
    exact ⟨ledger, hf, fun hi i hle hlt => hu hi i (by omega) hlt, hshut⟩
  have ⟨hfresh, hunused⟩ := Checked.unused_of_created hf hs hc (by omega) hu
  have ⟨ledger', hf', hshut', hts⟩ := hshut.follows hf hp hm hs hc hfresh
  refine ⟨ledger', hf', fun hi i hle hlt => ?_, hshut'⟩
  rw [hts]
  exact hunused hi i hle hlt

theorem shutting_maintains [Hasher] (hb : batch.timestamp ≤ TimestampRange.timestampMax)
    (hp : Prefetches prefetch resolves events) :
    (batch.law hb).Maintains batch.timestamp events.length events
      (Shutting prefetch resolves batch.imported batch.timestamp events.length original) where
  step _ _ _ _ _ hm hs h := shutting_step hp hm hs h
  orphaned index event result a h hle := by
    obtain ⟨ledger, hf, hu⟩ := h hle
    refine ⟨ledger, ?_, hu⟩
    simp only [TransfersBatch.law]
    split
    · exact ⟨hf.balanced, hf.valid, hf.accountsWithin, hf.transfersWithin, hf.pendingsWithin,
        hf.accounts, hf.transfers, hf.pendings, hf.rows, hf.keyMax⟩
    · exact hf
  rewind index index' a b hle h _ hle' := by
    obtain ⟨ledger, hf, hu, hshut⟩ := h (by omega)
    refine ⟨ledger, ?_, fun hi i hl hlt => hu hi i (by omega) hlt, hshut⟩
    exact ⟨hf.balanced, hf.valid, hf.accountsWithin, hf.transfersWithin, hf.pendingsWithin,
      hf.accounts, hf.transfers, hf.pendings, hf.rows, hf.keyMax⟩
  mono index index' a hle h hle' := by
    obtain ⟨ledger, hf, hu, hshut⟩ := h (by omega)
    exact ⟨ledger, hf, fun hi i hl hlt => hu hi i (by omega) hlt, hshut⟩

theorem shuts_of_follows (h : ledger.Shut original) (hf : Follows prefetch resolves view ledger)
    (hp : Prefetches prefetch resolves events) (hm : event ∈ events) : Shuts view event := by
  intro hres p hpend hpending hrow dr cr hd hc
  have ⟨hid, hr⟩ := hp.pending event hm hres
  have hl : ledger.transfers.lookup event.pendingId = some p :=
    (hf.transfers _ hid).symm.trans hpend
  have ⟨hda, hca, hrows⟩ := hf.pendings _ hr p hl hpending
  exact h.closed hl ((congrArg (Option.map TransferPending.status) hrows).symm.trans hrow)
    ((hf.accounts _ hda).symm.trans hd) ((hf.accounts _ hca).symm.trans hc)

theorem orchestrate_unclosed [Hasher] {state : TransfersState}
    (hb : batch.timestamp ≤ TimestampRange.timestampMax)
    (hp : Prefetches prefetch resolves events) (hs : (batch.law hb).Idle state)
    (hi : Shutting prefetch resolves batch.imported batch.timestamp events.length original 0
      state.view) :
    Meets Unclosed (fun _ => True)
      (batch.orchestrator.orchestrate batch.timestamp events state) := by
  let execute (event : Transfer) (t : Nat) (state : TransfersState) :
      Result (CreateTransferResult × TransfersState) :=
    replaced Unclosed (batch.execute event t state)
  have hexecute : ∀ event ∈ events, ∀ index < events.length, ∀ t state,
      Shutting prefetch resolves batch.imported batch.timestamp events.length original index
        ((batch.law hb).view state) →
      ((batch.law hb).Idle state ∨ ∃ opened, (batch.law hb).Scoped opened state) →
        execute event t state = batch.orchestrator.execute event t state := by
    intro event hm index hlt t state h hu
    have ⟨ledger, hf, _, hshut⟩ := h hlt.le
    have hshuts := shuts_of_follows hshut hf hp hm
    cases hu with
    | inl hidle =>
      exact replaced_eq (execute_unclosed CacheMap.usable_idle CacheMap.usable_idle
        CacheMap.usable_idle hidle hshuts)
    | inr hscoped =>
      have ⟨_, hscoped, _⟩ := hscoped
      exact replaced_eq (execute_unclosed CacheMap.usable_scoped CacheMap.usable_scoped
        CacheMap.usable_scoped hscoped hshuts)
  rw [← (shutting_maintains hb hp).orchestrate_congr hexecute hs (fun _ h => h) hi]
  exact (TransfersBatch.orchestrator_fails fun _ _ _ => meets_replaced).orchestrate

end Step

namespace StateMachine

variable {sm sm' : StateMachine} {timestamp : Nat} {original : U128 → Prop}

theorem accountEvent_unclosed {dr cr : Account} {flags : TransferFlags}
    {status : TransferPendingStatus} {pending : Option Transfer} {requested amount : U128} :
    Meets Unclosed (fun _ => True)
      (sm.accountEvent timestamp dr cr flags status pending requested amount) := by
  unfold accountEvent
  cases status <;> simp [closing]

variable {event : Transfer}

theorem commitTransfer_unclosed {amount requested : U128} :
    Meets Unclosed (fun _ => True) (sm.commitTransfer event amount requested) := by
  unfold commitTransfer
  simp only [Meets.bind_eq]
  refine (expect_apart (by simp [watched])).weaken fun dr _ => ?_
  refine (expect_apart (by simp [watched])).weaken fun cr _ => ?_
  refine updateAccount_events.weaken fun _ _ => updateAccount_events.weaken fun _ _ => ?_
  refine accountEvent_unclosed.weaken fun _ _ => ?_
  simp [Meets.ite_iff, closing]

-- A transfer that posts or voids another one fails about closed accounts only if its commit does.
theorem persistTransfer_unclosed {amount : U128}
    (h : event.flags.postOrVoid = true → ∀ p dr cr,
      sm.transfers.lookup event.pendingId = some p →
        sm.accounts.lookup p.debitAccountId = some dr →
          sm.accounts.lookup p.creditAccountId = some cr →
            Meets Unclosed (fun _ => True)
              (commitPostVoidAccounts (foldPostVoidTransfer event p amount event.timestamp) p amount
                dr cr)) :
    Meets Unclosed (fun _ => True) (sm.persistTransfer event amount) := by
  unfold persistTransfer
  simp only [Meets.ite_iff, Meets.bind_eq]
  refine ⟨fun _ => ?_, fun _ => ⟨fun hp => ?_, fun _ => ?_⟩⟩
  · refine insertTransfer_events.weaken fun _ _ => insertTransferPending_events.weaken fun _ _ => ?_
    exact commitTransfer_unclosed
  · unfold persistPostVoid
    simp only [Meets.bind_eq]
    refine ((expect_apart (by simp [watched])).and_post expect_meets).weaken fun p ⟨_, hpl⟩ => ?_
    refine (insertTransfer_events.and_post insertTransfer_meets).weaken
      fun sm₁ ⟨_, _, h₁, _⟩ => ?_
    refine (updateTransferPendingStatus_events.and_post updateTransferPendingStatus_meets).weaken
      fun sm₂ ⟨_, _, h₂, _⟩ => ?_
    have haccounts : sm₂.accounts = sm.accounts := by
      have h₁ := congrArg Ledger.accounts h₁
      have h₂ := congrArg Ledger.accounts h₂
      exact h₂.trans h₁
    refine ((expect_apart (by simp [watched])).and_post expect_meets).weaken fun dr ⟨_, hd⟩ => ?_
    refine ((expect_apart (by simp [watched])).and_post expect_meets).weaken fun cr ⟨_, hc⟩ => ?_
    rw [haccounts] at hd hc
    refine (h hp p dr cr hpl hd hc).weaken fun _ _ => ?_
    refine updateAccount_events.weaken fun _ _ => updateAccount_events.weaken fun _ _ => ?_
    refine accountEvent_unclosed.weaken fun _ _ => ?_
    exact updatePulseNextTimestamp_events.weaken fun _ _ => trivial
  · exact insertTransfer_events.weaken fun _ _ => commitTransfer_unclosed

theorem persistTransferEvent_unclosed (h : Meets Unclosed (fun _ => True)
      (sm.persistTransfer { event with timestamp := result.timestamp } result.amountActual)) :
    Meets Unclosed (fun _ => True)
      (persistTransferEvent timestamp count index event result sm) := by
  unfold persistTransferEvent
  simp only [Meets.ite_iff, Meets.bind_eq, Meets.pure_eq, meets_assert_eq]
  refine ⟨fun _ => ⟨fun ht => ?_, by simp [closing]⟩, fun _ => timestampEvent_apart.weaken fun t _ =>
    ⟨fun ht => ?_, by simp [closing]⟩⟩
  · rw [← ht] at h
    exact h
  · rw [← ht] at h
    exact h

theorem persist_shut {batch : TransfersBatch} {prefetch : TransferPrefetchKeys}
    {resolves : U128 → Prop} {view after : TransfersView} {events : List Transfer} {t : Nat}
    (h : sm.ledger.Shut original) (hm : event ∈ events) (hp : Prefetches prefetch resolves events)
    (hf : Follows prefetch resolves view sm.ledger) (hs : batch.Step view event t result after)
    (hc : result.status = .created) :
    Meets Unclosed (fun sm' => sm'.ledger.Shut original)
      (persistTransferEvent timestamp count index event result sm) := by
  have ⟨_, _, hn, _, hvalid, hstep⟩ := hs.created hc
  have hn' : sm.ledger.transfers.lookup event.id = none :=
    (hf.transfers _ (hp.id event hm)).symm.trans hn
  obtain ⟨dr, cr, hcreates⟩ | ⟨p, row, dr, cr, dr', cr', hresolves⟩ := hstep
  · have hplain : ({ event with timestamp := result.timestamp } : Transfer).flags.postOrVoid =
        false := hcreates.creatable.plain
    have hfaults := @persistTransferEvent_unclosed result count index sm timestamp event
      (persistTransfer_unclosed fun hp => by
        rw [hplain] at hp
        cases hp)
    refine Meets.weaken (fun _ h => h.2) (hfaults.and_post (persistTransferEvent_meets ?_))
    refine (persistTransfer_of_plain hplain).weaken
      fun sm' ⟨dr₂, cr₂, dr', cr', hdl, hcl, hcommit, _, hfresh, hledger, _⟩ => ?_
    have ⟨hd, hcr, _⟩ := hf.creates hp hm hcreates hn hvalid hfresh
    obtain rfl : dr = dr₂ := Option.some.inj (hd.symm.trans hdl)
    obtain rfl : cr = cr₂ := Option.some.inj (hcr.symm.trans hcl)
    have hcommit : (dr', cr') = commitTransferAccounts event result.amountActual dr cr := hcommit
    have hshut := h.create hf.balanced hcreates hn' hfresh hd hcr
    rw [← hcommit] at hshut
    rw [hledger]
    exact hshut
  · have hres := hresolves.resolvable
    have ⟨hpid, hr⟩ := hp.pending event hm hres.resolves
    have hpl : sm.ledger.transfers.lookup event.pendingId = some p :=
      (hf.transfers _ hpid).symm.trans hresolves.pending
    have ⟨hda, hca, hrows⟩ := hf.pendings _ hr p hpl hres.pending
    have hd : sm.ledger.accounts.lookup p.debitAccountId = some dr :=
      (hf.accounts _ hda).symm.trans hresolves.debit
    have hcr : sm.ledger.accounts.lookup p.creditAccountId = some cr :=
      (hf.accounts _ hca).symm.trans hresolves.credit
    have hrow : (sm.ledger.pendings.lookup p.timestamp).map TransferPending.status =
        some .pending := by
      have hrow : sm.ledger.pendings.lookup p.timestamp = some row :=
        hrows.symm.trans hresolves.status
      rw [hrow, Option.map_some, hres.status]
    have hfaults := @persistTransferEvent_unclosed result count index sm timestamp event
      (persistTransfer_unclosed fun _ p₂ dr₂ cr₂ hpl₂ hd₂ hcr₂ => by
        obtain rfl : p = p₂ := Option.some.inj (hpl.symm.trans hpl₂)
        obtain rfl : dr = dr₂ := Option.some.inj (hd.symm.trans hd₂)
        obtain rfl : cr = cr₂ := Option.some.inj (hcr.symm.trans hcr₂)
        have ⟨hdc, hcc⟩ := h.closed hpl hrow hd hcr
        exact commitPostVoidAccounts_unclosed hdc hcc hresolves.opened)
    refine Meets.weaken (fun _ h => h.2) (hfaults.and_post (persistTransferEvent_meets ?_))
    · rw [persistTransfer_resolving hres.plain hres.resolves]
      refine persistPostVoid_meets.weaken fun sm' ⟨p₂, dr₂, cr₂, dr₃, cr₃, hpl₂, _, hdl, hcl,
        hcommit, _, hfresh, hledger, _⟩ => ?_
      have ⟨hrel, _⟩ := hf.releases hp hm hresolves hn hvalid hfresh
      obtain rfl : p = p₂ := Option.some.inj (hpl.symm.trans hpl₂)
      obtain rfl : dr = dr₂ := Option.some.inj (hd.symm.trans hdl)
      obtain rfl : cr = cr₂ := Option.some.inj (hcr.symm.trans hcl)
      have hcommit : commitPostVoidAccounts event p result.amountActual dr cr = .ok (dr₃, cr₃) :=
        hcommit
      obtain ⟨rfl, rfl⟩ : dr' = dr₃ ∧ cr' = cr₃ := by
        simpa using hresolves.commit.symm.trans hcommit
      have hshut := h.resolve hf.balanced hresolves hrel hn' hfresh
      rw [hledger]
      exact hshut

-- A pending transfer that is due.
def Due (sm : StateMachine) (x : Nat × Nat × U128) : Prop :=
  ∃ p, sm.ledger.transfers.lookup x.2.2 = some p ∧ p.flags.pending = true ∧ p.timestamp = x.2.1 ∧
    (sm.ledger.pendings.lookup p.timestamp).map TransferPending.status = some .pending

-- What is related pairwise stays so in what a computation for each element returns.
theorem mapM_pairwise {ε α β : Type} {E : ε → Prop} {R : α → β → Prop} {T : α → α → Prop}
    {S : β → β → Prop} {f : α → Except ε β} {xs : List α} (h : ∀ x ∈ xs, Meets E (R x) (f x))
    (hT : xs.Pairwise T) (hS : ∀ x y a b, T x y → R x a → R y b → S a b) :
    Meets E (fun ys => ys.Pairwise S) (xs.mapM f) := by
  induction xs with
  | nil => exact .nil
  | cons x xs ih =>
    obtain ⟨hx, hT⟩ := List.pairwise_cons.mp hT
    have htail := fun x hx => h x (List.mem_cons_of_mem _ hx)
    simp only [List.mapM_cons, Meets.bind_eq, Meets.pure_eq]
    refine (h x (List.mem_cons_self ..)).weaken fun y hy => ?_
    refine ((ih htail hT).and (mapM_related htail)).weaken fun ys ⟨hys, hrel, _⟩ => ?_
    refine List.pairwise_cons.mpr ⟨fun b hb => ?_, hys⟩
    obtain ⟨x', hx', hr⟩ := hrel b hb
    exact hS x x' y b (hx x' hx') hy hr

theorem expiring_due {message : String} (hb : sm.ledger.Balanced) :
    Meets (fun _ => True)
      (fun due => (∀ x ∈ due, sm.Due x) ∧ due.Pairwise fun x y => x.2.1 ≠ y.2.1)
      (sm.expiring message) := by
  have hlisted := sm.entries_listed message
  have hkey : ∀ {entry row}, sm.Listed entry row → ∀ a ∈ row, a.2.1 = entry.1 := by
    intro entry row hl a ha
    unfold Listed at hl
    split at hl
    · subst hl
      cases ha
    · obtain ⟨id, p, _, _, rfl⟩ := hl
      split at ha
      · cases ha
      · cases ha
        rfl
  have hkeys : sm.transfersPending.entries.Pairwise fun x y => x.1 ≠ y.1 :=
    sm.transfersPending.nodupKeys.pairwise_ne
  have hpairwise := mapM_pairwise hlisted hkeys (S := fun x y => ∀ a ∈ x, ∀ b ∈ y, a.2.1 ≠ b.2.1)
    fun x y row row' hne hr hr' a ha b hb => by
      rw [hkey hr a ha, hkey hr' b hb]
      exact hne
  unfold expiring
  simp only [Meets.bind_eq, Meets.pure_eq]
  refine ((mapM_related hlisted).and hpairwise).weaken fun rows ⟨⟨hrows, _⟩, hdistinct⟩ => ?_
  refine ⟨fun x hx => ?_, ?_⟩
  · rw [List.mem_mergeSort] at hx
    obtain ⟨_, hm, rfl⟩ := List.mem_filterMap.mp hx
    obtain ⟨⟨timestamp, row⟩, he, hl⟩ := hrows _ hm
    have hrow : sm.transfersPending.lookup timestamp = some row := AList.mem_lookup_iff.mpr he
    unfold Listed at hl
    split at hl
    · cases hl
    · next hs =>
      obtain ⟨id, p, hid, hp, hx⟩ := hl
      split at hx
      · cases hx
      · cases hx
        obtain ⟨key, t, ht, hpending, hts⟩ := hb.rows timestamp row hrow
        have hkey := hb.timestamp key t ht
        rw [hts] at hkey
        obtain rfl : key = id := Option.some.inj (hkey.symm.trans hid)
        obtain rfl : t = p := Option.some.inj (Eq.trans (Eq.symm ht) hp)
        refine ⟨t, ht, hpending, hts, ?_⟩
        rw [hts]
        show (sm.transfersPending.lookup timestamp).map _ = _
        rw [hrow, Option.map_some, not_not.mp hs]
  · refine ((List.mergeSort_perm _ _).pairwise_iff fun h => h.symm).mpr ?_
    exact List.Pairwise.filterMap id (fun a a' h b hb b' hb' => h b hb b' hb') hdistinct

theorem expire_shut {x : Nat × Nat × U128} (h : sm.ledger.Shut original) (hb : sm.ledger.Balanced)
    (hx : sm.Due x) :
    Meets Unclosed (fun sm' => sm'.ledger.Shut original ∧
        sm'.ledger.transfers = sm.ledger.transfers ∧
        ∃ row, sm'.ledger.pendings = sm.ledger.pendings.insert x.2.1 row)
      (sm.expire timestamp x.2.2) := by
  obtain ⟨p, hp, hpending, hts, hrow⟩ := hx
  have hfaults : Meets Unclosed (fun _ => True) (sm.expire timestamp x.2.2) := by
    unfold expire
    simp only [Meets.bind_eq, meets_assert_eq]
    refine ⟨fun _ => ((expect_apart (by simp [watched])).and_post expect_meets).weaken
      fun p₂ ⟨_, hp₂⟩ => ?_, by simp [closing]⟩
    have hp₂ : sm.ledger.transfers.lookup x.2.2 = some p₂ := hp₂
    obtain rfl : p = p₂ := Option.some.inj (hp.symm.trans hp₂)
    refine ⟨fun _ => ((expect_apart (by simp [watched])).and_post expect_meets).weaken
      fun dr ⟨_, hd⟩ => ?_, by simp [closing]⟩
    refine ((expect_apart (by simp [watched])).and_post expect_meets).weaken fun cr ⟨_, hc⟩ => ?_
    have hd : sm.ledger.accounts.lookup p.debitAccountId = some dr := hd
    have hc : sm.ledger.accounts.lookup p.creditAccountId = some cr := hc
    have ⟨hdc, hcc⟩ := h.closed hp hrow hd hc
    refine ⟨fun _ => ⟨fun _ => ⟨fun _ => ⟨fun _ => ?_, fun hn => absurd hcc hn⟩,
      fun hn => absurd hdc hn⟩, by simp [closing]⟩, by simp [closing]⟩
    refine updateAccountIf_events.weaken fun _ _ => updateAccountIf_events.weaken fun _ _ => ?_
    exact updateTransferPendingStatus_events.weaken fun _ _ => accountEvent_unclosed
  refine (hfaults.and_post (expire_meets hb fun p₂ hp₂ => ?_)).weaken
    fun sm' ⟨_, _, _, p₂, accounts, hp₂, hrow₂, _, hl, dr, cr, hd, hc, hput⟩ => ?_
  · obtain rfl : p = p₂ := Option.some.inj (Eq.trans (Eq.symm hp) hp₂)
    exact hpending
  · obtain rfl : p = p₂ := Option.some.inj (Eq.trans (Eq.symm hp) hp₂)
    have hdid : (expireDebit p dr).id = dr.id := rfl
    have hcid : (expireCredit p cr).id = cr.id := rfl
    rw [hl]
    refine ⟨⟨Ledger.exclusive_expire hb h.exclusive hp hrow hd hc hdid hcid expireDebit_closed
      expireCredit_closed hput, h.posts⟩, rfl, ⟨p.timestamp, .expired⟩, ?_⟩
    rw [← hts]
    rfl

theorem expireAll_shut [Hasher] {due : List (Nat × Nat × U128)}
    (h : sm.ledger.Shut original) (hs : Sound sm) (hdue : ∀ x ∈ due, sm.Due x)
    (hdistinct : due.Pairwise fun x y => x.2.1 ≠ y.2.1) :
    Meets Unclosed (fun sm' => sm'.ledger.Shut original)
      (expireAll timestamp count index due sm) := by
  induction due generalizing index sm with
  | nil => exact h
  | cons x due ih =>
    obtain ⟨hne, hdistinct⟩ := List.pairwise_cons.mp hdistinct
    have hx := hdue x (List.mem_cons_self ..)
    have hpending : ∀ p, sm.ledger.transfer x.2.2 = some p → p.flags.pending = true := by
      intro p hp
      obtain ⟨p₂, hp₂, hpending, _⟩ := hx
      obtain rfl : p = p₂ := Option.some.inj (Eq.trans (Eq.symm hp) hp₂)
      exact hpending
    simp only [StateMachine.expireAll, Meets.bind_eq]
    refine timestampEvent_apart.weaken fun t _ => ?_
    refine ((expire_shut h hs.balanced hx).and_post (hs.expire hpending)).weaken
      fun sm₁ hsm₁ => ?_
    obtain ⟨⟨h₁, ht, row, hr⟩, hs₁, _⟩ := hsm₁
    refine ih h₁ hs₁ (fun y hy => ?_) hdistinct
    obtain ⟨p, hp, hpending, hts, hrow⟩ := hdue y (List.mem_cons_of_mem _ hy)
    refine ⟨p, by rw [ht]; exact hp, hpending, hts, ?_⟩
    rw [hr, lookup_insert_eq, if_neg (by rw [hts]; exact (hne y hy).symm)]
    exact hrow

theorem expirePendingTransfers_shut [Hasher] (h : sm.ledger.Shut original) (hs : Sound sm) :
    Meets Unclosed (fun sm' => sm'.ledger.Shut original) (sm.expirePendingTransfers timestamp) := by
  unfold expirePendingTransfers
  simp only [Meets.bind_eq, meets_assert_eq]
  refine ⟨fun _ => ⟨fun _ => ?_, by simp [closing]⟩, by simp [closing]⟩
  refine ((expiring_apart (by simp [watched]) (by simp [importing])).and_post
    (expiring_due hs.balanced)).weaken
    fun due hdue => ?_
  obtain ⟨_, hdue, hdistinct⟩ := hdue
  refine (expireAll_shut h hs (fun x hx => hdue x (List.mem_filter.mp hx).1)
    (hdistinct.filter _)).weaken fun sm₁ h₁ => ?_
  refine (updatePulseNextTimestamp_events.and_post updatePulseNextTimestamp_meets).weaken
    fun sm₂ h₂ => ?_
  obtain ⟨_, hl, _⟩ := h₂
  exact hl ▸ h₁

variable [Hasher]

theorem createAccounts_grows {events : List Account} (h : Sound sm)
    (ht : timestamp ≤ TimestampRange.timestampMax) :
    Meets (fun _ => True)
      (fun r => ∀ id account, sm.accounts.lookup id = some account →
        r.2.accounts.lookup id = some account)
      (sm.createAccounts events timestamp) := by
  let Inv (sm₁ : StateMachine) : Prop := ∀ id account, sm.accounts.lookup id = some account →
    sm₁.ledger.accounts.lookup id = some account
  have hstart : ∀ objects, Inv { sm with accountsObjects := objects } := fun _ _ _ hl => hl
  refine (h.persistedAccounts ht hstart fun sm₁ event result index _ _ _ hn hi => ?_).weaken
    fun _ hr => hr.1
  refine persistAccountEvent_meets.weaken fun sm₂ ⟨hl, _⟩ id account hid => ?_
  rw [hl]
  unfold Ledger.insertAccount
  rw [lookup_insert_eq, if_neg ?_]
  · exact hi id account hid
  · intro heq
    have heq : id = event.id := heq
    have := hi id account hid
    rw [heq, hn] at this
    cases this

-- The ids of the accounts that there are only now, and that are closed.
def closedFrom (sm sm' : StateMachine) : List U128 :=
  (sm'.accounts.entries.filter fun x =>
    (sm.accounts.lookup x.1).isNone && x.2.flags.closed).map Sigma.fst

omit [Hasher] in
theorem mem_closedFrom {id : U128} : id ∈ sm.closedFrom sm' ↔
    sm.accounts.lookup id = none ∧ ∃ account, sm'.accounts.lookup id = some account ∧
      account.flags.closed = true := by
  unfold closedFrom
  simp only [List.mem_map, List.mem_filter, Bool.and_eq_true, Option.isNone_iff_eq_none]
  constructor
  · rintro ⟨⟨id, account⟩, ⟨hm, hn, hc⟩, rfl⟩
    exact ⟨hn, account, AList.mem_lookup_iff.mpr hm, hc⟩
  · rintro ⟨hn, account, hl, hc⟩
    exact ⟨⟨id, account⟩, ⟨AList.mem_lookup_iff.mp hl, hn, hc⟩, rfl⟩

-- The state machine together with the ids of the accounts that were created closed.
def originating : Machine (StateMachine × List U128) Call Fault where
  init s := s = (default, [])
  step
    | (sm, original), .createAccounts events timestamp => do
      let sm' ← machine.step sm (.createAccounts events timestamp)
      return (sm', original ++ sm.closedFrom sm')
    | (sm, original), call => return (← machine.step sm call, original)

def FreshOriginating (s : StateMachine × List U128) (call : Call) : Prop :=
  Fresh s.1 call

theorem createAccounts_shut {events : List Account} {original : List U128} (h : Sound sm)
    (hshut : sm.ledger.Shut (· ∈ original)) (ht : timestamp ≤ TimestampRange.timestampMax) :
    Meets Unclosed (fun r => r.2.ledger.Shut (· ∈ original ++ sm.closedFrom r.2))
      (sm.createAccounts events timestamp) := by
  refine (createAccounts_apart.and_post ((createAccounts_grows h ht).and createAccounts_pulse)).weaken
    fun ⟨results, sm'⟩ ⟨_, hgrows, htransfer, hpending, _⟩ => ?_
  dsimp only at hgrows htransfer hpending ⊢
  have hcloser : sm'.ledger.Closer = sm.ledger.Closer := by
    funext id key
    have ht : sm'.ledger.transfers.lookup key = sm.ledger.transfers.lookup key :=
      congrFun htransfer key
    have hp : ∀ t, sm'.ledger.pendings.lookup t = sm.ledger.pendings.lookup t :=
      congrFun hpending
    unfold Ledger.Closer
    simp only [ht, hp]
  refine ⟨?_, fun id t ht hp => ?_⟩
  · rw [hcloser]
    refine hshut.exclusive.grow (s := (· ∈ sm.closedFrom sm')) (fun id hs key hk => ?_)
      (fun id => ?_) fun id => List.mem_append
    · obtain ⟨hn, _⟩ := mem_closedFrom.mp hs
      obtain ⟨t, ht, _, hcloses⟩ := hk
      obtain ⟨hd, hc⟩ := h.balanced.parties _ _ ht
      have hn : sm.ledger.accounts.lookup id = none := hn
      obtain ⟨_, rfl⟩ | ⟨_, rfl⟩ := hcloses
      · rw [hn] at hd
        cases hd
      · rw [hn] at hc
        cases hc
    · rw [mem_closedFrom]
      constructor
      · rintro ⟨account, hl, hc⟩
        cases hold : sm.accounts.lookup id with
        | none => exact .inr ⟨rfl, account, hl, hc⟩
        | some old =>
          have := hgrows id old hold
          obtain rfl : account = old := Option.some.inj (Eq.trans (Eq.symm hl) this)
          exact .inl ⟨account, hold, hc⟩
      · rintro (⟨account, hl, hc⟩ | ⟨_, account, hl, hc⟩)
        · exact ⟨account, hgrows id account hl, hc⟩
        · exact ⟨account, hl, hc⟩
  · have ht : sm.ledger.transfers.lookup id = some t := (congrFun htransfer id).symm.trans ht
    obtain ⟨p, hpl, hc⟩ := hshut.posts id t ht hp
    exact ⟨p, (congrFun htransfer t.pendingId).trans hpl, hc⟩

theorem createTransfers_shut {events : List Transfer} (h : Sound sm)
    (hshut : sm.ledger.Shut original) (ht : timestamp ≤ TimestampRange.timestampMax)
    (hu : (events.head?.any fun event => event.flags.imported) = false →
      Checked.Unused sm.ledger timestamp events.length 0) :
    Meets Unclosed (fun r => r.2.ledger.Shut original) (sm.createTransfers events timestamp) := by
  let Inv (sm : StateMachine) : Prop := sm.ledger.Shut original
  have hstart : ∀ accountsObjects transfersObjects transfersPendingObjects orphaned,
      Inv (sm.withCaches accountsObjects transfersObjects transfersPendingObjects orphaned) :=
    fun _ _ _ _ => hshut
  refine h.createTransfers_tolerates ht hstart (fun accountTimestamps sm₁ hp => ?_) ?_
  · let batch := transfersBatch events timestamp accountTimestamps sm₁
    have hidle : (@TransfersBatch.law _ batch ht).Idle (transfersState sm₁) :=
      ⟨hp.accounts.idle, hp.transfers.idle, hp.pendings.idle⟩
    exact @orchestrate_unclosed _ _ original events batch _ _ ht prefetches hidle
      fun _ => ⟨sm.ledger, hp.follows h, hu, hshut⟩
  · intro batch prefetch resolves view after sm₁ event result index hm _ hkeys hf hs hc hi
    exact persist_shut hi hm hkeys hf hs hc

variable {s : StateMachine × List U128}

theorem shut_step {call : Call} (h : Sound s.1)
    (hshut : s.1.ledger.Shut (· ∈ s.2)) (hf : FreshOriginating s call) :
    Meets Unclosed (fun s' => s'.1.ledger.Shut (· ∈ s'.2)) (originating.step s call) := by
  have ⟨ht, hf⟩ := hf
  have ht : TimestampRange.valid call.timestamp := ht
  cases call with
  | createAccounts events timestamp =>
    simp only [originating, machine, Meets.bind_eq, Meets.pure_eq]
    exact createAccounts_shut h hshut ht.2
  | createTransfers events timestamp =>
    simp only [originating, machine, Meets.bind_eq, Meets.pure_eq]
    exact createTransfers_shut h hshut ht.2 hf
  | expirePendingTransfers timestamp =>
    simp only [originating, machine, Meets.bind_eq, Meets.pure_eq]
    exact expirePendingTransfers_shut hshut h

theorem originating_step {s' : StateMachine × List U128} {call : Call}
    (hstep : originating.step s call = .ok s') : machine.step s.1 call = .ok s'.1 := by
  cases call with
  | createAccounts events timestamp =>
    obtain ⟨sm', hr, he⟩ := bind_eq_ok.mp hstep
    cases he
    exact hr
  | createTransfers events timestamp =>
    obtain ⟨sm', hr, he⟩ := bind_eq_ok.mp hstep
    cases he
    exact hr
  | expirePendingTransfers timestamp =>
    obtain ⟨sm', hr, he⟩ := bind_eq_ok.mp hstep
    cases he
    exact hr

theorem shut_of_reachable
    (h : originating.Reachable FreshOriginating s) : Sound s.1 ∧ s.1.ledger.Shut (· ∈ s.2) := by
  refine h.invariant (p := fun s => Sound s.1 ∧ s.1.ledger.Shut (· ∈ s.2)) (fun s hi => ?_)
    fun s call s' ⟨hs, hshut⟩ hg hstep =>
      ⟨hs.step hg.1 (originating_step hstep), (shut_step hs hshut hg).post hstep⟩
  have hi : s = (default, []) := hi
  subst hi
  exact ⟨sound_default, ⟨nofun, nofun, nofun, nofun⟩, nofun⟩

-- An account that was not created closed is closed exactly if one pending transfer closes it. No
-- assertion about closed accounts fails, and no transfer that closes an account is posted.
theorem closed_iff_closer {s : StateMachine × List U128}
    (h : originating.Reachable FreshOriginating s) :
    (∀ id account, s.1.accounts.lookup id = some account → id ∉ s.2 →
      (account.flags.closed = true ↔ ∃! key, s.1.ledger.Closer id key)) ∧
    (∀ call, FreshOriginating s call → ∀ fault, machine.step s.1 call = .error fault →
      ∀ message ∈ closing, fault ≠ .panic .general message) ∧
    ∀ id t, s.1.transfers.lookup id = some t → t.flags.postPendingTransfer = true →
      ∃ p, s.1.transfers.lookup t.pendingId = some p ∧ p.flags.closingDebit = false ∧
        p.flags.closingCredit = false := by
  have ⟨hs, hshut⟩ := shut_of_reachable h
  refine ⟨fun id account hl hn => ?_, fun call hf fault hfault => ?_, hshut.posts⟩
  · rw [← hshut.exclusive.closed_iff hn]
    refine ⟨fun hc => ⟨account, hl, hc⟩, fun ⟨account', hl', hc⟩ => ?_⟩
    obtain rfl : account = account' := Option.some.inj (Eq.trans (Eq.symm hl) hl')
    exact hc
  · have hstep := shut_step hs hshut hf
    refine hstep.fault (e := fault) ?_
    cases call with
    | createAccounts events timestamp | createTransfers events timestamp
    | expirePendingTransfers timestamp =>
      simp only [originating]
      rw [hfault]
      rfl

end StateMachine

namespace StateMachine.Runs

open Accounting.Runs

attribute [local instance] identityHasher

instance {s : StateMachine × List U128} {call : Call} : Decidable (FreshOriginating s call) :=
  inferInstanceAs (Decidable (Fresh s.1 call))

-- A pending transfer that closes its debit account.
def closes : List Call := [
  .createAccounts [account 1 0 1 0, account 2 0 1 0] 10,
  .createTransfers [transfer 1 1 2 66] 11]

theorem closed_iff_closer_of_closes : ∃ s, originating.Reachable FreshOriginating s ∧
    (∃ account, s.1.accounts.lookup 1 = some account ∧ account.flags.closed = true) ∧
    ∃! key, s.1.ledger.Closer 1 key := by
  have ⟨s, hr, ⟨account, hl, hc⟩, hn⟩ := (Machine.Reachable.init rfl).leads (show
    originating.Leads FreshOriginating (fun s => (∃ account ∈ s.1.accounts.lookup 1,
      account.flags.closed = true) ∧ (1 : U128) ∉ s.2) closes (default, []) by decide +kernel)
  exact ⟨s, hr, ⟨account, hl, hc⟩, ((closed_iff_closer hr).1 1 account hl hn).mp hc⟩

-- The pending transfer is voided, which opens the account again.
def voids : Call :=
  .createTransfers [{ transfer 2 0 0 8 with pendingId := 1, ledger := 0, code := 0 }] 12

-- Another pending transfer gets the timestamp of the first one, so that this can be voided again.
def voidsAgain : Call :=
  .createTransfers [
    transfer 3 1 2 2,
    { transfer 4 0 0 8 with pendingId := 1, ledger := 0, code := 0 },
    transfer 5 1 2 0] 13

theorem not_closed_iff_closer : ¬∀ (_ : Hasher) (s : StateMachine × Nat) (call : Call),
    advancing.Reachable Advances s → Advances s call →
    Meets Unclosed (fun _ => True) (machine.step s.1 call) := by
  intro h
  have ⟨s, hr, hg, hfails⟩ := (Machine.Reachable.init rfl).leads (show advancing.Leads Advances
    (fun s => Advances s voidsAgain ∧
      Meets (fun fault => fault = .panic .general "dr_account.flags.closed()") (fun _ => False)
        (machine.step s.1 voidsAgain)) (closes ++ [voids]) (default, 0)
    by decide +kernel)
  have hunclosed := h identityHasher s _ hr hg
  cases hstep : machine.step s.1 voidsAgain with
  | ok _        => exact hfails.post hstep
  | error fault =>
    exact hunclosed.fault hstep "dr_account.flags.closed()" (by simp [closing])
      (hfails.fault hstep)

end StateMachine.Runs

end TigerBeetle.Accounting
