import TigerBeetle.Exclusive
import TigerBeetle.Theorems.Events
import TigerBeetle.Theorems.Exact
import TigerBeetle.Theorems.Overflow
import TigerBeetle.Theorems.Pulse

namespace TigerBeetle.Accounting

open Fallible HashMap Orchestrator Fault

-- The accounts that a transfer closes while it is pending.
def Transfer.Closes (t : Transfer) (id : U128) : Prop :=
  t.flags.closingDebit = true ∧ t.debitAccountId = id ∨
    t.flags.closingCredit = true ∧ t.creditAccountId = id

namespace Ledger

variable (ledger : Ledger)

def Closed (id : U128) : Prop :=
  ∃ account, ledger.accounts.lookup id = some account ∧ account.flags.closed = true

-- The pending transfers that close an account.
def Closer (id key : U128) : Prop :=
  ∃ t, ledger.transfers.lookup key = some t ∧
    (ledger.pendings.lookup t.timestamp).map TransferPending.status = some .pending ∧ t.Closes id

variable {ledger} {record p : Transfer} {dr cr dr' cr' : Account} {original : U128 → Prop}
    {key : U128}

theorem Balanced.key_eq (hb : ledger.Balanced) {key key' : U128} {t t' : Transfer}
    (h : ledger.transfers.lookup key = some t) (h' : ledger.transfers.lookup key' = some t')
    (ht : t.timestamp = t'.timestamp) : key = key' := by
  have h₁ := hb.timestamp key t h
  have h₂ := hb.timestamp key' t' h'
  rw [ht] at h₁
  exact Option.some.inj (h₁.symm.trans h₂)

-- The timestamp of a transfer that is new is that of no other one.
theorem Balanced.timestamp_ne (hb : ledger.Balanced)
    (hn : ledger.transfers.lookup record.id = none)
    (hfresh : (ledger.timestamps.lookup record.timestamp).all (· = record.id) = true) {t : Transfer}
    (h : ledger.transfers.lookup key = some t) : t.timestamp ≠ record.timestamp := by
  intro heq
  have hkey := hb.timestamp key t h
  rw [heq] at hkey
  rw [hkey] at hfresh
  obtain rfl : key = record.id := by simpa using hfresh
  rw [hn] at h
  cases h

theorem closed_iff_of_put {accounts : HashMap U128 Account} {debit credit id : U128}
    (hput : ∀ id, accounts.lookup id =
      if id = credit then some cr' else if id = debit then some dr' else ledger.accounts.lookup id) :
    (∃ account, accounts.lookup id = some account ∧ account.flags.closed = true) ↔
      if id = credit then cr'.flags.closed = true else
        if id = debit then dr'.flags.closed = true else ledger.Closed id := by
  rw [hput]
  split
  · simp
  · split
    · simp
    · rfl

-- A created transfer closes the accounts that it says.
theorem exclusive_create (hb : ledger.Balanced) (he : Exclusive ledger.Closed ledger.Closer original)
    (hn : ledger.transfers.lookup record.id = none)
    (hfresh : (ledger.timestamps.lookup record.timestamp).all (· = record.id) = true)
    (hne : record.creditAccountId ≠ record.debitAccountId)
    (hd : ledger.accounts.lookup record.debitAccountId = some dr)
    (hc : ledger.accounts.lookup record.creditAccountId = some cr)
    (hopened : dr.flags.closed = false ∧ cr.flags.closed = false)
    (hpending : record.flags.closingDebit = true ∨ record.flags.closingCredit = true →
      record.flags.pending = true)
    (hdid : dr'.id = dr.id) (hcid : cr'.id = cr.id)
    (hdr : dr'.flags.closed = (dr.flags.closed || record.flags.closingDebit))
    (hcr : cr'.flags.closed = (cr.flags.closed || record.flags.closingCredit)) :
    Exclusive (ledger.create record dr' cr').Closed (ledger.create record dr' cr').Closer original := by
  have hput : ∀ id, (ledger.putAccounts dr' cr').lookup id =
      if id = record.creditAccountId then some cr' else
        if id = record.debitAccountId then some dr' else ledger.accounts.lookup id := by
    intro id
    unfold putAccounts
    rw [lookup_insert_eq, lookup_insert_eq, hdid, hcid, hb.accountId _ _ hd, hb.accountId _ _ hc]
  refine he.add (s := record.Closes) (k := record.id) (fun id hs => ?_) (fun id => ?_)
    fun id key => ?_
  · rintro ⟨account, hl, hclosed⟩
    obtain ⟨_, rfl⟩ | ⟨_, rfl⟩ := hs
    · rw [hd] at hl
      cases hl
      rw [hopened.1] at hclosed
      cases hclosed
    · rw [hc] at hl
      cases hl
      rw [hopened.2] at hclosed
      cases hclosed
  · refine (closed_iff_of_put hput).trans ?_
    unfold Transfer.Closes Closed
    split
    · next hi =>
      subst hi
      simp [hcr, hc, hne.symm]
    · split
      · next hi =>
        subst hi
        simp [hdr, hd, hne]
      · next h₁ h₂ => simp [Ne.symm h₁, Ne.symm h₂]
  · have hrow : ∀ t, ledger.transfers.lookup key = some t →
        (ledger.create record dr' cr').pendings.lookup t.timestamp =
          ledger.pendings.lookup t.timestamp := by
      intro t ht
      have := hb.timestamp_ne hn hfresh ht
      unfold create
      dsimp only
      split
      · rw [lookup_insert_eq, if_neg this]
      · rfl
    unfold Closer
    simp only [create, lookup_insert_eq] at hrow ⊢
    by_cases hk : key = record.id
    · subst hk
      simp only [↓reduceIte, Option.some.injEq, exists_eq_left', true_and, hn, reduceCtorEq,
        false_and, exists_false, false_or]
      refine ⟨fun ⟨_, h⟩ => h, fun h => ⟨?_, h⟩⟩
      have hp := hpending (h.imp And.left And.left)
      rw [if_pos hp, lookup_insert_eq, if_pos rfl]
      rfl
    · simp only [hk, ↓reduceIte, false_and, or_false]
      refine exists_congr fun t => and_congr_right fun ht => ?_
      rw [hrow t ht]

-- A pending transfer that is settled closes nothing any more.
theorem pending_iff_of_settled (hb : ledger.Balanced) (hp : ledger.transfers.lookup key = some p)
    {status : TransferPendingStatus} (hs : status ≠ .pending) {k : U128} {t : Transfer}
    (ht : ledger.transfers.lookup k = some t) :
    ((ledger.pendings.insert p.timestamp ⟨p.timestamp, status⟩).lookup t.timestamp).map
        TransferPending.status = some .pending ↔
      (ledger.pendings.lookup t.timestamp).map TransferPending.status = some .pending ∧ k ≠ key := by
  rw [lookup_insert_eq]
  by_cases hk : k = key
  · subst hk
    obtain rfl : t = p := Option.some.inj (ht.symm.trans hp)
    simp [hs]
  · rw [if_neg fun heq => hk (hb.key_eq ht hp heq)]
    simp [hk]

theorem exclusive_settle {ledger' : Ledger} (he : Exclusive ledger.Closed ledger.Closer original)
    (hp : ledger.transfers.lookup key = some p)
    (hrow : (ledger.pendings.lookup p.timestamp).map TransferPending.status = some .pending)
    (hne : p.creditAccountId ≠ p.debitAccountId)
    (hd : ledger.accounts.lookup p.debitAccountId = some dr)
    (hc : ledger.accounts.lookup p.creditAccountId = some cr)
    (hput : ∀ id, ledger'.accounts.lookup id =
      if id = p.creditAccountId then some cr' else
        if id = p.debitAccountId then some dr' else ledger.accounts.lookup id)
    (hdr : dr'.flags.closed = (dr.flags.closed && !p.flags.closingDebit))
    (hcr : cr'.flags.closed = (cr.flags.closed && !p.flags.closingCredit))
    (hcloser : ∀ id k, ledger'.Closer id k ↔ ledger.Closer id k ∧ k ≠ key) :
    Exclusive ledger'.Closed ledger'.Closer original := by
  refine he.remove (k := key) (fun id => (closed_iff_of_put hput).trans ?_) hcloser
  have hcloser : ledger.Closer id key ↔ p.Closes id := by
    unfold Closer
    refine ⟨fun ⟨t, ht, _, hcloses⟩ => ?_, fun hcloses => ⟨p, hp, hrow, hcloses⟩⟩
    obtain rfl : p = t := Option.some.inj (hp.symm.trans ht)
    exact hcloses
  rw [hcloser]
  unfold Transfer.Closes Closed
  split
  · next hi =>
    subst hi
    simp [hcr, hc, hne.symm]
  · split
    · next hi =>
      subst hi
      simp [hdr, hd, hne]
    · next h₁ h₂ => simp [Ne.symm h₁, Ne.symm h₂]

section

variable (hb : ledger.Balanced) (he : Exclusive ledger.Closed ledger.Closer original)
  (hp : ledger.transfers.lookup key = some p)
  (hrow : (ledger.pendings.lookup p.timestamp).map TransferPending.status = some .pending)
  (hd : ledger.accounts.lookup p.debitAccountId = some dr)
  (hc : ledger.accounts.lookup p.creditAccountId = some cr)
  (hdid : dr'.id = dr.id) (hcid : cr'.id = cr.id)
  (hdr : dr'.flags.closed = (dr.flags.closed && !p.flags.closingDebit))
  (hcr : cr'.flags.closed = (cr.flags.closed && !p.flags.closingCredit))

include hb he hp hrow hd hc hdid hcid hdr hcr

theorem exclusive_resolve (hn : ledger.transfers.lookup record.id = none)
    (hfresh : (ledger.timestamps.lookup record.timestamp).all (· = record.id) = true)
    {status : TransferPendingStatus} (hs : status ≠ .pending) :
    Exclusive (ledger.resolve record p status dr' cr').Closed
      (ledger.resolve record p status dr' cr').Closer original := by
  refine exclusive_settle he hp hrow (hb.distinct _ _ hp) hd hc (fun id => ?_) hdr hcr
    fun id k => ?_
  · unfold resolve putAccounts
    rw [lookup_insert_eq, lookup_insert_eq, hdid, hcid, hb.accountId _ _ hd, hb.accountId _ _ hc]
  · unfold Closer
    simp only [resolve, lookup_insert_eq]
    by_cases hk : k = record.id
    · subst hk
      have hnone : ledger.pendings.lookup record.timestamp = none := by
        cases hl : ledger.pendings.lookup record.timestamp with
        | none     => rfl
        | some row =>
          obtain ⟨_, t, ht, _, hts⟩ := hb.rows _ _ hl
          exact absurd hts (hb.timestamp_ne hn hfresh ht)
      have hts := hb.timestamp_ne hn hfresh hp
      simp [hn, hnone, Ne.symm hts]
    · simp only [hk, ↓reduceIte]
      constructor
      · rintro ⟨t, ht, hr, hcloses⟩
        obtain ⟨hr, hne⟩ := (pending_iff_of_settled hb hp hs ht).mp (by rwa [lookup_insert_eq])
        exact ⟨⟨t, ht, hr, hcloses⟩, hne⟩
      · rintro ⟨⟨t, ht, hr, hcloses⟩, hne⟩
        refine ⟨t, ht, ?_, hcloses⟩
        have := (pending_iff_of_settled hb hp hs ht).mpr ⟨hr, hne⟩
        rwa [lookup_insert_eq] at this

theorem exclusive_expire {accounts : HashMap U128 Account}
    (hput : ∀ id, accounts.lookup id = (ledger.putAccounts dr' cr').lookup id) :
    Exclusive (ledger.expire p accounts).Closed (ledger.expire p accounts).Closer original := by
  refine exclusive_settle he hp hrow (hb.distinct _ _ hp) hd hc (fun id => (hput id).trans ?_) hdr
    hcr fun id k => ?_
  · unfold putAccounts
    rw [lookup_insert_eq, lookup_insert_eq, hdid, hcid, hb.accountId _ _ hd, hb.accountId _ _ hc]
  · unfold Closer
    simp only [expire]
    constructor
    · rintro ⟨t, ht, hr, hcloses⟩
      obtain ⟨hr, hne⟩ := (pending_iff_of_settled hb hp (by simp) ht).mp hr
      exact ⟨⟨t, ht, hr, hcloses⟩, hne⟩
    · rintro ⟨⟨t, ht, hr, hcloses⟩, hne⟩
      exact ⟨t, ht, (pending_iff_of_settled hb hp (by simp) ht).mpr ⟨hr, hne⟩, hcloses⟩

end

end Ledger

theorem AccountFlags.closed_withClosed {flags : AccountFlags} : flags.withClosed.closed = true := by
  simp [withClosed, closed]

theorem AccountFlags.closed_withoutClosed {flags : AccountFlags} :
    flags.withoutClosed.closed = false := by
  simp [withoutClosed, closed]

variable {dr cr : Account} {event : Transfer}

theorem commitTransferAccounts_closed {amount : U128} :
    (commitTransferAccounts event amount dr cr).1.flags.closed =
        (dr.flags.closed || event.flags.closingDebit) ∧
      (commitTransferAccounts event amount dr cr).2.flags.closed =
        (cr.flags.closed || event.flags.closingCredit) := by
  unfold commitTransferAccounts
  cases event.flags.pending <;> cases event.flags.closingDebit <;>
    cases event.flags.closingCredit <;> simp [AccountFlags.closed_withClosed]

variable {p : Transfer}

-- A transfer that is posted finds the accounts open, and one that is voided opens them.
theorem commitPostVoidAccounts_closed {amount : U128}
    (hopened : event.flags.postPendingTransfer = true →
      dr.flags.closed = false ∧ cr.flags.closed = false) :
    Meets (fun _ => True) (fun (r : Account × Account) =>
        r.1.flags.closed = (dr.flags.closed && !p.flags.closingDebit) ∧
          r.2.flags.closed = (cr.flags.closed && !p.flags.closingCredit))
      (commitPostVoidAccounts event p amount dr cr) := by
  unfold commitPostVoidAccounts
  simp only [Meets.ite_iff, Meets.bind_eq, Meets.pure_eq, partial_assert]
  refine ⟨fun hp _ _ _ => ?_, fun _ _ _ _ => ?_⟩
  · simp [hopened hp]
  · cases p.flags.closingDebit <;> cases p.flags.closingCredit <;>
      simp [AccountFlags.closed_withoutClosed]

theorem expireDebit_closed :
    (StateMachine.expireDebit p dr).flags.closed = (dr.flags.closed && !p.flags.closingDebit) := by
  unfold StateMachine.expireDebit
  cases p.flags.closingDebit <;> simp [AccountFlags.closed_withoutClosed]

theorem expireCredit_closed :
    (StateMachine.expireCredit p cr).flags.closed = (cr.flags.closed && !p.flags.closingCredit) := by
  unfold StateMachine.expireCredit
  cases p.flags.closingCredit <;> simp [AccountFlags.closed_withoutClosed]

-- The assertions about closed accounts.
def closing : List String := [
  "!p.flags.closing_debit()",
  "!p.flags.closing_credit()",
  "dr_account.flags.closed()",
  "cr_account.flags.closed()",
  "dr_new.flags.closed()",
  "cr_new.flags.closed()"]

-- Failures apart from those about closed accounts.
def Unclosed (fault : Fault) : Prop :=
  ∀ message ∈ closing, fault ≠ .panic .general message

instance : DecidablePred Unclosed := fun _ => inferInstanceAs (Decidable (∀ _ ∈ closing, _ ≠ _))

instance tolerant_unclosed : Tolerant Unclosed where
  tolerates message h closed hc heq := by
    obtain rfl : message = closed := by simpa using heq
    refine h ?_
    simp only [closing, List.mem_cons, List.not_mem_nil, or_false] at hc
    simp only [watched, List.mem_cons, List.not_mem_nil, or_false]
    exact .inr hc
  cutOff _ _ := nofun

@[simp]
theorem unclosed_panic {concern : Concern} {message : String} :
    Unclosed (.panic concern message) ↔ (concern = .general → message ∉ closing) := by
  unfold Unclosed
  simp only [ne_eq, Fault.panic.injEq, not_and]
  exact ⟨fun h hc hm => h message hm hc rfl, fun h m hm hc heq => h hc (heq ▸ hm)⟩

-- A pending transfer has closed what it says while it is pending.
theorem commitPostVoidAccounts_unclosed {amount : U128}
    (hd : p.flags.closingDebit = true → dr.flags.closed = true)
    (hc : p.flags.closingCredit = true → cr.flags.closed = true)
    (hopened : event.flags.postPendingTransfer = true →
      dr.flags.closed = false ∧ cr.flags.closed = false) :
    Meets Unclosed (fun _ => True) (commitPostVoidAccounts event p amount dr cr) := by
  have hne : ∀ a : Account, a.flags.closed = false → ¬a.flags.closed = true := by simp
  unfold commitPostVoidAccounts
  simp only [Meets.ite_iff, Meets.bind_eq, Meets.pure_eq, meets_assert_eq, implies_true, true_and]
  refine ⟨fun hp => ⟨fun _ => ⟨fun _ => fun _ => ?_, fun h => absurd (hc (by simpa using h)) ?_⟩,
    fun h => absurd (hd (by simpa using h)) ?_⟩, fun _ => ⟨fun _ => ⟨fun _ => fun h => absurd hc h,
      fun h => absurd hd h⟩, fun _ => ?_⟩⟩
  · simp [closing]
  · exact hne _ (hopened hp).2
  · exact hne _ (hopened hp).1
  · simp [closing]

-- The accounts that the pending transfer of an event has closed are closed.
def Shuts (view : TransfersView) (event : Transfer) : Prop :=
  event.flags.postOrVoid = true → ∀ p, view.transfers event.pendingId = some p →
    p.flags.pending = true →
      (view.pendings p.timestamp).map TransferPending.status = some .pending →
        ∀ dr cr, view.accounts p.debitAccountId = some dr →
          view.accounts p.creditAccountId = some cr →
            (p.flags.closingDebit = true → dr.flags.closed = true) ∧
              (p.flags.closingCredit = true → cr.flags.closed = true)

section Usable

variable [Hasher] {P₁ : AccountObjectsCache → Prop} {P₂ : TransferObjectsCache → Prop}
    {P₃ : TransferPendingObjectsCache → Prop} (h₁ : CacheMap.Usable P₁) (h₂ : CacheMap.Usable P₂)
    (h₃ : CacheMap.Usable P₃) {batch : TransfersBatch} {event : Transfer} {timestamp : Nat}
    {existing : Option Transfer} {state : TransfersState}

include h₁ h₃ in
theorem resolve_unclosed {pending : Option Transfer} (hs : Caches P₁ P₂ P₃ state)
    (hshuts : Shuts state.view event) (hp : event.flags.postOrVoid = true)
    (hpend : pending = state.view.transfers event.pendingId) :
    Meets Unclosed (fun _ => True) (batch.resolve event timestamp pending state) := by
  unfold TransfersBatch.resolve
  cases pending with
  | none => trivial
  | some p =>
    dsimp only
    split
    · trivial
    next hpending =>
    simp only [Meets.bind_eq, meets_assert_eq]
    refine (TransfersBatch.readCachedAccount_apart.and_post
      (TransfersBatch.readCachedAccount_meets h₁ hs.accounts)).weaken
      fun ⟨dr, objects₁⟩ ⟨_, hd, hp₁, hv₁⟩ => ?_
    refine ((expect_apart (by simp [watched])).and_post expect_meets).weaken fun dr ⟨_, hd'⟩ => ?_
    refine (TransfersBatch.readCachedAccount_apart.and_post
      (TransfersBatch.readCachedAccount_meets h₁ hp₁)).weaken
      fun ⟨cr, objects₂⟩ ⟨_, hc, _, _⟩ => ?_
    refine ((expect_apart (by simp [watched])).and_post expect_meets).weaken fun cr ⟨_, hc'⟩ => ?_
    dsimp only at hd hd' hv₁ hc hc' ⊢
    rw [hv₁] at hc
    refine ⟨fun _ => ?_, by simp [closing]⟩
    refine ((postOrVoidPendingTransfer_apart (timed_of_tolerant _)).and_post
      (postOrVoidPendingTransfer_meets.and postOrVoidPendingTransfer_opened)).weaken
      fun result ⟨_, ⟨_, _, hr⟩, hopened⟩ => ?_
    split
    · next h =>
      have hrow := h₃.get_fst p.timestamp hs.pendings
      have hstatus := (hr h).1.status
      have ⟨hdr, hcr⟩ := hshuts hp p hpend.symm (by simpa using hpending)
        (status_of_elim hrow hstatus) dr cr (hd.symm.trans hd') (hc.symm.trans hc')
      simp only [Meets.bind_eq, Meets.pure_eq]
      refine CacheMap.upsert_apart.weaken fun _ _ => ?_
      refine (commitPostVoidAccounts_unclosed hdr hcr (hopened h)).weaken fun _ _ => ?_
      refine CacheMap.upsert_apart.weaken fun _ _ => CacheMap.upsert_apart.weaken fun _ _ => ?_
      exact CacheMap.upsert_apart.weaken fun _ _ => trivial
    · trivial

include h₁ h₂ h₃ in
theorem execute_unclosed (hs : Caches P₁ P₂ P₃ state) (hshuts : Shuts state.view event) :
    Meets Unclosed (fun _ => True) (batch.execute event timestamp state) := by
  unfold TransfersBatch.execute
  cases batch.reject event with
  | some status => trivial
  | none =>
    dsimp only
    simp only [Meets.bind_eq, meets_assert_eq]
    refine ⟨fun _ => ?_, by simp [closing]⟩
    have ⟨hs', hview⟩ := hs.looked h₂ event.id
    split
    · trivial
    split
    case isFalse => exact TransfersBatch.plain_apart (timed_of_tolerant _)
    next hp =>
    unfold TransfersBatch.postOrVoid
    split
    · trivial
    split
    · trivial
    split
    · trivial
    dsimp only
    simp only [Meets.bind_eq, meets_assert_eq]
    refine ⟨fun _ => ?_, by simp [closing]⟩
    cases (state.transfersObjects.get event.id).1 with
    | some e =>
      simp [watched, Meets.ite_iff, expect_apart,
        postOrVoidPendingTransferExists_apart]
    | none =>
      have hs'' : Caches P₁ P₂ P₃ { state with
          transfersObjects :=
            ((state.transfersObjects.get event.id).2.get event.pendingId).2 } :=
        ⟨hs.accounts, h₂.get _ _ hs'.transfers, hs.pendings⟩
      have hview' : { state with
          transfersObjects := ((state.transfersObjects.get event.id).2.get event.pendingId).2 :
          TransfersState }.view = state.view := by
        rw [← hview]
        simp [TransfersState.view, h₂.view_get _ hs'.transfers]
      refine resolve_unclosed h₁ h₃ hs'' (hview' ▸ hshuts) hp ?_
      rw [hview', ← hview]
      exact h₂.get_fst _ hs'.transfers

end Usable

end TigerBeetle.Accounting
