import TigerBeetle.Accounting.Checked
import TigerBeetle.Theorems.Balances
import TigerBeetle.Theorems.ChainInvariant

namespace TigerBeetle.Accounting

open Fallible HashMap Orchestrator Accounting.StateMachine

namespace Checked

theorem add_eq {a b : U128} (h : a.toNat + b.toNat < 2 ^ 128) : add a b = .ok (a + b) := by
  have hno : (!sumOverflows a b) = true := by
    unfold sumOverflows
    simpa using h
  unfold add assert assertOn
  rw [if_pos hno]
  rfl

theorem sub_eq {a b : U128} (h : b.toNat ≤ a.toNat) : sub a b = .ok (a - b) := by
  have hle : b ≤ a := BitVec.le_def.mpr h
  unfold sub assert assertOn
  rw [if_pos hle]
  rfl

variable {t p event : Transfer} {dr cr : Account} {amount : U128}

theorem computeAmountActual_eq (hd : Room dr) (hc : Room cr) :
    computeAmountActual t dr cr = .ok (Accounting.computeAmountActual t dr cr) := by
  have hdr : add dr.debitsPosted dr.debitsPending = .ok (dr.debitsPosted + dr.debitsPending) :=
    add_eq (by have := hd.debits; omega)
  have hcr : add cr.creditsPosted cr.creditsPending = .ok (cr.creditsPosted + cr.creditsPending) :=
    add_eq (by have := hc.credits; omega)
  unfold computeAmountActual Accounting.computeAmountActual
  rw [hdr, hcr]
  cases t.flags.balancingDebit <;> cases t.flags.balancingCredit <;> rfl

theorem debitsExceedCredits_eq (hd : Room dr)
    (h : amount.toNat + (dr.debitsPending + dr.debitsPosted).toNat < 2 ^ 128) :
    debitsExceedCredits dr amount = .ok (dr.debitsExceedCredits amount) := by
  unfold debitsExceedCredits Account.debitsExceedCredits
  cases dr.flags.debitsMustNotExceedCredits with
  | false => rfl
  | true =>
    rw [if_pos rfl, add_eq hd.debits, ok_bind, add_eq (by omega), ok_bind, Bool.true_and]
    rfl

theorem creditsExceedDebits_eq (hc : Room cr)
    (h : amount.toNat + (cr.creditsPending + cr.creditsPosted).toNat < 2 ^ 128) :
    creditsExceedDebits cr amount = .ok (cr.creditsExceedDebits amount) := by
  unfold creditsExceedDebits Account.creditsExceedDebits
  cases cr.flags.creditsMustNotExceedDebits with
  | false => rfl
  | true =>
    rw [if_pos rfl, add_eq hc.credits, ok_bind, add_eq (by omega), ok_bind, Bool.true_and]
    rfl

variable {timestamp : Nat}

-- The limits are checked once the sums are known not to overflow.
theorem createTransferBalances_eq (hd : Room dr) (hc : Room cr) :
    createTransferBalances t timestamp dr cr amount =
      Accounting.createTransferBalances t timestamp dr cr amount := by
  unfold createTransferBalances Accounting.createTransferBalances
  rw [add_eq hd.debits, ok_bind, add_eq hc.credits, ok_bind]
  iterate 4 refine ite_congr rfl (fun _ => rfl) fun _ => ?_
  refine ite_congr rfl (fun _ => rfl) fun hdebits => ?_
  refine ite_congr rfl (fun _ => rfl) fun hcredits => ?_
  have hdebits : amount.toNat + (dr.debitsPending + dr.debitsPosted).toNat < 2 ^ 128 := by
    simpa [sumOverflows] using hdebits
  have hcredits : amount.toNat + (cr.creditsPending + cr.creditsPosted).toNat < 2 ^ 128 := by
    simpa [sumOverflows] using hcredits
  rw [debitsExceedCredits_eq hd hdebits, creditsExceedDebits_eq hc hcredits]
  rfl

variable {existing : Option Transfer}

theorem createTransfer_eq (hd : Room dr)
    (hc : Room cr) :
    createTransfer t timestamp existing dr cr =
      Accounting.createTransfer t timestamp existing dr cr := by
  unfold createTransfer Accounting.createTransfer
  rw [computeAmountActual_eq hd hc]
  simp only [ok_bind, createTransferBalances_eq hd hc]
  try rfl

theorem createTransferOutcome_eq (hd : Room dr)
    (hc : Room cr) :
    createTransferOutcome t timestamp existing dr cr =
      Accounting.createTransferOutcome t timestamp existing dr cr := by
  unfold createTransferOutcome Accounting.createTransferOutcome
  rw [createTransfer_eq hd hc, computeAmountActual_eq hd hc]
  congr 1
  funext status
  split <;> rfl

theorem commitTransferAccounts_eq (h : Fits event dr cr amount) :
    commitTransferAccounts event amount dr cr =
      .ok (Accounting.commitTransferAccounts event amount dr cr) := by
  unfold commitTransferAccounts Accounting.commitTransferAccounts
  cases hp : event.flags.pending with
  | true =>
    rw [add_eq (by have := h.debitsPending hp; omega), add_eq (by have := h.creditsPending hp; omega)]
    rfl
  | false =>
    rw [add_eq (a := dr.debitsPosted) (by have := h.debitsPosted; omega),
      add_eq (a := cr.creditsPosted) (by have := h.creditsPosted; omega)]
    rfl

theorem commitPostVoidAccounts_eq (h : Covers p dr cr) (hd : Room dr) (hc : Room cr) :
    commitPostVoidAccounts event p amount dr cr =
      Accounting.commitPostVoidAccounts event p amount dr cr := by
  unfold commitPostVoidAccounts Accounting.commitPostVoidAccounts
  rw [sub_eq h.debits, sub_eq h.credits]
  simp only [ok_bind]
  split
  · refine Meets.bind_congr (Meets.trivial.weaken fun _ _ => ?_)
    refine Meets.bind_congr (Meets.trivial.weaken fun _ _ => ?_)
    refine Meets.bind_congr ((meets_assert.mpr ⟨fun ha => ?_, fun _ => trivial⟩))
    have ha : amount.toNat ≤ p.amount.toNat := BitVec.le_def.mp ha
    have hdebits := h.debits
    have hcredits := h.credits
    have hdr := hd.debits
    have hcr := hc.credits
    rw [add_eq (by omega), add_eq (by omega)]
    rfl
  · rfl

theorem createTransferOutcome_meets : Meets (fun _ => True)
      (fun outcome => outcome.status = .created → Fits t dr cr outcome.amountActual)
      (Accounting.createTransferOutcome t timestamp existing dr cr) := by
  unfold Accounting.createTransferOutcome
  simp only [Meets.bind_eq, Meets.pure_eq]
  cases existing with
  | some e => exact createTransfer_of_some.weaken fun status ⟨hf, _⟩ h => absurd h hf.1
  | none   =>
    refine createTransfer_of_none.weaken fun status ⟨_, _, h⟩ hc => ?_
    rw [if_pos hc]
    exact (h hc).1.fits

-- The accounts that an event is validated against have room, and what it releases is there.
structure Sums (view : TransfersView) (event : Transfer) : Prop where
  debit : event.flags.postOrVoid = false →
    ∀ dr, view.accounts event.debitAccountId = some dr → Room dr
  credit : event.flags.postOrVoid = false →
    ∀ cr, view.accounts event.creditAccountId = some cr → Room cr
  resolves : event.flags.postOrVoid = true → ∀ p, view.transfers event.pendingId = some p →
    p.flags.pending = true →
    (view.pendings p.timestamp).map TransferPending.status = some .pending →
    ∀ dr cr, view.accounts p.debitAccountId = some dr → view.accounts p.creditAccountId = some cr →
      Covers p dr cr ∧ Room dr ∧ Room cr

variable [Hasher] {batch : TransfersBatch} {P₁ : AccountObjectsCache → Prop}
    {P₂ : TransferObjectsCache → Prop} {P₃ : TransferPendingObjectsCache → Prop}
    {state : TransfersState} {timestamp : Nat} {existing : Option Transfer}

theorem transfer_eq (hd : Room dr) (hc : Room cr) :
    transfer batch event timestamp existing dr cr state =
      batch.transfer event timestamp existing dr cr state := by
  unfold transfer TransfersBatch.transfer
  refine Meets.bind_congr (Meets.trivial.weaken fun regressed _ => ?_)
  split
  · rfl
  rw [createTransferOutcome_eq hd hc]
  refine Meets.bind_congr (createTransferOutcome_meets.weaken fun outcome h => ?_)
  split
  · next hs =>
    rw [commitTransferAccounts_eq (h hs)]
    rfl
  · rfl

section Usable

variable (h₁ : CacheMap.Usable P₁) (h₂ : CacheMap.Usable P₂) (h₃ : CacheMap.Usable P₃)

section

variable (hs : Caches P₁ P₂ P₃ state)

include hs

section

variable (hsums : Sums state.view event)

include hsums

include h₁ in
theorem plain_eq (hp : event.flags.postOrVoid = false) :
    plain batch event timestamp existing state = batch.plain event timestamp existing state := by
  unfold plain TransfersBatch.plain
  refine Meets.bind_congr ((TransfersBatch.readCachedAccount_meets h₁ hs.accounts).weaken
    fun ⟨dr, objects₁⟩ ⟨hd, hp₁, hv₁⟩ => ?_)
  refine Meets.bind_congr ((TransfersBatch.readCachedAccount_meets h₁ hp₁).weaken
    fun ⟨cr, objects₂⟩ ⟨hc, _, _⟩ => ?_)
  dsimp only at hd hv₁ hc ⊢
  rw [hv₁] at hc
  cases dr with
  | none => rfl
  | some dr =>
    cases cr with
    | none => rfl
    | some cr => exact transfer_eq (hsums.debit hp dr hd.symm) (hsums.credit hp cr hc.symm)

include h₁ h₃ in
theorem resolve_eq {pending : Option Transfer}
    (hp : event.flags.postOrVoid = true)
    (hpend : pending = state.view.transfers event.pendingId) :
    resolve batch event timestamp pending state =
      batch.resolve event timestamp pending state := by
  unfold resolve TransfersBatch.resolve
  cases pending with
  | none => rfl
  | some p =>
    dsimp only
    split
    · rfl
    next hpending =>
    refine Meets.bind_congr ((TransfersBatch.readCachedAccount_meets h₁ hs.accounts).weaken
      fun ⟨dr, objects₁⟩ ⟨hd, hp₁, hv₁⟩ => ?_)
    refine Meets.bind_congr (expect_meets.weaken fun dr hd' => ?_)
    refine Meets.bind_congr ((TransfersBatch.readCachedAccount_meets h₁ hp₁).weaken
      fun ⟨cr, objects₂⟩ ⟨hc, _, _⟩ => ?_)
    refine Meets.bind_congr (expect_meets.weaken fun cr hc' => ?_)
    dsimp only at hd hd' hv₁ hc hc' ⊢
    rw [hv₁] at hc
    refine Meets.bind_congr (Meets.trivial.weaken fun _ _ => ?_)
    refine Meets.bind_congr (postOrVoidPendingTransfer_meets.weaken fun result ⟨_, _, hr⟩ => ?_)
    split
    · next h =>
      refine Meets.bind_congr (Meets.trivial.weaken fun _ _ => ?_)
      have hrow := h₃.get_fst p.timestamp hs.pendings
      have hstatus := (hr h).1.status
      have ⟨hcovers, hdr, hcr⟩ := hsums.resolves hp p hpend.symm (by simpa using hpending)
        (status_of_elim hrow hstatus) dr cr (hd.symm.trans hd') (hc.symm.trans hc')
      rw [commitPostVoidAccounts_eq hcovers hdr hcr]
    · rfl

include h₁ h₂ h₃ in
theorem postOrVoid_eq (hp : event.flags.postOrVoid = true) :
    postOrVoid batch event timestamp existing state =
      batch.postOrVoid event timestamp existing state := by
  unfold postOrVoid TransfersBatch.postOrVoid
  split
  · rfl
  split
  · rfl
  split
  · rfl
  dsimp only
  refine Meets.bind_congr (Meets.trivial.weaken fun _ _ => ?_)
  cases existing with
  | some e => rfl
  | none =>
    have ⟨hs', hview⟩ := hs.looked h₂ event.pendingId
    refine resolve_eq h₁ h₃ hs' (hview ▸ hsums) hp ?_
    rw [hview]
    exact h₂.get_fst _ hs.transfers

include h₁ h₂ h₃ in
theorem execute_eq : execute batch event timestamp state = batch.execute event timestamp state := by
  unfold execute TransfersBatch.execute
  cases batch.reject event with
  | some _ => rfl
  | none =>
    dsimp only
    refine Meets.bind_congr (Meets.trivial.weaken fun _ _ => ?_)
    have ⟨hs', hview⟩ := hs.looked h₂ event.id
    split
    · rfl
    split
    · next hp => exact postOrVoid_eq h₁ h₂ h₃ hs' (hview ▸ hsums) hp
    · next hp => exact plain_eq h₁ hs' (hview ▸ hsums) (by simpa using hp)

end

end

end Usable

variable {result : CreateTransferResult} {after : TransfersView} {count index : Nat}

section Batch

variable {prefetch : TransferPrefetchKeys} {resolves : U128 → Prop} {view : TransfersView}
    {ledger : Ledger} {events : List Transfer}

omit [Hasher] in
theorem sums_of_follows (h : Follows prefetch resolves view ledger)
    (hp : Prefetches prefetch resolves events) (hm : event ∈ events) : Sums view event where
  debit hplain dr hd :=
    h.balanced.room _ _ ((h.accounts _ (hp.accounts event hm hplain).1).symm.trans hd)
  credit hplain cr hc :=
    h.balanced.room _ _ ((h.accounts _ (hp.accounts event hm hplain).2).symm.trans hc)
  resolves hres p hpend hpending hrow dr cr hd hc := by
    have ⟨hid, hr⟩ := hp.pending event hm hres
    have hl : ledger.transfers.lookup event.pendingId = some p := (h.transfers _ hid).symm.trans hpend
    have ⟨hda, hca, hrows⟩ := h.pendings _ hr p hl hpending
    have hd : ledger.accounts.lookup p.debitAccountId = some dr := (h.accounts _ hda).symm.trans hd
    have hc : ledger.accounts.lookup p.creditAccountId = some cr := (h.accounts _ hca).symm.trans hc
    have hrow : (ledger.pendings.lookup p.timestamp).map TransferPending.status = some .pending :=
      (congrArg (Option.map TransferPending.status) hrows).symm.trans hrow
    exact ⟨h.balanced.covers hl hpending hrow hd hc, h.balanced.room _ _ hd,
      h.balanced.room _ _ hc⟩

-- The timestamps of the events from `index` on are those of no transfer.
def Unused (ledger : Ledger) (timestamp count index : Nat) : Prop :=
  ∀ i, index ≤ i → i < count → ledger.timestamps.lookup (stamp timestamp count i) = none

-- A view that a ledger could have, in which the next events may be created.
def Open (prefetch : TransferPrefetchKeys) (resolves : U128 → Prop) (imported : Bool)
    (timestamp count index : Nat) (view : TransfersView) : Prop :=
  index ≤ count → ∃ ledger, Follows prefetch resolves view ledger ∧
    (imported = false → Unused ledger timestamp count index)

omit [Hasher] in
theorem unused_of_created (hf : Follows prefetch resolves view ledger)
    (hs : batch.Step view event (stamp batch.timestamp count index) result after)
    (hc : result.status = .created) (hlt : index < count)
    (hu : batch.imported = false → Unused ledger batch.timestamp count index) :
    (ledger.timestamps.lookup result.timestamp).all (· = event.id) = true ∧
      (batch.imported = false → ∀ i, index + 1 ≤ i → i < count →
        (ledger.timestamps.insert result.timestamp event.id).lookup (stamp batch.timestamp count i) =
          none) := by
  have ⟨_, _, hn, ht, hvalid, hstep⟩ := hs.created hc
  have himported : batch.imported = event.flags.imported := by
    by_contra hne
    have hr := hs.accepted hc
    unfold TransfersBatch.reject at hr
    simp [hne] at hr
  have hnone : ledger.timestamps.lookup result.timestamp = none := by
    cases hi : event.flags.imported with
    | false =>
      rw [ht, if_neg (by rw [hi]; nofun)]
      exact hu (himported.trans hi) index (Nat.le_refl _) (by omega)
    | true =>
      have hlater : view.keyMax < result.timestamp := by
        obtain ⟨_, _, hcreates⟩ | ⟨_, _, _, _, _, _, hresolves⟩ := hstep
        · exact hcreates.later hi
        · exact hresolves.later hi
      cases hl : ledger.timestamps.lookup result.timestamp with
      | none   => rfl
      | some _ =>
        have := hf.balanced.keyMax _ _ hl
        have := hf.keyMax
        omega
  refine ⟨by rw [hnone]; rfl, fun hi i hle hlt => ?_⟩
  rw [lookup_insert_eq, if_neg]
  · exact hu hi i (by omega) hlt
  · rw [ht, if_neg (by rw [← himported, hi]; nofun)]
    unfold stamp
    omega

omit [Hasher] in
theorem open_step (hp : Prefetches prefetch resolves events) (hm : event ∈ events)
    (hs : batch.Step view event (stamp batch.timestamp count index) result after)
    (h : Open prefetch resolves batch.imported batch.timestamp count index view) :
    Open prefetch resolves batch.imported batch.timestamp count (index + 1) after := by
  intro hlt
  have ⟨ledger, hf, hu⟩ := h (by omega)
  by_cases hc : result.status = .created
  case neg =>
    rw [hs.failed hc]
    exact ⟨ledger, hf, fun hi i hle hlt => hu hi i (by omega) hlt⟩
  have ⟨hfresh, hunused⟩ := unused_of_created hf hs hc (by omega) hu
  have ⟨_, _, hn, _, hvalid, hstep⟩ := hs.created hc
  obtain ⟨dr, cr, hcreates⟩ | ⟨p, row, dr, cr, dr', cr', hresolves⟩ := hstep
  · exact ⟨_, (hf.creates hp hm hcreates hn hvalid hfresh).2.2, hunused⟩
  · exact ⟨_, (hf.releases hp hm hresolves hn hvalid hfresh).2, hunused⟩

theorem open_maintains (hb : batch.timestamp ≤ TimestampRange.timestampMax)
    (hp : Prefetches prefetch resolves events) :
    (batch.law hb).Maintains batch.timestamp events.length events
      (Open prefetch resolves batch.imported batch.timestamp events.length) where
  step _ _ _ _ _ hm hs h := open_step hp hm hs h
  orphaned index event result a h hle := by
    have ⟨ledger, hf, hu⟩ := h hle
    refine ⟨ledger, ?_, hu⟩
    simp only [TransfersBatch.law]
    split
    · exact ⟨hf.balanced, hf.valid, hf.accountsWithin, hf.transfersWithin, hf.pendingsWithin,
        hf.accounts, hf.transfers, hf.pendings, hf.rows, hf.keyMax⟩
    · exact hf
  rewind index index' a b hle h _ hle' := by
    have ⟨ledger, hf, hu⟩ := h (by omega)
    refine ⟨ledger, ?_, fun hi i hl hlt => hu hi i (by omega) hlt⟩
    exact ⟨hf.balanced, hf.valid, hf.accountsWithin, hf.transfersWithin, hf.pendingsWithin,
      hf.accounts, hf.transfers, hf.pendings, hf.rows, hf.keyMax⟩
  mono index index' a hle h hle' := by
    have ⟨ledger, hf, hu⟩ := h (by omega)
    exact ⟨ledger, hf, fun hi i hl hlt => hu hi i (by omega) hlt⟩

theorem orchestrate_eq (hb : batch.timestamp ≤ TimestampRange.timestampMax)
    (hp : Prefetches prefetch resolves events) (hs : (batch.law hb).Idle state)
    (hopen : Open prefetch resolves batch.imported batch.timestamp events.length 0 state.view) :
    (orchestrator batch).orchestrate batch.timestamp events state =
      batch.orchestrator.orchestrate batch.timestamp events state := by
  refine (open_maintains hb hp).orchestrate_congr (fun event hm index hlt t state h hu => ?_) hs
    (fun _ h => h) hopen
  have ⟨ledger, hf, _⟩ := h hlt.le
  have hsums := sums_of_follows hf hp hm
  cases hu with
  | inl hidle =>
    exact execute_eq CacheMap.usable_idle CacheMap.usable_idle CacheMap.usable_idle hidle hsums
  | inr hscoped =>
    have ⟨_, hscoped, _⟩ := hscoped
    exact execute_eq CacheMap.usable_scoped CacheMap.usable_scoped CacheMap.usable_scoped hscoped
      hsums

end Batch

section Persist

variable {sm : StateMachine}

omit [Hasher] in
theorem commitTransfer_eq {record : Transfer} {amount requested : U128}
    (hfits : ∀ dr cr, sm.accounts.lookup record.debitAccountId = some dr →
      sm.accounts.lookup record.creditAccountId = some cr → Fits record dr cr amount) :
    commitTransfer sm record amount requested = sm.commitTransfer record amount requested := by
  unfold commitTransfer StateMachine.commitTransfer
  refine Meets.bind_congr (expect_meets.weaken fun dr hd => ?_)
  refine Meets.bind_congr (expect_meets.weaken fun cr hc => ?_)
  rw [commitTransferAccounts_eq (hfits dr cr hd hc), ok_bind]

omit [Hasher] in
theorem persistPostVoid_eq {amount : U128}
    (hcovers : ∀ p dr cr, sm.transfers.lookup event.pendingId = some p →
      sm.accounts.lookup p.debitAccountId = some dr →
        sm.accounts.lookup p.creditAccountId = some cr → Covers p dr cr ∧ Room dr ∧ Room cr) :
    persistPostVoid sm event amount = sm.persistPostVoid event amount := by
  unfold persistPostVoid StateMachine.persistPostVoid
  refine Meets.bind_congr (expect_meets.weaken fun p hp => ?_)
  refine Meets.bind_congr (insertTransfer_meets.weaken fun sm₁ ⟨_, h₁, _⟩ => ?_)
  refine Meets.bind_congr (updateTransferPendingStatus_meets.weaken fun sm₂ ⟨_, h₂, _⟩ => ?_)
  refine Meets.bind_congr (expect_meets.weaken fun dr hd => ?_)
  refine Meets.bind_congr (expect_meets.weaken fun cr hc => ?_)
  have haccounts : sm₂.ledger.accounts = sm.accounts := by
    rw [h₂, h₁]
    rfl
  have hd : sm₂.ledger.accounts.lookup p.debitAccountId = some dr := hd
  have hc : sm₂.ledger.accounts.lookup p.creditAccountId = some cr := hc
  rw [haccounts] at hd hc
  have ⟨hcovers, hdr, hcr⟩ := hcovers p dr cr hp hd hc
  rw [commitPostVoidAccounts_eq hcovers hdr hcr]

omit [Hasher] in
theorem persistTransfer_eq {amount : U128}
    (hfits : event.flags.postOrVoid = false → ∀ dr cr,
      sm.accounts.lookup event.debitAccountId = some dr →
        sm.accounts.lookup event.creditAccountId = some cr →
          Fits { event with amount } dr cr amount)
    (hplain : event.flags.postOrVoid = true → event.flags.pending = false)
    (hcovers : event.flags.postOrVoid = true → ∀ p dr cr,
      sm.transfers.lookup event.pendingId = some p →
        sm.accounts.lookup p.debitAccountId = some dr →
          sm.accounts.lookup p.creditAccountId = some cr → Covers p dr cr ∧ Room dr ∧ Room cr) :
    persistTransfer sm event amount = sm.persistTransfer event amount := by
  unfold persistTransfer StateMachine.persistTransfer
  split
  · next hp =>
    have hres : event.flags.postOrVoid = false := by
      cases hres : event.flags.postOrVoid with
      | false => rfl
      | true =>
        rw [hplain hres] at hp
        cases hp
    refine Meets.bind_congr (insertTransfer_meets.weaken fun sm₁ ⟨_, h₁, _⟩ => ?_)
    refine Meets.bind_congr (insertTransferPending_meets.weaken fun sm₂ ⟨h₂, _⟩ => ?_)
    have haccounts : sm₂.ledger.accounts = sm.accounts := by
      rw [h₂, h₁]
      rfl
    refine commitTransfer_eq fun dr cr hd hc => ?_
    exact hfits hres dr cr (haccounts ▸ hd) (haccounts ▸ hc)
  split
  · next hres => exact persistPostVoid_eq (hcovers hres)
  · next hres =>
    refine Meets.bind_congr (insertTransfer_meets.weaken fun sm₁ ⟨_, h₁, _⟩ => ?_)
    have haccounts : sm₁.ledger.accounts = sm.accounts := by
      rw [h₁]
      rfl
    refine commitTransfer_eq fun dr cr hd hc => ?_
    exact hfits (by simpa using hres) dr cr (haccounts ▸ hd) (haccounts ▸ hc)

omit [Hasher] in
theorem persistTransferEvent_eq {prefetch : TransferPrefetchKeys} {resolves : U128 → Prop}
    {view : TransfersView} {events : List Transfer} (h : Follows prefetch resolves view sm.ledger)
    (hp : Prefetches prefetch resolves events) (hm : event ∈ events)
    (hs : batch.Step view event (stamp batch.timestamp count index) result after)
    (hc : result.status = .created) :
    persistTransferEvent timestamp count index event result sm =
      StateMachine.persistTransferEvent timestamp count index event result sm := by
  have ⟨_, _, _, _, _, hstep⟩ := hs.created hc
  have hevent : ∀ t, persistTransfer sm { event with timestamp := t } result.amountActual =
      sm.persistTransfer { event with timestamp := t } result.amountActual := by
    intro t
    obtain ⟨dr, cr, hcreates⟩ | ⟨p, row, dr, cr, dr', cr', hresolves⟩ := hstep
    · have hplain := hcreates.creatable.plain
      refine persistTransfer_eq (fun _ dr₂ cr₂ hd hc => ?_)
        (fun hres => absurd (hplain.symm.trans hres) nofun)
        fun hres => absurd (hplain.symm.trans hres) nofun
      have ⟨hda, hca⟩ := hp.accounts event hm hplain
      obtain rfl : dr = dr₂ :=
        Option.some.inj (hcreates.debit.symm.trans ((h.accounts _ hda).trans hd))
      obtain rfl : cr = cr₂ :=
        Option.some.inj (hcreates.credit.symm.trans ((h.accounts _ hca).trans hc))
      have hfits := hcreates.creatable.fits
      rw [← hcreates.amountEq] at hfits
      exact { hfits with }
    · have hres := hresolves.resolvable
      refine persistTransfer_eq (fun hplain => absurd (hres.resolves.symm.trans hplain) nofun)
        (fun _ => hres.plain) fun _ p₂ dr₂ cr₂ hpl hd hc => ?_
      have hsums := sums_of_follows h hp hm
      have ⟨hid, hr⟩ := hp.pending event hm hres.resolves
      obtain rfl : p = p₂ :=
        Option.some.inj (hresolves.pending.symm.trans ((h.transfers _ hid).trans hpl))
      have ⟨hda, hca, _⟩ := h.pendings _ hr p hpl hres.pending
      refine hsums.resolves hres.resolves p hresolves.pending hres.pending ?_ dr₂ cr₂
        ((h.accounts _ hda).trans hd) ((h.accounts _ hca).trans hc)
      rw [hresolves.status, Option.map_some, hres.status]
  unfold persistTransferEvent StateMachine.persistTransferEvent
  dsimp only
  split
  · simp only [pure_bind]
    exact Meets.bind_congr (Meets.trivial.weaken fun _ _ => hevent event.timestamp)
  · refine Meets.bind_congr (Meets.trivial.weaken fun t _ => ?_)
    simp only [pure_bind]
    exact Meets.bind_congr (Meets.trivial.weaken fun _ _ => hevent t)

omit [Hasher] in
theorem expire_eq {id : U128} : expire sm timestamp id = sm.expire timestamp id := by
  unfold expire StateMachine.expire
  refine Meets.bind_congr (Meets.trivial.weaken fun _ _ => ?_)
  refine Meets.bind_congr (Meets.trivial.weaken fun p _ => ?_)
  refine Meets.bind_congr (Meets.trivial.weaken fun _ _ => ?_)
  refine Meets.bind_congr (Meets.trivial.weaken fun dr _ => ?_)
  refine Meets.bind_congr (Meets.trivial.weaken fun cr _ => ?_)
  refine Meets.bind_congr (meets_assert.mpr ⟨fun hdebits => ?_, fun _ => trivial⟩)
  refine Meets.bind_congr (meets_assert.mpr ⟨fun hcredits => ?_, fun _ => trivial⟩)
  rw [sub_eq (BitVec.le_def.mp hdebits), sub_eq (BitVec.le_def.mp hcredits)]
  rfl

omit [Hasher] in
theorem expireAll_eq {due : List (Nat × Nat × U128)} :
    expireAll timestamp count index due sm = StateMachine.expireAll timestamp count index due sm := by
  induction due generalizing index sm with
  | nil => rfl
  | cons x due ih =>
    unfold expireAll StateMachine.expireAll
    refine Meets.bind_congr (Meets.trivial.weaken fun t _ => ?_)
    rw [expire_eq]
    exact Meets.bind_congr (Meets.trivial.weaken fun _ _ => ih)

omit [Hasher] in
theorem expirePendingTransfers_eq :
    expirePendingTransfers sm timestamp = sm.expirePendingTransfers timestamp := by
  unfold expirePendingTransfers StateMachine.expirePendingTransfers
  simp only [expireAll_eq]

theorem createTransfers_eq {events : List Transfer} (h : Sound sm)
    (ht : timestamp ≤ TimestampRange.timestampMax)
    (hunused : (events.head?.any fun event => event.flags.imported) = false →
      Unused sm.ledger timestamp events.length 0) :
    createTransfers sm events timestamp = sm.createTransfers events timestamp := by
  unfold createTransfers StateMachine.createTransfers
  refine Meets.bind_congr (Meets.trivial.weaken fun _ _ => ?_)
  refine Meets.bind_congr (h.createTransfersPrefetch.weaken fun ⟨accountTimestamps, sm₁⟩ hp => ?_)
  have hpre := hp.prefetch_eq events
  have hfollows := hp.follows h
  have hkeys := hp.prefetches events
  dsimp only
  rw [← hpre] at hfollows ⊢
  let batch := StateMachine.transfersBatch events timestamp accountTimestamps sm₁
  let law := @TransfersBatch.law _ batch ht
  have hidle : law.Idle (StateMachine.transfersState sm₁) :=
    ⟨hp.accounts.idle, hp.transfers.idle, hp.pendings.idle⟩
  have hexecute : executeCreateTransfers events timestamp sm₁.accountsObjects sm₁.transfersObjects
      sm₁.transfersPendingObjects sm₁.transfersTimestampMax accountTimestamps
      (prefetchCreateTransfers events fun id => sm₁.transfers.lookup id).accountTimestamps ∅
      sm₁.transfersOrphaned (prefetchCreateTransfers events fun id => sm₁.transfers.lookup id) =
      Accounting.executeCreateTransfers events timestamp sm₁.accountsObjects sm₁.transfersObjects
        sm₁.transfersPendingObjects sm₁.transfersTimestampMax accountTimestamps
        (prefetchCreateTransfers events fun id => sm₁.transfers.lookup id).accountTimestamps ∅
        sm₁.transfersOrphaned (prefetchCreateTransfers events fun id => sm₁.transfers.lookup id) :=
    @orchestrate_eq _ batch _ _ _ _ ht hkeys hidle fun _ => ⟨_, hfollows, hunused⟩
  rw [hexecute]
  refine Meets.bind_congr (Meets.weaken ?_ (law.orchestrate_meets (R := fun _ _ => True) hidle
    (fun _ h => h) fun _ _ _ _ _ _ => True.intro))
  intro loop ⟨_, hs⟩
  let sm₀ : StateMachine := { sm₁ with
    accountsObjects := loop.state.accountsObjects
    transfersObjects := loop.state.transfersObjects
    transfersPendingObjects := loop.state.transfersPendingObjects }
  let sm₂ := sm₀.orphan (events.zip loop.results)
  have hledger : sm₂.ledger = sm.ledger := hp.ledger
  have hpersist : persistTransfers sm₀ events loop.results timestamp =
      sm₀.persistTransfers events loop.results timestamp := by
    refine hs.persist_congr (@persists _ _ _ sm₂ _ batch ht hkeys) ?_ (fun _ he => he)
      ⟨hledger ▸ hfollows, .refl, fun _ _ => rfl⟩
    intro index a event result b state hm hc hs ⟨hf, _⟩
    exact persistTransferEvent_eq hf hkeys hm hs
      (by simpa [TransfersBatch.orchestrator] using hc)
  exact congrArg (· >>= fun sm => pure (loop.results, sm)) hpersist

end Persist

end Checked

namespace StateMachine

variable [Hasher] {sm : StateMachine} {call : Call}

-- A batch of transfers is given timestamps that no transfer has.
def Fresh (sm : StateMachine) (call : Call) : Prop :=
  Timely sm call ∧ match call with
    | .createTransfers events timestamp =>
      (events.head?.any fun event => event.flags.imported) = false →
        Checked.Unused sm.ledger timestamp events.length 0
    | _ => True

theorem step_eq (h : Sound sm) (hf : Fresh sm call) : Checked.step sm call = machine.step sm call := by
  have ⟨ht, hf⟩ := hf
  have ht : TimestampRange.valid call.timestamp := ht
  cases call with
  | createAccounts events timestamp => rfl
  | createTransfers events timestamp =>
    exact congrArg (· >>= fun r => pure r.2) (Checked.createTransfers_eq h ht.2 hf)
  | expirePendingTransfers timestamp => exact Checked.expirePendingTransfers_eq

-- The pending balances of an account are what its pending transfers hold, and these can all be
-- released. No call releases more than is held, where its twin would panic.
theorem pending_balances (h : machine.Reachable Timely sm) :
    (∀ id account, sm.accounts.lookup id = some account →
      account.debitsPending.toNat = sm.pendingTotal Transfer.debitAccountId id ∧
        account.creditsPending.toNat = sm.pendingTotal Transfer.creditAccountId id) ∧
    (∀ id p, sm.transfers.lookup id = some p →
      (sm.transfersPending.lookup p.timestamp).map TransferPending.status = some .pending →
        ∃ dr cr, sm.Holds p dr cr) ∧
    ∀ call, Fresh sm call → Checked.step sm call = machine.step sm call := by
  have hs := sound_of_reachable h
  refine ⟨fun id account hl => ?_, fun id p => holds_of_pending hs, fun _ hf => step_eq hs hf⟩
  have hl : sm.ledger.accounts.lookup id = some account := hl
  have hdebits := hs.balanced.debits id
  have hcredits := hs.balanced.credits id
  rw [heldTotal_eq hs.balanced, hl] at hdebits hcredits
  exact ⟨hdebits.symm, hcredits.symm⟩

-- No balance wraps around: what the state machine does is what it would do if it panicked then.
theorem balances_exact (h : machine.Reachable Fresh sm) :
    (∀ id account, sm.accounts.lookup id = some account → Room account) ∧
      ∀ call, Fresh sm call → Checked.step sm call = machine.step sm call :=
  have hs := sound_of_reachable (h.mono fun _ _ hf => hf.1)
  ⟨hs.balanced.room, fun _ hf => step_eq hs hf⟩

end StateMachine

namespace StateMachine.Runs

open Accounting.Runs

attribute [local instance] identityHasher

instance {ledger : Ledger} {timestamp count index : Nat} :
    Decidable (Checked.Unused ledger timestamp count index) :=
  decidable_of_iff (∀ i < count, index ≤ i →
    ledger.timestamps.lookup (stamp timestamp count i) = none)
    ⟨fun h i hle hlt => h i hlt hle, fun h i hlt hle => h i hle hlt⟩

instance {sm : StateMachine} {call : Call} : Decidable (Fresh sm call) :=
  match call with
  | .createTransfers _ _ => inferInstanceAs (Decidable (_ ∧ (_ → _)))
  | .createAccounts _ _ | .expirePendingTransfers _ => inferInstanceAs (Decidable (_ ∧ True))

theorem balances_exact_of_transfers : ∃ sm, machine.Reachable Fresh sm ∧
    (∃ account, sm.accounts.lookup 1 = some account ∧ Room account) ∧
    Checked.step sm transfers = machine.step sm transfers := by
  have ⟨sm, hr, ha, hf⟩ := (Machine.Reachable.init rfl).leads (show machine.Leads Fresh
    (fun sm => (sm.accounts.lookup 1).isSome = true ∧ Fresh sm transfers) [accounts] default
    by decide +kernel)
  have ⟨hroom, hexact⟩ := balances_exact hr
  have ⟨account, ha⟩ := Option.isSome_iff_exists.mp ha
  exact ⟨sm, hr, ⟨account, ha, hroom 1 account ha⟩, hexact transfers hf⟩

-- A pending transfer of which a part is posted.
def posted : List Call := [
  .createAccounts [account 1 0 1 0, account 2 0 1 0] 10,
  .createTransfers [{ transfer 1 1 2 2 with amount := 5 }] 11,
  .createTransfers [{ transfer 2 0 0 4 with pendingId := 1, ledger := 0, code := 0 }] 12]

-- A chain in which another pending transfer gets the same timestamp, so that the first one can be
-- posted again. It is broken in the end.
def colliding : Call :=
  .createTransfers [
    transfer 3 1 2 3,
    { transfer 4 0 0 5 with pendingId := 1, ledger := 0, code := 0 },
    transfer 5 1 1 0] 13

-- A pending transfer holds its amount, and the post of a part of it releases no more.
theorem pending_balances_of_posted : ∃ sm account, machine.Reachable Timely sm ∧
    sm.accounts.lookup 1 = some account ∧ account.debitsPending = 5 ∧
    account.debitsPending.toNat = sm.pendingTotal Transfer.debitAccountId 1 ∧
    (∃ p dr cr, sm.transfers.lookup 1 = some p ∧ sm.Holds p dr cr) ∧
    ∀ call ∈ posted.drop 2, Checked.step sm call = machine.step sm call := by
  have ⟨sm, hr, ha, hp, hf⟩ := (Machine.Reachable.init rfl).leads (show machine.Leads Timely
    (fun sm => (sm.accounts.lookup 1).map Account.debitsPending = some 5 ∧
      ((sm.transfers.lookup 1).bind fun p => sm.transfersPending.lookup p.timestamp).map
        TransferPending.status = some .pending ∧ ∀ call ∈ posted.drop 2, Fresh sm call)
    (posted.take 2) default by decide +kernel)
  have ⟨account, ha, hfive⟩ := Option.map_eq_some_iff.mp ha
  have ⟨row, hrow, hs⟩ := Option.map_eq_some_iff.mp hp
  have ⟨p, hp, hrow⟩ := Option.bind_eq_some_iff.mp hrow
  have ⟨hbalances, hholds, hexact⟩ := pending_balances hr
  have ⟨dr, cr, h⟩ := hholds 1 p hp (by rw [hrow, Option.map_some, hs])
  exact ⟨sm, account, hr, ha, hfive, (hbalances 1 account ha).1, ⟨p, dr, cr, hp, h⟩,
    fun call hm => hexact call (hf call hm)⟩

-- The chain releases more than is held.
theorem released_too_much : ∃ sm, machine.Reachable Timely sm ∧ Timely sm colliding ∧
    (machine.step sm colliding).isOk = true ∧
    Meets (fun fault => fault = .panic .general "balance: attempt to subtract with overflow")
      (fun _ => False) (Checked.step sm colliding) :=
  (Machine.Reachable.init rfl).leads (show machine.Leads Timely (fun sm => Timely sm colliding ∧
    (machine.step sm colliding).isOk = true ∧
    Meets (fun fault => fault = .panic .general "balance: attempt to subtract with overflow")
      (fun _ => False) (Checked.step sm colliding)) posted default by decide +kernel)

-- The chain makes a balance wrap around.
theorem not_balances_exact : ¬∀ (_ : Hasher) (sm : StateMachine), machine.Reachable Timely sm →
    (∀ id account, sm.accounts.lookup id = some account → Room account) ∧
      ∀ call, Timely sm call → Checked.step sm call = machine.step sm call := by
  intro h
  have ⟨sm, hr, ht, hs, hc⟩ := (Machine.Reachable.init rfl).leads (show machine.Leads Timely
    (fun sm => Timely sm colliding ∧ (machine.step sm colliding).isOk = true ∧
      (Checked.step sm colliding).isOk = false) posted default by decide +kernel)
  rw [(h _ sm hr).2 colliding ht, hs] at hc
  cases hc

end StateMachine.Runs

end TigerBeetle.Accounting
