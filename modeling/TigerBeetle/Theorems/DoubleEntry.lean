import TigerBeetle.Theorems.Atomicity
import TigerBeetle.Theorems.Replay

namespace TigerBeetle.Accounting

open Fallible HashMap Orchestrator

namespace StateMachine

variable [Hasher] {sm sm' : StateMachine}

-- The caches hold nothing but what is committed, and what is committed is balanced.
structure Sound (sm : StateMachine) : Prop where
  accountsIdle : sm.accountsObjects.Idle
  transfersIdle : sm.transfersObjects.Idle
  pendingsIdle : sm.transfersPendingObjects.Idle
  balanced : sm.ledger.Balanced
  valid : sm.ledger.Valid
  accountsWithin : Within sm.accountsObjects.view sm.ledger.account
  transfersWithin : Within sm.transfersObjects.view sm.ledger.transfer
  pendingsWithin : Within sm.transfersPendingObjects.view sm.ledger.pending

variable {timestamp : Nat}

-- The batch that is executed once its keys have been prefetched.
def accountsBatch (events : List Account) (timestamp : Nat) (sm : StateMachine) : AccountsBatch where
  timestamp := timestamp
  imported := events.head?.any fun event => event.flags.imported
  prefetch := prefetchCreateAccounts events
  transferTimestamps := (prefetchCreateAccounts events).transferTimestamps.filter fun ts =>
    (sm.transfersByTimestamp.lookup ts).isSome

namespace Sound

section

variable (h : Sound sm)

include h

theorem keyed_accounts (id : U128) (a : Account)
    (hl : sm.accounts.lookup id = some a) :
    keyFromValue a = id ∧ !CacheMapSpec.tombstone a :=
  ⟨h.balanced.accountId id a hl, by
    simpa [CacheMapSpec.tombstone] using not_tombstone (h.valid.accounts id a hl)⟩

theorem keyed_transfers (id : U128) (t : Transfer)
    (hl : sm.transfers.lookup id = some t) :
    keyFromValue t = id ∧ !CacheMapSpec.tombstone t :=
  ⟨h.balanced.transferId id t hl, by
    simpa [CacheMapSpec.tombstone] using not_tombstone (h.valid.transfers id t hl)⟩

theorem keyed_pendings (timestamp : Nat) (row : TransferPending)
    (hl : sm.transfersPending.lookup timestamp = some row) :
    keyFromValue row = timestamp ∧ !CacheMapSpec.tombstone row := by
  have ⟨hr, hv⟩ := h.valid.pendings timestamp row hl
  refine ⟨?_, by simpa [CacheMapSpec.tombstone, hr] using not_tombstone hv⟩
  show row.timestamp % _ = timestamp
  rw [hr, mod_of_valid hv]

theorem fill_accounts {keys : List U128} :
    Meets (fun _ => True) (Filled sm.accounts keys sm.accountsObjects)
      (fill sm.accounts keys sm.accountsObjects) :=
  fill_meets h.accountsIdle h.keyed_accounts h.accountsWithin

theorem fill_transfers {keys : List U128} :
    Meets (fun _ => True) (Filled sm.transfers keys sm.transfersObjects)
      (fill sm.transfers keys sm.transfersObjects) :=
  fill_meets h.transfersIdle h.keyed_transfers h.transfersWithin

theorem fill_pendings {keys : List Nat} :
    Meets (fun _ => True) (Filled sm.transfersPending keys sm.transfersPendingObjects)
      (fill sm.transfersPending keys sm.transfersPendingObjects) :=
  fill_meets h.pendingsIdle h.keyed_pendings h.pendingsWithin

-- What holds before a batch of accounts holds after it, if it is kept by each account that is
-- persisted.
theorem persistedAccounts {I : StateMachine → Prop} {events : List Account}
    (ht : timestamp ≤ TimestampRange.timestampMax)
    (hstart : ∀ accountsObjects, I { sm with accountsObjects })
    (hstep : ∀ sm₁ event result index time, event ∈ events →
      createAccount event time none = .ok .created →
      sm₁.ledger.accounts.lookup event.id = none → I sm₁ →
      Meets (fun _ => True) I (persistAccountEvent timestamp events.length index event result sm₁)) :
    Meets (fun _ => True)
      (fun r => I r.2 ∧ Sound r.2 ∧ r.2.ledger.transfer = sm.ledger.transfer ∧
        r.2.transfersOrphaned = sm.transfersOrphaned ∧
        AgreeOn (· ∈ (prefetchCreateAccounts events).accountIds) r.2.accountsObjects.view
          r.2.ledger.account)
      (sm.createAccounts events timestamp) := by
  unfold StateMachine.createAccounts createAccountsPrefetch
  simp only [Meets.bind_eq, Meets.pure_eq, partial_assert]
  intro _
  refine h.fill_accounts.weaken fun objects hf => ?_
  unfold executeCreateAccounts
  let batch := accountsBatch events timestamp sm
  let state : AccountsState := ⟨objects, sm.accountsTimestampMax⟩
  let law := @AccountsBatch.law _ batch ht
  refine Meets.weaken ?_ (law.orchestrate_meets (R := fun _ _ => True)
    (show law.Idle state from hf.idle) (fun _ h => h) (fun _ _ _ _ _ _ => trivial))
  intro loop ⟨hidle, hs⟩
  have hfollows : FollowsAccounts (prefetchCreateAccounts events).accountIds
      (AccountsState.view ⟨objects, sm.accountsTimestampMax⟩) sm.ledger :=
    ⟨h.balanced, h.valid, hf.within, hf.agree⟩
  have hp : ∀ event ∈ events, event.id ∈ (prefetchCreateAccounts events).accountIds :=
    fun event he => mem_foldl_enqueue.mpr (.inr (List.mem_map_of_mem he))
  let sm₀ : StateMachine := { sm with accountsObjects := loop.state.accountsObjects }
  have hpersists := @persistsAccounts _ _ sm₀ _ batch ht hp
  have hkept : law.Persists timestamp events.length events
      (persistAccountEvent timestamp events.length) (fun view sm₁ =>
        (FollowsAccounts (prefetchCreateAccounts events).accountIds view sm₁.ledger ∧
          Keeps sm₀ sm₁ ∧ sm₁.ledger.transfer = sm₀.ledger.transfer ∧
            sm₁.ledger.pending = sm₀.ledger.pending) ∧ I sm₁) := by
    refine ⟨fun index view event result after sm₁ hm hc hs ⟨hf, hi⟩ => ?_,
      fun _ _ _ _ _ ⟨hf, hi⟩ => ⟨hpersists.rewind _ _ _ _ _ hf, hi⟩⟩
    have hkeeps := hpersists.step index view event result after sm₁ hm hc hs hf
    have hs : batch.Step view event _ result after := hs
    have hc : result.status = .created := by simpa [AccountsBatch.orchestrator] using hc
    have hn : sm₁.ledger.accounts.lookup event.id = none :=
      (hf.1.accounts _ (hp event hm)).symm.trans (hs.created hc).1
    have ⟨_, _, _, hcreates⟩ := hs.creates.mp hc
    exact hkeeps.and (hstep sm₁ event result index _ hm hcreates hn hi)
  have hopens : (FollowsAccounts (prefetchCreateAccounts events).accountIds
      (AccountsState.view ⟨objects, sm.accountsTimestampMax⟩) sm₀.ledger ∧ Keeps sm₀ sm₀ ∧
        sm₀.ledger.transfer = sm₀.ledger.transfer ∧ sm₀.ledger.pending = sm₀.ledger.pending) ∧
      I sm₀ := ⟨⟨hfollows, .refl, rfl, rfl⟩, hstart _⟩
  refine (hs.persist hkept (fun _ he => he) hopens).weaken
    fun sm' ⟨⟨h', hk, htr, hpe⟩, hi⟩ =>
      ⟨hi, ?_, htr, hk.orphaned, hk.accountsObjects ▸ h'.accounts⟩
  exact {
    accountsIdle := hk.accountsObjects ▸ hidle
    transfersIdle := hk.transfersObjects ▸ h.transfersIdle
    pendingsIdle := hk.pendingObjects ▸ h.pendingsIdle
    balanced := h'.balanced
    valid := h'.valid
    accountsWithin := hk.accountsObjects ▸ h'.accountsWithin
    transfersWithin := by
      rw [hk.transfersObjects, htr]
      exact h.transfersWithin
    pendingsWithin := by
      rw [hk.pendingObjects, hpe]
      exact h.pendingsWithin
  }

theorem createAccounts {events : List Account}
    (ht : timestamp ≤ TimestampRange.timestampMax) :
    Meets (fun _ => True)
      (fun r => Sound r.2 ∧ r.2.ledger.transfer = sm.ledger.transfer ∧
        r.2.transfersOrphaned = sm.transfersOrphaned ∧
        AgreeOn (· ∈ (prefetchCreateAccounts events).accountIds) r.2.accountsObjects.view
          r.2.ledger.account)
      (sm.createAccounts events timestamp) :=
  (h.persistedAccounts (I := fun _ => True) ht (fun _ => trivial)
    fun _ _ _ _ _ _ _ _ _ => Meets.trivial).weaken fun _ hr => hr.2

end

end Sound

def transfersBatch (events : List Transfer) (timestamp : Nat) (accountTimestamps : List Nat)
    (sm : StateMachine) : TransfersBatch where
  timestamp := timestamp
  imported := events.head?.any fun event => event.flags.imported
  prefetch := prefetchCreateTransfers events fun id => sm.transfers.lookup id
  accountTimestamps := accountTimestamps
  accountTimestampsEnqueued :=
    (prefetchCreateTransfers events fun id => sm.transfers.lookup id).accountTimestamps
  orphaned := sm.transfersOrphaned

def transfersState (sm : StateMachine) : TransfersState where
  accountsObjects := sm.accountsObjects
  transfersObjects := sm.transfersObjects
  transfersPendingObjects := sm.transfersPendingObjects
  runningKeyMax := sm.transfersTimestampMax
  chainKeyMaxSnapshot := none
  workingOrphaned := ∅

-- What holds of each loop of a batch of transfers and of the event that comes next.
def AlongTransfers (sm : StateMachine) (events : List Transfer) (timestamp : Nat)
    (R : TransfersBatch → Loop CreateTransferResult TransfersState → Transfer → Prop) : Prop :=
  ∀ accountTimestamps sm', sm.createTransfersPrefetch
      (prefetchCreateTransfers events fun id => sm.transfers.lookup id) =
        .ok (accountTimestamps, sm') →
    (transfersBatch events timestamp accountTimestamps sm').orchestrator.Along events.length
      timestamp 0 (R (transfersBatch events timestamp accountTimestamps sm')) events
      { results := [], chain := none, chainBroken := false, state := transfersState sm' }

-- A transfer that is posted or voided by a batch, or that it may create.
def Tracks (sm : StateMachine) (events : List Transfer) (id : U128) : Prop :=
  (∃ event ∈ events, event.flags.postOrVoid = true ∧ event.pendingId = id) ∨
    sm.ledger.transfer id = none

-- What a batch of transfers does.
structure Executes (sm : StateMachine) (events : List Transfer) (timestamp : Nat)
    (R : TransfersBatch → Loop CreateTransferResult TransfersState → Transfer → Prop)
    (results : List CreateTransferResult) (sm' : StateMachine) (batch : TransfersBatch)
    (hb : batch.timestamp ≤ TimestampRange.timestampMax) (before after : TransfersView) : Prop where
  timed : batch.timestamp = timestamp
  orphaned : batch.orphaned = sm.transfersOrphaned
  empty : before.orphaned = ∅
  accounts : after.accounts = sm'.accountsObjects.view
  transfers : after.transfers = sm'.transfersObjects.view
  pendings : after.pendings = sm'.transfersPendingObjects.view
  opens : Follows (prefetchCreateTransfers events fun id => sm.transfers.lookup id)
    (sm.Tracks events) before sm.ledger
  segments : (batch.law hb).Segments timestamp events.length (R batch) 0 before events [] results
    after
  closes : Follows (prefetchCreateTransfers events fun id => sm.transfers.lookup id)
    (sm.Tracks events) after sm'.ledger
  other : ∀ id, id ∉ (prefetchCreateTransfers events fun id => sm.transfers.lookup id).transferIds →
    sm'.ledger.transfer id = sm.ledger.transfer id
  poisoned : sm'.transfersOrphaned = (sm.orphan (events.zip results)).transfersOrphaned

variable {events : List Transfer}

omit [Hasher] in
theorem prefetches :
    Prefetches (prefetchCreateTransfers events fun id => sm.transfers.lookup id) (sm.Tracks events)
      events where
  id event he := by
    refine mem_foldl_enqueue.mpr (.inr (List.mem_flatMap.mpr ⟨event, he, ?_⟩))
    split <;> simp
  accounts event he hp := by
    constructor
    all_goals
      refine mem_foldl_enqueue.mpr (.inr (List.mem_flatMap.mpr ⟨event, he, ?_⟩))
      simp [hp]
  pending event he hp := by
    refine ⟨mem_foldl_enqueue.mpr (.inr (List.mem_flatMap.mpr ⟨event, he, ?_⟩)),
      .inl ⟨event, he, hp, rfl⟩⟩
    simp [hp]

-- What the caches are like once the keys of a batch of transfers have been prefetched.
structure Prefetched (sm : StateMachine) (prefetch : TransferPrefetchKeys) (sm' : StateMachine) :
    Prop where
  ledger : sm'.ledger = sm.ledger
  orphaned : sm'.transfersOrphaned = sm.transfersOrphaned
  accounts : Filled sm.accounts prefetch.accountIds sm.accountsObjects sm'.accountsObjects
  transfers : Filled sm.transfers prefetch.transferIds sm.transfersObjects sm'.transfersObjects
  pendings : Filled sm.transfersPending prefetch.pendingTimestamps sm.transfersPendingObjects
    sm'.transfersPendingObjects

theorem Sound.createTransfersPrefetch {prefetch : TransferPrefetchKeys} (h : Sound sm) :
    Meets (fun _ => True) (fun r => Prefetched sm prefetch r.2)
      (sm.createTransfersPrefetch prefetch) := by
  unfold StateMachine.createTransfersPrefetch
  simp only [Meets.bind_eq, Meets.pure_eq]
  refine h.fill_accounts.weaken fun objects h₁ => ?_
  refine h.fill_transfers.weaken fun transfers h₂ => ?_
  exact h.fill_pendings.weaken fun pendings h₃ => ⟨rfl, rfl, h₁, h₂, h₃⟩

theorem Prefetched.prefetch_eq {prefetch : TransferPrefetchKeys} (hp : Prefetched sm prefetch sm')
    (events : List Transfer) : (prefetchCreateTransfers events fun id => sm'.transfers.lookup id) =
      prefetchCreateTransfers events fun id => sm.transfers.lookup id := by
  rw [show sm'.transfers = sm.transfers from congrArg Ledger.transfers hp.ledger]

theorem Prefetched.prefetches {prefetch : TransferPrefetchKeys} (hp : Prefetched sm prefetch sm')
    (events : List Transfer) :
    Prefetches (prefetchCreateTransfers events fun id => sm'.transfers.lookup id) (sm.Tracks events)
      events :=
  hp.prefetch_eq events ▸ StateMachine.prefetches

theorem Prefetched.follows (h : Sound sm)
    (hp : Prefetched sm (prefetchCreateTransfers events fun id => sm.transfers.lookup id) sm') :
    Follows (prefetchCreateTransfers events fun id => sm.transfers.lookup id) (sm.Tracks events)
      (transfersState sm').view sm.ledger where
  balanced := h.balanced
  valid := h.valid
  accountsWithin := hp.accounts.within
  transfersWithin := hp.transfers.within
  pendingsWithin := hp.pendings.within
  accounts := hp.accounts.agree
  transfers := hp.transfers.agree
  pendings := by
    intro id ht p hl _
    obtain ⟨event, he, hr, hid⟩ | hn := ht
    case inr => exact absurd (hn.symm.trans hl) nofun
    have hl : sm.transfers.lookup event.pendingId = some p := hid ▸ hl
    refine ⟨?_, ?_, hp.pendings.agree _ ?_⟩
    all_goals
      refine mem_foldl_enqueue.mpr (.inr (List.mem_flatMap.mpr ⟨event, he, ?_⟩))
      simp [hr, hl]
  rows := hp.pendings.agree
  keyMax := congrArg Ledger.keyMax hp.ledger

theorem Sound.createTransfers
    {R : TransfersBatch → Loop CreateTransferResult TransfersState → Transfer → Prop} (h : Sound sm)
    (ht : timestamp ≤ TimestampRange.timestampMax) (hR : AlongTransfers sm events timestamp R) :
    Meets (fun _ => True)
      (fun r => Sound r.2 ∧ ∃ batch hb before after,
        Executes sm events timestamp R r.1 r.2 batch hb before after)
      (sm.createTransfers events timestamp) := by
  unfold StateMachine.createTransfers
  simp only [Meets.bind_eq, Meets.pure_eq, partial_assert]
  intro _
  refine h.createTransfersPrefetch.returned.weaken fun ⟨accountTimestamps, sm₁⟩ ⟨heq, hp⟩ => ?_
  have hR := hR accountTimestamps sm₁ heq
  have horphaned : sm₁.transfersOrphaned = sm.transfersOrphaned := hp.orphaned
  have hlookup : sm₁.transfers = sm.transfers := congrArg Ledger.transfers hp.ledger
  let batch := transfersBatch events timestamp accountTimestamps sm₁
  let law := @TransfersBatch.law _ batch ht
  unfold executeCreateTransfers
  rw [← hlookup]
  have hidle : law.Idle (transfersState sm₁) := ⟨hp.accounts.idle, hp.transfers.idle, hp.pendings.idle⟩
  refine Meets.weaken ?_ (law.orchestrate_meets hidle (fun _ h => h) hR)
  intro loop ⟨hi, hs⟩
  have hfollows := hp.follows h
  let sm₀ : StateMachine := { sm₁ with
    accountsObjects := loop.state.accountsObjects
    transfersObjects := loop.state.transfersObjects
    transfersPendingObjects := loop.state.transfersPendingObjects }
  let sm₂ := sm₀.orphan (events.zip loop.results)
  have hledger : sm₂.ledger = sm.ledger := hp.ledger
  have hpre := hp.prefetch_eq events
  have hstart : Follows (prefetchCreateTransfers events fun id => sm₁.transfers.lookup id)
      (sm.Tracks events) (transfersState sm₁).view sm₂.ledger ∧ Keeps sm₂ sm₂ ∧
      ∀ id, id ∉ (prefetchCreateTransfers events fun id => sm₁.transfers.lookup id).transferIds →
        sm₂.ledger.transfer id = sm₂.ledger.transfer id :=
    ⟨by rw [hledger, hpre]; exact hfollows, .refl, fun _ _ => rfl⟩
  have hkeys := hp.prefetches events
  have hpersist := hs.persist (@persists _ _ _ sm₂ _ batch ht hkeys) (fun _ he => he) hstart
  refine Meets.weaken ?_ hpersist
  rw [hpre]
  intro sm' ⟨h', hk, hother⟩
  refine ⟨?_, batch, ht, (transfersState sm₁).view, loop.state.view, ?_⟩
  case refine_1 => exact {
    accountsIdle := hk.accountsObjects ▸ hi.accounts
    transfersIdle := hk.transfersObjects ▸ hi.transfers
    pendingsIdle := hk.pendingObjects ▸ hi.pendings
    balanced := h'.balanced
    valid := h'.valid
    accountsWithin := hk.accountsObjects ▸ h'.accountsWithin
    transfersWithin := hk.transfersObjects ▸ h'.transfersWithin
    pendingsWithin := hk.pendingObjects ▸ h'.pendingsWithin
  }
  case refine_2 => exact {
    timed := rfl
    orphaned := hp.orphaned
    empty := rfl
    accounts := hk.accountsObjects ▸ rfl
    transfers := hk.transfersObjects ▸ rfl
    pendings := hk.pendingObjects ▸ rfl
    opens := hfollows
    segments := hs
    closes := h'
    other := fun id hid => (hother id hid).trans (by rw [hledger])
    poisoned := hk.orphaned.trans (by simp [sm₂, sm₀, orphan, horphaned])
  }

omit [Hasher] in
theorem mapM_meets {ε α β : Type} {E : ε → Prop} {Q : β → Prop} {f : α → Except ε β} {xs : List α}
    (h : ∀ x ∈ xs, Meets E Q (f x)) : Meets E (fun ys => ∀ y ∈ ys, Q y) (xs.mapM f) := by
  induction xs with
  | nil => simp
  | cons x xs ih =>
    simp only [List.mapM_cons, Meets.bind_eq, Meets.pure_eq]
    refine (h x (List.mem_cons_self ..)).weaken fun y hy => ?_
    refine (ih fun x hx => h x (List.mem_cons_of_mem _ hx)).weaken fun ys hys => ?_
    exact List.forall_mem_cons.mpr ⟨hy, hys⟩

omit [Hasher] in
theorem expiring_meets {message : String} :
    Meets (fun _ => True)
      (fun due => ∀ x ∈ due, ∀ p, sm.ledger.transfer x.2.2 = some p → p.flags.pending = true)
      (sm.expiring message) := by
  unfold expiring
  simp only [Meets.bind_eq, Meets.pure_eq]
  refine Meets.weaken (Q := fun rows : List (Option (Nat × Nat × U128)) => ∀ row ∈ rows, ∀ x ∈ row,
    ∀ p, sm.ledger.transfer x.2.2 = some p → p.flags.pending = true) ?_ (mapM_meets ?_)
  case refine_1 =>
    intro rows h x hx
    rw [List.mem_mergeSort] at hx
    have ⟨row, hr, he⟩ := List.mem_filterMap.mp hx
    exact h row hr x he
  case refine_2 =>
    intro ⟨timestamp, row⟩ _
    dsimp only
    simp only [Meets.ite_iff, Meets.pure_eq, Meets.bind_eq, partial_assert]
    refine ⟨nofun, fun _ => ?_⟩
    refine expect_meets.weaken fun id _ => expect_meets.weaken fun p hp hpending x hx p' hp' => ?_
    split at hx
    · cases hx
    · cases hx
      obtain rfl : p = p' := Option.some.inj (hp.symm.trans hp')
      exact hpending

theorem Sound.expire {id : U128} (h : Sound sm)
    (hp : ∀ p, sm.ledger.transfer id = some p → p.flags.pending = true) :
    Meets (fun _ => True)
      (fun sm' => Sound sm' ∧ sm'.ledger.transfer = sm.ledger.transfer ∧
        sm'.transfersOrphaned = sm.transfersOrphaned)
      (sm.expire timestamp id) := by
  refine (expire_meets h.balanced hp).weaken
    fun sm' ⟨hb, hk, p, accounts, hl, _, htimestamps, hledger, _⟩ => ⟨?_, ?_, hk.orphaned⟩
  case refine_2 =>
    rw [hledger]
    rfl
  case refine_1 =>
    have hpv := h.valid.transfers _ _ hl
    have hpending : sm'.ledger.pending = Function.update sm.ledger.pending p.timestamp
        (some ⟨p.timestamp, .expired⟩) := by
      rw [hledger]
      exact HashMap.lookup_insert
    have haccount : ∀ id, (sm'.ledger.account id).map Account.timestamp =
        (sm.ledger.account id).map Account.timestamp := by
      intro id
      rw [hledger]
      exact htimestamps id
    exact {
      accountsIdle := hk.accountsObjects ▸ h.accountsIdle
      transfersIdle := hk.transfersObjects ▸ h.transfersIdle
      pendingsIdle := hk.pendingObjects ▸ h.pendingsIdle
      balanced := hb
      valid := {
        accounts := fun id a ha => by
          have := haccount id
          rw [ha, Option.map_some] at this
          have ⟨old, hold, ht⟩ := Option.map_eq_some_iff.mp this.symm
          exact ht ▸ h.valid.accounts id old hold
        transfers := by
          rw [hledger]
          exact h.valid.transfers
        pendings := by
          rw [hpending]
          exact forall_update (P := fun timestamp (row : TransferPending) =>
            row.timestamp = timestamp ∧ timestamp ≤ _) h.valid.pendings ⟨rfl, hpv⟩
      }
      accountsWithin := by
        rw [hk.accountsObjects]
        intro id hn
        have := haccount id
        rw [hn, Option.map_none] at this
        exact h.accountsWithin id (Option.map_eq_none_iff.mp this.symm)
      transfersWithin := by
        rw [hk.transfersObjects, hledger]
        exact h.transfersWithin
      pendingsWithin := by
        rw [hk.pendingObjects, hpending]
        intro timestamp hn
        rw [Function.update_apply] at hn
        split at hn
        · cases hn
        · exact h.pendingsWithin timestamp hn
    }

theorem Sound.expireAll {count index : Nat} {due : List (Nat × Nat × U128)} (h : Sound sm)
    (hp : ∀ x ∈ due, ∀ p, sm.ledger.transfer x.2.2 = some p → p.flags.pending = true) :
    Meets (fun _ => True)
      (fun sm' => Sound sm' ∧ sm'.ledger.transfer = sm.ledger.transfer ∧
        sm'.transfersOrphaned = sm.transfersOrphaned)
      (expireAll timestamp count index due sm) := by
  induction due generalizing index sm with
  | nil => exact ⟨h, rfl, rfl⟩
  | cons x due ih =>
    simp only [StateMachine.expireAll, Meets.bind_eq]
    refine timestampEvent_meets.weaken fun _ _ => ?_
    refine (h.expire (hp x (List.mem_cons_self ..))).weaken fun sm₁ ⟨h₁, ht₁, ho₁⟩ => ?_
    refine (ih h₁ fun y hy => ht₁ ▸ hp y (List.mem_cons_of_mem _ hy)).weaken
      fun sm₂ ⟨h₂, ht₂, ho₂⟩ => ⟨h₂, ht₂.trans ht₁, ho₂.trans ho₁⟩

theorem Sound.expirePendingTransfers (h : Sound sm) :
    Meets (fun _ => True)
      (fun sm' => Sound sm' ∧ sm'.ledger.transfer = sm.ledger.transfer ∧
        sm'.transfersOrphaned = sm.transfersOrphaned)
      (sm.expirePendingTransfers timestamp) := by
  unfold StateMachine.expirePendingTransfers
  simp only [Meets.bind_eq, partial_assert]
  intro _ _
  refine expiring_meets.weaken fun due hdue => ?_
  refine (h.expireAll fun x hx => hdue x (List.mem_filter.mp hx).1).weaken
    fun sm₁ ⟨h₁, ht₁, ho₁⟩ => ?_
  refine updatePulseNextTimestamp_meets.weaken fun sm₂ ⟨hl, hk⟩ => ⟨?_, ?_, ?_⟩
  · exact ⟨hk.accountsObjects ▸ h₁.accountsIdle, hk.transfersObjects ▸ h₁.transfersIdle,
      hk.pendingObjects ▸ h₁.pendingsIdle, hl ▸ h₁.balanced, hl ▸ h₁.valid,
      by rw [hk.accountsObjects, hl]; exact h₁.accountsWithin,
      by rw [hk.transfersObjects, hl]; exact h₁.transfersWithin,
      by rw [hk.pendingObjects, hl]; exact h₁.pendingsWithin⟩
  · rw [hl, ht₁]
  · rw [hk.orphaned, ho₁]

theorem sound_default : Sound default where
  accountsIdle := CacheMap.idle_new
  transfersIdle := CacheMap.idle_new
  pendingsIdle := CacheMap.idle_new
  balanced := {
    accountId := nofun
    room := nofun
    limited := nofun
    transferId := nofun
    timestamp := nofun
    distinct := nofun
    keyMax := nofun
    parties := nofun
    rows := nofun
    debits := fun _ => rfl
    credits := fun _ => rfl
    posted := fun _ => rfl
    pending := fun _ => rfl
  }
  valid := ⟨nofun, nofun, nofun⟩
  accountsWithin := fun _ _ => CacheMap.view_new
  transfersWithin := fun _ _ => CacheMap.view_new
  pendingsWithin := fun _ _ => CacheMap.view_new

-- The timestamp of a call is a valid one.
def Timely (_ : StateMachine) (call : Call) : Prop :=
  TimestampRange.valid call.timestamp

theorem Sound.step {call : Call} (h : Sound sm) (ht : Timely sm call)
    (hstep : machine.step sm call = .ok sm') : Sound sm' := by
  have ht : TimestampRange.valid call.timestamp := ht
  cases call with
  | createAccounts events timestamp =>
    have ⟨r, hr, he⟩ := bind_eq_ok.mp hstep
    cases he
    exact ((h.createAccounts ht.2).post hr).1
  | createTransfers events timestamp =>
    have ⟨r, hr, he⟩ := bind_eq_ok.mp hstep
    cases he
    exact ((h.createTransfers (R := fun _ _ _ => True) ht.2
      fun _ _ _ _ _ _ _ _ _ => trivial).post hr).1
  | expirePendingTransfers timestamp => exact (h.expirePendingTransfers.post hstep).1

theorem sound_of_reachable (h : machine.Reachable Timely sm) : Sound sm :=
  h.invariant (fun _ hi => hi ▸ sound_default) fun _ _ _ h => h.step

-- What is debited in a ledger is what is credited in it.
theorem double_entry (h : machine.Reachable Timely sm) (ledger : Nat) :
    Ledger.balance sm.accounts Account.debitsPosted ledger =
        Ledger.balance sm.accounts Account.creditsPosted ledger ∧
      Ledger.balance sm.accounts Account.debitsPending ledger =
        Ledger.balance sm.accounts Account.creditsPending ledger :=
  have hb := (sound_of_reachable h).balanced
  ⟨hb.posted ledger, hb.pending ledger⟩

end StateMachine

namespace StateMachine.Runs

open Accounting.Runs

attribute [local instance] identityHasher

instance {sm : StateMachine} {call : Call} : Decidable (Timely sm call) :=
  inferInstanceAs (Decidable (TimestampRange.valid call.timestamp))

-- Two accounts, a transfer from the one to the other and a pending transfer back.
def accounts : Call :=
  .createAccounts [account 1 0 1 0, account 2 0 1 0] 100

def transfers : Call :=
  .createTransfers [transfer 1 1 2 0, transfer 2 2 1 2] 200

-- What has been transferred is debited, and it is credited as well.
theorem double_entry_of_transfers : ∃ sm, machine.Reachable Timely sm ∧
    Ledger.balance sm.accounts Account.debitsPosted 1 = 1 ∧
    Ledger.balance sm.accounts Account.debitsPending 1 = 1 ∧
    Ledger.balance sm.accounts Account.debitsPosted 1 =
      Ledger.balance sm.accounts Account.creditsPosted 1 ∧
    Ledger.balance sm.accounts Account.debitsPending 1 =
      Ledger.balance sm.accounts Account.creditsPending 1 := by
  have ⟨sm, hr, hp, hq⟩ := (Machine.Reachable.init rfl).leads (show machine.Leads Timely
    (fun sm => Ledger.balance sm.accounts Account.debitsPosted 1 = 1 ∧
      Ledger.balance sm.accounts Account.debitsPending 1 = 1) [accounts, transfers] default
    by decide +kernel)
  exact ⟨sm, hr, hp, hq, double_entry hr 1⟩

end StateMachine.Runs

end TigerBeetle.Accounting
