import TigerBeetle.Accounting.Batch
import TigerBeetle.Theorems.CacheMap
import TigerBeetle.Theorems.LinkedChain

namespace TigerBeetle.Accounting

open Fallible Orchestrator

theorem createAccountExists_meets {a e : Account} :
    Meets (fun _ => True)
      (fun status => status ≠ .created ∧ status ≠ .linkedEventChainOpen)
      (createAccountExists a e) := by
  unfold createAccountExists
  simp [Meets.ite_iff]

theorem createAccount_meets {a : Account} {timestampEvent : Nat} {existing : Option Account} :
    Meets (fun _ => True)
      (fun status => status ≠ .linkedEventChainOpen ∧ (status = .created →
        existing = none ∧ a.debitsPending = 0 ∧ a.debitsPosted = 0 ∧ a.creditsPending = 0 ∧
          a.creditsPosted = 0))
      (createAccount a timestampEvent existing) := by
  unfold createAccount
  cases existing with
  | some e =>
    simp [Meets.ite_iff]
    intros
    exact createAccountExists_meets.weaken fun _ ⟨h₁, h₂⟩ => ⟨h₂, h₁⟩
  | none =>
    simp [Meets.ite_iff]
    tauto

-- The part of the state that the events of a batch are validated against.
structure AccountsView where
  accounts : U128 → Option Account
  keyMax : Nat

namespace AccountsView

def insert (view : AccountsView) (account : Account) : AccountsView where
  accounts := Function.update view.accounts account.id (some account)
  keyMax := max view.keyMax account.timestamp

end AccountsView

variable {timestamp : Nat}

theorem not_tombstone (h : timestamp ≤ TimestampRange.timestampMax) :
    timestamp.testBit tombstoneBit = false :=
  Nat.testBit_lt_two_pow (by unfold TimestampRange.timestampMax tombstoneBit at *; omega)

variable {event : Account}

namespace AccountsBatch

variable {batch : AccountsBatch}

-- Whether an event creates an account.
def Creates (batch : AccountsBatch) (view : AccountsView) (event : Account) (timestamp : Nat) : Prop :=
  batch.reject event = none ∧ view.accounts event.id = none ∧
    ¬(event.flags.imported = true ∧
      (event.timestamp ≤ view.keyMax ∨ event.timestamp ∈ batch.transferTimestamps)) ∧
    createAccount event timestamp none = .ok .created

-- The timestamp that an account is created with.
def timestampActual (event : Account) (timestamp : Nat) : Nat :=
  if event.flags.imported then event.timestamp else timestamp

-- The effect of an event: a created account is inserted, and one that is not has none.
structure Step (batch : AccountsBatch) (before : AccountsView) (event : Account) (timestamp : Nat)
    (result : CreateAccountResult) (after : AccountsView) : Prop where
  closed : result.status ≠ .linkedEventChainOpen
  creates : result.status = .created ↔ batch.Creates before event timestamp
  created : result.status = .created →
    before.accounts event.id = none ∧
    event.debitsPending = 0 ∧ event.debitsPosted = 0 ∧ event.creditsPending = 0 ∧
    event.creditsPosted = 0 ∧
    result.timestamp = timestampActual event timestamp ∧
    result.timestamp ≤ TimestampRange.timestampMax ∧
    after = before.insert { event with timestamp := result.timestamp }
  failed : result.status ≠ .created → after = before

theorem reject_ne {status : CreateAccountStatus}
    (h : batch.reject event = some status) : status ≠ .created ∧ status ≠ .linkedEventChainOpen := by
  unfold reject at h
  simp at h
  grind

theorem lt_of_reject (h : batch.reject event = none)
    (hi : event.flags.imported = true) : event.timestamp < batch.timestamp := by
  unfold reject at h
  simp [hi] at h
  grind

end AccountsBatch

variable [Hasher]

def AccountsState.view (state : AccountsState) : AccountsView where
  accounts := state.accountsObjects.view
  keyMax := state.runningKeyMax

namespace AccountsBatch

variable {batch : AccountsBatch}

omit [Hasher] in
theorem regresses_meets {runningKeyMax : Nat}
    {existing : Option Account} :
    Meets (fun _ => True)
      (fun regressed => regressed = true ↔ existing = none ∧ event.flags.imported = true ∧
        (event.timestamp ≤ runningKeyMax ∨ event.timestamp ∈ batch.transferTimestamps))
      (batch.regresses event timestamp runningKeyMax existing) := by
  unfold regresses
  simp only [Meets.bind_eq, Meets.ite_iff, Meets.pure_eq, partial_assert]
  grind

theorem execute_meets {P : AccountObjectsCache → Prop} (hu : CacheMap.Usable P)
    {state : AccountsState} (hp : P state.accountsObjects)
    (ht : timestamp ≤ batch.timestamp) (hb : batch.timestamp ≤ TimestampRange.timestampMax) :
    Meets (fun _ => True)
      (fun (r : CreateAccountResult × AccountsState) =>
        P r.2.accountsObjects ∧ batch.Step state.view event timestamp r.1 r.2.view)
      (batch.execute event timestamp state) := by
  unfold execute
  cases hr : batch.reject event with
  | some status =>
    obtain ⟨h₁, h₂⟩ := reject_ne hr
    have hn : ¬batch.Creates state.view event timestamp := fun hc => by simp [hr, Creates] at hc
    exact ⟨hp, h₂, iff_of_false h₁ hn, fun h => absurd h h₁, fun _ => rfl⟩
  | none =>
    have hg := hu.get _ event.id hp
    have hfst := hu.get_fst event.id hp
    have hview := hu.view_get event.id hp
    -- Nothing but reference counts has changed.
    have hsame : ∀ status ts, status ≠ .linkedEventChainOpen → status ≠ .created →
        ¬batch.Creates state.view event timestamp →
        P (state.accountsObjects.get event.id).2 ∧
          batch.Step state.view event timestamp ⟨status, ts⟩
            { state with accountsObjects := (state.accountsObjects.get event.id).2 :
              AccountsState }.view := by
      intro status ts h₁ h₂ hn
      refine ⟨hg, h₁, iff_of_false h₂ hn, fun h => absurd h h₂, fun _ => ?_⟩
      simp [AccountsState.view, hview]
    simp only [Meets.bind_eq, partial_assert, Meets.ite_iff, Meets.pure_eq]
    intro _
    refine regresses_meets.weaken fun regressed hreg => ⟨fun h => ?_, fun h => ?_⟩
    case refine_1 =>
      exact hsame _ _ (fun h => by cases h) (fun h => by cases h) fun hc => hc.2.2.1 (hreg.mp h).2
    case refine_2 =>
    refine createAccount_meets.returned.weaken fun status hstatus => ?_
    obtain ⟨heq, h₁, h₂⟩ := hstatus
    -- Whether the account is created is a matter of the last check.
    have hiff : status = .created ↔ batch.Creates state.view event timestamp := by
      constructor
      case mp =>
        intro hc
        obtain ⟨hn, _⟩ := h₂ hc
        refine ⟨hr, hfst.symm.trans hn, fun hi => h (hreg.mpr ⟨hn, hi⟩), ?_⟩
        rw [← hn, heq, hc]
      case mpr =>
        intro hc
        have hn : (state.accountsObjects.get event.id).1 = none := hfst.trans hc.2.1
        rw [hn, hc.2.2.2] at heq
        exact (Except.ok.inj heq).symm
    refine ⟨fun hc => ?_, fun hc => ⟨fun he => ?_, fun _ => ?_⟩⟩
    · obtain ⟨hn, hz⟩ := h₂ hc
      have hts : (if event.flags.imported then event.timestamp else timestamp) ≤
          TimestampRange.timestampMax := by
        split
        · next hi =>
          have := lt_of_reject hr hi
          omega
        · omega
      have htomb := not_tombstone hts
      refine (hu.upsert _ { event with
        timestamp := if event.flags.imported then event.timestamp else timestamp } hg
        (by simpa [CacheMapSpec.tombstone] using htomb)).weaken fun objects hobjects => ?_
      obtain ⟨hp', hv⟩ := hobjects
      refine ⟨hp', h₁, hiff, fun _ => ⟨hfst.symm.trans hn, hz.1, hz.2.1, hz.2.2.1, hz.2.2.2, rfl,
        hts, ?_⟩, fun h => absurd hc h⟩
      simp only [AccountsState.view, AccountsView.insert, hv, hview]
      rfl
    · cases (state.accountsObjects.get event.id).1 with
      | some existing => exact hsame _ _ h₁ hc (mt hiff.mpr hc)
      | none => trivial
    · exact hsame _ _ h₁ hc (mt hiff.mpr hc)

-- The law of the accounts' orchestrator. A discarded scope leaves the key range as it is.
def law (hb : batch.timestamp ≤ TimestampRange.timestampMax) :
    batch.orchestrator.Law AccountsView where
  view := AccountsState.view
  Idle state := state.accountsObjects.Idle
  Scoped opened state := state.accountsObjects.Scoped opened.accounts
  Valid timestamp := timestamp ≤ batch.timestamp
  Step := batch.Step
  orphaned _ _ view := view
  rewind opened current := { opened with keyMax := current.keyMax }
  not_created_chainOpen _ := rfl
  not_created_linkedFailed _ := rfl
  not_created_markFailed _ := rfl
  isChainOpen_chainOpen _ := rfl
  isChainOpen_linkedFailed _ := rfl
  not_chainOpen_of_created r h := by
    simp only [orchestrator, decide_eq_true_eq] at h
    simp [orchestrator, h]
  orphaned_chainOpen _ _ _ := rfl
  orphaned_linkedFailed _ _ _ := rfl
  rewind_self _ _ _ := rfl
  step_of_not_created _ _ _ _ _ h hc := h.failed (by simpa [orchestrator] using hc)
  not_chainOpen_of_step _ _ _ _ _ h := by simpa [orchestrator] using h.closed
  scopeOpen state h := by
    simp only [orchestrator, Meets.bind_eq, Meets.pure_eq]
    refine h.scopeOpen.weaken fun objects ⟨hs, hv⟩ => ⟨hs, ?_⟩
    simp [AccountsState.view, hv]
  execute _ _ _ ht h := execute_meets CacheMap.usable_idle h ht hb
  execute' _ _ _ _ ht h := execute_meets CacheMap.usable_scoped h ht hb
  orphan _ _ _ h := h
  orphan' _ _ _ _ h := h
  view_orphan _ _ _ := rfl
  discard opened state h := by
    simp only [orchestrator, Meets.bind_eq, Meets.pure_eq]
    refine h.discard.weaken fun objects ⟨hs, hv⟩ => ⟨hs, ?_⟩
    simp [AccountsState.view, hv]
  persist opened state h := by
    simp only [orchestrator, Bool.false_eq_true, ↓reduceIte, Meets.bind_eq, Meets.pure_eq]
    refine h.persist.weaken fun objects ⟨hs, hv⟩ => ⟨hs, ?_⟩
    simp [AccountsState.view, hv]
  abandon state h := ⟨h, rfl⟩

end AccountsBatch

end TigerBeetle.Accounting
