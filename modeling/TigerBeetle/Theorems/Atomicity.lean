import TigerBeetle.Theorems.Transfers

namespace TigerBeetle.Accounting

open Fallible Orchestrator Orchestrator.Law

variable {ε ρ σ α : Type} {o : Orchestrator ε ρ σ}

-- A linked chain of a batch that breaks, from when it opens to when it has closed.
structure BrokenChain (o : Orchestrator ε ρ σ) (timestamp : Nat) (state : σ)
    (before chain after : List ε) (opened closed : Loop ρ σ) : Prop where
  fresh : ∀ last ∈ before.getLast?, o.linked last = false
  linked : ∀ first ∈ chain.head?, o.linked first = true
  segment : o.Segment chain after
  opens : o.run (before ++ chain ++ after).length timestamp 0 before
    { results := [], chain := none, chainBroken := false, state } = .ok opened
  closes : o.run (before ++ chain ++ after).length timestamp before.length chain opened =
    .ok closed
  breaks : ∃ result ∈ closed.results.drop before.length, o.created result = false

namespace BrokenChain

variable {timestamp : Nat} {state : σ} {before chain after : List ε} {opened closed : Loop ρ σ}

theorem count_le (h : BrokenChain o timestamp state before chain after opened closed) :
    (before ++ chain ++ after).length ≤ timestamp := by
  have ⟨body, last, he, _⟩ := h.segment
  exact (run_meets_count (by simp [he])).post h.closes

-- What a broken chain does in terms of a view of the state.
theorem broken (h : BrokenChain o timestamp state before chain after opened closed) (law : o.Law α)
    (hi : law.Idle state)
    (hv : ∀ t ≤ timestamp, law.Valid t) :
    law.Idle opened.state ∧ law.Idle closed.state ∧ ∃ results,
      law.Broken timestamp (before ++ chain ++ after).length (fun _ _ => True) before.length
        (law.view opened.state) chain results (law.view closed.state) := by
  have hle := h.count_le
  have hv : ∀ index < (before ++ chain ++ after).length,
      law.Valid (stamp timestamp (before ++ chain ++ after).length index) :=
    fun index hlt => hv _ (by unfold stamp; omega)
  have hfresh : o.Closed before (chain ++ after) := fun last hl hlinked => by
    simp [h.fresh last hl] at hlinked
  have hout : law.Outside (law.view state) []
      { results := [], chain := none, chainBroken := false, state } := ⟨rfl, rfl, hi, rfl, rfl⟩
  have ⟨results, hopened, hseg⟩ := (hout.run (R := fun _ _ => True) hv (fun _ _ _ _ _ _ => trivial) hfresh
    (by simp)).post h.opens
  have hlen := hseg.length_eq
  rw [List.nil_append] at hopened
  have hrun := hopened.segment (R := fun _ _ => True) hv (fun _ _ _ _ _ _ => trivial)
    h.segment (by simp [hlen, Nat.add_assoc])
  rw [hlen] at hrun
  have ⟨results', hclosed, houtcome⟩ := hrun.post h.closes
  refine ⟨hopened.idle, hclosed.idle, results', ?_⟩
  cases houtcome with
  | inr hbroken => exact hlen ▸ hbroken
  | inl htrace =>
    -- A chain whose events are all created does not break.
    have ⟨result, hm, hc⟩ := h.breaks
    rw [hclosed.results, ← hlen, List.drop_left] at hm
    simp [htrace.1.created result hm] at hc

end BrokenChain

namespace AccountsBatch

variable (batch : AccountsBatch) (count bound : Nat)

-- Whether the events of a chain create an account with a timestamp after `bound`, before one of
-- them is not created.
def Raises : (index : Nat) → AccountsView → List Account → Prop
  | _, _, [] => False
  | index, view, event :: events =>
    ¬(events = [] ∧ event.flags.linked = true) ∧
      batch.Creates view event (stamp batch.timestamp count index) ∧
      (bound < timestampActual event (stamp batch.timestamp count index) ∨
        Raises (index + 1)
          (view.insert { event with
            timestamp := timestampActual event (stamp batch.timestamp count index) }) events)

variable {batch count bound} {hb : batch.timestamp ≤ TimestampRange.timestampMax} {index : Nat}
    {view current : AccountsView} {created rest : List Account} {results : List CreateAccountResult}

theorem keyMax_le_of_trace [Hasher]
    (h : (batch.law hb).Trace batch.timestamp count index view created results current) :
    view.keyMax ≤ current.keyMax := by
  induction created generalizing index view results with
  | nil =>
    cases results with
    | nil      => exact h ▸ le_rfl
    | cons _ _ => cases h
  | cons event created ih =>
    cases results with
    | nil => cases h
    | cons result results =>
      have ⟨_, hs, hc, h⟩ := h
      have hs : batch.Step _ _ _ _ _ := hs
      have ⟨_, _, _, _, _, _, _, ha⟩ := hs.created (by simpa [orchestrator] using hc)
      have := ih h
      subst ha
      simp only [AccountsView.insert] at this
      omega

-- What is created raises the key range, and what comes after it does not.
theorem raises_of_trace [Hasher]
    (h : (batch.law hb).Trace batch.timestamp count index view created results current)
    (hr : rest ≠ []) (hn : ¬batch.Raises count bound (index + created.length) current rest) :
    bound < current.keyMax ↔
      bound < view.keyMax ∨ batch.Raises count bound index view (created ++ rest) := by
  induction created generalizing index view results with
  | nil =>
    cases results with
    | nil =>
      cases h
      exact (or_iff_left (by simpa using hn)).symm
    | cons _ _ => cases h
  | cons event created ih =>
    cases results with
    | nil => cases h
    | cons result results =>
      have ⟨after, hs, hc, h⟩ := h
      have hs : batch.Step _ _ _ _ _ := hs
      have hc : result.status = .created := by simpa [orchestrator] using hc
      have ⟨_, _, _, _, _, ht, _, ha⟩ := hs.created hc
      have hcreates := hs.creates.mp hc
      rw [ht] at ha
      subst ha
      rw [ih h (by simpa [Nat.add_assoc, Nat.add_comm 1] using hn)]
      simp [Raises, hr, hcreates, AccountsView.insert, or_assoc]

theorem not_raises_of_breaks [Hasher] {b : AccountsView} {chain : List Account} {event : Account}
    {rs failed : List CreateAccountResult} {result : CreateAccountResult}
    (h : (batch.law hb).Breaks batch.timestamp count (fun _ _ => True) index view chain rs b created
      results current event result rest failed) :
    ¬batch.Raises count bound (index + created.length) current (event :: rest) := by
  intro ⟨hopen, hcreates, _⟩
  cases h.step with
  | inr hl => exact hopen ⟨hl.1, hl.2.1⟩
  | inl hs =>
    have hs : batch.Step _ _ _ _ _ := hs.2
    have hn := h.not_created
    simp [orchestrator, hs.creates.mpr hcreates] at hn

end AccountsBatch

theorem TransfersBatch.orphaned_of_trace [Hasher] {batch : TransfersBatch}
    {hb : batch.timestamp ≤ TimestampRange.timestampMax} {count index : Nat}
    {view current : TransfersView} {created : List Transfer} {results : List CreateTransferResult}
    (h : (batch.law hb).Trace batch.timestamp count index view created results current) :
    view.orphaned = current.orphaned := by
  induction created generalizing index view results with
  | nil =>
    cases results with
    | nil      => exact h ▸ rfl
    | cons _ _ => cases h
  | cons event created ih =>
    cases results with
    | nil => cases h
    | cons result results =>
      have ⟨_, hs, hc, h⟩ := h
      have hs : batch.Step _ _ _ _ _ := hs
      rw [← ih h, hs.orphaned_eq]

section Restored

variable [Hasher]

-- What later events are validated against is the same.
structure AccountsState.Restored (opened closed : AccountsState) : Prop where
  accounts : ∀ id, (closed.accountsObjects.get id).1 = (opened.accountsObjects.get id).1
  keyMax : closed.runningKeyMax = opened.runningKeyMax

-- What later events are validated against is the same, but for further poisoned ids.
structure TransfersState.Restored (opened closed : TransfersState) : Prop where
  accounts : ∀ id, (closed.accountsObjects.get id).1 = (opened.accountsObjects.get id).1
  transfers : ∀ id, (closed.transfersObjects.get id).1 = (opened.transfersObjects.get id).1
  pendings : ∀ timestamp, (closed.transfersPendingObjects.get timestamp).1 =
    (opened.transfersPendingObjects.get timestamp).1
  keyMax : closed.runningKeyMax = opened.runningKeyMax
  orphaned : opened.workingOrphaned ⊆ closed.workingOrphaned

namespace BrokenChain

theorem accounts_restored_iff {batch : AccountsBatch} {state : AccountsState}
    {before chain after : List Account} {opened closed : Loop CreateAccountResult AccountsState}
    (h : BrokenChain batch.orchestrator batch.timestamp state before chain after opened closed)
    (hb : batch.timestamp ≤ TimestampRange.timestampMax) (hi : state.accountsObjects.Idle) :
    opened.state.Restored closed.state ↔
      ¬batch.Raises (before ++ chain ++ after).length opened.state.runningKeyMax before.length
        opened.state.view chain := by
  have ⟨ho, hc, _, _, _, current, _, _, _, _, hbreaks⟩ :=
    h.broken (batch.law hb) hi fun _ ht => ht
  have hview : closed.state.view = { opened.state.view with keyMax := current.keyMax } :=
    hbreaks.view_eq
  have hle : opened.state.runningKeyMax ≤ current.keyMax :=
    AccountsBatch.keyMax_le_of_trace hbreaks.trace
  have hraises : opened.state.runningKeyMax < current.keyMax ↔ _ :=
    AccountsBatch.raises_of_trace hbreaks.trace (List.cons_ne_nil _ _)
      (AccountsBatch.not_raises_of_breaks hbreaks)
  rw [← hbreaks.events_eq] at hraises
  have hkey : closed.state.runningKeyMax = current.keyMax := congrArg AccountsView.keyMax hview
  constructor
  case mp =>
    intro hr hn
    have : opened.state.runningKeyMax < current.keyMax := hraises.mpr (.inr hn)
    have := hr.keyMax
    omega
  case mpr =>
    intro hn
    have hlt : ¬opened.state.runningKeyMax < current.keyMax := fun hlt =>
      (hraises.mp hlt).elim (lt_irrefl _) hn
    exact ⟨fun _ => ho.get_eq hc (congrArg AccountsView.accounts hview), by omega⟩

theorem transfers_restored {batch : TransfersBatch} {state : TransfersState}
    {before chain after : List Transfer} {opened closed : Loop CreateTransferResult TransfersState}
    (h : BrokenChain batch.orchestrator batch.timestamp state before chain after opened closed)
    (hb : batch.timestamp ≤ TimestampRange.timestampMax)
    (hi : Caches CacheMap.Idle CacheMap.Idle CacheMap.Idle state) :
    opened.state.Restored closed.state := by
  have ⟨ho, hc, _, _, _, current, event, result, _, _, hbreaks⟩ :=
    h.broken (batch.law hb) hi fun _ ht => ht
  have horphaned : opened.state.view.orphaned ⊆ current.orphaned :=
    (TransfersBatch.orphaned_of_trace hbreaks.trace).le
  have hview : closed.state.view = { opened.state.view with
      orphaned := ((batch.law hb).orphaned event result current).orphaned } := hbreaks.view_eq
  exact {
    accounts := fun _ => ho.accounts.get_eq hc.accounts (congrArg TransfersView.accounts hview)
    transfers := fun _ => ho.transfers.get_eq hc.transfers (congrArg TransfersView.transfers hview)
    pendings := fun _ => ho.pendings.get_eq hc.pendings (congrArg TransfersView.pendings hview)
    keyMax := congrArg TransfersView.keyMax hview
    orphaned := by
      have hclosed : closed.state.workingOrphaned = _ := congrArg TransfersView.orphaned hview
      rw [hclosed]
      refine horphaned.trans ?_
      simp only [TransfersBatch.law]
      split
      · exact Finset.subset_insert _ _
      · exact Finset.Subset.refl _
  }

end BrokenChain

-- A broken chain of transfers leaves no trace but poisoned ids. One of accounts leaves none if it
-- has created no account with a timestamp after the key range.
theorem restored_iff :
    (∀ (batch : AccountsBatch) (state : AccountsState) (before chain after : List Account)
      (opened closed : Loop CreateAccountResult AccountsState),
      batch.timestamp ≤ TimestampRange.timestampMax → state.accountsObjects.Idle →
      BrokenChain batch.orchestrator batch.timestamp state before chain after opened closed →
      (opened.state.Restored closed.state ↔
        ¬batch.Raises (before ++ chain ++ after).length opened.state.runningKeyMax before.length
          opened.state.view chain)) ∧
    ∀ (batch : TransfersBatch) (state : TransfersState) (before chain after : List Transfer)
      (opened closed : Loop CreateTransferResult TransfersState),
      batch.timestamp ≤ TimestampRange.timestampMax →
      Caches CacheMap.Idle CacheMap.Idle CacheMap.Idle state →
      BrokenChain batch.orchestrator batch.timestamp state before chain after opened closed →
      opened.state.Restored closed.state :=
  ⟨fun _ _ _ _ _ _ _ hb hi h => h.accounts_restored_iff hb hi,
    fun _ _ _ _ _ _ _ hb hi h => h.transfers_restored hb hi⟩

end Restored

namespace Runs

local instance identityHasher : Hasher := ⟨id⟩

def account (id : Nat) (flags : BitVec 16) (code timestamp : Nat) : Account where
  id := id
  debitsPending := 0
  debitsPosted := 0
  creditsPending := 0
  creditsPosted := 0
  userData128 := 0
  userData64 := 0
  userData32 := 0
  reserved := 0
  ledger := 1
  code := code
  flags := ⟨flags⟩
  timestamp := timestamp

def transfer (id debit credit : Nat) (flags : BitVec 16) : Transfer where
  id := id
  debitAccountId := debit
  creditAccountId := credit
  amount := 1
  pendingId := 0
  userData128 := 0
  userData64 := 0
  userData32 := 0
  timeout := 0
  ledger := 1
  code := 1
  flags := ⟨flags⟩
  timestamp := 0

def options : CacheMapOptions := ⟨256, 1024, 32⟩

def accountsBatch (events : List Account) : AccountsBatch where
  timestamp := 100
  imported := events.head?.any fun event => event.flags.imported
  prefetch := prefetchCreateAccounts events
  transferTimestamps := []

def transfersBatch (events : List Transfer) : TransfersBatch where
  timestamp := 100
  imported := events.head?.any fun event => event.flags.imported
  prefetch := prefetchCreateTransfers events fun _ => none
  accountTimestamps := []
  accountTimestampsEnqueued := []
  orphaned := ∅

def accountsState : AccountsState := ⟨.new options, 0⟩

def transfersState : TransfersState := ⟨.new options, .new options, .new options, 0, none, ∅⟩

-- A chain that breaks before an account has been created, and one whose first transfer is undone.
def brokenAccounts : List Account := [account 1 1 0 0, account 2 0 1 0]

def brokenTransfers : List Transfer := [transfer 1 7 8 1, transfer 2 7 9 0]

def fundedAccounts : Result AccountObjectsCache := do
  let accounts ← (CacheMap.new options).upsert (account 7 0 1 7)
  accounts.upsert (account 8 0 1 8)

theorem idle_funded {accounts : AccountObjectsCache} (h : fundedAccounts = .ok accounts) :
    accounts.Idle := by
  obtain ⟨_, h₁, h₂⟩ := bind_eq_ok.mp h
  have hidle := (CacheMap.idle_new.upsert rfl).post h₁
  exact ((hidle.1.upsert rfl).post h₂).1

-- The caches are not to be evaluated where the run is only named.
@[irreducible]
def brokenRun : Result (AccountObjectsCache × Loop CreateTransferResult TransfersState) := do
  let accounts ← fundedAccounts
  let closed ← (transfersBatch brokenTransfers).orchestrator.run 2 100 0 brokenTransfers
    ⟨[], none, false, { transfersState with accountsObjects := accounts }⟩
  return (accounts, closed)

theorem brokenRun_meets : Meets (fun _ => False) (fun r => ∃ result ∈ r.2.results.drop 0,
    (transfersBatch brokenTransfers).orchestrator.created result = false) brokenRun := by
  decide +kernel

theorem restored_of_broken :
    (∃ closed, BrokenChain (accountsBatch brokenAccounts).orchestrator 100 accountsState []
      brokenAccounts [] ⟨[], none, false, accountsState⟩ closed ∧
      accountsState.Restored closed.state) ∧
    ∃ accounts closed, fundedAccounts = .ok accounts ∧
      let state := { transfersState with accountsObjects := accounts }
      BrokenChain (transfersBatch brokenTransfers).orchestrator 100 state [] brokenTransfers []
        ⟨[], none, false, state⟩ closed ∧ state.Restored closed.state := by
  constructor
  case left =>
    have ⟨closed, hrun, hb⟩ := Meets.iff_exists.mp (show Meets (fun _ => False)
      (fun (closed : Loop CreateAccountResult AccountsState) => ∃ result ∈ closed.results.drop 0,
        (accountsBatch brokenAccounts).orchestrator.created result = false)
      ((accountsBatch brokenAccounts).orchestrator.run 2 100 0 brokenAccounts
        ⟨[], none, false, accountsState⟩) by decide)
    have hchain : BrokenChain (accountsBatch brokenAccounts).orchestrator 100 accountsState []
        brokenAccounts [] ⟨[], none, false, accountsState⟩ closed :=
      ⟨nofun, by decide, ⟨[account 1 1 0 0], account 2 0 1 0, rfl, by decide, fun _ => rfl⟩, rfl,
        hrun, hb⟩
    refine ⟨closed, hchain, ?_⟩
    refine (restored_iff.1 (accountsBatch brokenAccounts) _ _ _ _ _ _ (by decide) CacheMap.idle_new
      hchain).mpr ?_
    intro ⟨_, ⟨_, _, _, hc⟩, _⟩
    exact absurd hc (by decide)
  case right =>
    have hmeets := brokenRun_meets
    rw [Meets.iff_exists] at hmeets
    obtain ⟨⟨accounts, closed⟩, hrun, hb⟩ := hmeets
    unfold brokenRun at hrun
    obtain ⟨_, hfunded, hrun⟩ := bind_eq_ok.mp hrun
    obtain ⟨_, hrun, heq⟩ := bind_eq_ok.mp hrun
    cases heq
    refine ⟨accounts, closed, hfunded, ?_⟩
    intro state
    have hchain : BrokenChain (transfersBatch brokenTransfers).orchestrator 100 state [] brokenTransfers
        [] ⟨[], none, false, state⟩ closed :=
      ⟨nofun, by decide, ⟨[transfer 1 7 8 1], transfer 2 7 9 0, rfl, by decide, fun _ => rfl⟩, rfl,
        hrun, hb⟩
    exact ⟨hchain, restored_iff.2 (transfersBatch brokenTransfers) _ _ _ _ _ _ (by decide)
      ⟨idle_funded hfunded, CacheMap.idle_new, CacheMap.idle_new⟩ hchain⟩

-- Two imported accounts, of which only the second one is invalid.
def importedChain : List Account := [account 1 17 1 5, account 2 16 0 6]

-- The key range is left raised by the account that was undone.
theorem not_restored : ¬∀ (_ : Hasher) (batch : AccountsBatch) (state : AccountsState)
    (before chain after : List Account) (opened closed : Loop CreateAccountResult AccountsState),
    batch.timestamp ≤ TimestampRange.timestampMax → state.accountsObjects.Idle →
    BrokenChain batch.orchestrator batch.timestamp state before chain after opened closed →
    opened.state.Restored closed.state := by
  intro h
  have ⟨closed, hrun, hb, hk⟩ := Meets.iff_exists.mp (show Meets (fun _ => False)
    (fun (closed : Loop CreateAccountResult AccountsState) =>
      (∃ result ∈ closed.results.drop 0,
        (accountsBatch importedChain).orchestrator.created result = false) ∧
        closed.state.runningKeyMax = 5)
    ((accountsBatch importedChain).orchestrator.run 2 100 0 importedChain
      ⟨[], none, false, accountsState⟩) by decide)
  have hchain : BrokenChain (accountsBatch importedChain).orchestrator 100 accountsState []
      importedChain [] ⟨[], none, false, accountsState⟩ closed :=
    ⟨nofun, by decide, ⟨[account 1 17 1 5], account 2 16 0 6, rfl, by decide, fun _ => rfl⟩, rfl,
      hrun, hb⟩
  have := (h identityHasher _ _ _ _ _ _ _ (by decide) CacheMap.idle_new hchain).keyMax
  rw [hk] at this
  cases this

end Runs

end TigerBeetle.Accounting
