import TigerBeetle.Theorems.Persisted

namespace TigerBeetle

open Fallible

variable {message : String}

namespace Fault

-- The assertions about account events and about closed accounts.
def watched : List String := [
  "each account event has a unique timestamp",
  "!p.flags.closing_debit()",
  "!p.flags.closing_credit()",
  "dr_account.flags.closed()",
  "cr_account.flags.closed()",
  "dr_new.flags.closed()",
  "cr_new.flags.closed()"]

-- A set of failures that excludes no assertion besides those.
class Tolerant (E : Fault → Prop) : Prop where
  tolerates : ∀ message, message ∉ watched → E (.panic .general message)
  cutOff : E .cutOff

theorem tolerates (E : Fault → Prop) [Tolerant E] :
    ∀ message, message ∉ watched → E (.panic .general message) :=
  Tolerant.tolerates

-- The assertions about the timestamps of imported events.
def importing : List String := [
  "event.timestamp != 0",
  "event.timestamp <= timestamp_event",
  "prefetch.transfer_timestamps.contains(event.timestamp)",
  "account_timestamps_enqueued.contains(event.timestamp)",
  "t.timestamp != 0",
  "t.timestamp <= timestamp_event",
  "account_timestamps_enqueued.contains(t.timestamp)"]

-- A set of failures that may exclude those as well.
class Lax (E : Fault → Prop) : Prop where
  allows : ∀ message, message ∉ watched → message ∉ importing → E (.panic .general message)
  cutOff : E .cutOff

theorem allows (E : Fault → Prop) [Lax E] :
    ∀ message, message ∉ watched → message ∉ importing → E (.panic .general message) :=
  Lax.allows

instance {E : Fault → Prop} [Tolerant E] : Lax E where
  allows message h _ := tolerates E message h
  cutOff := Tolerant.cutOff

-- The timestamp of an imported event passes the assertions, or their failures are not excluded.
def Timed (E : Fault → Prop) (imported : Bool) (timestamp timestampEvent : Nat) (enqueued : List Nat) :
    Prop :=
  (∀ message ∈ importing, E (.panic .general message)) ∨
    (imported = true → timestamp ≠ 0 ∧ timestamp ≤ timestampEvent ∧ timestamp ∈ enqueued)

theorem timed_of_tolerant (E : Fault → Prop) [Tolerant E] {imported : Bool}
    {timestamp timestampEvent : Nat} {enqueued : List Nat} :
    Timed E imported timestamp timestampEvent enqueued := by
  refine .inl fun message hm => tolerates E message fun hw => ?_
  have hdisjoint : ∀ message ∈ importing, message ∉ watched := by decide
  exact hdisjoint message hm hw

-- Failures apart from that of two account events with the same timestamp.
def Apart (fault : Fault) : Prop :=
  fault ≠ .panic .general "each account event has a unique timestamp"

@[simp]
theorem apart_panic {concern : Concern} :
    (Fault.panic concern message).Apart ↔
      concern = .general → message ≠ "each account event has a unique timestamp" := by
  simp [Apart]

instance tolerant_apart : Tolerant Apart where
  tolerates message h := by
    rw [apart_panic]
    rintro - rfl
    exact h (by simp [watched])
  cutOff := nofun

instance : DecidablePred Apart := fun _ => inferInstanceAs (Decidable (_ ≠ _))

-- The computation with another failure in the place of those that are excluded.
def replaced (E : Fault → Prop) [DecidablePred E] {α : Type} (x : Result α) : Result α :=
  x.mapError fun fault => if E fault then fault else .cutOff

theorem meets_replaced {E : Fault → Prop} [DecidablePred E] [Lax E] {α : Type} {x : Result α} :
    Meets E (fun _ => True) (replaced E x) := by
  cases x with
  | ok _ => trivial
  | error fault =>
    show E (if _ then _ else _)
    split
    · next h => exact h
    · exact Lax.cutOff

theorem replaced_eq {E : Fault → Prop} [DecidablePred E] {α : Type} {x : Result α}
    (h : Meets E (fun _ => True) x) : replaced E x = x := by
  cases x with
  | ok _        => rfl
  | error fault => exact congrArg Except.error (if_pos h)

end Fault

open Fault

variable {E : Fault → Prop} [Lax E]

namespace SetAssociativeCache

variable {K V : Type} [DecidableEq K] [CacheMapSpec K V] {cache : SetAssociativeCache V}

omit [DecidableEq K] [CacheMapSpec K V] in
theorem evict_apart {offset iterations way : Nat} :
    Meets E (fun _ => True) (evict offset iterations way cache) := by
  induction iterations generalizing way cache with
  | zero => simp [allows E, watched, importing, evict]
  | succ iterations ih =>
    unfold evict
    dsimp only
    split
    · trivial
    split
    · trivial
    · exact ih

theorem upsert_apart {value : V} : Meets E (fun _ => True) (cache.upsert value) := by
  unfold upsert
  dsimp only
  split
  · trivial
  · rw [Meets.bind_iff]
    refine evict_apart.weaken fun _ _ => ?_
    simp [allows E, watched, importing]

end SetAssociativeCache

namespace CacheMap

variable {K V : Type} [DecidableEq K] [CacheMapSpec K V] {map : CacheMap K V} {value : V}

theorem stashUpsert_apart : Meets E (fun _ => True) (map.stashUpsert value) := by
  unfold stashUpsert
  simp only [Meets.bind_eq, Meets.pure_eq, meets_assert_eq]
  simp [allows E, watched, importing]

omit [CacheMapSpec K V] in
theorem stashRemove_apart {key : K} : Meets E (fun _ => True) (map.stashRemove key) := by
  unfold stashRemove
  simp [allows E, watched, importing]

theorem fetchUpsert_apart : Meets E (fun _ => True) (map.fetchUpsert value) := by
  unfold fetchUpsert
  split
  · exact stashUpsert_apart
  · rw [Meets.bind_iff]
    refine SetAssociativeCache.upsert_apart.weaken fun ⟨updated, evicted, after⟩ _ => ?_
    cases evicted with
    | none => simp [allows E, watched, importing, stashRemove_apart]
    | some old =>
      cases updated with
      | update => simp [allows E, watched, importing]
      | insert =>
        simp only [Meets.bind_eq, meets_assert_eq]
        refine ⟨fun _ => stashUpsert_apart.weaken fun _ _ => ?_, by simp [allows E, watched, importing]⟩
        exact ⟨fun _ => stashRemove_apart, by simp [allows E, watched, importing]⟩

theorem upsert_apart : Meets E (fun _ => True) (map.upsert value) := by
  unfold upsert
  rw [Meets.bind_iff]
  refine fetchUpsert_apart.weaken fun ⟨updated, map'⟩ _ => ?_
  dsimp only
  split
  · cases updated with
    | none => simp [allows E, watched, importing, append]
    | some old => simp [allows E, watched, importing, append, Meets.ite_iff]
  · trivial

omit [DecidableEq K] [CacheMapSpec K V] in
theorem scopeOpen_apart : Meets E (fun _ => True) map.scopeOpen := by
  unfold scopeOpen
  simp [allows E, watched, importing]

theorem replay_apart {action : RollbackLogAction K V} :
    Meets E (fun _ => True) (map.replay action) := by
  unfold replay
  cases action with
  | restore value => simp [allows E, watched, importing, upsert_apart]
  | restoreTombstone key => simp [allows E, watched, importing]
  | remove key =>
    simp only [Meets.bind_eq]
    refine stashRemove_apart.weaken fun result _ => ?_
    obtain ⟨removed, map'⟩ := result
    cases removed <;> simp [allows E, watched, importing]

theorem replayAll_apart {actions : List (RollbackLogAction K V)} :
    Meets E (fun _ => True) (replayAll actions map) := by
  induction actions generalizing map with
  | nil => trivial
  | cons action actions ih =>
    unfold replayAll
    rw [Meets.bind_iff]
    exact replay_apart.weaken fun _ _ => ih

theorem scopeClose_apart {mode : ScopeCloseMode} :
    Meets E (fun _ => True) (map.scopeClose mode) := by
  unfold scopeClose
  cases mode <;> simp [allows E, watched, importing, replayAll_apart]

end CacheMap

namespace Accounting

theorem timestampEvent_apart {timestamp count index : Nat} :
    Meets E (fun _ => True) (timestampEvent timestamp count index) := by
  unfold timestampEvent
  simp [allows E, watched, importing]

namespace Orchestrator

variable {ε ρ σ : Type} {o : Orchestrator ε ρ σ} {timestamp count index : Nat} {event : ε}
    {events : List ε} {loop : Loop ρ σ} {state : σ}

-- The failures of an orchestrator's parts.
structure Fails (E : Fault → Prop) (o : Orchestrator ε ρ σ) : Prop where
  scopeOpen : ∀ state, Meets E (fun _ => True) (o.scopeOpen state)
  execute : ∀ event timestamp state,
    Meets E (fun _ => True) (o.execute event timestamp state)
  discard : ∀ state, Meets E (fun _ => True) (o.discard state)
  complete : ∀ broken state, Meets E (fun _ => True) (o.complete broken state)

-- Those of the parts besides the execution of the events.
structure Parts (E : Fault → Prop) (o : Orchestrator ε ρ σ) : Prop where
  scopeOpen : ∀ state, Meets E (fun _ => True) (o.scopeOpen state)
  discard : ∀ state, Meets E (fun _ => True) (o.discard state)
  complete : ∀ broken state, Meets E (fun _ => True) (o.complete broken state)

namespace Parts

omit [Lax E] in
theorem settle (h : o.Parts E) {result : ρ} :
    Meets E (fun _ => True) (o.settle event result loop) := by
  have hclose : ∀ loop, Meets E (fun _ => True) (o.closeChain event result loop) := by
    intro loop
    unfold Orchestrator.closeChain
    simp [Meets.ite_iff, h.complete]
  have hbreak : Meets E (fun _ => True) (o.breakChain event result loop) := by
    unfold Orchestrator.breakChain
    cases loop.chain <;> simp [Meets.ite_iff, h.discard]
  unfold Orchestrator.settle
  rw [Meets.bind_iff]
  exact hbreak.weaken fun _ _ => hclose _

theorem step (h : o.Parts E) (hexecute : ∀ state,
      Meets E (fun _ => True) (o.execute event (stamp timestamp count index) state)) :
    Meets E (fun _ => True) (o.step count index event timestamp loop) := by
  have hopen : Meets E (fun _ => True) (o.openChain index event loop) := by
    unfold Orchestrator.openChain
    simp [allows E, watched, importing, Meets.ite_iff, h.scopeOpen]
  have hresult : ∀ loop, Meets E (fun _ => True)
      (o.result count index event (stamp timestamp count index) loop) := by
    intro loop
    unfold Orchestrator.result
    simp [Meets.ite_iff, hexecute]
  unfold Orchestrator.step
  simp only [Meets.bind_eq]
  refine (timestampEvent_apart.and_post timestampEvent_meets).weaken fun t ⟨_, ht, _⟩ => ?_
  subst ht
  exact hopen.weaken fun loop _ => (hresult loop).weaken fun _ _ => h.settle

theorem run (h : o.Parts E) (hexecute : ∀ before event after, events = before ++ event :: after →
      ∀ state, Meets E (fun _ => True)
        (o.execute event (stamp timestamp count (index + before.length)) state)) :
    Meets E (fun _ => True) (o.run count timestamp index events loop) := by
  induction events generalizing index loop with
  | nil => trivial
  | cons event events ih =>
    unfold Orchestrator.run
    rw [Meets.bind_iff]
    refine (h.step (hexecute [] event events rfl)).weaken fun _ _ => ih fun before next after he => ?_
    have hnext := hexecute (event :: before) next after (by rw [he]; rfl)
    rwa [List.length_cons, Nat.add_comm before.length, ← Nat.add_assoc] at hnext

theorem orchestrate (h : o.Parts E)
    (hexecute : ∀ before event after, events = before ++ event :: after → ∀ state,
      Meets E (fun _ => True)
        (o.execute event (stamp timestamp events.length before.length) state)) :
    Meets E (fun _ => True) (o.orchestrate timestamp events state) := by
  unfold Orchestrator.orchestrate
  rw [Meets.bind_iff]
  refine (h.run fun before event after he => ?_).weaken
    fun _ _ => by simp [allows E, watched, importing]
  rw [Nat.zero_add]
  exact hexecute before event after he

end Parts

theorem Fails.orchestrate (h : o.Fails E) :
    Meets E (fun _ => True) (o.orchestrate timestamp events state) :=
  Parts.orchestrate ⟨h.scopeOpen, h.discard, h.complete⟩ fun _ _ _ _ _ => h.execute ..

end Orchestrator

theorem expect_allowed {α : Type} {value : Option α}
    (h : message ∉ watched) (h' : message ∉ importing) :
    Meets E (fun _ => True) (expect value message) := by
  unfold expect
  cases value <;> simp [allows E _ h h']

omit [Lax E] in
theorem expect_apart [Tolerant E] {α : Type} {value : Option α}
    (h : message ∉ watched) : Meets E (fun _ => True) (expect value message) := by
  unfold expect
  cases value <;> simp [tolerates E _ h]

theorem createAccount_apart {a : Account} {timestamp : Nat} {existing : Option Account} :
    Meets E (fun _ => True) (createAccount a timestamp existing) := by
  unfold createAccount createAccountExists
  cases existing <;> simp [allows E, watched, importing, Meets.ite_iff]

variable {t : Transfer}

theorem createTransferExists_apart {e : Transfer} :
    Meets E (fun _ => True) (createTransferExists t e) := by
  unfold createTransferExists
  simp [allows E, watched, importing, Meets.ite_iff]

variable {dr cr : Account}

theorem createTransferOutcome_apart {timestamp : Nat} {enqueued : List Nat}
    {existing : Option Transfer}
    (h : Timed E t.flags.imported t.timestamp timestamp enqueued) :
    Meets E (fun _ => True) (createTransferOutcome t timestamp existing dr cr) := by
  unfold createTransferOutcome createTransfer createTransferBalances
  cases existing with
  | some e => simp [allows E, watched, importing, Meets.ite_iff, createTransferExists_apart]
  | none =>
    cases createTransferFields t <;> simp [allows E, watched, importing, Meets.ite_iff]
    grind [Timed, importing]

theorem commitPostVoidAccounts_apart {event p : Transfer} {amount : U128} :
    Meets Fault.Apart (fun _ => True) (commitPostVoidAccounts event p amount dr cr) := by
  unfold commitPostVoidAccounts
  simp [Meets.ite_iff]

theorem postOrVoidPendingTransfer_apart {p : Transfer} {timestamp : Nat}
    {status : TransferPendingStatus} {runningKeyMax : Nat}
    {accountTimestamps accountTimestampsEnqueued : List Nat}
    (h : Timed E t.flags.imported t.timestamp timestamp accountTimestampsEnqueued) :
    Meets E (fun _ => True)
      (postOrVoidPendingTransfer t timestamp p dr cr status runningKeyMax accountTimestamps
        accountTimestampsEnqueued) := by
  unfold postOrVoidPendingTransfer
  cases status <;> simp [allows E, watched, importing, Meets.ite_iff]
  grind [Timed, importing]

theorem postOrVoidPendingTransferExists_apart {e p : Transfer} :
    Meets E (fun _ => True) (postOrVoidPendingTransferExists t e p) := by
  unfold postOrVoidPendingTransferExists
  simp [allows E, watched, importing, Meets.ite_iff]

variable [Hasher] {timestamp : Nat}

namespace AccountsBatch

variable {batch : AccountsBatch} {event : Account} {state : AccountsState}

omit [Hasher] in
theorem reject_none (h : batch.reject event = none) : event.flags.imported = batch.imported ∧
    (event.flags.imported = true → event.timestamp ≠ 0 ∧ event.timestamp < batch.timestamp) := by
  unfold reject at h
  simp at h
  grind

theorem execute_allowed (h : batch.reject event = none →
      Timed E event.flags.imported event.timestamp timestamp batch.prefetch.transferTimestamps) :
    Meets E (fun _ => True) (batch.execute event timestamp state) := by
  unfold execute regresses
  cases hr : batch.reject event with
  | some status => trivial
  | none =>
    have h := h hr
    generalize state.accountsObjects.get event.id = found
    obtain ⟨existing, objects⟩ := found
    cases existing <;> simp [allows E, watched, importing, Meets.ite_iff, createAccount_apart,
      CacheMap.upsert_apart]
    grind [Timed, importing]

theorem orchestrator_parts : batch.orchestrator.Parts E where
  scopeOpen state := by simp [orchestrator, CacheMap.scopeOpen_apart]
  discard state := by simp [orchestrator, CacheMap.scopeClose_apart]
  complete broken state := by
    cases broken <;> simp [orchestrator, CacheMap.scopeClose_apart]

end AccountsBatch

namespace TransfersBatch

variable {batch : TransfersBatch} {event : Transfer} {state : TransfersState}
    {existing : Option Transfer}

omit [Hasher] in
theorem reject_none (h : batch.reject event = none) : event.flags.imported = batch.imported ∧
    (event.flags.imported = true → event.timestamp ≠ 0 ∧ event.timestamp < batch.timestamp) := by
  unfold reject at h
  simp at h
  grind

theorem readCachedAccount_apart {objects : AccountObjectsCache} {prefetch : TransferPrefetchKeys}
    {id : U128} : Meets E (fun _ => True) (readCachedAccount objects prefetch id) := by
  unfold readCachedAccount
  simp [allows E, watched, importing]

theorem transfer_apart
    (h : Timed E event.flags.imported event.timestamp timestamp batch.accountTimestampsEnqueued) :
    Meets E (fun _ => True) (batch.transfer event timestamp existing dr cr state) := by
  unfold transfer regresses
  cases existing <;>
    simp [allows E, watched, importing, Meets.ite_iff, createTransferOutcome_apart h,
      CacheMap.upsert_apart]
  grind [Timed, importing]

theorem plain_apart
    (h : Timed E event.flags.imported event.timestamp timestamp batch.accountTimestampsEnqueued) :
    Meets E (fun _ => True) (batch.plain event timestamp existing state) := by
  unfold plain
  simp only [Meets.bind_eq]
  refine readCachedAccount_apart.weaken fun ⟨dr, _⟩ _ => readCachedAccount_apart.weaken
    fun ⟨cr, _⟩ _ => ?_
  cases dr <;> cases cr <;> first | trivial | exact transfer_apart h

-- The assertions about closed accounts are not excluded.
def Unlocked (E : Fault → Prop) : Prop :=
  ∀ event p amount dr cr, Meets E (fun _ => True) (commitPostVoidAccounts event p amount dr cr)

theorem resolve_apart {pending : Option Transfer} (hc : Unlocked E)
    (h : Timed E event.flags.imported event.timestamp timestamp batch.accountTimestampsEnqueued) :
    Meets E (fun _ => True) (batch.resolve event timestamp pending state) := by
  have hc : ∀ event p amount dr cr,
      Meets E (fun _ => True) (commitPostVoidAccounts event p amount dr cr) := hc
  unfold resolve
  cases pending with
  | none   => trivial
  | some p =>
    simp [allows E, watched, importing, Meets.ite_iff, readCachedAccount_apart, expect_allowed,
      postOrVoidPendingTransfer_apart h, hc, CacheMap.upsert_apart]

theorem postOrVoid_apart (hc : Unlocked E)
    (h : Timed E event.flags.imported event.timestamp timestamp batch.accountTimestampsEnqueued) :
    Meets E (fun _ => True) (batch.postOrVoid event timestamp existing state) := by
  unfold postOrVoid
  cases existing <;>
    simp [allows E, watched, importing, Meets.ite_iff, resolve_apart hc h, expect_allowed,
      postOrVoidPendingTransferExists_apart]

theorem execute_apart (hc : Unlocked E) (h : batch.reject event = none →
      Timed E event.flags.imported event.timestamp timestamp batch.accountTimestampsEnqueued) :
    Meets E (fun _ => True) (batch.execute event timestamp state) := by
  unfold execute
  cases hr : batch.reject event with
  | some status => trivial
  | none =>
    simp [allows E, watched, importing, Meets.ite_iff, postOrVoid_apart hc (h hr), plain_apart (h hr)]

theorem orchestrator_parts : batch.orchestrator.Parts E where
  scopeOpen state := by simp [orchestrator, CacheMap.scopeOpen_apart]
  discard state := by simp [orchestrator, CacheMap.scopeClose_apart]
  complete broken state := by
    cases broken <;> simp [orchestrator, CacheMap.scopeClose_apart]

theorem orchestrator_fails
    {execute : Transfer → Nat → TransfersState → Result (CreateTransferResult × TransfersState)}
    (h : ∀ event timestamp state, Meets E (fun _ => True) (execute event timestamp state)) :
    ({ batch.orchestrator with execute } : Orchestrator _ _ _).Fails E :=
  { @orchestrator_parts E _ _ batch with execute := h }

theorem orchestrator_apart : batch.orchestrator.Fails Fault.Apart :=
  @orchestrator_fails Fault.Apart _ _ batch batch.execute fun _ _ _ =>
    execute_apart (fun _ _ _ _ _ => commitPostVoidAccounts_apart) fun _ => timed_of_tolerant _

end TransfersBatch

namespace StateMachine

variable {sm : StateMachine}

omit [Hasher] in
theorem fill_apart {K V : Type} [DecidableEq K] [CacheMapSpec K V] {committed : HashMap K V}
    {keys : List K} {map : CacheMap K V} :
    Meets E (fun _ => True) (fill committed keys map) := by
  induction keys generalizing map with
  | nil => trivial
  | cons key keys ih =>
    unfold fill
    cases committed.lookup key with
    | none => exact ih
    | some value =>
      dsimp only
      rw [Meets.bind_iff]
      exact CacheMap.upsert_apart.weaken fun _ _ => ih

omit [Hasher] in
theorem insertAccount_apart {id : U128} {account : Account} :
    Meets E (fun _ => True) (sm.insertAccount id account) := by
  unfold insertAccount
  simp [allows E, watched, importing]

theorem createAccounts_allowed {events : List Account}
    (h : ∀ before event after, events = before ++ event :: after →
      event.flags.imported = (events.head?.any fun event => event.flags.imported) →
      (event.flags.imported = true → event.timestamp ≠ 0 ∧ event.timestamp < timestamp) →
      Timed E event.flags.imported event.timestamp (stamp timestamp events.length before.length)
        (prefetchCreateAccounts events).transferTimestamps) :
    Meets E (fun _ => True) (sm.createAccounts events timestamp) := by
  unfold createAccounts createAccountsPrefetch
  simp only [Meets.bind_eq, Meets.pure_eq, meets_assert_eq]
  refine ⟨fun _ => fill_apart.weaken fun _ _ => ?_, by simp [allows E, watched, importing]⟩
  refine Meets.weaken (fun loop _ => ?_) (AccountsBatch.orchestrator_parts.orchestrate
    fun before event after he state => AccountsBatch.execute_allowed fun hr => ?_)
  · refine persistBatch_meets (fun index event result sm _ => ?_) trivial
    unfold persistAccountEvent
    simp [allows E, watched, importing, Meets.ite_iff, timestampEvent_apart, insertAccount_apart]
  · have ⟨himported, htime⟩ := AccountsBatch.reject_none hr
    exact h before event after he himported htime

theorem createAccounts_apart [Tolerant E] {events : List Account} :
    Meets E (fun _ => True) (sm.createAccounts events timestamp) :=
  createAccounts_allowed fun _ _ _ _ _ _ => timed_of_tolerant E

end StateMachine

end Accounting

end TigerBeetle
