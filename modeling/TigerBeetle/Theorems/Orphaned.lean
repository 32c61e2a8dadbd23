import TigerBeetle.Theorems.DoubleEntry

namespace TigerBeetle.Accounting

open Fallible HashMap Orchestrator

namespace TransfersBatch

-- No id has a record and is poisoned as well.
def Apart (batch : TransfersBatch) (view : TransfersView) : Prop :=
  ∀ id, view.transfers id ≠ none → id ∉ view.orphaned ∧ id ∉ batch.orphaned

variable {batch : TransfersBatch} {before after a b current : TransfersView} {event : Transfer}
    {timestamp count index : Nat} {result : CreateTransferResult}
    {events created : List Transfer} {results : List CreateTransferResult}

theorem Step.transfers_eq (h : batch.Step before event timestamp result after)
    (hc : result.status = .created) :
    ∃ record, after.transfers = Function.update before.transfers event.id (some record) := by
  have ⟨_, _, _, _, _, hstep⟩ := h.created hc
  obtain ⟨_, _, hcreates⟩ | ⟨_, _, _, _, _, _, hresolves⟩ := hstep
  · rw [hcreates.after]
    exact ⟨_, TransfersView.transfers_create⟩
  · rw [hresolves.after]
    exact ⟨_, rfl⟩

-- What a chain has created so far.
structure Grows (batch : TransfersBatch) (a : TransfersView) (events : List Transfer)
    (b : TransfersView) : Prop where
  orphaned : b.orphaned = a.orphaned
  fresh : ∀ event ∈ events, a.transfers event.id = none
  exact : ∀ id, b.transfers id ≠ none ↔ a.transfers id ≠ none ∨ ∃ event ∈ events, event.id = id
  apart : batch.Apart a → batch.Apart b

theorem Grows.cons (h : batch.Step a event timestamp result current)
    (hc : result.status = .created) (hg : batch.Grows current events b) :
    batch.Grows a (event :: events) b := by
  have ⟨hworking, hpoisoned, hnone, _⟩ := h.created hc
  have ⟨record, htransfers⟩ := h.transfers_eq hc
  have horphaned := h.orphaned_eq
  have hmono : ∀ id, current.transfers id = none → a.transfers id = none := by
    intro id hid
    rw [htransfers, Function.update_apply] at hid
    split at hid
    · cases hid
    · exact hid
  exact {
    orphaned := hg.orphaned.trans horphaned
    fresh := fun e he => by
      cases he with
      | head      => exact hnone
      | tail _ he => exact hmono _ (hg.fresh e he)
    exact := fun id => by
      rw [hg.exact, htransfers, Function.update_apply]
      by_cases hid : id = event.id
      · simp [hid]
      · simp [hid, Ne.symm hid]
    apart := fun ha => hg.apart fun id hid => by
      rw [htransfers, Function.update_apply] at hid
      rw [horphaned]
      by_cases he : id = event.id
      · exact he ▸ ⟨hworking, hpoisoned⟩
      · exact ha id (by simpa [he] using hid)
  }

variable [Hasher] {hb : batch.timestamp ≤ TimestampRange.timestampMax}

theorem grows_of_trace (h : (batch.law hb).Trace batch.timestamp count index a events results b) :
    batch.Grows a events b := by
  induction events generalizing index a results with
  | nil =>
    cases results with
    | nil =>
      cases h
      exact ⟨rfl, nofun, by simp, id⟩
    | cons _ _ => cases h
  | cons event events ih =>
    cases results with
    | nil => cases h
    | cons result results =>
      have ⟨_, hs, hc, h⟩ := h
      have hs : batch.Step _ _ _ _ _ := hs
      exact (ih h).cons hs (by simpa [orchestrator] using hc)

-- A transfer that is on record is tried again, and one of the accounts is missing that it has now.
-- The record is not one that goes with the chain that the event breaks.
def Poisons (batch : TransfersBatch) (events : List Transfer)
    (loop : Loop CreateTransferResult TransfersState) (event : Transfer) : Prop :=
  ¬(event.flags.linked = true ∧ loop.results.length = events.length - 1) ∧
    loop.chainBroken = false ∧ batch.reject event = none ∧ event.flags.postOrVoid = false ∧
    event.id ∉ loop.state.workingOrphaned ∧ event.id ∉ batch.orphaned ∧
    (loop.state.view.accounts event.debitAccountId = none ∨
      loop.state.view.accounts event.creditAccountId = none) ∧
    loop.state.view.transfers event.id ≠ none ∧
    ∀ e ∈ (events.take loop.results.length).drop (loop.chain.getD loop.results.length),
      e.id ≠ event.id

-- What becomes of the ids of the events of a batch.
structure Sorts (batch : TransfersBatch) (a : TransfersView) (events : List Transfer)
    (results : List CreateTransferResult) (b : TransfersView) : Prop where
  apart : batch.Apart b
  grows : a.orphaned ⊆ b.orphaned
  keeps : ∀ id, a.transfers id ≠ none → b.transfers id ≠ none
  transient : ∀ pair ∈ events.zip results, pair.2.status.transient = true → pair.1.id ∈ b.orphaned
  refused : ∀ pair ∈ events.zip results, pair.2.status = .idAlreadyFailed →
    a.transfers pair.1.id = none

omit [Hasher] in
theorem Sorts.append {events' : List Transfer} {results' : List CreateTransferResult}
    (h : batch.Sorts a events results current) (h' : batch.Sorts current events' results' b)
    (hlen : events.length = results.length) :
    batch.Sorts a (events ++ events') (results ++ results') b where
  apart := h'.apart
  grows := h.grows.trans h'.grows
  keeps id hid := h'.keeps id (h.keeps id hid)
  transient pair hp ht := by
    rw [List.zip_append hlen, List.mem_append] at hp
    cases hp with
    | inl hp => exact h'.grows (h.transient pair hp ht)
    | inr hp => exact h'.transient pair hp ht
  refused pair hp hr := by
    rw [List.zip_append hlen, List.mem_append] at hp
    cases hp with
    | inl hp => exact h.refused pair hp hr
    | inr hp =>
      have := h'.refused pair hp hr
      exact Classical.not_not.mp fun hn => h.keeps _ hn this

theorem sorts_of_trace (h : (batch.law hb).Trace batch.timestamp count index a events results b)
    (ha : batch.Apart a) : batch.Sorts a events results b := by
  have hg := grows_of_trace h
  have hc : ∀ pair ∈ events.zip results, pair.2.status = .created := fun pair hp => by
    simpa [orchestrator] using h.created _ (List.of_mem_zip hp).2
  exact {
    apart := hg.apart ha
    grows := hg.orphaned.ge
    keeps := fun id hid => (hg.exact id).mpr (.inl hid)
    transient := fun pair hp ht => by simp [hc pair hp, CreateTransferStatus.transient] at ht
    refused := fun pair hp hr => by simp [hc pair hp] at hr
  }

variable {all pre : List Transfer}

-- The event that breaks a chain has no record from before the chain.
theorem none_of_executed {post : List Transfer}
    (hall : all = pre ++ (created ++ event :: post)) (hpre : pre.length = index)
    (hg : batch.Grows a created current)
    (he : (batch.law hb).Executed all.length (fun loop event => ¬batch.Poisons all loop event) index
      created current event)
    (hs : batch.Step current event timestamp result current)
    (ht : result.status.transient = true) : a.transfers event.id = none := by
  have ⟨loop, hR, hwhole, hview, hlen, hstart, hlast⟩ := he
  have hview : loop.state.view = current := hview
  have ⟨hreject, hworking, hpoisoned, hrecord⟩ := hs.transient ht
  have hmono : current.transfers event.id = none → a.transfers event.id = none :=
    fun hn => Classical.not_not.mp fun hm => (hg.exact event.id).mpr (.inl hm) hn
  obtain hnone | ⟨hplain, hmissing⟩ := hrecord
  · exact hmono hnone
  · by_contra hn
    subst hview
    refine hR ⟨hlast, hwhole, hreject, hplain, hworking, hpoisoned, hmissing, mt hmono hn, ?_⟩
    intro e hm
    have hm : e ∈ created := by
      rw [hstart, hlen, ← hpre, hall] at hm
      simpa [List.take_append, List.drop_append] using hm
    exact fun heq => hn (heq ▸ hg.fresh e hm)

theorem sorts_of_broken {post : List Transfer} (hall : all = pre ++ (events ++ post))
    (hpre : pre.length = index)
    (h : (batch.law hb).Broken batch.timestamp all.length
      (fun loop event => ¬batch.Poisons all loop event) index a events results b)
    (ha : batch.Apart a) : batch.Sorts a events results b := by
  obtain ⟨created, undone, current, event, result, rest, failed, h⟩ := h
  have hg := grows_of_trace h.trace
  have hview : b = { a with
      orphaned :=
        if result.status.transient then insert event.id a.orphaned else a.orphaned } := by
    rw [h.view_eq]
    simp only [law]
    split <;> simp [hg.orphaned]
  -- Only the event that breaks the chain has a status of its own.
  have hpairs : ∀ pair ∈ events.zip results, pair = (event, result) ∨
      pair.2.status = .linkedEventFailed ∨ pair.2.status = .linkedEventChainOpen := by
    intro pair hp
    rw [h.events_eq, h.results_eq, List.zip_append (by simp [h.trace.length_eq]), List.zip_cons_cons,
      List.mem_append, List.mem_cons] at hp
    obtain hp | rfl | hp := hp
    · obtain ⟨r, _, hr⟩ := List.mem_map.mp (List.of_mem_zip hp).2
      exact .inr (.inl (hr ▸ rfl))
    · exact .inl rfl
    · obtain ⟨t, hr⟩ := h.failed_eq.2 _ (List.of_mem_zip hp).2
      obtain hr | hr := hr
      · exact .inr (.inl (hr ▸ rfl))
      · exact .inr (.inr (hr ▸ rfl))
  have hnone : result.status.transient = true → a.transfers event.id = none := by
    intro ht
    cases h.step with
    | inl hs =>
      have hall : all = pre ++ (created ++ event :: (rest ++ post)) := by
        rw [hall, h.events_eq, List.append_assoc, List.cons_append]
      exact none_of_executed hall hpre hg hs.1 hs.2 ht
    | inr ho =>
      obtain ⟨_, _, t, hr⟩ := ho
      rw [hr] at ht
      cases ht
  exact {
    apart := by
      intro id hid
      rw [hview] at hid ⊢
      obtain ⟨h₁, h₂⟩ := ha id hid
      refine ⟨?_, h₂⟩
      dsimp only
      split
      · next ht =>
        intro hm
        obtain rfl | hm := Finset.mem_insert.mp hm
        · exact hid (hnone ht)
        · exact h₁ hm
      · exact h₁
    grows := by
      rw [hview]
      dsimp only
      split
      · exact Finset.subset_insert ..
      · exact Finset.Subset.refl _
    keeps := fun id hid => by rwa [hview]
    transient := fun pair hp ht => by
      obtain rfl | hr | hr := hpairs pair hp
      · rw [hview]
        simp [ht]
      · simp [hr, CreateTransferStatus.transient] at ht
      · simp [hr, CreateTransferStatus.transient] at ht
    refused := fun pair hp hr => by
      obtain rfl | hr' | hr' := hpairs pair hp
      · cases h.step with
        | inl hs =>
          have hs : batch.Step _ _ _ _ _ := hs.2
          have := hs.refused hr
          by_contra hn
          obtain ⟨h₁, h₂⟩ := hg.apart ha event.id ((hg.exact _).mpr (.inl hn))
          exact this.elim h₁ h₂
        | inr ho =>
          obtain ⟨_, _, t, ht⟩ := ho
          rw [ht] at hr
          cases hr
      · simp [hr'] at hr
      · simp [hr'] at hr
  }

theorem sorts_of_segments (hall : all = pre ++ events)
    (hpre : pre.length = index)
    (h : (batch.law hb).Segments batch.timestamp all.length
      (fun loop event => ¬batch.Poisons all loop event) index a events [] results b)
    (ha : batch.Apart a) : batch.Sorts a events results b := by
  generalize hafter : ([] : List Transfer) = after at h
  induction h generalizing pre with
  | nil => exact ⟨ha, Finset.Subset.refl _, fun _ => id, nofun, nofun⟩
  | @cons _ a b _ segment _ _ results _ _ ho _ ih =>
    have hs : batch.Sorts a segment results b := by
      cases ho with
      | inl ho => exact sorts_of_trace ho.1 ha
      | inr ho => exact sorts_of_broken hall hpre ho ha
    rw [← List.append_assoc] at hall
    exact hs.append (ih hall (by simp [hpre]) hs.apart hafter) ho.length_eq.symm

end TransfersBatch

namespace StateMachine

variable [Hasher] {sm sm' : StateMachine} {events : List Transfer} {timestamp : Nat}
    {results : List CreateTransferResult}

-- No transfer of a call poisons the id of a record.
def Harmless (sm : StateMachine) : Call → Prop
  | .createTransfers events timestamp =>
    AlongTransfers sm events timestamp fun batch loop event => ¬batch.Poisons events loop event
  | _ => True

theorem harmless_iff : Harmless sm (.createTransfers events timestamp) ↔
    AlongTransfers sm events timestamp fun batch loop event => ¬batch.Poisons events loop event :=
  Iff.rfl

-- No transfer that has been committed is poisoned.
def Disjoint (sm : StateMachine) : Prop :=
  ∀ id ∈ sm.transfersOrphaned, sm.ledger.transfer id = none

omit [Hasher] in
theorem mem_orphan {pairs : List (Transfer × CreateTransferResult)} {id : U128} :
    id ∈ (sm.orphan pairs).transfersOrphaned ↔ id ∈ sm.transfersOrphaned ∨
      ∃ pair ∈ pairs, pair.2.status.transient = true ∧ pair.1.id = id := by
  have fold : ∀ orphaned : Finset U128, id ∈ pairs.foldl (fun orphaned pair =>
      if pair.2.status.transient then insert pair.1.id orphaned else orphaned) orphaned ↔
        id ∈ orphaned ∨ ∃ pair ∈ pairs, pair.2.status.transient = true ∧ pair.1.id = id := by
    intro orphaned
    induction pairs generalizing orphaned with
    | nil => simp
    | cons pair pairs ih =>
      rw [List.foldl_cons, ih]
      by_cases ht : pair.2.status.transient = true
      · simp [ht, eq_comm (a := id), or_assoc, or_left_comm]
      · simp [ht]
  exact fold _

variable {batch : TransfersBatch} {before after : TransfersView}

theorem Executes.sorts {hb : batch.timestamp ≤ TimestampRange.timestampMax} (hd : Disjoint sm)
    (h : Executes sm events timestamp (fun batch loop event => ¬batch.Poisons events loop event)
      results sm' batch hb before after) : batch.Sorts before events results after := by
  obtain rfl := h.timed
  refine TransfersBatch.sorts_of_segments (List.nil_append events).symm rfl h.segments ?_
  intro id hid
  refine ⟨by simp [h.empty], fun hp => hid ?_⟩
  rw [h.orphaned] at hp
  exact h.opens.transfersWithin id (hd id hp)

theorem Executes.disjoint {hb : batch.timestamp ≤ TimestampRange.timestampMax}
    (hd : Disjoint sm)
    (h : Executes sm events timestamp (fun batch loop event => ¬batch.Poisons events loop event)
      results sm' batch hb before after) : Disjoint sm' := by
  have hs := h.sorts hd
  intro id hid
  rw [h.poisoned, mem_orphan] at hid
  by_contra hn
  by_cases hp : id ∈ (prefetchCreateTransfers events fun id => sm.transfers.lookup id).transferIds
  · rw [← h.closes.transfers id hp] at hn
    have ⟨h₁, h₂⟩ := hs.apart id hn
    obtain hid | ⟨pair, hpair, htr, rfl⟩ := hid
    · exact h₂ (h.orphaned ▸ hid)
    · exact h₁ (hs.transient pair hpair htr)
  · obtain hid | ⟨pair, hpair, _, rfl⟩ := hid
    · rw [h.other id hp, hd id hid] at hn
      exact hn rfl
    · exact hp (prefetches.id _ (List.of_mem_zip hpair).1)

theorem Executes.answers {hb : batch.timestamp ≤ TimestampRange.timestampMax}
    (hd : Disjoint sm)
    (h : Executes sm events timestamp (fun batch loop event => ¬batch.Poisons events loop event)
      results sm' batch hb before after) {pair : Transfer × CreateTransferResult}
    (hp : pair ∈ events.zip results) (hc : sm.ledger.transfer pair.1.id ≠ none) :
    pair.2.status ≠ .idAlreadyFailed := by
  intro hr
  have hid := (@prefetches sm events).id _ (List.of_mem_zip hp).1
  exact hc ((h.opens.transfers _ hid).symm.trans ((h.sorts hd).refused pair hp hr))

-- The timestamp of a call is a valid one, and no transfer of it poisons the id of a record.
def Careful (sm : StateMachine) (call : Call) : Prop :=
  Timely sm call ∧ Harmless sm call

theorem Disjoint.step {call : Call} (hs : Sound sm) (hd : Disjoint sm) (h : Careful sm call)
    (hstep : machine.step sm call = .ok sm') : Disjoint sm' := by
  have ⟨ht, hh⟩ := h
  cases call with
  | createAccounts events timestamp =>
    have ⟨r, hr, he⟩ := bind_eq_ok.mp hstep
    cases he
    have ⟨_, htr, ho, _⟩ := (hs.createAccounts ht.2).post hr
    intro id hid
    rw [htr]
    exact hd id (ho ▸ hid)
  | createTransfers events timestamp =>
    have ⟨r, hr, he⟩ := bind_eq_ok.mp hstep
    cases he
    have ⟨_, _, _, _, _, hx⟩ := (hs.createTransfers ht.2 (harmless_iff.mp hh)).post hr
    exact hx.disjoint hd
  | expirePendingTransfers timestamp =>
    have ⟨_, htr, ho⟩ := hs.expirePendingTransfers.post hstep
    intro id hid
    rw [htr]
    exact hd id (ho ▸ hid)

theorem disjoint_of_reachable (h : machine.Reachable Careful sm) : Sound sm ∧ Disjoint sm :=
  h.invariant (p := fun sm => Sound sm ∧ Disjoint sm)
    (fun _ hi => hi ▸ ⟨sound_default, nofun⟩)
    fun _ _ _ ⟨hs, hd⟩ hc hstep => ⟨hs.step hc.1 hstep, hd.step hs hc hstep⟩

-- A transfer that has been committed stays what it is: its id is not among those that have failed,
-- and none of its retries is told so.
theorem committed_not_orphaned (h : machine.Reachable Careful sm) :
    (∀ id ∈ sm.transfersOrphaned, sm.transfers.lookup id = none) ∧
      ∀ events timestamp results sm', Careful sm (.createTransfers events timestamp) →
        sm.createTransfers events timestamp = .ok (results, sm') →
        ∀ pair ∈ events.zip results, sm.transfers.lookup pair.1.id ≠ none →
          pair.2.status ≠ .idAlreadyFailed := by
  have ⟨hs, hd⟩ := disjoint_of_reachable h
  refine ⟨hd, fun events timestamp results sm' ⟨ht, hh⟩ hr pair hp hc => ?_⟩
  have ⟨_, _, _, _, _, hx⟩ := (hs.createTransfers ht.2 (harmless_iff.mp hh)).post hr
  exact hx.answers hd hp hc

-- A transfer on its own that has no record yet or whose accounts exist.
theorem harmless_singleton {event : Transfer} (hs : Sound sm)
    (h : event.flags.postOrVoid = false → sm.ledger.transfer event.id = none ∨
      sm.ledger.account event.debitAccountId ≠ none ∧
        sm.ledger.account event.creditAccountId ≠ none) :
    Harmless sm (.createTransfers [event] timestamp) := by
  rw [harmless_iff]
  intro accountTimestamps sm' hpre before e after loop he hrun
  have hp : Prefetched sm (prefetchCreateTransfers [event] fun id => sm.transfers.lookup id) sm' :=
    hs.createTransfersPrefetch.post hpre
  have hf := hp.follows hs
  cases before with
  | cons _ _ => simp at he
  | nil =>
    cases he
    cases hrun
    intro ⟨_, _, _, hplain, _, _, hmissing, hfound, _⟩
    have hids := (@prefetches sm [event]).accounts event (List.mem_singleton_self _) hplain
    obtain hnone | ⟨hdr, hcr⟩ := h hplain
    · exact hfound (hf.transfersWithin _ hnone)
    · cases hmissing with
      | inl hm => exact hdr ((hf.accounts _ hids.1).symm.trans hm)
      | inr hm => exact hcr ((hf.accounts _ hids.2).symm.trans hm)

end StateMachine

namespace StateMachine.Runs

open Accounting.Runs

attribute [local instance] identityHasher

def created : Call :=
  .createTransfers [transfer 1 1 2 0] 200

-- The account 9 does not exist.
def failed (id : Nat) : Call :=
  .createTransfers [transfer id 9 2 0] 300

theorem careful_singleton {sm : StateMachine} (hr : machine.Reachable Careful sm)
    {id debit timestamp : Nat} (ht : TimestampRange.valid timestamp)
    (h : sm.transfers.lookup (id : U128) = none ∨ sm.accounts.lookup (debit : U128) ≠ none ∧
      sm.accounts.lookup (2 : U128) ≠ none) :
    Careful sm (.createTransfers [transfer id debit 2 0] timestamp) :=
  ⟨ht, harmless_singleton (disjoint_of_reachable hr).1 fun _ => h⟩

-- A transfer fails for good, and the retry of another one that was created does not.
theorem committed_not_orphaned_of_failed : ∃ sm results sm', machine.Reachable Careful sm ∧
    2 ∈ sm.transfersOrphaned ∧ sm.transfers.lookup 1 ≠ none ∧
    (∀ id ∈ sm.transfersOrphaned, sm.transfers.lookup id = none) ∧
    sm.createTransfers [transfer 1 1 2 0] 400 = .ok (results, sm') ∧
    ∀ pair ∈ [transfer 1 1 2 0].zip results, pair.2.status ≠ .idAlreadyFailed := by
  have ⟨sm₁, h₁, hn₁, hm₁⟩ := Meets.iff_exists.mp (show Meets (fun _ => False)
    (fun (sm : StateMachine) => sm.transfers.lookup 1 = none ∧ Meets (fun _ => False)
      (fun (sm : StateMachine) => sm.transfers.lookup 2 = none ∧ Meets (fun _ => False)
        (fun (sm : StateMachine) => (2 ∈ sm.transfersOrphaned ∧ sm.transfers.lookup 1 ≠ none ∧
          sm.accounts.lookup 1 ≠ none ∧ sm.accounts.lookup 2 ≠ none) ∧
          Succeeds (sm.createTransfers [transfer 1 1 2 0] 400))
        (machine.step sm (failed 2)))
      (machine.step sm created))
    (machine.step default accounts) by decide +kernel)
  have ⟨sm₂, h₂, hn₂, hm₂⟩ := Meets.iff_exists.mp hm₁
  have ⟨sm₃, h₃, ⟨ho, hc, hdr, hcr⟩, hm₃⟩ := Meets.iff_exists.mp hm₂
  have ⟨⟨results, sm₄⟩, h₄, _⟩ := Meets.iff_exists.mp hm₃
  have hc₁ : Careful default accounts := ⟨by decide, trivial⟩
  have r₁ : machine.Reachable Careful sm₁ := (Machine.Reachable.init rfl).step hc₁ h₁
  have r₂ : machine.Reachable Careful sm₂ :=
    r₁.step (careful_singleton r₁ (by decide) (.inl hn₁)) h₂
  have r₃ : machine.Reachable Careful sm₃ :=
    r₂.step (careful_singleton r₂ (by decide) (.inl hn₂)) h₃
  have ⟨hd, hr⟩ := committed_not_orphaned r₃
  refine ⟨sm₃, results, sm₄, r₃, ho, hc, hd, h₄, fun pair hp => ?_⟩
  have hcall : Careful sm₃ (.createTransfers [transfer 1 1 2 0] 400) :=
    careful_singleton r₃ (by decide) (.inr ⟨hdr, hcr⟩)
  have hid : pair.1.id = 1 := by
    rw [List.mem_singleton.mp (List.of_mem_zip hp).1]
    rfl
  exact hr _ _ _ _ hcall h₄ pair hp (hid ▸ hc)

-- A transfer that has been created is tried again with an account that does not exist.
theorem committed_orphaned : ¬∀ (_ : Hasher) (sm : StateMachine), machine.Reachable Timely sm →
    ∀ id ∈ sm.transfersOrphaned, sm.transfers.lookup id = none := by
  intro h
  have ⟨sm, hr, ho, hc⟩ := (Machine.Reachable.init rfl).leads (show machine.Leads Timely
    (fun sm => 1 ∈ sm.transfersOrphaned ∧ sm.transfers.lookup 1 ≠ none) [accounts, created, failed 1]
    default by decide +kernel)
  exact hc (h identityHasher sm hr 1 ho)

end StateMachine.Runs

end TigerBeetle.Accounting
