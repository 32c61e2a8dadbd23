import TigerBeetle.Theorems.ChainInvariant
import TigerBeetle.Theorems.Repeats

namespace TigerBeetle.Accounting

open Fallible HashMap Orchestrator

variable {timestamp : Nat}

-- A transfer is no different from its own record, unless its amount has been cut.
theorem createTransferExists_self {t : Transfer} {amount : U128}
    (h : amount ≤ t.amount) :
    Meets (fun _ => False) (fun status => status = .exists ↔ amount = t.amount)
      (createTransferExists t { t with amount, timestamp }) := by
  unfold createTransferExists
  simp only [Meets.bind_eq, Meets.ite_iff, Meets.pure_eq, meets_assert_eq, ne_eq, not_true_eq_false,
    false_implies, true_implies, true_and, not_false_eq_true, and_true, reduceCtorEq, false_iff,
    true_iff]
  refine ⟨fun ⟨_, hlt⟩ he => ?_, fun hpending => ⟨fun ⟨_, hne⟩ he => hne he.symm, fun hposted => ?_⟩⟩
  · exact BitVec.lt_irrefl _ (he ▸ hlt)
  · cases hp : t.flags.pending with
    | false => simpa [hp, eq_comm] using hposted
    | true  => exact BitVec.le_antisymm h (by simpa [hp] using hpending)

theorem postOrVoidPendingTransferExists_self {t p : Transfer} {status : TransferPendingStatus}
    {amount : U128} (h : Resolvable t p status amount)
    (hlater : p.timestamp < timestamp) :
    postOrVoidPendingTransferExists t (foldPostVoidTransfer t p amount timestamp) p =
      .ok .exists := by
  have hamount := h.amountEq
  unfold resolvedAmount at hamount
  have hmeets : Meets (fun _ => False) (fun status => status = .exists)
      (postOrVoidPendingTransferExists t (foldPostVoidTransfer t p amount timestamp) p) := by
    unfold postOrVoidPendingTransferExists foldPostVoidTransfer
    simp only [Meets.bind_eq, Meets.ite_iff, Meets.pure_eq, meets_assert_eq]
    obtain ⟨hpost, hexclusive, _, hpending, hid, hdifferent, htimeout, hdebit, hcredit, hledger, hcode, _,
      _, hwhole, hle⟩ := h
    grind [TransferFlags.postOrVoid]
  obtain ⟨_, he, hs⟩ := Meets.iff_exists.mp hmeets
  exact hs ▸ he

namespace Records

variable {transfers : U128 → Option Transfer} {event record : Transfer} {r : CreateTransferResult}

section

variable (h : Records transfers event r record)

include h

theorem admissible : Admissible event := by
  cases h with
  | plain hc _      => exact hc.admissible
  | resolved ha _ _ => exact ha

theorem exists_iff (hp : event.flags.postOrVoid = false) :
    createTransferExists event record = .ok .exists ↔ r.amountActual = event.amount := by
  cases h with
  | resolved _ _ hr =>
    rw [hr.resolves] at hp
    cases hp
  | plain hc ha =>
    have hle : r.amountActual ≤ event.amount := ha ▸ computeAmountActual_le
    have hself : Meets (fun _ => False) _ (createTransferExists event { event with
      amount := r.amountActual, timestamp := r.timestamp }) := createTransferExists_self hle
    have ⟨status, he, hiff⟩ := Meets.iff_exists.mp hself
    rw [he, ← hiff, Except.ok.injEq]

-- A transfer that posts or voids another one is no different from its record.
theorem resolves (hp : event.flags.postOrVoid = true) :
    event.pendingId = record.pendingId ∧ event.timeout = record.timeout ∧
      ∃ p, transfers event.pendingId = some p ∧ (p.timestamp < r.timestamp →
        postOrVoidPendingTransferExists event record p = .ok .exists) := by
  cases h with
  | plain hc _ =>
    rw [hc.plain] at hp
    cases hp
  | @resolved p _ _ hpl hr =>
    exact ⟨rfl, hr.timeout, p, hpl, postOrVoidPendingTransferExists_self hr⟩

-- The accounts of an event are those of its record.
theorem parties_eq (hp : event.flags.postOrVoid = false) :
    record.debitAccountId = event.debitAccountId ∧
      record.creditAccountId = event.creditAccountId := by
  cases h with
  | plain _ _ => exact ⟨rfl, rfl⟩
  | resolved _ _ hr =>
    rw [hr.resolves] at hp
    cases hp

end

end Records

-- An event that is neither linked nor ends a chain.
theorem Orchestrator.step_unlinked {ε ρ σ : Type} {o : Orchestrator ε ρ σ} {loop : Loop ρ σ}
    {event : ε} {count index : Nat} (hl : o.linked event = false)
    (hc : loop.chain = none) (hb : loop.chainBroken = false) :
    o.step count index event timestamp loop =
      timestampEvent timestamp count index >>= fun t =>
        o.execute event t loop.state >>= fun r =>
          return { loop with
            results := loop.results ++ [r.1]
            state := if o.created r.1 then r.2 else o.orphan event r.1 r.2 } := by
  obtain ⟨results, chain, broken, state⟩ := loop
  obtain rfl : chain = none := hc
  obtain rfl : broken = false := hb
  unfold Orchestrator.step Orchestrator.openChain Orchestrator.result Orchestrator.settle
    Orchestrator.breakChain Orchestrator.closeChain
  simp only [hl, Bool.false_eq_true, false_and, ↓reduceIte, pure_bind]
  congr 1
  funext t
  congr 1
  funext r
  cases o.created r.1 <;> rfl

section Settled

variable {ε ρ σ : Type} {o : Orchestrator ε ρ σ} {loop : Loop ρ σ} {event : ε} {events : List ε}
    {results : List ρ} {count index timestamp : Nat}

-- Results that no chain takes along anymore.
structure Settled (results : List ρ) (loop : Loop ρ σ) : Prop where
  isPrefix : results <+: loop.results
  chain : ∀ start ∈ loop.chain, results.length ≤ start

theorem Settled.breakChain {result : ρ} (h : Settled results loop) :
    Meets (fun _ => True) (Settled results) (o.breakChain event result loop) := by
  obtain ⟨all, chain, broken, state⟩ := loop
  have ⟨⟨rest, hrest⟩, hchain⟩ := h
  obtain rfl : results ++ rest = all := hrest
  unfold Orchestrator.breakChain
  simp only [Meets.ite_iff, Meets.pure_eq]
  refine ⟨fun _ => h, fun _ => ?_⟩
  cases chain with
  | none => exact ⟨⟨rest, rfl⟩, nofun⟩
  | some start =>
    have hle : results.length ≤ start := hchain start rfl
    simp only [Meets.ite_iff, Meets.bind_eq, Meets.pure_eq]
    refine ⟨fun _ => ⟨⟨rest, rfl⟩, hchain⟩, fun _ => Meets.trivial.weaken fun state' _ => ⟨?_, hchain⟩⟩
    refine ⟨rest.take (start - results.length) ++ ((results ++ rest).drop start).map o.markFailed, ?_⟩
    rw [← List.append_assoc, List.take_append, List.take_of_length_le hle]

theorem Settled.step (h : Settled results loop) (hi : results.length ≤ index) :
    Meets (fun _ => True) (Settled results) (o.step count index event timestamp loop) := by
  unfold Orchestrator.step Orchestrator.settle
  simp only [Meets.bind_eq]
  refine Meets.trivial.weaken fun t _ => ?_
  refine Meets.weaken (Q := Settled results) (fun loop h => ?_) ?_
  case refine_1 =>
    refine Meets.trivial.weaken fun ⟨result, state⟩ _ => ?_
    have h' : Settled results { loop with state } := ⟨h.isPrefix, h.chain⟩
    refine h'.breakChain.weaken fun loop' h' => ?_
    have hresults := h'.isPrefix.trans (List.prefix_append loop'.results [result])
    unfold Orchestrator.closeChain
    simp only [Meets.ite_iff, Meets.bind_eq, Meets.pure_eq]
    exact ⟨fun _ => Meets.trivial.weaken fun _ _ => ⟨hresults, nofun⟩, fun _ => ⟨hresults, h'.chain⟩⟩
  case refine_2 =>
    unfold Orchestrator.openChain
    simp only [Meets.ite_iff, Meets.bind_eq, Meets.pure_eq, partial_assert]
    refine ⟨fun _ _ => Meets.trivial.weaken fun _ _ => ⟨h.isPrefix, fun start hs => ?_⟩, fun _ => h⟩
    cases hs
    exact hi

theorem Settled.run (h : Settled results loop) (hi : results.length ≤ index) :
    Meets (fun _ => True) (Settled results) (o.run count timestamp index events loop) := by
  induction events generalizing index loop with
  | nil => exact h
  | cons event events ih =>
    simp only [Orchestrator.run, Meets.bind_eq]
    exact (h.step hi).weaken fun loop' h' => ih h' (Nat.le_succ_of_le hi)

end Settled

namespace TransfersBatch

-- No account and no transfer is lost.
def Retains (base : TransfersView) (_ : Nat) (view : TransfersView) : Prop :=
  (∀ id, base.accounts id ≠ none → view.accounts id ≠ none) ∧
    ∀ id t, base.transfers id = some t → view.transfers id = some t

theorem Step.retains {batch : TransfersBatch} {base a b : TransfersView} {event : Transfer}
    {index : Nat} {result : CreateTransferResult}
    (h : batch.Step a event timestamp result b) (hr : Retains base index a) :
    Retains base (index + 1) b := by
  by_cases hc : result.status = .created
  · refine ⟨fun id hid => ?_, fun id t ht => (h.extends hc).keeps _ _ (hr.2 _ _ ht)⟩
    have haccounts : ∃ dr cr, b.accounts =
        Function.update (Function.update a.accounts dr.id (some dr)) cr.id (some cr) := by
      have ⟨_, _, _, _, _, hstep⟩ := h.created hc
      obtain ⟨_, _, hcreates⟩ | ⟨_, _, _, _, _, _, hresolves⟩ := hstep
      · rw [hcreates.after]
        exact ⟨_, _, TransfersView.accounts_create⟩
      · rw [hresolves.after]
        exact ⟨_, _, rfl⟩
    have ⟨dr, cr, haccounts⟩ := haccounts
    rw [haccounts, Function.update_apply, Function.update_apply]
    split
    · nofun
    · split
      · nofun
      · exact hr.1 id hid
  · rw [h.failed hc]
    exact hr

variable [Hasher] {batch : TransfersBatch} {state : TransfersState} {event e : Transfer}
    {timestamp : Nat}

theorem readCachedAccount_some {objects : AccountObjectsCache} {prefetch : TransferPrefetchKeys}
    {id : U128} {account : Account} (hi : objects.Idle) (h : objects.view id = some account) :
    Meets (fun _ => False)
      (fun (r : Option Account × AccountObjectsCache) =>
        r.1 = some account ∧ r.2.Idle ∧ r.2.view = objects.view)
      (readCachedAccount objects prefetch id) := by
  have hget : (objects.get id).1 = some account := (CacheMap.usable_idle.get_fst id hi).trans h
  unfold readCachedAccount
  simp only [Meets.bind_eq, Meets.pure_eq, meets_assert_eq, hget, reduceCtorEq, false_implies,
    true_implies, not_true_eq_false, and_true, true_and]
  exact ⟨CacheMap.usable_idle.get _ _ hi, CacheMap.usable_idle.view_get id hi⟩

theorem transfer_repeats {dr cr : Account} (he : createTransferExists event e = .ok .exists)
    (had : Admissible event) (ht : timestamp ≠ 0) :
    Meets (fun _ => False) (fun r => r = (⟨.exists, e.timestamp, 0⟩, state))
      (batch.transfer event timestamp (some e) dr cr state) := by
  have hcreate : createTransfer event timestamp (some e) dr cr = .ok .exists := by
    unfold createTransfer assert assertOn
    simp only [if_pos ht, had.padding, Bool.false_eq_true, if_false, if_neg had.id,
      if_neg had.idMax, ok_bind, he]
  unfold transfer regresses createTransferOutcome
  simp [hcreate]

-- An event whose record is no different is answered with the record.
theorem execute_repeats (hs : Caches CacheMap.Idle CacheMap.Idle CacheMap.Idle state)
    (hreject : batch.reject event = none)
    (hrep : batch.Repeats state.view event e.timestamp e) (had : Admissible event)
    (haccounts : event.flags.postOrVoid = false → ∃ dr cr,
      state.view.accounts event.debitAccountId = some dr ∧
        state.view.accounts event.creditAccountId = some cr)
    (hresolves : event.flags.postOrVoid = true →
      event.pendingId = e.pendingId ∧ event.timeout = e.timeout)
    (ht : timestamp ≠ 0) :
    Meets (fun _ => False)
      (fun r => r.1 = ⟨.exists, e.timestamp, 0⟩ ∧ r.2.view = state.view)
      (batch.execute event timestamp state) := by
  have hget : (state.transfersObjects.get event.id).1 = some e :=
    (CacheMap.usable_idle.get_fst _ hs.transfers).trans hrep.record
  have hidle := CacheMap.usable_idle.get _ event.id hs.transfers
  have hview := CacheMap.usable_idle.view_get event.id hs.transfers
  have horphaned : ¬(event.id ∈ state.workingOrphaned ∨ event.id ∈ batch.orphaned) :=
    not_or.mpr ⟨hrep.working, hrep.orphaned⟩
  unfold execute
  simp only [hreject, Meets.bind_eq, meets_assert_eq, hget, reduceCtorEq, false_implies, true_implies,
    not_true_eq_false, and_true, if_neg horphaned]
  cases hp : event.flags.postOrVoid with
  | false =>
    have ⟨dr, cr, hd, hc⟩ := haccounts hp
    unfold plain
    simp only [Bool.false_eq_true, ↓reduceIte, Meets.bind_eq]
    refine (readCachedAccount_some hs.accounts hd).weaken fun ⟨dr', objects₁⟩ ⟨hd', hi₁, hv₁⟩ => ?_
    dsimp only at hd' hi₁ hv₁ ⊢
    refine (readCachedAccount_some hi₁ ((congrFun hv₁ _).trans hc)).weaken
      fun ⟨cr', objects₂⟩ ⟨hc', _, hv₂⟩ => ?_
    dsimp only at hc' hv₂ ⊢
    subst hd' hc'
    refine (transfer_repeats (hrep.plain hp) had ht).weaken fun r hr => ?_
    subst hr
    exact ⟨rfl, by simp only [TransfersState.view, hv₂, hv₁, hview]⟩
  | true =>
    have ⟨hflags, p, hpl, hexists⟩ := hrep.resolves hp
    have ⟨hpid, htimeout⟩ := hresolves hp
    have hpget : ((state.transfersObjects.get event.id).2.get event.pendingId).1 = some p := by
      rw [CacheMap.usable_idle.get_fst _ hidle, hview]
      exact hpl
    have hpview := CacheMap.usable_idle.view_get event.pendingId hidle
    unfold postOrVoid
    simp only [↓reduceIte, had.padding, Bool.false_eq_true, if_neg had.id, if_neg had.idMax,
      Meets.bind_eq, meets_assert_eq]
    rw [if_neg (not_not.mpr hflags), if_neg (not_not.mpr hpid), if_neg (not_not.mpr htimeout), hpget]
    refine ⟨fun _ => ?_, fun h => h nofun⟩
    simp only [expect, pure_bind, hexists, ok_bind, ↓reduceIte, Meets.pure_eq, true_and]
    simp only [TransfersState.view, hpview, hview]

theorem maintains_retains {hb : batch.timestamp ≤ TimestampRange.timestampMax}
    {base : TransfersView} {count : Nat} {events : List Transfer} :
    (batch.law hb).Maintains timestamp count events (Retains base) where
  step _ _ _ _ _ _ h hr := Step.retains h hr
  orphaned _ event result a h := by
    simp only [law]
    split <;> exact h
  rewind _ _ _ _ _ h _ := h
  mono _ _ _ _ h := h

-- An event is answered with the timestamp that it was created with, now and when the batch is over,
-- and nothing else happens.
def Retried (batch : TransfersBatch) (timestamp : Nat) (before : List Transfer) (event : Transfer)
    (after : List Transfer) (loop : Loop CreateTransferResult TransfersState) (stored : Nat) : Prop :=
  ∃ loop', batch.orchestrator.step (before ++ event :: after).length before.length event timestamp
      loop = .ok loop' ∧
    loop'.results = loop.results ++ [⟨.exists, stored, 0⟩] ∧ loop'.state.view = loop.state.view ∧
    ∀ last, batch.orchestrator.run (before ++ event :: after).length timestamp (before.length + 1)
      after loop' = .ok last → last.results[before.length]? = some ⟨.exists, stored, 0⟩

end TransfersBatch

namespace StateMachine

variable [Hasher] {sm : StateMachine} {created : List (Transfer × CreateTransferResult)}
    {before after : List Transfer} {event : Transfer} {r : CreateTransferResult} {timestamp : Nat}
    {batch : TransfersBatch} {loop : Loop CreateTransferResult TransfersState}

-- A batch that has come to one of its events, out of a chain.
structure Reaches (sm : StateMachine) (before : List Transfer) (event : Transfer)
    (after : List Transfer) (timestamp : Nat) (batch : TransfersBatch)
    (loop : Loop CreateTransferResult TransfersState) : Prop where
  count : (before ++ event :: after).length ≤ timestamp
  unlinked : event.flags.linked = false
  chain : loop.chain = none
  run : ∃ accountTimestamps sm', sm.createTransfersPrefetch
      (prefetchCreateTransfers (before ++ event :: after) fun id => sm.transfers.lookup id) =
        .ok (accountTimestamps, sm') ∧
    batch = transfersBatch (before ++ event :: after) timestamp accountTimestamps sm' ∧
    batch.orchestrator.run (before ++ event :: after).length timestamp 0 before
      { results := [], chain := none, chainBroken := false, state := transfersState sm' } = .ok loop

-- What a batch has come to.
structure Reached (sm : StateMachine) (before : List Transfer) (event : Transfer)
    (after : List Transfer) (loop : Loop CreateTransferResult TransfersState) : Prop where
  whole : loop.chainBroken = false
  idle : Caches CacheMap.Idle CacheMap.Idle CacheMap.Idle loop.state
  length : loop.results.length = before.length
  closed : ∀ last ∈ before.getLast?, last.flags.linked = false
  accounts : ∀ id ∈ (prefetchCreateTransfers (before ++ event :: after) fun id =>
      sm.transfers.lookup id).accountIds,
    sm.ledger.account id ≠ none → loop.state.view.accounts id ≠ none
  transfers : ∀ id ∈ (prefetchCreateTransfers (before ++ event :: after) fun id =>
      sm.transfers.lookup id).transferIds,
    ∀ t, sm.ledger.transfer id = some t → loop.state.view.transfers id = some t

theorem Sound.reached (h : Sound sm) (ht : timestamp ≤ TimestampRange.timestampMax)
    (hr : sm.Reaches before event after timestamp batch loop) :
    Reached sm before event after loop := by
  have ⟨accountTimestamps, sm', hp, hbatch, hrun⟩ := hr.run
  have hpre : Prefetched sm (prefetchCreateTransfers (before ++ event :: after) fun id =>
      sm.transfers.lookup id) sm' := h.createTransfersPrefetch.post hp
  have hf := hpre.follows h
  subst hbatch
  let law := @TransfersBatch.law _
    (transfersBatch (before ++ event :: after) timestamp accountTimestamps sm') ht
  have hout : law.Outside (transfersState sm').view []
      { results := [], chain := none, chainBroken := false, state := transfersState sm' } :=
    ⟨rfl, rfl, ⟨hpre.accounts.idle, hpre.transfers.idle, hpre.pendings.idle⟩, rfl, rfl⟩
  have hstart : law.Underway timestamp (before ++ event :: after).length (before ++ event :: after)
      (TransfersBatch.Retains (transfersState sm').view)
      { results := [], chain := none, chainBroken := false, state := transfersState sm' } 0 :=
    .outside hout ⟨fun _ => id, fun _ _ => id⟩
  have hv : ∀ index < (before ++ event :: after).length,
      law.Valid (stamp timestamp (before ++ event :: after).length index) := by
    intro index hlt
    have := hr.count
    show stamp timestamp _ index ≤ timestamp
    unfold stamp
    omega
  have hclosed : ∀ last ∈ before.getLast?, last.flags.linked = false := by
    intro last hlast
    obtain ⟨init, rfl⟩ := List.getLast?_eq_some_iff.mp hlast
    rw [run_append] at hrun
    have ⟨opened, hinit, hstep⟩ := bind_eq_ok.mp hrun
    have ⟨loop', hstep, hend⟩ := bind_eq_ok.mp hstep
    cases hend
    have hunderway := (hstart.run TransfersBatch.maintains_retains hv
      (fun e he => by simp [he]) (by simp) : Meets _ _ _).post hinit
    by_contra hlinked
    exact (hunderway.chain_of_linked (hv _ (by simp)) (Bool.eq_true_of_not_eq_false hlinked) (by simp)).post
      hstep hr.chain
  have hrun := (hstart.run TransfersBatch.maintains_retains hv (fun e he => List.mem_append_left _ he)
    (by simp) : Meets _ _ _).post hrun
  have hchain := hr.chain
  have hlen := hrun.length_eq
  have hholds := hrun.holds TransfersBatch.maintains_retains
  rw [Nat.zero_add] at hlen
  have hwhole : loop.chainBroken = false ∧
      Caches CacheMap.Idle CacheMap.Idle CacheMap.Idle loop.state := by
    generalize 0 + before.length = index at hrun
    cases hrun with
    | outside h _    => exact ⟨h.whole, h.idle⟩
    | inside h _ _ _ =>
      rw [h.chain] at hchain
      cases hchain
  refine ⟨hwhole.1, hwhole.2, hlen, hclosed, fun id hid ha => ?_, fun id hid t ht => ?_⟩
  · refine hholds.1 id ?_
    rw [hf.accounts id hid]
    exact ha
  · exact hholds.2 id t ((hf.transfers id hid).trans ht)

theorem retried_iff_execute {t stored : Nat} (hr : sm.Reaches before event after timestamp batch loop)
    (hb : loop.chainBroken = false) (hlen : loop.results.length = before.length)
    (ht : timestampEvent timestamp (before ++ event :: after).length before.length = .ok t) :
    batch.Retried timestamp before event after loop stored ↔
      Meets (fun _ => False) (fun r => r.1 = ⟨.exists, stored, 0⟩ ∧ r.2.view = loop.state.view)
        (batch.execute event t loop.state) := by
  have hl : batch.orchestrator.linked event = false := hr.unlinked
  unfold TransfersBatch.Retried
  rw [step_unlinked hl hr.chain hb, ht, ok_bind, Meets.iff_exists]
  constructor
  · intro ⟨loop', hstep, hresults, hview, _⟩
    have ⟨⟨result, state⟩, hx, he⟩ := bind_eq_ok.mp hstep
    cases he
    have hresult := List.append_cancel_left hresults
    cases hresult
    exact ⟨_, hx, rfl, hview⟩
  · intro ⟨⟨result, state⟩, hx, hresult, hview⟩
    dsimp only at hresult hview
    subst hresult
    have hx : batch.orchestrator.execute event t loop.state = _ := hx
    rw [hx]
    refine ⟨{ loop with results := loop.results ++ [⟨.exists, stored, 0⟩], state }, rfl, rfl, hview,
      fun last hrun => ?_⟩
    have hsettled : Settled (loop.results ++ [⟨.exists, stored, 0⟩])
        { loop with results := loop.results ++ [⟨.exists, stored, 0⟩], state } :=
      ⟨List.prefix_refl _, fun start hs => absurd (hr.chain.symm.trans hs) nofun⟩
    have ⟨rest, hrest⟩ := ((hsettled.run (by simp [hlen])).post hrun).isPrefix
    rw [← hrest, List.getElem?_append_left (by simp [hlen]), ← hlen, List.getElem?_concat_length]

-- When the retry of an event that has been created is answered as it is to be: its id has not been
-- poisoned, its amount was not cut, and a transfer that posts or voids another one was created
-- after that one.
structure Retriable (sm : StateMachine) (event : Transfer) (r : CreateTransferResult)
    (batch : TransfersBatch) (loop : Loop CreateTransferResult TransfersState) : Prop where
  working : event.id ∉ loop.state.workingOrphaned
  orphaned : event.id ∉ batch.orphaned
  amount : event.flags.postOrVoid = false → r.amountActual = event.amount
  later : event.flags.postOrVoid = true →
    ∀ p, sm.transfers.lookup event.pendingId = some p → p.timestamp < r.timestamp

theorem Recorded.retries (hrecorded : Recorded sm created)
    (hc : (event, r) ∈ created) (ht : Timely sm (.createTransfers (before ++ event :: after) timestamp))
    (hr : sm.Reaches before event after timestamp batch loop) (hreject : batch.reject event = none) :
    batch.Retried timestamp before event after loop r.timestamp ↔
      Retriable sm event r batch loop := by
  have ⟨_, _, record, hl, hrecord⟩ := hrecorded.records _ hc
  dsimp only at hl hrecord
  have hreached := hrecorded.sound.reached ht.2 hr
  have hkeys := @prefetches sm (before ++ event :: after)
  have hm : event ∈ before ++ event :: after := by simp
  have hrecordView := hreached.transfers _ (hkeys.id event hm) record hl
  have hcount := hr.count
  have hlen : before.length < (before ++ event :: after).length := by simp
  have hstamp : timestampEvent timestamp (before ++ event :: after).length before.length =
      .ok (stamp timestamp (before ++ event :: after).length before.length) := by
    unfold timestampEvent assert assertOn
    rw [if_pos hcount]
    rfl
  have ⟨_, _, _, hbatch, _⟩ := hr.run
  have hbatchTimestamp : batch.timestamp = timestamp := hbatch ▸ rfl
  rw [retried_iff_execute hr hreached.whole hreached.length hstamp]
  constructor
  case mp =>
    intro hmeets
    have ⟨⟨result, state⟩, hx, hresult, _⟩ := Meets.iff_exists.mp hmeets
    dsimp only at hresult
    subst hresult
    have hvalid : stamp timestamp (before ++ event :: after).length before.length ≤
        batch.timestamp := by
      rw [hbatchTimestamp]
      unfold stamp
      omega
    have ⟨_, _, hstep⟩ := (TransfersBatch.execute_meets CacheMap.usable_idle CacheMap.usable_idle
      CacheMap.usable_idle hreached.idle hvalid (hbatchTimestamp ▸ ht.2)).post hx
    have ⟨e, hrep⟩ := hstep.repeated rfl
    obtain rfl : record = e := Option.some.inj (hrecordView.symm.trans hrep.record)
    refine ⟨hrep.working, hrep.orphaned, fun hp => ?_, fun hp p hpl => ?_⟩
    · exact (hrecord.exists_iff hp).mp (hrep.plain hp)
    · have ⟨_, p', hpl', hexists⟩ := hrep.resolves hp
      have hpview := hreached.transfers _ (hkeys.pending event hm hp).1 p hpl
      obtain rfl : p = p' := Option.some.inj (hpview.symm.trans hpl')
      exact hrecord.timestamp_eq ▸ (comparedResolved_of_exists hexists).later
  case mpr =>
    intro ⟨hworking, horphaned, hamount, hlater⟩
    have hrep : batch.Repeats loop.state.view event record.timestamp record := by
      refine ⟨hworking, horphaned, hrecordView, rfl,
        fun hp => (hrecord.exists_iff hp).mpr (hamount hp), fun hp => ?_⟩
      have ⟨_, _, p, hpl, hexists⟩ := hrecord.resolves hp
      have hpview := hreached.transfers _ (hkeys.pending event hm hp).1 p hpl
      exact ⟨congrArg TransferFlags.raw hrecord.flags_eq.symm, p, hpview, hexists (hlater hp p hpl)⟩
    refine Meets.weaken ?_ (TransfersBatch.execute_repeats hreached.idle hreject hrep
      hrecord.admissible (fun hp => ?_) (fun hp => ?_) ?_)
    case refine_1 => exact fun _ h => hrecord.timestamp_eq ▸ h
    case refine_2 =>
      have ⟨hdid, hcid⟩ := hkeys.accounts event hm hp
      have ⟨hdebit, hcredit⟩ := hrecorded.sound.balanced.parties _ _ hl
      rw [(hrecord.parties_eq hp).1] at hdebit
      rw [(hrecord.parties_eq hp).2] at hcredit
      have ⟨dr, hd, _⟩ := Option.map_eq_some_iff.mp hdebit
      have ⟨cr, hc, _⟩ := Option.map_eq_some_iff.mp hcredit
      have hd : sm.ledger.account event.debitAccountId = some dr := hd
      have hc : sm.ledger.account event.creditAccountId = some cr := hc
      have ⟨dr', hd'⟩ := Option.ne_none_iff_exists'.mp (hreached.accounts _ hdid (by rw [hd]; nofun))
      have ⟨cr', hc'⟩ := Option.ne_none_iff_exists'.mp (hreached.accounts _ hcid (by rw [hc]; nofun))
      exact ⟨dr', cr', hd', hc'⟩
    case refine_3 =>
      have ⟨hpid, htimeout, _⟩ := hrecord.resolves hp
      exact ⟨hpid, htimeout⟩
    case refine_4 => exact Nat.succ_ne_zero _

-- What a batch leaves in the stores without one of its events, which it neither persists nor
-- orphans.
def persistOthers (sm : StateMachine) (before after : List (Transfer × CreateTransferResult))
    (timestamp : Nat) : Result StateMachine := do
  let persist := persistBatch (fun (event : Transfer) => event.flags.linked)
    (fun (result : CreateTransferResult) => decide (result.status = .created))
    (persistTransferEvent timestamp (before.length + 1 + after.length))
  persist (before.length + 1) [] after (← persist 0 [] before (sm.orphan (before ++ after)))

-- The batch returns the answer, and the state in which it returns is what the other events lead to.
def Unchanged (sm : StateMachine) (before : List Transfer) (event : Transfer)
    (after : List Transfer) (timestamp stored : Nat) : Prop :=
  ∀ results sm', sm.createTransfers (before ++ event :: after) timestamp = .ok (results, sm') →
    ∃ (sm₀ : StateMachine) (resultsBefore resultsAfter : List CreateTransferResult),
      resultsBefore.length = before.length ∧
      results = resultsBefore ++ ⟨.exists, stored, 0⟩ :: resultsAfter ∧
      sm₀.ledger = sm.ledger ∧ sm₀.transfersOrphaned = sm.transfersOrphaned ∧
      sm₀.persistOthers (before.zip resultsBefore) (after.zip resultsAfter) timestamp = .ok sm'

omit [Hasher] in
theorem persistTransfers_of_exists {sm₀ : StateMachine} {stored : Nat}
    {resultsBefore resultsAfter : List CreateTransferResult} (hl : event.flags.linked = false)
    (hclosed : ∀ last ∈ before.getLast?, last.flags.linked = false)
    (hbefore : resultsBefore.length = before.length) (hafter : resultsAfter.length = after.length) :
    sm₀.persistTransfers (before ++ event :: after)
        (resultsBefore ++ ⟨.exists, stored, 0⟩ :: resultsAfter) timestamp =
      sm₀.persistOthers (before.zip resultsBefore) (after.zip resultsAfter) timestamp := by
  have hlen : (before.zip resultsBefore).length = before.length := by simp [hbefore]
  have hclosed : ∀ last ∈ (before.zip resultsBefore).getLast?, last.1.flags.linked = false := by
    intro last hlast
    refine hclosed last.1 ?_
    rw [← List.map_fst_zip hbefore.ge, List.getLast?_map, hlast]
    rfl
  have horphan : sm₀.orphan (before.zip resultsBefore ++
      (event, ⟨.exists, stored, 0⟩) :: after.zip resultsAfter) =
      sm₀.orphan (before.zip resultsBefore ++ after.zip resultsAfter) := by
    unfold orphan
    rw [List.foldl_append, List.foldl_append]
    rfl
  unfold persistTransfers persistOthers
  rw [List.zip_append hbefore.symm, List.zip_cons_cons, horphan,
    persistBatch_skip hclosed (fun _ => rfl) hl (by simp)]
  simp [hlen, hafter, Nat.add_assoc, Nat.add_comm 1]

theorem Recorded.unchanged (hrecorded : Recorded sm created)
    (ht : Timely sm (.createTransfers (before ++ event :: after) timestamp))
    (hr : sm.Reaches before event after timestamp batch loop) {stored : Nat}
    (hretried : batch.Retried timestamp before event after loop stored) :
    sm.Unchanged before event after timestamp stored := by
  intro results sm' hrun
  have hreached := hrecorded.sound.reached ht.2 hr
  obtain ⟨loop', hstep, _, _, hlast⟩ := hretried
  have ⟨accountTimestamps, sm₁, hp, hbatch, hbefore⟩ := hr.run
  have hpre : Prefetched sm _ sm₁ := hrecorded.sound.createTransfersPrefetch.post hp
  have hlookup : sm₁.transfers = sm.transfers := congrArg Ledger.transfers hpre.ledger
  unfold StateMachine.createTransfers at hrun
  obtain ⟨_, _, hrun⟩ := bind_eq_ok.mp hrun
  obtain ⟨prefetched, hp', hrun⟩ := bind_eq_ok.mp hrun
  rw [hp] at hp'
  cases hp'
  obtain ⟨last, hexecute, hrun⟩ := bind_eq_ok.mp hrun
  obtain ⟨_, hpersist, hreturn⟩ := bind_eq_ok.mp hrun
  cases hreturn
  have hexecute : batch.orchestrator.orchestrate timestamp (before ++ event :: after)
      (transfersState sm₁) = .ok last := by
    rw [hbatch, transfersBatch, hlookup]
    exact hexecute
  let law := @TransfersBatch.law _ batch (hbatch ▸ ht.2)
  have hidle : law.Idle (transfersState sm₁) :=
    ⟨hpre.accounts.idle, hpre.transfers.idle, hpre.pendings.idle⟩
  have hvalid : ∀ t ≤ timestamp, law.Valid t := by
    intro t hle
    show t ≤ batch.timestamp
    rw [hbatch]
    exact hle
  have hlength := ((law.orchestrate_meets (R := fun _ _ => True) hidle hvalid
    fun _ _ _ _ _ _ => trivial).post hexecute).2.length_eq
  unfold Orchestrator.orchestrate at hexecute
  rw [run_append, hbefore, ok_bind, Nat.zero_add] at hexecute
  simp only [Orchestrator.run, hstep, ok_bind] at hexecute
  obtain ⟨_, hafter, hexecute⟩ := bind_eq_ok.mp hexecute
  obtain ⟨_, _, hexecute⟩ := bind_eq_ok.mp hexecute
  obtain ⟨_, _, hexecute⟩ := bind_eq_ok.mp hexecute
  cases hexecute
  have hget := hlast _ hafter
  have hresults : last.results = last.results.take before.length ++
      ⟨.exists, stored, 0⟩ :: last.results.drop (before.length + 1) := by
    rw [← (List.getElem?_eq_some_iff.mp hget).2, ← List.drop_eq_getElem_cons, List.take_append_drop]
  rw [List.length_append, List.length_cons] at hlength
  let sm₀ : StateMachine := { sm₁ with
    accountsObjects := last.state.accountsObjects
    transfersObjects := last.state.transfersObjects
    transfersPendingObjects := last.state.transfersPendingObjects }
  refine ⟨sm₀, last.results.take before.length, last.results.drop (before.length + 1),
    by simp; omega, hresults, hpre.ledger, hpre.orphaned, ?_⟩
  rw [hresults] at hpersist
  rw [← persistTransfers_of_exists hr.unlinked hreached.closed (by simp; omega) (by simp; omega)]
  exact hpersist

-- What is to be retried is answered as it has been, whereupon the batch leaves what it leaves
-- without it.
theorem retried_iff (h : recording.Reachable TimelyRecorded (sm, created))
    (hc : (event, r) ∈ created)
    (ht : Timely sm (.createTransfers (before ++ event :: after) timestamp))
    (hr : sm.Reaches before event after timestamp batch loop) (hreject : batch.reject event = none) :
    (batch.Retried timestamp before event after loop r.timestamp ∧
      sm.Unchanged before event after timestamp r.timestamp) ↔ Retriable sm event r batch loop := by
  have hrecorded := recorded_of_reachable h
  rw [← hrecorded.retries hc ht hr hreject]
  exact ⟨And.left, fun hretried => ⟨hretried, hrecorded.unchanged ht hr hretried⟩⟩

end StateMachine

namespace StateMachine.Runs

open Accounting.Runs

attribute [local instance] identityHasher

theorem reaches_of_leads {event : Transfer} {r : CreateTransferResult} {calls : List Call}
    (hl : event.flags.linked = false) (ht : 1 ≤ timestamp)
    (h : recording.Leads TimelyRecorded
      (fun s => (event, r) ∈ s.2 ∧ Meets (fun _ => False)
        (fun (p : List Nat × StateMachine) => p.2.transfersOrphaned = ∅)
        (s.1.createTransfersPrefetch
          (prefetchCreateTransfers [event] fun id => s.1.transfers.lookup id)))
      calls (default, [])) :
    ∃ sm created accountTimestamps sm', recording.Reachable TimelyRecorded (sm, created) ∧
      (event, r) ∈ created ∧ sm'.transfersOrphaned = ∅ ∧
      sm.Reaches [] event [] timestamp (transfersBatch [event] timestamp accountTimestamps sm')
        { results := [], chain := none, chainBroken := false, state := transfersState sm' } := by
  have hinit : recording.Reachable TimelyRecorded (default, []) := .init ⟨rfl, rfl⟩
  have ⟨⟨sm, created⟩, hr, hc, hm⟩ := hinit.leads h
  have ⟨⟨accountTimestamps, sm'⟩, hp, horphaned⟩ := Meets.iff_exists.mp hm
  exact ⟨sm, created, accountTimestamps, sm', hr, hc, horphaned,
    ht, hl, rfl, accountTimestamps, sm', hp, rfl, rfl⟩

theorem retried_of_created : ∃ sm created accountTimestamps sm',
    recording.Reachable TimelyRecorded (sm, created) ∧
    (transfersBatch [transfer 1 1 2 0] 300 accountTimestamps sm').Retried 300 [] (transfer 1 1 2 0) []
      { results := [], chain := none, chainBroken := false, state := transfersState sm' } 200 ∧
    sm.Unchanged [] (transfer 1 1 2 0) [] 300 200 := by
  have ⟨sm, created, accountTimestamps, sm', hr, hc, ho, hreaches⟩ := @reaches_of_leads 300
    (transfer 1 1 2 0) ⟨.created, 200, 1⟩ [accounts, .createTransfers [transfer 1 1 2 0] 200]
    (by decide) (by decide) (by decide +kernel)
  have ht : Timely sm (.createTransfers ([] ++ [transfer 1 1 2 0]) 300) :=
    show TimestampRange.valid 300 by decide
  refine ⟨sm, created, accountTimestamps, sm', hr, (retried_iff hr hc ht hreaches rfl).mpr ?_⟩
  exact ⟨Finset.notMem_empty _, by rw [show (transfersBatch _ _ _ sm').orphaned = ∅ from ho]; simp,
    fun _ => rfl, fun hp => absurd hp (by decide)⟩

-- The first account has a credit of five when it is debited by ten at most.
def credited : Call :=
  .createTransfers [{ transfer 1 2 1 0 with amount := 5 }] 200

def balancing : Transfer :=
  { transfer 2 1 2 16 with amount := 10 }

-- A transfer whose amount was cut differs from its own record.
theorem not_retried : ¬∀ (_ : Hasher) (sm : StateMachine)
    (created : List (Transfer × CreateTransferResult)) (before after : List Transfer)
    (event : Transfer) (r : CreateTransferResult) (timestamp : Nat) (batch : TransfersBatch)
    (loop : Loop CreateTransferResult TransfersState),
    recording.Reachable TimelyRecorded (sm, created) → (event, r) ∈ created →
    Timely sm (.createTransfers (before ++ event :: after) timestamp) →
    sm.Reaches before event after timestamp batch loop → batch.reject event = none →
    batch.Retried timestamp before event after loop r.timestamp := by
  intro h
  have ⟨sm, created, accountTimestamps, sm', hr, hc, _, hreaches⟩ := @reaches_of_leads 400
    balancing ⟨.created, 300, 5⟩ [accounts, credited, .createTransfers [balancing] 300]
    (by decide) (by decide) (by decide +kernel)
  have ht : Timely sm (.createTransfers ([] ++ [balancing]) 400) :=
    show TimestampRange.valid 400 by decide
  have hretried := h identityHasher _ _ _ _ _ _ _ _ _ hr hc ht hreaches rfl
  have hretriable := ((recorded_of_reachable hr).retries hc ht hreaches rfl).mp hretried
  exact absurd (hretriable.amount (by decide)) (by decide)

end StateMachine.Runs

end TigerBeetle.Accounting
