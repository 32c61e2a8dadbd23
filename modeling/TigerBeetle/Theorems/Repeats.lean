import TigerBeetle.Theorems.History

namespace TigerBeetle.Accounting

open Fallible HashMap Orchestrator

-- What a field of an event stands for. Zero stands for that of the pending transfer, if the event
-- posts or voids one.
def meant {α : Type} [Zero α] [DecidableEq α] (p event : Transfer) (field : Transfer → α) : α :=
  if event.flags.postOrVoid ∧ field event = 0 then field p else field event

-- Whether the amounts of two events are the same. That of a balancing one is an upper bound of the
-- amount that was created.
def SameAmount (p creator event : Transfer) (amount : U128) : Prop :=
  if event.flags.postOrVoid then
    resolvedAmount event p = resolvedAmount creator p
  else if event.flags.balancingDebit ∨ event.flags.balancingCredit then
    amount ≤ event.amount
  else
    event.amount = creator.amount

-- Whether an event asks for what another one has asked for, that was created with an amount.
structure Agrees (p creator event : Transfer) (amount : U128) : Prop where
  flags : event.flags = creator.flags
  debitAccountId : meant p event Transfer.debitAccountId = meant p creator Transfer.debitAccountId
  creditAccountId : meant p event Transfer.creditAccountId = meant p creator Transfer.creditAccountId
  amount : SameAmount p creator event amount
  pendingId : event.pendingId = creator.pendingId
  userData128     : meant p event Transfer.userData128 = meant p creator Transfer.userData128
  userData64      : meant p event Transfer.userData64 = meant p creator Transfer.userData64
  userData32      : meant p event Transfer.userData32 = meant p creator Transfer.userData32
  timeout : event.timeout = creator.timeout
  ledger : meant p event Transfer.ledger = meant p creator Transfer.ledger
  code : meant p event Transfer.code = meant p creator Transfer.code

theorem TransferFlags.ext_raw {flags flags' : TransferFlags} (h : flags.raw = flags'.raw) :
    flags = flags' := by
  cases flags
  cases flags'
  exact congrArg TransferFlags.mk h

-- What is compared with the record of a transfer.
structure Compared (t e : Transfer) : Prop where
  flags : t.flags = e.flags
  debit : t.debitAccountId = e.debitAccountId
  credit : t.creditAccountId = e.creditAccountId
  pending : t.flags.pending = true → t.amount ≤ e.amount
  posted : t.flags.pending = false → t.amount = e.amount
  pendingId : t.pendingId = e.pendingId
  userData128 : t.userData128 = e.userData128
  userData64  : t.userData64 = e.userData64
  userData32  : t.userData32 = e.userData32
  timeout : t.timeout = e.timeout
  code : t.code = e.code

variable {t : Transfer}

theorem compared_of_exists {e : Transfer} (h : createTransferExists t e = .ok .exists) :
    Compared t e := by
  have hmeets : Meets (fun _ => True) (fun status => status = .exists → Compared t e)
      (createTransferExists t e) := by
    unfold createTransferExists
    simp only [Meets.bind_eq, Meets.ite_iff, Meets.pure_eq, partial_assert]
    intro _
    simp only [reduceCtorEq, false_implies, implies_true, true_and]
    intro hflags hdebit hcredit hpending hposted hpid h128 h64 h32 htimeout hcode _
    exact {
      flags := TransferFlags.ext_raw (not_not.mp hflags)
      debit := not_not.mp hdebit
      credit := not_not.mp hcredit
      pending := fun hp => by simpa [hp] using hpending
      posted := fun hp => by simpa [hp] using hposted
      pendingId := not_not.mp hpid
      userData128 := not_not.mp h128
      userData64 := not_not.mp h64
      userData32 := not_not.mp h32
      timeout := not_not.mp htimeout
      code := not_not.mp hcode
    }
  exact hmeets.post h rfl

-- What is compared with the record of a transfer that posts or voids another one.
structure ComparedResolved (t e p : Transfer) : Prop where
  id : p.id = t.pendingId
  pendingId : t.pendingId = e.pendingId
  timeout : t.timeout = 0
  later : p.timestamp < e.timestamp
  debit : t.debitAccountId = 0 ∨ t.debitAccountId = e.debitAccountId
  credit : t.creditAccountId = 0 ∨ t.creditAccountId = e.creditAccountId
  void : t.flags.voidPendingTransfer = true →
    (if t.amount = 0 then p.amount else t.amount) = e.amount
  post : t.flags.postPendingTransfer = true →
    (if t.amount = u128Max then p.amount else t.amount) = e.amount
  userData128 : (if t.userData128 = 0 then p.userData128 else t.userData128) = e.userData128
  userData64  : (if t.userData64 = 0 then p.userData64 else t.userData64) = e.userData64
  userData32  : (if t.userData32 = 0 then p.userData32 else t.userData32) = e.userData32
  ledger : t.ledger = 0 ∨ t.ledger = e.ledger
  code : t.code = 0 ∨ t.code = e.code

theorem comparedResolved_of_exists {e p : Transfer}
    (h : postOrVoidPendingTransferExists t e p = .ok .exists) : ComparedResolved t e p := by
  have hmeets : Meets (fun _ => True) (fun status => status = .exists → ComparedResolved t e p)
      (postOrVoidPendingTransferExists t e p) := by
    unfold postOrVoidPendingTransferExists
    simp only [Meets.bind_eq, Meets.ite_iff, Meets.pure_eq, partial_assert, implies_true,
      reduceCtorEq, false_implies, true_and]
    intro _ _ _ _ hpid hid _ _ htimeout _ _ _ _ hlater hdebit hcredit hvoid _ hpost h128 h64 h32 hledger
      hcode _
    exact {
      id := hid.symm
      pendingId := hpid
      timeout := htimeout
      later := hlater
      debit := by grind
      credit := by grind
      void := by grind
      post := by grind
      userData128 := by grind
      userData64 := by grind
      userData32 := by grind
      ledger := by grind
      code := by grind
    }
  exact hmeets.post h rfl

theorem minAmount_le {a b : U128} : minAmount a b ≤ a := by
  unfold minAmount
  split
  · exact BitVec.le_refl _
  · next h => exact BitVec.le_of_lt (BitVec.not_le.mp h)

theorem computeAmountActual_le {dr cr : Account} : computeAmountActual t dr cr ≤ t.amount := by
  have hdebit : ∀ b : U128, (if t.flags.balancingDebit then minAmount t.amount b else t.amount) ≤
      t.amount := by
    intro b
    split
    · exact minAmount_le
    · exact BitVec.le_refl _
  unfold computeAmountActual
  dsimp only
  split
  · exact BitVec.le_trans minAmount_le (hdebit _)
  · exact hdebit _

-- Only a balancing transfer has another amount than it asks for.
theorem computeAmountActual_eq {dr cr : Account}
    (h : ¬(t.flags.balancingDebit = true ∨ t.flags.balancingCredit = true)) :
    computeAmountActual t dr cr = t.amount := by
  have ⟨hd, hc⟩ := not_or.mp h
  unfold computeAmountActual
  dsimp only
  rw [if_neg hc, if_neg hd]

theorem meant_of_plain {α : Type} [Zero α] [DecidableEq α] {p event : Transfer}
    (h : event.flags.postOrVoid = false) (field : Transfer → α) :
    meant p event field = field event := by
  unfold meant
  rw [if_neg fun hp => Bool.false_ne_true (h.symm.trans hp.1)]

theorem meant_of_resolved {α : Type} [Zero α] [DecidableEq α] {p event : Transfer}
    (h : event.flags.postOrVoid = true) (field : Transfer → α) :
    meant p event field = if field event = 0 then field p else field event := by
  unfold meant
  exact if_congr (and_iff_right h) rfl rfl

section Records

variable {transfers : U128 → Option Transfer} {creator event e p : Transfer}
    {r : CreateTransferResult}

-- Two things are left out of the comparison with a plain transfer: its ledger, and whether the
-- amount of a pending one is less than what there is.
theorem Compared.agrees_iff (h : Compared event e) (hr : Records transfers creator r e)
    (hp : event.flags.postOrVoid = false) :
    Agrees p creator event r.amountActual ↔ event.ledger = creator.ledger ∧
      (event.flags.pending = true → r.amountActual ≤ event.amount) := by
  have hflags := h.flags.trans hr.flags_eq
  cases hr with
  | resolved _ _ hres =>
    rw [hflags, hres.resolves] at hp
    cases hp
  | @plain dr cr hc ha =>
    have hp' : creator.flags.postOrVoid = false := hflags ▸ hp
    have hamount : SameAmount p creator event r.amountActual ↔
        (event.flags.pending = true → r.amountActual ≤ event.amount) := by
      have hposted : event.flags.pending = false → event.amount = r.amountActual := h.posted
      have hpending : event.flags.pending = true → event.amount ≤ r.amountActual := h.pending
      unfold SameAmount
      rw [if_neg fun h => Bool.false_ne_true (hp.symm.trans h)]
      cases hpend : event.flags.pending with
      | false =>
        -- The amount is what was created, be it cut or not.
        rw [hposted hpend]
        split
        · exact iff_of_true (BitVec.le_refl _) nofun
        · next hb => exact iff_of_true (ha.trans (computeAmountActual_eq (hflags ▸ hb))) nofun
      | true =>
        simp only [eq_self, true_implies]
        split
        · rfl
        · next hb =>
          have ha := ha.trans (computeAmountActual_eq (hflags ▸ hb))
          rw [← ha]
          exact ⟨fun h => h ▸ BitVec.le_refl _, fun h => BitVec.le_antisymm (hpending hpend) h⟩
    constructor
    · intro h
      refine ⟨?_, hamount.mp h.amount⟩
      have := h.ledger
      rwa [meant_of_plain hp, meant_of_plain hp'] at this
    · intro ⟨hledger, ha⟩
      exact {
        flags := hflags
        debitAccountId := by rw [meant_of_plain hp, meant_of_plain hp']; exact h.debit
        creditAccountId := by rw [meant_of_plain hp, meant_of_plain hp']; exact h.credit
        amount := hamount.mpr ha
        pendingId := h.pendingId
        userData128 := by rw [meant_of_plain hp, meant_of_plain hp']; exact h.userData128
        userData64 := by rw [meant_of_plain hp, meant_of_plain hp']; exact h.userData64
        userData32 := by rw [meant_of_plain hp, meant_of_plain hp']; exact h.userData32
        timeout := h.timeout
        ledger := by rw [meant_of_plain hp, meant_of_plain hp', hledger]
        code := by rw [meant_of_plain hp, meant_of_plain hp']; exact h.code
      }

-- A field that is left zero or repeats that of the pending transfer stands for it.
theorem meant_eq {α : Type} [Zero α] [DecidableEq α] {field : Transfer → α}
    (hp : event.flags.postOrVoid = true) (h : field event = 0 ∨ field event = field p) :
    meant p event field = field p := by
  rw [meant_of_resolved hp]
  split
  · rfl
  · next hne => exact h.resolve_left hne

-- Nothing is left out of the comparison with a transfer that posts or voids another one.
theorem ComparedResolved.agrees (h : ComparedResolved event e p)
    (hr : Records transfers creator r e) (hp : event.flags.postOrVoid = true)
    (hflags : event.flags = e.flags) (hpl : ∀ p', transfers event.pendingId = some p' → p = p') :
    Agrees p creator event r.amountActual := by
  have hflags := hflags.trans hr.flags_eq
  cases hr with
  | plain hc _ =>
    rw [hflags, hc.plain] at hp
    cases hp
  | @resolved p' _ _ hpl' hres =>
    have hpid : event.pendingId = creator.pendingId := h.pendingId
    obtain rfl : p = p' := hpl p' (hpid ▸ hpl')
    have hp' : creator.flags.postOrVoid = true := hflags ▸ hp
    have hexclusive : event.flags.postPendingTransfer = true →
        event.flags.voidPendingTransfer = false := hflags ▸ hres.exclusive
    have hamount : resolvedAmount event p = r.amountActual := by
      unfold resolvedAmount
      cases hvoid : event.flags.voidPendingTransfer with
      | true => exact h.void hvoid
      | false =>
        refine h.post ?_
        simpa [TransferFlags.postOrVoid, hvoid] using hp
    have folded : ∀ {α : Type} [Zero α] [DecidableEq α] (x : α) (field : Transfer → α),
        (if field event = 0 then field p else field event) = x →
        x = (if field creator ≠ 0 then field creator else field p) →
        meant p event field = meant p creator field := by
      intro α _ _ x field hx hx'
      rw [meant_of_resolved hp, meant_of_resolved hp', hx, hx', ite_not]
    exact {
      flags := hflags
      debitAccountId := (meant_eq hp h.debit).trans (meant_eq hp' hres.debit).symm
      creditAccountId := (meant_eq hp h.credit).trans (meant_eq hp' hres.credit).symm
      amount := by
        unfold SameAmount
        rw [if_pos hp, hamount, hres.amountEq]
      pendingId := hpid
      userData128 := folded _ _ h.userData128 rfl
      userData64 := folded _ _ h.userData64 rfl
      userData32 := folded _ _ h.userData32 rfl
      timeout := h.timeout.trans hres.timeout.symm
      ledger := (meant_eq hp h.ledger).trans (meant_eq hp' hres.ledger).symm
      code := (meant_eq hp h.code).trans (meant_eq hp' hres.code).symm
    }

end Records

namespace StateMachine

variable [Hasher] {sm sm' : StateMachine} {created : List (Transfer × CreateTransferResult)}
    {before after : List Transfer} {event : Transfer} {timestamp : Nat}
    {results : List CreateTransferResult} {result : CreateTransferResult}

-- The record of an id when the batch has come to an event: it is stored, or it is that of one of the
-- events before.
def Recalls (sm : StateMachine) (earlier : List (Transfer × CreateTransferResult)) (id : U128)
    (p : Transfer) : Prop :=
  sm.transfers.lookup id = some p ∨ ∃ pair ∈ earlier, pair.2.status = .created ∧ pair.1.id = id ∧
    ∃ transfers, Records transfers pair.1 pair.2 p

-- The event that an id has been created by, and the transfer that it posts or voids. It is one of
-- those that were created before the batch, or one before in the batch, with the result that it had
-- when its id was asked for again.
structure Originates (sm : StateMachine) (created : List (Transfer × CreateTransferResult))
    (before : List Transfer) (results : List CreateTransferResult) (event : Transfer)
    (result : CreateTransferResult) (creator : Transfer) (r : CreateTransferResult) (p : Transfer) :
    Prop where
  found : ∃ earlier, List.Forall₂ TransfersBatch.Lasts (results.take before.length) earlier ∧
    (creator, r) ∈ created ++ before.zip earlier ∧
    (created ++ before.zip earlier).Pairwise Distinct ∧
    (event.flags.postOrVoid = true → sm.Recalls (before.zip earlier) event.pendingId p)
  created : r.status = .created
  id : creator.id = event.id
  timestamp : r.timestamp = result.timestamp

-- What an event is compared with, the ledger and the lower amounts of pending transfers apart.
def Repeatable (creator event : Transfer) (amount : U128) : Prop :=
  event.flags.postOrVoid = false → event.ledger = creator.ledger ∧
    (event.flags.pending = true → amount ≤ event.amount)

theorem Recorded.originates {batch : TransfersBatch}
    {hb : batch.timestamp ≤ TimestampRange.timestampMax} {a b : TransfersView}
    {R : TransfersBatch → Loop CreateTransferResult TransfersState → Transfer → Prop}
    (h : Recorded sm created)
    (hx : Executes sm (before ++ event :: after) timestamp R results sm' batch hb a b)
    (hr : results[before.length]? = some result) (hs : result.status = .exists) :
    ∃ creator r p, Originates sm created before results event result creator r p ∧
      (Agrees p creator event r.amountActual ↔ Repeatable creator event r.amountActual) := by
  have ⟨current, e, earlier, hlasts, hgrown, hrep⟩ := hx.answered.repeated before event after result
    rfl hr hs
  have hkeys := @prefetches sm (before ++ event :: after)
  have hm : event ∈ before ++ event :: after := by simp
  have hunique : (created ++ before.zip earlier).Pairwise Distinct := by
    refine List.pairwise_append.mpr ⟨h.unique, hgrown.unique, fun p hp q hq _ hqc he => ?_⟩
    have ⟨_, _, record, hl, _⟩ := h.records p hp
    have ⟨hn, _⟩ := hgrown.records q hq hqc
    have hq' := hkeys.id q.1 (List.mem_append_left _ (List.of_mem_zip hq).1)
    rw [(hx.transfer_eq hq').1, ← he, hl] at hn
    cases hn
  have recalls : ∀ p, event.flags.postOrVoid = true → current.transfers event.pendingId = some p →
      sm.Recalls (before.zip earlier) event.pendingId p := by
    intro p hpost hpl
    obtain ha | ⟨pair, hp, hc, hid⟩ := hgrown.origin _ p hpl
    · exact .inl ((hx.transfer_eq (hkeys.pending event hm hpost).1).1.symm.trans ha)
    · have ⟨_, record, hl, hrecord⟩ := hgrown.records pair hp hc
      rw [hid, hpl] at hl
      cases hl
      exact .inr ⟨pair, hp, hc, hid, _, hrecord⟩
  -- The record that is repeated is that of one of them.
  have compare : ∀ pair ∈ created ++ before.zip earlier, pair.2.status = .created →
      pair.1.id = event.id → ∀ transfers, Records transfers pair.1 pair.2 e →
      (event.flags.postOrVoid = true → ∀ p', transfers event.pendingId = some p' →
        current.transfers event.pendingId = some p') →
      ∃ creator r p, Originates sm created before results event result creator r p ∧
        (Agrees p creator event r.amountActual ↔ Repeatable creator event r.amountActual) := by
    intro ⟨creator, r⟩ hp hc hid transfers hrecord hpending
    have ho : ∀ p, (event.flags.postOrVoid = true →
          sm.Recalls (before.zip earlier) event.pendingId p) →
        Originates sm created before results event result creator r p := fun p hrecalls =>
      ⟨⟨earlier, hlasts, hp, hunique, hrecalls⟩, hc, hid,
        hrecord.timestamp_eq.symm.trans hrep.timestamp.symm⟩
    cases hpost : event.flags.postOrVoid with
    | false =>
      refine ⟨creator, r, e, ho e (fun hn => by simp [hpost] at hn), ?_⟩
      rw [(compared_of_exists (hrep.plain hpost)).agrees_iff hrecord hpost]
      exact ⟨fun h _ => h, fun h => h hpost⟩
    | true =>
      have ⟨hflags, p, hpl, hexists⟩ := hrep.resolves hpost
      have hcompared := comparedResolved_of_exists hexists
      refine ⟨creator, r, p, ho p fun _ => recalls p hpost hpl, iff_of_true ?_ fun hn => ?_⟩
      · refine hcompared.agrees hrecord hpost (TransferFlags.ext_raw hflags) fun p' hp' => ?_
        exact Option.some.inj (hpl.symm.trans (hpending hpost p' hp'))
      · rw [hpost] at hn
        cases hn
  obtain ha | ⟨pair, hp, hc, hid⟩ := hgrown.origin event.id e hrep.record
  · have hl := (hx.transfer_eq (hkeys.id event hm)).1.symm.trans ha
    have ⟨pair, hp, hid⟩ := h.complete _ _ hl
    have ⟨hc, _, record, hl', hrecord⟩ := h.records pair hp
    rw [hid, hl] at hl'
    cases hl'
    refine compare pair (List.mem_append_left _ hp) hc hid _ hrecord fun hpost p' hp' => ?_
    exact hgrown.keeps _ _ ((hx.transfer_eq (hkeys.pending event hm hpost).1).1.trans hp')
  · have ⟨_, record, hl, hrecord⟩ := hgrown.records pair hp hc
    rw [hid, hrep.record] at hl
    cases hl
    exact compare pair (List.mem_append_right _ hp) hc hid _ hrecord fun _ _ h => h

-- An event that is answered with `exists` repeats the one that has created its id, if its ledger is
-- the same and, for a pending transfer, its amount is not a lower one.
theorem exists_agrees_iff (h : recording.Reachable TimelyRecorded (sm, created))
    (ht : Timely sm (.createTransfers (before ++ event :: after) timestamp))
    (hcall : sm.createTransfers (before ++ event :: after) timestamp = .ok (results, sm'))
    (hr : results[before.length]? = some result) (hs : result.status = .exists) :
    ∃ creator r p, Originates sm created before results event result creator r p ∧
      (Agrees p creator event r.amountActual ↔ Repeatable creator event r.amountActual) := by
  have hrecorded := recorded_of_reachable h
  have ⟨_, _, _, _, _, hx⟩ := (hrecorded.sound.createTransfers (R := fun _ _ _ => True) ht.2
    fun _ _ _ _ _ _ _ _ _ => trivial).post hcall
  exact hrecorded.originates hx hr hs

end StateMachine

namespace StateMachine.Runs

open Accounting.Runs

attribute [local instance] identityHasher

instance {s : StateMachine × List (Transfer × CreateTransferResult)} {call : Call} :
    Decidable (TimelyRecorded s call) :=
  inferInstanceAs (Decidable (TimestampRange.valid call.timestamp))

-- The same transfer with another ledger.
def relabelled : Transfer :=
  { transfer 1 1 2 0 with ledger := 7 }

-- A transfer is created, and it is answered that it exists if it is tried again with any ledger.
theorem exists_of_ledger (event : Transfer)
    (h : recording.Leads TimelyRecorded
      (fun s => s.2 = [(transfer 1 1 2 0, ⟨.created, 200, 1⟩)] ∧ Meets (fun _ => False)
        (fun (r : List CreateTransferResult × StateMachine) => r.1 = [⟨.exists, 200, 0⟩])
        (s.1.createTransfers [event] 300))
      [accounts, .createTransfers [transfer 1 1 2 0] 200] (default, [])) :
    ∃ sm sm', recording.Reachable TimelyRecorded (sm, [(transfer 1 1 2 0, ⟨.created, 200, 1⟩)]) ∧
      sm.createTransfers [event] 300 = .ok ([⟨.exists, 200, 0⟩], sm') := by
  have hinit : recording.Reachable TimelyRecorded (default, []) := .init ⟨rfl, rfl⟩
  have ⟨⟨sm, created⟩, hr, hc, hm⟩ := hinit.leads h
  have ⟨⟨results, sm'⟩, hx, hresults⟩ := Meets.iff_exists.mp hm
  have hc : created = _ := hc
  have hresults : results = _ := hresults
  subst hc hresults
  exact ⟨sm, sm', hr, hx⟩

theorem exists_agrees_iff_of_retry : ∃ (sm sm' : StateMachine) (creator : Transfer)
    (r : CreateTransferResult) (p : Transfer),
    sm.createTransfers [transfer 1 1 2 0] 300 = .ok ([⟨.exists, 200, 0⟩], sm') ∧
    Originates sm [(transfer 1 1 2 0, ⟨.created, 200, 1⟩)] [] [⟨.exists, 200, 0⟩] (transfer 1 1 2 0)
      ⟨.exists, 200, 0⟩ creator r p ∧
    (Agrees p creator (transfer 1 1 2 0) r.amountActual ↔
      Repeatable creator (transfer 1 1 2 0) r.amountActual) := by
  have ⟨sm, sm', hr, hx⟩ := exists_of_ledger (transfer 1 1 2 0) (by decide +kernel)
  have ht : Timely sm (.createTransfers ([] ++ transfer 1 1 2 0 :: []) 300) :=
    show TimestampRange.valid 300 by decide
  have ⟨creator, r, p, ho, hiff⟩ := exists_agrees_iff hr ht hx rfl rfl
  exact ⟨sm, sm', creator, r, p, hx, ho, hiff⟩

-- The ledger is not compared.
theorem not_exists_agrees : ¬∀ (_ : Hasher) (sm sm' : StateMachine)
    (created : List (Transfer × CreateTransferResult)) (before after : List Transfer)
    (event : Transfer) (timestamp : Nat) (results : List CreateTransferResult)
    (result : CreateTransferResult), recording.Reachable TimelyRecorded (sm, created) →
    Timely sm (.createTransfers (before ++ event :: after) timestamp) →
    sm.createTransfers (before ++ event :: after) timestamp = .ok (results, sm') →
    results[before.length]? = some result → result.status = .exists →
    ∃ creator r p, Originates sm created before results event result creator r p ∧
      Agrees p creator event r.amountActual := by
  intro h
  have ⟨sm, sm', hr, hx⟩ := exists_of_ledger relabelled (by decide +kernel)
  have ht : Timely sm (.createTransfers ([] ++ relabelled :: []) 300) :=
    show TimestampRange.valid 300 by decide
  have ⟨creator, r, p, ho, hagrees⟩ := h identityHasher _ _ _ [] [] _ _ _ _ hr ht hx rfl rfl
  have ⟨_, _, hp, _⟩ := ho.found
  have ⟨hcreator, hresult⟩ : creator = transfer 1 1 2 0 ∧ r = ⟨.created, 200, 1⟩ := by simpa using hp
  subst hcreator hresult
  have hledger := hagrees.ledger
  rw [meant_of_plain (by decide), meant_of_plain (by decide)] at hledger
  exact absurd hledger (by decide)

end StateMachine.Runs

end TigerBeetle.Accounting
