import TigerBeetle.Theorems.DoubleEntry

namespace TigerBeetle.Accounting

open Fallible HashMap

namespace StateMachine

variable [Hasher] {sm : StateMachine}

-- What the pending transfers of a party amount to.
def pendingTotal (sm : StateMachine) (party : Transfer → U128) (id : U128) : Nat :=
  total (fun t =>
    if party t = id ∧
        (sm.transfersPending.lookup t.timestamp).map TransferPending.status = some .pending then
      t.amount.toNat
    else
      0) sm.transfers

omit [Hasher] in
theorem heldTotal_eq (h : sm.ledger.Balanced) (party : Transfer → U128) (id : U128) :
    sm.ledger.heldTotal party id = sm.pendingTotal party id := by
  refine total_congr fun key t ht => ?_
  have ht : sm.ledger.transfers.lookup key = some t := ht
  have hpending : (sm.ledger.pendings.lookup t.timestamp).map TransferPending.status =
      some .pending → t.flags.pending = true := by
    intro hs
    have ⟨row, hrow, _⟩ := Option.map_eq_some_iff.mp hs
    have ⟨key', t', ht', hp, hts⟩ := h.rows _ _ hrow
    -- There is one transfer with the timestamp.
    have hkey := h.timestamp key' t' ht'
    rw [hts, h.timestamp key t ht] at hkey
    cases hkey
    cases ht.symm.trans ht'
    exact hp
  have hiff : (t.flags.pending = true ∧ (sm.ledger.pendings.lookup t.timestamp).map
      TransferPending.status = some .pending ∧ party t = id) ↔
      party t = id ∧ (sm.transfersPending.lookup t.timestamp).map TransferPending.status =
        some .pending :=
    ⟨fun ⟨_, hs, hid⟩ => ⟨hid, hs⟩, fun ⟨hid, hs⟩ => ⟨hpending hs, hs, hid⟩⟩
  unfold Ledger.held
  exact if_congr hiff rfl rfl

-- A pending transfer with its accounts.
structure Holds (sm : StateMachine) (p : Transfer) (dr cr : Account) : Prop where
  debit : sm.accounts.lookup p.debitAccountId = some dr
  credit : sm.accounts.lookup p.creditAccountId = some cr
  debits : p.amount ≤ dr.debitsPending
  credits : p.amount ≤ cr.creditsPending

theorem holds_of_pending (h : Sound sm) {id : U128} {p : Transfer}
    (hp : sm.transfers.lookup id = some p)
    (hs : (sm.transfersPending.lookup p.timestamp).map TransferPending.status = some .pending) :
    ∃ dr cr, sm.Holds p dr cr := by
  have hb := h.balanced
  have hp : sm.ledger.transfers.lookup id = some p := hp
  have hparties := hb.parties id p hp
  have ⟨dr, hd, _⟩ := Option.map_eq_some_iff.mp hparties.debit
  have ⟨cr, hc, _⟩ := Option.map_eq_some_iff.mp hparties.credit
  have ⟨row, hrow, _⟩ := Option.map_eq_some_iff.mp hs
  have ⟨key, t, ht, hpending, hts⟩ := hb.rows _ _ hrow
  have hkey := hb.timestamp key t ht
  rw [hts, hb.timestamp id p hp] at hkey
  cases hkey
  cases hp.symm.trans ht
  have hcovers := hb.covers hp hpending hs hd hc
  exact ⟨dr, cr, hd, hc, BitVec.le_def.mpr hcovers.debits, BitVec.le_def.mpr hcovers.credits⟩

-- No account exceeds the limit that it is flagged with.
theorem limits (h : machine.Reachable Timely sm) {id : U128} {account : Account}
    (hl : sm.accounts.lookup id = some account) :
    (account.flags.debitsMustNotExceedCredits = true →
      account.debitsPending.toNat + account.debitsPosted.toNat ≤ account.creditsPosted.toNat) ∧
    (account.flags.creditsMustNotExceedDebits = true →
      account.creditsPending.toNat + account.creditsPosted.toNat ≤ account.debitsPosted.toNat) :=
  have hlimited := (sound_of_reachable h).balanced.limited id account hl
  ⟨hlimited.debits, hlimited.credits⟩

end StateMachine

namespace StateMachine.Runs

open Accounting.Runs

attribute [local instance] identityHasher

-- Two accounts, the first of which may not be debited more than it is credited.
def limited : Call :=
  .createAccounts [account 1 2 1 0, account 2 0 1 0] 100

def back : Call :=
  .createTransfers [transfer 1 2 1 0, transfer 2 1 2 2] 200

-- The account that is limited has as many debits as it can have.
theorem limits_of_back : ∃ sm account, machine.Reachable Timely sm ∧
    sm.accounts.lookup 1 = some account ∧ account.flags.debitsMustNotExceedCredits = true ∧
    account.debitsPending = 1 ∧
    account.debitsPending.toNat + account.debitsPosted.toNat ≤ account.creditsPosted.toNat := by
  have ⟨sm, hr, ha⟩ := (Machine.Reachable.init rfl).leads (show machine.Leads Timely
    (fun sm => ∃ account ∈ sm.accounts.lookup 1,
      account.flags.debitsMustNotExceedCredits = true ∧ account.debitsPending = 1)
    [limited, back] default by decide +kernel)
  have ⟨account, ha, hf, hp⟩ := ha
  exact ⟨sm, account, hr, ha, hf, hp, (limits hr ha).1 hf⟩

end StateMachine.Runs

end TigerBeetle.Accounting
