import TigerBeetle.Theorems.Persisted

namespace TigerBeetle.Accounting

open Fallible HashMap

-- A flag has been defined for each bit that is set.
def AccountFlags.Defined (flags : AccountFlags) : Prop :=
  flags.raw &&& ~~~0x3F#16 = 0

def TransferFlags.Defined (flags : TransferFlags) : Prop :=
  flags.raw &&& ~~~0x1FF#16 = 0

theorem TransferFlags.defined_iff {flags : TransferFlags} :
    flags.Defined ↔ flags.hasPadding = false := by
  unfold Defined hasPadding
  simp

namespace AccountFlags

variable {flags : AccountFlags}

-- The padding leaves out three bits for which there is no flag.
theorem defined_iff : flags.Defined ↔ flags.hasPadding = false ∧ flags.raw &&& 0x1C0#16 = 0 := by
  have hsplit : ~~~0x3F#16 = ~~~0x1FF#16 ||| 0x1C0#16 := by decide
  unfold Defined hasPadding
  rw [hsplit, BitVec.and_or_distrib_left]
  simp [BitVec.or_eq_zero_iff]

theorem Defined.withClosed (h : flags.Defined) : flags.withClosed.Defined := by
  unfold Defined AccountFlags.withClosed at *
  rw [BitVec.and_or_distrib_right, h]
  decide

theorem Defined.withoutClosed (h : flags.Defined) : flags.withoutClosed.Defined := by
  unfold Defined AccountFlags.withoutClosed at *
  rw [BitVec.and_assoc, BitVec.and_comm (~~~(1#16 <<< 5)), ← BitVec.and_assoc, h]
  decide

theorem Defined.ite {c : Bool} {flags' : AccountFlags} (h : flags.Defined) (h' : flags'.Defined) :
    (if c then flags else flags').Defined := by
  cases c
  · exact h'
  · exact h

end AccountFlags

-- What is reserved is zero.
structure Account.Unreserved (account : Account) : Prop where
  flags : account.flags.Defined
  reserved : account.reserved = 0

variable {dr cr : Account} {event : Transfer}

-- The accounts that are left by a transfer, by what resolves one and by an expiry.
theorem commitTransferAccounts_unreserved {amount : U128}
    (hd : dr.Unreserved) (hc : cr.Unreserved) :
    (commitTransferAccounts event amount dr cr).1.Unreserved ∧
      (commitTransferAccounts event amount dr cr).2.Unreserved := by
  unfold commitTransferAccounts
  constructor
  all_goals
    dsimp only
    split <;> split
  · exact ⟨hd.flags.withClosed, hd.reserved⟩
  · exact ⟨hd.flags.withClosed, hd.reserved⟩
  · exact ⟨hd.flags, hd.reserved⟩
  · exact ⟨hd.flags, hd.reserved⟩
  · exact ⟨hc.flags.withClosed, hc.reserved⟩
  · exact ⟨hc.flags.withClosed, hc.reserved⟩
  · exact ⟨hc.flags, hc.reserved⟩
  · exact ⟨hc.flags, hc.reserved⟩

theorem commitPostVoidAccounts_unreserved {p : Transfer} {amount : U128}
    (hd : dr.Unreserved) (hc : cr.Unreserved) :
    Meets (fun _ => True) (fun r => r.1.Unreserved ∧ r.2.Unreserved)
      (commitPostVoidAccounts event p amount dr cr) := by
  unfold commitPostVoidAccounts
  simp only [Meets.bind_eq, Meets.ite_iff, Meets.pure_eq, partial_assert]
  refine ⟨fun _ _ _ _ => ⟨⟨hd.flags, hd.reserved⟩, ⟨hc.flags, hc.reserved⟩⟩, fun _ _ _ _ => ?_⟩
  constructor
  · split
    · exact ⟨hd.flags.withoutClosed, hd.reserved⟩
    · exact ⟨hd.flags, hd.reserved⟩
  · split
    · exact ⟨hc.flags.withoutClosed, hc.reserved⟩
    · exact ⟨hc.flags, hc.reserved⟩

theorem expireDebit_unreserved {p : Transfer} (h : dr.Unreserved) :
    (StateMachine.expireDebit p dr).Unreserved :=
  ⟨h.flags.withoutClosed.ite h.flags, h.reserved⟩

theorem expireCredit_unreserved {p : Transfer} (h : cr.Unreserved) :
    (StateMachine.expireCredit p cr).Unreserved :=
  ⟨h.flags.withoutClosed.ite h.flags, h.reserved⟩

theorem createAccount_admits {a : Account} {timestampEvent : Nat}
    (h : createAccount a timestampEvent none = .ok .created) :
    a.reserved = 0 ∧ a.flags.hasPadding = false := by
  have hmeets : Meets (fun _ => True)
      (fun status => status = .created → a.reserved = 0 ∧ a.flags.hasPadding = false)
      (createAccount a timestampEvent none) := by
    unfold createAccount
    simp [Meets.ite_iff]
    tauto
  exact hmeets.post h rfl

theorem forall_lookup_insert {K V : Type} [DecidableEq K] {map : HashMap K V} {key : K} {value : V}
    {p : V → Prop} (h : ∀ k v, map.lookup k = some v → p v) (hv : p value) :
    ∀ k v, (map.insert key value).lookup k = some v → p v := by
  intro k v hl
  rw [lookup_insert_eq] at hl
  split at hl
  · cases hl
    exact hv
  · exact h k v hl

structure Ledger.Unreserved (ledger : Ledger) : Prop where
  accounts : ∀ id account, ledger.accounts.lookup id = some account → account.Unreserved
  transfers : ∀ id t, ledger.transfers.lookup id = some t → t.flags.Defined

theorem Ledger.Unreserved.putAccounts {ledger : Ledger} (h : ledger.Unreserved)
    (hd : dr.Unreserved) (hc : cr.Unreserved) :
    ∀ id account, (ledger.putAccounts dr cr).lookup id = some account → account.Unreserved :=
  forall_lookup_insert (forall_lookup_insert h.accounts hd) hc

namespace StateMachine

variable {sm sm' : StateMachine} {timestamp : Nat}

theorem persistAccountEvent_unreserved {count index time : Nat} {event : Account}
    {result : CreateAccountResult} (h : sm.ledger.Unreserved)
    (hc : createAccount event time none = .ok .created) (hf : event.flags.raw &&& 0x1C0#16 = 0) :
    Meets (fun _ => True) (fun sm' => sm'.ledger.Unreserved)
      (persistAccountEvent timestamp count index event result sm) := by
  have ⟨hreserved, hpadding⟩ := createAccount_admits hc
  refine persistAccountEvent_meets.weaken fun sm' ⟨hl, _⟩ => ?_
  rw [hl]
  exact ⟨forall_lookup_insert h.accounts ⟨AccountFlags.defined_iff.mpr ⟨hpadding, hf⟩, hreserved⟩,
    h.transfers⟩

theorem persistTransferEvent_unreserved {count index : Nat}
    {result : CreateTransferResult} (h : sm.ledger.Unreserved) (hp : Persisting sm event result) :
    Meets (fun _ => True) (fun sm' => sm'.ledger.Unreserved)
      (persistTransferEvent timestamp count index event result sm) := by
  refine persistTransferEvent_meets ?_
  obtain ⟨view, dr, cr, after, hc⟩ | ⟨view, p, row, dr, cr, dr', cr', after, hr⟩ := hp.effect
  · have hplain : ({ event with timestamp := result.timestamp } : Transfer).flags.postOrVoid =
        false := hc.creatable.plain
    refine (persistTransfer_of_plain hplain).weaken
      fun sm' ⟨dr, cr, dr', cr', hd, hcr, hcommit, _, _, hl, _⟩ => ?_
    have hcommit := Prod.mk.inj hcommit
    have ⟨hd', hc'⟩ := @commitTransferAccounts_unreserved _ _
      { event with timestamp := result.timestamp } result.amountActual
      (h.accounts _ _ hd) (h.accounts _ _ hcr)
    rw [hl]
    refine ⟨h.putAccounts (hcommit.1 ▸ hd') (hcommit.2 ▸ hc'), ?_⟩
    exact forall_lookup_insert h.transfers
      (TransferFlags.defined_iff.mpr hc.creatable.admissible.padding)
  · rw [persistTransfer_resolving hr.resolvable.plain hr.resolvable.resolves]
    refine persistPostVoid_meets.weaken
      fun sm' ⟨p, dr, cr, dr', cr', _, _, hd, hcr, hcommit, _, _, hl, _⟩ => ?_
    have ⟨hd', hc'⟩ := (commitPostVoidAccounts_unreserved (h.accounts _ _ hd)
      (h.accounts _ _ hcr)).post hcommit
    rw [hl]
    exact ⟨h.putAccounts hd' hc', forall_lookup_insert h.transfers
      (TransferFlags.defined_iff.mpr hr.admissible.padding)⟩

theorem expire_unreserved {id : U128} (h : sm.ledger.Unreserved) (hb : sm.ledger.Balanced)
    (hp : ∀ p, sm.ledger.transfers.lookup id = some p → p.flags.pending = true) :
    Meets (fun _ => True) (fun sm' => sm'.ledger.Unreserved) (sm.expire timestamp id) := by
  refine (expire_meets hb hp).weaken
    fun sm' ⟨_, _, p, accounts, _, _, _, hl, dr, cr, hd, hc, haccounts⟩ => ?_
  rw [hl]
  refine ⟨fun id account ha => ?_, h.transfers⟩
  have ha : accounts.lookup id = some account := ha
  rw [haccounts] at ha
  exact h.putAccounts (expireDebit_unreserved (h.accounts _ _ hd))
    (expireCredit_unreserved (h.accounts _ _ hc)) id account ha

variable [Hasher]

theorem expireAll_unreserved {count index : Nat} {due : List (Nat × Nat × U128)}
    (h : sm.ledger.Unreserved) (hs : Sound sm)
    (hp : ∀ x ∈ due, ∀ p, sm.ledger.transfer x.2.2 = some p → p.flags.pending = true) :
    Meets (fun _ => True) (fun sm' => sm'.ledger.Unreserved)
      (expireAll timestamp count index due sm) := by
  induction due generalizing index sm with
  | nil => exact h
  | cons x due ih =>
    simp only [StateMachine.expireAll, Meets.bind_eq]
    refine timestampEvent_meets.weaken fun _ _ => ?_
    have hx := hp x (List.mem_cons_self ..)
    refine ((hs.expire hx).and (expire_unreserved h hs.balanced hx)).weaken
      fun sm₁ hsm₁ => ?_
    obtain ⟨⟨hs₁, ht₁, _⟩, h₁⟩ := hsm₁
    exact ih h₁ hs₁ fun y hy => ht₁ ▸ hp y (List.mem_cons_of_mem _ hy)

theorem expirePendingTransfers_unreserved (h : sm.ledger.Unreserved) (hs : Sound sm) :
    Meets (fun _ => True) (fun sm' => sm'.ledger.Unreserved)
      (sm.expirePendingTransfers timestamp) := by
  unfold expirePendingTransfers
  simp only [Meets.bind_eq, partial_assert]
  intro _ _
  refine expiring_meets.weaken fun due hdue => ?_
  refine (expireAll_unreserved h hs fun x hx => hdue x (List.mem_filter.mp hx).1).weaken
    fun sm₁ h₁ => ?_
  exact updatePulseNextTimestamp_meets.weaken fun sm₂ ⟨hl, _⟩ => hl ▸ h₁

-- No account comes with one of the bits that the padding leaves out.
def Assigned (sm : StateMachine) (call : Call) : Prop :=
  Timely sm call ∧
    match call with
    | .createAccounts events _ => ∀ event ∈ events, event.flags.raw &&& 0x1C0#16 = 0
    | .createTransfers .. | .expirePendingTransfers _ => True

theorem unreserved_step {call : Call} (hs : Sound sm) (h : sm.ledger.Unreserved)
    (ha : Assigned sm call) (hstep : machine.step sm call = .ok sm') : sm'.ledger.Unreserved := by
  have ⟨ht, ha⟩ := ha
  have ht : TimestampRange.valid call.timestamp := ht
  let Inv (sm₁ : StateMachine) : Prop := sm₁.ledger.Unreserved
  cases call with
  | createAccounts events timestamp =>
    obtain ⟨r, hcall, he⟩ := bind_eq_ok.mp hstep
    cases he
    have hstart : ∀ objects, Inv { sm with accountsObjects := objects } := fun _ => h
    exact ((hs.persistedAccounts ht.2 hstart fun _ event _ _ _ hm hc _ hi =>
      persistAccountEvent_unreserved hi hc (ha event hm)).post hcall).1
  | createTransfers events timestamp =>
    obtain ⟨⟨results, sm'⟩, hcall, he⟩ := bind_eq_ok.mp hstep
    cases he
    have hstart : ∀ accounts transfers pendings orphaned,
        Inv (sm.withCaches accounts transfers pendings orphaned) := fun _ _ _ _ => h
    exact hs.persisted ht.2 hcall hstart
      fun _ _ _ _ _ hp hi => (persistTransferEvent_unreserved hi hp).weaken fun _ h _ => h
  | expirePendingTransfers timestamp => exact (expirePendingTransfers_unreserved h hs).post hstep

-- What is reserved is zero in all that is stored, if no account comes with one of the bits.
theorem reserved_bits (h : machine.Reachable Assigned sm) :
    (∀ id account, sm.accounts.lookup id = some account →
      account.flags.raw &&& ~~~0x3F#16 = 0 ∧ account.reserved = 0) ∧
    ∀ id t, sm.transfers.lookup id = some t → t.flags.raw &&& ~~~0x1FF#16 = 0 := by
  have ⟨_, hu⟩ : Sound sm ∧ sm.ledger.Unreserved := by
    refine h.invariant (p := fun sm => Sound sm ∧ sm.ledger.Unreserved) (fun sm hi => ?_)
      fun sm call sm' ⟨hs, hu⟩ ha hstep => ⟨hs.step ha.1 hstep, unreserved_step hs hu ha hstep⟩
    have hi : sm = default := hi
    subst hi
    exact ⟨sound_default, nofun, nofun⟩
  refine ⟨fun id account hl => ?_, fun id t hl => hu.transfers id t hl⟩
  have ha := hu.accounts id account hl
  exact ⟨ha.flags, ha.reserved⟩

end StateMachine

namespace StateMachine.Runs

open Accounting.Runs

attribute [local instance] identityHasher

instance {sm : StateMachine} : (call : Call) → Decidable (Assigned sm call)
  | .createAccounts events _ => inferInstanceAs
    (Decidable (Timely sm _ ∧ ∀ event ∈ events, event.flags.raw &&& 0x1C0#16 = 0))
  | .createTransfers ..        => inferInstanceAs (Decidable (Timely sm _ ∧ True))
  | .expirePendingTransfers _ => inferInstanceAs (Decidable (Timely sm _ ∧ True))

-- Accounts with a history, a transfer that closes one of them, and two events with padding.
def flags : List Call := [
  .createAccounts [account 1 0x08 1 0, account 2 0x08 1 0, account 3 0x208 1 0] 100,
  .createTransfers [transfer 1 1 2 0x42, transfer 2 1 2 0x200] 200]

theorem reserved_bits_of_flags : ∃ sm account, machine.Reachable Assigned sm ∧
    sm.accounts.lookup 1 = some account ∧ account.flags.raw = 0x28#16 ∧
    account.flags.raw &&& ~~~0x3F#16 = 0 := by
  have ⟨sm, hr, account, hl, hraw⟩ := (Machine.Reachable.init rfl).leads (show
    machine.Leads Assigned (fun sm => ∃ account ∈ sm.accounts.lookup 1,
      account.flags.raw = 0x28#16) flags default by decide +kernel)
  exact ⟨sm, account, hr, hl, hraw, ((reserved_bits hr).1 1 account hl).1⟩

-- A bit for which there is no flag.
def unassigned : Call :=
  .createAccounts [account 1 0x40 1 0] 100

theorem not_reserved_bits : ¬∀ (_ : Hasher) (sm : StateMachine), machine.Reachable Timely sm →
    ∀ id account, sm.accounts.lookup id = some account →
      account.flags.raw &&& ~~~0x3F#16 = 0 ∧ account.reserved = 0 := by
  intro h
  have ⟨sm, hr, account, hl, hraw⟩ := (Machine.Reachable.init rfl).leads (show
    machine.Leads Timely (fun sm => ∃ account ∈ sm.accounts.lookup 1,
      account.flags.raw = 0x40#16) [unassigned] default by decide +kernel)
  have hbits := (h identityHasher sm hr 1 account hl).1
  rw [hraw] at hbits
  exact absurd hbits (by decide)

end StateMachine.Runs

end TigerBeetle.Accounting
