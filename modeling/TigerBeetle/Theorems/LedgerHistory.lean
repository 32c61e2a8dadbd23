import TigerBeetle.Theorems.Closers
import TigerBeetle.Theorems.LedgerMoves

namespace TigerBeetle.Accounting

open Fallible HashMap Relation

namespace Ledger

variable {ledger ledger' : Ledger} {record p t : Transfer} {account dr cr dr' cr' : Account}
    {taken released posted : Nat} {key : U128} {row : TransferPending}

-- An account keeps what it has been, and what has been posted in it.
structure Grows (a b : Account) : Prop where
  lasting : b.lasting = a.lasting
  debits : a.debitsPosted.toNat ≤ b.debitsPosted.toNat
  credits : a.creditsPosted.toNat ≤ b.creditsPosted.toNat

theorem Grows.refl : Grows account account :=
  ⟨rfl, le_rfl, le_rfl⟩

-- What comes to a ledger later adds to what there is.
structure Extends (before after : Ledger) : Prop where
  transfers : ∀ id t, before.transfers.lookup id = some t → after.transfers.lookup id = some t
  accounts : ∀ id a, before.accounts.lookup id = some a →
    ∃ b, after.accounts.lookup id = some b ∧ Grows a b

theorem Extends.refl : ledger.Extends ledger where
  transfers _ _ h := h
  accounts _ a h := ⟨a, h, .refl⟩

theorem Extends.trans {ledger'' : Ledger} (h : ledger.Extends ledger')
    (h' : ledger'.Extends ledger'') : ledger.Extends ledger'' where
  transfers id t ht := h'.transfers id t (h.transfers id t ht)
  accounts id a ha := by
    obtain ⟨b, hb, hg⟩ := h.accounts id a ha
    obtain ⟨c, hc, hg'⟩ := h'.accounts id b hb
    exact ⟨c, hc, hg'.lasting.trans hg.lasting, hg.debits.trans hg'.debits,
      hg.credits.trans hg'.credits⟩

namespace Books

variable (h : ledger.Books t dr cr dr' cr' taken released posted) (hb : ledger.Balanced)

include h hb

theorem extends_accounts (id : U128) (a : Account) (ha : ledger.accounts.lookup id = some a) :
    ∃ b, (ledger.putAccounts dr' cr').lookup id = some b ∧ Grows a b := by
  have he := h.entry
  rw [h.toPosting.lookup_eq hb]
  by_cases hc : id = t.creditAccountId
  · rw [hc, h.credit] at ha
    cases ha
    exact ⟨cr', if_pos hc, h.creditLasting, by rw [he.crDebits.2], by rw [he.creditsPosted]; omega⟩
  · rw [if_neg hc]
    by_cases hd : id = t.debitAccountId
    · rw [hd, h.debit] at ha
      cases ha
      exact ⟨dr', if_pos hd, h.debitLasting, by rw [he.debitsPosted]; omega, by rw [he.drCredits.2]⟩
    · exact ⟨a, (if_neg hd).trans ha, .refl⟩

-- What a balance becomes, by what it becomes in the two accounts.
theorem elim_eq {f : Account → U128} {x y : Nat} (hd : t.creditAccountId ≠ t.debitAccountId)
    (hx : (f dr').toNat = (f dr).toNat + x) (hy : (f cr').toNat = (f cr).toNat + y) (id : U128) :
    (((ledger.putAccounts dr' cr').lookup id).elim 0 fun a => (f a).toNat) =
      ((ledger.accounts.lookup id).elim 0 fun a => (f a).toNat) +
        (if t.debitAccountId = id then x else 0) + if t.creditAccountId = id then y else 0 := by
  rw [h.toPosting.lookup_eq hb]
  by_cases hc : t.creditAccountId = id
  · have hne : t.debitAccountId ≠ id := fun he => hd (hc.trans he.symm)
    rw [if_pos hc.symm, if_pos hc, if_neg hne, ← hc, h.credit]
    exact hy
  · rw [if_neg (Ne.symm hc), if_neg hc]
    by_cases hdr : t.debitAccountId = id
    · rw [if_pos hdr.symm, if_pos hdr, ← hdr, h.debit]
      exact hx
    · rw [if_neg (Ne.symm hdr), if_neg hdr]
      rfl

end Books

-- What is absent is not among what there is.
theorem Absent.ne (h : ledger.Absent record) {id : U128}
    (ht : ledger.transfers.lookup id = some t) : id ≠ record.id := by
  rintro rfl
  rw [h.id] at ht
  cases ht

variable {transfers : HashMap U128 Transfer}

theorem eq_or_lookup (h : (transfers.insert record.id record).lookup key = some t) :
    (key = record.id ∧ t = record) ∨ transfers.lookup key = some t := by
  rw [lookup_insert_eq] at h
  split at h
  · next hk => exact .inl ⟨hk, (Option.some.inj h).symm⟩
  · exact .inr h

theorem Absent.lookup_insert (h : ledger.Absent record) {id : U128}
    (ht : ledger.transfers.lookup id = some t) :
    (ledger.transfers.insert record.id record).lookup id = some t := by
  rw [lookup_insert_eq, if_neg (h.ne ht), ht]

theorem Creates.lookup_pendings (h : ledger.Creates record dr cr dr' cr') (hb : ledger.Balanced)
    (hp : ledger.transfers.lookup key = some p) :
    (ledger.create record dr' cr').pendings.lookup p.timestamp =
      ledger.pendings.lookup p.timestamp := by
  unfold Ledger.create
  dsimp only
  split
  · rw [lookup_insert_eq, if_neg (hb.timestamp_ne h.absent.id h.absent.timestamp hp)]
  · rfl

theorem Resolves.postOrVoid (h : ledger.Resolves record p dr cr dr' cr') :
    record.flags.postOrVoid = true := by
  unfold TransferFlags.postOrVoid
  rw [h.exclusive, Bool.or_not_self]

theorem Move.extends (h : ledger.Move ledger') (hb : ledger.Balanced) : ledger.Extends ledger' := by
  cases h with
  | opens hn =>
    refine ⟨fun _ _ ht => ht, fun id a ha => ⟨a, ?_, .refl⟩⟩
    unfold insertAccount
    rw [lookup_insert_eq, if_neg, ha]
    rintro rfl
    rw [hn] at ha
    cases ha
  | creates h  => exact ⟨fun id t ht => h.absent.lookup_insert ht, h.books.extends_accounts hb⟩
  | resolves h => exact ⟨fun id t ht => h.absent.lookup_insert ht, h.books.extends_accounts hb⟩
  | expires _ h haccounts =>
    refine ⟨fun _ _ ht => ht, fun id a ha => ?_⟩
    obtain ⟨b, hl, hg⟩ := h.extends_accounts hb id a ha
    exact ⟨b, (haccounts id).trans hl, hg⟩

-- What a transfer has moved for good, if the account is the one of its party. What voids a pending
-- transfer has the amount of that one, but moves nothing.
def settled (party : Transfer → U128) (id : U128) (t : Transfer) : Nat :=
  if t.flags.pending = false ∧ t.flags.voidPendingTransfer = false ∧ party t = id then
    t.amount.toNat
  else
    0

structure Totalled (ledger : Ledger) : Prop where
  debits : ∀ id, total (settled Transfer.debitAccountId id) ledger.transfers =
    (ledger.accounts.lookup id).elim 0 fun account => account.debitsPosted.toNat
  credits : ∀ id, total (settled Transfer.creditAccountId id) ledger.transfers =
    (ledger.accounts.lookup id).elim 0 fun account => account.creditsPosted.toNat

-- A transfer is recorded along with what it posts.
theorem Books.settled (h : ledger.Books t dr cr dr' cr' taken released posted) (hb : ledger.Balanced)
    (hs : ledger.Totalled) (hd : t.creditAccountId ≠ t.debitAccountId)
    (haccounts : ∀ id, ledger'.accounts.lookup id = (ledger.putAccounts dr' cr').lookup id)
    (htotal : ∀ (party : Transfer → U128) id, (party = Transfer.debitAccountId ∨
      party = Transfer.creditAccountId) → total (settled party id) ledger'.transfers =
        total (settled party id) ledger.transfers + if party t = id then posted else 0) :
    ledger'.Totalled where
  debits id := by
    have he := h.elim_eq (f := Account.debitsPosted) (y := 0) hb hd h.entry.debitsPosted
      (by rw [h.entry.crDebits.2]; rfl) id
    rw [htotal _ id (.inl rfl), haccounts, he, hs.debits, ite_self, Nat.add_zero]
  credits id := by
    have he := h.elim_eq (f := Account.creditsPosted) (x := 0) hb hd
      (by rw [h.entry.drCredits.2]; rfl) h.entry.creditsPosted id
    rw [htotal _ id (.inr rfl), haccounts, he, hs.credits, ite_self, Nat.add_zero]

theorem Move.settled (h : ledger.Move ledger') (hb : ledger.Balanced) (hs : ledger.Totalled) :
    ledger'.Totalled := by
  cases h with
  | opens hn _ hd _ hc =>
    exact ⟨fun id => (hs.debits id).trans (insertAccount_elim hn hd id).symm,
      fun id => (hs.credits id).trans (insertAccount_elim hn hc id).symm⟩
  | @creates record _ _ _ _ h =>
    have hplain := h.plain
    unfold TransferFlags.postOrVoid at hplain
    refine h.books.settled hb hs h.distinct (fun _ => rfl) fun party id _ => ?_
    refine (total_insert_of_none h.absent.id).trans ((Nat.add_comm _ _).trans ?_)
    unfold Ledger.settled
    cases hp : record.flags.pending <;> simp_all
  | @resolves record p _ _ _ _ h =>
    refine h.books.settled hb hs (hb.distinct _ _ h.unresolved.found) (fun _ => rfl)
      fun party id hparty => ?_
    have hsame : party record = party p := by
      cases hparty with
      | inl he => rw [he, h.debit]
      | inr he => rw [he, h.credit]
    refine (total_insert_of_none h.absent.id).trans ((Nat.add_comm _ _).trans ?_)
    have hexclusive := h.exclusive
    unfold Ledger.settled
    rw [h.plain, hsame]
    cases hp : record.flags.postPendingTransfer <;> simp_all
  | expires hp h haccounts =>
    refine h.settled hb hs (hb.distinct _ _ hp.found) haccounts fun party id _ => ?_
    rw [ite_self]
    rfl

-- What posts or voids a pending transfer has the parties of that one, whose row says so. No other
-- transfer does it again.
structure Single (transfers : HashMap U128 Transfer) (pendings : HashMap Nat TransferPending) :
    Prop where
  resolver : ∀ id t, transfers.lookup id = some t → t.flags.postOrVoid = true →
    ∃ p, transfers.lookup t.pendingId = some p ∧ p.flags.pending = true ∧
      t.debitAccountId = p.debitAccountId ∧ t.creditAccountId = p.creditAccountId ∧
      t.amount ≤ p.amount ∧ (pendings.lookup p.timestamp).map TransferPending.status =
        some (StateMachine.resolvedStatus t)
  unique : ∀ id id' t t', transfers.lookup id = some t → transfers.lookup id' = some t' →
    t.flags.postOrVoid = true → t'.flags.postOrVoid = true → t.pendingId = t'.pendingId → id = id'

theorem Unresolved.lookup_insert {key : U128} {row : TransferPending} {time : Nat}
    (h : ledger.Unresolved key p)
    (hne : (ledger.pendings.lookup time).map TransferPending.status ≠ some .pending) :
    (ledger.pendings.insert p.timestamp row).lookup time = ledger.pendings.lookup time := by
  rw [lookup_insert_eq, if_neg]
  rintro rfl
  exact hne h.row

-- A transfer that is recorded may resolve a pending one. The rows of the others stay.
theorem Single.insert {pendings pendings' : HashMap Nat TransferPending}
    (h : Single transfers pendings) (hn : transfers.lookup record.id = none)
    (hres : record.flags.postOrVoid = true → ∃ p, transfers.lookup record.pendingId = some p ∧
      p.flags.pending = true ∧ record.debitAccountId = p.debitAccountId ∧
      record.creditAccountId = p.creditAccountId ∧ record.amount ≤ p.amount ∧
      (pendings.lookup p.timestamp).map TransferPending.status = some .pending ∧
      pendings'.lookup p.timestamp = some ⟨p.timestamp, StateMachine.resolvedStatus record⟩)
    (hrows : ∀ key p, transfers.lookup key = some p →
      (record.flags.postOrVoid = true → key ≠ record.pendingId) →
      pendings'.lookup p.timestamp = pendings.lookup p.timestamp) :
    Single (transfers.insert record.id record) pendings' := by
  have hold : ∀ {id t}, transfers.lookup id = some t →
      (transfers.insert record.id record).lookup id = some t := by
    intro id t ht
    rw [lookup_insert_eq, if_neg, ht]
    rintro rfl
    rw [hn] at ht
    cases ht
  -- What has been posted or voided before is not so again.
  have hfirst : ∀ {id t}, transfers.lookup id = some t → t.flags.postOrVoid = true →
      record.flags.postOrVoid = true → t.pendingId ≠ record.pendingId := by
    intro id t ht hr hr' he
    obtain ⟨p, hp, _, _, _, _, hs⟩ := h.resolver id t ht hr
    obtain ⟨q, hq, _, _, _, _, hs', _⟩ := hres hr'
    rw [he, hq] at hp
    obtain rfl := Option.some.inj hp
    exact resolvedStatus_ne (Option.some.inj (hs.symm.trans hs'))
  refine ⟨fun id t ht hr => ?_, fun id id' t t' ht ht' hr hr' he => ?_⟩
  · obtain ⟨_, rfl⟩ | ht := eq_or_lookup ht
    · obtain ⟨p, hp, hpending, hd, hc, ha, _, hs⟩ := hres hr
      exact ⟨p, hold hp, hpending, hd, hc, ha, congrArg (Option.map _) hs⟩
    · obtain ⟨p, hp, hpending, hd, hc, ha, hs⟩ := h.resolver id t ht hr
      exact ⟨p, hold hp, hpending, hd, hc, ha, by rw [hrows _ p hp (hfirst ht hr), hs]⟩
  · obtain ⟨hi, rfl⟩ | hl := eq_or_lookup ht <;> obtain ⟨hi', rfl⟩ | hl' := eq_or_lookup ht'
    · exact hi.trans hi'.symm
    · exact absurd he.symm (hfirst hl' hr' hr)
    · exact absurd he (hfirst hl hr hr')
    · exact h.unique id id' t t' hl hl' hr hr' he

theorem Move.single (h : ledger.Move ledger') (hb : ledger.Balanced)
    (hs : Single ledger.transfers ledger.pendings) :
    Single ledger'.transfers ledger'.pendings := by
  cases h with
  | opens      => exact hs
  | creates h  =>
    exact hs.insert h.absent.id (fun hr => absurd (h.plain.symm.trans hr) Bool.false_ne_true)
      fun _ _ hp _ => h.lookup_pendings hb hp
  | @resolves record p _ _ _ _ h =>
    have hp := h.unresolved
    exact hs.insert h.absent.id (fun _ => ⟨p, hp.found, hp.pending, h.debit, h.credit, h.amount,
      hp.row, AList.lookup_insert _⟩) fun key q hq hne =>
        lookup_insert_eq.trans (if_neg fun hts => hne h.postOrVoid (hb.key_eq hq hp.found hts))
  | @expires _ p _ _ _ _ _ hp =>
    refine ⟨fun id t ht hr => ?_, hs.unique⟩
    obtain ⟨q, hq, hpending, hd, hc, ha, hrow⟩ := hs.resolver id t ht hr
    refine ⟨q, hq, hpending, hd, hc, ha, Eq.trans (congrArg _ (hp.lookup_insert ?_)) hrow⟩
    rw [hrow]
    simpa using resolvedStatus_ne

-- No row is lost, and one that is no longer pending stays as it is.
def Keeps (before after : Ledger) : Prop :=
  ∀ time row, before.pendings.lookup time = some row →
    ∃ row', after.pendings.lookup time = some row' ∧ (row.status ≠ .pending → row' = row)

theorem Keeps.trans {ledger'' : Ledger} (h : ledger.Keeps ledger') (h' : ledger'.Keeps ledger'') :
    ledger.Keeps ledger'' := by
  intro time row hr
  obtain ⟨row₁, hr₁, he⟩ := h time row hr
  obtain ⟨row₂, hr₂, he'⟩ := h' time row₁ hr₁
  refine ⟨row₂, hr₂, fun hs => ?_⟩
  obtain rfl := he hs
  exact he' hs

theorem Unresolved.keeps (h : ledger.Unresolved key p)
    (he : ledger'.pendings = ledger.pendings.insert p.timestamp row) : ledger.Keeps ledger' := by
  intro time row' hr
  rw [he]
  by_cases hs : row'.status = .pending
  · by_cases ht : time = p.timestamp
    · exact ⟨row, by rw [lookup_insert_eq, if_pos ht], fun hn => absurd hs hn⟩
    · exact ⟨row', by rw [lookup_insert_eq, if_neg ht, hr], fun _ => rfl⟩
  · exact ⟨row', (h.lookup_insert (by simpa [hr] using hs)).trans hr, fun _ => rfl⟩

theorem Move.keeps (h : ledger.Move ledger') (hb : ledger.Balanced) : ledger.Keeps ledger' := by
  cases h with
  | opens      => exact fun _ row hr => ⟨row, hr, fun _ => rfl⟩
  | creates h  =>
    intro time row hr
    obtain ⟨id, t, ht, _, rfl⟩ := hb.rows _ _ hr
    exact ⟨row, (h.lookup_pendings hb ht).trans hr, fun _ => rfl⟩
  | resolves h => exact h.unresolved.keeps rfl
  | expires hp => exact hp.keeps rfl

-- The transfer posts or voids the one of the key, which gets the status.
structure Resolver (transfers : HashMap U128 Transfer) (key : U128) (status : TransferPendingStatus)
    (t : Transfer) : Prop where
  found : ∃ id, transfers.lookup id = some t
  flags : t.flags.postOrVoid = true
  named : t.pendingId = key
  status : StateMachine.resolvedStatus t = status

-- The row of a pending transfer. Where it is posted or voided, there is a transfer that did it.
structure Told (transfers : HashMap U128 Transfer) (pendings : HashMap Nat TransferPending) (key : U128)
    (p : Transfer) (row : TransferPending) : Prop where
  found : pendings.lookup p.timestamp = some row
  status : row.status = .pending ∨ row.status = .expired ∨ ∃ t, Resolver transfers key row.status t

theorem Told.insert {pendings pendings' : HashMap Nat TransferPending}
    (h : Told transfers pendings key p row) (hn : transfers.lookup record.id = none)
    (hr : pendings'.lookup p.timestamp = pendings.lookup p.timestamp) :
    Told (transfers.insert record.id record) pendings' key p row := by
  refine ⟨hr.trans h.found, h.status.imp_right fun hs => hs.imp_right fun ⟨t, ht⟩ => ⟨t, ?_⟩⟩
  obtain ⟨id, hid⟩ := ht.found
  refine { ht with found := ⟨id, ?_⟩ }
  rw [lookup_insert_eq, if_neg, hid]
  rintro rfl
  rw [hn] at hid
  cases hid

theorem Move.told (h : ledger.Move ledger') (hb : ledger.Balanced)
    (hs : ∀ key p, ledger.transfers.lookup key = some p → p.flags.pending = true →
      ∃ row, Told ledger.transfers ledger.pendings key p row) (key : U128) (p : Transfer)
    (hp : ledger'.transfers.lookup key = some p) (hpending : p.flags.pending = true) :
    ∃ row, Told ledger'.transfers ledger'.pendings key p row := by
  cases h with
  | opens                       => exact hs key p hp hpending
  | @creates record _ _ _ _ h   =>
    obtain ⟨_, rfl⟩ | hp := eq_or_lookup hp
    · exact ⟨⟨p.timestamp, .pending⟩, (congrArg _ (if_pos hpending)).trans (AList.lookup_insert _),
        .inl rfl⟩
    · obtain ⟨row, hr⟩ := hs key p hp hpending
      exact ⟨row, hr.insert h.absent.id (h.lookup_pendings hb hp)⟩
  | @resolves record q _ _ _ _ h =>
    obtain ⟨_, rfl⟩ | hp := eq_or_lookup hp
    · exact absurd (h.plain.symm.trans hpending) Bool.false_ne_true
    by_cases he : p.timestamp = q.timestamp
    · refine ⟨⟨q.timestamp, StateMachine.resolvedStatus record⟩, lookup_insert_eq.trans (if_pos he),
        .inr (.inr ⟨record, ⟨record.id, AList.lookup_insert _⟩, h.postOrVoid, ?_, rfl⟩)⟩
      exact (hb.key_eq hp h.unresolved.found he).symm
    · obtain ⟨row, hr⟩ := hs key p hp hpending
      exact ⟨row, hr.insert h.absent.id (lookup_insert_eq.trans (if_neg he))⟩
  | @expires _ q                =>
    by_cases he : p.timestamp = q.timestamp
    · exact ⟨⟨q.timestamp, .expired⟩, lookup_insert_eq.trans (if_pos he), .inr (.inl rfl)⟩
    · obtain ⟨row, hr⟩ := hs key p hp hpending
      exact ⟨row, (lookup_insert_eq.trans (if_neg he)).trans hr.found, hr.status⟩

end Ledger

namespace StateMachine

variable [Hasher] {sm sm' : StateMachine} {key : U128} {p : Transfer}

-- What is reached by further calls.
def Later (sm sm' : StateMachine) : Prop :=
  ReflTransGen (fun sm sm' => ∃ call, Timely sm call ∧ machine.step sm call = .ok sm') sm sm'

theorem Sound.later (hs : Sound sm) (h : Later sm sm') :
    Sound sm' ∧ ReflTransGen Ledger.Move sm.ledger sm'.ledger := by
  induction h with
  | refl => exact ⟨hs, .refl⟩
  | tail _ hc ih =>
    obtain ⟨call, ht, hstep⟩ := hc
    exact ⟨ih.1.step ht hstep, ih.2.trans (moves_of_sound ih.1 ht hstep)⟩

theorem later_of_reachable (h : machine.Reachable Timely sm) : Later default sm := by
  induction h with
  | init hi         => exact hi ▸ .refl
  | step _ hg hs ih => exact ih.tail ⟨_, hg, hs⟩

theorem moves_of_reachable (h : machine.Reachable Timely sm) :
    ReflTransGen Ledger.Move (default : StateMachine).ledger sm.ledger :=
  (sound_default.later (later_of_reachable h)).2

-- Whatever the calls commit, they commit by moves of the ledger.
theorem moves_of_later (h : machine.Reachable Timely sm) (hl : Later sm sm') :
    ReflTransGen Ledger.Move sm.ledger sm'.ledger :=
  ((sound_of_reachable h).later hl).2

-- What is committed stays so: the transfers, the accounts but for their balances, and what has been
-- posted.
theorem extends_of_later (h : machine.Reachable Timely sm) (hl : Later sm sm') :
    sm.ledger.Extends sm'.ledger :=
  have hs := sound_of_reachable h
  Ledger.moves_invariant (hs.later hl).2 hs.balanced .refl fun _ _ hb hp hm => hp.trans (hm.extends hb)

-- What is posted in an account is what the transfers have moved.
theorem posted_eq_total (h : machine.Reachable Timely sm) (id : U128) :
    ((sm.accounts.lookup id).elim 0 fun account => account.debitsPosted.toNat) =
        total (Ledger.settled Transfer.debitAccountId id) sm.transfers ∧
      ((sm.accounts.lookup id).elim 0 fun account => account.creditsPosted.toNat) =
        total (Ledger.settled Transfer.creditAccountId id) sm.transfers := by
  have hs : sm.ledger.Totalled := Ledger.moves_invariant (moves_of_reachable h)
    sound_default.balanced ⟨fun _ => rfl, fun _ => rfl⟩ fun _ _ hb hs hm => hm.settled hb hs
  exact ⟨(hs.debits id).symm, (hs.credits id).symm⟩

omit [Hasher] in
theorem single_empty : Ledger.Single (default : StateMachine).ledger.transfers
    (default : StateMachine).ledger.pendings where
  resolver _ _ ht := absurd ht.symm (Option.some_ne_none _)
  unique _ _ _ _ ht := absurd ht.symm (Option.some_ne_none _)

-- A pending transfer is posted or voided once at most, by a transfer with its parties and no more
-- than its amount.
theorem single_of_reachable (h : machine.Reachable Timely sm) :
    Ledger.Single sm.transfers sm.transfersPending :=
  Ledger.moves_invariant (P := fun l => Ledger.Single l.transfers l.pendings) (moves_of_reachable h)
    sound_default.balanced single_empty fun _ _ hb hs hm => hm.single hb hs

-- What has been posted, voided or has expired is so for good.
theorem keeps_of_later (h : machine.Reachable Timely sm) (hl : Later sm sm') :
    sm.ledger.Keeps sm'.ledger :=
  have hs := sound_of_reachable h
  Ledger.moves_invariant (hs.later hl).2 hs.balanced (fun _ row hr => ⟨row, hr, fun _ => rfl⟩)
    fun _ _ hb hp hm => hp.trans (hm.keeps hb)

-- A pending transfer is posted or voided if and only if there is a transfer that has done so.
theorem resolved_of_reachable (h : machine.Reachable Timely sm) (hp : sm.transfers.lookup key = some p)
    (hpending : p.flags.pending = true) :
    ∃ row, sm.transfersPending.lookup p.timestamp = some row ∧ row.status ≠ .none ∧
      ∀ status, status = .posted ∨ status = .voided →
        (row.status = status ↔ ∃ t, Ledger.Resolver sm.transfers key status t) := by
  have ⟨hsingle, htold⟩ := Ledger.moves_invariant
    (P := fun l => Ledger.Single l.transfers l.pendings ∧
      ∀ key p, l.transfers.lookup key = some p → p.flags.pending = true →
        ∃ row, Ledger.Told l.transfers l.pendings key p row)
    (moves_of_reachable h) sound_default.balanced
    ⟨single_empty, fun _ _ ht => absurd ht.symm (Option.some_ne_none _)⟩
    fun _ _ hb hs hm => ⟨hm.single hb hs.1, hm.told hb hs.2⟩
  obtain ⟨row, hfound, hstatus⟩ := htold key p hp hpending
  refine ⟨row, hfound, ?_, fun status hs => ⟨?_, ?_⟩⟩
  · intro hn
    rw [hn] at hstatus
    obtain h | h | ⟨t, ht⟩ := hstatus
    · cases h
    · cases h
    · have hst := ht.status
      unfold resolvedStatus at hst
      split at hst <;> cases hst
  · rintro rfl
    obtain h | h | ht := hstatus
    · simp [h] at hs
    · simp [h] at hs
    · exact ht
  · rintro ⟨t, ⟨id, hid⟩, hflags, rfl, hst⟩
    obtain ⟨q, hq, _, _, _, _, hrow⟩ := hsingle.resolver id t hid hflags
    obtain rfl := Option.some.inj (hp.symm.trans hq)
    exact (Option.some.inj ((congrArg (Option.map _) hfound).symm.trans hrow)).trans hst

end StateMachine

namespace StateMachine.Runs

open Accounting.Runs

attribute [local instance] identityHasher

-- The pending one of two transfers is voided.
def voiding : Call :=
  .createTransfers [{ transfer 3 0 0 8 with pendingId := 2, ledger := 0, code := 0 }] 300

theorem later_voiding : ∃ sm sm', machine.Reachable Timely sm ∧ Later sm sm' ∧
    machine.Reachable Timely sm' ∧ (∃ row ∈ sm.transfersPending.lookup 200, row.status = .pending) ∧
    ∃ row ∈ sm'.transfersPending.lookup 200, row.status = .voided := by
  have ⟨sm, hr, hp, hg, hv⟩ := (Machine.Reachable.init rfl).leads (show machine.Leads Timely
    (fun sm => (∃ row ∈ sm.transfersPending.lookup 200, row.status = .pending) ∧
      Timely sm voiding ∧ Meets (fun _ => False)
        (fun sm' => ∃ row ∈ sm'.transfersPending.lookup 200, row.status = .voided)
        (machine.step sm voiding)) [accounts, transfers] default by decide +kernel)
  have ⟨sm', hs, hv⟩ := Meets.iff_exists.mp hv
  exact ⟨sm, sm', hr, .single ⟨_, hg, hs⟩, hr.step hg hs, hp, hv⟩

theorem moves_of_later_voiding : ∃ sm sm', Later sm sm' ∧
    ReflTransGen Ledger.Move (ledger sm) (ledger sm') := by
  have ⟨sm, sm', hr, hl, _⟩ := later_voiding
  exact ⟨sm, sm', hl, moves_of_later hr hl⟩

theorem extends_of_later_voiding : ∃ sm sm', Later sm sm' ∧ (ledger sm).Extends (ledger sm') := by
  have ⟨sm, sm', hr, hl, _⟩ := later_voiding
  exact ⟨sm, sm', hl, extends_of_later hr hl⟩

theorem posted_eq_total_voiding : ∃ sm, machine.Reachable Timely sm ∧
    ((sm.accounts.lookup 1).elim 0 fun account => account.debitsPosted.toNat) =
      total (Ledger.settled Transfer.debitAccountId 1) sm.transfers := by
  have ⟨_, sm, _, _, hr, _⟩ := later_voiding
  exact ⟨sm, hr, (posted_eq_total hr 1).1⟩

theorem single_voiding : ∃ sm, machine.Reachable Timely sm ∧
    Ledger.Single sm.transfers sm.transfersPending := by
  have ⟨_, sm, _, _, hr, _⟩ := later_voiding
  exact ⟨sm, hr, single_of_reachable hr⟩

theorem keeps_of_later_voiding : ∃ sm sm', Later sm sm' ∧ (ledger sm).Keeps (ledger sm') := by
  have ⟨sm, sm', hr, hl, _⟩ := later_voiding
  exact ⟨sm, sm', hl, keeps_of_later hr hl⟩

theorem resolved_voiding : ∃ sm key, machine.Reachable Timely sm ∧
    ∃ t, Ledger.Resolver sm.transfers key .voided t := by
  have ⟨_, sm, _, _, hr, _, row, hrow, hs⟩ := later_voiding
  have ⟨key, p, hp, hpending, hts⟩ := (sound_of_reachable hr).balanced.rows _ _ hrow
  obtain ⟨row', hrow', _, hres⟩ := resolved_of_reachable hr hp hpending
  obtain rfl : row = row' := Option.some.inj (hrow.symm.trans (hts ▸ hrow'))
  exact ⟨sm, key, hr, (hres _ (.inr rfl)).mp hs⟩

end StateMachine.Runs

end TigerBeetle.Accounting
