import TigerBeetle.Accounting.Groove
import TigerBeetle.Theorems.IndexTree
import TigerBeetle.Theorems.Totals

namespace TigerBeetle.Accounting

open Fallible HashMap IndexTree

namespace AccountGroove

variable {groove : AccountGroove} {objects : U128 → Option Account} {id : U128}
    {object old : Account}

structure Mirrors (groove : AccountGroove) (objects : U128 → Option Account) : Prop where
  userData128 : groove.userData128.Mirrors (Indexed accountUserData128Index Account.timestamp objects)
  userData64  : groove.userData64.Mirrors (Indexed accountUserData64Index Account.timestamp objects)
  userData32  : groove.userData32.Mirrors (Indexed accountUserData32Index Account.timestamp objects)
  ledger : groove.ledger.Mirrors (Indexed accountLedgerIndex Account.timestamp objects)
  code : groove.code.Mirrors (Indexed accountCodeIndex Account.timestamp objects)
  imported : groove.imported.Mirrors (Indexed accountImportedIndex Account.timestamp objects)
  closed : groove.closed.Mirrors (Indexed accountClosedIndex Account.timestamp objects)

theorem Mirrors.new : new.Mirrors fun _ => none := by
  constructor <;> exact IndexTree.Mirrors.new.congr fun _ => by simp [Indexed]

theorem Mirrors.insert (h : groove.Mirrors objects) (hn : objects id = none)
    (hf : ∀ id o, objects id = some o → o.timestamp ≠ object.timestamp) :
    Meets (fun _ => True)
      (fun groove' => groove'.Mirrors (Function.update objects id (some object)))
      (groove.insert object) := by
  unfold AccountGroove.insert
  simp only [Meets.bind_eq, Meets.pure_eq, partial_assert]
  intro _ _
  exact {
    userData128 := h.userData128.insertIndex hn hf
    userData64 := h.userData64.insertIndex hn hf
    userData32 := h.userData32.insertIndex hn hf
    ledger := h.ledger.insertIndex hn hf
    code := h.code.insertIndex hn hf
    imported := h.imported.insertIndex hn hf
    closed := h.closed.insertIndex hn hf
  }

theorem Mirrors.update (h : groove.Mirrors objects) (hl : objects id = some old)
    (hu : ∀ id' o, objects id' = some o → o.timestamp = old.timestamp → id' = id) :
    Meets (fun _ => True)
      (fun groove' => groove'.Mirrors (Function.update objects id (some object)))
      (groove.update old object) := by
  unfold AccountGroove.update
  simp only [Meets.bind_eq, Meets.pure_eq, partial_assert]
  intro ht _
  exact {
    userData128 := h.userData128.diffIndex hl hu ht
    userData64 := h.userData64.diffIndex hl hu ht
    userData32 := h.userData32.diffIndex hl hu ht
    ledger := h.ledger.diffIndex hl hu ht
    code := h.code.diffIndex hl hu ht
    imported := h.imported.diffIndex hl hu ht
    closed := h.closed.diffIndex hl hu ht
  }

end AccountGroove

namespace TransferGroove

variable {groove : TransferGroove} {objects : U128 → Option Transfer} {id : U128}
    {object p : Transfer} {expires : CompositeKey Nat → Prop}

-- The transfers are indexed by their fields, and some of them by when they expire.
structure Mirrors (groove : TransferGroove) (objects : U128 → Option Transfer)
    (expires : CompositeKey Nat → Prop) : Prop where
  debitAccountId :
    groove.debitAccountId.Mirrors (Indexed transferDebitAccountIdIndex Transfer.timestamp objects)
  creditAccountId :
    groove.creditAccountId.Mirrors (Indexed transferCreditAccountIdIndex Transfer.timestamp objects)
  amount : groove.amount.Mirrors (Indexed transferAmountIndex Transfer.timestamp objects)
  pendingId :
    groove.pendingId.Mirrors (Indexed transferPendingIdIndex Transfer.timestamp objects)
  userData128     :
    groove.userData128.Mirrors (Indexed transferUserData128Index Transfer.timestamp objects)
  userData64      :
    groove.userData64.Mirrors (Indexed transferUserData64Index Transfer.timestamp objects)
  userData32      :
    groove.userData32.Mirrors (Indexed transferUserData32Index Transfer.timestamp objects)
  ledger : groove.ledger.Mirrors (Indexed transferLedgerIndex Transfer.timestamp objects)
  code : groove.code.Mirrors (Indexed transferCodeIndex Transfer.timestamp objects)
  expiresAt : groove.expiresAt.Mirrors expires
  imported :
    groove.imported.Mirrors (Indexed transferImportedIndex Transfer.timestamp objects)
  closing : groove.closing.Mirrors (Indexed transferClosingIndex Transfer.timestamp objects)

-- The entry of a transfer in the index of what expires.
def ExpiresAt (t : Transfer) (key : CompositeKey Nat) : Prop :=
  transferExpiresAtIndex t = some key.field ∧ t.timestamp = key.timestamp

theorem Mirrors.new : new.Mirrors (fun _ => none) fun _ => False := by
  constructor <;> first
    | exact IndexTree.Mirrors.new
    | exact IndexTree.Mirrors.new.congr fun _ => by simp [Indexed]

theorem Mirrors.congr {expires' : CompositeKey Nat → Prop} (h : groove.Mirrors objects expires)
    (he : ∀ key, expires key ↔ expires' key) : groove.Mirrors objects expires' :=
  { h with expiresAt := h.expiresAt.congr he }

theorem Mirrors.insert (h : groove.Mirrors objects expires) (hn : objects id = none)
    (hf : ∀ id o, objects id = some o → o.timestamp ≠ object.timestamp)
    (he : ∀ key, expires key → key.timestamp ≠ object.timestamp) :
    Meets (fun _ => True)
      (fun groove' => groove'.Mirrors (Function.update objects id (some object))
        fun key => ExpiresAt object key ∨ expires key)
      (groove.insert object) := by
  have hexpires : (groove.expiresAt.insertIndex (transferExpiresAtIndex object)
      object.timestamp).Mirrors fun key => ExpiresAt object key ∨ expires key := by
    unfold insertIndex
    cases hi : transferExpiresAtIndex object with
    | none => exact h.expiresAt.congr fun key => by simp [ExpiresAt, hi]
    | some v =>
      refine (h.expiresAt.put fun hk => he ⟨v, object.timestamp⟩ hk rfl).congr fun key => ?_
      refine or_congr_left ⟨fun hk => hk ▸ ⟨hi, rfl⟩, fun ⟨hv, ht⟩ => ?_⟩
      cases hi.symm.trans hv
      exact congrArg (CompositeKey.mk key.field) ht.symm
  unfold TransferGroove.insert
  simp only [Meets.bind_eq, Meets.pure_eq, partial_assert]
  intro _ _
  exact {
    debitAccountId := h.debitAccountId.insertIndex hn hf
    creditAccountId := h.creditAccountId.insertIndex hn hf
    amount := h.amount.insertIndex hn hf
    pendingId := h.pendingId.insertIndex hn hf
    userData128 := h.userData128.insertIndex hn hf
    userData64 := h.userData64.insertIndex hn hf
    userData32 := h.userData32.insertIndex hn hf
    ledger := h.ledger.insertIndex hn hf
    code := h.code.insertIndex hn hf
    expiresAt := hexpires
    imported := h.imported.insertIndex hn hf
    closing := h.closing.insertIndex hn hf
  }

theorem Mirrors.removeExpiresAt (h : groove.Mirrors objects expires)
    (hp : ∀ key, ExpiresAt p key → expires key) :
    (groove.removeExpiresAt p).Mirrors objects fun key => ¬ExpiresAt p key ∧ expires key := by
  refine { h with expiresAt := ?_ }
  unfold TransferGroove.removeExpiresAt removeIndex
  cases hi : transferExpiresAtIndex p with
  | none => exact h.expiresAt.congr fun key => by simp [ExpiresAt, hi]
  | some v =>
    refine (h.expiresAt.remove (hp ⟨v, p.timestamp⟩ ⟨hi, rfl⟩)).congr fun key => ?_
    refine and_congr_left fun _ => not_congr ⟨fun hk => hk ▸ ⟨hi, rfl⟩, fun ⟨hv, ht⟩ => ?_⟩
    cases hi.symm.trans hv
    exact congrArg (CompositeKey.mk key.field) ht.symm

end TransferGroove

namespace TransferPendingGroove

variable {groove : TransferPendingGroove} {objects : Nat → Option TransferPending} {id : Nat}
    {object old : TransferPending}

def Mirrors (groove : TransferPendingGroove) (objects : Nat → Option TransferPending) : Prop :=
  groove.status.Mirrors (Indexed transferPendingStatusIndex TransferPending.timestamp objects)

theorem Mirrors.insert (h : groove.Mirrors objects) (hn : objects id = none)
    (hf : ∀ id o, objects id = some o → o.timestamp ≠ object.timestamp) :
    Meets (fun _ => True)
      (fun groove' => groove'.Mirrors (Function.update objects id (some object)))
      (groove.insert object) := by
  unfold TransferPendingGroove.insert
  simp only [Meets.bind_eq, Meets.pure_eq, partial_assert]
  exact fun _ _ => IndexTree.Mirrors.insertIndex h hn hf

theorem Mirrors.update (h : groove.Mirrors objects) (hl : objects id = some old)
    (hu : ∀ id' o, objects id' = some o → o.timestamp = old.timestamp → id' = id) :
    Meets (fun _ => True)
      (fun groove' => groove'.Mirrors (Function.update objects id (some object)))
      (groove.update old object) := by
  unfold TransferPendingGroove.update
  simp only [Meets.bind_eq, Meets.pure_eq, partial_assert]
  intro ht
  have hdiff := IndexTree.Mirrors.diffIndex h hl hu ht
  rw [ht] at hdiff
  exact hdiff

end TransferPendingGroove

open TransferGroove (ExpiresAt)

-- The entries of the pending transfers that have a timeout and are not resolved.
def Expires (transfers : HashMap U128 Transfer) (pendings : HashMap Nat TransferPending)
    (key : CompositeKey Nat) : Prop :=
  ∃ id t, transfers.lookup id = some t ∧ ExpiresAt t key ∧
    (pendings.lookup t.timestamp).map TransferPending.status = some .pending

section Expires

variable {transfers : HashMap U128 Transfer} {pendings pendings' : HashMap Nat TransferPending}
    {record p : Transfer} {id : U128} {key : CompositeKey Nat}

theorem expires_insert (hn : transfers.lookup record.id = none)
    (hf : ∀ id t, transfers.lookup id = some t → t.timestamp ≠ record.timestamp)
    (hp : ∀ timestamp, timestamp ≠ record.timestamp →
      pendings'.lookup timestamp = pendings.lookup timestamp)
    (hr : ∀ key, ExpiresAt record key →
      (pendings'.lookup record.timestamp).map TransferPending.status = some .pending) :
    ExpiresAt record key ∨ Expires transfers pendings key ↔
      Expires (transfers.insert record.id record) pendings' key := by
  constructor
  case mp =>
    intro h
    obtain h | ⟨id, t, hl, he, hs⟩ := h
    · exact ⟨record.id, record, AList.lookup_insert _, h, hr key h⟩
    · refine ⟨id, t, ?_, he, hp _ (hf id t hl) ▸ hs⟩
      rw [lookup_insert_eq, if_neg]
      · exact hl
      · rintro rfl
        rw [hn] at hl
        cases hl
  case mpr =>
    intro ⟨id, t, hl, he, hs⟩
    rw [lookup_insert_eq] at hl
    split at hl
    · cases hl
      exact .inl he
    · exact .inr ⟨id, t, hl, he, hp _ (hf id t hl) ▸ hs⟩

theorem expires_settle {row : TransferPending} (hl : transfers.lookup id = some p)
    (hu : ∀ id' t, transfers.lookup id' = some t → t.timestamp = p.timestamp → id' = id)
    (hs : row.status ≠ .pending) :
    ¬ExpiresAt p key ∧ Expires transfers pendings key ↔
      Expires transfers (pendings.insert p.timestamp row) key := by
  constructor
  case mp =>
    intro ⟨hne, id', t, hl', he, hs'⟩
    refine ⟨id', t, hl', he, ?_⟩
    rw [lookup_insert_eq, if_neg]
    · exact hs'
    · intro ht
      obtain rfl := hu id' t hl' ht
      cases hl.symm.trans hl'
      exact hne he
  case mpr =>
    intro ⟨id', t, hl', he, hs'⟩
    rw [lookup_insert_eq] at hs'
    split at hs'
    · exact absurd (Option.some.inj hs') hs
    · next hne => exact ⟨fun hp => hne (he.2.trans hp.2.symm), id', t, hl', he, hs'⟩

end Expires

end TigerBeetle.Accounting
