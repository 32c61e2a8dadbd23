import TigerBeetle.Accounting.StateMachine
import TigerBeetle.IndexTree

namespace TigerBeetle.Accounting

-- The indexes of an object: the values of its fields, and what is derived of them.

def accountUserData128Index (object : Account) : Option U128 :=
  if object.userData128 = 0 then none else some object.userData128

def accountUserData64Index (object : Account) : Option Nat :=
  if object.userData64 = 0 then none else some object.userData64

def accountUserData32Index (object : Account) : Option Nat :=
  if object.userData32 = 0 then none else some object.userData32

def accountLedgerIndex (object : Account) : Option Nat :=
  some object.ledger

def accountCodeIndex (object : Account) : Option Nat :=
  some object.code

def accountImportedIndex (object : Account) : Option Unit :=
  if object.flags.imported then some () else none

def accountClosedIndex (object : Account) : Option Unit :=
  if object.flags.closed then some () else none

def transferDebitAccountIdIndex (object : Transfer) : Option U128 :=
  some object.debitAccountId

def transferCreditAccountIdIndex (object : Transfer) : Option U128 :=
  some object.creditAccountId

def transferAmountIndex (object : Transfer) : Option U128 :=
  some object.amount

def transferPendingIdIndex (object : Transfer) : Option U128 :=
  if object.pendingId = 0 then none else some object.pendingId

def transferUserData128Index (object : Transfer) : Option U128 :=
  if object.userData128 = 0 then none else some object.userData128

def transferUserData64Index (object : Transfer) : Option Nat :=
  if object.userData64 = 0 then none else some object.userData64

def transferUserData32Index (object : Transfer) : Option Nat :=
  if object.userData32 = 0 then none else some object.userData32

def transferLedgerIndex (object : Transfer) : Option Nat :=
  some object.ledger

def transferCodeIndex (object : Transfer) : Option Nat :=
  some object.code

def transferExpiresAtIndex (object : Transfer) : Option Nat :=
  if object.flags.pending ∧ 0 < object.timeout then some (object.timestamp + object.timeoutNs)
  else none

def transferImportedIndex (object : Transfer) : Option Unit :=
  if object.flags.imported then some () else none

def transferClosingIndex (object : Transfer) : Option Unit :=
  if object.flags.closingDebit || object.flags.closingCredit then some () else none

def TransferPendingStatus.toNat : TransferPendingStatus → Nat
  | none => 0
  | pending => 1
  | posted => 2
  | voided => 3
  | expired => 4

def transferPendingStatusIndex (object : TransferPending) : Option Nat :=
  if object.status = .none then none else some object.status.toNat

structure AccountGroove where
  userData128 : IndexTree U128
  userData64 : IndexTree Nat
  userData32 : IndexTree Nat
  ledger : IndexTree Nat
  code : IndexTree Nat
  imported : IndexTree Unit
  closed : IndexTree Unit

namespace AccountGroove

def new : AccountGroove := ⟨.new, .new, .new, .new, .new, .new, .new⟩

variable (groove : AccountGroove)

def insert (object : Account) : Result AccountGroove := do
  assert (object.timestamp ≠ 0) "object.timestamp != 0"
  assert (object.timestamp.testBit tombstoneBit = false)
    "object.timestamp & composite_key::TOMBSTONE_BIT == 0"
  let put {F : Type} (tree : IndexTree F) (index : Account → Option F) :=
    tree.insertIndex (index object) object.timestamp
  return {
    userData128 := put groove.userData128 accountUserData128Index
    userData64 := put groove.userData64 accountUserData64Index
    userData32 := put groove.userData32 accountUserData32Index
    ledger := put groove.ledger accountLedgerIndex
    code := put groove.code accountCodeIndex
    imported := put groove.imported accountImportedIndex
    closed := put groove.closed accountClosedIndex
  }

def update (old new : Account) : Result AccountGroove := do
  assert (old.timestamp = new.timestamp) "old.timestamp == new.timestamp"
  assert (old.timestamp ≠ 0) "old.timestamp != 0"
  let diff {F : Type} [DecidableEq F] (tree : IndexTree F) (index : Account → Option F) :=
    tree.diffIndex (index old) (index new) old.timestamp new.timestamp
  return {
    userData128 := diff groove.userData128 accountUserData128Index
    userData64 := diff groove.userData64 accountUserData64Index
    userData32 := diff groove.userData32 accountUserData32Index
    ledger := diff groove.ledger accountLedgerIndex
    code := diff groove.code accountCodeIndex
    imported := diff groove.imported accountImportedIndex
    closed := diff groove.closed accountClosedIndex
  }

end AccountGroove

structure TransferGroove where
  debitAccountId : IndexTree U128
  creditAccountId : IndexTree U128
  amount : IndexTree U128
  pendingId : IndexTree U128
  userData128 : IndexTree U128
  userData64 : IndexTree Nat
  userData32 : IndexTree Nat
  ledger : IndexTree Nat
  code : IndexTree Nat
  expiresAt : IndexTree Nat
  imported : IndexTree Unit
  closing : IndexTree Unit

namespace TransferGroove

def new : TransferGroove :=
  ⟨.new, .new, .new, .new, .new, .new, .new, .new, .new, .new, .new, .new⟩

variable (groove : TransferGroove)

def insert (object : Transfer) : Result TransferGroove := do
  assert (object.timestamp ≠ 0) "object.timestamp != 0"
  assert (object.timestamp.testBit tombstoneBit = false)
    "object.timestamp & composite_key::TOMBSTONE_BIT == 0"
  let put {F : Type} (tree : IndexTree F) (index : Transfer → Option F) :=
    tree.insertIndex (index object) object.timestamp
  return {
    debitAccountId := put groove.debitAccountId transferDebitAccountIdIndex
    creditAccountId := put groove.creditAccountId transferCreditAccountIdIndex
    amount := put groove.amount transferAmountIndex
    pendingId := put groove.pendingId transferPendingIdIndex
    userData128 := put groove.userData128 transferUserData128Index
    userData64 := put groove.userData64 transferUserData64Index
    userData32 := put groove.userData32 transferUserData32Index
    ledger := put groove.ledger transferLedgerIndex
    code := put groove.code transferCodeIndex
    expiresAt := put groove.expiresAt transferExpiresAtIndex
    imported := put groove.imported transferImportedIndex
    closing := put groove.closing transferClosingIndex
  }

def removeExpiresAt (pending : Transfer) : TransferGroove :=
  { groove with
    expiresAt := groove.expiresAt.removeIndex (transferExpiresAtIndex pending) pending.timestamp }

end TransferGroove

structure TransferPendingGroove where
  status : IndexTree Nat

namespace TransferPendingGroove

variable (groove : TransferPendingGroove)

def insert (object : TransferPending) : Result TransferPendingGroove := do
  assert (object.timestamp ≠ 0) "object.timestamp != 0"
  assert (object.timestamp.testBit tombstoneBit = false)
    "object.timestamp & composite_key::TOMBSTONE_BIT == 0"
  return ⟨groove.status.insertIndex (transferPendingStatusIndex object) object.timestamp⟩

def update (old new : TransferPending) : Result TransferPendingGroove := do
  assert (old.timestamp = new.timestamp) "old.timestamp == new.timestamp"
  return ⟨groove.status.diffIndex (transferPendingStatusIndex old) (transferPendingStatusIndex new)
    new.timestamp new.timestamp⟩

end TransferPendingGroove

structure Forest where
  accounts : AccountGroove
  transfers : TransferGroove
  transfersPending : TransferPendingGroove

def Forest.new : Forest := ⟨.new, .new, ⟨.new⟩⟩

end TigerBeetle.Accounting
