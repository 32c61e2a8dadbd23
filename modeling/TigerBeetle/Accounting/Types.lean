import TigerBeetle.CacheMap

namespace TigerBeetle.Accounting

abbrev U128 := BitVec 128

def u128Max : U128 := BitVec.allOnes 128

namespace TimestampRange

def timestampMin : Nat := 1

-- The most significant bit of a timestamp is the tombstone flag.
def timestampMax : Nat := 2 ^ 63 - 1

abbrev valid (timestamp : Nat) : Prop :=
  timestampMin ≤ timestamp ∧ timestamp ≤ timestampMax

end TimestampRange

def tombstoneBit : Nat := 63

def nsPerS : Nat := 1000000000

structure AccountFlags where
  raw : BitVec 16
  deriving DecidableEq

namespace AccountFlags

variable (flags : AccountFlags)

def linked : Bool := flags.raw.getLsbD 0

def debitsMustNotExceedCredits : Bool := flags.raw.getLsbD 1

def creditsMustNotExceedDebits : Bool := flags.raw.getLsbD 2

def history : Bool := flags.raw.getLsbD 3

def imported : Bool := flags.raw.getLsbD 4

def closed : Bool := flags.raw.getLsbD 5

def withClosed : AccountFlags := ⟨flags.raw ||| 1#16 <<< 5⟩

def withoutClosed : AccountFlags := ⟨flags.raw &&& ~~~(1#16 <<< 5)⟩

def hasPadding : Bool := flags.raw &&& ~~~0x1FF#16 ≠ 0

def areMutuallyExclusive : Bool :=
  flags.debitsMustNotExceedCredits && flags.creditsMustNotExceedDebits

end AccountFlags

structure Account where
  id : U128
  debitsPending : U128
  debitsPosted : U128
  creditsPending : U128
  creditsPosted : U128
  userData128 : U128
  userData64 : Nat
  userData32 : Nat
  reserved : Nat
  ledger : Nat
  code : Nat
  flags : AccountFlags
  timestamp : Nat
  deriving DecidableEq

namespace Account

variable (account : Account) (amount : U128)

def debitsExceedCredits : Bool :=
  account.flags.debitsMustNotExceedCredits &&
    account.debitsPending + account.debitsPosted + amount > account.creditsPosted

def creditsExceedDebits : Bool :=
  account.flags.creditsMustNotExceedDebits &&
    account.creditsPending + account.creditsPosted + amount > account.debitsPosted

end Account

structure TransferFlags where
  raw : BitVec 16
  deriving DecidableEq

namespace TransferFlags

variable (flags : TransferFlags)

def linked : Bool := flags.raw.getLsbD 0

def pending : Bool := flags.raw.getLsbD 1

def postPendingTransfer : Bool := flags.raw.getLsbD 2

def voidPendingTransfer : Bool := flags.raw.getLsbD 3

def balancingDebit : Bool := flags.raw.getLsbD 4

def balancingCredit : Bool := flags.raw.getLsbD 5

def closingDebit : Bool := flags.raw.getLsbD 6

def closingCredit : Bool := flags.raw.getLsbD 7

def imported : Bool := flags.raw.getLsbD 8

def hasPadding : Bool := flags.raw &&& ~~~0x1FF#16 ≠ 0

-- Whether a transfer is to resolve a pending one.
def postOrVoid : Bool := flags.postPendingTransfer || flags.voidPendingTransfer

end TransferFlags

structure Transfer where
  id : U128
  debitAccountId : U128
  creditAccountId : U128
  amount : U128
  pendingId : U128
  userData128 : U128
  userData64 : Nat
  userData32 : Nat
  timeout : Nat
  ledger : Nat
  code : Nat
  flags : TransferFlags
  timestamp : Nat
  deriving DecidableEq

def Transfer.timeoutNs (t : Transfer) : Nat :=
  t.timeout * nsPerS

inductive TransferPendingStatus
  | none
  | pending
  | posted
  | voided
  | expired
  deriving DecidableEq, Repr

-- The status of the pending transfer with the timestamp.
structure TransferPending where
  timestamp : Nat
  status : TransferPendingStatus
  deriving DecidableEq

instance : Inhabited Account :=
  ⟨⟨0, 0, 0, 0, 0, 0, 0, 0, 0, 0, 0, ⟨0⟩, 0⟩⟩

instance : Inhabited Transfer :=
  ⟨⟨0, 0, 0, 0, 0, 0, 0, 0, 0, 0, 0, ⟨0⟩, 0⟩⟩

instance : Inhabited TransferPending :=
  ⟨⟨0, .none⟩⟩

inductive CreateAccountStatus
  | linkedEventFailed
  | linkedEventChainOpen
  | timestampMustBeZero
  | reservedField
  | reservedFlag
  | idMustNotBeZero
  | idMustNotBeIntMax
  | flagsAreMutuallyExclusive
  | debitsPendingMustBeZero
  | debitsPostedMustBeZero
  | creditsPendingMustBeZero
  | creditsPostedMustBeZero
  | ledgerMustNotBeZero
  | codeMustNotBeZero
  | existsWithDifferentFlags
  | existsWithDifferentUserData128
  | existsWithDifferentUserData64
  | existsWithDifferentUserData32
  | existsWithDifferentLedger
  | existsWithDifferentCode
  | exists
  | importedEventExpected
  | importedEventNotExpected
  | importedEventTimestampMustNotAdvance
  | importedEventTimestampMustNotRegress
  | created
  deriving DecidableEq, Repr

inductive CreateTransferStatus
  | linkedEventFailed
  | linkedEventChainOpen
  | timestampMustBeZero
  | reservedFlag
  | idMustNotBeZero
  | idMustNotBeIntMax
  | flagsAreMutuallyExclusive
  | debitAccountIdMustNotBeZero
  | debitAccountIdMustNotBeIntMax
  | creditAccountIdMustNotBeZero
  | creditAccountIdMustNotBeIntMax
  | accountsMustBeDifferent
  | pendingIdMustBeZero
  | pendingIdMustNotBeZero
  | pendingIdMustNotBeIntMax
  | pendingIdMustBeDifferent
  | timeoutReservedForPendingTransfer
  | ledgerMustNotBeZero
  | codeMustNotBeZero
  | debitAccountNotFound
  | creditAccountNotFound
  | accountsMustHaveTheSameLedger
  | transferMustHaveTheSameLedgerAsAccounts
  | pendingTransferNotFound
  | pendingTransferNotPending
  | pendingTransferHasDifferentDebitAccountId
  | pendingTransferHasDifferentCreditAccountId
  | pendingTransferHasDifferentLedger
  | pendingTransferHasDifferentCode
  | exceedsPendingTransferAmount
  | pendingTransferHasDifferentAmount
  | pendingTransferAlreadyPosted
  | pendingTransferAlreadyVoided
  | pendingTransferExpired
  | existsWithDifferentFlags
  | existsWithDifferentDebitAccountId
  | existsWithDifferentCreditAccountId
  | existsWithDifferentAmount
  | existsWithDifferentPendingId
  | existsWithDifferentUserData128
  | existsWithDifferentUserData64
  | existsWithDifferentUserData32
  | existsWithDifferentTimeout
  | existsWithDifferentCode
  | exists
  | overflowsDebitsPending
  | overflowsCreditsPending
  | overflowsDebitsPosted
  | overflowsCreditsPosted
  | overflowsDebits
  | overflowsCredits
  | overflowsTimeout
  | exceedsCredits
  | exceedsDebits
  | importedEventExpected
  | importedEventNotExpected
  | importedEventTimestampMustNotAdvance
  | importedEventTimestampMustNotRegress
  | importedEventTimestampMustPostdateDebitAccount
  | importedEventTimestampMustPostdateCreditAccount
  | importedEventTimeoutMustBeZero
  | closingTransferMustBePending
  | debitAccountAlreadyClosed
  | creditAccountAlreadyClosed
  | existsWithDifferentLedger
  | idAlreadyFailed
  | created
  deriving DecidableEq, Repr

-- Whether a retry of the same transfer could have another outcome.
def CreateTransferStatus.transient : CreateTransferStatus → Bool
  | debitAccountNotFound | creditAccountNotFound | pendingTransferNotFound | exceedsCredits
  | exceedsDebits | debitAccountAlreadyClosed | creditAccountAlreadyClosed => true
  | _ => false

section Caches

variable [Hasher]

instance : CacheMapSpec U128 Account where
  keyFromValue := Account.id
  hash key := Hasher.hashInline key.toNat
  tombstone account := account.timestamp.testBit tombstoneBit

instance : CacheMapSpec U128 Transfer where
  keyFromValue := Transfer.id
  hash key := Hasher.hashInline key.toNat
  tombstone transfer := transfer.timestamp.testBit tombstoneBit

instance : CacheMapSpec Nat TransferPending where
  keyFromValue pending := pending.timestamp % 2 ^ tombstoneBit
  hash := Hasher.hashInline
  tombstone pending := pending.timestamp.testBit tombstoneBit

end Caches

abbrev AccountObjectsCache := CacheMap U128 Account

abbrev TransferObjectsCache := CacheMap U128 Transfer

abbrev TransferPendingObjectsCache := CacheMap Nat TransferPending

end TigerBeetle.Accounting
