import TigerBeetle.Records
import TigerBeetle.SuperblockWire

-- The batches of accounts and of transfers as they are encoded in the bodies of requests.
namespace TigerBeetle.Wire

open LittleEndian Slots Superblock Records

def eventSize : Nat := 128

-- All bits of the flags are kept, whether they are defined or not.
structure AccountFlags where
  raw : U16

structure TransferFlags where
  raw : U16

structure Account where
  id : U128
  debitsPending : U128
  debitsPosted : U128
  creditsPending : U128
  creditsPosted : U128
  userData128 : U128
  userData64 : U64
  userData32 : U32
  reserved : U32
  ledger : U32
  code : U16
  flags : AccountFlags
  timestamp : U64

namespace Account

def fields : List (RecordField Account) := [
  .word 0 Account.id,
  .word 16 Account.debitsPending,
  .word 32 Account.debitsPosted,
  .word 48 Account.creditsPending,
  .word 64 Account.creditsPosted,
  .word 80 Account.userData128,
  .word 96 Account.userData64,
  .word 104 Account.userData32,
  .word 108 Account.reserved,
  .word 112 Account.ledger,
  .word 116 Account.code,
  .word 118 fun account => account.flags.raw,
  .word 120 Account.timestamp]

def decode (record : Bytes eventSize) : Account where
  id := get 16 record.val 0
  debitsPending := get 16 record.val 16
  debitsPosted := get 16 record.val 32
  creditsPending := get 16 record.val 48
  creditsPosted := get 16 record.val 64
  userData128 := get 16 record.val 80
  userData64 := get 8 record.val 96
  userData32 := get 4 record.val 104
  reserved := get 4 record.val 108
  ledger := get 4 record.val 112
  code := get 2 record.val 116
  flags := ⟨get 2 record.val 118⟩
  timestamp := get 8 record.val 120

end Account

structure Transfer where
  id : U128
  debitAccountId : U128
  creditAccountId : U128
  amount : U128
  pendingId : U128
  userData128 : U128
  userData64 : U64
  userData32 : U32
  timeout : U32
  ledger : U32
  code : U16
  flags : TransferFlags
  timestamp : U64

namespace Transfer

def fields : List (RecordField Transfer) := [
  .word 0 Transfer.id,
  .word 16 Transfer.debitAccountId,
  .word 32 Transfer.creditAccountId,
  .word 48 Transfer.amount,
  .word 64 Transfer.pendingId,
  .word 80 Transfer.userData128,
  .word 96 Transfer.userData64,
  .word 104 Transfer.userData32,
  .word 108 Transfer.timeout,
  .word 112 Transfer.ledger,
  .word 116 Transfer.code,
  .word 118 fun transfer => transfer.flags.raw,
  .word 120 Transfer.timestamp]

def decode (record : Bytes eventSize) : Transfer where
  id := get 16 record.val 0
  debitAccountId := get 16 record.val 16
  creditAccountId := get 16 record.val 32
  amount := get 16 record.val 48
  pendingId := get 16 record.val 64
  userData128 := get 16 record.val 80
  userData64 := get 8 record.val 96
  userData32 := get 4 record.val 104
  timeout := get 4 record.val 108
  ledger := get 4 record.val 112
  code := get 2 record.val 116
  flags := ⟨get 2 record.val 118⟩
  timestamp := get 8 record.val 120

end Transfer

-- The chunks of a size that bytes start with.
def asChunks (size : Nat) : (count : Nat) → List UInt8 → List (Bytes size) × List UInt8
  | 0, bytes => ([], bytes)
  | count + 1, bytes =>
    if h : size ≤ bytes.length then
      let (records, remainder) := asChunks size count (bytes.drop size)
      (⟨bytes.take size, by rw [List.length_take, Nat.min_eq_left h]⟩ :: records, remainder)
    else
      ([], bytes)

section Batches

variable {E : Type}

def batchToBytes (fields : List (RecordField E)) (events : List E) : List UInt8 :=
  events.flatMap fun event => write fields event (zeros eventSize)

def bytesToBatch (decode : Bytes eventSize → E) (bytes : List UInt8) : Result (Option (List E)) := do
  if bytes.length % eventSize ≠ 0 then
    return none
  else
    let (records, remainder) := asChunks eventSize (bytes.length / eventSize) bytes
    assert (remainder = []) "remainder.is_empty()"
    return some (records.map decode)

end Batches

def accountBatchToBytes (events : List Account) : List UInt8 :=
  batchToBytes Account.fields events

def bytesToAccountBatch (bytes : List UInt8) : Result (Option (List Account)) :=
  bytesToBatch Account.decode bytes

def transferBatchToBytes (events : List Transfer) : List UInt8 :=
  batchToBytes Transfer.fields events

def bytesToTransferBatch (bytes : List UInt8) : Result (Option (List Transfer)) :=
  bytesToBatch Transfer.decode bytes

end TigerBeetle.Wire
