import TigerBeetle.Accounting.Mounted
import TigerBeetle.Theorems.DoubleEntry

namespace TigerBeetle.Accounting

open Fallible HashMap Orchestrator

variable {index : Nat}

section Batch

variable {ε ρ σ τ : Type} {linked : ε → Bool} {created : ρ → Bool} {f : σ → τ}
    {persistEvent : Nat → ε → ρ → σ → Result σ} {persistEvent' : Nat → ε → ρ → τ → Result τ}

theorem persistChain_simulates {chain : List (ε × ρ)} {state : σ}
    (h : ∀ index event result state,
      Simulates f (persistEvent index event result state)
        (persistEvent' index event result (f state))) :
    Simulates f (persistBatch.persistChain persistEvent index chain state)
      (persistBatch.persistChain persistEvent' index chain (f state)) := by
  induction chain generalizing index state with
  | nil => exact .pure
  | cons pair chain ih => exact .bind (h _ _ _ _) fun _ => ih

theorem persistBatch_simulates {chain pairs : List (ε × ρ)} {state : σ}
    (h : ∀ index event result state,
      Simulates f (persistEvent index event result state)
        (persistEvent' index event result (f state))) :
    Simulates f (persistBatch linked created persistEvent index chain pairs state)
      (persistBatch linked created persistEvent' index chain pairs (f state)) := by
  induction pairs generalizing index chain state with
  | nil => exact .pure
  | cons pair pairs ih =>
    simp only [persistBatch]
    split
    · exact ih
    · exact .ite (.bind (persistChain_simulates h) fun _ => ih) (.bind .pure fun _ => ih)

end Batch

namespace Mounted

variable {m : Mounted}

-- The forest leaves the state machine to itself.

theorem unmounted_simulates {sm : Result StateMachine} : Simulates Mounted.sm (m.unmounted sm) sm :=
  .append fun _ => .pure

variable {account : Account}

theorem insertAccount_simulates {id : U128} :
    Simulates Mounted.sm (m.insertAccount id account) (m.sm.insertAccount id account) :=
  .append fun _ => .skip fun _ => .pure

theorem updateAccount_simulates :
    Simulates Mounted.sm (m.updateAccount account) (m.sm.updateAccount account) :=
  .skip fun _ => .append fun _ => .skip fun _ => .pure

theorem updateAccountIf_simulates {updated : Bool} :
    Simulates Mounted.sm (m.updateAccountIf updated account)
      (m.sm.updateAccountIf updated account) :=
  .ite updateAccount_simulates .pure

theorem insertTransfer_simulates {id : U128} {transfer : Transfer} :
    Simulates Mounted.sm (m.insertTransfer id transfer) (m.sm.insertTransfer id transfer) :=
  .append fun _ => .skip fun _ => .pure

theorem insertTransferPending_simulates {pending : TransferPending} :
    Simulates Mounted.sm (m.insertTransferPending pending) (m.sm.insertTransferPending pending) :=
  .append fun _ => .skip fun _ => .pure

variable {timestamp : Nat}

theorem updateTransferPendingStatus_simulates {status : TransferPendingStatus} :
    Simulates Mounted.sm (m.updateTransferPendingStatus timestamp status)
      (m.sm.updateTransferPendingStatus timestamp status) :=
  .skip fun _ => .append fun _ => .skip fun _ => .pure

variable {event : Transfer} {amountActual : U128}

theorem commitTransfer_simulates {amountRequested : U128} :
    Simulates Mounted.sm (m.commitTransfer event amountActual amountRequested)
      (m.sm.commitTransfer event amountActual amountRequested) := by
  refine .same fun dr => .same fun cr => ?_
  refine .bind updateAccount_simulates fun m₁ => .bind updateAccount_simulates fun m₂ => ?_
  refine .bind unmounted_simulates fun m₃ => .ite ?_ .pure
  exact .same fun _ => .same fun _ => .pure

theorem persistPostVoid_simulates : Simulates Mounted.sm (m.persistPostVoid event amountActual)
      (m.sm.persistPostVoid event amountActual) := by
  refine .same fun p => .bind insertTransfer_simulates fun m₁ => ?_
  refine .bind updateTransferPendingStatus_simulates fun m₂ => ?_
  refine .same fun dr => .same fun cr => .same fun pair => ?_
  refine .bind updateAccount_simulates fun m₃ => .bind updateAccount_simulates fun m₄ => ?_
  exact .bind unmounted_simulates fun m₅ => unmounted_simulates

theorem persistTransfer_simulates : Simulates Mounted.sm (m.persistTransfer event amountActual)
      (m.sm.persistTransfer event amountActual) := by
  refine .ite ?_ (.ite persistPostVoid_simulates ?_)
  · refine .bind insertTransfer_simulates fun m₁ => ?_
    exact .bind insertTransferPending_simulates fun m₂ => commitTransfer_simulates
  · exact .bind insertTransfer_simulates fun m₁ => commitTransfer_simulates

theorem persistAccountEvent_simulates {count : Nat} {event : Account}
    {result : CreateAccountResult} :
    Simulates Mounted.sm (persistAccountEvent timestamp count index event result m)
      (StateMachine.persistAccountEvent timestamp count index event result m.sm) := by
  refine .ite (.same fun _ => ?_) (.same fun _ => .same fun _ => ?_)
  · exact .same fun _ => insertAccount_simulates
  · exact .same fun _ => insertAccount_simulates

theorem persistTransferEvent_simulates {count : Nat}
    {result : CreateTransferResult} :
    Simulates Mounted.sm (persistTransferEvent timestamp count index event result m)
      (StateMachine.persistTransferEvent timestamp count index event result m.sm) := by
  refine .ite (.same fun _ => ?_) (.same fun _ => .same fun _ => ?_)
  · exact .same fun _ => persistTransfer_simulates
  · exact .same fun _ => persistTransfer_simulates

theorem expire_simulates {timestampEvent : Nat} {id : U128} :
    Simulates Mounted.sm (m.expire timestampEvent id) (m.sm.expire timestampEvent id) := by
  refine .same fun _ => .same fun p => .same fun _ => ?_
  refine .same fun dr => .same fun cr => .same fun _ => .same fun _ => ?_
  refine .same fun _ => .same fun _ => ?_
  refine .bind updateAccountIf_simulates fun m₁ => .bind updateAccountIf_simulates fun m₂ => ?_
  exact .bind updateTransferPendingStatus_simulates fun m₃ => unmounted_simulates

theorem expireAll_simulates {count : Nat} {due : List (Nat × Nat × U128)} :
    Simulates Mounted.sm (expireAll timestamp count index due m)
      (StateMachine.expireAll timestamp count index due m.sm) := by
  induction due generalizing index m with
  | nil => exact .pure
  | cons x due ih => exact .same fun _ => .bind expire_simulates fun _ => ih

theorem persistAccounts_simulates {events : List Account} {results : List CreateAccountResult} :
    Simulates Mounted.sm (m.persistAccounts events results timestamp)
      (m.sm.persistAccounts events results timestamp) :=
  persistBatch_simulates fun _ _ _ _ => persistAccountEvent_simulates

theorem createAccounts_simulates [Hasher] {events : List Account} :
    Simulates (Prod.map id Mounted.sm) (m.createAccounts events timestamp)
      (m.sm.createAccounts events timestamp) := by
  unfold createAccounts StateMachine.createAccounts
  refine .same fun _ => .same fun pair => ?_
  obtain ⟨timestamps, sm⟩ := pair
  refine .same fun loop => ?_
  exact .bind persistAccounts_simulates fun _ => .pure

theorem persistTransfers_simulates {events : List Transfer} {results : List CreateTransferResult} :
    Simulates Mounted.sm (m.persistTransfers events results timestamp)
      (m.sm.persistTransfers events results timestamp) :=
  persistBatch_simulates fun _ _ _ _ => persistTransferEvent_simulates

theorem createTransfers_simulates [Hasher] {events : List Transfer} :
    Simulates (Prod.map id Mounted.sm) (m.createTransfers events timestamp)
      (m.sm.createTransfers events timestamp) := by
  unfold createTransfers StateMachine.createTransfers
  refine .same fun _ => .same fun pair => ?_
  obtain ⟨timestamps, sm⟩ := pair
  refine .same fun loop => ?_
  exact .bind persistTransfers_simulates fun _ => .pure

theorem step_simulates [Hasher] {call : StateMachine.Call} :
    Simulates Mounted.sm (machine.step m call) (StateMachine.machine.step m.sm call) := by
  cases call with
  | createAccounts events timestamp  => exact .bind createAccounts_simulates fun _ => .pure
  | createTransfers events timestamp => exact .bind createTransfers_simulates fun _ => .pure
  | expirePendingTransfers timestamp =>
    refine .same fun _ => .same fun _ => .same fun due => ?_
    exact .bind expireAll_simulates fun _ => unmounted_simulates

-- The timestamp of a call is a valid one.
def Timely (m : Mounted) (call : StateMachine.Call) : Prop :=
  StateMachine.Timely m.sm call

theorem reachable_sm [Hasher] (h : machine.Reachable Timely m) :
    StateMachine.machine.Reachable StateMachine.Timely m.sm := by
  refine h.invariant (p := fun m => StateMachine.machine.Reachable StateMachine.Timely m.sm)
    (fun m hi => .init ?_) fun m call m' hr ht hstep => hr.step ht (step_simulates.post hstep)
  have hi : m = ⟨.default, .new⟩ := hi
  exact hi ▸ rfl

end Mounted

end TigerBeetle.Accounting
