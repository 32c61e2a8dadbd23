import TigerBeetle.Constants

namespace TigerBeetle.Accounting

-- The implied timestamp of the event at `index` of a batch of `count` events.
def timestampEvent (timestamp count index : Nat) : Result Nat := do
  assert (count ≤ timestamp) "attempt to subtract with overflow"
  return timestamp - count + index + 1

-- What the loops over the batches of accounts and of transfers have in common: `σ` is what their
-- events are validated against, `ρ` is the result of an event.
structure Orchestrator (ε ρ σ : Type) where
  linked : ε → Bool
  created : ρ → Bool
  isChainOpen : ρ → Bool
  chainOpen : (timestamp : Nat) → ρ
  linkedFailed : (timestamp : Nat) → ρ
  markFailed : ρ → ρ
  scopeOpen : σ → Result σ
  execute : ε → (timestamp : Nat) → σ → Result (ρ × σ)
  orphan : ε → ρ → σ → σ
  discard : σ → Result σ
  complete : (broken : Bool) → σ → Result σ

structure Loop (ρ σ : Type) where
  results : List ρ
  chain : Option Nat
  chainBroken : Bool
  state : σ

namespace Orchestrator

variable {ε ρ σ : Type} (o : Orchestrator ε ρ σ) (count index : Nat) (event : ε)

def openChain (loop : Loop ρ σ) : Result (Loop ρ σ) := do
  if o.linked event ∧ loop.chain = none then
    assert (!loop.chainBroken) "!chain_broken"
    return { loop with chain := some index, state := ← o.scopeOpen loop.state }
  else
    return loop

def result (timestamp : Nat) (loop : Loop ρ σ) : Result (ρ × σ) :=
  if o.linked event ∧ index = count - 1 then
    return (o.chainOpen timestamp, loop.state)
  else if loop.chainBroken then
    return (o.linkedFailed timestamp, loop.state)
  else
    o.execute event timestamp loop.state

-- The event that breaks a chain takes the results of those before it along.
def breakChain (result : ρ) (loop : Loop ρ σ) : Result (Loop ρ σ) := do
  if o.created result then
    return loop
  else
    let state := o.orphan event result loop.state
    match loop.chain with
    | none => return { loop with state }
    | some start =>
      if loop.chainBroken then
        return { loop with state }
      else
        return { loop with
          chainBroken := true
          state := ← o.discard state
          results := loop.results.take start ++ (loop.results.drop start).map o.markFailed
        }

def closeChain (result : ρ) (loop : Loop ρ σ) : Result (Loop ρ σ) := do
  if loop.chain.isSome ∧ (!o.linked event ∨ o.isChainOpen result) then
    return { loop with
      chain := none
      chainBroken := false
      state := ← o.complete loop.chainBroken loop.state
    }
  else
    return loop

def settle (result : ρ) (loop : Loop ρ σ) : Result (Loop ρ σ) := do
  let loop ← o.breakChain event result loop
  o.closeChain event result { loop with results := loop.results ++ [result] }

def step (timestamp : Nat) (loop : Loop ρ σ) : Result (Loop ρ σ) := do
  let timestamp ← timestampEvent timestamp count index
  let loop ← o.openChain index event loop
  let (result, state) ← o.result count index event timestamp loop
  o.settle event result { loop with state }

def run (timestamp : Nat) : (index : Nat) → List ε → Loop ρ σ → Result (Loop ρ σ)
  | _, [], loop => return loop
  | index, event :: events, loop => do
    run timestamp (index + 1) events (← o.step count index event timestamp loop)

def orchestrate (timestamp : Nat) (events : List ε) (state : σ) : Result (Loop ρ σ) := do
  let loop ← o.run events.length timestamp 0 events
    { results := [], chain := none, chainBroken := false, state }
  assert (loop.chain = none) "chain.is_none()"
  assert (!loop.chainBroken) "!chain_broken"
  return loop

end Orchestrator

end TigerBeetle.Accounting
