import TigerBeetle.Fallible

-- The agreement algorithm that selects the clock sources to estimate the time from.
namespace TigerBeetle.Marzullo

-- Arithmetic that leaves its machine integer is told apart from the assertions.
inductive Failure
  | panic (message : String)
  | overflow
  deriving DecidableEq, Repr

def ensure (p : Prop) [Decidable p] (message : String) : Except Failure Unit :=
  if p then .ok () else .error (.panic message)

def i64Min : Int := -2 ^ 63

def i64Max : Int := 2 ^ 63 - 1

def i64 (value : Int) : Except Failure Int :=
  if i64Min ≤ value ∧ value ≤ i64Max then .ok value else .error .overflow

inductive Bound
  | lower
  | upper
  deriving DecidableEq, Repr

structure Tuple where
  source : Nat
  offset : Int
  bound : Bound
  deriving DecidableEq, Repr

structure Interval where
  lowerBound : Int
  upperBound : Int
  sourcesTrue : Nat
  sourcesFalse : Nat
  deriving DecidableEq, Repr

def Interval.zero : Interval := ⟨0, 0, 0, 0⟩

def lessThan (a b : Tuple) : Ordering :=
  if a.offset < b.offset then
    .lt
  else if b.offset < a.offset then
    .gt
  else if a.bound = .lower ∧ b.bound = .upper then
    .lt
  else if b.bound = .lower ∧ a.bound = .upper then
    .gt
  else
    compare a.source b.source

-- The order is total, so that all correct ways to sort have the same result.
def sort (tuples : List Tuple) : List Tuple :=
  tuples.insertionSort fun a b => lessThan a b ≠ .gt

-- Verifies that the sort is correct.
def verify (previous : Option Tuple) (tuple : Tuple) : Except Failure Unit :=
  match previous with
  | none => return
  | some p => do
    ensure (p.offset ≤ tuple.offset) "p.offset <= tuple.offset"
    if p.offset = tuple.offset then
      if p.bound = tuple.bound then
        ensure (p.source < tuple.source) "p.source < tuple.source"
      else
        ensure (p.bound = .lower ∧ tuple.bound = .upper)
          "p.bound == Bound::Lower && tuple.bound == Bound::Upper"
    else
      return

def next (rest : List Tuple) : Except Failure Tuple :=
  match rest with
  | [] => .error (.panic "index out of bounds")
  | tuple :: _ => return tuple

def countAfter (count : Int) (tuple : Tuple) : Int :=
  match tuple.bound with
  | .lower => count + 1
  | .upper => count - 1

-- The best number of sources and its interval once `count` intervals overlap from `tuple` on.
def improve (best count : Int) (interval : Interval) (tuple : Tuple) (rest : List Tuple) :
    Except Failure (Int × Interval) := do
  if best < count then
    let next ← next rest
    return (count, { interval with lowerBound := tuple.offset, upperBound := next.offset })
  else if count = best then
    let next ← next rest
    if next.bound = .upper then
      -- A tie for the best overlap is won by the smaller of the two intervals.
      let alternative ← i64 (next.offset - tuple.offset)
      let width ← i64 (interval.upperBound - interval.lowerBound)
      if alternative < width then
        return (best, { interval with lowerBound := tuple.offset, upperBound := next.offset })
      else
        return (best, interval)
    else
      return (best, interval)
  else
    return (best, interval)

def sweep : (previous : Option Tuple) → (best count : Int) → Interval → List Tuple →
    Except Failure (Option Tuple × Int × Interval)
  | previous, best, _, interval, [] => return (previous, best, interval)
  | previous, best, count, interval, tuple :: rest => do
    verify previous tuple
    let count := countAfter count tuple
    let (best, interval) ← improve best count interval tuple rest
    sweep (some tuple) best count interval rest

-- The tuples are sorted in place.
def smallestInterval (tuples : List Tuple) : Except Failure (Interval × List Tuple) := do
  ensure (tuples.length % 2 = 0) "tuples.len().is_multiple_of(2)"
  ensure (tuples.length ≤ 255 * 2) "tuples.len() <= usize::from(u8::MAX) * 2"
  let sources := tuples.length / 2
  if sources = 0 then
    return (.zero, tuples)
  else
    let tuples := sort tuples
    let (previous, best, interval) ← sweep none 0 0 .zero tuples
    ensure (previous.map Tuple.bound = some .upper) "previous.map(|p| p.bound) == Some(Bound::Upper)"
    ensure (0 ≤ best) "best >= 0"
    ensure (best ≤ sources) "best <= i64::from(sources)"
    let sourcesTrue := best.toNat
    let sourcesFalse := sources - sourcesTrue
    ensure (sourcesTrue + sourcesFalse = sources)
      "interval.sources_true + interval.sources_false == sources"
    return ({ interval with sourcesTrue, sourcesFalse }, tuples)

end TigerBeetle.Marzullo
