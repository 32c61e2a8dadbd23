import Mathlib

namespace TigerBeetle

inductive Direction
  | ascending
  | descending
  deriving DecidableEq, Repr

namespace Direction

variable {α : Type} [LinearOrder α]

def reverse : Direction → Direction
  | ascending => descending
  | descending => ascending

def cmpLt : Direction → α → α → Bool
  | ascending, a, b => a < b
  | descending, a, b => b < a

def cmpLe : Direction → α → α → Bool
  | ascending, a, b => a ≤ b
  | descending, a, b => b ≤ a

end Direction

end TigerBeetle
