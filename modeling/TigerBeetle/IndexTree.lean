import Mathlib

namespace TigerBeetle

inductive Write
  | put
  | remove
  deriving DecidableEq, Repr

structure CompositeKey (F : Type) where
  field : F
  timestamp : Nat
  deriving DecidableEq

-- The index tree of a field, by the writes that were made to it.
structure IndexTree (F : Type) where
  writes : List (Write × CompositeKey F)

namespace IndexTree

variable {F : Type}

def new : IndexTree F := ⟨[]⟩

variable (tree : IndexTree F)

def put (key : CompositeKey F) : IndexTree F :=
  ⟨tree.writes ++ [(.put, key)]⟩

def remove (key : CompositeKey F) : IndexTree F :=
  ⟨tree.writes ++ [(.remove, key)]⟩

-- A field without a value is not indexed.
def insertIndex (value : Option F) (timestamp : Nat) : IndexTree F :=
  value.elim tree fun v => tree.put ⟨v, timestamp⟩

def removeIndex (value : Option F) (timestamp : Nat) : IndexTree F :=
  value.elim tree fun v => tree.remove ⟨v, timestamp⟩

def diffIndex [DecidableEq F] (old new : Option F) (oldTimestamp newTimestamp : Nat) :
    IndexTree F :=
  if old ≠ new then (tree.removeIndex old oldTimestamp).insertIndex new newTimestamp else tree

end IndexTree

end TigerBeetle
