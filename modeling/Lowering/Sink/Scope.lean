import Lowering.Host.TypeHash
import Lowering.Tree.Feature

/-! # Name scopes

What is bound inside one pair of braces: names for values, and types for well-known objects. -/

namespace Lowering

/-- What a bound name stands for. -/
inductive NameKey where
  /-- The value of a node. -/
  | value (id : NodeId)
  /-- The enclosing instance of a type. -/
  | instanceOf (type : TypeHash)
  | parameter (name : String)
  /-- A name that no part of a tree stands for. -/
  | synthetic (number : Nat)
deriving DecidableEq, Repr, Inhabited

structure Scope where
  /-- Bindings, latest first; an earlier binding of the same key is hidden but stays reserved. -/
  names : List (NameKey × String) := []
  objects : List (String × HostType) := []
deriving DecidableEq, Repr, Inhabited

namespace Scope

/-- The names that nothing else may take while the scope is open. -/
def reserved (s : Scope) : List String :=
  s.names.map (·.2)

def bind (s : Scope) (key : NameKey) (name : String) : Scope :=
  { s with names := (key, name) :: s.names }

def setObject (s : Scope) (key : String) (type : HostType) : Scope :=
  { s with objects := (key, type) :: s.objects }

end Scope

/-- The `n`-th name to try for a proposal: itself, then with suffixes `_1`, `_2`, ... -/
def nameCandidate (proposed : String) : Nat → String
  | 0 => proposed
  | n + 1 => proposed ++ "_" ++ toString (n + 1)

/-- The first candidate that is not taken; one more candidate than there are taken names is always
enough. -/
def freshName (taken : List String) (proposed : String) : String :=
  let free (n : Nat) : Bool := !taken.contains (nameCandidate proposed n)
  nameCandidate proposed (((List.range (taken.length + 1)).find? free).getD 0)

end Lowering
