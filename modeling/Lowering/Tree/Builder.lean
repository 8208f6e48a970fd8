import Lowering.Tree.Expr

/-! # Building trees

A builder numbers nodes in the order in which they are created and gives each the location that is
current at that moment. -/

namespace Lowering

structure Builder where
  /-- The number of nodes created so far. -/
  size : Nat := 0
  span : Span := {}

/-- A read or an assignment was built for a node that declares nothing. -/
inductive BuildError where
  | readOf (kind : String)
  | assignmentTo (kind : String)
deriving DecidableEq, Repr

def BuildError.message : BuildError → String
  | .readOf kind => "local() needs a variable declaration, got " ++ kind
  | .assignmentTo kind => "assign() needs a variable declaration, got " ++ kind

namespace Builder

def isEmpty (b : Builder) : Bool :=
  b.size == 0

/-- The location of nodes created from now on. -/
def locate (b : Builder) (span : Span) : Builder :=
  { b with span }

def create (b : Builder) (make : Node → Expr) : Expr × Builder :=
  (make ⟨b.size, b.span⟩, { b with size := b.size + 1 })

end Builder

namespace Expr

private def local? : Expr → Option Feature
  | .decl node name .. => some (.ofLocal name node.id)
  | _ => none

def readOf (declaration : Expr) : Except BuildError (Node → Expr) :=
  match declaration.local? with
  | some feature => .ok fun node => .call node feature none []
  | none => .error (.readOf declaration.kindName)

def assignmentTo (declaration value : Expr) : Except BuildError (Node → Expr) :=
  match declaration.local? with
  | some feature => .ok fun node => .assign node feature none value
  | none => .error (.assignmentTo declaration.kindName)

def parameter (name : String) (type : WrittenType) (node : Node) : Expr :=
  .call node (.ofParameter name type) none []

def this (node : Node) : Expr :=
  .call node .this none []

def super (node : Node) : Expr :=
  .call node .super none []

def binary (name symbol : String) (type : WrittenType) (left right : Expr) (node : Node) : Expr :=
  .call node (.ofOperator name symbol type) (some left) [right]

end Expr

end Lowering
