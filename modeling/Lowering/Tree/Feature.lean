import Lowering.Tree.WrittenType

/-! # Features

What a call or an assignment refers to. Names are resolved before lowering, so a feature says
itself what it is bound to. -/

namespace Lowering

/-- The identity of a node, counted from zero in order of creation. -/
abbrev NodeId := Nat

inductive FeatureKind where
  /-- The local variable that a declaration node introduces. -/
  | localVar (declaration : NodeId)
  | parameter
  | field
  | method
  | staticMethod
  /-- The enclosing instance. -/
  | this
  /-- The enclosing instance as its direct supertype. -/
  | super
  | operator (symbol : String)
deriving DecidableEq, Repr, Inhabited

structure Feature where
  name : String
  kind : FeatureKind
  /-- The type that declares a static method. -/
  owner : Option WrittenType := none
  /-- The type of a variable or field, or the result type of a method or operator. -/
  type : Option WrittenType := none
  params : List WrittenType := []
  throws : List WrittenType := []
deriving Inhabited, Repr

namespace Feature

/-- Calling the feature runs code. -/
def isInvocation (f : Feature) : Bool :=
  match f.kind with
  | .method | .staticMethod => true
  | _ => false

def ofLocal (name : String) (declaration : NodeId) : Feature :=
  { name, kind := .localVar declaration }

def ofParameter (name : String) (type : WrittenType) : Feature :=
  { name, kind := .parameter, type := some type }

def ofOperator (name symbol : String) (type : WrittenType) : Feature :=
  { name, kind := .operator symbol, type := some type }

def this : Feature := { name := "this", kind := .this }

def super : Feature := { name := "super", kind := .super }

def paramTypes (f : Feature) : List HostType :=
  WrittenType.resolveAll f.params

end Feature

end Lowering
