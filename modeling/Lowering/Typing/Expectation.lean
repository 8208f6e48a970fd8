import Lowering.Host.HostType

/-! # Expectations

The type that a context asks of an expression, and how strictly it asks for it. -/

namespace Lowering

/-- How a type relates to the type that is asked for. -/
inductive Conformance where
  /-- Only the type itself. -/
  | exact
  /-- The type or one below it. -/
  | subtype
  /-- Whatever the host converts implicitly: boxing, unboxing and widening. -/
  | conversion
deriving DecidableEq, Repr, Inhabited

def Conformance.display : Conformance → String
  | .exact => "exact"
  | .subtype => "subtype"
  | .conversion => "implicit conversion"

structure Expectation where
  type : Option HostType := none
  conformance : Conformance := .subtype
  /-- The expression stands where its function returns. -/
  isReturn : Bool := false
deriving DecidableEq, Repr, Inhabited

namespace Expectation

/-- Nothing in particular is asked for. -/
def free : Expectation := {}

def convertible (type : HostType) : Expectation :=
  { type, conformance := .conversion }

def returning (type : HostType) : Expectation :=
  { type, conformance := .conversion, isReturn := true }

/-- No value is asked for. -/
def isVoid (e : Expectation) : Bool :=
  e.type.any (·.isVoid)

def display (e : Expectation) : String :=
  (match e.type with
    | some type => type.display ++ " (" ++ e.conformance.display ++ ")"
    | none => "<none>") ++
  if e.isReturn then " [return]" else ""

end Expectation

end Lowering
