import Lowering.Hierarchy.Basic

/-! # Conformance between types

Subtypes, implicit conversions and the join of two types. Type arguments compare by equality, and a
class without arguments conforms to every parameterization of itself. -/

namespace Lowering.Hierarchy

/-- A value of type `a` can stand where `b` is asked for without a conversion. -/
def isSubtype (h : Hierarchy) (a b : HostType) : Bool :=
  a == b || a.isAny || b.isAny || match a, b with
    | .primitive p, .primitive q => p != .void && q != .void && p.widensTo q
    | .primitive _, _ | _, .primitive _ => false
    | .cls m as, .cls n bs =>
      n == HostType.objectName ||
        if m == n then as.isEmpty || bs.isEmpty || as == bs else h.isSubclass m n
    | .array c, .array d => !(c.isPrimitive || d.isPrimitive) && h.isSubtype c d
    | _, .cls n _ => n == HostType.objectName
    | _, _ => false

/-- A subtype, or one boxing or unboxing away from one. -/
def isConvertible (h : Hierarchy) (a b : HostType) : Bool :=
  h.isSubtype a b || match a.primitive?, b.primitive? with
    | some kind, none => kind != .void && h.isSubtype (.named kind.wrapper) b
    | none, some target => a.unboxed?.any (·.widensTo target)
    | _, _ => false

/-- The first of `int`, `long`, `float` and `double` that both numbers widen to. -/
def numericJoin? (a b : HostType) : Option HostType :=
  match a.primitive?, b.primitive? with
  | some p, some q =>
    if p.isNumeric && q.isNumeric then
      ([Primitive.int, .long, .float, .double].find? fun t => p.widensTo t && q.widensTo t).map
        .primitive
    else none
  | _, _ => none

/-- The greater of two comparable types. -/
def greater? (h : Hierarchy) (a b : HostType) : Option HostType :=
  if h.isSubtype a b then some b
  else if h.isSubtype b a then some a
  else none

/-- The nearest class above the first that is above the second too. -/
def classJoin (h : Hierarchy) : HostType → HostType → HostType
  | .cls m _, .cls n _ =>
    match (h.ancestors m).find? (h.isSubclass n ·) with
    | some name => .named name
    | none => .object
  | _, _ => .object

/-- The type that both `a` and `b` conform to, boxed when only one of them is a number. -/
def join (h : Hierarchy) (a b : HostType) : HostType :=
  match h.greater? a b <|> numericJoin? a b with
  | some t => t
  | none =>
    if a.isPrimitive || b.isPrimitive then
      (h.greater? a.boxed b.boxed).getD (h.classJoin a.boxed b.boxed)
    else h.classJoin a b

end Lowering.Hierarchy
