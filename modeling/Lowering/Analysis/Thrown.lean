import Lowering.Hierarchy.Standard
import Lowering.Hierarchy.Subtyping
import Lowering.Tree.Descendants
import Lowering.Typing.ResolvedTypes

/-! # Thrown exceptions

The exception types that a tree may throw, and those among them that the host makes a function
declare: all but run-time exceptions, errors and what lies below them. -/

namespace Lowering

namespace ResolvedTypes

/-- The type of a node; nothing is known about a node that was not typed. -/
def typeOf (t : ResolvedTypes) (e : Expr) : HostType :=
  (t.actual? e.id).getD .any

/-- The exception types that a node throws by itself. -/
def thrownBy (t : ResolvedTypes) : Expr → List HostType
  | .call _ feature _ _ =>
    if feature.isInvocation then WrittenType.resolveAll feature.throws else []
  | .construct _ _ _ throws _ => WrittenType.resolveAll throws
  | .raise _ value => [t.typeOf value]
  | _ => []

/-- The exception types that a tree throws, each once and in order of first occurrence. -/
def thrownTypes (t : ResolvedTypes) (e : Expr) : List HostType :=
  ((e :: e.descendants).flatMap t.thrownBy).eraseDups

end ResolvedTypes

/-- The types in `thrown` that are neither unchecked nor declared, each once. -/
def Hierarchy.unhandled (h : Hierarchy) (thrown declared : List HostType) : List HostType :=
  let handled := [.named runtimeExceptionName, .named errorName] ++ declared
  (thrown.filter fun t => !handled.any (h.isSubtype t)).eraseDups

end Lowering
