import Lowering.Sink.Basic
import Lowering.Tree.Descendants

/-! # Inlining

Which expressions can be written in place. Whatever may have side effects needs a local; literals,
reads, operator applications and casts do not. -/

namespace Lowering

/-- The value of an expression must be bound to a local before use. -/
def Expr.needsLocal : Expr → Bool
  | .literal .. | .cast .. => false
  | .call _ feature _ _ => feature.isInvocation
  | .block _ [only] => only.needsLocal
  | _ => true

/-- The expression has a name, or no part of it without a name needs a local. -/
def Sink.canInline (s : Sink) (e : Expr) : Bool :=
  s.isNamed e.id ||
    !e.needsLocal && e.descendants.all fun part => s.isNamed part.id || !part.needsLocal

end Lowering
