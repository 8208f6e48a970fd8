/-! # Source locations -/

namespace Lowering

structure Span where
  line : Nat := 0
  column : Nat := 0
  length : Nat := 0
deriving DecidableEq, Repr, Inhabited

def Span.display (s : Span) : String :=
  toString s.line ++ ":" ++ toString s.column

end Lowering
