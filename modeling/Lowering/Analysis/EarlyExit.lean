import Lowering.Tree.Expr

/-! # Early exits

Expressions that by their shape always return or throw, so that nothing after them runs. -/

namespace Lowering.Expr

mutual

/-- A return, a throw, a block with such a statement, or an `if` whose branches both exit. -/
def exitsEarly : Expr → Bool
  | .ret .. | .raise .. => true
  | .block _ exprs => anyExitsEarly exprs
  | .branch _ _ yes (some no) => yes.exitsEarly && no.exitsEarly
  | _ => false
termination_by structural e => e

def anyExitsEarly : List Expr → Bool
  | [] => false
  | e :: es => e.exitsEarly || anyExitsEarly es
termination_by structural es => es

end

end Lowering.Expr
