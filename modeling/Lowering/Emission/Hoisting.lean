import Lowering.Analysis.Thrown
import Lowering.Emission.Basic
import Lowering.Emission.Naming
import Lowering.Host.SourceName
import Lowering.Text.Identifier

/-! # Hoisting

Binding the value of an expression to a local of its own. -/

namespace Lowering

/-- The type of a local for the value of `e`: the type of `e`, or else what is expected of `e`. -/
def Env.localType (env : Env) (e : Expr) : HostType :=
  let type := env.types.typeOf e
  if type.isAny then
    ((env.types.expected? e.id).filter (!·.isParam)).getD type
  else type

/-- The value of such a local until one is assigned to it. -/
def Env.initialValue (env : Env) (e : Expr) : String :=
  match (env.localType e).primitive? with
  | some .boolean => "false"
  | some .void | none => "null"
  | some kind => "(" ++ kind.keyword ++ ") 0"

namespace Emit

/-- Declare a local for the value of `e` that starts with what `init` writes. The name is bound
before `init` runs. -/
def declareLocal (env : Env) (e : Expr) (init : Emit Unit) : Emit String := do
  let name ← bindFresh (.value e.id) (identifier e.proposedName)
  newLine
  write (.declaration (.value e.id) ((env.localType e).sourceName true) name)
  append " = "
  init
  append ";"
  pure name

/-- Declare a local that the value of `e` is assigned to later. -/
def declareResult (env : Env) (e : Expr) : Emit String :=
  declareLocal env e (append (env.initialValue e))

end Emit

end Lowering
