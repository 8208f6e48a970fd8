import Lowering.Host.HostType

/-! # Types as written in a tree

Written types name no placeholder, so a tree cannot ask for a value of unknown type. -/

namespace Lowering

inductive WrittenType where
  | primitive (kind : Primitive)
  | cls (name : String) (args : List WrittenType)
  | array (component : WrittenType)
  | param (name : String)
deriving Inhabited, Repr

namespace WrittenType

mutual

/-- The host type that a written type stands for. -/
def resolve : WrittenType → HostType
  | .primitive kind => .primitive kind
  | .cls name args => .cls name (resolveAll args)
  | .array c => .array c.resolve
  | .param name => .param name
termination_by structural t => t

def resolveAll : List WrittenType → List HostType
  | [] => []
  | t :: ts => t.resolve :: resolveAll ts
termination_by structural ts => ts

end

theorem resolveAll_eq_map (ts : List WrittenType) : resolveAll ts = ts.map resolve := by
  induction ts with
  | nil => rfl
  | cons t ts ih => simp [resolveAll, ih]

end WrittenType

end Lowering
