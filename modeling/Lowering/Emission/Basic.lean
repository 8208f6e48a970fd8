import Lowering.Failure
import Lowering.Hierarchy.Basic
import Lowering.Settings
import Lowering.Sink.Basic
import Lowering.Typing.ResolvedTypes

/-! # Emission

Computations that write to the sink and may fail. A failure keeps what was written before it, and
the indentation of that moment; scopes are closed all the same. -/

namespace Lowering

/-- What lowering knows about a tree and its surroundings. -/
structure Env where
  hierarchy : Hierarchy
  types : ResolvedTypes
  settings : Settings

abbrev Emit := ExceptT Failure (StateM Sink)

namespace Emit

def write (e : Entry) : Emit Unit :=
  modify (·.write e)

def append (text : String) : Emit Unit :=
  modify (·.append text)

def newLine : Emit Unit :=
  modify (·.newLine)

def indent : Emit Unit :=
  modify (·.indent)

def dedent : Emit Unit :=
  modify (·.dedent)

/-- An opening brace at the end of a line. -/
def openBrace (brace : Brace) : Emit Unit := do
  write (.opening brace)
  indent

/-- A closing brace on a line of its own. -/
def closeBrace (brace : Brace) : Emit Unit := do
  dedent
  newLine
  write (.closing brace)

/-- Bind `key` to a name made from `proposed` that no open scope reserves. -/
def bindFresh (key : NameKey) (proposed : String) : Emit String :=
  modifyGet (·.bindFresh key proposed)

/-- Write the name bound to `key`, or `fallback`, for what node `id` stands for. -/
def useOr (id : NodeId) (key : NameKey) (fallback : String) : Emit Unit := do
  write (.use id key (((← get).name? key).getD fallback))

/-- Record what `act` writes as the text of node `id`, if `act` succeeds. -/
def traced {α : Type} (id : NodeId) (debug : Bool) (act : Emit α) : Emit α := do
  let offset := (← get).size
  let a ← act
  modify (·.finishRegion id offset debug)
  pure a

/-- Run `act` in a scope of its own, which closes whether or not `act` fails. -/
def inScope {α : Type} (act : Emit α) : Emit α := ExceptT.mk do
  modify (·.openScope)
  let result ← act.run
  modify (·.closeScope)
  pure result

end Emit

end Lowering
