import Lowering.Emission.Forms
import Lowering.Emission.Inlining

/-! # Bodies

Whole expressions as function bodies and as single values. Exceptions that the function does not
declare are caught and thrown again by a helper, which the host does not make it declare. -/

namespace Lowering

/-- The expression throws a checked exception that `declared` does not cover. -/
def Env.needsRethrow (env : Env) (e : Expr) (declared : List HostType) : Bool :=
  !(env.hierarchy.unhandled (env.types.thrownTypes e) declared).isEmpty

namespace Emit

def openTry : Emit Unit := do
  newLine
  append "try "
  openBrace .guarded

/-- End the open `try` with a clause that throws again through the helper. Where the helper is not a
known class, the text says so instead. -/
def rethrow (env : Env) : Emit Unit := do
  let key ← modifyGet (·.freshKey)
  let name ← bindFresh key env.settings.catchVariable
  closeBrace .guarded
  append " catch ("
  write (.declaration key "Exception" name)
  append ") "
  openBrace .handler
  match env.hierarchy.declaredType? env.settings.rethrowHelper with
  | some helper =>
    newLine
    append ("throw " ++ helper.sourceName false ++ ".sneakyThrow(" ++ name ++ ");")
  | none =>
    append ("COMPILE ERROR : '" ++ HostType.dotted env.settings.rethrowHelper ++
      "' could not be found on the classpath!")
  closeBrace .handler

/-- What `act` writes, in a `try` if `guarded`. -/
def guarding (env : Env) (guarded : Bool) (act : Emit Unit) : Emit Unit := do
  if guarded then openTry
  act
  if guarded then rethrow env

/-- The statements of a function, and the return of the value unless nothing is expected or the
expression exits early. -/
def functionBody (env : Env) (e : Expr) (expected : Option HostType) (guarded : Bool) :
    Emit Unit :=
  let returns := !expected.any (·.isVoid) && !e.exitsEarly
  guarding env guarded do
    statement env (returns && !env.isVoid e) e
    if returns then
      newLine
      write .implicitReturn
      if env.isVoid e then
        append (HostType.defaultLiteral expected)
      else
        expression env e
      append ";"

/-- The body of a function that returns `expected` and declares `declared`. -/
def body (env : Env) (e : Expr) (expected : Option HostType) (declared : List HostType) :
    Emit Unit :=
  traced e.id true (functionBody env e expected (env.needsRethrow e declared))

/-- The expressions of a block; the value of the last one is returned if `returns` allows and there
is one. -/
def returningLast (env : Env) (expected : Option HostType) (returns : Bool) :
    List Expr → Emit Unit
  | [] => pure ()
  | [last] => do
    let returned := returns && !env.isVoid last && !last.exitsEarly
    statement env returned last
    if returned then
      newLine
      write .implicitReturn
      append "("
      convertedExpression env last expected
      append ");"
  | e :: es => do
    statement env false e
    returningLast env expected returns es

/-- The expressions of a block without braces or a scope of their own. -/
def blockContents (env : Env) (block : Expr) (expected : Option HostType) : Emit Unit :=
  match block.exprs? with
  | some exprs => returningLast env expected (!expected.any (·.isVoid)) exprs
  | none => throw (.misuse (.notBlock block.kindName) block.span)

/-- Let function literals name the enclosing instance and its supertype. -/
def aliasInstances : Emit Unit := do
  match (← get).object? "this" with
  | none => pure ()
  | some thisType =>
    modify (·.bind (.instanceOf thisType.hash) (thisType.simpleName ++ ".this"))
    match (← get).object? "super" with
    | none => pure ()
    | some superType =>
      modify (·.bind (.instanceOf superType.hash) (thisType.simpleName ++ ".super"))

end Emit

/-- The boxed result type of a function literal for the value of `e`. -/
def Env.literalResult (env : Env) (e : Expr) (expected : Option HostType) : HostType :=
  let type := expected.getD (env.types.typeOf e)
  if type.isVoid || type.isAny then .object else type.boxed

namespace Emit

/-- A function literal that is applied at once. -/
def functionLiteral (env : Env) (e : Expr) (expected : Option HostType) (guarded : Bool) :
    Emit Unit := do
  aliasInstances
  let settings := env.settings
  let (callable, result) :=
    if expected.any (·.isVoid) then (HostType.named settings.procedureType, "void")
    else
      let result := env.literalResult e expected
      (.cls settings.functionType [result], result.sourceName false)
  append ("new " ++ callable.sourceName false ++ "() ")
  openBrace .literal
  newLine
  append ("public " ++ result ++ " apply() ")
  openBrace .method
  functionBody env e expected guarded
  closeBrace .method
  closeBrace .literal
  append ".apply()"

/-- The expression as a single value: in place where that is possible, and otherwise as a function
literal. -/
def inlineValue (env : Env) (e : Expr) (expected : Option HostType) : Emit Unit :=
  traced e.id true do
    let guarded := env.needsRethrow e []
    if !e.exitsEarly && !guarded && (← get).canInline e then
      expression env e
    else
      inScope (functionLiteral env e expected guarded)

end Emit

end Lowering
