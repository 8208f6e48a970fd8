import Lowering.Analysis.EarlyExit
import Lowering.Emission.Hoisting
import Lowering.Emission.LiteralText

/-! # The two forms of an expression

The statement form writes what has to run before the value of an expression is there; where the
value is needed later and cannot be computed in place, it is bound to a local. The expression form
is the value in place, or the name it was bound to. -/

namespace Lowering

def Env.isVoid (env : Env) (e : Expr) : Bool :=
  (env.types.typeOf e).isVoid

namespace Emit

/-! ## Pieces of both forms

Each piece takes the computations that write the parts of the node. -/

/-- The name of a node that has one, and otherwise what `act` writes. -/
def nameOr (node : Node) (act : Emit Unit) : Emit Unit := do
  match (← get).name? (.value node.id) with
  | some name => write (.use node.id (.value node.id) name)
  | none => traced node.id true act

/-- What `act` writes for the value of `e`, unboxed where a primitive is asked for. -/
def converted (env : Env) (e : Expr) (target : Option HostType) (act : Emit Unit) : Emit Unit := do
  act
  if target.any (·.isPrimitive) then
    match (env.types.typeOf e).unboxed? with
    | some kind => append ("." ++ kind.keyword ++ "Value()")
    | none => pure ()

/-- The name of the local that node `id` reads or assigns. -/
def useLocal (id declaration : NodeId) (name : String) (span : Span) : Emit Unit := do
  match (← get).name? (.value declaration) with
  | some text => write (.use id (.value declaration) text)
  | none => throw (.unresolved .localVariable name span)

/-- A field, behind its receiver if it has one. -/
def useField (id : NodeId) (name : String) (receiver : Option (Emit Unit)) : Emit Unit := do
  match receiver with
  | some receiver =>
    receiver
    append ("." ++ name)
  | none => write (.field id name)

/-- A call with its arguments, behind the owner of a static method or else the receiver. -/
def invocation (id : NodeId) (feature : Feature) (receiver : Option (Emit Unit))
    (args : Emit Unit) : Emit Unit := do
  match feature.kind, feature.owner, receiver with
  | .staticMethod, some owner, _ => append (owner.resolve.sourceName false ++ ".")
  | _, _, some receiver =>
    receiver
    append "."
  | _, _, none => pure ()
  append (feature.name ++ "(")
  args
  append ")"
  write (.effect id)

def construction (id : NodeId) (type : WrittenType) (args : Emit Unit) : Emit Unit := do
  append ("new " ++ type.resolve.sourceName false ++ "(")
  args
  append ")"
  write (.effect id)

/-- An assignment; `value` is converted to the type that was expected of it. -/
def assignment (env : Env) (id : NodeId) (target : Feature) (receiver : Option (Emit Unit))
    (value : Expr) (act : Emit Unit) : Emit Unit := do
  match target.kind with
  | .localVar declaration => useLocal id declaration target.name value.span
  | .parameter => useOr id (.parameter target.name) target.name
  | .field => useField id target.name receiver
  | _ => throw (.misuse (.notAssignable target.name) value.span)
  append " = "
  converted env value (env.types.expected? value.id) act
  write (.effect id)

/-- Assign the value of `e` to the local that was declared for `owner`. -/
def assignResult (env : Env) (owner e : Expr) (act : Emit Unit) : Emit Unit := do
  match (← get).name? (.value owner.id) with
  | none => throw (.internal (.noResultLocal owner.kindName owner.span))
  | some name =>
    newLine
    write (.use owner.id (.value owner.id) name)
    append " = "
    converted env e (some (env.types.typeOf owner)) act
    append ";"

def noValue (e : Expr) : Emit Unit :=
  throw (.misuse (.noValue e.kindName) e.span)

/-- The last expression of a block or branch, whose value goes to the local of `owner` if it is
`wanted` there and there is a value. `prepare` and `act` write its two forms. -/
def finishWith (env : Env) (owner e : Expr) (wanted : Bool) (prepare : Bool → Emit Unit)
    (act : Emit Unit) : Emit Unit := do
  let assigned := wanted && !env.isVoid e && !e.exitsEarly
  prepare assigned
  if assigned then
    assignResult env owner e act

/-! ## The forms -/

mutual

/-- The statement form; `needed` tells whether the value is used afterwards. -/
def statement (env : Env) (needed : Bool) : Expr → Emit Unit
  | .block node [] => traced node.id true (pure ())
  | .block node [only] => traced node.id true (statement env needed only)
  | .block node (e :: es) => traced node.id true do
    let block := Expr.block node (e :: es)
    let wanted := needed && !env.isVoid block
    if wanted then
      let _ ← declareResult env block
    newLine
    openBrace .block
    inScope (blockBody env block wanted (e :: es))
    closeBrace .block
  | .decl node name type writeable init => traced node.id true do
    match init with
    | some init => statement env (!env.isVoid init) init
    | none => pure ()
    let type := match type, init with
      | some type, _ => type.resolve
      | none, some init => env.localType init
      | none, none => .object
    newLine
    if !writeable then
      append "final "
    let name ← bindFresh (.value node.id) (identifier name)
    write (.declaration (.value node.id) (type.sourceName true) name)
    match init with
    | some init =>
      append " = "
      converted env init (some type) (expression env init)
    | none => pure ()
    append ";"
  | .call node feature receiver args => traced node.id true do
    receiverStatement env receiver
    statements env args
    if feature.isInvocation then
      let call := Expr.call node feature receiver args
      let invoke := invocation node.id feature (receiverText env receiver)
        (arguments env feature.paramTypes args)
      if needed && !env.isVoid call then
        let _ ← declareLocal env call invoke
      else
        newLine
        invoke
        append ";"
  | .construct node type params throws args => traced node.id true do
    statements env args
    let create := construction node.id type (arguments env (WrittenType.resolveAll params) args)
    if needed then
      let _ ← declareLocal env (.construct node type params throws args) create
    else
      newLine
      create
      append ";"
  | .literal node _ => traced node.id true (pure ())
  | .branch node cond yes no => traced node.id true do
    let branch := Expr.branch node cond yes no
    let wanted := needed && !env.isVoid branch
    statement env true cond
    if wanted then
      let _ ← declareResult env branch
    newLine
    append "if ("
    converted env cond (some .boolean) (expression env cond)
    append ") "
    openBrace .branch
    inScope (finishWith env branch yes wanted (fun needed => statement env needed yes)
      (expression env yes))
    closeBrace .branch
    match no with
    | some no =>
      append " else "
      openBrace .branch
      inScope (finishWith env branch no wanted (fun needed => statement env needed no)
        (expression env no))
      closeBrace .branch
    | none => pure ()
  | .ret node none => traced node.id true do
    newLine
    append "return;"
  | .ret node (some value) => traced node.id true do
    if env.isVoid value then
      statement env false value
      newLine
      append "return;"
    else
      statement env true value
      newLine
      append "return "
      converted env value (env.types.expected? value.id) (expression env value)
      append ";"
  | .raise node value => traced node.id true do
    statement env true value
    newLine
    append "throw "
    expression env value
    append ";"
  | .cast node _ value => traced node.id true (statement env true value)
  | .assign node target receiver value => traced node.id true do
    receiverStatement env receiver
    statement env true value
    newLine
    assignment env node.id target (receiverText env receiver) value (expression env value)
    append ";"
  | .extension node kind _ => throw (.unsupported kind node.span)
termination_by structural e => e

/-- The statement forms of operands, whose values are all needed. -/
def statements (env : Env) : List Expr → Emit Unit
  | [] => pure ()
  | e :: es => do
    statement env true e
    statements env es
termination_by structural es => es

/-- The statement form of a receiver, if there is one. -/
def receiverStatement (env : Env) : Option Expr → Emit Unit
  | none => pure ()
  | some e => statement env true e
termination_by structural e => e

/-- The statements of a block; the value of the last one goes to the local of `block` if it is
`wanted` there. -/
def blockBody (env : Env) (block : Expr) (wanted : Bool) : List Expr → Emit Unit
  | [] => pure ()
  | [last] =>
    finishWith env block last wanted (fun needed => statement env needed last)
      (expression env last)
  | e :: es => do
    statement env false e
    blockBody env block wanted es
termination_by structural es => es

/-- The expression form. -/
def expression (env : Env) : Expr → Emit Unit
  | .block node [only] => nameOr node (expression env only)
  | .call node feature receiver args => nameOr node do
    match feature.kind with
    | .localVar declaration => useLocal node.id declaration feature.name node.span
    | .parameter => useOr node.id (.parameter feature.name) feature.name
    | .this | .super =>
      let type := env.types.typeOf (.call node feature receiver args)
      useOr node.id (.instanceOf type.hash) feature.name
    | .field =>
      useField node.id feature.name (receiverText env receiver)
    | .operator symbol =>
      append "("
      let param := feature.paramTypes.head?
      match receiver, args with
      | some operand, [] | none, [operand] =>
        append symbol
        converted env operand param (expression env operand)
      | some left, [right] | none, [left, right] =>
        expression env left
        append (" " ++ symbol ++ " ")
        converted env right param (expression env right)
      | _, _ =>
        let count := receiver.toList.length + args.length
        throw (.misuse (.operandCount feature.name count) node.span)
      append ")"
    | .method | .staticMethod =>
      invocation node.id feature (receiverText env receiver)
        (arguments env feature.paramTypes args)
  | .construct node type params _ args =>
    nameOr node (construction node.id type (arguments env (WrittenType.resolveAll params) args))
  | .literal node value => nameOr node (append value.text)
  | .cast node type value => nameOr node do
    append ("((" ++ type.resolve.sourceName true ++ ") ")
    expression env value
    append ")"
  | .assign node target receiver value => nameOr node do
    assignment env node.id target (receiverText env receiver) value (expression env value)
  | .extension node kind _ => nameOr node (throw (.unsupported kind node.span))
  | e => nameOr e.node (noValue e)
termination_by structural e => e

/-- The expression form of a receiver, if there is one. -/
def receiverText (env : Env) : Option Expr → Option (Emit Unit)
  | none => none
  | some e => some (expression env e)
termination_by structural e => e

/-- Arguments between commas, each converted to its parameter. -/
def arguments (env : Env) (params : List HostType) : List Expr → Emit Unit
  | [] => pure ()
  | [e] => converted env e params.head? (expression env e)
  | e :: es => do
    converted env e params.head? (expression env e)
    append ", "
    arguments env params.tail es
termination_by structural es => es

end

/-- The expression form of `e`, converted to a target type. -/
def convertedExpression (env : Env) (e : Expr) (target : Option HostType) : Emit Unit :=
  converted env e target (expression env e)

end Emit

end Lowering
