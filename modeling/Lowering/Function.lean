import Lowering.Emission.Body
import Lowering.Hierarchy.Standard
import Lowering.Typing.Infer

/-! # Functions

Typing a tree and lowering it in one go, as the body of a method or lambda or as a single
expression. -/

namespace Lowering

/-- The function whose body a tree is. -/
structure Signature where
  result : HostType
  params : List (String × HostType) := []
  throws : List HostType := []
  /-- The type of the enclosing instance, if there is one. -/
  thisType : Option HostType := none
  superType : Option HostType := none
deriving DecidableEq, Repr

def Signature.context (s : Signature) : TypingContext where
  thisType := s.thisType
  superType := s.superType
  returns := some (.returning s.result)

namespace Emit

def declareInstance (keyword : String) : Option HostType → Emit Unit
  | none => pure ()
  | some type => do
    modify (·.setObject keyword type)
    modify (·.bind (.instanceOf type.hash) keyword)

def declareParams : List (String × HostType) → Emit Unit
  | [] => pure ()
  | (name, _) :: params => do
    modify (·.bind (.parameter name) (identifier name))
    declareParams params

/-- Bind the enclosing instance and the parameters of a function. -/
def declareSignature (s : Signature) : Emit Unit := do
  declareInstance "this" s.thisType
  declareInstance "super" s.superType
  declareParams s.params

end Emit

/-- The classes and settings under which trees are lowered. -/
structure Compiler where
  hierarchy : Hierarchy := .standard
  settings : Settings := {}

namespace Compiler

/-- An empty sink with the indentation of the settings. -/
def newSink (c : Compiler) : Sink :=
  { unit := c.settings.indent }

def env (c : Compiler) (types : ResolvedTypes) : Env :=
  ⟨c.hierarchy, types, c.settings⟩

/-- Type `e`, then run `act` in a fresh scope; the answer is the table of types. If typing fails,
the sink stays as it is. -/
def typedThen (c : Compiler) (e : Expr) (expectation : Expectation)
    (context : TypingContext) (act : Env → Emit Unit) : Emit ResolvedTypes := do
  let types ← ofExcept (e.infer c.hierarchy expectation context)
  Emit.inScope (act (c.env types))
  pure types

/-- The body of a method. -/
def methodBody (c : Compiler) (e : Expr) (s : Signature) : Emit ResolvedTypes :=
  c.typedThen e (.returning s.result) s.context fun env => do
    Emit.declareSignature s
    Emit.body env e (some s.result) s.throws

/-- The body of a lambda; a block is written without its braces. -/
def lambdaBody (c : Compiler) (e : Expr) (s : Signature) : Emit ResolvedTypes :=
  c.typedThen e (.returning s.result) s.context fun env => do
    Emit.declareSignature s
    if e.exprs?.isSome then
      Emit.guarding env (env.needsRethrow e s.throws) do
        Emit.blockContents env e (some s.result)
    else
      Emit.body env e (some s.result) s.throws

/-- A single expression at the current place of the sink, whose objects `this` and `super` are the
enclosing instance. -/
def expression (c : Compiler) (e : Expr) (expected : Option HostType) : Emit ResolvedTypes := do
  let sink ← get
  let context : TypingContext :=
    { thisType := sink.object? "this", superType := sink.object? "super" }
  c.typedThen e (expected.elim .free .convertible) context fun env =>
    Emit.inlineValue env e expected

end Compiler

/-- The text of a lowered tree, with its types and regions. -/
structure Lowered where
  source : String
  types : ResolvedTypes
  regions : List Region

namespace Compiler

/-- Run a lowering on `sink`. -/
def collect (sink : Sink) (act : Emit ResolvedTypes) : Except Failure Lowered :=
  match act.run.run sink with
  | (.ok types, sink) => .ok ⟨sink.text, types, sink.regions⟩
  | (.error failure, _) => .error failure

def lowerMethod (c : Compiler) (e : Expr) (s : Signature) : Except Failure Lowered :=
  collect c.newSink (c.methodBody e s)

def lowerLambda (c : Compiler) (e : Expr) (s : Signature) : Except Failure Lowered :=
  collect c.newSink (c.lambdaBody e s)

/-- Lower a single expression in an enclosing instance of the given types. -/
def lowerExpression (c : Compiler) (e : Expr) (expected thisType superType : Option HostType) :
    Except Failure Lowered :=
  let set (key : String) (type : Option HostType) (s : Sink) : Sink :=
    type.elim s (s.setObject key)
  collect (set "super" superType (set "this" thisType c.newSink)) (c.expression e expected)

end Compiler

end Lowering
