import Lowering.Typing.States

/-! # Type inference

One pass over a tree, in evaluation order, computes the type of every node under the expectation of
its context. Each occurrence of a node is typed in a state of its own, which is discarded as soon as
its type is recorded. -/

namespace Lowering

/-- How `actual` conforms to an expectation. A blank type conforms to everything. -/
def Expectation.classify (h : Hierarchy) (e : Expectation) (actual : HostType) (span : Span) :
    Except Failure Conformance :=
  match e.type with
  | none => .ok .subtype
  | some expected =>
    if actual.isVoid || actual.isAny || expected.isParam || expected.isAny then .ok .subtype
    else if e.conformance = .exact then
      if actual = expected then .ok .exact else .error (.mismatch expected actual span)
    else if h.isSubtype actual expected then .ok .subtype
    else if e.conformance = .conversion ∧ h.isConvertible actual expected then .ok .conversion
    else .error (.mismatch expected actual span)

def Literal.type : Literal → HostType
  | .int _ => .int
  | .long _ => .primitive .long
  | .double _ => .primitive .double
  | .boolean _ => .boolean
  | .char _ => .primitive .char
  | .string _ => .string
  | .null => .any

/-- The type of a feature in a context. Methods without a written result return nothing. -/
def Feature.typeIn (f : Feature) (c : TypingContext) (span : Span) : Except Failure HostType :=
  let orUnresolved (sought : Sought) : Option HostType → Except Failure HostType
    | some type => .ok type
    | none => .error (.unresolved sought f.name span)
  match f.kind with
  | .localVar declaration => orUnresolved .localVariable (c.local? declaration)
  | .this => orUnresolved .enclosingInstance c.thisType
  | .super => orUnresolved .enclosingSupertype c.superType
  | .method | .staticMethod => .ok ((f.type.map (·.resolve)).getD .void)
  | .parameter | .field | .operator _ => orUnresolved .value (f.type.map (·.resolve))

/-- The type that an assigned value must convert to. -/
def Feature.targetTypeIn (f : Feature) (c : TypingContext) (span : Span) :
    Except Failure HostType :=
  let type := match f.kind with
    | .localVar declaration => c.local? declaration
    | _ => f.type.map (·.resolve)
  match type with
  | some type => .ok type
  | none => .error (.unresolved .assignmentTarget f.name span)

namespace Typing

/-- End state `i` after `act`, failed or not; a failure of `act` goes first. -/
def closing (i : Nat) (act : Typing HostType) : Typing HostType := ExceptT.mk do
  let result ← act.run
  let discarded ← (discard i).run
  pure do
    let type ← result
    discarded
    pure type

/-- Type a node whose value is the value of state `i`. -/
def asValue (i : Nat) (node : Node) (compute : Nat → Typing HostType) : Typing HostType := do
  let child ← value i node
  closing child (compute child)

/-- Type an operand of state `i` in what `i` sees now. -/
def asOperand (i : Nat) (node : Node) (compute : Nat → Typing HostType) : Typing HostType := do
  let child ← operand i node (← context i)
  closing child (compute child)

/-- Check a computed type against the expectation and record it for state `i`. -/
def settle (h : Hierarchy) (i : Nat) (e : Expectation) (span : Span)
    (compute : Typing HostType) : Typing HostType := do
  let type ← compute
  let conformance ← ofExcept (e.classify h type span)
  accept h i e type conformance e.isReturn

mutual

/-- Type an expression in state `i`. -/
def compute (h : Hierarchy) (i : Nat) (e : Expectation) : Expr → Typing HostType
  | .literal node value => settle h i e node.span (pure value.type)
  | .block node exprs => settle h i e node.span (computeBlock h i e exprs)
  | .decl node _ type _ init => settle h i e node.span do
    let declared := type.map (·.resolve)
    let type ← match init, declared with
      | some init, some declared => do
        let _ ← asOperand i init.node fun j => compute h j (.convertible declared) init
        pure declared
      | some init, none => asOperand i init.node fun j => compute h j .free init
      | none, declared => pure (declared.getD .object)
    declareLocal i node.id type
    pure .void
  | .call node feature receiver args => settle h i e node.span do
    match receiver with
    | some receiver =>
      let _ ← asOperand i receiver.node fun j => compute h j .free receiver
    | none => pure ()
    computeArgs h i feature.paramTypes args
    ofExcept (feature.typeIn (← context i) node.span)
  | .construct node type params _ args => settle h i e node.span do
    computeArgs h i (WrittenType.resolveAll params) args
    pure type.resolve
  | .branch node cond yes no => settle h i e node.span do
    let _ ← asOperand i cond.node fun j => compute h j (.convertible .boolean) cond
    let type ← asValue i yes.node fun j => compute h j e yes
    match no with
    | some no =>
      let _ ← asValue i no.node fun j => compute h j e no
    | none => pure ()
    -- Both branches have recorded their types for this node too.
    pure (((← get).types.resolution? node.id e).elim type (·.actual))
  | .ret node value => settle h i e node.span do
    match value with
    | some value =>
      let expected := (← context i).returns.getD .free
      let _ ← asOperand i value.node fun j => compute h j expected value
    | none => pure ()
    pure .void
  | .raise node value => settle h i e node.span do
    let _ ← asOperand i value.node fun j => compute h j .free value
    pure .void
  | .cast node type value => settle h i e node.span do
    let _ ← asOperand i value.node fun j => compute h j .free value
    pure type.resolve
  | .assign node target receiver value => settle h i e node.span do
    let type ← ofExcept (target.targetTypeIn (← context i) node.span)
    match receiver with
    | some receiver =>
      let _ ← asOperand i receiver.node fun j => compute h j .free receiver
    | none => pure ()
    let _ ← asOperand i value.node fun j => compute h j (.convertible type) value
    pure .void
  | .extension node kind _ => throw (.unsupported kind node.span)
termination_by structural x => x

/-- The expressions of a block; only the last one is typed under the expectation of the block. -/
def computeBlock (h : Hierarchy) (i : Nat) (e : Expectation) : List Expr → Typing HostType
  | [] => pure .void
  | [last] => asValue i last.node fun j => compute h j e last
  | x :: xs => do
    let _ ← asOperand i x.node fun j => compute h j .free x
    computeBlock h i e xs
termination_by structural xs => xs

/-- Arguments convert to their parameters; those beyond the parameters are free. -/
def computeArgs (h : Hierarchy) (i : Nat) (params : List HostType) : List Expr → Typing Unit
  | [] => pure ()
  | x :: xs => do
    let expected := params.head?.elim .free .convertible
    let _ ← asOperand i x.node fun j => compute h j expected x
    computeArgs h i params.tail xs
termination_by structural xs => xs

end

/-- Type a whole tree from its root. -/
def computeTree (h : Hierarchy) (x : Expr) (e : Expectation) (c : TypingContext) :
    Typing ResolvedTypes := do
  let i ← root x.node c
  let _ ← closing i (compute h i e x)
  finish

end Typing

/-- The types of all nodes of `x` under an expectation and in a context. -/
def Expr.infer (h : Hierarchy) (x : Expr) (e : Expectation) (c : TypingContext) :
    Except Failure ResolvedTypes :=
  ((Typing.computeTree h x e c).run.run {}).1

end Lowering
