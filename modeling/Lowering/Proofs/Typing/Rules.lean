import Lowering.Proofs.Outcome
import Lowering.Proofs.Tree.Occurrences
import Lowering.Typing.Infer

/-!
# Typing rules

What each kind of node asks of its children, which type it has itself, and what can be named after
it; and typing by these rules with nothing but the table of types. Main statement: every child is
asked for something.
-/

namespace Lowering

/-- What a node asks of a child. -/
structure Ask where
  /-- The value of the child is to be the value of the node. -/
  passed : Bool
  expectation : Expectation

namespace Ask

def operand (e : Expectation) : Ask :=
  ⟨false, e⟩

def value (e : Expectation) : Ask :=
  ⟨true, e⟩

/-- Arguments convert to their parameters; those beyond the parameters are free. -/
def args : List HostType → List Expr → List Ask
  | _, [] => []
  | params, _ :: rest => operand (params.head?.elim .free .convertible) :: args params.tail rest

/-- Only the last expression of a block is asked for what is asked of the block. -/
def statements (e : Expectation) : List Expr → List Ask
  | [] => []
  | [_] => [value e]
  | _ :: rest => operand .free :: statements e rest

end Ask

namespace Expr

/-- What a node asks of its children in a context, if `e` is asked of the node. -/
def asks (c : TypingContext) (e : Expectation) : Expr → Except Failure (List Ask)
  | .block _ exprs => .ok (Ask.statements e exprs)
  | .decl _ _ type _ init =>
    .ok (init.toList.map fun _ => .operand ((type.map (·.resolve)).elim .free .convertible))
  | .call _ feature receiver args =>
    .ok (receiver.toList.map (fun _ => .operand .free) ++ Ask.args feature.paramTypes args)
  | .construct _ _ params _ args => .ok (Ask.args (WrittenType.resolveAll params) args)
  | .literal .. => .ok []
  | .branch _ _ _ no =>
    .ok (.operand (.convertible .boolean) :: .value e :: no.toList.map fun _ => .value e)
  | .ret _ value => .ok (value.toList.map fun _ => .operand (c.returns.getD .free))
  | .raise .. | .cast .. => .ok [.operand .free]
  | .assign node target receiver _ => do
    let type ← target.targetTypeIn c node.span
    .ok (receiver.toList.map (fun _ => .operand .free) ++ [.operand (.convertible type)])
  | .extension node kind _ => .error (.unsupported kind node.span)

/-- The type of a node in the context that its children leave behind; `value` is the type of the
value that they pass to it. -/
def ownType (inner : TypingContext) (value : HostType) : Expr → Except Failure HostType
  | .block .. | .branch .. => .ok value
  | .call node feature _ _ => feature.typeIn inner node.span
  | .construct _ type _ _ _ | .cast _ type _ => .ok type.resolve
  | .literal _ constant => .ok constant.type
  | .decl .. | .ret .. | .raise .. | .assign .. | .extension .. => .ok .void

/-- What can be named after a node in context `c`; `types` are the types of its children. -/
def following (c : TypingContext) (types : List HostType) : Expr → TypingContext
  | .decl node _ type _ _ =>
    c.withLocal node.id ((type.map (·.resolve)).getD (types.head?.getD .object))
  | _ => c

private theorem length_args (params : List HostType) (args : List Expr) :
    (Ask.args params args).length = args.length := by
  induction args generalizing params with
  | nil => rfl
  | cons arg args ih => rw [Ask.args, List.length_cons, ih, List.length_cons]

private theorem length_statements (e : Expectation) (exprs : List Expr) :
    (Ask.statements e exprs).length = exprs.length := by
  induction exprs with
  | nil => rfl
  | cons first rest ih =>
    cases rest with
    | nil => rfl
    | cons second rest => rw [Ask.statements, List.length_cons, ih, List.length_cons] <;> simp

theorem length_asks {c : TypingContext} {e : Expectation} {x : Expr} {asks : List Ask}
    (h : x.asks c e = .ok asks) : asks.length = x.children.length := by
  cases x with
  | assign node target receiver value =>
    cases htype : target.targetTypeIn c node.span with
    | error f => simp [Expr.asks, htype, bind, Except.bind] at h
    | ok type =>
      simp only [Expr.asks, htype, bind, Except.bind, Except.ok.injEq] at h
      simp [← h, children]
  | extension => simp [Expr.asks] at h
  | _ =>
    simp only [Expr.asks, Except.ok.injEq] at h
    simp [← h, children, length_args, length_statements]

/-- The value of a node is that of one of its children. -/
def passesValue : Expr → Bool
  | .block .. | .branch .. => true
  | _ => false

theorem ownType_of_passesValue {x : Expr} (hx : x.passesValue) (inner : TypingContext)
    (value : HostType) : x.ownType inner value = .ok value := by
  cases x <;> first | rfl | cases hx

theorem ownType_congr {x : Expr} (hx : x.passesValue = false) (inner : TypingContext)
    (value value' : HostType) : x.ownType inner value = x.ownType inner value' := by
  cases x <;> first | rfl | cases hx

private theorem passed_args (params : List HostType) (args : List Expr) :
    ∀ ask ∈ Ask.args params args, ask.passed = false := by
  induction args generalizing params with
  | nil => simp [Ask.args]
  | cons arg args ih => exact List.forall_mem_cons.mpr ⟨rfl, ih params.tail⟩

private theorem passed_receiver {α : Type} (receiver : List α) :
    ∀ ask ∈ receiver.map fun _ => Ask.operand .free, ask.passed = false := by
  simp [Ask.operand]

theorem passed_eq_false {c : TypingContext} {e : Expectation} {x : Expr} {asks : List Ask}
    (h : x.asks c e = .ok asks) (hx : x.passesValue = false) :
    ∀ ask ∈ asks, ask.passed = false := by
  cases x with
  | block | branch => cases hx
  | extension => cases h
  | assign node target receiver value =>
    cases htype : target.targetTypeIn c node.span with
    | error f => simp [Expr.asks, htype, bind, Except.bind] at h
    | ok type =>
      simp only [Expr.asks, htype, bind, Except.bind, Except.ok.injEq] at h
      subst h
      exact List.forall_mem_append.mpr ⟨passed_receiver _, List.forall_mem_singleton.mpr rfl⟩
  | call node feature receiver args =>
    exact Except.ok.inj h ▸ List.forall_mem_append.mpr ⟨passed_receiver _, passed_args _ _⟩
  | construct node type params throws args => exact Except.ok.inj h ▸ passed_args _ _
  | _ =>
    simp only [Expr.asks, Except.ok.injEq] at h
    simp [← h, Ask.operand]

private theorem expectation_of_passed_statements (e : Expectation) (exprs : List Expr) :
    ∀ ask ∈ Ask.statements e exprs, ask.passed → ask.expectation = e := by
  induction exprs with
  | nil => simp [Ask.statements]
  | cons first rest ih =>
    cases rest with
    | nil => simp [Ask.statements, Ask.value]
    | cons second rest => exact List.forall_mem_cons.mpr ⟨fun h => (by cases h), ih⟩

theorem expectation_of_passed {c : TypingContext} {e : Expectation} {x : Expr} {asks : List Ask}
    (h : x.asks c e = .ok asks) : ∀ ask ∈ asks, ask.passed → ask.expectation = e := by
  cases hx : x.passesValue with
  | false => simp +contextual [passed_eq_false h hx]
  | true =>
    cases x with
    | block node exprs => exact Except.ok.inj h ▸ expectation_of_passed_statements e exprs
    | branch node cond yes no =>
      simp only [Expr.asks, Except.ok.injEq] at h
      simp +contextual [← h, Ask.operand, Ask.value, or_imp]
    | _ => cases hx

end Expr

/-! ## Typing with a table -/

abbrev Recording := ExceptT Failure (StateM ResolvedTypes)

/-- How a node is typed, given the node whose value it is, if any, a context and an expectation. The
answer is its type and what can be named after it. -/
abbrev Recorder :=
  Option NodeId → TypingContext → Expectation → Recording (HostType × TypingContext)

namespace Recording

def put (h : Hierarchy) (id : NodeId) (span : Span) (offer : Resolution) : Recording Unit := do
  let types ← ofExcept ((← get).accept h id span offer)
  set types

/-- Record an offer for a node, and for the node whose value it is. -/
def offer (h : Hierarchy) (outer : Option NodeId) (node : Node) (offer : Resolution) :
    Recording Unit := do
  put h node.id node.span offer
  match outer with
  | some id => put h id node.span offer
  | none => pure ()

/-- The children of node `id` from left to right, each in what the one before it leaves behind. -/
def all (id : NodeId) (c : TypingContext) :
    List (Ask × Recorder) → Recording (List HostType × TypingContext)
  | [] => pure ([], c)
  | (ask, child) :: rest => do
    let (type, c) ← child (if ask.passed then some id else none) c ask.expectation
    let (types, c) ← all id c rest
    pure (type :: types, c)

/-- The type of the value that the children pass to a node. The branches of an `if` have recorded
their types for the `if` too. -/
def passedType (e : Expectation) (types : List HostType) : Expr → Recording HostType
  | .branch node .. =>
    return ((← get).resolution? node.id e).elim (types.tail.headD .void) (·.actual)
  | _ => pure (types.getLastD .void)

/-- The type of a node before it is checked, and what can be named after the node. -/
def inside (c : TypingContext) (e : Expectation) (x : Expr) (below : List Recorder) :
    Recording (HostType × TypingContext) := do
  let asks ← ofExcept (x.asks c e)
  let (types, inner) ← all x.id c (asks.zip below)
  let value ← passedType e types x
  let type ← ofExcept (x.ownType inner value)
  pure (type, x.following c types)

/-- Check the type of a node and record it. -/
def settle (h : Hierarchy) (outer : Option NodeId) (e : Expectation) (x : Expr)
    (typed : HostType × TypingContext) : Recording (HostType × TypingContext) := do
  let conformance ← ofExcept (e.classify h typed.1 x.span)
  let type := Typing.refine e typed.1
  offer h outer x.node ⟨e, type, conformance, e.isReturn⟩
  pure (type, typed.2)

def record (h : Hierarchy) : Expr → Recorder :=
  Expr.fold fun x below outer c e => inside c e x below >>= settle h outer e x

theorem record_eq (h : Hierarchy) (x : Expr) (outer : Option NodeId) (c : TypingContext)
    (e : Expectation) :
    record h x outer c e = inside c e x (x.children.map (record h)) >>= settle h outer e x := by
  rw [record, Expr.fold_eq]

end Recording

end Lowering
