import Lowering.Tree.Expr
import Lowering.Typing.Context
import Lowering.Typing.ResolvedTypes

/-! # Typing states

One state for each node while it is being typed. A state has at most one active child at a time, and
a discarded state takes no part any more. A failing operation leaves the states as they are; what an
operation had written to the table before it failed stays written. -/

namespace Lowering

/-- How the node of a state relates to the node of its parent. -/
inductive StateRole where
  | root
  /-- The value of the node is the value of the parent, so its types are the parent's too. -/
  | value
  /-- An independent operand of the parent. -/
  | operand
deriving DecidableEq, Repr, Inhabited

structure TypingState where
  parent : Option Nat
  node : Node
  role : StateRole
  context : TypingContext
  activeChild : Option Nat := none
  discarded : Bool := false
deriving DecidableEq, Repr, Inhabited

/-- All states of a run, named by their position, and the table they write. -/
structure TypingStates where
  states : Array TypingState := #[]
  types : ResolvedTypes := {}

/-- A computation on states that may fail and keeps the states when it does. -/
abbrev Typing := ExceptT Failure (StateM TypingStates)

namespace Typing

/-- Any state, discarded or not. -/
def find (i : Nat) : Typing TypingState := do
  match (← get).states[i]? with
  | some state => pure state
  | none => throw (.internal (.unknownState i))

/-- A state that was not discarded. -/
def live (i : Nat) : Typing TypingState := do
  let state ← find i
  if state.discarded then throw (.internal (.discardedState i))
  pure state

def modifyState (i : Nat) (f : TypingState → TypingState) : Typing Unit :=
  modify fun s => { s with states := s.states.modify i f }

def push (state : TypingState) : Typing Nat :=
  modifyGet fun s => (s.states.size, { s with states := s.states.push state })

def root (node : Node) (context : TypingContext) : Typing Nat := do
  unless (← get).states.isEmpty do
    throw (.internal .rootExists)
  push { parent := none, node, role := .root, context }

def spawn (parent : Nat) (node : Node) (role : StateRole) (context : TypingContext) :
    Typing Nat := do
  match (← live parent).activeChild with
  | some child => throw (.internal (.busyState parent child))
  | none =>
    let i ← push { parent, node, role, context }
    modifyState parent fun state => { state with activeChild := i }
    pure i

/-- A state for a node whose value is the value of `parent`; it sees what `parent` sees. -/
def value (parent : Nat) (node : Node) : Typing Nat := do
  spawn parent node .value (← live parent).context

def operand (parent : Nat) (node : Node) (context : TypingContext) : Typing Nat :=
  spawn parent node .operand context

/-- End a state; its parent may start its next child. -/
def discard (i : Nat) : Typing Unit := do
  let state ← live i
  modifyState i fun state => { state with discarded := true }
  match state.parent with
  | none => pure ()
  | some parent =>
    modifyState parent fun p =>
      if p.activeChild = some i then { p with activeChild := none } else p

def role (i : Nat) : Typing StateRole :=
  return (← find i).role

def parent (i : Nat) : Typing (Option Nat) :=
  return (← find i).parent

def context (i : Nat) : Typing TypingContext :=
  return (← live i).context

/-- Declare a local for what follows state `i`: in its parent, or in itself at the root. -/
def declareLocal (i declaration : Nat) (type : HostType) : Typing Unit := do
  let owner := (← live i).parent.getD i
  let _ ← live owner
  modifyState owner fun state => { state with context := state.context.withLocal declaration type }

/-- The placeholder type gives way to a definite expected type. -/
def refine (e : Expectation) (type : HostType) : HostType :=
  match e.type with
  | some expected =>
    if type.isAny && !expected.isParam && !expected.isAny then expected else type
  | none => type

def record (h : Hierarchy) (id : NodeId) (span : Span) (offer : Resolution) :
    Typing Unit := do
  match (← get).types.accept h id span offer with
  | .ok types => modify fun s => { s with types }
  | .error failure => throw failure

/-- Record a type for the node of state `i`, and for the parent's node too where its value is the
parent's. The answer is the recorded type. -/
def accept (h : Hierarchy) (i : Nat) (e : Expectation) (type : HostType)
    (conformance : Conformance) (isReturn : Bool) : Typing HostType := do
  let state ← live i
  let type := refine e type
  let offer : Resolution := ⟨e, type, conformance, isReturn⟩
  match state.role, state.parent with
  | .value, some parent => do
    let parent ← live parent
    record h state.node.id state.node.span offer
    record h parent.node.id state.node.span offer
  | _, _ => record h state.node.id state.node.span offer
  pure type

/-- The table, once every state was discarded. -/
def finish : Typing ResolvedTypes := do
  let s ← get
  match s.states.findIdx? (!·.discarded) with
  | some i => throw (.internal (.activeState i))
  | none => pure s.types

end Typing

end Lowering
