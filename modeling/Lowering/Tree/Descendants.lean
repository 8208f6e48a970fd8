import Lowering.Tree.Expr

/-! # Descendants

All nodes below a node, each before the nodes below it. The walk keeps a stack of the nodes still
to visit. -/

namespace Lowering

namespace Expr

mutual

/-- The number of nodes of the unfolded tree. -/
def size : Expr → Nat
  | .block _ exprs => sizeAll exprs + 1
  | .decl _ _ _ _ none => 1
  | .decl _ _ _ _ (some init) => init.size + 1
  | .call _ _ none args => sizeAll args + 1
  | .call _ _ (some receiver) args => receiver.size + sizeAll args + 1
  | .construct _ _ _ _ args => sizeAll args + 1
  | .literal .. => 1
  | .branch _ cond yes none => cond.size + yes.size + 1
  | .branch _ cond yes (some no) => cond.size + yes.size + no.size + 1
  | .ret _ none => 1
  | .ret _ (some value) => value.size + 1
  | .raise _ value => value.size + 1
  | .cast _ _ value => value.size + 1
  | .assign _ _ none value => value.size + 1
  | .assign _ _ (some receiver) value => receiver.size + value.size + 1
  | .extension _ _ children => sizeAll children + 1
termination_by structural e => e

/-- The number of nodes of several trees together. -/
def sizeAll : List Expr → Nat
  | [] => 0
  | e :: es => e.size + sizeAll es
termination_by structural es => es

end

end Expr

/-- A walk in progress: the stack of the nodes still to visit, whose top is its last element. -/
structure Walk where
  stack : Array Expr

namespace Walk

/-- The walk that is to visit these nodes, in this order, and what is below each of them. -/
def ofList (nodes : List Expr) : Walk :=
  ⟨nodes.reverse.toArray⟩

/-- Visit the node on top. Its children take its place, the last one first, so that the first one
comes on top. -/
def next? (w : Walk) : Option (Expr × Walk) :=
  match w.stack.back? with
  | none => none
  | some e => some (e, ⟨w.stack.pop ++ e.children.reverse⟩)

@[simp] theorem next?_ofList_nil : (ofList []).next? = none := rfl

@[simp] theorem next?_ofList_cons (e : Expr) (rest : List Expr) :
    (ofList (e :: rest)).next? = some (e, ofList (e.children ++ rest)) := by
  simp [next?, ofList]

/-- The nodes visited in at most `steps` steps. -/
def run : Nat → Walk → List Expr
  | 0, _ => []
  | steps + 1, w =>
    match w.next? with
    | none => []
    | some (e, w) => e :: w.run steps

end Walk

namespace Expr

/-- The walk over the nodes below `e`. -/
def walk (e : Expr) : Walk :=
  .ofList e.children

/-- All nodes below `e`; a walk visits no more nodes than the tree has. -/
def descendants (e : Expr) : List Expr :=
  e.walk.run e.size

end Expr

end Lowering
