import Lowering.Emission.Forms
import Lowering.Proofs.Tree.Occurrences

/-!
# The course of a tree

What the forms of a tree do, read off the tree: in which order they name locals, parameters and
instances and complete effects. A node demands something of each of its children, namely a value or
none, and says where that value is written. Main statement: the course of a node from those of its
children.
-/

namespace Lowering

/-- What the text of a tree does. -/
inductive Event where
  /-- Node `id` names a local, a parameter or an instance. -/
  | use (id : NodeId)
  /-- The invocation, construction or assignment of node `id` is complete. -/
  | effect (id : NodeId)
deriving DecidableEq, Repr

/-- Where the value of a child is written. -/
inductive Place where
  /-- Nowhere. -/
  | dropped
  /-- In the expression form of its parent. -/
  | stored
  /-- Among the statements of its parent, right after its own. -/
  | written
deriving DecidableEq, Repr

/-- What a node demands of one of its children. -/
structure Demand where
  child : Expr
  /-- The statement form of the child prepares its value. -/
  needed : Bool
  place : Place

/-- What both forms of a tree do, the statement form first. -/
structure Course where
  statement : List Event
  value : List Event

/-- An operand, whose value is always prepared. -/
def Demand.operand (stored : Bool) (e : Expr) : Demand :=
  ⟨e, true, if stored then .stored else .dropped⟩

namespace Feature

/-- The text of a call or an assignment contains its receiver. -/
def writesReceiver (f : Feature) : Bool :=
  match f.kind with
  | .method | .field | .operator _ => true
  | .staticMethod => f.owner.isNone
  | .localVar _ | .parameter | .this | .super => false

/-- The text of a call contains its arguments. -/
def writesArguments (f : Feature) : Bool :=
  match f.kind with
  | .method | .staticMethod | .operator _ => true
  | .field | .localVar _ | .parameter | .this | .super => false

/-- The text of a call or an assignment names the feature itself, not as a member of a receiver. -/
def isNamed (f : Feature) : Bool :=
  match f.kind with
  | .localVar _ | .parameter | .this | .super => true
  | .method | .staticMethod | .field | .operator _ => false

end Feature

namespace Expr

/-- The events of a node itself before those of its parts. -/
def mentions : Expr → List Event
  | .call node feature _ _ | .assign node feature _ _ =>
    if feature.isNamed then [.use node.id] else []
  | _ => []

/-- The events of a node itself after those of its parts. -/
def completes (e : Expr) : List Event :=
  if e.isEffect then [.effect e.id] else []

end Expr

namespace Env

variable (env : Env)

/-- The statement form of `e` binds its value to a local. -/
def hoists (needed : Bool) (e : Expr) : Bool :=
  match e with
  | .decl .. => true
  | .block _ (_ :: _ :: _) | .branch .. => needed && !env.isVoid e
  | .call _ feature _ _ => feature.isInvocation && needed && !env.isVoid e
  | .construct .. => needed
  | _ => false

/-- The demands of expressions that follow each other, of which only the last one may have a value
that is `wanted`. -/
def lastDemands (wanted : Bool) : List Expr → List Demand
  | [] => []
  | [last] =>
    if wanted && !env.isVoid last && !last.exitsEarly then [⟨last, true, .written⟩]
    else [⟨last, false, .dropped⟩]
  | e :: es => ⟨e, false, .dropped⟩ :: lastDemands wanted es

/-- The demands of a node, whose own value may be needed, on its children. -/
def demands (needed : Bool) (e : Expr) : List Demand :=
  match e with
  | .block _ [only] => [⟨only, needed, .stored⟩]
  | .block _ exprs => env.lastDemands (needed && !env.isVoid e) exprs
  | .decl _ _ _ _ init => init.toList.map fun init => ⟨init, !env.isVoid init, .written⟩
  | .call _ feature receiver args =>
    receiver.toList.map (.operand feature.writesReceiver) ++
      args.map (.operand feature.writesArguments)
  | .construct _ _ _ _ args => args.map (.operand true)
  | .literal .. => []
  | .branch _ cond yes no =>
    ⟨cond, true, .written⟩ ::
      (yes :: no.toList).flatMap fun e' => env.lastDemands (needed && !env.isVoid e) [e']
  | .ret _ value => value.toList.map fun value =>
    if env.isVoid value then ⟨value, false, .dropped⟩ else ⟨value, true, .written⟩
  | .raise _ value => [⟨value, true, .written⟩]
  | .cast _ _ value => [⟨value, true, .stored⟩]
  | .assign _ target receiver value =>
    receiver.toList.map (.operand target.writesReceiver) ++ [.operand true value]
  | .extension _ _ children => children.map fun child => ⟨child, false, .dropped⟩

theorem child_lastDemands (wanted : Bool) (es : List Expr) :
    (env.lastDemands wanted es).map (·.child) = es := by
  induction es with
  | nil => rfl
  | cons first rest ih =>
    cases rest with
    | nil =>
      unfold lastDemands
      split <;> rfl
    | cons second rest => exact congrArg (first :: ·) ih

/-- Of expressions that follow each other, a value that is written has been prepared. -/
theorem mem_lastDemands {wanted : Bool} {es : List Expr} {d : Demand}
    (h : d ∈ env.lastDemands wanted es) :
    (d.needed ∧ d.place = .written ∧ env.isVoid d.child = false) ∨ d.place = .dropped := by
  induction es with
  | nil => cases h
  | cons first rest ih =>
    cases rest with
    | nil =>
      simp only [lastDemands] at h
      split at h <;> simp_all
    | cons second rest =>
      rcases List.mem_cons.mp h with rfl | h
      · exact .inr rfl
      · exact ih h

/-- A node demands something of each of its children, in the order of evaluation. -/
theorem child_demands (needed : Bool) (e : Expr) :
    (env.demands needed e).map (·.child) = e.children := by
  cases e with
  | block node exprs =>
    rcases exprs with _ | ⟨first, _ | ⟨second, rest⟩⟩
    · rfl
    · rfl
    · exact env.child_lastDemands _ _
  | branch node cond yes no =>
    simp [demands, Expr.children, List.map_flatMap, child_lastDemands]
  | ret node value =>
    cases value with
    | none => rfl
    | some value =>
      simp only [demands, Expr.children, Option.toList, List.map]
      split <;> rfl
  | _ => simp [demands, Expr.children, Demand.operand, Function.comp_def]

variable {env} in
theorem mem_children {needed : Bool} {e : Expr} {d : Demand} (h : d ∈ env.demands needed e) :
    d.child ∈ e.children := by
  rw [← env.child_demands needed e]
  exact List.mem_map_of_mem h

theorem exists_demand (needed : Bool) {e child : Expr} (h : child ∈ e.children) :
    ∃ d ∈ env.demands needed e, d.child = child := by
  rw [← env.child_demands needed e] at h
  exact List.mem_map.mp h

/-! ## The course of a tree -/

/-- The forms of a node from those of its children: the statements of the children come first, each
with its value if that is written at once, and the text of the node itself is a statement if it has
an effect. The value is that text unless it has been bound to a local. -/
def courseOf (needed : Bool) (e : Expr) (parts : List (Place × Course)) : Course :=
  let text := e.mentions ++
    parts.flatMap (fun part => if part.1 = .stored then part.2.value else []) ++ e.completes
  { statement := parts.flatMap
      (fun part => part.2.statement ++ if part.1 = .written then part.2.value else [])
      ++ if e.isEffect then text else []
    value := if env.hoists needed e then [] else text }

/-- The course of a tree whose value may be needed. -/
def course : Expr → Bool → Course :=
  Expr.fold fun e below needed => env.courseOf needed e
    (List.zipWith (fun demand course => (demand.place, course demand.needed))
      (env.demands needed e) below)

/-- The events of a child when its statement form is written. -/
def steps (d : Demand) : List Event :=
  (env.course d.child d.needed).statement ++
    if d.place = .written then (env.course d.child d.needed).value else []

/-- The events of a child in the expression form of its parent. -/
def parts (d : Demand) : List Event :=
  if d.place = .stored then (env.course d.child d.needed).value else []

/-- The events of the text of a node. -/
def text (needed : Bool) (e : Expr) : List Event :=
  e.mentions ++ (env.demands needed e).flatMap env.parts ++ e.completes

private theorem course_eq (e : Expr) (needed : Bool) :
    env.course e needed = env.courseOf needed e
      ((env.demands needed e).map fun d => (d.place, env.course d.child d.needed)) := by
  rw [course, Expr.fold_eq, ← env.child_demands needed e, List.map_map, List.zipWith_map_right,
    List.zipWith_self]
  rfl

theorem parts_operands (stored : Bool) (es : List Expr) :
    (es.map (.operand stored)).flatMap env.parts =
      if stored then es.flatMap fun e => (env.course e true).value else [] := by
  cases stored <;> simp [List.flatMap_map, parts, Demand.operand]

theorem statement_course (e : Expr) (needed : Bool) :
    (env.course e needed).statement = (env.demands needed e).flatMap env.steps ++
      if e.isEffect then env.text needed e else [] := by
  rw [course_eq]
  simp only [courseOf, List.flatMap_map]
  rfl

theorem value_course (e : Expr) (needed : Bool) :
    (env.course e needed).value = if env.hoists needed e then [] else env.text needed e := by
  rw [course_eq]
  simp only [courseOf, List.flatMap_map]
  rfl

end Env

end Lowering
