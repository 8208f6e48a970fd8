import Lowering.Tree.Feature
import Lowering.Tree.Span

/-! # Expression trees

The nodes of the embedded language. A node carries its identity, by which types and names are kept,
and its source location; one node may stand at several places of a tree. -/

namespace Lowering

structure Node where
  id : NodeId
  span : Span
deriving DecidableEq, Repr, Inhabited

inductive Literal where
  | int (value : Int)
  | long (value : Int)
  /-- A binary64 number by its bits. -/
  | double (bits : UInt64)
  | boolean (value : Bool)
  | char (value : Char)
  | string (value : String)
  | null
deriving DecidableEq, Repr, Inhabited

inductive Expr where
  /-- The value of a block is the value of its last expression. -/
  | block (node : Node) (exprs : List Expr)
  | decl (node : Node) (name : String) (type : Option WrittenType) (writeable : Bool)
      (init : Option Expr)
  /-- A read, a method call or an operator application; the left operand of a binary operator is
  its receiver. -/
  | call (node : Node) (feature : Feature) (receiver : Option Expr) (args : List Expr)
  | construct (node : Node) (type : WrittenType) (params throws : List WrittenType)
      (args : List Expr)
  | literal (node : Node) (value : Literal)
  | branch (node : Node) (cond yes : Expr) (no : Option Expr)
  | ret (node : Node) (value : Option Expr)
  | raise (node : Node) (value : Expr)
  | cast (node : Node) (type : WrittenType) (value : Expr)
  | assign (node : Node) (target : Feature) (receiver : Option Expr) (value : Expr)
  /-- A node of a language extension, known only by the name of its kind. -/
  | extension (node : Node) (kind : String) (children : List Expr)
deriving Inhabited, Repr

def Literal.kindName : Literal → String
  | .int _ | .long _ | .double _ => "NumberLiteral"
  | .boolean _ => "BooleanLiteral"
  | .char _ | .string _ => "StringLiteral"
  | .null => "NullLiteral"

namespace Expr

def node : Expr → Node
  | .block node _ | .decl node .. | .call node .. | .construct node .. | .literal node _
  | .branch node .. | .ret node _ | .raise node _ | .cast node .. | .assign node ..
  | .extension node .. => node

def id (e : Expr) : NodeId := e.node.id

def span (e : Expr) : Span := e.node.span

/-- The name of a node's kind in messages, and the last resort for naming its value. -/
def kindName : Expr → String
  | .block .. => "BlockExpression"
  | .decl .. => "VariableDeclaration"
  | .call .. => "FeatureCall"
  | .construct .. => "ConstructorCall"
  | .literal _ value => value.kindName
  | .branch .. => "IfExpression"
  | .ret .. => "ReturnExpression"
  | .raise .. => "ThrowExpression"
  | .cast .. => "CastedExpression"
  | .assign .. => "Assignment"
  | .extension _ kind _ => kind

/-- The expressions of a block. -/
def exprs? : Expr → Option (List Expr)
  | .block _ exprs => some exprs
  | _ => none

/-- The direct children in evaluation order. -/
def children : Expr → List Expr
  | .block _ exprs => exprs
  | .decl _ _ _ _ init => init.toList
  | .call _ _ receiver args => receiver.toList ++ args
  | .construct _ _ _ _ args => args
  | .literal .. => []
  | .branch _ cond yes no => cond :: yes :: no.toList
  | .ret _ value => value.toList
  | .raise _ value => [value]
  | .cast _ _ value => [value]
  | .assign _ _ receiver value => receiver.toList ++ [value]
  | .extension _ _ children => children

end Expr

end Lowering
