import Lowering.Host.Primitive

/-! # Types of the host language

References to host types, their names and their boxed and unboxed forms. `any` is the placeholder
type of a value about which nothing is known, such as the null literal. -/

namespace Lowering

inductive HostType where
  | primitive (kind : Primitive)
  | cls (name : String) (args : List HostType)
  | array (component : HostType)
  | param (name : String)
  | any
deriving Inhabited, Repr

namespace HostType

mutual

private def same : HostType → HostType → Bool
  | .primitive a, .primitive b => a == b
  | .cls a as, .cls b bs => a == b && sameAll as bs
  | .array a, .array b => same a b
  | .param a, .param b => a == b
  | .any, .any => true
  | _, _ => false
termination_by structural a => a

private def sameAll : List HostType → List HostType → Bool
  | [], [] => true
  | a :: as, b :: bs => same a b && sameAll as bs
  | _, _ => false
termination_by structural as => as

end

mutual

private theorem same_iff : ∀ a b : HostType, same a b = true ↔ a = b
  | .primitive a, b => by cases b <;> simp [same]
  | .cls a as, b => by cases b <;> simp [same, sameAll_iff as]
  | .array a, b => by cases b <;> simp [same, same_iff a]
  | .param a, b => by cases b <;> simp [same]
  | .any, b => by cases b <;> simp [same]
termination_by structural a => a

private theorem sameAll_iff : ∀ as bs : List HostType, sameAll as bs = true ↔ as = bs
  | [], bs => by cases bs <;> simp [sameAll]
  | a :: as, bs => by cases bs <;> simp [sameAll, same_iff a, sameAll_iff as]
termination_by structural as => as

end

instance : DecidableEq HostType := fun a b => decidable_of_iff _ (same_iff a b)

/-- The class `name` without type arguments. -/
def named (name : String) : HostType :=
  .cls name []

/-- The root of the class hierarchy. -/
def objectName : String := "java.lang.Object"

def object : HostType := named objectName
def string : HostType := named "java.lang.String"
def void : HostType := .primitive .void
def boolean : HostType := .primitive .boolean
def int : HostType := .primitive .int

def isVoid : HostType → Bool
  | .primitive .void => true
  | _ => false

def isAny : HostType → Bool
  | .any => true
  | _ => false

def isParam : HostType → Bool
  | .param _ => true
  | _ => false

def isArray : HostType → Bool
  | .array _ => true
  | _ => false

def primitive? : HostType → Option Primitive
  | .primitive kind => some kind
  | _ => none

/-- A primitive that has values. -/
def isPrimitive (t : HostType) : Bool :=
  t.primitive?.any (· != .void)

def component? : HostType → Option HostType
  | .array c => some c
  | _ => none

def args : HostType → List HostType
  | .cls _ args => args
  | _ => []

/-- The erased name. -/
def qualifiedName : HostType → String
  | .primitive kind => kind.keyword
  | .cls name _ => name
  | .array c => c.qualifiedName ++ "[]"
  | .param name => name
  | .any => objectName

private def lastSegment (name : List Char) : List Char :=
  (name.reverse.takeWhile fun c => c != '.' && c != '$').reverse

def simpleName : HostType → String
  | .cls name _ => String.ofList (lastSegment name.toList)
  | .array c => c.simpleName ++ "[]"
  | .any => "Object"
  | t => t.qualifiedName

/-- The primitive that an unboxing conversion yields. -/
def unboxed? : HostType → Option Primitive
  | .cls name [] => (Primitive.ofWrapper? name).filter (· != .void)
  | _ => none

/-- The boxed form of a primitive, `void` included; every other type stays as it is. -/
def boxed : HostType → HostType
  | .primitive kind => named kind.wrapper
  | t => t

mutual

/-- The text of a type in messages. -/
def display : HostType → String
  | .primitive kind => kind.keyword
  | .cls name [] => name
  | .cls name (a :: as) => name ++ "<" ++ a.display ++ displayRest as ++ ">"
  | .array c => c.display ++ "[]"
  | .param name => name
  | .any => "any"
termination_by structural t => t

private def displayRest : List HostType → String
  | [] => ""
  | a :: as => ", " ++ a.display ++ displayRest as
termination_by structural as => as

end

end HostType

end Lowering
