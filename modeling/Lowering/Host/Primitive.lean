/-! # Primitive types of the host language

The nine primitives, the classes that box them and the widening order between them. -/

namespace Lowering

inductive Primitive where
  | void
  | boolean
  | byte
  | short
  | char
  | int
  | long
  | float
  | double
deriving DecidableEq, Repr, Inhabited

namespace Primitive

/-- The primitives that have values. -/
def valued : List Primitive :=
  [.boolean, .byte, .short, .char, .int, .long, .float, .double]

/-- The keyword of a primitive. -/
def keyword : Primitive → String
  | .void => "void"
  | .boolean => "boolean"
  | .byte => "byte"
  | .short => "short"
  | .char => "char"
  | .int => "int"
  | .long => "long"
  | .float => "float"
  | .double => "double"

/-- The class that boxes a primitive. -/
def wrapper : Primitive → String
  | .void => "java.lang.Void"
  | .boolean => "java.lang.Boolean"
  | .byte => "java.lang.Byte"
  | .short => "java.lang.Short"
  | .char => "java.lang.Character"
  | .int => "java.lang.Integer"
  | .long => "java.lang.Long"
  | .float => "java.lang.Float"
  | .double => "java.lang.Double"

def ofKeyword? (word : String) : Option Primitive :=
  (void :: valued).find? (·.keyword == word)

def ofWrapper? (name : String) : Option Primitive :=
  (void :: valued).find? (·.wrapper == name)

def isNumeric : Primitive → Bool
  | .void | .boolean => false
  | _ => true

/-- Identity and the widening conversions between numbers; `byte` does not widen to `char`. -/
def widensTo (a b : Primitive) : Bool :=
  a == b || match a with
    | .byte => [short, int, long, float, double].contains b
    | .short | .char => [int, long, float, double].contains b
    | .int => [long, float, double].contains b
    | .long => [float, double].contains b
    | .float => b == double
    | .void | .boolean | .double => false

/-- The literal of a value that was never computed; `void` has none. -/
def defaultLiteral? : Primitive → Option String
  | .void => none
  | .boolean => some "false"
  | _ => some "0"

theorem ofKeyword?_keyword (p : Primitive) : ofKeyword? p.keyword = some p := by
  cases p <;> decide

theorem ofWrapper?_wrapper (p : Primitive) : ofWrapper? p.wrapper = some p := by
  cases p <;> decide

end Primitive

end Lowering
