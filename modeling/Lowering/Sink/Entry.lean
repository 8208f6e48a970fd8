import Lowering.Sink.Scope

/-! # Entries of the output

Generated text in the pieces in which it is written. An entry says what its text is: a brace, the
name that stands for a value, the declaration of a local. Entries without text mark what happens
between the pieces: a scope opens or closes, a name is bound, the text of an effect is complete. -/

namespace Lowering

/-- What a pair of braces encloses. -/
inductive Brace where
  | block
  | branch
  /-- The body of a `try`. -/
  | guarded
  /-- The body of a `catch`. -/
  | handler
  /-- The class body of a function literal. -/
  | literal
  /-- The method body of a function literal. -/
  | method
deriving DecidableEq, Repr, Inhabited

inductive Entry where
  | text (s : String)
  | opening (brace : Brace)
  | closing (brace : Brace)
  /-- The name bound to `key`, written as the value or target that node `id` stands for. -/
  | use (id : NodeId) (key : NameKey) (name : String)
  /-- A field without a receiver, which node `id` reads or assigns. -/
  | field (id : NodeId) (name : String)
  /-- The type and name that declare the local bound to `key`. -/
  | declaration (key : NameKey) (type name : String)
  /-- The start of the trailing return that lowering adds by itself. -/
  | implicitReturn
  /-- The invocation, construction or assignment of node `id` has been written. -/
  | effect (id : NodeId)
  | enterScope
  | leaveScope
  | bind (key : NameKey) (name : String)
deriving DecidableEq, Repr, Inhabited

namespace Entry

def written : Entry → String
  | .text s => s
  | .opening _ => "\x7b"
  | .closing _ => "\x7d"
  | .use _ _ name | .field _ name => name
  | .declaration _ type name => type ++ " " ++ name
  | .implicitReturn => "return "
  | .effect _ | .enterScope | .leaveScope | .bind .. => ""

/-- The number of UTF-8 bytes written. -/
def size (e : Entry) : Nat :=
  e.written.utf8ByteSize

end Entry

end Lowering
