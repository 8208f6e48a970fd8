import Lowering.Tree.Feature
import Lowering.Typing.Expectation

/-! # Typing contexts

What can be named at one place of a tree: the locals declared so far, the enclosing instance, and
what the enclosing function returns. -/

namespace Lowering

structure TypingContext where
  /-- Locals by their declaration, latest first. -/
  locals : List (NodeId × HostType) := []
  thisType : Option HostType := none
  superType : Option HostType := none
  returns : Option Expectation := none
deriving DecidableEq, Repr, Inhabited

namespace TypingContext

def withLocal (c : TypingContext) (declaration : NodeId) (type : HostType) : TypingContext :=
  { c with locals := (declaration, type) :: c.locals }

def local? (c : TypingContext) (declaration : NodeId) : Option HostType :=
  c.locals.lookup declaration

end TypingContext

end Lowering
