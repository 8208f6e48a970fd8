import Lowering.Text.LowerCase
import Lowering.Tree.Expr

/-! # Proposed names

Readable names for generated locals, taken from the declared variable, the called feature, the
created class or, as a last resort, the kind of the node. Proposals need not be unique. -/

namespace Lowering

private def after? (word : String) (cs : List Char) : Option (List Char) :=
  if word.toList.isPrefixOf cs then some (cs.drop word.length) else none

/-- The stem of a feature name: without package, parameter list and the words `operator_`, `get` and
`to` in front of it. -/
def featureStem (name : String) : String :=
  let plain := ((name.toList.takeWhile (· != '(')).reverse.takeWhile (· != '.')).reverse
  let proper (word : String) := (after? word plain).filter (!·.isEmpty)
  match after? "operator_" plain <|> proper "get" <|> proper "to" with
  | some rest => lowerFirst (String.ofList rest)
  | none => String.ofList plain

def HostType.proposedName : HostType → String
  | .array c => c.proposedName
  | t => "_" ++ lowerFirst t.simpleName

def Expr.proposedName : Expr → String
  | .decl _ name .. => name
  | .call _ feature .. => "_" ++ featureStem feature.name
  | .construct _ type .. => type.resolve.proposedName
  | e => "_" ++ lowerWord e.kindName

end Lowering
