import Lowering.Decimal.Shortest
import Lowering.Text.Quoted
import Lowering.Tree.Expr

/-! # Literals in host source text -/

namespace Lowering

/-- Numbers from a ten-thousandth up to ten to the sixteenth are written positionally and others
with an exponent; infinities and what is no number are named. -/
def doubleText (bits : UInt64) : String :=
  let magnitude := bits &&& 0x7FFFFFFFFFFFFFFF
  let negative := bits != magnitude
  if magnitude > 0x7FF0000000000000 then "Double.NaN"
  else if magnitude = 0x7FF0000000000000 then
    if negative then "Double.NEGATIVE_INFINITY" else "Double.POSITIVE_INFINITY"
  else
    let digits := (Decimal.shortest (.ofBits magnitude)).format (-4) 16
    String.ofList (if negative then '-' :: digits else digits)

def Literal.text : Literal → String
  | .int value => toString value
  | .long value => toString value ++ "L"
  | .double bits => doubleText bits
  | .boolean value => if value then "true" else "false"
  | .char value => String.ofList (Quoted.encode '\'' [value])
  | .string value => String.ofList (Quoted.encode '"' value.toList)
  | .null => "null"

/-- The literal of a value that was never computed. -/
def HostType.defaultLiteral (type : Option HostType) : String :=
  ((type.bind (·.primitive?)).bind (·.defaultLiteral?)).getD "null"

end Lowering
