/-! # Quoted characters and strings

Text between quotes. The enclosing quote, the backslash and the control characters are escaped, and
every other character stands for itself. -/

namespace Lowering.Quoted

/-- The control characters: `U+0000` to `U+001F` and `U+007F` to `U+009F`. -/
def isControl (c : Char) : Bool :=
  c.toNat < 0x20 || (0x7F ≤ c.toNat && c.toNat < 0xA0)

/-- The four lower-case hexadecimal digits of `n`, for `n` below `16 ^ 4`. -/
def fourDigits (n : Nat) : List Char :=
  [n / 4096 % 16, n / 256 % 16, n / 16 % 16, n % 16].map Nat.digitChar

/-- One character inside the quotes `quote`. -/
def escape (quote c : Char) : List Char :=
  if c == '\\' then ['\\', '\\']
  else if c == '\n' then ['\\', 'n']
  else if c == '\r' then ['\\', 'r']
  else if c == '\t' then ['\\', 't']
  else if c == '\x08' then ['\\', 'b']
  else if c == '\x0c' then ['\\', 'f']
  else if c == quote then ['\\', c]
  else if isControl c then '\\' :: 'u' :: fourDigits c.toNat
  else [c]

def encode (quote : Char) (cs : List Char) : List Char :=
  quote :: cs.flatMap (escape quote) ++ [quote]

end Lowering.Quoted
