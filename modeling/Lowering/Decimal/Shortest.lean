/-! # Shortest decimals of binary64 numbers

The fewest decimal digits that read back as a given number, found by exact arithmetic: the two
neighbours of the number on the grid of one digit, then of two digits, and so on. Of two neighbours
that both read back the nearer wins, and the upper one on a tie. -/

namespace Lowering

/-- The finite magnitude `mantissa * 2 ^ exponent`. -/
structure Magnitude where
  mantissa : Nat
  exponent : Int
  /-- The gap to the number below is half the gap to the number above. -/
  narrowBelow : Bool
deriving DecidableEq, Repr

/-- The decimal `digits * 10 ^ exponent`. -/
structure Decimal where
  digits : Nat
  exponent : Int
deriving DecidableEq, Repr

namespace Magnitude

/-- The magnitude of a finite number, from its bits. -/
def ofBits (bits : UInt64) : Magnitude :=
  let biased := ((bits >>> 52) &&& 0x7FF).toNat
  let fraction := (bits &&& 0xFFFFFFFFFFFFF).toNat
  if biased = 0 then ⟨fraction, -1074, false⟩
  else ⟨Nat.pow 2 52 + fraction, biased - 1075, fraction == 0 && 1 < biased⟩

/-- Compare `a * 10 ^ i` with `b * 2 ^ j`. -/
private def compareScaled (a : Nat) (i : Int) (b : Nat) (j : Int) : Ordering :=
  compare (a * Nat.pow 10 i.toNat * Nat.pow 2 (-j).toNat)
    (b * Nat.pow 2 j.toNat * Nat.pow 10 (-i).toNat)

/-- The decimal lies between the halfway points to the two neighbours of `x`; the halfway points
belong to the number whose mantissa is even. -/
def readsBack (x : Magnitude) (d : Decimal) : Bool :=
  let low := if x.narrowBelow then 4 * x.mantissa - 1 else 4 * x.mantissa - 2
  let even := x.mantissa % 2 == 0
  let below := compareScaled d.digits d.exponent low (x.exponent - 2)
  let above := compareScaled d.digits d.exponent (4 * x.mantissa + 2) (x.exponent - 2)
  (below == .gt || even && below == .eq) && (above == .lt || even && above == .eq)

private def quotient (x : Magnitude) (power : Int) : Nat × Nat :=
  (x.mantissa * Nat.pow 2 x.exponent.toNat * Nat.pow 10 (-power).toNat,
    Nat.pow 2 (-x.exponent).toNat * Nat.pow 10 power.toNat)

/-- The power of ten just above a positive number. No number has its first digit after the
400th place. -/
private def scale (x : Magnitude) : Int :=
  let (num, den) := x.quotient (-400)
  ((Nat.toDigits 10 (num / den)).length : Int) - 400

/-- The better neighbour of `x` on the grid of multiples of `10 ^ power`, if one reads back. -/
private def onGrid? (x : Magnitude) (power : Int) : Option Decimal :=
  let (num, den) := x.quotient power
  let lower : Decimal := ⟨num / den, power⟩
  let upper : Decimal := ⟨num / den + 1, power⟩
  match x.readsBack lower, x.readsBack upper with
  | true, true => if 2 * num < (2 * lower.digits + 1) * den then some lower else some upper
  | true, false => some lower
  | false, true => some upper
  | false, false => none

end Magnitude

namespace Decimal

private def strip : Nat → Decimal → Decimal
  | 0, d => d
  | fuel + 1, d =>
    if d.digits % 10 == 0 then strip fuel ⟨d.digits / 10, d.exponent + 1⟩ else d

/-- The shortest decimal that reads back as `x`; seventeen digits always suffice. -/
def shortest (x : Magnitude) : Decimal :=
  if x.mantissa = 0 then ⟨0, 0⟩
  else
    let found := (List.range 17).findSome? fun (n : Nat) => x.onGrid? (x.scale - (n + 1 : Nat))
    strip 17 (found.getD ⟨x.mantissa * Nat.pow 2 x.exponent.toNat * Nat.pow 5 (-x.exponent).toNat,
      min x.exponent 0⟩)

/-- The digits of `d` and where the point stands among them. -/
private def places (d : Decimal) : List Char × Int :=
  let digits := Nat.toDigits 10 d.digits
  (digits, digits.length + d.exponent)

/-- Digits with a point between them, and at least one digit on either side of it. -/
def positional (d : Decimal) : List Char :=
  let (digits, point) := d.places
  if 0 ≤ d.exponent then digits ++ List.replicate d.exponent.toNat '0' ++ ['.', '0']
  else if 0 < point then digits.take point.toNat ++ '.' :: digits.drop point.toNat
  else ['0', '.'] ++ List.replicate (-point).toNat '0' ++ digits

/-- One digit before the point, no point after a single digit, and the power of ten behind `e`. -/
def scientific (d : Decimal) : List Char :=
  let (digits, point) := d.places
  let fraction := digits.drop 1
  digits.take 1 ++ (if fraction.isEmpty then [] else '.' :: fraction) ++
    'e' :: (toString (point - 1)).toList

/-- Numbers from `10 ^ low` up to `10 ^ high` positionally, others scientifically. -/
def format (low high : Int) (d : Decimal) : List Char :=
  let point := d.places.2
  if d.digits = 0 ∨ (low < point ∧ point ≤ high) then d.positional else d.scientific

end Decimal

end Lowering
