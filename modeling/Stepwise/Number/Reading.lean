import Stepwise.Number.Checked
import Stepwise.Number.Layout

/-!
# `Stepwise.Number.Reading`: numbers read from text

`readInt?` reads an optional sign and digits; it refuses what does not fit in 64 bits.
`readFloat?` reads an optional sign and then one of the names of the infinity and the indeterminate
number, or digits with an optional point and an optional exponent; it rounds to the nearest float.
-/

set_option autoImplicit false

namespace Stepwise.Number

/-- The number written by a list of decimal digits. -/
def natOfDigits (ds : List Char) : Nat :=
  ds.foldl (fun n c => 10 * n + (c.toNat - '0'.toNat)) 0

/-- Splits an optional sign off a text; true stands for a minus. -/
def splitSign : List Char → Bool × List Char
  | '-' :: cs => (true, cs)
  | '+' :: cs => (false, cs)
  | cs => (false, cs)

/-- The script integer that a text writes, if it is one. -/
def readInt? (cs : List Char) : Option Int64 :=
  let (minus, ds) := splitSign cs
  if ds.isEmpty || !ds.all Char.isDigit then none
  else checked (if minus then -(natOfDigits ds : Int) else natOfDigits ds)

namespace Decimal

/-- The float nearest to a decimal. -/
def toFloat (d : Decimal) : Float :=
  -- The greatest float is below `1e309` and the least positive one above `1e-324`; a decimal far
  -- outside is settled without its power of ten.
  if d.coefficient = 0 ∨ d.leading < -400 then 0.0
  else if 400 < d.leading then 1.0 / 0.0
  else Float.ofScientific d.coefficient (d.exponent < 0) d.exponent.natAbs

end Decimal

/-- The exponent part of a number: nothing, or the mark with an optional sign and digits. -/
def readExponent? : List Char → Option Int
  | [] => some 0
  | mark :: cs =>
    let (minus, ds) := splitSign cs
    if mark.toLower ≠ 'e' ∨ ds.isEmpty ∨ !ds.all Char.isDigit then none
    else some (if minus then -(natOfDigits ds : Int) else natOfDigits ds)

/-- The unsigned number that a text writes with digits, an optional point and an optional
exponent. -/
def readDecimal? (cs : List Char) : Option Decimal :=
  let whole := cs.takeWhile Char.isDigit
  let (places, rest) := match cs.dropWhile Char.isDigit with
    | '.' :: after => (after.takeWhile Char.isDigit, after.dropWhile Char.isDigit)
    | after => ([], after)
  -- A point needs a digit on one of its sides.
  if whole.isEmpty && places.isEmpty then none
  else
    (readExponent? rest).map fun e =>
      ⟨natOfDigits (whole ++ places), e - (places.length : Int)⟩

/-- The float that a text writes, if it is one. -/
def readFloat? (cs : List Char) : Option Float :=
  let (minus, body) := splitSign cs
  let magnitude? :=
    let name := String.ofList (body.map Char.toLower)
    if name = "inf" ∨ name = "infinity" then some (1.0 / 0.0)
    else if name = "nan" then some (0.0 / 0.0)
    else (readDecimal? body).map Decimal.toFloat
  magnitude?.map fun x => if minus then -x else x

end Stepwise.Number
