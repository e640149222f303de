import Stepwise.Number.Shortest

/-!
# `Stepwise.Number.Layout`: the text of a decimal

Two layouts of the shortest decimal of a float, both without a sign, and `writeFloat`, the text that
a script shows for a float: positional from `1e-4` up to `1e16` and with an exponent outside,
whole numbers with one zero after the point, and an exponent with its sign.
-/

set_option autoImplicit false

namespace Stepwise.Number

namespace Decimal

/-- The digits of the coefficient. -/
def digits (d : Decimal) : List Char :=
  (toString d.coefficient).toList

/-- Positional layout: all digits in place, and a point only before a fraction. -/
def positional (d : Decimal) : String :=
  let ds := d.digits
  if 0 ≤ d.exponent then
    String.ofList (ds ++ List.replicate d.exponent.toNat '0')
  else
    let places := (-d.exponent).toNat
    if places < ds.length then
      let whole := ds.length - places
      String.ofList (ds.take whole ++ '.' :: ds.drop whole)
    else
      String.ofList ('0' :: '.' :: (List.replicate (places - ds.length) '0' ++ ds))

/-- Exponent layout: one digit before the point, and the exponent with its sign. -/
def scientific (d : Decimal) : String :=
  let ds := d.digits
  let lead := d.exponent + (ds.length : Int) - 1
  let head := match ds with
    | [] => []
    | [c] => [c]
    | c :: rest => c :: '.' :: rest
  let sign := if 0 ≤ lead then "+" else "-"
  String.ofList head ++ "e" ++ sign ++ toString lead.natAbs

/-- The exponent of the leading digit. -/
def leading (d : Decimal) : Int :=
  d.exponent + (d.digits.length : Int) - 1

end Decimal

/-- Puts the sign of a float in front of the text of its magnitude. -/
def withSign (x : Float) (magnitude : String) : String :=
  if isNegative x then "-" ++ magnitude else magnitude

/-- The plain positional text of a float: the shortest digits that read back, in place, without a
point after a whole number. -/
def plainFloat (x : Float) : String :=
  if x.isNaN then "NaN"
  else if x.isInf then withSign x "inf"
  else withSign x (Binary.ofFloat x).shortest.positional

/-- The text that a script shows for a float. -/
def writeFloat (x : Float) : String :=
  if x.isNaN then "nan"
  else if x.isInf then withSign x "inf"
  else
    let d := (Binary.ofFloat x).shortest
    -- Positional from `1e-4` (included) up to `1e16` (excluded), and for zero.
    if d.coefficient ≠ 0 ∧ (d.leading < -4 ∨ 16 ≤ d.leading) then withSign x d.scientific
    else if 0 ≤ d.exponent then withSign x (d.positional ++ ".0")
    else withSign x d.positional

end Stepwise.Number
