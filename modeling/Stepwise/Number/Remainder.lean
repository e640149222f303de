import Stepwise.Number.Shortest

/-!
# `Stepwise.Number.Remainder`: exact operations on floats

`remainder x y` is `x - n · y` for the quotient `n` cut toward zero, computed without rounding: both
numbers are whole multiples of one power of two, and the remainder of the two multipliers is exact.
`roundEven` takes the nearest whole number, a half going to the even neighbour.
-/

set_option autoImplicit false

namespace Stepwise.Number

/-- The float `b.mantissa · 2^b.exponent`, for a mantissa that a float can hold. -/
def Binary.toFloat (b : Binary) : Float :=
  (Float.ofNat b.mantissa).scaleB b.exponent

/-- The remainder of the division cut toward zero; it has the sign of the dividend. -/
def remainder (x y : Float) : Float :=
  if x.isNaN || y.isNaN || x.isInf || y == 0.0 then 0.0 / 0.0
  else if y.isInf then x
  else
    let a := Binary.ofFloat x
    let b := Binary.ofFloat y
    let e := min a.exponent b.exponent
    let dividend := a.mantissa * Nat.pow 2 (a.exponent - e).toNat
    let divisor := b.mantissa * Nat.pow 2 (b.exponent - e).toNat
    let r := Binary.toFloat ⟨dividend % divisor, e⟩
    if isNegative x then -r else r

/-- The nearest whole number; a half goes to the even neighbour. -/
def roundEven (x : Float) : Float :=
  let down := x.floor
  let part := x - down
  if part < 0.5 then down
  else if part > 0.5 then down + 1.0
  else if part == 0.5 then
    if remainder down 2.0 == 0.0 then down else down + 1.0
  else x

end Stepwise.Number
