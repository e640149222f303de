import Stepwise.Fault
import Stepwise.Number.Layout
import Stepwise.Number.Remainder
import Stepwise.Value

/-!
# `Stepwise.Operation.Arithmetic`: arithmetic of numbers

Two integers give an integer, computed over the unbounded integers and refused if it does not fit;
a division gives a float, and so does any operation with a float among its operands.
-/

set_option autoImplicit false

namespace Stepwise

/-- The script integer with a given value, or an overflow of the operation. -/
def fitting (op : Op) (n : Int) : Except Fault Int64 :=
  match Number.checked n with
  | some i => .ok i
  | none => .error (.overflow op)

/-- Drops the fraction of a float. -/
def truncate (x : Float) : Float :=
  if x < 0.0 then x.ceil else x.floor

/-- The script integer of a whole float. -/
def floatToInt (x : Float) : Except Fault Int64 :=
  if x.isFinite && x ≥ -9223372036854775808.0 && x < 9223372036854775808.0 then .ok x.toInt64
  else .error (.invalid (.floatAsInt (Number.writeFloat x)))

/-- The power of an integer, if it fits. The exponent must be below `2^32`. -/
def intPower? (base : Int) (exponent : Nat) : Option Int64 :=
  if 4294967296 ≤ exponent then none
  else if base.natAbs ≤ 1 then
    -- Only the parity of a positive exponent matters.
    Number.checked (Int.pow base (if exponent = 0 then 0 else 2 - exponent % 2))
  else if 64 ≤ exponent then none
  else Number.checked (Int.pow base exponent)

namespace Numeric

/-- Whether a number is zero. -/
def isZero (n : Numeric) : Bool :=
  n.toFloat == 0.0

/-- Combines two numbers: integers over the unbounded integers, others as floats. -/
def combine (a : Arith) (onInt : Int → Int → Int) (onFloat : Float → Float → Float)
    (x y : Numeric) : Except Fault Numeric :=
  match x, y with
  | .int m, .int n => (fitting (.arith a) (onInt m.toInt n.toInt)).map .int
  | x, y => .ok (.float (onFloat x.toFloat y.toFloat))

/-- The quotient cut to a whole number. -/
def quotient (x y : Numeric) : Except Fault Numeric :=
  match x, y with
  | .int m, .int n => (fitting (.arith .intDiv) (m.toInt.tdiv n.toInt)).map .int
  | x, y => (floatToInt (truncate (x.toFloat / y.toFloat))).map .int

/-- The remainder of the division cut toward zero. Two integers must have a quotient that fits. -/
def remainder (x y : Numeric) : Except Fault Numeric :=
  match x, y with
  | .int m, .int n => do
    let _ ← fitting (.arith .mod) (m.toInt.tdiv n.toInt)
    return .int (Int64.ofInt (m.toInt.tmod n.toInt))
  | x, y => .ok (.float (Number.remainder x.toFloat y.toFloat))

/-- The power; a negative exponent of an integer gives a float. -/
def power (x y : Numeric) : Except Fault Numeric :=
  let floats := Numeric.float (x.toFloat.pow y.toFloat)
  match x, y with
  | .int m, .int n =>
    if 0 ≤ n.toInt then
      match intPower? m.toInt n.toInt.toNat with
      | some i => .ok (.int i)
      | none => .error (.overflow (.arith .pow))
    else .ok floats
  | _, _ => .ok floats

/-- Fails if a divisor is zero. -/
def nonZero (divisor : Numeric) : Except Fault Unit :=
  if divisor.isZero then .error (.catchable .zeroDivision) else .ok ()

/-- An arithmetic operator on two numbers. -/
def arithmetic (a : Arith) (x y : Numeric) : Except Fault Numeric :=
  match a with
  | .add => combine a (· + ·) (· + ·) x y
  | .sub => combine a (· - ·) (· - ·) x y
  | .mul => combine a (· * ·) (· * ·) x y
  | .div => do
    nonZero y
    return .float (x.toFloat / y.toFloat)
  | .intDiv => do
    nonZero y
    quotient x y
  | .mod => do
    nonZero y
    remainder x y
  | .pow =>
    if x.isZero && y.toFloat < 0.0 then .error (.catchable .zeroDivision) else power x y

/-- How two numbers compare; a float that is no number compares with nothing. -/
def order? (x y : Numeric) : Option Ordering :=
  match x, y with
  | .int m, .int n => some (compare m.toInt n.toInt)
  | x, y =>
    let a := x.toFloat
    let b := y.toFloat
    if a < b then some .lt else if b < a then some .gt else if a == b then some .eq else none

/-- The opposite number. -/
def negate : Numeric → Except Fault Numeric
  | .int n => (fitting .neg (-n.toInt)).map .int
  | .float x => .ok (.float (-x))

/-- The absolute value. -/
def absolute : Numeric → Except Fault Numeric
  | .int n => (fitting .abs n.toInt.natAbs).map .int
  | .float x => .ok (.float x.abs)

/-- A number moved by a whole distance. -/
def shift (op : Op) (delta : Int) : Numeric → Except Fault Numeric
  | .int n => (fitting op (n.toInt + delta)).map .int
  | .float x => .ok (.float (x + Float.ofInt delta))

/-- A whole number near a number. -/
def rounded (round : Float → Float) : Numeric → Except Fault Numeric
  | .int n => .ok (.int n)
  | .float x => (floatToInt (round x)).map .int

/-- The number as a value. -/
def toValue : Numeric → Value
  | .int n => .int n
  | .float x => .float x

end Numeric

/-- Whether an order is what a comparison asks for. -/
def Comparison.holds : Comparison → Option Ordering → Bool
  | .gt, o => o == some .gt
  | .lt, o => o == some .lt
  | .ge, o => o == some .gt || o == some .eq
  | .le, o => o == some .lt || o == some .eq

end Stepwise
