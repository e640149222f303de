/-!
# `Stepwise.Number.Shortest`: the shortest decimal of a binary number

A positive number `m · 2^q` stands for every real that rounds to it. `shortest` finds the decimal
with the fewest digits among those reals: for one, two, … seventeen digits it tries the two
neighbours of the number on that decimal grid, in exact natural-number arithmetic. Of two
neighbours that both read back the nearer is taken, and the upper one when they are equally near.

* `Decimal`: a coefficient and a power of ten.
* `Binary`: a mantissa and a power of two; `Binary.ofFloat` reads them off the bits.
* `Binary.shortest`: the shortest decimal that reads back.
-/

set_option autoImplicit false

namespace Stepwise.Number

/-- The decimal `coefficient · 10^exponent`. -/
structure Decimal where
  coefficient : Nat
  exponent : Int
deriving DecidableEq, Repr, Inhabited

/-- The binary number `mantissa · 2^exponent`. -/
structure Binary where
  mantissa : Nat
  exponent : Int
deriving DecidableEq, Repr, Inhabited

/-- The weight `2^52` of the leading bit of a normal mantissa, which a float does not store. -/
def hiddenBit : Nat := 4503599627370496

/-- The magnitude of a finite float, read off its bits. -/
def Binary.ofFloat (x : Float) : Binary :=
  let bits := x.toBits.toNat
  let biased := bits / hiddenBit % 2048
  let fraction := bits % hiddenBit
  -- A zero biased exponent marks the subnormal numbers, which have no hidden bit.
  if biased = 0 then ⟨fraction, -1074⟩ else ⟨fraction + hiddenBit, (biased : Int) - 1075⟩

/-- Whether the sign bit of a float is set. -/
def isNegative (x : Float) : Bool :=
  x.toBits.toNat / 9223372036854775808 % 2 == 1

namespace Binary

/-- A fraction of two natural numbers equal to `n · 2^e`. -/
def fraction (n : Nat) (e : Int) : Nat × Nat :=
  if 0 ≤ e then (n * Nat.pow 2 e.toNat, 1) else (n, Nat.pow 2 (-e).toNat)

/-- The exponent of the leading decimal digit of a positive fraction. -/
def leadingExponent (num den : Nat) : Int :=
  if den ≤ num then
    ((toString (num / den)).length : Int) - 1
  else
    -- The least `j` with `den ≤ num · 10^j` is the number of digits of `⌈den / num⌉ - 1`.
    -((toString ((den + num - 1) / num - 1)).length : Int)

/-- The reals that round to a binary number, as fractions over one denominator: the lower end, the
number itself and the upper end, in quarters of its last place. -/
structure Interval where
  lower : Nat
  middle : Nat
  upper : Nat
  den : Nat
  /-- Whether the ends themselves round to the number. -/
  closed : Bool

/-- The interval of the reals that round to `b` under round-half-to-even. -/
def interval (b : Binary) : Interval :=
  let m := b.mantissa
  -- Below a power of two the spacing halves, so the lower end is nearer.
  let below := if m = hiddenBit ∧ b.exponent ≠ -1074 then 1 else 2
  let (scale, den) := fraction 1 (b.exponent - 2)
  { lower := (4 * m - below) * scale
    middle := 4 * m * scale
    upper := (4 * m + 2) * scale
    den := den
    closed := m % 2 == 0 }

/-- Whether `num / i.den` lies in the interval. -/
def Interval.contains (i : Interval) (num : Nat) : Bool :=
  if i.closed then i.lower ≤ num && num ≤ i.upper else i.lower < num && num < i.upper

/-- The nearest point of the grid `10^k` that lies in the interval, if one of the two neighbours
of the number does. -/
def Interval.nearest? (i : Interval) (k : Int) : Option Nat :=
  let ten := Nat.pow 10 k.natAbs
  -- Over one denominator, a grid step is `unit` and the number is `middle`.
  let unit := if 0 ≤ k then ten * i.den else i.den
  let scaled : Interval :=
    if 0 ≤ k then i
    else { i with lower := i.lower * ten, middle := i.middle * ten, upper := i.upper * ten }
  let c := scaled.middle / unit
  let down := scaled.contains (c * unit)
  let up := scaled.contains ((c + 1) * unit)
  -- A tie goes up.
  let upNearer := unit ≤ 2 * (scaled.middle - c * unit)
  if up && (!down || upNearer) then some (c + 1)
  else if down then some c
  else none

/-- Tries `digits`, `digits + 1`, … digits, at most `fuel` counts; the last count that is tried
takes the grid point below the number. -/
def search (i : Interval) (leading : Int) : Nat → Nat → Decimal
  | 0, digits =>
    let k := leading - digits + 1
    ⟨(i.nearest? k).getD 0, k⟩
  | fuel + 1, digits =>
    let k := leading - digits + 1
    match i.nearest? k with
    | some c => ⟨c, k⟩
    | none => search i leading fuel (digits + 1)

/-- Moves trailing zeros of a positive coefficient into the exponent, at most `fuel` of them. -/
def strip : Nat → Decimal → Decimal
  | 0, d => d
  | fuel + 1, d =>
    if d.coefficient ≠ 0 ∧ d.coefficient % 10 = 0 then
      strip fuel ⟨d.coefficient / 10, d.exponent + 1⟩
    else d

/-- The shortest decimal that reads back as a positive binary number; zero has coefficient zero. -/
def shortest (b : Binary) : Decimal :=
  if b.mantissa = 0 then ⟨0, 0⟩
  else
    let i := b.interval
    strip 20 (search i (leadingExponent i.middle i.den) 16 1)

end Binary

end Stepwise.Number
