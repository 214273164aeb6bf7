/-!
# Shortest decimals

A decimal is a natural number times a power of ten. The shortest decimal of a binary number
`mantissa * 2 ^ exponent` has as few digits as any decimal that lies close enough to round back to
that number, and of the decimals with so few digits it is the nearest one; of two equally near
decimals it is the larger. The decimals that round back are those between the midpoints to the two
neighbouring numbers; the midpoints count when the mantissa is even.
-/

namespace ScopeScript

/-- The number `coefficient * 10 ^ exponent`. -/
structure Decimal where
  coefficient : Nat
  exponent : Int
deriving DecidableEq, Repr

namespace Decimal

/-! ## Digits -/

/-- The decimal digits of a natural number. -/
def digitsOf (n : Nat) : List Char := Nat.toDigits 10 n

/-- The decimal without the zeros at the end of its coefficient. -/
def trim (decimal : Decimal) : Decimal :=
  if h : decimal.coefficient ≠ 0 ∧ decimal.coefficient % 10 = 0 then
    trim ⟨decimal.coefficient / 10, decimal.exponent + 1⟩
  else decimal
termination_by decimal.coefficient
decreasing_by omega

/-! ## The decimals of a given length -/

/-- A binary number in quarters of its unit: `4 * mantissa` between `low` and `high`, the midpoints
to its neighbours, all times `2 ^ (exponent - 2)`. -/
structure Interval where
  low : Nat
  middle : Nat
  high : Nat
  exponent : Int
  closed : Bool

namespace Interval

/-- The numbers that round to `mantissa * 2 ^ exponent`. The lower neighbour of a power of two is
half as far away as the upper one, unless both are subnormal. -/
def ofBinary (mantissa : Nat) (exponent : Int) : Interval :=
  let narrow := mantissa = Nat.pow 2 52 ∧ -1074 < exponent
  { low := 4 * mantissa - (if narrow then 1 else 2)
    middle := 4 * mantissa
    high := 4 * mantissa + 2
    exponent := exponent - 2
    closed := mantissa % 2 = 0 }

/-- The numerator that turns quarters into multiples of `10 ^ place`. -/
def up (interval : Interval) (place : Int) : Nat :=
  Nat.pow 2 interval.exponent.toNat * Nat.pow 10 (-place).toNat

/-- The denominator that turns quarters into multiples of `10 ^ place`. -/
def down (interval : Interval) (place : Int) : Nat :=
  Nat.pow 2 (-interval.exponent).toNat * Nat.pow 10 place.toNat

/-- Whether `count * 10 ^ place` lies in the interval. -/
def contains (interval : Interval) (place : Int) (count : Nat) : Bool :=
  let low := interval.low * interval.up place
  let high := interval.high * interval.up place
  let value := count * interval.down place
  if interval.closed then low ≤ value && value ≤ high else low < value && value < high

/-- The multiple of `10 ^ place` in the interval that is nearest to its middle, the larger one of
two; only the two neighbours of the middle need a test. -/
def nearest? (interval : Interval) (place : Int) : Option Decimal :=
  let middle := interval.middle * interval.up place
  let unit := interval.down place
  let below := middle / unit
  let above := below + 1
  match interval.contains place below, interval.contains place above with
  | true, true => some ⟨if 2 * middle < (below + above) * unit then below else above, place⟩
  | true, false => some ⟨below, place⟩
  | false, true => some ⟨above, place⟩
  | false, false => none

/-- The place of the leading decimal digit of the middle, for a middle that is not zero. -/
def leadingPlace (interval : Interval) : Int :=
  let numerator := interval.middle * interval.up 0
  let denominator := interval.down 0
  if denominator ≤ numerator then (digitsOf (numerator / denominator)).length - 1
  else -((digitsOf (denominator / numerator)).length : Int)

end Interval

/-! ## The shortest one -/

/-- A binary number as a decimal without rounding. -/
def exact (mantissa : Nat) (exponent : Int) : Decimal :=
  ⟨mantissa * Nat.pow 2 exponent.toNat * Nat.pow 5 (-exponent).toNat, min exponent 0⟩

/-- The shortest decimal of `mantissa * 2 ^ exponent`; seventeen digits suffice for a double. -/
def shortest (mantissa : Nat) (exponent : Int) : Decimal :=
  let interval := Interval.ofBinary mantissa exponent
  let place := interval.leadingPlace
  let found := (List.range 17).findSome? fun (index : Nat) ↦ interval.nearest? (place - index)
  trim (found.getD (exact mantissa exponent))

end Decimal

end ScopeScript
