import ScopeScript.Number.Double

/-!
# Numbers

A number is a signed sixty-four-bit integer or a double. The two kinds are kept apart by arithmetic
and mixed by comparison: numbers are ordered by their exact values, and an integer is never rounded
to be compared with a double.
-/

namespace ScopeScript

/-- An integer word or a double. -/
inductive Number where
  | int (value : Int64)
  | float (value : Float)
deriving DecidableEq, Repr, Inhabited

namespace Number

/-- The value of a number, without rounding. -/
def exact : Number → ExactValue
  | int value => .ofInt value.toInt
  | float value => .ofFloat value

/-- The double nearest to a number. -/
def toFloat : Number → Float
  | int value => Float.ofInt value.toInt
  | float value => value

/-- The order of two numbers by exact value; none when one of them is not a number. -/
def compare : Number → Number → Option Ordering
  | int a, int b => some (Ord.compare a.toInt b.toInt)
  | a, b => a.exact.compare b.exact

end Number

end ScopeScript
