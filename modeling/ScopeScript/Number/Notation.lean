import ScopeScript.Decimal.Notation
import ScopeScript.Number.Basic

/-!
# The text of a number

An integer is written in decimal. A finite double is written by its shortest decimal, in positional
notation and always with a point, so that its text is never that of an integer. Outlines of trees
write very large and very small doubles with an exponent instead.
-/

namespace ScopeScript

namespace DoubleParts

/-- The text of a double, given a notation for the decimal of its absolute value. -/
def textWith (notate : Decimal → String) : DoubleParts → String
  | nan => "NaN"
  | infinite negative => if negative then "-inf" else "inf"
  | finite negative mantissa exponent =>
    let decimal := if mantissa = 0 then ⟨0, 0⟩ else Decimal.shortest mantissa exponent
    (if negative then "-" else "") ++ notate decimal

end DoubleParts

namespace Decimal

/-- Positional for zero and from `10 ^ (-4)` up to `10 ^ 16`, with an exponent elsewhere. -/
def compact (decimal : Decimal) : String :=
  if decimal.coefficient = 0 || (-4 ≤ decimal.leading && decimal.leading < 16) then
    decimal.positional
  else decimal.scientific

end Decimal

namespace Number

/-- The text of a number as a program shows it. -/
def text : Number → String
  | int value => toString value.toInt
  | float value => (DoubleParts.ofFloat value).textWith Decimal.positional

end Number

end ScopeScript
