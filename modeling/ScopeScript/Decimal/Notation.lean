import ScopeScript.Decimal.Shortest

/-!
# Decimal notation

Two ways to write a decimal. The positional form has a point and at least one digit on either side
of it; zeros fill the places that the digits do not reach. The exponent form has one digit before
the point, no point when there is just one digit, and the exponent behind a letter.
-/

namespace ScopeScript.Decimal

/-- The power of ten of the first digit. -/
def leading (decimal : Decimal) : Int :=
  decimal.exponent + (digitsOf decimal.coefficient).length - 1

/-- Positional notation, such as `1200.0` and `0.012`. -/
def positional (decimal : Decimal) : String :=
  let digits := digitsOf decimal.coefficient
  let zeros := List.replicate decimal.exponent.toNat '0'
  let fraction := (-decimal.exponent).toNat
  let whole := digits.length - fraction
  let padding := List.replicate (fraction - digits.length) '0'
  let before := if whole = 0 then ['0'] else digits.take whole ++ zeros
  let after := if fraction = 0 then ['0'] else padding ++ digits.drop whole
  String.ofList (before ++ '.' :: after)

/-- Exponent notation, such as `1e17` and `1.25e-7`. -/
def scientific (decimal : Decimal) : String :=
  let mantissa := match digitsOf decimal.coefficient with
    | digit :: next :: rest => digit :: '.' :: next :: rest
    | digits => digits
  String.ofList mantissa ++ "e" ++ toString decimal.leading

end ScopeScript.Decimal
