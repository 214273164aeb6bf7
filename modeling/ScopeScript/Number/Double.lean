/-!
# What a double stands for

A double is read from its sixty-four bits: eleven of them hold the exponent, fifty-two the low part
of the mantissa, one the sign. A finite double is a signed natural number times a power of two, so
it denotes a dyadic rational; the others denote the two infinities or no number at all. Everything
that must be exact, such as comparison, rounding to an integer and the remainder, is computed on
these readings in unbounded arithmetic.
-/

namespace ScopeScript

/-! ## Parts -/

/-- A double taken apart. A finite one is `mantissa * 2 ^ exponent` under its sign. -/
inductive DoubleParts where
  | nan
  | infinite (negative : Bool)
  | finite (negative : Bool) (mantissa : Nat) (exponent : Int)
deriving DecidableEq, Repr

namespace DoubleParts

/-- The exponent of the smallest positive double. -/
def minExponent : Int := -1074

/-- Reads the fields of a double. An exponent field of zero marks the subnormal numbers, which have
no hidden leading bit. -/
def ofFloat (value : Float) : DoubleParts :=
  let bits : Nat := value.toBits.toNat
  let negative := bits / Nat.pow 2 63 % 2 = 1
  let field : Nat := bits / Nat.pow 2 52 % Nat.pow 2 11
  let low : Nat := bits % Nat.pow 2 52
  if field = 2047 then
    if low = 0 then infinite negative else nan
  else if field = 0 then finite negative low minExponent
  else finite negative (Nat.pow 2 52 + low) ((field : Int) - 1075)

/-- The double that is `mantissa * 2 ^ exponent` under a sign, for a mantissa below `2 ^ 53` and an
exponent from that of the smallest double to that of the largest. -/
def assemble (negative : Bool) (mantissa : Nat) (exponent : Int) : Float :=
  let room := (exponent - minExponent).toNat
  let shift : Nat := if mantissa = 0 then 0 else min (52 - mantissa.log2) room
  let scaled := mantissa <<< shift
  let field : Nat := if scaled < Nat.pow 2 52 then 0 else (exponent - shift + 1075).toNat
  let sign : Nat := if negative then Nat.pow 2 63 else 0
  Float.ofBits (UInt64.ofNat (sign + field * Nat.pow 2 52 + scaled % Nat.pow 2 52))

end DoubleParts

/-! ## Exact values -/

/-- The value of a number, without rounding. -/
inductive ExactValue where
  | undefined
  | negInfinity
  | finite (value : Dyadic)
  | posInfinity
deriving DecidableEq

namespace ExactValue

/-- The value that the parts of a double denote. The sign of a zero is lost. -/
def ofParts : DoubleParts → ExactValue
  | .nan => undefined
  | .infinite negative => if negative then negInfinity else posInfinity
  | .finite negative mantissa exponent =>
    finite (.ofIntWithPrec (if negative then -(mantissa : Int) else mantissa) (-exponent))

/-- The value of a double. -/
def ofFloat (value : Float) : ExactValue := ofParts (.ofFloat value)

/-- The value of an integer. -/
def ofInt (value : Int) : ExactValue := finite (.ofInt value)

/-- Where a value lies among the infinities. -/
def rank : ExactValue → Nat
  | undefined | finite _ => 1
  | negInfinity => 0
  | posInfinity => 2

/-- The order of two values; none when one of them is undefined. -/
def compare : ExactValue → ExactValue → Option Ordering
  | undefined, _ => none
  | _, undefined => none
  | finite a, finite b => some (if a < b then .lt else if b < a then .gt else .eq)
  | a, b => some (Ord.compare a.rank b.rank)

end ExactValue

/-! ## Remainders -/

namespace DoubleParts

/-- The remainder of a division that truncates towards zero, under the sign of the dividend. It has
no rounding error: on a common exponent it is a remainder of natural numbers. Dividing by an
infinity leaves the dividend; an infinite dividend or a zero divisor leaves no number. -/
def remainder (dividend divisor : Float) : Float :=
  match ofFloat dividend, ofFloat divisor with
  | .finite negative m e, .finite _ n d =>
    if n = 0 then 0.0 / 0.0
    else
      let common := min e d
      assemble negative ((m <<< (e - common).toNat) % (n <<< (d - common).toNat)) common
  | .finite .., .infinite _ => dividend
  | _, _ => 0.0 / 0.0

end DoubleParts

end ScopeScript
