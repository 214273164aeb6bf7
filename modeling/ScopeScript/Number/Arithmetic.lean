import ScopeScript.Number.Basic

/-!
# Arithmetic and order

Two integers give an integer, which wraps at sixty-four bits; any double makes the operation a
double's. Integer division truncates towards zero and fails on a zero divisor, as does the
remainder, which takes the sign of the dividend.
-/

namespace ScopeScript

/-- The arithmetic operations on two numbers. -/
inductive Arithmetic where
  | add
  | subtract
  | multiply
  | divide
  | modulo
deriving DecidableEq, Repr

namespace Arithmetic

/-- Integer arithmetic; none when a division has no result. -/
def onWords (operation : Arithmetic) (a b : Int64) : Option Int64 :=
  match operation with
  | add => some (a + b)
  | subtract => some (a - b)
  | multiply => some (a * b)
  | divide => if b = 0 then none else some (a / b)
  | modulo => if b = 0 then none else some (a % b)

/-- Double arithmetic, correctly rounded. -/
def onDoubles (operation : Arithmetic) (a b : Float) : Float :=
  match operation with
  | add => a + b
  | subtract => a - b
  | multiply => a * b
  | divide => a / b
  | modulo => DoubleParts.remainder a b

/-- The result of an operation; none when an integer is divided by zero. -/
def apply (operation : Arithmetic) : Number → Number → Option Number
  | .int a, .int b => (operation.onWords a b).map .int
  | a, b => some (.float (operation.onDoubles a.toFloat b.toFloat))

end Arithmetic

/-- The order relations between two numbers. -/
inductive Relation where
  | less
  | lessEqual
  | greater
  | greaterEqual
deriving DecidableEq, Repr

namespace Relation

/-- Whether the relation admits this outcome of a comparison. -/
def admits : Relation → Ordering → Bool
  | less, ordering => ordering.isLT
  | lessEqual, ordering => ordering.isLE
  | greater, ordering => ordering.isGT
  | greaterEqual, ordering => ordering.isGE

/-- Whether the relation holds; it does not when the numbers cannot be compared. -/
def holds (relation : Relation) (a b : Number) : Bool :=
  (a.compare b).any relation.admits

end Relation

namespace Number

/-- The number with its sign turned; the least integer is its own negative. -/
def negate : Number → Number
  | int value => int (-value)
  | float value => float (-value)

end Number

end ScopeScript
