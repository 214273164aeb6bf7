import ScopeScript.Number.Arithmetic
import ScopeScript.Token.Kind

/-!
# Operators

The unary operators bind tighter than all binary ones; the binary ones form seven levels, and those
of one level associate to the left.
-/

namespace ScopeScript

/-! ## Unary operators -/

/-- The operators with one operand. -/
inductive UnaryOp where
  | length
  | negate
  | not
deriving DecidableEq, Repr

namespace UnaryOp

/-- The spelling of a unary operator. -/
def text : UnaryOp → String
  | length => "#"
  | negate => "-"
  | not => "not"

/-- The unary operator that a kind of token stands for. -/
def ofKind? : Kind → Option UnaryOp
  | .symbol .hash => some length
  | .symbol .minus => some negate
  | .keyword .not => some not
  | _ => none

/-- All unary operators. -/
def all : List UnaryOp := [length, negate, not]

end UnaryOp

/-! ## Binary operators -/

/-- The operators with two operands. -/
inductive BinaryOp where
  | or
  | and
  | equal
  | notEqual
  | order (relation : Relation)
  | concat
  | arithmetic (operation : Arithmetic)
deriving DecidableEq, Repr

namespace BinaryOp

/-- The spelling of a binary operator. -/
def text : BinaryOp → String
  | or => "or"
  | and => "and"
  | equal => "=="
  | notEqual => "~="
  | order .less => "<"
  | order .lessEqual => "<="
  | order .greater => ">"
  | order .greaterEqual => ">="
  | concat => ".."
  | arithmetic .add => "+"
  | arithmetic .subtract => "-"
  | arithmetic .multiply => "*"
  | arithmetic .divide => "/"
  | arithmetic .modulo => "%"

/-- All binary operators, the loosest first. -/
def all : List BinaryOp :=
  [or, and, equal, notEqual, order .less, order .lessEqual, order .greater, order .greaterEqual,
    concat, arithmetic .add, arithmetic .subtract, arithmetic .multiply, arithmetic .divide,
    arithmetic .modulo]

end BinaryOp

/-! ## Levels -/

/-- The levels of binary operators. -/
inductive Level where
  | disjunction
  | conjunction
  | equality
  | relation
  | concatenation
  | sum
  | product
deriving DecidableEq, Repr

namespace Level

/-- All levels, the loosest first. -/
def all : List Level :=
  [disjunction, conjunction, equality, relation, concatenation, sum, product]

/-- The operator of a level that a kind of token stands for. -/
def op? : Level → Kind → Option BinaryOp
  | disjunction, .keyword .or => some .or
  | conjunction, .keyword .and => some .and
  | equality, .symbol .equal => some .equal
  | equality, .symbol .notEqual => some .notEqual
  | relation, .symbol .less => some (.order .less)
  | relation, .symbol .lessEqual => some (.order .lessEqual)
  | relation, .symbol .greater => some (.order .greater)
  | relation, .symbol .greaterEqual => some (.order .greaterEqual)
  | concatenation, .symbol .dots => some .concat
  | sum, .symbol .plus => some (.arithmetic .add)
  | sum, .symbol .minus => some (.arithmetic .subtract)
  | product, .symbol .star => some (.arithmetic .multiply)
  | product, .symbol .slash => some (.arithmetic .divide)
  | product, .symbol .percent => some (.arithmetic .modulo)
  | _, _ => none

end Level

end ScopeScript
