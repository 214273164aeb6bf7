import ScopeScript.Error
import ScopeScript.Scope.Env
import ScopeScript.Tree.Basic

/-!
# Evaluating expressions

An expression has a value or a fault in an environment, which it cannot change. Operands are
evaluated from left to right; `and` and `or` skip the right operand when the left one settles the
result, and give the value of an operand, not a boolean. A fault blames the node that failed.
-/

namespace ScopeScript

/-! ## Operators on values -/

/-- The value of a unary operation. The length of a string counts bytes. -/
def UnaryOp.apply (operator : UnaryOp) (operand : Value) : Except Error Value :=
  match operator, operand with
  | not, value => .ok (.bool (!value.isTrue))
  | length, .string text => .ok (.number (.int (.ofNat text.utf8ByteSize)))
  | negate, .number value => .ok (.number value.negate)
  | _, value => .error (.operandType operator.text value.typeName)

namespace BinaryOp

/-- Whether the left operand alone decides the result, and is it. -/
def isSettledBy (operator : BinaryOp) (left : Value) : Bool :=
  match operator with
  | and => !left.isTrue
  | or => left.isTrue
  | _ => false

/-- The value of a binary operation. -/
def apply (operator : BinaryOp) (left right : Value) : Except Error Value :=
  match operator, left, right with
  | and, left, right => .ok (if left.isTrue then right else left)
  | or, left, right => .ok (if left.isTrue then left else right)
  | equal, left, right => .ok (.bool (left.equals right))
  | notEqual, left, right => .ok (.bool (!left.equals right))
  | concat, .string left, .string right => .ok (.string (left ++ right))
  | order relation, .number left, .number right => .ok (.bool (relation.holds left right))
  | arithmetic operation, .number left, .number right =>
    match operation.apply left right with
    | some value => .ok (.number value)
    | none => .error (.divisionByZero operator.text)
  | _, left, right => .error (.operandTypes operator.text left.typeName right.typeName)

/-- An operation that its left operand settles has that operand as its value. -/
theorem apply_eq_of_isSettledBy {operator : BinaryOp} {left : Value}
    (h : operator.isSettledBy left = true) (right : Value) :
    operator.apply left right = .ok left := by
  cases operator <;> simp_all [isSettledBy, apply]

end BinaryOp

/-! ## Expressions -/

/-- A result that blames a span for its error. -/
def blaming {α : Type} (span : Span) : Except Error α → Except Fault α
  | .ok value => .ok value
  | .error error => .error ⟨error, span⟩

/-- Why a name cannot be called: it is bound to a value of some type, or to none. -/
def callError (env : Env) (callee : String) : Error :=
  match env.lookup callee with
  | some value => .notCallable value.typeName
  | none => .notDefined callee

mutual

/-- The value of an expression. No call has one, and no function literal. -/
def Expr.eval (env : Env) : Expr → Except Fault Value
  | .literal _ value => .ok value
  | .name span identifier =>
    match env.lookup identifier with
    | some value => .ok value
    | none => .error ⟨.notDefined identifier, span⟩
  | .group _ inner => inner.eval env
  | .unary span operator operand => do
    blaming span (operator.apply (← operand.eval env))
  | .binary span operator left right => do
    let value ← left.eval env
    if operator.isSettledBy value then return value
    blaming span (operator.apply value (← right.eval env))
  | .call span callee arguments => do
    Expr.evalAll env arguments
    .error ⟨callError env callee, span⟩
  | .function span _ _ _ => .error ⟨.functionValue, span⟩

/-- Evaluates expressions in order, for their faults only. -/
def Expr.evalAll (env : Env) : List Expr → Except Fault Unit
  | [] => .ok ()
  | expression :: rest => do
    let _ ← expression.eval env
    Expr.evalAll env rest

end

/-- Where both operands have values, the operation is applied to them. An operand that settles the result
is what the operation gives. -/
theorem Expr.eval_binary {env : Env} {left right : Expr} {value other : Value}
    (hleft : left.eval env = .ok value) (hright : right.eval env = .ok other) (span : Span)
    (operator : BinaryOp) :
    (binary span operator left right).eval env = blaming span (operator.apply value other) := by
  rw [eval, hleft, hright]
  change (if operator.isSettledBy value then .ok value else blaming span _) = _
  split
  next hsettled =>
    rw [BinaryOp.apply_eq_of_isSettledBy hsettled]
    rfl
  next => rfl

end ScopeScript
