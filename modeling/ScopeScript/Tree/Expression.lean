import ScopeScript.Tree.Basic
import ScopeScript.Tree.Cursor

/-!
# Reading expressions

Each form is read by a parser of its own, which is given the parsers for what it encloses. The
levels of binary operators are a list: an expression at one level is a chain of expressions at the
tighter levels, joined from the left by the operators of the level. Behind the tightest level stand
the unary operators, and behind these the primary expressions.
-/

namespace ScopeScript.Parser

/-- The parsers for the parts that a form encloses. -/
structure Inner where
  expression : Parser Expr
  unary : Parser Expr
  block : Parser (List Stmt)

/-- The value of the literal that comes next. The value that the token carries counts, whatever the
token; without one, a number or a string is no literal. -/
def literalValue? (cursor : Cursor) : Option Value :=
  match cursor.rest with
  | [] => none
  | token :: _ =>
    match token.kind with
    | .number | .string => token.literal
    | .keyword .true => some (token.literal.getD (.bool true))
    | .keyword .false => some (token.literal.getD (.bool false))
    | .keyword .nil => some (token.literal.getD .nil)
    | _ => none

/-- A literal. -/
def literal (start : Nat) : Parser Expr := do
  match ← look literalValue? with
  | some value =>
    skip
    return .literal (← spanFrom start) value
  | none => refuse .expression

/-- A name, or a call when a parenthesis follows the name. -/
def nameOrCall (inner : Inner) (start : Nat) : Parser Expr := do
  let name ← identifier
  if (← look Cursor.kind) = .symbol .leftParen then
    let arguments ← listed inner.expression
    return .call (← spanFrom start) name arguments
  else
    return .name (← spanFrom start) name

/-- An expression in parentheses. -/
def group (inner : Inner) (start : Nat) : Parser Expr := do
  skip
  let expression ← inner.expression
  let _ ← expect (.symbol .rightParen)
  return .group (← spanFrom start) expression

/-- The parameters and the body of a function. -/
def functionBody (inner : Inner) : Parser (List String × List Stmt) := do
  let parameters ← listed identifier
  let body ← inner.block
  let _ ← expect (.keyword .end_)
  return (parameters, body)

/-- The name of a function literal, if it has one. -/
def functionName : Parser (Option String) := do
  if (← look Cursor.kind) = .identifier then
    return some (← identifier)
  else
    return none

/-- A function literal, with or without a name. -/
def function (inner : Inner) (start : Nat) : Parser Expr := do
  skip
  let name ← functionName
  let (parameters, body) ← functionBody inner
  return .function (← spanFrom start) name parameters body

/-- An expression without operators of its own. -/
def primary (inner : Inner) : Parser Expr := do
  let start ← look Cursor.start
  match ← look Cursor.kind with
  | .identifier => nameOrCall inner start
  | .symbol .leftParen => group inner start
  | .keyword .function => function inner start
  | _ => literal start

/-- Any number of unary operators before a primary expression. -/
def unary (inner : Inner) : Parser Expr := do
  let start ← look Cursor.start
  match UnaryOp.ofKind? (← look Cursor.kind) with
  | some operator =>
    skip
    let operand ← inner.unary
    return .unary ⟨start, operand.span.stop⟩ operator operand
  | none => primary inner

/-- Joins operands to `left` as long as an operator of the level comes next. -/
def chain (level : Level) (operand : Parser Expr) : Nat → Expr → Parser Expr
  | 0, _ => exhausted
  | rounds + 1, left => do
    match level.op? (← look Cursor.kind) with
    | some operator =>
      skip
      let right ← operand
      chain level operand rounds
        (.binary ⟨left.span.start, right.span.stop⟩ operator left right)
    | none => return left

/-- An expression whose operators are of these levels or unary. -/
def binary (inner : Inner) : List Level → Parser Expr
  | [] => unary inner
  | level :: tighter => do
    let left ← binary inner tighter
    repeatedly fun rounds ↦ chain level (binary inner tighter) rounds left

/-- Any expression. -/
def expression (inner : Inner) : Parser Expr := binary inner Level.all

end ScopeScript.Parser
