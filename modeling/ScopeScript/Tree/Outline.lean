import ScopeScript.Text.Outline
import ScopeScript.Text.Quoted
import ScopeScript.Tree.Basic

/-!
# Outlines of trees

An expression or statement is shown together with its span: a pair of a node, which names its form
and its parts, and the offsets of the text.
-/

namespace ScopeScript

/-! ## Leaves -/

/-- The offsets of a span. -/
def Span.outline (span : Span) : Outline := .atom span.text

/-- A text between quotes. -/
def quotedOutline (text : String) : Outline := .atom (quotedString text)

/-- A number with its kind. -/
def Number.outline : Number → Outline
  | int value => .variant "Int" [.atom (toString value.toInt)]
  | float value => .variant "Float" [.atom ((DoubleParts.ofFloat value).textWith Decimal.compact)]

/-- A literal value with its type. -/
def Value.outline : Value → Outline
  | nil => .atom "Nil"
  | bool value => .variant "Bool" [.atom (if value then "true" else "false")]
  | number value => .variant "Number" [value.outline]
  | string value => .variant "String" [quotedOutline value]

/-- The name of a unary operator. -/
def UnaryOp.outline : UnaryOp → Outline
  | length => .atom "Length"
  | negate => .atom "Negate"
  | not => .atom "Not"

/-- The name of a binary operator. -/
def BinaryOp.outline : BinaryOp → Outline
  | or => .atom "LogicOr"
  | and => .atom "LogicAnd"
  | equal => .atom "Equal"
  | notEqual => .atom "NotEqual"
  | order .less => .atom "Less"
  | order .lessEqual => .atom "LessEqual"
  | order .greater => .atom "Greater"
  | order .greaterEqual => .atom "GreaterEqual"
  | concat => .atom "Concat"
  | arithmetic .add => .atom "Add"
  | arithmetic .subtract => .atom "Subtract"
  | arithmetic .multiply => .atom "Multiply"
  | arithmetic .divide => .atom "Divide"
  | arithmetic .modulo => .atom "Modulo"

/-! ## Nodes -/

namespace Outline

/-- A node and the span of its text. -/
def spanned (node : Outline) (span : Span) : Outline := tuple [node, span.outline]

/-- A form with named parts, inside the group that tells which form it is. -/
def form (name record : String) (fields : List (String × Outline)) : Outline :=
  variant name [.record record fields]

/-- The record of an assignment. -/
def assignment (isLocal : Bool) (name : String) (value : Outline) : Outline :=
  .record "StmtAssign"
    [("local", .atom (if isLocal then "true" else "false")), ("name", quotedOutline name),
      ("value", value)]

/-- The record of a sequence of statements. -/
def body (statements : List Outline) : Outline :=
  .record "StmtBlock" [("stmts", .list statements)]

end Outline

mutual

/-- An expression with its span. -/
def Expr.outline : Expr → Outline
  | .literal span value => .spanned (.variant "Literal" [value.outline]) span
  | .name span name =>
    .spanned (.form "Identifier" "ExprIdentifier" [("name", quotedOutline name)]) span
  | .group span inner => .spanned (.variant "Grouping" [inner.outline]) span
  | .unary span operator operand =>
    .spanned (.form "Unary" "ExprUnary" [("op", operator.outline), ("rt", operand.outline)]) span
  | .binary span operator left right =>
    .spanned (.form "Binary" "ExprBinary"
      [("lt", left.outline), ("op", operator.outline), ("rt", right.outline)]) span
  | .call span callee arguments =>
    .spanned (.form "Call" "ExprCall"
      [("callee", quotedOutline callee), ("args", .list (Expr.outlines arguments))]) span
  | .function span name parameters body =>
    .spanned (.form "Function" "ExprFunction"
      [("name", .option (name.map quotedOutline)), ("params", .list (parameters.map quotedOutline)),
        ("body", .body (Stmt.outlines body))]) span

/-- Several expressions with their spans. -/
def Expr.outlines : List Expr → List Outline
  | [] => []
  | expression :: rest => expression.outline :: Expr.outlines rest

/-- An expression that may be absent. -/
def Expr.outline? : Option Expr → Option Outline
  | none => none
  | some expression => some expression.outline

/-- A statement with its span. -/
def Stmt.outline : Stmt → Outline
  | .assign span isLocal name value =>
    .spanned (.variant "Assign" [.assignment isLocal name value.outline]) span
  | .block span body => .spanned (.variant "Block" [.body (Stmt.outlines body)]) span
  | .expr span value => .spanned (.form "Expr" "StmtExpr" [("value", value.outline)]) span
  | .forLoop span initSpan name init limit step body =>
    .spanned (.form "For" "StmtFor"
      [("init", .spanned (.assignment true name init.outline) initSpan),
        ("limit", limit.outline), ("step", .option (Expr.outline? step)),
        ("body", .body (Stmt.outlines body))]) span
  | .ifElse span condition thenBody elseBody =>
    .spanned (.form "If" "StmtIf"
      [("cond", condition.outline), ("then", .body (Stmt.outlines thenBody)),
        ("else_", .body (Stmt.outlines elseBody))]) span
  | .return_ span value => .spanned (.form "Return" "StmtReturn" [("value", value.outline)]) span
  | .whileLoop span condition body =>
    .spanned (.form "While" "StmtWhile"
      [("cond", condition.outline), ("body", .body (Stmt.outlines body))]) span

/-- Several statements with their spans. -/
def Stmt.outlines : List Stmt → List Outline
  | [] => []
  | statement :: rest => statement.outline :: Stmt.outlines rest

end

/-- The outline of a program. -/
def Program.outline (program : Program) : Outline :=
  .record "Program" [("stmts", .list (Stmt.outlines program))]

end ScopeScript
