import ScopeScript.Text.Span
import ScopeScript.Tree.Operator
import ScopeScript.Value

/-!
# Syntax trees

Expressions and statements. Every node carries the span of the text it stands for; parentheses keep
a node of their own, so the tree tells how the text was written.
-/

namespace ScopeScript

mutual

/-- An expression. A callee is always a name. -/
inductive Expr where
  | literal (span : Span) (value : Value)
  | name (span : Span) (name : String)
  | group (span : Span) (inner : Expr)
  | unary (span : Span) (operator : UnaryOp) (operand : Expr)
  | binary (span : Span) (operator : BinaryOp) (left right : Expr)
  | call (span : Span) (callee : String) (arguments : List Expr)
  | function (span : Span) (name : Option String) (parameters : List String) (body : List Stmt)

/-- A statement. A counting loop binds its own variable; the span of that binding is kept. -/
inductive Stmt where
  | assign (span : Span) (isLocal : Bool) (name : String) (value : Expr)
  | block (span : Span) (body : List Stmt)
  | expr (span : Span) (value : Expr)
  | forLoop (span initSpan : Span) (name : String) (init limit : Expr) (step : Option Expr)
    (body : List Stmt)
  | ifElse (span : Span) (condition : Expr) (thenBody elseBody : List Stmt)
  | return_ (span : Span) (value : Expr)
  | whileLoop (span : Span) (condition : Expr) (body : List Stmt)

end

/-- A program is a sequence of statements. -/
abbrev Program := List Stmt

/-- The text that an expression stands for. -/
def Expr.span : Expr → Span
  | literal span .. | name span .. | group span .. | unary span .. | binary span ..
  | call span .. | function span .. => span

/-- The text that a statement stands for. -/
def Stmt.span : Stmt → Span
  | assign span .. | block span .. | expr span .. | forLoop span .. | ifElse span ..
  | return_ span .. | whileLoop span .. => span

end ScopeScript
