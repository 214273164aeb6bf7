import ScopeScript.Proofs.Tree.Map
import ScopeScript.Token.Basic
import ScopeScript.Token.Lexeme

/-!
# Tokens and trees without their places

Where a token stands in the text, and which text a node of a tree stands for, is forgotten by putting
everything at the beginning. What is left says how a text reads, whatever its layout.
-/

namespace ScopeScript

/-- The token at the beginning of a text. -/
def Token.unplaced (token : Token) : Token := ⟨token.kind, token.lexeme, token.literal, ⟨1, 1⟩, .point 0⟩

/-- The expression with all its spans at the beginning of a text. -/
def Expr.unplaced (tree : Expr) : Expr := tree.map id fun _ ↦ .point 0

/-- The statement with all its spans at the beginning of a text. -/
def Stmt.unplaced (tree : Stmt) : Stmt := tree.map id fun _ ↦ .point 0

theorem Token.unplaced_eq_iff {token other : Token} :
    token.unplaced = other.unplaced ↔
      token.kind = other.kind ∧ token.lexeme = other.lexeme ∧ token.literal = other.literal := by
  simp [unplaced]

@[simp]
theorem Token.unplaced_unplaced (token : Token) : token.unplaced.unplaced = token.unplaced := rfl

theorem Expr.mapAll_eq_map (rename : String → String) (place : Span → Span) (trees : List Expr) :
    Expr.mapAll rename place trees = trees.map (Expr.map rename place) := by
  induction trees with
  | nil => rfl
  | cons tree trees ih => rw [Expr.mapAll, ih, List.map_cons]

/-! ## Plain tokens -/

/-- The spelling of the plainest token of a kind. -/
def Kind.plainText : Kind → String
  | symbol s => s.text
  | keyword k => k.text
  | identifier => "x"
  | number => "0"
  | string => "\"\""
  | eof => ""

/-- The value of the plainest token of a kind. -/
def Kind.plainLiteral : Kind → Option Value
  | keyword k => Lexeme.keywordValue k
  | number => some (.number (.int 0))
  | string => some (.string "")
  | _ => none

/-- The plainest token of a kind, at the beginning of a text. -/
def Token.plain (kind : Kind) : Token := ⟨kind, kind.plainText, kind.plainLiteral, ⟨1, 1⟩, .point 0⟩

/-! ## Nodes without their places -/

namespace Expr

@[simp]
theorem unplaced_literal (span : Span) (value : Value) :
    (literal span value).unplaced = literal (.point 0) value := rfl

@[simp]
theorem unplaced_name (span : Span) (identifier : String) :
    (name span identifier).unplaced = name (.point 0) identifier := rfl

@[simp]
theorem unplaced_group (span : Span) (inner : Expr) :
    (group span inner).unplaced = group (.point 0) inner.unplaced := rfl

@[simp]
theorem unplaced_unary (span : Span) (operator : UnaryOp) (operand : Expr) :
    (unary span operator operand).unplaced = unary (.point 0) operator operand.unplaced := rfl

@[simp]
theorem unplaced_binary (span : Span) (operator : BinaryOp) (left right : Expr) :
    (binary span operator left right).unplaced =
      binary (.point 0) operator left.unplaced right.unplaced := rfl

@[simp]
theorem unplaced_call (span : Span) (callee : String) (arguments : List Expr) :
    (call span callee arguments).unplaced = call (.point 0) callee (arguments.map unplaced) := by
  rw [unplaced, map, mapAll_eq_map]
  rfl

@[simp]
theorem unplaced_function (span : Span) (name : Option String) (parameters : List String)
    (body : List Stmt) :
    (function span name parameters body).unplaced =
      function (.point 0) name parameters (body.map Stmt.unplaced) := by
  rw [unplaced, map, Stmt.mapAll_eq_map, Option.map_id_apply, List.map_id]
  rfl

end Expr

namespace Stmt

@[simp]
theorem unplaced_assign (span : Span) (isLocal : Bool) (name : String) (value : Expr) :
    (assign span isLocal name value).unplaced = assign (.point 0) isLocal name value.unplaced := rfl

@[simp]
theorem unplaced_block (span : Span) (body : List Stmt) :
    (block span body).unplaced = block (.point 0) (body.map unplaced) := by
  rw [unplaced, map, mapAll_eq_map]
  rfl

@[simp]
theorem unplaced_expr (span : Span) (value : Expr) :
    (expr span value).unplaced = expr (.point 0) value.unplaced := rfl

@[simp]
theorem unplaced_forLoop (span initSpan : Span) (name : String) (init limit : Expr)
    (step : Option Expr) (body : List Stmt) :
    (forLoop span initSpan name init limit step body).unplaced =
      forLoop (.point 0) (.point 0) name init.unplaced limit.unplaced (step.map Expr.unplaced)
        (body.map unplaced) := by
  rw [unplaced, map, mapAll_eq_map]
  cases step <;> rfl

@[simp]
theorem unplaced_ifElse (span : Span) (condition : Expr) (thenBody elseBody : List Stmt) :
    (ifElse span condition thenBody elseBody).unplaced =
      ifElse (.point 0) condition.unplaced (thenBody.map unplaced) (elseBody.map unplaced) := by
  rw [unplaced, map, mapAll_eq_map, mapAll_eq_map]
  rfl

@[simp]
theorem unplaced_return_ (span : Span) (value : Expr) :
    (return_ span value).unplaced = return_ (.point 0) value.unplaced := rfl

@[simp]
theorem unplaced_whileLoop (span : Span) (condition : Expr) (body : List Stmt) :
    (whileLoop span condition body).unplaced =
      whileLoop (.point 0) condition.unplaced (body.map unplaced) := by
  rw [unplaced, map, mapAll_eq_map]
  rfl

end Stmt

end ScopeScript
