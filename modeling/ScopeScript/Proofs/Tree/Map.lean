import ScopeScript.Error
import ScopeScript.Tree.Basic

/-!
# Changing the names and spans of a tree

A tree keeps its form when each of its names is replaced by another and each of its spans by another.
The names are all that occur in it: those that are read, called, assigned, declared or counted with,
and those of functions and their parameters. A fault has a span of its own to replace.
-/

namespace ScopeScript

/-! ## Names -/

mutual

/-- The names that occur in an expression. -/
def Expr.names : Expr → List String
  | .literal _ _ => []
  | .name _ name => [name]
  | .group _ inner => inner.names
  | .unary _ _ operand => operand.names
  | .binary _ _ left right => left.names ++ right.names
  | .call _ callee arguments => callee :: Expr.namesAll arguments
  | .function _ name parameters body => name.toList ++ parameters ++ Stmt.namesAll body

/-- The names that occur in expressions. -/
def Expr.namesAll : List Expr → List String
  | [] => []
  | expression :: rest => expression.names ++ Expr.namesAll rest

/-- The names that occur in an expression that may be absent. -/
def Expr.names? : Option Expr → List String
  | none => []
  | some expression => expression.names

/-- The names that occur in a statement. -/
def Stmt.names : Stmt → List String
  | .assign _ _ name value => name :: value.names
  | .block _ body => Stmt.namesAll body
  | .expr _ value => value.names
  | .forLoop _ _ name init limit step body =>
    name :: (init.names ++ limit.names ++ Expr.names? step ++ Stmt.namesAll body)
  | .ifElse _ condition thenBody elseBody =>
    condition.names ++ Stmt.namesAll thenBody ++ Stmt.namesAll elseBody
  | .return_ _ value => value.names
  | .whileLoop _ condition body => condition.names ++ Stmt.namesAll body

/-- The names that occur in statements. -/
def Stmt.namesAll : List Stmt → List String
  | [] => []
  | statement :: rest => statement.names ++ Stmt.namesAll rest

end

/-! ## Replacing names and spans -/

mutual

/-- Replaces the names and the spans in an expression. -/
def Expr.map (rename : String → String) (place : Span → Span) : Expr → Expr
  | .literal span value => .literal (place span) value
  | .name span name => .name (place span) (rename name)
  | .group span inner => .group (place span) (inner.map rename place)
  | .unary span operator operand => .unary (place span) operator (operand.map rename place)
  | .binary span operator left right =>
    .binary (place span) operator (left.map rename place) (right.map rename place)
  | .call span callee arguments =>
    .call (place span) (rename callee) (Expr.mapAll rename place arguments)
  | .function span name parameters body =>
    .function (place span) (name.map rename) (parameters.map rename)
      (Stmt.mapAll rename place body)

/-- Replaces the names and the spans in expressions. -/
def Expr.mapAll (rename : String → String) (place : Span → Span) : List Expr → List Expr
  | [] => []
  | expression :: rest => expression.map rename place :: Expr.mapAll rename place rest

/-- Replaces the names and the spans in an expression that may be absent. -/
def Expr.map? (rename : String → String) (place : Span → Span) : Option Expr → Option Expr
  | none => none
  | some expression => some (expression.map rename place)

/-- Replaces the names and the spans in a statement. -/
def Stmt.map (rename : String → String) (place : Span → Span) : Stmt → Stmt
  | .assign span isLocal name value =>
    .assign (place span) isLocal (rename name) (value.map rename place)
  | .block span body => .block (place span) (Stmt.mapAll rename place body)
  | .expr span value => .expr (place span) (value.map rename place)
  | .forLoop span initSpan name init limit step body =>
    .forLoop (place span) (place initSpan) (rename name) (init.map rename place)
      (limit.map rename place) (Expr.map? rename place step) (Stmt.mapAll rename place body)
  | .ifElse span condition thenBody elseBody =>
    .ifElse (place span) (condition.map rename place) (Stmt.mapAll rename place thenBody)
      (Stmt.mapAll rename place elseBody)
  | .return_ span value => .return_ (place span) (value.map rename place)
  | .whileLoop span condition body =>
    .whileLoop (place span) (condition.map rename place) (Stmt.mapAll rename place body)

/-- Replaces the names and the spans in statements. -/
def Stmt.mapAll (rename : String → String) (place : Span → Span) : List Stmt → List Stmt
  | [] => []
  | statement :: rest => statement.map rename place :: Stmt.mapAll rename place rest

end

/-- The fault with another span. -/
def Fault.map (place : Span → Span) (fault : Fault) : Fault := ⟨fault.error, place fault.span⟩

/-- The program moved `count` bytes further into a text. -/
def Program.shift (count : Nat) (program : Program) : Program :=
  program.map (Stmt.map id (Span.shift count))

variable (rename : String → String) (place : Span → Span)

theorem Stmt.mapAll_eq_map (body : List Stmt) :
    Stmt.mapAll rename place body = body.map (Stmt.map rename place) := by
  induction body with
  | nil => rfl
  | cons statement rest ih => rw [mapAll, ih, List.map_cons]

@[simp]
theorem Expr.span_map (tree : Expr) : (tree.map rename place).span = place tree.span := by
  cases tree <;> rfl

mutual

@[simp]
theorem Expr.map_id (tree : Expr) : tree.map id id = tree := by
  match tree with
  | .literal _ _ | .name _ _ => rfl
  | .group _ inner => rw [Expr.map, inner.map_id, id]
  | .unary _ _ operand => rw [Expr.map, operand.map_id, id]
  | .binary _ _ left right => rw [Expr.map, left.map_id, right.map_id, id]
  | .call _ _ arguments => rw [Expr.map, Expr.mapAll_id arguments, id, id]
  | .function _ _ _ body =>
    rw [Expr.map, Stmt.mapAll_id body, id, Option.map_id_apply, List.map_id]

theorem Expr.mapAll_id (trees : List Expr) : Expr.mapAll id id trees = trees := by
  match trees with
  | [] => rfl
  | tree :: rest => rw [Expr.mapAll, tree.map_id, Expr.mapAll_id rest]

theorem Expr.map?_id (tree : Option Expr) : Expr.map? id id tree = tree := by
  match tree with
  | none => rfl
  | some tree => rw [Expr.map?, tree.map_id]

@[simp]
theorem Stmt.map_id (tree : Stmt) : tree.map id id = tree := by
  match tree with
  | .assign _ _ _ value | .expr _ value | .return_ _ value => simp only [Stmt.map, value.map_id, id]
  | .block _ body => rw [Stmt.map, Stmt.mapAll_id body, id]
  | .forLoop _ _ _ init limit step body =>
    simp only [Stmt.map, init.map_id, limit.map_id, Expr.map?_id step, Stmt.mapAll_id body, id]
  | .ifElse _ condition thenBody elseBody =>
    simp only [Stmt.map, condition.map_id, Stmt.mapAll_id thenBody, Stmt.mapAll_id elseBody, id]
  | .whileLoop _ condition body => simp only [Stmt.map, condition.map_id, Stmt.mapAll_id body, id]

@[simp]
theorem Stmt.mapAll_id (trees : List Stmt) : Stmt.mapAll id id trees = trees := by
  match trees with
  | [] => rfl
  | tree :: rest => rw [Stmt.mapAll, tree.map_id, Stmt.mapAll_id rest]

end

theorem Program.map_map_id (program : Program) : program.map (Stmt.map id id) = program := by
  rw [← Stmt.mapAll_eq_map, Stmt.mapAll_id]

end ScopeScript
