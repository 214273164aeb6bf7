import ScopeScript.Tree.Basic

/-!
# The nodes of a tree

What a tree is made of, whatever it is a part of: expressions and statements, and the bindings of the
variables of counting loops, which have spans of their own. The children of a node come in the order in
which they are written.
-/

namespace ScopeScript

/-- A node of a tree. -/
inductive Node where
  | expr (tree : Expr)
  | stmt (tree : Stmt)
  /-- What binds the variable of a counting loop. -/
  | binding (span : Span) (name : String) (value : Expr)

namespace Node

/-- The text that a node stands for. -/
def span : Node → Span
  | expr tree => tree.span
  | stmt tree => tree.span
  | binding span _ _ => span

/-- The nodes directly below a node. -/
def children : Node → List Node
  | expr (.literal _ _) | expr (.name _ _) => []
  | expr (.group _ inner) => [expr inner]
  | expr (.unary _ _ operand) => [expr operand]
  | expr (.binary _ _ left right) => [expr left, expr right]
  | expr (.call _ _ arguments) => arguments.map expr
  | expr (.function _ _ _ body) => body.map stmt
  | stmt (.assign _ _ _ value) | stmt (.expr _ value) | stmt (.return_ _ value) => [expr value]
  | stmt (.block _ body) => body.map stmt
  | stmt (.forLoop _ initSpan name init limit step body) =>
    binding initSpan name init :: expr limit :: (step.toList.map expr ++ body.map stmt)
  | stmt (.ifElse _ condition thenBody elseBody) =>
    expr condition :: (thenBody.map stmt ++ elseBody.map stmt)
  | stmt (.whileLoop _ condition body) => expr condition :: body.map stmt
  | binding _ _ value => [expr value]

end Node

/-- The node is one of these or somewhere below them. -/
inductive Node.Among (nodes : List Node) : Node → Prop
  | here {node : Node} (h : node ∈ nodes) : Among nodes node
  | under {parent node : Node} (hparent : Among nodes parent) (h : node ∈ parent.children) :
      Among nodes node

/-- What is among the children of a node is among the nodes that it is one of. -/
theorem Node.Among.of_children {nodes : List Node} {parent node : Node} (hparent : parent ∈ nodes)
    (h : Among parent.children node) : Among nodes node := by
  induction h with
  | here h => exact .under (.here hparent) h
  | under _ h ih => exact .under ih h

theorem Node.Among.mono {nodes nodes' : List Node} {node : Node} (h : Among nodes node)
    (hnodes : nodes ⊆ nodes') : Among nodes' node := by
  induction h with
  | here h => exact .here (hnodes h)
  | under _ h ih => exact .under ih h

/-- The node is one of a program, at the top or somewhere below. -/
def Program.HasNode (program : Program) (node : Node) : Prop :=
  Node.Among (program.map .stmt) node

end ScopeScript
