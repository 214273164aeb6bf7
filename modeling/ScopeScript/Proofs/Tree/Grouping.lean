import Mathlib.Logic.Basic
import ScopeScript.Proofs.Tree.Nodes

/-!
# Grouping one node

The ways to put one more pair of parentheses into a tree. Each is a node and the tree in which this
node is grouped, and the group stands for the same text as the node. Only nodes that are written as
expressions can be grouped: the `nil` of a declaration or a return without a value is written nowhere,
and the function of a definition begins with the word that makes it one. All other expressions in a
program can be grouped, whatever they are a part of.
-/

namespace ScopeScript

/-! ## Ways -/

/-- What is done to a part is done to the whole. -/
def within {α β : Type} (context : α → β) (ways : List (Expr × α)) : List (Expr × β) :=
  ways.map fun way ↦ (way.1, context way.2)

/-- The node itself can be grouped, or one below. -/
def withSelf (tree : Expr) (below : List (Expr × Expr)) : List (Expr × Expr) :=
  (tree, .group tree.span tree) :: below

/-- Whether the value of a statement is written as an expression. An empty `nil` is not, nor is a
function with a name that begins where the statement does. -/
def Expr.isWrittenIn (statement : Span) : Expr → Bool
  | .literal span .nil => span.start ≠ span.stop
  | .function span (some _) _ _ => span.start ≠ statement.start
  | _ => true

/-- The value of a statement can be grouped if it is written, and the nodes below anyway. -/
def withWritten (statement : Span) (value : Expr) (below : List (Expr × Expr)) :
    List (Expr × Expr) :=
  if value.isWrittenIn statement then withSelf value below else below

@[simp]
theorem mem_within {α β : Type} {context : α → β} {ways : List (Expr × α)} {node : Expr} {whole : β} :
    (node, whole) ∈ within context ways ↔ ∃ part, (node, part) ∈ ways ∧ context part = whole := by
  simp [within, and_left_comm]

@[simp]
theorem mem_withSelf {tree node other : Expr} {below : List (Expr × Expr)} :
    (node, other) ∈ withSelf tree below ↔
      (node = tree ∧ other = .group tree.span tree) ∨ (node, other) ∈ below := by
  simp [withSelf]

theorem within_within {α β γ : Type} (outer : β → γ) (context : α → β) (ways : List (Expr × α)) :
    within outer (within context ways) = within (outer ∘ context) ways := by
  simp [within]

theorem withWritten_subset (statement : Span) (value : Expr) (below : List (Expr × Expr)) :
    withWritten statement value below ⊆ withSelf value below := by
  rw [withWritten]
  split
  · exact List.Subset.refl _
  · exact List.subset_cons_self _ _

theorem withWritten_implicit (statement : Span) (offset : Nat) (below : List (Expr × Expr)) :
    withWritten statement (.literal (.point offset) .nil) below = below := by
  simp [withWritten, Expr.isWrittenIn, Span.point]

theorem withWritten_definition {statement span : Span} (hstart : span.start = statement.start)
    (name : String) (parameters : List String) (body : List Stmt) (below : List (Expr × Expr)) :
    withWritten statement (.function span (some name) parameters body) below = below := by
  simp [withWritten, Expr.isWrittenIn, hstart]

/-! ## Trees -/

mutual

/-- The ways to group a node below an expression. -/
def Expr.groupingsBelow : Expr → List (Expr × Expr)
  | .literal _ _ | .name _ _ => []
  | .group span inner => within (.group span) (withSelf inner inner.groupingsBelow)
  | .unary span operator operand =>
    within (.unary span operator) (withSelf operand operand.groupingsBelow)
  | .binary span operator left right =>
    within (.binary span operator · right) (withSelf left left.groupingsBelow) ++
      within (.binary span operator left) (withSelf right right.groupingsBelow)
  | .call span callee arguments => within (.call span callee) (Expr.groupingsAll arguments)
  | .function span name parameters body =>
    within (.function span name parameters) (Stmt.groupingsAll body)

/-- The ways to group a node of some expressions. -/
def Expr.groupingsAll : List Expr → List (Expr × List Expr)
  | [] => []
  | tree :: rest =>
    within (· :: rest) (withSelf tree tree.groupingsBelow) ++ within (tree :: ·) (Expr.groupingsAll rest)

/-- The ways to group a node of an expression that may be absent. -/
def Expr.groupings? : Option Expr → List (Expr × Option Expr)
  | none => []
  | some tree => within some (withSelf tree tree.groupingsBelow)

/-- The ways to group a node of a statement. -/
def Stmt.groupings : Stmt → List (Expr × Stmt)
  | .assign span isLocal name value =>
    within (.assign span isLocal name) (withWritten span value value.groupingsBelow)
  | .block span body => within (.block span) (Stmt.groupingsAll body)
  | .expr span value => within (.expr span) (withSelf value value.groupingsBelow)
  | .forLoop span initSpan name init limit step body =>
    within (.forLoop span initSpan name · limit step body) (withSelf init init.groupingsBelow) ++
      within (.forLoop span initSpan name init · step body) (withSelf limit limit.groupingsBelow) ++
      within (.forLoop span initSpan name init limit · body) (Expr.groupings? step) ++
      within (.forLoop span initSpan name init limit step) (Stmt.groupingsAll body)
  | .ifElse span condition thenBody elseBody =>
    within (.ifElse span · thenBody elseBody) (withSelf condition condition.groupingsBelow) ++
      within (.ifElse span condition · elseBody) (Stmt.groupingsAll thenBody) ++
      within (.ifElse span condition thenBody) (Stmt.groupingsAll elseBody)
  | .return_ span value => within (.return_ span) (withWritten span value value.groupingsBelow)
  | .whileLoop span condition body =>
    within (.whileLoop span · body) (withSelf condition condition.groupingsBelow) ++
      within (.whileLoop span condition) (Stmt.groupingsAll body)

/-- The ways to group a node of some statements. -/
def Stmt.groupingsAll : List Stmt → List (Expr × List Stmt)
  | [] => []
  | tree :: rest => within (· :: rest) tree.groupings ++ within (tree :: ·) (Stmt.groupingsAll rest)

end

/-- The ways to group a node of an expression. -/
def Expr.groupings (tree : Expr) : List (Expr × Expr) := withSelf tree tree.groupingsBelow

/-- The ways to group a node of a program. -/
def Program.groupings (program : Program) : List (Expr × Program) := Stmt.groupingsAll program

/-! ## Nodes that can be grouped -/

/-- One of the ways groups the node. -/
def Groups {α : Type} (ways : List (Expr × α)) (node : Expr) : Prop := ∃ whole, (node, whole) ∈ ways

section

variable {α β : Type} {node : Expr}

@[simp]
theorem groups_nil : ¬Groups ([] : List (Expr × α)) node := by simp [Groups]

@[simp]
theorem groups_append {ways others : List (Expr × α)} :
    Groups (ways ++ others) node ↔ Groups ways node ∨ Groups others node := by
  simp [Groups, exists_or]

@[simp]
theorem groups_within {context : α → β} {ways : List (Expr × α)} :
    Groups (within context ways) node ↔ Groups ways node := by
  constructor
  · rintro ⟨_, h⟩
    obtain ⟨part, hpart, -⟩ := mem_within.1 h
    exact ⟨part, hpart⟩
  · rintro ⟨part, hpart⟩
    exact ⟨context part, mem_within.2 ⟨part, hpart, rfl⟩⟩

@[simp]
theorem groups_withSelf {tree : Expr} {below : List (Expr × Expr)} :
    Groups (withSelf tree below) node ↔ tree = node ∨ Groups below node := by
  simp [Groups, exists_or, eq_comm]

@[simp]
theorem groups_withWritten {statement : Span} {value : Expr} {below : List (Expr × Expr)} :
    Groups (withWritten statement value below) node ↔
      value = node ∧ value.isWrittenIn statement = true ∨ Groups below node := by
  rw [withWritten]
  split <;> simp [*]

@[simp]
theorem Expr.groups_groupingsAll {trees : List Expr} :
    Groups (groupingsAll trees) node ↔
      ∃ tree ∈ trees, tree = node ∨ Groups tree.groupingsBelow node := by
  induction trees with
  | nil => simp [groupingsAll]
  | cons tree rest ih => simp [groupingsAll, ih]

@[simp]
theorem Expr.groups_groupings? {tree : Option Expr} :
    Groups (groupings? tree) node ↔ ∃ part ∈ tree, part = node ∨ Groups part.groupingsBelow node := by
  cases tree <;> simp [groupings?]

@[simp]
theorem Stmt.groups_groupingsAll {trees : List Stmt} :
    Groups (groupingsAll trees) node ↔ ∃ tree ∈ trees, Groups tree.groupings node := by
  induction trees with
  | nil => simp [groupingsAll]
  | cons tree rest ih => simp [groupingsAll, ih]

end

namespace Node

/-- An expression below a node can be grouped. -/
def Groups : Node → Expr → Prop
  | expr tree => ScopeScript.Groups tree.groupingsBelow
  | stmt tree => ScopeScript.Groups tree.groupings
  | binding _ _ value => ScopeScript.Groups value.groupings

/-- Whether a node is a statement with a value that is not written as an expression. -/
def omitsValue : Node → Bool
  | stmt (.assign span _ _ value) | stmt (.return_ span value) => !value.isWrittenIn span
  | _ => false

variable {tree node : Expr}

@[simp]
theorem groups_expr : (expr tree).Groups node ↔ ScopeScript.Groups tree.groupingsBelow node := Iff.rfl

@[simp]
theorem groups_stmt {tree : Stmt} :
    (stmt tree).Groups node ↔ ScopeScript.Groups tree.groupings node := Iff.rfl

@[simp]
theorem groups_binding {span : Span} {name : String} :
    (binding span name tree).Groups node ↔ tree = node ∨ ScopeScript.Groups tree.groupingsBelow node :=
  groups_withSelf

/-- What can be grouped below a node are those of its children that are expressions, and what can be grouped
below any of them; but for the value of a statement that is not written as an expression. -/
theorem groups_iff {parent : Node} :
    parent.Groups node ↔ ∃ child ∈ parent.children,
      child = expr node ∧ parent.omitsValue = false ∨ child.Groups node := by
  rcases parent with tree | tree | ⟨span, name, value⟩
  · cases tree <;> simp [children, omitsValue, Expr.groupingsBelow, or_and_right, exists_or]
  · cases tree <;> simp [children, omitsValue, Stmt.groupings, or_and_right, exists_or]
  · simp [children, omitsValue]

end Node

namespace Program

variable {program : Program} {node : Expr}

/-- What can be grouped below a node of a program can be grouped in the program. -/
theorem HasNode.groups {parent : Node} (h : program.HasNode parent) (hnode : parent.Groups node) :
    Groups program.groupings node := by
  induction h with
  | here h =>
    obtain ⟨tree, htree, rfl⟩ := List.mem_map.1 h
    exact Stmt.groups_groupingsAll.2 ⟨tree, htree, hnode⟩
  | @under parent child _ h ih => exact ih (Node.groups_iff.2 ⟨child, h, .inr hnode⟩)

/-- Every expression in a program can be grouped, unless it is the value of a statement in which it is not
written as an expression. -/
theorem HasNode.groups_or_omitsValue (h : program.HasNode (.expr node)) :
    Groups program.groupings node ∨ ∃ parent, program.HasNode parent ∧
      .expr node ∈ parent.children ∧ parent.omitsValue = true := by
  cases h with
  | here h => simp at h
  | @under parent _ hparent h =>
    cases homits : parent.omitsValue with
    | false => exact .inl (groups hparent (Node.groups_iff.2 ⟨_, h, .inl ⟨rfl, homits⟩⟩))
    | true => exact .inr ⟨parent, hparent, h, homits⟩

end Program

end ScopeScript
