import ScopeScript.Proofs.Eval.Sequence
import ScopeScript.Proofs.Tree.Grouping

/-!
# Groups are transparent

A group has the value of what is in it, or its fault, and stands for the same text where a bound of a loop is
blamed. So grouping a node of a tree changes nothing at all when the tree is executed. The body of a
function is never executed.
-/

namespace ScopeScript

/-! ## Expressions -/

/-- The other expression may be evaluated instead, wherever the first stands. -/
structure Expr.Equivalent (tree other : Expr) : Prop where
  span_eq : other.span = tree.span
  eval_eq : ∀ env, other.eval env = tree.eval env

namespace Expr

variable {node other tree : Expr} {below : List (Expr × Expr)}

theorem equivalent_group (tree : Expr) : tree.Equivalent (.group tree.span tree) :=
  ⟨rfl, fun _ ↦ rfl⟩

theorem equivalent_of_withSelf (h : (node, other) ∈ withSelf tree below)
    (hbelow : (node, other) ∈ below → tree.Equivalent other) : tree.Equivalent other := by
  rcases mem_withSelf.1 h with ⟨-, rfl⟩ | h
  · exact tree.equivalent_group
  · exact hbelow h

end Expr

mutual

theorem Expr.equivalent_of_below (tree : Expr) {node other : Expr}
    (h : (node, other) ∈ tree.groupingsBelow) : tree.Equivalent other := by
  match tree with
  | .literal _ _ | .name _ _ => cases h
  | .group span inner =>
    obtain ⟨inner', hinner, rfl⟩ := mem_within.1 h
    have hequivalent := equivalent_of_withSelf hinner inner.equivalent_of_below
    exact ⟨rfl, fun env ↦ hequivalent.eval_eq env⟩
  | .unary span operator operand =>
    obtain ⟨operand', hoperand, rfl⟩ := mem_within.1 h
    have hequivalent := equivalent_of_withSelf hoperand operand.equivalent_of_below
    exact ⟨rfl, fun env ↦ by rw [eval, hequivalent.eval_eq, eval]⟩
  | .binary span operator left right =>
    rcases List.mem_append.1 h with h | h
    · obtain ⟨left', hleft, rfl⟩ := mem_within.1 h
      have hequivalent := equivalent_of_withSelf hleft left.equivalent_of_below
      exact ⟨rfl, fun env ↦ by rw [eval, hequivalent.eval_eq, eval]⟩
    · obtain ⟨right', hright, rfl⟩ := mem_within.1 h
      have hequivalent := equivalent_of_withSelf hright right.equivalent_of_below
      exact ⟨rfl, fun env ↦ by simp only [eval, hequivalent.eval_eq]⟩
  | .call span callee arguments =>
    obtain ⟨arguments', harguments, rfl⟩ := mem_within.1 h
    exact ⟨rfl, fun env ↦ by rw [eval, Expr.evalAll_of_groupings arguments harguments, eval]⟩
  | .function _ _ _ _ =>
    obtain ⟨body', -, rfl⟩ := mem_within.1 h
    exact ⟨rfl, fun _ ↦ rfl⟩

theorem Expr.evalAll_of_groupings (trees : List Expr) {node : Expr} {others : List Expr}
    (h : (node, others) ∈ Expr.groupingsAll trees) {env : Env} :
    Expr.evalAll env others = Expr.evalAll env trees := by
  match trees with
  | [] => cases h
  | tree :: rest =>
    rcases List.mem_append.1 h with h | h
    · obtain ⟨tree', htree, rfl⟩ := mem_within.1 h
      have hequivalent := equivalent_of_withSelf htree tree.equivalent_of_below
      rw [evalAll, hequivalent.eval_eq, evalAll]
    · obtain ⟨rest', hrest, rfl⟩ := mem_within.1 h
      simp only [evalAll, Expr.evalAll_of_groupings rest hrest]

end

namespace Expr

variable {node other tree : Expr}

/-- Grouping a node of an expression changes nothing. -/
theorem equivalent_of_groupings (h : (node, other) ∈ tree.groupings) : tree.Equivalent other :=
  equivalent_of_withSelf h tree.equivalent_of_below

theorem equivalent_of_written {statement : Span}
    (h : (node, other) ∈ withWritten statement tree tree.groupingsBelow) : tree.Equivalent other :=
  equivalent_of_groupings (withWritten_subset statement tree _ h)

theorem Equivalent.read_eq (h : tree.Equivalent other) : Exec.read other.eval = Exec.read tree.eval := by
  have heval : (fun env ↦ other.eval env) = fun env ↦ tree.eval env := funext h.eval_eq
  exact congrArg Exec.read heval

theorem Equivalent.evalBound_eq (h : tree.Equivalent other) (env : Env) (role : String) :
    other.evalBound env role = tree.evalBound env role := by
  rw [evalBound, h.eval_eq, h.span_eq, evalBound]

theorem evalRounds_of_groupings? {step other : Option Expr} (h : (node, other) ∈ groupings? step)
    (env : Env) (initSpan : Span) (init limit : Expr) :
    evalRounds env initSpan init limit other = evalRounds env initSpan init limit step := by
  cases step with
  | none => cases h
  | some step =>
    obtain ⟨step', hstep, rfl⟩ := mem_within.1 h
    have hequivalent := equivalent_of_groupings hstep
    simp only [evalRounds, hequivalent.evalBound_eq, Option.map_some, hequivalent.span_eq]

end Expr

/-! ## Statements -/

mutual

theorem Stmt.exec_of_groupings (budget : Nat) (tree : Stmt) {node : Expr} {other : Stmt}
    (h : (node, other) ∈ tree.groupings) : other.exec budget = tree.exec budget := by
  match tree with
  | .assign _ isLocal name value =>
    obtain ⟨value', hvalue, rfl⟩ := mem_within.1 h
    rw [exec, (Expr.equivalent_of_written hvalue).read_eq, exec]
  | .block _ body =>
    obtain ⟨body', hbody, rfl⟩ := mem_within.1 h
    rw [exec, Stmt.execAll_of_groupings budget body hbody, exec]
  | .expr _ value =>
    obtain ⟨value', hvalue, rfl⟩ := mem_within.1 h
    rw [exec, (Expr.equivalent_of_groupings hvalue).read_eq, exec]
  | .forLoop _ initSpan name init limit step body =>
    simp only [groupings, List.mem_append, or_assoc] at h
    rcases h with h | h | h | h
    · obtain ⟨init', hinit, rfl⟩ := mem_within.1 h
      simp only [exec, Expr.evalRounds, (Expr.equivalent_of_groupings hinit).evalBound_eq]
    · obtain ⟨limit', hlimit, rfl⟩ := mem_within.1 h
      simp only [exec, Expr.evalRounds, (Expr.equivalent_of_groupings hlimit).evalBound_eq]
    · obtain ⟨step', hstep, rfl⟩ := mem_within.1 h
      simp only [exec, Expr.evalRounds_of_groupings? hstep]
    · obtain ⟨body', hbody, rfl⟩ := mem_within.1 h
      rw [exec, Stmt.execAll_of_groupings budget body hbody, exec]
  | .ifElse _ condition thenBody elseBody =>
    simp only [groupings, List.mem_append, or_assoc] at h
    rcases h with h | h | h
    · obtain ⟨condition', hcondition, rfl⟩ := mem_within.1 h
      rw [exec, (Expr.equivalent_of_groupings hcondition).read_eq, exec]
    · obtain ⟨thenBody', hthen, rfl⟩ := mem_within.1 h
      rw [exec, Stmt.execAll_of_groupings budget thenBody hthen, exec]
    · obtain ⟨elseBody', helse, rfl⟩ := mem_within.1 h
      rw [exec, Stmt.execAll_of_groupings budget elseBody helse, exec]
  | .return_ _ value =>
    obtain ⟨value', hvalue, rfl⟩ := mem_within.1 h
    rw [exec, (Expr.equivalent_of_written hvalue).read_eq, exec]
  | .whileLoop _ condition body =>
    rcases List.mem_append.1 h with h | h
    · obtain ⟨condition', hcondition, rfl⟩ := mem_within.1 h
      rw [exec, (Expr.equivalent_of_groupings hcondition).read_eq, exec]
    · obtain ⟨body', hbody, rfl⟩ := mem_within.1 h
      rw [exec, Stmt.execAll_of_groupings budget body hbody, exec]

theorem Stmt.execAll_of_groupings (budget : Nat) (trees : List Stmt) {node : Expr}
    {others : List Stmt} (h : (node, others) ∈ Stmt.groupingsAll trees) :
    Stmt.execAll budget others = Stmt.execAll budget trees := by
  match trees with
  | [] => cases h
  | tree :: rest =>
    rcases List.mem_append.1 h with h | h
    · obtain ⟨tree', htree, rfl⟩ := mem_within.1 h
      rw [execAll, Stmt.exec_of_groupings budget tree htree, execAll]
    · obtain ⟨rest', hrest, rfl⟩ := mem_within.1 h
      rw [execAll, Stmt.execAll_of_groupings budget rest hrest, execAll]

end

/-! ## Programs -/

namespace Program

variable {node : Expr}

/-- Grouping makes no statement an expression that was none. -/
theorem exists_value_of_groupings {tree : Stmt} {span : Span} {value : Expr}
    (h : (node, .expr span value) ∈ tree.groupings) :
    ∃ value', tree = .expr span value' ∧ (node, value) ∈ value'.groupings := by
  cases tree with
  | expr span value' =>
    obtain ⟨_, hvalue, ⟨⟩⟩ := mem_within.1 h
    exact ⟨value', rfl, hvalue⟩
  | _ => simp [Stmt.groupings] at h

theorem exec_singleton_of_groupings (budget : Nat) {tree other : Stmt}
    (h : (node, other) ∈ tree.groupings) : exec budget [other] = exec budget [tree] := by
  -- only an expression is asked for its value
  by_cases hexpr : ∃ span value, tree = .expr span value
  · obtain ⟨span, value, rfl⟩ := hexpr
    obtain ⟨value', hvalue, rfl⟩ := mem_within.1 h
    rw [exec, (Expr.equivalent_of_groupings hvalue).read_eq, exec]
  · have hother : ¬∃ span value, other = .expr span value := by
      rintro ⟨span, value, rfl⟩
      obtain ⟨value', rfl, -⟩ := exists_value_of_groupings h
      exact hexpr ⟨_, _, rfl⟩
    rw [exec.eq_3 _ _ _ fun span value htree _ ↦ hexpr ⟨span, value, htree⟩,
      exec.eq_3 _ _ _ fun span value htree _ ↦ hother ⟨span, value, htree⟩,
      Stmt.exec_of_groupings budget tree h]

theorem length_of_groupings {program other : Program} (h : (node, other) ∈ program.groupings) :
    other.length = program.length := by
  induction program generalizing other with
  | nil => cases h
  | cons tree rest ih =>
    rcases List.mem_append.1 h with h | h
    · obtain ⟨tree', -, rfl⟩ := mem_within.1 h
      rfl
    · obtain ⟨rest', hrest, rfl⟩ := mem_within.1 h
      exact congrArg Nat.succ (ih hrest)

theorem exec_of_groupings (budget : Nat) {program other : Program}
    (h : (node, other) ∈ program.groupings) : exec budget other = exec budget program := by
  induction program generalizing other with
  | nil => cases h
  | cons tree rest ih =>
    rcases List.mem_append.1 h with h | h
    · obtain ⟨tree', htree, rfl⟩ := mem_within.1 h
      by_cases hrest : rest = []
      · subst hrest
        exact exec_singleton_of_groupings budget htree
      · rw [exec_cons hrest, exec_cons hrest, Stmt.exec_of_groupings budget tree htree]
    · obtain ⟨rest', hrest, rfl⟩ := mem_within.1 h
      have hlength := length_of_groupings hrest
      have hne : rest ≠ [] := by
        rintro rfl
        cases hrest
      have hne' : rest' ≠ [] := by
        rintro rfl
        exact hne (List.length_eq_zero_iff.1 hlength.symm)
      rw [exec_cons hne, exec_cons hne', ih hrest]

/-- A program runs the same with a node grouped. -/
theorem run_of_groupings (budget : Nat) {program other : Program}
    (h : (node, other) ∈ program.groupings) : run budget other = run budget program := by
  funext session
  rw [run, run, exec_of_groupings budget h, length_of_groupings h]

end Program

end ScopeScript
