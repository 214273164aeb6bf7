import ScopeScript.Proofs.Eval.Grouping
import ScopeScript.Proofs.Eval.Layout
import ScopeScript.Proofs.Grammar.Layout
import ScopeScript.Proofs.Grammar.Parentheses
import ScopeScript.Proofs.Grammar.Written
import ScopeScript.Proofs.Lexical.Parentheses

/-!
# Parentheses around an expression do not matter

The span of an expression is exactly the text that parentheses may enclose. A text with parentheses
there is read as the same program, with the expression in a group; wherever the expression stands, it
is not taken for something else. And it runs like the text without them. There is such a text for every
expression of a program but those that are not written.
-/

namespace ScopeScript

open Grammar

/-- Parentheses around the tokens of a span are scanned where the text of the span ends and begins. -/
theorem scan_parenthesize_of_encloses {source : String} {span : Span} {body row : List Token}
    {mark : Token} (hscan : scan source = .ok (body ++ [mark])) (h : Encloses span body row) :
    ∃ body' mark', scan (parenthesize span source) = .ok (body' ++ [mark']) ∧
      row.map Token.unplaced = body'.map Token.unplaced := by
  cases h with
  | @intro front middle hmiddle back =>
    obtain ⟨hbody, -⟩ := kind_of_scan hscan
    have hkinds : ∀ token ∈ middle, token.kind ≠ .eof :=
      fun token htoken ↦ hbody token (by simp [htoken])
    rw [List.append_assoc, List.append_assoc] at hscan
    obtain ⟨tokens, hscan', htokens⟩ := scan_parenthesize hscan hmiddle hkinds
    have hrow : tokens.map Token.unplaced = (front ++ Token.plain (.symbol .leftParen) ::
        (middle ++ Token.plain (.symbol .rightParen) :: back) ++ [mark]).map Token.unplaced := by
      rw [htokens]
      simp
    generalize front ++ Token.plain (.symbol .leftParen) ::
      (middle ++ Token.plain (.symbol .rightParen) :: back) = row at hrow ⊢
    obtain ⟨body', mark', rfl⟩ := scan_eq_append_mark hscan'
    rw [List.map_append, List.map_append] at hrow
    exact ⟨body', mark', hscan', (List.append_inj' hrow rfl).1.symm⟩

namespace Program

variable {source : String} {program : Program}

/-- A text with parentheses around an expression is the program with this expression in a group. -/
theorem ofString_parenthesize (h : ofString source = .ok program) {node : Expr} {grouped : Program}
    (hnode : (node, grouped) ∈ program.groupings) :
    ∃ other, ofString (parenthesize node.span source) = .ok other ∧
      other.map Stmt.unplaced = grouped.map Stmt.unplaced := by
  obtain ⟨body, mark, hscan, -, -, hprogram⟩ := ofString_eq_ok_iff.1 h
  obtain ⟨row, other, hencloses, hother, hrow⟩ := hprogram.exists_grouped hnode
  obtain ⟨body', mark', hscan', hbody'⟩ := scan_parenthesize_of_encloses hscan hencloses
  obtain ⟨other', hother', hsame⟩ := hrow.exists_of_unplaced hbody'
  obtain ⟨hkinds, hmark⟩ := kind_of_scan hscan'
  exact ⟨other', ofString_eq_ok_iff.2 ⟨body', mark', hscan', hkinds, hmark, hother'⟩,
    hsame.trans hother⟩

/-- Parentheses around the text of an expression put this expression in a group and change nothing else:
whatever the session, both texts run to the same value and environment or into the same error, or
neither comes to an end within the budget. This is so for every expression of the program that is written. -/
theorem run_parenthesize_alike (h : ofString source = .ok program) :
    ∃ body mark, scan source = .ok (body ++ [mark]) ∧
      (∀ node, program.HasNode (.expr node) →
        Groups program.groupings node ∨ program.IsUnwritten body node) ∧
      ∀ node grouped, (node, grouped) ∈ program.groupings →
        ∃ other, ofString (parenthesize node.span source) = .ok other ∧
          other.map Stmt.unplaced = grouped.map Stmt.unplaced ∧
          ∀ budget session, (run budget program session).Alike (run budget other session) := by
  obtain ⟨body, mark, hscan, hbody, -, hprogram⟩ := ofString_eq_ok_iff.1 h
  have hdivides := ((scan_eq_iff.1 hscan).tiles rfl).divides
  refine ⟨body, mark, hscan, fun node hnode ↦ ?_, fun node grouped hnode ↦ ?_⟩
  · apply hnode.groups_or_isUnwritten hprogram (inOrder_of_divides hdivides)
    exact fun token hmem ↦ hdivides.nonempty token (List.mem_append_left [mark] hmem) (hbody token hmem)
  · obtain ⟨other, hother, hsame⟩ := ofString_parenthesize h hnode
    refine ⟨other, hother, hsame, fun budget session ↦ ?_⟩
    rw [← run_of_groupings budget hnode]
    exact run_alike hsame.symm budget session

/-- The left operand of a sum is enclosed. -/
theorem run_parenthesize_alike_sum :
    let sum : Program := [.expr ⟨0, 3⟩ (.binary ⟨0, 3⟩ (.arithmetic .add) (.name ⟨0, 1⟩ "a")
      (.name ⟨2, 3⟩ "b"))]
    ∃ other, ofString "(a)+b" = .ok other ∧
      other.map Stmt.unplaced =
        [.expr (.point 0) (.binary (.point 0) (.arithmetic .add)
          (.group (.point 0) (.name (.point 0) "a")) (.name (.point 0) "b"))] ∧
      ∀ budget session, (run budget sum session).Alike (run budget other session) := by
  intro sum
  have h : ofString "a+b" = .ok sum := by
    rw [ofString, scan_eq_upTo]
    rfl
  obtain ⟨-, -, -, -, hgrouped⟩ := run_parenthesize_alike h
  exact hgrouped (.name ⟨0, 1⟩ "a") _ (.tail _ (.head _))

end Program

end ScopeScript
