import ScopeScript.Proofs.Grammar.Join
import ScopeScript.Proofs.Grammar.Layout
import ScopeScript.Proofs.Grammar.Nesting
import ScopeScript.Proofs.Lexical.Slices

/-!
# Statements that are read alone

The spans of a program are nested as its nodes are, and the text of a statement is a program by itself:
read alone it is this one statement, with spans that begin with the text. Behind it then stands the end of
the text and no longer what has closed its block, but either may stand in the place of a semicolon.
-/

namespace ScopeScript

open Grammar Lexical

namespace Grammar

/-- A statement is a program, whatever stood behind it. -/
theorem Derives.isProgram {next : Kind} {tree : Stmt} {row : List Token}
    (h : Derives (.statement next tree) row) : IsProgram row [tree] := by
  have halone : Derives (.statement (leading .eof []) tree) row := by
    apply h.statement_next
    intro _ _ _ _ hending
    exact hending.of_closes fun _ ↦ .inr (.inr rfl)
  have hblock : Derives (.block .eof [tree]) (row ++ []) := .moreStatements halone .noStatement
  rwa [List.append_nil] at hblock

theorem IsProgram.exists_of_moved {row row' : List Token} {program : Program} {bytes : Nat}
    (h : IsProgram row program)
    (hrows : row'.map (Token.moved (fun _ ↦ .first) bytes) =
      row.map (Token.moved (fun _ ↦ .first) 0)) :
    ∃ other, IsProgram row' other ∧ other.shift bytes = program := by
  have hunplaced : row.map Token.unplaced = row'.map Token.unplaced := by
    have hmap := congrArg (List.map Token.unplaced) hrows
    rw [List.map_map, List.map_map] at hmap
    exact hmap.symm
  obtain ⟨other, hother, -⟩ := h.exists_of_unplaced hunplaced
  refine ⟨other, hother, ?_⟩
  have hmoved := hother.moved (fun _ ↦ .first) bytes
  rw [hrows] at hmoved
  calc
    other.shift bytes = program.shift 0 := hmoved.unique (h.moved _ 0)
    _ = program := program.map_map_id

end Grammar

namespace Program

/-- The statement is what its text is when it is read alone, but for the place of the text. -/
def ReadsAlone (source : String) (tree : Stmt) : Prop :=
  ∃ text alone, tree.span.Selects source.toList text ∧ ofString (.ofList text) = .ok [alone] ∧
    alone.map id (Span.shift tree.span.start) = tree

theorem readsAlone_of_derives {source : String} {front row back : List Token} {next : Kind}
    {tree : Stmt} (hscan : scan source = .ok (front ++ (row ++ back)))
    (hrow : ∀ token ∈ row, token.kind ≠ .eof) (h : Derives (.statement next tree) row) :
    ReadsAlone source tree := by
  have hspan : tree.span = extent row := h.isSpanned.2
  obtain ⟨text, row', mark, htext, hscan', hrows⟩ := scan_stretch hscan h.statement_ne_nil hrow
  obtain ⟨other, hother, hshift⟩ := h.isProgram.exists_of_moved hrows
  obtain ⟨alone, rfl, halone⟩ := List.map_eq_singleton_iff.1 hshift
  obtain ⟨hkinds, hmark⟩ := kind_of_scan hscan'
  refine ⟨text, alone, hspan ▸ htext, ?_, hspan ▸ halone⟩
  exact ofString_eq_ok_iff.2 ⟨row', mark, hscan', hkinds, hmark, hother⟩

/-- The statements at the top of a program come one behind the other. The span of every node begins where
a token begins or ends and ends where one ends, and it holds the spans of the children one behind the other.
Every statement is read alone. -/
theorem ofString_nests {source : String} {program : Program} (h : ofString source = .ok program) :
    ∃ tokens, scan source = .ok tokens ∧
      (program.Pairwise fun first second ↦ first.span.stop ≤ second.span.start) ∧
      (∀ node, program.HasNode node → Bounded tokens node.span ∧
        (∀ child ∈ node.children, node.span.start ≤ child.span.start ∧
          child.span.stop ≤ node.span.stop) ∧
        node.children.Pairwise fun first second ↦ first.span.stop ≤ second.span.start) ∧
      ∀ tree, program.HasNode (.stmt tree) → ReadsAlone source tree := by
  obtain ⟨body, mark, hscan, hbody, -, hprogram⟩ := ofString_eq_ok_iff.1 h
  have horder := inOrder_of_divides ((scan_eq_iff.1 hscan).tiles rfl).divides
  refine ⟨body ++ [mark], hscan, pairwise_of_isProgram hprogram horder, ?_, ?_⟩
  · intro node hnode
    obtain ⟨hbounded, hnests⟩ := hnode.nests hprogram horder
    exact ⟨hbounded.mono (List.subset_append_left body [mark]), hnests⟩
  · intro tree htree
    obtain ⟨row, next, ⟨front, back, hrow⟩, hderives⟩ := htree.exists_statement hprogram
    rw [← hrow, List.append_assoc, List.append_assoc] at hscan
    apply readsAlone_of_derives hscan _ hderives
    intro token hmem
    apply hbody
    rw [← hrow]
    simp [hmem]

/-- In `f = function() local b end`, a declaration that lacks its semicolon and its value is read alone, and
its value stands at its end. -/
theorem ofString_nests_declaration :
    ReadsAlone "f = function() local b end"
      (.assign ⟨15, 22⟩ true "b" (.literal ⟨22, 22⟩ .nil)) := by
  have h : ofString "f = function() local b end" = .ok [.assign ⟨0, 26⟩ false "f"
      (.function ⟨4, 26⟩ none [] [.assign ⟨15, 22⟩ true "b" (.literal ⟨22, 22⟩ .nil)])] := by
    rw [ofString, scan_eq_upTo]
    rfl
  obtain ⟨-, -, -, -, halone⟩ := ofString_nests h
  exact halone _ (.under (.under (.here List.mem_cons_self) List.mem_cons_self) List.mem_cons_self)

end Program

end ScopeScript
