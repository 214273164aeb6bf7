import ScopeScript.Proofs.Lexical.Parentheses
import ScopeScript.Proofs.Lexical.Tokens
import ScopeScript.Proofs.Tree.Nodes

/-!
# How the nodes of a program lie in its tokens

Every node of a program stands for a row of its tokens, and the children of a node stand for rows inside
this one, one behind the other. The exception is a value that is not written, which stands at the end of a
token. Where the spans of the tokens come in order, so do those of the nodes.
-/

namespace ScopeScript

open Grammar

namespace Grammar

/-! ## Rows in order -/

/-- No token ends before it begins, and none begins before the ones in front of it have ended. -/
structure InOrder (row : List Token) : Prop where
  le : ∀ token ∈ row, token.span.start ≤ token.span.stop
  pairwise : row.Pairwise fun first second ↦ first.span.stop ≤ second.span.start

theorem inOrder_of_divides {source : List Char} {body : List Token} {mark : Token}
    (h : Lexical.Divides source (body ++ [mark])) : InOrder body := by
  constructor
  · intro token hmem
    obtain ⟨before, after, -, hspan⟩ := h.placed token (List.mem_append_left _ hmem)
    rw [hspan]
    simp
  · exact h.ordered.sublist (List.sublist_append_left body [mark])

theorem InOrder.of_infix {row part : List Token} (h : InOrder row) (hpart : part <:+: row) :
    InOrder part :=
  ⟨fun token hmem ↦ h.le token (hpart.subset hmem), h.pairwise.sublist hpart.sublist⟩

/-- The span begins where a token of the row begins or ends, and ends where one ends. -/
structure Bounded (row : List Token) (span : Span) : Prop where
  le : span.start ≤ span.stop
  start : ∃ token ∈ row, span.start = token.span.start ∨ span.start = token.span.stop
  stop : ∃ token ∈ row, span.stop = token.span.stop

theorem Bounded.mono {row part : List Token} {span : Span} (h : Bounded part span)
    (hpart : part ⊆ row) : Bounded row span where
  le := h.le
  start := h.start.imp fun _ ↦ And.imp_left (hpart ·)
  stop := h.stop.imp fun _ ↦ And.imp_left (hpart ·)

theorem exists_stop_of_ne_nil {row : List Token} (h : row ≠ []) :
    ∃ token ∈ row, (extent row).stop = token.span.stop := by
  rcases List.eq_nil_or_concat row with rfl | ⟨front, last, rfl⟩
  · exact absurd rfl h
  · exact ⟨last, by simp, List.concat_eq_append ▸ Lexical.stop_extent_concat front last⟩

theorem InOrder.start_le {row : List Token} (h : InOrder row) {token : Token} (hmem : token ∈ row) :
    (extent row).start ≤ token.span.start := by
  obtain ⟨first, rest, rfl⟩ := List.exists_cons_of_ne_nil (List.ne_nil_of_mem hmem)
  rcases List.mem_cons.1 hmem with rfl | hrest
  · exact Nat.le_refl _
  · exact Nat.le_trans (h.le first List.mem_cons_self) ((List.pairwise_cons.1 h.pairwise).1 token hrest)

theorem InOrder.le_stop {row : List Token} (h : InOrder row) {token : Token} (hmem : token ∈ row) :
    token.span.stop ≤ (extent row).stop := by
  rcases List.eq_nil_or_concat row with rfl | ⟨front, last, rfl⟩
  · cases hmem
  rw [List.concat_eq_append] at hmem h ⊢
  rw [Lexical.stop_extent_concat]
  rcases List.mem_append.1 hmem with hfront | hlast
  · have hle := (List.pairwise_append.1 h.pairwise).2.2 token hfront last List.mem_cons_self
    exact Nat.le_trans hle (h.le last (by simp))
  · exact Nat.le_of_eq (congrArg (·.span.stop) (List.mem_singleton.1 hlast))

/-- What is bounded by tokens of a row lies within the extent of the row. -/
theorem Bounded.within {row : List Token} {span : Span} (h : Bounded row span) (hrow : InOrder row) :
    (extent row).start ≤ span.start ∧ span.stop ≤ (extent row).stop := by
  obtain ⟨-, ⟨token, htoken, hstart⟩, other, hother, hstop⟩ := h
  refine ⟨?_, hstop ▸ hrow.le_stop hother⟩
  have hle := hrow.start_le htoken
  rcases hstart with hstart | hstart
  · rwa [hstart]
  · rw [hstart]
    exact Nat.le_trans hle (hrow.le token htoken)

theorem InOrder.bounded_extent {row : List Token} (h : InOrder row) (hrow : row ≠ []) :
    Bounded row (extent row) := by
  obtain ⟨first, rest, rfl⟩ := List.exists_cons_of_ne_nil hrow
  obtain ⟨last, hlast, hstop⟩ := exists_stop_of_ne_nil hrow
  have hle := Nat.le_trans (h.le first List.mem_cons_self) (h.le_stop List.mem_cons_self)
  exact ⟨hle, ⟨first, List.mem_cons_self, .inl rfl⟩, last, hlast, hstop⟩

end Grammar

/-! ## Rows of nodes -/

namespace Node

/-- The tokens are a phrase that stands for the node. -/
inductive IsPhrase : Node → List Token → Prop
  | expr {tree : Expr} {row : List Token} (h : Derives (.expression tree) row) :
      IsPhrase (.expr tree) row
  | stmt {next : Kind} {tree : Stmt} {row : List Token} (h : Derives (.statement next tree) row) :
      IsPhrase (.stmt tree) row
  | binding {name sign : Token} {value : Expr} {row : List Token} (hname : name.kind = .identifier)
      (hsign : sign.kind = .symbol .assign) (h : Derives (.expression value) row) :
      IsPhrase (.binding (extent (name :: sign :: row)) name.lexeme value) (name :: sign :: row)

/-- The node stands for the row as a phrase, or for nothing at the end of a token. -/
inductive Covers : Node → List Token → Prop
  | phrase {node : Node} {row : List Token} (h : node.IsPhrase row) : Covers node row
  | implicit (token : Token) : Covers (.expr (.literal (.point token.span.stop) .nil)) [token]

theorem IsPhrase.ne_nil {node : Node} {row : List Token} (h : node.IsPhrase row) : row ≠ [] := by
  cases h with
  | expr h => exact h.expression_ne_nil
  | stmt h => exact h.statement_ne_nil
  | binding => exact List.cons_ne_nil _ _

theorem IsPhrase.span_eq {node : Node} {row : List Token} (h : node.IsPhrase row) :
    node.span = extent row := by
  cases h with
  | expr h => exact h.expression_span
  | stmt h => exact h.isSpanned.2
  | binding => rfl

theorem Covers.bounded {node : Node} {row : List Token} (h : node.Covers row) (hrow : InOrder row) :
    Bounded row node.span := by
  cases h with
  | phrase h =>
    rw [h.span_eq]
    exact hrow.bounded_extent h.ne_nil
  | implicit token =>
    have hmem : token ∈ [token] := List.mem_cons_self
    exact ⟨Nat.le_refl _, ⟨token, hmem, .inr rfl⟩, token, hmem, rfl⟩

theorem covers_expr {precedence : Nat} {tree : Expr} {row : List Token}
    (h : Derives (.binary precedence tree) row) (hprecedence : precedence ≤ 7) :
    (Node.expr tree).Covers row :=
  .phrase (.expr (h.loosen (Nat.zero_le precedence) hprecedence))

/-- The nodes stand for parts of the row, in this order. -/
inductive Arranged : List Token → List Node → Prop
  | nil {row : List Token} : Arranged row []
  | cons {gap part rest : List Token} {node : Node} {nodes : List Node} (hnode : node.Covers part)
      (hrest : Arranged rest nodes) : Arranged (gap ++ (part ++ rest)) (node :: nodes)

namespace Arranged

variable {row row' part : List Token} {node : Node} {nodes nodes' : List Node}

theorem one (h : node.Covers part) : Arranged part [node] := by
  have harranged : Arranged ([] ++ (part ++ [])) [node] := .cons h .nil
  rwa [List.nil_append, List.append_nil] at harranged

/-- Tokens may stand in front. -/
theorem behind (tokens : List Token) (h : Arranged row nodes) : Arranged (tokens ++ row) nodes := by
  cases h with
  | nil => exact .nil
  | @cons gap _ _ _ _ hnode hrest =>
    rw [← List.append_assoc]
    exact .cons hnode hrest

theorem append (h : Arranged row nodes) (h' : Arranged row' nodes') :
    Arranged (row ++ row') (nodes ++ nodes') := by
  induction h with
  | nil => exact h'.behind _
  | @cons gap _ _ _ _ hnode _ ih =>
    rw [List.append_assoc, List.append_assoc]
    exact .cons hnode ih

/-- Tokens may stand behind. -/
theorem before (tokens : List Token) (h : Arranged row nodes) : Arranged (row ++ tokens) nodes := by
  have happended : Arranged (row ++ tokens) (nodes ++ []) := h.append .nil
  rwa [List.append_nil] at happended

theorem exists_covers (h : Arranged row nodes) (hmem : node ∈ nodes) :
    ∃ part, part <:+: row ∧ node.Covers part := by
  induction h with
  | nil => cases hmem
  | @cons gap part rest _ _ hnode _ ih =>
    rcases List.mem_cons.1 hmem with rfl | hmem
    · exact ⟨part, ⟨gap, rest, List.append_assoc _ _ _⟩, hnode⟩
    · obtain ⟨other, hother, hcovers⟩ := ih hmem
      have hsuffix : rest <:+ gap ++ (part ++ rest) := ⟨gap ++ part, List.append_assoc _ _ _⟩
      exact ⟨other, hother.trans hsuffix.isInfix, hcovers⟩

/-- Nodes that stand for parts of a row one behind the other do not overlap. -/
theorem pairwise (h : Arranged row nodes) (hrow : InOrder row) :
    nodes.Pairwise fun first second ↦ first.span.stop ≤ second.span.start := by
  induction h with
  | nil => exact .nil
  | @cons gap part rest node nodes hnode hrest ih =>
    have hinner : InOrder (part ++ rest) := hrow.of_infix (List.suffix_append gap _).isInfix
    have hpart := hinner.of_infix (List.prefix_append part rest).isInfix
    have hbehind := hinner.of_infix (List.suffix_append part rest).isInfix
    refine List.pairwise_cons.2 ⟨fun other hother ↦ ?_, ih hbehind⟩
    obtain ⟨place, hplace, hcovers⟩ := hrest.exists_covers hother
    obtain ⟨last, hlast, hstop⟩ := (hnode.bounded hpart).stop
    obtain ⟨token, htoken, hstart⟩ := (hcovers.bounded (hbehind.of_infix hplace)).start
    have hle : last.span.stop ≤ token.span.start :=
      (List.pairwise_append.1 hinner.pairwise).2.2 last hlast token (hplace.subset htoken)
    rw [hstop]
    rcases hstart with hstart | hstart
    · rwa [hstart]
    · rw [hstart]
      exact Nat.le_trans hle (hbehind.le token (hplace.subset htoken))

end Arranged

end Node

/-! ## Phrases -/

namespace Grammar

/-- The nodes directly below what a phrase stands for. -/
def Form.parts : Form → List Node
  | .primary tree | .unary tree | .binary _ tree => (Node.expr tree).children
  | .items trees | .arguments trees => trees.map .expr
  | .functionBody _ body => body.map .stmt
  | .statement _ tree => (Node.stmt tree).children
  | .block _ trees => trees.map .stmt

/-- The parts of a phrase stand for parts of its row. -/
theorem Derives.arranged {form : Form} {row : List Token} (h : Derives form row) :
    Node.Arranged row form.parts := by
  induction h with
  | literal | name | noArguments | noStatement => exact .nil
  | @call token _ _ _ _ ih => exact ih.behind [token]
  | @group opening closing _ _ _ hinner =>
    exact ((Node.Arranged.one (Node.covers_expr hinner (by decide))).before [closing]).behind [opening]
  | @function keyword heading _ _ _ _ _ _ _ ih => exact ih.behind (keyword :: heading)
  | @operator token _ _ _ _ hoperand =>
    have hbinary : Derives (.binary 7 _) _ := .ofUnary rfl hoperand
    exact (Node.Arranged.one (Node.covers_expr hbinary (Nat.le_refl 7))).behind [token]
  | ofPrimary _ ih | ofUnary _ _ ih | ofTighter _ _ ih => exact ih
  | @join precedence token _ _ operator _ _ hprecedence hleft _ hright =>
    have hlt : precedence < 7 := hprecedence ▸ operator.precedence_lt
    have hothers := (Node.Arranged.one (Node.covers_expr hright hlt)).behind [token]
    exact (Node.Arranged.one (Node.covers_expr hleft (Nat.le_of_lt hlt))).append hothers
  | lastItem htree => exact .one (Node.covers_expr htree (by decide))
  | @moreItems comma _ _ _ _ htree _ _ _ ih =>
    exact (Node.Arranged.one (Node.covers_expr htree (by decide))).append (ih.behind [comma])
  | @someArguments opening closing _ _ _ _ _ ih => exact (ih.before [closing]).behind [opening]
  | @functionBody keyword tokens _ _ _ _ _ _ ih => exact (ih.before [keyword]).behind tokens
  | @declaration _ keyword name ending =>
    exact ((Node.Arranged.one (.implicit name)).before ending).behind [keyword]
  | @definition _ keyword name sign _ ending _ _ _ _ hvalue =>
    exact ((Node.Arranged.one (Node.covers_expr hvalue (by decide))).before ending).behind
      [keyword, name, sign]
  | @assignment _ name sign _ ending _ _ _ hvalue =>
    exact ((Node.Arranged.one (Node.covers_expr hvalue (by decide))).before ending).behind [name, sign]
  | @returnNothing _ keyword ending => exact (Node.Arranged.one (.implicit keyword)).before ending
  | @returnValue _ keyword _ ending _ _ hvalue =>
    exact ((Node.Arranged.one (Node.covers_expr hvalue (by decide))).before ending).behind [keyword]
  | @whileLoop _ keyword opening closing _ _ ending _ _ _ hcondition _ _ _ _ _ ih =>
    have hbody := (ih.before (closing :: ending)).behind [opening]
    exact ((Node.Arranged.one (Node.covers_expr hcondition (by decide))).append hbody).behind [keyword]
  | @forLoop _ keyword name sign comma opening closing first last others ending init limit body _
      hname hsign hinit _ hlimit _ _ _ _ _ _ ih =>
    have hbinding : Node.Arranged (name :: sign :: first) [_] := .one (.phrase (.binding hname hsign hinit))
    have hbounds := (Node.Arranged.one (Node.covers_expr hlimit (by decide))).behind [comma]
    have hbody := (ih.before (closing :: ending)).behind [opening]
    exact (hbinding.append (hbounds.append hbody)).behind [keyword]
  | @forStepLoop _ keyword name sign comma comma' opening closing first last between others ending init
      limit step body _ hname hsign hinit _ hlimit _ hstep _ _ _ _ _ _ _ ih =>
    have hbinding : Node.Arranged (name :: sign :: first) [_] := .one (.phrase (.binding hname hsign hinit))
    have hlimit := (Node.Arranged.one (Node.covers_expr hlimit (by decide))).behind [comma]
    have hstep := (Node.Arranged.one (Node.covers_expr hstep (by decide))).behind [comma']
    have hbody := (ih.before (closing :: ending)).behind [opening]
    have hrest := hbinding.append (hlimit.append (hstep.append hbody))
    exact hrest.behind [keyword]
  | @functionDefinition _ keyword name tokens ending _ _ hkeyword hname hbody =>
    have hvalue := Derives.function hkeyword (.named hname) hbody
    have hcovers := Node.covers_expr (hvalue.binary_of_primary (Nat.zero_le 7)) (by decide)
    exact (Node.Arranged.one hcovers).before ending
  | @ifElse _ keyword opening middle closing tokens thens elses ending _ _ _ _ hcondition _ _ _ _ _ _
      _ ih ih' =>
    have hbodies := (ih.append ((ih'.before (closing :: ending)).behind [middle])).behind [opening]
    exact ((Node.Arranged.one (Node.covers_expr hcondition (by decide))).append hbodies).behind [keyword]
  | @blockStatement _ keyword closing _ ending _ _ _ _ _ ih =>
    exact (ih.before (closing :: ending)).behind [keyword]
  | @expressionStatement _ _ ending _ hvalue =>
    exact (Node.Arranged.one (Node.covers_expr hvalue (by decide))).before ending
  | moreStatements htree _ _ ih => exact (Node.Arranged.one (.phrase (.stmt htree))).append ih

end Grammar

theorem Node.IsPhrase.arranged {node : Node} {row : List Token} (h : node.IsPhrase row) :
    Node.Arranged row node.children := by
  cases h with
  | expr h => exact h.arranged
  | stmt h => exact h.arranged
  | @binding name sign _ _ _ _ h =>
    exact (Node.Arranged.one (Node.covers_expr h (by decide))).behind [name, sign]

/-- What stands for a row has its children in this row. -/
theorem Node.Covers.arranged {node : Node} {row : List Token} (h : node.Covers row) :
    Node.Arranged row node.children := by
  cases h with
  | phrase h => exact h.arranged
  | implicit => exact .nil

/-! ## Programs -/

namespace Program

variable {program : Program} {body : List Token} {node : Node}

theorem HasNode.exists_covers (h : program.HasNode node) (hprogram : IsProgram body program) :
    ∃ row, row <:+: body ∧ node.Covers row := by
  induction h with
  | here h => exact (Derives.arranged hprogram).exists_covers h
  | under _ h ih =>
    obtain ⟨row, hrow, hcovers⟩ := ih
    obtain ⟨part, hpart, hchild⟩ := hcovers.arranged.exists_covers h
    exact ⟨part, hpart.trans hrow, hchild⟩

/-- A statement always stands for a phrase. -/
theorem HasNode.exists_statement {tree : Stmt} (h : program.HasNode (.stmt tree))
    (hprogram : IsProgram body program) :
    ∃ row next, row <:+: body ∧ Derives (.statement next tree) row := by
  obtain ⟨row, hrow, hcovers⟩ := h.exists_covers hprogram
  cases hcovers with
  | phrase hphrase =>
    cases hphrase with
    | stmt htree => exact ⟨row, _, hrow, htree⟩

theorem pairwise_of_isProgram (hprogram : IsProgram body program) (hbody : InOrder body) :
    program.Pairwise fun first second ↦ first.span.stop ≤ second.span.start :=
  List.pairwise_map.1 ((Derives.arranged hprogram).pairwise hbody)

/-- The children of a node lie within its span, one behind the other. -/
theorem HasNode.nests (h : program.HasNode node) (hprogram : IsProgram body program)
    (hbody : InOrder body) :
    Bounded body node.span ∧
      (∀ child ∈ node.children, node.span.start ≤ child.span.start ∧
        child.span.stop ≤ node.span.stop) ∧
      node.children.Pairwise fun first second ↦ first.span.stop ≤ second.span.start := by
  obtain ⟨row, hrow, hcovers⟩ := h.exists_covers hprogram
  have horder := hbody.of_infix hrow
  refine ⟨(hcovers.bounded horder).mono hrow.subset, ?_, hcovers.arranged.pairwise horder⟩
  intro child hchild
  cases hcovers with
  | phrase hphrase =>
    obtain ⟨part, hpart, hplace⟩ := hphrase.arranged.exists_covers hchild
    rw [hphrase.span_eq]
    exact ((hplace.bounded (horder.of_infix hpart)).mono hpart.subset).within horder
  | implicit => cases hchild

end Program

end ScopeScript
