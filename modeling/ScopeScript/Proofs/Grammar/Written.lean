import ScopeScript.Proofs.Grammar.Nesting
import ScopeScript.Proofs.Tree.Grouping

/-!
# Values that are written

The `nil` of a declaration or a return without a value has no tokens, and the function of a definition
shares its first token with the statement. Where lexemes are not empty and stand one behind the other, no
other value of a statement is taken for one of these. So in a program that is read from a text, every
expression but these can be grouped.
-/

namespace ScopeScript

namespace Grammar

/-- The tokens are a statement with this value, which is not written as an expression. -/
inductive OmitsValue : List Token → Expr → Prop
  /-- `local NAME TERMINATOR` -/
  | declaration {next : Kind} {keyword name : Token} {ending : List Token}
      (hkeyword : keyword.kind = .keyword .local_) (hname : name.kind = .identifier)
      (hending : Terminator next ending) :
      OmitsValue (keyword :: name :: ending) (.literal (.point name.span.stop) .nil)
  /-- `return TERMINATOR` -/
  | returnNothing {next : Kind} {keyword : Token} {ending : List Token}
      (hkeyword : keyword.kind = .keyword .return_) (hending : Terminator next ending) :
      OmitsValue (keyword :: ending) (.literal (.point keyword.span.stop) .nil)
  /-- `function NAME BODY [;]` -/
  | functionDefinition {keyword name : Token} {tokens ending : List Token} {parameters : List String}
      {body : List Stmt} (hkeyword : keyword.kind = .keyword .function)
      (hname : name.kind = .identifier) (hbody : Derives (.functionBody parameters body) tokens)
      (hending : OptionalTerminator ending) :
      OmitsValue (keyword :: name :: (tokens ++ ending))
        (.function (extent (keyword :: name :: tokens)) (some name.lexeme) parameters body)

variable {next : Kind} {row : List Token}

/-- Every expression behind the first token of a statement is written. -/
theorem Derives.isWrittenIn {first : Token} {tokens others : List Token} {value : Expr}
    (h : Derives (.expression value) tokens) (htokens : tokens <:+: others)
    (hrow : InOrder (first :: others))
    (hnonempty : ∀ token ∈ first :: others, token.span.start < token.span.stop) :
    value.isWrittenIn (extent (first :: others)) = true := by
  have hinner : InOrder tokens := hrow.of_infix (htokens.trans (List.suffix_cons first others).isInfix)
  obtain ⟨token, rest, rfl⟩ := List.exists_cons_of_ne_nil h.expression_ne_nil
  have hmem : token ∈ others := htokens.subset List.mem_cons_self
  have hspan : value.span = extent (token :: rest) := h.expression_span
  have hstart : first.span.start < (extent (token :: rest)).start :=
    calc
      first.span.start < first.span.stop := hnonempty first List.mem_cons_self
      _ ≤ token.span.start := (List.pairwise_cons.1 hrow.pairwise).1 token hmem
  have hstop : (extent (token :: rest)).start < (extent (token :: rest)).stop :=
    calc
      token.span.start < token.span.stop := hnonempty token (List.mem_cons_of_mem first hmem)
      _ ≤ (extent (token :: rest)).stop := hinner.le_stop List.mem_cons_self
  -- only an empty `nil` or a function where the statement begins would be taken for unwritten
  cases value with
  | literal span value =>
    cases value with
    | nil =>
      obtain rfl : span = _ := hspan
      exact decide_eq_true (Nat.ne_of_lt hstop)
    | _ => rfl
  | function span name parameters body =>
    cases name with
    | none => rfl
    | some name =>
      obtain rfl : span = _ := hspan
      exact decide_eq_true (Nat.ne_of_gt hstart)
  | _ => rfl

/-- A statement that does not write its value as an expression is a declaration or a return without one, or
the definition of a function. -/
theorem Derives.omitsValue {tree : Stmt} {value : Expr} (h : Derives (.statement next tree) row)
    (hrow : InOrder row) (hnonempty : ∀ token ∈ row, token.span.start < token.span.stop)
    (homits : (Node.stmt tree).omitsValue = true) (hvalue : .expr value ∈ (Node.stmt tree).children) :
    OmitsValue row value := by
  cases h with
  | declaration hkeyword hname hending =>
    obtain rfl : value = _ := by simpa [Node.children] using hvalue
    exact .declaration hkeyword hname hending
  | returnNothing hkeyword hending =>
    obtain rfl : value = _ := by simpa [Node.children] using hvalue
    exact .returnNothing hkeyword hending
  | functionDefinition hkeyword hname hbody hending =>
    obtain rfl : value = _ := by simpa [Node.children] using hvalue
    exact .functionDefinition hkeyword hname hbody hending
  | @definition _ keyword name sign tokens ending _ hkeyword hname hsign hwritten hending =>
    have hinfix : tokens <:+: name :: sign :: (tokens ++ ending) := ⟨[name, sign], ending, by simp⟩
    rw [Node.omitsValue, hwritten.isWrittenIn hinfix hrow hnonempty] at homits
    cases homits
  | @assignment _ name sign tokens ending _ hname hsign hwritten hending =>
    have hinfix : tokens <:+: sign :: (tokens ++ ending) := ⟨[sign], ending, by simp⟩
    rw [Node.omitsValue, hwritten.isWrittenIn hinfix hrow hnonempty] at homits
    cases homits
  | @returnValue _ keyword tokens ending _ hkeyword hwritten hending =>
    have hinfix : tokens <:+: tokens ++ ending := ⟨[], ending, rfl⟩
    rw [Node.omitsValue, hwritten.isWrittenIn hinfix hrow hnonempty] at homits
    cases homits
  | _ => cases homits

end Grammar

namespace Program

open Grammar

variable {program : Program} {body : List Token} {node : Expr}

/-- The node is the value of a statement in the program, and is not written as an expression among the
tokens of this statement. -/
def IsUnwritten (program : Program) (tokens : List Token) (node : Expr) : Prop :=
  ∃ tree row next, program.HasNode (.stmt tree) ∧ .expr node ∈ (Node.stmt tree).children ∧
    row <:+: tokens ∧ Derives (.statement next tree) row ∧ OmitsValue row node

/-- Every expression in a program can be grouped if it is written. -/
theorem HasNode.groups_or_isUnwritten (h : program.HasNode (.expr node))
    (hprogram : IsProgram body program) (hbody : InOrder body)
    (hnonempty : ∀ token ∈ body, token.span.start < token.span.stop) :
    Groups program.groupings node ∨ program.IsUnwritten body node := by
  refine h.groups_or_omitsValue.imp_right ?_
  rintro ⟨parent, hparent, hnode, homits⟩
  cases parent with
  | expr | binding => cases homits
  | stmt tree =>
    obtain ⟨row, next, hrow, htree⟩ := hparent.exists_statement hprogram
    exact ⟨tree, row, next, hparent, hnode, hrow, htree, htree.omitsValue (hbody.of_infix hrow)
      (fun token hmem ↦ hnonempty token (hrow.subset hmem)) homits hnode⟩

end Program

end ScopeScript
