import ScopeScript.Proofs.Grammar.Basic
import ScopeScript.Proofs.Tree.Map

/-!
# Phrases that stand elsewhere

What is a phrase does not depend on where it stands. Its tokens may be moved further on in a text, whatever
their lines and columns become, and are the same phrase with a tree whose spans are moved as well.
-/

namespace ScopeScript

/-- The token so many bytes further on, at some other line and column. -/
def Token.moved (position : Token → Position) (bytes : Nat) (token : Token) : Token :=
  { token with position := position token, span := token.span.shift bytes }

/-! ## Rows of tokens -/

section Moved

variable (position : Token → Position) (bytes : Nat)

theorem leading_moved (next : Kind) (tokens : List Token) :
    leading next (tokens.map (Token.moved position bytes)) = leading next tokens := by
  cases tokens <;> rfl

theorem stopAfter_moved (behind : Nat) (tokens : List Token) :
    stopAfter (behind + bytes) (tokens.map (Token.moved position bytes)) =
      stopAfter behind tokens + bytes := by
  induction tokens generalizing behind with
  | nil => rfl
  | cons token tokens ih => exact ih token.span.stop

theorem shift_extent_cons (token : Token) (tokens : List Token) :
    (extent (token :: tokens)).shift bytes =
      extent (token.moved position bytes :: tokens.map (Token.moved position bytes)) := by
  simp only [extent, Span.shift]
  rw [← stopAfter_moved position bytes]
  rfl

theorem shift_extent {tokens : List Token} (h : tokens ≠ []) :
    (extent tokens).shift bytes = extent (tokens.map (Token.moved position bytes)) := by
  obtain ⟨token, tokens, rfl⟩ := List.exists_cons_of_ne_nil h
  exact shift_extent_cons position bytes token tokens

namespace Grammar

theorem Denotes.moved {token : Token} {value : Value} (h : Denotes token value) :
    Denotes (token.moved position bytes) value := by
  cases h with
  | carried hkind hvalue => exact .carried hkind hvalue
  | true hkind hvalue => exact .true hkind hvalue
  | false hkind hvalue => exact .false hkind hvalue
  | nil hkind hvalue => exact .nil hkind hvalue

theorem Heading.moved {tokens : List Token} {name : Option String} (h : Heading tokens name) :
    Heading (tokens.map (Token.moved position bytes)) name := by
  cases h with
  | anonymous => exact .anonymous
  | @named token htoken => exact @Heading.named (token.moved position bytes) htoken

theorem Terminator.moved {next : Kind} {tokens : List Token} (h : Terminator next tokens) :
    Terminator next (tokens.map (Token.moved position bytes)) := by
  cases h with
  | semicolon htoken => exact .semicolon htoken
  | omitted hnext => exact .omitted hnext

theorem OptionalTerminator.moved {tokens : List Token} (h : OptionalTerminator tokens) :
    OptionalTerminator (tokens.map (Token.moved position bytes)) := by
  cases h with
  | semicolon htoken => exact .semicolon htoken
  | omitted => exact .omitted

theorem Names.moved {names : List String} {tokens : List Token} (h : Names names tokens) :
    Names names (tokens.map (Token.moved position bytes)) := by
  induction h with
  | @one token htoken => exact @Names.one (token.moved position bytes) htoken
  | @more token comma names tokens htoken hcomma _ ih =>
    exact @Names.more (token.moved position bytes) _ _ _ htoken hcomma ih

theorem Parameters.moved {names : List String} {tokens : List Token} (h : Parameters names tokens) :
    Parameters names (tokens.map (Token.moved position bytes)) := by
  cases h with
  | none hopening hclosing => exact .none hopening hclosing
  | some hopening hnames hclosing =>
    rw [List.map_cons, List.map_append]
    exact .some hopening (hnames.moved position bytes) hclosing

theorem BeginsDefinition.of_moved {tokens : List Token}
    (h : BeginsDefinition (tokens.map (Token.moved position bytes))) : BeginsDefinition tokens := by
  rcases tokens with _ | ⟨keyword, _ | ⟨name, tokens⟩⟩
  · cases h
  · cases h
  · cases h with
    | intro hkeyword hname => exact .intro hkeyword hname

/-- The form of the same phrase further on. -/
def Form.shift (bytes : Nat) : Form → Form
  | .primary tree => .primary (tree.map id (Span.shift bytes))
  | .unary tree => .unary (tree.map id (Span.shift bytes))
  | .binary precedence tree => .binary precedence (tree.map id (Span.shift bytes))
  | .items trees => .items (Expr.mapAll id (Span.shift bytes) trees)
  | .arguments trees => .arguments (Expr.mapAll id (Span.shift bytes) trees)
  | .functionBody parameters body =>
    .functionBody parameters (Stmt.mapAll id (Span.shift bytes) body)
  | .statement next tree => .statement next (tree.map id (Span.shift bytes))
  | .block next trees => .block next (Stmt.mapAll id (Span.shift bytes) trees)

/-- A phrase further on in a text is the same phrase with other spans. -/
theorem Derives.moved {form : Form} {tokens : List Token} (h : Derives form tokens) :
    Derives (form.shift bytes) (tokens.map (Token.moved position bytes)) := by
  induction h with
  | literal hvalue => exact .literal (hvalue.moved position bytes)
  | @name token htoken => exact @Derives.name (token.moved position bytes) htoken
  | @call token tokens _ htoken _ ih =>
    simp only [Form.shift, Expr.map, shift_extent_cons position, List.map_cons]
    exact @Derives.call (token.moved position bytes) _ _ htoken ih
  | group hopening _ hclosing ih =>
    simp only [Form.shift, Expr.map, shift_extent_cons position, List.map_cons, List.map_append]
    exact .group hopening ih hclosing
  | function hkeyword hheading _ ih =>
    simp only [Form.shift, Expr.map, shift_extent_cons position, List.map_cons, List.map_append,
      Option.map_id_apply, List.map_id]
    exact .function hkeyword (hheading.moved position bytes) ih
  | operator htoken _ ih =>
    simp only [Form.shift, Expr.map, shift_extent_cons position, List.map_cons]
    exact .operator htoken ih
  | ofPrimary _ ih => exact .ofPrimary ih
  | ofUnary hprecedence _ ih => exact .ofUnary hprecedence ih
  | ofTighter hprecedence _ ih => exact .ofTighter hprecedence ih
  | @join _ token tokens others _ _ _ hprecedence _ htoken _ ih ih' =>
    simp only [Form.shift, Expr.map]
    rw [shift_extent position bytes (by simp), List.map_append, List.map_cons]
    exact .join hprecedence ih htoken ih'
  | lastItem _ ih => exact .lastItem ih
  | moreItems _ hcomma _ ih ih' =>
    rw [List.map_append, List.map_cons]
    exact .moreItems ih hcomma ih'
  | noArguments hopening hclosing => exact .noArguments hopening hclosing
  | someArguments hopening _ hclosing ih =>
    rw [List.map_cons, List.map_append]
    exact .someArguments hopening ih hclosing
  | functionBody hparameters _ hkeyword ih =>
    rw [List.map_append, List.map_append]
    exact .functionBody (hparameters.moved position bytes) ih hkeyword
  | @declaration next keyword name ending hkeyword hname hending =>
    simp only [Form.shift, Stmt.map, Expr.map, shift_extent_cons position, List.map_cons]
    exact @Derives.declaration next _ (name.moved position bytes) _ hkeyword hname
      (hending.moved position bytes)
  | @definition next keyword name sign _ _ _ hkeyword hname hsign _ hending ih =>
    simp only [Form.shift, Stmt.map, shift_extent_cons position, List.map_cons, List.map_append]
    exact @Derives.definition next _ (name.moved position bytes) _ _ _ _ hkeyword hname hsign ih
      (hending.moved position bytes)
  | @assignment next name sign _ _ _ hname hsign _ hending ih =>
    simp only [Form.shift, Stmt.map, shift_extent_cons position, List.map_cons, List.map_append]
    exact @Derives.assignment next (name.moved position bytes) _ _ _ _ hname hsign ih
      (hending.moved position bytes)
  | @returnNothing next keyword ending hkeyword hending =>
    simp only [Form.shift, Stmt.map, Expr.map, shift_extent_cons position, List.map_cons]
    exact @Derives.returnNothing next (keyword.moved position bytes) _ hkeyword
      (hending.moved position bytes)
  | returnValue hkeyword _ hending ih =>
    simp only [Form.shift, Stmt.map, shift_extent_cons position, List.map_cons, List.map_append]
    exact .returnValue hkeyword ih (hending.moved position bytes)
  | whileLoop hkeyword _ hopening _ hclosing hending ih ih' =>
    simp only [Form.shift, Stmt.map, shift_extent_cons position, List.map_cons, List.map_append]
    exact .whileLoop hkeyword ih hopening ih' hclosing (hending.moved position bytes)
  | @forLoop next _ name _ _ _ _ _ _ _ _ _ _ _ hkeyword hname hsign _ hcomma _ hopening _ hclosing
      hending ih₁ ih₂ ih₃ =>
    simp only [Form.shift, Stmt.map, Expr.map?, shift_extent_cons position, List.map_cons,
      List.map_append]
    exact @Derives.forLoop next _ (name.moved position bytes) _ _ _ _ _ _ _ _ _ _ _ hkeyword hname hsign
      ih₁ hcomma ih₂ hopening ih₃ hclosing (hending.moved position bytes)
  | @forStepLoop next _ name _ _ _ _ _ _ _ _ _ _ _ _ _ _ hkeyword hname hsign _ hcomma _ hcomma' _
      hopening _ hclosing hending ih₁ ih₂ ih₃ ih₄ =>
    simp only [Form.shift, Stmt.map, Expr.map?, shift_extent_cons position, List.map_cons,
      List.map_append]
    exact @Derives.forStepLoop next _ (name.moved position bytes) _ _ _ _ _ _ _ _ _ _ _ _ _ _ hkeyword
      hname hsign ih₁ hcomma ih₂ hcomma' ih₃ hopening ih₄ hclosing (hending.moved position bytes)
  | @functionDefinition next _ name _ _ _ _ hkeyword hname _ hending ih =>
    simp only [Form.shift, Stmt.map, Expr.map, shift_extent_cons position, List.map_cons,
      List.map_append, List.map_id, Option.map_some]
    exact @Derives.functionDefinition next _ (name.moved position bytes) _ _ _ _ hkeyword hname ih
      (hending.moved position bytes)
  | ifElse hkeyword _ hopening _ hmiddle _ hclosing hending ih₁ ih₂ ih₃ =>
    simp only [Form.shift, Stmt.map, shift_extent_cons position, List.map_cons, List.map_append]
    exact .ifElse hkeyword ih₁ hopening ih₂ hmiddle ih₃ hclosing (hending.moved position bytes)
  | blockStatement hkeyword _ hclosing hending ih =>
    simp only [Form.shift, Stmt.map, shift_extent_cons position, List.map_cons, List.map_append]
    exact .blockStatement hkeyword ih hclosing (hending.moved position bytes)
  | expressionStatement hvalue hbegin hending ih =>
    simp only [Form.shift, Stmt.map]
    rw [shift_extent position bytes (by simp [hvalue.expression_ne_nil]), List.map_append]
    exact .expressionStatement ih (fun h ↦ hbegin h.of_moved) (hending.moved position bytes)
  | noStatement => exact .noStatement
  | @moreStatements next tokens others tree trees _ _ ih ih' =>
    rw [List.map_append]
    rw [← leading_moved position bytes] at ih
    exact .moreStatements ih ih'

theorem IsProgram.moved {tokens : List Token} {program : Program} (h : IsProgram tokens program) :
    IsProgram (tokens.map (Token.moved position bytes)) (program.shift bytes) := by
  have hshift := Derives.moved position bytes h
  rwa [Form.shift, Stmt.mapAll_eq_map] at hshift

end Grammar

end Moved

end ScopeScript
