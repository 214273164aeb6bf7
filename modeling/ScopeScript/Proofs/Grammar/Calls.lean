import ScopeScript.Proofs.Grammar.Completeness
import ScopeScript.Proofs.Grammar.Nesting
import ScopeScript.Proofs.Lexical.Tokens
import Mathlib.Data.List.Nodup

/-!
# Names before parentheses

An opening parenthesis behind an identifier belongs to the arguments of a call or to the parameters of a
function. Whatever else ends with an identifier is an expression or the name in a declaration, and behind
these comes no opening parenthesis, not even where a semicolon is missing. So a token tells whether it
is a callee or the name of a function by nothing but the token behind it.
-/

namespace ScopeScript

open Grammar

/-! ## Callees and names of functions -/

/-- The token is the callee at the beginning of a call, or the name right behind the keyword of a function. -/
inductive Node.IsNamedBy (tokens : List Token) (token : Token) : Node → Prop
  | call {span : Span} {arguments : List Expr} (hstart : span.start = token.span.start) :
      IsNamedBy tokens token (.expr (.call span token.lexeme arguments))
  | function {keyword : Token} {span : Span} {parameters : List String} {body : List Stmt}
      (hkeyword : keyword.kind = .keyword .function) (hstart : span.start = keyword.span.start)
      (hbehind : [keyword, token] <:+: tokens) :
      IsNamedBy tokens token (.expr (.function span (some token.lexeme) parameters body))

theorem Node.IsNamedBy.mono {row tokens : List Token} {token : Token} {node : Node}
    (h : node.IsNamedBy row token) (hrow : row <:+: tokens) : node.IsNamedBy tokens token := by
  cases h with
  | call hstart => exact .call hstart
  | function hkeyword hstart hbehind => exact .function hkeyword hstart (hbehind.trans hrow)

/-! ## Operators -/

theorem UnaryOp.kind_ne_identifier (operator : UnaryOp) : operator.kind ≠ .identifier := by
  cases operator <;> decide

namespace BinaryOp

theorem kind_ne_identifier (operator : BinaryOp) : operator.kind ≠ .identifier := by
  have hall : ∀ operator ∈ all, operator.kind ≠ .identifier := by decide
  exact hall operator operator.mem_all

theorem kind_ne_paren (operator : BinaryOp) : operator.kind ≠ .symbol .leftParen :=
  fun hkind ↦ operator.kind_notMem (by simp [hkind])

end BinaryOp

namespace Grammar

/-! ## Identifiers before parentheses -/

/-- The identifiers of a row that an opening parenthesis follows, in the row or behind it. -/
def called (next : Kind) : List Token → List Token
  | [] => []
  | token :: row =>
    if token.kind = .identifier ∧ leading next row = .symbol .leftParen then token :: called next row
    else called next row

@[simp]
theorem called_nil (next : Kind) : called next [] = [] := rfl

theorem called_cons_of_ne {next : Kind} {token : Token} {row : List Token}
    (h : token.kind = .identifier → leading next row ≠ .symbol .leftParen) :
    called next (token :: row) = called next row :=
  if_neg fun hcalled ↦ h hcalled.1 hcalled.2

theorem called_cons_of_kind {next kind : Kind} {token : Token} {row : List Token} (hkind : token.kind = kind)
    (hne : kind ≠ .identifier := by decide) : called next (token :: row) = called next row :=
  called_cons_of_ne fun hidentifier ↦ absurd (hkind.symm.trans hidentifier) hne

theorem called_cons_of_eq {next : Kind} {token : Token} {row : List Token}
    (hkind : token.kind = .identifier) (hnext : leading next row = .symbol .leftParen) :
    called next (token :: row) = token :: called next row :=
  if_pos ⟨hkind, hnext⟩

theorem called_append (next : Kind) (row others : List Token) :
    called next (row ++ others) = called (leading next others) row ++ called next others := by
  induction row with
  | nil => rfl
  | cons token row ih =>
    rw [List.cons_append, called, called, leading_append, ih]
    split <;> rfl

theorem called_subset (next : Kind) (row : List Token) : called next row ⊆ row := by
  induction row with
  | nil => exact List.Subset.refl []
  | cons token row ih =>
    rw [called]
    split
    · exact List.cons_subset_cons token ih
    · exact List.Subset.trans ih (List.subset_cons_self token row)

/-- A mark of the end is not called, nor is anything before it because of it. -/
theorem called_concat_mark {body : List Token} {mark : Token} (hmark : mark.kind = .eof) :
    called .eof (body ++ [mark]) = called .eof body := by
  rw [called_append, leading_cons, hmark, called_cons_of_kind hmark, called_nil, List.append_nil]

/-- Where an identifier comes only once in a row, the token behind it tells whether it is called. -/
theorem mem_called_iff {next : Kind} {front others : List Token} {token : Token}
    (hkind : token.kind = .identifier) (hfront : token ∉ front) (hothers : token ∉ others) :
    token ∈ called next (front ++ token :: others) ↔ leading next others = .symbol .leftParen := by
  have hnotMem : token ∉ called next others := fun hmem ↦ hothers (called_subset _ _ hmem)
  rw [called_append, List.mem_append, or_iff_right fun hmem ↦ hfront (called_subset _ _ hmem)]
  by_cases hnext : leading next others = .symbol .leftParen
  · rw [called_cons_of_eq hkind hnext]
    exact iff_of_true List.mem_cons_self hnext
  · rw [called_cons_of_ne fun _ ↦ hnext]
    exact iff_of_false hnotMem hnext

/-! ## Rows without other calls -/

/-- Every called identifier of the row is the callee or the name of one of the nodes or of one below. -/
def Named (next : Kind) (row : List Token) (nodes : List Node) : Prop :=
  ∀ token ∈ called next row, ∃ node, Node.Among nodes node ∧ node.IsNamedBy row token

namespace Named

variable {next : Kind} {token : Token} {row others : List Token} {nodes nodes' : List Node}

theorem nil : Named next [] nodes := fun _ hmem ↦ nomatch hmem

/-- There may be a token in front that is not called. -/
theorem behind (h : Named next row nodes)
    (hne : token.kind = .identifier → leading next row ≠ .symbol .leftParen) :
    Named next (token :: row) nodes := by
  intro token' hmem
  rw [called_cons_of_ne hne] at hmem
  obtain ⟨node, hnode, hnamed⟩ := h token' hmem
  exact ⟨node, hnode, hnamed.mono (List.suffix_cons token row).isInfix⟩

theorem append {middle : Kind} (h : Named middle row nodes) (h' : Named next others nodes')
    (hmiddle : leading next others = middle := by rfl) :
    Named next (row ++ others) (nodes ++ nodes') := by
  subst hmiddle
  intro token hmem
  rw [called_append, List.mem_append] at hmem
  rcases hmem with hmem | hmem
  · obtain ⟨node, hnode, hnamed⟩ := h token hmem
    exact ⟨node, hnode.mono (List.subset_append_left _ _),
      hnamed.mono (List.prefix_append row others).isInfix⟩
  · obtain ⟨node, hnode, hnamed⟩ := h' token hmem
    exact ⟨node, hnode.mono (List.subset_append_right _ _),
      hnamed.mono (List.suffix_append row others).isInfix⟩

/-- There may be a token of another kind in front. -/
theorem past {kind : Kind} (h : Named next row nodes) (hkind : token.kind = kind)
    (hne : kind ≠ .identifier := by decide) : Named next (token :: row) nodes :=
  h.behind fun hidentifier ↦ absurd (hkind.symm.trans hidentifier) hne

/-- There may be a token in front by which one of the nodes is named. -/
theorem named {node : Node} (h : Named next row nodes) (front : List Token)
    (hfront : called token.kind front = []) (hnode : node ∈ nodes)
    (hnamed : node.IsNamedBy (front ++ token :: row) token) :
    Named next (front ++ token :: row) nodes := by
  intro token' hmem
  rw [called_append, leading_cons, hfront, List.nil_append, called] at hmem
  obtain rfl | hrest : token' = token ∨ token' ∈ called next row := by
    split at hmem
    · exact List.mem_cons.1 hmem
    · exact .inr hmem
  · exact ⟨node, .here hnode, hnamed⟩
  · obtain ⟨node', hnode', hnamed'⟩ := h token' hrest
    exact ⟨node', hnode', hnamed'.mono ⟨front ++ [token], [], by simp⟩⟩

theorem before {middle : Kind} (h : Named middle row nodes) (h' : Named next others [])
    (hmiddle : leading next others = middle := by rfl) : Named next (row ++ others) nodes := by
  have happended : Named next (row ++ others) (nodes ++ []) := h.append h' hmiddle
  rwa [List.append_nil] at happended

/-- What is below the children of a node is below the node. -/
theorem of_children {node : Node} (h : Named next row node.children) : Named next row [node] := by
  intro token hmem
  obtain ⟨child, hchild, hnamed⟩ := h token hmem
  exact ⟨child, .of_children List.mem_cons_self hchild, hnamed⟩

/-- The keyword of a function and its name may stand before what else it is made of. -/
theorem function {keyword name : Token} {span : Span} {parameters : List String} {body : List Stmt}
    (h : Named next row (body.map .stmt)) (hkeyword : keyword.kind = .keyword .function)
    (hstart : span.start = keyword.span.start) :
    Named next (keyword :: name :: row)
      [.expr (.function span (some name.lexeme) parameters body)] := by
  have hbody : Named next row [.expr (.function span (some name.lexeme) parameters body)] := of_children h
  apply hbody.named [keyword] (called_cons_of_kind hkeyword) List.mem_cons_self
  exact .function hkeyword hstart ⟨[], row, rfl⟩

end Named

/-! ## Small phrases -/

section

variable {next : Kind} {tokens : List Token} {nodes : List Node}

theorem ne_paren {token : Token} {kind : Kind} (h : token.kind = kind)
    (hne : kind ≠ .symbol .leftParen := by decide) : token.kind ≠ .symbol .leftParen :=
  h ▸ hne

theorem Terminator.leading_ne {ending : List Token} (h : Terminator next ending) :
    leading next ending ≠ .symbol .leftParen := by
  cases h with
  | semicolon htoken => exact ne_paren htoken
  -- a semicolon is missing only before what closes a block, and a parenthesis does not
  | omitted hnext => rcases hnext with rfl | rfl | rfl <;> decide

theorem Terminator.named (h : Terminator next tokens) : Named next tokens nodes := by
  cases h with
  | semicolon htoken => exact Named.nil.past htoken
  | omitted => exact .nil

theorem OptionalTerminator.named (h : OptionalTerminator tokens) : Named next tokens nodes := by
  cases h with
  | semicolon htoken => exact Named.nil.past htoken
  | omitted => exact .nil

theorem Named.closed {closing : Token} {ending : List Token} (h : Named (.keyword .end_) tokens nodes)
    (hclosing : closing.kind = .keyword .end_) (hending : OptionalTerminator ending) :
    Named next (tokens ++ closing :: ending) nodes :=
  h.before (hending.named.past hclosing) hclosing

theorem Names.named {names : List String} (h : Names names tokens) (hnext : next ≠ .symbol .leftParen) :
    Named next tokens nodes := by
  induction h with
  | one => exact Named.nil.behind fun _ ↦ hnext
  | more _ hcomma _ ih => exact (ih.past hcomma).behind fun _ ↦ ne_paren hcomma

theorem Parameters.named {names : List String} (h : Parameters names tokens) :
    Named next tokens nodes := by
  cases h with
  | none hopening hclosing => exact (Named.nil.past hclosing).past hopening
  | some hopening hnames hclosing =>
    exact ((hnames.named (ne_paren hclosing)).before (Named.nil.past hclosing)).past hopening

end

/-! ## Phrases -/

/-- What a phrase stands for. -/
def Form.nodes : Form → List Node
  | .primary tree | .unary tree | .binary _ tree => [.expr tree]
  | .items trees | .arguments trees => trees.map .expr
  | .functionBody _ body => body.map .stmt
  | .statement _ tree => [.stmt tree]
  | .block _ trees => trees.map .stmt

/-- What comes behind a phrase of the form, as far as parentheses go. The body of a function ends in a word,
so one may follow; a statement and a block know what comes behind them. -/
def Form.MayPrecede : Form → Kind → Prop
  | .functionBody _ _, _ => True
  | .statement kind _, next | .block kind _, next => next = kind
  | _, next => next ≠ .symbol .leftParen

/-- The called identifiers of a phrase are the callees and the names of functions in it. -/
theorem Derives.named {form : Form} {row : List Token} (h : Derives form row) :
    ∀ {next : Kind}, form.MayPrecede next → Named next row form.nodes := by
  -- behind each part of a phrase comes a token that the form tells, or what comes behind the phrase
  induction h with
  | literal hvalue =>
    intro next _
    apply Named.nil.behind
    intro hkind
    have hmem := hvalue.kind_mem
    rw [hkind] at hmem
    exact absurd hmem (by decide)
  | name =>
    intro next hnext
    exact Named.nil.behind fun _ ↦ hnext
  | call htoken harguments ih =>
    intro next hnext
    exact (Named.of_children (ih hnext)).named [] rfl List.mem_cons_self (.call rfl)
  | group hopening _ hclosing ih =>
    intro next _
    apply Named.of_children
    exact ((ih (ne_paren hclosing)).before (Named.nil.past hclosing)).past hopening
  | function hkeyword hheading _ ih =>
    intro next _
    cases hheading with
    | anonymous => exact Named.of_children ((ih trivial).past hkeyword)
    | named => exact Named.function (ih trivial) hkeyword rfl
  | @operator _ _ operator _ htoken _ ih =>
    intro next hnext
    exact Named.of_children ((ih hnext).past htoken operator.kind_ne_identifier)
  | ofPrimary _ ih | ofUnary _ _ ih | ofTighter _ _ ih => exact ih
  | @join _ _ _ _ operator _ _ _ _ htoken _ ihleft ihright =>
    intro next hnext
    apply Named.of_children
    have hright := (ihright hnext).past htoken operator.kind_ne_identifier
    exact (ihleft (ne_paren htoken operator.kind_ne_paren)).append hright
  | lastItem _ ih => exact ih
  | moreItems _ hcomma _ ih ihrest =>
    intro next hnext
    exact (ih (ne_paren hcomma)).append ((ihrest hnext).past hcomma)
  | noArguments hopening hclosing =>
    intro next _
    exact (Named.nil.past hclosing).past hopening
  | someArguments hopening _ hclosing ih =>
    intro next _
    exact ((ih (ne_paren hclosing)).before (Named.nil.past hclosing)).past hopening
  | functionBody hparameters _ hkeyword ih =>
    intro next _
    have hbody : Named next _ _ := (ih hkeyword).before (Named.nil.past hkeyword)
    exact (hparameters.named : Named _ _ []).append hbody
  | declaration hkeyword _ hending =>
    rintro next rfl
    exact (hending.named.behind fun _ ↦ hending.leading_ne).past hkeyword
  | definition hkeyword _ hsign _ hending ih =>
    rintro next rfl
    have hvalue := (ih hending.leading_ne).before hending.named
    apply Named.of_children
    exact ((hvalue.past hsign).behind fun _ ↦ ne_paren hsign).past hkeyword
  | assignment _ hsign _ hending ih =>
    rintro next rfl
    have hvalue := (ih hending.leading_ne).before hending.named
    exact Named.of_children ((hvalue.past hsign).behind fun _ ↦ ne_paren hsign)
  | returnNothing hkeyword hending =>
    rintro next rfl
    exact hending.named.past hkeyword
  | returnValue hkeyword _ hending ih =>
    rintro next rfl
    exact Named.of_children (((ih hending.leading_ne).before hending.named).past hkeyword)
  | whileLoop hkeyword _ hopening _ hclosing hending ihcondition ihbody =>
    rintro next rfl
    have hbody : Named next _ _ := (ihbody rfl).closed hclosing hending
    have hcondition := ihcondition (ne_paren hopening)
    exact Named.of_children ((hcondition.append (hbody.past hopening)).past hkeyword)
  | @forLoop _ _ name sign comma _ _ first _ _ _ init _ _ hkeyword _ hsign _ hcomma _ hopening _ hclosing
      hending ihinit ihlimit ihbody =>
    rintro next rfl
    have hbinding : Named comma.kind first [.binding (extent (name :: sign :: first)) name.lexeme init] :=
      Named.of_children (ihinit (ne_paren hcomma))
    have hlimit := ihlimit (ne_paren hopening)
    have hbody : Named next _ _ := (ihbody rfl).closed hclosing hending
    have hrest := hbinding.append ((hlimit.append (hbody.past hopening)).past hcomma)
    exact Named.of_children (((hrest.past hsign).behind fun _ ↦ ne_paren hsign).past hkeyword)
  | @forStepLoop _ _ name sign comma _ _ _ first _ _ _ _ init _ _ _ hkeyword _ hsign _ hcomma _ hcomma' _
      hopening _ hclosing hending ihinit ihlimit ihstep ihbody =>
    rintro next rfl
    have hbinding : Named comma.kind first [.binding (extent (name :: sign :: first)) name.lexeme init] :=
      Named.of_children (ihinit (ne_paren hcomma))
    have hlimit := ihlimit (ne_paren hcomma')
    have hstep := ihstep (ne_paren hopening)
    have hbody : Named next _ _ := (ihbody rfl).closed hclosing hending
    have hbounds := hlimit.append ((hstep.append (hbody.past hopening)).past hcomma')
    have hrest := hbinding.append (hbounds.past hcomma)
    exact Named.of_children (((hrest.past hsign).behind fun _ ↦ ne_paren hsign).past hkeyword)
  | functionDefinition hkeyword _ _ hending ih =>
    rintro next rfl
    have hbody : Named next _ _ := (ih trivial).before hending.named
    exact Named.of_children (hbody.function hkeyword rfl)
  | ifElse hkeyword _ hopening _ hmiddle _ hclosing hending ihcondition ihthen ihelse =>
    rintro next rfl
    have helse : Named next _ _ := (ihelse rfl).closed hclosing hending
    have hbodies := (ihthen hmiddle).append (helse.past hmiddle)
    have hcondition := ihcondition (ne_paren hopening)
    exact Named.of_children ((hcondition.append (hbodies.past hopening)).past hkeyword)
  | blockStatement hkeyword _ hclosing hending ih =>
    rintro next rfl
    have hbody : Named next _ _ := (ih rfl).closed hclosing hending
    exact Named.of_children (hbody.past hkeyword)
  | expressionStatement _ _ hending ih =>
    rintro next rfl
    exact Named.of_children ((ih hending.leading_ne).before hending.named)
  | noStatement =>
    rintro next rfl
    exact Named.nil
  | moreStatements _ _ ih ihrest =>
    rintro next rfl
    exact (ih rfl).append (ihrest rfl)

/-! ## Parentheses behind names -/

theorem mem_called_of_infix {next : Kind} {token opening : Token} {tokens : List Token}
    (h : [token, opening] <:+: tokens) (hkind : token.kind = .identifier)
    (hopening : opening.kind = .symbol .leftParen) : token ∈ called next tokens := by
  obtain ⟨front, back, rfl⟩ := h
  have hcalled : called next (token :: opening :: back) = token :: called next (opening :: back) :=
    called_cons_of_eq hkind hopening
  rw [List.append_assoc, called_append, List.mem_append]
  right
  exact hcalled ▸ List.mem_cons_self

end Grammar

/-- The tokens of a call begin with its name and an opening parenthesis, and so do those of a function with a
name, behind its keyword. -/
def Expr.IsHeaded : Expr → List Token → Prop
  | .call span _ _, row =>
    ∃ token opening, [token, opening] <+: row ∧ span.start = token.span.start ∧
      token.kind = .identifier ∧ opening.kind = .symbol .leftParen
  | .function span (some _) _ _, row =>
    ∃ keyword token opening, [keyword, token, opening] <+: row ∧ span.start = keyword.span.start ∧
      token.kind = .identifier ∧ opening.kind = .symbol .leftParen
  | _, _ => True

namespace Grammar

/-- What holds of the phrases of a form that are expressions. -/
def Form.IsHeaded : Form → List Token → Prop
  | .primary tree, row | .unary tree, row | .binary _ tree, row => tree.IsHeaded row
  | _, _ => True

theorem Derives.isHeaded {form : Form} {row : List Token} (h : Derives form row) :
    form.IsHeaded row := by
  induction h with
  | @call token _ _ htoken harguments =>
    obtain ⟨opening, others, rfl, hopening⟩ := harguments.begins
    exact ⟨token, opening, ⟨others, rfl⟩, rfl, htoken, hopening⟩
  | @function keyword _ _ _ _ _ _ hheading hbody =>
    cases hheading with
    | anonymous => trivial
    | @named token htoken =>
      obtain ⟨opening, others, rfl, hopening⟩ := hbody.begins
      exact ⟨keyword, token, opening, ⟨others, rfl⟩, rfl, htoken, hopening⟩
  | ofPrimary _ ih | ofUnary _ _ ih | ofTighter _ _ ih => exact ih
  | _ => trivial

end Grammar

theorem Node.Covers.isHeaded {tree : Expr} {row : List Token} (h : (Node.expr tree).Covers row) :
    tree.IsHeaded row := by
  cases h with
  | phrase hphrase =>
    cases hphrase with
    | expr hderives => exact hderives.isHeaded
  | implicit => trivial

/-! ## Tokens that begin apart -/

/-- No two tokens begin at the same place. -/
def Grammar.Apart (tokens : List Token) : Prop := (tokens.map (·.span.start)).Nodup

theorem Grammar.Apart.eq {tokens : List Token} (h : Apart tokens) {token other : Token}
    (htoken : token ∈ tokens) (hother : other ∈ tokens) (hstart : token.span.start = other.span.start) :
    token = other :=
  List.inj_on_of_nodup_map h htoken hother hstart

theorem Grammar.Apart.left {front back : List Token} (h : Apart (front ++ back)) : Apart front := by
  rw [Apart, List.map_append] at h
  exact h.of_append_left

/-- A token comes only once. -/
theorem Grammar.Apart.notMem {front back : List Token} {token : Token}
    (h : Apart (front ++ token :: back)) : token ∉ front ∧ token ∉ back := by
  have hnodup : (front ++ token :: back).Nodup := h.of_map
  rw [List.nodup_middle, List.nodup_cons, List.mem_append, not_or] at hnodup
  exact hnodup.1

/-- Behind a token comes only one other. -/
theorem Grammar.Apart.eq_of_infix {tokens : List Token} (h : Apart tokens) {token other other' : Token}
    (hother : [token, other] <:+: tokens) (hother' : [token, other'] <:+: tokens) : other = other' := by
  obtain ⟨front, back, rfl⟩ := hother
  obtain ⟨front', back', heq⟩ := hother'
  rw [List.append_assoc] at h heq
  rw [List.append_assoc] at heq
  obtain ⟨hfront, hback⟩ := h.notMem
  obtain ⟨-, -, htail⟩ := (List.append_cons_inj_of_notMem hfront hback).1 heq.symm
  exact (List.cons.inj htail).1

theorem Grammar.apart_of_divides {source : List Char} {body : List Token} {mark : Token}
    (h : Lexical.Divides source (body ++ [mark])) (hbody : ∀ token ∈ body, token.kind ≠ .eof) :
    Apart (body ++ [mark]) := by
  have hne {token other : Token} (hmem : token ∈ body) (hle : token.span.stop ≤ other.span.start) :
      token.span.start ≠ other.span.start := by
    have hlt := h.nonempty token (List.mem_append_left [mark] hmem) (hbody token hmem)
    exact Nat.ne_of_lt (Nat.lt_of_lt_of_le hlt hle)
  obtain ⟨hinner, -, hlast⟩ := List.pairwise_append.1 h.ordered
  unfold Apart List.Nodup
  rw [List.pairwise_map, List.pairwise_append]
  refine ⟨hinner.imp_of_mem fun hmem _ ↦ hne hmem, List.pairwise_singleton _ _, ?_⟩
  intro token hmem other hother
  exact hne hmem (hlast token hmem other hother)

/-! ## Programs -/

namespace Program

variable {program : Program} {body tokens : List Token} {token mark : Token} {node : Node}

theorem HasNode.mem_called {next : Kind} (h : program.HasNode node) (hnamed : node.IsNamedBy tokens token)
    (hprogram : IsProgram body program) (hbody : body <:+: tokens) (hapart : Apart tokens)
    (hmem : token ∈ tokens) : token ∈ called next tokens := by
  obtain ⟨row, hbody', hcovers⟩ := h.exists_covers hprogram
  have hrow : row <:+: tokens := hbody'.trans hbody
  cases hnamed with
  | call hstart =>
    obtain ⟨token', opening, hbegin, hstart', hkind, hopening⟩ := hcovers.isHeaded
    have hpart : [token', opening] <:+: tokens := hbegin.isInfix.trans hrow
    obtain rfl := hapart.eq hmem (hpart.subset List.mem_cons_self) (hstart.symm.trans hstart')
    exact mem_called_of_infix hpart hkind hopening
  | function hkeyword hstart hbehind =>
    obtain ⟨keyword, token', opening, hbegin, hstart', hkind, hopening⟩ := hcovers.isHeaded
    have hpart : [keyword, token', opening] <:+: tokens := hbegin.isInfix.trans hrow
    obtain rfl := hapart.eq (hbehind.subset List.mem_cons_self) (hpart.subset List.mem_cons_self)
      (hstart.symm.trans hstart')
    obtain rfl := hapart.eq_of_infix hbehind (.trans ⟨[], [opening], rfl⟩ hpart)
    exact mem_called_of_infix (.trans ⟨[_], [], rfl⟩ hpart) hkind hopening

/-- The token is the callee of a call, or the name of a function, in the program. -/
def HasNamed (program : Program) (tokens : List Token) (token : Token) : Prop :=
  ∃ node, program.HasNode node ∧ node.IsNamedBy tokens token

/-- In a program, the identifiers before opening parentheses are the callees and the names of functions. -/
theorem hasNamed_iff (hprogram : IsProgram body program) (hmark : mark.kind = .eof)
    (hapart : Apart (body ++ [mark])) (hmem : token ∈ body ++ [mark]) :
    program.HasNamed (body ++ [mark]) token ↔ token ∈ called .eof body := by
  have hbody : body <:+: body ++ [mark] := (List.prefix_append body [mark]).isInfix
  constructor
  · rintro ⟨node, hnode, hnamed⟩
    rw [← called_concat_mark hmark]
    exact hnode.mem_called hnamed hprogram hbody hapart hmem
  · intro hcalled
    obtain ⟨node, hnode, hnamed⟩ := Derives.named hprogram rfl token hcalled
    exact ⟨node, hnode, hnamed.mono hbody⟩

end Program

end ScopeScript
