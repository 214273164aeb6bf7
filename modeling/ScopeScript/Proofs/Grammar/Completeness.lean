import ScopeScript.Proofs.Grammar.Soundness

/-!
# Every phrase is read

A phrase is read whatever stands before it, as long as what follows cannot belong to it: behind an
expression no operator that binds as tightly may come and no parenthesis, behind a block only what
closes it. The first token of a phrase, or the first two, lead the parser to the production by which
the phrase was derived. The parsers for enclosed parts are assumed to read all phrases below some
length, and enclosed phrases are shorter.
-/

namespace ScopeScript

open Grammar

namespace Grammar

/-! ## What may follow -/

/-- A token of this kind cannot continue an expression of this precedence. -/
structure Ends (precedence : Nat) (kind : Kind) : Prop where
  ne_paren : kind ≠ .symbol .leftParen
  ne_operator : ∀ operator : BinaryOp, precedence ≤ operator.precedence → kind ≠ operator.kind

theorem Ends.mono {precedence other : Nat} {kind : Kind} (h : Ends precedence kind)
    (hle : precedence ≤ other) : Ends other kind :=
  ⟨h.ne_paren, fun operator hother ↦ h.ne_operator operator (Nat.le_trans hle hother)⟩

/-- What stands behind expressions inside phrases ends them. -/
theorem ends_of_mem {kind : Kind} (precedence : Nat)
    (h : kind ∈ [.symbol .semicolon, .symbol .comma, .symbol .rightParen, .keyword .do_,
      .keyword .then_, .keyword .end_, .keyword .else_, .eof]) : Ends precedence kind := by
  simp only [List.mem_cons, List.not_mem_nil, or_false] at h
  constructor
  · rintro rfl
    simp at h
  · rintro operator - rfl
    refine operator.kind_notMem ?_
    rcases h with h | h | h | h | h | h | h | h <;> simp [h]

/-- An operator ends its left operand. -/
theorem ends_operator (operator : BinaryOp) : Ends (operator.precedence + 1) operator.kind := by
  constructor
  · exact fun hparen ↦ operator.kind_notMem (by simp [hparen])
  · intro other hle hkind
    rw [BinaryOp.kind_injective hkind] at hle
    omega

/-- Where a statement that needs a semicolon ends, there is one or the block ends. -/
theorem Terminator.kind_mem {next : Kind} {ending rest : List Token} (h : Terminator next ending)
    (hnext : leading .eof rest = next) :
    leading .eof (ending ++ rest) ∈
      [.symbol .semicolon, .keyword .end_, .keyword .else_, .eof] := by
  cases h with
  | semicolon htoken => simp [htoken]
  | omitted hcloses =>
    rw [List.nil_append, hnext]
    rcases hcloses with rfl | rfl | rfl <;> decide

theorem Terminator.ends {next : Kind} {ending rest : List Token} (h : Terminator next ending)
    (hnext : leading .eof rest = next) (precedence : Nat) :
    Ends precedence (leading .eof (ending ++ rest)) := by
  refine ends_of_mem precedence ?_
  have hkind := h.kind_mem hnext
  simp only [List.mem_cons, List.not_mem_nil, or_false] at hkind
  rcases hkind with hkind | hkind | hkind | hkind <;> rw [hkind] <;> decide

/-! ## What comes first -/

/-- The kinds of tokens with which an expression may begin. -/
def BeginsExpression (kind : Kind) : Prop :=
  kind ∈ [.number, .string, .keyword .true, .keyword .false, .keyword .nil, .identifier,
    .symbol .leftParen, .keyword .function, .symbol .hash, .symbol .minus, .keyword .not]

/-- How the tokens of an expression begin: an equality sign never comes second, and the word that
begins a function is never alone. -/
structure IsExpressionLike (token : Token) (tokens : List Token) : Prop where
  begins : BeginsExpression token.kind
  ne_assign : ∀ next ≠ .symbol .assign, leading next tokens ≠ .symbol .assign
  ne_nil : token.kind = .keyword .function → tokens ≠ []

/-- What is known of the first tokens of a phrase. -/
def Form.Begins : Form → List Token → Prop
  | .primary _, tokens | .unary _, tokens | .binary _ _, tokens =>
    ∃ token others, tokens = token :: others ∧ IsExpressionLike token others
  | .items _, tokens => ∃ token others, tokens = token :: others ∧ BeginsExpression token.kind
  | .arguments _, tokens | .functionBody _ _, tokens =>
    ∃ token others, tokens = token :: others ∧ token.kind = .symbol .leftParen
  | .statement _ _, tokens =>
    ∃ token others, tokens = token :: others ∧ ¬Closes token.kind ∧
      token.kind ≠ .symbol .semicolon
  | _, _ => True

theorem Denotes.kind_mem {token : Token} {value : Value} (h : Denotes token value) :
    token.kind ∈ [.number, .string, .keyword .true, .keyword .false, .keyword .nil] := by
  cases h with
  | carried hkind _ => exact hkind
  | true hkind _ | false hkind _ | nil hkind _ => simp [hkind]

theorem Denotes.begins {token : Token} {value : Value} (h : Denotes token value) :
    BeginsExpression token.kind ∧ token.kind ≠ .keyword .function := by
  have hkind := h.kind_mem
  generalize token.kind = kind at hkind
  simp only [List.mem_cons, List.not_mem_nil, or_false] at hkind
  rcases hkind with rfl | rfl | rfl | rfl | rfl <;> exact ⟨by simp [BeginsExpression], by decide⟩

theorem BeginsExpression.ne_assign {kind : Kind} (h : BeginsExpression kind) :
    kind ≠ .symbol .assign := by
  rintro rfl
  simp [BeginsExpression] at h

theorem BeginsExpression.continues {kind : Kind} (h : BeginsExpression kind) :
    (kind = .symbol .semicolon || Parser.closesBlock kind) = false := by
  simp only [BeginsExpression, List.mem_cons, List.not_mem_nil, or_false] at h
  rcases h with rfl | rfl | rfl | rfl | rfl | rfl | rfl | rfl | rfl | rfl | rfl <;> decide

theorem Derives.begins {form : Form} {tokens : List Token} (h : Derives form tokens) :
    form.Begins tokens := by
  induction h with
  | literal hvalue =>
    exact ⟨_, [], rfl, hvalue.begins.1, fun _ h ↦ h, fun hkind ↦ absurd hkind hvalue.begins.2⟩
  | name htoken =>
    exact ⟨_, [], rfl, by simp [BeginsExpression, htoken], fun _ h ↦ h, by simp [htoken]⟩
  | call htoken _ ih =>
    obtain ⟨opening, others, rfl, hopening⟩ := ih
    exact ⟨_, _, rfl, by simp [BeginsExpression, htoken], fun _ _ ↦ by simp [hopening], by simp⟩
  | group hopening _ _ ih =>
    obtain ⟨token, others, rfl, hlike⟩ := ih
    refine ⟨_, _, rfl, by simp [BeginsExpression, hopening], fun _ _ ↦ ?_, by simp⟩
    exact hlike.begins.ne_assign
  | function hkeyword hheading _ ih =>
    obtain ⟨opening, others, rfl, hopening⟩ := ih
    refine ⟨_, _, rfl, by simp [BeginsExpression, hkeyword], fun _ _ ↦ ?_, by simp⟩
    cases hheading with
    | anonymous => simp [hopening]
    | named hname => simp [hname]
  | @operator token tokens operator operand htoken _ ih =>
    obtain ⟨first, others, rfl, hlike⟩ := ih
    refine ⟨_, _, rfl, ?_, fun _ _ ↦ hlike.begins.ne_assign, by simp⟩
    rw [htoken]
    cases operator <;> simp [BeginsExpression, UnaryOp.kind]
  | ofPrimary _ ih | ofUnary _ _ ih | ofTighter _ _ ih => exact ih
  | @join precedence token tokens others operator left right _ _ htoken _ ih =>
    obtain ⟨first, rest, rfl, hlike⟩ := ih
    refine ⟨first, rest ++ token :: others, rfl, hlike.begins, fun next _ ↦ ?_, by simp⟩
    rw [leading_append]
    refine hlike.ne_assign _ ?_
    rw [leading_cons, htoken]
    exact fun hassign ↦ operator.kind_notMem (by simp [hassign])
  | functionBody hparameters =>
    cases hparameters with
    | none hopening | some hopening => exact ⟨_, _, rfl, hopening⟩
  | noArguments hopening | someArguments hopening => exact ⟨_, _, rfl, hopening⟩
  | lastItem _ ih | moreItems _ _ _ ih =>
    obtain ⟨token, others, rfl, hlike⟩ := ih
    exact ⟨token, _, rfl, hlike.begins⟩
  | noStatement | moreStatements => trivial
  | expressionStatement _ _ _ ih =>
    obtain ⟨token, others, rfl, hlike⟩ := ih
    refine ⟨token, _, rfl, ?_, ?_⟩
    · rintro (hkind | hkind | hkind) <;> simpa [BeginsExpression, hkind] using hlike.begins
    · intro hkind
      simpa [BeginsExpression, hkind] using hlike.begins
  | assignment hname => exact ⟨_, _, rfl, by simp [hname, Closes], by simp [hname]⟩
  | declaration hkeyword | definition hkeyword | returnNothing hkeyword | returnValue hkeyword
  | whileLoop hkeyword | forLoop hkeyword | forStepLoop hkeyword | functionDefinition hkeyword
  | ifElse hkeyword | blockStatement hkeyword =>
    exact ⟨_, _, rfl, by simp [hkeyword, Closes], by simp [hkeyword]⟩

end Grammar

namespace Parser

variable {α β : Type}

/-! ## Elementary parsers before their tokens -/

/-- The parser reads the tokens, whatever stands before them, when `rest` follows. -/
def Reads (parser : Parser α) (value : α) (tokens rest : List Token) : Prop :=
  ∀ behind, parser ⟨tokens ++ rest, behind⟩ = .ok (value, ⟨rest, stopAfter behind tokens⟩)

theorem bind_of_ok {parser : Parser α} {next : α → Parser β} {before middle : Cursor} {value : α}
    (h : parser before = .ok (value, middle)) : (parser >>= next) before = next value middle := by
  rw [bind_apply, h]

theorem expect_cons {kind : Kind} {token : Token} (h : token.kind = kind) (rest : List Token)
    (behind : Nat) : expect kind ⟨token :: rest, behind⟩ = .ok (token, ⟨rest, token.span.stop⟩) :=
  expect_eq_ok.2 ⟨h, rfl, rfl⟩

theorem identifier_cons {token : Token} (h : token.kind = .identifier) (rest : List Token)
    (behind : Nat) :
    identifier ⟨token :: rest, behind⟩ = .ok (token.lexeme, ⟨rest, token.span.stop⟩) :=
  identifier_eq_ok.2 ⟨token, h, rfl, rfl, rfl⟩

theorem skip_cons (token : Token) (rest : List Token) (behind : Nat) :
    skip ⟨token :: rest, behind⟩ = .ok ((), ⟨rest, token.span.stop⟩) := rfl

theorem skipIf_cons {kind : Kind} {token : Token} (h : token.kind = kind) (rest : List Token)
    (behind : Nat) :
    skipIf kind ⟨token :: rest, behind⟩ = .ok (true, ⟨rest, token.span.stop⟩) := by
  simp [skipIf, bind_apply, look, h, skip_cons]

theorem skipIf_of_ne {kind : Kind} {rest : List Token} (h : leading .eof rest ≠ kind)
    (behind : Nat) : skipIf kind ⟨rest, behind⟩ = .ok (false, ⟨rest, behind⟩) := by
  simp [skipIf, bind_apply, look, Cursor.kind_eq_leading, h]

theorem spanFrom_apply (start : Nat) (rest : List Token) (behind : Nat) :
    spanFrom start ⟨rest, behind⟩ = .ok (⟨start, behind⟩, ⟨rest, behind⟩) := rfl

/-! ## Lists -/

/-- Items between commas are read if each item is read before a comma and before a closing
parenthesis. -/
theorem reads_separated {item : Parser α} (one : α → List Token → Prop)
    (many : List α → List Token → Prop) {size : Nat}
    (hcases : ∀ {values tokens}, many values tokens →
      (∃ value, values = [value] ∧ one value tokens) ∨
        ∃ value others first comma second, values = value :: others ∧
          tokens = first ++ comma :: second ∧ one value first ∧ comma.kind = .symbol .comma ∧
          many others second)
    (hitem : ∀ {value tokens rest}, one value tokens → tokens.length ≤ size →
      leading .eof rest ∈ [.symbol .comma, .symbol .rightParen] → item.Reads value tokens rest)
    {rounds : Nat} {values : List α} {tokens rest : List Token} (hmany : many values tokens)
    (hsize : tokens.length ≤ size) (hrounds : tokens.length < rounds)
    (hrest : leading .eof rest = .symbol .rightParen) :
    (separated item rounds).Reads values tokens rest := by
  induction rounds generalizing values tokens with
  | zero => exact absurd hrounds (Nat.not_lt_zero _)
  | succ rounds ih =>
    intro behind
    rw [separated]
    rcases hcases hmany with ⟨value, rfl, hone⟩ |
      ⟨value, others, first, comma, second, rfl, rfl, hone, hcomma, hothers⟩
    · rw [bind_of_ok (hitem hone hsize (by simp [hrest]) behind),
        bind_of_ok (skipIf_of_ne (by simp [hrest]) _)]
      rfl
    · simp only [List.length_append, List.length_cons] at hsize hrounds
      have hfirst : item.Reads value first (comma :: (second ++ rest)) :=
        hitem hone (by omega) (by simp [hcomma])
      have hsecond := ih hothers (by omega) (by omega)
      rw [List.append_assoc, List.cons_append, bind_of_ok (hfirst behind),
        bind_of_ok (skipIf_cons hcomma _ _), if_pos rfl, bind_of_ok (hsecond _), pure_apply]
      simp

theorem reads_listed_nil {item : Parser α} {opening closing : Token}
    (hopening : opening.kind = .symbol .leftParen) (hclosing : closing.kind = .symbol .rightParen)
    (rest : List Token) : (listed item).Reads [] [opening, closing] rest := by
  intro behind
  rw [listed, List.cons_append, bind_of_ok (expect_cons hopening _ _), List.cons_append,
    bind_of_ok (skipIf_cons hclosing _ _)]
  rfl

theorem reads_listed {item : Parser α} {opening closing : Token} {values : List α}
    {tokens rest : List Token} (hopening : opening.kind = .symbol .leftParen)
    (hclosing : closing.kind = .symbol .rightParen)
    (hfirst : leading (.symbol .rightParen) tokens ≠ .symbol .rightParen)
    (hitems : ∀ rounds, tokens.length < rounds →
      (separated item rounds).Reads values tokens (closing :: rest)) :
    (listed item).Reads values (opening :: (tokens ++ [closing])) rest := by
  intro behind
  have hne : leading .eof (tokens ++ closing :: rest) ≠ .symbol .rightParen := by
    rwa [leading_append, leading_cons, hclosing]
  have hrounds : tokens.length < (tokens ++ closing :: rest).length + 1 := by
    rw [List.length_append]
    omega
  rw [listed, List.cons_append, bind_of_ok (expect_cons hopening _ _), List.append_assoc,
    List.singleton_append, bind_of_ok (skipIf_of_ne hne _), if_neg Bool.false_ne_true,
    bind_of_ok (show repeatedly (separated item) _ = _ from hitems _ hrounds _),
    bind_of_ok (expect_cons hclosing _ _), pure_apply]
  simp

theorem reads_parameters {names : List String} {tokens : List Token} (h : Parameters names tokens)
    (rest : List Token) : (listed identifier).Reads names tokens rest := by
  cases h with
  | none hopening hclosing => exact reads_listed_nil hopening hclosing rest
  | @some opening closing _ tokens hopening hnames hclosing =>
    refine reads_listed hopening hclosing ?_ fun rounds hrounds ↦ ?_
    · cases hnames <;> simp [*]
    · refine reads_separated
        (fun name tokens ↦ ∃ token, token.kind = .identifier ∧ token.lexeme = name ∧
          tokens = [token]) Names ?_ ?_ hnames (Nat.le_refl _) hrounds hclosing
      · intro names tokens h
        cases h with
        | one htoken => exact .inl ⟨_, rfl, _, htoken, rfl, rfl⟩
        | more htoken hcomma hnames =>
          exact .inr ⟨_, _, [_], _, _, rfl, rfl, ⟨_, htoken, rfl, rfl⟩, hcomma, hnames⟩
      · rintro name _ rest ⟨token, htoken, rfl, rfl⟩ - - behind
        exact identifier_cons htoken rest behind

/-! ## Expressions -/

/-- The parsers for the enclosed parts read all phrases of less than so many tokens. -/
structure Inner.ReadsBelow (inner : Inner) (size : Nat) : Prop where
  expression : ∀ {tree tokens rest}, Derives (.expression tree) tokens → tokens.length < size →
    Ends 0 (leading .eof rest) → inner.expression.Reads tree tokens rest
  unary : ∀ {tree tokens rest}, Derives (.unary tree) tokens → tokens.length < size →
    leading .eof rest ≠ .symbol .leftParen → inner.unary.Reads tree tokens rest
  block : ∀ {trees tokens rest}, Derives (.block (leading .eof rest) trees) tokens →
    tokens.length < size → Closes (leading .eof rest) → inner.block.Reads trees tokens rest

variable {inner : Inner} {size : Nat}

theorem reads_arguments (hinner : inner.ReadsBelow size) {trees : List Expr} {tokens : List Token}
    (h : Derives (.arguments trees) tokens) (hsize : tokens.length ≤ size) (rest : List Token) :
    (listed inner.expression).Reads trees tokens rest := by
  cases h with
  | noArguments hopening hclosing => exact reads_listed_nil hopening hclosing rest
  | @someArguments opening closing tokens _ hopening hitems hclosing =>
    simp only [List.length_cons, List.length_append, List.length_nil] at hsize
    refine reads_listed hopening hclosing ?_ fun rounds hrounds ↦ ?_
    · obtain ⟨token, others, rfl, hbegins⟩ := hitems.begins
      rintro hkind
      rw [leading_cons] at hkind
      simp [BeginsExpression, hkind] at hbegins
    · refine reads_separated (fun tree ↦ Derives (.expression tree))
        (fun trees ↦ Derives (.items trees)) ?_ ?_ hitems (Nat.le_refl _) hrounds hclosing
      · intro trees tokens h
        cases h with
        | lastItem htree => exact .inl ⟨_, rfl, htree⟩
        | moreItems htree hcomma htrees =>
          exact .inr ⟨_, _, _, _, _, rfl, rfl, htree, hcomma, htrees⟩
      · intro tree tokens' rest htree hlength hmem
        refine hinner.expression htree (by omega) (ends_of_mem 0 ?_)
        simp only [List.mem_cons, List.not_mem_nil, or_false] at hmem
        rcases hmem with hkind | hkind <;> rw [hkind] <;> decide

theorem literalValue?_of_denotes {token : Token} {value : Value} (h : Denotes token value)
    (rest : List Token) (behind : Nat) : literalValue? ⟨token :: rest, behind⟩ = some value := by
  cases h with
  | carried hkind hvalue =>
    simp only [List.mem_cons, List.not_mem_nil, or_false] at hkind
    rcases hkind with hkind | hkind | hkind | hkind | hkind <;> simp [literalValue?, hkind, hvalue]
  | true hkind hvalue | false hkind hvalue | nil hkind hvalue =>
    simp [literalValue?, hkind, hvalue]

theorem reads_functionBody (hinner : inner.ReadsBelow size) {parameters : List String}
    {body : List Stmt} {tokens : List Token} (h : Derives (.functionBody parameters body) tokens)
    (hsize : tokens.length ≤ size) (rest : List Token) :
    (functionBody inner).Reads (parameters, body) tokens rest := by
  cases h with
  | @functionBody keyword tokens others _ _ hparameters hbody hkeyword =>
    simp only [List.length_append, List.length_cons, List.length_nil] at hsize
    intro behind
    have hblock : inner.block.Reads body others (keyword :: rest) :=
      hinner.block (by rwa [leading_cons, hkeyword]) (by omega) (.inl hkeyword)
    rw [functionBody, List.append_assoc, List.append_assoc, List.singleton_append,
      bind_of_ok (reads_parameters hparameters _ _), bind_of_ok (hblock _),
      bind_of_ok (expect_cons hkeyword _ _), pure_apply]
    simp

theorem reads_functionName {heading : List Token} {name : Option String} (h : Heading heading name)
    {rest : List Token} (hrest : leading .eof rest ≠ .identifier) :
    functionName.Reads name heading rest := by
  intro behind
  simp only [functionName, bind_apply, look]
  cases h with
  | anonymous => simp [Cursor.kind_eq_leading, hrest]
  | named htoken => simp [htoken, bind_apply, identifier_cons htoken]

/-- A primary expression is read if no parenthesis follows, which would make a call of a name. -/
theorem reads_primary (hinner : inner.ReadsBelow size) {tree : Expr} {tokens rest : List Token}
    (h : Derives (.primary tree) tokens) (hsize : tokens.length ≤ size)
    (hrest : leading .eof rest ≠ .symbol .leftParen) : (primary inner).Reads tree tokens rest := by
  intro behind
  rw [primary_apply]
  cases h with
  | @literal token value hvalue =>
    have hliteral := literalValue?_of_denotes hvalue rest behind
    have hkind := hvalue.kind_mem
    simp only [List.mem_cons, List.not_mem_nil, or_false] at hkind
    rcases hkind with hkind | hkind | hkind | hkind | hkind <;>
      simp [hkind, literal_apply, hliteral]
  | @name token htoken =>
    have hkind : (Cursor.mk rest token.span.stop).kind ≠ .symbol .leftParen := by
      rwa [Cursor.kind_eq_leading]
    simp [htoken, nameOrCall, bind_apply, identifier_cons htoken, look, hkind, spanFrom]
  | @call token tokens arguments htoken harguments =>
    have hread := reads_arguments hinner harguments (Nat.le_of_succ_le hsize) rest token.span.stop
    have hkind : (Cursor.mk (tokens ++ rest) token.span.stop).kind = .symbol .leftParen := by
      obtain ⟨opening, others, rfl, hopening⟩ := harguments.begins
      exact hopening
    simp [htoken, nameOrCall, bind_apply, identifier_cons htoken, look, hkind, hread, spanFrom]
  | @group opening closing tokens tree hopening htree hclosing =>
    simp only [List.length_cons, List.length_append, List.length_nil] at hsize
    have hread : inner.expression.Reads tree tokens (closing :: rest) :=
      hinner.expression htree (by omega) (ends_of_mem 0 (by simp [hclosing]))
    simp [hopening, group, bind_apply, skip_cons, hread _, expect_cons hclosing, spanFrom_apply]
  | @function keyword heading tokens name parameters body hkeyword hheading hbody =>
    simp only [List.length_cons, List.length_append] at hsize
    have hread := reads_functionBody hinner hbody (by omega) rest
    have hname : functionName.Reads name heading (tokens ++ rest) := by
      refine reads_functionName hheading ?_
      obtain ⟨opening, others, rfl, hopening⟩ := hbody.begins
      simp [hopening]
    simp [hkeyword, function, bind_apply, skip_cons, hname _, hread _, spanFrom_apply]

/-- No primary expression begins with a unary operator. -/
theorem ofKind?_of_primary {tree : Expr} {tokens : List Token} (h : Derives (.primary tree) tokens)
    (next : Kind) : UnaryOp.ofKind? (leading next tokens) = none := by
  cases h with
  | literal hvalue =>
    have hkind := hvalue.kind_mem
    simp only [List.mem_cons, List.not_mem_nil, or_false] at hkind
    rcases hkind with hkind | hkind | hkind | hkind | hkind <;> simp [hkind, UnaryOp.ofKind?]
  | name hkind | call hkind | group hkind | function hkind => simp [hkind, UnaryOp.ofKind?]

theorem reads_unary (hinner : inner.ReadsBelow size) {tree : Expr} {tokens rest : List Token}
    (h : Derives (.unary tree) tokens) (hsize : tokens.length ≤ size)
    (hrest : leading .eof rest ≠ .symbol .leftParen) : (unary inner).Reads tree tokens rest := by
  intro behind
  rw [unary_apply]
  cases h with
  | @operator token tokens operator operand htoken hoperand =>
    have hread := hinner.unary hoperand hsize hrest token.span.stop
    have hkind := UnaryOp.ofKind?_eq_some_iff.2 htoken
    simp [hkind, bind_apply, skip_cons, hread, hoperand.isSpanned.2,
      stop_extent hoperand.isSpanned.1 token.span.stop]
  | ofPrimary htree =>
    rw [Cursor.kind_eq_leading, leading_append, ofKind?_of_primary htree]
    exact reads_primary hinner htree hsize hrest behind

/-- Behind its first operand, the chain of a level goes on to where the phrase ends. -/
theorem exists_operand_of_derives {level : Level} {operand : Parser Expr}
    (hoperand : ∀ {tree tokens rest}, Derives (.binary (level.precedence + 1) tree) tokens →
      tokens.length ≤ size → Ends (level.precedence + 1) (leading .eof rest) →
      operand.Reads tree tokens rest)
    {tree : Expr} {tokens rest : List Token} (h : Derives (.binary level.precedence tree) tokens)
    (hsize : tokens.length ≤ size) (hrest : Ends (level.precedence + 1) (leading .eof rest)) :
    ∃ left first others steps, tokens = first ++ others ∧
      Derives (.binary (level.precedence + 1) left) first ∧
      Ends (level.precedence + 1) (leading .eof (others ++ rest)) ∧ steps ≤ others.length ∧
      ∀ rounds behind, chain level operand (rounds + steps) left ⟨others ++ rest, behind⟩ =
        chain level operand rounds tree ⟨rest, stopAfter behind others⟩ := by
  generalize hform : Form.binary level.precedence tree = form at h
  induction h generalizing tree rest with
  | ofUnary hprecedence =>
    cases hform
    exact absurd hprecedence (by cases level <;> decide)
  | ofTighter _ htree =>
    cases hform
    exact ⟨_, _, [], 0, (List.append_nil _).symm, htree, hrest, Nat.le_refl 0, fun _ _ ↦ rfl⟩
  | @join _ token tokens others operator left right hprecedence hleft htoken hright ih _ =>
    cases hform
    simp only [List.length_append, List.length_cons] at hsize
    have hends : Ends (level.precedence + 1) (leading .eof (token :: (others ++ rest))) := by
      rw [leading_cons, htoken, ← hprecedence]
      exact ends_operator operator
    obtain ⟨start, first, between, steps, rfl, hstart, hfollow, hsteps, hchain⟩ :=
      ih (by omega) hends rfl
    refine ⟨start, first, between ++ token :: others, steps + 1, by simp, hstart, by simpa using
      hfollow, by simp only [List.length_append, List.length_cons]; omega, fun rounds behind ↦ ?_⟩
    have hread := hoperand hright (by omega) hrest token.span.stop
    have hop : level.op? token.kind = some operator := Level.op?_eq_some_iff.2 ⟨hprecedence, htoken⟩
    rw [List.append_assoc, List.cons_append, show rounds + (steps + 1) = rounds + 1 + steps by omega,
      hchain, chain_succ_apply]
    simp only [Cursor.kind_cons, hop, bind_apply, skip_cons, hread]
    rw [extent_join token hleft.expression_ne_nil hright.expression_ne_nil,
      hleft.expression_span, hright.expression_span]
    simp
  | _ => cases hform

theorem reads_binary (hinner : inner.ReadsBelow size) {levels : List Level} {precedence : Nat}
    (hlevels : Level.all.drop precedence = levels) {tree : Expr} {tokens rest : List Token}
    (h : Derives (.binary precedence tree) tokens) (hsize : tokens.length ≤ size)
    (hrest : Ends precedence (leading .eof rest)) : (binary inner levels).Reads tree tokens rest := by
  induction levels generalizing precedence tree tokens rest with
  | nil =>
    have hlength : 7 ≤ precedence := List.drop_eq_nil_iff.1 hlevels
    cases h with
    | ofUnary _ htree => exact reads_unary hinner htree hsize hrest.ne_paren
    | ofTighter hprecedence => omega
    | @join _ _ _ _ operator _ _ hprecedence =>
      have hlt := operator.precedence_lt
      omega
  | cons level tighter ih =>
    obtain ⟨-, rfl, htighter⟩ := Level.precedence_of_drop hlevels
    obtain ⟨left, first, others, steps, rfl, hleft, hfollow, hsteps, hchain⟩ :=
      exists_operand_of_derives (fun htree ↦ ih htighter htree) h hsize
        (hrest.mono (Nat.le_succ _))
    intro behind
    rw [List.length_append] at hsize
    have hrounds : (others ++ rest).length + 1 =
        (rest.length + others.length - steps) + 1 + steps := by
      rw [List.length_append]
      omega
    have hnone : level.op? (Cursor.mk rest (stopAfter behind (first ++ others))).kind = none := by
      rw [Cursor.kind_eq_leading, Option.eq_none_iff_forall_ne_some]
      intro operator hoperator
      obtain ⟨hprecedence, hkind⟩ := Level.op?_eq_some_iff.1 hoperator
      exact hrest.ne_operator operator (Nat.le_of_eq hprecedence.symm) hkind
    rw [binary, List.append_assoc, bind_of_ok (ih htighter hleft (by omega) hfollow behind)]
    rw [repeatedly, hrounds, hchain, chain_succ_apply, ← stopAfter_append, hnone]

theorem reads_expression (hinner : inner.ReadsBelow size) {tree : Expr} {tokens rest : List Token}
    (h : Derives (.expression tree) tokens) (hsize : tokens.length ≤ size)
    (hrest : Ends 0 (leading .eof rest)) : (Parser.expression inner).Reads tree tokens rest :=
  reads_binary hinner rfl h hsize hrest

/-! ## Ends of statements -/

theorem reads_terminator {next : Kind} {ending rest : List Token} (h : Terminator next ending)
    (hnext : leading .eof rest = next) : terminator.Reads () ending rest := by
  intro behind
  rw [terminator_apply]
  cases h with
  | semicolon htoken => simp [htoken]
  | omitted hcloses =>
    have hcloses' := closesBlock_iff.2 hcloses
    have hne : next ≠ .symbol .semicolon := by rcases hcloses with rfl | rfl | rfl <;> decide
    simp [Cursor.kind_eq_leading, hnext, hcloses', hne]

theorem reads_optionalTerminator {ending rest : List Token} (h : OptionalTerminator ending)
    (hrest : leading .eof rest ≠ .symbol .semicolon) : optionalTerminator.Reads () ending rest := by
  intro behind
  cases h with
  | semicolon htoken => simp [optionalTerminator, bind_apply, skipIf_cons htoken]
  | omitted => simp [optionalTerminator, bind_apply, skipIf_of_ne hrest]

/-! ## Statements -/

/-- What begins like an expression and not like a definition is read as one. -/
theorem statement_of_isExpressionLike {token : Token} {others rest : List Token}
    (hlike : IsExpressionLike token others) (hbegin : ¬BeginsDefinition (token :: others))
    (hrest : leading .eof rest ≠ .symbol .assign) (behind : Nat) :
    statement inner ⟨token :: (others ++ rest), behind⟩ =
      expressionStatement inner token.span.start ⟨token :: (others ++ rest), behind⟩ := by
  have hafter : (Cursor.mk (token :: (others ++ rest)) behind).kindAfter =
      leading .eof (others ++ rest) := by
    cases others <;> cases rest <;> rfl
  have hsecond : leading .eof (others ++ rest) ≠ .symbol .assign := by
    rw [leading_append]
    exact hlike.ne_assign _ hrest
  have hdefinition : token.kind = .keyword .function →
      leading .eof (others ++ rest) ≠ .identifier := by
    intro hkeyword hname
    cases others with
    | nil => exact hlike.ne_nil hkeyword rfl
    | cons name others => exact hbegin ⟨hkeyword, hname⟩
  have hkind := hlike.begins
  rw [statement_apply, hafter, Cursor.kind_cons, Cursor.start_cons]
  split
  case h_2 hassign => exact absurd hassign hsecond
  case h_6 hkeyword hname => exact absurd hname (hdefinition hkeyword)
  case h_9 => rfl
  all_goals simp_all [BeginsExpression]

section Statements

variable {tokens rest : List Token} (hinner : inner.ReadsBelow size)
include hinner

/-- The value of a statement that needs a semicolon is read before its end. -/
theorem reads_value {value : Expr} {ending : List Token} (hvalue : Derives (.expression value) tokens)
    (hsize : tokens.length ≤ size) (hending : Terminator (leading .eof rest) ending) :
    (Parser.expression inner).Reads value tokens (ending ++ rest) :=
  reads_expression hinner hvalue hsize (hending.ends rfl 0)

/-- An expression is read before the token that parts it from the rest of its statement. -/
theorem reads_before {value : Expr} (hvalue : Derives (.expression value) tokens)
    (hsize : tokens.length ≤ size) {token : Token} {kind : Kind} (htoken : token.kind = kind)
    (hkind : kind ∈ [.symbol .comma, .keyword .do_, .keyword .then_]) (rest : List Token) :
    (Parser.expression inner).Reads value tokens (token :: rest) := by
  refine reads_expression hinner hvalue hsize (ends_of_mem 0 ?_)
  rw [leading_cons, htoken]
  simp only [List.mem_cons, List.not_mem_nil, or_false] at hkind
  rcases hkind with rfl | rfl | rfl <;> simp

/-- A block is read before the word that closes it. -/
theorem reads_enclosed {kind : Kind} {body : List Stmt} (hbody : Derives (.block kind body) tokens)
    (hsize : tokens.length < size) {closing : Token} (hclosing : closing.kind = kind)
    (hcloses : Closes kind) (rest : List Token) : inner.block.Reads body tokens (closing :: rest) := by
  subst hclosing
  exact hinner.block hbody hsize hcloses

theorem reads_assign {span : Span} {isLocal : Bool} {name : String} {value : Expr}
    (h : Derives (.statement (leading .eof rest) (.assign span isLocal name value)) tokens)
    (hsize : tokens.length ≤ size) (hrest : leading .eof rest ≠ .symbol .semicolon) :
    (statement inner).Reads (.assign span isLocal name value) tokens rest := by
  intro behind
  rw [statement_apply]
  cases h with
  | @declaration _ keyword name ending hkeyword hname hending =>
    have hstop := reads_terminator hending rfl
    have hassign : leading .eof (ending ++ rest) ≠ .symbol .assign :=
      fun hkind ↦ by simpa [hkind] using hending.kind_mem rfl
    simp [hkeyword, localStatement, bind_apply, skip_cons, identifier_cons hname,
      skipIf_of_ne hassign, implicitNil, look, hstop _, spanFrom_apply]
  | definition hkeyword hname hsign hvalue hending =>
    simp only [List.length_cons, List.length_append] at hsize
    have hread := reads_value hinner hvalue (by omega) hending
    have hstop := reads_terminator hending rfl
    simp [hkeyword, localStatement, bind_apply, skip_cons, identifier_cons hname, skipIf_cons hsign,
      hread _, hstop _, spanFrom_apply]
  | assignment hname hsign hvalue hending =>
    simp only [List.length_cons, List.length_append] at hsize
    have hread := reads_value hinner hvalue (by omega) hending
    have hstop := reads_terminator hending rfl
    simp [hname, Cursor.kindAfter, hsign, assignment, bind_apply, skip_cons, identifier_cons hname,
      hread _, hstop _, spanFrom_apply]
  | functionDefinition hkeyword hname hbody hending =>
    simp only [List.length_cons, List.length_append] at hsize
    have hread := reads_functionBody hinner hbody (by omega)
    have hstop := reads_optionalTerminator hending hrest
    simp [hkeyword, Cursor.kindAfter, hname, functionStatement, bind_apply, skip_cons,
      identifier_cons hname, hread _ _, spanFrom_apply, hstop _]

theorem reads_return {span : Span} {value : Expr}
    (h : Derives (.statement (leading .eof rest) (.return_ span value)) tokens)
    (hsize : tokens.length ≤ size) : (statement inner).Reads (.return_ span value) tokens rest := by
  intro behind
  rw [statement_apply]
  cases h with
  | @returnNothing _ keyword ending hkeyword hending =>
    have hstop := reads_terminator hending rfl
    have hkind : ((Cursor.mk (ending ++ rest) keyword.span.stop).kind = .symbol .semicolon ||
        closesBlock (Cursor.mk (ending ++ rest) keyword.span.stop).kind) = true := by
      have hmem := hending.kind_mem rfl
      rw [← Cursor.kind_eq_leading ⟨ending ++ rest, keyword.span.stop⟩] at hmem
      simp only [List.mem_cons, List.not_mem_nil, or_false] at hmem
      rcases hmem with hmem | hmem | hmem | hmem <;> rw [hmem] <;> decide
    rw [List.cons_append]
    simp only [Cursor.kind_cons, hkeyword, returnStatement, bind_apply, skip_cons, look, hkind,
      if_true, implicitNil, hstop _, spanFrom_apply]
    simp
  | @returnValue _ keyword tokens ending _ hkeyword hvalue hending =>
    simp only [List.length_cons, List.length_append] at hsize
    have hread := reads_value hinner hvalue (by omega) hending
    have hstop := reads_terminator hending rfl
    have hkind : ((Cursor.mk (tokens ++ (ending ++ rest)) keyword.span.stop).kind =
          .symbol .semicolon ||
        closesBlock (Cursor.mk (tokens ++ (ending ++ rest)) keyword.span.stop).kind) = false := by
      obtain ⟨token, others, rfl, hlike⟩ := hvalue.begins
      rw [List.cons_append, Cursor.kind_cons]
      exact hlike.begins.continues
    rw [List.cons_append, List.append_assoc]
    simp only [Cursor.kind_cons, hkeyword, returnStatement, bind_apply, skip_cons, look, hkind,
      Bool.false_eq_true, if_false, hread _, hstop _, spanFrom_apply]
    simp

theorem reads_whileLoop {span : Span} {condition : Expr} {body : List Stmt}
    (h : Derives (.statement (leading .eof rest) (.whileLoop span condition body)) tokens)
    (hsize : tokens.length ≤ size) (hrest : leading .eof rest ≠ .symbol .semicolon) :
    (statement inner).Reads (.whileLoop span condition body) tokens rest := by
  intro behind
  rw [statement_apply]
  cases h with
  | whileLoop hkeyword hcondition hopening hbody hclosing hending =>
    simp only [List.length_cons, List.length_append] at hsize
    have hread := reads_before hinner hcondition (by omega) hopening (by simp)
    have hblock := reads_enclosed hinner hbody (by omega) hclosing (.inl rfl)
    have hstop := reads_optionalTerminator hending hrest
    simp [hkeyword, whileStatement, bind_apply, skip_cons, hread _ _, expect_cons hopening,
      hblock _ _, expect_cons hclosing, hstop _, spanFrom_apply]

theorem reads_forLoop {span initSpan : Span} {name : String} {init limit : Expr} {step : Option Expr}
    {body : List Stmt}
    (h : Derives (.statement (leading .eof rest) (.forLoop span initSpan name init limit step body))
      tokens)
    (hsize : tokens.length ≤ size) (hrest : leading .eof rest ≠ .symbol .semicolon) :
    (statement inner).Reads (.forLoop span initSpan name init limit step body) tokens rest := by
  intro behind
  rw [statement_apply]
  cases h with
  | @forLoop _ _ _ _ _ opening closing _ _ others ending _ _ _ hkeyword hname hsign hinit hcomma
      hlimit hopening hbody hclosing hending =>
    simp only [List.length_cons, List.length_append] at hsize
    have hfirst := reads_before hinner hinit (by omega) hcomma (by simp)
    have hlast := reads_before hinner hlimit (by omega) hopening (by simp)
    have hblock := reads_enclosed hinner hbody (by omega) hclosing (.inl rfl)
    have hstop := reads_optionalTerminator hending hrest
    have hstep : leading .eof (opening :: (others ++ closing :: (ending ++ rest))) ≠
        .symbol .comma := by simp [hopening]
    simp [hkeyword, forStatement, bind_apply, skip_cons, look, identifier_cons hname,
      expect_cons hsign, hfirst _ _, spanFrom_apply, expect_cons hcomma, hlast _ _, loopStep,
      skipIf_of_ne hstep, expect_cons hopening, hblock _ _, expect_cons hclosing, hstop _]
  | forStepLoop hkeyword hname hsign hinit hcomma hlimit hcomma' hstep hopening hbody hclosing
      hending =>
    simp only [List.length_cons, List.length_append] at hsize
    have hfirst := reads_before hinner hinit (by omega) hcomma (by simp)
    have hlast := reads_before hinner hlimit (by omega) hcomma' (by simp)
    have hbetween := reads_before hinner hstep (by omega) hopening (by simp)
    have hblock := reads_enclosed hinner hbody (by omega) hclosing (.inl rfl)
    have hstop := reads_optionalTerminator hending hrest
    simp [hkeyword, forStatement, bind_apply, skip_cons, look, identifier_cons hname,
      expect_cons hsign, hfirst _ _, spanFrom_apply, expect_cons hcomma, hlast _ _, loopStep,
      skipIf_cons hcomma', hbetween _ _, expect_cons hopening, hblock _ _, expect_cons hclosing,
      hstop _]

theorem reads_ifElse {span : Span} {condition : Expr} {thenBody elseBody : List Stmt}
    (h : Derives (.statement (leading .eof rest) (.ifElse span condition thenBody elseBody)) tokens)
    (hsize : tokens.length ≤ size) (hrest : leading .eof rest ≠ .symbol .semicolon) :
    (statement inner).Reads (.ifElse span condition thenBody elseBody) tokens rest := by
  intro behind
  rw [statement_apply]
  cases h with
  | ifElse hkeyword hcondition hopening hthen hmiddle helse hclosing hending =>
    simp only [List.length_cons, List.length_append] at hsize
    have hread := reads_before hinner hcondition (by omega) hopening (by simp)
    have hthens := reads_enclosed hinner hthen (by omega) hmiddle (.inr (.inl rfl))
    have helses := reads_enclosed hinner helse (by omega) hclosing (.inl rfl)
    have hstop := reads_optionalTerminator hending hrest
    simp [hkeyword, ifStatement, bind_apply, skip_cons, hread _ _, expect_cons hopening,
      hthens _ _, expect_cons hmiddle, helses _ _, expect_cons hclosing, hstop _, spanFrom_apply]

theorem reads_blockStatement {span : Span} {body : List Stmt}
    (h : Derives (.statement (leading .eof rest) (.block span body)) tokens)
    (hsize : tokens.length ≤ size) (hrest : leading .eof rest ≠ .symbol .semicolon) :
    (statement inner).Reads (.block span body) tokens rest := by
  intro behind
  rw [statement_apply]
  cases h with
  | blockStatement hkeyword hbody hclosing hending =>
    simp only [List.length_cons, List.length_append] at hsize
    have hblock := reads_enclosed hinner hbody (by omega) hclosing (.inl rfl)
    have hstop := reads_optionalTerminator hending hrest
    simp [hkeyword, blockStatement, bind_apply, skip_cons, hblock _ _, expect_cons hclosing, hstop _,
      spanFrom_apply]

theorem reads_expressionStatement {span : Span} {value : Expr}
    (h : Derives (.statement (leading .eof rest) (.expr span value)) tokens)
    (hsize : tokens.length ≤ size) : (statement inner).Reads (.expr span value) tokens rest := by
  intro behind
  cases h with
  | @expressionStatement _ tokens ending _ hvalue hbegin hending =>
    rw [List.length_append] at hsize
    have hread := reads_value hinner hvalue (by omega) hending
    have hstop := reads_terminator hending rfl
    obtain ⟨token, others, rfl, hlike⟩ := hvalue.begins
    have hassign : leading .eof (ending ++ rest) ≠ .symbol .assign :=
      fun hkind ↦ by simpa [hkind] using hending.kind_mem rfl
    rw [List.append_assoc, List.cons_append, statement_of_isExpressionLike hlike hbegin hassign,
      ← List.cons_append]
    simp only [expressionStatement, bind_apply, hread _, hstop _, spanFrom_apply]
    simp

/-- A statement is read if what follows is what it was told and no semicolon, which might belong to
it. -/
theorem reads_statement {tree : Stmt} (h : Derives (.statement (leading .eof rest) tree) tokens)
    (hsize : tokens.length ≤ size) (hrest : leading .eof rest ≠ .symbol .semicolon) :
    (statement inner).Reads tree tokens rest := by
  cases tree with
  | assign => exact reads_assign hinner h hsize hrest
  | block => exact reads_blockStatement hinner h hsize hrest
  | expr => exact reads_expressionStatement hinner h hsize
  | forLoop => exact reads_forLoop hinner h hsize hrest
  | ifElse => exact reads_ifElse hinner h hsize hrest
  | return_ => exact reads_return hinner h hsize
  | whileLoop => exact reads_whileLoop hinner h hsize hrest

end Statements

/-! ## Blocks -/

/-- A block does not begin with a semicolon. -/
theorem leading_block_ne_semicolon {next : Kind} {trees : List Stmt} {tokens rest : List Token}
    (h : Derives (.block next trees) tokens) (hrest : Closes (leading .eof rest)) :
    leading .eof (tokens ++ rest) ≠ .symbol .semicolon := by
  cases h with
  | noStatement =>
    rw [List.nil_append]
    rcases hrest with hrest | hrest | hrest <;> rw [hrest] <;> decide
  | moreStatements htree =>
    obtain ⟨token, others, rfl, -, hne⟩ := htree.begins
    exact hne

theorem reads_statements (hinner : inner.ReadsBelow size) {rounds : Nat} {trees : List Stmt}
    {tokens rest : List Token} (h : Derives (.block (leading .eof rest) trees) tokens)
    (hsize : tokens.length ≤ size) (hrounds : tokens.length < rounds)
    (hrest : Closes (leading .eof rest)) : (statements inner rounds).Reads trees tokens rest := by
  induction rounds generalizing trees tokens with
  | zero => exact absurd hrounds (Nat.not_lt_zero _)
  | succ rounds ih =>
    intro behind
    rw [statements_succ_apply]
    cases h with
    | noStatement =>
      rw [Cursor.kind_eq_leading, List.nil_append, if_pos (closesBlock_iff.2 hrest)]
      rfl
    | @moreStatements _ first others tree trees htree htrees =>
      have hne := leading_block_ne_semicolon htrees hrest
      have hpos := List.length_pos_iff.2 htree.statement_ne_nil
      rw [List.length_append] at hsize hrounds
      rw [← leading_append] at htree
      have hfirst : (statement inner).Reads tree first (others ++ rest) :=
        reads_statement hinner htree (by omega) hne
      have hothers : (statements inner rounds).Reads trees others rest :=
        ih htrees (by omega) (by omega)
      have hopen : ¬closesBlock (Cursor.mk (first ++ others ++ rest) behind).kind := by
        obtain ⟨token, tokens, rfl, hcloses, -⟩ := htree.begins
        exact fun hkind ↦ hcloses (closesBlock_iff.1 hkind)
      rw [if_neg hopen, List.append_assoc, bind_of_ok (hfirst behind), bind_of_ok (hothers _),
        pure_apply, stopAfter_append]

theorem reads_block (hinner : inner.ReadsBelow size) {trees : List Stmt} {tokens rest : List Token}
    (h : Derives (.block (leading .eof rest) trees) tokens) (hsize : tokens.length ≤ size)
    (hrest : Closes (leading .eof rest)) : (block inner).Reads trees tokens rest := by
  intro behind
  have hrounds : tokens.length < (tokens ++ rest).length + 1 := by
    rw [List.length_append]
    omega
  exact reads_statements hinner h hsize hrounds hrest behind

/-- The parsers for enclosed parts read all phrases that are shorter than they go deep. -/
theorem Inner.readsBelow_ofDepth (depth : Nat) : (Inner.ofDepth depth).ReadsBelow depth := by
  induction depth with
  | zero => constructor <;> intros <;> omega
  | succ depth ih =>
    constructor
    · exact fun h hsize hrest ↦ reads_expression ih h (Nat.le_of_lt_succ hsize) hrest
    · exact fun h hsize hrest ↦ reads_unary ih h (Nat.le_of_lt_succ hsize) hrest
    · exact fun h hsize hrest ↦ reads_block ih h (Nat.le_of_lt_succ hsize) hrest

/-- Every program is read as one. -/
theorem program_of_isProgram {depth : Nat} {tokens : List Token} {tree : Program}
    (h : IsProgram tokens tree) (hdepth : tokens.length ≤ depth) (behind : Nat) :
    program (.ofDepth depth) ⟨tokens, behind⟩ = .ok (tree, ⟨[], stopAfter behind tokens⟩) := by
  have hread : (block (.ofDepth depth)).Reads tree tokens [] :=
    reads_block (Inner.readsBelow_ofDepth depth) h hdepth (.inr (.inr rfl))
  have hblock := hread behind
  rw [List.append_nil] at hblock
  rw [program, bind_of_ok hblock]
  rfl

end Parser

end ScopeScript
