import ScopeScript.Token.Basic
import ScopeScript.Tree.Basic

/-!
# The grammar of programs

Which rows of tokens are programs, and the tree that each of them stands for. A phrase is a row of
tokens of some form; the form carries the tree. Below a precedence from zero to six stand the
operands of the binary operators of that precedence, below seven the unary operators, and below
these the primary expressions. A binary phrase may have a phrase of its own precedence on the left
and a tighter one on the right, so operators of one precedence associate to the left.

A statement is told the kind of the token behind it, because the semicolon may be missing before
the end of a block or of the text. Nothing here reads tokens in order or gives up on them.
-/

namespace ScopeScript

/-! ## Operators -/

/-- The kind of token that spells a unary operator. -/
def UnaryOp.kind : UnaryOp → Kind
  | length => .symbol .hash
  | negate => .symbol .minus
  | not => .keyword .not

namespace BinaryOp

/-- The kind of token that spells a binary operator. -/
def kind : BinaryOp → Kind
  | or => .keyword .or
  | and => .keyword .and
  | equal => .symbol .equal
  | notEqual => .symbol .notEqual
  | order .less => .symbol .less
  | order .lessEqual => .symbol .lessEqual
  | order .greater => .symbol .greater
  | order .greaterEqual => .symbol .greaterEqual
  | concat => .symbol .dots
  | arithmetic .add => .symbol .plus
  | arithmetic .subtract => .symbol .minus
  | arithmetic .multiply => .symbol .star
  | arithmetic .divide => .symbol .slash
  | arithmetic .modulo => .symbol .percent

/-- How tightly a binary operator binds. -/
def precedence : BinaryOp → Nat
  | or => 0
  | and => 1
  | equal | notEqual => 2
  | order _ => 3
  | concat => 4
  | arithmetic .add | arithmetic .subtract => 5
  | arithmetic .multiply | arithmetic .divide | arithmetic .modulo => 6

theorem mem_all (operator : BinaryOp) : operator ∈ all := by
  rcases operator with _ | _ | _ | _ | (_ | _ | _ | _) | _ | (_ | _ | _ | _ | _) <;> decide

theorem precedence_lt (operator : BinaryOp) : operator.precedence < 7 := by
  have hall : ∀ operator ∈ all, operator.precedence < 7 := by decide
  exact hall operator operator.mem_all

/-- Binary operators are told apart by their tokens. -/
theorem kind_injective {operator other : BinaryOp} (h : operator.kind = other.kind) :
    operator = other := by
  have hall : ∀ operator ∈ all, ∀ other ∈ all, operator.kind = other.kind → operator = other := by
    decide
  exact hall operator operator.mem_all other other.mem_all h

/-- No operator is spelled like what stands around expressions. -/
theorem kind_notMem (operator : BinaryOp) :
    operator.kind ∉ [.symbol .leftParen, .symbol .rightParen, .symbol .comma, .symbol .semicolon,
      .symbol .assign, .keyword .do_, .keyword .then_, .keyword .end_, .keyword .else_, .eof] := by
  have hall : ∀ operator ∈ all, operator.kind ∉ [.symbol .leftParen, .symbol .rightParen,
      .symbol .comma, .symbol .semicolon, .symbol .assign, .keyword .do_, .keyword .then_,
      .keyword .end_, .keyword .else_, .eof] := by decide
  exact hall operator operator.mem_all

end BinaryOp

/-! ## Rows of tokens -/

/-- Where the last of the tokens ends, or `behind` if there are none. -/
def stopAfter (behind : Nat) : List Token → Nat
  | [] => behind
  | token :: tokens => stopAfter token.span.stop tokens

/-- The text from the first to the last of the tokens. -/
def extent : List Token → Span
  | [] => .point 0
  | token :: tokens => ⟨token.span.start, stopAfter token.span.stop tokens⟩

/-- The kind of the first of the tokens, or of what comes next if there are none. -/
def leading (next : Kind) : List Token → Kind
  | [] => next
  | token :: _ => token.kind

@[simp]
theorem stopAfter_nil (behind : Nat) : stopAfter behind [] = behind := rfl

@[simp]
theorem stopAfter_cons (behind : Nat) (token : Token) (tokens : List Token) :
    stopAfter behind (token :: tokens) = stopAfter token.span.stop tokens := rfl

@[simp]
theorem stopAfter_append (behind : Nat) (tokens others : List Token) :
    stopAfter behind (tokens ++ others) = stopAfter (stopAfter behind tokens) others := by
  induction tokens generalizing behind with
  | nil => rfl
  | cons token tokens ih => exact ih token.span.stop

@[simp]
theorem extent_cons (token : Token) (tokens : List Token) :
    extent (token :: tokens) = ⟨token.span.start, stopAfter token.span.stop tokens⟩ := rfl

@[simp]
theorem leading_nil (next : Kind) : leading next [] = next := rfl

@[simp]
theorem leading_cons (next : Kind) (token : Token) (tokens : List Token) :
    leading next (token :: tokens) = token.kind := rfl

@[simp]
theorem leading_append (next : Kind) (tokens others : List Token) :
    leading next (tokens ++ others) = leading (leading next others) tokens := by
  cases tokens <;> rfl

theorem stop_extent {tokens : List Token} (h : tokens ≠ []) (behind : Nat) :
    (extent tokens).stop = stopAfter behind tokens := by
  cases tokens with
  | nil => exact absurd rfl h
  | cons token tokens => rfl

/-- The text of two rows and a token between them reaches from the beginning of the one to the end
of the other. -/
theorem extent_join {tokens others : List Token} (token : Token) (h : tokens ≠ [])
    (h' : others ≠ []) :
    extent (tokens ++ token :: others) = ⟨(extent tokens).start, (extent others).stop⟩ := by
  cases tokens with
  | nil => exact absurd rfl h
  | cons first tokens =>
    cases others with
    | nil => exact absurd rfl h'
    | cons other others => simp

namespace Grammar

/-! ## Small phrases -/

/-- A token that is an expression by itself, and its value. The value that the token carries counts;
without one, only a word that denotes a value has it. -/
inductive Denotes (token : Token) : Value → Prop
  | carried {value : Value}
      (hkind : token.kind ∈
        [.number, .string, .keyword .true, .keyword .false, .keyword .nil])
      (hvalue : token.literal = some value) : Denotes token value
  | true (hkind : token.kind = .keyword .true) (hvalue : token.literal = none) :
      Denotes token (.bool true)
  | false (hkind : token.kind = .keyword .false) (hvalue : token.literal = none) :
      Denotes token (.bool false)
  | nil (hkind : token.kind = .keyword .nil) (hvalue : token.literal = none) :
      Denotes token .nil

/-- The name that a function literal may have. -/
inductive Heading : List Token → Option String → Prop
  | anonymous : Heading [] none
  | named {token : Token} (htoken : token.kind = .identifier) :
      Heading [token] (some token.lexeme)

/-- The kinds of tokens before which a semicolon may be missing. -/
def Closes (kind : Kind) : Prop :=
  kind = .keyword .end_ ∨ kind = .keyword .else_ ∨ kind = .eof

/-- The end of a statement that needs a semicolon. -/
inductive Terminator (next : Kind) : List Token → Prop
  | semicolon {token : Token} (htoken : token.kind = .symbol .semicolon) : Terminator next [token]
  | omitted (hnext : Closes next) : Terminator next []

/-- The end of a statement that needs no semicolon. -/
inductive OptionalTerminator : List Token → Prop
  | semicolon {token : Token} (htoken : token.kind = .symbol .semicolon) :
      OptionalTerminator [token]
  | omitted : OptionalTerminator []

/-- Names between commas. -/
inductive Names : List String → List Token → Prop
  | one {token : Token} (htoken : token.kind = .identifier) : Names [token.lexeme] [token]
  | more {token comma : Token} {names : List String} {tokens : List Token}
      (htoken : token.kind = .identifier) (hcomma : comma.kind = .symbol .comma)
      (hnames : Names names tokens) : Names (token.lexeme :: names) (token :: comma :: tokens)

/-- The parameters of a function with their parentheses. -/
inductive Parameters : List String → List Token → Prop
  | none {opening closing : Token} (hopening : opening.kind = .symbol .leftParen)
      (hclosing : closing.kind = .symbol .rightParen) : Parameters [] [opening, closing]
  | some {opening closing : Token} {names : List String} {tokens : List Token}
      (hopening : opening.kind = .symbol .leftParen) (hnames : Names names tokens)
      (hclosing : closing.kind = .symbol .rightParen) :
      Parameters names (opening :: (tokens ++ [closing]))

/-- The tokens begin like the definition of a function. -/
inductive BeginsDefinition : List Token → Prop
  | intro {keyword name : Token} {tokens : List Token}
      (hkeyword : keyword.kind = .keyword .function) (hname : name.kind = .identifier) :
      BeginsDefinition (keyword :: name :: tokens)

/-- Whether a row begins like a definition is seen from its first two tokens. -/
theorem BeginsDefinition.congr {tokens others others' : List Token} (hlength : 2 ≤ tokens.length)
    (h : BeginsDefinition (tokens ++ others)) : BeginsDefinition (tokens ++ others') := by
  rcases tokens with _ | ⟨keyword, _ | ⟨name, tokens⟩⟩
  · simp at hlength
  · simp at hlength
  · cases h with
    | intro hkeyword hname => exact .intro hkeyword hname

theorem BeginsDefinition.kind_eq {token : Token} {tokens : List Token}
    (h : BeginsDefinition (token :: tokens)) : token.kind = .keyword .function := by
  cases h with
  | intro hkeyword _ => exact hkeyword

/-! ## Phrases -/

/-- The forms of phrases, each with what the phrase stands for. A statement and a block know the
kind of the token behind them. -/
inductive Form where
  | primary (tree : Expr)
  | unary (tree : Expr)
  | binary (precedence : Nat) (tree : Expr)
  | items (trees : List Expr)
  | arguments (trees : List Expr)
  | functionBody (parameters : List String) (body : List Stmt)
  | statement (next : Kind) (tree : Stmt)
  | block (next : Kind) (trees : List Stmt)

/-- An expression is a binary phrase of the loosest precedence. -/
abbrev Form.expression (tree : Expr) : Form := .binary 0 tree

/-- The tokens are a phrase of the form. Every node of the tree has the extent of its phrase as its
span. -/
inductive Derives : Form → List Token → Prop
  /-- A literal. -/
  | literal {token : Token} {value : Value} (hvalue : Denotes token value) :
      Derives (.primary (.literal token.span value)) [token]
  /-- `NAME` -/
  | name {token : Token} (htoken : token.kind = .identifier) :
      Derives (.primary (.name token.span token.lexeme)) [token]
  /-- `NAME ARGUMENTS` -/
  | call {token : Token} {tokens : List Token} {arguments : List Expr}
      (htoken : token.kind = .identifier) (harguments : Derives (.arguments arguments) tokens) :
      Derives (.primary (.call (extent (token :: tokens)) token.lexeme arguments))
        (token :: tokens)
  /-- `( EXPRESSION )` -/
  | group {opening closing : Token} {tokens : List Token} {inner : Expr}
      (hopening : opening.kind = .symbol .leftParen) (hinner : Derives (.expression inner) tokens)
      (hclosing : closing.kind = .symbol .rightParen) :
      Derives (.primary (.group (extent (opening :: (tokens ++ [closing]))) inner))
        (opening :: (tokens ++ [closing]))
  /-- `function [NAME] BODY` -/
  | function {keyword : Token} {heading tokens : List Token} {name : Option String}
      {parameters : List String} {body : List Stmt} (hkeyword : keyword.kind = .keyword .function)
      (hheading : Heading heading name) (hbody : Derives (.functionBody parameters body) tokens) :
      Derives (.primary (.function (extent (keyword :: (heading ++ tokens))) name parameters body))
        (keyword :: (heading ++ tokens))
  /-- `OPERATOR UNARY` -/
  | operator {token : Token} {tokens : List Token} {operator : UnaryOp} {operand : Expr}
      (htoken : token.kind = operator.kind) (hoperand : Derives (.unary operand) tokens) :
      Derives (.unary (.unary (extent (token :: tokens)) operator operand)) (token :: tokens)
  /-- `PRIMARY` -/
  | ofPrimary {tokens : List Token} {tree : Expr} (htree : Derives (.primary tree) tokens) :
      Derives (.unary tree) tokens
  /-- `UNARY` -/
  | ofUnary {precedence : Nat} {tokens : List Token} {tree : Expr} (hprecedence : precedence = 7)
      (htree : Derives (.unary tree) tokens) : Derives (.binary precedence tree) tokens
  /-- A phrase of the next tighter precedence. -/
  | ofTighter {precedence : Nat} {tokens : List Token} {tree : Expr} (hprecedence : precedence < 7)
      (htree : Derives (.binary (precedence + 1) tree) tokens) :
      Derives (.binary precedence tree) tokens
  /-- Two operands, the left one of the same precedence and the right one of the next tighter. -/
  | join {precedence : Nat} {token : Token} {tokens others : List Token} {operator : BinaryOp}
      {left right : Expr} (hprecedence : operator.precedence = precedence)
      (hleft : Derives (.binary precedence left) tokens) (htoken : token.kind = operator.kind)
      (hright : Derives (.binary (precedence + 1) right) others) :
      Derives (.binary precedence
          (.binary (extent (tokens ++ token :: others)) operator left right))
        (tokens ++ token :: others)
  /-- `EXPRESSION` -/
  | lastItem {tokens : List Token} {tree : Expr} (htree : Derives (.expression tree) tokens) :
      Derives (.items [tree]) tokens
  /-- `EXPRESSION , ITEMS` -/
  | moreItems {comma : Token} {tokens others : List Token} {tree : Expr} {trees : List Expr}
      (htree : Derives (.expression tree) tokens) (hcomma : comma.kind = .symbol .comma)
      (htrees : Derives (.items trees) others) :
      Derives (.items (tree :: trees)) (tokens ++ comma :: others)
  /-- `( )` -/
  | noArguments {opening closing : Token} (hopening : opening.kind = .symbol .leftParen)
      (hclosing : closing.kind = .symbol .rightParen) : Derives (.arguments []) [opening, closing]
  /-- `( ITEMS )` -/
  | someArguments {opening closing : Token} {tokens : List Token} {trees : List Expr}
      (hopening : opening.kind = .symbol .leftParen) (htrees : Derives (.items trees) tokens)
      (hclosing : closing.kind = .symbol .rightParen) :
      Derives (.arguments trees) (opening :: (tokens ++ [closing]))
  /-- `PARAMETERS BLOCK end` -/
  | functionBody {keyword : Token} {tokens others : List Token} {parameters : List String}
      {body : List Stmt} (hparameters : Parameters parameters tokens)
      (hbody : Derives (.block (.keyword .end_) body) others)
      (hkeyword : keyword.kind = .keyword .end_) :
      Derives (.functionBody parameters body) (tokens ++ (others ++ [keyword]))
  /-- `local NAME TERMINATOR` -/
  | declaration {next : Kind} {keyword name : Token} {ending : List Token}
      (hkeyword : keyword.kind = .keyword .local_) (hname : name.kind = .identifier)
      (hending : Terminator next ending) :
      Derives (.statement next (.assign (extent (keyword :: name :: ending)) true name.lexeme
          (.literal (.point name.span.stop) .nil)))
        (keyword :: name :: ending)
  /-- `local NAME = EXPRESSION TERMINATOR` -/
  | definition {next : Kind} {keyword name sign : Token} {tokens ending : List Token} {value : Expr}
      (hkeyword : keyword.kind = .keyword .local_) (hname : name.kind = .identifier)
      (hsign : sign.kind = .symbol .assign) (hvalue : Derives (.expression value) tokens)
      (hending : Terminator next ending) :
      Derives (.statement next (.assign
          (extent (keyword :: name :: sign :: (tokens ++ ending))) true name.lexeme value))
        (keyword :: name :: sign :: (tokens ++ ending))
  /-- `NAME = EXPRESSION TERMINATOR` -/
  | assignment {next : Kind} {name sign : Token} {tokens ending : List Token} {value : Expr}
      (hname : name.kind = .identifier) (hsign : sign.kind = .symbol .assign)
      (hvalue : Derives (.expression value) tokens) (hending : Terminator next ending) :
      Derives (.statement next (.assign (extent (name :: sign :: (tokens ++ ending))) false
          name.lexeme value))
        (name :: sign :: (tokens ++ ending))
  /-- `return TERMINATOR` -/
  | returnNothing {next : Kind} {keyword : Token} {ending : List Token}
      (hkeyword : keyword.kind = .keyword .return_) (hending : Terminator next ending) :
      Derives (.statement next (.return_ (extent (keyword :: ending))
          (.literal (.point keyword.span.stop) .nil)))
        (keyword :: ending)
  /-- `return EXPRESSION TERMINATOR` -/
  | returnValue {next : Kind} {keyword : Token} {tokens ending : List Token} {value : Expr}
      (hkeyword : keyword.kind = .keyword .return_) (hvalue : Derives (.expression value) tokens)
      (hending : Terminator next ending) :
      Derives (.statement next (.return_ (extent (keyword :: (tokens ++ ending))) value))
        (keyword :: (tokens ++ ending))
  /-- `while EXPRESSION do BLOCK end [;]` -/
  | whileLoop {next : Kind} {keyword opening closing : Token} {tokens others ending : List Token}
      {condition : Expr} {body : List Stmt} (hkeyword : keyword.kind = .keyword .while_)
      (hcondition : Derives (.expression condition) tokens)
      (hopening : opening.kind = .keyword .do_)
      (hbody : Derives (.block (.keyword .end_) body) others)
      (hclosing : closing.kind = .keyword .end_) (hending : OptionalTerminator ending) :
      Derives (.statement next (.whileLoop
          (extent (keyword :: (tokens ++ opening :: (others ++ closing :: ending)))) condition body))
        (keyword :: (tokens ++ opening :: (others ++ closing :: ending)))
  /-- `for NAME = EXPRESSION , EXPRESSION do BLOCK end [;]` -/
  | forLoop {next : Kind} {keyword name sign comma opening closing : Token}
      {first last others ending : List Token} {init limit : Expr} {body : List Stmt}
      (hkeyword : keyword.kind = .keyword .for_) (hname : name.kind = .identifier)
      (hsign : sign.kind = .symbol .assign) (hinit : Derives (.expression init) first)
      (hcomma : comma.kind = .symbol .comma) (hlimit : Derives (.expression limit) last)
      (hopening : opening.kind = .keyword .do_)
      (hbody : Derives (.block (.keyword .end_) body) others)
      (hclosing : closing.kind = .keyword .end_) (hending : OptionalTerminator ending) :
      Derives (.statement next (.forLoop
          (extent (keyword :: name :: sign ::
            (first ++ comma :: (last ++ opening :: (others ++ closing :: ending)))))
          (extent (name :: sign :: first)) name.lexeme init limit none body))
        (keyword :: name :: sign ::
          (first ++ comma :: (last ++ opening :: (others ++ closing :: ending))))
  /-- `for NAME = EXPRESSION , EXPRESSION , EXPRESSION do BLOCK end [;]` -/
  | forStepLoop {next : Kind} {keyword name sign comma comma' opening closing : Token}
      {first last between others ending : List Token} {init limit step : Expr} {body : List Stmt}
      (hkeyword : keyword.kind = .keyword .for_) (hname : name.kind = .identifier)
      (hsign : sign.kind = .symbol .assign) (hinit : Derives (.expression init) first)
      (hcomma : comma.kind = .symbol .comma) (hlimit : Derives (.expression limit) last)
      (hcomma' : comma'.kind = .symbol .comma) (hstep : Derives (.expression step) between)
      (hopening : opening.kind = .keyword .do_)
      (hbody : Derives (.block (.keyword .end_) body) others)
      (hclosing : closing.kind = .keyword .end_) (hending : OptionalTerminator ending) :
      Derives (.statement next (.forLoop
          (extent (keyword :: name :: sign :: (first ++ comma ::
            (last ++ comma' :: (between ++ opening :: (others ++ closing :: ending))))))
          (extent (name :: sign :: first)) name.lexeme init limit (some step) body))
        (keyword :: name :: sign :: (first ++ comma ::
          (last ++ comma' :: (between ++ opening :: (others ++ closing :: ending)))))
  /-- `function NAME BODY [;]` -/
  | functionDefinition {next : Kind} {keyword name : Token} {tokens ending : List Token}
      {parameters : List String} {body : List Stmt} (hkeyword : keyword.kind = .keyword .function)
      (hname : name.kind = .identifier) (hbody : Derives (.functionBody parameters body) tokens)
      (hending : OptionalTerminator ending) :
      Derives (.statement next (.assign (extent (keyword :: name :: (tokens ++ ending))) false
          name.lexeme
          (.function (extent (keyword :: name :: tokens)) (some name.lexeme) parameters body)))
        (keyword :: name :: (tokens ++ ending))
  /-- `if EXPRESSION then BLOCK else BLOCK end [;]` -/
  | ifElse {next : Kind} {keyword opening middle closing : Token}
      {tokens thens elses ending : List Token} {condition : Expr} {thenBody elseBody : List Stmt}
      (hkeyword : keyword.kind = .keyword .if_)
      (hcondition : Derives (.expression condition) tokens)
      (hopening : opening.kind = .keyword .then_)
      (hthen : Derives (.block (.keyword .else_) thenBody) thens)
      (hmiddle : middle.kind = .keyword .else_)
      (helse : Derives (.block (.keyword .end_) elseBody) elses)
      (hclosing : closing.kind = .keyword .end_) (hending : OptionalTerminator ending) :
      Derives (.statement next (.ifElse
          (extent (keyword :: (tokens ++ opening ::
            (thens ++ middle :: (elses ++ closing :: ending)))))
          condition thenBody elseBody))
        (keyword :: (tokens ++ opening :: (thens ++ middle :: (elses ++ closing :: ending))))
  /-- `do BLOCK end [;]` -/
  | blockStatement {next : Kind} {keyword closing : Token} {tokens ending : List Token}
      {body : List Stmt} (hkeyword : keyword.kind = .keyword .do_)
      (hbody : Derives (.block (.keyword .end_) body) tokens)
      (hclosing : closing.kind = .keyword .end_) (hending : OptionalTerminator ending) :
      Derives (.statement next (.block (extent (keyword :: (tokens ++ closing :: ending))) body))
        (keyword :: (tokens ++ closing :: ending))
  /-- `EXPRESSION TERMINATOR`, unless it begins like the definition of a function. -/
  | expressionStatement {next : Kind} {tokens ending : List Token} {value : Expr}
      (hvalue : Derives (.expression value) tokens) (hbegin : ¬BeginsDefinition tokens)
      (hending : Terminator next ending) :
      Derives (.statement next (.expr (extent (tokens ++ ending)) value)) (tokens ++ ending)
  /-- The end of a block. -/
  | noStatement {next : Kind} : Derives (.block next []) []
  /-- `STATEMENT BLOCK` -/
  | moreStatements {next : Kind} {tokens others : List Token} {tree : Stmt} {trees : List Stmt}
      (htree : Derives (.statement (leading next others) tree) tokens)
      (htrees : Derives (.block next trees) others) :
      Derives (.block next (tree :: trees)) (tokens ++ others)

/-- A phrase may stand wherever a looser one may. -/
theorem Derives.loosen {precedence other : Nat} {tree : Expr} {tokens : List Token}
    (h : Derives (.binary other tree) tokens) (hle : precedence ≤ other) (hother : other ≤ 7) :
    Derives (.binary precedence tree) tokens := by
  obtain ⟨distance, rfl⟩ := Nat.exists_eq_add_of_le hle
  induction distance with
  | zero => exact h
  | succ distance ih =>
    have hlt : precedence + distance < 7 := hother
    exact ih (.ofTighter hlt h) (Nat.le_add_right _ _) (Nat.le_of_lt hlt)

/-- A primary expression may stand wherever an expression may. -/
theorem Derives.binary_of_primary {precedence : Nat} {tree : Expr} {tokens : List Token}
    (h : Derives (.primary tree) tokens) (hle : precedence ≤ 7) :
    Derives (.binary precedence tree) tokens :=
  (Derives.ofUnary rfl (.ofPrimary h)).loosen hle (Nat.le_refl 7)

/-! ## Extents -/

/-- What holds of the phrases of a form that stand for one node. -/
def Form.IsSpanned : Form → List Token → Prop
  | .primary tree, tokens | .unary tree, tokens | .binary _ tree, tokens =>
    tokens ≠ [] ∧ tree.span = extent tokens
  | .statement _ tree, tokens => tokens ≠ [] ∧ tree.span = extent tokens
  | _, _ => True

theorem Derives.isSpanned {form : Form} {tokens : List Token} (h : Derives form tokens) :
    form.IsSpanned tokens := by
  induction h with
  | ofPrimary _ ih | ofUnary _ _ ih | ofTighter _ _ ih => exact ih
  | expressionStatement _ _ _ ih => exact ⟨by simp [ih.1], rfl⟩
  | _ => simp [Form.IsSpanned, Expr.span, Stmt.span]

/-- An expression has at least one token. -/
theorem Derives.expression_ne_nil {precedence : Nat} {tree : Expr} {tokens : List Token}
    (h : Derives (.binary precedence tree) tokens) : tokens ≠ [] :=
  h.isSpanned.1

/-- The span of an expression is the extent of its tokens. -/
theorem Derives.expression_span {precedence : Nat} {tree : Expr} {tokens : List Token}
    (h : Derives (.binary precedence tree) tokens) : tree.span = extent tokens :=
  h.isSpanned.2

/-- A statement has at least one token. -/
theorem Derives.statement_ne_nil {next : Kind} {tree : Stmt} {tokens : List Token}
    (h : Derives (.statement next tree) tokens) : tokens ≠ [] :=
  h.isSpanned.1

/-- The tokens, none of which marks the end, are a program with this tree. -/
def IsProgram (tokens : List Token) (program : Program) : Prop :=
  Derives (.block .eof program) tokens

end Grammar

end ScopeScript
