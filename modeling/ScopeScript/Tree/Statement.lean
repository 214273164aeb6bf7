import ScopeScript.Tree.Expression

/-!
# Reading statements

The next token decides the form of a statement; a name needs the token after it, which tells an
assignment from an expression, and so does the word that begins a function. Statements that end in a
word may be followed by a semicolon, the others must be, unless a block or the text ends there.
-/

namespace ScopeScript.Parser

/-! ## Ends of statements -/

/-- Whether a token of this kind, or the end of the text, closes a block. -/
def closesBlock : Kind → Bool
  | .keyword .end_ | .keyword .else_ | .eof => true
  | _ => false

/-- The semicolon behind a statement, which may be missing before the end of a block. -/
def terminator : Parser Unit := do
  let kind ← look Cursor.kind
  if kind = .symbol .semicolon then skip
  else if closesBlock kind then return ()
  else refuse (.token (.symbol .semicolon))

/-- The semicolon behind a statement that needs none. -/
def optionalTerminator : Parser Unit := do
  let _ ← skipIf (.symbol .semicolon)

/-- The value that is meant when none is written: nil, at the end of what was read. -/
def implicitNil : Parser Expr :=
  look fun cursor ↦ .literal (.point cursor.behind) .nil

/-! ## Forms -/

/-- `local NAME` with or without `= EXPRESSION`. -/
def localStatement (inner : Inner) (start : Nat) : Parser Stmt := do
  skip
  let name ← identifier
  let value ← if ← skipIf (.symbol .assign) then expression inner else implicitNil
  terminator
  return .assign (← spanFrom start) true name value

/-- `NAME = EXPRESSION`. -/
def assignment (inner : Inner) (start : Nat) : Parser Stmt := do
  let name ← identifier
  skip
  let value ← expression inner
  terminator
  return .assign (← spanFrom start) false name value

/-- `return` with or without an expression. -/
def returnStatement (inner : Inner) (start : Nat) : Parser Stmt := do
  skip
  let kind ← look Cursor.kind
  let value ←
    if kind = .symbol .semicolon || closesBlock kind then implicitNil else expression inner
  terminator
  return .return_ (← spanFrom start) value

/-- `while EXPRESSION do BLOCK end`. -/
def whileStatement (inner : Inner) (start : Nat) : Parser Stmt := do
  skip
  let condition ← expression inner
  let _ ← expect (.keyword .do_)
  let body ← inner.block
  let _ ← expect (.keyword .end_)
  optionalTerminator
  return .whileLoop (← spanFrom start) condition body

/-- The step of a counting loop, if it has one. -/
def loopStep (inner : Inner) : Parser (Option Expr) := do
  if ← skipIf (.symbol .comma) then
    return some (← expression inner)
  else
    return none

/-- `for NAME = EXPRESSION, EXPRESSION do BLOCK end`, with or without a step before `do`. -/
def forStatement (inner : Inner) (start : Nat) : Parser Stmt := do
  skip
  let initStart ← look Cursor.start
  let name ← identifier
  let _ ← expect (.symbol .assign)
  let init ← expression inner
  let initSpan ← spanFrom initStart
  let _ ← expect (.symbol .comma)
  let limit ← expression inner
  let step ← loopStep inner
  let _ ← expect (.keyword .do_)
  let body ← inner.block
  let _ ← expect (.keyword .end_)
  optionalTerminator
  return .forLoop (← spanFrom start) initSpan name init limit step body

/-- `function NAME (PARAMETERS) BLOCK end`, which assigns the function to the name. -/
def functionStatement (inner : Inner) (start : Nat) : Parser Stmt := do
  skip
  let name ← identifier
  let (parameters, body) ← functionBody inner
  let value := Expr.function (← spanFrom start) (some name) parameters body
  optionalTerminator
  return .assign (← spanFrom start) false name value

/-- `if EXPRESSION then BLOCK else BLOCK end`. -/
def ifStatement (inner : Inner) (start : Nat) : Parser Stmt := do
  skip
  let condition ← expression inner
  let _ ← expect (.keyword .then_)
  let thenBody ← inner.block
  let _ ← expect (.keyword .else_)
  let elseBody ← inner.block
  let _ ← expect (.keyword .end_)
  optionalTerminator
  return .ifElse (← spanFrom start) condition thenBody elseBody

/-- `do BLOCK end`. -/
def blockStatement (inner : Inner) (start : Nat) : Parser Stmt := do
  skip
  let body ← inner.block
  let _ ← expect (.keyword .end_)
  optionalTerminator
  return .block (← spanFrom start) body

/-- `EXPRESSION`. -/
def expressionStatement (inner : Inner) (start : Nat) : Parser Stmt := do
  let value ← expression inner
  terminator
  return .expr (← spanFrom start) value

/-! ## Sequences -/

/-- Any statement. -/
def statement (inner : Inner) : Parser Stmt := do
  let start ← look Cursor.start
  match ← look Cursor.kind, ← look Cursor.kindAfter with
  | .keyword .local_, _ => localStatement inner start
  | .identifier, .symbol .assign => assignment inner start
  | .keyword .return_, _ => returnStatement inner start
  | .keyword .while_, _ => whileStatement inner start
  | .keyword .for_, _ => forStatement inner start
  | .keyword .function, .identifier => functionStatement inner start
  | .keyword .if_, _ => ifStatement inner start
  | .keyword .do_, _ => blockStatement inner start
  | _, _ => expressionStatement inner start

/-- Statements up to the end of the block. -/
def statements (inner : Inner) : Nat → Parser (List Stmt)
  | 0 => exhausted
  | rounds + 1 => do
    if closesBlock (← look Cursor.kind) then
      return []
    else
      let first ← statement inner
      return first :: (← statements inner rounds)

/-- The statements of a block. -/
def block (inner : Inner) : Parser (List Stmt) := repeatedly (statements inner)

/-- Fails at the next token, which must be the end. -/
def endOfTokens : Parser Unit := fun cursor ↦
  match cursor.rest with
  | [] => .ok ((), cursor)
  | token :: _ => .error (.surplus token)

/-- The statements of a whole program. -/
def program (inner : Inner) : Parser Program := do
  let body ← block inner
  endOfTokens
  return body

/-! ## Nesting -/

/-- The parsers one level further out. -/
def Inner.around (inner : Inner) : Inner :=
  ⟨Parser.expression inner, Parser.unary inner, Parser.block inner⟩

/-- The parsers for parts that enclose at most `depth` others inside one another. -/
def Inner.ofDepth : Nat → Inner
  | 0 => ⟨exhausted, exhausted, exhausted⟩
  | depth + 1 => (ofDepth depth).around

end ScopeScript.Parser
