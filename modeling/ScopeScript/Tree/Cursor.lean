import ScopeScript.Token.Basic

/-!
# Reading tokens

A cursor stands before the tokens that are still to be read and remembers where the last one that
was read ends. A parser reads tokens from a cursor: it answers with what it has read and the cursor
behind it, or fails where it stands. Repetitions count down from a number that exceeds what the
tokens can need; running out of it is a failure of its own, which never reaches a user.
-/

namespace ScopeScript

/-! ## Cursors -/

/-- The tokens to be read, and the end of the last token that was read. -/
structure Cursor where
  rest : List Token
  behind : Nat

namespace Cursor

/-- The kind of the next token; behind the last token it is the end. -/
def kind (cursor : Cursor) : Kind := (cursor.rest.head?.map Token.kind).getD .eof

/-- The kind of the token after the next. -/
def kindAfter (cursor : Cursor) : Kind := (cursor.rest[1]?.map Token.kind).getD .eof

/-- Where the next token starts. -/
def start (cursor : Cursor) : Nat := (cursor.rest.head?.map (·.span.start)).getD 0

/-- The cursor behind the next token, if there is one. -/
def advance (cursor : Cursor) : Cursor :=
  match cursor.rest with
  | [] => cursor
  | token :: rest => ⟨rest, token.span.stop⟩

end Cursor

/-! ## Failures -/

/-- What a parser asks for. -/
inductive Expectation where
  | token (kind : Kind)
  | expression
deriving DecidableEq, Repr

/-- How a message names what is asked for. -/
def Expectation.describe : Expectation → String
  | token kind => kind.describe
  | expression => "expression"

/-- Why a parser stopped: it asked for something that the remaining tokens do not begin with, it met
a token that closes nothing, or a repetition ran out. -/
inductive Failure where
  | unmet (expectation : Expectation) (rest : List Token)
  | surplus (token : Token)
  | exhausted

/-- The fault of a failure, for a text whose last token ends at `stop`. -/
def Failure.fault (stop : Nat) : Failure → Fault
  | unmet expectation (token :: _) =>
    ⟨.unexpectedToken token.lexeme [expectation.describe], token.span⟩
  | unmet expectation [] => ⟨.unexpectedEnd [expectation.describe], .point stop⟩
  | surplus token => ⟨.surplusToken token.lexeme, token.span⟩
  | exhausted => ⟨.unexpectedEnd [], .point stop⟩

/-! ## Parsers -/

/-- A function that reads from a cursor. -/
def Parser (α : Type) : Type := Cursor → Except Failure (α × Cursor)

namespace Parser

variable {α β : Type}

instance : Monad Parser where
  pure value := fun cursor ↦ .ok (value, cursor)
  bind parser next := fun cursor ↦
    match parser cursor with
    | .ok (value, cursor) => next value cursor
    | .error failure => .error failure

@[simp] theorem pure_apply (value : α) (cursor : Cursor) :
    (pure value : Parser α) cursor = .ok (value, cursor) := rfl

theorem bind_apply (parser : Parser α) (next : α → Parser β) (cursor : Cursor) :
    (parser >>= next) cursor =
      match parser cursor with
      | .ok (value, cursor) => next value cursor
      | .error failure => .error failure := rfl

/-- Fails because `expectation` is not met here. -/
def refuse (expectation : Expectation) : Parser α :=
  fun cursor ↦ .error (.unmet expectation cursor.rest)

/-- Fails because a repetition ran out. -/
def exhausted : Parser α := fun _ ↦ .error .exhausted

/-- A property of the cursor. -/
def look (property : Cursor → α) : Parser α := fun cursor ↦ .ok (property cursor, cursor)

/-- Moves behind the next token. -/
def skip : Parser Unit := fun cursor ↦ .ok ((), cursor.advance)

/-- Reads the next token, which must be of this kind. -/
def expect (kind : Kind) : Parser Token := fun cursor ↦
  match cursor.rest with
  | token :: _ =>
    if token.kind = kind then .ok (token, cursor.advance) else refuse (.token kind) cursor
  | [] => refuse (.token kind) cursor

/-- Reads an identifier. -/
def identifier : Parser String := do return (← expect .identifier).lexeme

/-- Skips a token of this kind if it comes next, and tells whether it did. -/
def skipIf (kind : Kind) : Parser Bool := do
  if (← look Cursor.kind) = kind then
    skip
    return true
  else
    return false

/-- The span from `start` to the end of the last token that was read. -/
def spanFrom (start : Nat) : Parser Span := look fun cursor ↦ ⟨start, cursor.behind⟩

/-- Runs a repetition that may take one round for each token left. -/
def repeatedly (rounds : Nat → Parser α) : Parser α :=
  fun cursor ↦ rounds (cursor.rest.length + 1) cursor

/-- One item after the other, separated by commas. -/
def separated (item : Parser α) : Nat → Parser (List α)
  | 0 => exhausted
  | rounds + 1 => do
    let first ← item
    if ← skipIf (.symbol .comma) then
      return first :: (← separated item rounds)
    else
      return [first]

/-- A list of items between parentheses, possibly empty. -/
def listed (item : Parser α) : Parser (List α) := do
  let _ ← expect (.symbol .leftParen)
  if ← skipIf (.symbol .rightParen) then
    return []
  else
    let items ← repeatedly (separated item)
    let _ ← expect (.symbol .rightParen)
    return items

end Parser

end ScopeScript
