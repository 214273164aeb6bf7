import ScopeScript.Text.Blank
import ScopeScript.Token.Scan

/-!
# Coloring a line

A line is colored while it is typed, so it need not be a program, nor even scan. Every token has
the color of its kind, and the text between tokens that of comments; only identifiers look ahead, at
the next token, to tell a call from a variable. What the scan did not reach is shown in red, unless
there is nothing in it but blanks and a comment.
-/

namespace ScopeScript

/-! ## Colors -/

/-- The colors of a terminal that are used. -/
inductive Color where
  | darkGray
  | lightBlue
  | lightCyan
  | lightGray
  | lightGreen
  | lightPurple
  | lightRed
  | red
deriving DecidableEq, Repr

/-- The color of a token of some kind that is followed by an opening parenthesis or not. -/
def Kind.color (isCalled : Bool) : Kind → Color
  | .identifier => if isCalled then .lightBlue else .lightRed
  | .number | .keyword .true | .keyword .false | .keyword .nil => .lightCyan
  | .string => .lightGreen
  | .keyword _ => .lightPurple
  | .symbol _ | .eof => .lightGray

/-- A stretch of text in one color. -/
structure Painted where
  color : Color
  text : List Char
deriving DecidableEq, Repr

namespace Painted

/-! ## Gaps and remainders -/

/-- A stretch of text, unless it is empty. -/
def stretch (color : Color) : List Char → List Painted
  | [] => []
  | text => [⟨color, text⟩]

/-- Whether a text begins with the mark of a comment. -/
def isComment : List Char → Bool
  | '-' :: '-' :: _ => true
  | _ => false

/-- The color of the text behind the last token. -/
def remainderColor (text : List Char) : Color :=
  let content := text.dropWhile isWhiteSpace
  if content.isEmpty || isComment content then .darkGray else .red

/-- Whether the first of these pieces is an opening parenthesis. -/
def startsWithParen : List Piece → Bool
  | [] => false
  | piece :: _ => piece.kind = .symbol .leftParen

/-- The pieces of a line, each behind the gap before it. -/
def ofPieces : List Piece → List Painted
  | [] => []
  | piece :: rest =>
    stretch .darkGray piece.gap ++
      ⟨piece.kind.color (startsWithParen rest), piece.text⟩ :: ofPieces rest

/-- A line in colors. -/
def ofLine (line : String) : List Painted :=
  let cut := Cut.ofChars line.toList
  let remainder := cut.gap ++ cut.remainder
  ofPieces cut.pieces ++ stretch (remainderColor remainder) remainder

end Painted

end ScopeScript
