import ScopeScript.Token.Basic
import ScopeScript.Token.Lexeme

/-!
# Scanning

A text is cut into pieces: each is a token's lexeme with the blanks and comments before it. The cut
stops at the end of the text or at the first characters that make no token, and what it has not
used is kept, so that the pieces and the remainder together are the text. Placing the pieces one
after the other gives the tokens with their positions.
-/

namespace ScopeScript

/-! ## Gaps -/

/-- Splits off the blanks and comments at the beginning of a text. Inside a comment every character
up to the next newline is taken. -/
def splitGap : (comment : Bool) → List Char → List Char × List Char
  | _, [] => ([], [])
  | true, c :: cs => (splitGap (c ≠ '\n') cs).map (c :: ·) id
  | false, c :: cs =>
    if isBlank c then (splitGap false cs).map (c :: ·) id
    else if c = '-' ∧ cs.head? = some '-' then (splitGap true cs).map (c :: ·) id
    else ([], c :: cs)

theorem splitGap_append (comment : Bool) (cs : List Char) :
    (splitGap comment cs).1 ++ (splitGap comment cs).2 = cs := by
  fun_induction splitGap comment cs <;> simp_all

theorem length_splitGap_le (comment : Bool) (cs : List Char) :
    (splitGap comment cs).2.length ≤ cs.length := by
  have h := congrArg List.length (splitGap_append comment cs)
  rw [List.length_append] at h
  omega

/-! ## Pieces -/

/-- A lexeme and the gap before it. -/
structure Piece where
  gap : List Char
  kind : Kind
  text : List Char
  literal : Option Value

/-- Why a cut stopped before the end of the text, and the characters to blame. -/
structure Rejection where
  error : Error
  extent : List Char

/-- A text cut into pieces; behind the last one stand the gap and the remainder, which is empty
unless something was rejected. -/
structure Cut where
  pieces : List Piece
  gap : List Char
  remainder : List Char
  rejection : Option Rejection

/-- Cuts a text into pieces. -/
def Cut.ofChars (cs : List Char) : Cut :=
  match _hgap : (splitGap false cs).2 with
  | [] => ⟨[], (splitGap false cs).1, [], none⟩
  | c :: rest =>
    match _hnext : Lexeme.next c rest with
    | .read kind text literal rest' =>
      let cut := Cut.ofChars rest'
      { cut with pieces := ⟨(splitGap false cs).1, kind, text, literal⟩ :: cut.pieces }
    | .rejected error extent => ⟨[], (splitGap false cs).1, c :: rest, some ⟨error, extent⟩⟩
termination_by cs.length
decreasing_by
  have hlt := Lexeme.length_rest_next _hnext
  have hle := length_splitGap_le false cs
  rw [_hgap] at hle
  omega

/-! ## Tokens -/

/-- The tokens of pieces that stand one after the other from `place` on. -/
def placePieces (place : Place) : List Piece → List Token
  | [] => []
  | piece :: pieces =>
    let start := place.after piece.gap
    let stop := start.after piece.text
    ⟨piece.kind, .ofList piece.text, piece.literal, start.position, ⟨start.offset, stop.offset⟩⟩ ::
      placePieces stop pieces

/-- The place behind the pieces. -/
def placeBehind (place : Place) : List Piece → Place
  | [] => place
  | piece :: pieces => placeBehind ((place.after piece.gap).after piece.text) pieces

/-- The tokens of a text in order, and the fault that stopped the scan, if any. Without one the last
token is the mark of the end. -/
structure Scan where
  tokens : List Token
  fault : Option Fault

namespace Scan

/-- The scan that a cut gives. -/
def ofCut (cut : Cut) : Scan :=
  let tokens := placePieces .origin cut.pieces
  let place := (placeBehind .origin cut.pieces).after cut.gap
  match cut.rejection with
  | none => ⟨tokens ++ [.endMark place], none⟩
  | some rejection =>
    ⟨tokens, some ⟨rejection.error,
      place.offset, place.offset + byteLength rejection.extent⟩⟩

/-- Scans a text as far as it goes. -/
def ofString (source : String) : Scan := ofCut (.ofChars source.toList)

end Scan

/-- The tokens of a text, the mark of the end included, or the first fault. -/
def scan (source : String) : Except Fault (List Token) :=
  let result := Scan.ofString source
  match result.fault with
  | none => .ok result.tokens
  | some fault => .error fault

end ScopeScript
