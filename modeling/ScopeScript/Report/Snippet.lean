import ScopeScript.Report.Line
import ScopeScript.Report.Markup

/-!
# Snippets

A snippet shows the lines of a text that a span touches, with their numbers at the left. A span
within one line is underlined with carets. A span over several lines is bracketed by a rail that
begins above its first character and ends below its last one; of a long span only the first four
lines and the last two are shown.
-/

namespace ScopeScript

namespace Snippet

/-! ## Gutters and rails -/

/-- A text of spaces. -/
def spaces (count : Nat) : String := String.ofList (List.replicate count ' ')

/-- The gutter of a row without a number. -/
def blankGutter (width : Nat) : List Markup := [.text (spaces (width + 1))]

/-- The gutter of a row with a number. -/
def numberGutter (width number : Nat) : List Markup :=
  let digits := toString number
  Markup.styled .frame (spaces (width - digits.length) ++ digits) ++ [.text " "]

/-- The line between the gutter and the text. -/
def border : List Markup := Markup.styled .frame "│"

/-- A piece of the rail. -/
def rail (glyph : String) : List Markup := .text " " :: Markup.styled .mark glyph

/-- The place of the rail where there is none. -/
def noRail : List Markup := [.text "  "]

/-- A row of a snippet. -/
def row (gutter content : List Markup) : List Markup := gutter ++ border ++ content ++ [.text "\n"]

/-! ## Rows of text and of marks -/

/-- The change of style between two cells that are marked or not. -/
def switch : Bool → Bool → List Markup
  | false, true => [.set .mark]
  | true, false => [.reset]
  | _, _ => []

/-- Cells as some glyphs, of which the marked ones have the style of marks; the first argument tells
whether the cell before was marked. -/
def cellsMarked (isMarked : Cell → Bool) (glyphs : Cell → String) :
    Bool → List Cell → List Markup
  | before, [] => switch before false
  | before, cell :: cells =>
    switch before (isMarked cell) ++
      .text (glyphs cell) :: cellsMarked isMarked glyphs (isMarked cell) cells

/-- The text of a line. -/
def lineText (isMarked : Cell → Bool) (line : Line) : List Markup :=
  .text " " :: cellsMarked isMarked Cell.text false line.cells

/-- The carets below the cells of a span of a line. -/
def carets (span : Span) (line : Line) : List Markup :=
  let glyphs (cell : Cell) : String :=
    if cell.overlaps span then cell.fill '^' else if cell.start < span.stop then cell.fill ' ' else ""
  .text " " :: cellsMarked (Cell.overlaps span) glyphs false (line.cells ++ [line.endCell])

/-- The arm of the rail below the cells that satisfy a condition, with a caret at its end. -/
def arm (reaches : Cell → Bool) (line : Line) : List Markup :=
  Markup.styled .mark (String.join ((line.cells.takeWhile reaches).map (Cell.fill '─')) ++ "^")

/-! ## Spans within a line -/

/-- A line and the span in it, which is taken to have at least one byte. -/
def ofLine (width : Nat) (span : Span) (line : Line) : List Markup :=
  let start := span.start - line.start
  let inside : Span := ⟨start, max (span.stop - line.start) (start + 1)⟩
  row (numberGutter width line.number) (lineText (Cell.overlaps inside) line) ++
    row (blankGutter width) (carets inside line)

/-! ## Spans over several lines -/

/-- The part of a line in a span over several lines. -/
inductive Role where
  | opening
  | inner
  | closing
  | none
deriving DecidableEq, Repr

/-- The rows of a line in a span over several lines. -/
def ofRole (width : Nat) (span : Span) (role : Role) (line : Line) : List Markup :=
  let numbered := row (numberGutter width line.number)
  let start := span.start - line.start
  let stop := span.stop - line.start
  match role with
  | .opening =>
    let text := lineText (fun cell ↦ start ≤ cell.start) line
    if start ≤ line.indent then numbered (rail "╭" ++ text)
    else
      numbered (noRail ++ text) ++
        row (blankGutter width) (rail "╭" ++ arm (fun cell ↦ cell.start ≤ start) line)
  | .inner => numbered (rail "│" ++ lineText (fun _ ↦ true) line)
  | .closing =>
    numbered (rail "│" ++ lineText (fun cell ↦ cell.stop ≤ stop) line) ++
      row (blankGutter width) (rail "╰" ++ arm (fun cell ↦ cell.start < stop) line)
  | .none => numbered (noRail ++ lineText (fun _ ↦ false) line)

/-- The row that stands for lines left out. -/
def omission (width : Nat) : List Markup :=
  blankGutter width ++ Markup.styled .frame "·" ++ rail "│" ++ [.text "\n"]

/-- Whether an inner line is shown even if others are left out. -/
def isContext (first last number : Nat) : Bool := number - first ≤ 3 || last - number ≤ 1

/-- The rows of lines with their roles. Lines that are no context are left out, but for one that
stands alone between two that are shown. -/
def ofLines (width : Nat) (span : Span) (isShown : Nat → Bool) : List (Role × Line) → List Markup
  | [] => []
  | (role, line) :: rest =>
    let before := isShown (line.number - 1)
    let after := isShown (line.number + 1)
    let rows :=
      if isShown line.number || (before && after) then ofRole width span role line
      else if before then omission width
      else []
    rows ++ ofLines width span isShown rest

/-- The role of a line between the first and the last line of a snippet. A span that ends on a line
before the one on which it begins has no inner lines. -/
def roleOf (first last : Line) (line : Line) : Role :=
  if line.number = first.number then .opening
  else if line.number = last.number then .closing
  else if first.number < last.number then .inner
  else .none

/-- The lines from the one on which a span begins to the one on which it ends. -/
def ofSpan (width : Nat) (span : Span) (lines : List Line) (first last : Line) : List Markup :=
  if first.number = last.number then ofLine width span first
  else
    let low := min first.number last.number
    let high := max first.number last.number
    let isShown (number : Nat) : Bool :=
      number = low || number = high ||
        (first.number < number && number < last.number && isContext first.number last.number number)
    let touched := lines.filter fun line ↦ low ≤ line.number && line.number ≤ high
    ofLines width span isShown (touched.map fun line ↦ (roleOf first last line, line))

end Snippet

end ScopeScript
