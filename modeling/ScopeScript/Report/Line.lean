import ScopeScript.Text.Blank
import ScopeScript.Text.Span
import ScopeScript.Text.Width

/-!
# Lines of a text

A text is shown line by line, on a grid of cells. A newline belongs to the line that it ends, so a
text that ends in a newline has an empty line behind it. What is printed of a line is less than the
line: trailing newlines, carriage returns and null characters are left out. A tab reaches up to the
next multiple of four columns.
-/

namespace ScopeScript

/-! ## Cells -/

/-- A printed character, the offset of its first byte in the line, and the columns it takes. -/
structure Cell where
  char : Char
  start : Nat
  width : Nat
deriving DecidableEq, Repr

namespace Cell

/-- The offset behind the character. -/
def stop (cell : Cell) : Nat := cell.start + cell.char.utf8Size

/-- The cell filled with one character. -/
def fill (glyph : Char) (cell : Cell) : String := String.ofList (List.replicate cell.width glyph)

/-- The cell as it is printed. -/
def text (cell : Cell) : String :=
  if cell.char = '\t' then cell.fill ' ' else cell.char.toString

/-- Whether a byte of the cell lies inside a span of the line. -/
def overlaps (span : Span) (cell : Cell) : Bool :=
  max span.start cell.start < min span.stop cell.stop

/-- The cells of a text that begins at an offset and a column. -/
def ofChars (start column : Nat) : List Char → List Cell
  | [] => []
  | c :: cs =>
    let width := if c = '\t' then 4 - column % 4 else columnWidth c
    ⟨c, start, width⟩ :: ofChars (start + c.utf8Size) (column + width) cs

end Cell

/-! ## Lines -/

/-- A line with its number, counted from one, the offset at which it begins, and its characters. -/
structure Line where
  number : Nat
  start : Nat
  chars : List Char
deriving DecidableEq, Repr

namespace Line

/-- The first line of a text, which has a number and an offset, and the lines behind it. -/
def split (number start : Nat) : List Char → Line × List Line
  | [] => (⟨number, start, []⟩, [])
  | c :: cs =>
    if c = '\n' then
      let (next, rest) := split (number + 1) (start + 1) cs
      (⟨number, start, [c]⟩, next :: rest)
    else
      let (line, rest) := split number (start + c.utf8Size) cs
      (⟨number, start, c :: line.chars⟩, rest)

/-- The lines of a text; there is at least one. -/
def ofString (source : String) : Line × List Line := split 1 0 source.toList

/-- The line in which an offset lies: the last one that does not begin behind it. -/
def containing (lines : Line × List Line) (offset : Nat) : Line :=
  (lines.2.takeWhile fun line ↦ line.start ≤ offset).getLastD lines.1

/-- The column of an offset, counted from one: the characters that end before it are passed. -/
def column (line : Line) (offset : Nat) : Nat :=
  1 + ((Cell.ofChars line.start 0 line.chars).filter fun cell ↦ cell.stop ≤ offset).length

/-- What is printed of a line. -/
def printed (line : Line) : List Char :=
  (line.chars.reverse.dropWhile fun c ↦ c = '\n' || c = '\r' || c = '\x00').reverse

/-- The cells that are printed. -/
def cells (line : Line) : List Cell := Cell.ofChars 0 0 line.printed

/-- A cell behind the printed ones, where a mark can point at the end of the line. -/
def endCell (line : Line) : Cell := ⟨'\x00', byteLength line.printed, 1⟩

/-- The number of bytes of the white space with which the printed text begins. -/
def indent (line : Line) : Nat := byteLength (line.printed.takeWhile isWhiteSpace)

/-- The characters of a line without the line break. -/
def content (line : Line) : List Char :=
  match line.chars.reverse with
  | '\n' :: '\r' :: rest | '\n' :: rest => rest.reverse
  | _ => line.chars

end Line

end ScopeScript
