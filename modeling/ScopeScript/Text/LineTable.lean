import ScopeScript.Text.Position

/-!
# Line tables

A line table holds the byte offsets at which the lines of a text start. With it a position is found
without going through the text from its beginning: the line by bisection of the offsets, and the column by
counting the characters from the start of the line. A row is read and a part of a text is taken only where
they are; a lookup that asks for anything else gives nothing.
-/

namespace ScopeScript

/-! ## Parts of a text -/

/-- The characters before and behind a byte offset. There are none past the end of a text, and none at an
offset inside a character. -/
def splitBytes? : List Char → Nat → Option (List Char × List Char)
  | cs, 0 => some ([], cs)
  | [], _ + 1 => none
  | c :: cs, offset + 1 =>
    if c.utf8Size ≤ offset + 1 then
      (splitBytes? cs (offset + 1 - c.utf8Size)).map (Prod.map (c :: ·) id)
    else none

/-- The characters of a span, which must begin and end between two characters. -/
def Span.slice? (span : Span) (cs : List Char) : Option (List Char) :=
  if span.start ≤ span.stop then do
    let (_, rest) ← splitBytes? cs span.start
    let (inside, _) ← splitBytes? rest (span.stop - span.start)
    return inside
  else none

/-! ## Bisection -/

/-- Where a key stands in an ascending row, or where it would have to be put. -/
inductive Slot where
  | found (index : Nat)
  | missing (index : Nat)
deriving DecidableEq, Repr

/-- The index of the key, or the one before the place where it would have to be put. -/
def Slot.floor? : Slot → Option Nat
  | found index => some index
  | missing 0 => none
  | missing (index + 1) => some index

/-- Halves a range of a row that begins at `base` until one index is left. The half where the key cannot
be is given up. -/
def narrow? (row : Array Nat) (key base size : Nat) : Option Nat :=
  if size ≤ 1 then some base
  else do
    let middle := base + size / 2
    let value ← row[middle]?
    narrow? row key (if key < value then base else middle) (size - size / 2)
termination_by size

/-- Searches an ascending row for a key. -/
def search? (row : Array Nat) (key : Nat) : Option Slot :=
  if row.size = 0 then some (.missing 0)
  else do
    let index ← narrow? row key 0 row.size
    let value ← row[index]?
    return if value = key then .found index
      else .missing (if value < key then index + 1 else index)

/-! ## Line tables -/

/-- A text and the byte offsets at which its lines start. -/
structure LineTable where
  text : List Char
  starts : Array Nat

namespace LineTable

/-- The offsets behind the newlines of `cs`, which begins at `offset`. -/
def startsBehind (offset : Nat) : List Char → List Nat
  | [] => []
  | c :: cs =>
    let next := offset + c.utf8Size
    if c = '\n' then next :: startsBehind next cs else startsBehind next cs

/-- The line table of a text. -/
def ofString (source : String) : LineTable :=
  ⟨source.toList, (0 :: startsBehind 0 source.toList).toArray⟩

/-- The position of a byte offset. Past the end of the text it is the end; inside a character it is the
first column of the line. -/
def position? (table : LineTable) (offset : Nat) : Option Position := do
  let offset := min offset (byteLength table.text)
  let slot ← search? table.starts offset
  let line ← slot.floor?
  let start ← table.starts[line]?
  let column := ((Span.slice? ⟨start, offset⟩ table.text).map List.length).getD 0
  return ⟨line + 1, column + 1⟩

end LineTable

end ScopeScript
