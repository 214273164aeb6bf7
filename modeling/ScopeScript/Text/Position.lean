import ScopeScript.Text.Span

/-!
# Lines and columns

A position is a line and a column, both counted from one; columns count characters, not bytes.
A newline ends its line, so the character after it stands in column one of the next line.
A place couples a position with the byte offset at which it is found, and is carried over a text
one character at a time.
-/

namespace ScopeScript

/-! ## Positions -/

/-- A line and a column, both counted from one. -/
structure Position where
  line : Nat
  column : Nat
deriving DecidableEq, Repr, Inhabited

namespace Position

/-- Positions are ordered by the line, and within a line by the column. -/
instance : LT Position where
  lt position other :=
    position.line < other.line ∨ position.line = other.line ∧ position.column < other.column

instance (position other : Position) : Decidable (position < other) :=
  inferInstanceAs (Decidable (_ ∨ _))

/-- The position of the first character of a text. -/
def first : Position := ⟨1, 1⟩

/-- The position behind the character `c`. -/
def advance (position : Position) (c : Char) : Position :=
  if c = '\n' then ⟨position.line + 1, 1⟩ else ⟨position.line, position.column + 1⟩

/-- The position `offset` bytes behind `position`, which is where `cs` begins. Past the end of `cs`
it is the end; inside a character it is the first column of the line. -/
def locate (position : Position) : List Char → Nat → Position
  | [], _ => position
  | _ :: _, 0 => position
  | c :: cs, offset + 1 =>
    if c.utf8Size ≤ offset + 1 then
      (position.advance c).locate cs (offset + 1 - c.utf8Size)
    else
      ⟨position.line, 1⟩

/-- The position of a byte offset in a text. -/
def ofOffset (source : String) (offset : Nat) : Position :=
  first.locate source.toList offset

end Position

/-! ## Places -/

/-- A byte offset and the position found there. -/
structure Place where
  offset : Nat
  position : Position
deriving DecidableEq, Repr, Inhabited

namespace Place

/-- The beginning of a text. -/
def origin : Place := ⟨0, .first⟩

/-- The place behind the character `c`. -/
def advance (place : Place) (c : Char) : Place :=
  ⟨place.offset + c.utf8Size, place.position.advance c⟩

/-- The place behind the characters `cs`. -/
def after (place : Place) (cs : List Char) : Place := cs.foldl advance place

@[simp] theorem after_nil (place : Place) : place.after [] = place := rfl

@[simp] theorem after_cons (place : Place) (c : Char) (cs : List Char) :
    place.after (c :: cs) = (place.advance c).after cs := rfl

theorem after_append (place : Place) (cs ds : List Char) :
    place.after (cs ++ ds) = (place.after cs).after ds := by
  simp [after]

@[simp] theorem offset_after (place : Place) (cs : List Char) :
    (place.after cs).offset = place.offset + byteLength cs := by
  induction cs generalizing place with
  | nil => rfl
  | cons c cs ih => simp [ih, advance, Nat.add_assoc]

end Place

end ScopeScript
