/-!
# Byte spans

Places in a text are byte offsets into its UTF-8 form. The length of a list of characters is the
sum of their encoded sizes, so it is additive over concatenation; a span is a pair of offsets.
-/

namespace ScopeScript

/-! ## Lengths -/

/-- The number of bytes of `cs` in UTF-8. -/
def byteLength : List Char → Nat
  | [] => 0
  | c :: cs => c.utf8Size + byteLength cs

@[simp] theorem byteLength_nil : byteLength [] = 0 := rfl

@[simp] theorem byteLength_cons (c : Char) (cs : List Char) :
    byteLength (c :: cs) = c.utf8Size + byteLength cs := rfl

@[simp] theorem byteLength_append (cs ds : List Char) :
    byteLength (cs ++ ds) = byteLength cs + byteLength ds := by
  induction cs with
  | nil => simp
  | cons c cs ih => simp [ih, Nat.add_assoc]

/-! ## Spans -/

/-- The bytes from `start` up to, but not including, `stop`. -/
structure Span where
  start : Nat
  stop : Nat
deriving DecidableEq, Repr, Inhabited

namespace Span

/-- The empty span at an offset. -/
def point (offset : Nat) : Span := ⟨offset, offset⟩

/-- The span moved `count` bytes further into the text. -/
def shift (count : Nat) (span : Span) : Span := ⟨span.start + count, span.stop + count⟩

/-- How messages show a span. -/
def text (span : Span) : String := toString span.start ++ ".." ++ toString span.stop

end Span

end ScopeScript
