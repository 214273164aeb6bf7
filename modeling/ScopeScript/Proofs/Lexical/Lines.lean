import ScopeScript.Proofs.Lexical.Newline
import ScopeScript.Proofs.Text.LineTable

/-!
# Lines of a text

A token stands at the line and column that are counted up to the byte where its span begins, which the
line table of the text finds, too. When texts are joined by a newline, each is scanned as if it stood
alone: the tokens of the second come behind those of the first, as many lines and bytes further down as
the first has, in the same columns.
-/

namespace ScopeScript

/-! ## Positions of tokens -/

theorem Place.position_after (place : Place) (cs : List Char) :
    (place.after cs).position = cs.foldl Position.advance place.position := by
  induction cs generalizing place with
  | nil => rfl
  | cons c cs ih => rw [after_cons, ih, List.foldl_cons, advance]

namespace Lexical

theorem tokenAt_position (before rest : List Char) (kind : Kind) (text : List Char)
    (literal : Option Value) :
    (tokenAt before kind text literal).position =
      Position.first.locate (before ++ rest) (tokenAt before kind text literal).span.start := by
  calc
    (Place.origin.after before).position = before.foldl Position.advance .first :=
      Place.position_after _ _
    _ = Position.first.locate (before ++ rest) (byteLength before) :=
      (Position.locate_byteLength _ _ _).symm

theorem Tiles.position_eq {before rest : List Char} {tokens : List Token}
    (h : Tiles before rest tokens) :
    ∀ token ∈ tokens, token.position = Position.first.locate (before ++ rest) token.span.start := by
  induction h with
  | @finish before gap =>
    rintro token (_ | ⟨_, ⟨⟩⟩)
    simpa using tokenAt_position (before ++ gap) [] .eof [] none
  | @token before gap text rest kind literal _ _ _ _ ih =>
    rintro token (_ | ⟨_, hmem⟩)
    · simpa using tokenAt_position (before ++ gap) (text ++ rest) kind text literal
    · simpa using ih token hmem

end Lexical

theorem position_of_scan {source : String} {tokens : List Token} (h : scan source = .ok tokens) :
    ∀ token ∈ tokens, token.position = .ofOffset source token.span.start :=
  ((scan_eq_iff.1 h).tiles rfl).position_eq

/-- Every token of a text stands where the line table of the text finds the beginning of its span. -/
theorem LineTable.position?_of_scan {source : String} {tokens : List Token}
    (h : scan source = .ok tokens) :
    ∀ token ∈ tokens, (ofString source).position? token.span.start = some token.position := by
  intro token hmem
  rw [position?_eq_ofOffset, position_of_scan h token hmem]

/-! ## Joined texts -/

/-- A text that is scanned to its end, a newline and any other text are scanned as the two texts are: the
tokens of the first without its mark of the end, and behind them those of the second, further down by the
lines and bytes of the first and the newline, or its error. In the joined text, too, they stand where their
bytes are, and where its line table finds them. -/
theorem scan_joined {first : String} {tokens : List Token} (h : scan first = .ok tokens)
    (second : String) :
    let joined := first ++ "\n" ++ second
    let lines := first.toList.count '\n' + 1
    let bytes := byteLength first.toList + 1
    ∃ body mark, tokens = body ++ [mark] ∧ (∀ token ∈ body, token.kind ≠ .eof) ∧ mark.kind = .eof ∧
      (∀ others, scan second = .ok others →
        scan joined = .ok (body ++ others.map (Token.below lines bytes))) ∧
      (∀ fault, scan second = .error fault →
        scan joined = .error ⟨fault.error, fault.span.shift bytes⟩) ∧
      ∀ all, scan joined = .ok all → ∀ token ∈ all,
        token.position = .ofOffset joined token.span.start ∧
          (LineTable.ofString joined).position? token.span.start = some token.position := by
  intro joined lines bytes
  obtain ⟨body, mark, rfl⟩ := scan_eq_append_mark h
  obtain ⟨hbody, hmark⟩ := kind_of_scan h
  have hjoined : scan joined = (shiftScan lines bytes (scan second)).map (body ++ ·) := by
    rw [scan_newline h, List.dropLast_concat]
  refine ⟨body, mark, rfl, hbody, hmark, ?_, ?_, fun all hall token hmem ↦
    ⟨position_of_scan hall token hmem, LineTable.position?_of_scan hall token hmem⟩⟩
  · intro others hothers
    rw [hjoined, hothers]
    rfl
  · intro fault hfault
    rw [hjoined, hfault]
    rfl

/-- A comment ends with its line, also if there is a quote in it, and what stands behind it is in the second
line. -/
theorem scan_joined_comment :
    scan ("x -- \"é" ++ "\n" ++ "\"y\" z") = .ok
        [⟨.identifier, "x", none, ⟨1, 1⟩, ⟨0, 1⟩⟩,
          ⟨.string, "\"y\"", some (.string "y"), ⟨2, 1⟩, ⟨9, 12⟩⟩,
          ⟨.identifier, "z", none, ⟨2, 5⟩, ⟨13, 14⟩⟩,
          ⟨.eof, "", none, ⟨2, 6⟩, ⟨14, 14⟩⟩] ∧
      (LineTable.ofString ("x -- \"é" ++ "\n" ++ "\"y\" z")).position? 13 = some ⟨2, 5⟩ := by
  have hfirst : scan "x -- \"é" = .ok ([⟨.identifier, "x", none, ⟨1, 1⟩, ⟨0, 1⟩⟩] ++
      [⟨.eof, "", none, ⟨1, 8⟩, ⟨8, 8⟩⟩]) := (scan_eq_upTo _).trans rfl
  have hsecond : scan "\"y\" z" = .ok [⟨.string, "\"y\"", some (.string "y"), ⟨1, 1⟩, ⟨0, 3⟩⟩,
      ⟨.identifier, "z", none, ⟨1, 5⟩, ⟨4, 5⟩⟩, ⟨.eof, "", none, ⟨1, 6⟩, ⟨5, 5⟩⟩] :=
    (scan_eq_upTo _).trans rfl
  obtain ⟨body, mark, htokens, -, -, hok, -, hplaces⟩ := scan_joined hfirst "\"y\" z"
  obtain ⟨rfl, -⟩ := List.append_inj' htokens rfl
  have hjoined := hok _ hsecond
  obtain ⟨-, hplace⟩ := hplaces _ hjoined ⟨.identifier, "z", none, ⟨2, 5⟩, ⟨13, 14⟩⟩
    (.tail _ (.tail _ (.head _)))
  exact ⟨hjoined, hplace⟩

end ScopeScript
