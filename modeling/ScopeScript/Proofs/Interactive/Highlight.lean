import ScopeScript.Interactive.Highlight
import ScopeScript.Proofs.Lexical.Cuts

/-!
# Colored lines and their scans

The entries of a colored line are the line again, piece by piece: in front of the lexeme of each token that
the scan reaches stands the text that was skipped there, and behind the last one what is left of the line.
What is left is red only where the scan fails, and then it begins with what was skipped and goes on with
what was rejected. The converse has exceptions: rejected text has the color of a comment behind a comment,
and where it looks like blanks or like a comment itself.
-/

namespace ScopeScript

open Lexical

/-- The tokens that a scan reaches before the end of the text or its fault. -/
def Scan.reached (scan : Scan) : List Token := scan.tokens.takeWhile (·.kind ≠ .eof)

namespace Painted

/-! ## Tokens in colors -/

/-- Whether the first of these tokens is an opening parenthesis. -/
def beginsCall : List Token → Bool
  | [] => false
  | token :: _ => token.kind = .symbol .leftParen

/-- The lexeme of a token in the color of its kind, when these tokens follow it. -/
def ofToken (token : Token) (next : List Token) : Painted :=
  ⟨token.kind.color (beginsCall next), token.lexeme.toList⟩

/-- The lexemes of tokens in colors. -/
def ofTokens : List Token → List Painted
  | [] => []
  | token :: tokens => ofToken token tokens :: ofTokens tokens

/-- The entries of the text `rest` behind the text `before`, in which these tokens stand: for each token the
text between it and the one before, unless it is empty, and the lexeme at its span; then what is left. -/
inductive Paints : (before rest : List Char) → List Token → List Painted → Prop
  | rest {before rest : List Char} : Paints before rest [] (stretch (remainderColor rest) rest)
  | token {before gap text rest : List Char} {token : Token} {tokens : List Token}
      {entries : List Painted} (hlexeme : token.lexeme.toList = text)
      (hspan : token.span = ⟨byteLength (before ++ gap), byteLength (before ++ gap ++ text)⟩)
      (hrest : Paints (before ++ gap ++ text) rest tokens entries) :
      Paints before (gap ++ (text ++ rest)) (token :: tokens)
        (stretch .darkGray gap ++ ofToken token tokens :: entries)

/-- Whether the entry has a color that gaps and remainders never have. -/
def IsLexeme (entry : Painted) : Prop := entry.color ≠ .darkGray ∧ entry.color ≠ .red

instance : DecidablePred IsLexeme := fun _ ↦ inferInstanceAs (Decidable (_ ∧ _))

theorem isLexeme_color (kind : Kind) (isCalled : Bool) (text : List Char) :
    IsLexeme ⟨kind.color isCalled, text⟩ := by
  cases kind with
  | keyword keyword => cases keyword <;> exact ⟨nofun, nofun⟩
  | identifier => cases isCalled <;> exact ⟨nofun, nofun⟩
  | symbol | number | string | eof => exact ⟨nofun, nofun⟩

theorem mem_stretch_iff {color : Color} {text : List Char} {entry : Painted} :
    entry ∈ stretch color text ↔ text ≠ [] ∧ entry = ⟨color, text⟩ := by
  cases text <;> simp [stretch]

namespace Paints

variable {before rest : List Char} {tokens : List Token} {entries : List Painted}

end Paints

/-! ## Cuts in colors -/

/-- The entries of a cut. -/
def ofCut (cut : Cut) : List Painted :=
  ofPieces cut.pieces ++ stretch (remainderColor (cut.gap ++ cut.remainder)) (cut.gap ++ cut.remainder)

theorem ofLine_eq_ofCut (line : String) : ofLine line = ofCut (.ofChars line.toList) := rfl

theorem beginsCall_placePieces (place : Place) (pieces : List Piece) :
    beginsCall (placePieces place pieces) = startsWithParen pieces := by
  cases pieces <;> rfl

theorem paints_ofCut {cs : List Char} {cut : Cut} (h : Cuts cs cut) (before : List Char) :
    Paints before cs (placePieces (Place.origin.after before) cut.pieces) (ofCut cut) := by
  induction h generalizing before with
  | @finish gap =>
    have hrest := @Paints.rest before (gap ++ [])
    rw [List.append_nil] at hrest
    simpa [ofCut, ofPieces, placePieces] using hrest
  | rejected => exact .rest
  | @piece gap text rest kind cut literal _ _ _ ih =>
    let start := (Place.origin.after before).after gap
    let tokens := placePieces (start.after text) cut.pieces
    let token : Token :=
      ⟨kind, .ofList text, literal, start.position, ⟨start.offset, (start.after text).offset⟩⟩
    have hentries : ofCut { cut with pieces := ⟨gap, kind, text, literal⟩ :: cut.pieces } =
        stretch .darkGray gap ++ ofToken token tokens :: ofCut cut := by
      simp [ofCut, ofPieces, ofToken, token, tokens, beginsCall_placePieces]
    have hspan : token.span = ⟨byteLength (before ++ gap), byteLength (before ++ gap ++ text)⟩ := by
      simp [token, start, Nat.add_assoc]
    have hrest : Paints (before ++ gap ++ text) rest tokens (ofCut cut) := by
      simpa only [tokens, start, Place.after_append] using ih (before ++ gap ++ text)
    rw [hentries]
    exact .token String.toList_ofList hspan hrest

/-- The entries of a list of pieces are gaps that are not empty and lexemes. -/
theorem exists_piece_of_mem {pieces : List Piece} {entry : Painted} (h : entry ∈ ofPieces pieces) :
    ∃ piece ∈ pieces, (piece.gap ≠ [] ∧ entry = ⟨.darkGray, piece.gap⟩) ∨
      ∃ isCalled, entry = ⟨piece.kind.color isCalled, piece.text⟩ := by
  induction pieces with
  | nil => cases h
  | cons piece pieces ih =>
    rw [ofPieces, List.mem_append, List.mem_cons, mem_stretch_iff] at h
    rcases h with hgap | hlexeme | hrest
    · exact ⟨piece, List.mem_cons_self, .inl hgap⟩
    · exact ⟨piece, List.mem_cons_self, .inr ⟨_, hlexeme⟩⟩
    · obtain ⟨piece', hmem, hentry⟩ := ih hrest
      exact ⟨piece', List.mem_cons_of_mem _ hmem, hentry⟩

/-- To a reader the text is nothing but white space, or white space and a comment. -/
def LooksSkipped (text : List Char) : Prop :=
  ∃ spaces more, text = spaces ++ more ∧ (∀ c ∈ spaces, isWhiteSpace c) ∧
    (more = [] ∨ ∃ line, more = '-' :: '-' :: line)

theorem isComment_iff {text : List Char} : isComment text ↔ ∃ line, text = '-' :: '-' :: line := by
  unfold isComment
  split
  · simp
  next hcomment => simpa using hcomment

theorem dropWhile_isWhiteSpace {spaces more : List Char} (hspaces : ∀ c ∈ spaces, isWhiteSpace c)
    (hmore : more = [] ∨ ∃ line, more = '-' :: '-' :: line) :
    (spaces ++ more).dropWhile isWhiteSpace = more := by
  rw [List.dropWhile_append_of_pos hspaces]
  rcases hmore with rfl | ⟨line, rfl⟩
  · rfl
  · exact List.dropWhile_cons_of_neg (by decide +kernel)

theorem looksSkipped_iff {text : List Char} :
    LooksSkipped text ↔ text.dropWhile isWhiteSpace = [] ∨
      ∃ line, text.dropWhile isWhiteSpace = '-' :: '-' :: line := by
  constructor
  · rintro ⟨spaces, more, rfl, hspaces, hmore⟩
    rwa [dropWhile_isWhiteSpace hspaces hmore]
  · intro hmore
    exact ⟨text.takeWhile isWhiteSpace, _, List.takeWhile_append_dropWhile.symm,
      fun c hc ↦ List.mem_takeWhile_imp hc, hmore⟩

theorem remainderColor_eq_red_iff {text : List Char} :
    remainderColor text = .red ↔ ¬LooksSkipped text := by
  rw [looksSkipped_iff, ← isComment_iff, remainderColor]
  simp

theorem isWhiteSpace_of_blank {c : Char} (h : Blank c) : isWhiteSpace c := by
  simp only [Blank, List.mem_cons, List.not_mem_nil, or_false] at h
  rcases h with rfl | rfl | rfl | rfl | rfl | rfl <;> decide +kernel

/-- A gap with a comment hides what stands behind it, and one without does not. -/
theorem looksSkipped_append_iff {gap : List Char} (h : Skipped gap) (text : List Char) :
    LooksSkipped (gap ++ text) ↔ (∃ c ∈ gap, ¬Blank c) ∨ LooksSkipped text := by
  rcases h.blanks_or_comment with hblank | ⟨blanks, line, rfl, hblanks⟩
  · have hspaces : ∀ c ∈ gap, isWhiteSpace c := fun c hc ↦ isWhiteSpace_of_blank (hblank c hc)
    have hnone : ¬∃ c ∈ gap, ¬Blank c := fun ⟨c, hc, hother⟩ ↦ hother (hblank c hc)
    rw [looksSkipped_iff, looksSkipped_iff, List.dropWhile_append_of_pos hspaces, or_iff_right hnone]
  · have hspaces : ∀ c ∈ blanks, isWhiteSpace c := fun c hc ↦ isWhiteSpace_of_blank (hblanks c hc)
    apply iff_of_true
    · exact ⟨blanks, '-' :: '-' :: (line ++ text), by simp, hspaces, .inr ⟨_, rfl⟩⟩
    · exact .inl ⟨'-', by simp, by decide⟩

theorem stretch_of_ne_nil {text : List Char} (h : text ≠ []) (color : Color) :
    stretch color text = [⟨color, text⟩] := by
  cases text with
  | nil => exact absurd rfl h
  | cons => rfl

/-- Red is all that is left of the text, if it does not look skipped. -/
theorem mem_red_iff {cut : Cut} {entry : Painted} :
    entry ∈ ofCut cut ∧ entry.color = .red ↔
      ¬LooksSkipped (cut.gap ++ cut.remainder) ∧ entry = ⟨.red, cut.gap ++ cut.remainder⟩ := by
  rw [← remainderColor_eq_red_iff]
  constructor
  · rintro ⟨hmem, hred⟩
    rcases List.mem_append.1 hmem with hpieces | hrest
    · obtain ⟨piece, -, ⟨-, rfl⟩ | ⟨isCalled, rfl⟩⟩ := exists_piece_of_mem hpieces
      · cases hred
      · exact absurd hred (isLexeme_color piece.kind isCalled piece.text).2
    · obtain ⟨-, rfl⟩ := mem_stretch_iff.1 hrest
      exact ⟨hred, congrArg (Painted.mk · _) hred⟩
  · rintro ⟨hred, rfl⟩
    have hne : cut.gap ++ cut.remainder ≠ [] := by
      intro hnil
      rw [hnil] at hred
      cases hred
    refine ⟨List.mem_append_right _ ?_, rfl⟩
    exact mem_stretch_iff.2 ⟨hne, by rw [hred]⟩

end Painted

/-- What the cut rejects has the look of something that is skipped: a comment stands right before it, or it
is nothing but white space, or white space and a comment. -/
def Cut.IsMistaken (cut : Cut) : Prop :=
  (∃ c ∈ cut.gap, ¬Blank c) ∨ Painted.LooksSkipped cut.remainder

namespace Painted

/-! ## Lines -/

theorem isMistaken_iff {cs : List Char} {cut : Cut} (h : Cuts cs cut) :
    cut.IsMistaken ↔ LooksSkipped (cut.gap ++ cut.remainder) :=
  (looksSkipped_append_iff h.skipped_gap cut.remainder).symm

theorem exists_fault_iff (line : String) :
    (∃ fault, scan line = .error fault) ↔ ∃ c rest, (Cut.ofChars line.toList).remainder = c :: rest := by
  rw [← (cuts_ofChars line.toList).exists_remainder_iff, scan_eq_result, Cut.result]
  cases (Cut.ofChars line.toList).rejection <;> simp

/-- A fault points at the beginning of what remains. -/
theorem start_of_scan_error {line : String} {fault : Fault} (h : scan line = .error fault) :
    ∃ before, line.toList = before ++ (Cut.ofChars line.toList).remainder ∧
      fault.span.start = byteLength before := by
  let cut := Cut.ofChars line.toList
  refine ⟨(cut.pieces.flatMap fun piece ↦ piece.gap ++ piece.text) ++ cut.gap, ?_, ?_⟩
  · rw [List.append_assoc]
    exact (cuts_ofChars line.toList).append_eq.symm
  · rw [scan_eq_result, Cut.result] at h
    cases hrejection : cut.rejection with
    | none => simp [cut, hrejection] at h
    | some rejection =>
      rw [hrejection] at h
      cases h
      rw [placeBehind_eq, ← Place.after_append, Place.offset_after, offset_origin, Nat.zero_add]

/-- A red entry comes last. -/
theorem getLast?_ofCut {cut : Cut} (h : ¬LooksSkipped (cut.gap ++ cut.remainder)) :
    (ofCut cut).getLast? = some ⟨.red, cut.gap ++ cut.remainder⟩ := by
  have hne : cut.gap ++ cut.remainder ≠ [] := fun hnil ↦ h ⟨[], [], hnil, nofun, .inl rfl⟩
  rw [ofCut, remainderColor_eq_red_iff.2 h, stretch_of_ne_nil hne, List.getLast?_concat]

/-- A line has a red entry if its scan fails, unless what is rejected is mistaken for something that is
skipped. The red entry is the last one, and it goes on to the end of the line from before the character that
the fault points at. -/
theorem red_iff_rejected (line : String) :
    let cut := Cut.ofChars line.toList
    ((∃ entry ∈ ofLine line, entry.color = .red) ↔
        (∃ fault, scan line = .error fault) ∧ ¬cut.IsMistaken) ∧
      ∀ entry ∈ ofLine line, entry.color = .red → (ofLine line).getLast? = some entry ∧
        ∃ fault before c rest, scan line = .error fault ∧ line.toList = before ++ c :: rest ∧
          fault.span.start = byteLength before ∧ c :: rest <:+ entry.text := by
  intro cut
  have hcuts : Cuts line.toList cut := cuts_ofChars line.toList
  have hred (entry : Painted) : entry ∈ ofLine line ∧ entry.color = .red ↔
      ¬cut.IsMistaken ∧ entry = ⟨.red, cut.gap ++ cut.remainder⟩ := by
    rw [ofLine_eq_ofCut, mem_red_iff, isMistaken_iff hcuts]
  have hfails (h : ¬cut.IsMistaken) : ∃ fault, scan line = .error fault := by
    rw [exists_fault_iff]
    apply List.exists_cons_of_ne_nil
    exact fun hnil ↦ h (.inr ⟨[], [], hnil, nofun, .inl rfl⟩)
  refine ⟨⟨?_, ?_⟩, ?_⟩
  · rintro ⟨entry, hentry⟩
    have hmistaken := ((hred entry).1 hentry).1
    exact ⟨hfails hmistaken, hmistaken⟩
  · rintro ⟨-, hmistaken⟩
    exact ⟨_, (hred _).2 ⟨hmistaken, rfl⟩⟩
  · intro entry hmem hcolor
    obtain ⟨hmistaken, rfl⟩ := (hred entry).1 ⟨hmem, hcolor⟩
    obtain ⟨fault, hfault⟩ := hfails hmistaken
    obtain ⟨c, rest, hremainder⟩ := (exists_fault_iff line).1 ⟨fault, hfault⟩
    obtain ⟨before, hline, hstart⟩ := start_of_scan_error hfault
    rw [hremainder] at hline
    rw [isMistaken_iff hcuts] at hmistaken
    refine ⟨getLast?_ofCut hmistaken, fault, before, c, rest, hfault, hline, hstart, ?_⟩
    exact ⟨cut.gap, by rw [← hremainder]⟩

/-- A comment hides what is rejected on the next line. -/
theorem not_red_iff_rejected_comment :
    ¬((∃ entry ∈ ofLine "-- c\n@", entry.color = .red) ↔ ∃ fault, scan "-- c\n@" = .error fault) := by
  intro h
  have hfault : scan "-- c\n@" = .error ⟨.unexpectedCharacter '@', ⟨5, 6⟩⟩ := (scan_eq_upTo _).trans rfl
  have hline : ofLine "-- c\n@" = [⟨.darkGray, "-- c\n@".toList⟩] := by
    rw [ofLine_eq_ofCut, Cut.ofChars_eq_upTo (Nat.lt_succ_self _)]
    decide +kernel
  obtain ⟨entry, hmem, hred⟩ := h.2 ⟨_, hfault⟩
  rw [hline] at hmem
  obtain rfl := List.mem_singleton.1 hmem
  cases hred

end Painted

end ScopeScript
