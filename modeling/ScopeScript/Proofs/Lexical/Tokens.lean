import ScopeScript.Proofs.Lexical.Scan

/-!
# The tokens divide the text

When a text is scanned to its end, the lexemes and what was skipped between them are the text again,
and the span of each token is where its lexeme stands. So spans never overlap, never divide a
character, and only the mark at the end is empty.
-/

namespace ScopeScript

namespace Lexical

/-- A text that is skipped: blanks and comments one after the other. -/
inductive Skipped : List Char → Prop
  | nil : Skipped []
  | more {text rest : List Char} (htext : Matches none text) (hrest : Skipped rest) :
      Skipped (text ++ rest)

/-- The tokens of `rest` behind `before`, with a skipped text before each of them. -/
inductive Tiles : (before rest : List Char) → List Token → Prop
  | finish {before gap : List Char} (hgap : Skipped gap) :
      Tiles before gap [tokenAt (before ++ gap) .eof [] none]
  | token {before gap text rest : List Char} {kind : Kind} {literal : Option Value}
      {tokens : List Token} (hgap : Skipped gap) (htext : Matches (some kind) text)
      (hrest : Tiles (before ++ gap ++ text) rest tokens) :
      Tiles before (gap ++ (text ++ rest)) (tokenAt (before ++ gap) kind text literal :: tokens)

theorem Tiles.skip {before text rest : List Char} {tokens : List Token}
    (htext : Matches none text) (h : Tiles (before ++ text) rest tokens) :
    Tiles before (text ++ rest) tokens := by
  cases h with
  | finish hgap =>
    rw [List.append_assoc]
    exact .finish (.more htext hgap)
  | token hgap hlexeme hrest =>
    rw [← List.append_assoc, List.append_assoc before]
    rw [List.append_assoc before] at hrest
    exact .token (.more htext hgap) hlexeme hrest

/-- A scan that succeeds divides the text. -/
theorem Scans.tiles {before rest : List Char} {result : Except Fault (List Token)}
    (h : Scans before rest result) {tokens : List Token} (hresult : result = .ok tokens) :
    Tiles before rest tokens := by
  induction h generalizing tokens with
  | @finish before =>
    cases hresult
    have htiles : Tiles before [] [tokenAt (before ++ []) .eof [] none] := .finish .nil
    simpa using htiles
  | skip hlongest _ ih => exact (ih hresult).skip hlongest.matches_
  | @token before text rest kind literal result hlongest hliteral _ ih =>
    cases result with
    | error fault => cases hresult
    | ok others =>
      cases hresult
      have htiles : Tiles before ([] ++ (text ++ rest))
          (tokenAt (before ++ []) kind text literal :: others) :=
        .token .nil hlongest.matches_ (by simpa using ih rfl)
      simpa using htiles
  | outOfRange | unterminated | unexpected => cases hresult

/-- The token stands in the text where its span says, between two characters. -/
def LiesIn (source : List Char) (token : Token) : Prop :=
  ∃ before after, source = before ++ (token.lexeme.toList ++ after) ∧
    token.span = ⟨byteLength before, byteLength (before ++ token.lexeme.toList)⟩

/-- The tokens of a text that is scanned to its end. -/
structure Divides (source : List Char) (tokens : List Token) : Prop where
  /-- One mark of the end comes last. -/
  marked : ∃ body mark, tokens = body ++ [mark] ∧ (∀ token ∈ body, token.kind ≠ .eof) ∧
    mark.kind = .eof ∧ mark.lexeme = "" ∧ mark.span = .point (byteLength source)
  /-- The lexemes are the stretches of the text that the spans tell. -/
  placed : ∀ token ∈ tokens, LiesIn source token
  /-- Only the mark of the end is empty. -/
  nonempty : ∀ token ∈ tokens, token.kind ≠ .eof → token.span.start < token.span.stop
  /-- Spans come in order and do not overlap. -/
  ordered : tokens.Pairwise fun first second ↦ first.span.stop ≤ second.span.start
  /-- What was skipped and the lexemes in turn are the text. -/
  rebuilt : ∃ gaps : List (List Char), gaps.length = tokens.length ∧ (∀ gap ∈ gaps, Skipped gap) ∧
    source = (List.zipWith (fun gap token ↦ gap ++ token.lexeme.toList) gaps tokens).flatten

namespace Tiles

variable {before rest : List Char} {tokens : List Token}

theorem marked (h : Tiles before rest tokens) :
    ∃ body, tokens = body ++ [tokenAt (before ++ rest) .eof [] none] ∧
      ∀ token ∈ body, token.kind ≠ .eof := by
  induction h with
  | finish => exact ⟨[], rfl, by simp⟩
  | @token before gap text rest kind literal tokens _ htext _ ih =>
    obtain ⟨body, rfl, hbody⟩ := ih
    refine ⟨tokenAt (before ++ gap) kind text literal :: body, by simp, ?_⟩
    rintro token (_ | ⟨_, hmem⟩)
    · rintro hkind : kind = .eof
      subst hkind
      cases htext
    · exact hbody token hmem

theorem placed (h : Tiles before rest tokens) : ∀ token ∈ tokens, LiesIn (before ++ rest) token := by
  induction h with
  | @finish before gap =>
    rintro token (_ | ⟨_, ⟨⟩⟩)
    exact ⟨before ++ gap, [], by simp [tokenAt], by simp [tokenAt]⟩
  | @token before gap text rest kind literal tokens _ _ _ ih =>
    rintro token (_ | ⟨_, hmem⟩)
    · exact ⟨before ++ gap, rest, by simp [tokenAt], by simp [tokenAt]⟩
    · simpa using ih token hmem

theorem nonempty (h : Tiles before rest tokens) :
    ∀ token ∈ tokens, token.kind ≠ .eof → token.span.start < token.span.stop := by
  induction h with
  | finish =>
    rintro token (_ | ⟨_, ⟨⟩⟩) hkind
    exact absurd rfl hkind
  | token _ htext _ ih =>
    rintro token (_ | ⟨_, hmem⟩) hkind
    · obtain ⟨c, cs, rfl⟩ := List.exists_cons_of_ne_nil htext.ne_nil
      have hpos := c.utf8Size_pos
      simp only [tokenAt, byteLength_append, byteLength_cons]
      omega
    · exact ih token hmem hkind

/-- No token starts before the text that is tiled. -/
theorem le_start (h : Tiles before rest tokens) :
    ∀ token ∈ tokens, byteLength before ≤ token.span.start := by
  induction h with
  | finish =>
    rintro token (_ | ⟨_, ⟨⟩⟩)
    simp [tokenAt]
  | token _ _ _ ih =>
    rintro token (_ | ⟨_, hmem⟩)
    · simp [tokenAt]
    · have hle := ih token hmem
      simp only [byteLength_append] at hle
      omega

theorem ordered (h : Tiles before rest tokens) :
    tokens.Pairwise fun first second ↦ first.span.stop ≤ second.span.start := by
  induction h with
  | finish => exact List.pairwise_singleton _ _
  | token _ _ hrest ih => exact List.pairwise_cons.2 ⟨fun second hmem ↦ hrest.le_start second hmem, ih⟩

theorem rebuilt (h : Tiles before rest tokens) :
    ∃ gaps : List (List Char), gaps.length = tokens.length ∧ (∀ gap ∈ gaps, Skipped gap) ∧
      rest = (List.zipWith (fun gap token ↦ gap ++ token.lexeme.toList) gaps tokens).flatten := by
  induction h with
  | @finish before gap hgap => exact ⟨[gap], rfl, by simpa using hgap, by simp [tokenAt]⟩
  | @token before gap text rest kind literal tokens hgap _ _ ih =>
    obtain ⟨gaps, hlength, hgaps, hrest⟩ := ih
    exact ⟨gap :: gaps, by simp [hlength], by simpa using ⟨hgap, hgaps⟩, by simp [tokenAt, ← hrest]⟩

theorem divides (h : Tiles [] rest tokens) : Divides rest tokens where
  marked := by
    obtain ⟨body, htokens, hbody⟩ := h.marked
    exact ⟨body, _, htokens, hbody, rfl, rfl, by simp [tokenAt, Span.point]⟩
  placed := h.placed
  nonempty := h.nonempty
  ordered := h.ordered
  rebuilt := h.rebuilt

end Tiles

end Lexical

open Lexical

theorem scan_eq_append_mark {source : String} {tokens : List Token} (h : scan source = .ok tokens) :
    ∃ body mark, tokens = body ++ [mark] := by
  obtain ⟨body, mark, htokens, -⟩ := ((scan_eq_iff.1 h).tiles rfl).divides.marked
  exact ⟨body, mark, htokens⟩

/-- Only the last of the tokens marks the end. -/
theorem kind_of_scan {source : String} {body : List Token} {mark : Token}
    (hscan : scan source = .ok (body ++ [mark])) :
    (∀ token ∈ body, token.kind ≠ .eof) ∧ mark.kind = .eof := by
  obtain ⟨body', mark', htokens, hbody, hmark, -, -⟩ :=
    ((scan_eq_iff.1 hscan).tiles rfl).divides.marked
  obtain ⟨rfl, hmarks⟩ := List.append_inj' htokens rfl
  obtain rfl := List.singleton_inj.1 hmarks
  exact ⟨hbody, hmark⟩

/-- The scan of a text takes the longest match at every place, stops where there is none or where
an integer is too large, and divides the text when it reaches the end. -/
theorem scan_takes_longest (source : String) :
    (∀ result, scan source = result ↔ Scans [] source.toList result) ∧
      ∀ tokens, scan source = .ok tokens → Divides source.toList tokens :=
  ⟨fun _ ↦ scan_eq_iff, fun _ h ↦ ((scan_eq_iff.1 h).tiles rfl).divides⟩

/-- Two points between digits are an operator, not the point of a number. -/
theorem scan_takes_longest_points :
    Divides "1..2".toList
      [⟨.number, "1", some (.number (.int 1)), ⟨1, 1⟩, ⟨0, 1⟩⟩,
        ⟨.symbol .dots, "..", none, ⟨1, 2⟩, ⟨1, 3⟩⟩,
        ⟨.number, "2", some (.number (.int 2)), ⟨1, 4⟩, ⟨3, 4⟩⟩,
        ⟨.eof, "", none, ⟨1, 5⟩, ⟨4, 4⟩⟩] :=
  (scan_takes_longest "1..2").2 _ ((scan_eq_upTo "1..2").trans rfl)

end ScopeScript
