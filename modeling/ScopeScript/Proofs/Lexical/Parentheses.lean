import ScopeScript.Proofs.Grammar.Basic
import ScopeScript.Proofs.Lexical.Scan
import ScopeScript.Proofs.Tree.Unplaced

/-!
# Parentheses between lexemes

No lexeme that is read goes on into a parenthesis, and none begins within one. So a parenthesis that is
put between two lexemes of a text is a token by itself, and the tokens before it and behind it are those
of the text; only their places may differ. It must not be put right behind a comment, which goes on to
the end of its line; but no lexeme begins there.
-/

namespace ScopeScript

/-! ## Inserting characters -/

/-- The text with a character inserted behind so many bytes. -/
def insertAt (c : Char) : Nat → List Char → List Char
  | 0, cs => c :: cs
  | _ + 1, [] => [c]
  | offset + 1, d :: cs => d :: insertAt c (offset + 1 - d.utf8Size) cs

/-- The text with parentheses around a span. -/
def parenthesize (span : Span) (source : String) : String :=
  .ofList (insertAt '(' span.start (insertAt ')' span.stop source.toList))

theorem insertAt_byteLength (c : Char) (front back : List Char) :
    insertAt c (byteLength front) (front ++ back) = front ++ c :: back := by
  induction front with
  | nil => rw [byteLength_nil, List.nil_append, insertAt, List.nil_append]
  | cons d front ih =>
    obtain ⟨size, hsize⟩ := Nat.exists_eq_add_one.2 d.utf8Size_pos
    have hlength : byteLength (d :: front) = size + byteLength front + 1 := by
      rw [byteLength_cons, hsize]
      omega
    rw [hlength, List.cons_append, insertAt, hsize, Nat.add_right_comm, Nat.add_sub_cancel_left, ih]
    rfl

namespace Lexical

/-- The character is the parenthesis that the symbol spells. -/
inductive IsParenthesis : Char → Symbol → Prop
  | opening : IsParenthesis '(' .leftParen
  | closing : IsParenthesis ')' .rightParen

variable {c : Char} {symbol : Symbol} {kind : Option Kind} {text front back rest : List Char}

namespace IsParenthesis

variable {c : Char} {symbol : Symbol}

theorem text_eq (h : IsParenthesis c symbol) : symbol.text.toList = [c] := by
  cases h <;> rfl

theorem not_blank (h : IsParenthesis c symbol) : ¬Blank c := by
  cases h <;> decide

theorem not_wordPart (h : IsParenthesis c symbol) : ¬WordPart c := by
  cases h <;> decide

theorem punctuation (h : IsParenthesis c symbol) : Punctuation c := by
  cases h <;> exact ⟨by decide, by decide, by decide, by decide⟩

theorem ne_minus (h : IsParenthesis c symbol) : c ≠ '-' := by
  cases h <;> decide

theorem ne_point (h : IsParenthesis c symbol) : c ≠ '.' := by
  cases h <;> decide

end IsParenthesis

/-- Of the symbols only the parentheses contain a parenthesis. -/
theorem symbol_text_of_mem (hc : IsParenthesis c symbol) {other : Symbol}
    (hmem : c ∈ other.text.toList) : other.text.toList = [c] := by
  cases hc <;> cases other <;> first | rfl | exact absurd hmem (by decide)

/-- What contains a parenthesis is one, or a string or a comment. -/
theorem Matches.of_mem_parenthesis (h : Matches kind text) (hc : IsParenthesis c symbol)
    (hmem : c ∈ text) :
    text = [c] ∨ (∃ cs, text = '"' :: cs) ∨ ∃ line, text = '-' :: '-' :: line ∧ '\n' ∉ line := by
  rcases h.of_mem hc.not_wordPart hc.ne_point hmem with hblank | ⟨other, rfl⟩ | hstring | hcomment
  · exact absurd (hblank c hmem) hc.not_blank
  · exact .inl (symbol_text_of_mem hc hmem)
  · exact .inr (.inl hstring)
  · exact .inr (.inr hcomment)

/-- A text and what follows it are no comment up to a parenthesis, if the text is a longest match that
ends before the parenthesis. -/
theorem Longest.not_comment (h : Longest kind text (front ++ back)) (hc : IsParenthesis c symbol)
    (hend : front = [] → ¬IsComment text) {line : List Char} (hline : '\n' ∉ line) :
    ¬text ++ front ++ [c] <+: '-' :: '-' :: line := by
  rintro ⟨more, hmore⟩
  obtain ⟨d, ds, rfl⟩ := List.exists_cons_of_ne_nil h.matches_.ne_nil
  obtain ⟨rfl, htail⟩ := List.cons.inj hmore
  replace htail : ds ++ front ++ [c] ++ more = '-' :: line := htail
  cases hds : ds ++ front with
  | nil =>
    rw [hds] at htail
    exact hc.ne_minus (List.cons.inj htail).1
  | cons e es =>
    rw [hds] at htail
    obtain ⟨rfl, rfl⟩ := List.cons.inj htail
    -- the comment up to the parenthesis is a match as well, so it is the longest
    have hcomment : Matches none ('-' :: (ds ++ front)) :=
      hds ▸ .comment fun hmem ↦ hline (by simp [hmem])
    have hle := h.longest hcomment ⟨back, by simp⟩
    have hnil : front = [] := List.length_eq_zero_iff.1 (by simpa using hle)
    subst hnil
    rw [List.append_nil] at hds
    exact hend rfl ⟨es, by rw [hds]⟩

/-- A longest match stays one when a parenthesis comes right behind it or further behind. Only a comment
would go on into the parenthesis. -/
theorem Longest.insert (h : Longest kind text (front ++ back)) (hc : IsParenthesis c symbol)
    (hend : front = [] → ¬IsComment text) (rest : List Char) : Longest kind text (front ++ c :: rest) := by
  refine ⟨h.matches_, fun {other text'} hother hprefix ↦ ?_, h.priority⟩
  by_cases hshort : text'.length ≤ (text ++ front).length
  · have hwithin : text' <+: text ++ front := by
      refine List.prefix_of_prefix_length_le hprefix ?_ hshort
      exact ⟨c :: rest, List.append_assoc _ _ _⟩
    refine h.longest hother (hwithin.trans ?_)
    exact ⟨back, List.append_assoc _ _ _⟩
  -- a longer match goes on into the parenthesis, as only strings and comments do
  have hbeyond : text ++ front ++ [c] <+: text' := by
    refine List.prefix_of_prefix_length_le ⟨rest, by simp⟩ hprefix ?_
    rw [List.length_append, List.length_singleton]
    omega
  have hmem : c ∈ text' := hbeyond.mem (by simp)
  obtain ⟨d, ds, rfl⟩ := List.exists_cons_of_ne_nil h.matches_.ne_nil
  rcases hother.of_mem_parenthesis hc hmem with rfl | ⟨cs, rfl⟩ | ⟨line, rfl, hline⟩
  · exact Nat.succ_le_succ (Nat.zero_le _)
  · obtain ⟨more, hmore⟩ := hbeyond
    obtain ⟨rfl, htail⟩ := List.cons.inj hmore
    have hstring : Matches other ('"' :: (ds ++ (front ++ [c] ++ more))) := by
      simpa [← htail] using hother
    exact absurd (h.matches_.eq_of_quote hstring) (by simp)
  · exact absurd hbeyond (h.not_comment hc hend hline)

/-- A parenthesis is a lexeme, whatever follows. -/
theorem longest_parenthesis (hc : IsParenthesis c symbol) (rest : List Char) :
    Longest (some (.symbol symbol)) [c] rest := by
  refine ⟨hc.text_eq ▸ .symbol symbol, fun {other text'} hother hprefix ↦ ?_, fun h ↦ nomatch h⟩
  obtain ⟨d, ds, rfl⟩ := List.exists_cons_of_ne_nil hother.ne_nil
  obtain ⟨rfl, -⟩ := List.cons_prefix_cons.1 hprefix
  rcases hother.of_punctuation hc.punctuation with ⟨-, line, htext, -⟩ | ⟨other, -, htext⟩
  · exact absurd (List.cons.inj htext).1 hc.ne_minus
  · rw [htext, symbol_text_of_mem hc (htext ▸ List.mem_cons_self)]

/-- No comment ends where a lexeme begins. -/
theorem Longest.not_isComment {kind' : Kind} {text' : List Char}
    (h : Longest kind text (text' ++ rest)) (htext' : Matches (some kind') text') :
    ¬IsComment text := by
  rintro ⟨line, rfl⟩
  obtain ⟨d, ds, rfl⟩ := List.exists_cons_of_ne_nil htext'.ne_nil
  have hnewline : d ≠ '\n' := by
    rintro rfl
    exact nomatch (htext'.of_blank (by decide)).1
  have hcomment : Matches none ('-' :: '-' :: (line ++ [d])) :=
    .comment (by simp [h.matches_.of_comment.2, hnewline.symm])
  have hle := h.longest hcomment ⟨ds ++ rest, by simp⟩
  simp at hle

/-! ## Between two lexemes -/

/-- The tokens of the text `front` behind the text `before`, if `back` follows. The text does not end in a
comment. -/
inductive Passes (back : List Char) : (before front : List Char) → List Token → Prop
  | here {before : List Char} : Passes back before [] []
  | skip {before text front : List Char} {tokens : List Token}
      (hlongest : Longest none text (front ++ back)) (hend : front = [] → ¬IsComment text)
      (hrest : Passes back (before ++ text) front tokens) : Passes back before (text ++ front) tokens
  | token {before text front : List Char} {kind : Kind} {literal : Option Value}
      {tokens : List Token} (hlongest : Longest (some kind) text (front ++ back))
      (hliteral : Carries kind text literal) (hrest : Passes back (before ++ text) front tokens) :
      Passes back before (text ++ front) (tokenAt before kind text literal :: tokens)

namespace Passes

variable {before : List Char} {tokens others : List Token}

/-- What is passed is scanned first. -/
theorem scans (h : Passes back before front tokens) (hback : Scans (before ++ front) back (.ok others)) :
    Scans before (front ++ back) (.ok (tokens ++ others)) := by
  induction h with
  | here => simpa using hback
  | skip hlongest _ _ ih =>
    rw [List.append_assoc]
    exact .skip hlongest (ih (by simpa using hback))
  | token hlongest hliteral _ ih =>
    rw [List.append_assoc]
    exact .token hlongest hliteral (ih (by simpa using hback))

/-- A parenthesis behind what is passed does not change it. -/
theorem insert (h : Passes back before front tokens) (hc : IsParenthesis c symbol)
    (rest : List Char) : Passes (c :: rest) before front tokens := by
  induction h with
  | here => exact .here
  | skip hlongest hend _ ih => exact .skip (hlongest.insert hc hend rest) hend ih
  | token hlongest hliteral _ ih =>
    exact .token (hlongest.insert hc (fun _ ↦ hlongest.matches_.not_isComment) rest) hliteral ih

/-- One more token is passed. -/
theorem concat {kind : Kind} {literal : Option Value}
    (h : Passes (text ++ back) before front tokens) (hlongest : Longest (some kind) text back)
    (hliteral : Carries kind text literal) :
    Passes back before (front ++ text) (tokens ++ [tokenAt (before ++ front) kind text literal]) := by
  have hne : text ≠ [] := hlongest.matches_.ne_nil
  induction h with
  | @here before =>
    have hpasses : Passes back before (text ++ []) [tokenAt before kind text literal] :=
      .token (by simpa using hlongest) hliteral .here
    simpa using hpasses
  | @skip before text' front tokens hlongest' _ _ ih =>
    rw [List.append_assoc text', ← List.append_assoc before]
    refine .skip ?_ (fun hnil ↦ absurd (List.append_eq_nil_iff.1 hnil).2 hne) ih
    rwa [List.append_assoc]
  | @token before text' front kind' literal' tokens hlongest' hliteral' _ ih =>
    rw [List.append_assoc text', ← List.append_assoc before]
    refine .token ?_ hliteral' ih
    rwa [List.append_assoc]

/-- Tokens do not depend on what stands before them, except for their places. -/
theorem move (h : Passes back before front tokens) (before' : List Char) :
    ∃ tokens', Passes back before' front tokens' ∧
      tokens'.map Token.unplaced = tokens.map Token.unplaced := by
  induction h generalizing before' with
  | here => exact ⟨[], .here, rfl⟩
  | @skip _ text _ _ hlongest hend _ ih =>
    obtain ⟨tokens', hpasses, htokens⟩ := ih (before' ++ text)
    exact ⟨tokens', .skip hlongest hend hpasses, htokens⟩
  | @token _ text _ kind literal _ hlongest hliteral _ ih =>
    obtain ⟨tokens', hpasses, htokens⟩ := ih (before' ++ text)
    refine ⟨tokenAt before' kind text literal :: tokens', .token hlongest hliteral hpasses, ?_⟩
    rw [List.map_cons, List.map_cons, htokens]
    rfl

end Passes

theorem Scans.move {before : List Char} {result : Except Fault (List Token)} {tokens : List Token}
    (h : Scans before rest result) (hresult : result = .ok tokens) (before' : List Char) :
    ∃ tokens', Scans before' rest (.ok tokens') ∧
      tokens'.map Token.unplaced = tokens.map Token.unplaced := by
  induction h generalizing tokens before' with
  | finish =>
    cases hresult
    exact ⟨_, .finish, rfl⟩
  | @skip _ text _ _ hlongest _ ih =>
    obtain ⟨tokens', hscans, htokens⟩ := ih hresult (before' ++ text)
    exact ⟨tokens', .skip hlongest hscans, htokens⟩
  | @token _ text _ kind literal result hlongest hliteral _ ih =>
    cases result with
    | error fault => cases hresult
    | ok others =>
      cases hresult
      obtain ⟨tokens', hscans, htokens⟩ := ih rfl (before' ++ text)
      refine ⟨tokenAt before' kind text literal :: tokens', .token hlongest hliteral hscans, ?_⟩
      rw [List.map_cons, List.map_cons, htokens]
      rfl
  | outOfRange | unterminated | unexpected => cases hresult

/-- The text up to the lexeme of a token, this lexeme, and the text behind it. -/
inductive Reaches : (before rest : List Char) → (passed : List Token) → Token → List Token → Prop
  | intro {before front text back : List Char} {kind : Kind} {literal : Option Value}
      {passed others : List Token} (hfront : Passes (text ++ back) before front passed)
      (hlongest : Longest (some kind) text back) (hliteral : Carries kind text literal)
      (hback : Scans (before ++ front ++ text) back (.ok others)) :
      Reaches before (front ++ (text ++ back)) passed (tokenAt (before ++ front) kind text literal)
        others

/-- A scan reaches each of its tokens. -/
theorem Scans.reaches {before : List Char} {result : Except Fault (List Token)}
    {passed others : List Token} {token : Token} (h : Scans before rest result)
    (hresult : result = .ok (passed ++ token :: others)) (hkind : token.kind ≠ .eof) :
    Reaches before rest passed token others := by
  induction h generalizing passed with
  | finish =>
    cases passed with
    | nil =>
      cases hresult
      exact absurd rfl hkind
    | cons first passed => simp at hresult
  | @skip before text rest _ hlongest _ ih =>
    cases ih hresult with
    | @intro front text' back _ _ _ _ hfront hlongest' hliteral' hback =>
      rw [← List.append_assoc]
      -- a comment would go on if the token came right behind it
      have hend : front = [] → ¬IsComment text := by
        intro hnil
        rw [hnil, List.nil_append] at hlongest
        exact hlongest.not_isComment hlongest'.matches_
      rw [List.append_assoc before] at hback ⊢
      exact .intro (.skip hlongest hend hfront) hlongest' hliteral' hback
  | @token before text rest kind literal result hlongest hliteral hrest ih =>
    cases result with
    | error fault => cases hresult
    | ok tokens =>
      cases passed with
      | nil =>
        cases hresult
        simpa using Reaches.intro .here hlongest hliteral (by simpa using hrest)
      | cons first passed =>
        obtain ⟨rfl, rfl⟩ := List.cons.inj (Except.ok.inj hresult)
        cases ih rfl with
        | @intro front text' back _ _ _ _ hfront hlongest' hliteral' hback =>
          rw [← List.append_assoc text]
          rw [List.append_assoc before] at hback ⊢
          exact .intro (.token (by simpa using hlongest) hliteral hfront) hlongest' hliteral' hback
  | outOfRange | unterminated | unexpected => cases hresult

/-- A text can be divided before a token. -/
theorem Reaches.exists_before {before : List Char} {passed others : List Token} {token : Token}
    (h : Reaches before rest passed token others) :
    ∃ front back, rest = front ++ back ∧ token.span.start = byteLength (before ++ front) ∧
      Passes back before front passed ∧ Scans (before ++ front) back (.ok (token :: others)) := by
  cases h with
  | intro hfront hlongest hliteral hback =>
    exact ⟨_, _, rfl, rfl, hfront, .token hlongest hliteral hback⟩

/-- A text can be divided behind a token. -/
theorem Reaches.exists_behind {before : List Char} {passed others : List Token} {token : Token}
    (h : Reaches before rest passed token others) :
    ∃ front back, rest = front ++ back ∧ token.span.stop = byteLength (before ++ front) ∧
      Passes back before front (passed ++ [token]) ∧ Scans (before ++ front) back (.ok others) := by
  cases h with
  | @intro front text back _ _ _ _ hfront hlongest hliteral hback =>
    rw [List.append_assoc before] at hback
    refine ⟨front ++ text, back, by simp, ?_, hfront.concat hlongest hliteral, hback⟩
    rw [tokenAt, List.append_assoc]

/-! ## Around lexemes -/

theorem stop_extent_concat (tokens : List Token) (last : Token) :
    (extent (tokens ++ [last])).stop = last.span.stop := by
  rw [stop_extent (by simp) 0, stopAfter_append]
  rfl

/-- The lexemes of some tokens stand together in a text. -/
theorem Scans.exists_stretch {source : List Char} {front middle back : List Token}
    (h : Scans [] source (.ok (front ++ (middle ++ back)))) (hmiddle : middle ≠ [])
    (hkinds : ∀ token ∈ middle, token.kind ≠ .eof) :
    ∃ first between last, source = first ++ (between ++ last) ∧
      extent middle = ⟨byteLength first, byteLength (first ++ between)⟩ ∧
      Passes (between ++ last) [] first front ∧ Passes last first between middle ∧
      Scans (first ++ between) last (.ok back) := by
  obtain ⟨token, tokens, rfl⟩ := List.exists_cons_of_ne_nil hmiddle
  obtain ⟨first, tail, rfl, hstart, hfront, hscans⟩ :=
    (h.reaches rfl (hkinds token List.mem_cons_self)).exists_before
  -- the stretch ends behind the last of the tokens
  obtain ⟨init, final, hmiddle'⟩ : ∃ init final, token :: tokens = init ++ [final] :=
    ⟨_, _, (List.dropLast_concat_getLast hmiddle).symm⟩
  have htokens : token :: (tokens ++ back) = init ++ final :: back := by
    rw [← List.cons_append, hmiddle', List.append_assoc, List.singleton_append]
  have hkind : final.kind ≠ .eof := hkinds final (hmiddle' ▸ by simp)
  obtain ⟨between, last, rfl, hstop, hbetween, hback⟩ :=
    (hscans.reaches (congrArg Except.ok htokens) hkind).exists_behind
  refine ⟨first, between, last, rfl, ?_, hfront, hmiddle' ▸ hbetween, hback⟩
  calc
    extent (token :: tokens) = ⟨token.span.start, (extent (init ++ [final])).stop⟩ := by
      rw [← hmiddle', extent_cons]
    _ = ⟨byteLength first, byteLength (first ++ between)⟩ := by
      rw [stop_extent_concat, hstart, hstop, List.nil_append]

end Lexical

open Lexical

theorem parenthesize_stretch (first between last : List Char) :
    (parenthesize ⟨byteLength first, byteLength (first ++ between)⟩
        (.ofList (first ++ (between ++ last)))).toList =
      first ++ '(' :: (between ++ ')' :: last) := by
  rw [parenthesize, String.toList_ofList, String.toList_ofList, ← List.append_assoc,
    insertAt_byteLength, List.append_assoc, insertAt_byteLength]

theorem unplaced_parenthesis {c : Char} {symbol : Symbol} (hc : IsParenthesis c symbol)
    (before : List Char) :
    (tokenAt before (.symbol symbol) [c] none).unplaced = (Token.plain (.symbol symbol)).unplaced := by
  cases hc <;> rfl

/-- Parentheses around the text of some tokens are tokens before and behind them. -/
theorem scan_parenthesize {source : String} {front middle back : List Token}
    (h : scan source = .ok (front ++ (middle ++ back))) (hmiddle : middle ≠ [])
    (hkinds : ∀ token ∈ middle, token.kind ≠ .eof) :
    ∃ tokens, scan (parenthesize (extent middle) source) = .ok tokens ∧
      tokens.map Token.unplaced = (front ++ Token.plain (.symbol .leftParen) ::
        (middle ++ Token.plain (.symbol .rightParen) :: back)).map Token.unplaced := by
  obtain ⟨first, between, last, hsource, hextent, hfront, hbetween, hback⟩ :=
    (scan_eq_iff.1 h).exists_stretch hmiddle hkinds
  obtain ⟨middle', hmiddle', hsame⟩ :=
    (hbetween.insert .closing last).move (first ++ ['('])
  obtain ⟨back', hback', hsame'⟩ := hback.move rfl (first ++ ['('] ++ between ++ [')'])
  have hscans : Scans [] (first ++ '(' :: (between ++ ')' :: last)) (.ok (front ++
      tokenAt first (.symbol .leftParen) ['('] none :: (middle' ++
        tokenAt (first ++ ['('] ++ between) (.symbol .rightParen) [')'] none :: back'))) := by
    refine (hfront.insert .opening _).scans ?_
    refine .token (longest_parenthesis .opening _) (.symbol _ _) (hmiddle'.scans ?_)
    exact .token (longest_parenthesis .closing _) (.symbol _ _) hback'
  have hsource' : source = .ofList (first ++ (between ++ last)) := by
    rw [← hsource, String.ofList_toList]
  rw [← parenthesize_stretch, ← hsource', ← hextent] at hscans
  refine ⟨_, scan_eq_iff.2 hscans, ?_⟩
  simp [hsame, hsame', unplaced_parenthesis .opening, unplaced_parenthesis .closing]

end ScopeScript
