import ScopeScript.Token.Basic
import Mathlib.Data.Nat.Digits.Defs

/-!
# The lexical rules

Which texts are lexemes, which are skipped, and how a text is cut by always taking the longest text
that some rule matches. The rules compete with each other: a comment begins like a subtraction, an
identifier may begin like a keyword, and a number may have a point. They are stated here without
regard to the order in which characters are read.
-/

namespace ScopeScript.Lexical

/-! ## Characters -/

/-- The characters that are skipped. -/
def Blank (c : Char) : Prop := c ∈ [' ', '\t', '\r', '\n', '\x0c', '\x0b']

/-- The characters that begin an identifier. -/
def WordStart (c : Char) : Prop := c.isAlpha ∨ c = '_'

/-- The characters that continue an identifier. -/
def WordPart (c : Char) : Prop := c.isAlphanum ∨ c = '_'

instance : DecidablePred Blank := fun c ↦ inferInstanceAs (Decidable (c ∈ _))

instance : DecidablePred WordStart := fun _ ↦ inferInstanceAs (Decidable (_ ∨ _))

instance : DecidablePred WordPart := fun _ ↦ inferInstanceAs (Decidable (_ ∨ _))

/-! ## Rules -/

/-- The text is a lexeme of the kind, or is skipped if there is no kind. -/
inductive Matches : Option Kind → List Char → Prop
  | blanks {c : Char} {cs : List Char} (hblank : ∀ d ∈ c :: cs, Blank d) : Matches none (c :: cs)
  | comment {cs : List Char} (hline : '\n' ∉ cs) : Matches none ('-' :: '-' :: cs)
  | symbol (symbol : Symbol) : Matches (some (.symbol symbol)) symbol.text.toList
  | keyword (keyword : Keyword) : Matches (some (.keyword keyword)) keyword.text.toList
  | identifier {c : Char} {cs : List Char} (hstart : WordStart c) (hparts : ∀ d ∈ cs, WordPart d) :
      Matches (some .identifier) (c :: cs)
  | integer {digits : List Char} (hne : digits ≠ []) (hdigits : ∀ d ∈ digits, d.isDigit) :
      Matches (some .number) digits
  | decimal {digits decimals : List Char} (hne : digits ≠ []) (hdigits : ∀ d ∈ digits, d.isDigit)
      (hne' : decimals ≠ []) (hdecimals : ∀ d ∈ decimals, d.isDigit) :
      Matches (some .number) (digits ++ '.' :: decimals)
  | string {cs : List Char} (hquote : '"' ∉ cs) : Matches (some .string) ('"' :: (cs ++ ['"']))

/-- The number that a row of decimal digits stands for. -/
def numeral (digits : List Char) : Nat :=
  Nat.ofDigits 10 (digits.reverse.map fun digit ↦ digit.toNat - '0'.toNat)

/-- The literal that a lexeme of the kind carries. An integer beyond the largest has none. -/
inductive Carries : Kind → List Char → Option Value → Prop
  | symbol (symbol : Symbol) (text : List Char) : Carries (.symbol symbol) text none
  | nil (text : List Char) : Carries (.keyword .nil) text (some .nil)
  | true (text : List Char) : Carries (.keyword .true) text (some (.bool true))
  | false (text : List Char) : Carries (.keyword .false) text (some (.bool false))
  | keyword {keyword : Keyword} (text : List Char) (hnil : keyword ≠ .nil)
      (htrue : keyword ≠ .true) (hfalse : keyword ≠ .false) : Carries (.keyword keyword) text none
  | identifier (text : List Char) : Carries .identifier text none
  | integer {digits : List Char} (hdigits : ∀ d ∈ digits, d.isDigit)
      (hrange : numeral digits < 2 ^ 63) :
      Carries .number digits (some (.number (.int (.ofNat (numeral digits)))))
  | decimal {digits decimals : List Char} (hdigits : ∀ d ∈ digits, d.isDigit)
      (hdecimals : ∀ d ∈ decimals, d.isDigit) :
      Carries .number (digits ++ '.' :: decimals)
        (some (.number (.float (.ofScientific (numeral (digits ++ decimals)) Bool.true
          decimals.length))))
  | string (cs : List Char) :
      Carries .string ('"' :: (cs ++ ['"'])) (some (.string (.ofList cs)))

/-! ## The longest match -/

/-- No rule matches a longer text at the beginning of `text ++ rest` than this one matches, and a
word that is a keyword is not taken for an identifier. -/
structure Longest (kind : Option Kind) (text rest : List Char) : Prop where
  matches_ : Matches kind text
  longest : ∀ {other text'}, Matches other text' → text' <+: text ++ rest →
    text'.length ≤ text.length
  priority : kind = some .identifier → ∀ keyword : Keyword, text ≠ keyword.text.toList

/-- No rule matches at the beginning of the text. -/
def Unmatched (text : List Char) : Prop :=
  ∀ {kind text'}, Matches kind text' → ¬text' <+: text

/-! ## Scanning -/

/-- A token of a kind behind the characters `before`. -/
def tokenAt (before : List Char) (kind : Kind) (text : List Char) (literal : Option Value) :
    Token :=
  ⟨kind, .ofList text, literal, (Place.origin.after before).position,
    ⟨byteLength before, byteLength (before ++ text)⟩⟩

/-- An error that blames the characters `extent` behind the characters `before`. -/
def faultAt (before : List Char) (error : Error) (extent : List Char) : Fault :=
  ⟨error, ⟨byteLength before, byteLength (before ++ extent)⟩⟩

/-- The tokens of the text `rest` behind the text `before`, or the first fault there: the longest
match is taken as long as there is one. -/
inductive Scans : (before rest : List Char) → Except Fault (List Token) → Prop
  | finish {before : List Char} :
      Scans before [] (.ok [tokenAt before .eof [] none])
  | skip {before text rest : List Char} {result : Except Fault (List Token)}
      (hlongest : Longest none text rest) (hrest : Scans (before ++ text) rest result) :
      Scans before (text ++ rest) result
  | token {before text rest : List Char} {kind : Kind} {literal : Option Value}
      {result : Except Fault (List Token)} (hlongest : Longest (some kind) text rest)
      (hliteral : Carries kind text literal) (hrest : Scans (before ++ text) rest result) :
      Scans before (text ++ rest) (result.map (tokenAt before kind text literal :: ·))
  | outOfRange {before text rest : List Char} (hlongest : Longest (some .number) text rest)
      (hdigits : ∀ d ∈ text, d.isDigit) (hrange : 2 ^ 63 ≤ numeral text) :
      Scans before (text ++ rest) (.error (faultAt before (.numberOutOfRange (.ofList text)) text))
  | unterminated {before rest : List Char} (hnone : Unmatched ('"' :: rest)) :
      Scans before ('"' :: rest) (.error (faultAt before .unterminatedString ('"' :: rest)))
  | unexpected {before rest : List Char} {c : Char} (hne : c ≠ '"')
      (hnone : Unmatched (c :: rest)) :
      Scans before (c :: rest) (.error (faultAt before (.unexpectedCharacter c) [c]))

/-! ## First characters -/

theorem Blank.other {c : Char} (h : Blank c) :
    ¬WordStart c ∧ ¬c.isDigit ∧ c ≠ '"' ∧ c ≠ '-' := by
  simp only [Blank, List.mem_cons, List.not_mem_nil, or_false] at h
  rcases h with rfl | rfl | rfl | rfl | rfl | rfl <;> decide

theorem WordStart.not_isDigit {c : Char} (h : WordStart c) : ¬c.isDigit := by
  rw [Char.isDigit_iff_toNat]
  rcases h with h | rfl
  · -- a letter lies in one of two ranges of code points
    change (decide _ || (decide _ && decide _)) = true at h
    simp [UInt32.le_iff_toNat_le] at h
    simp
    omega
  · decide

theorem WordStart.wordPart {c : Char} (h : WordStart c) : WordPart c :=
  h.imp_left fun halpha ↦ by simp [Char.isAlphanum, halpha]

theorem wordPart_of_isDigit {c : Char} (h : c.isDigit) : WordPart c :=
  .inl (by simp [Char.isAlphanum, h])

theorem exists_symbol_text (symbol : Symbol) :
    ∃ c cs, symbol.text.toList = c :: cs ∧ ¬Blank c ∧ ¬WordStart c ∧ ¬c.isDigit ∧ c ≠ '"' := by
  cases symbol <;> exact ⟨_, _, rfl, by decide⟩

theorem exists_keyword_text (keyword : Keyword) :
    ∃ c cs, keyword.text.toList = c :: cs ∧ WordStart c ∧ ∀ d ∈ cs, WordPart d := by
  have hall {cs : List Char} (h : cs.all (WordPart ·) = true) : ∀ d ∈ cs, WordPart d := by
    simpa using h
  cases keyword <;> exact ⟨_, _, rfl, by decide, hall (by decide)⟩

theorem symbol_text_ne_comment (symbol : Symbol) (line : List Char) :
    symbol.text.toList ≠ '-' :: '-' :: line := by
  cases symbol <;> exact fun h ↦ nomatch h

theorem symbol_text_injective {symbol other : Symbol}
    (h : symbol.text.toList = other.text.toList) : symbol = other := by
  have hfind (s : Symbol) : Symbol.all.find? (·.text.toList = s.text.toList) = some s := by
    cases s <;> rfl
  have hsymbol := hfind symbol
  rw [h, hfind other] at hsymbol
  exact (Option.some.inj hsymbol).symm

theorem keyword_text_injective {keyword other : Keyword}
    (h : keyword.text.toList = other.text.toList) : keyword = other := by
  have hfind (k : Keyword) : Keyword.all.find? (·.text.toList = k.text.toList) = some k := by
    cases k <;> rfl
  have hkeyword := hfind keyword
  rw [h, hfind other] at hkeyword
  exact (Option.some.inj hkeyword).symm

/-- The character begins no blank, word, number or string. -/
def Punctuation (c : Char) : Prop := ¬Blank c ∧ ¬WordStart c ∧ ¬c.isDigit ∧ c ≠ '"'

/-- The text begins like a comment. -/
def IsComment (text : List Char) : Prop := ∃ line, text = '-' :: '-' :: line

namespace Matches

variable {kind : Option Kind} {c : Char} {cs : List Char}

/-- The first character of a lexeme tells which rules may match it. -/
theorem classify (h : Matches kind (c :: cs)) :
    (Blank c ∧ kind = none ∧ ∀ d ∈ cs, Blank d) ∨
      (WordStart c ∧ (∀ d ∈ cs, WordPart d) ∧ (kind = some .identifier ∨
        ∃ keyword : Keyword, kind = some (.keyword keyword) ∧ c :: cs = keyword.text.toList)) ∨
      (c.isDigit ∧ kind = some .number) ∨
      (c = '"' ∧ kind = some .string ∧ ∃ body, cs = body ++ ['"'] ∧ '"' ∉ body) ∨
      (Punctuation c ∧ ((kind = none ∧ ∃ line, c :: cs = '-' :: '-' :: line ∧ '\n' ∉ line) ∨
        ∃ symbol : Symbol, kind = some (.symbol symbol) ∧ c :: cs = symbol.text.toList)) := by
  generalize htext : c :: cs = text at h
  cases h with
  | blanks hblank =>
    obtain ⟨rfl, rfl⟩ := List.cons.inj htext
    exact .inl ⟨hblank c (by simp), rfl, fun d hd ↦ hblank d (by simp [hd])⟩
  | @comment line hline =>
    obtain ⟨rfl, rfl⟩ := List.cons.inj htext
    exact .inr (.inr (.inr (.inr ⟨by simp [Punctuation]; decide, .inl ⟨rfl, line, rfl, hline⟩⟩)))
  | symbol symbol =>
    obtain ⟨d, ds, hsymbol, hclass⟩ := exists_symbol_text symbol
    obtain ⟨rfl, rfl⟩ := List.cons.inj (htext.trans hsymbol)
    exact .inr (.inr (.inr (.inr ⟨hclass, .inr ⟨symbol, rfl, rfl⟩⟩)))
  | keyword keyword =>
    obtain ⟨d, ds, hkeyword, hstart, hparts⟩ := exists_keyword_text keyword
    obtain ⟨rfl, rfl⟩ := List.cons.inj (htext.trans hkeyword)
    exact .inr (.inl ⟨hstart, hparts, .inr ⟨keyword, rfl, rfl⟩⟩)
  | identifier hstart hparts =>
    obtain ⟨rfl, rfl⟩ := List.cons.inj htext
    exact .inr (.inl ⟨hstart, hparts, .inl rfl⟩)
  | integer hne hdigits =>
    subst htext
    exact .inr (.inr (.inl ⟨hdigits c (by simp), rfl⟩))
  | @decimal digits decimals hne hdigits =>
    obtain ⟨d, ds, rfl⟩ := List.exists_cons_of_ne_nil hne
    obtain ⟨rfl, -⟩ := List.cons.inj htext
    exact .inr (.inr (.inl ⟨hdigits c (by simp), rfl⟩))
  | @string body hquote =>
    obtain ⟨rfl, rfl⟩ := List.cons.inj htext
    exact .inr (.inr (.inr (.inl ⟨rfl, rfl, body, rfl, hquote⟩)))

theorem of_blank (h : Matches kind (c :: cs)) (hc : Blank c) :
    kind = none ∧ ∀ d ∈ cs, Blank d := by
  obtain ⟨hword, hdigit, hquote, -⟩ := hc.other
  rcases h.classify with h | h | h | h | h
  · exact h.2
  · exact absurd h.1 hword
  · exact absurd h.1 hdigit
  · exact absurd h.1 hquote
  · exact absurd hc h.1.1

theorem of_wordStart (h : Matches kind (c :: cs)) (hc : WordStart c) :
    (∀ d ∈ cs, WordPart d) ∧ (kind = some .identifier ∨
      ∃ keyword : Keyword, kind = some (.keyword keyword) ∧ c :: cs = keyword.text.toList) := by
  rcases h.classify with h | h | h | h | h
  · exact absurd hc h.1.other.1
  · exact h.2
  · exact absurd h.1 hc.not_isDigit
  · exact absurd hc (h.1 ▸ by decide)
  · exact absurd hc h.1.2.1

theorem of_digit (h : Matches kind (c :: cs)) (hc : c.isDigit) : kind = some .number := by
  rcases h.classify with h | h | h | h | h
  · exact absurd hc h.1.other.2.1
  · exact absurd hc h.1.not_isDigit
  · exact h.2
  · exact absurd hc (h.1 ▸ by decide)
  · exact absurd hc h.1.2.2.1

theorem of_quote (h : Matches kind ('"' :: cs)) :
    kind = some .string ∧ ∃ body, cs = body ++ ['"'] ∧ '"' ∉ body := by
  rcases h.classify with h | h | h | h | h
  · exact absurd rfl h.1.other.2.2.1
  · exact absurd h.1 (by decide)
  · exact absurd h.1 (by decide)
  · exact h.2
  · exact absurd rfl h.1.2.2.2

theorem of_punctuation (h : Matches kind (c :: cs)) (hc : Punctuation c) :
    (kind = none ∧ ∃ line, c :: cs = '-' :: '-' :: line ∧ '\n' ∉ line) ∨
      ∃ symbol : Symbol, kind = some (.symbol symbol) ∧ c :: cs = symbol.text.toList := by
  rcases h.classify with h | h | h | h | h
  · exact absurd h.1 hc.1
  · exact absurd h.1 hc.2.1
  · exact absurd h.1 hc.2.2.1
  · exact absurd h.1 hc.2.2.2
  · exact h.2

theorem ne_nil {text : List Char} (h : Matches kind text) : text ≠ [] := by
  cases h with
  | blanks | comment | identifier | string => simp
  | symbol symbol => obtain ⟨c, cs, htext, -⟩ := exists_symbol_text symbol; simp [htext]
  | keyword keyword => obtain ⟨c, cs, htext, -⟩ := exists_keyword_text keyword; simp [htext]
  | integer hne => exact hne
  | decimal => simp

theorem of_comment {line : List Char} (h : Matches kind ('-' :: '-' :: line)) :
    kind = none ∧ '\n' ∉ line := by
  have hpunctuation : Punctuation '-' := ⟨by decide, by decide, by decide, by decide⟩
  rcases h.of_punctuation hpunctuation with ⟨hkind, line', htext, hline⟩ | ⟨symbol, -, htext⟩
  · obtain rfl := (List.cons.inj (List.cons.inj htext).2).2
    exact ⟨hkind, hline⟩
  · exact absurd htext.symm (symbol_text_ne_comment symbol line)

theorem not_isComment {kind : Kind} {text : List Char} (h : Matches (some kind) text) :
    ¬IsComment text := by
  rintro ⟨line, rfl⟩
  exact nomatch h.of_comment.1

/-- A string does not go on behind its end. -/
theorem eq_of_quote {other : Option Kind} {cs more : List Char}
    (h : Matches kind ('"' :: cs)) (h' : Matches other ('"' :: (cs ++ more))) : more = [] := by
  obtain ⟨-, body, rfl, -⟩ := h.of_quote
  obtain ⟨-, body', hbody', hquote⟩ := h'.of_quote
  rcases List.eq_nil_or_concat more with rfl | ⟨front, last, rfl⟩
  · rfl
  · rw [List.concat_eq_append, ← List.append_assoc] at hbody'
    obtain ⟨rfl, -⟩ := List.append_inj' hbody' rfl
    exact absurd (by simp) hquote

/-- A character that belongs neither to a word nor to a number stands in blanks, in a symbol, in a string or
in a comment. -/
theorem of_mem {text : List Char} {d : Char} (h : Matches kind text) (hword : ¬WordPart d)
    (hpoint : d ≠ '.') (hmem : d ∈ text) :
    (∀ e ∈ text, Blank e) ∨ (∃ symbol : Symbol, text = symbol.text.toList) ∨
      (∃ cs, text = '"' :: cs) ∨ ∃ line, text = '-' :: '-' :: line ∧ '\n' ∉ line := by
  have hdigit : ¬d.isDigit := fun hdigit ↦ hword (wordPart_of_isDigit hdigit)
  cases h with
  | blanks hblank => exact .inl hblank
  | comment hline => exact .inr (.inr (.inr ⟨_, rfl, hline⟩))
  | symbol symbol => exact .inr (.inl ⟨symbol, rfl⟩)
  | keyword keyword =>
    obtain ⟨c, cs, htext, hstart, hparts⟩ := exists_keyword_text keyword
    rw [htext] at hmem
    exact absurd (List.forall_mem_cons.2 ⟨hstart.wordPart, hparts⟩ d hmem) hword
  | identifier hstart hparts =>
    exact absurd (List.forall_mem_cons.2 ⟨hstart.wordPart, hparts⟩ d hmem) hword
  | integer _ hdigits => exact absurd (hdigits d hmem) hdigit
  | decimal _ hdigits _ hdecimals =>
    simp only [List.mem_append, List.mem_cons] at hmem
    rcases hmem with hmem | rfl | hmem
    · exact absurd (hdigits d hmem) hdigit
    · exact absurd rfl hpoint
    · exact absurd (hdecimals d hmem) hdigit
  | string => exact .inr (.inr (.inl ⟨_, rfl⟩))

/-- Only a keyword is matched by two rules, its own and that of the identifiers. -/
theorem kind_unique {text : List Char} {other : Option Kind} (h : Matches kind text)
    (h' : Matches other text)
    (hpriority : kind = some .identifier → ∀ keyword : Keyword, text ≠ keyword.text.toList)
    (hpriority' : other = some .identifier → ∀ keyword : Keyword, text ≠ keyword.text.toList) :
    kind = other := by
  obtain ⟨c, cs, rfl⟩ := List.exists_cons_of_ne_nil h.ne_nil
  rcases h.classify with ⟨hc, hkind, -⟩ | ⟨hc, -, hkind⟩ | ⟨hc, hkind⟩ | ⟨rfl, hkind, -⟩ | ⟨hc, hkind⟩
  · rw [hkind, (h'.of_blank hc).1]
  · obtain ⟨-, hother⟩ := h'.of_wordStart hc
    rcases hkind with hkind | ⟨keyword, hkind, htext⟩
    · rcases hother with hother | ⟨keyword, -, htext⟩
      · rw [hkind, hother]
      · exact absurd htext (hpriority hkind keyword)
    · rcases hother with hother | ⟨keyword', hother, htext'⟩
      · exact absurd htext (hpriority' hother keyword)
      · rw [hkind, hother, keyword_text_injective (htext.symm.trans htext')]
  · rw [hkind, h'.of_digit hc]
  · rw [hkind, h'.of_quote.1]
  · rcases hkind with ⟨hkind, line, htext, -⟩ | ⟨symbol, hkind, htext⟩ <;>
      rcases h'.of_punctuation hc with ⟨hother, line', htext', -⟩ | ⟨symbol', hother, htext'⟩
    · rw [hkind, hother]
    · exact absurd (htext'.symm.trans htext) (symbol_text_ne_comment symbol' line)
    · exact absurd (htext.symm.trans htext') (symbol_text_ne_comment symbol line')
    · rw [hkind, hother, symbol_text_injective (htext.symm.trans htext')]

end Matches

/-! ## Uniqueness -/

variable {kind other : Option Kind} {text text' rest rest' : List Char}

/-- At the beginning of a text there is one longest match at most. -/
theorem Longest.unique (h : Longest kind text rest) (h' : Longest other text' rest')
    (htext : text ++ rest = text' ++ rest') : kind = other ∧ text = text' ∧ rest = rest' := by
  have hle : text'.length ≤ text.length := h.longest h'.matches_ ⟨rest', htext.symm⟩
  have hge : text.length ≤ text'.length := h'.longest h.matches_ ⟨rest, htext⟩
  obtain ⟨rfl, rfl⟩ := List.append_inj htext (Nat.le_antisymm hge hle)
  exact ⟨h.matches_.kind_unique h'.matches_ h.priority h'.priority, rfl, rfl⟩

theorem Longest.not_unmatched (h : Longest kind text rest) : ¬Unmatched (text ++ rest) :=
  fun hnone ↦ hnone h.matches_ ⟨rest, rfl⟩

theorem not_isDigit_point : ¬('.' : Char).isDigit := by decide

/-- The digits before a point are determined. -/
theorem takeWhile_isDigit {digits : List Char} (hdigits : ∀ d ∈ digits, d.isDigit)
    (decimals : List Char) : (digits ++ '.' :: decimals).takeWhile Char.isDigit = digits := by
  rw [List.takeWhile_append_of_pos hdigits, List.takeWhile_cons_of_neg not_isDigit_point,
    List.append_nil]

/-- A lexeme carries one literal at most. -/
theorem Carries.unique {kind : Kind} {literal literal' : Option Value}
    (h : Carries kind text literal) (h' : Carries kind text literal') : literal = literal' := by
  cases h with
  | symbol | nil | true | false | identifier => cases h' <;> first | rfl | contradiction
  | keyword => cases h' <;> first | rfl | contradiction
  | integer hdigits =>
    generalize htext : text = other at h'
    cases h' with
    | integer => rfl
    | decimal => exact absurd (hdigits '.' (by simp [htext])) not_isDigit_point
  | @decimal digits decimals hdigits =>
    generalize htext : digits ++ '.' :: decimals = other at h'
    cases h' with
    | integer hall => exact absurd (hall '.' (by simp [← htext])) not_isDigit_point
    | decimal hdigits' =>
      have hsame := takeWhile_isDigit hdigits decimals
      rw [htext, takeWhile_isDigit hdigits'] at hsame
      subst hsame
      rw [(List.cons.inj (List.append_cancel_left htext)).2]
  | string cs =>
    generalize htext : '"' :: (cs ++ ['"']) = other at h'
    cases h' with
    | string cs' => rw [(List.append_inj_left' (List.cons.inj htext).2 rfl)]

namespace Scans

variable {before cs : List Char} {result other : Except Fault (List Token)}

theorem of_skip (h : Scans before cs result) (hcs : cs = text ++ rest)
    (hlongest : Longest none text rest) : Scans (before ++ text) rest result := by
  cases h with
  | finish => exact absurd (List.append_eq_nil_iff.1 hcs.symm).1 hlongest.matches_.ne_nil
  | skip hlongest' hrest =>
    obtain ⟨-, rfl, rfl⟩ := hlongest.unique hlongest' hcs.symm
    exact hrest
  | token hlongest' | outOfRange hlongest' => exact nomatch (hlongest.unique hlongest' hcs.symm).1
  | unterminated hnone | unexpected _ hnone => exact absurd (hcs ▸ hnone) hlongest.not_unmatched

theorem of_token {kind : Kind} {literal : Option Value} (h : Scans before cs result)
    (hcs : cs = text ++ rest) (hlongest : Longest (some kind) text rest)
    (hliteral : Carries kind text literal) :
    ∃ others, Scans (before ++ text) rest others ∧
      result = others.map (tokenAt before kind text literal :: ·) := by
  cases h with
  | finish => exact absurd (List.append_eq_nil_iff.1 hcs.symm).1 hlongest.matches_.ne_nil
  | skip hlongest' => exact nomatch (hlongest.unique hlongest' hcs.symm).1
  | token hlongest' hliteral' hrest =>
    obtain ⟨hkind, rfl, rfl⟩ := hlongest.unique hlongest' hcs.symm
    cases hkind
    exact ⟨_, hrest, by rw [hliteral.unique hliteral']⟩
  | outOfRange hlongest' hdigits hrange =>
    obtain ⟨hkind, rfl, rfl⟩ := hlongest.unique hlongest' hcs.symm
    cases hkind
    cases hliteral with
    | integer _ hrange' => exact absurd hrange' (Nat.not_lt.2 hrange)
    | decimal => exact absurd (hdigits '.' (by simp)) not_isDigit_point
  | unterminated hnone | unexpected _ hnone => exact absurd (hcs ▸ hnone) hlongest.not_unmatched

theorem of_outOfRange (h : Scans before cs result) (hcs : cs = text ++ rest)
    (hlongest : Longest (some .number) text rest) (hdigits : ∀ d ∈ text, d.isDigit)
    (hrange : 2 ^ 63 ≤ numeral text) :
    result = .error (faultAt before (.numberOutOfRange (.ofList text)) text) := by
  cases h with
  | finish => exact absurd (List.append_eq_nil_iff.1 hcs.symm).1 hlongest.matches_.ne_nil
  | skip hlongest' => exact nomatch (hlongest.unique hlongest' hcs.symm).1
  | token hlongest' hliteral' =>
    obtain ⟨hkind, rfl, rfl⟩ := hlongest.unique hlongest' hcs.symm
    cases hkind
    cases hliteral' with
    | integer _ hrange' => exact absurd hrange' (Nat.not_lt.2 hrange)
    | decimal => exact absurd (hdigits '.' (by simp)) not_isDigit_point
  | outOfRange hlongest' =>
    obtain ⟨-, rfl, -⟩ := hlongest.unique hlongest' hcs.symm
    rfl
  | unterminated hnone | unexpected _ hnone => exact absurd (hcs ▸ hnone) hlongest.not_unmatched

/-- A text is scanned in one way. -/
theorem unique (h : Scans before cs result) (h' : Scans before cs other) : result = other := by
  induction h generalizing other with
  | finish =>
    generalize hcs : ([] : List Char) = cs at h'
    cases h' with
    | finish => rfl
    | skip hlongest | token hlongest | outOfRange hlongest =>
      exact absurd (List.append_eq_nil_iff.1 hcs.symm).1 hlongest.matches_.ne_nil
    | unterminated | unexpected => cases hcs
  | skip hlongest _ ih => exact ih (h'.of_skip rfl hlongest)
  | token hlongest hliteral _ ih =>
    obtain ⟨others, hothers, rfl⟩ := h'.of_token rfl hlongest hliteral
    rw [ih hothers]
  | outOfRange hlongest hdigits hrange => rw [h'.of_outOfRange rfl hlongest hdigits hrange]
  | @unterminated before rest hnone =>
    generalize hcs : '"' :: rest = cs at h'
    cases h' with
    | finish => cases hcs
    | skip hlongest | token hlongest | outOfRange hlongest =>
      exact absurd (hcs ▸ hnone) hlongest.not_unmatched
    | unterminated => rfl
    | unexpected hne => exact absurd (List.cons.inj hcs).1.symm hne
  | @unexpected before rest c hne hnone =>
    generalize hcs : c :: rest = cs at h'
    cases h' with
    | finish => cases hcs
    | skip hlongest | token hlongest | outOfRange hlongest =>
      exact absurd (hcs ▸ hnone) hlongest.not_unmatched
    | unterminated => exact absurd (List.cons.inj hcs).1 hne
    | unexpected => rw [(List.cons.inj hcs).1]

end Scans

end ScopeScript.Lexical
