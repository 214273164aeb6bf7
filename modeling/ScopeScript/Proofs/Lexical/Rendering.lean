import ScopeScript.Proofs.Lexical.Scan

/-!
# Written lexemes are scanned again

A lexeme may be written in front of any blank: no rule matches more of the text there, because only a
string, a comment or a row of blanks goes on into a blank. So whatever lexemes are written one after the
other, with a blank between each and the next, are the tokens of the text. What else is written behind
these blanks does not matter, as long as it is skipped: blanks, and comments up to the ends of their lines.
-/

namespace ScopeScript

namespace Lexical

/-! ## Lexemes that can be written -/

/-- What may be written as a token. -/
inductive Spelling where
  | symbol (symbol : Symbol)
  | keyword (keyword : Keyword)
  | identifier (first : Char) (parts : List Char) (hstart : WordStart first)
      (hparts : ∀ c ∈ parts, WordPart c)
      (hreserved : ∀ keyword : Keyword, first :: parts ≠ keyword.text.toList)
  | integer (digits : List Char) (hne : digits ≠ []) (hdigits : ∀ d ∈ digits, d.isDigit)
      (hrange : numeral digits ≤ 2 ^ 63 - 1)
  | decimal (digits decimals : List Char) (hne : digits ≠ []) (hdigits : ∀ d ∈ digits, d.isDigit)
      (hne' : decimals ≠ []) (hdecimals : ∀ d ∈ decimals, d.isDigit)
  | string (body : List Char) (hquote : '"' ∉ body)

namespace Spelling

/-- The kind of the token. -/
def kind : Spelling → Kind
  | symbol s => .symbol s
  | keyword k => .keyword k
  | identifier .. => .identifier
  | integer .. | decimal .. => .number
  | string .. => .string

/-- How the token is written. -/
def text : Spelling → List Char
  | symbol s => s.text.toList
  | keyword k => k.text.toList
  | identifier first parts .. => first :: parts
  | integer digits .. => digits
  | decimal digits decimals .. => digits ++ '.' :: decimals
  | string body _ => '"' :: (body ++ ['"'])

/-- What the token denotes. -/
def literal : Spelling → Option Value
  | keyword .nil => some .nil
  | keyword .true => some (.bool true)
  | keyword .false => some (.bool false)
  | symbol _ | keyword _ | identifier .. => none
  | integer digits .. => some (.number (.int (.ofNat (numeral digits))))
  | decimal digits decimals .. =>
    some (.number (.float (.ofScientific (numeral (digits ++ decimals)) Bool.true decimals.length)))
  | string body _ => some (.string (.ofList body))

theorem matches_text (spelling : Spelling) : Matches (some spelling.kind) spelling.text := by
  cases spelling with
  | symbol s => exact .symbol s
  | keyword k => exact .keyword k
  | identifier first parts hstart hparts hreserved => exact .identifier hstart hparts
  | integer digits hne hdigits hrange => exact .integer hne hdigits
  | decimal digits decimals hne hdigits hne' hdecimals => exact .decimal hne hdigits hne' hdecimals
  | string body hquote => exact .string hquote

theorem ne_keyword (spelling : Spelling) (h : some spelling.kind = some .identifier) :
    ∀ keyword : Keyword, spelling.text ≠ keyword.text.toList := by
  cases spelling with
  | identifier first parts hstart hparts hreserved => exact hreserved
  | symbol | keyword | integer | decimal | string => cases h

theorem carries_literal (spelling : Spelling) :
    Carries spelling.kind spelling.text spelling.literal := by
  cases spelling with
  | symbol s => exact .symbol s _
  | keyword k => cases k <;> exact Lexeme.carries_keywordValue _ _
  | identifier first parts hstart hparts hreserved => exact .identifier _
  | integer digits hne hdigits hrange =>
    have hlt : numeral digits < 2 ^ 63 := by omega
    exact .integer hdigits hlt
  | decimal digits decimals hne hdigits hne' hdecimals => exact .decimal hdigits hdecimals
  | string body hquote => exact .string body

/-- An integer that can be written is no more than the largest word, so its word is exact. -/
theorem toInt_ofNat_numeral {digits : List Char} (hrange : numeral digits ≤ 2 ^ 63 - 1) :
    (Int64.ofNat (numeral digits)).toInt = numeral digits := by
  apply Int64.toInt_ofNat_of_lt
  omega

end Spelling

/-! ## Lexemes before a blank -/

section

variable {c : Char} {kind : Option Kind} {text : List Char}

theorem Blank.not_wordPart (h : Blank c) : ¬WordPart c := by
  simp only [Blank, List.mem_cons, List.not_mem_nil, or_false] at h
  rcases h with rfl | rfl | rfl | rfl | rfl | rfl <;> decide

theorem Blank.not_mem_symbol (h : Blank c) (symbol : Symbol) : c ∉ symbol.text.toList := by
  have hall : symbol.text.toList.all (¬Blank ·) = true := by cases symbol <;> decide
  intro hmem
  exact of_decide_eq_true (List.all_eq_true.1 hall c hmem) h

/-- What contains a blank is a row of blanks, a string or a comment. -/
theorem Matches.of_mem_blank (h : Matches kind text) (hc : Blank c) (hmem : c ∈ text) :
    (∀ d ∈ text, Blank d) ∨ (∃ cs, text = '"' :: cs) ∨ IsComment text := by
  have hpoint : c ≠ '.' := by
    rintro rfl
    exact absurd hc (by decide)
  rcases h.of_mem hc.not_wordPart hpoint hmem with hblank | ⟨symbol, rfl⟩ | hstring | ⟨line, rfl, -⟩
  · exact .inl hblank
  · exact absurd hmem (hc.not_mem_symbol symbol)
  · exact .inr (.inl hstring)
  · exact .inr (.inr ⟨line, rfl⟩)

/-- A lexeme does not go on into a blank. -/
theorem Matches.not_prefix_of_blank {kind : Kind} {other : Option Kind} {text' : List Char}
    (h : Matches (some kind) text) (hc : Blank c) (hother : Matches other text') :
    ¬text ++ [c] <+: text' := by
  intro hbeyond
  obtain ⟨more, hmore⟩ := hbeyond
  obtain ⟨d, ds, rfl⟩ := List.exists_cons_of_ne_nil h.ne_nil
  have hmem : c ∈ text' := hmore ▸ by simp
  rcases hother.of_mem_blank hc hmem with hblank | ⟨cs, rfl⟩ | ⟨line, rfl⟩
  · have hd : Blank d := hblank d (hmore ▸ by simp)
    exact nomatch (h.of_blank hd).1
  · obtain ⟨rfl, htail⟩ := List.cons.inj hmore
    have hstring : Matches other ('"' :: (ds ++ ([c] ++ more))) := by simpa [← htail] using hother
    exact absurd (h.eq_of_quote hstring) (by simp)
  · obtain ⟨rfl, htail⟩ := List.cons.inj hmore
    cases ds with
    | nil => exact hc.other.2.2.2 (List.cons.inj htail).1
    | cons e es =>
      obtain ⟨rfl, -⟩ := List.cons.inj htail
      exact h.not_isComment ⟨es, rfl⟩

/-- A lexeme is the longest match in front of a blank. -/
theorem Spelling.longest_text (spelling : Spelling) (hc : Blank c) (rest : List Char) :
    Longest (some spelling.kind) spelling.text (c :: rest) := by
  refine ⟨spelling.matches_text, fun {other text'} hother hprefix ↦ ?_, spelling.ne_keyword⟩
  by_contra hlong
  refine spelling.matches_text.not_prefix_of_blank hc hother ?_
  refine List.prefix_of_prefix_length_le ⟨rest, by simp⟩ hprefix ?_
  rw [List.length_append, List.length_singleton]
  omega

end

/-! ## Separators -/

/-- Blanks, and comments that end with their lines, in any order. -/
inductive Spacing : List Char → Prop
  | nil : Spacing []
  | blank {c : Char} {cs : List Char} (hblank : Blank c) (hrest : Spacing cs) : Spacing (c :: cs)
  | comment {line cs : List Char} (hline : '\n' ∉ line) (hrest : Spacing cs) :
      Spacing ('-' :: '-' :: (line ++ '\n' :: cs))

/-- What may be written between two tokens: a blank, and then any spacing. -/
structure Separator where
  blank : Char
  spacing : List Char
  isBlank : Blank blank
  isSpacing : Spacing spacing

/-- The separator as a text. -/
def Separator.text (separator : Separator) : List Char := separator.blank :: separator.spacing

theorem Separator.spacing_text (separator : Separator) : Spacing separator.text :=
  .blank separator.isBlank separator.isSpacing

theorem Spacing.splitGap_append {gap : List Char} (h : Spacing gap) (rest : List Char) :
    splitGap false (gap ++ rest) = (gap ++ (splitGap false rest).1, (splitGap false rest).2) := by
  induction h with
  | nil => rfl
  | blank hblank _ ih => rw [List.cons_append, splitGap_of_blank (isBlank_iff.2 hblank), ih]; rfl
  | @comment line cs hline _ ih =>
    have hline' : ∀ c ∈ ('\n' :: (cs ++ rest)).head?, c = '\n' := by simp
    have hcomment := splitGap_comment hline hline'
    rw [splitGap_of_blank (by decide), ih] at hcomment
    simpa using hcomment

/-- What is skipped at the beginning of a text moves the tokens behind it. -/
theorem Scans.of_splitGap {before gap rest : List Char} {result : Except Fault (List Token)}
    (hgap : splitGap false (gap ++ rest) =
      (gap ++ (splitGap false rest).1, (splitGap false rest).2))
    (h : Scans (before ++ gap) rest result) : Scans before (gap ++ rest) result := by
  have hcut := isCut before (gap ++ rest)
  rw [IsCut, Cut.ofChars_append hgap, Cut.result_delay, ← Place.after_append] at hcut
  rwa [h.unique (isCut (before ++ gap) rest)]

/-! ## Texts of written tokens -/

/-- The text of these tokens, with a separator behind each of them and one in front. -/
def render (separator : Separator) : List (Spelling × Separator) → List Char
  | [] => separator.text
  | (spelling, next) :: items => separator.text ++ (spelling.text ++ render next items)

/-- The tokens of a rendered text behind the text `before`. -/
def rendered (before : List Char) (separator : Separator) : List (Spelling × Separator) → List Token
  | [] => [tokenAt (before ++ separator.text) .eof [] none]
  | (spelling, next) :: items =>
    tokenAt (before ++ separator.text) spelling.kind spelling.text spelling.literal ::
      rendered (before ++ separator.text ++ spelling.text) next items

theorem exists_render (separator : Separator) (items : List (Spelling × Separator)) :
    ∃ rest, render separator items = separator.blank :: rest := by
  cases items <;> exact ⟨_, rfl⟩

theorem scans_render (before : List Char) (separator : Separator)
    (items : List (Spelling × Separator)) :
    Scans before (render separator items) (.ok (rendered before separator items)) := by
  induction items generalizing before separator with
  | nil =>
    have hgap := separator.spacing_text.splitGap_append []
    have hscans := Scans.of_splitGap hgap (@Scans.finish (before ++ separator.text))
    rwa [List.append_nil] at hscans
  | cons item items ih =>
    obtain ⟨spelling, next⟩ := item
    obtain ⟨rest, hrest⟩ := exists_render next items
    have hlongest := spelling.longest_text next.isBlank rest
    rw [← hrest] at hlongest
    apply Scans.of_splitGap (separator.spacing_text.splitGap_append _)
    exact .token hlongest spelling.carries_literal (ih _ next)

theorem content_rendered (before : List Char) (separator : Separator)
    (items : List (Spelling × Separator)) :
    (rendered before separator items).map (fun token ↦
        (token.kind, token.lexeme.toList, token.literal)) =
      items.map (fun item ↦ (item.1.kind, item.1.text, item.1.literal)) ++ [(.eof, [], none)] := by
  induction items generalizing before separator with
  | nil => simp [rendered, tokenAt]
  | cons item items ih => simp [rendered, tokenAt, ih]

end Lexical

open Lexical

/-- Lexemes that are written with separators around them are the tokens of the text, in their places, and
the mark of the end comes behind them. The literal of an integer is the number that its digits stand
for. -/
theorem scan_render (separator : Separator) (items : List (Spelling × Separator)) :
    scan (.ofList (render separator items)) = .ok (rendered [] separator items) ∧
      (rendered [] separator items).map (fun token ↦
          (token.kind, token.lexeme.toList, token.literal)) =
        items.map (fun item ↦ (item.1.kind, item.1.text, item.1.literal)) ++ [(.eof, [], none)] ∧
      ∀ digits hne hdigits hrange, ∃ word : Int64,
        (Spelling.integer digits hne hdigits hrange).literal = some (.number (.int word)) ∧
          word.toInt = numeral digits := by
  refine ⟨?_, content_rendered [] separator items, ?_⟩
  · rw [scan_eq_iff, String.toList_ofList]
    exact scans_render [] separator items
  · intro digits hne hdigits hrange
    exact ⟨_, rfl, Spelling.toInt_ofNat_numeral hrange⟩

end ScopeScript
