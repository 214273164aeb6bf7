import ScopeScript.Proofs.Lexical.Basic
import ScopeScript.Token.Lexeme
import Mathlib.Data.List.Induction
import Mathlib.Data.List.TakeWhile

/-!
# A lexeme is a longest match

The reader of lexemes looks at the first character and takes as many more as belong to it. That this
is the longest match of all rules is shown for each first character: the other rules do not match
there at all, and the one that does cannot match more. What the reader rejects is matched by no rule,
except for an integer that is too large.
-/

namespace ScopeScript

open Lexical

/-! ## Characters and numerals -/

theorem isBlank_iff {c : Char} : isBlank c ↔ Blank c := by
  simp [isBlank, Blank, or_assoc]

theorem isWordStart_iff {c : Char} : isWordStart c ↔ WordStart c := by
  simp [isWordStart, WordStart]

theorem isWordChar_iff {c : Char} : isWordChar c ↔ WordPart c := by
  simp [isWordChar, WordPart]

theorem numeral_append_singleton (digits : List Char) (digit : Char) :
    numeral (digits ++ [digit]) = 10 * numeral digits + (digit.toNat - '0'.toNat) := by
  simp [numeral, Nat.ofDigits_cons, Nat.add_comm]

/-- Reading the digits from the left gives the number that they stand for. -/
theorem Lexeme.digitsValue_eq_numeral (digits : List Char) :
    Lexeme.digitsValue digits = numeral digits := by
  induction digits using List.reverseRecOn with
  | nil => rfl
  | append_singleton digits digit ih =>
    rw [numeral_append_singleton, ← ih, digitsValue, List.foldl_append]
    rfl

/-- A prefix whose items all have a property is no longer than the longest such prefix. -/
theorem length_le_takeWhile {α : Type} {p : α → Bool} {xs ys : List α} (h : xs <+: ys)
    (hall : ∀ x ∈ xs, p x) : xs.length ≤ (ys.takeWhile p).length := by
  obtain ⟨zs, rfl⟩ := h
  rw [List.takeWhile_append_of_pos hall, List.length_append]
  exact Nat.le_add_right _ _

theorem notMem_takeWhile_ne (x : Char) (cs : List Char) : x ∉ cs.takeWhile (· ≠ x) := by
  intro hmem
  simpa using List.mem_takeWhile_imp hmem

theorem head?_dropWhile_ne (x : Char) (cs : List Char) :
    ∀ c ∈ (cs.dropWhile (· ≠ x)).head?, c = x := by
  intro c hc
  have hhead := List.head?_dropWhile_not (fun d ↦ decide (d ≠ x)) cs
  rw [Option.mem_def.1 hc] at hhead
  simpa using hhead

namespace Lexeme

variable {c : Char} {cs text rest extent : List Char} {kind : Kind} {literal : Option Value}
  {error : Error}

/-! ## Words -/

theorem keyword?_eq_some {word : List Char} {keyword : Keyword} (h : keyword? word = some keyword) :
    keyword.text.toList = word := by
  simpa using List.find?_some h

theorem keyword?_text (keyword : Keyword) : keyword? keyword.text.toList = some keyword := by
  cases keyword <;> rfl

theorem carries_keywordValue (keyword : Keyword) (text : List Char) :
    Carries (.keyword keyword) text (keywordValue keyword) := by
  by_cases hnil : keyword = .nil
  · exact hnil ▸ .nil text
  by_cases htrue : keyword = .true
  · exact htrue ▸ .true text
  by_cases hfalse : keyword = .false
  · exact hfalse ▸ .false text
  have hvalue : keywordValue keyword = none := by cases keyword <;> first | rfl | contradiction
  exact hvalue ▸ .keyword text hnil htrue hfalse

/-- Whatever matches where a word begins is no longer than the word. -/
theorem length_le_of_wordStart {other : Option Kind} {text' : List Char} (hc : WordStart c)
    (hother : Matches other text') (hfirst : text' <+: c :: cs) :
    text'.length ≤ (c :: cs.takeWhile isWordChar).length := by
  obtain ⟨d, ds, rfl⟩ := List.exists_cons_of_ne_nil hother.ne_nil
  obtain ⟨rfl, hds⟩ := List.cons_prefix_cons.1 hfirst
  have hparts := (hother.of_wordStart hc).1
  exact Nat.succ_le_succ (length_le_takeWhile hds fun d hd ↦ isWordChar_iff.2 (hparts d hd))

theorem longest_word (hc : WordStart c)
    (h : ofWord (c :: cs.takeWhile isWordChar) (cs.dropWhile isWordChar) =
      read kind text literal rest) :
    c :: cs = text ++ rest ∧ Longest (some kind) text rest ∧ Carries kind text literal := by
  have hsplit : c :: cs = (c :: cs.takeWhile isWordChar) ++ cs.dropWhile isWordChar := by
    rw [List.cons_append, List.takeWhile_append_dropWhile]
  unfold ofWord at h
  split at h
  next keyword hkeyword =>
    cases h
    refine ⟨hsplit, ⟨?_, fun hother hfirst ↦ ?_, by simp⟩, carries_keywordValue _ _⟩
    · rw [← keyword?_eq_some hkeyword]
      exact .keyword keyword
    · exact length_le_of_wordStart hc hother (hsplit ▸ hfirst)
  next hkeyword =>
    cases h
    refine ⟨hsplit, ⟨.identifier hc ?_, fun hother hfirst ↦ ?_, fun _ keyword htext ↦ ?_⟩,
      .identifier _⟩
    · exact fun d hd ↦ isWordChar_iff.1 (List.mem_takeWhile_imp hd)
    · exact length_le_of_wordStart hc hother (hsplit ▸ hfirst)
    · rw [htext, keyword?_text] at hkeyword
      cases hkeyword

/-! ## Numbers -/

theorem fraction?_eq_some_iff {decimals : List Char} :
    fraction? rest = some decimals ↔
      ∃ ds, rest = '.' :: ds ∧ ds.takeWhile Char.isDigit = decimals ∧ decimals ≠ [] := by
  unfold fraction?
  split
  next ds =>
    split
    next hnil => simp +contextual [hnil, eq_comm]
    next hne =>
      simp only [Option.some.injEq, List.cons.injEq, true_and]
      exact ⟨fun h ↦ ⟨ds, rfl, h, h ▸ hne⟩, fun ⟨_, hds, h, _⟩ ↦ hds ▸ h⟩
  next hpoint => simpa using fun ds hds ↦ absurd hds (hpoint ds)

/-- What matches where a number begins is a row of digits, or a longer text with a fraction. -/
theorem exists_fraction_of_matches {digits : List Char} {other : Option Kind} {text' : List Char}
    (hdigit : c.isDigit) (hdigits : (c :: cs).takeWhile Char.isDigit = digits)
    (hother : Matches other text') (hfirst : text' <+: c :: cs) :
    text'.length ≤ digits.length ∨ ∃ decimals, fraction? ((c :: cs).dropWhile Char.isDigit) =
      some decimals ∧ text'.length ≤ (digits ++ '.' :: decimals).length := by
  have hkind : other = some .number := by
    obtain ⟨d, ds, rfl⟩ := List.exists_cons_of_ne_nil hother.ne_nil
    obtain ⟨rfl, -⟩ := List.cons_prefix_cons.1 hfirst
    exact hother.of_digit hdigit
  subst hkind
  cases hother with
  | integer _ hall => exact .inl (hdigits ▸ length_le_takeWhile hfirst hall)
  | @decimal digits' decimals' _ hall hne hall' =>
    right
    obtain ⟨others, hothers⟩ := hfirst
    have hsame : digits' = digits := by
      rw [← hdigits, ← hothers, List.append_assoc, List.cons_append, takeWhile_isDigit hall]
    have hdrop : (c :: cs).dropWhile Char.isDigit = '.' :: (decimals' ++ others) := by
      rw [← hothers, List.append_assoc, List.cons_append, List.dropWhile_append_of_pos hall,
        List.dropWhile_cons_of_neg not_isDigit_point]
    have hle := length_le_takeWhile (List.prefix_append decimals' others) hall'
    have hpos := List.length_pos_iff.2 hne
    refine ⟨(decimals' ++ others).takeWhile Char.isDigit,
      fraction?_eq_some_iff.2 ⟨_, hdrop, rfl, List.length_pos_iff.1 (by omega)⟩, ?_⟩
    rw [hsame]
    simp only [List.length_append, List.length_cons]
    omega

/-- What a number is read from, and the digits at its beginning. -/
theorem takeWhile_digits (hdigit : c.isDigit) (cs : List Char) :
    (c :: cs).takeWhile Char.isDigit = c :: cs.takeWhile Char.isDigit ∧
      (c :: cs).dropWhile Char.isDigit = cs.dropWhile Char.isDigit ∧
      ∀ d ∈ c :: cs.takeWhile Char.isDigit, d.isDigit := by
  have htake := List.takeWhile_cons_of_pos (l := cs) hdigit
  refine ⟨htake, List.dropWhile_cons_of_pos hdigit, ?_⟩
  rw [← htake]
  exact fun d hd ↦ List.mem_takeWhile_imp hd

theorem longest_integer (hdigit : c.isDigit) (hnone : fraction? (cs.dropWhile Char.isDigit) = none) :
    Longest (some .number) (c :: cs.takeWhile Char.isDigit) (cs.dropWhile Char.isDigit) := by
  obtain ⟨htake, hdrop, hdigits⟩ := takeWhile_digits hdigit cs
  refine ⟨.integer (by simp) hdigits, fun hother hfirst ↦ ?_, by simp⟩
  rw [List.cons_append, List.takeWhile_append_dropWhile] at hfirst
  rcases exists_fraction_of_matches hdigit htake hother hfirst with hle | ⟨decimals, hsome, -⟩
  · exact hle
  · rw [hdrop, hnone] at hsome
    cases hsome

theorem longest_decimal {decimals : List Char} (hdigit : c.isDigit)
    (hsome : fraction? (cs.dropWhile Char.isDigit) = some decimals) :
    c :: cs = (c :: cs.takeWhile Char.isDigit ++ '.' :: decimals) ++
        (cs.dropWhile Char.isDigit).drop (decimals.length + 1) ∧
      Longest (some .number) (c :: cs.takeWhile Char.isDigit ++ '.' :: decimals)
        ((cs.dropWhile Char.isDigit).drop (decimals.length + 1)) ∧
      ∀ d ∈ decimals, d.isDigit := by
  obtain ⟨htake, hdrop, hdigits⟩ := takeWhile_digits hdigit cs
  obtain ⟨ds, hds, hdecimals, hne⟩ := fraction?_eq_some_iff.1 hsome
  have hall : ∀ d ∈ decimals, d.isDigit :=
    hdecimals ▸ fun d hd ↦ List.mem_takeWhile_imp hd
  have hrest : ds = decimals ++ (cs.dropWhile Char.isDigit).drop (decimals.length + 1) := by
    rw [hds, List.drop_succ_cons, List.prefix_iff_eq_append.1 (hdecimals ▸ List.takeWhile_prefix _)]
  have hsplit : c :: cs = (c :: cs.takeWhile Char.isDigit ++ '.' :: decimals) ++
      (cs.dropWhile Char.isDigit).drop (decimals.length + 1) := by
    rw [List.append_assoc, List.cons_append, List.cons_append, ← hrest, ← hds,
      List.takeWhile_append_dropWhile]
  refine ⟨hsplit, ⟨.decimal (by simp) hdigits hne hall, fun hother hfirst ↦ ?_, by simp⟩, hall⟩
  rw [← hsplit] at hfirst
  rcases exists_fraction_of_matches hdigit htake hother hfirst with hle | ⟨decimals', hsome', hle⟩
  · rw [List.length_append]
    omega
  · rw [hdrop, hsome] at hsome'
    cases hsome'
    exact hle

theorem longest_number (hdigit : c.isDigit)
    (h : ofNumber (c :: cs.takeWhile Char.isDigit) (cs.dropWhile Char.isDigit) =
      read kind text literal rest) :
    c :: cs = text ++ rest ∧ Longest (some kind) text rest ∧ Carries kind text literal := by
  obtain ⟨-, -, hdigits⟩ := takeWhile_digits hdigit cs
  unfold ofNumber at h
  split at h
  next decimals hsome =>
    obtain ⟨hsplit, hlongest, hall⟩ := longest_decimal hdigit hsome
    cases h
    refine ⟨hsplit, hlongest, ?_⟩
    rw [decimalValue, digitsValue_eq_numeral]
    exact .decimal hdigits hall
  next hnone =>
    split at h
    next hrange =>
      cases h
      rw [digitsValue_eq_numeral] at hrange ⊢
      exact ⟨by rw [List.cons_append, List.takeWhile_append_dropWhile],
        longest_integer hdigit hnone, .integer hdigits hrange⟩
    next => cases h

/-- A number is rejected only for being too large an integer. -/
theorem rejected_number (hdigit : c.isDigit)
    (h : ofNumber (c :: cs.takeWhile Char.isDigit) (cs.dropWhile Char.isDigit) =
      rejected error extent) :
    c :: cs = extent ++ cs.dropWhile Char.isDigit ∧
      Longest (some .number) extent (cs.dropWhile Char.isDigit) ∧
      (∀ d ∈ extent, d.isDigit) ∧ 2 ^ 63 ≤ numeral extent ∧
      error = .numberOutOfRange (.ofList extent) := by
  obtain ⟨-, -, hdigits⟩ := takeWhile_digits hdigit cs
  unfold ofNumber at h
  split at h
  next => cases h
  next hnone =>
    split at h
    next => cases h
    next hrange =>
      cases h
      rw [digitsValue_eq_numeral] at hrange
      exact ⟨by rw [List.cons_append, List.takeWhile_append_dropWhile],
        longest_integer hdigit hnone, hdigits, Nat.le_of_not_lt hrange, rfl⟩

/-! ## Strings -/

/-- A string ends at the first quote behind the one with which it begins. -/
theorem eq_of_matches_quote {other : Option Kind} {text' others : List Char}
    (hother : Matches other text') (h : '"' :: cs = text' ++ others) :
    cs.takeWhile (· ≠ '"') ++ ['"'] = text'.tail ∧ cs.dropWhile (· ≠ '"') = '"' :: others := by
  obtain ⟨d, ds, rfl⟩ := List.exists_cons_of_ne_nil hother.ne_nil
  obtain ⟨rfl, rfl⟩ := List.cons.inj h
  obtain ⟨-, body, rfl, hbody⟩ := hother.of_quote
  have hall : ∀ d ∈ body, decide (d ≠ '"') := fun d hd ↦
    decide_eq_true fun heq ↦ hbody (heq ▸ hd)
  change (body ++ ['"'] ++ others).takeWhile _ ++ _ = body ++ ['"'] ∧
    (body ++ ['"'] ++ others).dropWhile _ = _
  rw [List.append_assoc, List.takeWhile_append_of_pos hall, List.dropWhile_append_of_pos hall]
  simp

theorem longest_string (h : ofString cs = read kind text literal rest) :
    '"' :: cs = text ++ rest ∧ Longest (some kind) text rest ∧ Carries kind text literal := by
  unfold ofString at h
  split at h
  next => cases h
  next quote others hothers =>
    obtain rfl : quote = '"' := head?_dropWhile_ne '"' cs quote (by rw [hothers]; rfl)
    cases h
    have hsplit : '"' :: cs = '"' :: (cs.takeWhile (· ≠ '"') ++ ['"']) ++ rest := by
      rw [List.cons_append, List.append_assoc, List.singleton_append, ← hothers,
        List.takeWhile_append_dropWhile]
    have hstring := Matches.string (notMem_takeWhile_ne '"' cs)
    refine ⟨hsplit, ⟨hstring, fun {other text'} hother hfirst ↦ ?_, by simp⟩, .string _⟩
    obtain ⟨others', hothers'⟩ := hfirst
    have htail := (eq_of_matches_quote hother (hsplit.trans hothers'.symm)).1
    obtain ⟨d, ds, rfl⟩ := List.exists_cons_of_ne_nil hother.ne_nil
    rw [List.cons_append, htail]
    exact Nat.le_refl _

theorem rejected_string (h : ofString cs = rejected error extent) :
    Unmatched ('"' :: cs) ∧ error = .unterminatedString ∧ extent = '"' :: cs := by
  unfold ofString at h
  split at h
  next hnone =>
    cases h
    refine ⟨fun hother hfirst ↦ ?_, rfl, rfl⟩
    obtain ⟨others, hothers⟩ := hfirst
    have hdrop := (eq_of_matches_quote hother hothers.symm).2
    rw [hnone] at hdrop
    cases hdrop
  next => cases h

/-! ## Symbols -/

theorem symbol?_eq_some {symbol : Symbol} (h : symbol? cs = some symbol) :
    symbol.text.toList.isPrefixOf cs := by
  simpa using List.find?_some h

/-- The symbols are tried in an order in which longer ones come first. -/
theorem length_le_of_symbol? {symbol other : Symbol} (h : symbol? cs = some symbol)
    (hother : other.text.toList <+: cs) :
    other.text.toList.length ≤ symbol.text.toList.length := by
  have hsorted : Symbol.all.Pairwise fun first second ↦
      second.text.toList.length ≤ first.text.toList.length := by decide
  obtain ⟨-, before, after, hall, hbefore⟩ := List.find?_eq_some_iff_append.1 h
  have hmem : other ∈ before ++ symbol :: after := hall ▸ by cases other <;> decide
  rw [hall] at hsorted
  rcases List.mem_append.1 hmem with hmem | hmem
  · simpa [List.isPrefixOf_iff_prefix.2 hother] using hbefore other hmem
  · rcases List.mem_cons.1 hmem with rfl | hmem
    · exact Nat.le_refl _
    · exact (List.pairwise_cons.1 (List.pairwise_append.1 hsorted).2.1).1 other hmem

/-- Where neither a comment nor a longer form begins, only symbols match. -/
theorem exists_symbol_of_matches {other : Option Kind} {text' : List Char} (hc : Punctuation c)
    (hcomment : ¬(c = '-' ∧ cs.head? = some '-')) (hother : Matches other text')
    (hfirst : text' <+: c :: cs) : ∃ symbol : Symbol, text' = symbol.text.toList := by
  obtain ⟨d, ds, rfl⟩ := List.exists_cons_of_ne_nil hother.ne_nil
  obtain ⟨rfl, others, rfl⟩ := List.cons_prefix_cons.1 hfirst
  rcases hother.of_punctuation hc with ⟨-, line, htext, -⟩ | ⟨symbol, -, htext⟩
  · obtain ⟨rfl, rfl⟩ := List.cons.inj htext
    exact absurd ⟨rfl, rfl⟩ hcomment
  · exact ⟨symbol, htext⟩

theorem longest_symbol (hc : Punctuation c) (hcomment : ¬(c = '-' ∧ cs.head? = some '-'))
    (h : ofSymbol c cs = read kind text literal rest) :
    c :: cs = text ++ rest ∧ Longest (some kind) text rest ∧ Carries kind text literal := by
  unfold ofSymbol at h
  split at h
  next symbol hsymbol =>
    cases h
    have hsplit : c :: cs = symbol.text.toList ++ (c :: cs).drop symbol.text.toList.length :=
      (List.prefix_iff_eq_append.1 (List.isPrefixOf_iff_prefix.1 (symbol?_eq_some hsymbol))).symm
    refine ⟨hsplit, ⟨.symbol symbol, fun hother hfirst ↦ ?_, by simp⟩, .symbol symbol _⟩
    rw [← hsplit] at hfirst
    obtain ⟨other, rfl⟩ := exists_symbol_of_matches hc hcomment hother hfirst
    exact length_le_of_symbol? hsymbol hfirst
  next => cases h

theorem rejected_symbol (hc : Punctuation c) (hcomment : ¬(c = '-' ∧ cs.head? = some '-'))
    (h : ofSymbol c cs = rejected error extent) :
    Unmatched (c :: cs) ∧ error = .unexpectedCharacter c ∧ extent = [c] := by
  unfold ofSymbol at h
  split at h
  next => cases h
  next hnone =>
    cases h
    refine ⟨fun hother hfirst ↦ ?_, rfl, rfl⟩
    obtain ⟨symbol, rfl⟩ := exists_symbol_of_matches hc hcomment hother hfirst
    have hmem : symbol ∈ Symbol.all := by cases symbol <;> decide
    exact List.find?_eq_none.1 hnone symbol hmem (List.isPrefixOf_iff_prefix.2 hfirst)

/-! ## Any lexeme -/

/-- What is read is the longest match, with the literal it carries. -/
theorem longest_next (hblank : ¬isBlank c) (hcomment : ¬(c = '-' ∧ cs.head? = some '-'))
    (h : next c cs = read kind text literal rest) :
    c :: cs = text ++ rest ∧ Longest (some kind) text rest ∧ Carries kind text literal := by
  unfold next at h
  split at h
  next hword => exact longest_word (isWordStart_iff.1 hword) h
  next hword =>
    split at h
    next hdigit => exact longest_number hdigit h
    next hdigit =>
      split at h
      next hquote => exact hquote ▸ longest_string h
      next hquote =>
        exact longest_symbol ⟨mt isBlank_iff.2 hblank, mt isWordStart_iff.2 hword, hdigit, hquote⟩
          hcomment h

/-- What is rejected is an integer that is too large, or nothing matches. -/
theorem rejected_next (hblank : ¬isBlank c) (hcomment : ¬(c = '-' ∧ cs.head? = some '-'))
    (h : next c cs = rejected error extent) :
    (∃ rest, c :: cs = extent ++ rest ∧ Longest (some .number) extent rest ∧
      (∀ d ∈ extent, d.isDigit) ∧ 2 ^ 63 ≤ numeral extent ∧
      error = .numberOutOfRange (.ofList extent)) ∨
    (c = '"' ∧ Unmatched (c :: cs) ∧ error = .unterminatedString ∧ extent = c :: cs) ∨
    (c ≠ '"' ∧ Unmatched (c :: cs) ∧ error = .unexpectedCharacter c ∧ extent = [c]) := by
  unfold next at h
  split at h
  next hword =>
    unfold ofWord at h
    split at h <;> cases h
  next hword =>
    split at h
    next hdigit => exact .inl ⟨_, rejected_number hdigit h⟩
    next hdigit =>
      split at h
      next hquote =>
        subst hquote
        exact .inr (.inl ⟨rfl, rejected_string h⟩)
      next hquote =>
        exact .inr (.inr ⟨hquote, rejected_symbol ⟨mt isBlank_iff.2 hblank,
          mt isWordStart_iff.2 hword, hdigit, hquote⟩ hcomment h⟩)

end Lexeme

end ScopeScript
