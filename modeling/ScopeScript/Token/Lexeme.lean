import ScopeScript.Error
import ScopeScript.Text.Blank
import ScopeScript.Token.Kind
import ScopeScript.Value

/-!
# Lexemes

How the token at the beginning of a text is read. The first character decides: a letter or
underscore begins a word, a digit a number, a quote a string, and a symbol is the longest one whose
spelling the text begins with. A point belongs to a number only when a digit follows it. The rest
of the text behind a lexeme is shorter than the text, so reading one token after the other ends.
-/

namespace ScopeScript

/-! ## Character classes -/

/-- The characters that begin an identifier. -/
def isWordStart (c : Char) : Bool := c.isAlpha || c = '_'

/-- The characters that continue an identifier. -/
def isWordChar (c : Char) : Bool := c.isAlphanum || c = '_'

/-! ## Results -/

/-- The outcome of reading one token: its parts and the text behind it, or an error and the
characters that it blames. -/
inductive Lexeme where
  | read (kind : Kind) (text : List Char) (literal : Option Value) (rest : List Char)
  | rejected (error : Error) (extent : List Char)

namespace Lexeme

/-! ## Words -/

/-- The literal that a keyword denotes. -/
def keywordValue : Keyword → Option Value
  | .nil => some .nil
  | .true => some (.bool true)
  | .false => some (.bool false)
  | _ => none

/-- The keyword with this spelling. -/
def keyword? (word : List Char) : Option Keyword :=
  Keyword.all.find? fun keyword ↦ keyword.text.toList = word

/-- A word is a keyword if it is spelled like one and an identifier otherwise. -/
def ofWord (word rest : List Char) : Lexeme :=
  match keyword? word with
  | some keyword => read (.keyword keyword) word (keywordValue keyword) rest
  | none => read .identifier word none rest

/-! ## Numbers -/

/-- The value of a row of decimal digits. -/
def digitsValue (digits : List Char) : Nat :=
  digits.foldl (fun value digit ↦ 10 * value + (digit.toNat - '0'.toNat)) 0

/-- The digits behind a point, if the text begins with a point and a digit. -/
def fraction? : List Char → Option (List Char)
  | '.' :: cs => if cs.takeWhile Char.isDigit = [] then none else some (cs.takeWhile Char.isDigit)
  | _ => none

/-- The double nearest to a row of digits with a point and `decimals` behind it. -/
def decimalValue (digits decimals : List Char) : Float :=
  Float.ofScientific (digitsValue (digits ++ decimals)) true decimals.length

/-- A row of digits with a fraction is a double; without one it is an integer, which must not exceed
the largest. -/
def ofNumber (digits rest : List Char) : Lexeme :=
  match fraction? rest with
  | some decimals =>
    read .number (digits ++ '.' :: decimals) (some (.number (.float (decimalValue digits decimals))))
      (rest.drop (decimals.length + 1))
  | none =>
    if digitsValue digits < Nat.pow 2 63 then
      read .number digits (some (.number (.int (.ofNat (digitsValue digits))))) rest
    else
      rejected (.numberOutOfRange (.ofList digits)) digits

/-! ## Strings and symbols -/

/-- A string runs to the next quote. Without one it is an error that blames all the text. -/
def ofString (cs : List Char) : Lexeme :=
  match cs.dropWhile (· ≠ '"') with
  | [] => rejected .unterminatedString ('"' :: cs)
  | quote :: rest =>
    read .string ('"' :: cs.takeWhile (· ≠ '"') ++ [quote])
      (some (.string (.ofList (cs.takeWhile (· ≠ '"'))))) rest

/-- The longest symbol that the text begins with. -/
def symbol? (cs : List Char) : Option Symbol :=
  Symbol.all.find? fun symbol ↦ symbol.text.toList.isPrefixOf cs

/-- A symbol, or else an unexpected character. -/
def ofSymbol (c : Char) (cs : List Char) : Lexeme :=
  match symbol? (c :: cs) with
  | some symbol =>
    read (.symbol symbol) symbol.text.toList none ((c :: cs).drop symbol.text.toList.length)
  | none => rejected (.unexpectedCharacter c) [c]

/-! ## Any token -/

/-- Reads the token at the beginning of `c :: cs`, which begins neither with a blank nor with a
comment. -/
def next (c : Char) (cs : List Char) : Lexeme :=
  if isWordStart c then ofWord (c :: cs.takeWhile isWordChar) (cs.dropWhile isWordChar)
  else if c.isDigit then ofNumber (c :: cs.takeWhile Char.isDigit) (cs.dropWhile Char.isDigit)
  else if c = '"' then ofString cs
  else ofSymbol c cs

/-! ## Progress -/

theorem length_dropWhile_le {α : Type} (p : α → Bool) (cs : List α) :
    (cs.dropWhile p).length ≤ cs.length :=
  (List.dropWhile_sublist p).length_le

theorem length_rest_ofWord {word rest : List Char} {kind text literal rest'}
    (h : ofWord word rest = read kind text literal rest') : rest' = rest := by
  unfold ofWord at h
  split at h <;> cases h <;> rfl

theorem length_rest_ofNumber {digits rest : List Char} {kind text literal rest'}
    (h : ofNumber digits rest = read kind text literal rest') : rest'.length ≤ rest.length := by
  unfold ofNumber at h
  split at h
  · cases h
    rw [List.length_drop]
    exact Nat.sub_le _ _
  · split at h <;> cases h
    exact Nat.le_refl _

theorem length_rest_ofString {cs : List Char} {kind text literal rest'}
    (h : ofString cs = read kind text literal rest') : rest'.length ≤ cs.length := by
  unfold ofString at h
  split at h
  · cases h
  next quote rest hrest =>
    cases h
    have hle := length_dropWhile_le (· ≠ '"') cs
    rw [hrest] at hle
    exact Nat.le_of_succ_le hle

theorem symbol_text_ne_nil (symbol : Symbol) : symbol.text.toList ≠ [] := by
  cases symbol <;> decide

theorem length_rest_ofSymbol {c : Char} {cs : List Char} {kind text literal rest'}
    (h : ofSymbol c cs = read kind text literal rest') : rest'.length ≤ cs.length := by
  unfold ofSymbol at h
  split at h
  · rename_i symbol _
    cases h
    have hpos := List.length_pos_iff.2 (symbol_text_ne_nil symbol)
    simp only [List.length_drop, List.length_cons]
    omega
  · cases h

/-- The text behind a token is shorter than the text. -/
theorem length_rest_next {c : Char} {cs : List Char} {kind text literal rest}
    (h : next c cs = read kind text literal rest) : rest.length < (c :: cs).length := by
  rw [List.length_cons, Nat.lt_succ_iff]
  unfold next at h
  split at h
  · exact length_rest_ofWord h ▸ length_dropWhile_le _ _
  · split at h
    · exact Nat.le_trans (length_rest_ofNumber h) (length_dropWhile_le _ _)
    · split at h
      · exact length_rest_ofString h
      · exact length_rest_ofSymbol h

end Lexeme

end ScopeScript
