import ScopeScript.Text.Printable

/-!
# Quoted text

Messages show names, tokens and characters between quotes, in a form that fits on one line and
shows every character: what is not printable is escaped, by a letter where there is one and by its
code point otherwise. A quote is escaped only inside its own kind of quotes.
-/

namespace ScopeScript

/-- A natural number in lower-case hexadecimal, without leading zeros. -/
def hexDigits (n : Nat) : String := String.ofList (Nat.toDigits 16 n)

/-- The escaped form of `c` between the quotes `quote`. -/
def escapedChar (quote c : Char) : String :=
  match c with
  | '\x00' => "\\0"
  | '\t' => "\\t"
  | '\r' => "\\r"
  | '\n' => "\\n"
  | '\\' => "\\\\"
  | c =>
    if c = quote then "\\" ++ c.toString
    else if isPrintable c then c.toString
    else "\\u\x7b" ++ hexDigits c.toNat ++ "\x7d"

/-- A text between double quotes. -/
def quotedString (text : String) : String :=
  "\"" ++ String.join (text.toList.map (escapedChar '"')) ++ "\""

/-- A character between single quotes. -/
def quotedChar (c : Char) : String := "'" ++ escapedChar '\'' c ++ "'"

end ScopeScript
