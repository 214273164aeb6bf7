import ScopeScript.Text.Quoted

/-!
# Kinds of tokens

A token is a symbol, a keyword, an identifier, a number or a string; one more kind marks the end of
the text. Symbols and keywords have a fixed spelling. Each kind has a name, by which listings call
it, and a description, by which messages ask for it.
-/

namespace ScopeScript

/-! ## Symbols -/

/-- Punctuation and operators. -/
inductive Symbol where
  | leftParen
  | rightParen
  | leftBrace
  | rightBrace
  | leftBracket
  | rightBracket
  | comma
  | semicolon
  | plus
  | minus
  | star
  | slash
  | percent
  | hash
  | dots
  | assign
  | equal
  | notEqual
  | less
  | lessEqual
  | greater
  | greaterEqual
deriving DecidableEq, Repr

namespace Symbol

/-- The spelling of a symbol. -/
def text : Symbol → String
  | leftParen => "("
  | rightParen => ")"
  | leftBrace => "\x7b"
  | rightBrace => "\x7d"
  | leftBracket => "["
  | rightBracket => "]"
  | comma => ","
  | semicolon => ";"
  | plus => "+"
  | minus => "-"
  | star => "*"
  | slash => "/"
  | percent => "%"
  | hash => "#"
  | dots => ".."
  | assign => "="
  | equal => "=="
  | notEqual => "~="
  | less => "<"
  | lessEqual => "<="
  | greater => ">"
  | greaterEqual => ">="

/-- The name of a symbol in listings. -/
def name : Symbol → String
  | leftParen => "LtParen"
  | rightParen => "RtParen"
  | leftBrace => "LtBrace"
  | rightBrace => "RtBrace"
  | leftBracket => "LtBracket"
  | rightBracket => "RtBracket"
  | comma => "Comma"
  | semicolon => "Semicolon"
  | plus => "Plus"
  | minus => "Minus"
  | star => "Asterisk"
  | slash => "Slash"
  | percent => "Percent"
  | hash => "Hash"
  | dots => "DotDot"
  | assign => "Equal"
  | equal => "EqualEqual"
  | notEqual => "TildeEqual"
  | less => "Less"
  | lessEqual => "LessEqual"
  | greater => "Greater"
  | greaterEqual => "GreaterEqual"

/-- All symbols; one that extends another comes before it. -/
def all : List Symbol :=
  [dots, equal, notEqual, lessEqual, greaterEqual, leftParen, rightParen, leftBrace, rightBrace,
    leftBracket, rightBracket, comma, semicolon, plus, minus, star, slash, percent, hash, assign,
    less, greater]

end Symbol

/-! ## Keywords -/

/-- The words that are no identifiers. -/
inductive Keyword where
  | and
  | do_
  | else_
  | end_
  | false
  | for_
  | function
  | if_
  | local_
  | nil
  | not
  | or
  | return_
  | then_
  | true
  | while_
deriving DecidableEq, Repr

namespace Keyword

/-- The spelling of a keyword. -/
def text : Keyword → String
  | and => "and"
  | do_ => "do"
  | else_ => "else"
  | end_ => "end"
  | false => "false"
  | for_ => "for"
  | function => "function"
  | if_ => "if"
  | local_ => "local"
  | nil => "nil"
  | not => "not"
  | or => "or"
  | return_ => "return"
  | then_ => "then"
  | true => "true"
  | while_ => "while"

/-- The name of a keyword in listings: its spelling with a capital. -/
def name (keyword : Keyword) : String := keyword.text.capitalize

/-- All keywords. -/
def all : List Keyword :=
  [and, do_, else_, end_, false, for_, function, if_, local_, nil, not, or, return_, then_, true,
    while_]

end Keyword

/-! ## Kinds -/

/-- What a token is. -/
inductive Kind where
  | symbol (symbol : Symbol)
  | keyword (keyword : Keyword)
  | identifier
  | number
  | string
  | eof
deriving DecidableEq, Repr

namespace Kind

/-- The name of a kind in listings. -/
def name : Kind → String
  | symbol s => s.name
  | keyword k => k.name
  | identifier => "Identifier"
  | number => "Number"
  | string => "String"
  | eof => "Eof"

/-- How messages name a kind that they ask for. -/
def describe : Kind → String
  | symbol s => quotedString s.text
  | keyword k => quotedString k.text
  | identifier => "identifier"
  | number => "number"
  | string => "string"
  | eof => "end of file"

/-- Whether tokens of the kind are reserved words. -/
def isKeyword : Kind → Bool
  | keyword _ => true
  | _ => false

/-- All kinds. -/
def all : List Kind :=
  Symbol.all.map symbol ++ Keyword.all.map keyword ++ [identifier, number, string, eof]

end Kind

end ScopeScript
