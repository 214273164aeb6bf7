import ScopeScript.Text.Span
import ScopeScript.Text.Quoted

/-!
# Errors

What can be wrong with a program, from its characters to its evaluation. An error says the cause
only; a fault is an error together with the stretch of text that it blames. Each error belongs to
one of five categories, and its message is one sentence without the category.
-/

namespace ScopeScript

/-! ## Causes -/

/-- The five groups of errors. -/
inductive Category where
  | arithmeticError
  | nameError
  | syntaxError
  | typeError
  | valueError
deriving DecidableEq, Repr

/-- The name of a category in messages. -/
def Category.name : Category → String
  | arithmeticError => "ArithmeticError"
  | nameError => "NameError"
  | syntaxError => "SyntaxError"
  | typeError => "TypeError"
  | valueError => "ValueError"

/-- The cause of a failure. -/
inductive Error where
  /-- Integer division or remainder by zero. -/
  | divisionByZero (operator : String)
  /-- A name without a binding. -/
  | notDefined (name : String)
  /-- A token that closes a block where no block is open. -/
  | surplusToken (token : String)
  /-- An integer literal beyond the largest integer. -/
  | numberOutOfRange (literal : String)
  /-- A character that begins no token. -/
  | unexpectedCharacter (character : Char)
  /-- The text ends where something else is needed. -/
  | unexpectedEnd (expected : List String)
  /-- A token where something else is needed. -/
  | unexpectedToken (token : String) (expected : List String)
  /-- A string without a closing quote. -/
  | unterminatedString
  /-- A bound of a counting loop that is not a number. -/
  | loopBound (role type : String)
  /-- A call of a value; no value can be called. -/
  | notCallable (type : String)
  /-- A function literal is evaluated; there are no function values. -/
  | functionValue
  /-- A binary operator does not apply to operands of these types. -/
  | operandTypes (operator left right : String)
  /-- A unary operator does not apply to an operand of this type. -/
  | operandType (operator operand : String)
  /-- A return statement is executed; there is no function to return from. -/
  | strayReturn
  /-- The step of a counting loop is zero. -/
  | zeroStep
deriving DecidableEq, Repr

namespace Error

/-- The category of an error. -/
def category : Error → Category
  | divisionByZero _ => .arithmeticError
  | notDefined _ => .nameError
  | surplusToken _ | numberOutOfRange _ | unexpectedCharacter _ | unexpectedEnd _
  | unexpectedToken _ _ | unterminatedString => .syntaxError
  | loopBound _ _ | notCallable _ | functionValue | operandTypes _ _ _ | operandType _ _
  | strayReturn => .typeError
  | zeroStep => .valueError

/-! ## Messages -/

/-- An enumeration of alternatives. Every one but the last is followed by a comma. -/
def alternatives (items : List String) : String :=
  match items.reverse with
  | [] => "nothing"
  | [item] => item
  | last :: others => String.join (others.reverse.map (· ++ ", ")) ++ "or " ++ last

/-- The sentence that describes an error. -/
def message : Error → String
  | divisionByZero operator => "integer " ++ operator ++ " by zero"
  | notDefined name => "name " ++ quotedString name ++ " is not defined"
  | surplusToken token => "extraneous input: " ++ quotedString token
  | numberOutOfRange literal => "number literal out of range: " ++ literal
  | unexpectedCharacter character => "unexpected character " ++ quotedChar character
  | unexpectedEnd expected => "expected " ++ alternatives expected ++ ", got end of file"
  | unexpectedToken token expected =>
    "expected " ++ alternatives expected ++ ", got " ++ quotedString token
  | unterminatedString => "unterminated string"
  | loopBound role type => "'for' " ++ role ++ " must be a number, not " ++ quotedString type
  | notCallable type => quotedString type ++ " object is not callable"
  | functionValue => "function values are not supported"
  | operandTypes operator left right =>
    "unsupported operand type(s) for " ++ operator ++ ": " ++ quotedString left ++ " and " ++
      quotedString right
  | operandType operator operand =>
    "unsupported operand type for " ++ operator ++ ": " ++ quotedString operand
  | strayReturn => "\"return\" is not supported outside a function"
  | zeroStep => "'for' step is zero"

/-- The category and the sentence. -/
def text (error : Error) : String := error.category.name ++ ": " ++ error.message

end Error

/-! ## Faults -/

/-- An error and the text it blames. -/
structure Fault where
  error : Error
  span : Span
deriving DecidableEq, Repr

end ScopeScript
