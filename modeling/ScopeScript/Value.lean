import ScopeScript.Number.Notation

/-!
# Values

What expressions evaluate to and names are bound to; the literals of a program are values too. Only
nil and false count as false. Numbers are equal when their exact values are, whatever their kinds,
so a value that is not a number differs from itself.
-/

namespace ScopeScript

/-- A value of the language. -/
inductive Value where
  | nil
  | bool (value : Bool)
  | number (value : Number)
  | string (value : String)
deriving DecidableEq, Repr, Inhabited

namespace Value

/-- Whether a condition with this value holds. -/
def isTrue : Value → Bool
  | nil => false
  | bool value => value
  | _ => true

/-- The name of the type of a value. -/
def typeName : Value → String
  | nil => "nil"
  | bool _ => "boolean"
  | number _ => "number"
  | string _ => "string"

/-- The text of a value as a program shows it. -/
def text : Value → String
  | nil => "nil"
  | bool value => if value then "true" else "false"
  | number value => value.text
  | string value => value

/-- The language's equality. Values of different types are never equal. -/
def equals : Value → Value → Bool
  | nil, nil => true
  | bool a, bool b => a == b
  | number a, number b => a.compare b == some .eq
  | string a, string b => a == b
  | _, _ => false

end Value

end ScopeScript
