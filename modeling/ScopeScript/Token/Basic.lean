import ScopeScript.Error
import ScopeScript.Text.Position
import ScopeScript.Token.Kind
import ScopeScript.Value

/-!
# Tokens

A token carries its text, the value it denotes if it is a literal, and where it stands.
-/

namespace ScopeScript

/-- A token of a text. -/
structure Token where
  kind : Kind
  lexeme : String
  literal : Option Value
  position : Position
  span : Span
deriving DecidableEq, Repr

namespace Token

/-- The token that marks the end of a text, at the place of the end. -/
def endMark (place : Place) : Token := ⟨.eof, "", none, place.position, .point place.offset⟩

/-- The line that shows a token in a listing. -/
def listing (token : Token) : String :=
  "Token(" ++ token.kind.name ++ ", (" ++ toString token.position.line ++ ", " ++
    toString token.position.column ++ "), " ++ quotedString token.lexeme ++ ")"

end Token

end ScopeScript
