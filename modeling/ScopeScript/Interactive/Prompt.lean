/-!
# The prompt

What stands around the text that is typed: before its first line, at the right margin, before a
further line, and before the pattern of a search in the history.
-/

namespace ScopeScript

/-- The texts of a prompt. -/
structure Prompt where
  left : String
  right : String
  indicator : String
  continuation : String
  historySearch : String
deriving DecidableEq, Repr

/-- The prompt of a session. Only the left side and further lines are marked. -/
def Prompt.session : Prompt := ⟨">>> ", "", "", "... ", ""⟩

end ScopeScript
