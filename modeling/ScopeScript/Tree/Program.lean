import ScopeScript.Token.Scan
import ScopeScript.Tree.Statement

/-!
# Programs from text

A program is read from the tokens before the first mark of the end; a list without a mark counts as
if one followed. Every level of nesting takes a token, so no program nests deeper than it has
tokens. A text is incomplete when it ends inside an open construct or string, so that more text may
still make it a program; any other fault is final.
-/

namespace ScopeScript

namespace Program

/-- Reads a program from tokens. A fault at the end of the tokens is put behind the last of them. -/
def ofTokens (tokens : List Token) : Except Fault Program :=
  let visible := tokens.takeWhile fun token ↦ token.kind ≠ .eof
  match Parser.program (.ofDepth (visible.length + 1)) ⟨visible, 0⟩ with
  | .ok (program, _) => .ok program
  | .error failure => .error (failure.fault ((tokens.getLast?.map (·.span.stop)).getD 0))

/-- Reads a program from a text. A fault of the scan comes before any other. -/
def ofString (source : String) : Except Fault Program := do
  ofTokens (← scan source)

end Program

/-- Whether an error says that the text ended too early. -/
def Error.isOpenEnded : Error → Bool
  | unexpectedEnd _ | unterminatedString => true
  | _ => false

/-- Whether a text is a program or can never become one by adding to it. -/
def isComplete (source : String) : Bool :=
  match Program.ofString source with
  | .ok _ => true
  | .error fault => !fault.error.isOpenEnded

end ScopeScript
