import ScopeScript.Eval.Statement

/-!
# Running programs

A program runs in a session. Its value is that of its last statement, if that is an expression.
After a failure the scopes that were open are closed, so that the session is ready for the next
program; what was done before the failure stays.
-/

namespace ScopeScript

namespace Program

/-- Executes the statements of a program and gives the value of the last one. -/
def exec (budget : Nat) : Program → Exec (Option Value)
  | [] => pure none
  | [.expr _ value] => some <$> Exec.read value.eval
  | statement :: rest => do
    statement.exec budget
    exec budget rest

/-- Runs a program. -/
def run (budget : Nat) (program : Program) : Exec (Option Value) := fun session ↦
  match exec budget program (session.note (.evaluating program.length)) with
  | .done value session => .done value (session.note .finished)
  | .failed fault session => .failed fault (session.note (.failed fault)).unwind
  | .unfinished => .unfinished

end Program

end ScopeScript
