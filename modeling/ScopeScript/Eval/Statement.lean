import ScopeScript.Eval.Outcome
import ScopeScript.Eval.Rounds

/-!
# Executing statements

Statements change the environment. Every body is executed in a scope of its own; in a counting loop
the variable has a scope around it, opened anew for each round. The number of rounds of a loop with
integer values is fixed, so only the other loops use the budget.
-/

namespace ScopeScript

/-- Executes a round of a counting loop: binds the variable in a scope around that of the body. -/
def Exec.round (name : String) (body : Exec Unit) (value : Number) : Exec Unit :=
  Exec.inScope do
    Exec.change (.define true name (.number value))
    Exec.inScope body

/-- Executes a round for each value of a counting loop. -/
def Rounds.exec (budget : Nat) (round : Number → Exec Unit) : Rounds → Exec Unit
  | integers start step count => Exec.forIntegers round step count start
  | doubles start limit step => Exec.forDoubles round (isWithin limit step) step budget start

mutual

/-- Executes a statement. There is no function to return from, so returning fails, but not before
the value is evaluated. -/
def Stmt.exec (budget : Nat) : Stmt → Exec Unit
  | .assign _ isLocal name value => do
    let result ← Exec.read value.eval
    Exec.change (.define isLocal name result)
  | .block _ body => Exec.inScope (Stmt.execAll budget body)
  | .expr _ value => do
    let _ ← Exec.read value.eval
  | .forLoop _ initSpan name init limit step body => do
    let rounds ← Exec.read (Expr.evalRounds · initSpan init limit step)
    rounds.exec budget (Exec.round name (Stmt.execAll budget body))
  | .ifElse _ condition thenBody elseBody => do
    let value ← Exec.read condition.eval
    if value.isTrue then Exec.inScope (Stmt.execAll budget thenBody)
    else Exec.inScope (Stmt.execAll budget elseBody)
  | .return_ span value => do
    let _ ← Exec.read value.eval
    Exec.fail ⟨.strayReturn, span⟩
  | .whileLoop _ condition body =>
    Exec.repeatWhile (Value.isTrue <$> Exec.read condition.eval)
      (Exec.inScope (Stmt.execAll budget body)) budget

/-- Executes statements in order. -/
def Stmt.execAll (budget : Nat) : List Stmt → Exec Unit
  | [] => pure ()
  | statement :: rest => do
    statement.exec budget
    Stmt.execAll budget rest

end

end ScopeScript
