import ScopeScript.Eval.Expression

/-!
# The rounds of counting loops

A counting loop is settled before its first round: nothing that its body does can change the values
that its variable takes. With an integer start and step these are integers in unbounded arithmetic,
so their number is known and none of them wraps; a double as limit is first rounded towards the
start. In all other cases the values are doubles, found by repeated addition.
-/

namespace ScopeScript

/-! ## Integer limits -/

/-- An integer brought into the range of words. Where that would let the loop take values which the
integer does not admit, no limit remains. -/
def clampLimit (ascending : Bool) (limit : Int) : Option Int :=
  if Int64.maxValue.toInt < limit then
    if ascending then some Int64.maxValue.toInt else none
  else if limit < Int64.minValue.toInt then
    if ascending then none else some Int64.minValue.toInt
  else some limit

/-- The last integer within a limit, for values that ascend or descend; none when there is no
integer within it. -/
def Number.integerLimit (ascending : Bool) : Number → Option Int
  | int limit => some limit.toInt
  | float limit =>
    match ExactValue.ofFloat limit with
    | .undefined => none
    | .negInfinity => if ascending then none else some Int64.minValue.toInt
    | .posInfinity => if ascending then some Int64.maxValue.toInt else none
    | .finite value =>
      clampLimit ascending (if ascending then value.toRat.floor else value.toRat.ceil)

/-- The number of integers from `start` on that are `step` apart and do not pass a limit. -/
def roundCount (start step : Int) : Option Int → Nat
  | none => 0
  | some limit => ((limit - start).fdiv step + 1).toNat

/-! ## Rounds -/

/-- The values that the variable of a counting loop takes. -/
inductive Rounds where
  | integers (start step : Int) (count : Nat)
  | doubles (start limit step : Float)

namespace Rounds

/-- The rounds from a start to a limit; none when the step is zero. -/
def ofBounds? : Number → Number → Number → Option Rounds
  | .int start, limit, .int step =>
    if step = 0 then none
    else
      let last := limit.integerLimit (decide (0 < step.toInt))
      some (integers start.toInt step.toInt (roundCount start.toInt step.toInt last))
  | start, limit, step =>
    if step.toFloat == 0 then none
    else some (doubles start.toFloat limit.toFloat step.toFloat)

/-- Whether a double has not passed the limit; nothing has when the step is positive or negative. -/
def isWithin (limit step value : Float) : Bool :=
  (decide (0 < step) && decide (value ≤ limit)) || (decide (step < 0) && decide (limit ≤ value))

end Rounds

/-! ## Bounds -/

namespace Expr

/-- The value of a bound, which must be a number. -/
def evalBound (env : Env) (role : String) (bound : Expr) : Except Fault Number := do
  match ← bound.eval env with
  | .number value => .ok value
  | value => .error ⟨.loopBound role value.typeName, bound.span⟩

/-- The rounds of a counting loop. A step that is not written is one. -/
def evalRounds (env : Env) (initSpan : Span) (init limit : Expr) (step : Option Expr) :
    Except Fault Rounds := do
  let first ← init.evalBound env "initial value"
  let last ← limit.evalBound env "limit"
  let stride ← match step with
    | some step => step.evalBound env "step"
    | none => .ok (.int 1)
  match Rounds.ofBounds? first last stride with
  | some rounds => .ok rounds
  | none => .error ⟨.zeroStep, (step.map Expr.span).getD initSpan⟩

end Expr

end ScopeScript
