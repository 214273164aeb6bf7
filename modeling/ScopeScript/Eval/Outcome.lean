import ScopeScript.Eval.Session

/-!
# Outcomes

Executing something changes a session and is done, fails, or does not come to an end within its
budget. A failure keeps the session as it was at that point, so that what was done before is not
lost. Loops are the only executions that need a budget: each round of a loop whose number of rounds
is not known beforehand uses one unit, and every loop starts with the whole budget.
-/

namespace ScopeScript

/-- How an execution ends. -/
inductive Outcome (α : Type) where
  | done (value : α) (session : Session)
  | failed (fault : Fault) (session : Session)
  | unfinished

/-- Goes on after an execution that is done. -/
@[inline]
def Outcome.bind {α β : Type} (outcome : Outcome α) (next : α → Session → Outcome β) : Outcome β :=
  match outcome with
  | done value session => next value session
  | failed fault session => failed fault session
  | unfinished => unfinished

namespace Outcome

variable {α β : Type}

@[simp]
theorem bind_done (value : α) (session : Session) (next : α → Session → Outcome β) :
    (done value session).bind next = next value session := rfl

@[simp]
theorem bind_failed (fault : Fault) (session : Session) (next : α → Session → Outcome β) :
    (failed fault session : Outcome α).bind next = failed fault session := rfl

@[simp]
theorem bind_unfinished (next : α → Session → Outcome β) :
    (unfinished : Outcome α).bind next = unfinished := rfl

theorem bind_assoc {γ : Type} (outcome : Outcome α) (next : α → Session → Outcome β)
    (last : β → Session → Outcome γ) :
    (outcome.bind next).bind last = outcome.bind fun value session ↦
      (next value session).bind last := by
  cases outcome <;> rfl

end Outcome

/-- An execution that gives a value. -/
def Exec (α : Type) : Type := Session → Outcome α

namespace Exec

instance : Monad Exec where
  pure value := fun session ↦ .done value session
  bind execution next := fun session ↦ (execution session).bind next

@[simp]
theorem pure_apply {α : Type} (value : α) (session : Session) :
    (pure value : Exec α) session = .done value session := rfl

theorem bind_apply {α β : Type} (execution : Exec α) (next : α → Exec β) (session : Session) :
    (execution >>= next) session = (execution session).bind next := rfl

/-! ## Steps -/

/-- Changes the session. -/
def change (step : Session → Session) : Exec Unit := fun session ↦ .done () (step session)

/-- Reads a value off the environment, which may fail. -/
def read {α : Type} (view : Env → Except Fault α) : Exec α := fun session ↦
  match view session.env with
  | .ok value => .done value session
  | .error fault => .failed fault session

/-- Fails with a fault. -/
def fail {α : Type} (fault : Fault) : Exec α := fun session ↦ .failed fault session

/-- Executes inside a scope. A failure leaves the scope open. -/
def inScope (body : Exec Unit) : Exec Unit := do
  change .enter
  body
  change .exit

/-! ## Loops -/

/-- Executes a body as long as a condition holds. -/
def repeatWhile (condition : Exec Bool) (body : Exec Unit) : Nat → Session → Outcome Unit
  | 0, _ => .unfinished
  | budget + 1, session =>
    (condition session).bind fun holds session ↦
      if holds then
        (body session).bind fun _ session ↦ repeatWhile condition body budget session
      else .done () session

/-- Executes a body for `count` integers that begin with `value` and are `step` apart. -/
def forIntegers (body : Number → Exec Unit) (step : Int) : Nat → Int → Session → Outcome Unit
  | 0, _, session => .done () session
  | count + 1, value, session =>
    (body (.int (.ofInt value)) session).bind fun _ session ↦
      forIntegers body step count (value + step) session

/-- Executes a body for the doubles that begin with `value` and are reached by adding `step`, as
long as they are within a limit. -/
def forDoubles (body : Number → Exec Unit) (isWithin : Float → Bool) (step : Float) :
    Nat → Float → Session → Outcome Unit
  | 0, _, _ => .unfinished
  | budget + 1, value, session =>
    if isWithin value then
      (body (.float value) session).bind fun _ session ↦
        forDoubles body isWithin step budget (value + step) session
    else .done () session

end Exec

end ScopeScript
