import ScopeScript.Error
import ScopeScript.Value

/-!
# Events

What evaluation tells of its course: the beginning and the end of each program at the level of
debugging, each scope and each definition at the finer level of tracing.
-/

namespace ScopeScript

/-- A step of evaluation that can be observed. -/
inductive Event where
  /-- A program of so many statements begins. -/
  | evaluating (statements : Nat)
  /-- A scope was opened; the depth is that of the new scope. -/
  | entered (depth : Nat)
  /-- A scope is closed; the depth is that of the old scope. -/
  | exited (depth : Nat)
  /-- A name was given a value in the frame with this index. -/
  | defined (name : String) (value : Value) (frame : Nat)
  /-- The program has ended. -/
  | finished
  /-- The program has failed. -/
  | failed (fault : Fault)
deriving DecidableEq, Repr

namespace Event

/-- What is said of an event. -/
def message : Event → String
  | evaluating statements => "evaluating " ++ toString statements ++ " statement(s)"
  | entered depth => "entered scope " ++ toString depth
  | exited depth => "exited scope " ++ toString depth
  | defined name value frame =>
    "defined " ++ quotedString name ++ " = " ++ value.text ++ " in scope " ++ toString frame
  | finished => "evaluation finished"
  | failed fault => "evaluation failed at " ++ fault.span.text ++ ": " ++ fault.error.text

/-- The level of detail to which an event belongs. -/
def level : Event → String
  | evaluating _ | finished | failed _ => "DEBUG"
  | entered _ | exited _ | defined _ _ _ => "TRACE"

/-- The line of a record of events. -/
def line (event : Event) : String := event.level ++ " " ++ event.message

end Event

end ScopeScript
