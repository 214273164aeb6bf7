import ScopeScript.Scope.Env
import ScopeScript.Scope.Event

/-!
# Sessions

A session is what evaluation works on: an environment, and a record of events if one is kept. It
outlives a program, so that the next one finds the globals of those before. Whether a record is kept
has no influence on the environment.
-/

namespace ScopeScript

/-- An environment and the events so far, the last one first; none when no record is kept. -/
structure Session where
  env : Env
  record : Option (List Event)

namespace Session

/-- A session that has run nothing yet. -/
def ofGlobals (globals : Frame) (recorded : Bool) : Session :=
  ⟨.globals globals, if recorded then some [] else none⟩

/-- The recorded events in the order in which they happened. -/
def events (session : Session) : List Event := (session.record.getD []).reverse

/-- Records an event. -/
def note (session : Session) (event : Event) : Session :=
  { session with record := session.record.map (event :: ·) }

/-- Opens a scope. -/
def enter (session : Session) : Session :=
  { session with env := session.env.enter }.note (.entered (session.env.depth + 1))

/-- Closes the innermost scope, if any is open. -/
def exit (session : Session) : Session :=
  match session.env with
  | .globals _ => session
  | .scope _ outer => { session.note (.exited (outer.depth + 1)) with env := outer }

/-- Closes all scopes; this is no event. -/
def unwind (session : Session) : Session := { session with env := session.env.unwind }

/-- Gives a value to a name, locally or by assignment. -/
def define (isLocal : Bool) (name : String) (value : Value) (session : Session) : Session :=
  { session with env := session.env.define isLocal name value }.note
    (.defined name value (session.env.target isLocal name))

@[simp]
theorem env_note (session : Session) (event : Event) : (session.note event).env = session.env := rfl

@[simp]
theorem env_enter (session : Session) : session.enter.env = session.env.enter := rfl

@[simp]
theorem env_exit (session : Session) : session.exit.env = session.env.exit := by
  obtain ⟨env, record⟩ := session
  cases env <;> rfl

@[simp]
theorem env_unwind (session : Session) : session.unwind.env = session.env.unwind := rfl

@[simp]
theorem env_define (isLocal : Bool) (name : String) (value : Value) (session : Session) :
    (session.define isLocal name value).env = session.env.define isLocal name value := rfl

end Session

end ScopeScript
