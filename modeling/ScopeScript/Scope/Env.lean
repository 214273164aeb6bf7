import ScopeScript.Scope.Frame

/-!
# Environments

An environment is a stack of frames. The globals lie at the bottom and are never taken away. A name
means the binding in the nearest frame that holds it. A local definition binds in the innermost
frame; any other gives a new value to the binding that the name means, or makes a global.
-/

namespace ScopeScript

/-- The globals, or a scope opened inside an environment. -/
inductive Env where
  | globals (frame : Frame)
  | scope (frame : Frame) (outer : Env)

namespace Env

/-! ## The stack -/

/-- The number of open scopes, which is also the index of the innermost frame. -/
def depth : Env → Nat
  | globals _ => 0
  | scope _ outer => outer.depth + 1

/-- The frame of the globals. -/
def globalFrame : Env → Frame
  | globals frame => frame
  | scope _ outer => outer.globalFrame

/-- Opens a scope without bindings. -/
def enter (env : Env) : Env := scope .empty env

/-- Closes the innermost scope. The globals stay. -/
def exit : Env → Env
  | globals frame => globals frame
  | scope _ outer => outer

/-- Closes all scopes. -/
def unwind (env : Env) : Env := globals env.globalFrame

@[simp]
theorem depth_enter (env : Env) : env.enter.depth = env.depth + 1 := rfl

@[simp]
theorem exit_enter (env : Env) : env.enter.exit = env := rfl

@[simp]
theorem globalFrame_enter (env : Env) : env.enter.globalFrame = env.globalFrame := rfl

@[simp]
theorem depth_unwind (env : Env) : env.unwind.depth = 0 := rfl

/-! ## Names -/

/-- The value that a name means. -/
def lookup (name : String) : Env → Option Value
  | globals frame => frame.get? name
  | scope frame outer => (frame.get? name).or (outer.lookup name)

/-- Binds a name in the innermost frame. -/
def declare (name : String) (value : Value) : Env → Env
  | globals frame => globals (frame.insert name value)
  | scope frame outer => scope (frame.insert name value) outer

/-- Gives a new value to the nearest binding of a name, or makes a global. -/
def assign (name : String) (value : Value) : Env → Env
  | globals frame => globals (frame.insert name value)
  | scope frame outer =>
    if frame.contains name then scope (frame.insert name value) outer
    else scope frame (outer.assign name value)

/-- The index of the frame in which an assignment takes place. -/
def home (name : String) : Env → Nat
  | globals _ => 0
  | scope frame outer => if frame.contains name then outer.depth + 1 else outer.home name

/-- Binds a name locally or by assignment. -/
def define (isLocal : Bool) (name : String) (value : Value) (env : Env) : Env :=
  if isLocal then env.declare name value else env.assign name value

/-- The index of the frame in which a definition takes place. -/
def target (isLocal : Bool) (name : String) (env : Env) : Nat :=
  if isLocal then env.depth else env.home name

@[simp]
theorem depth_declare (name : String) (value : Value) (env : Env) :
    (env.declare name value).depth = env.depth := by
  cases env <;> rfl

@[simp]
theorem depth_assign (name : String) (value : Value) (env : Env) :
    (env.assign name value).depth = env.depth := by
  induction env with
  | globals frame => rfl
  | scope frame outer ih =>
    rw [assign]
    split
    · rfl
    · simp [depth, ih]

@[simp]
theorem depth_define (isLocal : Bool) (name : String) (value : Value) (env : Env) :
    (env.define isLocal name value).depth = env.depth := by
  cases isLocal <;> simp [define]

theorem lookup_declare (name other : String) (value : Value) (env : Env) :
    (env.declare name value).lookup other =
      if other = name then some value else env.lookup other := by
  cases env with
  | globals frame => exact frame.get?_insert name other value
  | scope frame outer =>
    rw [declare, lookup, lookup, Frame.get?_insert]
    split <;> rfl

theorem lookup_assign (name other : String) (value : Value) (env : Env) :
    (env.assign name value).lookup other =
      if other = name then some value else env.lookup other := by
  induction env with
  | globals frame => exact frame.get?_insert name other value
  | scope frame outer ih =>
    rw [assign]
    split
    · exact lookup_declare name other value (.scope frame outer)
    next hfree =>
      have hnone : frame.get? name = none := by simpa [Frame.contains] using hfree
      rw [lookup, lookup, ih]
      split
      next heq => rw [heq, hnone, Option.none_or]
      next => rfl

/-- However a name is defined, it means its new value, and other names what they meant. -/
theorem lookup_define (isLocal : Bool) (name other : String) (value : Value) (env : Env) :
    (env.define isLocal name value).lookup other =
      if other = name then some value else env.lookup other := by
  cases isLocal with
  | true => exact lookup_declare name other value env
  | false => exact lookup_assign name other value env

end Env

end ScopeScript
