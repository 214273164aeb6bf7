import ScopeScript.Scope.Env

/-!
# The frames of an environment

An environment seen as the list of its frames, the globals first and the innermost frame last. A
definition gives one of these frames a new binding, and which one is its target: the innermost frame
for a local, and otherwise the nearest frame that holds the name, or the globals if there is none.
-/

namespace ScopeScript.Env

/-- The frames, the globals first and the innermost one last. -/
def frames : Env → List Frame
  | globals frame => [frame]
  | scope frame outer => outer.frames ++ [frame]

@[simp]
theorem length_frames (env : Env) : env.frames.length = env.depth + 1 := by
  induction env with
  | globals frame => rfl
  | scope frame outer ih => rw [frames, List.length_append, ih]; rfl

/-- There is always a frame. -/
theorem frames_length_pos (env : Env) : 0 < env.frames.length := by
  rw [length_frames]
  exact Nat.succ_pos env.depth

/-- The globals come first. -/
theorem getElem?_frames_zero (env : Env) : env.frames[0]? = some env.globalFrame := by
  induction env with
  | globals frame => rfl
  | scope frame outer ih =>
    rw [frames, List.getElem?_append_left outer.frames_length_pos, ih, globalFrame]

theorem frames_enter (env : Env) : env.enter.frames = env.frames ++ [.empty] := rfl

theorem frames_exit {env : Env} (h : 0 < env.depth) : env.exit.frames = env.frames.dropLast := by
  cases env with
  | globals frame => exact absurd h (Nat.lt_irrefl 0)
  | scope frame outer => rw [frames, List.dropLast_concat, exit]

theorem frames_eq_cons (env : Env) : env.frames = env.globalFrame :: env.frames.tail := by
  have hglobals := env.getElem?_frames_zero
  cases hframes : env.frames with
  | nil => simp [hframes] at hglobals
  | cons frame rest =>
    rw [hframes] at hglobals
    exact congrArg (· :: rest) (Option.some.inj hglobals)

/-- Unwinding discards all frames but the globals. -/
theorem frames_unwind (env : Env) : env.unwind.frames = env.frames.take 1 := by
  rw [frames_eq_cons env]
  rfl

/-! ## Definitions -/

theorem modify_concat {α : Type} (f : α → α) (xs : List α) (x : α) :
    (xs ++ [x]).modify xs.length f = xs ++ [f x] := by
  induction xs with
  | nil => rfl
  | cons y ys ih => simp [ih]

theorem modify_append_of_lt {α : Type} {xs : List α} {index : Nat} (h : index < xs.length) (f : α → α)
    (ys : List α) : (xs ++ ys).modify index f = xs.modify index f ++ ys := by
  induction xs generalizing index with
  | nil => exact absurd h (Nat.not_lt_zero index)
  | cons x xs ih =>
    cases index with
    | zero => rfl
    | succ index => simp [ih (Nat.lt_of_succ_lt_succ h)]

theorem home_le_depth (name : String) (env : Env) : env.home name ≤ env.depth := by
  induction env with
  | globals frame => exact Nat.le_refl 0
  | scope frame outer ih =>
    rw [home, depth]
    split
    · exact Nat.le_refl _
    · exact Nat.le_succ_of_le ih

theorem home_lt_length (name : String) (env : Env) : env.home name < env.frames.length := by
  rw [length_frames]
  exact Nat.lt_succ_of_le (env.home_le_depth name)

theorem target_le_depth (isLocal : Bool) (name : String) (env : Env) :
    env.target isLocal name ≤ env.depth := by
  cases isLocal with
  | true => exact Nat.le_refl env.depth
  | false => exact env.home_le_depth name

theorem target_lt_length (isLocal : Bool) (name : String) (env : Env) :
    env.target isLocal name < env.frames.length := by
  rw [length_frames]
  exact Nat.lt_succ_of_le (env.target_le_depth isLocal name)

theorem frames_declare (name : String) (value : Value) (env : Env) :
    (env.declare name value).frames = env.frames.modify env.depth (·.insert name value) := by
  cases env with
  | globals frame => rfl
  | scope frame outer =>
    rw [declare, frames, frames, depth, ← length_frames, modify_concat]

theorem frames_assign (name : String) (value : Value) (env : Env) :
    (env.assign name value).frames = env.frames.modify (env.home name) (·.insert name value) := by
  induction env with
  | globals frame => rfl
  | scope frame outer ih =>
    rw [assign, home]
    split
    · rw [frames, frames, ← length_frames, modify_concat]
    · rw [frames, frames, ih, modify_append_of_lt (outer.home_lt_length name)]

/-- A definition gives its target frame a binding and leaves the others alone. -/
theorem frames_define (isLocal : Bool) (name : String) (value : Value) (env : Env) :
    (env.define isLocal name value).frames =
      env.frames.modify (env.target isLocal name) (·.insert name value) := by
  cases isLocal with
  | true => exact frames_declare name value env
  | false => exact frames_assign name value env

/-- Apart from the globals, only a frame that holds the name is the target of an assignment. -/
theorem contains_of_home {name : String} {env : Env} {frame : Frame} (hpos : env.home name ≠ 0)
    (hframe : env.frames[env.home name]? = some frame) : frame.contains name := by
  induction env with
  | globals _ => exact absurd rfl hpos
  | scope inner outer ih =>
    rw [home] at hpos hframe
    split at hframe
    next hinner =>
      rw [frames, ← length_frames, List.getElem?_concat_length, Option.some.injEq] at hframe
      exact hframe ▸ hinner
    next hinner =>
      rw [if_neg hinner] at hpos
      rw [frames, List.getElem?_append_left (outer.home_lt_length name)] at hframe
      exact ih hpos hframe

end ScopeScript.Env
