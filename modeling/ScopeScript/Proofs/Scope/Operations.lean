import ScopeScript.Proofs.Scope.Frames

/-!
# Sequences of operations on an environment

Whatever scopes are opened and closed and whatever names are defined, an environment is a stack of
nested scopes. It does to its frames what a row of them would undergo that is searched from its last
frame to its first and written by index, and no index ever lies outside the row. A definition gives
one name a value in one frame. Scopes that are opened and closed in pairs leave nothing behind, so
long as only local definitions stand between them.
-/

namespace ScopeScript

/-! ## Operations -/

/-- What can be done to an environment. -/
inductive Operation where
  | enter
  | exit
  | unwind
  | define (isLocal : Bool) (name : String) (value : Value)

/-- Carries out an operation. -/
def Env.apply (env : Env) : Operation → Env
  | .enter => env.enter
  | .exit => env.exit
  | .unwind => env.unwind
  | .define isLocal name value => env.define isLocal name value

/-- Carries out operations, the first one first. -/
def Env.applyAll (env : Env) (operations : List Operation) : Env := operations.foldl apply env

namespace Operation

/-- Whether no binding but one of the innermost frame is made or changed. -/
def isInner : Operation → Bool
  | define isLocal _ _ => isLocal
  | _ => true

/-- Whether each scope that is opened is closed again and no other scope is, while a number of
scopes is open. -/
def isBracketed : Nat → List Operation → Bool
  | opened, [] => opened == 0
  | opened, enter :: rest => isBracketed (opened + 1) rest
  | 0, exit :: _ => false
  | opened + 1, exit :: rest => isBracketed opened rest
  | _, unwind :: _ => false
  | opened, define _ _ _ :: rest => isBracketed opened rest

/-! ## Rows of frames -/

/-- The index of the last frame that binds a name. -/
def lastIndex? (name : String) (frames : List Frame) : Option Nat :=
  (frames.reverse.findIdx? (·.contains name)).map (frames.length - 1 - ·)

/-- What an operation does to a row of frames. It fails at an index that is not in the row. -/
def onFrames (frames : List Frame) : Operation → Option (List Frame)
  | enter => some (frames ++ [.empty])
  | exit => some (if 1 < frames.length then frames.dropLast else frames)
  | unwind => some (frames.take 1)
  | define isLocal name value =>
    let index := if isLocal then frames.length - 1 else (lastIndex? name frames).getD 0
    if index < frames.length then some (frames.modify index (·.insert name value)) else none

theorem lastIndex?_concat (name : String) (frames : List Frame) (frame : Frame) :
    lastIndex? name (frames ++ [frame]) =
      if frame.contains name then some frames.length else lastIndex? name frames := by
  rw [lastIndex?, List.reverse_append, List.reverse_singleton, List.singleton_append,
    List.findIdx?_cons, List.length_append, List.length_singleton, Nat.add_sub_cancel]
  split
  · rfl
  · rw [lastIndex?, Option.map_map]
    congr 1
    funext index
    change frames.length - (index + 1) = frames.length - 1 - index
    rw [Nat.add_comm, Nat.sub_add_eq]

end Operation

namespace Env

/-- An assignment takes place in the last frame that binds the name, or in the first one of all. -/
theorem home_eq_lastIndex? (name : String) (env : Env) :
    env.home name = (Operation.lastIndex? name env.frames).getD 0 := by
  induction env with
  | globals frame =>
    rw [frames, ← List.nil_append [frame], Operation.lastIndex?_concat]
    split <;> rfl
  | scope frame outer ih =>
    rw [frames, Operation.lastIndex?_concat, home, length_frames, ih]
    split <;> rfl

/-- A name is looked up from the last frame to the first. -/
theorem lookup_eq_findSome? (name : String) (env : Env) :
    env.lookup name = env.frames.reverse.findSome? (·.get? name) := by
  induction env with
  | globals frame => simp [frames, lookup]
  | scope frame outer ih =>
    rw [frames, List.reverse_append, List.reverse_singleton, List.singleton_append,
      List.findSome?_cons, lookup, ih]
    cases frame.get? name <;> rfl

/-- What an operation does to an environment it does to the row of its frames. -/
theorem onFrames_frames (env : Env) (operation : Operation) :
    operation.onFrames env.frames = some (env.apply operation).frames := by
  cases operation with
  | enter => rfl
  | exit =>
    rw [Operation.onFrames, apply, length_frames]
    split
    next h => rw [frames_exit (Nat.lt_of_succ_lt_succ h)]
    next h =>
      cases env with
      | globals frame => rfl
      | scope frame outer => exact absurd (Nat.succ_lt_succ (Nat.succ_pos _)) h
  | unwind => rw [Operation.onFrames, apply, frames_unwind]
  | define isLocal name value =>
    have htarget : (if isLocal then env.frames.length - 1
        else (Operation.lastIndex? name env.frames).getD 0) = env.target isLocal name := by
      rw [target, length_frames, Nat.add_sub_cancel, home_eq_lastIndex?]
    simp only [Operation.onFrames, htarget, if_pos (env.target_lt_length isLocal name), apply,
      frames_define]

/-- However many operations are carried out, the row of frames undergoes the same, and no index lies
outside it. -/
theorem foldlM_onFrames_frames (env : Env) (operations : List Operation) :
    operations.foldlM Operation.onFrames env.frames = some (env.applyAll operations).frames := by
  induction operations generalizing env with
  | nil => rfl
  | cons operation rest ih =>
    rw [List.foldlM_cons, onFrames_frames]
    exact ih (env.apply operation)

/-! ## Bindings -/

/-- The value of a name in the frame at an index. -/
def binding (env : Env) (index : Nat) (name : String) : Option Value :=
  env.frames[index]?.bind (·.get? name)

/-- A definition changes what one name means in one frame. -/
theorem binding_define (isLocal : Bool) (name other : String) (value : Value) (env : Env)
    (index : Nat) :
    (env.define isLocal name value).binding index other =
      if index = env.target isLocal name ∧ other = name then some value
      else env.binding index other := by
  rw [binding, binding, frames_define, List.getElem?_modify]
  by_cases hindex : env.target isLocal name = index
  · have hlt : index < env.frames.length := hindex ▸ env.target_lt_length isLocal name
    simp [hindex, List.getElem?_eq_getElem hlt, Frame.get?_insert]
  · simp [hindex, Ne.symm hindex]

/-- A name means its binding in the frame in which an assignment to it takes place. -/
theorem lookup_eq_binding_home (name : String) (env : Env) :
    env.lookup name = env.binding (env.home name) name := by
  induction env with
  | globals frame => rfl
  | scope frame outer ih =>
    rw [lookup, home, binding, frames]
    split
    next hbound =>
      rw [← length_frames, List.getElem?_concat_length, Option.bind_some]
      exact Option.or_of_isSome hbound
    next hfree =>
      have hnone : frame.get? name = none := by simpa [Frame.contains] using hfree
      rw [List.getElem?_append_left (outer.home_lt_length name), hnone, Option.none_or, ih, binding]

/-! ## Scopes in pairs -/

/-- An environment with further scopes, the innermost one first. -/
def within (frames : List Frame) (env : Env) : Env := frames.foldr scope env

/-- Local definitions and scopes in pairs stay within a scope, so that nothing is left of them when
it is closed. Of the scopes inside it, those that are open now are closed before. -/
theorem exit_applyAll_within (env : Env) {operations : List Operation} (frame : Frame)
    (inner : List Frame) (hpairs : Operation.isBracketed inner.length operations)
    (hlocal : operations.all Operation.isInner) :
    ((env.within (frame :: inner)).applyAll operations).exit = env := by
  induction operations generalizing frame inner with
  | nil =>
    rw [Operation.isBracketed, beq_iff_eq] at hpairs
    obtain rfl := List.eq_nil_of_length_eq_zero hpairs
    rfl
  | cons operation rest ih =>
    rw [List.all_cons, Bool.and_eq_true] at hlocal
    cases operation with
    | enter => exact ih .empty (frame :: inner) hpairs hlocal.2
    | exit =>
      cases inner with
      | nil => cases hpairs
      | cons next inner => exact ih next inner hpairs hlocal.2
    | unwind =>
      rw [Operation.isBracketed] at hpairs
      cases hpairs
    | define isLocal name value =>
      obtain rfl : isLocal = true := hlocal.1
      rw [Operation.isBracketed] at hpairs
      exact ih (frame.insert name value) inner hpairs hlocal.2

/-- Nothing is left of a scope. -/
theorem applyAll_scope (env : Env) {operations : List Operation}
    (hpairs : Operation.isBracketed 0 operations) (hlocal : operations.all Operation.isInner) :
    env.applyAll (.enter :: operations ++ [.exit]) = env := by
  rw [applyAll, List.foldl_append, List.foldl_cons]
  exact env.exit_applyAll_within .empty [] hpairs hlocal

/-! ## Nested scopes -/

/-- Whatever is done to an environment that begins with globals is done to a row of frames without
ever reaching outside it. There is always a frame, and a name means its binding in the last frame that
has one. A definition takes place in a frame that exists, the innermost one if it is local, and else
the one in which the name has its meaning, if it has any. It changes the binding of its name in that
frame and no other, so that the name means the new value and all others mean what they did. A scope
in which scopes are opened and closed in pairs and names are defined locally leaves the environment as
it was. -/
theorem applyAll_nested (entries : List (String × Value)) (operations : List Operation) :
    let env := (globals (.ofList entries)).applyAll operations
    operations.foldlM Operation.onFrames [.ofList entries] = some env.frames ∧
    0 < env.frames.length ∧
    (∀ name, env.lookup name = env.frames.reverse.findSome? (·.get? name) ∧
      env.lookup name = env.binding (env.target false name) name) ∧
    (∀ isLocal name value,
      let target := env.target isLocal name
      let later := env.define isLocal name value
      target < env.frames.length ∧ (isLocal → target + 1 = env.frames.length) ∧
      later.frames.length = env.frames.length ∧
      (∀ index other, later.binding index other =
        if index = target ∧ other = name then some value else env.binding index other) ∧
      later.lookup name = some value ∧ ∀ other ≠ name, later.lookup other = env.lookup other) ∧
    ∀ inner : List Operation, Operation.isBracketed 0 inner → inner.all Operation.isInner →
      env.applyAll (.enter :: inner ++ [.exit]) = env := by
  intro env
  refine ⟨foldlM_onFrames_frames (globals _) operations, env.frames_length_pos, fun name ↦
    ⟨env.lookup_eq_findSome? name, env.lookup_eq_binding_home name⟩, ?_,
    fun inner hpairs hlocal ↦ env.applyAll_scope hpairs hlocal⟩
  intro isLocal name value target later
  have hinnermost : isLocal → target + 1 = env.frames.length := by
    rintro rfl
    exact (length_frames env).symm
  have hlength : later.frames.length = env.frames.length := by
    rw [length_frames, length_frames, depth_define]
  have hlookup (other : String) := env.lookup_define isLocal name other value
  exact ⟨env.target_lt_length isLocal name, hinnermost, hlength,
    fun index other ↦ env.binding_define isLocal name other value index,
    (hlookup name).trans (if_pos rfl), fun other hother ↦ (hlookup other).trans (if_neg hother)⟩

/-- A name is shadowed in a scope and in a scope inside it, and means a global after both. -/
theorem applyAll_nested_shadowed :
    let env := (globals (.ofList [("x", .bool true)])).applyAll [.exit, .define false "x" .nil]
    let inner := [.define true "x" (.bool false), .enter, .define true "x" .nil, .exit]
    Operation.isBracketed 0 inner ∧ inner.all Operation.isInner ∧
      env.applyAll (.enter :: inner ++ [.exit]) = env ∧ env.lookup "x" = some .nil := by
  have hnested := applyAll_nested [("x", .bool true)] [.exit]
  have hlater := applyAll_nested [("x", .bool true)] [.exit, .define false "x" .nil]
  exact ⟨rfl, rfl, hlater.2.2.2.2 _ rfl rfl, (hnested.2.2.2.1 false "x" .nil).2.2.2.2.1⟩

end Env

end ScopeScript
