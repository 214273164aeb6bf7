import ScopeScript.Proofs.Eval.Renaming
import ScopeScript.Proofs.Eval.Scopes

/-!
# Blocks without locals

A block that declares nothing at its top may be left out: its statements do the same without the
scope around them. The two executions build the same stack of frames, but for a frame of the block
in the midst of one of them. As long as that frame is empty, a look-up passes it by, and so does the
search for the frame in which an assignment takes place; it stays empty, because only a declaration
at the top of the block could bind a name there.
-/

namespace ScopeScript

namespace Env

variable {depth count : Nat} {env env' : Env}

theorem upTo_of_depth_le (h : env.depth ≤ depth) : env.upTo depth = env := by
  cases env with
  | globals frame => rfl
  | scope frame outer => exact if_pos h

/-! ## Stacks with one frame more -/

/-- The first environment has one frame more, above a depth and under the `count` innermost frames.
Unless it binds a name, the others are the same. Names mean the same in any case. -/
inductive Padded (depth : Nat) : Nat → Env → Env → Prop
  | base {frame : Frame} {outer env : Env} (houter : outer.depth = depth) (henv : env.depth = depth)
      (hrest : frame ≠ .empty ∨ outer = env)
      (hlookup : ∀ name, env.lookup name = (Env.scope frame outer).lookup name) :
      Padded depth 0 (.scope frame outer) env
  | inner {count : Nat} {frame : Frame} {env env' : Env} (hpadded : Padded depth count env env') :
      Padded depth (count + 1) (.scope frame env) (.scope frame env')

theorem padded_enter (env : Env) : Padded env.depth 0 env.enter env := by
  apply Padded.base rfl rfl
  · exact .inr rfl
  · intro name
    rw [lookup, Frame.get?_empty, Option.none_or]

namespace Padded

theorem lookup_eq (h : Padded depth count env env') (name : String) :
    env'.lookup name = env.lookup name := by
  induction h with
  | base _ _ _ hlookup => exact hlookup name
  | inner _ ih => rw [lookup, lookup, ih]

theorem declare (h : Padded depth count env env') (name : String) (value : Value) :
    Padded depth count (env.declare name value) (env'.declare name value) := by
  cases h with
  | base houter henv _ hlookup =>
    apply Padded.base houter ((depth_declare name value env').trans henv)
    · exact .inl (Frame.insert_ne_empty _ name value)
    · intro other
      rw [lookup_declare, hlookup, ← lookup_declare name other value]
      rfl
  | inner hpadded => exact .inner hpadded

theorem assign (h : Padded depth count env env') (name : String) (value : Value) :
    Padded depth count (env.assign name value) (env'.assign name value) := by
  induction h with
  | @base frame outer env houter henv hrest hlookup =>
    have hdepth : (env.assign name value).depth = depth := (depth_assign name value env).trans henv
    have hmeans (other : String) : (env.assign name value).lookup other =
        ((scope frame outer).assign name value).lookup other := by
      rw [lookup_assign, lookup_assign, hlookup]
    by_cases hbound : frame.contains name = true
    · have hassign : (scope frame outer).assign name value =
          scope (frame.insert name value) outer := if_pos hbound
      rw [hassign] at hmeans ⊢
      exact .base houter hdepth (.inl (frame.insert_ne_empty name value)) hmeans
    · have hassign : (scope frame outer).assign name value =
          scope frame (outer.assign name value) := if_neg hbound
      rw [hassign] at hmeans ⊢
      apply Padded.base ((depth_assign name value outer).trans houter) hdepth
      · exact hrest.imp_right (congrArg (Env.assign name value))
      · exact hmeans
  | inner hpadded ih =>
    rw [Env.assign, Env.assign]
    split
    · exact .inner hpadded
    · exact .inner ih

theorem depth_eq (h : Padded depth count env env') :
    env.depth = depth + count + 1 ∧ env'.depth = depth + count := by
  induction h with
  | base houter henv => exact ⟨congrArg (· + 1) houter, henv⟩
  | inner _ ih => exact ⟨congrArg (· + 1) ih.1, congrArg (· + 1) ih.2⟩

/-- While the frame between is empty, the others are the same. -/
theorem upTo_eq (h : Padded depth count env env') (hempty : env.frames[depth + 1]? = some .empty) :
    env.upTo depth = env'.upTo depth := by
  induction h with
  | @base frame outer env houter henv hrest =>
    rw [frames, ← houter, ← length_frames, List.getElem?_concat_length] at hempty
    have hframe : frame = .empty := Option.some.inj hempty
    have hsame : outer = env := hrest.resolve_left (not_not_intro hframe)
    rw [upTo, if_neg (by omega), hsame]
  | @inner count frame env env' hpadded ih =>
    obtain ⟨hdepth, hdepth'⟩ := hpadded.depth_eq
    rw [frames, List.getElem?_append_left (by rw [length_frames]; omega)] at hempty
    rw [upTo, upTo, if_neg (by omega), if_neg (by omega)]
    exact ih hempty

theorem exit_eq (h : Padded depth 0 env env') (hempty : env.frames[depth + 1]? = some .empty) :
    env.exit = env' := by
  have hupTo := h.upTo_eq hempty
  cases h with
  | base houter henv =>
    rw [upTo, if_neg (by omega), upTo_of_depth_le (Nat.le_of_eq houter),
      upTo_of_depth_le (Nat.le_of_eq henv)] at hupTo
    exact hupTo

end Padded

/-- Whatever a tree does, it does to both stacks. -/
theorem correspondence_padded (depth : Nat) :
    Correspondence id (fun _ ↦ True) (Padded depth) where
  enter h := .inner h
  exit h := by
    cases h with
    | inner hpadded => exact hpadded
  define _ h isLocal value := by
    cases isLocal with
    | true => exact h.declare _ value
    | false => exact h.assign _ value
  lookup _ h := h.lookup_eq _
  undefined _ _ _ := rfl

/-- A scope in which nothing is declared stays empty. -/
theorem Kept.frame_entered {assigned : List String} {env env' : Env}
    (h : env.enter.Kept assigned [] env') : env'.frames[env.depth + 1]? = some .empty := by
  have hentered : env.enter.frames[env.depth + 1]? = some .empty := by
    rw [frames_enter, ← length_frames, List.getElem?_concat_length]
  obtain ⟨frame, hframe, hkept⟩ := h _ _ hentered
  rw [hframe, Option.some.injEq]
  apply Frame.eq_empty_of_forall_contains
  intro name
  cases hbound : frame.contains name with
  | false => rfl
  | true =>
    have hgained := hkept.gains name hbound
    simp [Frame.contains] at hgained

end Env

/-! ## Blocks -/

/-- Leaving a scope in which nothing was declared takes only an empty frame away. -/
theorem Outcome.Follows.agrees_of_keeps {env : Env} {assigned : List String}
    {outcome outcome' : Outcome Unit} (h : outcome.Follows (Env.Padded env.depth) id 0 outcome')
    (hkeeps : outcome.Keeps env.enter assigned []) :
    (outcome.bind fun _ final ↦ .done () final.exit).Agrees env.depth outcome' := by
  cases h using Outcome.Follows.induct with
  | done value session session' hpadded =>
    refine ⟨rfl, ?_⟩
    rw [Session.env_exit]
    exact hpadded.exit_eq hkeeps.2.frame_entered
  | failed fault session session' inner hpadded =>
    exact ⟨rfl, hpadded.upTo_eq hkeeps.2.frame_entered⟩
  | unfinished => trivial

/-- A block at whose top nothing is declared has the same effect as its statements without it. -/
theorem Stmt.inScope_agrees_execAll {body : List Stmt} (hbody : ∀ tree ∈ body, tree.declared = [])
    (budget : Nat) (session : Session) :
    (Exec.inScope (Stmt.execAll budget body) session).Agrees session.env.depth
      (Stmt.execAll budget body session) := by
  have hkeeps := Stmt.keeps_execAll budget body session.enter
  rw [List.flatMap_eq_nil_iff.2 hbody] at hkeeps
  have hstart : Env.Padded session.env.depth 0 session.enter.env session.env :=
    session.env.padded_enter
  have hfollows : Outcome.Follows (Env.Padded session.env.depth) id 0
      (Stmt.execAll budget body session.enter)
      (Stmt.execAll budget (Stmt.mapAll id id body) session) :=
    Stmt.follows_execAll (Env.correspondence_padded session.env.depth) budget body
      (fun _ _ ↦ trivial) 0 hstart
  rw [Stmt.mapAll_id] at hfollows
  exact hfollows.agrees_of_keeps hkeeps

/-- In `do x = 1; do local x = 2; end; y(x); end` only the inner block declares a name. Up to the
call, which fails, the outer one makes no difference. -/
theorem Stmt.inScope_agrees_execAll_nested :
    (Exec.inScope (Stmt.execAll 0 [.assign ⟨3, 9⟩ false "x" (.literal ⟨7, 8⟩ (.number (.int 1))),
        .block ⟨10, 30⟩ [.assign ⟨13, 25⟩ true "x" (.literal ⟨23, 24⟩ (.number (.int 2)))],
        .expr ⟨31, 36⟩ (.call ⟨31, 35⟩ "y" [.name ⟨33, 34⟩ "x"])])
      (.ofGlobals .empty false)).Agrees 0
    (Stmt.execAll 0 [.assign ⟨3, 9⟩ false "x" (.literal ⟨7, 8⟩ (.number (.int 1))),
        .block ⟨10, 30⟩ [.assign ⟨13, 25⟩ true "x" (.literal ⟨23, 24⟩ (.number (.int 2)))],
        .expr ⟨31, 36⟩ (.call ⟨31, 35⟩ "y" [.name ⟨33, 34⟩ "x"])]
      (.ofGlobals .empty false)) :=
  Stmt.inScope_agrees_execAll (by decide) 0 (.ofGlobals .empty false)

end ScopeScript
