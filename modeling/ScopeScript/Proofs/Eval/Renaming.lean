import ScopeScript.Proofs.Eval.Correspondence

/-!
# Renaming a local

A local may be called by another name if that name does not occur where the local can be seen. The
two executions build frames with the same values, in which one finds under the new name what the
other finds under the old one; below the block, where the new name may already mean something, they
do the same. A name that is not found there keeps its spelling, because the local itself is found.
-/

namespace ScopeScript

/-- The name that stands for another when one name is replaced. -/
def renamed (old new name : String) : String := if name = old then new else name

variable {old new : String}

@[simp]
theorem renamed_self : renamed old new old = new := if_pos rfl

theorem renamed_of_ne {name : String} (h : name ≠ old) : renamed old new name = name := if_neg h

/-- Away from the new name, renaming keeps names apart. -/
theorem renamed_eq_iff {name other : String} (h : name ≠ new) (h' : other ≠ new) :
    renamed old new name = renamed old new other ↔ name = other := by
  unfold renamed
  split
  next hold =>
    split
    next hold' => simp [hold, hold']
    next hold' => simp [hold, Ne.symm h', Ne.symm hold']
  next hold =>
    split
    next hold' => simp [hold', h, hold]
    next => rfl

/-! ## Frames -/

/-- What one frame holds under a name, the other holds under its replacement. -/
def Frame.Renamed (old new : String) (frame frame' : Frame) : Prop :=
  ∀ name, name ≠ new → frame'.get? (renamed old new name) = frame.get? name

namespace Frame

theorem renamed_empty : Renamed old new .empty .empty := fun _ _ ↦ rfl

theorem Renamed.contains_eq {frame frame' : Frame} (h : Renamed old new frame frame') {name : String}
    (hname : name ≠ new) : frame'.contains (renamed old new name) = frame.contains name := by
  rw [contains, contains, h name hname]

theorem Renamed.insert {frame frame' : Frame} (h : Renamed old new frame frame') {name : String}
    (hname : name ≠ new) (value : Value) :
    Renamed old new (frame.insert name value) (frame'.insert (renamed old new name) value) := by
  intro other hother
  simp only [get?_insert, renamed_eq_iff hother hname, h other hother]

/-- The frame of a block after its local was declared. -/
theorem renamed_declared (value : Value) :
    Renamed old new (empty.insert old value) (empty.insert new value) := by
  intro name hname
  by_cases hold : name = old
  · rw [hold, renamed_self, get?_insert_self, get?_insert_self]
  · rw [renamed_of_ne hold, get?_insert, get?_insert, if_neg hname, if_neg hold]

end Frame

/-! ## Environments -/

namespace Env

/-- The frames up to a depth. -/
def upTo (depth : Nat) : Env → Env
  | globals frame => globals frame
  | scope frame outer => if outer.depth < depth then scope frame outer else outer.upTo depth

/-- The environments are the same up to a depth. Above it lies the frame of a block with the local,
and above that a number of others. -/
inductive Renamed (old new : String) (depth : Nat) : Nat → Env → Env → Prop
  | block {frame frame' : Frame} {outer : Env} (hframe : Frame.Renamed old new frame frame')
      (hold : frame.contains old) (hdepth : outer.depth = depth) :
      Renamed old new depth 0 (.scope frame outer) (.scope frame' outer)
  | inner {count : Nat} {frame frame' : Frame} {env env' : Env}
      (hframe : Frame.Renamed old new frame frame') (henv : Renamed old new depth count env env') :
      Renamed old new depth (count + 1) (.scope frame env) (.scope frame' env')

namespace Renamed

variable {depth count : Nat} {env env' : Env} {name : String}

theorem depth_eq (h : Renamed old new depth count env env') :
    env.depth = depth + 1 + count ∧ env'.depth = depth + 1 + count := by
  induction h with
  | block _ _ hdepth => exact ⟨congrArg (· + 1) hdepth, congrArg (· + 1) hdepth⟩
  | inner _ _ ih => exact ⟨congrArg (· + 1) ih.1, congrArg (· + 1) ih.2⟩

theorem upTo_eq (h : Renamed old new depth count env env') : env.upTo depth = env'.upTo depth := by
  induction h with
  | block _ _ hdepth => simp [upTo, hdepth]
  | @inner count _ _ env env' _ henv ih =>
    obtain ⟨hdepth, hdepth'⟩ := henv.depth_eq
    simp only [upTo, hdepth, hdepth', ih]
    split
    · omega
    · rfl

theorem exit_eq (h : Renamed old new depth 0 env env') : env.exit = env'.exit := by
  cases h
  rfl

theorem lookup_eq (h : Renamed old new depth count env env') (hname : name ≠ new) :
    env'.lookup (renamed old new name) = env.lookup name := by
  induction h with
  | @block frame frame' outer hframe hold =>
    rw [lookup, lookup, hframe name hname]
    by_cases heq : name = old
    · obtain ⟨value, hvalue⟩ := Option.isSome_iff_exists.1 hold
      rw [heq, hvalue]
      rfl
    · rw [renamed_of_ne heq]
  | inner hframe _ ih => rw [lookup, lookup, hframe name hname, ih]

/-- The local itself is always found. -/
theorem lookup_old (h : Renamed old new depth count env env') : (env.lookup old).isSome := by
  induction h with
  | block _ hold =>
    obtain ⟨value, hvalue⟩ := Option.isSome_iff_exists.1 hold
    rw [lookup, hvalue]
    rfl
  | @inner _ frame _ env _ _ _ ih =>
    rw [lookup]
    cases frame.get? old with
    | none => exact ih
    | some value => rfl

theorem declare (h : Renamed old new depth count env env') (hname : name ≠ new) (value : Value) :
    Renamed old new depth count (env.declare name value)
      (env'.declare (renamed old new name) value) := by
  cases h with
  | block hframe hold hdepth =>
    refine .block (hframe.insert hname value) ?_ hdepth
    rw [Frame.contains_insert, hold, Bool.or_true]
  | inner hframe henv => exact .inner (hframe.insert hname value) henv

theorem assign (h : Renamed old new depth count env env') (hname : name ≠ new) (value : Value) :
    Renamed old new depth count (env.assign name value)
      (env'.assign (renamed old new name) value) := by
  induction h with
  | @block frame frame' outer hframe hold hdepth =>
    rw [Env.assign, Env.assign, hframe.contains_eq hname]
    split
    · refine .block (hframe.insert hname value) ?_ hdepth
      rw [Frame.contains_insert, hold, Bool.or_true]
    next hfree =>
      have hne : name ≠ old := fun heq ↦ hfree (heq ▸ hold)
      rw [renamed_of_ne hne]
      exact .block hframe hold ((depth_assign name value outer).trans hdepth)
  | inner hframe henv ih =>
    rw [Env.assign, Env.assign, hframe.contains_eq hname]
    split
    · exact .inner (hframe.insert hname value) henv
    · exact .inner hframe ih

end Renamed

/-- Whatever does not mention the new name keeps environments renamed. -/
theorem correspondence_renamed (old new : String) (depth : Nat) :
    Correspondence (renamed old new) (· ≠ new) (Renamed old new depth) where
  enter h := .inner Frame.renamed_empty h
  exit h := by
    cases h with
    | inner _ henv => exact henv
  define hname h isLocal value := by
    cases isLocal with
    | true => exact h.declare hname value
    | false => exact h.assign hname value
  lookup hname h := h.lookup_eq hname
  undefined {_ env _ name} _ h hnone := by
    refine renamed_of_ne fun heq ↦ ?_
    have hsome := h.lookup_old
    rw [← heq, hnone] at hsome
    cases hsome

end Env

/-! ## Blocks -/

/-- Two executions from one environment have the same effect on the frames up to a depth: they are
done with the same environment, fail for the same reason and with the same frames, or go on. -/
def Outcome.Agrees {α : Type} (depth : Nat) : Outcome α → Outcome α → Prop
  | .done value session, .done value' session' => value = value' ∧ session.env = session'.env
  | .failed fault session, .failed fault' session' =>
    fault = fault' ∧ session.env.upTo depth = session'.env.upTo depth
  | .unfinished, .unfinished => True
  | _, _ => False

/-- Leaving the block takes the frame of the renamed local away. -/
theorem Outcome.Follows.agrees_exit {depth : Nat} {outcome outcome' : Outcome Unit}
    (h : outcome.Follows (Env.Renamed old new depth) id 0 outcome') :
    (outcome.bind fun _ final ↦ .done () final.exit).Agrees depth
      (outcome'.bind fun _ final ↦ .done () final.exit) := by
  cases h using Outcome.Follows.induct with
  | done value session session' henv =>
    refine ⟨rfl, ?_⟩
    rw [Session.env_exit, Session.env_exit]
    exact henv.exit_eq
  | failed fault session session' inner henv => exact ⟨rfl, henv.upTo_eq⟩
  | unfinished => trivial

/-- A block does the same when its first local gets a name that occurs nowhere behind it. -/
theorem Stmt.block_agrees_renamed {body : List Stmt} (hnew : new ∉ Stmt.namesAll body) (old : String)
    (value : Expr) (span span' : Span) (budget : Nat) (session : Session) :
    ((Stmt.block span (.assign span' true old value :: body)).exec budget session).Agrees
      session.env.depth
      ((Stmt.block span (.assign span' true new value ::
        body.map (Stmt.map (renamed old new) id))).exec budget session) := by
  rw [exec_block_apply, exec_block_apply, execAll_cons_apply, execAll_cons_apply, exec_assign_apply,
    exec_assign_apply]
  cases value.eval session.enter.env with
  | error fault => exact ⟨rfl, rfl⟩
  | ok result =>
    have hstart : Env.Renamed old new session.env.depth 0
        (session.enter.define true old result).env (session.enter.define true new result).env :=
      .block (Frame.renamed_declared result) (by simp [Frame.contains]) rfl
    have hbody : Outcome.Follows (Env.Renamed old new session.env.depth) id 0 _ _ :=
      Stmt.follows_execAll (Env.correspondence_renamed old new session.env.depth) budget body
        (fun name hname heq ↦ hnew (heq ▸ hname)) 0 hstart
    rw [mapAll_eq_map] at hbody
    exact hbody.agrees_exit

/-- The local of `do local x = x; s = x; end` may be called `y`. Either way `s` gets the value of the
outer `x`. -/
theorem Stmt.block_agrees_renamed_assignment :
    let session : Session := .ofGlobals (.ofList [("x", .number (.int 1))]) false
    let renamed := Stmt.block ⟨0, 26⟩ [.assign ⟨3, 15⟩ true "y" (.name ⟨13, 14⟩ "x"),
      .assign ⟨16, 22⟩ false "s" (.name ⟨20, 21⟩ "y")]
    ((Stmt.block ⟨0, 26⟩ [.assign ⟨3, 15⟩ true "x" (.name ⟨13, 14⟩ "x"),
        .assign ⟨16, 22⟩ false "s" (.name ⟨20, 21⟩ "x")]).exec 0 session).Agrees 0
      (renamed.exec 0 session) ∧
    ∃ final, renamed.exec 0 session = .done () final ∧
      final.env.lookup "s" = some (.number (.int 1)) := by
  intro session renamed
  exact ⟨@Stmt.block_agrees_renamed "y" [.assign ⟨16, 22⟩ false "s" (.name ⟨20, 21⟩ "x")] (by decide)
    "x" (.name ⟨13, 14⟩ "x") ⟨0, 26⟩ ⟨3, 15⟩ 0 session, _, rfl, rfl⟩

end ScopeScript
