import ScopeScript.Proofs.Eval.Scopes
import ScopeScript.Proofs.Eval.Sequence

/-!
# What a run does to the globals

A run loses no global, and changes or makes only globals whose names occur in its program. No other
global has an influence on it: where two sets of globals agree on the names of a program, the two runs
have the same result, and leave globals that agree on these names again. The frames above the globals
need not agree on other names either, since a look-up passes through them only for a name of the
program.
-/

namespace ScopeScript

/-! ## Names -/

mutual

theorem Stmt.assigned_subset_names (tree : Stmt) : tree.assigned ⊆ tree.names := by
  match tree with
  | .assign _ true name value => exact List.nil_subset _
  | .assign _ false name value => exact List.cons_subset_cons name (List.nil_subset _)
  | .block _ body => exact Stmt.assignedAll_subset_namesAll body
  | .forLoop _ _ name init limit step body =>
    apply List.subset_cons_of_subset
    apply List.subset_append_of_subset_right
    exact Stmt.assignedAll_subset_namesAll body
  | .ifElse _ condition thenBody elseBody =>
    apply List.append_subset.2
    constructor
    · apply List.subset_append_of_subset_left
      apply List.subset_append_of_subset_right
      exact Stmt.assignedAll_subset_namesAll thenBody
    · apply List.subset_append_of_subset_right
      exact Stmt.assignedAll_subset_namesAll elseBody
  | .whileLoop _ condition body =>
    apply List.subset_append_of_subset_right
    exact Stmt.assignedAll_subset_namesAll body
  | .expr _ _ | .return_ _ _ => exact List.nil_subset _

/-- What statements assign occurs in them. -/
theorem Stmt.assignedAll_subset_namesAll (trees : List Stmt) :
    Stmt.assignedAll trees ⊆ Stmt.namesAll trees := by
  match trees with
  | [] => exact List.nil_subset _
  | tree :: rest =>
    apply List.append_subset.2
    constructor
    · exact List.subset_append_of_subset_left _ (Stmt.assigned_subset_names tree)
    · exact List.subset_append_of_subset_right _ (Stmt.assignedAll_subset_namesAll rest)

end

theorem Stmt.declared_subset_names (tree : Stmt) : tree.declared ⊆ tree.names := by
  cases tree with
  | assign span isLocal name value =>
    cases isLocal with
    | true => exact List.cons_subset_cons name (List.nil_subset _)
    | false => exact List.nil_subset _
  | _ => exact List.nil_subset _

/-- What statements declare occurs in them. -/
theorem Stmt.declaredAll_subset_namesAll (trees : List Stmt) :
    trees.flatMap Stmt.declared ⊆ Stmt.namesAll trees := by
  induction trees with
  | nil => exact List.nil_subset _
  | cons tree rest ih =>
    rw [List.flatMap_cons]
    apply List.append_subset.2
    constructor
    · exact List.subset_append_of_subset_left _ tree.declared_subset_names
    · exact List.subset_append_of_subset_right _ ih

/-! ## What a run leaves -/

/-- The outcome with a value or a fault, and the session that is left. -/
def Outcome.ended {α : Type} : Except Fault α → Session → Outcome α
  | .ok value, session => .done value session
  | .error fault, session => .failed fault session

theorem Outcome.ended_ne_unfinished {α : Type} (result : Except Fault α) (session : Session) :
    ended result session ≠ .unfinished := by
  cases result with
  | ok value => exact nofun
  | error fault => exact nofun

theorem Outcome.Keeps.kept {α : Type} {env : Env} {assigned declared : List String}
    {result : Except Fault α} {session : Session}
    (h : (Outcome.ended result session).Keeps env assigned declared) :
    env.Kept assigned declared session.env := by
  cases result with
  | ok value => exact h.2
  | error fault => exact h.2

/-- What is kept of all frames is kept of the globals. -/
theorem Env.Kept.globalFrame {env env' : Env} {assigned declared names : List String}
    (h : env.Kept assigned declared env') (hassigned : assigned ⊆ names)
    (hdeclared : declared ⊆ names) :
    Frame.Kept (· ∈ names) (· ∈ names) env.globalFrame env'.globalFrame := by
  obtain ⟨frame, hframe, hkept⟩ := h 0 env.globalFrame env.getElem?_frames_zero
  obtain rfl := Option.some.inj (env'.getElem?_frames_zero.symm.trans hframe)
  apply hkept.mono
  · rintro name (⟨-, hname⟩ | ⟨-, hname⟩)
    · exact hassigned hname
    · exact hdeclared hname
  · rintro name (hname | ⟨-, hname⟩)
    · exact hassigned hname
    · exact hdeclared hname

/-- Statements keep the globals, but for the values of names that occur in them. -/
theorem Stmt.kept_of_execAll {budget : Nat} {trees : List Stmt} {session final : Session}
    {result : Except Fault Unit} (h : Stmt.execAll budget trees session = .ended result final) :
    Frame.Kept (· ∈ Stmt.namesAll trees) (· ∈ Stmt.namesAll trees) session.env.globalFrame
      final.env.globalFrame := by
  have hkeeps := Stmt.keeps_execAll budget trees session
  rw [h] at hkeeps
  apply hkeeps.kept.globalFrame
  · exact Stmt.assignedAll_subset_namesAll trees
  · exact Stmt.declaredAll_subset_namesAll trees

namespace Program

variable {budget : Nat} {program : Program} {session final : Session}
  {result : Except Fault (Option Value)}

/-- A run that has ended was an execution that has, with the same globals. -/
theorem exec_eq_ended_of_run (h : run budget program session = .ended result final) :
    ∃ inner, exec budget program (session.note (.evaluating program.length)) = .ended result inner ∧
      final.env.globalFrame = inner.env.globalFrame := by
  rw [run_eq_conclude] at h
  cases result with
  | ok value =>
    obtain ⟨inner, hexec, henv⟩ := conclude_eq_done h
    exact ⟨inner, hexec, congrArg Env.globalFrame henv⟩
  | error fault =>
    obtain ⟨inner, hexec, henv⟩ := conclude_eq_failed h
    have hglobals : inner.env.unwind.globalFrame = inner.env.globalFrame := rfl
    exact ⟨inner, hexec, (congrArg Env.globalFrame henv).trans hglobals⟩

/-- Only the value of the last statement is lost if the statements are executed. -/
theorem execAll_eq_ended {inner : Session} (h : exec budget program session = .ended result inner) :
    Stmt.execAll budget program session = .ended (result.map fun _ ↦ ()) inner := by
  rw [execAll_eq_exec, h]
  cases result with
  | ok value => rfl
  | error fault => rfl

theorem kept_of_run (h : run budget program session = .ended result final) :
    Frame.Kept (· ∈ Stmt.namesAll program) (· ∈ Stmt.namesAll program) session.env.globalFrame
      final.env.globalFrame := by
  obtain ⟨inner, hexec, hglobals⟩ := exec_eq_ended_of_run h
  have hkept := Stmt.kept_of_execAll (execAll_eq_ended hexec)
  rw [Session.env_note] at hkept
  rwa [hglobals]

end Program

/-! ## Frames that agree on names -/

/-- The frames have the same value, or none, for each of these names. -/
def Frame.AgreesOn (mentioned : String → Prop) (frame frame' : Frame) : Prop :=
  ∀ name, mentioned name → frame.get? name = frame'.get? name

namespace Frame.AgreesOn

variable {mentioned : String → Prop} {frame frame' : Frame} {name : String}

theorem contains_eq (h : frame.AgreesOn mentioned frame') (hname : mentioned name) :
    frame.contains name = frame'.contains name := by
  rw [contains, contains, h name hname]

theorem insert (h : frame.AgreesOn mentioned frame') (name : String) (value : Value) :
    (frame.insert name value).AgreesOn mentioned (frame'.insert name value) := by
  intro other hother
  rw [get?_insert, get?_insert, h other hother]

end Frame.AgreesOn

/-- The environments have as many frames, which agree on these names. -/
inductive Env.AgreesOn (mentioned : String → Prop) : Nat → Env → Env → Prop
  | globals {frame frame' : Frame} (hframe : frame.AgreesOn mentioned frame') :
      AgreesOn mentioned 0 (.globals frame) (.globals frame')
  | scope {count : Nat} {frame frame' : Frame} {env env' : Env}
      (hframe : frame.AgreesOn mentioned frame') (henv : AgreesOn mentioned count env env') :
      AgreesOn mentioned (count + 1) (.scope frame env) (.scope frame' env')

namespace Env.AgreesOn

variable {mentioned : String → Prop} {count : Nat} {env env' : Env} {name : String}

theorem globalFrame (h : AgreesOn mentioned count env env') :
    env.globalFrame.AgreesOn mentioned env'.globalFrame := by
  induction h with
  | globals hframe => exact hframe
  | scope _ _ ih => exact ih

theorem lookup_eq (h : AgreesOn mentioned count env env') (hname : mentioned name) :
    env.lookup name = env'.lookup name := by
  induction h with
  | globals hframe => exact hframe name hname
  | scope hframe _ ih => rw [lookup, lookup, hframe name hname, ih]

theorem declare (h : AgreesOn mentioned count env env') (name : String) (value : Value) :
    AgreesOn mentioned count (env.declare name value) (env'.declare name value) := by
  cases h with
  | globals hframe => exact .globals (hframe.insert name value)
  | scope hframe henv => exact .scope (hframe.insert name value) henv

/-- The frame of an assignment depends on which frames hold the name, so it must be one of these. -/
theorem assign (h : AgreesOn mentioned count env env') (hname : mentioned name) (value : Value) :
    AgreesOn mentioned count (env.assign name value) (env'.assign name value) := by
  induction h with
  | globals hframe => exact .globals (hframe.insert name value)
  | scope hframe henv ih =>
    rw [Env.assign, Env.assign, hframe.contains_eq hname]
    split
    · exact .scope (hframe.insert name value) henv
    · exact .scope hframe ih

end Env.AgreesOn

/-- Whatever mentions only these names keeps environments in agreement on them. -/
theorem Env.correspondence_agreesOn (mentioned : String → Prop) :
    Correspondence id mentioned (AgreesOn mentioned) where
  enter h := .scope (fun _ _ ↦ rfl) h
  exit h := by
    cases h with
    | scope _ henv => exact henv
  define hname h isLocal value := by
    cases isLocal with
    | true => exact h.declare _ value
    | false => exact h.assign hname value
  lookup hname h := (h.lookup_eq hname).symm
  undefined _ _ _ := rfl

/-! ## Runs that agree on names -/

/-- The outcomes have the same value or the same fault, and globals that agree on these names. -/
def Outcome.AgreesOn {α : Type} (mentioned : String → Prop) : Outcome α → Outcome α → Prop
  | .done value session, .done value' session' =>
    value = value' ∧ session.env.globalFrame.AgreesOn mentioned session'.env.globalFrame
  | .failed fault session, .failed fault' session' =>
    fault = fault' ∧ session.env.globalFrame.AgreesOn mentioned session'.env.globalFrame
  | .unfinished, .unfinished => True
  | _, _ => False

theorem Outcome.Follows.agreesOn {α : Type} {mentioned : String → Prop} {count : Nat}
    {outcome outcome' : Outcome α}
    (h : outcome.Follows (Env.AgreesOn mentioned) id count outcome') :
    outcome.AgreesOn mentioned outcome' := by
  cases h using Outcome.Follows.induct with
  | done value session session' henv => exact ⟨rfl, henv.globalFrame⟩
  | failed fault session session' inner henv => exact ⟨rfl, henv.globalFrame⟩
  | unfinished => trivial

namespace Program

/-- Programs run alike from globals that agree on names, if they mention no others. -/
theorem run_agreesOn {mentioned : String → Prop} (budget : Nat) (program : Program)
    (hnames : ∀ name ∈ Stmt.namesAll program, mentioned name) {session session' : Session}
    (h : Env.AgreesOn mentioned 0 session.env session'.env) :
    (run budget program session).AgreesOn mentioned (run budget program session') := by
  have hexec : Outcome.Follows (Env.AgreesOn mentioned) id 0
      (exec budget program (session.note (.evaluating program.length)))
      (exec budget (program.map (Stmt.map id id)) (session'.note (.evaluating program.length))) :=
    follows_exec (Env.correspondence_agreesOn mentioned) program hnames 0 h
  rw [map_map_id] at hexec
  rw [run_eq_conclude, run_eq_conclude]
  exact (conclude_follows (fun henv ↦ .globals henv.globalFrame) hexec).agreesOn

/-- From globals that agree on the names of a program the two runs have the same value, or the same
fault, or neither comes to an end within the budget. The globals that they leave agree on these names
again, and each run leaves every other global as it was. -/
theorem run_agrees_on_names {program : Program} {globals globals' : Frame}
    (h : ∀ name ∈ Stmt.namesAll program, globals.get? name = globals'.get? name)
    (budget : Nat) (recorded recorded' : Bool) :
    (run budget program (.ofGlobals globals recorded)).AgreesOn (· ∈ Stmt.namesAll program)
        (run budget program (.ofGlobals globals' recorded')) ∧
      (∀ result final, run budget program (.ofGlobals globals recorded) = .ended result final →
        ∀ name ∉ Stmt.namesAll program, final.env.globalFrame.get? name = globals.get? name) ∧
      ∀ result final, run budget program (.ofGlobals globals' recorded') = .ended result final →
        ∀ name ∉ Stmt.namesAll program, final.env.globalFrame.get? name = globals'.get? name := by
  refine ⟨?_, ?_, ?_⟩
  · exact run_agreesOn budget program (fun _ hname ↦ hname) (.globals h)
  · exact fun _ _ hrun ↦ (kept_of_run hrun).fixes
  · exact fun _ _ hrun ↦ (kept_of_run hrun).fixes

/-- In `x = x + 1; y` the failure to find `y` does not depend on a global `z`, which stays. -/
theorem run_agrees_on_names_failing :
    ∃ (program : Program) (final final' : Session),
      program = [.assign ⟨0, 10⟩ false "x" (.binary ⟨4, 9⟩ (.arithmetic .add) (.name ⟨4, 5⟩ "x")
        (.literal ⟨8, 9⟩ (.number (.int 1)))), .expr ⟨11, 12⟩ (.name ⟨11, 12⟩ "y")] ∧
      run 0 program (.ofGlobals (.ofList [("x", .number (.int 1)), ("z", .bool true)]) false) =
        .ended (.error ⟨.notDefined "y", ⟨11, 12⟩⟩) final ∧
      run 0 program (.ofGlobals (.ofList [("x", .number (.int 1))]) true) =
        .ended (.error ⟨.notDefined "y", ⟨11, 12⟩⟩) final' ∧
      final.env.globalFrame.get? "x" = final'.env.globalFrame.get? "x" ∧
      final.env.globalFrame.get? "z" = some (.bool true) ∧
      final'.env.globalFrame.get? "z" = none := by
  have hnames : ∀ name ∈ Stmt.namesAll [.assign ⟨0, 10⟩ false "x" (.binary ⟨4, 9⟩ (.arithmetic .add)
      (.name ⟨4, 5⟩ "x") (.literal ⟨8, 9⟩ (.number (.int 1)))), .expr ⟨11, 12⟩ (.name ⟨11, 12⟩ "y")],
      (Frame.ofList [("x", .number (.int 1)), ("z", .bool true)]).get? name =
        (Frame.ofList [("x", .number (.int 1))]).get? name := by
    decide
  obtain ⟨hagree, hkept, hkept'⟩ := run_agrees_on_names hnames 0 false true
  refine ⟨_, _, _, rfl, rfl, rfl, ?_, ?_, ?_⟩
  · exact hagree.2 "x" (by decide)
  · exact hkept (.error ⟨.notDefined "y", ⟨11, 12⟩⟩) _ rfl "z" (by decide)
  · exact hkept' (.error ⟨.notDefined "y", ⟨11, 12⟩⟩) _ rfl "z" (by decide)

end Program

end ScopeScript
