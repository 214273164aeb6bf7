import ScopeScript.Proofs.Eval.Contract
import ScopeScript.Proofs.Eval.Globals

/-!
# Sessions that run many programs

A session runs one program after another, and a failure does not end it. Between two programs no scope
is open, inside however many blocks and loops the first has failed. So a declaration at the top of a
program makes a global, as an assignment does. A global is never lost, and every later program finds
it. The globals are also all that a program can tell of those before it.
-/

namespace ScopeScript

/-- A program that is run in a session, and its value or its fault. -/
abbrev Session.Turn : Type := Program × Except Fault (Option Value)

/-- The programs are run one after the other, each to its end, with these results. -/
inductive Session.Runs : Session → List Turn → Session → Prop
  | nil (session : Session) : Runs session [] session
  | cons {session middle final : Session} {program : Program} {result : Except Fault (Option Value)}
      {later : List Turn} (h : program.Ends session (.ended result middle))
      (hlater : Runs middle later final) : Runs session ((program, result) :: later) final

variable {program : Program} {session session' final : Session} {turns : List Session.Turn}
  {result : Except Fault (Option Value)} {env : Env} {name : String}

/-- What each program preserves is preserved by many. -/
theorem Session.Runs.preserves {holds : Session → Prop}
    (hstep : ∀ {program : Program} {session final : Session} {result : Except Fault (Option Value)},
      program.Ends session (.ended result final) → holds session → holds final)
    (h : session.Runs turns final) (hsession : holds session) : holds final := by
  induction h with
  | nil session => exact hsession
  | cons h _ ih => exact ih (hstep h hsession)

/-! ## No scope stays open -/

theorem Stmt.depth_of_execAll {budget : Nat} {trees : List Stmt}
    (h : Stmt.execAll budget trees session = .done () final) :
    final.env.depth = session.env.depth := by
  have hkeeps := Stmt.keeps_execAll budget trees session
  rw [h] at hkeeps
  exact hkeeps.depth_eq

/-- A program that is done has closed the scopes that it has opened; after a failure all are closed. -/
theorem Program.Ends.depth_eq_zero (h : program.Ends session (.ended result final))
    (hdepth : session.env.depth = 0) : final.env.depth = 0 := by
  obtain ⟨-, budget, hrun⟩ := h
  rw [run_eq_conclude] at hrun
  cases result with
  | ok value =>
    obtain ⟨inner, hexec, henv⟩ := conclude_eq_done hrun
    have hall : Stmt.execAll budget program (session.note (.evaluating program.length)) =
        .done () inner := @execAll_eq_ended budget program _ (.ok value) inner hexec
    calc
      final.env.depth = inner.env.depth := congrArg Env.depth henv
      _ = (session.note (.evaluating program.length)).env.depth := Stmt.depth_of_execAll hall
      _ = 0 := hdepth
  | error fault =>
    obtain ⟨inner, hexec, henv⟩ := conclude_eq_failed hrun
    rw [henv, Env.depth_unwind]

theorem Env.eq_globals (h : env.depth = 0) : env = .globals env.globalFrame := by
  cases env with
  | globals frame => rfl
  | scope frame outer => cases h

theorem Env.contains_globalFrame (h : env.depth = 0) (name : String) :
    env.globalFrame.contains name = (env.lookup name).isSome := by
  rw [eq_globals h]
  rfl

/-! ## Declarations at the top -/

/-- The statement with an assignment in place of a declaration. Its bodies stay as they are. -/
def Stmt.undeclared : Stmt → Stmt
  | .assign span _ name value => .assign span false name value
  | tree => tree

/-- Where no scope is open the globals are the innermost frame. -/
theorem Session.define_true_eq (h : session.env.depth = 0) (name : String) (value : Value) :
    session.define true name value = session.define false name value := by
  obtain ⟨env, record⟩ := session
  cases env with
  | globals frame => rfl
  | scope frame outer => cases h

theorem Stmt.exec_undeclared (budget : Nat) (tree : Stmt) (h : session.env.depth = 0) :
    tree.undeclared.exec budget session = tree.exec budget session := by
  cases tree with
  | assign span isLocal name value =>
    cases isLocal with
    | false => rfl
    | true =>
      rw [undeclared, exec_assign_apply, exec_assign_apply]
      cases value.eval session.env with
      | ok result => simp only [Session.define_true_eq h]
      | error fault => rfl
  | _ => rfl

/-- No scope is open before any of the statements of a program, so each of them may have an assignment
in place of a declaration. -/
theorem Program.exec_undeclared (budget : Nat) (program : Program) (h : session.env.depth = 0) :
    exec budget (program.map Stmt.undeclared) session = exec budget program session := by
  induction program using exec.induct generalizing session with
  | case1 => rfl
  | case2 span value => rfl
  | case3 tree rest hlast ih =>
    have hlast' : ∀ span value, tree.undeclared = .expr span value →
        rest.map Stmt.undeclared = [] → False := by
      intro span value htree hrest
      cases tree with
      | expr span value => exact hlast _ _ rfl (List.map_eq_nil_iff.1 hrest)
      | _ => cases htree
    rw [exec.eq_3 _ _ _ hlast, List.map_cons, exec.eq_3 _ _ _ hlast', Exec.bind_apply,
      Exec.bind_apply, tree.exec_undeclared budget h]
    have hkeeps := tree.keeps_exec budget session
    cases houtcome : tree.exec budget session with
    | done _ middle =>
      rw [houtcome] at hkeeps
      exact ih (hkeeps.depth_eq.trans h)
    | failed | unfinished => rfl

theorem Program.run_undeclared (budget : Nat) (program : Program) (h : session.env.depth = 0) :
    run budget (program.map Stmt.undeclared) session = run budget program session := by
  rw [run_eq_conclude, run_eq_conclude, List.length_map]
  exact congrArg conclude (program.exec_undeclared budget h)

/-! ## Globals are found -/

theorem Env.contains_globalFrame_define (h : env.globalFrame.contains name) (isLocal : Bool)
    (other : String) (value : Value) :
    (env.define isLocal other value).globalFrame.contains name := by
  have hkept : env.Kept [other] [other] (env.define isLocal other value) := by
    apply Env.Kept.define
    · exact fun _ ↦ List.mem_singleton_self other
    · exact fun _ ↦ List.mem_singleton_self other
  have hglobals := hkept.globalFrame (List.Subset.refl _) (List.Subset.refl _)
  exact hglobals.keeps name h

theorem Env.isSome_lookup (h : env.globalFrame.contains name) :
    (env.lookup name).isSome := by
  induction env with
  | globals frame => exact h
  | scope frame outer ih => rw [lookup, Option.isSome_or, ih h, Bool.or_true]

/-- A global is not lost, so that its name always has a value. -/
def Contract.global (name : String) : Contract where
  invariant env := env.globalFrame.contains name
  admits _ := True
  missing other := other ≠ name
  endless := True
  enter h := h
  exit {env} h := by
    cases env with
    | globals frame => exact h
    | scope frame outer => exact h
  define h _ isLocal other := Env.contains_globalFrame_define h isLocal other _
  lookup _ _ := trivial
  undefined h hnone hname := by
    have hsome := Env.isSome_lookup h
    rw [← hname, hnone] at hsome
    cases hsome
  unary _ _ := trivial
  binary _ _ _ := trivial
  integer _ := trivial
  double _ := ⟨trivial, fun _ ↦ trivial⟩

/-- The name is that of a global, and no program fails in the session because the name has no value. -/
def Session.Resolves (session : Session) (name : String) : Prop :=
  session.env.globalFrame.contains name ∧ ∀ budget program fault failed,
    Program.run budget program session = .failed fault failed → fault.error ≠ .notDefined name

theorem Session.resolves (h : session.env.globalFrame.contains name) : session.Resolves name := by
  refine ⟨h, fun budget program fault failed hrun hname ↦ ?_⟩
  have hmeets := (Contract.global name).governs_run budget program (fun _ _ ↦ trivial)
    (fun _ ↦ trivial) session h
  rw [hrun] at hmeets
  exact hmeets.1 name hname rfl

theorem Program.Ends.keeps_globals (h : program.Ends session (.ended result final))
    (hname : session.env.globalFrame.contains name) : final.env.globalFrame.contains name := by
  obtain ⟨-, budget, hrun⟩ := h
  exact (kept_of_run hrun).keeps name hname

/-- A global that there is after some statements of a program is still one after the last of them. -/
theorem Program.exec_keeps_reached {first second : Program} {budget : Nat} {middle : Session}
    (h : exec budget (first ++ second) session = .ended result final)
    (hmiddle : Stmt.execAll budget first session = .done () middle)
    (hname : middle.env.globalFrame.contains name) : final.env.globalFrame.contains name := by
  have hall := execAll_eq_ended h
  rw [Stmt.execAll_append, hmiddle, Outcome.bind_done] at hall
  exact (Stmt.kept_of_execAll hall).keeps name hname

theorem Program.Ends.keeps_reached {first second : Program} {budget : Nat} {middle : Session}
    (h : Program.Ends (first ++ second) session (.ended result final))
    (hmiddle : Stmt.execAll budget first session = .done () middle)
    (hname : middle.env.globalFrame.contains name) : final.env.globalFrame.contains name := by
  obtain ⟨least, hrun⟩ := h.run_eq
  -- Within the larger budget both executions come to their ends.
  have hfirst : Stmt.execAll (max least budget) first session = .done () middle := by
    rw [← hmiddle]
    apply Stmt.execAll_below (Nat.le_max_right least budget)
    rw [hmiddle]
    exact nofun
  obtain ⟨inner, hexec, hglobals⟩ := exec_eq_ended_of_run (hrun _ (Nat.le_max_left least budget))
  -- A run records its beginning, which the statements do not notice.
  have hnote := Session.env_note session (.evaluating (first ++ second).length)
  have hmatch := Stmt.execAll_matches (max least budget) first id hnote.symm
  rw [Stmt.mapAll_id, hfirst] at hmatch
  obtain ⟨middle', hmiddle', henv⟩ := hmatch.of_done
  rw [hglobals]
  apply exec_keeps_reached hexec hmiddle'
  rwa [← henv]

/-! ## Sessions that behave alike -/

theorem Outcome.Matches.of_ended {outcome : Outcome (Option Value)}
    (h : (Outcome.ended result session).Matches id outcome) :
    ∃ session', outcome = .ended result session' ∧ session.env = session'.env := by
  cases result with
  | ok value => exact h.of_done
  | error fault => exact h.of_failed

theorem Program.run_matches_id (budget : Nat) (program : Program)
    (h : session.env = session'.env) :
    (run budget program session).Matches id (run budget program session') := by
  have hmatches := run_matches budget program id h
  rwa [map_map_id] at hmatches

/-- A program that ends in one session ends in every other with the same environment. -/
theorem Program.Ends.of_env_eq (h : program.Ends session (.ended result final))
    (henv : session.env = session'.env) :
    ∃ final', program.Ends session' (.ended result final') ∧ final.env = final'.env := by
  obtain ⟨-, budget, hrun⟩ := h
  have hmatches := run_matches_id budget program henv
  rw [hrun] at hmatches
  obtain ⟨final', hrun', hfinal⟩ := hmatches.of_ended
  have hends : program.Ends session' (.ended result final') :=
    ⟨Outcome.ended_ne_unfinished result final', budget, hrun'⟩
  exact ⟨final', hends, hfinal⟩

theorem Session.Runs.of_env_eq (h : session.Runs turns final)
    (henv : session.env = session'.env) :
    ∃ final', session'.Runs turns final' ∧ final.env = final'.env := by
  induction h generalizing session' with
  | nil session => exact ⟨session', .nil session', henv⟩
  | cons h _ ih =>
    obtain ⟨middle', hends, hmiddle⟩ := h.of_env_eq henv
    obtain ⟨final', hruns, hfinal⟩ := ih hmiddle
    exact ⟨final', .cons hends hruns, hfinal⟩

/-- Whatever programs are run in the one session have the same results in the other and leave the same
environment. Any program that is run after them does the same in both, or neither comes to an end. -/
def Session.BehavesLike (session session' : Session) : Prop :=
  ∀ turns final, session.Runs turns final →
    ∃ final', session'.Runs turns final' ∧ final.env = final'.env ∧
      ∀ budget program, (Program.run budget program final).Matches id
        (Program.run budget program final')

/-- Only the environment has an influence on programs. -/
theorem Session.behavesLike_of_env_eq (h : session.env = session'.env) :
    session.BehavesLike session' := by
  intro turns final hruns
  obtain ⟨final', hruns', henv⟩ := hruns.of_env_eq h
  exact ⟨final', hruns', henv, fun budget program ↦ program.run_matches_id budget henv⟩

/-! ## Between two programs -/

/-- What a program can rely on when it is run in a session. -/
structure Session.Settled (session : Session) : Prop where
  /-- The globals are the only frame. -/
  frames : session.env.frames.length = 1
  /-- A declaration at the top of a program does what an assignment does. -/
  undeclared : ∀ budget program, Program.run budget (program.map Stmt.undeclared) session =
    Program.run budget program session
  /-- A global is one for ever, and found by every later program. -/
  resolves : ∀ turns final, session.Runs turns final →
    ∀ name, session.env.globalFrame.contains name → final.Resolves name
  /-- What has a value between two statements of a program is a global after it, even if it fails. -/
  reached : ∀ budget first middle, Stmt.execAll budget first session = .done () middle →
    ∀ name, (middle.env.lookup name).isSome →
      ∀ second result final, Program.Ends (first ++ second) session (.ended result final) →
        final.env.globalFrame.contains name
  /-- Programs behave as in a new session with the same globals. -/
  like_new : ∀ recorded,
    session.BehavesLike (.ofGlobals session.env.globalFrame recorded) ∧
      (Session.ofGlobals session.env.globalFrame recorded).BehavesLike session

/-- A session in which any programs have been run, and have ended or failed anywhere, is as good as a
new one. -/
theorem Session.Runs.settled {globals : Frame} {recorded : Bool}
    (h : (Session.ofGlobals globals recorded).Runs turns session) : session.Settled := by
  have hdepth : session.env.depth = 0 := by
    apply h.preserves
    · exact Program.Ends.depth_eq_zero
    · rfl
  constructor
  · rw [Env.length_frames, hdepth]
  · exact fun budget program ↦ program.run_undeclared budget hdepth
  · intro turns final hruns name hname
    apply Session.resolves
    apply hruns.preserves
    · exact fun hends hglobal ↦ hends.keeps_globals hglobal
    · exact hname
  · intro budget first middle hmiddle name hname second result final hends
    apply hends.keeps_reached hmiddle
    have hmiddle' : middle.env.depth = 0 := (Stmt.depth_of_execAll hmiddle).trans hdepth
    rwa [Env.contains_globalFrame hmiddle']
  · intro recorded
    have henv := Env.eq_globals hdepth
    exact ⟨behavesLike_of_env_eq henv, behavesLike_of_env_eq henv.symm⟩

/-- The failure of `a = 1; do local b = 2; c = b + missing; end` leaves a session with a global. -/
theorem Session.Runs.settled_failing :
    ∃ session, (Session.ofGlobals .empty false).Runs
      [([.assign ⟨0, 6⟩ false "a" (.literal ⟨4, 5⟩ (.number (.int 1))),
        .block ⟨7, 43⟩ [.assign ⟨10, 22⟩ true "b" (.literal ⟨20, 21⟩ (.number (.int 2))),
          .assign ⟨23, 39⟩ false "c" (.binary ⟨27, 38⟩ (.arithmetic .add) (.name ⟨27, 28⟩ "b")
            (.name ⟨31, 38⟩ "missing"))]], .error ⟨.notDefined "missing", ⟨31, 38⟩⟩)] session ∧
      session.env.frames.length = 1 ∧ session.Resolves "a" ∧
      (Session.ofGlobals session.env.globalFrame true).BehavesLike session := by
  have hruns : (Session.ofGlobals .empty false).Runs
      [([.assign ⟨0, 6⟩ false "a" (.literal ⟨4, 5⟩ (.number (.int 1))),
        .block ⟨7, 43⟩ [.assign ⟨10, 22⟩ true "b" (.literal ⟨20, 21⟩ (.number (.int 2))),
          .assign ⟨23, 39⟩ false "c" (.binary ⟨27, 38⟩ (.arithmetic .add) (.name ⟨27, 28⟩ "b")
            (.name ⟨31, 38⟩ "missing"))]], .error ⟨.notDefined "missing", ⟨31, 38⟩⟩)] _ :=
    .cons ⟨Outcome.ended_ne_unfinished _ _, 0, rfl⟩ (.nil _)
  have hsettled := Session.Runs.settled hruns
  refine ⟨_, hruns, hsettled.frames, ?_, (hsettled.like_new true).2⟩
  exact hsettled.resolves [] _ (.nil _) "a" rfl

end ScopeScript
