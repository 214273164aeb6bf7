import ScopeScript.Proofs.Eval.Budget
import ScopeScript.Proofs.Eval.Correspondence

/-!
# Programs one after the other

Running two programs in one session is running the statements of both as one program. The environment
is all that the second run takes over from the first: what was recorded has no influence, no scope
stays open, and only the last statement of all is asked for its value. If the first program fails,
the second does not count.
-/

namespace ScopeScript

/-- Executions that start in the same environment. -/
theorem Env.correspondence_eq :
    Env.Correspondence id (fun _ ↦ True) (fun _ env env' ↦ env = env') where
  enter h := congrArg Env.enter h
  exit h := congrArg Env.exit h
  define _ h _ _ := congrArg _ h
  lookup {_ _ _ name} _ h := congrArg (Env.lookup name) h.symm
  undefined _ _ _ := rfl

/-- The outcomes are the same but for the records, and the second blames other spans. -/
def Outcome.Matches {α : Type} (place : Span → Span) (outcome outcome' : Outcome α) : Prop :=
  outcome.Follows (fun _ env env' ↦ env = env') place 0 outcome'

theorem Outcome.Matches.of_done {α : Type} {place : Span → Span} {value : α} {session : Session}
    {outcome : Outcome α} (h : (Outcome.done value session).Matches place outcome) :
    ∃ session', outcome = .done value session' ∧ session.env = session'.env := by
  cases outcome with
  | done value' session' =>
    obtain ⟨rfl, henv⟩ := h
    exact ⟨session', rfl, henv⟩
  | failed | unfinished => exact h.elim

theorem Outcome.Matches.of_failed {α : Type} {place : Span → Span} {fault : Fault}
    {session : Session} {outcome : Outcome α}
    (h : (Outcome.failed fault session).Matches place outcome) :
    ∃ session', outcome = .failed (fault.map place) session' ∧ session.env = session'.env := by
  cases outcome with
  | failed fault' session' =>
    obtain ⟨rfl, -, henv⟩ := h
    exact ⟨session', rfl, henv⟩
  | done | unfinished => exact h.elim

namespace Stmt

variable {place : Span → Span} {session session' : Session}

theorem execAll_append (budget : Nat) (trees others : List Stmt) (session : Session) :
    Stmt.execAll budget (trees ++ others) session =
      (Stmt.execAll budget trees session).bind fun _ middle ↦ Stmt.execAll budget others middle := by
  induction trees generalizing session with
  | nil => rfl
  | cons tree rest ih =>
    rw [List.cons_append, execAll_cons_apply, execAll_cons_apply, Outcome.bind_assoc]
    simp only [ih]

/-- Statements do the same in two sessions with one environment, wherever they stand. -/
theorem execAll_matches (budget : Nat) (trees : List Stmt) (place : Span → Span)
    (h : session.env = session'.env) :
    (Stmt.execAll budget trees session).Matches place
      (Stmt.execAll budget (Stmt.mapAll id place trees) session') :=
  Stmt.follows_execAll Env.correspondence_eq budget trees (fun _ _ ↦ trivial) 0 h

end Stmt

namespace Program

variable {budget : Nat}

theorem exec_cons {tree : Stmt} {rest : Program} (hrest : rest ≠ []) :
    exec budget (tree :: rest) = (do
      tree.exec budget
      exec budget rest) :=
  exec.eq_3 _ _ _ fun _ _ _ hnil ↦ hrest hnil

theorem exec_expr_apply (span : Span) (value : Expr) (session : Session) :
    exec budget [.expr span value] session =
      match value.eval session.env with
      | .ok result => .done (some result) session
      | .error fault => .failed fault session := by
  change (Exec.read value.eval session).bind _ = _
  rw [Exec.read]
  cases value.eval session.env <;> rfl

/-- Executing a program is executing its statements and asking the last one for its value. -/
theorem execAll_eq_exec (program : Program) (session : Session) :
    Stmt.execAll budget program session =
      (exec budget program session).bind fun _ final ↦ .done () final := by
  induction program using exec.induct generalizing session with
  | case1 => rfl
  | case2 span value =>
    rw [exec_expr_apply, Stmt.execAll_cons_apply, Stmt.exec_expr_apply]
    cases value.eval session.env <;> rfl
  | case3 tree rest hlast ih =>
    rw [exec.eq_3 _ _ _ hlast, Stmt.execAll_cons_apply, Exec.bind_apply]
    cases tree.exec budget session with
    | done _ middle => exact ih middle
    | failed | unfinished => rfl

/-- Only the last of all statements is asked for its value. -/
theorem exec_append (program : Program) {other : Program} (hother : other ≠ []) (session : Session) :
    exec budget (program ++ other) session =
      (Stmt.execAll budget program session).bind fun _ middle ↦ exec budget other middle := by
  induction program generalizing session with
  | nil => rfl
  | cons tree rest ih =>
    rw [List.cons_append, exec_cons (by simp [hother]), Exec.bind_apply, Stmt.execAll_cons_apply]
    cases tree.exec budget session with
    | done _ middle => exact ih middle
    | failed | unfinished => rfl

/-- A program and its counterpart are executed in step. -/
theorem follows_exec {rename : String → String} {allowed : String → Prop}
    {related : Nat → Env → Env → Prop} {place : Span → Span}
    (hrel : Env.Correspondence rename allowed related) (program : Program)
    (hnames : ∀ name ∈ Stmt.namesAll program, allowed name) (count : Nat) :
    Exec.Follows related place count count (exec budget program)
      (exec budget (program.map (Stmt.map rename place))) := by
  induction program using exec.induct with
  | case1 => exact Exec.follows_pure none
  | case2 span value =>
    simp only [Stmt.namesAll, Stmt.names, List.append_nil] at hnames
    exact (Exec.follows_eval hrel place count hnames).bind fun result ↦ Exec.follows_pure (some result)
  | case3 tree rest hlast ih =>
    simp only [Stmt.namesAll, List.mem_append, or_imp, forall_and] at hnames
    have hlast' : ∀ span value, tree.map rename place = .expr span value →
        rest.map (Stmt.map rename place) = [] → False := by
      intro span value htree hrest
      cases tree with
      | expr span value => exact hlast _ _ rfl (List.map_eq_nil_iff.1 hrest)
      | _ => cases htree
    rw [exec.eq_3 _ _ _ hlast, List.map_cons, exec.eq_3 _ _ _ hlast']
    exact (tree.follows_exec hrel budget hnames.1 count).bind fun _ ↦ ih hnames.2

/-- Programs do the same in two sessions with one environment, wherever they stand. -/
theorem exec_matches (program : Program) (place : Span → Span) {session session' : Session}
    (h : session.env = session'.env) :
    (exec budget program session).Matches place
      (exec budget (program.map (Stmt.map id place)) session') :=
  follows_exec Env.correspondence_eq program (fun _ _ ↦ trivial) 0 h

/-! ## Runs -/

/-- What a run makes of the outcome of its statements. -/
def conclude : Outcome (Option Value) → Outcome (Option Value)
  | .done value session => .done value (session.note .finished)
  | .failed fault session => .failed fault (session.note (.failed fault)).unwind
  | .unfinished => .unfinished

theorem run_eq_conclude (program : Program) (session : Session) :
    run budget program session =
      conclude (exec budget program (session.note (.evaluating program.length))) := by
  rw [run]
  cases exec budget program (session.note (.evaluating program.length)) <;> rfl

/-- Outcomes that agree still do when the scopes that a failure left open are closed. -/
theorem conclude_follows {related : Nat → Env → Env → Prop} {place : Span → Span}
    (hunwind : ∀ {count env env'}, related count env env' → related 0 env.unwind env'.unwind)
    {outcome outcome' : Outcome (Option Value)} (h : outcome.Follows related place 0 outcome') :
    (conclude outcome).Follows related place 0 (conclude outcome') := by
  cases h using Outcome.Follows.induct with
  | done value session session' henv => exact ⟨rfl, henv⟩
  | failed fault session session' inner henv => exact ⟨rfl, 0, hunwind henv⟩
  | unfinished => trivial

theorem conclude_matches {place : Span → Span} {outcome outcome' : Outcome (Option Value)}
    (h : outcome.Matches place outcome') : (conclude outcome).Matches place (conclude outcome') :=
  @conclude_follows (fun _ env env' ↦ env = env') place (fun henv ↦ congrArg Env.unwind henv) _ _ h

/-- Programs run alike in two sessions with one environment, wherever they stand. -/
theorem run_matches (budget : Nat) (program : Program) (place : Span → Span)
    {session session' : Session} (h : session.env = session'.env) :
    (run budget program session).Matches place
      (run budget (program.map (Stmt.map id place)) session') := by
  rw [run_eq_conclude, run_eq_conclude]
  exact conclude_matches (exec_matches program place h)

/-- The statements of a program, put before those of another, do what the program does alone. -/
theorem execAll_matches_exec (budget : Nat) (program : Program) {session session' : Session}
    (h : session.env = session'.env) :
    ((exec budget program session).bind fun _ final ↦ .done () final).Matches id
      (Stmt.execAll budget program session') := by
  rw [← execAll_eq_exec]
  have hmatch := Stmt.execAll_matches budget program id h
  rwa [Stmt.mapAll_id] at hmatch

theorem conclude_eq_failed {outcome : Outcome (Option Value)} {fault : Fault} {final : Session}
    (h : conclude outcome = .failed fault final) :
    ∃ session, outcome = .failed fault session ∧ final.env = session.env.unwind := by
  cases outcome with
  | failed fault session =>
    cases h
    exact ⟨session, rfl, rfl⟩
  | done | unfinished => cases h

theorem conclude_eq_done {outcome : Outcome (Option Value)} {value : Option Value} {final : Session}
    (h : conclude outcome = .done value final) :
    ∃ session, outcome = .done value session ∧ final.env = session.env := by
  cases outcome with
  | done value session =>
    cases h
    exact ⟨session, rfl, rfl⟩
  | failed | unfinished => cases h

/-- When a program fails, so does it with others behind it. -/
theorem run_append_of_failed {first : Program} {session failed : Session} {fault : Fault}
    (h : run budget first session = .failed fault failed) {other : Program} (hother : other ≠ []) :
    ∃ final, run budget (first ++ other) session = .failed fault final ∧ failed.env = final.env := by
  rw [run_eq_conclude] at h
  obtain ⟨middle, hexec, hfailed⟩ := conclude_eq_failed h
  have hstart : (session.note (.evaluating first.length)).env =
      (session.note (.evaluating (first ++ other).length)).env := rfl
  have hmatch := execAll_matches_exec budget first hstart
  rw [hexec] at hmatch
  obtain ⟨middle', hexec', henv⟩ := hmatch.of_failed
  rw [run_eq_conclude, exec_append first hother, hexec']
  exact ⟨_, rfl, hfailed.trans (congrArg Env.unwind henv)⟩

/-- When a program is done, the others behind it do what they do alone in the session that it leaves,
further down in the text. -/
theorem run_append_of_done {first : Program} {session middle : Session} {value : Option Value}
    (h : run budget first session = .done value middle) {second : Program} (hsecond : second ≠ [])
    (count : Nat) :
    (run budget second middle).Matches (Span.shift count)
      (run budget (first ++ second.shift count) session) := by
  have hshift : second.shift count ≠ [] := by simpa [shift] using hsecond
  rw [run_eq_conclude] at h
  obtain ⟨final, hexec, hmiddle⟩ := conclude_eq_done h
  have hstart : (session.note (.evaluating first.length)).env =
      (session.note (.evaluating (first ++ second.shift count).length)).env := rfl
  have hmatch := execAll_matches_exec budget first hstart
  rw [hexec] at hmatch
  obtain ⟨final', hexec', henv⟩ := hmatch.of_done
  rw [run_eq_conclude, run_eq_conclude, exec_append first hshift, hexec']
  exact conclude_matches (exec_matches second (Span.shift count) (hmiddle.trans henv))

/-! ## Runs that come to an end -/

theorem ends_append_of_failed {first : Program} {session failed : Session} {fault : Fault}
    (h : first.Ends session (.failed fault failed)) {other : Program} (hother : other ≠ []) :
    ∃ final, (first ++ other).Ends session (.failed fault final) ∧ failed.env = final.env := by
  obtain ⟨-, budget, hrun⟩ := h
  obtain ⟨final, hfinal, henv⟩ := run_append_of_failed hrun hother
  exact ⟨final, ⟨by simp, budget, hfinal⟩, henv⟩

/-- Both runs come to their ends within one budget, which then suffices for all statements. -/
theorem ends_append_of_done {first : Program} {session middle : Session} {value : Option Value}
    (h : first.Ends session (.done value middle)) {second : Program} (hsecond : second ≠ [])
    {outcome : Outcome (Option Value)} (h' : second.Ends middle outcome) (count : Nat) :
    ∃ outcome', (first ++ second.shift count).Ends session outcome' ∧
      outcome.Matches (Span.shift count) outcome' := by
  obtain ⟨least, hrun⟩ := h.run_eq
  obtain ⟨least', hrun'⟩ := h'.run_eq
  have hmatch := run_append_of_done (hrun _ (Nat.le_max_left least least')) hsecond count
  rw [hrun' _ (Nat.le_max_right least least')] at hmatch
  refine ⟨_, ⟨fun hunfinished ↦ ?_, _, rfl⟩, hmatch⟩
  rw [hunfinished] at hmatch
  cases outcome with
  | unfinished => exact h'.1 rfl
  | done | failed => exact hmatch.elim

end Program

end ScopeScript
