import ScopeScript.Eval.Program

/-!
# What a fault may blame

A fault of an execution blames a part of the program: a name for having no value, a call for its callee,
and any other part for something that is no matter of names. The parts that may be blamed are listed in
the order in which they are evaluated, so those of an execution are those of its steps one after the
other. The bodies of functions are never executed, so nothing in them is blamed.
-/

namespace ScopeScript

/-! ## Suspects -/

/-- A part of a program that a fault may blame, and where it stands. -/
inductive Suspect where
  | name (span : Span) (name : String)
  | call (span : Span) (callee : String)
  | other (span : Span)

/-- The fault blames the suspect for something that can be wrong with it. -/
inductive Suspect.Explains : Suspect → Fault → Prop
  | undefinedName (span : Span) (name : String) : Explains (.name span name) ⟨.notDefined name, span⟩
  | undefinedCallee (span : Span) (callee : String) :
      Explains (.call span callee) ⟨.notDefined callee, span⟩
  | notCallable (span : Span) (callee type : String) :
      Explains (.call span callee) ⟨.notCallable type, span⟩
  | other {error : Error} (span : Span) (h : error.category ∉ [.syntaxError, .nameError]) :
      Explains (.other span) ⟨error, span⟩

mutual

/-- The parts of an expression that may be blamed. -/
def Expr.suspects : Expr → List Suspect
  | .literal _ _ => []
  | .name span identifier => [.name span identifier]
  | .group _ inner => inner.suspects
  | .unary span _ operand => operand.suspects ++ [.other span]
  | .binary span _ left right => left.suspects ++ (right.suspects ++ [.other span])
  | .call span callee arguments => Expr.suspectsAll arguments ++ [.call span callee]
  | .function span _ _ _ => [.other span]

/-- The parts of expressions that may be blamed. -/
def Expr.suspectsAll : List Expr → List Suspect
  | [] => []
  | expression :: rest => expression.suspects ++ Expr.suspectsAll rest

end

/-- The parts of a bound that may be blamed: also the whole, for not being a number. -/
def Expr.boundSuspects (bound : Expr) : List Suspect := bound.suspects ++ [.other bound.span]

/-- The parts of a step that may be blamed, if it is written. -/
def Expr.stepSuspects : Option Expr → List Suspect
  | none => []
  | some step => step.boundSuspects

mutual

/-- The parts of a statement that may be blamed. A step that is not written would be blamed where the
variable is bound. -/
def Stmt.suspects : Stmt → List Suspect
  | .assign _ _ _ value | .expr _ value => value.suspects
  | .block _ body => Stmt.suspectsAll body
  | .forLoop _ initSpan _ init limit step body =>
    (init.boundSuspects ++ (limit.boundSuspects ++ (Expr.stepSuspects step ++
      [.other ((step.map Expr.span).getD initSpan)]))) ++ Stmt.suspectsAll body
  | .ifElse _ condition thenBody elseBody =>
    condition.suspects ++ (Stmt.suspectsAll thenBody ++ Stmt.suspectsAll elseBody)
  | .return_ span value => value.suspects ++ [.other span]
  | .whileLoop _ condition body => condition.suspects ++ Stmt.suspectsAll body

/-- The parts of statements that may be blamed. -/
def Stmt.suspectsAll : List Stmt → List Suspect
  | [] => []
  | statement :: rest => statement.suspects ++ Stmt.suspectsAll rest

end

/-! ## Expressions -/

section

variable {α β : Type} {suspects others : List Suspect}

/-- One of the suspects explains the fault. -/
def Explained (suspects : List Suspect) (fault : Fault) : Prop :=
  ∃ suspect ∈ suspects, suspect.Explains fault

theorem Explained.mono {fault : Fault} (h : Explained suspects fault) (hsub : suspects ⊆ others) :
    Explained others fault := by
  obtain ⟨suspect, hmem, hexplains⟩ := h
  exact ⟨suspect, hsub hmem, hexplains⟩

theorem explained_singleton {suspect : Suspect} {fault : Fault} (h : suspect.Explains fault) :
    Explained [suspect] fault :=
  ⟨suspect, List.mem_singleton_self suspect, h⟩

/-- If the result is a fault, one of the suspects explains it. -/
def FaultsAmong (suspects : List Suspect) : Except Fault α → Prop
  | .ok _ => True
  | .error fault => Explained suspects fault

theorem FaultsAmong.bind {result : Except Fault α} {next : α → Except Fault β}
    (h : FaultsAmong suspects result) (hnext : ∀ value, FaultsAmong others (next value)) :
    FaultsAmong (suspects ++ others) (result >>= next) := by
  cases result with
  | ok value =>
    change FaultsAmong _ (next value)
    have hvalue := hnext value
    cases hresult : next value with
    | ok value' => trivial
    | error fault =>
      rw [hresult] at hvalue
      exact hvalue.mono (List.subset_append_right suspects others)
  | error fault => exact Explained.mono h (List.subset_append_left suspects others)

theorem faultsAmong_other (span : Span) {error : Error}
    (h : error.category ∉ [.syntaxError, .nameError]) :
    FaultsAmong [.other span] (.error ⟨error, span⟩ : Except Fault α) :=
  explained_singleton (.other span h)

theorem faultsAmong_blaming (span : Span) {result : Except Error α}
    (h : ∀ error, result = .error error → error.category ∉ [.syntaxError, .nameError]) :
    FaultsAmong [.other span] (blaming span result) := by
  cases result with
  | ok value => trivial
  | error error => exact faultsAmong_other span (h error rfl)

end

/-- A unary operator complains about types only. -/
theorem UnaryOp.category_of_error {operator : UnaryOp} {operand : Value} {error : Error}
    (h : operator.apply operand = .error error) :
    error.category ∉ [.syntaxError, .nameError] := by
  unfold UnaryOp.apply at h
  split at h <;> cases h
  simp [Error.category]

/-- A binary operator complains about types and about divisions only. -/
theorem BinaryOp.category_of_error {operator : BinaryOp} {left right : Value} {error : Error}
    (h : operator.apply left right = .error error) :
    error.category ∉ [.syntaxError, .nameError] := by
  unfold BinaryOp.apply at h
  split at h
  case h_7 =>
    split at h <;> cases h
    simp [Error.category]
  case h_8 =>
    cases h
    simp [Error.category]
  all_goals cases h

theorem explains_callError (env : Env) (span : Span) (callee : String) :
    (Suspect.call span callee).Explains ⟨callError env callee, span⟩ := by
  rw [callError]
  cases env.lookup callee with
  | none => exact .undefinedCallee span callee
  | some value => exact .notCallable span callee value.typeName

mutual

/-- A fault of an expression blames a part of it. -/
theorem faultsAmong_eval (env : Env) (tree : Expr) : FaultsAmong tree.suspects (tree.eval env) := by
  match tree with
  | .literal span value => trivial
  | .name span identifier =>
    rw [Expr.eval]
    cases env.lookup identifier with
    | none => exact explained_singleton (.undefinedName span identifier)
    | some value => trivial
  | .group span inner => exact faultsAmong_eval env inner
  | .unary span operator operand =>
    refine (faultsAmong_eval env operand).bind fun value ↦ ?_
    exact faultsAmong_blaming span fun _ ↦ UnaryOp.category_of_error
  | .binary span operator left right =>
    refine (faultsAmong_eval env left).bind fun value ↦ ?_
    split
    · trivial
    refine (faultsAmong_eval env right).bind fun value' ↦ ?_
    exact faultsAmong_blaming span fun _ ↦ BinaryOp.category_of_error
  | .call span callee arguments =>
    refine (faultsAmong_evalAll env arguments).bind fun _ ↦ ?_
    exact explained_singleton (explains_callError env span callee)
  | .function span name parameters body =>
    exact faultsAmong_other span (by simp [Error.category])

theorem faultsAmong_evalAll (env : Env) (trees : List Expr) :
    FaultsAmong (Expr.suspectsAll trees) (Expr.evalAll env trees) := by
  match trees with
  | [] => trivial
  | tree :: rest => exact (faultsAmong_eval env tree).bind fun _ ↦ faultsAmong_evalAll env rest

end

/-! ## Bounds of loops -/

theorem faultsAmong_evalBound (env : Env) (role : String) (bound : Expr) :
    FaultsAmong bound.boundSuspects (bound.evalBound env role) := by
  refine (faultsAmong_eval env bound).bind fun value ↦ ?_
  cases value with
  | number value => trivial
  | nil | bool | string =>
    exact faultsAmong_other bound.span (by simp [Error.category])

theorem faultsAmong_evalRounds (env : Env) (initSpan : Span) (init limit : Expr)
    (step : Option Expr) :
    FaultsAmong (init.boundSuspects ++ (limit.boundSuspects ++ (Expr.stepSuspects step ++
      [.other ((step.map Expr.span).getD initSpan)])))
      (Expr.evalRounds env initSpan init limit step) := by
  refine (faultsAmong_evalBound env _ init).bind fun first ↦ ?_
  refine (faultsAmong_evalBound env _ limit).bind fun last ↦ ?_
  have hzero : FaultsAmong [.other ((step.map Expr.span).getD initSpan)]
      (.error ⟨.zeroStep, (step.map Expr.span).getD initSpan⟩ : Except Fault Rounds) :=
    faultsAmong_other _ (by simp [Error.category])
  have hone : FaultsAmong [] (.ok (.int 1) : Except Fault Number) := trivial
  cases step
  case' none => apply hone.bind
  case' some step => apply (faultsAmong_evalBound env _ step).bind
  all_goals
    intro stride
    dsimp only
    split
    · trivial
    · exact hzero

/-! ## Executions -/

/-- If the outcome is a failure, one of the suspects explains it. -/
def Outcome.FaultsAmong {α : Type} (suspects : List Suspect) : Outcome α → Prop
  | failed fault _ => Explained suspects fault
  | _ => True

/-- One of the suspects explains every failure of the execution. -/
def Exec.FaultsAmong {α : Type} (suspects : List Suspect) (exec : Exec α) : Prop :=
  ∀ session, (exec session).FaultsAmong suspects

variable {α β : Type} {suspects others : List Suspect}

theorem Outcome.FaultsAmong.mono {outcome : Outcome α} (h : outcome.FaultsAmong suspects)
    (hsub : suspects ⊆ others) : outcome.FaultsAmong others := by
  cases outcome with
  | done | unfinished => trivial
  | failed fault session => exact Explained.mono h hsub

theorem Outcome.FaultsAmong.bind {outcome : Outcome α} {next : α → Session → Outcome β}
    (h : outcome.FaultsAmong suspects)
    (hnext : ∀ value session, (next value session).FaultsAmong suspects) :
    (outcome.bind next).FaultsAmong suspects := by
  cases outcome with
  | done value session => exact hnext value session
  | failed fault session => exact h
  | unfinished => trivial

namespace Exec

theorem FaultsAmong.mono {exec : Exec α} (h : exec.FaultsAmong suspects) (hsub : suspects ⊆ others) :
    exec.FaultsAmong others :=
  fun session ↦ (h session).mono hsub

theorem FaultsAmong.bind {exec : Exec α} {next : α → Exec β} (h : exec.FaultsAmong suspects)
    (hnext : ∀ value, (next value).FaultsAmong others) :
    (exec >>= next).FaultsAmong (suspects ++ others) := by
  have hleft := h.mono (List.subset_append_left suspects others)
  exact fun session ↦ (hleft session).bind fun value session ↦
    (hnext value session).mono (List.subset_append_right suspects others)

theorem faultsAmong_pure (value : α) : (pure value : Exec α).FaultsAmong suspects :=
  fun _ ↦ trivial

theorem faultsAmong_fail {fault : Fault} (h : Explained suspects fault) :
    (fail fault : Exec α).FaultsAmong suspects :=
  fun _ ↦ h

theorem faultsAmong_read {view : Env → Except Fault α}
    (h : ∀ env, ScopeScript.FaultsAmong suspects (view env)) : (read view).FaultsAmong suspects := by
  intro session
  have hview := h session.env
  rw [read]
  cases hresult : view session.env with
  | ok value => trivial
  | error fault =>
    rw [hresult] at hview
    exact hview

theorem FaultsAmong.inScope {body : Exec Unit} (h : body.FaultsAmong suspects) :
    (inScope body).FaultsAmong suspects :=
  fun session ↦ (h session.enter).bind fun _ _ ↦ trivial

theorem FaultsAmong.round {body : Exec Unit} (h : body.FaultsAmong suspects) (name : String)
    (value : Number) : (round name body value).FaultsAmong suspects := by
  apply FaultsAmong.inScope
  exact fun session ↦ h.inScope (session.define true name (.number value))

theorem FaultsAmong.repeatWhile {condition : Exec Bool} {body : Exec Unit}
    (hcondition : condition.FaultsAmong suspects) (hbody : body.FaultsAmong suspects) (budget : Nat) :
    FaultsAmong suspects (repeatWhile condition body budget) := by
  induction budget with
  | zero => exact fun _ ↦ trivial
  | succ budget ih =>
    refine fun session ↦ (hcondition session).bind fun holds middle ↦ ?_
    cases holds with
    | false => trivial
    | true => exact (hbody middle).bind fun _ ↦ ih

theorem FaultsAmong.forIntegers {body : Number → Exec Unit}
    (hbody : ∀ value, (body value).FaultsAmong suspects) (step : Int) (count : Nat) (value : Int) :
    FaultsAmong suspects (forIntegers body step count value) := by
  induction count generalizing value with
  | zero => exact fun _ ↦ trivial
  | succ count ih => exact fun session ↦ (hbody _ session).bind fun _ ↦ ih (value + step)

theorem FaultsAmong.forDoubles {body : Number → Exec Unit}
    (hbody : ∀ value, (body value).FaultsAmong suspects) (isWithin : Float → Bool) (step : Float)
    (budget : Nat) (value : Float) :
    FaultsAmong suspects (forDoubles body isWithin step budget value) := by
  induction budget generalizing value with
  | zero => exact fun _ ↦ trivial
  | succ budget ih =>
    intro session
    rw [Exec.forDoubles]
    split
    · exact (hbody _ session).bind fun _ ↦ ih (value + step)
    · trivial

theorem FaultsAmong.rounds {body : Number → Exec Unit}
    (hbody : ∀ value, (body value).FaultsAmong suspects) (budget : Nat) (rounds : Rounds) :
    (rounds.exec budget body).FaultsAmong suspects := by
  cases rounds with
  | integers start step count => exact .forIntegers hbody step count start
  | doubles start limit step => exact .forDoubles hbody _ step budget start

end Exec

/-! ## Statements -/

open Exec

/-- A fault of reading a value blames a part of its expression. -/
theorem faultsAmong_read_eval (tree : Expr) : (read tree.eval).FaultsAmong tree.suspects :=
  faultsAmong_read fun env ↦ faultsAmong_eval env tree

mutual

/-- A fault of a statement blames a part of it. -/
theorem faultsAmong_exec (budget : Nat) (tree : Stmt) :
    (tree.exec budget).FaultsAmong tree.suspects := by
  match tree with
  | .assign span isLocal name value =>
    exact fun session ↦ (faultsAmong_read_eval value session).bind fun _ _ ↦ trivial
  | .block span body => exact (faultsAmong_execAll budget body).inScope
  | .expr span value =>
    exact fun session ↦ (faultsAmong_read_eval value session).bind fun _ _ ↦ trivial
  | .forLoop span initSpan name init limit step body =>
    have hrounds := faultsAmong_read fun env ↦ faultsAmong_evalRounds env initSpan init limit step
    have hbody := faultsAmong_execAll budget body
    exact hrounds.bind fun rounds ↦ .rounds (hbody.round name) budget rounds
  | .ifElse span condition thenBody elseBody =>
    refine (faultsAmong_read_eval condition).bind fun value ↦ ?_
    split
    · exact (faultsAmong_execAll budget thenBody).inScope.mono (List.subset_append_left _ _)
    · exact (faultsAmong_execAll budget elseBody).inScope.mono (List.subset_append_right _ _)
  | .return_ span value =>
    refine (faultsAmong_read_eval value).bind fun _ ↦ faultsAmong_fail (explained_singleton ?_)
    exact .other span (by simp [Error.category])
  | .whileLoop span condition body =>
    have hcondition : (Value.isTrue <$> read condition.eval).FaultsAmong condition.suspects :=
      fun session ↦ (faultsAmong_read_eval condition session).bind fun _ _ ↦ trivial
    have hbody := (faultsAmong_execAll budget body).inScope
    exact .repeatWhile (hcondition.mono (List.subset_append_left _ _))
      (hbody.mono (List.subset_append_right _ _)) budget

theorem faultsAmong_execAll (budget : Nat) (trees : List Stmt) :
    (Stmt.execAll budget trees).FaultsAmong (Stmt.suspectsAll trees) := by
  match trees with
  | [] => exact faultsAmong_pure ()
  | tree :: rest => exact (faultsAmong_exec budget tree).bind fun _ ↦ faultsAmong_execAll budget rest

end

/-! ## Programs -/

namespace Program

theorem faultsAmong_program (budget : Nat) (program : Program) :
    (exec budget program).FaultsAmong (Stmt.suspectsAll program) := by
  induction program using exec.induct with
  | case1 => exact faultsAmong_pure none
  | case2 span value =>
    have hvalue : (some <$> read value.eval).FaultsAmong value.suspects :=
      fun session ↦ (faultsAmong_read_eval value session).bind fun _ _ ↦ trivial
    exact hvalue.mono (List.subset_append_left _ _)
  | case3 tree rest hlast ih =>
    rw [exec.eq_3 _ _ _ hlast]
    exact (faultsAmong_exec budget tree).bind fun _ ↦ ih

/-- A fault of a run blames a part of the program. -/
theorem explained_of_run {budget : Nat} {program : Program} {session after : Session} {fault : Fault}
    (h : run budget program session = .failed fault after) :
    Explained (Stmt.suspectsAll program) fault := by
  have hexec := faultsAmong_program budget program (session.note (.evaluating program.length))
  rw [run] at h
  cases houtcome : exec budget program (session.note (.evaluating program.length)) with
  | done | unfinished =>
    rw [houtcome] at h
    cases h
  | failed fault' final =>
    rw [houtcome] at h hexec
    cases h
    exact hexec

end Program

end ScopeScript
