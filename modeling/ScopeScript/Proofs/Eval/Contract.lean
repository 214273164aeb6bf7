import ScopeScript.Eval.Program

/-!
# What comes up in an execution

A contract says which environments and values may come up in an execution, which names may turn out to
have no value, and whether the execution may go on for ever. If scopes, definitions, look-ups and
operators keep to it, then so does every tree whose literals do: by induction on the tree, and for a loop
on its rounds. The bodies of functions are never executed, so nothing is asked of them.
-/

namespace ScopeScript

/-! ## Literals and loops -/

mutual

/-- The values of the literals that an expression may evaluate. -/
def Expr.literals : Expr → List Value
  | .literal _ value => [value]
  | .name _ _ | .function _ _ _ _ => []
  | .group _ inner => inner.literals
  | .unary _ _ operand => operand.literals
  | .binary _ _ left right => left.literals ++ right.literals
  | .call _ _ arguments => Expr.literalsAll arguments

/-- The values of the literals that expressions may evaluate. -/
def Expr.literalsAll : List Expr → List Value
  | [] => []
  | expression :: rest => expression.literals ++ Expr.literalsAll rest

end

/-- The values of the literals of an expression that may be absent. -/
def Expr.literals? : Option Expr → List Value
  | none => []
  | some expression => expression.literals

mutual

/-- The values of the literals that a statement may evaluate. -/
def Stmt.literals : Stmt → List Value
  | .assign _ _ _ value | .expr _ value | .return_ _ value => value.literals
  | .block _ body => Stmt.literalsAll body
  | .forLoop _ _ _ init limit step body =>
    init.literals ++ limit.literals ++ Expr.literals? step ++ Stmt.literalsAll body
  | .ifElse _ condition thenBody elseBody =>
    condition.literals ++ Stmt.literalsAll thenBody ++ Stmt.literalsAll elseBody
  | .whileLoop _ condition body => condition.literals ++ Stmt.literalsAll body

/-- The values of the literals that statements may evaluate. -/
def Stmt.literalsAll : List Stmt → List Value
  | [] => []
  | statement :: rest => statement.literals ++ Stmt.literalsAll rest

end

mutual

/-- Whether a statement is a conditional loop or may execute one. -/
def Stmt.hasWhile : Stmt → Bool
  | .assign _ _ _ _ | .expr _ _ | .return_ _ _ => false
  | .block _ body | .forLoop _ _ _ _ _ _ body => Stmt.hasWhileAll body
  | .ifElse _ _ thenBody elseBody => Stmt.hasWhileAll thenBody || Stmt.hasWhileAll elseBody
  | .whileLoop _ _ _ => true

/-- Whether statements may execute a conditional loop. -/
def Stmt.hasWhileAll : List Stmt → Bool
  | [] => false
  | statement :: rest => statement.hasWhile || Stmt.hasWhileAll rest

end

/-! ## Contracts -/

/-- What may come up in an execution. -/
structure Contract where
  /-- The environments that may come up. -/
  invariant : Env → Prop
  /-- The values that may come up. -/
  admits : Value → Prop
  /-- The names that may turn out to have no value. -/
  missing : String → Prop
  /-- Whether the execution may go on for ever. -/
  endless : Prop
  enter : ∀ {env}, invariant env → invariant env.enter
  exit : ∀ {env}, invariant env → invariant env.exit
  define : ∀ {env value}, invariant env → admits value → ∀ isLocal name,
    invariant (env.define isLocal name value)
  lookup : ∀ {env name value}, invariant env → env.lookup name = some value → admits value
  undefined : ∀ {env name}, invariant env → env.lookup name = none → missing name
  unary : ∀ {operator : UnaryOp} {operand value}, admits operand →
    operator.apply operand = .ok value → admits value
  binary : ∀ {operator : BinaryOp} {left right value}, admits left → admits right →
    operator.apply left right = .ok value → admits value
  integer : ∀ value, admits (.number (.int value))
  /-- A loop that counts in doubles takes other ones, and may not reach its limit. -/
  double : ∀ {value}, admits (.number (.float value)) →
    endless ∧ ∀ other, admits (.number (.float other))

namespace Contract

variable (contract : Contract)

/-- The error does not say that another name has no value. -/
def Tolerates (error : Error) : Prop := ∀ name, error = .notDefined name → contract.missing name

/-- A value that is good, or an error that is tolerated. -/
def Grants {α : Type} (good : α → Prop) : Except Fault α → Prop
  | .ok value => good value
  | .error fault => contract.Tolerates fault.error

/-- An execution that is done with a good value or fails with an error that is tolerated, in an
environment that may come up. -/
def Meets {α : Type} (good : α → Prop) : Outcome α → Prop
  | .done value session => good value ∧ contract.invariant session.env
  | .failed fault session => contract.Tolerates fault.error ∧ contract.invariant session.env
  | .unfinished => contract.endless

/-- In every session that keeps to the contract so does the execution, and what is done has a good
value. -/
def Yields {α : Type} (good : α → Prop) (exec : Exec α) : Prop :=
  ∀ session, contract.invariant session.env → contract.Meets good (exec session)

/-- In every session that keeps to the contract so does the execution. -/
abbrev Governs {α : Type} (exec : Exec α) : Prop := contract.Yields (fun _ ↦ True) exec

variable {contract} {α β : Type} {good : α → Prop} {good' : β → Prop}

/-! ## Expressions -/

theorem Grants.bind {result : Except Fault α} {next : α → Except Fault β}
    (h : contract.Grants good result) (hnext : ∀ value, good value → contract.Grants good' (next value)) :
    contract.Grants good' (result >>= next) := by
  cases result with
  | ok value => exact hnext value h
  | error fault => exact h

theorem unary_ne_notDefined (operator : UnaryOp) (operand : Value) (name : String) :
    operator.apply operand ≠ .error (.notDefined name) := by
  cases operator <;> cases operand <;> simp [UnaryOp.apply]

theorem binary_ne_notDefined (operator : BinaryOp) (left right : Value) (name : String) :
    operator.apply left right ≠ .error (.notDefined name) := by
  intro h
  unfold BinaryOp.apply at h
  split at h
  case h_7 =>
    split at h
    · cases h
    · cases h
  all_goals cases h

theorem grants_blaming {span : Span} {result : Except Error Value}
    (hvalue : ∀ value, result = .ok value → contract.admits value)
    (herror : ∀ name, result ≠ .error (.notDefined name)) :
    contract.Grants contract.admits (blaming span result) := by
  cases result with
  | ok value => exact hvalue value rfl
  | error error =>
    intro name hname
    obtain rfl : error = .notDefined name := hname
    exact absurd rfl (herror name)

theorem tolerates_callError {env : Env} (h : contract.invariant env) (callee : String) :
    contract.Tolerates (callError env callee) := by
  intro name hname
  rw [callError] at hname
  cases hlookup : env.lookup callee with
  | none =>
    rw [hlookup] at hname
    cases hname
    exact contract.undefined h hlookup
  | some value =>
    rw [hlookup] at hname
    cases hname

mutual

/-- Expressions keep to a contract if their literals do. -/
theorem grants_eval {env : Env} (h : contract.invariant env) (tree : Expr)
    (hliterals : ∀ value ∈ tree.literals, contract.admits value) :
    contract.Grants contract.admits (tree.eval env) := by
  match tree with
  | .literal span value => exact hliterals value (List.mem_singleton_self value)
  | .name span identifier =>
    rw [Expr.eval]
    cases hlookup : env.lookup identifier with
    | none =>
      intro name hname
      cases hname
      exact contract.undefined h hlookup
    | some value => exact contract.lookup h hlookup
  | .group span inner => exact grants_eval h inner hliterals
  | .unary span operator operand =>
    refine (grants_eval h operand hliterals).bind fun value hvalue ↦ ?_
    apply grants_blaming
    · exact fun _ hresult ↦ contract.unary hvalue hresult
    · exact unary_ne_notDefined operator value
  | .binary span operator left right =>
    simp only [Expr.literals, List.mem_append, or_imp, forall_and] at hliterals
    refine (grants_eval h left hliterals.1).bind fun value hvalue ↦ ?_
    split
    · exact hvalue
    refine (grants_eval h right hliterals.2).bind fun value' hvalue' ↦ ?_
    apply grants_blaming
    · exact fun _ hresult ↦ contract.binary hvalue hvalue' hresult
    · exact binary_ne_notDefined operator value value'
  | .call span callee arguments =>
    exact (grants_evalAll h arguments hliterals).bind fun _ _ ↦ tolerates_callError h callee
  | .function span name parameters body => exact fun _ hname ↦ nomatch hname

theorem grants_evalAll {env : Env} (h : contract.invariant env) (trees : List Expr)
    (hliterals : ∀ value ∈ Expr.literalsAll trees, contract.admits value) :
    contract.Grants (fun _ ↦ True) (Expr.evalAll env trees) := by
  match trees with
  | [] => trivial
  | tree :: rest =>
    simp only [Expr.literalsAll, List.mem_append, or_imp, forall_and] at hliterals
    exact (grants_eval h tree hliterals.1).bind fun _ _ ↦ grants_evalAll h rest hliterals.2

end

/-! ## Bounds of loops -/

/-- The number may come up. -/
def AdmitsNumber (contract : Contract) (number : Number) : Prop := contract.admits (.number number)

/-- The rounds are counted in integers, or in doubles that may come up. -/
def AdmitsRounds (contract : Contract) : Rounds → Prop
  | .integers _ _ _ => True
  | .doubles _ _ _ => contract.endless ∧ ∀ value, contract.admits (.number (.float value))

theorem grants_evalBound {env : Env} (h : contract.invariant env) (role : String) (bound : Expr)
    (hliterals : ∀ value ∈ bound.literals, contract.admits value) :
    contract.Grants contract.AdmitsNumber (bound.evalBound env role) := by
  refine (grants_eval h bound hliterals).bind fun value hvalue ↦ ?_
  cases value with
  | number value => exact hvalue
  | nil | bool | string => exact fun _ hname ↦ nomatch hname

/-- Rounds are counted in doubles only if the start or the step is one. -/
theorem admitsRounds_ofBounds? {first last stride : Number} {rounds : Rounds}
    (hfirst : contract.AdmitsNumber first) (hstride : contract.AdmitsNumber stride)
    (h : Rounds.ofBounds? first last stride = some rounds) : contract.AdmitsRounds rounds := by
  cases rounds with
  | integers start step count => trivial
  | doubles start limit step =>
    cases first with
    | float value => exact contract.double hfirst
    | int value =>
      cases stride with
      | float value => exact contract.double hstride
      | int value =>
        rw [Rounds.ofBounds?] at h
        split at h <;> cases h

theorem grants_evalRounds {env : Env} (h : contract.invariant env) (initSpan : Span)
    (init limit : Expr) (step : Option Expr)
    (hinit : ∀ value ∈ init.literals, contract.admits value)
    (hlimit : ∀ value ∈ limit.literals, contract.admits value)
    (hstep : ∀ value ∈ Expr.literals? step, contract.admits value) :
    contract.Grants contract.AdmitsRounds (Expr.evalRounds env initSpan init limit step) := by
  refine (grants_evalBound h _ init hinit).bind fun first hfirst ↦ ?_
  refine (grants_evalBound h _ limit hlimit).bind fun last _ ↦ ?_
  have hone : contract.Grants contract.AdmitsNumber (.ok (.int 1)) := contract.integer 1
  cases step
  case' none => apply hone.bind
  case' some step => apply (grants_evalBound h _ step hstep).bind
  all_goals
    intro stride hstride
    dsimp only
    cases hrounds : Rounds.ofBounds? first last stride with
    | none => exact fun _ hname ↦ nomatch hname
    | some rounds => exact admitsRounds_ofBounds? hfirst hstride hrounds

/-! ## Executions -/

theorem Meets.bind {outcome : Outcome α} {next : α → Session → Outcome β}
    (h : contract.Meets good outcome)
    (hnext : ∀ value, good value → contract.Yields good' (next value)) :
    contract.Meets good' (outcome.bind next) := by
  cases outcome with
  | done value session => exact hnext value h.1 session h.2
  | failed fault session => exact h
  | unfinished => exact h

theorem Yields.bind {exec : Exec α} {next : α → Exec β} (h : contract.Yields good exec)
    (hnext : ∀ value, good value → contract.Yields good' (next value)) :
    contract.Yields good' (exec >>= next) :=
  fun session hsession ↦ (h session hsession).bind hnext

theorem yields_pure {value : α} (h : good value) : contract.Yields good (pure value : Exec α) :=
  fun _ hsession ↦ ⟨h, hsession⟩

theorem yields_fail {fault : Fault} (h : contract.Tolerates fault.error) :
    contract.Yields good (Exec.fail fault : Exec α) :=
  fun _ hsession ↦ ⟨h, hsession⟩

theorem yields_read {view : Env → Except Fault α}
    (h : ∀ env, contract.invariant env → contract.Grants good (view env)) :
    contract.Yields good (Exec.read view) := by
  intro session hsession
  have hview := h session.env hsession
  rw [Exec.read]
  cases hresult : view session.env with
  | ok value =>
    rw [hresult] at hview
    exact ⟨hview, hsession⟩
  | error fault =>
    rw [hresult] at hview
    exact ⟨hview, hsession⟩

theorem governs_change {step : Session → Session}
    (h : ∀ session, contract.invariant session.env → contract.invariant (step session).env) :
    contract.Governs (Exec.change step) :=
  fun session hsession ↦ ⟨trivial, h session hsession⟩

theorem governs_define {value : Value} (h : contract.admits value) (isLocal : Bool) (name : String) :
    contract.Governs (Exec.change (.define isLocal name value)) :=
  governs_change fun _ hsession ↦ contract.define hsession h isLocal name

theorem Governs.inScope {body : Exec Unit} (h : contract.Governs body) :
    contract.Governs (Exec.inScope body) := by
  refine (governs_change fun _ hsession ↦ contract.enter hsession).bind fun _ _ ↦ ?_
  refine h.bind fun _ _ ↦ governs_change fun session hsession ↦ ?_
  rw [Session.env_exit]
  exact contract.exit hsession

theorem yields_ite {exec other : Exec α} (condition : Bool) (h : contract.Yields good exec)
    (hother : contract.Yields good other) :
    contract.Yields good (if condition then exec else other) := by
  cases condition
  · exact hother
  · exact h

/-! ## Loops -/

theorem Governs.repeatWhile (hendless : contract.endless) {condition : Exec Bool} {body : Exec Unit}
    (hcondition : contract.Governs condition)
    (hbody : contract.Governs body) (budget : Nat) :
    contract.Governs (Exec.repeatWhile condition body budget) := by
  induction budget with
  | zero => exact fun _ _ ↦ hendless
  | succ budget ih =>
    refine fun session hsession ↦ (hcondition session hsession).bind fun holds _ ↦ ?_
    cases holds with
    | false => exact yields_pure trivial
    | true => exact fun middle hmiddle ↦ (hbody middle hmiddle).bind fun _ _ ↦ ih

theorem Governs.forIntegers {body : Number → Exec Unit}
    (hbody : ∀ value, contract.Governs (body (.int value))) (step : Int) (count : Nat)
    (value : Int) : contract.Governs (Exec.forIntegers body step count value) := by
  induction count generalizing value with
  | zero => exact yields_pure trivial
  | succ count ih =>
    exact fun session hsession ↦ (hbody _ session hsession).bind fun _ _ ↦ ih (value + step)

theorem Governs.forDoubles (hendless : contract.endless) {body : Number → Exec Unit}
    (hbody : ∀ value, contract.Governs (body (.float value)))
    (isWithin : Float → Bool) (step : Float) (budget : Nat) (value : Float) :
    contract.Governs (Exec.forDoubles body isWithin step budget value) := by
  induction budget generalizing value with
  | zero => exact fun _ _ ↦ hendless
  | succ budget ih =>
    intro session hsession
    rw [Exec.forDoubles]
    split
    · exact (hbody value session hsession).bind fun _ _ ↦ ih (value + step)
    · exact yields_pure trivial session hsession

theorem Governs.round {body : Exec Unit} (h : contract.Governs body) (name : String)
    {value : Number} (hvalue : contract.AdmitsNumber value) :
    contract.Governs (Exec.round name body value) := by
  apply Governs.inScope
  exact (governs_define hvalue true name).bind fun _ _ ↦ h.inScope

theorem Governs.rounds {body : Number → Exec Unit} {rounds : Rounds}
    (hrounds : contract.AdmitsRounds rounds)
    (hbody : ∀ value, contract.AdmitsNumber value → contract.Governs (body value))
    (budget : Nat) : contract.Governs (rounds.exec budget body) := by
  cases rounds with
  | integers start step count =>
    exact .forIntegers (fun value ↦ hbody _ (contract.integer value)) step count start
  | doubles start limit step =>
    exact .forDoubles hrounds.1 (fun value ↦ hbody _ (hrounds.2 value)) _ step budget start

/-! ## Statements -/

/-- Evaluating an expression yields a value that may come up. -/
theorem yields_eval {tree : Expr} (hliterals : ∀ value ∈ tree.literals, contract.admits value) :
    contract.Yields contract.admits (Exec.read tree.eval) :=
  yields_read fun _ henv ↦ grants_eval henv tree hliterals

mutual

/-- Statements keep to a contract if their literals do and it allows for their loops. -/
theorem governs_exec (budget : Nat) (tree : Stmt)
    (hliterals : ∀ value ∈ tree.literals, contract.admits value)
    (hwhile : tree.hasWhile = true → contract.endless) :
    contract.Governs (tree.exec budget) := by
  match tree with
  | .assign span isLocal name value =>
    exact (yields_eval hliterals).bind fun _ hresult ↦ governs_define hresult isLocal name
  | .block span body => exact (governs_execAll budget body hliterals hwhile).inScope
  | .expr span value => exact (yields_eval hliterals).bind fun _ _ ↦ yields_pure trivial
  | .forLoop span initSpan name init limit step body =>
    simp only [Stmt.literals, List.mem_append, or_imp, forall_and] at hliterals
    obtain ⟨⟨⟨hinit, hlimit⟩, hstep⟩, hbody⟩ := hliterals
    have hrounds : contract.Yields contract.AdmitsRounds
        (Exec.read (Expr.evalRounds · initSpan init limit step)) :=
      yields_read fun _ henv ↦ grants_evalRounds henv initSpan init limit step hinit hlimit hstep
    have hbody := governs_execAll budget body hbody hwhile
    exact hrounds.bind fun _ hadmits ↦ Governs.rounds hadmits (fun _ ↦ hbody.round name) budget
  | .ifElse span condition thenBody elseBody =>
    simp only [Stmt.literals, List.mem_append, or_imp, forall_and] at hliterals
    simp only [Stmt.hasWhile, Bool.or_eq_true, or_imp] at hwhile
    obtain ⟨⟨hcondition, hthen⟩, helse⟩ := hliterals
    have hthen := (governs_execAll budget thenBody hthen hwhile.1).inScope
    have helse := (governs_execAll budget elseBody helse hwhile.2).inScope
    exact (yields_eval hcondition).bind fun value _ ↦ yields_ite value.isTrue hthen helse
  | .return_ span value =>
    exact (yields_eval hliterals).bind fun _ _ ↦ yields_fail fun _ hname ↦ nomatch hname
  | .whileLoop span condition body =>
    simp only [Stmt.literals, List.mem_append, or_imp, forall_and] at hliterals
    have hendless := hwhile rfl
    have hcondition : contract.Governs (Value.isTrue <$> Exec.read condition.eval) :=
      (yields_eval hliterals.1).bind fun _ _ ↦ yields_pure trivial
    have hbody := (governs_execAll budget body hliterals.2 fun _ ↦ hendless).inScope
    exact .repeatWhile hendless hcondition hbody budget

theorem governs_execAll (budget : Nat) (trees : List Stmt)
    (hliterals : ∀ value ∈ Stmt.literalsAll trees, contract.admits value)
    (hwhile : Stmt.hasWhileAll trees = true → contract.endless) :
    contract.Governs (Stmt.execAll budget trees) := by
  match trees with
  | [] => exact yields_pure trivial
  | tree :: rest =>
    simp only [Stmt.literalsAll, List.mem_append, or_imp, forall_and] at hliterals
    simp only [Stmt.hasWhileAll, Bool.or_eq_true, or_imp] at hwhile
    exact (governs_exec budget tree hliterals.1 hwhile.1).bind fun _ _ ↦
      governs_execAll budget rest hliterals.2 hwhile.2

end

/-! ## Programs -/

/-- Closing all scopes is closing one after the other. -/
theorem invariant_unwind {env : Env} (h : contract.invariant env) : contract.invariant env.unwind := by
  induction env with
  | globals frame => exact h
  | scope frame outer ih => exact ih (contract.exit h)

theorem governs_program (budget : Nat) (program : Program)
    (hliterals : ∀ value ∈ Stmt.literalsAll program, contract.admits value)
    (hwhile : Stmt.hasWhileAll program = true → contract.endless) :
    contract.Governs (Program.exec budget program) := by
  induction program using Program.exec.induct with
  | case1 => exact yields_pure trivial
  | case2 span value =>
    simp only [Stmt.literalsAll, Stmt.literals, List.append_nil] at hliterals
    exact (yields_eval hliterals).bind fun _ _ ↦ yields_pure trivial
  | case3 tree rest hlast ih =>
    simp only [Stmt.literalsAll, List.mem_append, or_imp, forall_and] at hliterals
    simp only [Stmt.hasWhileAll, Bool.or_eq_true, or_imp] at hwhile
    rw [Program.exec.eq_3 _ _ _ hlast]
    exact (governs_exec budget tree hliterals.1 hwhile.1).bind fun _ _ ↦ ih hliterals.2 hwhile.2

/-- A run keeps to a contract if the literals of the program do and it allows for its loops. -/
theorem governs_run (budget : Nat) (program : Program)
    (hliterals : ∀ value ∈ Stmt.literalsAll program, contract.admits value)
    (hwhile : Stmt.hasWhileAll program = true → contract.endless) :
    contract.Governs (Program.run budget program) := by
  intro session hsession
  have hexec := governs_program budget program hliterals hwhile
    (session.note (.evaluating program.length)) hsession
  rw [Program.run]
  cases houtcome : Program.exec budget program (session.note (.evaluating program.length)) with
  | done value final =>
    rw [houtcome] at hexec
    exact hexec
  | failed fault final =>
    rw [houtcome] at hexec
    exact ⟨hexec.1, invariant_unwind hexec.2⟩
  | unfinished =>
    rw [houtcome] at hexec
    exact hexec

end Contract

end ScopeScript
