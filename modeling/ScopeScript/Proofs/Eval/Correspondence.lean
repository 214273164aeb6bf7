import ScopeScript.Eval.Program
import ScopeScript.Proofs.Tree.Map

/-!
# Executions that correspond

Two environments correspond when the names of one can be found under other names in the other. If
this is kept by scopes and definitions, a tree and the tree with its names replaced are executed in
step: both are done with the same value, both fail for the same reason, or both go on for ever. The
spans of the second tree may be others, and then its faults blame other text.
-/

namespace ScopeScript

/-- A relation of environments at a number of scopes above some base that is kept by all that a tree
does to them. Only some names may occur in the tree. A name without a value keeps its spelling,
because faults tell it. -/
structure Env.Correspondence (rename : String → String) (allowed : String → Prop)
    (related : Nat → Env → Env → Prop) : Prop where
  enter : ∀ {count env env'}, related count env env' → related (count + 1) env.enter env'.enter
  exit : ∀ {count env env'}, related (count + 1) env env' → related count env.exit env'.exit
  define : ∀ {count env env' name}, allowed name → related count env env' → ∀ isLocal value,
    related count (env.define isLocal name value) (env'.define isLocal (rename name) value)
  lookup : ∀ {count env env' name}, allowed name → related count env env' →
    env'.lookup (rename name) = env.lookup name
  undefined : ∀ {count env env' name}, allowed name → related count env env' →
    env.lookup name = none → rename name = name

variable {rename : String → String} {allowed : String → Prop} {related : Nat → Env → Env → Prop}
  {place : Span → Span} {count : Nat}

/-! ## Expressions -/

@[simp]
theorem Except.mapError_ok {α : Type} (value : α) (f : Fault → Fault) :
    (Except.ok value : Except Fault α).mapError f = .ok value := rfl

@[simp]
theorem Except.mapError_error {α : Type} (fault : Fault) (f : Fault → Fault) :
    (Except.error fault : Except Fault α).mapError f = .error (f fault) := rfl

theorem blaming_map {α : Type} (span : Span) (result : Except Error α) :
    blaming (place span) result = (blaming span result).mapError (Fault.map place) := by
  cases result <;> rfl

theorem Except.mapError_bind {α β : Type} (result : Except Fault α) (next : α → Except Fault β)
    (f : Fault → Fault) :
    (result >>= next).mapError f = result.mapError f >>= fun value ↦ (next value).mapError f := by
  cases result <;> rfl

namespace Env.Correspondence

variable {env env' : Env} (hrel : Env.Correspondence rename allowed related)
include hrel

theorem callError_eq {callee : String} (hcallee : allowed callee) (h : related count env env') :
    callError env' (rename callee) = callError env callee := by
  rw [callError, callError, hrel.lookup hcallee h]
  cases hlookup : env.lookup callee with
  | none => rw [hrel.undefined hcallee h hlookup]
  | some value => rfl

end Env.Correspondence

mutual

/-- A tree and its counterpart have the same value in corresponding environments. -/
theorem Expr.eval_map (hrel : Env.Correspondence rename allowed related) {env env' : Env}
    (h : related count env env') (tree : Expr) (hnames : ∀ name ∈ tree.names, allowed name) :
    (tree.map rename place).eval env' = (tree.eval env).mapError (Fault.map place) := by
  match tree with
  | .literal _ _ | .function _ _ _ _ => rfl
  | .name span identifier =>
    have hname := hnames identifier (List.mem_singleton_self identifier)
    simp only [Expr.map, Expr.eval, hrel.lookup hname h]
    cases hlookup : env.lookup identifier with
    | none => simp [Fault.map, hrel.undefined hname h hlookup]
    | some value => rfl
  | .group _ inner => exact inner.eval_map hrel h hnames
  | .unary span operator operand =>
    simp only [Expr.map, Expr.eval, operand.eval_map hrel h hnames, Except.mapError_bind,
      blaming_map]
  | .binary span operator left right =>
    simp only [Expr.names, List.mem_append] at hnames
    have hleft := left.eval_map hrel h fun name hn ↦ hnames name (.inl hn)
    have hright := right.eval_map hrel h fun name hn ↦ hnames name (.inr hn)
    simp only [Expr.map, Expr.eval, hleft, hright, Except.mapError_bind]
    congr 1
    funext value
    split
    · rfl
    · simp only [blaming_map, Except.mapError_bind]
  | .call span callee arguments =>
    simp only [Expr.names, List.mem_cons, forall_eq_or_imp] at hnames
    simp only [Expr.map, Expr.eval, Expr.evalAll_map hrel h arguments hnames.2, Except.mapError_bind,
      hrel.callError_eq hnames.1 h, Except.mapError_error, Fault.map]

theorem Expr.evalAll_map (hrel : Env.Correspondence rename allowed related) {env env' : Env}
    (h : related count env env') (trees : List Expr)
    (hnames : ∀ name ∈ Expr.namesAll trees, allowed name) :
    Expr.evalAll env' (Expr.mapAll rename place trees) =
      (Expr.evalAll env trees).mapError (Fault.map place) := by
  match trees with
  | [] => rfl
  | tree :: rest =>
    simp only [Expr.namesAll, List.mem_append] at hnames
    have htree := tree.eval_map hrel h fun name hn ↦ hnames name (.inl hn)
    have hrest := Expr.evalAll_map hrel h rest fun name hn ↦ hnames name (.inr hn)
    simp only [Expr.mapAll, Expr.evalAll, htree, hrest, Except.mapError_bind]

end

/-! ## Bounds of loops -/

variable (place) in
theorem Expr.evalBound_map (hrel : Env.Correspondence rename allowed related) {env env' : Env}
    (h : related count env env') (role : String) (bound : Expr)
    (hnames : ∀ name ∈ bound.names, allowed name) :
    (bound.map rename place).evalBound env' role =
      (bound.evalBound env role).mapError (Fault.map place) := by
  simp only [evalBound, bound.eval_map hrel h hnames, Except.mapError_bind]
  congr 1
  funext value
  cases value <;> simp [Fault.map]

theorem Expr.evalRounds_map (hrel : Env.Correspondence rename allowed related) {env env' : Env}
    (h : related count env env') (initSpan : Span) (init limit : Expr) (step : Option Expr)
    (hinit : ∀ name ∈ init.names, allowed name) (hlimit : ∀ name ∈ limit.names, allowed name)
    (hstep : ∀ name ∈ Expr.names? step, allowed name) :
    Expr.evalRounds env' (place initSpan) (init.map rename place) (limit.map rename place)
        (Expr.map? rename place step) =
      (Expr.evalRounds env initSpan init limit step).mapError (Fault.map place) := by
  have hfirst := Expr.evalBound_map place hrel h "initial value" init hinit
  have hlast := Expr.evalBound_map place hrel h "limit" limit hlimit
  cases step with
  | none =>
    simp only [evalRounds, hfirst, hlast, Expr.map?, Except.mapError_bind]
    congr 1; funext first; congr 1; funext last; congr 1; funext stride
    cases Rounds.ofBounds? first last stride <;> rfl
  | some step =>
    have hstride := Expr.evalBound_map place hrel h "step" step hstep
    simp only [evalRounds, hfirst, hlast, hstride, Expr.map?, Except.mapError_bind]
    congr 1; funext first; congr 1; funext last; congr 1; funext stride
    cases Rounds.ofBounds? first last stride <;> simp [Fault.map]

/-! ## Statements in a session -/

theorem Stmt.exec_block_apply (budget : Nat) (span : Span) (body : List Stmt) (session : Session) :
    (Stmt.block span body).exec budget session =
      (Stmt.execAll budget body session.enter).bind fun _ final ↦ .done () final.exit := rfl

theorem Stmt.execAll_cons_apply (budget : Nat) (tree : Stmt) (rest : List Stmt)
    (session : Session) :
    Stmt.execAll budget (tree :: rest) session =
      (tree.exec budget session).bind fun _ middle ↦ Stmt.execAll budget rest middle := rfl

theorem Stmt.exec_assign_apply (budget : Nat) (span : Span) (isLocal : Bool) (name : String)
    (value : Expr) (session : Session) :
    (Stmt.assign span isLocal name value).exec budget session =
      match value.eval session.env with
      | .ok result => .done () (session.define isLocal name result)
      | .error fault => .failed fault session := by
  simp only [Stmt.exec, Exec.bind_apply, Exec.read]
  cases value.eval session.env <;> rfl

theorem Stmt.exec_expr_apply (budget : Nat) (span : Span) (value : Expr) (session : Session) :
    (Stmt.expr span value).exec budget session =
      match value.eval session.env with
      | .ok _ => .done () session
      | .error fault => .failed fault session := by
  simp only [Stmt.exec, Exec.bind_apply, Exec.read]
  cases value.eval session.env <;> rfl

/-! ## Executions in step -/

/-- Two outcomes agree: what is done is the same and ends in corresponding environments, and what
fails does so for the same reason. -/
def Outcome.Follows {α : Type} (related : Nat → Env → Env → Prop) (place : Span → Span)
    (count : Nat) : Outcome α → Outcome α → Prop
  | .done value session, .done value' session' =>
    value' = value ∧ related count session.env session'.env
  | .failed fault session, .failed fault' session' =>
    fault' = fault.map place ∧ ∃ inner, related inner session.env session'.env
  | .unfinished, .unfinished => True
  | _, _ => False

/-- Outcomes that agree are both done, both failed or both unfinished. -/
@[elab_as_elim]
theorem Outcome.Follows.induct {α : Type}
    {motive : (outcome outcome' : Outcome α) → outcome.Follows related place count outcome' → Prop}
    (done : ∀ value session session' (h : related count session.env session'.env),
      motive (.done value session) (.done value session') ⟨rfl, h⟩)
    (failed : ∀ fault session session' inner (h : related inner session.env session'.env),
      motive (.failed fault session) (.failed (fault.map place) session') ⟨rfl, inner, h⟩)
    (unfinished : motive .unfinished .unfinished trivial) {outcome outcome' : Outcome α}
    (h : outcome.Follows related place count outcome') : motive outcome outcome' h := by
  cases outcome with
  | done value session =>
    cases outcome' with
    | done value' session' =>
      obtain ⟨rfl, hsession⟩ := h
      exact done value' session session' hsession
    | failed | unfinished => exact h.elim
  | failed fault session =>
    cases outcome' with
    | failed fault' session' =>
      obtain ⟨rfl, inner, hinner⟩ := h
      exact failed fault session session' inner hinner
    | done | unfinished => exact h.elim
  | unfinished =>
    cases outcome' with
    | unfinished => exact unfinished
    | done | failed => exact h.elim

theorem Outcome.Follows.bind {α β : Type} {middle : Nat} {outcome outcome' : Outcome α}
    {next next' : α → Session → Outcome β} (h : outcome.Follows related place middle outcome')
    (hnext : ∀ value {session session' : Session}, related middle session.env session'.env →
      (next value session).Follows related place count (next' value session')) :
    (outcome.bind next).Follows related place count (outcome'.bind next') := by
  cases h using Outcome.Follows.induct with
  | done value session session' henv => exact hnext value henv
  | failed fault session session' inner henv => exact ⟨rfl, inner, henv⟩
  | unfinished => trivial

/-- From environments that correspond at `before` scopes the outcomes agree, and what is done ends
at `after` scopes. -/
def Exec.Follows {α : Type} (related : Nat → Env → Env → Prop) (place : Span → Span)
    (before after : Nat) (exec exec' : Exec α) : Prop :=
  ∀ ⦃session session' : Session⦄, related before session.env session'.env →
    (exec session).Follows related place after (exec' session')

namespace Exec

variable {α β : Type} {before middle after : Nat}

theorem follows_pure (value : α) : Follows related place count count (pure value) (pure value) :=
  fun _ _ h ↦ ⟨rfl, h⟩

theorem Follows.bind {exec exec' : Exec α} {next next' : α → Exec β}
    (h : Follows related place before middle exec exec')
    (hnext : ∀ value, Follows related place middle after (next value) (next' value)) :
    Follows related place before after (exec >>= next) (exec' >>= next') :=
  fun _ _ hsession ↦ (h hsession).bind fun value _ _ hmiddle ↦ hnext value hmiddle

theorem follows_read {view view' : Env → Except Fault α}
    (h : ∀ ⦃env env'⦄, related count env env' →
      view' env' = (view env).mapError (Fault.map place)) :
    Follows related place count count (read view) (read view') := by
  intro session session' hsession
  rw [read, read, h hsession]
  cases view session.env with
  | ok value => exact ⟨rfl, hsession⟩
  | error fault => exact ⟨rfl, count, hsession⟩

theorem follows_change {step step' : Session → Session}
    (h : ∀ ⦃session session' : Session⦄, related before session.env session'.env →
      related after (step session).env (step' session').env) :
    Follows related place before after (change step) (change step') :=
  fun _ _ hsession ↦ ⟨rfl, h hsession⟩

theorem follows_fail (fault : Fault) :
    Follows related place count count (fail fault : Exec α) (fail (fault.map place)) :=
  fun _ _ h ↦ ⟨rfl, count, h⟩

theorem follows_ite {exec exec' other other' : Exec α} (condition : Bool)
    (h : Follows related place before after exec exec')
    (hother : Follows related place before after other other') :
    Follows related place before after (if condition then exec else other)
      (if condition then exec' else other') := by
  cases condition
  · exact hother
  · exact h

/-- Bodies that agree one scope further in agree in a scope of their own. -/
theorem follows_inScope (hrel : Env.Correspondence rename allowed related) {body body' : Exec Unit}
    (h : Follows related place (count + 1) (count + 1) body body') :
    Follows related place count count (inScope body) (inScope body') := by
  refine (follows_change fun _ _ hsession ↦ hrel.enter hsession).bind fun _ ↦ h.bind fun _ ↦
    follows_change fun session session' hsession ↦ ?_
  rw [Session.env_exit, Session.env_exit]
  exact hrel.exit hsession

theorem follows_repeatWhile {condition condition' : Exec Bool} {body body' : Exec Unit}
    (hcondition : Follows related place count count condition condition')
    (hbody : Follows related place count count body body') (budget : Nat) :
    Follows related place count count (repeatWhile condition body budget)
      (repeatWhile condition' body' budget) := by
  induction budget with
  | zero => exact fun _ _ _ ↦ trivial
  | succ budget ih =>
    intro session session' hsession
    refine (hcondition hsession).bind fun holds first first' hfirst ↦ ?_
    cases holds with
    | false => exact ⟨rfl, hfirst⟩
    | true => exact (hbody hfirst).bind fun _ _ _ hrest ↦ ih hrest

theorem follows_forIntegers {body body' : Number → Exec Unit}
    (hbody : ∀ value, Follows related place count count (body value) (body' value)) (step : Int)
    (rounds : Nat) (value : Int) :
    Follows related place count count (forIntegers body step rounds value)
      (forIntegers body' step rounds value) := by
  induction rounds generalizing value with
  | zero => exact fun _ _ hsession ↦ ⟨rfl, hsession⟩
  | succ rounds ih =>
    exact fun _ _ hsession ↦ (hbody _ hsession).bind fun _ _ _ hrest ↦ ih (value + step) hrest

theorem follows_forDoubles {body body' : Number → Exec Unit}
    (hbody : ∀ value, Follows related place count count (body value) (body' value))
    (isWithin : Float → Bool) (step : Float) (budget : Nat) (value : Float) :
    Follows related place count count (forDoubles body isWithin step budget value)
      (forDoubles body' isWithin step budget value) := by
  induction budget generalizing value with
  | zero => exact fun _ _ _ ↦ trivial
  | succ budget ih =>
    intro session session' hsession
    rw [forDoubles, forDoubles]
    split
    · exact (hbody _ hsession).bind fun _ _ _ hrest ↦ ih (value + step) hrest
    · exact ⟨rfl, hsession⟩

theorem follows_define (hrel : Env.Correspondence rename allowed related) {name : String}
    (hname : allowed name) (isLocal : Bool) (value : Value) :
    Follows related place count count (change (.define isLocal name value))
      (change (.define isLocal (rename name) value)) :=
  follows_change fun _ _ hsession ↦ hrel.define hname hsession isLocal value

theorem follows_round (hrel : Env.Correspondence rename allowed related) {name : String}
    (hname : allowed name) {body body' : Exec Unit}
    (hbody : Follows related place (count + 2) (count + 2) body body') (value : Number) :
    Follows related place count count (round name body value) (round (rename name) body' value) :=
  follows_inScope hrel <| (follows_define hrel hname true _).bind fun _ ↦
    follows_inScope hrel hbody

theorem follows_rounds {body body' : Number → Exec Unit}
    (hbody : ∀ value, Follows related place count count (body value) (body' value))
    (budget : Nat) (rounds : Rounds) :
    Follows related place count count (rounds.exec budget body) (rounds.exec budget body') := by
  cases rounds with
  | integers start step rounds => exact follows_forIntegers hbody step rounds start
  | doubles start limit step => exact follows_forDoubles hbody _ step budget start

end Exec

/-! ## Statements -/

theorem Exec.follows_eval (hrel : Env.Correspondence rename allowed related) (place : Span → Span)
    (count : Nat) {tree : Expr} (hnames : ∀ name ∈ tree.names, allowed name) :
    Exec.Follows related place count count (Exec.read tree.eval)
      (Exec.read (tree.map rename place).eval) :=
  Exec.follows_read fun _ _ h ↦ tree.eval_map hrel h hnames

mutual

/-- A statement and its counterpart are executed in step. -/
theorem Stmt.follows_exec (hrel : Env.Correspondence rename allowed related) (budget : Nat)
    (tree : Stmt) (hnames : ∀ name ∈ tree.names, allowed name) (count : Nat) :
    Exec.Follows related place count count (tree.exec budget)
      ((tree.map rename place).exec budget) := by
  match tree with
  | .assign _ isLocal name value =>
    simp only [Stmt.names, List.mem_cons, forall_eq_or_imp] at hnames
    have hvalue := Exec.follows_eval hrel place count hnames.2
    exact hvalue.bind fun result ↦ Exec.follows_define hrel hnames.1 isLocal result
  | .block _ body =>
    exact Exec.follows_inScope hrel (Stmt.follows_execAll hrel budget body hnames (count + 1))
  | .expr _ value =>
    have hvalue := Exec.follows_eval hrel place count hnames
    exact hvalue.bind fun _ ↦ Exec.follows_pure ()
  | .forLoop _ initSpan name init limit step body =>
    simp only [Stmt.names, List.mem_cons, List.mem_append, or_imp, forall_and, forall_eq] at hnames
    obtain ⟨hname, ⟨⟨hinit, hlimit⟩, hstep⟩, hbody⟩ := hnames
    refine (Exec.follows_read fun _ _ h ↦ ?_).bind fun rounds ↦ ?_
    · exact Expr.evalRounds_map hrel h initSpan init limit step hinit hlimit hstep
    · have hround := Stmt.follows_execAll hrel budget body hbody (count + 2)
      exact Exec.follows_rounds (Exec.follows_round hrel hname hround) budget rounds
  | .ifElse _ condition thenBody elseBody =>
    simp only [Stmt.names, List.mem_append, or_imp, forall_and] at hnames
    obtain ⟨⟨hcondition, hthen⟩, helse⟩ := hnames
    have hvalue := Exec.follows_eval hrel place count hcondition
    exact hvalue.bind fun value ↦ Exec.follows_ite value.isTrue
      (Exec.follows_inScope hrel (Stmt.follows_execAll hrel budget thenBody hthen (count + 1)))
      (Exec.follows_inScope hrel (Stmt.follows_execAll hrel budget elseBody helse (count + 1)))
  | .return_ span value =>
    have hvalue := Exec.follows_eval hrel place count hnames
    exact hvalue.bind fun _ ↦ Exec.follows_fail ⟨.strayReturn, span⟩
  | .whileLoop _ condition body =>
    simp only [Stmt.names, List.mem_append, or_imp, forall_and] at hnames
    have hvalue := Exec.follows_eval hrel place count hnames.1
    exact Exec.follows_repeatWhile (hvalue.bind fun value ↦ Exec.follows_pure value.isTrue)
      (Exec.follows_inScope hrel (Stmt.follows_execAll hrel budget body hnames.2 (count + 1))) budget

theorem Stmt.follows_execAll (hrel : Env.Correspondence rename allowed related) (budget : Nat)
    (trees : List Stmt) (hnames : ∀ name ∈ Stmt.namesAll trees, allowed name) (count : Nat) :
    Exec.Follows related place count count (Stmt.execAll budget trees)
      (Stmt.execAll budget (Stmt.mapAll rename place trees)) := by
  match trees with
  | [] => exact Exec.follows_pure ()
  | tree :: rest =>
    simp only [Stmt.namesAll, List.mem_append, or_imp, forall_and] at hnames
    exact (tree.follows_exec hrel budget hnames.1 count).bind fun _ ↦
      Stmt.follows_execAll hrel budget rest hnames.2 count

end

end ScopeScript
