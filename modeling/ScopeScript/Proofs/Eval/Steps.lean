import Mathlib.Logic.Relation
import ScopeScript.Eval.Statement

/-!
# The steps of an execution

However a program is nested, executing it changes the session in three ways only: a scope is opened,
one is closed, or a name is given a value. What each of these steps preserves is therefore preserved by
every execution, and as far as it has come by one that fails.
-/

namespace ScopeScript

/-- A single change of a session. -/
inductive Session.Step : Session → Session → Prop
  | enter (session : Session) : Step session session.enter
  | exit (session : Session) : Step session session.exit
  | define (session : Session) (isLocal : Bool) (name : String) (value : Value) :
      Step session (session.define isLocal name value)

/-- Any number of changes one after the other. -/
abbrev Session.Steps : Session → Session → Prop := Relation.ReflTransGen Session.Step

/-- The session in which an execution is done or fails is reached by steps. -/
def Outcome.ReachedFrom {α : Type} (session : Session) : Outcome α → Prop
  | .done _ final | .failed _ final => session.Steps final
  | .unfinished => True

theorem Outcome.ReachedFrom.bind {α β : Type} {session : Session} {outcome : Outcome α}
    {next : α → Session → Outcome β} (h : outcome.ReachedFrom session)
    (hnext : ∀ value middle, (next value middle).ReachedFrom middle) :
    (outcome.bind next).ReachedFrom session := by
  cases outcome with
  | done value middle =>
    have hrest := hnext value middle
    rw [bind_done]
    cases houtcome : next value middle with
    | done value' final | failed fault final =>
      rw [houtcome] at hrest
      exact Relation.ReflTransGen.trans h hrest
    | unfinished => trivial
  | failed fault final => exact h
  | unfinished => trivial

/-- From every session the execution goes by steps. -/
def Exec.IsStepwise {α : Type} (exec : Exec α) : Prop :=
  ∀ session, (exec session).ReachedFrom session

namespace Exec

variable {α β : Type}

theorem isStepwise_pure (value : α) : IsStepwise (pure value) :=
  fun _ ↦ .refl

theorem isStepwise_read (view : Env → Except Fault α) : IsStepwise (read view) := by
  intro session
  rw [read]
  cases view session.env with
  | ok value => exact .refl
  | error fault => exact .refl

theorem isStepwise_fail (fault : Fault) : IsStepwise (fail fault : Exec α) :=
  fun _ ↦ .refl

theorem isStepwise_change {step : Session → Session}
    (h : ∀ session : Session, session.Step (step session)) : IsStepwise (change step) :=
  fun session ↦ .single (h session)

theorem IsStepwise.bind {exec : Exec α} {next : α → Exec β} (h : IsStepwise exec)
    (hnext : ∀ value, IsStepwise (next value)) : IsStepwise (exec >>= next) :=
  fun session ↦ (h session).bind hnext

theorem isStepwise_ite {exec other : Exec α} (condition : Bool) (h : IsStepwise exec)
    (hother : IsStepwise other) : IsStepwise (if condition then exec else other) := by
  cases condition
  · exact hother
  · exact h

theorem IsStepwise.inScope {body : Exec Unit} (h : IsStepwise body) : IsStepwise (inScope body) := by
  apply (isStepwise_change .enter).bind
  intro _
  apply h.bind
  intro _
  exact isStepwise_change .exit

/-! ## Loops -/

theorem IsStepwise.repeatWhile {condition : Exec Bool} {body : Exec Unit}
    (hcondition : IsStepwise condition) (hbody : IsStepwise body) (budget : Nat) :
    IsStepwise (repeatWhile condition body budget) := by
  induction budget with
  | zero => exact fun _ ↦ trivial
  | succ budget ih =>
    intro session
    apply (hcondition session).bind
    intro holds middle
    cases holds with
    | false => exact isStepwise_pure () middle
    | true => exact (hbody middle).bind fun _ ↦ ih

theorem IsStepwise.forIntegers {body : Number → Exec Unit} (hbody : ∀ value, IsStepwise (body value))
    (step : Int) (rounds : Nat) (value : Int) :
    IsStepwise (forIntegers body step rounds value) := by
  induction rounds generalizing value with
  | zero => exact isStepwise_pure ()
  | succ rounds ih => exact fun session ↦ (hbody _ session).bind fun _ ↦ ih (value + step)

theorem IsStepwise.forDoubles {body : Number → Exec Unit} (hbody : ∀ value, IsStepwise (body value))
    (isWithin : Float → Bool) (step : Float) (budget : Nat) (value : Float) :
    IsStepwise (forDoubles body isWithin step budget value) := by
  induction budget generalizing value with
  | zero => exact fun _ ↦ trivial
  | succ budget ih =>
    intro session
    unfold Exec.forDoubles
    split
    · exact (hbody _ session).bind fun _ ↦ ih (value + step)
    · exact isStepwise_pure () session

theorem IsStepwise.round {body : Exec Unit} (h : IsStepwise body) (name : String)
    (value : Number) : IsStepwise (round name body value) := by
  apply IsStepwise.inScope
  apply (isStepwise_change fun session ↦ .define session true name (.number value)).bind
  exact fun _ ↦ h.inScope

theorem IsStepwise.rounds {body : Number → Exec Unit} (hbody : ∀ value, IsStepwise (body value))
    (budget : Nat) (rounds : Rounds) : IsStepwise (rounds.exec budget body) := by
  cases rounds with
  | integers start step rounds => exact .forIntegers hbody step rounds start
  | doubles start limit step => exact .forDoubles hbody _ step budget start

end Exec

/-! ## Statements -/

mutual

theorem Stmt.isStepwise_exec (budget : Nat) (tree : Stmt) : (tree.exec budget).IsStepwise := by
  match tree with
  | .assign _ isLocal name value =>
    apply (Exec.isStepwise_read value.eval).bind
    exact fun result ↦ Exec.isStepwise_change fun session ↦ .define session isLocal name result
  | .block _ body => exact (Stmt.isStepwise_execAll budget body).inScope
  | .expr _ value => exact (Exec.isStepwise_read value.eval).bind fun _ ↦ Exec.isStepwise_pure ()
  | .forLoop _ initSpan name init limit step body =>
    have hround := (Stmt.isStepwise_execAll budget body).round name
    exact (Exec.isStepwise_read _).bind fun rounds ↦ .rounds hround budget rounds
  | .ifElse _ condition thenBody elseBody =>
    have hthen := (Stmt.isStepwise_execAll budget thenBody).inScope
    have helse := (Stmt.isStepwise_execAll budget elseBody).inScope
    apply (Exec.isStepwise_read condition.eval).bind
    exact fun value ↦ Exec.isStepwise_ite value.isTrue hthen helse
  | .return_ _ value =>
    exact (Exec.isStepwise_read value.eval).bind fun _ ↦ Exec.isStepwise_fail _
  | .whileLoop _ condition body =>
    have hcondition : Exec.IsStepwise (Value.isTrue <$> Exec.read condition.eval) :=
      (Exec.isStepwise_read condition.eval).bind fun value ↦ Exec.isStepwise_pure value.isTrue
    exact .repeatWhile hcondition (Stmt.isStepwise_execAll budget body).inScope budget

theorem Stmt.isStepwise_execAll (budget : Nat) (trees : List Stmt) :
    (Stmt.execAll budget trees).IsStepwise := by
  match trees with
  | [] => exact Exec.isStepwise_pure ()
  | tree :: rest =>
    have htree := Stmt.isStepwise_exec budget tree
    have hrest := Stmt.isStepwise_execAll budget rest
    exact htree.bind fun _ ↦ hrest

end

end ScopeScript
