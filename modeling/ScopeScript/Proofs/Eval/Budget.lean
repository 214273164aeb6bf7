import ScopeScript.Eval.Program

/-!
# Budgets do not matter to what comes to an end

An execution that comes to an end within its budget comes to the same end within any larger one. So
a program that ends has one outcome, and it can be spoken of without a budget.
-/

namespace ScopeScript

/-- What comes to an end in one execution comes to the same end in the other. -/
def Exec.Below {α : Type} (exec exec' : Exec α) : Prop :=
  ∀ session, exec session ≠ .unfinished → exec' session = exec session

theorem Outcome.ne_unfinished_of_bind {α β : Type} {outcome : Outcome α}
    {next : α → Session → Outcome β} (h : outcome.bind next ≠ .unfinished) :
    outcome ≠ .unfinished := by
  rintro rfl
  exact h rfl

namespace Exec

variable {α β : Type}

theorem below_refl (exec : Exec α) : exec.Below exec := fun _ _ ↦ rfl

theorem bind_eq_of_below {outcome outcome' : Outcome α} {next next' : α → Exec β}
    (h : outcome ≠ .unfinished → outcome' = outcome) (hnext : ∀ value, (next value).Below (next' value))
    (hend : outcome.bind next ≠ .unfinished) : outcome'.bind next' = outcome.bind next := by
  rw [h (Outcome.ne_unfinished_of_bind hend)]
  cases outcome with
  | done value session => exact hnext value session hend
  | failed | unfinished => rfl

theorem Below.bind {exec exec' : Exec α} {next next' : α → Exec β} (h : exec.Below exec')
    (hnext : ∀ value, (next value).Below (next' value)) : (exec >>= next).Below (exec' >>= next') :=
  fun session hend ↦ bind_eq_of_below (h session) hnext hend

theorem Below.inScope {body body' : Exec Unit} (h : body.Below body') :
    (inScope body).Below (inScope body') :=
  (below_refl _).bind fun _ ↦ h.bind fun _ ↦ below_refl _

theorem Below.repeatWhile {condition : Exec Bool} {body body' : Exec Unit} (h : body.Below body')
    {budget budget' : Nat} (hle : budget ≤ budget') :
    Below (repeatWhile condition body budget) (repeatWhile condition body' budget') := by
  induction budget generalizing budget' with
  | zero => exact fun _ hend ↦ absurd rfl hend
  | succ budget ih =>
    obtain ⟨budget', rfl⟩ : ∃ rest, budget' = rest + 1 := Nat.exists_eq_add_one.2 (by omega)
    have hrest := ih (Nat.le_of_succ_le_succ hle)
    refine fun session hend ↦ bind_eq_of_below (fun _ ↦ rfl) (fun holds middle hend ↦ ?_) hend
    cases holds with
    | false => rfl
    | true => exact bind_eq_of_below (h middle) (fun _ ↦ hrest) hend

theorem Below.forIntegers {body body' : Number → Exec Unit}
    (h : ∀ value, (body value).Below (body' value)) (step : Int) (rounds : Nat) (value : Int) :
    Below (forIntegers body step rounds value) (forIntegers body' step rounds value) := by
  induction rounds generalizing value with
  | zero => exact below_refl _
  | succ rounds ih =>
    exact fun session hend ↦ bind_eq_of_below (h _ session) (fun _ ↦ ih (value + step)) hend

theorem Below.forDoubles {body body' : Number → Exec Unit}
    (h : ∀ value, (body value).Below (body' value)) (isWithin : Float → Bool) (step : Float)
    {budget budget' : Nat} (hle : budget ≤ budget') (value : Float) :
    Below (forDoubles body isWithin step budget value)
      (forDoubles body' isWithin step budget' value) := by
  induction budget generalizing budget' value with
  | zero => exact fun _ hend ↦ absurd rfl hend
  | succ budget ih =>
    obtain ⟨budget', rfl⟩ : ∃ rest, budget' = rest + 1 := Nat.exists_eq_add_one.2 (by omega)
    have hrest := ih (Nat.le_of_succ_le_succ hle)
    intro session hend
    simp only [Exec.forDoubles] at hend ⊢
    split
    next hwithin =>
      rw [if_pos hwithin] at hend
      exact bind_eq_of_below (h _ session) (fun _ ↦ hrest (value + step)) hend
    next => rfl

end Exec

variable {budget budget' : Nat}

mutual

theorem Stmt.exec_below (hle : budget ≤ budget') (tree : Stmt) :
    (tree.exec budget).Below (tree.exec budget') := by
  match tree with
  | .assign .. | .expr .. | .return_ .. => exact Exec.below_refl _
  | .block _ body => exact (Stmt.execAll_below hle body).inScope
  | .forLoop _ initSpan name init limit step body =>
    have hbody := Stmt.execAll_below hle body
    have hround (value : Number) : (Exec.round name (Stmt.execAll budget body) value).Below
        (Exec.round name (Stmt.execAll budget' body) value) :=
      ((Exec.below_refl _).bind fun _ ↦ hbody.inScope).inScope
    refine (Exec.below_refl _).bind fun rounds ↦ ?_
    cases rounds with
    | integers start step rounds => exact .forIntegers hround step rounds start
    | doubles start limit step => exact .forDoubles hround _ step hle start
  | .ifElse _ condition thenBody elseBody =>
    refine (Exec.below_refl _).bind fun value ↦ ?_
    cases value.isTrue with
    | true => exact (Stmt.execAll_below hle thenBody).inScope
    | false => exact (Stmt.execAll_below hle elseBody).inScope
  | .whileLoop _ condition body => exact (Stmt.execAll_below hle body).inScope.repeatWhile hle

theorem Stmt.execAll_below (hle : budget ≤ budget') (trees : List Stmt) :
    (Stmt.execAll budget trees).Below (Stmt.execAll budget' trees) := by
  match trees with
  | [] => exact Exec.below_refl _
  | tree :: rest => exact (tree.exec_below hle).bind fun _ ↦ Stmt.execAll_below hle rest

end

namespace Program

theorem exec_below (hle : budget ≤ budget') (program : Program) :
    (exec budget program).Below (exec budget' program) := by
  induction program using exec.induct with
  | case1 => exact Exec.below_refl _
  | case2 => exact Exec.below_refl _
  | case3 tree rest hlast ih =>
    rw [exec.eq_3 _ _ _ hlast, exec.eq_3 _ _ _ hlast]
    exact (tree.exec_below hle).bind fun _ ↦ ih

/-- A run that comes to an end does so with every larger budget. -/
theorem run_below (hle : budget ≤ budget') (program : Program) :
    (run budget program).Below (run budget' program) := by
  intro session hend
  have hexec := program.exec_below hle (session.note (.evaluating program.length))
  rw [run] at hend ⊢
  rw [run, hexec]
  intro hunfinished
  exact hend (by rw [hunfinished])

/-- The program, run in the session, comes to an end with the outcome. -/
def Ends (program : Program) (session : Session) (outcome : Outcome (Option Value)) : Prop :=
  outcome ≠ .unfinished ∧ ∃ budget, run budget program session = outcome

theorem Ends.run_eq {program : Program} {session : Session} {outcome : Outcome (Option Value)}
    (h : program.Ends session outcome) :
    ∃ least, ∀ budget, least ≤ budget → run budget program session = outcome := by
  obtain ⟨hend, least, rfl⟩ := h
  exact ⟨least, fun budget hle ↦ program.run_below hle session hend⟩

/-- A program comes to an end in one way. -/
theorem Ends.unique {program : Program} {session : Session} {outcome other : Outcome (Option Value)}
    (h : program.Ends session outcome) (h' : program.Ends session other) : outcome = other := by
  obtain ⟨least, hrun⟩ := h.run_eq
  obtain ⟨least', hrun'⟩ := h'.run_eq
  calc
    outcome = run (max least least') program session := (hrun _ (Nat.le_max_left least least')).symm
    _ = other := hrun' _ (Nat.le_max_right least least')

end Program

end ScopeScript
