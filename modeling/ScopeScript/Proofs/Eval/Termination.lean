import ScopeScript.Proofs.Eval.Budget
import ScopeScript.Proofs.Eval.Contract
import ScopeScript.Proofs.Eval.Counting

/-!
# Programs that come to an end

Only conditional loops and loops that count in doubles may go on for ever. Doubles do not arise from
other values: an operation on integers gives an integer, and a definition binds what was computed. So a
program without conditional loops and without doubles comes to an end if no global is a double. Its
loops count in integers, and no assignment in a body can change their rounds.
-/

namespace ScopeScript

/-! ## Doubles -/

/-- Whether a value is a double. -/
def Value.isDouble : Value → Bool
  | number (.float _) => true
  | _ => false

/-- No name is bound to a double. -/
def Frame.NoDoubles (frame : Frame) : Prop :=
  ∀ name value, frame.get? name = some value → value.isDouble = false

/-- No name is bound to a double in any scope. -/
def Env.NoDoubles : Env → Prop
  | globals frame => frame.NoDoubles
  | scope frame outer => frame.NoDoubles ∧ outer.NoDoubles

theorem Frame.noDoubles_empty : empty.NoDoubles := fun _ _ hvalue ↦ nomatch hvalue

theorem Frame.NoDoubles.insert {frame : Frame} (h : frame.NoDoubles) {value : Value}
    (hvalue : value.isDouble = false) (name : String) : (frame.insert name value).NoDoubles := by
  intro other value' hother
  rw [get?_insert] at hother
  split at hother
  · obtain rfl := Option.some.inj hother
    exact hvalue
  · exact h other value' hother

namespace Env.NoDoubles

variable {env : Env} {value : Value} {name : String}

theorem lookup (h : env.NoDoubles) (hlookup : env.lookup name = some value) :
    value.isDouble = false := by
  induction env with
  | globals frame => exact h name value hlookup
  | scope frame outer ih =>
    rw [Env.lookup] at hlookup
    cases hframe : frame.get? name with
    | none =>
      rw [hframe, Option.none_or] at hlookup
      exact ih h.2 hlookup
    | some bound =>
      rw [hframe, Option.some_or] at hlookup
      exact h.1 name value (hframe.trans hlookup)

theorem declare (h : env.NoDoubles) (hvalue : value.isDouble = false) :
    (env.declare name value).NoDoubles := by
  cases env with
  | globals frame => exact Frame.NoDoubles.insert h hvalue name
  | scope frame outer => exact ⟨h.1.insert hvalue name, h.2⟩

theorem assign (h : env.NoDoubles) (hvalue : value.isDouble = false) :
    (env.assign name value).NoDoubles := by
  induction env with
  | globals frame => exact Frame.NoDoubles.insert h hvalue name
  | scope frame outer ih =>
    rw [Env.assign]
    split
    · exact ⟨h.1.insert hvalue name, h.2⟩
    · exact ⟨h.1, ih h.2⟩

theorem define (h : env.NoDoubles) (hvalue : value.isDouble = false) (isLocal : Bool) :
    (env.define isLocal name value).NoDoubles := by
  cases isLocal with
  | true => exact h.declare hvalue
  | false => exact h.assign hvalue

theorem exit (h : env.NoDoubles) : env.exit.NoDoubles := by
  cases env with
  | globals frame => exact h
  | scope frame outer => exact h.2

end Env.NoDoubles

/-! ## Operators -/

theorem UnaryOp.isDouble_apply {operator : UnaryOp} {operand value : Value}
    (h : operand.isDouble = false) (hvalue : operator.apply operand = .ok value) :
    value.isDouble = false := by
  unfold apply at hvalue
  split at hvalue
  case h_1 | h_2 =>
    cases hvalue
    rfl
  case h_3 number =>
    cases number with
    | int number =>
      cases hvalue
      rfl
    | float number => cases h
  case h_4 => cases hvalue

/-- Integers give an integer, if anything. -/
theorem Arithmetic.isDouble_apply {operation : Arithmetic} {left right value : Number}
    (hleft : (Value.number left).isDouble = false) (hright : (Value.number right).isDouble = false)
    (hvalue : operation.apply left right = some value) : (Value.number value).isDouble = false := by
  cases left with
  | float left => cases hleft
  | int left =>
    cases right with
    | float right => cases hright
    | int right =>
      obtain ⟨word, -, rfl⟩ := Option.map_eq_some_iff.1 hvalue
      rfl

theorem BinaryOp.isDouble_apply {operator : BinaryOp} {left right value : Value}
    (hleft : left.isDouble = false) (hright : right.isDouble = false)
    (hvalue : operator.apply left right = .ok value) : value.isDouble = false := by
  unfold apply at hvalue
  split at hvalue
  case h_1 | h_2 =>
    cases hvalue
    split
    · assumption
    · assumption
  case h_3 | h_4 | h_5 | h_6 =>
    cases hvalue
    rfl
  case h_7 =>
    split at hvalue
    next hresult =>
      cases hvalue
      exact Arithmetic.isDouble_apply hleft hright hresult
    next => cases hvalue
  case h_8 => cases hvalue

/-! ## Programs -/

/-- No double comes up, and every execution comes to an end. -/
def Contract.noDoubles : Contract where
  invariant := Env.NoDoubles
  admits value := value.isDouble = false
  missing _ := True
  endless := False
  enter h := ⟨Frame.noDoubles_empty, h⟩
  exit h := h.exit
  define h hvalue isLocal _ := h.define hvalue isLocal
  lookup h hlookup := h.lookup hlookup
  undefined _ _ := trivial
  unary h hvalue := UnaryOp.isDouble_apply h hvalue
  binary hleft hright hvalue := BinaryOp.isDouble_apply hleft hright hvalue
  integer _ := rfl
  double h := nomatch h

/-- A program without conditional loops and doubles comes to an end if no global is a double, and it
needs no budget for that. The loops of such a program count in words; each of them makes the rounds that
are found by going from value to value, and this comes to an end too. -/
theorem Program.ends_without_doubles {program : Program} {globals : Frame}
    (hwhile : Stmt.hasWhileAll program = false)
    (hliterals : ∀ value ∈ Stmt.literalsAll program, value.isDouble = false)
    (hglobals : globals.NoDoubles) (recorded : Bool) :
    (∃ outcome, program.Ends (.ofGlobals globals recorded) outcome ∧
      ∀ budget, run budget program (.ofGlobals globals recorded) = outcome) ∧
      ∀ (start limit step : Int64) (rounds : Rounds),
        Rounds.ofBounds? (.int start) (.int limit) (.int step) = some rounds →
        ∀ (body : Number → Exec Unit) (unused : Nat), ∃ least, ∀ budget, least ≤ budget → ∀ session,
          Exec.countWhile body (fun value ↦ decide (WithinLimit step.toInt value (some limit.toInt)))
            step.toInt budget start.toInt session = rounds.exec unused body session := by
  constructor
  · have hrun : Contract.noDoubles.Governs (run 0 program) := by
      apply Contract.governs_run 0 program hliterals
      intro h
      rw [hwhile] at h
      cases h
    have hmeets := hrun (.ofGlobals globals recorded) hglobals
    have hend : run 0 program (.ofGlobals globals recorded) ≠ .unfinished := by
      intro h
      rw [h] at hmeets
      exact hmeets
    refine ⟨_, ⟨hend, 0, rfl⟩, fun budget ↦ ?_⟩
    exact program.run_below (Nat.zero_le budget) _ hend
  · intro start limit step rounds hrounds
    exact Rounds.exec_eq_countWhile hrounds

/-- The loop of `for i = 9223372036854775806, n do n = 0; end`, where `n` is the greatest integer, makes
its two rounds and ends. -/
theorem Program.ends_without_doubles_greatest :
    ∃ final, final.env.lookup "n" = some (.number (.int 0)) ∧
      ∀ budget, run budget
        [.forLoop ⟨0, 44⟩ ⟨4, 27⟩ "i" (.literal ⟨8, 27⟩ (.number (.int 9223372036854775806)))
          (.name ⟨29, 30⟩ "n") none
          [.assign ⟨34, 40⟩ false "n" (.literal ⟨38, 39⟩ (.number (.int 0)))]]
        (.ofGlobals (.ofList [("n", .number (.int Int64.maxValue))]) false) = .done none final := by
  have hglobals : (Frame.ofList [("n", .number (.int Int64.maxValue))]).NoDoubles :=
    Frame.noDoubles_empty.insert rfl "n"
  obtain ⟨⟨outcome, -, hrun⟩, -⟩ := @ends_without_doubles
    [.forLoop ⟨0, 44⟩ ⟨4, 27⟩ "i" (.literal ⟨8, 27⟩ (.number (.int 9223372036854775806)))
      (.name ⟨29, 30⟩ "n") none
      [.assign ⟨34, 40⟩ false "n" (.literal ⟨38, 39⟩ (.number (.int 0)))]]
    (.ofList [("n", .number (.int Int64.maxValue))]) rfl
    (by simp [Stmt.literalsAll, Stmt.literals, Expr.literals, Expr.literals?, Value.isDouble])
    hglobals false
  refine ⟨_, ?_, fun budget ↦ (hrun budget).trans ((hrun 0).symm.trans rfl)⟩
  rfl

end ScopeScript
