import Mathlib.Algebra.Ring.Int.Defs
import ScopeScript.Eval.Expression

/-!
# Arithmetic on words

Arithmetic on words is arithmetic on integers modulo `2 ^ 64`: a word names the residue that lies from
`-2 ^ 63` up to `2 ^ 63`. Sums, differences and products wrap; a quotient is truncated towards zero and
leaves a remainder under the sign of the dividend. Only the quotient of the least word and minus one
wraps. Since words are a ring, what was divided can be put together again even there.
-/

namespace ScopeScript

/-! ## Words and integers -/

/-- The word is the representative of an integer modulo `2 ^ 64`. -/
def Represents (word : Int64) (value : Int) : Prop :=
  -2 ^ 63 ≤ word.toInt ∧ word.toInt < 2 ^ 63 ∧ word.toInt % 2 ^ 64 = value % 2 ^ 64

theorem represents_ofInt (value : Int) : Represents (.ofInt value) value := by
  refine ⟨Int64.le_toInt _, Int64.toInt_lt _, ?_⟩
  rw [Int64.toInt_ofInt]
  exact Int.bmod_emod

theorem represents_of_ofInt_eq {word : Int64} {value : Int} (h : Int64.ofInt value = word) :
    Represents word value := h ▸ represents_ofInt value

theorem represents_add (a b : Int64) : Represents (a + b) (a.toInt + b.toInt) := by
  apply represents_of_ofInt_eq
  rw [Int64.ofInt_add, Int64.ofInt_toInt, Int64.ofInt_toInt]

theorem represents_sub (a b : Int64) : Represents (a - b) (a.toInt - b.toInt) := by
  apply represents_of_ofInt_eq
  rw [Int64.ofInt_sub, Int64.ofInt_toInt, Int64.ofInt_toInt]

theorem represents_mul (a b : Int64) : Represents (a * b) (a.toInt * b.toInt) := by
  apply represents_of_ofInt_eq
  rw [Int64.ofInt_mul, Int64.ofInt_toInt, Int64.ofInt_toInt]

theorem represents_neg (a : Int64) : Represents (-a) (-a.toInt) := by
  apply represents_of_ofInt_eq
  rw [Int64.ofInt_neg, Int64.ofInt_toInt]

theorem ofInt_tdiv_toInt (a b : Int64) : Int64.ofInt (a.toInt.tdiv b.toInt) = a / b := by
  rw [Int64.ofInt_eq_iff_bmod_eq_toInt, Int64.toInt_div]

theorem ofInt_tmod_toInt (a b : Int64) : Int64.ofInt (a.toInt.tmod b.toInt) = a % b := by
  rw [← Int64.toInt_mod, Int64.ofInt_toInt]

/-- Quotient and remainder are those of integers, but where the quotient is too large for a word. -/
theorem div_mod_eq (a b : Int64) :
    if a = Int64.minValue ∧ b = -1 then a / b = Int64.minValue ∧ a % b = 0
    else (a / b).toInt = a.toInt.tdiv b.toInt ∧ (a % b).toInt = a.toInt.tmod b.toInt := by
  split
  next h =>
    obtain ⟨rfl, rfl⟩ := h
    exact ⟨rfl, rfl⟩
  next h =>
    refine ⟨?_, Int64.toInt_mod a b⟩
    by_cases ha : a = Int64.minValue
    · exact Int64.toInt_div_of_ne_right a b fun hb ↦ h ⟨ha, hb⟩
    · exact Int64.toInt_div_of_ne_left a b ha

/-- What was divided can be put together again, by a product that may wrap. -/
theorem div_mul_add_mod (a b : Int64) : a / b * b + a % b = a :=
  calc a / b * b + a % b
      = Int64.ofInt (a.toInt.tdiv b.toInt) * Int64.ofInt b.toInt +
          Int64.ofInt (a.toInt.tmod b.toInt) := by
        rw [ofInt_tdiv_toInt, ofInt_tmod_toInt, Int64.ofInt_toInt]
    _ = Int64.ofInt (a.toInt.tdiv b.toInt * b.toInt + a.toInt.tmod b.toInt) := by
        rw [Int64.ofInt_add, Int64.ofInt_mul]
    _ = a := by rw [Int.tdiv_mul_add_tmod, Int64.ofInt_toInt]

theorem natAbs_mod_lt (a : Int64) {b : Int64} (h : b ≠ 0) :
    (a % b).toInt.natAbs < b.toInt.natAbs := by
  have hb : b.toInt ≠ 0 := fun hzero ↦ h (Int64.toInt_inj.1 hzero)
  rw [Int64.toInt_mod, Int.natAbs_tmod]
  exact Nat.mod_lt _ (Int.natAbs_pos.2 hb)

/-- Of the operations on words, the divisions alone lack a result, and for the divisor zero only. -/
theorem Arithmetic.onWords_eq_none_iff (operation : Arithmetic) (a b : Int64) :
    operation.onWords a b = none ↔ (operation = .divide ∨ operation = .modulo) ∧ b = 0 := by
  cases operation <;> simp [onWords]

theorem Arithmetic.onWords_divide (a : Int64) {b : Int64} (h : b ≠ 0) :
    divide.onWords a b = some (a / b) := if_neg h

theorem Arithmetic.onWords_modulo (a : Int64) {b : Int64} (h : b ≠ 0) :
    modulo.onWords a b = some (a % b) := if_neg h

/-! ## Expressions -/

namespace Expr

variable {env : Env} {left right : Expr} {a b : Int64}

theorem eval_group {value : Value} (h : left.eval env = .ok value) (span : Span) :
    (group span left).eval env = .ok value := h

theorem eval_negate (hleft : left.eval env = .ok (.number (.int a))) (span : Span) :
    (unary span .negate left).eval env = .ok (.number (.int (-a))) := by
  rw [eval, hleft]
  rfl

/-- The value of the expression is the representative of an integer modulo `2 ^ 64`. -/
def Wraps (env : Env) (tree : Expr) (value : Int) : Prop :=
  ∃ word, tree.eval env = .ok (.number (.int word)) ∧ Represents word value

theorem eval_arithmetic (hleft : left.eval env = .ok (.number (.int a)))
    (hright : right.eval env = .ok (.number (.int b))) (span : Span) (operation : Arithmetic)
    {word : Int64} (h : operation.onWords a b = some word) :
    (binary span (.arithmetic operation) left right).eval env = .ok (.number (.int word)) := by
  rw [eval_binary hleft hright, BinaryOp.apply, Arithmetic.apply, h]
  rfl

/-- An operation on words fails only where it has no result, and then it names its operator. -/
theorem eval_arithmetic_eq_error_iff (hleft : left.eval env = .ok (.number (.int a)))
    (hright : right.eval env = .ok (.number (.int b))) (span : Span) (operation : Arithmetic) :
    (binary span (.arithmetic operation) left right).eval env =
        .error ⟨.divisionByZero (BinaryOp.arithmetic operation).text, span⟩ ↔
      operation.onWords a b = none := by
  cases hword : operation.onWords a b with
  | some word => simp [eval_arithmetic hleft hright span operation hword]
  | none =>
    rw [eval_binary hleft hright, BinaryOp.apply, Arithmetic.apply, hword]
    exact ⟨fun _ ↦ rfl, fun _ ↦ rfl⟩

/-! ## Laws -/

/-- `((left / right) * right) + (left % right)`, whose nodes have any spans. -/
def recomposed (place : Nat → Span) (left right : Expr) : Expr :=
  let quotient := group (place 0) (binary (place 1) (.arithmetic .divide) left right)
  let product := group (place 2) (binary (place 3) (.arithmetic .multiply) quotient right)
  let remainder := group (place 4) (binary (place 5) (.arithmetic .modulo) left right)
  binary (place 6) (.arithmetic .add) product remainder

/-- `-(-operand)`. -/
def negatedTwice (place : Nat → Span) (operand : Expr) : Expr :=
  unary (place 0) .negate (group (place 1) (unary (place 2) .negate operand))

/-- `(left + right) - right`. -/
def restored (place : Nat → Span) (left right : Expr) : Expr :=
  let sum := group (place 0) (binary (place 1) (.arithmetic .add) left right)
  binary (place 2) (.arithmetic .subtract) sum right

theorem eval_recomposed (hleft : left.eval env = .ok (.number (.int a)))
    (hright : right.eval env = .ok (.number (.int b))) (hb : b ≠ 0) (place : Nat → Span) :
    (recomposed place left right).eval env = .ok (.number (.int a)) := by
  have hquotient := eval_group
    (eval_arithmetic hleft hright (place 1) .divide (Arithmetic.onWords_divide a hb)) (place 0)
  have hproduct := eval_group (eval_arithmetic hquotient hright (place 3) .multiply rfl) (place 2)
  have hremainder := eval_group
    (eval_arithmetic hleft hright (place 5) .modulo (Arithmetic.onWords_modulo a hb)) (place 4)
  have hsum := eval_arithmetic hproduct hremainder (place 6) .add rfl
  rwa [div_mul_add_mod] at hsum

theorem eval_negatedTwice (h : left.eval env = .ok (.number (.int a))) (place : Nat → Span) :
    (negatedTwice place left).eval env = .ok (.number (.int a)) := by
  have hinner := eval_group (eval_negate h (place 2)) (place 1)
  have houter := eval_negate hinner (place 0)
  rwa [Int64.neg_neg] at houter

theorem eval_restored (hleft : left.eval env = .ok (.number (.int a)))
    (hright : right.eval env = .ok (.number (.int b))) (place : Nat → Span) :
    (restored place left right).eval env = .ok (.number (.int a)) := by
  have hsum := eval_group (eval_arithmetic hleft hright (place 1) .add rfl) (place 0)
  have hrest := eval_arithmetic hsum hright (place 2) .subtract rfl
  rwa [Int64.add_sub_cancel] at hrest

/-- Arithmetic on words is that of integers: sums, differences, products and negatives wrap, and
division fails by zero only and wraps in a single case. -/
theorem eval_words (hleft : left.eval env = .ok (.number (.int a)))
    (hright : right.eval env = .ok (.number (.int b))) (span : Span) (place : Nat → Span) :
    (binary span (.arithmetic .add) left right).Wraps env (a.toInt + b.toInt) ∧
      (binary span (.arithmetic .subtract) left right).Wraps env (a.toInt - b.toInt) ∧
      (binary span (.arithmetic .multiply) left right).Wraps env (a.toInt * b.toInt) ∧
      (unary span .negate left).Wraps env (-a.toInt) ∧
      ((binary span (.arithmetic .divide) left right).eval env =
        .error ⟨.divisionByZero "/", span⟩ ↔ b = 0) ∧
      ((binary span (.arithmetic .modulo) left right).eval env =
        .error ⟨.divisionByZero "%", span⟩ ↔ b = 0) ∧
      (b ≠ 0 → ∃ quotient remainder,
        (binary span (.arithmetic .divide) left right).eval env = .ok (.number (.int quotient)) ∧
          (binary span (.arithmetic .modulo) left right).eval env =
            .ok (.number (.int remainder)) ∧
          (if a = Int64.minValue ∧ b = -1 then quotient = Int64.minValue ∧ remainder = 0
            else quotient.toInt = a.toInt.tdiv b.toInt ∧
              remainder.toInt = a.toInt.tmod b.toInt) ∧
          remainder.toInt.natAbs < b.toInt.natAbs ∧
          (recomposed place left right).eval env = .ok (.number (.int a))) ∧
      (negatedTwice place left).eval env = .ok (.number (.int a)) ∧
      (restored place left right).eval env = .ok (.number (.int a)) := by
  have hfails (operation : Arithmetic) :=
    (eval_arithmetic_eq_error_iff hleft hright span operation).trans (operation.onWords_eq_none_iff a b)
  refine ⟨?add, ?subtract, ?multiply, ?negate, ?divides, ?modulo, fun hb ↦ ?division,
    eval_negatedTwice hleft place, eval_restored hleft hright place⟩
  case add => exact ⟨a + b, eval_arithmetic hleft hright span .add rfl, represents_add a b⟩
  case subtract => exact ⟨a - b, eval_arithmetic hleft hright span .subtract rfl, represents_sub a b⟩
  case multiply => exact ⟨a * b, eval_arithmetic hleft hright span .multiply rfl, represents_mul a b⟩
  case negate => exact ⟨-a, eval_negate hleft span, represents_neg a⟩
  case divides => exact (hfails .divide).trans (and_iff_right (.inl rfl))
  case modulo => exact (hfails .modulo).trans (and_iff_right (.inr rfl))
  case division =>
    have hquotient := eval_arithmetic hleft hright span .divide (Arithmetic.onWords_divide a hb)
    have hremainder := eval_arithmetic hleft hright span .modulo (Arithmetic.onWords_modulo a hb)
    exact ⟨a / b, a % b, hquotient, hremainder, div_mod_eq a b, natAbs_mod_lt a hb,
      eval_recomposed hleft hright hb place⟩

/-- The quotient of the least word and minus one is too large for a word, and yet the least word can
be put together from it. -/
theorem eval_words_least :
    (recomposed (fun index ↦ ⟨index, index + 1⟩) (.literal ⟨0, 0⟩ (.number (.int Int64.minValue)))
        (.literal ⟨0, 0⟩ (.number (.int (-1))))).eval (.globals .empty) =
      .ok (.number (.int Int64.minValue)) := by
  have hwords := @eval_words (.globals .empty) (.literal ⟨0, 0⟩ (.number (.int Int64.minValue)))
    (.literal ⟨0, 0⟩ (.number (.int (-1)))) Int64.minValue (-1) rfl rfl ⟨0, 0⟩
    fun index ↦ ⟨index, index + 1⟩
  obtain ⟨-, -, -, -, -, -, hdivision, -⟩ := hwords
  obtain ⟨_, _, -, -, -, -, hrecomposed⟩ := hdivision (by decide)
  exact hrecomposed

end Expr

end ScopeScript
