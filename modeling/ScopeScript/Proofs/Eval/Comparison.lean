import ScopeScript.Eval.Expression
import ScopeScript.Proofs.Number.Order

/-!
# Comparing in programs

The operators that compare two numbers decide a relation between their values. With something that is not
a number among the operands no relation holds, so that only the operator for what is not equal gives true.
-/

namespace ScopeScript

/-! ## Relations of values -/

/-- What a relation says about two values. -/
def Relation.Relates : Relation → WithBot (WithTop ℚ) → WithBot (WithTop ℚ) → Prop
  | less, x, y => x < y
  | lessEqual, x, y => x ≤ y
  | greater, x, y => x > y
  | greaterEqual, x, y => x ≥ y

/-- Two numbers have values that are related. -/
def Number.Related (relates : WithBot (WithTop ℚ) → WithBot (WithTop ℚ) → Prop) (a b : Number) : Prop :=
  ∃ x ∈ a.value?, ∃ y ∈ b.value?, relates x y

/-- What is said of the order of two numbers is said of their values. -/
theorem Number.any_compare_iff {p : Ordering → Bool}
    {relates : WithBot (WithTop ℚ) → WithBot (WithTop ℚ) → Prop}
    (h : ∀ x y, p (Ord.compare x y) = true ↔ relates x y) (a b : Number) :
    (a.compare b).any p = true ↔ a.Related relates b := by
  rw [Number.compare_eq, Related]
  cases a.value? with
  | none => simp
  | some x =>
    cases b.value? with
    | none => simp
    | some y => simpa using h x y

theorem Relation.admits_compare_iff (relation : Relation) (x y : WithBot (WithTop ℚ)) :
    relation.admits (compare x y) = true ↔ relation.Relates x y := by
  cases relation with
  | less => exact Ordering.isLT_iff_eq_lt.trans compare_lt_iff_lt
  | lessEqual => exact Std.LawfulLECmp.isLE_iff_le
  | greater => exact Ordering.isGT_iff_eq_gt.trans compare_gt_iff_gt
  | greaterEqual => exact Std.LawfulLECmp.isGE_iff_ge

theorem Relation.holds_iff (relation : Relation) (a b : Number) :
    relation.holds a b = true ↔ a.Related relation.Relates b :=
  Number.any_compare_iff relation.admits_compare_iff a b

theorem Value.equals_number_iff (a b : Number) :
    (Value.number a).equals (.number b) = true ↔ a.Related (· = ·) b := by
  have hany : (Value.number a).equals (.number b) = (a.compare b).any Ordering.isEq := by
    rw [equals]
    rcases a.compare b with _ | _ | _ | _ <;> rfl
  rw [hany]
  exact Number.any_compare_iff (fun x y ↦ Ordering.isEq_iff_eq_eq.trans compare_eq_iff_eq) a b

/-- Among numbers, what is not greater is passed on. -/
theorem Number.lessEqual_trans {a b c : Number} (hab : Relation.lessEqual.holds a b = true)
    (hbc : Relation.lessEqual.holds b c = true) : Relation.lessEqual.holds a c = true := by
  rw [Relation.holds_iff] at hab hbc ⊢
  obtain ⟨x, hx, y, hy, hxy⟩ := hab
  obtain ⟨y', hy', z, hz, hyz⟩ := hbc
  obtain rfl : y = y' := Option.mem_unique hy hy'
  exact ⟨x, hx, z, hz, le_trans hxy hyz⟩

/-! ## Expressions -/

namespace Expr

/-- The value of the expression tells whether something is the case. -/
def Decides (env : Env) (tree : Expr) (p : Prop) : Prop :=
  ∃ result, tree.eval env = .ok (.bool result) ∧ (result = true ↔ p)

variable {env : Env} {left right : Expr} {a b : Number}

section Operators

variable (hleft : left.eval env = .ok (.number a)) (hright : right.eval env = .ok (.number b))
  (span : Span)
include hleft hright

theorem decides_equal :
    (binary span .equal left right).Decides env (a.Related (· = ·) b) := by
  refine ⟨(Value.number a).equals (.number b), ?_, Value.equals_number_iff a b⟩
  rw [eval_binary hleft hright]
  rfl

theorem decides_notEqual :
    (binary span .notEqual left right).Decides env (¬a.Related (· = ·) b) := by
  refine ⟨!(Value.number a).equals (.number b), ?_, ?_⟩
  · rw [eval_binary hleft hright]
    rfl
  · rw [Bool.not_eq_true', ← Bool.not_eq_true, Value.equals_number_iff]

theorem decides_order (relation : Relation) :
    (binary span (.order relation) left right).Decides env (a.Related relation.Relates b) := by
  refine ⟨relation.holds a b, ?_, relation.holds_iff a b⟩
  rw [eval_binary hleft hright]
  rfl

end Operators

/-- Numbers are compared by their values, which are in a linear order. No word is rounded to a double for
it, and the operators of the language decide the relations between the values. -/
theorem compare_decides_values (hleft : left.eval env = .ok (.number a))
    (hright : right.eval env = .ok (.number b)) (span : Span) (c : Number) :
    (a.compare b = none ↔ a.isNaN ∨ b.isNaN) ∧
      a.compare b = Option.map₂ compare a.value? b.value? ∧
      a.compare b = a.compareStepwise b ∧
      b.compare a = (a.compare b).map Ordering.swap ∧
      (a.isNaN = false → a.compare a = some .eq) ∧
      (∀ o, a.compare b = some o → b.compare c = some o → a.compare c = some o) ∧
      (Relation.lessEqual.holds a b = true → Relation.lessEqual.holds b c = true →
        Relation.lessEqual.holds a c = true) ∧
      (binary span .equal left right).Decides env (a.Related (· = ·) b) ∧
      (binary span .notEqual left right).Decides env (¬a.Related (· = ·) b) ∧
      ∀ relation : Relation,
        (binary span (.order relation) left right).Decides env (a.Related relation.Relates b) :=
  ⟨Number.compare_eq_none_iff, Number.compare_eq a b, Number.compare_eq_compareStepwise a b,
    Number.compare_swap a b, Number.compare_self, fun _ ↦ Number.compare_trans,
    Number.lessEqual_trans, decides_equal hleft hright span, decides_notEqual hleft hright span,
    decides_order hleft hright span⟩

/-- Above `2 ^ 53`, a word lies between doubles that follow each other. -/
theorem compare_decides_values_between :
    (Number.int 9007199254740993).compare (.int 9007199254740991) = some .gt ∧
      (Expr.binary ⟨0, 37⟩ (.order .greater) (.literal ⟨0, 16⟩ (.number (.int 9007199254740993)))
          (.literal ⟨19, 37⟩ (.number (.float 9007199254740992.0)))).Decides (.globals .empty)
        ((Number.int 9007199254740993).Related (· > ·) (.float 9007199254740992.0)) := by
  obtain ⟨-, -, -, -, -, htrans, -, -, -, horder⟩ := @compare_decides_values (.globals .empty)
    (.literal ⟨0, 16⟩ (.number (.int 9007199254740993)))
    (.literal ⟨19, 37⟩ (.number (.float 9007199254740992.0))) (.int 9007199254740993)
    (.float 9007199254740992.0) rfl rfl ⟨0, 37⟩ (.int 9007199254740991)
  exact ⟨htrans .gt (by decide) (by decide), horder .greater⟩

end Expr

end ScopeScript
