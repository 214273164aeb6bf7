import ScopeScript.Number.Arithmetic
import ScopeScript.Proofs.Eval.ClippedLimit
import ScopeScript.Proofs.Number.Doubles

/-!
# Numbers are ordered by their values

Numbers of both kinds have values in one linear order: the rational numbers with an infinity at either
end. Comparing two numbers gives the order of their values, however it is found: words as integers,
doubles by the comparisons of doubles, and a word with a double by cutting off the fraction of the double.
So the laws of an order hold for words and doubles in any mixture, as long as all of them are numbers.
-/

namespace ScopeScript

/-! ## Exact values -/

namespace ExactValue

/-- An exact value as one of the rational numbers or infinities. -/
def value? : ExactValue → Option (WithBot (WithTop ℚ))
  | undefined => none
  | negInfinity => some ⊥
  | finite value => some (value.toRat : WithTop ℚ)
  | posInfinity => some (⊤ : WithTop ℚ)

theorem compare_eq (x y : ExactValue) :
    x.compare y = Option.map₂ Ord.compare x.value? y.value? := by
  cases x with
  | undefined => rfl
  | negInfinity | posInfinity => cases y <;> rfl
  | finite a =>
    cases y with
    | undefined | negInfinity | posInfinity => rfl
    | finite b =>
      rw [compare_finite_finite]
      exact congrArg some (compare_coe a.toRat b.toRat).symm

theorem value?_ofParts (parts : DoubleParts) : (ofParts parts).value? = parts.value? := by
  cases parts with
  | nan => rfl
  | infinite negative => cases negative <;> rfl
  | finite negative mantissa exponent =>
    cases negative <;>
      simp [ofParts, value?, DoubleParts.value?, Dyadic.toRat_ofIntWithPrec_eq_mul_two_pow]

end ExactValue

namespace Number

/-- The value of a number, unless it is not a number. -/
def value? : Number → Option (WithBot (WithTop ℚ))
  | int word => some ((word.toInt : ℚ) : WithTop ℚ)
  | float double => (DoubleParts.ofFloat double).value?

/-- Whether a number is a double that is not a number. -/
def isNaN : Number → Bool
  | int _ => false
  | float double => double.isNaN

variable {a b c : Number}

theorem isNaN_iff : a.isNaN ↔ a.value? = none := by
  cases a with
  | int word => exact iff_of_false Bool.false_ne_true (Option.some_ne_none _)
  | float double => exact DoubleParts.isNaN_iff double

theorem value?_exact (a : Number) : a.exact.value? = a.value? := by
  cases a with
  | int word =>
    have hvalue : (Dyadic.ofInt word.toInt).toRat = word.toInt := Dyadic.toRat_intCast _
    exact congrArg (fun x : ℚ ↦ some ((x : WithTop ℚ) : WithBot (WithTop ℚ))) hvalue
  | float double => exact ExactValue.value?_ofParts _

theorem compare_exact (a b : Number) :
    a.exact.compare b.exact = Option.map₂ Ord.compare a.value? b.value? := by
  rw [ExactValue.compare_eq, value?_exact, value?_exact]

theorem compare_intCast (x y : Int) : Ord.compare (x : ℚ) y = Ord.compare x y := by
  rw [← cmp_eq_compare, ← cmp_eq_compare]
  exact Int.cast_strictMono.cmp_map_eq x y

/-- Numbers are compared by their values. -/
theorem compare_eq (a b : Number) : a.compare b = Option.map₂ Ord.compare a.value? b.value? := by
  cases a with
  | float x => exact compare_exact (float x) b
  | int i =>
    cases b with
    | float y => exact compare_exact (int i) (float y)
    | int j => exact congrArg some ((compare_intCast _ _).symm.trans (compare_coe _ _).symm)

/-! ## Laws -/

theorem compare_eq_none_iff : a.compare b = none ↔ a.isNaN ∨ b.isNaN := by
  rw [compare_eq, Option.map₂_eq_none_iff, isNaN_iff, isNaN_iff]

theorem compare_swap (a b : Number) : b.compare a = (a.compare b).map Ordering.swap := by
  rw [compare_eq, compare_eq]
  cases a.value? with
  | none => exact Option.map₂_none_right _ _
  | some x =>
    cases b.value? with
    | none => rfl
    | some y => exact congrArg some Std.OrientedCmp.eq_swap

theorem compare_self (h : a.isNaN = false) : a.compare a = some .eq := by
  rw [compare_eq]
  cases hvalue : a.value? with
  | none => rw [isNaN_iff.2 hvalue] at h; cases h
  | some x => exact congrArg some (compare_eq_iff_eq.2 rfl)

/-- Where two numbers can be compared, both have a value. -/
theorem exists_value_of_compare {o : Ordering} (h : a.compare b = some o) :
    ∃ x y, a.value? = some x ∧ b.value? = some y ∧ Ord.compare x y = o := by
  rw [compare_eq] at h
  exact Option.map₂_eq_some_iff.1 h

theorem compare_trans {o : Ordering} (hab : a.compare b = some o) (hbc : b.compare c = some o) :
    a.compare c = some o := by
  obtain ⟨x, y, hx, hy, hxy⟩ := exists_value_of_compare hab
  obtain ⟨y', z, hy', hz, hyz⟩ := exists_value_of_compare hbc
  obtain rfl : y = y' := Option.some.inj (hy.symm.trans hy')
  rw [compare_eq, hx, hz]
  refine congrArg some ((compare_iff x z).2 ?_)
  rw [compare_iff] at hxy hyz
  cases o with
  | lt => exact lt_trans hxy hyz
  | eq => exact Eq.trans hxy hyz
  | gt => exact gt_trans hxy hyz

/-! ## Steps -/

/-- The order of two numbers as it is found: a word and a double are compared without the fraction of the
double if that settles it. -/
def compareStepwise : Number → Number → Option Ordering
  | int a, int b => some (Ord.compare a.toInt b.toInt)
  | float a, float b => compareDoubles a b
  | int a, float b => (ExactValue.ofFloat b).compareTruncated a.toInt
  | float a, int b => ((ExactValue.ofFloat a).compareTruncated b.toInt).map Ordering.swap

theorem compare_eq_compareStepwise (a b : Number) : a.compare b = a.compareStepwise b := by
  have hmixed (word : Int64) (double : Float) : (int word).compare (float double) =
      (ExactValue.ofFloat double).compareTruncated word.toInt :=
    ExactValue.compare_eq_compareTruncated (isWord_toInt word) _
  cases a with
  | int i =>
    cases b with
    | int j => rfl
    | float y => exact hmixed i y
  | float x =>
    cases b with
    | int j => rw [compare_swap, hmixed, compareStepwise]
    | float y => rw [compare_eq, compareStepwise, compareDoubles_eq, value?, value?]

end Number

end ScopeScript
