import Mathlib.Algebra.Order.Field.Rat
import Mathlib.Order.Compare
import ScopeScript.Proofs.Eval.Progression

/-!
# Doubles as limits of loops over integers

A double limit is rounded towards the start of the loop and brought into the range of words, once and for
all rounds. The language compares an integer with a double in another way: it cuts off the fraction of a
double in the range of words and casts what is left to a word, and the fraction decides only where the
words are equal. Both agree with the exact values, for words and for all doubles, so the loop takes the
values that a counter takes when every one of them is compared with the double itself.
-/

namespace ScopeScript

/-! ## Comparing with an integer -/

/-- A rational number without its fraction. -/
def truncate (value : ℚ) : Int := if 0 ≤ value then value.floor else value.ceil

theorem lt_of_lt_truncate {value : Int} {limit : ℚ} (h : value < truncate limit) :
    (value : ℚ) < limit := by
  unfold truncate at h
  split at h
  · calc
      (value : ℚ) < limit.floor := Rat.intCast_lt_intCast.2 h
      _ ≤ limit := Rat.floor_le limit
  · exact Rat.lt_ceil_iff.1 h

theorem lt_of_truncate_lt {value : Int} {limit : ℚ} (h : truncate limit < value) : limit < value := by
  unfold truncate at h
  split at h
  · exact Rat.floor_lt_iff.1 h
  · calc
      limit ≤ limit.ceil := Rat.le_ceil
      _ < value := Rat.intCast_lt_intCast.2 h

/-- What a rational number in the range of words is without its fraction can be cast to a word. -/
theorem isWord_truncate {limit : ℚ} (hmin : -2 ^ 63 ≤ limit) (hmax : limit < 2 ^ 63) :
    IsWord (truncate limit) := by
  have hlow : Int64.minValue.toInt = -2 ^ 63 := rfl
  have hhigh : Int64.maxValue.toInt = 2 ^ 63 - 1 := rfl
  unfold truncate IsWord
  rw [hlow, hhigh]
  split
  next hpos =>
    have hfloor : 0 ≤ limit.floor := Rat.le_floor_iff.2 hpos
    have hlt : limit.floor < 2 ^ 63 := Rat.floor_lt_iff.2 (mod_cast hmax)
    omega
  next hneg =>
    have hceil : limit.ceil ≤ 0 := Rat.ceil_le_iff.2 (Rat.not_le.1 hneg).le
    have hle : -2 ^ 63 ≤ limit.ceil := by
      have hle' : ((-2 ^ 63 : Int) : ℚ) ≤ limit.ceil := le_trans (mod_cast hmin) Rat.le_ceil
      exact Rat.intCast_le_intCast.1 hle'
    omega

/-- The word nearest to an integer, which a cast of a double to a word gives. -/
def nearestWord (value : Int) : Int64 :=
  if Int64.maxValue.toInt < value then Int64.maxValue
  else if value < Int64.minValue.toInt then Int64.minValue
  else .ofInt value

theorem toInt_nearestWord {value : Int} (h : IsWord value) : (nearestWord value).toInt = value := by
  rw [nearestWord, if_neg (Int.not_lt.2 h.2), if_neg (Int.not_lt.2 h.1), toInt_ofInt_of_isWord h]

/-- Numbers with one integer in them are ordered as their fractions are. -/
theorem compare_zero_sub (value limit : ℚ) : compare 0 (limit - value) = compare value limit := by
  rcases lt_trichotomy value limit with h | rfl | h
  · rw [compare_lt_iff_lt.2 h, compare_lt_iff_lt.2 (sub_pos.2 h)]
  · rw [sub_self, compare_eq_iff_eq.2 rfl, compare_eq_iff_eq.2 rfl]
  · rw [compare_gt_iff_gt.2 h, compare_gt_iff_gt.2 (sub_neg.2 h)]

/-- The order of a word and a rational number: outside the range of words the range decides, inside it the
words without a fraction, and then the fraction. A double without its fraction is a double, and so is the
fraction, so that neither of them is rounded; the cast to a word is exact because of the range. -/
def compareTruncated (value : Int) (limit : ℚ) : Ordering :=
  if 2 ^ 63 ≤ limit then .lt
  else if limit < -2 ^ 63 then .gt
  else (compare value (nearestWord (truncate limit)).toInt).then (compare 0 (limit - truncate limit))

theorem compareTruncated_eq {value : Int} (h : IsWord value) (limit : ℚ) :
    compareTruncated value limit = compare (value : ℚ) limit := by
  have hmin : -2 ^ 63 ≤ (value : ℚ) := Rat.intCast_le_intCast.2 h.1
  have hmax : (value : ℚ) < 2 ^ 63 := Rat.intCast_lt_intCast.2 (Int.lt_of_le_sub_one h.2)
  unfold compareTruncated
  split
  next hlarge => exact (compare_lt_iff_lt.2 (hmax.trans_le hlarge)).symm
  next hlarge =>
    split
    next hsmall => exact (compare_gt_iff_gt.2 (hsmall.trans_le hmin)).symm
    next hsmall =>
      rw [toInt_nearestWord (isWord_truncate (not_lt.1 hsmall) (not_le.1 hlarge))]
      cases horder : compare value (truncate limit) with
      | lt => exact (compare_lt_iff_lt.2 (lt_of_lt_truncate (compare_lt_iff_lt.1 horder))).symm
      | gt => exact (compare_gt_iff_gt.2 (lt_of_truncate_lt (compare_gt_iff_gt.1 horder))).symm
      | eq =>
        rw [compare_eq_iff_eq.1 horder, Ordering.eq_then]
        exact compare_zero_sub _ limit

namespace ExactValue

/-- The order of a word and an exact value, found without the fraction of the value if it can be. -/
def compareTruncated (value : Int) : ExactValue → Option Ordering
  | undefined => none
  | negInfinity => some .gt
  | finite limit => some (ScopeScript.compareTruncated value limit.toRat)
  | posInfinity => some .lt

theorem compare_finite_finite (x y : Dyadic) :
    (finite x).compare (finite y) = some (Ord.compare x.toRat y.toRat) := by
  simp only [compare, ← Dyadic.toRat_lt_toRat_iff]
  rcases lt_trichotomy x.toRat y.toRat with h | h | h
  · rw [if_pos h, compare_lt_iff_lt.2 h]
  · rw [if_neg h.not_lt, if_neg h.symm.not_lt, compare_eq_iff_eq.2 h]
  · rw [if_neg h.not_gt, if_pos h, compare_gt_iff_gt.2 h]

theorem compare_finite (value : Int) (limit : Dyadic) :
    (ofInt value).compare (finite limit) = some (Ord.compare (value : ℚ) limit.toRat) := by
  rw [ofInt, compare_finite_finite]
  exact congrArg (fun x ↦ some (Ord.compare x limit.toRat)) (Dyadic.toRat_intCast value)

theorem compare_eq_compareTruncated {value : Int} (h : IsWord value) (limit : ExactValue) :
    (ofInt value).compare limit = limit.compareTruncated value := by
  cases limit with
  | undefined | negInfinity | posInfinity => rfl
  | finite limit => rw [compare_finite, compareTruncated, compareTruncated_eq h]

end ExactValue

/-! ## Limits -/

section

variable {step value : Int}

theorem within_clampLimit (hstep : step ≠ 0) (hvalue : IsWord value) (limit : Int) :
    WithinLimit step value (clampLimit (decide (0 < step)) limit) ↔
      0 < step ∧ value ≤ limit ∨ step < 0 ∧ limit ≤ value := by
  obtain ⟨hmin, hmax⟩ := hvalue
  unfold clampLimit
  rcases Int.lt_or_gt_of_ne hstep with hneg | hpos
  · rw [decide_eq_false hneg.not_gt, if_neg Bool.false_ne_true, if_neg Bool.false_ne_true]
    split
    next hlarge => rw [WithinLimit, false_iff]; omega
    next =>
      split
      next hsmall => rw [WithinLimit]; omega
      next => rw [WithinLimit]
  · rw [decide_eq_true hpos, if_pos rfl, if_pos rfl]
    split
    next hlarge => rw [WithinLimit]; omega
    next =>
      split
      next hsmall => rw [WithinLimit, false_iff]; omega
      next => rw [WithinLimit]

theorem isWord_of_mem_clampLimit {ascending : Bool} {limit : Int} :
    ∀ bound ∈ clampLimit ascending limit, IsWord bound := by
  intro bound hbound
  unfold clampLimit at hbound
  split at hbound
  next =>
    cases ascending <;> cases hbound
    exact isWord_toInt Int64.maxValue
  next hlarge =>
    split at hbound
    next =>
      cases ascending <;> cases hbound
      exact isWord_toInt Int64.minValue
    next hsmall =>
      cases hbound
      exact ⟨Int.not_lt.1 hsmall, Int.not_lt.1 hlarge⟩

end

namespace ExactValue

/-- The last integer within a limit that has this exact value. -/
def integerLimit (ascending : Bool) : ExactValue → Option Int
  | undefined => none
  | negInfinity => if ascending then none else some Int64.minValue.toInt
  | posInfinity => if ascending then some Int64.maxValue.toInt else none
  | finite limit => clampLimit ascending (if ascending then limit.toRat.floor else limit.toRat.ceil)

theorem isWord_of_mem_integerLimit {ascending : Bool} {limit : ExactValue} :
    ∀ bound ∈ limit.integerLimit ascending, IsWord bound := by
  intro bound hbound
  cases limit with
  | undefined => cases hbound
  | negInfinity =>
    cases ascending <;> cases hbound
    exact isWord_toInt Int64.minValue
  | posInfinity =>
    cases ascending <;> cases hbound
    exact isWord_toInt Int64.maxValue
  | finite limit => exact isWord_of_mem_clampLimit bound hbound

/-- A word is within what remains of a limit if it compares with the limit as it must. -/
theorem within_integerLimit {step value : Int} (hstep : step ≠ 0) (hvalue : IsWord value)
    (limit : ExactValue) :
    WithinLimit step value (limit.integerLimit (decide (0 < step))) ↔
      ((ofInt value).compare limit).any
        (if 0 < step then Relation.lessEqual else .greaterEqual).admits = true := by
  rcases Int.lt_or_gt_of_ne hstep with hneg | hpos
  · rw [decide_eq_false hneg.not_gt, if_neg hneg.not_gt]
    cases limit with
    | undefined | posInfinity => exact iff_of_false id Bool.false_ne_true
    | negInfinity => exact iff_of_true (.inr ⟨hneg, hvalue.1⟩) rfl
    | finite limit =>
      have hclamp := within_clampLimit hstep hvalue limit.toRat.ceil
      rw [decide_eq_false hneg.not_gt] at hclamp
      rw [compare_finite]
      calc
        WithinLimit step value (clampLimit false limit.toRat.ceil) ↔ limit.toRat.ceil ≤ value := by
          rw [hclamp]
          omega
        _ ↔ limit.toRat ≤ value := Rat.ceil_le_iff
        _ ↔ (Ord.compare (value : ℚ) limit.toRat).isGE = true := Std.LawfulLECmp.isGE_iff_ge.symm
  · rw [decide_eq_true hpos, if_pos hpos]
    cases limit with
    | undefined | negInfinity => exact iff_of_false id Bool.false_ne_true
    | posInfinity => exact iff_of_true (.inl ⟨hpos, hvalue.2⟩) rfl
    | finite limit =>
      have hclamp := within_clampLimit hstep hvalue limit.toRat.floor
      rw [decide_eq_true hpos] at hclamp
      rw [compare_finite]
      calc
        WithinLimit step value (clampLimit true limit.toRat.floor) ↔ value ≤ limit.toRat.floor := by
          rw [hclamp]
          omega
        _ ↔ (value : ℚ) ≤ limit.toRat := Rat.le_floor_iff
        _ ↔ (Ord.compare (value : ℚ) limit.toRat).isLE = true := Std.LawfulLECmp.isLE_iff_le.symm

end ExactValue

theorem integerLimit_float (ascending : Bool) (limit : Float) :
    (Number.float limit).integerLimit ascending = (ExactValue.ofFloat limit).integerLimit ascending := by
  rw [Number.integerLimit]
  cases ExactValue.ofFloat limit <;> rfl

/-! ## Loops -/

/-- The relation to the limit that a value needs for another round. -/
def Relation.towards (step : Int64) : Relation := if 0 < step then .lessEqual else .greaterEqual

theorem holds_towards_iff {step : Int64} (hstep : step ≠ 0) (limit : Float) (value : Int64) :
    (Relation.towards step).holds (.int value) (.float limit) = true ↔
      WithinLimit step.toInt value.toInt
        ((ExactValue.ofFloat limit).integerLimit (decide (0 < step.toInt))) := by
  have htowards : Relation.towards step = if 0 < step.toInt then .lessEqual else .greaterEqual := by
    simp only [Relation.towards, Int64.lt_iff_toInt_lt, Int64.toInt_zero]
  rw [ExactValue.within_integerLimit (toInt_ne_zero hstep) (isWord_toInt value), ← htowards]
  rfl

namespace Stmt

/-- A loop over integers with a double as limit makes its rounds for the values that a counter takes when
the language compares each of them with the double. That comparison is by exact values, although it cuts off
the fraction of the double where it can. -/
theorem exec_forLoop_double {init limit : Expr} {step : Option Expr} {session : Session}
    {start stride : Int64} {last : Float}
    (hbounds : Expr.BoundsAre session.env init limit step (.int start) (.float last) (.int stride))
    (hstride : stride ≠ 0) (budget : Nat) (span initSpan : Span) (name : String) (body : List Stmt) :
    ∃ values : List Int64,
      (∀ others, Counted (fun value ↦ (Relation.towards stride).holds (.int value) (.float last)) stride
        start others ↔ others = values) ∧
      (forLoop span initSpan name init limit step body).exec budget session =
        forM values (fun value ↦ Exec.round name (execAll budget body) (.int value)) session ∧
      ∀ value : Int64, (Number.int value).compare (.float last) =
        (ExactValue.ofFloat last).compareTruncated value.toInt := by
  let reached := (ExactValue.ofFloat last).integerLimit (decide (0 < stride.toInt))
  let count := roundCount start.toInt stride.toInt reached
  have hrounds : Rounds.ofBounds? (.int start) (.float last) (.int stride) =
      some (.integers start.toInt stride.toInt count) := by
    rw [Rounds.ofBounds?, if_neg hstride, integerLimit_float]
  have hcounted : Counted (fun value ↦ (Relation.towards stride).holds (.int value) (.float last)) stride
      start (progression start.toInt stride.toInt count) :=
    counted_progression hstride ExactValue.isWord_of_mem_integerLimit (holds_towards_iff hstride last)
  refine ⟨progression start.toInt stride.toInt count, fun others ↦ ⟨?_, ?_⟩, ?_, ?_⟩
  · exact fun h ↦ h.unique hcounted
  · rintro rfl
    exact hcounted
  · exact exec_forLoop_integers hbounds hrounds budget span initSpan name body
  · exact fun value ↦ ExactValue.compare_eq_compareTruncated (isWord_toInt value) _

/-- A loop down from three to two and a half. -/
theorem exec_forLoop_double_fraction :
    ∃ values : List Int64,
      Counted (fun value ↦ (Relation.towards (-1)).holds (.int value) (.float 2.5)) (-1) 3 values ∧
      (forLoop ⟨0, 26⟩ ⟨4, 9⟩ "i" (.literal ⟨8, 9⟩ (.number (.int 3)))
          (.literal ⟨11, 14⟩ (.number (.float 2.5))) (some (.literal ⟨16, 18⟩ (.number (.int (-1)))))
          []).exec 0 (.ofGlobals .empty false) =
        forM values (fun value ↦ Exec.round "i" (execAll 0 []) (.int value)) (.ofGlobals .empty false) := by
  have hbounds : Expr.BoundsAre (Session.ofGlobals .empty false).env (.literal ⟨8, 9⟩ (.number (.int 3)))
      (.literal ⟨11, 14⟩ (.number (.float 2.5))) (some (.literal ⟨16, 18⟩ (.number (.int (-1)))))
      (.int 3) (.float 2.5) (.int (-1)) := ⟨rfl, rfl, rfl⟩
  have hstride : (-1 : Int64) ≠ 0 := by decide
  obtain ⟨values, hcounted, hloop, -⟩ :=
    exec_forLoop_double hbounds hstride 0 ⟨0, 26⟩ ⟨4, 9⟩ "i" []
  exact ⟨values, (hcounted values).2 rfl, hloop⟩

end Stmt

end ScopeScript
