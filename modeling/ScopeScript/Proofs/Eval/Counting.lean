import Mathlib.Algebra.Order.Ring.Int
import ScopeScript.Eval.Statement

/-!
# Counting one value after the other

The number of rounds of a loop over integers is known before its first round. It is the number that is
found by going from value to value: as long as the limit is not passed, and until the next value would
not fit into a word. So such a loop comes to an end, whatever its limit and its step, and no value wraps.
-/

namespace ScopeScript

/-! ## Values within a limit -/

/-- The integer fits into a word. -/
def IsWord (value : Int) : Prop := Int64.minValue.toInt ≤ value ∧ value ≤ Int64.maxValue.toInt

instance (value : Int) : Decidable (IsWord value) := inferInstanceAs (Decidable (_ ∧ _))

/-- The value has not passed the limit; every value has passed a limit that is missing. -/
def WithinLimit (step value : Int) : Option Int → Prop
  | none => False
  | some limit => 0 < step ∧ value ≤ limit ∨ step < 0 ∧ limit ≤ value

instance (step value : Int) : (last : Option Int) → Decidable (WithinLimit step value last)
  | none => inferInstanceAs (Decidable False)
  | some _ => inferInstanceAs (Decidable (_ ∨ _))

theorem isWord_toInt (value : Int64) : IsWord value.toInt :=
  ⟨value.minValue_le_toInt, value.toInt_le⟩

variable {step value : Int} {last : Option Int}

theorem fdiv_sub_self (distance : Int) (hstep : step ≠ 0) :
    (distance - step).fdiv step = distance.fdiv step - 1 := by
  have h := Int.add_mul_fdiv_right distance (-1) hstep
  rwa [neg_one_mul, ← sub_eq_add_neg, ← sub_eq_add_neg] at h

theorem fdiv_nonneg_iff (distance : Int) (hstep : step ≠ 0) :
    0 ≤ distance.fdiv step ↔ 0 < step ∧ 0 ≤ distance ∨ step < 0 ∧ distance ≤ 0 := by
  rcases lt_or_gt_of_ne hstep with hneg | hpos
  · rw [← Int.neg_fdiv_neg, Int.fdiv_eq_ediv_of_nonneg _ (by omega),
      Int.ediv_nonneg_iff_of_pos (by omega)]
    omega
  · rw [Int.fdiv_eq_ediv_of_nonneg _ hpos.le, Int.ediv_nonneg_iff_of_pos hpos]
    omega

theorem roundCount_of_within (h : WithinLimit step value last) :
    roundCount value step last = roundCount (value + step) step last + 1 := by
  cases last with
  | none => exact h.elim
  | some limit =>
    have hstep : step ≠ 0 := by
      rcases h with h | h
      · exact h.1.ne'
      · exact h.1.ne
    have hdistance : limit - (value + step) = limit - value - step := by omega
    have hnonneg : 0 ≤ (limit - value).fdiv step := by
      rw [fdiv_nonneg_iff _ hstep]
      rcases h with ⟨hpos, hle⟩ | ⟨hneg, hle⟩
      · exact .inl ⟨hpos, by omega⟩
      · exact .inr ⟨hneg, by omega⟩
    rw [roundCount, roundCount, hdistance, fdiv_sub_self _ hstep]
    omega

theorem roundCount_of_not_within (hstep : step ≠ 0) (h : ¬WithinLimit step value last) :
    roundCount value step last = 0 := by
  cases last with
  | none => rfl
  | some limit =>
    have hneg : ¬0 ≤ (limit - value).fdiv step := by
      rw [fdiv_nonneg_iff _ hstep]
      contrapose! h
      rcases h with ⟨hpos, hle⟩ | ⟨hneg, hle⟩
      · exact .inl ⟨hpos, by omega⟩
      · exact .inr ⟨hneg, by omega⟩
    rw [roundCount]
    omega

/-- Beyond the words no value is within a limit that is a word. -/
theorem not_within_of_not_isWord (hlast : ∀ limit ∈ last, IsWord limit)
    (h : WithinLimit step value last) (hvalue : IsWord value) (hnext : ¬IsWord (value + step)) :
    ¬WithinLimit step (value + step) last := by
  cases last with
  | none => exact h.elim
  | some limit =>
    obtain ⟨hmin, hmax⟩ := hlast limit rfl
    obtain ⟨hmin', hmax'⟩ := hvalue
    intro hwithin
    apply hnext
    rcases hwithin with ⟨hpos, hle⟩ | ⟨hneg, hle⟩
    · exact ⟨by omega, by omega⟩
    · exact ⟨by omega, by omega⟩

/-! ## Counting -/

namespace Exec

/-- Executes a body for one integer after the other: as long as a test admits it, and until adding the
step would leave the words. Each round uses one unit of the budget. -/
def countWhile (body : Number → Exec Unit) (isWithin : Int → Bool) (step : Int) :
    Nat → Int → Session → Outcome Unit
  | 0, _, _ => .unfinished
  | budget + 1, value, session =>
    if isWithin value then
      (body (.int (.ofInt value)) session).bind fun _ session ↦
        if IsWord (value + step) then countWhile body isWithin step budget (value + step) session
        else .done () session
    else .done () session

/-- Counting with a test that a limit passes makes the rounds that are known beforehand. -/
theorem countWhile_eq_forIntegers (body : Number → Exec Unit) {isWithin : Int → Bool}
    (hstep : step ≠ 0) (hlast : ∀ limit ∈ last, IsWord limit)
    (hwithin : ∀ value, IsWord value → (isWithin value = true ↔ WithinLimit step value last))
    (hvalue : IsWord value) {budget : Nat} (hbudget : roundCount value step last < budget)
    (session : Session) :
    countWhile body isWithin step budget value session =
      forIntegers body step (roundCount value step last) value session := by
  induction budget generalizing value session with
  | zero => exact absurd hbudget (Nat.not_lt_zero _)
  | succ budget ih =>
    rw [countWhile]
    split
    next htest =>
      have h := (hwithin value hvalue).1 htest
      rw [roundCount_of_within h] at hbudget ⊢
      rw [forIntegers]
      congr 1
      funext _ middle
      split
      next hnext => exact ih hnext (Nat.lt_of_succ_lt_succ hbudget) middle
      next hnext =>
        rw [roundCount_of_not_within hstep (not_within_of_not_isWord hlast h hvalue hnext)]
        rfl
    next htest =>
      rw [roundCount_of_not_within hstep fun h ↦ htest ((hwithin value hvalue).2 h)]
      rfl

end Exec

/-- A loop with words as bounds makes its rounds when it goes from value to value. -/
theorem Rounds.exec_eq_countWhile {start limit step : Int64} {rounds : Rounds}
    (h : Rounds.ofBounds? (.int start) (.int limit) (.int step) = some rounds)
    (body : Number → Exec Unit) (unused : Nat) :
    ∃ least, ∀ budget, least ≤ budget → ∀ session,
      Exec.countWhile body (fun value ↦ decide (WithinLimit step.toInt value (some limit.toInt)))
        step.toInt budget start.toInt session = rounds.exec unused body session := by
  rw [Rounds.ofBounds?] at h
  split at h
  next => cases h
  next hstep =>
    cases h
    have hstep' : step.toInt ≠ 0 := fun hzero ↦ hstep (Int64.toInt_inj.1 hzero)
    refine ⟨roundCount start.toInt step.toInt (some limit.toInt) + 1, fun budget hbudget session ↦ ?_⟩
    apply Exec.countWhile_eq_forIntegers body hstep' _ _ (isWord_toInt start) hbudget
    · rintro _ ⟨⟩
      exact isWord_toInt limit
    · exact fun value _ ↦ decide_eq_true_iff

end ScopeScript
