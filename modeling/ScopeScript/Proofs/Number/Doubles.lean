import Mathlib
import ScopeScript.Number.Double

/-!
# The values of doubles

A finite double denotes the rational number that its parts spell out; the infinities lie at the ends of
the rational numbers, and what is not a number denotes nothing. The parts are read from the bits as in
the logical model of doubles, where two doubles are compared by their exponents first and then by their
mantissas. That this is the order of their values is due to a normal form: but for the smallest exponent,
a mantissa has all of its fifty-three bits.
-/

namespace ScopeScript

open Float.Model Float.Model.UnpackedFloat

/-! ## Comparing rational numbers -/

theorem compare_coe (x y : ℚ) :
    compare ((x : WithTop ℚ) : WithBot (WithTop ℚ)) ((y : WithTop ℚ) : WithBot (WithTop ℚ)) =
      compare x y := by
  rw [← cmp_eq_compare, ← cmp_eq_compare]
  exact (WithBot.coe_strictMono.comp WithTop.coe_strictMono).cmp_map_eq x y

theorem compare_neg_neg (x y : ℚ) : compare (-x) (-y) = (compare x y).swap := by
  rcases lt_trichotomy x y with h | rfl | h
  · rw [compare_lt_iff_lt.2 h, compare_gt_iff_gt.2 (neg_lt_neg h), Ordering.swap]
  · rw [compare_eq_iff_eq.2 rfl, compare_eq_iff_eq.2 rfl, Ordering.swap]
  · rw [compare_gt_iff_gt.2 h, compare_lt_iff_lt.2 (neg_lt_neg h), Ordering.swap]

/-! ## The fields of a double -/

/-- Whether a sign is that of the numbers below zero. -/
def isNegative : Sign → Bool
  | .negative => true
  | .positive => false

theorem isNegative_ofBitVec (bit : BitVec 1) :
    isNegative (.ofBitVec bit) = decide (bit.toNat = 1) := by
  revert bit
  decide

section Fields

variable (bits : BitVec 64)

theorem toNat_unpackMantissa : (@unpackMantissa .binary64 bits).toNat = bits.toNat % 2 ^ 52 := by
  rw [unpackMantissa_def, BitVec.extractLsb'_toNat, Nat.shiftRight_zero]

theorem toNat_unpackExponent :
    (@unpackExponent .binary64 bits).toNat = bits.toNat / 2 ^ 52 % 2 ^ 11 := by
  rw [unpackExponent_def, BitVec.extractLsb'_toNat, Nat.shiftRight_eq_div_pow]

theorem toNat_unpackSign : (@unpackSign .binary64 bits).toNat = bits.toNat / 2 ^ 63 % 2 := by
  rw [unpackSign_def, BitVec.extractLsb'_toNat, Nat.shiftRight_eq_div_pow]
  rfl

theorem toNat_one_append (low : BitVec 52) : (1#1 ++ low).toNat = 2 ^ 52 + low.toNat := by
  rw [BitVec.toNat_append, ← Nat.shiftLeft_add_eq_or_of_lt low.isLt]
  rfl

end Fields

namespace DoubleParts

/-- The parts that three fields stand for. -/
def ofFields (negative : Bool) (field low : Nat) : DoubleParts :=
  if field = 2047 then
    if low = 0 then infinite negative else nan
  else if field = 0 then finite negative low minExponent
  else finite negative (2 ^ 52 + low) (field - 1075)

/-- The parts of an unpacked double. -/
def ofUnpacked : UnpackedFloat → DoubleParts
  | .notANumber => nan
  | .infinity sign => infinite (isNegative sign)
  | .zero sign => finite (isNegative sign) 0 minExponent
  | .finite sign mantissa exponent _ => finite (isNegative sign) mantissa exponent

theorem ofUnpacked_unpack (bits : BitVec 64) :
    ofUnpacked (UnpackedFloat.unpack .binary64 bits) =
      ofFields (isNegative (.ofBitVec (@unpackSign .binary64 bits)))
        (@unpackExponent .binary64 bits).toNat (@unpackMantissa .binary64 bits).toNat := by
  have hones (field : BitVec 11) : field = -1#11 ↔ field.toNat = 2047 := BitVec.toNat_inj.symm
  have hzeros (field : BitVec 11) : field = 0#11 ↔ field.toNat = 0 := BitVec.toNat_inj.symm
  have hempty (low : BitVec 52) : low = 0#52 ↔ low.toNat = 0 := BitVec.toNat_inj.symm
  rw [UnpackedFloat.unpack, ofFields]
  simp only [hones, hzeros, hempty]
  split
  next => split <;> rfl
  next =>
    split
    next hfield =>
      split
      next hlow => rw [hlow]; rfl
      next => rw [ofUnpacked, hfield]; rfl
    next => rw [ofUnpacked, toNat_one_append]; rfl

theorem ofFloat_eq_ofFields (value : Float) :
    ofFloat value = ofFields (decide (value.toBits.toNat / 2 ^ 63 % 2 = 1))
      (value.toBits.toNat / 2 ^ 52 % 2 ^ 11) (value.toBits.toNat % 2 ^ 52) := rfl

/-- A double is taken apart as in the logical model. -/
theorem ofFloat_eq_ofUnpacked (value : Float) : ofFloat value = ofUnpacked value.toModel.unpack := by
  rw [Float.Model.unpack, ofUnpacked_unpack, isNegative_ofBitVec, toNat_unpackSign,
    toNat_unpackExponent, toNat_unpackMantissa]
  rfl

/-! ## The normal form -/

/-- The mantissa has fifty-three bits at most, and fewer for the smallest exponent only. -/
structure Fits (mantissa : Nat) (exponent : Int) : Prop where
  mantissa_lt : mantissa < 2 ^ 53
  exponent_ge : minExponent ≤ exponent
  full : minExponent < exponent → 2 ^ 52 ≤ mantissa

/-- The parts of a finite double are in normal form. -/
def IsNormal : DoubleParts → Prop
  | finite _ mantissa exponent => Fits mantissa exponent
  | _ => True

theorem isNormal_ofFields (negative : Bool) (field : Nat) {low : Nat} (hlow : low < 2 ^ 52) :
    (ofFields negative field low).IsNormal := by
  unfold ofFields
  split
  next => split <;> trivial
  next =>
    split
    next => exact ⟨by omega, Int.le_refl _, fun h ↦ absurd h (Int.lt_irrefl _)⟩
    next => exact ⟨by omega, by rw [minExponent]; omega, fun _ ↦ by omega⟩

theorem isNormal_ofFloat (value : Float) : (ofFloat value).IsNormal := by
  rw [ofFloat_eq_ofFields]
  exact isNormal_ofFields _ _ (Nat.mod_lt _ (by decide))

/-- A smaller exponent is that of a smaller number. -/
theorem Fits.lt_of_exponent_lt {m n : Nat} {d e : Int} (h : Fits m d) (h' : Fits n e) (hlt : d < e) :
    (m : ℚ) * 2 ^ d < n * 2 ^ e := by
  have hm : (m : ℚ) < 2 ^ 53 := by exact_mod_cast h.mantissa_lt
  have hn : (2 : ℚ) ^ 52 ≤ n := by exact_mod_cast h'.full (Int.lt_of_le_of_lt h.exponent_ge hlt)
  have hpow : (2 : ℚ) ^ (d + 1) ≤ 2 ^ e := zpow_le_zpow_right₀ one_le_two hlt
  calc (m : ℚ) * 2 ^ d
      < 2 ^ 53 * 2 ^ d := mul_lt_mul_of_pos_right hm (zpow_pos two_pos d)
    _ = 2 ^ 52 * 2 ^ (d + 1) := by rw [zpow_add_one₀ two_ne_zero]; ring
    _ ≤ n * 2 ^ e := mul_le_mul hn hpow (zpow_nonneg zero_le_two _) n.cast_nonneg

/-- The exponents are compared first, and the mantissas where they are equal. -/
theorem Fits.compare_eq {m n : Nat} {d e : Int} (h : Fits m d) (h' : Fits n e) :
    (compare d e).then (compare m n) = compare ((m : ℚ) * 2 ^ d) (n * 2 ^ e) := by
  rcases lt_trichotomy d e with hlt | rfl | hlt
  · rw [compare_lt_iff_lt.2 hlt, compare_lt_iff_lt.2 (h.lt_of_exponent_lt h' hlt)]
    rfl
  · rw [compare_eq_iff_eq.2 rfl, Ordering.eq_then, ← cmp_eq_compare, ← cmp_eq_compare,
      cmp_mul_pos_right (zpow_pos two_pos d)]
    exact (Nat.strictMono_cast.cmp_map_eq m n).symm
  · rw [compare_gt_iff_gt.2 hlt, compare_gt_iff_gt.2 (h'.lt_of_exponent_lt h hlt)]
    rfl

/-! ## Values -/

/-- The value of a double, among the rational numbers and the infinities at their ends. -/
def value? : DoubleParts → Option (WithBot (WithTop ℚ))
  | nan => none
  | infinite negative => some (if negative then ⊥ else (⊤ : WithTop ℚ))
  | finite negative mantissa exponent =>
    let size : ℚ := mantissa * 2 ^ exponent
    some ((if negative then -size else size : ℚ) : WithTop ℚ)

/-- The sign of a zero makes no difference. -/
theorem value?_zero (negative : Bool) (exponent : Int) :
    (finite negative 0 exponent).value? = some ((0 : ℚ) : WithTop ℚ) := by
  cases negative <;> simp [value?]

section Finite

variable {s t : Sign} {m n : Nat} {d e : Int} (hm : 0 < m) (hn : 0 < n)

theorem size_pos {mantissa : Nat} (h : 0 < mantissa) (exponent : Int) :
    (0 : ℚ) < mantissa * 2 ^ exponent := by
  positivity

/-- A positive size lies on the side of zero that its sign tells. -/
theorem compare_zero_finite (exponent : Int) :
    (UnpackedFloat.zero s).compare (.finite t n exponent hn) =
      Option.map₂ compare (finite (isNegative s) 0 minExponent).value?
        (finite (isNegative t) n exponent).value? := by
  have hpos := size_pos hn exponent
  rw [value?_zero]
  cases t <;> refine congrArg some (Eq.symm ((compare_coe _ _).trans ?_))
  · exact compare_gt_iff_gt.2 (neg_lt_zero.2 hpos)
  · exact compare_lt_iff_lt.2 hpos

theorem compare_finite_zero (exponent : Int) :
    (UnpackedFloat.finite s m exponent hm).compare (.zero t) =
      Option.map₂ compare (finite (isNegative s) m exponent).value?
        (finite (isNegative t) 0 minExponent).value? := by
  have hpos := size_pos hm exponent
  rw [value?_zero]
  cases s <;> refine congrArg some (Eq.symm ((compare_coe _ _).trans ?_))
  · exact compare_lt_iff_lt.2 (neg_lt_zero.2 hpos)
  · exact compare_gt_iff_gt.2 hpos

theorem compare_finite_finite (h : Fits m d) (h' : Fits n e) :
    (UnpackedFloat.finite s m d hm).compare (.finite t n e hn) =
      Option.map₂ compare (finite (isNegative s) m d).value? (finite (isNegative t) n e).value? := by
  have hpos := size_pos hm d
  have hpos' := size_pos hn e
  cases s <;> cases t <;> refine congrArg some (Eq.symm ((compare_coe _ _).trans ?_))
  · exact (compare_neg_neg _ _).trans (congrArg Ordering.swap (h.compare_eq h').symm)
  · exact compare_lt_iff_lt.2 ((neg_lt_zero.2 hpos).trans hpos')
  · exact compare_gt_iff_gt.2 ((neg_lt_zero.2 hpos').trans hpos)
  · exact (h.compare_eq h').symm

end Finite

/-- The logical model compares doubles in normal form by their values. -/
theorem compare_eq_of_isNormal {u v : UnpackedFloat} (hu : (ofUnpacked u).IsNormal)
    (hv : (ofUnpacked v).IsNormal) :
    u.compare v = Option.map₂ compare (ofUnpacked u).value? (ofUnpacked v).value? := by
  cases u with
  | notANumber => rfl
  | infinity s =>
    cases v with
    | notANumber => cases s <;> rfl
    | infinity t => cases s <;> cases t <;> rfl
    | zero | finite => cases s <;> rfl
  | zero s =>
    cases v with
    | notANumber => rfl
    | infinity t => cases t <;> rfl
    | zero t =>
      rw [ofUnpacked, ofUnpacked, value?_zero, value?_zero]
      exact congrArg some (compare_eq_iff_eq.2 rfl).symm
    | finite t n e hn => exact compare_zero_finite hn e
  | finite s m d hm =>
    cases v with
    | notANumber => cases s <;> rfl
    | infinity t => cases s <;> cases t <;> rfl
    | zero t => exact compare_finite_zero hm d
    | finite t n e hn => exact compare_finite_finite hm hn hu hv

/-- Two doubles are compared by their values. -/
theorem compare_toModel (x y : Float) :
    x.toModel.unpack.compare y.toModel.unpack =
      Option.map₂ compare (ofFloat x).value? (ofFloat y).value? := by
  have hx := isNormal_ofFloat x
  have hy := isNormal_ofFloat y
  rw [ofFloat_eq_ofUnpacked] at hx hy ⊢
  rw [ofFloat_eq_ofUnpacked]
  exact compare_eq_of_isNormal hx hy

theorem isNaN_iff (x : Float) : x.isNaN ↔ (ofFloat x).value? = none := by
  rw [ofFloat_eq_ofUnpacked]
  change x.toModel.unpack.isNaN = true ↔ _
  cases x.toModel.unpack with
  | notANumber => exact iff_of_true rfl rfl
  | infinity | zero | finite => exact iff_of_false Bool.false_ne_true (Option.some_ne_none _)

theorem le_iff (x y : Float) :
    x ≤ y ↔ ∃ p ∈ (ofFloat x).value?, ∃ q ∈ (ofFloat y).value?, p ≤ q := by
  have hle : x ≤ y ↔ (x.toModel.unpack.compare y.toModel.unpack).any (·.isLE) = true :=
    decide_eq_true_iff
  rw [hle, compare_toModel]
  cases (ofFloat x).value? with
  | none => simp
  | some p =>
    cases (ofFloat y).value? with
    | none => simp
    | some q => simp [← Ordering.ne_gt_iff_isLE, compare_le_iff_le]

end DoubleParts

/-- The order of two doubles by the comparisons of doubles, none when they go neither way. -/
def compareDoubles (x y : Float) : Option Ordering :=
  match decide (x ≤ y), decide (y ≤ x) with
  | true, true => some .eq
  | true, false => some .lt
  | false, true => some .gt
  | false, false => none

theorem compareDoubles_eq (x y : Float) :
    compareDoubles x y =
      Option.map₂ compare (DoubleParts.ofFloat x).value? (DoubleParts.ofFloat y).value? := by
  simp only [compareDoubles, DoubleParts.le_iff]
  cases (DoubleParts.ofFloat x).value? with
  | none => simp
  | some p =>
    cases (DoubleParts.ofFloat y).value? with
    | none => simp
    | some q =>
      rcases lt_trichotomy p q with h | rfl | h
      · simp [h.le, h.not_ge, compare_lt_iff_lt.2 h]
      · simp
      · simp [h.le, h.not_ge, compare_gt_iff_gt.2 h]

end ScopeScript
