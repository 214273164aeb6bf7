import ScopeScript.Proofs.Eval.Sequence
import ScopeScript.Proofs.Eval.WordArithmetic
import ScopeScript.Proofs.Grammar.Program

/-!
# Displayed integers read back

The text in which an integer is shown is a program that gives this integer again: a row of digits is
the literal of the number that they stand for, and behind a minus it is negated. There is one
exception. The digits of the least integer stand for a number that is too large for a literal.
-/

namespace ScopeScript

open Lexical

/-! ## Rows of digits -/

theorem numeral_toDigits (value : Nat) : numeral (Nat.toDigits 10 value) = value :=
  calc numeral (Nat.toDigits 10 value)
      = Lexeme.digitsValue (Nat.toDigits 10 value) := (Lexeme.digitsValue_eq_numeral _).symm
    _ = value := Nat.ofDigitChars_ten_toDigits

theorem isDigit_of_mem_toDigits {value : Nat} : ∀ d ∈ Nat.toDigits 10 value, d.isDigit :=
  fun _ ↦ Nat.isDigit_of_mem_toDigits (by decide) (by decide)

/-- The literal of a row of digits. -/
def digitsLiteral (digits : List Char) : Value := .number (.int (.ofNat (numeral digits)))

section Digits

variable {digits : List Char} (hne : digits ≠ []) (hdigits : ∀ d ∈ digits, d.isDigit)
include hne hdigits

/-- A row of digits is a number as a whole. -/
theorem longest_digits : Longest (some .number) digits [] := by
  obtain ⟨c, cs, rfl⟩ := List.exists_cons_of_ne_nil hne
  obtain ⟨hdigit, hcs⟩ := List.forall_mem_cons.1 hdigits
  have hdrop : cs.dropWhile Char.isDigit = [] := List.dropWhile_eq_nil_iff.2 hcs
  have hlongest := Lexeme.longest_integer hdigit (congrArg Lexeme.fraction? hdrop)
  rwa [hdrop, List.takeWhile_eq_self_iff.2 hcs] at hlongest

/-- A minus before a digit begins no comment. -/
theorem longest_minus : Longest (some (.symbol .minus)) ['-'] digits := by
  obtain ⟨c, cs, rfl⟩ := List.exists_cons_of_ne_nil hne
  have hcomment : ¬('-' = '-' ∧ (c :: cs).head? = some '-') := by
    rintro ⟨-, hhead⟩
    have hdigit := hdigits c List.mem_cons_self
    rw [Option.some.inj hhead] at hdigit
    exact absurd hdigit (by decide)
  have hread : Lexeme.next '-' (c :: cs) = .read (.symbol .minus) ['-'] none (c :: cs) := rfl
  exact (Lexeme.longest_next (by decide) hcomment hread).2.1

variable (hrange : numeral digits < 2 ^ 63)
include hrange

theorem scans_digits (before : List Char) :
    Scans before digits (.ok [tokenAt before .number digits (some (digitsLiteral digits)),
      tokenAt (before ++ digits) .eof [] none]) := by
  have hscans := Scans.token (longest_digits hne hdigits) (.integer hdigits hrange)
    (@Scans.finish (before ++ digits))
  rwa [List.append_nil] at hscans

theorem scan_digits {source : String} (hsource : source.toList = digits) :
    scan source = .ok [tokenAt [] .number digits (some (digitsLiteral digits)),
      tokenAt digits .eof [] none] :=
  scan_eq_iff.2 (hsource ▸ scans_digits hne hdigits hrange [])

theorem scan_minus_digits {source : String} (hsource : source.toList = '-' :: digits) :
    scan source = .ok [tokenAt [] (.symbol .minus) ['-'] none,
      tokenAt ['-'] .number digits (some (digitsLiteral digits)),
      tokenAt ('-' :: digits) .eof [] none] := by
  have hscans := Scans.token (longest_minus hne hdigits) (.symbol .minus ['-'])
    (scans_digits hne hdigits hrange ([] ++ ['-']))
  rw [scan_eq_iff, hsource]
  exact hscans

theorem ofString_digits {source : String} (hsource : source.toList = digits) :
    ∃ span, Program.ofString source =
      .ok [.expr span (.literal span (digitsLiteral digits))] := by
  rw [Program.ofString, scan_digits hne hdigits hrange hsource]
  exact ⟨⟨byteLength [], byteLength ([] ++ digits)⟩, rfl⟩

theorem ofString_minus_digits {source : String} (hsource : source.toList = '-' :: digits) :
    ∃ span place, Program.ofString source =
      .ok [.expr span (.unary span .negate (.literal place (digitsLiteral digits)))] := by
  rw [Program.ofString, scan_minus_digits hne hdigits hrange hsource]
  exact ⟨⟨byteLength [], byteLength (['-'] ++ digits)⟩, _, rfl⟩

end Digits

/-! ## Programs of one integer -/

/-- The program runs to a value in an empty environment, and the environment stays empty. -/
def Program.Gives (program : Program) (value : Value) : Prop :=
  ∀ budget recorded, ∃ final : Session,
    program.run budget (.ofGlobals .empty recorded) = .done (some value) final ∧
      final.env = .globals .empty

theorem Program.gives_expr {tree : Expr} {value : Value}
    (h : tree.eval (.globals .empty) = .ok value) (span : Span) :
    Program.Gives [.expr span tree] value := by
  intro budget recorded
  let start := (Session.ofGlobals .empty recorded).note (.evaluating 1)
  have hexec : Program.exec budget [.expr span tree] start = .done (some value) start := by
    rw [exec_expr_apply]
    simp only [show start.env = .globals .empty from rfl, h]
  refine ⟨start.note .finished, ?_, rfl⟩
  rw [run_eq_conclude]
  exact congrArg conclude hexec

/-- The text of a value is a program with this value. -/
def Value.ReadsBack (value : Value) : Prop :=
  ∃ program, Program.ofString value.text = .ok program ∧ program.Gives value

/-! ## Words -/

theorem toList_text_int (word : Int64) :
    (Value.number (.int word)).text.toList =
      if 0 ≤ word.toInt then Nat.toDigits 10 word.toInt.toNat
      else '-' :: Nat.toDigits 10 (-word.toInt).toNat := by
  change word.toInt.repr.toList = _
  rw [Int.repr_eq_if]
  split
  · exact Nat.toList_repr
  · rw [String.toList_append, Nat.toList_repr]
    rfl

theorem digitsLiteral_toDigits (value : Nat) :
    digitsLiteral (Nat.toDigits 10 value) = .number (.int (.ofNat value)) := by
  rw [digitsLiteral, numeral_toDigits]

theorem readsBack_of_nonneg {word : Int64} (h : 0 ≤ word.toInt) :
    (Value.number (.int word)).ReadsBack := by
  have htext := toList_text_int word
  rw [if_pos h] at htext
  have hrange : numeral (Nat.toDigits 10 word.toInt.toNat) < 2 ^ 63 := by
    rw [numeral_toDigits]
    have hlt := word.toInt_lt
    omega
  obtain ⟨span, hread⟩ := ofString_digits Nat.toDigits_ne_nil isDigit_of_mem_toDigits hrange htext
  have hword : Int64.ofNat word.toInt.toNat = word := by
    rw [← Int64.ofInt_eq_ofNat, Int.toNat_of_nonneg h, Int64.ofInt_toInt]
  rw [digitsLiteral_toDigits, hword] at hread
  exact ⟨_, hread, Program.gives_expr rfl span⟩

theorem readsBack_of_neg {word : Int64} (h : word.toInt < 0) (hne : word ≠ Int64.minValue) :
    (Value.number (.int word)).ReadsBack := by
  have htext := toList_text_int word
  rw [if_neg (Int.not_le.2 h)] at htext
  have hrange : numeral (Nat.toDigits 10 (-word.toInt).toNat) < 2 ^ 63 := by
    rw [numeral_toDigits]
    have hle := word.le_toInt
    have hleast : word.toInt ≠ -2 ^ 63 := fun heq ↦ hne (Int64.toInt_inj.1 heq)
    omega
  obtain ⟨span, place, hread⟩ :=
    ofString_minus_digits Nat.toDigits_ne_nil isDigit_of_mem_toDigits hrange htext
  have hword : Int64.ofNat (-word.toInt).toNat = -word := by
    rw [← Int64.ofInt_eq_ofNat, Int.toNat_of_nonneg (by omega), Int64.ofInt_neg, Int64.ofInt_toInt]
  rw [digitsLiteral_toDigits, hword] at hread
  have hoperand : (Expr.literal place (.number (.int (-word)))).eval (.globals .empty) =
      .ok (.number (.int (-word))) := rfl
  have heval := Expr.eval_negate hoperand span
  rw [Int64.neg_neg] at heval
  exact ⟨_, hread, Program.gives_expr heval span⟩

/-- The text of an integer is a program that gives this integer. Only that of the least one is
rejected, because its digits are too large for a literal. -/
theorem readsBack_int (word : Int64) :
    if word = Int64.minValue then
      Program.ofString (Value.number (.int word)).text =
        .error ⟨.numberOutOfRange "9223372036854775808", ⟨1, 20⟩⟩
    else (Value.number (.int word)).ReadsBack := by
  split
  next hleast =>
    rw [hleast, Program.ofString, scan_eq_upTo]
    rfl
  next hne =>
    by_cases h : 0 ≤ word.toInt
    · exact readsBack_of_nonneg h
    · exact readsBack_of_neg (Int.not_le.1 h) hne

theorem not_readsBack_least : ¬(Value.number (.int Int64.minValue)).ReadsBack := by
  rintro ⟨program, hread, -⟩
  rw [Program.ofString, scan_eq_upTo] at hread
  cases hread

end ScopeScript
