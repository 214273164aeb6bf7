import ScopeScript.Proofs.Grammar.Unfinished

/-!
# Texts that are rejected for good

A text that is complete and no program is wrong at some of its characters or at one of its tokens. Both
are found before the end of the text, so more lines behind it do not help, and the error stays as it is
unless the new lines have one of their own that comes up earlier, in the scan.
-/

namespace ScopeScript.Program

variable {source : String} {fault : Fault}

/-- A complete text that is no program does not end too early. -/
theorem isOpenEnded_of_isComplete (hcomplete : isComplete source = true)
    (h : ofString source = .error fault) : fault.error.isOpenEnded = false := by
  rw [isComplete, h] at hcomplete
  simpa using hcomplete

/-- A text that cannot be scanned is no program, and blames what the scan does. -/
theorem ofString_of_scan_error (h : scan source = .error fault) : ofString source = .error fault := by
  rw [ofString, h]
  rfl

/-- A text that is wrong at one of its tokens is wrong in the same way in every longer text that is
scanned to its end. -/
theorem ofString_append_line_of_scan {tokens others : List Token} (hscan : scan source = .ok tokens)
    (h : ofString source = .error fault) (hclosed : fault.error.isOpenEnded = false) {more : String}
    (hmore : scan (source ++ "\n" ++ more) = .ok others) :
    ofString (source ++ "\n" ++ more) = .error fault := by
  obtain ⟨passed, rest, mark, failure, rfl, hfails, rfl, -⟩ := exists_failure hscan h
  cases rest with
  | nil =>
    -- behind the last token only the end can be wrong
    cases hfails with
    | surplus hrest => cases hrest
    | unmet hblock => cases hclosed
  | cons token others' => exact ofString_append_line hscan hfails hmore _

/-- A complete text that is no program cannot become one by adding to it behind a newline. Its error
stays, with its span, if it comes from the scan or if the longer text can be scanned. -/
theorem rejected_for_good (hcomplete : isComplete source = true) (h : ofString source = .error fault)
    (more : String) :
    (∀ program, ofString (source ++ "\n" ++ more) ≠ .ok program) ∧
      ((∃ fault', scan source = .error fault') ∨
          (∃ tokens, scan (source ++ "\n" ++ more) = .ok tokens) →
        ofString (source ++ "\n" ++ more) = .error fault) := by
  have hclosed := isOpenEnded_of_isComplete hcomplete h
  cases hscan : scan source with
  | error fault' =>
    obtain rfl : fault' = fault := Except.error.inj ((ofString_of_scan_error hscan).symm.trans h)
    have herror : fault'.error ≠ .unterminatedString := by
      intro hopen
      rw [hopen] at hclosed
      cases hclosed
    have hmore := ofString_of_scan_error (scan_newline_of_error hscan herror more)
    constructor
    · intro program hprogram
      cases hmore.symm.trans hprogram
    · exact fun _ ↦ hmore
  | ok tokens =>
    cases hmore : scan (source ++ "\n" ++ more) with
    | error fault' =>
      constructor
      · intro program hprogram
        cases (ofString_of_scan_error hmore).symm.trans hprogram
      · rintro (⟨_, hfault⟩ | ⟨_, hothers⟩)
        · cases hfault
        · cases hothers
    | ok others =>
      have hsame := ofString_append_line_of_scan hscan h hclosed hmore
      constructor
      · intro program hprogram
        cases hsame.symm.trans hprogram
      · exact fun _ ↦ hsame

/-- An expression that is missing before a semicolon cannot be written on the next line, behind a
comment. -/
theorem rejected_for_good_semicolon :
    isComplete "x = ; --" = true ∧
      ofString ("x = ; --" ++ "\n" ++ "1;") = .error ⟨.unexpectedToken ";" ["expression"], ⟨4, 5⟩⟩ := by
  have hsource : ofString "x = ; --" = .error ⟨.unexpectedToken ";" ["expression"], ⟨4, 5⟩⟩ := by
    rw [ofString, scan_eq_upTo]
    rfl
  have hcomplete : isComplete "x = ; --" = true := by
    rw [isComplete, hsource]
    rfl
  have hmore : ∃ tokens, scan ("x = ; --" ++ "\n" ++ "1;") = .ok tokens :=
    ⟨_, (scan_eq_upTo _).trans rfl⟩
  exact ⟨hcomplete, (rejected_for_good hcomplete hsource "1;").2 (.inr hmore)⟩

end ScopeScript.Program
