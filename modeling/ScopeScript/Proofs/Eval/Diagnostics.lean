import ScopeScript.Proofs.Grammar.Stretches
import ScopeScript.Proofs.Grammar.Unfinished

/-!
# Faults point at what they are about

Whether a text cannot be scanned, is no program, or fails when it runs: its fault blames a stretch of the
text between two characters. A lexeme, a literal or a character that the error names is what stands there,
and so is a name without a value, unless it is called; then it begins the call. Only a text that ends too
early is blamed for nothing, at its end.
-/

namespace ScopeScript

open Grammar Lexical

/-! ## Faults and texts -/

namespace Fault

variable {source : List Char} {suspects : List Suspect} {fault : Fault}

/-- What the fault says of the text that it blames, when it comes from some of the suspects. -/
def Describes (source : List Char) (suspects : List Suspect) (fault : Fault) (text : List Char) : Prop :=
  match fault.error with
  | .unexpectedEnd _ => fault.span = .point (byteLength source)
  | .surplusToken token | .unexpectedToken token _ => text = token.toList
  | .numberOutOfRange literal => text = literal.toList
  | .unexpectedCharacter character => text = [character]
  | .unterminatedString =>
    fault.span.stop = byteLength source ∧ ∃ rest, text = '"' :: rest ∧ '"' ∉ rest
  | .notDefined name =>
    (.name fault.span name ∈ suspects ∧ text = name.toList) ∨
      (.call fault.span name ∈ suspects ∧ name.toList <+: text)
  | _ => True

/-- The fault blames a stretch of the source for what is there. It is empty only at the end of a text that
ends too early. -/
structure PointsInto (source : List Char) (suspects : List Suspect) (fault : Fault) : Prop where
  start_le_stop : fault.span.start ≤ fault.span.stop
  stop_le : fault.span.stop ≤ byteLength source
  empty_iff : fault.span.start = fault.span.stop ↔ ∃ expected, fault.error = .unexpectedEnd expected
  exists_text : ∃ text, fault.span.Selects source text ∧ fault.Describes source suspects text

theorem PointsInto.intro (text : List Char) (hselects : fault.span.Selects source text)
    (hempty : text = [] ↔ ∃ expected, fault.error = .unexpectedEnd expected)
    (hdescribes : fault.Describes source suspects text) : fault.PointsInto source suspects where
  start_le_stop := hselects.start_le_stop
  stop_le := hselects.stop_le
  empty_iff := hselects.start_eq_stop_iff.trans hempty
  exists_text := ⟨text, hselects, hdescribes⟩

/-! ## Faults of the scan -/

/-- A string that nothing closes has no other quote. -/
theorem notMem_of_unmatched {rest : List Char} (h : Unmatched ('"' :: rest)) : '"' ∉ rest := by
  intro hmem
  obtain ⟨body, others, rfl, hbody⟩ := List.eq_append_cons_of_mem hmem
  exact h (.string hbody) ⟨others, by simp⟩

theorem pointsInto_of_scans {before rest : List Char} {result : Except Fault (List Token)}
    (h : Scans before rest result) (hfault : result = .error fault) :
    fault.PointsInto (before ++ rest) [] := by
  induction h with
  | finish => cases hfault
  | skip _ _ ih =>
    rw [← List.append_assoc]
    exact ih hfault
  | @token _ _ _ _ _ result _ _ _ ih =>
    cases result with
    | ok others => cases hfault
    | error fault' =>
      rw [← List.append_assoc]
      exact ih hfault
  | @outOfRange before text rest hlongest =>
    cases hfault
    apply PointsInto.intro text
    · exact ⟨before, rest, rfl, rfl⟩
    · simp [faultAt, hlongest.matches_.ne_nil]
    · exact String.toList_ofList.symm
  | @unterminated before rest hnone =>
    cases hfault
    apply PointsInto.intro ('"' :: rest)
    · exact ⟨before, [], by simp, rfl⟩
    · simp [faultAt]
    · exact ⟨rfl, rest, rfl, notMem_of_unmatched hnone⟩
  | @unexpected before rest c =>
    cases hfault
    apply PointsInto.intro [c]
    · exact ⟨before, rest, rfl, rfl⟩
    · simp [faultAt]
    · exact rfl

theorem pointsInto_of_scan {source : String} (h : scan source = .error fault) :
    fault.PointsInto source.toList [] :=
  pointsInto_of_scans (scan_eq_iff.1 h) rfl

/-! ## Faults of the parser -/

theorem pointsInto_end (expected : List String) :
    (⟨.unexpectedEnd expected, .point (byteLength source)⟩ : Fault).PointsInto source suspects := by
  apply PointsInto.intro []
  · exact ⟨source, [], by simp, by simp [Span.point]⟩
  · simp
  · exact rfl

theorem pointsInto_token {tokens : List Token} {token : Token} (hdivides : Divides source tokens)
    (hmem : token ∈ tokens) (hkind : token.kind ≠ .eof) {error : Error}
    (herror : error = .surplusToken token.lexeme ∨
      ∃ expected, error = .unexpectedToken token.lexeme expected) :
    (⟨error, token.span⟩ : Fault).PointsInto source suspects := by
  have hselects : token.span.Selects source token.lexeme.toList := hdivides.placed token hmem
  have hne := hdivides.lexeme_ne_nil hmem hkind
  rcases herror with rfl | ⟨expected, rfl⟩
  · exact .intro _ hselects (by simp [hne]) rfl
  · exact .intro _ hselects (by simp [hne]) rfl

/-- A text that is no program is wrong at a stretch of it, or ends too early. -/
theorem pointsInto_of_ofString {source : String} (h : Program.ofString source = .error fault) :
    fault.PointsInto source.toList [] := by
  cases hscan : scan source with
  | error fault' =>
    rw [Program.ofString, hscan] at h
    cases h
    exact pointsInto_of_scan hscan
  | ok tokens =>
    have hdivides := ((scan_eq_iff.1 hscan).tiles rfl).divides
    obtain ⟨passed, rest, mark, failure, rfl, hfails, rfl, -⟩ := Program.exists_failure hscan h
    cases rest with
    | nil =>
      cases hfails with
      | surplus hrest => cases hrest
      | unmet =>
        rw [hdivides.span_mark]
        exact pointsInto_end _
    | cons token others =>
      have hmem : token ∈ passed ++ token :: others := by simp
      have hkind := (kind_of_scan hscan).1 token hmem
      have hmem' := List.mem_append_left [mark] hmem
      cases hfails with
      | surplus hrest =>
        cases hrest
        exact pointsInto_token hdivides hmem' hkind (.inl rfl)
      | unmet => exact pointsInto_token hdivides hmem' hkind (.inr ⟨_, rfl⟩)

/-! ## Faults of a run -/

/-- What a suspect is blamed for is true of the text that it stands for. -/
theorem pointsInto_of_explains {suspect : Suspect} {text : List Char} (h : suspect.Explains fault)
    (hmem : suspect ∈ suspects) (hne : text ≠ []) (hselects : suspect.span.Selects source text)
    (hreads : suspect.Reads text) : fault.PointsInto source suspects := by
  cases h with
  | undefinedName => exact .intro _ hselects (by simp [hne]) (.inl ⟨hmem, hreads⟩)
  | undefinedCallee => exact .intro _ hselects (by simp [hne]) (.inr ⟨hmem, hreads⟩)
  | notCallable => exact .intro _ hselects (by simp [hne]) trivial
  | @other error span hcategory =>
    cases error with
    | notDefined | surplusToken | numberOutOfRange | unexpectedCharacter | unexpectedEnd
    | unexpectedToken | unterminatedString => simp [Error.category] at hcategory
    | _ => exact .intro _ hselects (by simp [hne]) trivial

/-- A run of a program that was read from a text is wrong at a stretch of the text. -/
theorem pointsInto_of_run {source : String} {program : Program}
    (hsource : Program.ofString source = .ok program) {budget : Nat} {session after : Session}
    (h : Program.run budget program session = .failed fault after) :
    fault.PointsInto source.toList (Stmt.suspectsAll program) := by
  obtain ⟨body, mark, hscan, hbody, -, hprogram⟩ := Program.ofString_eq_ok_iff.1 hsource
  have hdivides := ((scan_eq_iff.1 hscan).tiles rfl).divides
  obtain ⟨suspect, hmem, hexplains⟩ := Program.explained_of_run h
  obtain ⟨row, hrow, hcovers⟩ := Derives.within hprogram suspect hmem
  obtain ⟨text, hne, hselects, hreads⟩ := hcovers.exists_text hrow hdivides hbody
  exact pointsInto_of_explains hexplains hmem hne hselects hreads

end Fault

namespace Program

/-- Every fault of reading a text as a program, and of running the program in any session, blames a
stretch of the text for what is there. A name that has no value is the whole stretch, or the callee of a
call that is. -/
theorem faults_point_at_text (source : String) :
    (∀ fault, ofString source = .error fault → fault.PointsInto source.toList []) ∧
      ∀ program, ofString source = .ok program → ∀ budget session fault after,
        run budget program session = .failed fault after →
          fault.PointsInto source.toList (Stmt.suspectsAll program) :=
  ⟨fun _ ↦ Fault.pointsInto_of_ofString, fun _ hsource _ _ _ _ ↦ Fault.pointsInto_of_run hsource⟩

/-- A call of a name without a value is blamed as a whole. A character of two bytes stands before it. -/
theorem faults_point_at_text_call :
    Fault.PointsInto "x = \"é\" .. f(1);".toList [.call ⟨12, 16⟩ "f", .other ⟨4, 16⟩]
      ⟨.notDefined "f", ⟨12, 16⟩⟩ := by
  have hsource : ofString "x = \"é\" .. f(1);" = .ok [.assign ⟨0, 17⟩ false "x"
      (.binary ⟨4, 16⟩ .concat (.literal ⟨4, 8⟩ (.string "é"))
        (.call ⟨12, 16⟩ "f" [.literal ⟨14, 15⟩ (.number (.int 1))]))] := by
    rw [ofString, scan_eq_upTo]
    rfl
  exact (faults_point_at_text "x = \"é\" .. f(1);").2 _ hsource 0 (.ofGlobals .empty false) _ _ rfl

end Program

end ScopeScript
