import ScopeScript.Proofs.Eval.Sequence
import ScopeScript.Proofs.Grammar.Join
import ScopeScript.Proofs.Grammar.Program

/-!
# A session agrees with one script

Two texts that are run one after the other in a session may be joined by a newline and run at once,
if the first ends in a semicolon. The joined text is scanned, parsed and run like the two: neither
the newline nor the end of the first text is noticed, except that the second stands further down.
-/

namespace ScopeScript

open Grammar

namespace Program

/-- Two programs joined by a newline are one program, if the first of them is closed. -/
theorem ofString_newline {first second : String} {tokens : List Token} {program other : Program}
    (hscan : scan first = .ok tokens) (hclosed : Closed tokens.dropLast)
    (hfirst : ofString first = .ok program) (hsecond : ofString second = .ok other) :
    ofString (first ++ "\n" ++ second) =
      .ok (program ++ other.shift (byteLength first.toList + 1)) := by
  obtain ⟨body, mark, hscan₁, hbody, hmark, hprogram⟩ := ofString_eq_ok_iff.1 hfirst
  obtain ⟨body', mark', hscan₂, hbody', hmark', hprogram'⟩ := ofString_eq_ok_iff.1 hsecond
  obtain rfl := Except.ok.inj (hscan.symm.trans hscan₁)
  rw [List.dropLast_concat] at hclosed
  have hjoined := hprogram.append_below hclosed hprogram' (first.toList.count '\n' + 1)
    (byteLength first.toList + 1)
  have hscan' := scan_newline hscan second
  rw [hscan₂, List.dropLast_concat, shiftScan, List.map_append, Except.map, ← List.append_assoc]
    at hscan'
  refine ofString_eq_ok_iff.2 ⟨_, _, hscan', fun token hmem ↦ ?_, hmark', hjoined⟩
  rcases List.mem_append.1 hmem with hmem | hmem
  · exact hbody token hmem
  · obtain ⟨token', hmem', rfl⟩ := List.mem_map.1 hmem
    exact hbody' token' hmem'

/-- Running two texts in one session agrees with running them joined by a newline, if the tokens of
the first are none or end in a semicolon and the second has a statement. The joined text has the
statements of both, those of the second moved behind the first; it fails as the first text does, and
otherwise ends as the second does in the session that the first leaves. -/
theorem joined_agrees_with_session {first second : String} {tokens : List Token}
    {program other : Program} (hscan : scan first = .ok tokens) (hclosed : Closed tokens.dropLast)
    (hfirst : ofString first = .ok program) (hsecond : ofString second = .ok other)
    (hother : other ≠ []) :
    ∃ joined, ofString (first ++ "\n" ++ second) = .ok joined ∧
      joined = program ++ other.shift (byteLength first.toList + 1) ∧
      ∀ session,
        (∀ fault failed, program.Ends session (.failed fault failed) →
          ∃ final, joined.Ends session (.failed fault final) ∧ failed.env = final.env) ∧
        ∀ value middle, program.Ends session (.done value middle) →
          (∀ result final, other.Ends middle (.done result final) →
            ∃ final', joined.Ends session (.done result final') ∧ final.env = final'.env) ∧
          ∀ fault failed, other.Ends middle (.failed fault failed) →
            ∃ final, joined.Ends session
              (.failed (fault.map (Span.shift (byteLength first.toList + 1))) final) ∧
              failed.env = final.env := by
  have hshift : other.shift (byteLength first.toList + 1) ≠ [] := by simpa [shift] using hother
  refine ⟨_, ofString_newline hscan hclosed hfirst hsecond, rfl, fun session ↦ ⟨?_, ?_⟩⟩
  · exact fun fault failed hfailed ↦ ends_append_of_failed hfailed hshift
  · intro value middle hdone
    constructor
    · intro result final hfinal
      obtain ⟨_, hends, hmatch⟩ := ends_append_of_done hdone hother hfinal
        (byteLength first.toList + 1)
      obtain ⟨final', rfl, henv⟩ := hmatch.of_done
      exact ⟨final', hends, henv⟩
    · intro fault failed hfailed
      obtain ⟨_, hends, hmatch⟩ := ends_append_of_done hdone hother hfailed
        (byteLength first.toList + 1)
      obtain ⟨final, rfl, henv⟩ := hmatch.of_failed
      exact ⟨final, hends, henv⟩

/-- A global that one text assigns is read by the next. -/
theorem joined_agrees_with_session_assignment :
    ∃ joined final, ofString ("a=1;" ++ "\n" ++ "a") = .ok joined ∧
      joined.Ends (.ofGlobals .empty false) (.done (some (.number (.int 1))) final) := by
  have hscan : scan "a=1;" = .ok
      [⟨.identifier, "a", none, ⟨1, 1⟩, ⟨0, 1⟩⟩, ⟨.symbol .assign, "=", none, ⟨1, 2⟩, ⟨1, 2⟩⟩,
        ⟨.number, "1", some (.number (.int 1)), ⟨1, 3⟩, ⟨2, 3⟩⟩,
        ⟨.symbol .semicolon, ";", none, ⟨1, 4⟩, ⟨3, 4⟩⟩, ⟨.eof, "", none, ⟨1, 5⟩, ⟨4, 4⟩⟩] :=
    (scan_eq_upTo "a=1;").trans rfl
  have hfirst : ofString "a=1;" =
      .ok [.assign ⟨0, 4⟩ false "a" (.literal ⟨2, 3⟩ (.number (.int 1)))] := by
    rw [ofString, hscan]
    rfl
  have hsecond : ofString "a" = .ok [.expr ⟨0, 1⟩ (.name ⟨0, 1⟩ "a")] := by
    rw [ofString, scan_eq_upTo]
    rfl
  obtain ⟨joined, hjoined, -, hsession⟩ := joined_agrees_with_session hscan
    (by simp [Closed]) hfirst hsecond (by simp)
  obtain ⟨-, hdone⟩ := hsession (.ofGlobals .empty false)
  obtain ⟨final, hends, -⟩ := (hdone none _ ⟨by simp, 0, rfl⟩).1 _ _ ⟨by simp, 0, rfl⟩
  exact ⟨joined, final, hjoined, hends⟩

end Program

end ScopeScript
