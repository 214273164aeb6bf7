import ScopeScript.Proofs.Eval.Sequence
import ScopeScript.Proofs.Grammar.Layout
import ScopeScript.Proofs.Tree.Unplaced

/-!
# Places do not matter to a run

A run looks at no span, except to blame it. So trees that differ only in their spans run alike: with one
value, to one environment, or into one error. Texts with the same tokens have such trees, so neither
blanks nor comments have a meaning.
-/

namespace ScopeScript

/-- The outcomes are the same but for the records and the text that is blamed. -/
def Outcome.Alike {α : Type} : Outcome α → Outcome α → Prop
  | .done value session, .done value' session' => value = value' ∧ session.env = session'.env
  | .failed fault session, .failed fault' session' =>
    fault.error = fault'.error ∧ session.env = session'.env
  | .unfinished, .unfinished => True
  | _, _ => False

/-- Outcomes that match the same outcome agree. -/
theorem Outcome.Matches.alike {α : Type} {place : Span → Span} {outcome outcome' common : Outcome α}
    (h : outcome.Matches place common) (h' : outcome'.Matches place common) :
    outcome.Alike outcome' := by
  unfold Matches at h
  cases h using Outcome.Follows.induct with
  | done value session final henv =>
    cases outcome' with
    | done value' session' => exact ⟨h'.1, henv.trans h'.2.symm⟩
    | failed | unfinished => exact h'.elim
  | failed fault session final inner henv =>
    cases outcome' with
    | failed fault' session' =>
      obtain ⟨hfault, -, henv'⟩ := h'
      have herror : (fault.map place).error = (fault'.map place).error := congrArg _ hfault
      exact ⟨herror, henv.trans henv'.symm⟩
    | done | unfinished => exact h'.elim
  | unfinished =>
    cases outcome' with
    | unfinished => trivial
    | done | failed => exact h'.elim

namespace Program

/-- Programs that differ only in their spans run alike. -/
theorem run_alike {program other : Program}
    (h : program.map Stmt.unplaced = other.map Stmt.unplaced) (budget : Nat) (session : Session) :
    (run budget program session).Alike (run budget other session) := by
  have hmatches := run_matches budget program (fun _ ↦ .point 0) (Eq.refl session.env)
  have hmatches' := run_matches budget other (fun _ ↦ .point 0) (Eq.refl session.env)
  exact hmatches.alike (h ▸ hmatches')

/-! ## Texts -/

/-- Texts whose tokens differ only in where they stand are the same program up to spans, or are refused
with the same error. The programs run alike in every session: to the same value and environment, or into
the same error with the same environment, or neither comes to an end within the budget. -/
theorem run_alike_of_tokens {source other : String} {tokens others : List Token}
    (hscan : scan source = .ok tokens) (hscan' : scan other = .ok others)
    (h : tokens.map Token.unplaced = others.map Token.unplaced) :
    ReadAlike (ofString source) (ofString other) ∧
      ∀ program program', ofString source = .ok program → ofString other = .ok program' →
        ∀ budget session, (run budget program session).Alike (run budget program' session) := by
  have hread : ofString source = ofTokens tokens := by
    rw [ofString, hscan]
    rfl
  have hread' : ofString other = ofTokens others := by
    rw [ofString, hscan']
    rfl
  have halike : ReadAlike (ofString source) (ofString other) := by
    rw [hread, hread']
    exact ofTokens_alike h
  refine ⟨halike, fun program program' hprogram hprogram' budget session ↦ ?_⟩
  rw [hprogram, hprogram'] at halike
  exact run_alike halike budget session

/-- Blanks and a comment between the tokens of `a=1;a` do not matter. -/
theorem run_alike_of_tokens_comment :
    ∃ program program', ofString "a=1;a" = .ok program ∧ ofString "a = 1 -- one\n; a" = .ok program' ∧
      program.map Stmt.unplaced = program'.map Stmt.unplaced ∧
      ∀ budget session, (run budget program session).Alike (run budget program' session) := by
  have hscan : scan "a=1;a" = .ok
      [⟨.identifier, "a", none, ⟨1, 1⟩, ⟨0, 1⟩⟩, ⟨.symbol .assign, "=", none, ⟨1, 2⟩, ⟨1, 2⟩⟩,
        ⟨.number, "1", some (.number (.int 1)), ⟨1, 3⟩, ⟨2, 3⟩⟩,
        ⟨.symbol .semicolon, ";", none, ⟨1, 4⟩, ⟨3, 4⟩⟩, ⟨.identifier, "a", none, ⟨1, 5⟩, ⟨4, 5⟩⟩,
        ⟨.eof, "", none, ⟨1, 6⟩, ⟨5, 5⟩⟩] :=
    (scan_eq_upTo _).trans rfl
  have hscan' : scan "a = 1 -- one\n; a" = .ok
      [⟨.identifier, "a", none, ⟨1, 1⟩, ⟨0, 1⟩⟩, ⟨.symbol .assign, "=", none, ⟨1, 3⟩, ⟨2, 3⟩⟩,
        ⟨.number, "1", some (.number (.int 1)), ⟨1, 5⟩, ⟨4, 5⟩⟩,
        ⟨.symbol .semicolon, ";", none, ⟨2, 1⟩, ⟨13, 14⟩⟩,
        ⟨.identifier, "a", none, ⟨2, 3⟩, ⟨15, 16⟩⟩, ⟨.eof, "", none, ⟨2, 4⟩, ⟨16, 16⟩⟩] :=
    (scan_eq_upTo _).trans rfl
  obtain ⟨halike, hrun⟩ := run_alike_of_tokens hscan hscan' rfl
  have hread : ofString "a=1;a" = .ok [.assign ⟨0, 4⟩ false "a" (.literal ⟨2, 3⟩ (.number (.int 1))),
      .expr ⟨4, 5⟩ (.name ⟨4, 5⟩ "a")] := by
    rw [ofString, hscan]
    rfl
  have hread' : ofString "a = 1 -- one\n; a" = .ok
      [.assign ⟨0, 14⟩ false "a" (.literal ⟨4, 5⟩ (.number (.int 1))),
        .expr ⟨15, 16⟩ (.name ⟨15, 16⟩ "a")] := by
    rw [ofString, hscan']
    rfl
  rw [hread, hread'] at halike
  exact ⟨_, _, hread, hread', halike, hrun _ _ hread hread'⟩

end Program

end ScopeScript
