import ScopeScript.Proofs.Grammar.Lookahead
import ScopeScript.Proofs.Grammar.Program
import ScopeScript.Proofs.Grammar.Repair.Program

/-!
# Places do not matter to the grammar

Rows whose tokens differ only in where they stand are programs together, with trees that differ only in
their spans. If they are no programs, they are refused for the same reason.
-/

namespace ScopeScript

open Grammar

/-! ## Rows that are compared throughout -/

/-- Whole rows are compared, up to the places of their tokens. -/
def Comparison.throughout : Comparison where
  same token other := token.unplaced = other.unplaced
  isEnd _ := False
  unplaced_eq h := h
  isEnd_tail h := h

theorem Comparison.agree_throughout {row others : List Token}
    (h : row.map Token.unplaced = others.map Token.unplaced) :
    Comparison.throughout.Agree row others := by
  induction row generalizing others with
  | nil =>
    obtain rfl := List.map_eq_nil_iff.1 h.symm
    exact .nil
  | cons token row ih =>
    obtain ⟨other, others, rfl, htoken, hrow⟩ := List.map_eq_cons_iff.1 h.symm
    exact .cons htoken.symm (ih hrow.symm)

/-- Blocks of rows that differ only in places are read alike, if they are read deep enough. -/
theorem Parser.block_matches_throughout {row others : List Token}
    (h : row.map Token.unplaced = others.map Token.unplaced) {depth depth' : Nat}
    (hdepth : row.length ≤ depth) (hdepth' : others.length ≤ depth') :
    Comparison.throughout.Matches (List.map Stmt.unplaced)
      (block (.ofDepth depth) ⟨row, 0⟩) (block (.ofDepth depth') ⟨others, 0⟩) := by
  have hfollows : Comparison.throughout.Follows (List.map Stmt.unplaced)
      (block (.ofDepth depth) ⟨row, 0⟩) (block (.ofDepth depth') ⟨others, 0⟩) :=
    (Comparison.tracks_block (Comparison.tracksInner_ofDepth depth depth')).follows
      (Comparison.agree_throughout h)
  have hne : block (.ofDepth depth) ⟨row, 0⟩ ≠ .error .exhausted := block_ne_exhausted hdepth
  have hne' : block (.ofDepth depth') ⟨others, 0⟩ ≠ .error .exhausted := block_ne_exhausted hdepth'
  rcases hfollows with hended | hexhausted | hmatches
  · -- the comparison never ends, so only a parser that ran out would say nothing
    generalize block (.ofDepth depth) ⟨row, 0⟩ = result at hended hne
    cases result with
    | ok => exact hended.elim
    | error failure =>
      cases failure with
      | exhausted => exact absurd rfl hne
      | unmet | surplus => exact hended.elim
  · exact absurd hexhausted hne'
  · exact hmatches

/-! ## Programs -/

/-- Two results of reading are programs that differ only in their spans, or the same error. -/
def Program.ReadAlike : Except Fault Program → Except Fault Program → Prop
  | .ok program, .ok other => program.map Stmt.unplaced = other.map Stmt.unplaced
  | .error fault, .error fault' => fault.error = fault'.error
  | _, _ => False

/-- Tokens that differ only in places are read alike. -/
theorem Program.ofTokens_alike {tokens others : List Token}
    (h : tokens.map Token.unplaced = others.map Token.unplaced) :
    ReadAlike (ofTokens tokens) (ofTokens others) := by
  -- the mark of the end is told by its kind, which is no place
  have hvisible (row : List Token) :
      (row.takeWhile fun token ↦ token.kind ≠ .eof).map Token.unplaced =
        (row.map Token.unplaced).takeWhile fun token ↦ token.kind ≠ .eof := by
    rw [List.takeWhile_map]
    rfl
  have hrows := (hvisible tokens).trans (h ▸ (hvisible others).symm)
  rw [ofTokens, ofTokens]
  generalize (tokens.takeWhile fun token ↦ token.kind ≠ .eof) = row at hrows
  generalize (others.takeWhile fun token ↦ token.kind ≠ .eof) = row' at hrows
  have hmatches := Parser.block_matches_throughout hrows (Nat.le_succ _) (Nat.le_succ _)
  simp only [Parser.program, Parser.bind_apply]
  generalize Parser.block (.ofDepth (row.length + 1)) ⟨row, 0⟩ = result at hmatches
  generalize Parser.block (.ofDepth (row'.length + 1)) ⟨row', 0⟩ = result' at hmatches
  cases hmatches with
  | @ok program other after after' hprograms hrest =>
    obtain ⟨rest, stop⟩ := after
    obtain ⟨rest', stop'⟩ := after'
    cases hrest with
    | nil => exact hprograms
    | cons htoken => exact congrArg Error.surplusToken (Token.unplaced_eq_iff.1 htoken).2.1
    | ended hend => exact hend.elim
  | @unmet expectation rest rest' hrest =>
    cases hrest with
    | nil => rfl
    | cons htoken =>
      exact congrArg (Error.unexpectedToken · [expectation.describe])
        (Token.unplaced_eq_iff.1 htoken).2.1
    | ended hend => exact hend.elim

/-- Moving the tokens of a program leaves a program. -/
theorem Grammar.IsProgram.exists_of_unplaced {row others : List Token} {program : Program}
    (h : IsProgram row program) (hrows : row.map Token.unplaced = others.map Token.unplaced) :
    ∃ other, IsProgram others other ∧ other.map Stmt.unplaced = program.map Stmt.unplaced := by
  have hmatches := Parser.block_matches_throughout hrows (Nat.le_refl _) (Nat.le_refl _)
  have hread : Parser.block (.ofDepth row.length) ⟨row, 0⟩ =
      .ok (program, ⟨[], stopAfter 0 row⟩) := by
    have hreads : (Parser.block (.ofDepth row.length)).Reads program row [] :=
      Parser.reads_block (Parser.Inner.readsBelow_ofDepth _) h (Nat.le_refl _) (.inr (.inr rfl))
    simpa using hreads 0
  rw [hread] at hmatches
  generalize hread' : Parser.block (.ofDepth others.length) ⟨others, 0⟩ = result at hmatches
  cases hmatches with
  | @ok _ other _ after' hvalue hrest =>
    obtain ⟨rest', stop'⟩ := after'
    cases hrest with
    | nil =>
      obtain ⟨tokens, hpass, hphrase⟩ :=
        Parser.onlyReads_statements (Parser.Inner.onlyReads_ofDepth _) _ hread'
      obtain rfl : others = tokens := by simpa using hpass.rest
      exact ⟨other, hphrase.2, hvalue.symm⟩
    | ended hend => exact hend.elim

end ScopeScript
