import ScopeScript.Proofs.Grammar.Completeness
import ScopeScript.Proofs.Lexical.Tokens
import ScopeScript.Tree.Program

/-!
# Programs are what the grammar says

A row of tokens is accepted exactly when it is a program by the grammar, and then the tree that is
read is the one that the grammar assigns to it. That there is only one follows from reading it: the
parser returns every tree that the grammar allows, and it returns one. The same holds of blocks, which
are read before a word that closes them.
-/

namespace ScopeScript

open Grammar

/-- Whatever the tokens are, those before the first mark of the end decide. -/
theorem Program.ofTokens_eq_ok_iff {tokens : List Token} {program : Program} :
    Program.ofTokens tokens = .ok program ↔
      IsProgram (tokens.takeWhile fun token ↦ token.kind ≠ .eof) program := by
  rw [Program.ofTokens]
  constructor
  · intro h
    split at h
    next tree after htree =>
      cases h
      exact Parser.isProgram_of_program htree
    next => cases h
  · intro h
    rw [Parser.program_of_isProgram h (Nat.le_succ _)]

namespace Grammar

/-- A row of tokens is a program with one tree at most. -/
theorem IsProgram.unique {tokens : List Token} {program other : Program}
    (h : IsProgram tokens program) (h' : IsProgram tokens other) : program = other := by
  have hread := Parser.program_of_isProgram h (Nat.le_refl _) 0
  rw [Parser.program_of_isProgram h' (Nat.le_refl _) 0] at hread
  cases hread
  rfl

end Grammar

/-- The tokens before a mark of the end, if they end in one. -/
theorem takeWhile_ne_eof {body ending : List Token} (hbody : ∀ token ∈ body, token.kind ≠ .eof)
    (hending : ending = [] ∨ ∃ mark : Token, mark.kind = .eof ∧ ending = [mark]) :
    ((body ++ ending).takeWhile fun token ↦ token.kind ≠ .eof) = body := by
  rw [List.takeWhile_append_of_pos (by simpa using hbody)]
  rcases hending with rfl | ⟨mark, hmark, rfl⟩
  · rw [List.takeWhile_nil, List.append_nil]
  · rw [List.takeWhile_cons_of_neg (by simp [hmark]), List.append_nil]

/-- A text that is a program is scanned, and its tokens before the mark of the end are the program. -/
theorem Program.ofString_eq_ok_iff {source : String} {program : Program} :
    Program.ofString source = .ok program ↔
      ∃ body mark, scan source = .ok (body ++ [mark]) ∧ (∀ token ∈ body, token.kind ≠ .eof) ∧
        mark.kind = .eof ∧ IsProgram body program := by
  rw [Program.ofString]
  constructor
  · intro h
    cases hscan : scan source with
    | error fault =>
      rw [hscan] at h
      cases h
    | ok tokens =>
      obtain ⟨body, mark, rfl⟩ := scan_eq_append_mark hscan
      obtain ⟨hbody, hmark⟩ := kind_of_scan hscan
      rw [hscan] at h
      refine ⟨body, mark, rfl, hbody, hmark, ?_⟩
      rw [← takeWhile_ne_eof hbody (.inr ⟨mark, hmark, rfl⟩)]
      exact Program.ofTokens_eq_ok_iff.1 h
  · rintro ⟨body, mark, hscan, hbody, hmark, hprogram⟩
    rw [hscan]
    refine Program.ofTokens_eq_ok_iff.2 ?_
    rwa [takeWhile_ne_eof hbody (.inr ⟨mark, hmark, rfl⟩)]

/-- Tokens with at most one mark of the end, the last of them, are accepted exactly if they are a
program without it, with the one tree that the grammar assigns to them. -/
theorem Program.ofTokens_eq_ok_iff_isProgram {body ending : List Token}
    (hbody : ∀ token ∈ body, token.kind ≠ .eof)
    (hending : ending = [] ∨ ∃ mark : Token, mark.kind = .eof ∧ ending = [mark]) :
    (∀ program, Program.ofTokens (body ++ ending) = .ok program ↔ IsProgram body program) ∧
      ∀ program other, IsProgram body program → IsProgram body other → program = other := by
  refine ⟨fun program ↦ ?_, fun program other ↦ IsProgram.unique⟩
  rw [Program.ofTokens_eq_ok_iff, takeWhile_ne_eof hbody hending]

/-- Of two subtractions in a row, the left one is the operand of the right one. -/
theorem Program.isProgram_subtractions :
    IsProgram
      [⟨.identifier, "a", none, ⟨1, 1⟩, ⟨0, 1⟩⟩, ⟨.symbol .minus, "-", none, ⟨1, 3⟩, ⟨2, 3⟩⟩,
        ⟨.identifier, "b", none, ⟨1, 5⟩, ⟨4, 5⟩⟩, ⟨.symbol .minus, "-", none, ⟨1, 7⟩, ⟨6, 7⟩⟩,
        ⟨.identifier, "c", none, ⟨1, 9⟩, ⟨8, 9⟩⟩]
      [.expr ⟨0, 9⟩ (.binary ⟨0, 9⟩ (.arithmetic .subtract)
        (.binary ⟨0, 5⟩ (.arithmetic .subtract) (.name ⟨0, 1⟩ "a") (.name ⟨4, 5⟩ "b"))
        (.name ⟨8, 9⟩ "c"))] :=
  ((Program.ofTokens_eq_ok_iff_isProgram (by simp)
    (.inr ⟨⟨.eof, "", none, ⟨1, 10⟩, .point 9⟩, rfl, rfl⟩)).1 _).1 rfl

end ScopeScript
