import ScopeScript.Proofs.Grammar.Repair.Statement
import ScopeScript.Tree.Program

/-!
# Every failure can be repaired

The statements of a block or a program that were read before a failure stay, and the one that failed can
be completed. The numbers of rounds and the depth never run out before the tokens do.
-/

namespace ScopeScript

open Grammar

namespace Parser

variable {size : Nat}

/-! ## Blocks -/

section Blocks

variable {inner : Inner} (hinner : inner.RepairsBelow size)
include hinner

/-- The statements that are read before a failure are such before any other token: what is behind them
closes no block, so they do not end open. -/
theorem repairs_statements {count rounds : Nat} (hcount : count ≤ size) (hrounds : count < rounds) :
    Repairs count (statements inner rounds) fun _ row ↦ Begins IsBlock row := by
  induction rounds generalizing count with
  | zero => exact absurd hrounds (Nat.not_lt_zero _)
  | succ rounds ih =>
    intro before hsize
    rw [statements_succ_apply]
    split
    · exact fun _ h ↦ nomatch h
    have hone : ∀ {row}, IsStatement row → IsBlock row := by
      intro row h next _
      obtain ⟨tree, htree⟩ := h next
      exact ⟨[tree], List.append_nil row ▸ .moreStatements htree .noStatement⟩
    have hfirst := repairs_statement hinner before (Nat.le_trans hsize hcount)
    refine (hfirst.mono fun h ↦ h.mono hone).bind (onlyReads_statement hinner.toOnlyReads)
      fun {tree tokens after} hpass hstatement ↦ ?_
    have hlength : after.rest.length < before.rest.length := by
      have hpos := List.length_pos_iff.2 hstatement.statement_ne_nil
      rw [hpass.rest, List.length_append]
      omega
    refine Mends.bind (onlyReads_statements hinner.toOnlyReads rounds) ?_
      fun _ _ ↦ IsTotal.mends (fun _ ↦ ⟨_, rfl⟩) _
    by_cases hcloses : closesBlock after.kind
    · cases rounds with
      | zero => omega
      | succ rounds =>
        rw [statements_succ_apply, if_pos hcloses]
        exact fun _ h ↦ nomatch h
    have hrest : Repairs after.rest.length (statements inner rounds) _ := ih (by omega) (by omega)
    refine (hrest after (Nat.le_refl _)).mono fun h ↦
      h.bind fun {others} hothers ↦ .whole fun next hnext ↦ ?_
    obtain ⟨trees, htrees⟩ := hothers next hnext
    refine ⟨tree :: trees, .moreStatements (hstatement.statement_next fun _ _ hending ↦ ?_) htrees⟩
    exact hending.of_closes fun h ↦ absurd (closesBlock_iff.2 h) hcloses

theorem repairs_block : Repairs size (block inner) fun _ row ↦ Begins IsBlock row :=
  fun before hsize ↦ repairs_statements hinner hsize (Nat.lt_succ_self _) before (Nat.le_refl _)

end Blocks

/-- What is read as a block is one, whatever closes it. -/
theorem closed_block {inner : Inner} (h : inner.OnlyReads) :
    (block inner).OnlyReads fun _ _ tokens ↦ IsBlock tokens := by
  intro before after trees hblock
  obtain ⟨tokens, hpass, -, htrees⟩ := onlyReads_statements h _ hblock
  exact ⟨tokens, hpass, fun next hnext ↦ ⟨trees, htrees.block_next fun _ ↦ hnext⟩⟩

/-- The parsers for enclosed parts repair what is shorter than they go deep. -/
theorem Inner.repairsBelow_ofDepth (depth : Nat) : (Inner.ofDepth depth).RepairsBelow depth := by
  have hread := Inner.onlyReads_ofDepth depth
  induction depth with
  | zero =>
    exact ⟨hread, (fun _ _ _ h ↦ nomatch h), (fun h ↦ absurd h (Nat.not_lt_zero _)),
      (fun h ↦ absurd h (Nat.not_lt_zero _)), (fun h ↦ absurd h (Nat.not_lt_zero _))⟩
  | succ depth ih =>
    have hinner := ih (Inner.onlyReads_ofDepth depth)
    refine ⟨hread, closed_block hinner.toOnlyReads, fun hcount ↦ ?_, fun hcount ↦ ?_, fun hcount ↦ ?_⟩
    · exact ((repairs_expression hinner).of_le (Nat.le_of_lt_succ hcount)).mono And.left
    · exact ((repairs_unary hinner).of_le (Nat.le_of_lt_succ hcount)).mono And.left
    · exact (repairs_block hinner).of_le (Nat.le_of_lt_succ hcount)

/-! ## Programs -/

/-- A block that is read deep enough does not run out of rounds. -/
theorem block_ne_exhausted {depth : Nat} {cursor : Cursor} (hdepth : cursor.rest.length ≤ depth) :
    block (.ofDepth depth) cursor ≠ .error .exhausted := by
  intro h
  obtain ⟨_, _, _, hunmet, -⟩ := repairs_block (Inner.repairsBelow_ofDepth depth) cursor hdepth h
  cases hunmet

/-- The tokens are a program. -/
def IsWhole (tokens : List Token) : Prop := ∃ program, IsProgram tokens program

/-- The program ends in a failure before `rest`: that of a statement, or one because the statements end
before a token. -/
inductive FailsBefore (inner : Inner) (before : Cursor) (rest : List Token) : Failure → Prop
  | unmet {expectation : Expectation}
      (hblock : block inner before = .error (.unmet expectation rest)) :
      FailsBefore inner before rest (.unmet expectation rest)
  | surplus {trees : List Stmt} {token : Token} {others : List Token} {stop : Nat}
      (hrest : rest = token :: others) (hblock : block inner before = .ok (trees, ⟨rest, stop⟩)) :
      FailsBefore inner before rest (.surplus token)

theorem FailsBefore.program_eq {inner : Inner} {before : Cursor} {rest : List Token}
    {failure : Failure} (h : FailsBefore inner before rest failure) :
    program inner before = .error failure := by
  rw [program, bind_apply]
  cases h with
  | unmet hblock => rw [hblock]
  | surplus hrest hblock =>
    subst hrest
    rw [hblock]
    rfl

/-- What is put in the place of `rest` to repair the failure begins a program. Where a token is surplus,
there is one without it. -/
theorem failsBefore_of_program {depth behind : Nat} {tokens : List Token} {failure : Failure}
    (hdepth : tokens.length ≤ depth)
    (h : program (.ofDepth depth) ⟨tokens, behind⟩ = .error failure) :
    ∃ passed rest, tokens = passed ++ rest ∧
      FailsBefore (.ofDepth depth) ⟨tokens, behind⟩ rest failure ∧
      (∀ expectation, failure = .unmet expectation rest → expectation ≠ .token .eof ∧
        ∀ token, expectation.IsMetBy token → Begins IsWhole (passed ++ [token])) ∧
      ∀ token, failure = .surplus token → IsWhole passed := by
  have hinner := Inner.repairsBelow_ofDepth depth
  rw [program, bind_apply] at h
  cases hblock : block (.ofDepth depth) ⟨tokens, behind⟩ with
  | error other =>
    rw [hblock] at h
    cases h
    obtain ⟨expectation, passed, rest, rfl, hrest, hne, hgood⟩ :=
      repairs_block hinner ⟨tokens, behind⟩ hdepth hblock
    refine ⟨passed, rest, hrest, .unmet hblock, ?_, ?_⟩
    · rintro _ ⟨⟩
      exact ⟨hne, fun token htoken ↦ (hgood token htoken).mono fun h ↦ h .eof (.inr (.inr rfl))⟩
    · rintro _ ⟨⟩
  | ok result =>
    obtain ⟨trees, rest, stop⟩ := result
    obtain ⟨passed, hpass, hclosed⟩ := closed_block hinner.toOnlyReads hblock
    rw [hblock] at h
    cases rest with
    | nil => cases h
    | cons token others =>
      cases h
      refine ⟨passed, token :: others, hpass.rest, .surplus rfl hblock, ?_, ?_⟩
      · rintro _ ⟨⟩
      · exact fun _ _ ↦ hclosed .eof (.inr (.inr rfl))

end Parser

end ScopeScript
