import Mathlib.Data.List.Nodup
import ScopeScript.Proofs.Grammar.Lookahead
import ScopeScript.Proofs.Grammar.Program
import ScopeScript.Proofs.Grammar.Repair.Program

/-!
# The token that is blamed

A row of tokens is viable if it begins a program. The token that an error blames is the first that
makes the row unviable: before it the row can go on, with what the error says is expected among others,
and with it no more. So whatever comes behind this token does not change the error.
-/

namespace ScopeScript

open Grammar

/-! ## Descriptions -/

namespace Kind

theorem mem_all (kind : Kind) : kind ∈ all := by
  rcases kind with symbol | keyword | _ | _ | _ | _
  · cases symbol <;> decide
  · cases keyword <;> decide
  all_goals decide

/-- Messages name different kinds differently. -/
theorem describe_injective {kind other : Kind} (h : kind.describe = other.describe) : kind = other := by
  have hall : ∀ kind ∈ all, ∀ other ∈ all, kind.describe = other.describe → kind = other := by
    decide +kernel
  exact hall kind kind.mem_all other other.mem_all h

theorem describe_ne_expression (kind : Kind) : kind.describe ≠ "expression" := by
  have hnone : ∀ kind ∈ all, kind.describe ≠ "expression" := by decide +kernel
  exact hnone kind kind.mem_all

end Kind

/-! ## Viable rows -/

/-- Some tokens behind the row make it a program. -/
def Program.Viable (tokens : List Token) : Prop :=
  ∃ more program, Program.ofTokens (tokens ++ more) = .ok program

theorem Program.viable_of_begins {tokens : List Token} (h : Begins Parser.IsWhole tokens)
    (hkinds : ∀ token ∈ tokens, token.kind ≠ .eof) : Program.Viable tokens := by
  induction h with
  | @whole row hrow =>
    obtain ⟨program, hprogram⟩ := hrow
    refine ⟨[], program, Program.ofTokens_eq_ok_iff.2 ?_⟩
    rwa [takeWhile_ne_eof hkinds (.inl rfl)]
  | @more row kind hkind _ ih =>
    have hkinds' : ∀ token ∈ row ++ [Token.plain kind], token.kind ≠ .eof := by
      simpa [or_imp, forall_and] using ⟨hkinds, hkind⟩
    obtain ⟨more, program, hprogram⟩ := ih hkinds'
    exact ⟨Token.plain kind :: more, program, by simpa using hprogram⟩

/-- Where something is asked for, the row can go on. -/
theorem Grammar.Begins.of_repair {language : List Token → Prop} {row : List Token}
    {expectation : Expectation} (hne : expectation ≠ .token .eof)
    (h : ∀ token, expectation.IsMetBy token → Begins language (row ++ [token])) :
    Begins language row := by
  cases expectation with
  | token kind => exact .more kind (fun hkind ↦ hne (hkind ▸ rfl)) (h _ rfl)
  | expression => exact .more (.keyword .nil) (by decide) (h _ rfl)

/-! ## Rows with the same beginning -/

/-- Rows are compared token by token up to where `rest` is left of the first. -/
def Comparison.before (rest : List Token) : Comparison where
  same token other := token = other
  isEnd row := row.length ≤ rest.length
  unplaced_eq := by
    rintro token _ rfl
    rfl
  isEnd_tail h := Nat.le_of_succ_le h

theorem Comparison.agree_before (front rest rest' : List Token) :
    (Comparison.before rest).Agree (front ++ rest) (front ++ rest') := by
  induction front with
  | nil => exact .ended (Nat.le_refl _)
  | cons token front ih => exact .cons rfl ih

/-- Rows that agree before `rest` begin with the same token, if more than `rest` is left. -/
theorem Comparison.Agree.exists_rest {token : Token} {rest others : List Token}
    (h : (Comparison.before rest).Agree (token :: rest) others) : ∃ rest', others = token :: rest' := by
  cases h with
  | cons htoken => exact ⟨_, by rw [show token = _ from htoken]⟩
  | ended hend => exact absurd hend (Nat.not_succ_le_self _)

namespace Parser

/-- A failure before a token is the same whatever stands behind the token. -/
theorem FailsBefore.of_prefix {depth depth' : Nat} {front rest rest' : List Token} {token : Token}
    (hdepth' : (front ++ token :: rest').length ≤ depth') {failure : Failure}
    (h : FailsBefore (.ofDepth depth) ⟨front ++ token :: rest, 0⟩ (token :: rest) failure) :
    ∃ failure', program (.ofDepth depth') ⟨front ++ token :: rest', 0⟩ = .error failure' ∧
      ∀ stop stop', failure'.fault stop' = failure.fault stop := by
  let comparison := Comparison.before rest
  let cursor' : Cursor := ⟨front ++ token :: rest', 0⟩
  have hopen : ¬comparison.isEnd (token :: rest) := Nat.not_succ_le_self _
  have hagree : comparison.Agree (front ++ token :: rest) cursor'.rest := by
    simpa [cursor'] using Comparison.agree_before (front ++ [token]) rest rest'
  have hfollows : comparison.Follows (List.map Stmt.unplaced)
      (block (.ofDepth depth) ⟨front ++ token :: rest, 0⟩) (block (.ofDepth depth') cursor') :=
    (Comparison.tracks_block (Comparison.tracksInner_ofDepth depth depth')).follows hagree
  have hne : block (.ofDepth depth') cursor' ≠ .error .exhausted := block_ne_exhausted hdepth'
  cases h with
  | @unmet expectation hblock =>
    rw [hblock] at hfollows
    rcases hfollows with hended | hexhausted | hmatches
    · exact absurd hended hopen
    · exact absurd hexhausted hne
    generalize hblock' : block (.ofDepth depth') cursor' = result at hmatches
    cases hmatches with
    | unmet hrest =>
      obtain ⟨others, rfl⟩ := hrest.exists_rest
      exact ⟨_, (FailsBefore.unmet hblock').program_eq, fun _ _ ↦ rfl⟩
  | @surplus trees other others stop hrest hblock =>
    obtain ⟨rfl, rfl⟩ := List.cons.inj hrest
    rw [hblock] at hfollows
    rcases hfollows with hended | hexhausted | hmatches
    · exact absurd hended hopen
    · exact absurd hexhausted hne
    generalize hblock' : block (.ofDepth depth') cursor' = result at hmatches
    cases hmatches with
    | @ok _ _ _ after' _ hrest =>
      obtain ⟨rest'', stop'⟩ := after'
      obtain ⟨others, rfl⟩ := hrest.exists_rest
      exact ⟨_, (FailsBefore.surplus rfl hblock').program_eq, fun _ _ ↦ rfl⟩

end Parser

/-! ## Errors -/

namespace Program

/-- An error is a failure of the parser before some of the tokens, and says what may stand there
instead. If none are left it is put behind the last of all tokens. -/
theorem ofTokens_eq_error_behind {tokens : List Token} {fault : Fault}
    (h : ofTokens tokens = .error fault) :
    ∃ passed rest failure, (tokens.takeWhile fun token ↦ token.kind ≠ .eof) = passed ++ rest ∧
      Parser.FailsBefore (.ofDepth ((passed ++ rest).length + 1)) ⟨passed ++ rest, 0⟩ rest failure ∧
      fault = failure.fault ((tokens.getLast?.map (·.span.stop)).getD 0) ∧
      (∀ expectation, failure = .unmet expectation rest → expectation ≠ .token .eof ∧
        ∀ token, expectation.IsMetBy token → Begins Parser.IsWhole (passed ++ [token])) ∧
      ∀ token, failure = .surplus token → Parser.IsWhole passed := by
  rw [ofTokens] at h
  generalize (tokens.takeWhile fun token ↦ token.kind ≠ .eof) = visible at h
  split at h
  next => cases h
  next failure hfailure =>
    cases h
    obtain ⟨passed, rest, rfl, hfails, hunmet, hsurplus⟩ :=
      Parser.failsBefore_of_program (Nat.le_succ _) hfailure
    exact ⟨passed, rest, failure, rfl, hfails, rfl, hunmet, hsurplus⟩

theorem ofTokens_eq_error {tokens : List Token} {fault : Fault} (h : ofTokens tokens = .error fault) :
    ∃ passed rest failure stop, (tokens.takeWhile fun token ↦ token.kind ≠ .eof) = passed ++ rest ∧
      Parser.FailsBefore (.ofDepth ((passed ++ rest).length + 1)) ⟨passed ++ rest, 0⟩ rest failure ∧
      fault = failure.fault stop ∧
      (∀ expectation, failure = .unmet expectation rest → expectation ≠ .token .eof ∧
        ∀ token, expectation.IsMetBy token → Begins Parser.IsWhole (passed ++ [token])) ∧
      ∀ token, failure = .surplus token → Parser.IsWhole passed := by
  obtain ⟨passed, rest, failure, hvisible, hfails, hfault, hrest⟩ := ofTokens_eq_error_behind h
  exact ⟨passed, rest, failure, _, hvisible, hfails, hfault, hrest⟩

/-- An error at a token is the same whatever stands behind the token. -/
theorem ofTokens_eq_error_of_prefix {depth : Nat} {front rest : List Token} {token : Token}
    {failure : Failure}
    (h : Parser.FailsBefore (.ofDepth depth) ⟨front ++ token :: rest, 0⟩ (token :: rest) failure)
    (hkinds : ∀ other ∈ front ++ [token], other.kind ≠ .eof) (rest' : List Token) (stop : Nat) :
    ofTokens (front ++ token :: rest') = .error (failure.fault stop) := by
  have hvisible : ((front ++ token :: rest').takeWhile fun token ↦ token.kind ≠ .eof) =
      front ++ token :: (rest'.takeWhile fun token ↦ token.kind ≠ .eof) := by
    rw [List.append_cons, List.takeWhile_append_of_pos (by simpa using hkinds), List.append_assoc]
    rfl
  obtain ⟨failure', hfailure', hfault⟩ := h.of_prefix (Nat.le_succ _)
  rw [ofTokens, hvisible, hfailure']
  exact congrArg Except.error (hfault stop _)

/-- What an error says to be expected is possible. -/
theorem viable_of_describe {row : List Token} {expectation : Expectation}
    (hne : expectation ≠ .token .eof) (hkinds : ∀ token ∈ row, token.kind ≠ .eof)
    (hrepair : ∀ token, expectation.IsMetBy token → Begins Parser.IsWhole (row ++ [token])) :
    (∀ kind : Kind, kind.describe = expectation.describe → ∀ token : Token, token.kind = kind →
        Viable (row ++ [token])) ∧
      ("expression" = expectation.describe → ∀ token : Token, token.kind = .keyword .nil →
        Viable (row ++ [token])) := by
  have hviable : ∀ token, expectation.IsMetBy token → token.kind ≠ .eof →
      Viable (row ++ [token]) := by
    intro token htoken hkind
    refine viable_of_begins (hrepair token htoken) ?_
    simpa [or_imp, forall_and] using ⟨hkinds, hkind⟩
  cases expectation with
  | token asked =>
    refine ⟨fun kind hkind token htoken ↦ ?_, fun hkind ↦ absurd hkind.symm asked.describe_ne_expression⟩
    obtain rfl := Kind.describe_injective hkind
    exact hviable token htoken fun heof ↦ hne (htoken ▸ heof ▸ rfl)
  | expression =>
    refine ⟨fun kind hkind ↦ absurd hkind kind.describe_ne_expression, fun _ token htoken ↦ ?_⟩
    exact hviable token htoken (by simp [htoken])

/-- With different spans, the span of a token tells where it stands. -/
theorem span_eq_iff {front rest : List Token} {token : Token}
    (hspans : ((front ++ token :: rest).map Token.span).Nodup) (j : Nat)
    (hj : j < (front ++ token :: rest).length) :
    (front ++ token :: rest)[j].span = token.span ↔ j = front.length := by
  have hk : front.length < (front ++ token :: rest).length := by simp
  have hj' : j < ((front ++ token :: rest).map Token.span).length := by rwa [List.length_map]
  have hk' : front.length < ((front ++ token :: rest).map Token.span).length := by
    rwa [List.length_map]
  have hinj : ((front ++ token :: rest).map Token.span)[j] =
      ((front ++ token :: rest).map Token.span)[front.length] ↔ j = front.length :=
    hspans.getElem_inj_iff
  have htoken : (front ++ token :: rest)[front.length] = token := by simp
  rw [← hinj, List.getElem_map, List.getElem_map, htoken]

/-- The error at a token blames the first one with which the tokens begin no program. It is the same for
all rows with this beginning, and what it says to be expected there is possible: any token of the kind
that it names, and `nil` for an expression. -/
theorem ofTokens_blames_first {tokens : List Token} {fault : Fault}
    (hkinds : ∀ token ∈ tokens, token.kind ≠ .eof) (hspans : (tokens.map Token.span).Nodup)
    (h : ofTokens tokens = .error fault)
    (herror : (∃ lexeme, fault.error = .surplusToken lexeme) ∨
      ∃ lexeme expected, fault.error = .unexpectedToken lexeme expected) :
    ∃ k, k < tokens.length ∧
      (∀ j (hj : j < tokens.length), tokens[j].span = fault.span ↔ j = k) ∧
      Viable (tokens.take k) ∧ ¬Viable (tokens.take (k + 1)) ∧
      (∀ others : List Token, others.take (k + 1) = tokens.take (k + 1) →
        ofTokens others = .error fault) ∧
      ∀ lexeme expected, fault.error = .unexpectedToken lexeme expected →
        (∀ kind : Kind, kind.describe ∈ expected → ∀ token : Token, token.kind = kind →
          Viable (tokens.take k ++ [token])) ∧
        ("expression" ∈ expected → ∀ token : Token, token.kind = .keyword .nil →
          Viable (tokens.take k ++ [token])) := by
  obtain ⟨passed, rest, failure, stop, htokens, hfails, rfl, hunmet, hsurplus⟩ := ofTokens_eq_error h
  have hvisible : (tokens.takeWhile fun token ↦ token.kind ≠ .eof) = tokens := by
    simpa using takeWhile_ne_eof hkinds (.inl rfl)
  obtain rfl : tokens = passed ++ rest := hvisible.symm.trans htokens
  obtain ⟨token, rest, rfl, hspan⟩ : ∃ token others, rest = token :: others ∧
      (failure.fault stop).span = token.span := by
    cases hfails with
    | unmet hblock =>
      cases rest with
      | nil => rcases herror with ⟨_, herror⟩ | ⟨_, _, herror⟩ <;> cases herror
      | cons token others => exact ⟨token, others, rfl, rfl⟩
    | surplus hrest => exact ⟨_, _, hrest, rfl⟩
  have hfront : (passed ++ token :: rest).take passed.length = passed := List.take_left
  have hnext : (passed ++ token :: rest).take (passed.length + 1) = passed ++ [token] := by
    rw [List.append_cons]
    exact List.take_left' (by simp)
  have hkinds' : ∀ other ∈ passed ++ [token], other.kind ≠ .eof :=
    fun other hother ↦ hkinds other (List.mem_of_mem_take (hnext ▸ hother))
  have hpassed : ∀ other ∈ passed, other.kind ≠ .eof :=
    fun other hother ↦ hkinds' other (List.mem_append_left _ hother)
  have hsame : ∀ others : List Token, others.take (passed.length + 1) = passed ++ [token] →
      ofTokens others = .error (failure.fault stop) := by
    intro others hothers
    rw [← List.take_append_drop (passed.length + 1) others, hothers, List.append_assoc]
    exact ofTokens_eq_error_of_prefix hfails hkinds' _ stop
  refine ⟨passed.length, by simp, fun j hj ↦ hspan ▸ span_eq_iff hspans j hj, ?_, ?_, ?_, ?_⟩
  · rw [hfront]
    refine viable_of_begins ?_ hpassed
    cases hfails with
    | unmet hblock =>
      obtain ⟨hne, hrepair⟩ := hunmet _ rfl
      exact .of_repair hne hrepair
    | surplus => exact .whole (hsurplus _ rfl)
  · rintro ⟨more, program, hprogram⟩
    rw [hnext, hsame (passed ++ [token] ++ more) (List.take_left' (by simp))] at hprogram
    cases hprogram
  · rwa [hnext]
  · intro lexeme expected hexpected
    rw [hfront]
    cases hfails with
    | unmet hblock =>
      obtain ⟨hne, hrepair⟩ := hunmet _ rfl
      cases hexpected
      simpa only [List.mem_singleton] using viable_of_describe hne hpassed hrepair
    | surplus => cases hexpected

/-- Behind a name another name is refused, where a semicolon would not be. -/
theorem ofTokens_blames_first_name :
    ofTokens [⟨.identifier, "a", none, ⟨1, 1⟩, ⟨0, 1⟩⟩, ⟨.identifier, "b", none, ⟨1, 3⟩, ⟨2, 3⟩⟩] =
        .error ⟨.unexpectedToken "b" ["\";\""], ⟨2, 3⟩⟩ ∧
      ∀ token : Token, token.kind = .symbol .semicolon →
        Viable [⟨.identifier, "a", none, ⟨1, 1⟩, ⟨0, 1⟩⟩, token] := by
  have h : ofTokens
      [⟨.identifier, "a", none, ⟨1, 1⟩, ⟨0, 1⟩⟩, ⟨.identifier, "b", none, ⟨1, 3⟩, ⟨2, 3⟩⟩] =
        .error ⟨.unexpectedToken "b" ["\";\""], ⟨2, 3⟩⟩ := rfl
  obtain ⟨k, hk, hspan, -, -, -, hexpected⟩ :=
    ofTokens_blames_first (by simp) (by simp) h (.inr ⟨_, _, rfl⟩)
  obtain rfl : 1 = k := (hspan 1 (by simp)).1 rfl
  exact ⟨h, (hexpected _ _ rfl).1 _ (List.mem_singleton.2 rfl)⟩

end Program

end ScopeScript
