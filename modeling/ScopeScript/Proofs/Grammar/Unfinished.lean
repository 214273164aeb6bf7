import ScopeScript.Proofs.Grammar.Blame
import ScopeScript.Proofs.Grammar.Layout

/-!
# Texts that can be continued

A text that is scanned to its end is incomplete exactly when it is no program but begins one: more text
behind a newline can make it a program. What the parser misses at the end of the text can always be
written, one plain token on each further line; an error at a token stays whatever follows.
-/

namespace ScopeScript

open Grammar

/-! ## Writing plain tokens -/

/-- The plainest spelling of a kind is scanned as the plainest token of this kind. -/
theorem scan_plainText {kind : Kind} (hkind : kind ≠ .eof) :
    ∃ token mark, scan kind.plainText = .ok ([token] ++ [mark]) ∧ token.unplaced = Token.plain kind := by
  rcases kind with symbol | keyword | _ | _ | _ | _
  case eof => exact absurd rfl hkind
  case symbol => cases symbol <;> exact ⟨_, _, (scan_eq_upTo _).trans rfl, rfl⟩
  case keyword => cases keyword <;> exact ⟨_, _, (scan_eq_upTo _).trans rfl, rfl⟩
  all_goals exact ⟨_, _, (scan_eq_upTo _).trans rfl, rfl⟩

theorem scan_empty : scan "" = .ok ([] ++ [.endMark .origin]) := (scan_eq_upTo "").trans rfl

section

variable {source : String} {body : List Token} {mark : Token}

/-- The tokens of two texts that are joined by a newline are those of the first and, moved, those of the
second. -/
theorem scan_append_line (hscan : scan source = .ok (body ++ [mark])) {more : String}
    {others : List Token} {mark' : Token} (hmore : scan more = .ok (others ++ [mark'])) :
    ∃ others' mark'', scan (source ++ "\n" ++ more) = .ok (body ++ others' ++ [mark'']) ∧
      others'.map Token.unplaced = others.map Token.unplaced := by
  let move := Token.below (source.toList.count '\n' + 1) (byteLength source.toList + 1)
  refine ⟨others.map move, move mark', ?_, ?_⟩
  · rw [scan_newline hscan, hmore, List.dropLast_concat, shiftScan, List.map_append, Except.map,
      List.append_assoc]
    rfl
  · rw [List.map_map]
    rfl

/-- More text behind a newline leaves the tokens before the newline. -/
theorem exists_of_scan_append_line (hscan : scan source = .ok (body ++ [mark])) {more : String}
    {tokens : List Token} (h : scan (source ++ "\n" ++ more) = .ok tokens) :
    ∃ others, tokens = body ++ others := by
  rw [scan_newline hscan, List.dropLast_concat] at h
  cases hmore : scan more with
  | error fault =>
    rw [hmore] at h
    cases h
  | ok others =>
    rw [hmore] at h
    cases h
    exact ⟨_, rfl⟩

end

/-! ## Continuations -/

namespace Program

section

variable {source : String} {body : List Token} {mark : Token}

/-- A text whose tokens begin a program, up to their places, can be continued to one. -/
theorem exists_continuation {row : List Token} (h : Begins Parser.IsWhole row)
    (hscan : scan source = .ok (body ++ [mark]))
    (hrow : row.map Token.unplaced = body.map Token.unplaced) :
    ∃ more program, ofString (source ++ "\n" ++ more) = .ok program := by
  induction h generalizing source body mark with
  | whole h =>
    obtain ⟨program, hprogram⟩ := h
    obtain ⟨other, hother, -⟩ := hprogram.exists_of_unplaced hrow
    obtain ⟨others, mark', hscan', hothers⟩ := scan_append_line hscan scan_empty
    obtain rfl := List.map_eq_nil_iff.1 hothers
    rw [List.append_nil] at hscan'
    obtain ⟨hbody, hmark'⟩ := kind_of_scan hscan'
    exact ⟨"", other, ofString_eq_ok_iff.2 ⟨body, mark', hscan', hbody, hmark', hother⟩⟩
  | @more row kind hkind _ ih =>
    -- the missing token is written on a line of its own
    obtain ⟨token, mark', hplain, htoken⟩ := scan_plainText hkind
    obtain ⟨others, mark'', hscan', hothers⟩ := scan_append_line hscan hplain
    have hrow' : (row ++ [Token.plain kind]).map Token.unplaced = (body ++ others).map Token.unplaced := by
      rw [List.map_append, List.map_append, hrow, hothers, List.map_singleton, List.map_singleton,
        ← htoken, Token.unplaced_unplaced]
    obtain ⟨more, program, hprogram⟩ := ih hscan' hrow'
    refine ⟨kind.plainText ++ "\n" ++ more, program, ?_⟩
    simpa only [String.append_assoc] using hprogram

/-- The parser stops before some of the tokens of a text that is scanned to its end, and says what may
stand there instead. An error at the end of the text is put where the mark of the end stands. -/
theorem exists_failure {tokens : List Token} {fault : Fault} (hscan : scan source = .ok tokens)
    (h : ofString source = .error fault) :
    ∃ passed rest mark failure, tokens = passed ++ rest ++ [mark] ∧
      Parser.FailsBefore (.ofDepth ((passed ++ rest).length + 1)) ⟨passed ++ rest, 0⟩ rest failure ∧
      fault = failure.fault mark.span.stop ∧
      ∀ expectation, failure = .unmet expectation rest → expectation ≠ .token .eof ∧
        ∀ token, expectation.IsMetBy token → Begins Parser.IsWhole (passed ++ [token]) := by
  obtain ⟨body, mark, rfl⟩ := scan_eq_append_mark hscan
  obtain ⟨hbody, hmark⟩ := kind_of_scan hscan
  have hparse : ofTokens (body ++ [mark]) = .error fault := by
    rw [← h, ofString, hscan]
    rfl
  obtain ⟨passed, rest, failure, hvisible, hfails, hfault, hunmet, -⟩ := ofTokens_eq_error_behind hparse
  rw [takeWhile_ne_eof hbody (.inr ⟨mark, hmark, rfl⟩)] at hvisible
  rw [List.getLast?_concat] at hfault
  exact ⟨passed, rest, mark, failure, by rw [hvisible], hfails, hfault, hunmet⟩

/-- An error at a token is the error of every longer text that is scanned to its end. -/
theorem ofString_append_line {passed others tokens : List Token} {token : Token} {failure : Failure}
    {depth : Nat} (hscan : scan source = .ok (passed ++ token :: others ++ [mark]))
    (hfails : Parser.FailsBefore (.ofDepth depth) ⟨passed ++ token :: others, 0⟩ (token :: others)
      failure) {more : String} (hmore : scan (source ++ "\n" ++ more) = .ok tokens) (stop : Nat) :
    ofString (source ++ "\n" ++ more) = .error (failure.fault stop) := by
  have hkinds : ∀ other ∈ passed ++ [token], other.kind ≠ .eof := by
    intro other hother
    refine (kind_of_scan hscan).1 other (List.mem_append.2 ?_)
    exact (List.mem_append.1 hother).imp_right fun h ↦ List.mem_cons.2 (.inl (List.mem_singleton.1 h))
  obtain ⟨others', rfl⟩ := exists_of_scan_append_line hscan hmore
  calc
    ofString (source ++ "\n" ++ more) = ofTokens (passed ++ token :: (others ++ others')) := by
      rw [ofString, hmore, List.append_assoc]
      rfl
    _ = .error (failure.fault stop) := ofTokens_eq_error_of_prefix hfails hkinds (others ++ others') stop

/-- An error at a token stays, whatever follows the text. -/
theorem ofString_append_line_ne_ok {passed others : List Token} {token : Token} {failure : Failure}
    {depth : Nat} (hscan : scan source = .ok (passed ++ token :: others ++ [mark]))
    (hfails : Parser.FailsBefore (.ofDepth depth) ⟨passed ++ token :: others, 0⟩ (token :: others)
      failure) (more : String) (program : Program) :
    ofString (source ++ "\n" ++ more) ≠ .ok program := by
  intro hprogram
  obtain ⟨body, mark', hmore, -⟩ := ofString_eq_ok_iff.1 hprogram
  cases (ofString_append_line hscan hfails hmore 0).symm.trans hprogram

end

variable {source : String} {tokens : List Token}

/-- A text that is scanned to its end and is no program ends too early and can be continued, or it is
wrong at a token and cannot. -/
theorem continues_or_final (hscan : scan source = .ok tokens) {fault : Fault}
    (h : ofString source = .error fault) :
    (fault.error.isOpenEnded = true ∧
        ∃ more program, ofString (source ++ "\n" ++ more) = .ok program) ∨
      (fault.error.isOpenEnded = false ∧
        ∀ more program, ofString (source ++ "\n" ++ more) ≠ .ok program) := by
  obtain ⟨passed, rest, mark, failure, rfl, hfails, rfl, hunmet⟩ := exists_failure hscan h
  cases rest with
  | nil =>
    cases hfails with
    | surplus hrest => cases hrest
    | @unmet expectation hblock =>
      obtain ⟨hne, hrepair⟩ := hunmet expectation rfl
      rw [List.append_nil] at hscan
      exact .inl ⟨rfl, exists_continuation (.of_repair hne hrepair) hscan rfl⟩
  | cons token others =>
    have hfinal := ofString_append_line_ne_ok hscan hfails
    cases hfails with
    | surplus | unmet => exact .inr ⟨rfl, hfinal⟩

/-- A text that is scanned to its end is incomplete exactly if it is no program and can become one by
adding to it behind a newline. It can wherever the parser finds that it ends too early. -/
theorem isComplete_eq_false_iff (hscan : scan source = .ok tokens) :
    (isComplete source = false ↔ (∀ program, ofString source ≠ .ok program) ∧
        ∃ more program, ofString (source ++ "\n" ++ more) = .ok program) ∧
      ∀ expected span, ofString source = .error ⟨.unexpectedEnd expected, span⟩ →
        ∃ more program, ofString (source ++ "\n" ++ more) = .ok program := by
  constructor
  · rw [isComplete]
    cases hsource : ofString source with
    | ok program => simp
    | error fault =>
      rcases continues_or_final hscan hsource with ⟨hopen, hmore⟩ | ⟨hopen, hnone⟩
      · simpa [hopen] using hmore
      · simpa [hopen] using hnone
  · intro expected span hsource
    rcases continues_or_final hscan hsource with ⟨-, hmore⟩ | ⟨hopen, -⟩
    · exact hmore
    · cases hopen

/-- A loop without a body and its end can be continued. -/
theorem isComplete_eq_false_iff_loop :
    isComplete "while x do" = false ∧
      ∃ more program, ofString ("while x do" ++ "\n" ++ more) = .ok program := by
  have hscan : scan "while x do" = .ok
      [⟨.keyword .while_, "while", none, ⟨1, 1⟩, ⟨0, 5⟩⟩, ⟨.identifier, "x", none, ⟨1, 7⟩, ⟨6, 7⟩⟩,
        ⟨.keyword .do_, "do", none, ⟨1, 9⟩, ⟨8, 10⟩⟩, ⟨.eof, "", none, ⟨1, 11⟩, ⟨10, 10⟩⟩] :=
    (scan_eq_upTo "while x do").trans rfl
  have hincomplete : isComplete "while x do" = false := by
    rw [isComplete, ofString, hscan]
    rfl
  exact ⟨hincomplete, ((isComplete_eq_false_iff hscan).1.1 hincomplete).2⟩

end Program

end ScopeScript
