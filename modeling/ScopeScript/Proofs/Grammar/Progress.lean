import ScopeScript.Proofs.Grammar.Marks

/-!
# Progress

Parsing ends, whatever the tokens are: their kinds, values and spans may be any, and a mark of the end
may stand anywhere or be missing. The depth and the rounds that the parsers are given are never what
stops a parse. A parser that is given as much depth as there are tokens before the first mark comes to
the same end with any more. It ends at an index that is not behind the mark, and except for a block,
which may be empty, it has moved on whenever it succeeds.
-/

namespace ScopeScript

open Grammar

/-! ## Indices -/

/-- The index of the first mark of the end, or the number of tokens if there is none. -/
def Grammar.markIndex (tokens : List Token) : Nat := tokens.findIdx fun token ↦ token.kind = .eof

/-- The tokens before the first mark of the end. -/
def Grammar.visible (tokens : List Token) : List Token := tokens.take (markIndex tokens)

/-- The cursor before the token at an index, all tokens before it having been read. -/
def Cursor.ofIndex (tokens : List Token) (index : Nat) : Cursor :=
  ⟨tokens.drop index, stopAfter 0 (tokens.take index)⟩

theorem Grammar.length_visible (tokens : List Token) :
    (visible tokens).length = markIndex tokens := by
  rw [visible, List.length_take]
  exact Nat.min_eq_left List.findIdx_le_length

theorem Grammar.takeWhile_eq_visible (tokens : List Token) :
    (tokens.takeWhile fun token ↦ token.kind ≠ .eof) = visible tokens := by
  rw [List.takeWhile_eq_take_findIdx_not, visible, markIndex]
  simp

/-- Where the visible tokens end there is a mark or nothing. -/
theorem Grammar.leading_drop_markIndex (tokens : List Token) :
    leading .eof (tokens.drop (markIndex tokens)) = .eof := by
  by_cases h : markIndex tokens < tokens.length
  · rw [List.drop_eq_getElem_cons h, leading_cons]
    exact of_decide_eq_true (List.findIdx_getElem (w := h))
  · rw [List.drop_eq_nil_of_le (Nat.le_of_not_lt h), leading_nil]

/-! ## Visible tokens -/

section

variable {tokens passed rest : List Token} {index : Nat}

/-- Where tokens were passed, the others stand at a later index. -/
theorem Grammar.drop_add_length (h : tokens.drop index = passed ++ rest) :
    tokens.drop (index + passed.length) = rest := by
  rw [← List.drop_drop, h, List.drop_left]

/-- Passing tokens, a cursor moves on by their number. -/
theorem Cursor.Passes.eq_ofIndex {after : Cursor}
    (h : (ofIndex tokens index).Passes passed after) :
    after = ofIndex tokens (index + passed.length) := by
  have hrest : tokens.drop index = passed ++ after.rest := h.rest
  have hpassed : (tokens.drop index).take passed.length = passed := by rw [hrest, List.take_left]
  refine h.unique ⟨?_, ?_⟩
  · exact hrest.trans (congrArg (passed ++ ·) (drop_add_length hrest).symm)
  · change stopAfter 0 _ = stopAfter (stopAfter 0 _) _
    rw [← stopAfter_append, List.take_add, hpassed]

/-- Before the mark a cursor stands among the visible tokens, and the others are behind them. -/
theorem Cursor.ofIndex_eq_followedBy (h : index ≤ markIndex tokens) :
    ofIndex tokens index =
      (ofIndex (visible tokens) index).followedBy (tokens.drop (markIndex tokens)) := by
  have hdrop : tokens.drop index =
      (visible tokens).drop index ++ tokens.drop (markIndex tokens) := by
    rw [← List.drop_append_of_le_length (by rwa [length_visible]), visible, List.take_append_drop]
  have htake : (visible tokens).take index = tokens.take index := by
    rw [visible, List.take_take, Nat.min_eq_left h]
  rw [followedBy, ofIndex, ofIndex, hdrop, htake]

variable (hindex : index ≤ markIndex tokens)
include hindex

theorem Grammar.length_of_visible (h : (visible tokens).drop index = passed ++ rest) :
    index + passed.length + rest.length = markIndex tokens := by
  have hlength := congrArg List.length h
  rw [List.length_drop, length_visible, List.length_append] at hlength
  omega

/-- Among the visible tokens no more can be passed than there are. -/
theorem Grammar.add_length_le_markIndex (h : (visible tokens).drop index = passed ++ rest) :
    index + passed.length ≤ markIndex tokens :=
  Nat.le.intro (length_of_visible hindex h)

/-- The cursor behind visible tokens, when the others are put behind them again. -/
theorem Cursor.Passes.followedBy_eq {after : Cursor}
    (h : (ofIndex (visible tokens) index).Passes passed after) :
    after.followedBy (tokens.drop (markIndex tokens)) =
      ofIndex tokens (index + passed.length) := by
  rw [h.eq_ofIndex, ofIndex_eq_followedBy (add_length_le_markIndex hindex h.rest)]

/-- The tokens behind visible ones, when the others are put behind them again. -/
theorem Grammar.append_of_visible (h : (visible tokens).drop index = passed ++ rest) :
    rest ++ tokens.drop (markIndex tokens) = tokens.drop (index + passed.length) := by
  rw [← drop_add_length h]
  exact congrArg Cursor.rest
    (Cursor.ofIndex_eq_followedBy (add_length_le_markIndex hindex h)).symm

theorem Grammar.add_length_lt_markIndex {token : Token}
    (h : (visible tokens).drop index = passed ++ token :: rest) :
    index + passed.length < markIndex tokens := by
  rw [← length_of_visible hindex h]
  exact Nat.lt_add_of_pos_right (Nat.succ_pos rest.length)

theorem Grammar.getElem?_of_visible {token : Token}
    (h : (visible tokens).drop index = passed ++ token :: rest) :
    tokens[index + passed.length]? = some token := by
  rw [← List.head?_drop, ← append_of_visible hindex h]
  rfl

end

namespace Parser

variable {α : Type} {tokens : List Token} {least index : Nat}

/-! ## Ends -/

/-- A parser has moved on by at least so many tokens from an index, or it has failed because something
is asked for, and it has not gone behind the mark. -/
inductive Proceeds (tokens : List Token) (least index : Nat) :
    Except Failure (α × Cursor) → Prop
  | ok {value : α} {later : Nat} (hleast : index + least ≤ later) (hmark : later ≤ markIndex tokens) :
      Proceeds tokens least index (.ok (value, .ofIndex tokens later))
  | unmet {expectation : Expectation} {later : Nat} (hle : index ≤ later)
      (hmark : later ≤ markIndex tokens) :
      Proceeds tokens least index (.error (.unmet expectation (tokens.drop later)))

/-- The parser ends and has proceeded then. How it ends does not depend on how deep it may go, unless it
runs out of depth, which takes less depth than there are visible tokens from the index on. -/
def Ends (tokens : List Token) (least index : Nat) (parser : Inner → Parser α) : Prop :=
  ∃ result, Proceeds tokens least index result ∧ ∀ depth,
    parser (.ofDepth depth) (.ofIndex tokens index) = result ∨
      depth < markIndex tokens - index ∧
        parser (.ofDepth depth) (.ofIndex tokens index) = .error .exhausted

/-- Depth that cannot run out makes no difference. -/
theorem Ends.eq_of_le {parser : Inner → Parser α} (h : Ends tokens least index parser)
    {depth depth' : Nat} (hdepth : markIndex tokens - index ≤ depth)
    (hdepth' : markIndex tokens - index ≤ depth') :
    parser (.ofDepth depth) (.ofIndex tokens index) =
      parser (.ofDepth depth') (.ofIndex tokens index) := by
  obtain ⟨result, -, hresult⟩ := h
  rcases hresult depth with h | ⟨hlt, -⟩
  · rcases hresult depth' with h' | ⟨hlt, -⟩
    · rw [h, h']
    · exact absurd hlt (Nat.not_lt.2 hdepth')
  · exact absurd hlt (Nat.not_lt.2 hdepth)

theorem followedBy_nil (result : Except Failure (α × Cursor)) : followedBy [] result = result := by
  cases result with
  | ok result => simp [followedBy, Cursor.followedBy]
  | error failure => cases failure <;> simp [followedBy, Failure.followedBy]

/-- With less depth a parser does the same, or runs out of it. -/
theorem Stops.eq_or_exhausted {parser parser' : Parser α} (h : Stops [] parser parser')
    (cursor : Cursor) : parser cursor = .error .exhausted ∨ parser cursor = parser' cursor := by
  rcases h cursor with hexhausted | hstops
  · exact .inl hexhausted
  · rw [Cursor.followedBy, List.append_nil, followedBy_nil] at hstops
    exact .inr hstops.symm

/-- What is read of the visible tokens and cannot fail but for want of something is read of all tokens
in the same way. -/
theorem proceeds_followedBy {parser : Parser α} {phrase : Kind → α → List Token → Prop}
    {good : List Token → List Token → Prop} (hindex : index ≤ markIndex tokens)
    (hread : parser.OnlyReads phrase)
    (hleast : ∀ {next value passed}, phrase next value passed → least ≤ passed.length)
    (hmends :
      Mends good (.ofIndex (visible tokens) index) (parser (.ofIndex (visible tokens) index))) :
    Proceeds tokens least index
      (followedBy (tokens.drop (markIndex tokens)) (parser (.ofIndex (visible tokens) index))) := by
  cases hresult : parser (.ofIndex (visible tokens) index) with
  | ok result =>
    obtain ⟨value, after⟩ := result
    obtain ⟨passed, hpass, hphrase⟩ := hread hresult
    rw [followedBy, hpass.followedBy_eq hindex]
    exact .ok (Nat.add_le_add_left (hleast hphrase) index)
      (add_length_le_markIndex hindex hpass.rest)
  | error failure =>
    obtain ⟨expectation, passed, rest, rfl, hrest, -⟩ := hmends hresult
    rw [followedBy, Failure.followedBy, append_of_visible hindex hrest]
    exact .unmet (Nat.le_add_right index passed.length) (add_length_le_markIndex hindex hrest)

/-- A parser ends that reads phrases, fails only for want of something and stops at marks. -/
theorem ends_of_stops {parser : Inner → Parser α} {phrase : Kind → α → List Token → Prop}
    {good : List Token → List Token → Prop} (hindex : index ≤ markIndex tokens)
    (hread : ∀ {inner : Inner}, inner.OnlyReads → (parser inner).OnlyReads phrase)
    (hleast : ∀ {next value passed}, phrase next value passed → least ≤ passed.length)
    (hrepairs : ∀ {inner : Inner} {size}, inner.RepairsBelow size → Repairs size (parser inner) good)
    (hstops : ∀ {tail}, leading .eof tail = .eof → ∀ {inner inner' : Inner},
      inner.Stops tail inner' → Stops tail (parser inner) (parser inner')) :
    Ends tokens least index parser := by
  let depth := markIndex tokens - index
  have hinner := Inner.repairsBelow_ofDepth depth
  have hsize : (Cursor.ofIndex (visible tokens) index).rest.length ≤ depth := by
    refine Nat.le_of_eq ?_
    rw [Cursor.ofIndex, List.length_drop, length_visible]
  have hmends := hrepairs hinner _ hsize
  have hmark := leading_drop_markIndex tokens
  -- The result is that on the visible tokens with the least depth that cannot run out there.
  have hdeep : ∀ depth', depth ≤ depth' → parser (.ofDepth depth') (.ofIndex tokens index) =
      followedBy (tokens.drop (markIndex tokens))
        (parser (.ofDepth depth) (.ofIndex (visible tokens) index)) := by
    intro depth' hle
    rw [Cursor.ofIndex_eq_followedBy hindex]
    rcases hstops hmark (Inner.stops_ofDepth hmark hle) (.ofIndex (visible tokens) index) with h | h
    · obtain ⟨_, _, _, hunmet, -⟩ := hmends h
      cases hunmet
    · exact h
  refine ⟨_, proceeds_followedBy hindex (hread hinner.toOnlyReads) hleast hmends, fun depth' ↦ ?_⟩
  rcases Nat.lt_or_ge depth' depth with hlt | hge
  · have hinner' := Inner.stops_ofDepth (leading_nil .eof) (Nat.le_of_lt hlt)
    rcases (hstops (leading_nil .eof) hinner').eq_or_exhausted (.ofIndex tokens index) with h | h
    · exact .inr ⟨hlt, h⟩
    · exact .inl (h.trans (hdeep depth (Nat.le_refl depth)))
  · exact .inl (hdeep depth' hge)

/-! ## Each parser -/

/-- No expression is read where the tokens end. -/
theorem binary_of_eof (inner : Inner) (levels : List Level) {cursor : Cursor}
    (h : cursor.kind = .eof) :
    binary inner levels cursor = .error (.unmet .expression cursor.rest) := by
  induction levels with
  | nil =>
    have hnone : UnaryOp.ofKind? .eof = none := rfl
    rw [binary, unary_apply, h, hnone]
    simp only [primary_apply, h, literal_apply, literalValue?_eq_none h]
  | cons level tighter ih => rw [binary, bind_apply, ih]

theorem statement_of_eof (inner : Inner) {cursor : Cursor} (h : cursor.kind = .eof) :
    statement inner cursor = .error (.unmet .expression cursor.rest) := by
  simp only [statement_apply, h]
  rw [expressionStatement, bind_apply, expression, binary_of_eof inner _ h]

/-- Where the tokens end, a statement lacks an expression, and where they go on it stops with them. -/
theorem stops_statement {tail : List Token} (hmark : leading .eof tail = .eof) {inner inner' : Inner}
    (hinner : inner.Stops tail inner') : Stops tail (statement inner) (statement inner') := by
  intro cursor
  by_cases hcursor : cursor.kind = .eof
  · right
    have hkind := (Cursor.kind_followedBy hmark cursor).trans hcursor
    rw [statement_of_eof inner hcursor, statement_of_eof inner' hkind]
    rfl
  · exact stopsAt_statement hmark hinner hcursor

section

variable (hindex : index ≤ markIndex tokens)
include hindex

theorem ends_statement : Ends tokens 1 index statement :=
  ends_of_stops hindex onlyReads_statement (fun h ↦ List.length_pos_iff.2 h.statement_ne_nil)
    repairs_statement stops_statement

theorem ends_binary {precedence : Nat} (hle : precedence ≤ Level.all.length) :
    Ends tokens 1 index fun inner ↦ binary inner (Level.all.drop precedence) :=
  ends_of_stops hindex (fun h ↦ onlyReads_binary h hle rfl)
    (fun h ↦ List.length_pos_iff.2 h.expression_ne_nil) (fun h ↦ repairs_binary h hle rfl)
    fun hmark _ _ hinner ↦ stops_binary hmark hinner _

theorem ends_expression : Ends tokens 1 index expression :=
  ends_binary hindex (Nat.zero_le _)

theorem ends_unary : Ends tokens 1 index unary :=
  ends_of_stops hindex onlyReads_unary (fun h ↦ List.length_pos_iff.2 h.isSpanned.1) repairs_unary
    stops_unary

theorem ends_primary : Ends tokens 1 index primary :=
  ends_of_stops hindex onlyReads_primary (fun h ↦ List.length_pos_iff.2 h.isSpanned.1) repairs_primary
    stops_primary

theorem ends_block : Ends tokens 0 index block :=
  ends_of_stops hindex closed_block (fun _ ↦ Nat.zero_le _) repairs_block stops_block

end

end Parser

/-! ## Programs -/

namespace Program

/-- How a parse ends whose statements end in a certain way: with a program where they go as far as the
mark, with a fault at the token that closes nothing or at the one in whose place something else is
asked for, or with one behind the last token where the tokens have ended too early. -/
inductive Concludes (tokens : List Token) :
    Except Failure (List Stmt × Cursor) → Except Fault Program → Prop
  | whole {trees : List Stmt} :
      Concludes tokens (.ok (trees, .ofIndex tokens (markIndex tokens))) (.ok trees)
  | surplus {trees : List Stmt} {index : Nat} {token : Token} (hindex : index < markIndex tokens)
      (htoken : tokens[index]? = some token) :
      Concludes tokens (.ok (trees, .ofIndex tokens index))
        (.error ⟨.surplusToken token.lexeme, token.span⟩)
  | unexpected {expectation : Expectation} {index : Nat} {token : Token}
      (hindex : index < markIndex tokens) (htoken : tokens[index]? = some token) :
      Concludes tokens (.error (.unmet expectation (tokens.drop index)))
        (.error ⟨.unexpectedToken token.lexeme [expectation.describe], token.span⟩)
  | early {expectation : Expectation} :
      Concludes tokens (.error (.unmet expectation (tokens.drop (markIndex tokens))))
        (.error ⟨.unexpectedEnd [expectation.describe], .point (stopAfter 0 tokens)⟩)

theorem length_ofIndex_visible (tokens : List Token) :
    (Cursor.ofIndex (visible tokens) 0).rest.length ≤ markIndex tokens + 1 :=
  Nat.le_succ_of_le (Nat.le_of_eq (length_visible tokens))

theorem ofTokens_eq_visible (tokens : List Token) :
    ofTokens tokens =
      match Parser.program (.ofDepth (markIndex tokens + 1)) (.ofIndex (visible tokens) 0) with
      | .ok (program, _) => .ok program
      | .error failure => .error (failure.fault (stopAfter 0 tokens)) := by
  rw [ofTokens, takeWhile_eq_visible, length_visible, stopAfter_eq_getLast?]
  rfl

/-- The statements among the visible tokens tell how the parse ends. -/
theorem concludes_visible (tokens : List Token) :
    Concludes tokens
      (Parser.followedBy (tokens.drop (markIndex tokens))
        (Parser.block (.ofDepth (markIndex tokens + 1)) (.ofIndex (visible tokens) 0)))
      (ofTokens tokens) := by
  have hinner := Parser.Inner.repairsBelow_ofDepth (markIndex tokens + 1)
  have hindex := Nat.zero_le (markIndex tokens)
  rw [ofTokens_eq_visible, Parser.program, Parser.bind_apply]
  cases hblock : Parser.block (.ofDepth (markIndex tokens + 1)) (.ofIndex (visible tokens) 0) with
  | ok result =>
    obtain ⟨trees, rest, stop⟩ := result
    obtain ⟨passed, hpass, -⟩ := Parser.closed_block hinner.toOnlyReads hblock
    rw [Parser.followedBy, hpass.followedBy_eq hindex]
    cases rest with
    | nil =>
      have hend : 0 + passed.length = markIndex tokens := length_of_visible hindex hpass.rest
      rw [hend]
      exact .whole
    | cons token others =>
      exact .surplus (add_length_lt_markIndex hindex hpass.rest)
        (getElem?_of_visible hindex hpass.rest)
  | error failure =>
    obtain ⟨expectation, passed, rest, rfl, hrest, -⟩ :=
      Parser.repairs_block hinner _ (length_ofIndex_visible tokens) hblock
    rw [Parser.followedBy, Failure.followedBy, append_of_visible hindex hrest]
    cases rest with
    | nil =>
      have hend : 0 + passed.length = markIndex tokens := length_of_visible hindex hrest
      rw [hend]
      exact .early
    | cons token others =>
      exact .unexpected (add_length_lt_markIndex hindex hrest) (getElem?_of_visible hindex hrest)

/-- A parse ends at an index before or at the mark, however deep the parsers may go. -/
theorem concludes {tokens : List Token} {depth : Nat} (hdepth : markIndex tokens ≤ depth) :
    Concludes tokens (Parser.block (.ofDepth depth) (.ofIndex tokens 0)) (ofTokens tokens) := by
  have hindex := Nat.zero_le (markIndex tokens)
  rw [(Parser.ends_block hindex).eq_of_le hdepth (Nat.le_succ (markIndex tokens)),
    Cursor.ofIndex_eq_followedBy hindex,
    Parser.block_followedBy (leading_drop_markIndex tokens) (length_ofIndex_visible tokens)]
  exact concludes_visible tokens

/-- Whatever the tokens are, parsing ends. From any index that is not behind the mark each parser comes
to an end that is the same for any sufficient depth, and its end is not behind the mark either. Where a
statement or an expression was read, on whatever level, the parser has moved on. The whole parse is that
of the statements up to the mark. -/
theorem ofTokens_ends (tokens : List Token) :
    markIndex tokens ≤ tokens.length ∧
    (∀ index ≤ markIndex tokens,
      Parser.Ends tokens 1 index Parser.statement ∧
      Parser.Ends tokens 1 index Parser.expression ∧
      (∀ precedence ≤ Level.all.length,
        Parser.Ends tokens 1 index fun inner ↦ Parser.binary inner (Level.all.drop precedence)) ∧
      Parser.Ends tokens 1 index Parser.unary ∧
      Parser.Ends tokens 1 index Parser.primary ∧
      Parser.Ends tokens 0 index Parser.block) ∧
    ∀ depth ≥ markIndex tokens,
      Concludes tokens (Parser.block (.ofDepth depth) (.ofIndex tokens 0)) (ofTokens tokens) :=
  ⟨List.findIdx_le_length, fun _ hindex ↦
    ⟨Parser.ends_statement hindex, Parser.ends_expression hindex,
      fun _ hle ↦ Parser.ends_binary hindex hle, Parser.ends_unary hindex,
      Parser.ends_primary hindex, Parser.ends_block hindex⟩,
    fun _ hdepth ↦ concludes hdepth⟩

/-- A number without a value stands before the mark and a name behind it. A statement that is to begin
at the mark ends there, and so does the whole parse at a depth of one. -/
theorem ofTokens_ends_mark :
    let tokens : List Token := [⟨.number, "1", none, ⟨1, 1⟩, ⟨9, 2⟩⟩,
      ⟨.eof, "", none, ⟨1, 3⟩, .point 2⟩, ⟨.identifier, "a", none, ⟨1, 4⟩, ⟨3, 4⟩⟩]
    1 ≤ markIndex tokens ∧ Parser.Ends tokens 1 1 Parser.statement ∧
    1 ≤ Level.all.length ∧
    (Parser.Ends tokens 1 0 fun inner ↦ Parser.binary inner (Level.all.drop 1)) ∧
    1 ≥ markIndex tokens ∧
    Concludes tokens (Parser.block (.ofDepth 1) (.ofIndex tokens 0)) (ofTokens tokens) := by
  intro tokens
  obtain ⟨-, hends, hconcludes⟩ := ofTokens_ends tokens
  have hmark : markIndex tokens = 1 := by decide
  have hlevel : 1 ≤ Level.all.length := by decide
  exact ⟨hmark.ge, (hends 1 hmark.ge).1, hlevel, (hends 0 (Nat.zero_le _)).2.2.1 1 hlevel, hmark.le,
    hconcludes 1 hmark.le⟩

end Program

end ScopeScript
