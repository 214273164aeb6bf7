import ScopeScript.Proofs.Grammar.Lookahead
import ScopeScript.Proofs.Grammar.Repair.Program

/-!
# Marks of the end

A list of tokens may hold a mark of the end anywhere, and anything behind it. No parser goes past a
mark: it moves on only from a token whose kind it has seen, and looks at a second token only behind
such a one. So a mark does what the end of the list does, and it does not matter whether the tokens are
cut at the first mark or left as they are.
-/

namespace ScopeScript

open Grammar

/-! ## More tokens behind the end -/

/-- The cursor with more tokens behind those that are to be read. -/
def Cursor.followedBy (cursor : Cursor) (tail : List Token) : Cursor :=
  ⟨cursor.rest ++ tail, cursor.behind⟩

/-- The failure with more tokens behind those that are left. -/
def Failure.followedBy (tail : List Token) : Failure → Failure
  | .unmet expectation rest => .unmet expectation (rest ++ tail)
  | .surplus token => .surplus token
  | .exhausted => .exhausted

namespace Parser

variable {α β : Type}

/-- What a parser gives, with more tokens behind those that are left. -/
def followedBy (tail : List Token) :
    Except Failure (α × Cursor) → Except Failure (α × Cursor)
  | .ok (value, cursor) => .ok (value, cursor.followedBy tail)
  | .error failure => .error (failure.followedBy tail)

/-- With `tail` behind the tokens the second parser does what the first does without it. Nothing is
claimed where the first one runs out of rounds or of depth. -/
def StopsAt (tail : List Token) (parser parser' : Parser α) (cursor : Cursor) : Prop :=
  parser cursor = .error .exhausted ∨
    parser' (cursor.followedBy tail) = followedBy tail (parser cursor)

/-- The parsers do this wherever they stand. -/
def Stops (tail : List Token) (parser parser' : Parser α) : Prop :=
  ∀ cursor, StopsAt tail parser parser' cursor

/-- The parsers for enclosed parts do this. -/
structure Inner.Stops (tail : List Token) (inner inner' : Inner) : Prop where
  expression : Parser.Stops tail inner.expression inner'.expression
  unary : Parser.Stops tail inner.unary inner'.unary
  block : Parser.Stops tail inner.block inner'.block

variable {tail : List Token} {parser parser' : Parser α} {next next' : α → Parser β}

/-! ## Putting parsers together -/

theorem StopsAt.bind {cursor : Cursor} (h : StopsAt tail parser parser' cursor)
    (hnext : ∀ value after, parser cursor = .ok (value, after) →
      StopsAt tail (next value) (next' value) after) :
    StopsAt tail (parser >>= next) (parser' >>= next') cursor := by
  unfold StopsAt
  rw [bind_apply, bind_apply]
  rcases h with hexhausted | hstops
  · rw [hexhausted]
    exact .inl rfl
  · rw [hstops]
    cases hresult : parser cursor with
    | ok result => exact hnext result.1 result.2 hresult
    | error failure => exact .inr rfl

theorem Stops.bind (h : Stops tail parser parser')
    (hnext : ∀ value, Stops tail (next value) (next' value)) :
    Stops tail (parser >>= next) (parser' >>= next') :=
  fun cursor ↦ (h cursor).bind fun value after _ ↦ hnext value after

theorem stops_pure (value : α) : Stops tail (pure value : Parser α) (pure value) :=
  fun _ ↦ .inr rfl

theorem stops_exhausted (parser' : Parser α) : Stops tail exhausted parser' :=
  fun _ ↦ .inl rfl

theorem stops_refuse (expectation : Expectation) :
    Stops tail (refuse expectation : Parser α) (refuse expectation) :=
  fun _ ↦ .inr rfl

theorem Stops.ite {condition : Prop} [Decidable condition] {other other' : Parser α}
    (h : Stops tail parser parser') (hother : Stops tail other other') :
    Stops tail (if condition then parser else other) (if condition then parser' else other') := by
  split
  · exact h
  · exact hother

theorem stops_look {property : Cursor → α}
    (h : ∀ cursor : Cursor, property (cursor.followedBy tail) = property cursor) :
    Stops tail (look property) (look property) := by
  intro cursor
  unfold StopsAt look
  rw [h cursor]
  exact .inr rfl

theorem stops_spanFrom (start : Nat) : Stops tail (spanFrom start) (spanFrom start) :=
  stops_look fun _ ↦ rfl

/-- What is made of the span of the tokens that were read. -/
theorem stops_spanned (start : Nat) (make : Span → α) :
    Stops tail (do return make (← spanFrom start)) (do return make (← spanFrom start)) :=
  (stops_spanFrom start).bind fun span ↦ stops_pure (make span)

theorem stops_implicitNil : Stops tail implicitNil implicitNil :=
  stops_look fun _ ↦ rfl

/-- A token that is there is skipped. -/
theorem stopsAt_skip {cursor : Cursor} (h : cursor.kind ≠ .eof) :
    StopsAt tail skip skip cursor := by
  obtain ⟨rest, behind⟩ := cursor
  cases rest with
  | nil => exact absurd rfl h
  | cons token rest => exact .inr rfl

/-- The parser passes a token that is there, and then does the same. -/
theorem StopsAt.skip_bind {parser parser' : Unit → Parser α} {cursor : Cursor}
    (h : cursor.kind ≠ .eof) (hnext : ∀ value, Stops tail (parser value) (parser' value)) :
    StopsAt tail (skip >>= parser) (skip >>= parser') cursor :=
  (stopsAt_skip h).bind fun value after _ ↦ hnext value after

theorem stops_repeatedly {rounds rounds' : Nat → Parser α}
    (h : ∀ count count', count ≤ count' → Stops tail (rounds count) (rounds' count')) :
    Stops tail (repeatedly rounds) (repeatedly rounds') := by
  intro cursor
  apply h
  apply Nat.succ_le_succ
  exact (List.prefix_append cursor.rest tail).length_le

end Parser

/-! ## Before a mark -/

section

variable {tail : List Token} (hmark : leading .eof tail = .eof)
include hmark

theorem Cursor.kind_followedBy (cursor : Cursor) : (cursor.followedBy tail).kind = cursor.kind := by
  rw [kind_eq_leading, kind_eq_leading, followedBy, leading_append, hmark]

/-- A second token is looked at only behind one that is there. -/
theorem Cursor.kindAfter_followedBy {cursor : Cursor} (h : cursor.kind ≠ .eof) :
    (cursor.followedBy tail).kindAfter = cursor.kindAfter := by
  obtain ⟨rest, behind⟩ := cursor
  cases rest with
  | nil => exact absurd rfl h
  | cons token rest =>
    unfold followedBy
    rw [List.cons_append, kindAfter_cons, kindAfter_cons, leading_append, hmark]

omit hmark in
theorem Cursor.start_followedBy {cursor : Cursor} (h : cursor.kind ≠ .eof) :
    (cursor.followedBy tail).start = cursor.start := by
  obtain ⟨rest, behind⟩ := cursor
  cases rest with
  | nil => exact absurd rfl h
  | cons token rest => rfl

namespace Parser

omit hmark in
theorem literalValue?_eq_none {cursor : Cursor} (h : cursor.kind = .eof) :
    literalValue? cursor = none := by
  obtain ⟨rest, behind⟩ := cursor
  cases rest with
  | nil => rfl
  | cons token rest =>
    have hkind : token.kind = .eof := h
    unfold literalValue?
    simp only [hkind]

theorem literalValue?_followedBy (cursor : Cursor) :
    literalValue? (cursor.followedBy tail) = literalValue? cursor := by
  obtain ⟨rest, behind⟩ := cursor
  cases rest with
  | nil => exact literalValue?_eq_none ((Cursor.kind_followedBy hmark _).trans rfl)
  | cons token rest => rfl

/-- The parser chooses by the kind of the next token, which is the same before a mark. -/
theorem StopsAt.kind_bind {α : Type} {next next' : Kind → Parser α} {cursor : Cursor}
    (h : StopsAt tail (next cursor.kind) (next' cursor.kind) cursor) :
    StopsAt tail (look Cursor.kind >>= next) (look Cursor.kind >>= next') cursor := by
  apply (stops_look (Cursor.kind_followedBy hmark) cursor).bind
  intro kind after hlook
  obtain ⟨rfl, rfl⟩ := look_eq_ok.1 hlook
  exact h

theorem stops_expect {kind : Kind} (hkind : kind ≠ .eof) :
    Stops tail (expect kind) (expect kind) := by
  rintro ⟨rest, behind⟩
  right
  cases rest with
  | nil =>
    cases tail with
    | nil => rfl
    | cons mark tail =>
      have hne : mark.kind ≠ kind := by
        rw [show mark.kind = .eof from hmark]
        exact hkind.symm
      exact if_neg hne
  | cons token rest =>
    by_cases htoken : token.kind = kind
    · simp only [expect, Cursor.followedBy, List.cons_append, htoken, if_true, followedBy]
      rfl
    · simp only [expect, Cursor.followedBy, List.cons_append, htoken, if_false]
      rfl

theorem stops_identifier : Stops tail identifier identifier :=
  (stops_expect hmark (by decide)).bind fun token ↦ stops_pure token.lexeme

/-- Where there is no name, the place where one would start does not matter. -/
theorem stops_placedIdentifier {α : Type} {next next' : Nat → String → Parser α}
    (hnext : ∀ start name, Stops tail (next start name) (next' start name)) :
    Stops tail (do next (← look Cursor.start) (← identifier))
      (do next' (← look Cursor.start) (← identifier)) := by
  intro cursor
  change StopsAt tail (identifier >>= next cursor.start)
    (identifier >>= next' (cursor.followedBy tail).start) cursor
  apply (stops_identifier hmark cursor).bind
  intro name after hname
  obtain ⟨token, htoken, -, hpass⟩ := identifier_eq_ok.1 hname
  have hcursor : cursor.kind ≠ .eof := by
    rw [hpass.kind_eq, htoken]
    decide
  rw [Cursor.start_followedBy hcursor]
  exact hnext cursor.start name after

theorem stops_skipIf {kind : Kind} (hkind : kind ≠ .eof) :
    Stops tail (skipIf kind) (skipIf kind) := by
  intro cursor
  apply StopsAt.kind_bind hmark
  by_cases hnext : cursor.kind = kind
  · simp only [hnext, if_true]
    exact .skip_bind (hnext ▸ hkind) fun _ ↦ stops_pure true
  · simp only [hnext, if_false]
    exact stops_pure false cursor

/-! ## Lists -/

theorem stops_separated {item item' : Parser α} (hitem : Stops tail item item')
    {rounds rounds' : Nat} (hrounds : rounds ≤ rounds') :
    Stops tail (separated item rounds) (separated item' rounds') := by
  induction rounds generalizing rounds' with
  | zero => exact stops_exhausted _
  | succ rounds ih =>
    obtain ⟨rounds', rfl⟩ := Nat.exists_eq_add_of_lt hrounds
    apply hitem.bind
    intro first
    apply (stops_skipIf hmark (by decide)).bind
    intro found
    apply Stops.ite
    · exact (ih (by omega)).bind fun others ↦ stops_pure (first :: others)
    · exact stops_pure [first]

theorem stops_listed {item item' : Parser α} (hitem : Stops tail item item') :
    Stops tail (listed item) (listed item') := by
  apply (stops_expect hmark (by decide)).bind
  intro _
  apply (stops_skipIf hmark (by decide)).bind
  intro found
  apply Stops.ite
  · exact stops_pure []
  · apply (stops_repeatedly fun _ _ ↦ stops_separated hmark hitem).bind
    intro items
    exact (stops_expect hmark (by decide)).bind fun _ ↦ stops_pure items

/-! ## Expressions -/

theorem stops_literal (start : Nat) : Stops tail (literal start) (literal start) := by
  intro cursor
  apply (stops_look (literalValue?_followedBy hmark) cursor).bind
  intro value after hlook
  obtain ⟨hvalue, rfl⟩ := look_eq_ok.1 hlook
  cases value with
  | none => exact stops_refuse .expression cursor
  | some value =>
    have hkind : cursor.kind ≠ .eof := by
      intro heof
      rw [literalValue?_eq_none heof] at hvalue
      cases hvalue
    apply StopsAt.skip_bind hkind
    exact fun _ ↦ stops_spanned start _

section Expressions

variable {inner inner' : Inner} (hinner : inner.Stops tail inner')
include hinner

theorem stops_nameOrCall (start : Nat) :
    Stops tail (nameOrCall inner start) (nameOrCall inner' start) := by
  apply (stops_identifier hmark).bind
  intro name cursor
  apply StopsAt.kind_bind hmark
  apply Stops.ite
  · apply (stops_listed hmark hinner.expression).bind
    intro arguments
    exact stops_spanned start _
  · exact stops_spanned start _

theorem stopsAt_group (start : Nat) {cursor : Cursor} (hcursor : cursor.kind ≠ .eof) :
    StopsAt tail (group inner start) (group inner' start) cursor := by
  apply StopsAt.skip_bind hcursor
  intro _
  apply hinner.expression.bind
  intro tree
  apply (stops_expect hmark (by decide)).bind
  exact fun _ ↦ stops_spanned start _

theorem stops_functionBody : Stops tail (functionBody inner) (functionBody inner') := by
  apply (stops_listed hmark (stops_identifier hmark)).bind
  intro parameters
  apply hinner.block.bind
  intro body
  exact (stops_expect hmark (by decide)).bind fun _ ↦ stops_pure (parameters, body)

omit hinner in
theorem stops_functionName : Stops tail functionName functionName := by
  intro cursor
  apply StopsAt.kind_bind hmark
  apply Stops.ite
  · exact (stops_identifier hmark).bind fun name ↦ stops_pure (some name)
  · exact stops_pure none

theorem stopsAt_function (start : Nat) {cursor : Cursor} (hcursor : cursor.kind ≠ .eof) :
    StopsAt tail (function inner start) (function inner' start) cursor := by
  apply StopsAt.skip_bind hcursor
  intro _
  apply (stops_functionName hmark).bind
  intro name
  apply (stops_functionBody hmark hinner).bind
  intro parts
  exact stops_spanned start _

/-- Where an expression would start at a mark it is refused, so its start does not matter. -/
theorem stops_primary : Stops tail (primary inner) (primary inner') := by
  intro cursor
  unfold StopsAt
  rw [primary_apply, primary_apply, Cursor.kind_followedBy hmark]
  by_cases hcursor : cursor.kind = .eof
  · rw [hcursor]
    right
    simp only [literal_apply, literalValue?_followedBy hmark, literalValue?_eq_none hcursor]
    rfl
  · rw [Cursor.start_followedBy hcursor]
    split
    · exact stops_nameOrCall hmark hinner cursor.start cursor
    · exact stopsAt_group hmark hinner cursor.start hcursor
    · exact stopsAt_function hmark hinner cursor.start hcursor
    · exact stops_literal hmark cursor.start cursor

theorem stops_unary : Stops tail (unary inner) (unary inner') := by
  intro cursor
  unfold StopsAt
  rw [unary_apply, unary_apply, Cursor.kind_followedBy hmark]
  cases hoperator : UnaryOp.ofKind? cursor.kind with
  | none => exact stops_primary hmark hinner cursor
  | some operator =>
    have hcursor : cursor.kind ≠ .eof := by
      intro heof
      rw [heof] at hoperator
      cases hoperator
    rw [Cursor.start_followedBy hcursor]
    apply StopsAt.skip_bind hcursor
    exact fun _ ↦ hinner.unary.bind fun _ ↦ stops_pure _

omit hinner in
theorem stops_chain (level : Level) {operand operand' : Parser Expr}
    (hoperand : Stops tail operand operand') {rounds rounds' : Nat} (hrounds : rounds ≤ rounds')
    (left : Expr) :
    Stops tail (chain level operand rounds left) (chain level operand' rounds' left) := by
  induction rounds generalizing rounds' left with
  | zero => exact stops_exhausted _
  | succ rounds ih =>
    obtain ⟨rounds', rfl⟩ := Nat.exists_eq_add_of_lt hrounds
    intro cursor
    apply StopsAt.kind_bind hmark
    cases hoperator : level.op? cursor.kind with
    | none => exact stops_pure left cursor
    | some operator =>
      have hcursor : cursor.kind ≠ .eof := by
        intro heof
        have hnone : level.op? .eof = none := by cases level <;> rfl
        rw [heof, hnone] at hoperator
        cases hoperator
      apply StopsAt.skip_bind hcursor
      exact fun _ ↦ hoperand.bind fun right ↦ ih (by omega)
        (.binary ⟨left.span.start, right.span.stop⟩ operator left right)

theorem stops_binary (levels : List Level) :
    Stops tail (binary inner levels) (binary inner' levels) := by
  induction levels with
  | nil => exact stops_unary hmark hinner
  | cons level tighter ih =>
    apply ih.bind
    intro left
    exact stops_repeatedly fun _ _ hrounds ↦ stops_chain hmark level ih hrounds left

theorem stops_expression : Stops tail (expression inner) (expression inner') :=
  stops_binary hmark hinner Level.all

end Expressions

/-! ## Statements -/

theorem stops_terminator : Stops tail terminator terminator := by
  intro cursor
  unfold StopsAt
  rw [terminator_apply, terminator_apply, Cursor.kind_followedBy hmark]
  right
  split
  next hkind =>
    have hcursor : cursor.kind ≠ .eof := by
      rw [hkind]
      decide
    have hskip : StopsAt tail skip skip cursor := stopsAt_skip hcursor
    rcases hskip with h | h
    · cases h
    · exact h
  · split
    · rfl
    · rfl

theorem stops_optionalTerminator : Stops tail optionalTerminator optionalTerminator :=
  (stops_skipIf hmark (by decide)).bind fun _ ↦ stops_pure ()

theorem stops_terminated (start : Nat) (make : Span → Stmt) :
    Stops tail (do terminator; return make (← spanFrom start))
      (do terminator; return make (← spanFrom start)) :=
  (stops_terminator hmark).bind fun _ ↦ stops_spanned start make

theorem stops_optionallyTerminated (start : Nat) (make : Span → Stmt) :
    Stops tail (do optionalTerminator; return make (← spanFrom start))
      (do optionalTerminator; return make (← spanFrom start)) :=
  (stops_optionalTerminator hmark).bind fun _ ↦ stops_spanned start make

section Statements

variable {inner inner' : Inner} (hinner : inner.Stops tail inner') (start : Nat) {cursor : Cursor}
include hinner

theorem stopsAt_localStatement (hcursor : cursor.kind ≠ .eof) :
    StopsAt tail (localStatement inner start) (localStatement inner' start) cursor := by
  apply StopsAt.skip_bind hcursor
  intro _
  apply (stops_identifier hmark).bind
  intro name
  apply (stops_skipIf hmark (by decide)).bind
  intro found
  have hrest := fun value ↦ stops_terminated hmark start (.assign · true name value)
  apply Stops.ite
  · exact (stops_expression hmark hinner).bind hrest
  · exact stops_implicitNil.bind hrest

/-- Behind the name stands the sign that was seen there. -/
theorem stopsAt_assignment (hafter : cursor.kindAfter = .symbol .assign) :
    StopsAt tail (assignment inner start) (assignment inner' start) cursor := by
  apply (stops_identifier hmark cursor).bind
  intro name after hname
  obtain ⟨token, -, -, hpass⟩ := identifier_eq_ok.1 hname
  have hsign : after.kind ≠ .eof := by
    rw [← hpass.kindAfter_eq, hafter]
    decide
  apply StopsAt.skip_bind hsign
  intro _
  apply (stops_expression hmark hinner).bind
  exact fun value ↦ stops_terminated hmark start _

theorem stopsAt_returnStatement (hcursor : cursor.kind ≠ .eof) :
    StopsAt tail (returnStatement inner start) (returnStatement inner' start) cursor := by
  apply StopsAt.skip_bind hcursor
  intro _ middle
  apply StopsAt.kind_bind hmark
  have hrest := fun value ↦ stops_terminated hmark start (.return_ · value)
  apply Stops.ite
  · exact stops_implicitNil.bind hrest
  · exact (stops_expression hmark hinner).bind hrest

theorem stopsAt_whileStatement (hcursor : cursor.kind ≠ .eof) :
    StopsAt tail (whileStatement inner start) (whileStatement inner' start) cursor := by
  apply StopsAt.skip_bind hcursor
  intro _
  apply (stops_expression hmark hinner).bind
  intro condition
  apply (stops_expect hmark (by decide)).bind
  intro _
  apply hinner.block.bind
  intro body
  apply (stops_expect hmark (by decide)).bind
  exact fun _ ↦ stops_optionallyTerminated hmark start _

theorem stops_loopStep : Stops tail (loopStep inner) (loopStep inner') := by
  apply (stops_skipIf hmark (by decide)).bind
  intro found
  apply Stops.ite
  · exact (stops_expression hmark hinner).bind fun step ↦ stops_pure (some step)
  · exact stops_pure none

theorem stopsAt_forStatement (hcursor : cursor.kind ≠ .eof) :
    StopsAt tail (forStatement inner start) (forStatement inner' start) cursor := by
  apply StopsAt.skip_bind hcursor
  intro _
  apply stops_placedIdentifier hmark
  intro first name
  apply (stops_expect hmark (by decide)).bind
  intro _
  apply (stops_expression hmark hinner).bind
  intro init
  apply (stops_spanFrom first).bind
  intro initSpan
  apply (stops_expect hmark (by decide)).bind
  intro _
  apply (stops_expression hmark hinner).bind
  intro limit
  apply (stops_loopStep hmark hinner).bind
  intro step
  apply (stops_expect hmark (by decide)).bind
  intro _
  apply hinner.block.bind
  intro body
  apply (stops_expect hmark (by decide)).bind
  exact fun _ ↦ stops_optionallyTerminated hmark start _

theorem stopsAt_functionStatement (hcursor : cursor.kind ≠ .eof) :
    StopsAt tail (functionStatement inner start) (functionStatement inner' start) cursor := by
  apply StopsAt.skip_bind hcursor
  intro _
  apply (stops_identifier hmark).bind
  intro name
  apply (stops_functionBody hmark hinner).bind
  intro parts
  apply (stops_spanFrom start).bind
  exact fun _ ↦ stops_optionallyTerminated hmark start _

theorem stopsAt_ifStatement (hcursor : cursor.kind ≠ .eof) :
    StopsAt tail (ifStatement inner start) (ifStatement inner' start) cursor := by
  apply StopsAt.skip_bind hcursor
  intro _
  apply (stops_expression hmark hinner).bind
  intro condition
  apply (stops_expect hmark (by decide)).bind
  intro _
  apply hinner.block.bind
  intro thenBody
  apply (stops_expect hmark (by decide)).bind
  intro _
  apply hinner.block.bind
  intro elseBody
  apply (stops_expect hmark (by decide)).bind
  exact fun _ ↦ stops_optionallyTerminated hmark start _

theorem stopsAt_blockStatement (hcursor : cursor.kind ≠ .eof) :
    StopsAt tail (blockStatement inner start) (blockStatement inner' start) cursor := by
  apply StopsAt.skip_bind hcursor
  intro _
  apply hinner.block.bind
  intro body
  apply (stops_expect hmark (by decide)).bind
  exact fun _ ↦ stops_optionallyTerminated hmark start _

theorem stops_expressionStatement :
    Stops tail (expressionStatement inner start) (expressionStatement inner' start) :=
  (stops_expression hmark hinner).bind fun _ ↦ stops_terminated hmark start _

omit start in
/-- A statement is read only where a token is there. -/
theorem stopsAt_statement (hcursor : cursor.kind ≠ .eof) :
    StopsAt tail (statement inner) (statement inner') cursor := by
  unfold StopsAt
  rw [statement_apply, statement_apply, Cursor.kind_followedBy hmark,
    Cursor.kindAfter_followedBy hmark hcursor, Cursor.start_followedBy hcursor]
  split
  · exact stopsAt_localStatement hmark hinner _ hcursor
  next hafter => exact stopsAt_assignment hmark hinner _ hafter
  · exact stopsAt_returnStatement hmark hinner _ hcursor
  · exact stopsAt_whileStatement hmark hinner _ hcursor
  · exact stopsAt_forStatement hmark hinner _ hcursor
  · exact stopsAt_functionStatement hmark hinner _ hcursor
  · exact stopsAt_ifStatement hmark hinner _ hcursor
  · exact stopsAt_blockStatement hmark hinner _ hcursor
  · exact stops_expressionStatement hmark hinner _ cursor

end Statements

/-! ## Blocks -/

section Blocks

variable {inner inner' : Inner} (hinner : inner.Stops tail inner')
include hinner

theorem stops_statements {rounds rounds' : Nat} (hrounds : rounds ≤ rounds') :
    Stops tail (statements inner rounds) (statements inner' rounds') := by
  induction rounds generalizing rounds' with
  | zero => exact stops_exhausted _
  | succ rounds ih =>
    obtain ⟨rounds', rfl⟩ := Nat.exists_eq_add_of_lt hrounds
    intro cursor
    unfold StopsAt
    rw [statements_succ_apply, statements_succ_apply, Cursor.kind_followedBy hmark]
    by_cases hcloses : closesBlock cursor.kind
    · rw [if_pos hcloses, if_pos hcloses]
      exact .inr rfl
    · rw [if_neg hcloses, if_neg hcloses]
      have hcursor : cursor.kind ≠ .eof := fun heof ↦ hcloses (by rw [heof]; rfl)
      apply (stopsAt_statement hmark hinner hcursor).bind
      intro first after _
      exact (ih (by omega)).bind (fun others ↦ stops_pure (first :: others)) after

theorem stops_block : Stops tail (block inner) (block inner') :=
  stops_repeatedly fun _ _ ↦ stops_statements hmark hinner

end Blocks

/-- The parsers for enclosed parts do not go past a mark. They may go deeper where there is more to
read. -/
theorem Inner.stops_ofDepth {depth depth' : Nat} (hdepth : depth ≤ depth') :
    (Inner.ofDepth depth).Stops tail (.ofDepth depth') := by
  induction depth generalizing depth' with
  | zero => exact ⟨stops_exhausted _, stops_exhausted _, stops_exhausted _⟩
  | succ depth ih =>
    obtain ⟨depth', rfl⟩ := Nat.exists_eq_add_of_lt hdepth
    have hinner : (Inner.ofDepth depth).Stops tail (.ofDepth (depth + depth')) := ih (by omega)
    exact ⟨stops_expression hmark hinner, stops_unary hmark hinner, stops_block hmark hinner⟩

/-- A block that is read deep enough is the same, and fails for the same reason, with a mark of the end
and any tokens behind it as without them. -/
theorem block_followedBy {depth : Nat} {cursor : Cursor} (hdepth : cursor.rest.length ≤ depth) :
    block (.ofDepth depth) (cursor.followedBy tail) =
      followedBy tail (block (.ofDepth depth) cursor) := by
  have hinner := Inner.stops_ofDepth hmark (Nat.le_refl depth)
  rcases stops_block hmark hinner cursor with hexhausted | hstops
  · exact absurd hexhausted (block_ne_exhausted hdepth)
  · exact hstops

end Parser

end

/-! ## Programs -/

theorem Grammar.stopAfter_eq_getLast? (tokens : List Token) :
    (tokens.getLast?.map (·.span.stop)).getD 0 = stopAfter 0 tokens := by
  rcases List.eq_nil_or_concat tokens with rfl | ⟨before, last, rfl⟩
  · rfl
  · rw [List.concat_eq_append, List.getLast?_concat, stopAfter_append]
    rfl

/-- Only where the tokens have ended too early does it matter for a fault where the text ends. -/
theorem Failure.fault_at (failure : Failure) (stop stop' : Nat) :
    ∃ error span span', failure.fault stop = ⟨error, span⟩ ∧ failure.fault stop' = ⟨error, span'⟩ ∧
      ((∀ expected, error ≠ .unexpectedEnd expected) → span = span') ∧
      ∀ expected, error = .unexpectedEnd expected → span = .point stop ∧ span' = .point stop' := by
  cases failure with
  | unmet expectation rest =>
    cases rest with
    | nil => exact ⟨_, _, _, rfl, rfl, fun h ↦ absurd rfl (h _), fun _ _ ↦ ⟨rfl, rfl⟩⟩
    | cons token rest => exact ⟨_, _, _, rfl, rfl, fun _ ↦ rfl, nofun⟩
  | surplus token => exact ⟨_, _, _, rfl, rfl, fun _ ↦ rfl, nofun⟩
  | exhausted => exact ⟨_, _, _, rfl, rfl, fun h ↦ absurd rfl (h _), fun _ _ ↦ ⟨rfl, rfl⟩⟩

namespace Program

variable {tokens : List Token} {mark : Token}

theorem ofTokens_of_mark (htokens : ∀ token ∈ tokens, token.kind ≠ .eof) (hmark : mark.kind = .eof)
    (post : List Token) :
    ofTokens (tokens ++ mark :: post) =
      match Parser.program (.ofDepth (tokens.length + 1)) ⟨tokens, 0⟩ with
      | .ok (program, _) => .ok program
      | .error failure => .error (failure.fault (stopAfter 0 (tokens ++ mark :: post))) := by
  have hvisible : ((tokens ++ mark :: post).takeWhile fun token ↦ token.kind ≠ .eof) = tokens := by
    rw [List.takeWhile_append_of_pos (by simpa using htokens),
      List.takeWhile_cons_of_neg (by simp [hmark]), List.append_nil]
  cases hparse : Parser.program (.ofDepth (tokens.length + 1)) ⟨tokens, 0⟩ <;>
    simp only [ofTokens, hvisible, hparse, stopAfter_eq_getLast?]

/-- Before a mark of the end the parser stops as it does at the end of the tokens, and leaves the mark
and all that is behind it. So with them the same program is read as without, or the error is the same.
Its place is the same as well, unless the tokens have ended too early: that is said of the end of the
last token, be it behind the mark. -/
theorem ofTokens_stops_at_mark (htokens : ∀ token ∈ tokens, token.kind ≠ .eof)
    (hmark : mark.kind = .eof) (post : List Token) :
    (∀ depth, tokens.length ≤ depth →
      Parser.block (.ofDepth depth) ⟨tokens ++ mark :: post, 0⟩ =
        Parser.followedBy (mark :: post) (Parser.block (.ofDepth depth) ⟨tokens, 0⟩)) ∧
    ((∃ program, ofTokens tokens = .ok program ∧
      ofTokens (tokens ++ mark :: post) = .ok program) ∨
    ∃ error span span', ofTokens tokens = .error ⟨error, span⟩ ∧
      ofTokens (tokens ++ mark :: post) = .error ⟨error, span'⟩ ∧
      ((∀ expected, error ≠ .unexpectedEnd expected) → span = span') ∧
      ∀ expected, error = .unexpectedEnd expected → span = .point (stopAfter 0 tokens) ∧
        span' = .point (stopAfter 0 (tokens ++ mark :: post))) := by
  have hleading : leading .eof (mark :: post) = .eof := hmark
  have hblock : ∀ depth, (Cursor.mk tokens 0).rest.length ≤ depth → _ :=
    fun depth ↦ Parser.block_followedBy hleading
  refine ⟨hblock, ?_⟩
  have hvisible : (tokens.takeWhile fun token ↦ token.kind ≠ .eof) = tokens :=
    List.takeWhile_eq_self_iff.2 (by simpa using htokens)
  rw [ofTokens_of_mark htokens hmark, ofTokens, hvisible, stopAfter_eq_getLast?]
  cases Parser.program (.ofDepth (tokens.length + 1)) ⟨tokens, 0⟩ with
  | ok result => exact .inl ⟨result.1, rfl, rfl⟩
  | error failure =>
    obtain ⟨error, span, span', hfault, hfault', hsame, hend⟩ := failure.fault_at
      (stopAfter 0 tokens) (stopAfter 0 (tokens ++ mark :: post))
    exact .inr ⟨error, span, span', congrArg Except.error hfault, congrArg Except.error hfault',
      hsame, hend⟩

/-- A program that ends behind `a =` lacks an expression, whatever stands behind the mark of its end. -/
theorem ofTokens_stops_at_mark_assignment :
    ofTokens [⟨.identifier, "a", none, ⟨1, 1⟩, ⟨0, 1⟩⟩,
        ⟨.symbol .assign, "=", none, ⟨1, 3⟩, ⟨2, 3⟩⟩] =
      .error ⟨.unexpectedEnd ["expression"], .point 3⟩ ∧
    ofTokens [⟨.identifier, "a", none, ⟨1, 1⟩, ⟨0, 1⟩⟩,
        ⟨.symbol .assign, "=", none, ⟨1, 3⟩, ⟨2, 3⟩⟩, ⟨.eof, "", none, ⟨1, 4⟩, .point 3⟩,
        ⟨.identifier, "b", none, ⟨1, 6⟩, ⟨5, 6⟩⟩] =
      .error ⟨.unexpectedEnd ["expression"], .point 6⟩ := by
  have htokens : ∀ token ∈ ([⟨.identifier, "a", none, ⟨1, 1⟩, ⟨0, 1⟩⟩,
      ⟨.symbol .assign, "=", none, ⟨1, 3⟩, ⟨2, 3⟩⟩] : List Token), token.kind ≠ .eof := by decide
  have hmark : (⟨.eof, "", none, ⟨1, 4⟩, .point 3⟩ : Token).kind = .eof := rfl
  obtain ⟨-, ⟨program, hprogram, -⟩ | ⟨error, span, span', h, h', -, hend⟩⟩ :=
    ofTokens_stops_at_mark htokens hmark [⟨.identifier, "b", none, ⟨1, 6⟩, ⟨5, 6⟩⟩]
  · cases hprogram
  · obtain ⟨rfl, -⟩ := Fault.mk.inj (Except.error.inj h)
    obtain ⟨rfl, rfl⟩ := hend _ rfl
    exact ⟨h, h'⟩

end Program

end ScopeScript
