import ScopeScript.Proofs.Grammar.Soundness
import ScopeScript.Proofs.Tree.Unplaced

/-!
# What parsers look at

A parser never looks further than the token at which it stops, and of a token it looks at the kind,
the text and the value only. Two rows of tokens are compared from the front: as long as their tokens
count as the same, the parser goes the same way on both of them, and fails on both for the same reason
or on neither. How deep the parsers may go is not compared; nothing is claimed of a run that is too
deep for its parser.

The choice of a statement looks at two tokens at once, but no statement is refused at the first of
them for the sake of the second.
-/

namespace ScopeScript

theorem Cursor.kindAfter_cons (token : Token) (rest : List Token) (behind : Nat) :
    (Cursor.mk (token :: rest) behind).kindAfter = leading .eof rest := by
  cases rest <;> rfl

/-! ## Comparing rows -/

/-- A way to compare two rows of tokens: which tokens count as the same, and what may be left of the
first row where the comparison ends. -/
structure Comparison where
  same : Token → Token → Prop
  isEnd : List Token → Prop
  unplaced_eq : ∀ {token other}, same token other → token.unplaced = other.unplaced
  isEnd_tail : ∀ {token rest}, isEnd (token :: rest) → isEnd rest

namespace Comparison

/-- The rows have the same tokens up to where the comparison ends. -/
inductive Agree (comparison : Comparison) : List Token → List Token → Prop
  | nil : Agree comparison [] []
  | cons {token other : Token} {rest rest' : List Token} (htoken : comparison.same token other)
      (hrest : Agree comparison rest rest') : Agree comparison (token :: rest) (other :: rest')
  | ended {rest rest' : List Token} (hend : comparison.isEnd rest) : Agree comparison rest rest'

variable {α β γ δ : Type} {comparison : Comparison} {rest rest' : List Token}

theorem Agree.leading_eq (h : comparison.Agree rest rest') (hend : ¬comparison.isEnd rest) :
    leading .eof rest = leading .eof rest' := by
  cases h with
  | nil => rfl
  | cons htoken => exact (Token.unplaced_eq_iff.1 (comparison.unplaced_eq htoken)).1
  | ended h => exact absurd h hend

/-- What a parser gives that has read as far as rows are compared, or is too deep. -/
def Ended (comparison : Comparison) : Except Failure (α × Cursor) → Prop
  | .ok (_, cursor) => comparison.isEnd cursor.rest
  | .error (.unmet _ rest) => comparison.isEnd rest
  | .error (.surplus _) => False
  | .error .exhausted => True

/-- Two parsers that stop before rows that agree, with values that look the same or for the same
reason. -/
inductive Matches (comparison : Comparison) (view : α → β) :
    Except Failure (α × Cursor) → Except Failure (α × Cursor) → Prop
  | ok {value value' : α} {after after' : Cursor} (hvalue : view value = view value')
      (hrest : comparison.Agree after.rest after'.rest) :
      Matches comparison view (.ok (value, after)) (.ok (value', after'))
  | unmet {expectation : Expectation} {rest rest' : List Token}
      (hrest : comparison.Agree rest rest') :
      Matches comparison view (.error (.unmet expectation rest)) (.error (.unmet expectation rest'))

/-- The first result tells the second one, unless one of them says nothing. -/
def Follows (comparison : Comparison) (view : α → β)
    (result result' : Except Failure (α × Cursor)) : Prop :=
  comparison.Ended result ∨ result' = .error .exhausted ∨ comparison.Matches view result result'

/-- Before rows that agree the parsers do the same. Where the comparison has ended, the first of them
does not go back. -/
structure Tracks (comparison : Comparison) (view : α → β) (parser parser' : Parser α) : Prop where
  ended : ∀ {cursor : Cursor}, comparison.isEnd cursor.rest → comparison.Ended (parser cursor)
  follows : ∀ {cursor cursor' : Cursor}, comparison.Agree cursor.rest cursor'.rest →
    comparison.Follows view (parser cursor) (parser' cursor')

/-- Moreover the first parser does not stop before a token of this kind. -/
structure TracksFirst (comparison : Comparison) (kind : Kind) (view : α → β)
    (parser parser' : Parser α) : Prop extends Tracks comparison view parser parser' where
  passes : ∀ {cursor : Cursor}, cursor.kind = kind → comparison.isEnd cursor.advance.rest →
    comparison.Ended (parser cursor)

/-! ## Putting parsers together -/

section

variable {parser parser' : Parser α} {next next' : α → Parser γ} {view : α → β} {view' : γ → δ}

theorem Ended.bind {cursor : Cursor} (h : comparison.Ended (parser cursor))
    (hnext : ∀ value {cursor : Cursor}, comparison.isEnd cursor.rest →
      comparison.Ended (next value cursor)) : comparison.Ended ((parser >>= next) cursor) := by
  rw [Parser.bind_apply]
  generalize parser cursor = result at h
  cases result with
  | ok result => exact hnext result.1 h
  | error failure => cases failure <;> exact h

theorem Tracks.bind (h : comparison.Tracks view parser parser')
    (hnext : ∀ value value', view value = view value' →
      comparison.Tracks view' (next value) (next' value')) :
    comparison.Tracks view' (parser >>= next) (parser' >>= next') where
  ended hend := (h.ended hend).bind fun value _ hend ↦ (hnext value value rfl).ended hend
  follows {cursor cursor'} hagree := by
    rcases h.follows hagree with hended | hexhausted | hmatches
    · exact .inl (hended.bind fun value _ hend ↦ (hnext value value rfl).ended hend)
    · exact .inr (.inl (by rw [Parser.bind_apply, hexhausted]))
    · rw [Parser.bind_apply, Parser.bind_apply]
      generalize parser cursor = result at hmatches
      generalize parser' cursor' = result' at hmatches
      cases hmatches with
      | ok hvalue hrest => exact (hnext _ _ hvalue).follows hrest
      | unmet hrest => exact .inr (.inr (.unmet hrest))

theorem TracksFirst.bind {kind : Kind} (h : comparison.TracksFirst kind view parser parser')
    (hnext : ∀ value value', view value = view value' →
      comparison.Tracks view' (next value) (next' value')) :
    comparison.TracksFirst kind view' (parser >>= next) (parser' >>= next') :=
  ⟨h.toTracks.bind hnext, fun hkind hend ↦
    (h.passes hkind hend).bind fun value _ hend ↦ (hnext value value rfl).ended hend⟩

theorem tracks_pure {value value' : α} (h : view value = view value') :
    comparison.Tracks view (pure value) (pure value') :=
  ⟨fun hend ↦ hend, fun hagree ↦ .inr (.inr (.ok h hagree))⟩

theorem tracks_exhausted (parser' : Parser α) : comparison.Tracks view Parser.exhausted parser' :=
  ⟨fun _ ↦ trivial, fun _ ↦ .inl trivial⟩

/-- Nothing is claimed of a second parser that is too deep. -/
theorem Tracks.exhausted (h : comparison.Tracks view parser parser') :
    comparison.Tracks view parser Parser.exhausted :=
  ⟨h.ended, fun _ ↦ .inr (.inl rfl)⟩

theorem tracks_refuse (expectation : Expectation) :
    comparison.Tracks view (Parser.refuse expectation) (Parser.refuse expectation) :=
  ⟨fun hend ↦ hend, fun hagree ↦ .inr (.inr (.unmet hagree))⟩

/-- What is seen of the cursor is the same if it is the same on rows that agree. -/
theorem tracks_look {property property' : Cursor → α}
    (h : ∀ {cursor cursor' : Cursor}, comparison.Agree cursor.rest cursor'.rest →
      ¬comparison.isEnd cursor.rest → view (property cursor) = view (property' cursor')) :
    comparison.Tracks view (Parser.look property) (Parser.look property') where
  ended hend := hend
  follows {cursor _} hagree := by
    by_cases hend : comparison.isEnd cursor.rest
    · exact .inl hend
    · exact .inr (.inr (.ok (h hagree hend) hagree))

theorem tracks_kind : comparison.Tracks id (Parser.look Cursor.kind) (Parser.look Cursor.kind) := by
  refine tracks_look fun hagree hend ↦ ?_
  rw [Cursor.kind_eq_leading, Cursor.kind_eq_leading]
  exact hagree.leading_eq hend

/-- Places are not compared. -/
theorem tracks_start :
    comparison.Tracks (fun _ ↦ ()) (Parser.look Cursor.start) (Parser.look Cursor.start) :=
  tracks_look fun _ _ ↦ rfl

theorem tracks_spanFrom (start start' : Nat) :
    comparison.Tracks (fun _ ↦ ()) (Parser.spanFrom start) (Parser.spanFrom start') :=
  tracks_look fun _ _ ↦ rfl

theorem tracks_skip : comparison.Tracks id Parser.skip Parser.skip := by
  have hended : ∀ cursor : Cursor, comparison.isEnd cursor.rest →
      comparison.isEnd cursor.advance.rest := by
    rintro ⟨_ | ⟨token, rest⟩, behind⟩ hend
    · exact hend
    · exact comparison.isEnd_tail hend
  refine ⟨fun {cursor} hend ↦ hended cursor hend, ?_⟩
  rintro ⟨rest, behind⟩ ⟨rest', behind'⟩ hagree
  cases hagree with
  | nil => exact .inr (.inr (.ok rfl .nil))
  | cons htoken hrest => exact .inr (.inr (.ok rfl hrest))
  | ended hend => exact .inl (hended _ hend)

theorem tracksFirst_skip (kind : Kind) : comparison.TracksFirst kind id Parser.skip Parser.skip :=
  ⟨tracks_skip, fun _ hend ↦ hend⟩

theorem tracks_expect (kind : Kind) :
    comparison.Tracks Token.unplaced (Parser.expect kind) (Parser.expect kind) := by
  have hended : ∀ cursor : Cursor, comparison.isEnd cursor.rest →
      comparison.Ended (Parser.expect kind cursor) := by
    rintro ⟨_ | ⟨token, rest⟩, behind⟩ hend
    · exact hend
    · by_cases hkind : token.kind = kind
      · simp only [Parser.expect, hkind, if_true]
        exact comparison.isEnd_tail hend
      · simp only [Parser.expect, hkind, if_false]
        exact hend
  refine ⟨fun {cursor} hend ↦ hended cursor hend, ?_⟩
  rintro ⟨rest, behind⟩ ⟨rest', behind'⟩ hagree
  cases hagree with
  | nil => exact .inr (.inr (.unmet .nil))
  | @cons token other rest rest' htoken hrest =>
    have hunplaced := comparison.unplaced_eq htoken
    have hkind := (Token.unplaced_eq_iff.1 hunplaced).1
    by_cases hmet : token.kind = kind
    · simp only [Parser.expect, ← hkind, hmet, if_true]
      exact .inr (.inr (.ok hunplaced hrest))
    · simp only [Parser.expect, ← hkind, hmet, if_false]
      exact .inr (.inr (.unmet (.cons htoken hrest)))
  | ended hend => exact .inl (hended _ hend)

theorem Tracks.ite {condition : Prop} [Decidable condition] {other other' : Parser α}
    (h : comparison.Tracks view parser parser') (hother : comparison.Tracks view other other') :
    comparison.Tracks view (if condition then parser else other)
      (if condition then parser' else other') := by
  split
  · exact h
  · exact hother

theorem tracks_repeatedly {rounds rounds' : Nat → Parser α}
    (h : ∀ count count', comparison.Tracks view (rounds count) (rounds' count')) :
    comparison.Tracks view (Parser.repeatedly rounds) (Parser.repeatedly rounds') :=
  ⟨fun hend ↦ (h _ 0).ended hend, fun hagree ↦ (h _ _).follows hagree⟩

end

/-- Of two repetitions either may run out first, so both numbers of rounds are counted down. -/
theorem rounds_induction {motive : Nat → Nat → Prop} (zero : ∀ rounds', motive 0 rounds')
    (exhausted : ∀ rounds, motive rounds 1 → motive rounds 0)
    (succ : ∀ rounds rounds', motive rounds rounds' → motive (rounds + 1) (rounds' + 1))
    (rounds rounds' : Nat) : motive rounds rounds' := by
  induction rounds generalizing rounds' with
  | zero => exact zero rounds'
  | succ rounds ih =>
    cases rounds' with
    | zero => exact exhausted _ (succ rounds 0 (ih 0))
    | succ rounds' => exact succ rounds rounds' (ih rounds')

/-! ## Lists -/

theorem tracksFirst_identifier :
    comparison.TracksFirst .identifier id Parser.identifier Parser.identifier := by
  refine ⟨(tracks_expect .identifier).bind fun _ _ htoken ↦
    tracks_pure (Token.unplaced_eq_iff.1 htoken).2.1, ?_⟩
  intro cursor hkind hend
  have hne : cursor.kind ≠ .eof := by simp [hkind]
  obtain ⟨token, rest, hrest, htoken⟩ := Cursor.exists_rest_of_kind hne
  have hpass := Cursor.passes_advance hrest
  rw [Parser.identifier_eq_ok.2 ⟨token, htoken.trans hkind, rfl, hpass⟩]
  exact hend

theorem tracks_identifier : comparison.Tracks id Parser.identifier Parser.identifier :=
  tracksFirst_identifier.toTracks

theorem tracks_skipIf (kind : Kind) :
    comparison.Tracks id (Parser.skipIf kind) (Parser.skipIf kind) := by
  refine tracks_kind.bind fun next next' hnext ↦ ?_
  obtain rfl : next = next' := hnext
  exact .ite (tracks_skip.bind fun _ _ _ ↦ tracks_pure rfl) (tracks_pure rfl)

section

variable {item item' : Parser α} {view : α → β}

theorem tracks_separated (hitem : comparison.Tracks view item item') (rounds rounds' : Nat) :
    comparison.Tracks (List.map view) (Parser.separated item rounds)
      (Parser.separated item' rounds') := by
  induction rounds, rounds' using rounds_induction with
  | zero => exact tracks_exhausted _
  | exhausted rounds ih => exact ih.exhausted
  | succ rounds rounds' ih =>
    refine hitem.bind fun first first' hfirst ↦ ?_
    refine (tracks_skipIf _).bind fun found found' hfound ↦ ?_
    obtain rfl : found = found' := hfound
    refine .ite (ih.bind fun others others' hothers ↦ tracks_pure ?_) (tracks_pure ?_)
    · rw [List.map_cons, List.map_cons, hfirst, hothers]
    · rw [List.map_singleton, List.map_singleton, hfirst]

theorem tracks_listed (hitem : comparison.Tracks view item item') :
    comparison.Tracks (List.map view) (Parser.listed item) (Parser.listed item') := by
  refine (tracks_expect _).bind fun _ _ _ ↦ ?_
  refine (tracks_skipIf _).bind fun found found' hfound ↦ ?_
  obtain rfl : found = found' := hfound
  refine .ite (tracks_pure rfl) ?_
  refine (tracks_repeatedly (tracks_separated hitem)).bind fun items items' hitems ↦ ?_
  exact (tracks_expect _).bind fun _ _ _ ↦ tracks_pure hitems

end

/-! ## Expressions -/

/-- The parsers for enclosed parts do the same. -/
structure TracksInner (comparison : Comparison) (inner inner' : Parser.Inner) : Prop where
  expression : comparison.Tracks Expr.unplaced inner.expression inner'.expression
  unary : comparison.Tracks Expr.unplaced inner.unary inner'.unary
  block : comparison.Tracks (List.map Stmt.unplaced) inner.block inner'.block

/-- A parser that knows where it starts does the same wherever this is. -/
def TracksFrom (comparison : Comparison) (view : α → β) (parser parser' : Nat → Parser α) : Prop :=
  ∀ start start', comparison.Tracks view (parser start) (parser' start')

theorem Agree.literalValue?_eq {cursor cursor' : Cursor}
    (h : comparison.Agree cursor.rest cursor'.rest) (hend : ¬comparison.isEnd cursor.rest) :
    Parser.literalValue? cursor = Parser.literalValue? cursor' := by
  obtain ⟨rest, behind⟩ := cursor
  obtain ⟨rest', behind'⟩ := cursor'
  cases h with
  | nil => rfl
  | cons htoken =>
    obtain ⟨hkind, -, hliteral⟩ := Token.unplaced_eq_iff.1 (comparison.unplaced_eq htoken)
    simp only [Parser.literalValue?, hkind, hliteral]
  | ended h => exact absurd h hend

theorem tracks_literal :
    comparison.TracksFrom Expr.unplaced Parser.literal Parser.literal := by
  intro start start'
  have hlook : comparison.Tracks id (Parser.look Parser.literalValue?)
      (Parser.look Parser.literalValue?) := tracks_look fun hagree ↦ hagree.literalValue?_eq
  refine hlook.bind fun value value' hvalue ↦ ?_
  obtain rfl : value = value' := hvalue
  cases value with
  | none => exact tracks_refuse _
  | some value =>
    refine tracks_skip.bind fun _ _ _ ↦ ?_
    exact (tracks_spanFrom start start').bind fun _ _ _ ↦ tracks_pure rfl

section Expressions

variable {inner inner' : Parser.Inner} (hinner : comparison.TracksInner inner inner')
include hinner

theorem tracks_nameOrCall (start start' : Nat) :
    comparison.TracksFirst .identifier Expr.unplaced (Parser.nameOrCall inner start)
      (Parser.nameOrCall inner' start') := by
  refine tracksFirst_identifier.bind fun name name' hname ↦ ?_
  obtain rfl : name = name' := hname
  refine tracks_kind.bind fun next next' hnext ↦ ?_
  obtain rfl : next = next' := hnext
  refine .ite ?_ ?_
  · refine (tracks_listed hinner.expression).bind fun arguments arguments' harguments ↦ ?_
    refine (tracks_spanFrom start start').bind fun _ _ _ ↦ tracks_pure ?_
    rw [Expr.unplaced_call, Expr.unplaced_call, harguments]
  · exact (tracks_spanFrom start start').bind fun _ _ _ ↦ tracks_pure rfl

theorem tracks_group :
    comparison.TracksFrom Expr.unplaced (Parser.group inner) (Parser.group inner') := by
  intro start start'
  refine tracks_skip.bind fun _ _ _ ↦ ?_
  refine hinner.expression.bind fun tree tree' htree ↦ ?_
  refine (tracks_expect _).bind fun _ _ _ ↦ (tracks_spanFrom start start').bind fun _ _ _ ↦ tracks_pure ?_
  exact congrArg (Expr.group (.point 0)) htree

/-- What is seen of the parameters and the body of a function. -/
def viewBody (parts : List String × List Stmt) : List String × List Stmt :=
  (parts.1, parts.2.map Stmt.unplaced)

theorem tracks_functionBody :
    comparison.Tracks viewBody (Parser.functionBody inner) (Parser.functionBody inner') := by
  refine (tracks_listed tracks_identifier).bind fun parameters parameters' hparameters ↦ ?_
  refine hinner.block.bind fun body body' hbody ↦ ?_
  refine (tracks_expect _).bind fun _ _ _ ↦ tracks_pure ?_
  rw [List.map_id, List.map_id] at hparameters
  rw [viewBody, viewBody, hparameters, hbody]

omit hinner in
theorem tracks_functionName :
    comparison.Tracks id Parser.functionName Parser.functionName := by
  refine tracks_kind.bind fun next next' hnext ↦ ?_
  obtain rfl : next = next' := hnext
  exact .ite (tracks_identifier.bind fun _ _ hname ↦ tracks_pure (congrArg some hname))
    (tracks_pure rfl)

omit hinner in
/-- A function without its place is told by what is seen of its parts. -/
theorem unplaced_function {parts parts' : List String × List Stmt} (name : Option String)
    (span span' : Span) (h : viewBody parts = viewBody parts') :
    (Expr.function span name parts.1 parts.2).unplaced =
      (Expr.function span' name parts'.1 parts'.2).unplaced := by
  obtain ⟨hparameters, hbody⟩ := Prod.mk.inj h
  rw [Expr.unplaced_function, Expr.unplaced_function, hparameters, hbody]

theorem tracks_function (start start' : Nat) :
    comparison.TracksFirst (.keyword .function) Expr.unplaced (Parser.function inner start)
      (Parser.function inner' start') := by
  refine (tracksFirst_skip _).bind fun _ _ _ ↦ ?_
  refine tracks_functionName.bind fun name name' hname ↦ ?_
  obtain rfl : name = name' := hname
  refine (tracks_functionBody hinner).bind fun parts parts' hparts ↦ ?_
  exact (tracks_spanFrom start start').bind fun _ _ _ ↦ tracks_pure (unplaced_function name _ _ hparts)

theorem tracks_primary :
    comparison.Tracks Expr.unplaced (Parser.primary inner) (Parser.primary inner') := by
  refine tracks_start.bind fun start start' _ ↦ tracks_kind.bind fun next next' hnext ↦ ?_
  obtain rfl : next = next' := hnext
  split
  · exact (tracks_nameOrCall hinner start start').toTracks
  · exact tracks_group hinner start start'
  · exact (tracks_function hinner start start').toTracks
  · exact tracks_literal start start'

theorem tracks_unary :
    comparison.Tracks Expr.unplaced (Parser.unary inner) (Parser.unary inner') := by
  refine tracks_start.bind fun start start' _ ↦ tracks_kind.bind fun next next' hnext ↦ ?_
  obtain rfl : next = next' := hnext
  cases UnaryOp.ofKind? next with
  | none => exact tracks_primary hinner
  | some operator =>
    refine tracks_skip.bind fun _ _ _ ↦ hinner.unary.bind fun operand operand' hoperand ↦ ?_
    exact tracks_pure (congrArg (Expr.unary (.point 0) operator) hoperand)

omit hinner in
theorem tracks_chain (level : Level) {operand operand' : Parser Expr}
    (hoperand : comparison.Tracks Expr.unplaced operand operand') (rounds rounds' : Nat) :
    ∀ left left' : Expr, left.unplaced = left'.unplaced →
      comparison.Tracks Expr.unplaced (Parser.chain level operand rounds left)
        (Parser.chain level operand' rounds' left') := by
  intro left left' hleft
  induction rounds, rounds' using rounds_induction generalizing left left' with
  | zero => exact tracks_exhausted _
  | exhausted rounds ih => exact (ih left left' hleft).exhausted
  | succ rounds rounds' ih =>
    refine tracks_kind.bind fun next next' hnext ↦ ?_
    obtain rfl : next = next' := hnext
    cases level.op? next with
    | none => exact tracks_pure hleft
    | some operator =>
      refine tracks_skip.bind fun _ _ _ ↦ hoperand.bind fun right right' hright ↦ ih _ _ ?_
      rw [Expr.unplaced_binary, Expr.unplaced_binary, hleft, hright]

theorem tracks_binary (levels : List Level) :
    comparison.Tracks Expr.unplaced (Parser.binary inner levels) (Parser.binary inner' levels) := by
  induction levels with
  | nil => exact tracks_unary hinner
  | cons level tighter ih =>
    refine ih.bind fun left left' hleft ↦ ?_
    exact tracks_repeatedly fun rounds rounds' ↦ tracks_chain level ih rounds rounds' left left' hleft

theorem tracks_expression :
    comparison.Tracks Expr.unplaced (Parser.expression inner) (Parser.expression inner') :=
  tracks_binary hinner Level.all

/-- An expression does not end before a name or the word that begins a function. -/
theorem tracksFirst_expression {kind : Kind} (hkind : kind = .identifier ∨ kind = .keyword .function) :
    comparison.TracksFirst kind Expr.unplaced (Parser.expression inner)
      (Parser.expression inner') := by
  have hunary : comparison.TracksFirst kind Expr.unplaced (Parser.unary inner)
      (Parser.unary inner') := by
    refine ⟨tracks_unary hinner, fun {cursor} hcursor hend ↦ ?_⟩
    rw [Parser.unary_apply, Parser.primary_apply]
    rcases hkind with rfl | rfl
    · simp only [hcursor, UnaryOp.ofKind?]
      exact (tracks_nameOrCall hinner _ 0).passes hcursor hend
    · simp only [hcursor, UnaryOp.ofKind?]
      exact (tracks_function hinner _ 0).passes hcursor hend
  suffices hall : ∀ levels, comparison.TracksFirst kind Expr.unplaced (Parser.binary inner levels)
      (Parser.binary inner' levels) from hall Level.all
  intro levels
  induction levels with
  | nil => exact hunary
  | cons level tighter ih =>
    refine ih.bind fun left left' hleft ↦ ?_
    exact tracks_repeatedly fun rounds rounds' ↦
      tracks_chain level (tracks_binary hinner tighter) rounds rounds' left left' hleft

end Expressions

/-! ## Statements -/

theorem tracks_terminator : comparison.Tracks id Parser.terminator Parser.terminator := by
  refine tracks_kind.bind fun next next' hnext ↦ ?_
  obtain rfl : next = next' := hnext
  exact .ite tracks_skip (.ite (tracks_pure rfl) (tracks_refuse _))

theorem tracks_optionalTerminator :
    comparison.Tracks id Parser.optionalTerminator Parser.optionalTerminator :=
  (tracks_skipIf _).bind fun _ _ _ ↦ tracks_pure rfl

theorem tracks_implicitNil :
    comparison.Tracks Expr.unplaced Parser.implicitNil Parser.implicitNil :=
  tracks_look fun _ _ ↦ rfl

section Statements

variable {inner inner' : Parser.Inner} (hinner : comparison.TracksInner inner inner')
include hinner

theorem tracks_localStatement :
    comparison.TracksFrom Stmt.unplaced (Parser.localStatement inner)
      (Parser.localStatement inner') := by
  intro start start'
  refine tracks_skip.bind fun _ _ _ ↦ tracks_identifier.bind fun name name' hname ↦ ?_
  obtain rfl : name = name' := hname
  refine (tracks_skipIf _).bind fun found found' hfound ↦ ?_
  obtain rfl : found = found' := hfound
  have hrest : ∀ value value' : Expr, value.unplaced = value'.unplaced →
      comparison.Tracks Stmt.unplaced
        (do Parser.terminator; return .assign (← Parser.spanFrom start) true name value)
        (do Parser.terminator; return .assign (← Parser.spanFrom start') true name value') := by
    intro value value' hvalue
    refine tracks_terminator.bind fun _ _ _ ↦ ?_
    refine (tracks_spanFrom start start').bind fun _ _ _ ↦ tracks_pure ?_
    exact congrArg (Stmt.assign (.point 0) true name) hvalue
  exact .ite ((tracks_expression hinner).bind hrest) (tracks_implicitNil.bind hrest)

theorem tracks_assignment (start start' : Nat) :
    comparison.TracksFirst .identifier Stmt.unplaced (Parser.assignment inner start)
      (Parser.assignment inner' start') := by
  refine tracksFirst_identifier.bind fun name name' hname ↦ tracks_skip.bind fun _ _ _ ↦ ?_
  obtain rfl : name = name' := hname
  refine (tracks_expression hinner).bind fun value value' hvalue ↦ ?_
  refine tracks_terminator.bind fun _ _ _ ↦ ?_
  refine (tracks_spanFrom start start').bind fun _ _ _ ↦ tracks_pure ?_
  exact congrArg (Stmt.assign (.point 0) false name) hvalue

theorem tracks_returnStatement :
    comparison.TracksFrom Stmt.unplaced (Parser.returnStatement inner)
      (Parser.returnStatement inner') := by
  intro start start'
  refine tracks_skip.bind fun _ _ _ ↦ tracks_kind.bind fun next next' hnext ↦ ?_
  obtain rfl : next = next' := hnext
  have hrest : ∀ value value' : Expr, value.unplaced = value'.unplaced →
      comparison.Tracks Stmt.unplaced
        (do Parser.terminator; return .return_ (← Parser.spanFrom start) value)
        (do Parser.terminator; return .return_ (← Parser.spanFrom start') value') := by
    intro value value' hvalue
    refine tracks_terminator.bind fun _ _ _ ↦ ?_
    refine (tracks_spanFrom start start').bind fun _ _ _ ↦ tracks_pure ?_
    exact congrArg (Stmt.return_ (.point 0)) hvalue
  exact .ite (tracks_implicitNil.bind hrest) ((tracks_expression hinner).bind hrest)

theorem tracks_whileStatement :
    comparison.TracksFrom Stmt.unplaced (Parser.whileStatement inner)
      (Parser.whileStatement inner') := by
  intro start start'
  refine tracks_skip.bind fun _ _ _ ↦ ?_
  refine (tracks_expression hinner).bind fun condition condition' hcondition ↦ ?_
  refine (tracks_expect _).bind fun _ _ _ ↦ hinner.block.bind fun body body' hbody ↦ ?_
  refine (tracks_expect _).bind fun _ _ _ ↦ tracks_optionalTerminator.bind fun _ _ _ ↦ ?_
  refine (tracks_spanFrom start start').bind fun _ _ _ ↦ tracks_pure ?_
  rw [Stmt.unplaced_whileLoop, Stmt.unplaced_whileLoop, hcondition, hbody]

theorem tracks_loopStep :
    comparison.Tracks (Option.map Expr.unplaced) (Parser.loopStep inner) (Parser.loopStep inner') := by
  refine (tracks_skipIf _).bind fun found found' hfound ↦ ?_
  obtain rfl : found = found' := hfound
  refine .ite ?_ (tracks_pure rfl)
  exact (tracks_expression hinner).bind fun _ _ hstep ↦ tracks_pure (congrArg some hstep)

theorem tracks_forStatement :
    comparison.TracksFrom Stmt.unplaced (Parser.forStatement inner)
      (Parser.forStatement inner') := by
  intro start start'
  refine tracks_skip.bind fun _ _ _ ↦ tracks_start.bind fun first first' _ ↦ ?_
  refine tracks_identifier.bind fun name name' hname ↦ (tracks_expect _).bind fun _ _ _ ↦ ?_
  obtain rfl : name = name' := hname
  refine (tracks_expression hinner).bind fun init init' hinit ↦ ?_
  refine (tracks_spanFrom first first').bind fun _ _ _ ↦ (tracks_expect _).bind fun _ _ _ ↦ ?_
  refine (tracks_expression hinner).bind fun limit limit' hlimit ↦ ?_
  refine (tracks_loopStep hinner).bind fun step step' hstep ↦ (tracks_expect _).bind fun _ _ _ ↦ ?_
  refine hinner.block.bind fun body body' hbody ↦ (tracks_expect _).bind fun _ _ _ ↦ ?_
  refine tracks_optionalTerminator.bind fun _ _ _ ↦ ?_
  refine (tracks_spanFrom start start').bind fun _ _ _ ↦ tracks_pure ?_
  rw [Stmt.unplaced_forLoop, Stmt.unplaced_forLoop, hinit, hlimit, hstep, hbody]

theorem tracks_functionStatement (start start' : Nat) :
    comparison.TracksFirst (.keyword .function) Stmt.unplaced (Parser.functionStatement inner start)
      (Parser.functionStatement inner' start') := by
  refine (tracksFirst_skip _).bind fun _ _ _ ↦ tracks_identifier.bind fun name name' hname ↦ ?_
  obtain rfl : name = name' := hname
  refine (tracks_functionBody hinner).bind fun parts parts' hparts ↦ ?_
  refine (tracks_spanFrom start start').bind fun span span' _ ↦ ?_
  refine tracks_optionalTerminator.bind fun _ _ _ ↦ ?_
  refine (tracks_spanFrom start start').bind fun _ _ _ ↦ tracks_pure ?_
  exact congrArg (Stmt.assign (.point 0) false name)
    (unplaced_function (some name) span span' hparts)

theorem tracks_ifStatement :
    comparison.TracksFrom Stmt.unplaced (Parser.ifStatement inner)
      (Parser.ifStatement inner') := by
  intro start start'
  refine tracks_skip.bind fun _ _ _ ↦ ?_
  refine (tracks_expression hinner).bind fun condition condition' hcondition ↦ ?_
  refine (tracks_expect _).bind fun _ _ _ ↦ hinner.block.bind fun thenBody thenBody' hthen ↦ ?_
  refine (tracks_expect _).bind fun _ _ _ ↦ hinner.block.bind fun elseBody elseBody' helse ↦ ?_
  refine (tracks_expect _).bind fun _ _ _ ↦ tracks_optionalTerminator.bind fun _ _ _ ↦ ?_
  refine (tracks_spanFrom start start').bind fun _ _ _ ↦ tracks_pure ?_
  rw [Stmt.unplaced_ifElse, Stmt.unplaced_ifElse, hcondition, hthen, helse]

theorem tracks_blockStatement :
    comparison.TracksFrom Stmt.unplaced (Parser.blockStatement inner)
      (Parser.blockStatement inner') := by
  intro start start'
  refine tracks_skip.bind fun _ _ _ ↦ hinner.block.bind fun body body' hbody ↦ ?_
  refine (tracks_expect _).bind fun _ _ _ ↦ tracks_optionalTerminator.bind fun _ _ _ ↦ ?_
  refine (tracks_spanFrom start start').bind fun _ _ _ ↦ tracks_pure ?_
  rw [Stmt.unplaced_block, Stmt.unplaced_block, hbody]

theorem tracksFirst_expressionStatement {kind : Kind}
    (hkind : kind = .identifier ∨ kind = .keyword .function) (start start' : Nat) :
    comparison.TracksFirst kind Stmt.unplaced (Parser.expressionStatement inner start)
      (Parser.expressionStatement inner' start') := by
  refine (tracksFirst_expression hinner hkind).bind fun value value' hvalue ↦ ?_
  refine tracks_terminator.bind fun _ _ _ ↦ ?_
  refine (tracks_spanFrom start start').bind fun _ _ _ ↦ tracks_pure ?_
  exact congrArg (Stmt.expr (.point 0)) hvalue

theorem tracks_expressionStatement :
    comparison.TracksFrom Stmt.unplaced (Parser.expressionStatement inner)
      (Parser.expressionStatement inner') :=
  fun start start' ↦ (tracksFirst_expressionStatement hinner (.inl rfl) start start').toTracks

/-- The choice of a statement depends on the kind of the first token, and on that of the second if the
first is a name or the word that begins a function. -/
theorem tracks_chosenStatement {cursor cursor' : Cursor}
    (hagree : comparison.Agree cursor.rest cursor'.rest) (hkind : cursor.kind = cursor'.kind)
    (hafter : cursor.kind = .identifier ∨ cursor.kind = .keyword .function →
      cursor.kindAfter = cursor'.kindAfter) :
    comparison.Follows Stmt.unplaced (Parser.statement inner cursor)
      (Parser.statement inner' cursor') := by
  rw [Parser.statement_apply, Parser.statement_apply, ← hkind]
  generalize cursor.kind = kind at hafter
  rcases kind with symbol | keyword | _ | _ | _ | _
  case identifier =>
    rw [← hafter (.inl rfl)]
    split
    case h_2 => exact (tracks_assignment hinner _ _).follows hagree
    case h_9 => exact (tracks_expressionStatement hinner _ _).follows hagree
    all_goals contradiction
  case keyword =>
    cases keyword with
    | function =>
      rw [← hafter (.inr rfl)]
      split
      case h_6 => exact (tracks_functionStatement hinner _ _).follows hagree
      case h_9 => exact (tracks_expressionStatement hinner _ _).follows hagree
      all_goals contradiction
    | local_ => exact (tracks_localStatement hinner _ _).follows hagree
    | return_ => exact (tracks_returnStatement hinner _ _).follows hagree
    | while_ => exact (tracks_whileStatement hinner _ _).follows hagree
    | for_ => exact (tracks_forStatement hinner _ _).follows hagree
    | if_ => exact (tracks_ifStatement hinner _ _).follows hagree
    | do_ => exact (tracks_blockStatement hinner _ _).follows hagree
    | _ => exact (tracks_expressionStatement hinner _ _).follows hagree
  all_goals exact (tracks_expressionStatement hinner _ _).follows hagree

/-- A statement that begins with a name or the word that begins a function passes this token, whatever
the next one is. -/
theorem ended_statement {cursor : Cursor}
    (hkind : cursor.kind = .identifier ∨ cursor.kind = .keyword .function)
    (hend : comparison.isEnd cursor.advance.rest) :
    comparison.Ended (Parser.statement inner cursor) := by
  have hexpression := (tracksFirst_expressionStatement hinner hkind cursor.start 0).passes rfl hend
  rw [Parser.statement_apply]
  rcases hkind with hkind | hkind
  · simp only [hkind]
    split
    case h_2 => exact (tracks_assignment hinner _ 0).passes hkind hend
    case h_9 => exact hexpression
    all_goals contradiction
  · simp only [hkind]
    split
    case h_6 => exact (tracks_functionStatement hinner _ 0).passes hkind hend
    case h_9 => exact hexpression
    all_goals contradiction

theorem tracks_statement :
    comparison.Tracks Stmt.unplaced (Parser.statement inner) (Parser.statement inner') := by
  have hended : ∀ {cursor : Cursor}, comparison.isEnd cursor.rest →
      comparison.Ended (Parser.statement inner cursor) := by
    intro cursor hend
    rw [Parser.statement_apply]
    split
    · exact (tracks_localStatement hinner _ 0).ended hend
    · exact (tracks_assignment hinner _ 0).ended hend
    · exact (tracks_returnStatement hinner _ 0).ended hend
    · exact (tracks_whileStatement hinner _ 0).ended hend
    · exact (tracks_forStatement hinner _ 0).ended hend
    · exact (tracks_functionStatement hinner _ 0).ended hend
    · exact (tracks_ifStatement hinner _ 0).ended hend
    · exact (tracks_blockStatement hinner _ 0).ended hend
    · exact (tracks_expressionStatement hinner _ 0).ended hend
  refine ⟨hended, ?_⟩
  rintro ⟨rest, behind⟩ ⟨rest', behind'⟩ hagree
  have hagree' := hagree
  cases hagree with
  | nil => exact tracks_chosenStatement hinner hagree' rfl fun _ ↦ rfl
  | ended hend => exact .inl (hended hend)
  | @cons token other rest rest' htoken hrest =>
    have hkind : token.kind = other.kind :=
      (Token.unplaced_eq_iff.1 (comparison.unplaced_eq htoken)).1
    by_cases hfirst : token.kind = .identifier ∨ token.kind = .keyword .function
    · by_cases hend : comparison.isEnd rest
      · exact .inl (ended_statement hinner hfirst hend)
      · refine tracks_chosenStatement hinner hagree' hkind fun _ ↦ ?_
        rw [Cursor.kindAfter_cons, Cursor.kindAfter_cons]
        exact hrest.leading_eq hend
    · exact tracks_chosenStatement hinner hagree' hkind fun h ↦ absurd h hfirst

end Statements

/-! ## Blocks -/

section Blocks

variable {inner inner' : Parser.Inner} (hinner : comparison.TracksInner inner inner')
include hinner

theorem tracks_statements (rounds rounds' : Nat) :
    comparison.Tracks (List.map Stmt.unplaced) (Parser.statements inner rounds)
      (Parser.statements inner' rounds') := by
  induction rounds, rounds' using rounds_induction with
  | zero => exact tracks_exhausted _
  | exhausted rounds ih => exact ih.exhausted
  | succ rounds rounds' ih =>
    refine tracks_kind.bind fun next next' hnext ↦ ?_
    obtain rfl : next = next' := hnext
    refine .ite (tracks_pure rfl) ((tracks_statement hinner).bind fun first first' hfirst ↦ ?_)
    refine ih.bind fun others others' hothers ↦ tracks_pure ?_
    rw [List.map_cons, List.map_cons, hfirst, hothers]

theorem tracks_block :
    comparison.Tracks (List.map Stmt.unplaced) (Parser.block inner) (Parser.block inner') :=
  tracks_repeatedly (tracks_statements hinner)

end Blocks

/-- The parsers for enclosed parts do the same, however deep they may go. -/
theorem tracksInner_ofDepth (depth depth' : Nat) :
    comparison.TracksInner (.ofDepth depth) (.ofDepth depth') := by
  induction depth, depth' using rounds_induction with
  | zero => exact ⟨tracks_exhausted _, tracks_exhausted _, tracks_exhausted _⟩
  | exhausted _ ih => exact ⟨ih.expression.exhausted, ih.unary.exhausted, ih.block.exhausted⟩
  | succ _ _ ih => exact ⟨tracks_expression ih, tracks_unary ih, tracks_block ih⟩

end Comparison

end ScopeScript
