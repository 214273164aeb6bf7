import ScopeScript.Proofs.Grammar.Basic
import ScopeScript.Tree.Statement

/-!
# What parsers read

A parser that succeeds has passed a row of tokens: the row stands at the beginning of what there was
to read, and the new cursor stands behind it. The elementary parsers are described by equivalences
from which every use of them can be taken apart; conversely each of them is computed on a cursor
that stands before the tokens it reads.
-/

namespace ScopeScript

/-! ## Cursors -/

namespace Cursor

/-- The cursor `after` stands behind the tokens, and `before` stands before them. -/
structure Passes (before : Cursor) (tokens : List Token) (after : Cursor) : Prop where
  rest : before.rest = tokens ++ after.rest
  behind : after.behind = stopAfter before.behind tokens

theorem kind_eq_leading (cursor : Cursor) : cursor.kind = leading .eof cursor.rest := by
  obtain ⟨rest, behind⟩ := cursor
  cases rest <;> rfl

@[simp]
theorem kind_cons (token : Token) (rest : List Token) (behind : Nat) :
    (Cursor.mk (token :: rest) behind).kind = token.kind := rfl

@[simp]
theorem start_cons (token : Token) (rest : List Token) (behind : Nat) :
    (Cursor.mk (token :: rest) behind).start = token.span.start := rfl

@[simp]
theorem advance_cons (token : Token) (rest : List Token) (behind : Nat) :
    (Cursor.mk (token :: rest) behind).advance = ⟨rest, token.span.stop⟩ := rfl

theorem passes_nil (cursor : Cursor) : cursor.Passes [] cursor := ⟨rfl, rfl⟩

theorem Passes.append {first middle last : Cursor} {tokens others : List Token}
    (h : first.Passes tokens middle) (h' : middle.Passes others last) :
    first.Passes (tokens ++ others) last where
  rest := by rw [h.rest, h'.rest, List.append_assoc]
  behind := by rw [h'.behind, h.behind, stopAfter_append]

/-- The cursor behind given tokens is determined. -/
theorem Passes.unique {before after other : Cursor} {tokens : List Token}
    (h : before.Passes tokens after) (h' : before.Passes tokens other) : after = other := by
  obtain ⟨hrest, hbehind⟩ := h
  obtain ⟨hrest', hbehind'⟩ := h'
  obtain ⟨rest, behind⟩ := after
  obtain ⟨rest', behind'⟩ := other
  have hsame : rest = rest' := List.append_cancel_left (hrest.symm.trans hrest')
  rw [hsame, show behind = behind' from hbehind.trans hbehind'.symm]

theorem passes_advance {cursor : Cursor} {token : Token} {rest : List Token}
    (h : cursor.rest = token :: rest) : cursor.Passes [token] cursor.advance := by
  obtain ⟨_, behind⟩ := cursor
  subst h
  exact ⟨rfl, rfl⟩

theorem Passes.advance_eq {before after : Cursor} {token : Token}
    (h : before.Passes [token] after) : before.advance = after :=
  (passes_advance h.rest).unique h

/-- A cursor before a token of a kind other than the end has a token to read. -/
theorem exists_rest_of_kind {cursor : Cursor} (h : cursor.kind ≠ .eof) :
    ∃ token rest, cursor.rest = token :: rest ∧ token.kind = cursor.kind := by
  obtain ⟨rest, behind⟩ := cursor
  cases rest with
  | nil => exact absurd rfl h
  | cons token rest => exact ⟨token, rest, rfl, rfl⟩

theorem Passes.kind_eq {before after : Cursor} {token : Token} {tokens : List Token}
    (h : before.Passes (token :: tokens) after) : before.kind = token.kind := by
  rw [Cursor.kind_eq_leading, h.rest]
  rfl

theorem Passes.kindAfter_eq {before after : Cursor} {token : Token}
    (h : before.Passes [token] after) : before.kindAfter = after.kind := by
  obtain ⟨rest, behind⟩ := after
  rw [kindAfter, h.rest]
  cases rest <;> rfl

theorem Passes.start_eq {before after : Cursor} {token : Token} {tokens : List Token}
    (h : before.Passes (token :: tokens) after) : before.start = token.span.start := by
  rw [start, h.rest]
  rfl

/-- What is spanned by the tokens that were passed. -/
theorem Passes.extent_eq {before after : Cursor} {tokens : List Token}
    (h : before.Passes tokens after) (hne : tokens ≠ []) :
    (⟨before.start, after.behind⟩ : Span) = extent tokens := by
  cases tokens with
  | nil => exact absurd rfl hne
  | cons token tokens => rw [h.start_eq, h.behind, stopAfter_cons, extent_cons]

end Cursor

/-! ## Operators -/

theorem UnaryOp.ofKind?_eq_some_iff {kind : Kind} {operator : UnaryOp} :
    UnaryOp.ofKind? kind = some operator ↔ kind = operator.kind := by
  constructor
  · unfold UnaryOp.ofKind?
    split <;> rintro ⟨⟩ <;> rfl
  · rintro rfl
    cases operator <;> rfl

/-- The precedence of the operators of a level. -/
def Level.precedence : Level → Nat
  | disjunction => 0
  | conjunction => 1
  | equality => 2
  | relation => 3
  | concatenation => 4
  | sum => 5
  | product => 6

theorem Level.op?_eq_some_iff {level : Level} {kind : Kind} {operator : BinaryOp} :
    level.op? kind = some operator ↔
      operator.precedence = level.precedence ∧ kind = operator.kind := by
  constructor
  · unfold Level.op?
    split <;> rintro ⟨⟩ <;> exact ⟨rfl, rfl⟩
  · rintro ⟨hprecedence, rfl⟩
    have hall : ∀ operator ∈ BinaryOp.all, operator.precedence = level.precedence →
        level.op? operator.kind = some operator := by
      cases level <;> decide
    exact hall operator operator.mem_all hprecedence

/-- From a precedence on, the levels are the one of this precedence and the tighter ones. -/
theorem Level.precedence_of_drop {precedence : Nat} {level : Level} {tighter : List Level}
    (h : Level.all.drop precedence = level :: tighter) :
    precedence < 7 ∧ level.precedence = precedence ∧
      Level.all.drop (precedence + 1) = tighter := by
  rcases precedence with _ | _ | _ | _ | _ | _ | _ | precedence
  case succ.succ.succ.succ.succ.succ.succ => simp [Level.all] at h
  all_goals
    obtain ⟨rfl, rfl⟩ := List.cons.inj h
    exact ⟨by decide, rfl, rfl⟩

/-! ## Elementary parsers that succeed -/

namespace Parser

variable {α β : Type}

theorem bind_eq_ok {parser : Parser α} {next : α → Parser β} {before after : Cursor} {value : β} :
    (parser >>= next) before = .ok (value, after) ↔
      ∃ first middle, parser before = .ok (first, middle) ∧
        next first middle = .ok (value, after) := by
  rw [bind_apply]
  cases h : parser before with
  | error failure => simp
  | ok result =>
    obtain ⟨first, middle⟩ := result
    constructor
    · exact fun hnext ↦ ⟨first, middle, rfl, hnext⟩
    · rintro ⟨_, _, ⟨⟩, hnext⟩
      exact hnext

theorem pure_eq_ok {value result : α} {before after : Cursor} :
    (pure value : Parser α) before = .ok (result, after) ↔ value = result ∧ before = after := by
  simp

theorem look_eq_ok {property : Cursor → α} {before after : Cursor} {value : α} :
    look property before = .ok (value, after) ↔ property before = value ∧ before = after := by
  simp [look]

theorem spanFrom_eq_ok {start : Nat} {before after : Cursor} {span : Span} :
    spanFrom start before = .ok (span, after) ↔
      (⟨start, before.behind⟩ : Span) = span ∧ before = after :=
  look_eq_ok

theorem skip_eq_ok {before after : Cursor} {value : Unit} :
    skip before = .ok (value, after) ↔ before.advance = after := by
  simp [skip]

theorem expect_eq_ok {kind : Kind} {before after : Cursor} {token : Token} :
    expect kind before = .ok (token, after) ↔ token.kind = kind ∧ before.Passes [token] after := by
  obtain ⟨rest, behind⟩ := before
  obtain ⟨rest', behind'⟩ := after
  cases rest with
  | nil => simpa [expect, refuse] using fun _ h ↦ absurd h.rest (by simp)
  | cons first rest =>
    by_cases hkind : first.kind = kind
    · simp only [expect, hkind, if_true, Except.ok.injEq, Prod.mk.injEq, Cursor.advance_cons,
        Cursor.mk.injEq]
      constructor
      · rintro ⟨rfl, rfl, rfl⟩
        exact ⟨hkind, rfl, rfl⟩
      · rintro ⟨_, hrest, hbehind⟩
        simp_all
    · simp only [expect, hkind, if_false, refuse, reduceCtorEq, false_iff, not_and]
      rintro htoken ⟨hrest, _⟩
      simp_all

theorem identifier_eq_ok {before after : Cursor} {name : String} :
    identifier before = .ok (name, after) ↔
      ∃ token, token.kind = .identifier ∧ token.lexeme = name ∧ before.Passes [token] after := by
  simp only [identifier, bind_eq_ok, pure_eq_ok, expect_eq_ok]
  constructor
  · rintro ⟨token, cursor, ⟨hkind, hpass⟩, hname, rfl⟩
    exact ⟨token, hkind, hname, hpass⟩
  · rintro ⟨token, hkind, hname, hpass⟩
    exact ⟨token, after, ⟨hkind, hpass⟩, hname, rfl⟩

theorem skipIf_eq_ok {kind : Kind} (hkind : kind ≠ .eof) {before after : Cursor} {found : Bool} :
    skipIf kind before = .ok (found, after) ↔
      (found = true ∧ ∃ token, token.kind = kind ∧ before.Passes [token] after) ∨
        (found = false ∧ before.kind ≠ kind ∧ before = after) := by
  simp only [skipIf, bind_eq_ok, look_eq_ok]
  by_cases h : before.kind = kind
  · obtain ⟨token, rest, hrest, htoken⟩ := Cursor.exists_rest_of_kind (h ▸ hkind)
    constructor
    · rintro ⟨_, _, ⟨rfl, rfl⟩, hnext⟩
      simp only [h, if_true, bind_eq_ok, skip_eq_ok, pure_eq_ok] at hnext
      obtain ⟨_, _, rfl, rfl, rfl⟩ := hnext
      exact .inl ⟨rfl, token, htoken.trans h, Cursor.passes_advance hrest⟩
    · rintro (⟨rfl, other, hother, hpass⟩ | ⟨_, hne, _⟩)
      · exact ⟨_, _, ⟨rfl, rfl⟩, by simp [h, bind_eq_ok, skip_eq_ok, hpass.advance_eq]⟩
      · exact absurd h hne
  · constructor
    · rintro ⟨_, _, ⟨rfl, rfl⟩, hnext⟩
      simp only [h, if_false, pure_eq_ok] at hnext
      exact .inr ⟨hnext.1.symm, h, hnext.2⟩
    · rintro (⟨_, token, htoken, hpass⟩ | ⟨rfl, _, rfl⟩)
      · exact absurd (hpass.kind_eq.trans htoken) h
      · exact ⟨_, _, ⟨rfl, rfl⟩, by simp [h]⟩

/-! ## Choice by the next token -/

theorem literal_apply (start : Nat) (cursor : Cursor) :
    literal start cursor =
      match literalValue? cursor with
      | some value => .ok (.literal ⟨start, cursor.advance.behind⟩ value, cursor.advance)
      | none => .error (.unmet .expression cursor.rest) := by
  simp only [literal, bind_apply, look]
  cases literalValue? cursor <;> rfl

theorem primary_apply (inner : Inner) (cursor : Cursor) :
    primary inner cursor =
      match cursor.kind with
      | .identifier => nameOrCall inner cursor.start cursor
      | .symbol .leftParen => group inner cursor.start cursor
      | .keyword .function => function inner cursor.start cursor
      | _ => literal cursor.start cursor := by
  simp only [primary, bind_apply, look]
  generalize cursor.kind = kind
  rcases kind with symbol | keyword | _ | _ | _ | _
  · cases symbol <;> rfl
  · cases keyword <;> rfl
  all_goals rfl

theorem unary_apply (inner : Inner) (cursor : Cursor) :
    unary inner cursor =
      match UnaryOp.ofKind? cursor.kind with
      | some operator =>
        (do
          skip
          let operand ← inner.unary
          return .unary ⟨cursor.start, operand.span.stop⟩ operator operand : Parser Expr) cursor
      | none => primary inner cursor := by
  simp only [unary, bind_apply, look]
  cases UnaryOp.ofKind? cursor.kind <;> rfl

theorem chain_succ_apply (level : Level) (operand : Parser Expr) (rounds : Nat) (left : Expr)
    (cursor : Cursor) :
    chain level operand (rounds + 1) left cursor =
      match level.op? cursor.kind with
      | some operator =>
        (do
          skip
          let right ← operand
          chain level operand rounds
            (.binary ⟨left.span.start, right.span.stop⟩ operator left right) : Parser Expr) cursor
      | none => .ok (left, cursor) := by
  simp only [chain, bind_apply, look]
  cases level.op? cursor.kind <;> rfl

theorem terminator_apply (cursor : Cursor) :
    terminator cursor =
      if cursor.kind = .symbol .semicolon then .ok ((), cursor.advance)
      else if closesBlock cursor.kind then .ok ((), cursor)
      else .error (.unmet (.token (.symbol .semicolon)) cursor.rest) := by
  simp only [terminator, bind_apply, look]
  split
  · rfl
  · split <;> rfl

theorem statement_apply (inner : Inner) (cursor : Cursor) :
    statement inner cursor =
      match cursor.kind, cursor.kindAfter with
      | .keyword .local_, _ => localStatement inner cursor.start cursor
      | .identifier, .symbol .assign => assignment inner cursor.start cursor
      | .keyword .return_, _ => returnStatement inner cursor.start cursor
      | .keyword .while_, _ => whileStatement inner cursor.start cursor
      | .keyword .for_, _ => forStatement inner cursor.start cursor
      | .keyword .function, .identifier => functionStatement inner cursor.start cursor
      | .keyword .if_, _ => ifStatement inner cursor.start cursor
      | .keyword .do_, _ => blockStatement inner cursor.start cursor
      | _, _ => expressionStatement inner cursor.start cursor := by
  simp only [statement, bind_apply, look]
  generalize cursor.kind = kind
  generalize cursor.kindAfter = kindAfter
  rcases kind with symbol | keyword | _ | _ | _ | _
  · rfl
  · cases keyword with
    | function => cases kindAfter <;> rfl
    | _ => rfl
  · rcases kindAfter with symbol | _ | _ | _ | _ | _
    · cases symbol <;> rfl
    all_goals rfl
  all_goals rfl

theorem statements_succ_apply (inner : Inner) (rounds : Nat) (cursor : Cursor) :
    statements inner (rounds + 1) cursor =
      if closesBlock cursor.kind then .ok ([], cursor)
      else
        (do
          let first ← statement inner
          return first :: (← statements inner rounds) : Parser (List Stmt)) cursor := by
  simp only [statements, bind_apply, look]
  split <;> rfl

/-- A token whose kind is known is passed by skipping it. -/
theorem passes_of_skip {before after : Cursor} {value : Unit} {kind : Kind}
    (h : skip before = .ok (value, after)) (hkind : before.kind = kind) (hne : kind ≠ .eof) :
    ∃ token, token.kind = kind ∧ before.Passes [token] after := by
  obtain ⟨token, rest, hrest, htoken⟩ := Cursor.exists_rest_of_kind (hkind ▸ hne)
  rw [skip_eq_ok] at h
  exact ⟨token, htoken.trans hkind, h ▸ Cursor.passes_advance hrest⟩

end Parser

end ScopeScript
