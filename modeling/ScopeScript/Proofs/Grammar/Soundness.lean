import ScopeScript.Proofs.Grammar.Reading

/-!
# What is read is a phrase

Every parser that succeeds has passed a phrase of its form and returns the tree of that phrase. The
parsers for the parts that a form encloses are assumed to do so, and the assumption is discharged by
induction on the depth of nesting. The tokens that a parser skips without looking are those that
decided for it.
-/

namespace ScopeScript

open Grammar

namespace Parser

variable {α : Type}

/-- Every result of the parser stands for a phrase that was passed; whether a row of tokens is a
phrase may depend on the kind of the token behind it. -/
def OnlyReads (parser : Parser α) (phrase : Kind → α → List Token → Prop) : Prop :=
  ∀ ⦃before after : Cursor⦄ ⦃value : α⦄, parser before = .ok (value, after) →
    ∃ tokens, before.Passes tokens after ∧ phrase after.kind value tokens

/-! ## Lists -/

theorem onlyReads_identifier :
    identifier.OnlyReads fun _ name tokens ↦
      ∃ token, token.kind = .identifier ∧ token.lexeme = name ∧ tokens = [token] := by
  intro before after name h
  obtain ⟨token, hkind, hname, hpass⟩ := identifier_eq_ok.1 h
  exact ⟨[token], hpass, token, hkind, hname, rfl⟩

/-- Items between commas are read if each item is. -/
theorem onlyReads_separated {item : Parser α} {one : α → List Token → Prop}
    {many : List α → List Token → Prop} (hitem : item.OnlyReads fun _ ↦ one)
    (hlast : ∀ {value tokens}, one value tokens → many [value] tokens)
    (hmore : ∀ {value values tokens comma others}, one value tokens →
      comma.kind = .symbol .comma → many values others →
      many (value :: values) (tokens ++ comma :: others)) (rounds : Nat) :
    (separated item rounds).OnlyReads fun _ ↦ many := by
  induction rounds with
  | zero => exact fun _ _ _ h ↦ nomatch h
  | succ rounds ih =>
    intro before after values h
    simp only [separated, bind_eq_ok] at h
    obtain ⟨value, middle, hvalue, found, behind, hcomma, hnext⟩ := h
    obtain ⟨tokens, hpass, hone⟩ := hitem hvalue
    rcases (skipIf_eq_ok (by decide)).1 hcomma with ⟨rfl, comma, hkind, hcomma⟩ | ⟨rfl, _, rfl⟩
    · simp only [if_true, bind_eq_ok, pure_eq_ok] at hnext
      obtain ⟨values, _, hvalues, rfl, rfl⟩ := hnext
      obtain ⟨others, hothers, hmany⟩ := ih hvalues
      refine ⟨tokens ++ comma :: others, ?_, hmore hone hkind hmany⟩
      exact hpass.append (hcomma.append hothers)
    · simp only [Bool.false_eq_true, if_false, pure_eq_ok] at hnext
      obtain ⟨rfl, rfl⟩ := hnext
      exact ⟨tokens, hpass, hlast hone⟩

/-- A list between parentheses is read if the items between commas are. -/
theorem onlyReads_listed {item : Parser α} {list : List α → List Token → Prop}
    (many : List α → List Token → Prop)
    (hitems : ∀ rounds, (separated item rounds).OnlyReads fun _ ↦ many)
    (hnone : ∀ {opening closing}, opening.kind = .symbol .leftParen →
      closing.kind = .symbol .rightParen → list [] [opening, closing])
    (hsome : ∀ {values opening tokens closing}, opening.kind = .symbol .leftParen →
      many values tokens → closing.kind = .symbol .rightParen →
      list values (opening :: (tokens ++ [closing]))) :
    (listed item).OnlyReads fun _ ↦ list := by
  intro before after values h
  simp only [listed, bind_eq_ok] at h
  obtain ⟨opening, inside, hopening, found, middle, hfound, hnext⟩ := h
  obtain ⟨hkind, hpass⟩ := expect_eq_ok.1 hopening
  rcases (skipIf_eq_ok (by decide)).1 hfound with ⟨rfl, closing, hclosing, hpass'⟩ | ⟨rfl, _, rfl⟩
  · simp only [if_true, pure_eq_ok] at hnext
    obtain ⟨rfl, rfl⟩ := hnext
    exact ⟨[opening, closing], hpass.append hpass', hnone hkind hclosing⟩
  · simp only [Bool.false_eq_true, if_false, bind_eq_ok, pure_eq_ok] at hnext
    obtain ⟨items, middle, hvalues, closing, _, hclosing, rfl, rfl⟩ := hnext
    obtain ⟨tokens, htokens, hmany⟩ := hitems _ hvalues
    obtain ⟨hright, hpass'⟩ := expect_eq_ok.1 hclosing
    exact ⟨opening :: (tokens ++ [closing]), hpass.append (htokens.append hpass'),
      hsome hkind hmany hright⟩

theorem onlyReads_parameters : (listed identifier).OnlyReads fun _ ↦ Parameters := by
  refine onlyReads_listed Names (fun rounds ↦ ?_) .none .some
  refine onlyReads_separated onlyReads_identifier ?_ ?_ rounds
  · rintro _ _ ⟨token, hkind, rfl, rfl⟩
    exact .one hkind
  · rintro _ values _ comma others ⟨token, hkind, rfl, rfl⟩ hcomma hvalues
    exact .more hkind hcomma hvalues

/-! ## Expressions -/

/-- The parsers for the enclosed parts read phrases only. -/
structure Inner.OnlyReads (inner : Inner) : Prop where
  expression : inner.expression.OnlyReads fun _ tree ↦ Derives (.expression tree)
  unary : inner.unary.OnlyReads fun _ tree ↦ Derives (.unary tree)
  block : inner.block.OnlyReads fun next trees ↦ Derives (.block next trees)

variable {inner : Inner}

theorem onlyReads_arguments (hinner : inner.OnlyReads) :
    (listed inner.expression).OnlyReads fun _ trees ↦ Derives (.arguments trees) := by
  refine onlyReads_listed (fun trees ↦ Derives (.items trees)) (fun rounds ↦ ?_)
    .noArguments .someArguments
  exact onlyReads_separated hinner.expression .lastItem .moreItems rounds

theorem denotes_getD {token : Token} {default : Value}
    (hkind : token.kind ∈ [.number, .string, .keyword .true, .keyword .false, .keyword .nil])
    (hdefault : token.literal = none → Denotes token default) :
    Denotes token (token.literal.getD default) := by
  cases hliteral : token.literal with
  | none => exact hdefault hliteral
  | some value => exact .carried hkind hliteral

theorem denotes_of_literalValue? {token : Token} {rest : List Token} {behind : Nat} {value : Value}
    (h : literalValue? ⟨token :: rest, behind⟩ = some value) : Denotes token value := by
  simp only [literalValue?] at h
  split at h
  next hkind => exact .carried (by simp [hkind]) h
  next hkind => exact .carried (by simp [hkind]) h
  next hkind => exact Option.some.inj h ▸ denotes_getD (by simp [hkind]) (.true hkind)
  next hkind => exact Option.some.inj h ▸ denotes_getD (by simp [hkind]) (.false hkind)
  next hkind => exact Option.some.inj h ▸ denotes_getD (by simp [hkind]) (.nil hkind)
  next => cases h

theorem onlyReads_literal {before after : Cursor} {tree : Expr}
    (h : literal before.start before = .ok (tree, after)) :
    ∃ tokens, before.Passes tokens after ∧ Derives (.primary tree) tokens := by
  rw [literal_apply] at h
  split at h
  next value hvalue =>
    obtain ⟨⟨_ | ⟨token, rest⟩, behind⟩, rfl⟩ : ∃ cursor, cursor = before := ⟨before, rfl⟩
    · cases hvalue
    · cases h
      exact ⟨[token], Cursor.passes_advance rfl, .literal (denotes_of_literalValue? hvalue)⟩
  next => cases h

theorem onlyReads_nameOrCall (hinner : inner.OnlyReads) {before after : Cursor} {tree : Expr}
    (h : nameOrCall inner before.start before = .ok (tree, after)) :
    ∃ tokens, before.Passes tokens after ∧ Derives (.primary tree) tokens := by
  simp only [nameOrCall, bind_eq_ok, look_eq_ok] at h
  obtain ⟨name, middle, hname, _, _, ⟨rfl, rfl⟩, hnext⟩ := h
  obtain ⟨token, hkind, rfl, hpass⟩ := identifier_eq_ok.1 hname
  by_cases hparen : middle.kind = .symbol .leftParen
  · simp only [hparen, if_true, bind_eq_ok, spanFrom_eq_ok, pure_eq_ok] at hnext
    obtain ⟨arguments, last, harguments, _, _, ⟨rfl, rfl⟩, rfl, rfl⟩ := hnext
    obtain ⟨tokens, hpass', hderives⟩ := onlyReads_arguments hinner harguments
    have hpass : before.Passes (token :: tokens) last := hpass.append hpass'
    refine ⟨token :: tokens, hpass, ?_⟩
    rw [hpass.extent_eq (List.cons_ne_nil _ _)]
    exact .call hkind hderives
  · simp only [hparen, if_false, bind_eq_ok, spanFrom_eq_ok, pure_eq_ok] at hnext
    obtain ⟨_, _, ⟨rfl, rfl⟩, rfl, rfl⟩ := hnext
    refine ⟨[token], hpass, ?_⟩
    rw [hpass.extent_eq (List.cons_ne_nil _ _)]
    exact .name hkind

theorem onlyReads_group (hinner : inner.OnlyReads) {before after : Cursor} {tree : Expr}
    (hkind : before.kind = .symbol .leftParen)
    (h : group inner before.start before = .ok (tree, after)) :
    ∃ tokens, before.Passes tokens after ∧ Derives (.primary tree) tokens := by
  simp only [group, bind_eq_ok, spanFrom_eq_ok, pure_eq_ok] at h
  obtain ⟨_, inside, hskip, expression, middle, hexpression, closing, last, hclosing, _, _,
    ⟨rfl, rfl⟩, rfl, rfl⟩ := h
  obtain ⟨opening, hopening, hpass⟩ := passes_of_skip hskip hkind (by decide)
  obtain ⟨tokens, hpass', hderives⟩ := hinner.expression hexpression
  obtain ⟨hright, hpass''⟩ := expect_eq_ok.1 hclosing
  have hpass : before.Passes (opening :: (tokens ++ [closing])) last :=
    hpass.append (hpass'.append hpass'')
  refine ⟨_, hpass, ?_⟩
  rw [hpass.extent_eq (List.cons_ne_nil _ _)]
  exact .group hopening hderives hright

theorem onlyReads_functionBody (hinner : inner.OnlyReads) :
    (functionBody inner).OnlyReads fun _ parts ↦ Derives (.functionBody parts.1 parts.2) := by
  intro before after parts h
  simp only [functionBody, bind_eq_ok, pure_eq_ok] at h
  obtain ⟨parameters, middle, hparameters, body, last, hbody, keyword, _, hkeyword, rfl, rfl⟩ := h
  obtain ⟨tokens, hpass, hnames⟩ := onlyReads_parameters hparameters
  obtain ⟨others, hpass', hderives⟩ := hinner.block hbody
  obtain ⟨hend, hpass''⟩ := expect_eq_ok.1 hkeyword
  rw [hpass''.kind_eq, hend] at hderives
  exact ⟨tokens ++ (others ++ [keyword]), hpass.append (hpass'.append hpass''),
    .functionBody hnames hderives hend⟩

theorem onlyReads_functionName : functionName.OnlyReads fun _ name tokens ↦ Heading tokens name := by
  intro before after name h
  simp only [functionName, bind_eq_ok, look_eq_ok] at h
  obtain ⟨_, _, ⟨rfl, rfl⟩, hnext⟩ := h
  by_cases hkind : before.kind = .identifier
  · simp only [hkind, if_true, bind_eq_ok, pure_eq_ok] at hnext
    obtain ⟨_, _, hname, rfl, rfl⟩ := hnext
    obtain ⟨token, htoken, rfl, hpass⟩ := identifier_eq_ok.1 hname
    exact ⟨[token], hpass, .named htoken⟩
  · simp only [hkind, if_false, pure_eq_ok] at hnext
    obtain ⟨rfl, rfl⟩ := hnext
    exact ⟨[], before.passes_nil, .anonymous⟩

theorem onlyReads_function (hinner : inner.OnlyReads) {before after : Cursor} {tree : Expr}
    (hkind : before.kind = .keyword .function)
    (h : function inner before.start before = .ok (tree, after)) :
    ∃ tokens, before.Passes tokens after ∧ Derives (.primary tree) tokens := by
  simp only [function, bind_eq_ok, spanFrom_eq_ok, pure_eq_ok] at h
  obtain ⟨_, inside, hskip, name, middle, hname, ⟨parameters, body⟩, last, hbody, _, _,
    ⟨rfl, rfl⟩, rfl, rfl⟩ := h
  obtain ⟨keyword, hkeyword, hpass⟩ := passes_of_skip hskip hkind (by decide)
  obtain ⟨heading, hpass', hheading⟩ := onlyReads_functionName hname
  obtain ⟨tokens, hpass'', hderives⟩ := onlyReads_functionBody hinner hbody
  have hpass : before.Passes (keyword :: (heading ++ tokens)) last :=
    hpass.append (hpass'.append hpass'')
  refine ⟨_, hpass, ?_⟩
  rw [hpass.extent_eq (List.cons_ne_nil _ _)]
  exact .function hkeyword hheading hderives

theorem onlyReads_primary (hinner : inner.OnlyReads) :
    (primary inner).OnlyReads fun _ tree ↦ Derives (.primary tree) := by
  intro before after tree h
  rw [primary_apply] at h
  split at h
  next => exact onlyReads_nameOrCall hinner h
  next hkind => exact onlyReads_group hinner hkind h
  next hkind => exact onlyReads_function hinner hkind h
  next => exact onlyReads_literal h

theorem onlyReads_unary (hinner : inner.OnlyReads) :
    (unary inner).OnlyReads fun _ tree ↦ Derives (.unary tree) := by
  intro before after tree h
  rw [unary_apply] at h
  split at h
  next operator hoperator =>
    rw [UnaryOp.ofKind?_eq_some_iff] at hoperator
    simp only [bind_eq_ok, pure_eq_ok] at h
    obtain ⟨_, middle, hskip, operand, last, hoperand, rfl, rfl⟩ := h
    obtain ⟨token, htoken, hpass⟩ := passes_of_skip hskip hoperator (by cases operator <;> decide)
    obtain ⟨tokens, hpass', hderives⟩ := hinner.unary hoperand
    have hpass : before.Passes (token :: tokens) last := hpass.append hpass'
    refine ⟨_, hpass, ?_⟩
    rw [hderives.isSpanned.2, hpass.start_eq, stop_extent hderives.isSpanned.1 token.span.stop]
    exact .operator htoken hderives
  next =>
    obtain ⟨tokens, hpass, hderives⟩ := onlyReads_primary hinner h
    exact ⟨tokens, hpass, .ofPrimary hderives⟩

/-- A chain extends the operand that it begins with to a phrase of its precedence. -/
theorem exists_tokens_of_chain {level : Level} {operand : Parser Expr}
    (hoperand : operand.OnlyReads fun _ tree ↦ Derives (.binary (level.precedence + 1) tree))
    {rounds : Nat} {before after : Cursor} {left tree : Expr} {tokens : List Token}
    (hleft : Derives (.binary level.precedence left) tokens)
    (h : chain level operand rounds left before = .ok (tree, after)) :
    ∃ others, before.Passes others after ∧
      Derives (.binary level.precedence tree) (tokens ++ others) := by
  induction rounds generalizing before left tokens with
  | zero => cases h
  | succ rounds ih =>
    rw [chain_succ_apply] at h
    split at h
    next operator hoperator =>
      obtain ⟨hprecedence, hkind⟩ := Level.op?_eq_some_iff.1 hoperator
      simp only [bind_eq_ok] at h
      obtain ⟨_, middle, hskip, right, last, hright, hrest⟩ := h
      have hne : operator.kind ≠ .eof := fun heof ↦ operator.kind_notMem (by simp [heof])
      obtain ⟨token, htoken, hpass⟩ := passes_of_skip hskip hkind hne
      obtain ⟨others, hpass', hderives⟩ := hoperand hright
      have hjoin := Derives.join hprecedence hleft htoken hderives
      rw [extent_join token hleft.expression_ne_nil hderives.expression_ne_nil,
        ← hleft.expression_span, ← hderives.expression_span] at hjoin
      obtain ⟨rest, hpass'', hall⟩ := ih hjoin hrest
      refine ⟨token :: (others ++ rest), hpass.append (hpass'.append hpass''), ?_⟩
      simpa using hall
    next =>
      cases h
      exact ⟨[], Cursor.passes_nil _, by simpa using hleft⟩

theorem onlyReads_binary (hinner : inner.OnlyReads) {levels : List Level} {precedence : Nat}
    (hle : precedence ≤ 7) (hlevels : Level.all.drop precedence = levels) :
    (binary inner levels).OnlyReads fun _ tree ↦ Derives (.binary precedence tree) := by
  induction levels generalizing precedence with
  | nil =>
    intro before after tree h
    obtain ⟨tokens, hpass, hderives⟩ := onlyReads_unary hinner h
    have hlength := List.drop_eq_nil_iff.1 hlevels
    exact ⟨tokens, hpass, .ofUnary (Nat.le_antisymm hle hlength) hderives⟩
  | cons level tighter ih =>
    intro before after tree h
    obtain ⟨hlt, rfl, htighter⟩ := Level.precedence_of_drop hlevels
    simp only [binary, bind_eq_ok, repeatedly] at h
    obtain ⟨left, middle, hleft, hchain⟩ := h
    obtain ⟨tokens, hpass, hderives⟩ := ih hlt htighter hleft
    obtain ⟨others, hpass', hall⟩ :=
      exists_tokens_of_chain (ih hlt htighter) (.ofTighter hlt hderives) hchain
    exact ⟨tokens ++ others, hpass.append hpass', hall⟩

theorem onlyReads_expression (hinner : inner.OnlyReads) :
    (Parser.expression inner).OnlyReads fun _ tree ↦ Derives (.expression tree) :=
  onlyReads_binary hinner (Nat.zero_le 7) rfl

/-! ## Ends of statements -/

theorem closesBlock_iff {kind : Kind} : closesBlock kind = true ↔ Closes kind := by
  rcases kind with symbol | keyword | _ | _ | _ | _
  · simp [closesBlock, Closes]
  · cases keyword <;> simp [closesBlock, Closes]
  all_goals simp [closesBlock, Closes]

theorem onlyReads_terminator : terminator.OnlyReads fun next _ tokens ↦ Terminator next tokens := by
  intro before after value h
  rw [terminator_apply] at h
  split at h
  next hkind =>
    obtain ⟨token, rest, hrest, htoken⟩ := Cursor.exists_rest_of_kind (by rw [hkind]; decide)
    cases h
    exact ⟨[token], Cursor.passes_advance hrest, .semicolon (htoken.trans hkind)⟩
  next =>
    split at h
    next hcloses =>
      cases h
      exact ⟨[], before.passes_nil, .omitted (closesBlock_iff.1 hcloses)⟩
    next => cases h

theorem onlyReads_optionalTerminator :
    optionalTerminator.OnlyReads fun _ _ tokens ↦ OptionalTerminator tokens := by
  intro before after value h
  simp only [optionalTerminator, bind_eq_ok, pure_eq_ok] at h
  obtain ⟨found, middle, hfound, -, rfl⟩ := h
  rcases (skipIf_eq_ok (by decide)).1 hfound with ⟨-, token, htoken, hpass⟩ | ⟨-, -, rfl⟩
  · exact ⟨[token], hpass, .semicolon htoken⟩
  · exact ⟨[], before.passes_nil, .omitted⟩

/-! ## Statements -/

theorem onlyReads_localStatement (hinner : inner.OnlyReads) {before after : Cursor} {tree : Stmt}
    (hkind : before.kind = .keyword .local_)
    (h : localStatement inner before.start before = .ok (tree, after)) :
    ∃ tokens, before.Passes tokens after ∧ Derives (.statement after.kind tree) tokens := by
  simp only [localStatement, bind_eq_ok] at h
  obtain ⟨_, _, hskip, _, behind, hname, found, middle, hfound, hnext⟩ := h
  obtain ⟨keyword, hkeyword, hpass₁⟩ := passes_of_skip hskip hkind (by decide)
  obtain ⟨name, hidentifier, rfl, hpass₂⟩ := identifier_eq_ok.1 hname
  rcases (skipIf_eq_ok (by decide)).1 hfound with ⟨rfl, sign, hsign, hpass₃⟩ | ⟨rfl, -, rfl⟩
  · simp only [if_true, bind_eq_ok, spanFrom_eq_ok, pure_eq_ok] at hnext
    obtain ⟨value, _, hvalue, _, last, hending, _, _, ⟨rfl, rfl⟩, rfl, rfl⟩ := hnext
    obtain ⟨tokens, hpass₄, hvalue⟩ := onlyReads_expression hinner hvalue
    obtain ⟨ending, hpass₅, hending⟩ := onlyReads_terminator hending
    have hall : before.Passes (keyword :: name :: sign :: (tokens ++ ending)) last :=
      hpass₁.append (hpass₂.append (hpass₃.append (hpass₄.append hpass₅)))
    refine ⟨_, hall, ?_⟩
    rw [hall.extent_eq (List.cons_ne_nil _ _)]
    exact .definition hkeyword hidentifier hsign hvalue hending
  · simp only [Bool.false_eq_true, if_false, implicitNil, bind_eq_ok, look_eq_ok, spanFrom_eq_ok,
      pure_eq_ok] at hnext
    obtain ⟨_, _, ⟨rfl, rfl⟩, _, last, hending, _, _, ⟨rfl, rfl⟩, rfl, rfl⟩ := hnext
    obtain ⟨ending, hpass₃, hending⟩ := onlyReads_terminator hending
    have hall : before.Passes (keyword :: name :: ending) last :=
      hpass₁.append (hpass₂.append hpass₃)
    refine ⟨_, hall, ?_⟩
    rw [hall.extent_eq (List.cons_ne_nil _ _), hpass₂.behind]
    exact .declaration hkeyword hidentifier hending

theorem onlyReads_assignment (hinner : inner.OnlyReads) {before after : Cursor} {tree : Stmt}
    (hafter : before.kindAfter = .symbol .assign)
    (h : assignment inner before.start before = .ok (tree, after)) :
    ∃ tokens, before.Passes tokens after ∧ Derives (.statement after.kind tree) tokens := by
  simp only [assignment, bind_eq_ok, spanFrom_eq_ok, pure_eq_ok] at h
  obtain ⟨_, behind, hname, _, _, hskip, value, _, hvalue, _, last, hending, _, _, ⟨rfl, rfl⟩, rfl,
    rfl⟩ := h
  obtain ⟨name, hidentifier, rfl, hpass₁⟩ := identifier_eq_ok.1 hname
  obtain ⟨sign, hsign, hpass₂⟩ :=
    passes_of_skip hskip (hpass₁.kindAfter_eq.symm.trans hafter) (by decide)
  obtain ⟨tokens, hpass₃, hvalue⟩ := onlyReads_expression hinner hvalue
  obtain ⟨ending, hpass₄, hending⟩ := onlyReads_terminator hending
  have hall : before.Passes (name :: sign :: (tokens ++ ending)) last :=
    hpass₁.append (hpass₂.append (hpass₃.append hpass₄))
  refine ⟨_, hall, ?_⟩
  rw [hall.extent_eq (List.cons_ne_nil _ _)]
  exact .assignment hidentifier hsign hvalue hending

theorem onlyReads_returnStatement (hinner : inner.OnlyReads) {before after : Cursor} {tree : Stmt}
    (hkind : before.kind = .keyword .return_)
    (h : returnStatement inner before.start before = .ok (tree, after)) :
    ∃ tokens, before.Passes tokens after ∧ Derives (.statement after.kind tree) tokens := by
  simp only [returnStatement, bind_eq_ok, look_eq_ok] at h
  obtain ⟨_, middle, hskip, _, _, ⟨rfl, rfl⟩, hnext⟩ := h
  obtain ⟨keyword, hkeyword, hpass₁⟩ := passes_of_skip hskip hkind (by decide)
  split at hnext
  · simp only [implicitNil, bind_eq_ok, look_eq_ok, spanFrom_eq_ok, pure_eq_ok] at hnext
    obtain ⟨_, _, ⟨rfl, rfl⟩, _, last, hending, _, _, ⟨rfl, rfl⟩, rfl, rfl⟩ := hnext
    obtain ⟨ending, hpass₂, hending⟩ := onlyReads_terminator hending
    have hall : before.Passes (keyword :: ending) last := hpass₁.append hpass₂
    refine ⟨_, hall, ?_⟩
    rw [hall.extent_eq (List.cons_ne_nil _ _), hpass₁.behind]
    exact .returnNothing hkeyword hending
  · simp only [bind_eq_ok, spanFrom_eq_ok, pure_eq_ok] at hnext
    obtain ⟨value, _, hvalue, _, last, hending, _, _, ⟨rfl, rfl⟩, rfl, rfl⟩ := hnext
    obtain ⟨tokens, hpass₂, hvalue⟩ := onlyReads_expression hinner hvalue
    obtain ⟨ending, hpass₃, hending⟩ := onlyReads_terminator hending
    have hall : before.Passes (keyword :: (tokens ++ ending)) last :=
      hpass₁.append (hpass₂.append hpass₃)
    refine ⟨_, hall, ?_⟩
    rw [hall.extent_eq (List.cons_ne_nil _ _)]
    exact .returnValue hkeyword hvalue hending

theorem onlyReads_whileStatement (hinner : inner.OnlyReads) {before after : Cursor} {tree : Stmt}
    (hkind : before.kind = .keyword .while_)
    (h : whileStatement inner before.start before = .ok (tree, after)) :
    ∃ tokens, before.Passes tokens after ∧ Derives (.statement after.kind tree) tokens := by
  simp only [whileStatement, bind_eq_ok, expect_eq_ok, spanFrom_eq_ok, pure_eq_ok] at h
  obtain ⟨_, _, hskip, condition, _, hcondition, opening, _, ⟨hopening, hpass₃⟩, body, _, hbody,
    closing, _, ⟨hclosing, hpass₅⟩, _, last, hending, _, _, ⟨rfl, rfl⟩, rfl, rfl⟩ := h
  obtain ⟨keyword, hkeyword, hpass₁⟩ := passes_of_skip hskip hkind (by decide)
  obtain ⟨tokens, hpass₂, hcondition⟩ := onlyReads_expression hinner hcondition
  obtain ⟨others, hpass₄, hbody⟩ := hinner.block hbody
  obtain ⟨ending, hpass₆, hending⟩ := onlyReads_optionalTerminator hending
  rw [hpass₅.kind_eq, hclosing] at hbody
  have hall :
      before.Passes (keyword :: (tokens ++ opening :: (others ++ closing :: ending))) last :=
    hpass₁.append (hpass₂.append (hpass₃.append (hpass₄.append (hpass₅.append hpass₆))))
  refine ⟨_, hall, ?_⟩
  rw [hall.extent_eq (List.cons_ne_nil _ _)]
  exact .whileLoop hkeyword hcondition hopening hbody hclosing hending

theorem onlyReads_forStatement (hinner : inner.OnlyReads) {before after : Cursor} {tree : Stmt}
    (hkind : before.kind = .keyword .for_)
    (h : forStatement inner before.start before = .ok (tree, after)) :
    ∃ tokens, before.Passes tokens after ∧ Derives (.statement after.kind tree) tokens := by
  simp only [forStatement, loopStep, bind_eq_ok, look_eq_ok, expect_eq_ok, spanFrom_eq_ok,
    pure_eq_ok] at h
  obtain ⟨_, binding, hskip, _, _, ⟨rfl, rfl⟩, _, _, hname, sign, _, ⟨hsign, hpass₃⟩, init, bound,
    hinit, _, _, ⟨rfl, rfl⟩, comma, _, ⟨hcomma, hpass₅⟩, limit, _, hlimit, step, _,
    ⟨found, _, hfound, hstep⟩, opening, _, ⟨hopening, hpass₇⟩, body, _, hbody, closing, _,
    ⟨hclosing, hpass₉⟩, _, final, hending, _, _, ⟨rfl, rfl⟩, rfl, rfl⟩ := h
  obtain ⟨keyword, hkeyword, hpass₁⟩ := passes_of_skip hskip hkind (by decide)
  obtain ⟨name, hidentifier, rfl, hpass₂⟩ := identifier_eq_ok.1 hname
  obtain ⟨first, hpass₄, hinit⟩ := onlyReads_expression hinner hinit
  obtain ⟨last, hpass₆, hlimit⟩ := onlyReads_expression hinner hlimit
  obtain ⟨others, hpass₈, hbody⟩ := hinner.block hbody
  obtain ⟨ending, hpass₁₀, hending⟩ := onlyReads_optionalTerminator hending
  rw [hpass₉.kind_eq, hclosing] at hbody
  have hbinding : binding.Passes (name :: sign :: first) bound :=
    hpass₂.append (hpass₃.append hpass₄)
  have htail := hpass₇.append (hpass₈.append (hpass₉.append hpass₁₀))
  rw [hbinding.extent_eq (List.cons_ne_nil _ _)]
  rcases (skipIf_eq_ok (by decide)).1 hfound with ⟨rfl, comma', hcomma', hpass⟩ | ⟨rfl, -, rfl⟩
  · simp only [if_true, bind_eq_ok, pure_eq_ok] at hstep
    obtain ⟨step, _, hstep, rfl, rfl⟩ := hstep
    obtain ⟨between, hpass', hstep⟩ := onlyReads_expression hinner hstep
    have hall : before.Passes (keyword :: name :: sign :: (first ++ comma ::
        (last ++ comma' :: (between ++ opening :: (others ++ closing :: ending))))) final := by
      simpa using hpass₁.append (hbinding.append (hpass₅.append (hpass₆.append
        (hpass.append (hpass'.append htail)))))
    refine ⟨_, hall, ?_⟩
    rw [hall.extent_eq (List.cons_ne_nil _ _)]
    exact .forStepLoop hkeyword hidentifier hsign hinit hcomma hlimit hcomma' hstep hopening hbody
      hclosing hending
  · simp only [Bool.false_eq_true, if_false, pure_eq_ok] at hstep
    obtain ⟨rfl, rfl⟩ := hstep
    have hall : before.Passes (keyword :: name :: sign :: (first ++ comma ::
        (last ++ opening :: (others ++ closing :: ending)))) final := by
      simpa using hpass₁.append (hbinding.append (hpass₅.append (hpass₆.append htail)))
    refine ⟨_, hall, ?_⟩
    rw [hall.extent_eq (List.cons_ne_nil _ _)]
    exact .forLoop hkeyword hidentifier hsign hinit hcomma hlimit hopening hbody hclosing hending

theorem onlyReads_functionStatement (hinner : inner.OnlyReads) {before after : Cursor}
    {tree : Stmt} (hkind : before.kind = .keyword .function)
    (h : functionStatement inner before.start before = .ok (tree, after)) :
    ∃ tokens, before.Passes tokens after ∧ Derives (.statement after.kind tree) tokens := by
  simp only [functionStatement, bind_eq_ok, spanFrom_eq_ok, pure_eq_ok] at h
  obtain ⟨_, _, hskip, _, _, hname, ⟨parameters, body⟩, middle, hbody, _, _, ⟨rfl, rfl⟩, _, last,
    hending, _, _, ⟨rfl, rfl⟩, rfl, rfl⟩ := h
  obtain ⟨keyword, hkeyword, hpass₁⟩ := passes_of_skip hskip hkind (by decide)
  obtain ⟨name, hidentifier, rfl, hpass₂⟩ := identifier_eq_ok.1 hname
  obtain ⟨tokens, hpass₃, hbody⟩ := onlyReads_functionBody hinner hbody
  obtain ⟨ending, hpass₄, hending⟩ := onlyReads_optionalTerminator hending
  have hvalue : before.Passes (keyword :: name :: tokens) middle :=
    hpass₁.append (hpass₂.append hpass₃)
  have hall : before.Passes (keyword :: name :: (tokens ++ ending)) last := hvalue.append hpass₄
  refine ⟨_, hall, ?_⟩
  rw [hall.extent_eq (List.cons_ne_nil _ _), hvalue.extent_eq (List.cons_ne_nil _ _)]
  exact .functionDefinition hkeyword hidentifier hbody hending

theorem onlyReads_ifStatement (hinner : inner.OnlyReads) {before after : Cursor} {tree : Stmt}
    (hkind : before.kind = .keyword .if_)
    (h : ifStatement inner before.start before = .ok (tree, after)) :
    ∃ tokens, before.Passes tokens after ∧ Derives (.statement after.kind tree) tokens := by
  simp only [ifStatement, bind_eq_ok, expect_eq_ok, spanFrom_eq_ok, pure_eq_ok] at h
  obtain ⟨_, _, hskip, condition, _, hcondition, opening, _, ⟨hopening, hpass₃⟩, thenBody, _, hthen,
    middle, _, ⟨hmiddle, hpass₅⟩, elseBody, _, helse, closing, _, ⟨hclosing, hpass₇⟩, _, last,
    hending, _, _, ⟨rfl, rfl⟩, rfl, rfl⟩ := h
  obtain ⟨keyword, hkeyword, hpass₁⟩ := passes_of_skip hskip hkind (by decide)
  obtain ⟨tokens, hpass₂, hcondition⟩ := onlyReads_expression hinner hcondition
  obtain ⟨thens, hpass₄, hthen⟩ := hinner.block hthen
  obtain ⟨elses, hpass₆, helse⟩ := hinner.block helse
  obtain ⟨ending, hpass₈, hending⟩ := onlyReads_optionalTerminator hending
  rw [hpass₅.kind_eq, hmiddle] at hthen
  rw [hpass₇.kind_eq, hclosing] at helse
  have hall : before.Passes
      (keyword :: (tokens ++ opening :: (thens ++ middle :: (elses ++ closing :: ending)))) last :=
    hpass₁.append (hpass₂.append (hpass₃.append (hpass₄.append (hpass₅.append
      (hpass₆.append (hpass₇.append hpass₈))))))
  refine ⟨_, hall, ?_⟩
  rw [hall.extent_eq (List.cons_ne_nil _ _)]
  exact .ifElse hkeyword hcondition hopening hthen hmiddle helse hclosing hending

theorem onlyReads_blockStatement (hinner : inner.OnlyReads) {before after : Cursor} {tree : Stmt}
    (hkind : before.kind = .keyword .do_)
    (h : blockStatement inner before.start before = .ok (tree, after)) :
    ∃ tokens, before.Passes tokens after ∧ Derives (.statement after.kind tree) tokens := by
  simp only [blockStatement, bind_eq_ok, expect_eq_ok, spanFrom_eq_ok, pure_eq_ok] at h
  obtain ⟨_, _, hskip, body, _, hbody, closing, _, ⟨hclosing, hpass₃⟩, _, last, hending, _, _,
    ⟨rfl, rfl⟩, rfl, rfl⟩ := h
  obtain ⟨keyword, hkeyword, hpass₁⟩ := passes_of_skip hskip hkind (by decide)
  obtain ⟨tokens, hpass₂, hbody⟩ := hinner.block hbody
  obtain ⟨ending, hpass₄, hending⟩ := onlyReads_optionalTerminator hending
  rw [hpass₃.kind_eq, hclosing] at hbody
  have hall : before.Passes (keyword :: (tokens ++ closing :: ending)) last :=
    hpass₁.append (hpass₂.append (hpass₃.append hpass₄))
  refine ⟨_, hall, ?_⟩
  rw [hall.extent_eq (List.cons_ne_nil _ _)]
  exact .blockStatement hkeyword hbody hclosing hending

/-- An expression that is read as a statement does not begin like a definition, because the choice
by the first two tokens has fallen otherwise. -/
theorem onlyReads_expressionStatement (hinner : inner.OnlyReads) {before after : Cursor}
    {tree : Stmt}
    (hkinds : before.kind = .keyword .function → before.kindAfter ≠ .identifier)
    (h : expressionStatement inner before.start before = .ok (tree, after)) :
    ∃ tokens, before.Passes tokens after ∧ Derives (.statement after.kind tree) tokens := by
  simp only [expressionStatement, bind_eq_ok, spanFrom_eq_ok, pure_eq_ok] at h
  obtain ⟨value, _, hvalue, _, last, hending, _, _, ⟨rfl, rfl⟩, rfl, rfl⟩ := h
  obtain ⟨tokens, hpass₁, hvalue⟩ := onlyReads_expression hinner hvalue
  obtain ⟨ending, hpass₂, hending⟩ := onlyReads_terminator hending
  have hall : before.Passes (tokens ++ ending) last := hpass₁.append hpass₂
  refine ⟨_, hall, ?_⟩
  rw [hall.extent_eq (by simp [hvalue.expression_ne_nil])]
  refine .expressionStatement hvalue ?_ hending
  rintro ⟨hkeyword, hname⟩
  exact hkinds (hpass₁.kind_eq.trans hkeyword) (by simpa [Cursor.kindAfter, hpass₁.rest] using hname)

theorem onlyReads_statement (hinner : inner.OnlyReads) :
    (statement inner).OnlyReads fun next tree ↦ Derives (.statement next tree) := by
  intro before after tree h
  rw [statement_apply] at h
  split at h
  next hkind => exact onlyReads_localStatement hinner hkind h
  next hafter => exact onlyReads_assignment hinner hafter h
  next hkind => exact onlyReads_returnStatement hinner hkind h
  next hkind => exact onlyReads_whileStatement hinner hkind h
  next hkind => exact onlyReads_forStatement hinner hkind h
  next hkind _ => exact onlyReads_functionStatement hinner hkind h
  next hkind => exact onlyReads_ifStatement hinner hkind h
  next hkind => exact onlyReads_blockStatement hinner hkind h
  next hfunction => exact onlyReads_expressionStatement hinner hfunction h

/-! ## Blocks -/

theorem onlyReads_statements (hinner : inner.OnlyReads) (rounds : Nat) :
    (statements inner rounds).OnlyReads fun next trees tokens ↦
      Closes next ∧ Derives (.block next trees) tokens := by
  induction rounds with
  | zero => exact fun _ _ _ h ↦ nomatch h
  | succ rounds ih =>
    intro before after trees h
    rw [statements_succ_apply] at h
    split at h
    next hcloses =>
      cases h
      exact ⟨[], Cursor.passes_nil _, closesBlock_iff.1 hcloses, .noStatement⟩
    next =>
      simp only [bind_eq_ok, pure_eq_ok] at h
      obtain ⟨tree, middle, htree, trees, _, htrees, rfl, rfl⟩ := h
      obtain ⟨tokens, hpass, hderives⟩ := onlyReads_statement hinner htree
      obtain ⟨others, hpass', hcloses, hblock⟩ := ih htrees
      refine ⟨tokens ++ others, hpass.append hpass', hcloses, .moreStatements ?_ hblock⟩
      rwa [Cursor.kind_eq_leading, hpass'.rest, leading_append, ← Cursor.kind_eq_leading] at hderives

/-- The parsers for enclosed parts read phrases only, however deep they go. -/
theorem Inner.onlyReads_ofDepth (depth : Nat) : (Inner.ofDepth depth).OnlyReads := by
  induction depth with
  | zero => exact ⟨(fun _ _ _ h ↦ nomatch h), (fun _ _ _ h ↦ nomatch h), (fun _ _ _ h ↦ nomatch h)⟩
  | succ depth ih =>
    refine ⟨onlyReads_expression ih, onlyReads_unary ih, fun before after trees h ↦ ?_⟩
    obtain ⟨tokens, hpass, -, hderives⟩ := onlyReads_statements ih _ h
    exact ⟨tokens, hpass, hderives⟩

/-- What is read as a program is one. -/
theorem isProgram_of_program {depth behind : Nat} {tokens : List Token} {tree : Program}
    {after : Cursor} (h : program (.ofDepth depth) ⟨tokens, behind⟩ = .ok (tree, after)) :
    IsProgram tokens tree := by
  simp only [program, block, bind_eq_ok, pure_eq_ok] at h
  obtain ⟨_, middle, hblock, _, _, hend, rfl, rfl⟩ := h
  obtain ⟨others, hpass, -, hderives⟩ := onlyReads_statements (Inner.onlyReads_ofDepth depth) _ hblock
  obtain ⟨rest, stop⟩ := middle
  cases rest with
  | cons token rest => simp [endOfTokens] at hend
  | nil =>
    have hrest : tokens = others := by simpa using hpass.rest
    rw [hrest]
    exact hderives

end Parser

end ScopeScript
