import ScopeScript.Proofs.Grammar.Repair.Basic

/-!
# Repairing expressions

Whatever an expression lacks can be written: an operand, the rest of the arguments, the body of a function
and the word or the parenthesis that closes it. A repair keeps the tokens that were passed, so an
expression that is no definition of a function does not become one by it, unless it began like one.
-/

namespace ScopeScript

open Grammar

namespace Parser

variable {size : Nat}

/-- What is read by the parsers for enclosed parts are phrases, and their failures before fewer tokens
than this can be repaired. -/
structure Inner.RepairsBelow (inner : Inner) (size : Nat) : Prop extends inner.OnlyReads where
  closed : inner.block.OnlyReads fun _ _ tokens ↦ IsBlock tokens
  repairs_expression : ∀ {count}, count < size →
    Repairs count inner.expression fun _ row ↦ Begins (Phrase Form.expression) row
  repairs_unary : ∀ {count}, count < size →
    Repairs count inner.unary fun _ row ↦ Begins (Phrase Form.unary) row
  repairs_block : ∀ {count}, count < size →
    Repairs count inner.block fun _ row ↦ Begins IsBlock row

/-- The row can be completed to a phrase of the form, and begins like a definition only if what is there
does. -/
def Restores (form : Expr → Form) (rest row : List Token) : Prop :=
  Begins (Phrase form) row ∧ ∀ others, BeginsDefinition (row ++ others) → BeginsDefinition rest

theorem Restores.mono {form form' : Expr → Form} {rest row : List Token} (h : Restores form rest row)
    (hform : ∀ {tree tokens}, Derives (form tree) tokens → Derives (form' tree) tokens) :
    Restores form' rest row :=
  ⟨h.1.mono fun ⟨tree, htree⟩ ↦ ⟨tree, hform htree⟩, h.2⟩

section Expressions

variable {inner : Inner} (hinner : inner.RepairsBelow size)

theorem repairs_literal (start : Nat) (before : Cursor) :
    Mends (Restores Form.primary) before (literal start before) := by
  intro failure hfailure
  rw [literal_apply] at hfailure
  split at hfailure
  next => cases hfailure
  next =>
    cases hfailure
    refine ⟨.expression, [], before.rest, rfl, rfl, by decide, fun token htoken ↦ ⟨?_, ?_⟩⟩
    · have hdenotes : Denotes token (token.literal.getD .nil) :=
        denotes_getD (by simp [show token.kind = _ from htoken]) (.nil htoken)
      exact .whole ⟨_, .literal hdenotes⟩
    · intro others h
      simpa [show token.kind = _ from htoken] using h.kind_eq

include hinner

theorem repairs_arguments {count : Nat} (hcount : count < size) :
    Repairs count (listed inner.expression) fun _ row ↦ Begins (Phrase Form.arguments) row :=
  (repairs_listed hinner.expression (hinner.repairs_expression hcount) .lastItem .moreItems
    .noArguments .someArguments).mono And.left

theorem repairs_nameOrCall (start : Nat) {before : Cursor} (hkind : before.kind = .identifier)
    (hsize : before.rest.length ≤ size) :
    Mends (Restores Form.primary) before (nameOrCall inner start before) := by
  refine mends_identifier hkind fun {token after} htoken hpass ↦ ?_
  have hfirst : ∀ tokens, ¬BeginsDefinition (token :: tokens) :=
    fun _ hbegins ↦ absurd hbegins.kind_eq (by simp [htoken])
  refine Repairs.look (fun kind ↦ ?_) after (Nat.le_refl _)
  split
  · have harguments := repairs_arguments hinner (hpass.length_lt hsize)
    refine Repairs.bind (onlyReads_arguments hinner.toOnlyReads)
      (harguments.mono fun h ↦ ⟨?_, fun _ hbegins ↦ absurd hbegins (hfirst _)⟩)
      fun _ ↦ IsTotal.repairs fun _ ↦ ⟨_, rfl⟩
    exact h.bind fun ⟨_, h⟩ ↦ .whole ⟨_, .call htoken h⟩
  · exact IsTotal.repairs fun _ ↦ ⟨_, rfl⟩

theorem repairs_group (start : Nat) {before : Cursor} (hkind : before.kind = .symbol .leftParen)
    (hsize : before.rest.length ≤ size) :
    Mends (Restores Form.primary) before (group inner start before) := by
  refine mends_skip hkind (by decide) fun {opening after} hopening hpass ↦ ?_
  have hfirst : ∀ tokens, ¬BeginsDefinition (opening :: tokens) :=
    fun _ hbegins ↦ absurd hbegins.kind_eq (by simp [hopening])
  have hclosed : ∀ {tokens}, Phrase Form.expression tokens →
      Begins (Phrase Form.primary) (opening :: tokens) :=
    fun ⟨_, h⟩ ↦ .more (.symbol .rightParen) (by decide) (.whole ⟨_, .group hopening h rfl⟩)
  have hexpression := hinner.repairs_expression (hpass.length_lt hsize)
  refine Repairs.bind hinner.expression
    (hexpression.mono fun h ↦ ⟨h.bind hclosed, fun _ hbegins ↦ absurd hbegins (hfirst _)⟩)
    (fun {_ _ tokens} htree ↦ ?_) after (Nat.le_refl _)
  exact Repairs.expect (by decide)
    (fun hclosing ↦ ⟨.whole ⟨_, .group hopening htree hclosing⟩,
      fun _ hbegins ↦ absurd hbegins (hfirst _)⟩)
    fun _ ↦ IsTotal.repairs fun _ ↦ ⟨_, rfl⟩

/-- The parameters and the body of a function begin with a parenthesis, repaired or not. -/
theorem repairs_functionBody {count : Nat} (hcount : count < size) :
    Repairs count (functionBody inner) fun _ row ↦
      Begins (fun tokens ↦ ∃ parameters body, Derives (.functionBody parameters body) tokens) row ∧
        leading .eof row = .symbol .leftParen := by
  let language : List Token → Prop := fun tokens ↦
    ∃ parameters body, Derives (.functionBody parameters body) tokens
  have hclosed : ∀ {tokens others}, (∃ parameters, Parameters parameters tokens) →
      IsBlock others → Begins language (tokens ++ others) := by
    rintro tokens others ⟨parameters, hparameters⟩ hblock
    obtain ⟨body, hbody⟩ := hblock (.keyword .end_) (.inl rfl)
    refine .more (.keyword .end_) (by decide) (.whole ⟨parameters, body, ?_⟩)
    rw [List.append_assoc]
    exact .functionBody hparameters hbody rfl
  have hempty : IsBlock [] := fun next _ ↦ ⟨[], .noStatement⟩
  refine Repairs.bind onlyReads_parameters (repairs_parameters.mono fun {_ row} h ↦ ⟨?_, h.2⟩)
    fun {_ parameters tokens} hparameters ↦ ?_
  · exact h.1.bind fun h ↦ List.append_nil _ ▸ hclosed h hempty
  have hfirst : ∀ row, leading .eof (tokens ++ row) = .symbol .leftParen := by
    cases hparameters with
    | none hopening | some hopening => exact fun _ ↦ hopening
  refine Repairs.bind hinner.closed
    ((hinner.repairs_block hcount).mono fun {_ row} h ↦ ⟨?_, hfirst row⟩) fun {_ _ others} hblock ↦ ?_
  · exact h.bind fun hblock ↦ hclosed ⟨parameters, hparameters⟩ hblock
  refine Repairs.expect (by decide) (fun {_ keyword} hkeyword ↦ ⟨?_, hfirst _⟩)
    fun _ ↦ IsTotal.repairs fun _ ↦ ⟨_, rfl⟩
  obtain ⟨body, hbody⟩ := hblock (.keyword .end_) (.inl rfl)
  exact .whole ⟨parameters, body, .functionBody hparameters hbody hkeyword⟩

omit hinner in
theorem isTotal_functionName : IsTotal functionName := by
  intro before
  simp only [functionName, bind_apply, look]
  split
  next hkind =>
    obtain ⟨token, rest, hrest, htoken⟩ :=
      Cursor.exists_rest_of_kind (show before.kind ≠ .eof by simp [hkind])
    have hname := identifier_eq_ok.2
      ⟨token, htoken.trans hkind, rfl, Cursor.passes_advance hrest⟩
    rw [bind_apply, hname]
    exact ⟨_, rfl⟩
  next => exact ⟨_, rfl⟩

theorem repairs_function (start : Nat) {before : Cursor} (hkind : before.kind = .keyword .function)
    (hsize : before.rest.length ≤ size) :
    Mends (Restores Form.primary) before (function inner start before) := by
  refine mends_skip hkind (by decide) fun {keyword after} hkeyword hpass ↦ ?_
  refine Repairs.bind onlyReads_functionName isTotal_functionName.repairs
    (fun {_ name heading} hheading ↦ ?_) after (Nat.le_refl _)
  have hbody := repairs_functionBody hinner (hpass.length_lt hsize)
  refine Repairs.bind (onlyReads_functionBody hinner.toOnlyReads)
    (hbody.mono fun {rest row} ⟨hrow, hfirst⟩ ↦ ⟨?_, fun others hbegins ↦ ?_⟩) ?_
  · apply hrow.bind
    rintro tokens ⟨_, _, h⟩
    exact .whole ⟨_, .function hkeyword hheading h⟩
  · cases hheading with
    | anonymous =>
      cases row with
      | nil => cases hfirst
      | cons opening row =>
        cases hbegins with
        | intro _ hname => cases hfirst.symm.trans hname
    | named hname => exact .intro hkeyword hname
  · exact fun _ ↦ IsTotal.repairs fun _ ↦ ⟨_, rfl⟩

theorem repairs_primary : Repairs size (primary inner) (Restores Form.primary) := by
  intro before hsize
  rw [primary_apply]
  split
  next hkind => exact repairs_nameOrCall hinner _ hkind hsize
  next hkind => exact repairs_group hinner _ hkind hsize
  next hkind => exact repairs_function hinner _ hkind hsize
  next => exact repairs_literal _ before

theorem repairs_unary : Repairs size (unary inner) (Restores Form.unary) := by
  intro before hsize
  rw [unary_apply]
  split
  next operator hoperator =>
    rw [UnaryOp.ofKind?_eq_some_iff] at hoperator
    refine mends_skip hoperator (by cases operator <;> decide) fun {token after} htoken hpass ↦ ?_
    have hunary := hinner.repairs_unary (hpass.length_lt hsize)
    refine Repairs.bind hinner.unary (hunary.mono fun h ↦ ⟨?_, fun _ hbegins ↦ ?_⟩)
      (fun _ ↦ IsTotal.repairs fun _ ↦ ⟨_, rfl⟩) after (Nat.le_refl _)
    · exact h.bind fun ⟨_, h⟩ ↦ .whole ⟨_, .operator htoken h⟩
    · have hkind := hbegins.kind_eq
      rw [htoken] at hkind
      cases operator <;> cases hkind
  next => exact (repairs_primary hinner before hsize).mono fun h ↦ h.mono .ofPrimary

omit hinner in
/-- A chain is repaired at an operand, which is the last of the phrase then. -/
theorem repairs_chain {level : Level} {operand : Parser Expr}
    (hread : operand.OnlyReads fun _ tree ↦ Derives (.binary (level.precedence + 1) tree))
    (hoperand : Repairs size operand fun _ row ↦
      Begins (Phrase (Form.binary (level.precedence + 1))) row)
    {rounds : Nat} (hrounds : size < rounds) {left : Expr} {tokens : List Token}
    (hleft : Derives (.binary level.precedence left) tokens) :
    Repairs size (chain level operand rounds left) fun rest row ↦
      Restores (Form.binary level.precedence) (tokens ++ rest) (tokens ++ row) := by
  induction rounds generalizing size left tokens with
  | zero => exact absurd hrounds (Nat.not_lt_zero _)
  | succ rounds ih =>
    intro before hsize
    rw [chain_succ_apply]
    split
    next operator hoperator =>
      obtain ⟨hprecedence, hkind⟩ := Level.op?_eq_some_iff.1 hoperator
      have hne : operator.kind ≠ .eof := fun heof ↦ operator.kind_notMem (by simp [heof])
      refine mends_skip hkind hne fun {token after} htoken hpass ↦ ?_
      have hlength : after.rest.length < size := hpass.length_lt hsize
      have hpos := List.length_pos_iff.2 hleft.expression_ne_nil
      have htwo : 2 ≤ (tokens ++ [token]).length := by
        rw [List.length_append, List.length_singleton]
        omega
      have hafter := hoperand.of_le (Nat.le_of_lt hlength) after (Nat.le_refl _)
      refine Mends.bind hread (hafter.mono fun {rest row} h ↦ ⟨?_, fun others hbegins ↦ ?_⟩) ?_
      · apply h.bind
        rintro others ⟨right, hright⟩
        exact .whole ⟨_, .join hprecedence hleft htoken hright⟩
      · rw [List.append_cons] at hbegins ⊢
        rw [List.append_assoc] at hbegins
        exact hbegins.congr htwo
      intro right others after' hpass' hright
      have hjoin := Derives.join hprecedence hleft htoken hright
      rw [extent_join token hleft.expression_ne_nil hright.expression_ne_nil,
        ← hleft.expression_span, ← hright.expression_span] at hjoin
      have hle : after'.rest.length ≤ after.rest.length := by
        rw [hpass'.rest, List.length_append]
        exact Nat.le_add_left _ _
      have hrest := ih (hoperand.of_le (by omega)) (by omega) hjoin after' (Nat.le_refl _)
      simpa using hrest
    next =>
      intro failure hfailure
      cases hfailure

theorem repairs_binary {levels : List Level} {precedence : Nat} (hle : precedence ≤ 7)
    (hlevels : Level.all.drop precedence = levels) :
    Repairs size (binary inner levels) (Restores (Form.binary precedence)) := by
  induction levels generalizing precedence with
  | nil =>
    have hlength := List.drop_eq_nil_iff.1 hlevels
    exact (repairs_unary hinner).mono fun h ↦ h.mono (.ofUnary (Nat.le_antisymm hle hlength))
  | cons level tighter ih =>
    obtain ⟨hlt, rfl, htighter⟩ := Level.precedence_of_drop hlevels
    have hread := onlyReads_binary hinner.toOnlyReads hlt htighter
    have hrepairs := ih hlt htighter
    refine Repairs.bind hread (hrepairs.mono fun h ↦ h.mono (.ofTighter hlt))
      fun {_ left tokens} hleft before hsize ↦ ?_
    exact repairs_chain hread ((hrepairs.mono And.left).of_le hsize) (Nat.lt_succ_self _)
      (.ofTighter hlt hleft) before (Nat.le_refl _)

theorem repairs_expression :
    Repairs size (Parser.expression inner) (Restores Form.expression) :=
  repairs_binary hinner (Nat.zero_le 7) rfl

end Expressions

end Parser

end ScopeScript
