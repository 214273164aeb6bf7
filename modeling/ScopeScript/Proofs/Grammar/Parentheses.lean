import ScopeScript.Proofs.Grammar.Join
import ScopeScript.Proofs.Tree.Grouping
import ScopeScript.Proofs.Tree.Unplaced

/-!
# Parentheses around a phrase

If a node of a tree is grouped, then parentheses around its tokens give a row with this tree. An
expression may be enclosed wherever it stands, because a group is a primary expression and no token
before an expression or behind it is told apart from a parenthesis: a statement that begins with
one is no definition and closes no block.
-/

namespace ScopeScript.Grammar

/-! ## Rows with parentheses -/

/-- The second row is the first with parentheses around the tokens of the span. -/
inductive Encloses : Span → List Token → List Token → Prop
  | intro (front : List Token) {middle : List Token} (hmiddle : middle ≠ []) (back : List Token) :
      Encloses (extent middle) (front ++ (middle ++ back))
        (front ++ Token.plain (.symbol .leftParen) ::
          (middle ++ Token.plain (.symbol .rightParen) :: back))

namespace Encloses

variable {span : Span} {row row' : List Token}

theorem whole (h : row ≠ []) :
    Encloses (extent row) row
      (Token.plain (.symbol .leftParen) :: (row ++ [Token.plain (.symbol .rightParen)])) := by
  simpa using intro [] h []

theorem behind (h : Encloses span row row') (others : List Token) :
    Encloses span (others ++ row) (others ++ row') := by
  cases h with
  | intro front hmiddle back =>
    simpa using intro (others ++ front) hmiddle back

theorem before (h : Encloses span row row') (others : List Token) :
    Encloses span (row ++ others) (row' ++ others) := by
  cases h with
  | intro front hmiddle back =>
    simpa using intro front hmiddle (back ++ others)

/-- A row with parentheses begins as before, or with the parenthesis. -/
theorem leading_eq (h : Encloses span row row') (next : Kind) :
    leading next row' = leading next row ∨ leading next row' = .symbol .leftParen := by
  cases h with
  | intro front =>
    cases front with
    | nil => exact .inr rfl
    | cons token front => exact .inl rfl

theorem ne_nil (h : Encloses span row row') : row ≠ [] := by
  cases h with
  | intro front hmiddle back => simp [hmiddle]

/-- Parentheses do not make a definition of what was none. -/
theorem beginsDefinition (h : Encloses span row row') (hrow' : BeginsDefinition row') :
    BeginsDefinition row := by
  cases h with
  | intro front hmiddle back =>
    rcases front with _ | ⟨keyword, _ | ⟨name, front⟩⟩
    · cases hrow'.kind_eq
    · cases hrow' with
      | intro _ hname => cases hname
    · cases hrow' with
      | intro hkeyword hname => exact .intro hkeyword hname

end Encloses

/-! ## Grouping in a phrase -/

/-- However a node is grouped, the tokens with parentheses around the node are a phrase of the form that
looks like the tree with the group. -/
def Admits {α β : Type} (view : α → β) (form : α → Form) (groupings : List (Expr × α))
    (row : List Token) : Prop :=
  ∀ node tree, (node, tree) ∈ groupings → ∃ row' tree', Encloses node.span row row' ∧
    view tree' = view tree ∧ Derives (form tree') row'

namespace Admits

variable {α β γ δ σ : Type} {view : α → β} {form : α → Form} {groupings : List (Expr × α)}
  {row : List Token}

theorem nil : Admits view form [] row := fun _ _ h ↦ absurd h List.not_mem_nil

theorem append {others : List (Expr × α)} (h : Admits view form groupings row)
    (hothers : Admits view form others row) : Admits view form (groupings ++ others) row :=
  fun node tree hmem ↦ (List.mem_append.1 hmem).elim (h node tree) (hothers node tree)

theorem subset {others : List (Expr × α)} (h : Admits view form groupings row)
    (hsubset : others ⊆ groupings) : Admits view form others row :=
  fun node tree hmem ↦ h node tree (hsubset hmem)

/-- More tokens around a phrase may make it one of another form. -/
theorem extend {other : α → Form} (h : Admits view form groupings row)
    (extend : List Token → List Token)
    (hextend : ∀ {span row'}, Encloses span row row' → Encloses span (extend row) (extend row'))
    (hother : ∀ {tree row}, Derives (form tree) row → Derives (other tree) (extend row)) :
    Admits view other groupings (extend row) := by
  intro node tree hmem
  obtain ⟨row', tree', hencloses, hview, hderives⟩ := h node tree hmem
  exact ⟨extend row', tree', hextend hencloses, hview, hother hderives⟩

theorem mono {other : α → Form} (h : Admits view form groupings row)
    (hother : ∀ {tree row}, Derives (form tree) row → Derives (other tree) row) :
    Admits view other groupings row :=
  h.extend (fun row ↦ row) (fun h ↦ h) hother

/-- What can be grouped in a part can be grouped in the whole. The whole keeps places that depend on the
tokens. -/
theorem within {view' : γ → δ} {form' : γ → Form} (h : Admits view form groupings row)
    (context : σ → α → γ) (places : σ) (extend : List Token → List Token)
    (hextend : ∀ {span row'}, Encloses span row row' → Encloses span (extend row) (extend row'))
    (hderives : ∀ {span tree row'}, Encloses span row row' → Derives (form tree) row' →
      ∃ places, Derives (form' (context places tree)) (extend row'))
    (hview : ∀ {places places' tree tree'}, view tree = view tree' →
      view' (context places tree) = view' (context places' tree') := by
        intro _ _ _ _ htree; simp [htree]) :
    Admits view' form' (within (context places) groupings) (extend row) := by
  intro node whole hmem
  obtain ⟨tree, htree, rfl⟩ := mem_within.1 hmem
  obtain ⟨row', tree', hencloses, htree', hrow'⟩ := h node tree htree
  obtain ⟨places', hwhole⟩ := hderives hencloses hrow'
  exact ⟨extend row', context places' tree', hextend hencloses, hview htree', hwhole⟩

/-- A group of an expression may stand where the expression does. -/
theorem self {form : Expr → Form} {groupings : List (Expr × Expr)} {tree : Expr}
    (htree : Derives (.expression tree) row)
    (hform : ∀ {tree row}, Derives (.primary tree) row → Derives (form tree) row)
    (h : Admits Expr.unplaced form groupings row) :
    Admits Expr.unplaced form (withSelf tree groupings) row := by
  intro node whole hmem
  rcases mem_withSelf.1 hmem with ⟨rfl, rfl⟩ | hmem
  · have hencloses := Encloses.whole htree.expression_ne_nil
    rw [← htree.expression_span] at hencloses
    exact ⟨_, _, hencloses, by simp, hform (.group rfl htree rfl)⟩
  · exact h node whole hmem

/-- The value of a statement can be enclosed, unless it is not written. -/
theorem written {form : Expr → Form} {value : Expr}
    (h : Admits Expr.unplaced form value.groupings row) (statement : Span) :
    Admits Expr.unplaced form (withWritten statement value value.groupingsBelow) row :=
  h.subset (withWritten_subset statement value _)

theorem primary {groupings : List (Expr × Expr)} {tree : Expr} (htree : Derives (.primary tree) row)
    (h : Admits Expr.unplaced .primary groupings row) :
    Admits Expr.unplaced .primary (withSelf tree groupings) row :=
  h.self (htree.binary_of_primary (Nat.zero_le 7)) fun h ↦ h

end Admits

/-! ## Every phrase -/

/-- Every node of the tree that can be grouped can be enclosed. -/
def Form.AdmitsAll : Form → List Token → Prop
  | .primary tree => Admits Expr.unplaced .primary tree.groupings
  | .unary tree => Admits Expr.unplaced .unary tree.groupings
  | .binary precedence tree => Admits Expr.unplaced (.binary precedence) tree.groupings
  | .items trees => Admits (List.map Expr.unplaced) .items (Expr.groupingsAll trees)
  | .arguments trees => Admits (List.map Expr.unplaced) .arguments (Expr.groupingsAll trees)
  | .functionBody parameters body =>
    Admits (List.map Stmt.unplaced) (.functionBody parameters) (Stmt.groupingsAll body)
  | .statement next tree => Admits Stmt.unplaced (.statement next) tree.groupings
  | .block next trees => Admits (List.map Stmt.unplaced) (.block next) (Stmt.groupingsAll trees)

/-- A block that has statements does not begin with a word that closes it. -/
theorem Derives.not_closes {next : Kind} {trees : List Stmt} {tokens : List Token}
    (h : Derives (.block next trees) tokens) (hne : tokens ≠ []) : ¬Closes (leading next tokens) := by
  cases h with
  | noStatement => exact absurd rfl hne
  | moreStatements htree =>
    obtain ⟨token, others, rfl, hcloses, -⟩ := htree.begins
    exact hcloses

theorem Derives.admitsAll {form : Form} {tokens : List Token} (h : Derives form tokens) :
    form.AdmitsAll tokens := by
  induction h with
  | literal hvalue => exact .primary (.literal hvalue) .nil
  | name htoken => exact .primary (.name htoken) .nil
  | @call token tokens arguments htoken harguments ih =>
    refine .primary (.call htoken harguments) ?_
    exact Admits.within ih (fun span arguments ↦ Expr.call span token.lexeme arguments) _ (token :: ·)
      (fun h ↦ h.behind [token]) fun _ h ↦ ⟨_, .call htoken h⟩
  | @group opening closing tokens inner hopening hinner hclosing ih =>
    refine .primary (.group hopening hinner hclosing) ?_
    exact Admits.within ih (fun span inner ↦ Expr.group span inner) _
      (fun row ↦ opening :: (row ++ [closing])) (fun h ↦ (h.before [closing]).behind [opening])
      fun _ h ↦ ⟨_, .group hopening h hclosing⟩
  | @function keyword heading tokens name parameters body hkeyword hheading hbody ih =>
    refine .primary (.function hkeyword hheading hbody) ?_
    exact Admits.within ih (fun span body ↦ Expr.function span name parameters body) _
      (fun row ↦ keyword :: (heading ++ row)) (fun h ↦ (h.behind heading).behind [keyword])
      fun _ h ↦ ⟨_, .function hkeyword hheading h⟩
  | @operator token tokens operator operand htoken hoperand ih =>
    refine Admits.self ?_ .ofPrimary ?_
    · exact (Derives.ofUnary rfl (.operator htoken hoperand)).loosen (Nat.zero_le _) (Nat.le_refl 7)
    exact Admits.within ih (fun span operand ↦ Expr.unary span operator operand) _ (token :: ·)
      (fun h ↦ h.behind [token]) fun _ h ↦ ⟨_, .operator htoken h⟩
  | ofPrimary _ ih => exact Admits.mono ih .ofPrimary
  | ofUnary hprecedence _ ih => exact Admits.mono ih (.ofUnary hprecedence)
  | ofTighter hprecedence _ ih => exact Admits.mono ih (.ofTighter hprecedence)
  | @join precedence token tokens others operator left right hprecedence hleft htoken hright ih ih' =>
    have hle : precedence ≤ 7 := hprecedence ▸ Nat.le_of_lt operator.precedence_lt
    refine Admits.self ((Derives.join hprecedence hleft htoken hright).loosen (Nat.zero_le _) hle)
      (fun h ↦ h.binary_of_primary hle) (.append ?_ ?_)
    · exact Admits.within ih (fun span left ↦ Expr.binary span operator left right) _
        (fun row ↦ row ++ token :: others) (fun h ↦ h.before (token :: others))
        fun _ h ↦ ⟨_, .join hprecedence h htoken hright⟩
    · exact Admits.within ih' (fun span right ↦ Expr.binary span operator left right) _
        (fun row ↦ tokens ++ token :: row) (fun h ↦ (h.behind [token]).behind tokens)
        fun _ h ↦ ⟨_, .join hprecedence hleft htoken h⟩
  | @lastItem tokens tree htree ih =>
    refine .append ?_ .nil
    exact Admits.within ih (fun (_ : Unit) tree ↦ [tree]) () (fun row ↦ row) (fun h ↦ h)
      fun _ h ↦ ⟨(), .lastItem h⟩
  | @moreItems comma tokens others tree trees htree hcomma htrees ih ih' =>
    refine .append ?_ ?_
    · exact Admits.within ih (fun (_ : Unit) tree ↦ tree :: trees) ()
        (fun row ↦ row ++ comma :: others) (fun h ↦ h.before (comma :: others))
        fun _ h ↦ ⟨(), .moreItems h hcomma htrees⟩
    · exact Admits.within ih' (fun (_ : Unit) trees ↦ tree :: trees) ()
        (fun row ↦ tokens ++ comma :: row) (fun h ↦ (h.behind [comma]).behind tokens)
        fun _ h ↦ ⟨(), .moreItems htree hcomma h⟩
  | noArguments => exact .nil
  | @someArguments opening closing tokens trees hopening htrees hclosing ih =>
    exact Admits.extend ih (fun row ↦ opening :: (row ++ [closing]))
      (fun h ↦ (h.before [closing]).behind [opening]) fun h ↦ .someArguments hopening h hclosing
  | @functionBody keyword tokens others parameters body hparameters hbody hkeyword ih =>
    exact Admits.extend ih (fun row ↦ tokens ++ (row ++ [keyword]))
      (fun h ↦ (h.before [keyword]).behind tokens) fun h ↦ .functionBody hparameters h hkeyword
  | declaration =>
    rw [Form.AdmitsAll, Stmt.groupings, withWritten_implicit]
    exact .nil
  | @definition next keyword name sign tokens ending value hkeyword hname hsign hvalue hending ih =>
    exact Admits.within (.written ih _) (fun span value ↦ Stmt.assign span true name.lexeme value) _
      (fun row ↦ keyword :: name :: sign :: (row ++ ending))
      (fun h ↦ (h.before ending).behind [keyword, name, sign])
      fun _ h ↦ ⟨_, .definition hkeyword hname hsign h hending⟩
  | @assignment next name sign tokens ending value hname hsign hvalue hending ih =>
    exact Admits.within (.written ih _) (fun span value ↦ Stmt.assign span false name.lexeme value) _
      (fun row ↦ name :: sign :: (row ++ ending)) (fun h ↦ (h.before ending).behind [name, sign])
      fun _ h ↦ ⟨_, .assignment hname hsign h hending⟩
  | returnNothing =>
    rw [Form.AdmitsAll, Stmt.groupings, withWritten_implicit]
    exact .nil
  | @returnValue next keyword tokens ending value hkeyword hvalue hending ih =>
    exact Admits.within (.written ih _) (fun span value ↦ Stmt.return_ span value) _
      (fun row ↦ keyword :: (row ++ ending)) (fun h ↦ (h.before ending).behind [keyword])
      fun _ h ↦ ⟨_, .returnValue hkeyword h hending⟩
  | @whileLoop next keyword opening closing tokens others ending condition body hkeyword hcondition
      hopening hbody hclosing hending ih ih' =>
    refine .append ?_ ?_
    · exact Admits.within ih (fun span condition ↦ Stmt.whileLoop span condition body) _
        (fun row ↦ keyword :: (row ++ opening :: (others ++ closing :: ending)))
        (fun h ↦ (h.before (opening :: (others ++ closing :: ending))).behind [keyword])
        fun _ h ↦ ⟨_, .whileLoop hkeyword h hopening hbody hclosing hending⟩
    · exact Admits.within ih' (fun span body ↦ Stmt.whileLoop span condition body) _
        (fun row ↦ keyword :: (tokens ++ opening :: (row ++ closing :: ending)))
        (fun h ↦ (((h.before (closing :: ending)).behind [opening]).behind tokens).behind [keyword])
        fun _ h ↦ ⟨_, .whileLoop hkeyword hcondition hopening h hclosing hending⟩
  | @blockStatement next keyword closing tokens ending body hkeyword hbody hclosing hending ih =>
    exact Admits.within ih (fun span body ↦ Stmt.block span body) _
      (fun row ↦ keyword :: (row ++ closing :: ending))
      (fun h ↦ (h.before (closing :: ending)).behind [keyword])
      fun _ h ↦ ⟨_, .blockStatement hkeyword h hclosing hending⟩
  | @expressionStatement next tokens ending value hvalue hbegin hending ih =>
    exact Admits.within ih (fun span value ↦ Stmt.expr span value) _ (fun row ↦ row ++ ending)
      (fun h ↦ h.before ending) fun hencloses h ↦
        ⟨_, .expressionStatement h (fun hbegin' ↦ hbegin (hencloses.beginsDefinition hbegin')) hending⟩
  | noStatement => exact .nil
  | @forLoop next keyword name sign comma opening closing first last others ending init limit body
      hkeyword hname hsign hinit hcomma hlimit hopening hbody hclosing hending ih₁ ih₂ ih₃ =>
    let behindLast := opening :: (others ++ closing :: ending)
    refine .append (.append (.append ?_ ?_) .nil) ?_
    · exact Admits.within ih₁
        (fun spans init ↦ Stmt.forLoop spans.1 spans.2 name.lexeme init limit none body) (_, _)
        (fun row ↦ keyword :: name :: sign :: (row ++ comma :: (last ++ behindLast)))
        (fun h ↦ (h.before (comma :: (last ++ behindLast))).behind [keyword, name, sign])
        fun _ h ↦ ⟨(_, _), .forLoop hkeyword hname hsign h hcomma hlimit hopening hbody hclosing hending⟩
    · exact Admits.within ih₂
        (fun spans limit ↦ Stmt.forLoop spans.1 spans.2 name.lexeme init limit none body) (_, _)
        (fun row ↦ keyword :: name :: sign :: (first ++ comma :: (row ++ behindLast)))
        (fun h ↦ (((h.before behindLast).behind [comma]).behind first).behind [keyword, name, sign])
        fun _ h ↦ ⟨(_, _), .forLoop hkeyword hname hsign hinit hcomma h hopening hbody hclosing hending⟩
    · exact Admits.within ih₃
        (fun spans body ↦ Stmt.forLoop spans.1 spans.2 name.lexeme init limit none body) (_, _)
        (fun row ↦ keyword :: name :: sign ::
          (first ++ comma :: (last ++ opening :: (row ++ closing :: ending))))
        (fun h ↦ (((((h.before (closing :: ending)).behind [opening]).behind last).behind
          [comma]).behind first).behind [keyword, name, sign])
        fun _ h ↦ ⟨(_, _), .forLoop hkeyword hname hsign hinit hcomma hlimit hopening h hclosing hending⟩
  | @forStepLoop next keyword name sign comma comma' opening closing first last between others ending
      init limit step body hkeyword hname hsign hinit hcomma hlimit hcomma' hstep hopening hbody
      hclosing hending ih₁ ih₂ ih₃ ih₄ =>
    let behindStep := opening :: (others ++ closing :: ending)
    let behindLast := comma' :: (between ++ behindStep)
    refine .append (.append (.append ?_ ?_) ?_) ?_
    · exact Admits.within ih₁
        (fun spans init ↦ Stmt.forLoop spans.1 spans.2 name.lexeme init limit (some step) body) (_, _)
        (fun row ↦ keyword :: name :: sign :: (row ++ comma :: (last ++ behindLast)))
        (fun h ↦ (h.before (comma :: (last ++ behindLast))).behind [keyword, name, sign])
        fun _ h ↦ ⟨(_, _), .forStepLoop hkeyword hname hsign h hcomma hlimit hcomma' hstep hopening
          hbody hclosing hending⟩
    · exact Admits.within ih₂
        (fun spans limit ↦ Stmt.forLoop spans.1 spans.2 name.lexeme init limit (some step) body) (_, _)
        (fun row ↦ keyword :: name :: sign :: (first ++ comma :: (row ++ behindLast)))
        (fun h ↦ (((h.before behindLast).behind [comma]).behind first).behind [keyword, name, sign])
        fun _ h ↦ ⟨(_, _), .forStepLoop hkeyword hname hsign hinit hcomma h hcomma' hstep hopening
          hbody hclosing hending⟩
    · rw [Expr.groupings?, within_within]
      exact Admits.within ih₃
        (fun spans step ↦ Stmt.forLoop spans.1 spans.2 name.lexeme init limit (some step) body) (_, _)
        (fun row ↦ keyword :: name :: sign ::
          (first ++ comma :: (last ++ comma' :: (row ++ behindStep))))
        (fun h ↦ (((((h.before behindStep).behind [comma']).behind last).behind
          [comma]).behind first).behind [keyword, name, sign])
        fun _ h ↦ ⟨(_, _), .forStepLoop hkeyword hname hsign hinit hcomma hlimit hcomma' h hopening
          hbody hclosing hending⟩
    · exact Admits.within ih₄
        (fun spans body ↦ Stmt.forLoop spans.1 spans.2 name.lexeme init limit (some step) body) (_, _)
        (fun row ↦ keyword :: name :: sign ::
          (first ++ comma :: (last ++ comma' :: (between ++ opening :: (row ++ closing :: ending)))))
        (fun h ↦ (((((((h.before (closing :: ending)).behind [opening]).behind between).behind
          [comma']).behind last).behind [comma]).behind first).behind [keyword, name, sign])
        fun _ h ↦ ⟨(_, _), .forStepLoop hkeyword hname hsign hinit hcomma hlimit hcomma' hstep hopening
          h hclosing hending⟩
  | @functionDefinition next keyword name tokens ending parameters body hkeyword hname hbody hending
      ih =>
    -- the function begins with the statement, so that only what is in its body can be grouped
    have hstart : (extent (keyword :: name :: tokens)).start =
        (extent (keyword :: name :: (tokens ++ ending))).start := rfl
    rw [Form.AdmitsAll, Stmt.groupings, withWritten_definition hstart, Expr.groupingsBelow,
      within_within]
    exact Admits.within ih (fun spans body ↦ Stmt.assign spans.1 false name.lexeme
        (.function spans.2 (some name.lexeme) parameters body)) (_, _)
      (fun row ↦ keyword :: name :: (row ++ ending)) (fun h ↦ (h.before ending).behind [keyword, name])
      fun _ h ↦ ⟨(_, _), .functionDefinition hkeyword hname h hending⟩
  | @ifElse next keyword opening middle closing tokens thens elses ending condition thenBody elseBody
      hkeyword hcondition hopening hthen hmiddle helse hclosing hending ih₁ ih₂ ih₃ =>
    let behindThen := middle :: (elses ++ closing :: ending)
    refine .append (.append ?_ ?_) ?_
    · exact Admits.within ih₁ (fun span condition ↦ Stmt.ifElse span condition thenBody elseBody) _
        (fun row ↦ keyword :: (row ++ opening :: (thens ++ behindThen)))
        (fun h ↦ (h.before (opening :: (thens ++ behindThen))).behind [keyword])
        fun _ h ↦ ⟨_, .ifElse hkeyword h hopening hthen hmiddle helse hclosing hending⟩
    · exact Admits.within ih₂ (fun span thenBody ↦ Stmt.ifElse span condition thenBody elseBody) _
        (fun row ↦ keyword :: (tokens ++ opening :: (row ++ behindThen)))
        (fun h ↦ (((h.before behindThen).behind [opening]).behind tokens).behind [keyword])
        fun _ h ↦ ⟨_, .ifElse hkeyword hcondition hopening h hmiddle helse hclosing hending⟩
    · exact Admits.within ih₃ (fun span elseBody ↦ Stmt.ifElse span condition thenBody elseBody) _
        (fun row ↦ keyword :: (tokens ++ opening :: (thens ++ middle :: (row ++ closing :: ending))))
        (fun h ↦ (((((h.before (closing :: ending)).behind [middle]).behind thens).behind
          [opening]).behind tokens).behind [keyword])
        fun _ h ↦ ⟨_, .ifElse hkeyword hcondition hopening hthen hmiddle h hclosing hending⟩
  | @moreStatements next tokens others tree trees htree htrees ih ih' =>
    refine .append ?_ ?_
    · exact Admits.within ih (fun (_ : Unit) tree ↦ tree :: trees) () (fun row ↦ row ++ others)
        (fun h ↦ h.before others) fun _ h ↦ ⟨(), .moreStatements h htrees⟩
    · -- the first statement is told that another token follows, but neither of the two closes it
      exact Admits.within ih' (fun (_ : Unit) trees ↦ tree :: trees) () (fun row ↦ tokens ++ row)
        (fun h ↦ h.behind tokens) fun hencloses h ↦
          ⟨(), .moreStatements (htree.statement_next fun _ _ hending ↦
            hending.of_closes fun hcloses ↦ absurd hcloses (htrees.not_closes hencloses.ne_nil)) h⟩

/-! ## Programs -/

/-- The tokens of a node that can be grouped can be enclosed, and give the program with the group. -/
theorem IsProgram.exists_grouped {tokens : List Token} {program grouped : Program} {node : Expr}
    (h : IsProgram tokens program) (hnode : (node, grouped) ∈ program.groupings) :
    ∃ tokens' other, Encloses node.span tokens tokens' ∧
      other.map Stmt.unplaced = grouped.map Stmt.unplaced ∧ IsProgram tokens' other :=
  h.admitsAll node grouped hnode

end ScopeScript.Grammar
