import ScopeScript.Proofs.Grammar.Repair.Expression

/-!
# Repairing statements

A statement that fails lacks a name, a sign, an expression, a word that opens or closes a block, or the
semicolon at its end; behind each of them the rest of the statement can be written.
-/

namespace ScopeScript

open Grammar

namespace Parser

variable {good : List Token → List Token → Prop} {size : Nat}

theorem repairs_ending (start : Nat) (make : Span → Stmt)
    (hgood : ∀ {rest token}, token.kind = .symbol .semicolon → good rest [token]) :
    Repairs size (do terminator; return make (← spanFrom start)) good := by
  have hterminator : Repairs size terminator good := by
    intro before _ failure hfailure
    rw [terminator_apply] at hfailure
    split at hfailure
    · cases hfailure
    split at hfailure
    · cases hfailure
    cases hfailure
    exact ⟨_, [], before.rest, rfl, rfl, by decide, fun token htoken ↦ hgood htoken⟩
  exact Repairs.bind onlyReads_terminator hterminator fun _ ↦ IsTotal.repairs fun _ ↦ ⟨_, rfl⟩

theorem isTotal_ending (start : Nat) (make : Span → Stmt) :
    IsTotal (do optionalTerminator; return make (← spanFrom start)) := by
  intro before
  obtain ⟨⟨found, after⟩, hfound⟩ := isTotal_skipIf (.symbol .semicolon) before
  simp only [optionalTerminator, bind_apply, hfound]
  exact ⟨_, rfl⟩

theorem isBlock_nil : IsBlock [] := fun _ _ ↦ ⟨[], .noStatement⟩

theorem phrase_nil : Phrase Form.expression [Token.plain (.keyword .nil)] := by
  have hdenotes : Denotes (Token.plain (.keyword .nil)) .nil := .carried (by decide) rfl
  exact ⟨_, (Derives.literal hdenotes).binary_of_primary (Nat.zero_le 7)⟩

section Statements

variable {inner : Inner} (hinner : inner.RepairsBelow size) (start : Nat) {before : Cursor}
include hinner

theorem repairs_value {count : Nat} (hcount : count < size) :
    Repairs count (Parser.expression inner) fun _ row ↦ Begins (Phrase Form.expression) row :=
  ((repairs_expression hinner).of_le (Nat.le_of_lt hcount)).mono And.left

/-- The last block of a statement is repaired, and so is the word that closes it. -/
theorem repairs_enclosed {count : Nat} (hcount : count < size) {context : List Token → List Token}
    {make : List Stmt → Span → Stmt}
    (hwhole : ∀ {others closing}, IsBlock others → closing.kind = .keyword .end_ →
      IsStatement (context (others ++ [closing])))
    (hcontext : ∀ row others, context (row ++ others) = context row ++ others := by simp) :
    Repairs count
      (do
        let body ← inner.block
        let _ ← expect (.keyword .end_)
        optionalTerminator
        return make body (← spanFrom start))
      fun _ row ↦ Begins IsStatement (context row) := by
  have hclosed : ∀ {others}, IsBlock others → Begins IsStatement (context others) :=
    fun {others} hothers ↦ .more (.keyword .end_) (by decide)
      (.whole (hcontext others _ ▸ hwhole hothers rfl))
  refine Repairs.bind hinner.closed ((hinner.repairs_block hcount).mono fun h ↦
    h.bind hclosed hcontext) fun {_ body others} hothers ↦ ?_
  exact Repairs.expect (by decide) (fun hclosing ↦ .whole (hwhole hothers hclosing))
    fun _ ↦ (isTotal_ending start (make body)).repairs

theorem repairs_blockStatement (hkind : before.kind = .keyword .do_)
    (hsize : before.rest.length ≤ size) :
    Mends (fun _ row ↦ Begins IsStatement row) before (blockStatement inner start before) := by
  refine mends_skip hkind (by decide) fun {keyword after} hkeyword hpass ↦ ?_
  refine (repairs_enclosed hinner start (hpass.length_lt hsize) ?_) after (Nat.le_refl _)
  intro others closing hothers hclosing next
  obtain ⟨body, hbody⟩ := hothers (.keyword .end_) (.inl rfl)
  exact ⟨_, .blockStatement hkeyword hbody hclosing .omitted⟩

theorem repairs_whileStatement (hkind : before.kind = .keyword .while_)
    (hsize : before.rest.length ≤ size) :
    Mends (fun _ row ↦ Begins IsStatement row) before (whileStatement inner start before) := by
  refine mends_skip hkind (by decide) fun {keyword after} hkeyword hpass ↦ ?_
  have hcount := hpass.length_lt hsize
  have hwhole : ∀ {tokens opening others closing}, Phrase Form.expression tokens →
      opening.kind = .keyword .do_ → IsBlock others → closing.kind = .keyword .end_ →
      IsStatement (keyword :: (tokens ++ opening :: (others ++ [closing]))) := by
    rintro tokens opening others closing ⟨condition, hcondition⟩ hopening hothers hclosing next
    obtain ⟨body, hbody⟩ := hothers (.keyword .end_) (.inl rfl)
    exact ⟨_, .whileLoop hkeyword hcondition hopening hbody hclosing .omitted⟩
  have hopened : ∀ {tokens opening}, Phrase Form.expression tokens →
      opening.kind = .keyword .do_ → Begins IsStatement (keyword :: (tokens ++ [opening])) :=
    fun htokens hopening ↦ .more (.keyword .end_) (by decide)
      (.whole (by simpa using hwhole htokens hopening isBlock_nil rfl))
  refine Repairs.bind (onlyReads_expression hinner.toOnlyReads)
    ((repairs_value hinner hcount).mono fun h ↦ h.bind fun htokens ↦
      .more (.keyword .do_) (by decide) (hopened htokens rfl))
    (fun {_ _ tokens} htree ↦ ?_) after (Nat.le_refl _)
  refine Repairs.expect (by decide) (fun hopening ↦ hopened ⟨_, htree⟩ hopening)
    fun {opening} hopening ↦ ?_
  exact repairs_enclosed hinner start hcount (hwhole ⟨_, htree⟩ hopening)

theorem repairs_ifStatement (hkind : before.kind = .keyword .if_)
    (hsize : before.rest.length ≤ size) :
    Mends (fun _ row ↦ Begins IsStatement row) before (ifStatement inner start before) := by
  refine mends_skip hkind (by decide) fun {keyword after} hkeyword hpass ↦ ?_
  have hcount := hpass.length_lt hsize
  have hwhole : ∀ {tokens opening thens middle elses closing}, Phrase Form.expression tokens →
      opening.kind = .keyword .then_ → IsBlock thens → middle.kind = .keyword .else_ →
      IsBlock elses → closing.kind = .keyword .end_ →
      IsStatement (keyword :: (tokens ++ opening :: (thens ++ middle :: (elses ++ [closing])))) := by
    rintro tokens opening thens middle elses closing ⟨condition, hcondition⟩ hopening hthens hmiddle
      helses hclosing next
    obtain ⟨thenBody, hthen⟩ := hthens (.keyword .else_) (.inr (.inl rfl))
    obtain ⟨elseBody, helse⟩ := helses (.keyword .end_) (.inl rfl)
    exact ⟨_, .ifElse hkeyword hcondition hopening hthen hmiddle helse hclosing .omitted⟩
  have hhalf : ∀ {tokens opening thens middle}, Phrase Form.expression tokens →
      opening.kind = .keyword .then_ → IsBlock thens → middle.kind = .keyword .else_ →
      Begins IsStatement (keyword :: (tokens ++ opening :: (thens ++ [middle]))) :=
    fun htokens hopening hthens hmiddle ↦ .more (.keyword .end_) (by decide)
      (.whole (by simpa using hwhole htokens hopening hthens hmiddle isBlock_nil rfl))
  have hopened : ∀ {tokens opening thens}, Phrase Form.expression tokens →
      opening.kind = .keyword .then_ → IsBlock thens →
      Begins IsStatement (keyword :: (tokens ++ opening :: thens)) :=
    fun htokens hopening hthens ↦ .more (.keyword .else_) (by decide)
      (by simpa using hhalf htokens hopening hthens rfl)
  refine Repairs.bind (onlyReads_expression hinner.toOnlyReads)
    ((repairs_value hinner hcount).mono fun h ↦ h.bind fun htokens ↦
      .more (.keyword .then_) (by decide) (hopened htokens rfl isBlock_nil))
    (fun {_ _ tokens} htree ↦ ?_) after (Nat.le_refl _)
  refine Repairs.expect (by decide) (fun hopening ↦ hopened ⟨_, htree⟩ hopening isBlock_nil)
    fun {opening} hopening ↦ ?_
  refine Repairs.bind hinner.closed ((hinner.repairs_block hcount).mono fun h ↦
    h.bind fun hthens ↦ hopened ⟨_, htree⟩ hopening hthens) fun {_ _ thens} hthens ↦ ?_
  refine Repairs.expect (by decide) (fun hmiddle ↦ hhalf ⟨_, htree⟩ hopening hthens hmiddle)
    fun {middle} hmiddle ↦ ?_
  exact repairs_enclosed hinner start hcount (hwhole ⟨_, htree⟩ hopening hthens hmiddle)

/-- The tokens are the step of a counting loop with its comma, or nothing. -/
def IsStep (tokens : List Token) : Prop :=
  tokens = [] ∨ ∃ comma between, comma.kind = .symbol .comma ∧ Phrase Form.expression between ∧
    tokens = comma :: between

theorem onlyReads_loopStep : (loopStep inner).OnlyReads fun _ _ tokens ↦ IsStep tokens := by
  intro before after step h
  simp only [loopStep, bind_eq_ok] at h
  obtain ⟨found, middle, hfound, hstep⟩ := h
  rcases (skipIf_eq_ok (by decide)).1 hfound with ⟨rfl, comma, hcomma, hpass⟩ | ⟨rfl, -, rfl⟩
  · simp only [if_true, bind_eq_ok, pure_eq_ok] at hstep
    obtain ⟨step, _, hstep, -, rfl⟩ := hstep
    obtain ⟨between, hpass', htree⟩ := onlyReads_expression hinner.toOnlyReads hstep
    exact ⟨comma :: between, hpass.append hpass', .inr ⟨comma, between, hcomma, ⟨_, htree⟩, rfl⟩⟩
  · simp only [Bool.false_eq_true, if_false, pure_eq_ok] at hstep
    obtain ⟨-, rfl⟩ := hstep
    exact ⟨[], before.passes_nil, .inl rfl⟩

theorem repairs_loopStep {count : Nat} (hcount : count < size) :
    Repairs count (loopStep inner) fun _ row ↦ Begins IsStep row := by
  refine Repairs.skipIf (by decide) (fun {comma} hcomma ↦ ?_) (IsTotal.repairs fun _ ↦ ⟨_, rfl⟩)
  refine Repairs.bind (onlyReads_expression hinner.toOnlyReads)
    ((repairs_value hinner hcount).mono fun h ↦ h.bind fun {between} hbetween ↦ ?_)
    fun _ ↦ IsTotal.repairs fun _ ↦ ⟨_, rfl⟩
  exact .whole (.inr ⟨comma, between, hcomma, hbetween, rfl⟩)

theorem repairs_forStatement (hkind : before.kind = .keyword .for_)
    (hsize : before.rest.length ≤ size) :
    Mends (fun _ row ↦ Begins IsStatement row) before (forStatement inner start before) := by
  refine mends_skip hkind (by decide) fun {keyword after} hkeyword hpass ↦ ?_
  have hcount := hpass.length_lt hsize
  have hwhole : ∀ {name sign first comma last between opening others closing},
      name.kind = .identifier → sign.kind = .symbol .assign → Phrase Form.expression first →
      comma.kind = .symbol .comma → Phrase Form.expression last → IsStep between →
      opening.kind = .keyword .do_ → IsBlock others → closing.kind = .keyword .end_ →
      IsStatement (keyword :: name :: sign ::
        (first ++ comma :: (last ++ (between ++ opening :: (others ++ [closing]))))) := by
    rintro name sign first comma last between opening others closing hname hsign ⟨init, hinit⟩ hcomma
      ⟨limit, hlimit⟩ hbetween hopening hothers hclosing next
    obtain ⟨body, hbody⟩ := hothers (.keyword .end_) (.inl rfl)
    rcases hbetween with rfl | ⟨comma', between, hcomma', ⟨step, hstep⟩, rfl⟩
    · exact ⟨_, .forLoop hkeyword hname hsign hinit hcomma hlimit hopening hbody hclosing .omitted⟩
    · exact ⟨_, .forStepLoop hkeyword hname hsign hinit hcomma hlimit hcomma' hstep hopening hbody
        hclosing .omitted⟩
  have hopened : ∀ {name sign first comma last between opening}, name.kind = .identifier →
      sign.kind = .symbol .assign → Phrase Form.expression first → comma.kind = .symbol .comma →
      Phrase Form.expression last → IsStep between → opening.kind = .keyword .do_ →
      Begins IsStatement
        (keyword :: name :: sign :: (first ++ comma :: (last ++ (between ++ [opening])))) :=
    fun hname hsign hfirst hcomma hlast hbetween hopening ↦ .more (.keyword .end_) (by decide)
      (.whole (by
        simpa using hwhole hname hsign hfirst hcomma hlast hbetween hopening isBlock_nil rfl))
  have hstepped : ∀ {name sign first comma last between}, name.kind = .identifier →
      sign.kind = .symbol .assign → Phrase Form.expression first → comma.kind = .symbol .comma →
      Phrase Form.expression last → IsStep between →
      Begins IsStatement (keyword :: name :: sign :: (first ++ comma :: (last ++ between))) :=
    fun hname hsign hfirst hcomma hlast hbetween ↦ .more (.keyword .do_) (by decide)
      (by simpa using hopened hname hsign hfirst hcomma hlast hbetween rfl)
  have hlimited : ∀ {name sign first comma last}, name.kind = .identifier →
      sign.kind = .symbol .assign → Phrase Form.expression first → comma.kind = .symbol .comma →
      Phrase Form.expression last →
      Begins IsStatement (keyword :: name :: sign :: (first ++ comma :: last)) :=
    fun hname hsign hfirst hcomma hlast ↦ by
      simpa using hstepped hname hsign hfirst hcomma hlast (.inl rfl)
  have hparted : ∀ {name sign first comma}, name.kind = .identifier →
      sign.kind = .symbol .assign → Phrase Form.expression first → comma.kind = .symbol .comma →
      Begins IsStatement (keyword :: name :: sign :: (first ++ [comma])) :=
    fun hname hsign hfirst hcomma ↦ .more (.keyword .nil) (by decide)
      (by simpa using hlimited hname hsign hfirst hcomma phrase_nil)
  have hstarted : ∀ {name sign first}, name.kind = .identifier → sign.kind = .symbol .assign →
      Phrase Form.expression first → Begins IsStatement (keyword :: name :: sign :: first) :=
    fun hname hsign hfirst ↦ .more (.symbol .comma) (by decide) (hparted hname hsign hfirst rfl)
  have hassigned : ∀ {name sign}, name.kind = .identifier → sign.kind = .symbol .assign →
      Begins IsStatement [keyword, name, sign] :=
    fun hname hsign ↦ .more (.keyword .nil) (by decide) (hstarted hname hsign phrase_nil)
  refine Repairs.look (fun initStart ↦ ?_) after (Nat.le_refl _)
  refine Repairs.identifier
    (fun hname ↦ .more (.symbol .assign) (by decide) (hassigned hname rfl)) fun {name} hname ↦ ?_
  refine Repairs.expect (by decide) (fun hsign ↦ hassigned hname hsign) fun {sign} hsign ↦ ?_
  refine Repairs.bind (onlyReads_expression hinner.toOnlyReads) ((repairs_value hinner hcount).mono
    fun h ↦ h.bind fun hfirst ↦ hstarted hname hsign hfirst) fun {_ _ first} hinit ↦ ?_
  refine Repairs.look fun initSpan ↦ ?_
  refine Repairs.expect (by decide) (fun hcomma ↦ hparted hname hsign ⟨_, hinit⟩ hcomma)
    fun {comma} hcomma ↦ ?_
  refine Repairs.bind (onlyReads_expression hinner.toOnlyReads) ((repairs_value hinner hcount).mono
    fun h ↦ h.bind fun hlast ↦ hlimited hname hsign ⟨_, hinit⟩ hcomma hlast)
    fun {_ _ last} hlimit ↦ ?_
  refine Repairs.bind (onlyReads_loopStep hinner) ((repairs_loopStep hinner hcount).mono
    fun h ↦ h.bind fun hstep ↦ hstepped hname hsign ⟨_, hinit⟩ hcomma ⟨_, hlimit⟩ hstep)
    fun {_ _ between} hstep ↦ ?_
  refine Repairs.expect (by decide)
    (fun hopening ↦ hopened hname hsign ⟨_, hinit⟩ hcomma ⟨_, hlimit⟩ hstep hopening)
    fun {opening} hopening ↦ ?_
  exact repairs_enclosed hinner start hcount
    (hwhole hname hsign ⟨_, hinit⟩ hcomma ⟨_, hlimit⟩ hstep hopening)

theorem repairs_functionStatement (hkind : before.kind = .keyword .function)
    (hsize : before.rest.length ≤ size) :
    Mends (fun _ row ↦ Begins IsStatement row) before (functionStatement inner start before) := by
  refine mends_skip hkind (by decide) fun {keyword after} hkeyword hpass ↦ ?_
  have hwhole : ∀ {name tokens}, name.kind = .identifier →
      (∃ parameters body, Derives (.functionBody parameters body) tokens) →
      IsStatement (keyword :: name :: tokens) := by
    rintro name tokens hname ⟨parameters, body, hbody⟩ next
    have hstatement : Derives (.statement next _) (keyword :: name :: (tokens ++ [])) :=
      .functionDefinition hkeyword hname hbody .omitted
    rw [List.append_nil] at hstatement
    exact ⟨_, hstatement⟩
  have hnamed : ∀ {name}, name.kind = .identifier → Begins IsStatement [keyword, name] := by
    intro name hname
    have hbody : Derives (.functionBody [] [])
        [Token.plain (.symbol .leftParen), .plain (.symbol .rightParen), .plain (.keyword .end_)] :=
      .functionBody (.none rfl rfl) .noStatement rfl
    exact .more (.symbol .leftParen) (by decide) (.more (.symbol .rightParen) (by decide)
      (.more (.keyword .end_) (by decide) (.whole (hwhole hname ⟨_, _, hbody⟩))))
  refine Repairs.identifier (fun hname ↦ hnamed hname) (fun {name} hname ↦ ?_) after (Nat.le_refl _)
  have hbody := repairs_functionBody hinner (hpass.length_lt hsize)
  refine Repairs.bind (onlyReads_functionBody hinner.toOnlyReads)
    (hbody.mono fun h ↦ h.1.bind fun h ↦ .whole (hwhole hname h)) fun _ ↦ ?_
  exact Repairs.look fun _ ↦ (isTotal_ending start _).repairs

theorem repairs_localStatement (hkind : before.kind = .keyword .local_)
    (hsize : before.rest.length ≤ size) :
    Mends (fun _ row ↦ Begins IsStatement row) before (localStatement inner start before) := by
  refine mends_skip hkind (by decide) fun {keyword after} hkeyword hpass ↦ ?_
  have hdeclared : ∀ {name ending}, name.kind = .identifier → ending.kind = .symbol .semicolon →
      IsStatement [keyword, name, ending] :=
    fun hname hending next ↦ ⟨_, .declaration hkeyword hname (.semicolon hending)⟩
  have hdefined : ∀ {name sign tokens ending}, name.kind = .identifier →
      sign.kind = .symbol .assign → Phrase Form.expression tokens →
      ending.kind = .symbol .semicolon →
      IsStatement (keyword :: name :: sign :: (tokens ++ [ending])) := by
    rintro name sign tokens ending hname hsign ⟨value, hvalue⟩ hending next
    exact ⟨_, .definition hkeyword hname hsign hvalue (.semicolon hending)⟩
  have hvalued : ∀ {name sign tokens}, name.kind = .identifier → sign.kind = .symbol .assign →
      Phrase Form.expression tokens → Begins IsStatement (keyword :: name :: sign :: tokens) :=
    fun hname hsign htokens ↦ .more (.symbol .semicolon) (by decide)
      (.whole (hdefined hname hsign htokens rfl))
  refine Repairs.identifier
    (fun hname ↦ .more (.symbol .semicolon) (by decide) (.whole (hdeclared hname rfl)))
    (fun {name} hname ↦ ?_) after (Nat.le_refl _)
  refine Repairs.skipIf (by decide) (fun {sign} hsign ↦ ?_) ?_
  · refine Repairs.bind (onlyReads_expression hinner.toOnlyReads)
      ((repairs_value hinner (hpass.length_lt hsize)).mono fun h ↦
        h.bind fun htokens ↦ hvalued hname hsign htokens) fun {_ _ tokens} hvalue ↦ ?_
    exact repairs_ending start _ fun hending ↦ .whole (hdefined hname hsign ⟨_, hvalue⟩ hending)
  · refine Repairs.look fun _ ↦ ?_
    exact repairs_ending start _ fun hending ↦ .whole (hdeclared hname hending)

theorem repairs_assignment (hkind : before.kind = .identifier)
    (hafter : before.kindAfter = .symbol .assign) (hsize : before.rest.length ≤ size) :
    Mends (fun _ row ↦ Begins IsStatement row) before (assignment inner start before) := by
  refine mends_identifier hkind fun {name middle} hname hpass ↦ ?_
  refine mends_skip (hpass.kindAfter_eq.symm.trans hafter) (by decide) fun {sign after} hsign hpass' ↦ ?_
  have hwhole : ∀ {tokens ending}, Phrase Form.expression tokens →
      ending.kind = .symbol .semicolon → IsStatement (name :: sign :: (tokens ++ [ending])) := by
    rintro tokens ending ⟨value, hvalue⟩ hending next
    exact ⟨_, .assignment hname hsign hvalue (.semicolon hending)⟩
  have hvalued : ∀ {tokens}, Phrase Form.expression tokens →
      Begins IsStatement (name :: sign :: tokens) :=
    fun htokens ↦ .more (.symbol .semicolon) (by decide) (.whole (hwhole htokens rfl))
  have hcount : after.rest.length < size := hpass'.length_lt (Nat.le_of_lt (hpass.length_lt hsize))
  refine Repairs.bind (onlyReads_expression hinner.toOnlyReads)
    ((repairs_value hinner hcount).mono fun h ↦ ?_) (fun {_ _ tokens} hvalue ↦ ?_) after
    (Nat.le_refl _)
  · apply h.bind
    exact hvalued
  exact repairs_ending start _ fun hending ↦ .whole (hwhole ⟨_, hvalue⟩ hending)

theorem repairs_returnStatement (hkind : before.kind = .keyword .return_)
    (hsize : before.rest.length ≤ size) :
    Mends (fun _ row ↦ Begins IsStatement row) before (returnStatement inner start before) := by
  refine mends_skip hkind (by decide) fun {keyword after} hkeyword hpass ↦ ?_
  have hwhole : ∀ {tokens ending}, Phrase Form.expression tokens →
      ending.kind = .symbol .semicolon → IsStatement (keyword :: (tokens ++ [ending])) := by
    rintro tokens ending ⟨value, hvalue⟩ hending next
    exact ⟨_, .returnValue hkeyword hvalue (.semicolon hending)⟩
  refine Repairs.look (fun kind ↦ ?_) after (Nat.le_refl _)
  split
  · refine Repairs.look fun _ ↦ repairs_ending start _ fun hending ↦ .whole fun next ↦ ?_
    exact ⟨_, .returnNothing hkeyword (.semicolon hending)⟩
  · refine Repairs.bind (onlyReads_expression hinner.toOnlyReads)
      ((repairs_value hinner (hpass.length_lt hsize)).mono fun h ↦ h.bind fun htokens ↦
        .more (.symbol .semicolon) (by decide) (.whole (hwhole htokens rfl)))
      fun {_ _ tokens} hvalue ↦ ?_
    exact repairs_ending start _ fun hending ↦ .whole (hwhole ⟨_, hvalue⟩ hending)

theorem repairs_expressionStatement (hbegin : ¬BeginsDefinition before.rest)
    (hsize : before.rest.length ≤ size) :
    Mends (fun _ row ↦ Begins IsStatement row) before (expressionStatement inner start before) := by
  have hwhole : ∀ {tokens ending}, Phrase Form.expression tokens → ¬BeginsDefinition tokens →
      ending.kind = .symbol .semicolon → IsStatement (tokens ++ [ending]) := by
    rintro tokens ending ⟨value, hvalue⟩ hbegin hending next
    exact ⟨_, .expressionStatement hvalue hbegin (.semicolon hending)⟩
  have hexpression : Mends (fun _ row ↦ Begins IsStatement row) before
      (Parser.expression inner before) := by
    intro failure hfailure
    obtain ⟨expectation, passed, rest, hunmet, hrest, hne, hgood⟩ :=
      repairs_expression hinner before hsize hfailure
    refine ⟨expectation, passed, rest, hunmet, hrest, hne, fun token htoken ↦ ?_⟩
    obtain ⟨hrow, hdefinition⟩ := hgood token htoken
    apply hrow.extending.trans
    rintro _ ⟨htokens, others, rfl⟩
    refine .more (.symbol .semicolon) (by decide) (.whole (hwhole htokens ?_ rfl))
    exact fun h ↦ hbegin (hdefinition others h)
  refine hexpression.bind (onlyReads_expression hinner.toOnlyReads)
    fun {_ tokens after} hpass hvalue ↦ ?_
  have hfree : ¬BeginsDefinition tokens := by
    intro h
    cases h with
    | intro hkeyword hname => exact hbegin (hpass.rest ▸ .intro hkeyword hname)
  exact repairs_ending start _ (fun hending ↦ .whole (hwhole ⟨_, hvalue⟩ hfree hending)) after
    (Nat.le_refl _)

theorem repairs_statement :
    Repairs size (statement inner) fun _ row ↦ Begins IsStatement row := by
  intro before hsize
  rw [statement_apply]
  split
  next hkind => exact repairs_localStatement hinner _ hkind hsize
  next hkind hafter => exact repairs_assignment hinner _ hkind hafter hsize
  next hkind => exact repairs_returnStatement hinner _ hkind hsize
  next hkind => exact repairs_whileStatement hinner _ hkind hsize
  next hkind => exact repairs_forStatement hinner _ hkind hsize
  next hkind _ => exact repairs_functionStatement hinner _ hkind hsize
  next hkind => exact repairs_ifStatement hinner _ hkind hsize
  next hkind => exact repairs_blockStatement hinner _ hkind hsize
  next hfunction =>
    refine repairs_expressionStatement hinner _ (fun hbegin ↦ ?_) hsize
    obtain ⟨rest, behind⟩ := before
    cases hbegin with
    | intro hkeyword hname => exact hfunction hkeyword hname

end Statements

end Parser

end ScopeScript
