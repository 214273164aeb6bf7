import ScopeScript.Proofs.Grammar.Completeness
import ScopeScript.Proofs.Grammar.Moved
import ScopeScript.Proofs.Lexical.Newline

/-!
# Programs behind one another

The statements of a program may be followed by others if the last of them is closed by a semicolon.
Whatever it was told of the token behind it, such a statement is derived before any other, because
no expression ends in a semicolon. The other program stands further down in the text.
-/

namespace ScopeScript

namespace Grammar

/-! ## Statements that are closed -/

/-- The tokens end in one that is no semicolon. -/
def EndsOpen (tokens : List Token) : Prop :=
  ∃ front last, tokens = front ++ [last] ∧ last.kind ≠ .symbol .semicolon

theorem endsOpen_singleton {token : Token} (h : token.kind ≠ .symbol .semicolon) :
    EndsOpen [token] :=
  ⟨[], token, rfl, h⟩

theorem EndsOpen.append {tokens : List Token} (h : EndsOpen tokens) (others : List Token) :
    EndsOpen (others ++ tokens) := by
  obtain ⟨front, last, rfl, hlast⟩ := h
  exact ⟨others ++ front, last, (List.append_assoc _ _ _).symm, hlast⟩

theorem EndsOpen.cons {tokens : List Token} (h : EndsOpen tokens) (token : Token) :
    EndsOpen (token :: tokens) :=
  h.append [token]

/-- The forms of which no phrase ends in a semicolon. -/
def Form.EndsOpen : Form → List Token → Prop
  | .statement _ _, _ | .block _ _, _ => True
  | _, tokens => Grammar.EndsOpen tokens

theorem Derives.endsOpen {form : Form} {tokens : List Token} (h : Derives form tokens) :
    form.EndsOpen tokens := by
  induction h with
  | literal hvalue =>
    refine endsOpen_singleton fun hkind ↦ ?_
    have hmem := hvalue.kind_mem
    simp [hkind] at hmem
  | name htoken => exact endsOpen_singleton (by simp [htoken])
  | call _ _ ih | operator _ _ ih => exact ih.cons _
  | group _ _ hclosing | someArguments _ _ hclosing =>
    exact ((endsOpen_singleton (by simp [hclosing])).append _).cons _
  | function _ _ _ ih => exact (ih.append _).cons _
  | ofPrimary _ ih | ofUnary _ _ ih | ofTighter _ _ ih | lastItem _ ih => exact ih
  | join _ _ _ _ _ ih | moreItems _ _ _ _ ih => exact (ih.cons _).append _
  | noArguments _ hclosing => exact (endsOpen_singleton (by simp [hclosing])).cons _
  | functionBody _ _ hkeyword =>
    exact ((endsOpen_singleton (by simp [hkeyword])).append _).append _
  | _ => trivial

/-- The tokens are none, or the last of them is a semicolon. -/
def Closed (tokens : List Token) : Prop :=
  ∀ token ∈ tokens.getLast?, token.kind = .symbol .semicolon

theorem EndsOpen.not_closed {tokens : List Token} (h : EndsOpen tokens) : ¬Closed tokens := by
  obtain ⟨front, last, rfl, hlast⟩ := h
  intro hclosed
  exact hlast (hclosed last (by simp))

theorem Closed.of_append {tokens others : List Token} (h : Closed (tokens ++ others)) :
    Closed others := by
  intro token htoken
  refine h token ?_
  rw [List.getLast?_append, Option.mem_def.1 htoken]
  rfl

/-- Behind tokens that end open, the end of a closed statement is a semicolon. -/
theorem Terminator.of_closed {next : Kind} {tokens ending : List Token} (h : Terminator next ending)
    (hopen : EndsOpen tokens) (hclosed : Closed (tokens ++ ending)) (other : Kind) :
    Terminator other ending := by
  cases h with
  | semicolon htoken => exact .semicolon htoken
  | omitted => exact absurd (List.append_nil tokens ▸ hclosed) hopen.not_closed

theorem Terminator.of_closes {next other : Kind} {ending : List Token} (h : Terminator next ending)
    (hother : Closes next → Closes other) : Terminator other ending := by
  cases h with
  | semicolon htoken => exact .semicolon htoken
  | omitted hnext => exact .omitted (hother hnext)

/-- A statement may be followed by something else if its end allows it. What stands before the end is
no semicolon. -/
theorem Derives.statement_next {next other : Kind} {tree : Stmt} {tokens : List Token}
    (h : Derives (.statement next tree) tokens)
    (hother : ∀ {front ending}, tokens = front ++ ending → EndsOpen front →
      Terminator next ending → Terminator other ending) :
    Derives (.statement other tree) tokens := by
  cases h with
  | @declaration _ keyword name _ hkeyword hname hending =>
    have hopen : EndsOpen [keyword, name] := (endsOpen_singleton (by simp [hname])).cons keyword
    exact .declaration hkeyword hname (hother rfl hopen hending)
  | @definition _ keyword name sign tokens _ _ hkeyword hname hsign hvalue hending =>
    have hopen : EndsOpen (keyword :: name :: sign :: tokens) :=
      ((hvalue.endsOpen.cons sign).cons name).cons keyword
    exact .definition hkeyword hname hsign hvalue (hother rfl hopen hending)
  | @assignment _ name sign tokens _ _ hname hsign hvalue hending =>
    have hopen : EndsOpen (name :: sign :: tokens) := (hvalue.endsOpen.cons sign).cons name
    exact .assignment hname hsign hvalue (hother rfl hopen hending)
  | @returnNothing _ keyword _ hkeyword hending =>
    have hopen : EndsOpen [keyword] := endsOpen_singleton (by simp [hkeyword])
    exact .returnNothing hkeyword (hother rfl hopen hending)
  | @returnValue _ keyword tokens _ _ hkeyword hvalue hending =>
    have hopen : EndsOpen (keyword :: tokens) := hvalue.endsOpen.cons keyword
    exact .returnValue hkeyword hvalue (hother rfl hopen hending)
  | expressionStatement hvalue hbegin hending =>
    exact .expressionStatement hvalue hbegin (hother rfl hvalue.endsOpen hending)
  | whileLoop hkeyword hcondition hopening hbody hclosing hending =>
    exact .whileLoop hkeyword hcondition hopening hbody hclosing hending
  | forLoop hkeyword hname hsign hinit hcomma hlimit hopening hbody hclosing hending =>
    exact .forLoop hkeyword hname hsign hinit hcomma hlimit hopening hbody hclosing hending
  | forStepLoop hkeyword hname hsign hinit hcomma hlimit hcomma' hstep hopening hbody hclosing
      hending =>
    exact .forStepLoop hkeyword hname hsign hinit hcomma hlimit hcomma' hstep hopening hbody hclosing
      hending
  | functionDefinition hkeyword hname hbody hending =>
    exact .functionDefinition hkeyword hname hbody hending
  | ifElse hkeyword hcondition hopening hthen hmiddle helse hclosing hending =>
    exact .ifElse hkeyword hcondition hopening hthen hmiddle helse hclosing hending
  | blockStatement hkeyword hbody hclosing hending =>
    exact .blockStatement hkeyword hbody hclosing hending

/-- What comes behind a closed statement does not matter to it. -/
theorem Derives.statement_of_closed {next : Kind} {tree : Stmt} {tokens : List Token}
    (h : Derives (.statement next tree) tokens) (hclosed : Closed tokens) (other : Kind) :
    Derives (.statement other tree) tokens := by
  refine h.statement_next fun {front ending} htokens hopen hending ↦ ?_
  exact hending.of_closed hopen (htokens ▸ hclosed) other

/-! ## Blocks behind one another -/

theorem Derives.block_eq_nil {next : Kind} {trees : List Stmt} (h : Derives (.block next trees) []) :
    trees = [] := by
  generalize htokens : ([] : List Token) = tokens at h
  cases h with
  | noStatement => rfl
  | moreStatements htree =>
    exact absurd (List.append_eq_nil_iff.1 htokens.symm).1 htree.statement_ne_nil

/-- Behind a block that is closed the statements may go on. -/
theorem Derives.block_append {next other : Kind} {trees : List Stmt} {tokens : List Token}
    (h : Derives (.block next trees) tokens) (hclosed : Closed tokens) {trees' : List Stmt}
    {others : List Token} (h' : Derives (.block other trees') others) :
    Derives (.block other (trees ++ trees')) (tokens ++ others) := by
  induction trees generalizing tokens with
  | nil =>
    cases h
    exact h'
  | cons tree trees ih =>
    cases h with
    | @moreStatements _ first rest _ _ htree htrees =>
      rw [List.append_assoc]
      by_cases hrest : rest = []
      · subst hrest
        obtain rfl := htrees.block_eq_nil
        rw [List.append_nil] at hclosed
        exact .moreStatements (htree.statement_of_closed hclosed _) h'
      · have hlead : leading other (rest ++ others) = leading next rest := by
          obtain ⟨token, rest, rfl⟩ := List.exists_cons_of_ne_nil hrest
          rfl
        exact .moreStatements (hlead ▸ htree) (ih htrees hclosed.of_append)

/-- A program behind a closed one, further down in the text, makes one program with it. -/
theorem IsProgram.append_below {tokens others : List Token} {program program' : Program}
    (h : IsProgram tokens program) (hclosed : Closed tokens) (h' : IsProgram others program')
    (lines bytes : Nat) :
    IsProgram (tokens ++ others.map (Token.below lines bytes)) (program ++ program'.shift bytes) := by
  have hmoved : IsProgram (others.map (Token.below lines bytes)) (program'.shift bytes) :=
    h'.moved (fun token ↦ ⟨token.position.line + lines, token.position.column⟩) bytes
  exact Derives.block_append h hclosed hmoved

end Grammar

end ScopeScript
