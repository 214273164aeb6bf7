import ScopeScript.Proofs.Grammar.Join
import ScopeScript.Proofs.Tree.Unplaced

/-!
# Repairing failures

A parser that fails has passed the beginning of a phrase, and it says with which token the phrase may go
on: with any token of the kind that it asks for, and with `nil` where it asks for an expression. The rest
of the phrase can be written with the plainest tokens. This is shown of the elementary parsers here, and
carried through sequences and lists of parsers.
-/

namespace ScopeScript

open Grammar

/-- The token is what is asked for. Where it is an expression, `nil` is one. -/
def Expectation.IsMetBy (token : Token) : Expectation → Prop
  | .token kind => token.kind = kind
  | .expression => token.kind = .keyword .nil

namespace Grammar

/-! ## Beginnings -/

/-- The row can be completed to one of the language by plain tokens. -/
inductive Begins (language : List Token → Prop) : List Token → Prop
  | whole {row : List Token} (h : language row) : Begins language row
  | more {row : List Token} (kind : Kind) (hkind : kind ≠ .eof)
      (h : Begins language (row ++ [Token.plain kind])) : Begins language row

/-- What completes a part at the end of the whole completes the whole, if it can be completed behind
the part. -/
theorem Begins.bind {language other : List Token → Prop} {context : List Token → List Token}
    {row : List Token} (h : Begins language row)
    (hother : ∀ {row}, language row → Begins other (context row))
    (hcontext : ∀ row others, context (row ++ others) = context row ++ others := by simp) :
    Begins other (context row) := by
  induction h with
  | whole h => exact hother h
  | more kind hkind _ ih => exact .more kind hkind (hcontext _ _ ▸ ih)

theorem Begins.trans {language other : List Token → Prop} {row : List Token}
    (h : Begins language row) (hother : ∀ {row}, language row → Begins other row) :
    Begins other row := by
  induction h with
  | whole h => exact hother h
  | more kind hkind _ ih => exact .more kind hkind ih

theorem Begins.mono {language other : List Token → Prop} {row : List Token}
    (h : Begins language row) (hother : ∀ {row}, language row → other row) : Begins other row :=
  h.trans fun hrow ↦ .whole (hother hrow)

/-- What completes a row extends it. -/
theorem Begins.extending {language : List Token → Prop} {row : List Token} (h : Begins language row) :
    Begins (fun tokens ↦ language tokens ∧ row <+: tokens) row := by
  induction h with
  | whole h => exact .whole ⟨h, List.prefix_refl _⟩
  | more kind hkind _ ih =>
    refine .more kind hkind (ih.mono fun ⟨h, hprefix⟩ ↦ ⟨h, ?_⟩)
    exact (List.prefix_append _ _).trans hprefix

/-- Some phrase of the form is made of these tokens. -/
def Phrase {α : Type} (form : α → Form) (tokens : List Token) : Prop :=
  ∃ value, Derives (form value) tokens

/-- The tokens are a statement, whatever comes behind them. -/
def IsStatement (tokens : List Token) : Prop := ∀ next, Phrase (Form.statement next) tokens

/-- The tokens are a block, whatever closes it. -/
def IsBlock (tokens : List Token) : Prop := ∀ next, Closes next → Phrase (Form.block next) tokens

/-- A block is closed by every word that closes blocks. -/
theorem Derives.block_next {next other : Kind} {trees : List Stmt} {tokens : List Token}
    (h : Derives (.block next trees) tokens) (hother : Closes next → Closes other) :
    Derives (.block other trees) tokens := by
  induction trees generalizing tokens with
  | nil =>
    cases h
    exact .noStatement
  | cons tree trees ih =>
    cases h with
    | @moreStatements _ first rest _ _ htree htrees =>
      refine .moreStatements ?_ (ih htrees)
      cases rest with
      | nil => exact htree.statement_next fun _ _ hending ↦ hending.of_closes hother
      | cons token rest => exact htree

end Grammar

theorem Cursor.Passes.length_lt {before after : Cursor} {size : Nat}
    {token : Token} {tokens : List Token} (h : before.Passes (token :: tokens) after)
    (hsize : before.rest.length ≤ size) : after.rest.length < size := by
  rw [h.rest, List.length_append, List.length_cons] at hsize
  omega

namespace Parser

variable {α β : Type} {good other : List Token → List Token → Prop} {size : Nat}

/-! ## Repairs -/

/-- If this is a failure, then because something is asked for, and putting it there would be good. What
is good is said of the tokens that are there and those that would be there instead. -/
def Mends (good : List Token → List Token → Prop) (before : Cursor)
    (result : Except Failure (α × Cursor)) : Prop :=
  ∀ ⦃failure⦄, result = .error failure → ∃ expectation passed rest,
    failure = .unmet expectation rest ∧ before.rest = passed ++ rest ∧
      expectation ≠ .token .eof ∧
      ∀ token, expectation.IsMetBy token → good before.rest (passed ++ [token])

/-- Every failure of the parser before at most so many tokens can be repaired. -/
def Repairs (size : Nat) (parser : Parser α) (good : List Token → List Token → Prop) : Prop :=
  ∀ before : Cursor, before.rest.length ≤ size → Mends good before (parser before)

/-- The parser does not fail. -/
def IsTotal (parser : Parser α) : Prop := ∀ before, ∃ result, parser before = .ok result

theorem Mends.mono {before : Cursor} {result : Except Failure (α × Cursor)}
    (h : Mends good before result) (hother : ∀ {rest row}, good rest row → other rest row) :
    Mends other before result := by
  intro failure hfailure
  obtain ⟨expectation, passed, rest, hunmet, hrest, hne, hgood⟩ := h hfailure
  exact ⟨expectation, passed, rest, hunmet, hrest, hne, fun token htoken ↦ hother (hgood token htoken)⟩

theorem Repairs.mono {parser : Parser α} (h : Repairs size parser good)
    (hother : ∀ {rest row}, good rest row → other rest row) : Repairs size parser other :=
  fun before hsize ↦ (h before hsize).mono hother

theorem IsTotal.mends {parser : Parser α} (h : IsTotal parser) (before : Cursor) :
    Mends good before (parser before) := by
  intro failure hfailure
  obtain ⟨result, hresult⟩ := h before
  rw [hresult] at hfailure
  cases hfailure

theorem IsTotal.repairs {parser : Parser α} (h : IsTotal parser) : Repairs size parser good :=
  fun before _ ↦ h.mends before

theorem Repairs.of_le {parser : Parser α} {smaller : Nat} (h : Repairs size parser good)
    (hle : smaller ≤ size) : Repairs smaller parser good :=
  fun before hsize ↦ h before (Nat.le_trans hsize hle)

/-- A repair behind tokens that were passed is one of all the tokens. -/
theorem Mends.behind {before after : Cursor} {tokens : List Token}
    {result : Except Failure (α × Cursor)} (hpass : before.Passes tokens after)
    (h : Mends (fun rest row ↦ good (tokens ++ rest) (tokens ++ row)) after result) :
    Mends good before result := by
  intro failure hfailure
  obtain ⟨expectation, passed, rest, hunmet, hrest, hne, hgood⟩ := h hfailure
  refine ⟨expectation, tokens ++ passed, rest, hunmet, ?_, hne, fun token htoken ↦ ?_⟩
  · rw [hpass.rest, hrest, List.append_assoc]
  · rw [hpass.rest, List.append_assoc]
    exact hgood token htoken

/-- The first parser fails, or the second one behind what the first has read. -/
theorem Mends.bind {parser : Parser α} {next : α → Parser β} {phrase : Kind → α → List Token → Prop}
    {before : Cursor} (hread : parser.OnlyReads phrase) (h : Mends good before (parser before))
    (hnext : ∀ {value tokens after}, before.Passes tokens after → phrase after.kind value tokens →
      Mends (fun rest row ↦ good (tokens ++ rest) (tokens ++ row)) after (next value after)) :
    Mends good before ((parser >>= next) before) := by
  intro failure hfailure
  rw [bind_apply] at hfailure
  cases hresult : parser before with
  | error other =>
    rw [hresult] at hfailure
    cases hfailure
    exact h hresult
  | ok result =>
    rw [hresult] at hfailure
    obtain ⟨tokens, hpass, hphrase⟩ := hread hresult
    exact (hnext hpass hphrase).behind hpass hfailure

theorem Repairs.bind {parser : Parser α} {next : α → Parser β}
    {phrase : Kind → α → List Token → Prop} (hread : parser.OnlyReads phrase)
    (h : Repairs size parser good)
    (hnext : ∀ {kind value tokens}, phrase kind value tokens →
      Repairs size (next value) fun rest row ↦ good (tokens ++ rest) (tokens ++ row)) :
    Repairs size (parser >>= next) good := by
  refine fun before hsize ↦ (h before hsize).bind hread fun {value tokens after} hpass hphrase ↦ ?_
  refine hnext hphrase after (Nat.le_trans ?_ hsize)
  rw [hpass.rest, List.length_append]
  exact Nat.le_add_left _ _

theorem Repairs.look {property : Cursor → α} {next : α → Parser β}
    (hnext : ∀ value, Repairs size (next value) good) : Repairs size (look property >>= next) good :=
  fun before hsize _ hfailure ↦ hnext (property before) before hsize hfailure

/-- A token that is skipped is one of a known kind. -/
theorem mends_skip {next : Unit → Parser β} {before : Cursor} {kind : Kind} (hkind : before.kind = kind)
    (hne : kind ≠ .eof)
    (hnext : ∀ {token after}, token.kind = kind → before.Passes [token] after →
      Mends (fun rest row ↦ good (token :: rest) (token :: row)) after (next () after)) :
    Mends good before ((skip >>= next) before) := by
  obtain ⟨token, rest, hrest, htoken⟩ := Cursor.exists_rest_of_kind (hkind ▸ hne)
  have hpass := Cursor.passes_advance hrest
  exact (hnext (htoken.trans hkind) hpass).behind hpass

theorem repairs_expect {kind : Kind} (hkind : kind ≠ .eof)
    (hgood : ∀ {rest token}, token.kind = kind → good rest [token]) :
    Repairs size (expect kind) good := by
  rintro ⟨rest, behind⟩ - failure hfailure
  have hne : Expectation.token kind ≠ .token .eof := fun h ↦ hkind (by injection h)
  have hunmet : failure = .unmet (.token kind) rest := by
    cases rest with
    | nil =>
      cases hfailure
      rfl
    | cons token rest =>
      simp only [expect, refuse] at hfailure
      split at hfailure
      · cases hfailure
      · cases hfailure
        rfl
  exact ⟨.token kind, [], rest, hunmet, rfl, hne, fun token htoken ↦ hgood htoken⟩

theorem onlyReads_expect (kind : Kind) :
    (expect kind).OnlyReads fun _ token tokens ↦ token.kind = kind ∧ tokens = [token] := by
  intro before after token h
  obtain ⟨hkind, hpass⟩ := expect_eq_ok.1 h
  exact ⟨[token], hpass, hkind, rfl⟩

/-- A token that is asked for is there, or putting it there is good. -/
theorem Repairs.expect {kind : Kind} {next : Token → Parser β} (hkind : kind ≠ .eof)
    (hgood : ∀ {rest token}, token.kind = kind → good rest [token])
    (hnext : ∀ {token}, token.kind = kind →
      Repairs size (next token) fun rest row ↦ good (token :: rest) (token :: row)) :
    Repairs size (Parser.expect kind >>= next) good := by
  refine Repairs.bind (onlyReads_expect kind) (repairs_expect hkind hgood) ?_
  rintro _ token _ ⟨htoken, rfl⟩
  exact hnext htoken

theorem repairs_identifier
    (hgood : ∀ {rest token}, token.kind = .identifier → good rest [token]) :
    Repairs size identifier good :=
  Repairs.expect (by decide) hgood fun _ ↦ IsTotal.repairs fun _ ↦ ⟨_, rfl⟩

theorem mends_identifier {next : String → Parser β} {before : Cursor} (hkind : before.kind = .identifier)
    (hnext : ∀ {token after}, token.kind = .identifier → before.Passes [token] after →
      Mends (fun rest row ↦ good (token :: rest) (token :: row)) after (next token.lexeme after)) :
    Mends good before ((identifier >>= next) before) := by
  have hne : before.kind ≠ .eof := by simp [hkind]
  obtain ⟨token, rest, hrest, htoken⟩ := Cursor.exists_rest_of_kind hne
  have hpass := Cursor.passes_advance hrest
  have hname := identifier_eq_ok.2 ⟨token, htoken.trans hkind, rfl, hpass⟩
  rw [bind_apply, hname]
  exact (hnext (htoken.trans hkind) hpass).behind hpass

/-- A name that is asked for is there, or putting one there is good. -/
theorem Repairs.identifier {next : String → Parser β}
    (hgood : ∀ {rest token}, token.kind = .identifier → good rest [token])
    (hnext : ∀ {token}, token.kind = .identifier →
      Repairs size (next token.lexeme) fun rest row ↦ good (token :: rest) (token :: row)) :
    Repairs size (Parser.identifier >>= next) good := by
  refine Repairs.bind onlyReads_identifier (repairs_identifier hgood) ?_
  rintro _ _ _ ⟨token, htoken, rfl, rfl⟩
  exact hnext htoken

theorem isTotal_skipIf (kind : Kind) : IsTotal (skipIf kind) := by
  intro before
  simp only [Parser.skipIf, bind_apply, look]
  split
  · exact ⟨_, rfl⟩
  · exact ⟨_, rfl⟩

theorem onlyReads_skipIf {kind : Kind} (hkind : kind ≠ .eof) :
    (skipIf kind).OnlyReads fun _ found tokens ↦
      (found = true ∧ ∃ token, token.kind = kind ∧ tokens = [token]) ∨
        (found = false ∧ tokens = []) := by
  intro before after found h
  rcases (skipIf_eq_ok hkind).1 h with ⟨rfl, token, htoken, hpass⟩ | ⟨rfl, -, rfl⟩
  · exact ⟨[token], hpass, .inl ⟨rfl, token, htoken, rfl⟩⟩
  · exact ⟨[], before.passes_nil, .inr ⟨rfl, rfl⟩⟩

/-- Whether a token comes next or not, what follows can be repaired. -/
theorem Repairs.skipIf {kind : Kind} {next : Bool → Parser β} (hkind : kind ≠ .eof)
    (hfound : ∀ {token}, token.kind = kind →
      Repairs size (next true) fun rest row ↦ good (token :: rest) (token :: row))
    (habsent : Repairs size (next false) good) : Repairs size (Parser.skipIf kind >>= next) good := by
  refine Repairs.bind (onlyReads_skipIf hkind) (isTotal_skipIf kind).repairs ?_
  rintro _ found tokens (⟨rfl, token, htoken, rfl⟩ | ⟨rfl, rfl⟩)
  · exact hfound htoken
  · exact habsent

/-! ## Lists -/

section

variable {item : Parser α} {one : α → List Token → Prop} {many list : List α → List Token → Prop}

/-- Items between commas are repaired at an item, which may be the last. -/
theorem repairs_separated (hread : item.OnlyReads fun _ ↦ one)
    (hitem : Repairs size item fun _ row ↦ Begins (fun tokens ↦ ∃ value, one value tokens) row)
    (hlast : ∀ {value tokens}, one value tokens → many [value] tokens)
    (hmore : ∀ {value values tokens comma others}, one value tokens →
      comma.kind = .symbol .comma → many values others →
      many (value :: values) (tokens ++ comma :: others))
    {rounds : Nat} (hrounds : size < rounds) :
    Repairs size (separated item rounds) fun _ row ↦
      Begins (fun tokens ↦ ∃ values, many values tokens) row := by
  induction rounds generalizing size with
  | zero => exact absurd hrounds (Nat.not_lt_zero _)
  | succ rounds ih =>
    intro before hsize
    rw [separated]
    refine ((hitem before hsize).mono fun h ↦ ?_).bind hread ?_
    · exact h.mono fun hone ↦ hone.imp' (fun value ↦ [value]) fun _ ↦ hlast
    intro value tokens middle hpass hvalue
    refine ((isTotal_skipIf _).mends middle).bind (onlyReads_skipIf (by decide)) ?_
    rintro _ _ after hpass' (⟨rfl, comma, hcomma, rfl⟩ | ⟨rfl, rfl⟩)
    · have hlength : after.rest.length < before.rest.length := by
        rw [hpass.rest, hpass'.rest]
        simp only [List.length_append, List.length_cons]
        omega
      have hrest := ih (hitem.of_le (by omega)) (by omega) after (Nat.le_refl _)
      refine (hrest.mono fun {_ row} h ↦ ?_).bind (onlyReads_separated hread hlast hmore rounds) ?_
      · apply h.bind
        rintro others ⟨values, hvalues⟩
        exact .whole ⟨value :: values, hmore hvalue hcomma hvalues⟩
      · exact fun _ _ ↦ IsTotal.mends (fun _ ↦ ⟨_, rfl⟩) _
    · exact IsTotal.mends (fun _ ↦ ⟨_, rfl⟩) after

/-- A list between parentheses is repaired if its items are. Repaired or not, it begins with a
parenthesis. -/
theorem repairs_listed (hread : item.OnlyReads fun _ ↦ one)
    (hitem : Repairs size item fun _ row ↦ Begins (fun tokens ↦ ∃ value, one value tokens) row)
    (hlast : ∀ {value tokens}, one value tokens → many [value] tokens)
    (hmore : ∀ {value values tokens comma others}, one value tokens →
      comma.kind = .symbol .comma → many values others →
      many (value :: values) (tokens ++ comma :: others))
    (hnone : ∀ {opening closing}, opening.kind = .symbol .leftParen →
      closing.kind = .symbol .rightParen → list [] [opening, closing])
    (hsome : ∀ {values opening tokens closing}, opening.kind = .symbol .leftParen →
      many values tokens → closing.kind = .symbol .rightParen →
      list values (opening :: (tokens ++ [closing]))) :
    Repairs size (listed item) fun _ row ↦
      Begins (fun tokens ↦ ∃ values, list values tokens) row ∧
        leading .eof row = .symbol .leftParen := by
  refine Repairs.expect (by decide) (fun hopening ↦ ?_) fun {opening} hopening ↦ ?_
  · exact ⟨.more (.symbol .rightParen) (by decide) (.whole ⟨[], hnone hopening rfl⟩), hopening⟩
  have hitems : Repairs size (repeatedly (separated item)) fun _ row ↦
      Begins (fun tokens ↦ ∃ values, many values tokens) row := fun before hsize ↦
    repairs_separated hread (hitem.of_le hsize) hlast hmore (Nat.lt_succ_self _) before
      (Nat.le_refl _)
  have hread' : (repeatedly (separated item)).OnlyReads fun _ ↦ many := fun _ _ _ h ↦
    onlyReads_separated hread hlast hmore _ h
  refine Repairs.skipIf (by decide) (fun _ ↦ IsTotal.repairs fun _ ↦ ⟨_, rfl⟩) ?_
  rw [if_neg Bool.false_ne_true]
  refine Repairs.bind hread' (hitems.mono fun {_ row} h ↦ ⟨?_, hopening⟩) fun {_ values tokens} hvalues ↦ ?_
  · have hclosed : ∀ {tokens}, (∃ values, many values tokens) →
        Begins (fun tokens ↦ ∃ values, list values tokens) (opening :: tokens) :=
      fun ⟨values, hvalues⟩ ↦ .more (.symbol .rightParen) (by decide)
        (.whole ⟨values, hsome hopening hvalues rfl⟩)
    exact h.bind hclosed
  · exact Repairs.expect (by decide)
      (fun hclosing ↦ ⟨.whole ⟨values, hsome hopening hvalues hclosing⟩, hopening⟩)
      fun _ ↦ IsTotal.repairs fun _ ↦ ⟨_, rfl⟩

end

theorem repairs_parameters :
    Repairs size (listed identifier) fun _ row ↦
      Begins (fun tokens ↦ ∃ names, Parameters names tokens) row ∧
        leading .eof row = .symbol .leftParen := by
  refine repairs_listed onlyReads_identifier (repairs_identifier fun htoken ↦ ?_) ?_ ?_ .none .some
  · exact .whole ⟨_, _, htoken, rfl, rfl⟩
  · rintro _ _ ⟨token, hkind, rfl, rfl⟩
    exact .one hkind
  · rintro _ values _ comma others ⟨token, hkind, rfl, rfl⟩ hcomma hvalues
    exact .more hkind hcomma hvalues

end Parser

end ScopeScript
