import ScopeScript.Proofs.Eval.Faults
import ScopeScript.Proofs.Grammar.Program
import ScopeScript.Proofs.Text.Stretches

/-!
# The text that a part of a program stands for

The tokens of a phrase stand in one row among those of the text, and the span of its node reaches from
the beginning of the first to the end of the last. So whatever a fault may blame is a stretch of the text
between two characters, never an empty one; a name is all of its stretch, and a callee begins it. The
nodes that the parser adds where nothing is written have empty spans, but they are never blamed.
-/

namespace ScopeScript

/-! ## Rows of tokens -/

/-- The row of tokens is what the suspect stands for. -/
inductive Suspect.Covers : Suspect → List Token → Prop
  | name (token : Token) : Covers (.name token.span token.lexeme) [token]
  | call (token : Token) (others : List Token) :
      Covers (.call (extent (token :: others)) token.lexeme) (token :: others)
  | other {row : List Token} (h : row ≠ []) : Covers (.other (extent row)) row

namespace Grammar

/-- Each of the suspects stands for a row among the tokens. -/
def Within (tokens : List Token) (suspects : List Suspect) : Prop :=
  ∀ suspect ∈ suspects, ∃ row, row <:+: tokens ∧ suspect.Covers row

section

variable {row tokens : List Token} {suspects others : List Suspect}

theorem within_nil : Within tokens [] := fun _ hmem ↦ nomatch hmem

theorem within_singleton {suspect : Suspect} (h : suspect.Covers tokens) : Within tokens [suspect] := by
  intro suspect' hmem
  obtain rfl := List.mem_singleton.1 hmem
  exact ⟨tokens, List.infix_rfl, h⟩

theorem Within.append (h : Within tokens suspects) (h' : Within tokens others) :
    Within tokens (suspects ++ others) := by
  intro suspect hmem
  rcases List.mem_append.1 hmem with hmem | hmem
  · exact h suspect hmem
  · exact h' suspect hmem

/-- What stands in a row stands in every longer one around it. -/
theorem Within.mono (h : Within row suspects) (hrow : row <:+: tokens) : Within tokens suspects := by
  intro suspect hmem
  obtain ⟨part, hpart, hcovers⟩ := h suspect hmem
  exact ⟨part, hpart.trans hrow, hcovers⟩

theorem Within.bound {precedence : Nat} {bound : Expr} (h : Within tokens bound.suspects)
    (hbound : Derives (.binary precedence bound) tokens) : Within tokens bound.boundSuspects := by
  apply h.append
  rw [hbound.expression_span]
  exact within_singleton (.other hbound.expression_ne_nil)

end

/-- The parts of a phrase that may be blamed. -/
def Form.suspects : Form → List Suspect
  | .primary tree | .unary tree | .binary _ tree => tree.suspects
  | .items trees | .arguments trees => Expr.suspectsAll trees
  | .functionBody _ _ => []
  | .statement _ tree => tree.suspects
  | .block _ trees => Stmt.suspectsAll trees

/-- The parts of a phrase that may be blamed stand among its tokens. -/
theorem Derives.within {form : Form} {tokens : List Token} (h : Derives form tokens) :
    Within tokens form.suspects := by
  induction h with
  | literal | functionBody | noArguments | noStatement | declaration => exact within_nil
  | ofPrimary _ ih | ofUnary _ _ ih | ofTighter _ _ ih => exact ih
  | name => exact within_singleton (.name _)
  | @call token tokens _ _ _ ih =>
    apply Within.append (ih.mono ⟨[token], [], by simp⟩)
    exact within_singleton (.call token tokens)
  | @group opening closing _ _ _ _ _ ih => exact ih.mono ⟨[opening], [closing], rfl⟩
  | function => exact within_singleton (.other (by simp))
  | @operator token _ _ _ _ _ ih =>
    apply Within.append (ih.mono ⟨[token], [], by simp⟩)
    exact within_singleton (.other (by simp))
  | @join _ token tokens others _ _ _ _ _ _ _ ihleft ihright =>
    apply Within.append (ihleft.mono ⟨[], token :: others, rfl⟩)
    apply Within.append (ihright.mono ⟨tokens ++ [token], [], by simp⟩)
    exact within_singleton (.other (by simp))
  | lastItem _ ih => exact ih.append within_nil
  | @moreItems comma tokens others _ _ _ _ _ ihtree ihtrees =>
    apply Within.append (ihtree.mono ⟨[], comma :: others, rfl⟩)
    exact ihtrees.mono ⟨tokens ++ [comma], [], by simp⟩
  | @someArguments opening closing _ _ _ _ _ ih => exact ih.mono ⟨[opening], [closing], rfl⟩
  | @definition _ keyword name sign _ ending _ _ _ _ _ _ ih =>
    exact ih.mono ⟨[keyword, name, sign], ending, by simp⟩
  | @assignment _ name sign _ ending _ _ _ _ _ ih => exact ih.mono ⟨[name, sign], ending, by simp⟩
  | returnNothing => exact within_nil.append (within_singleton (.other (by simp)))
  | @returnValue _ keyword _ ending _ _ _ _ ih =>
    apply Within.append (ih.mono ⟨[keyword], ending, rfl⟩)
    exact within_singleton (.other (by simp))
  | @whileLoop _ keyword opening closing tokens others ending _ _ _ _ _ _ _ _ ihcondition ihbody =>
    apply Within.append (ihcondition.mono ⟨[keyword], opening :: (others ++ closing :: ending), rfl⟩)
    exact ihbody.mono ⟨keyword :: (tokens ++ [opening]), closing :: ending, by simp⟩
  | @forLoop _ keyword name sign comma opening closing first last others ending _ _ _ _ _ _ hinit _
      hlimit _ _ _ _ ihinit ihlimit ihbody =>
    have hbinding : Within (name :: sign :: first) [.other (extent (name :: sign :: first))] :=
      within_singleton (.other (by simp))
    apply Within.append
    · apply Within.append ((ihinit.bound hinit).mono ⟨[keyword, name, sign],
        comma :: (last ++ opening :: (others ++ closing :: ending)), by simp⟩)
      apply Within.append ((ihlimit.bound hlimit).mono ⟨keyword :: name :: sign :: (first ++ [comma]),
        opening :: (others ++ closing :: ending), by simp⟩)
      apply within_nil.append
      exact hbinding.mono
        ⟨[keyword], comma :: (last ++ opening :: (others ++ closing :: ending)), by simp⟩
    · exact ihbody.mono ⟨keyword :: name :: sign :: (first ++ comma :: (last ++ [opening])),
        closing :: ending, by simp⟩
  | @forStepLoop _ keyword name sign comma comma' opening closing first last between others ending _ _
      step _ _ _ _ hinit _ hlimit _ hstep _ _ _ _ ihinit ihlimit ihstep ihbody =>
    have hbetween : between <:+: keyword :: name :: sign :: (first ++ comma :: (last ++ comma' ::
        (between ++ opening :: (others ++ closing :: ending)))) :=
      ⟨keyword :: name :: sign :: (first ++ comma :: (last ++ [comma'])),
        opening :: (others ++ closing :: ending), by simp⟩
    have hzero : Within between [.other step.span] := by
      rw [hstep.expression_span]
      exact within_singleton (.other hstep.expression_ne_nil)
    apply Within.append
    · apply Within.append ((ihinit.bound hinit).mono ⟨[keyword, name, sign],
        comma :: (last ++ comma' :: (between ++ opening :: (others ++ closing :: ending))), by simp⟩)
      apply Within.append ((ihlimit.bound hlimit).mono ⟨keyword :: name :: sign :: (first ++ [comma]),
        comma' :: (between ++ opening :: (others ++ closing :: ending)), by simp⟩)
      exact ((ihstep.bound hstep).mono hbetween).append (hzero.mono hbetween)
    · exact ihbody.mono ⟨keyword :: name :: sign :: (first ++ comma :: (last ++ comma' ::
        (between ++ [opening]))), closing :: ending, by simp⟩
  | @functionDefinition _ keyword name tokens ending _ _ _ _ _ _ _ =>
    have hfunction : Within (keyword :: name :: tokens)
        [.other (extent (keyword :: name :: tokens))] := within_singleton (.other (by simp))
    exact hfunction.mono ⟨[], ending, by simp⟩
  | @ifElse _ keyword opening middle closing tokens thens elses ending _ _ _ _ _ _ _ _ _ _ _
      ihcondition ihthen ihelse =>
    apply Within.append (ihcondition.mono ⟨[keyword],
      opening :: (thens ++ middle :: (elses ++ closing :: ending)), rfl⟩)
    apply Within.append (ihthen.mono ⟨keyword :: (tokens ++ [opening]),
      middle :: (elses ++ closing :: ending), by simp⟩)
    exact ihelse.mono ⟨keyword :: (tokens ++ opening :: (thens ++ [middle])),
      closing :: ending, by simp⟩
  | @blockStatement _ keyword closing _ ending _ _ _ _ _ ih =>
    exact ih.mono ⟨[keyword], closing :: ending, rfl⟩
  | @expressionStatement _ _ ending _ _ _ _ ih => exact ih.mono ⟨[], ending, rfl⟩
  | @moreStatements _ tokens others _ _ _ _ ihtree ihtrees =>
    apply Within.append (ihtree.mono ⟨[], others, rfl⟩)
    exact ihtrees.mono ⟨tokens, [], by simp⟩

end Grammar

/-! ## Stretches of text -/

namespace Lexical

variable {source : List Char} {tokens : List Token}

/-- A row of tokens stands for a text that begins with the lexeme of the first and is no more than it if
there is no other. -/
theorem Divides.exists_text (h : Divides source tokens) {token : Token} {others : List Token}
    (hrow : token :: others <:+: tokens) :
    ∃ rest, (extent (token :: others)).Selects source (token.lexeme.toList ++ rest) ∧
      (others = [] → rest = []) := by
  have hplaced : ∀ other ∈ token :: others, LiesIn source other :=
    fun other hmem ↦ h.placed other (hrow.subset hmem)
  obtain ⟨before, after, hsource, hspan⟩ := hplaced token List.mem_cons_self
  rcases List.eq_nil_or_concat others with rfl | ⟨inner, last, rfl⟩
  · refine ⟨[], ⟨before, after, by simpa using hsource, ?_⟩, fun _ ↦ rfl⟩
    simp [hspan]
  · obtain ⟨before', after', hsource', hspan'⟩ := hplaced last (by simp)
    have hordered : token.span.stop ≤ last.span.start :=
      (List.pairwise_cons.1 (h.ordered.sublist hrow.sublist)).1 last (by simp)
    have hfirst : before ++ token.lexeme.toList <+: source := ⟨after, by simp [hsource]⟩
    have hlast : before' <+: source := ⟨_, hsource'.symm⟩
    -- what stands before the last token begins with what stands up to the end of the first
    obtain ⟨between, rfl⟩ :=
      prefix_of_byteLength_le hfirst hlast (by simpa [hspan, hspan'] using hordered)
    refine ⟨between ++ last.lexeme.toList, ⟨before, after', by simp [hsource'], ?_⟩, by simp⟩
    simp [hspan, hspan']

/-- The last of the tokens stands at the end of the text. -/
theorem Divides.span_mark {body : List Token} {mark : Token} (h : Divides source (body ++ [mark])) :
    mark.span = .point (byteLength source) := by
  obtain ⟨body', mark', htokens, -, -, -, hmark⟩ := h.marked
  obtain ⟨-, hmarks⟩ := List.append_inj' htokens rfl
  rw [List.singleton_inj.1 hmarks, hmark]

/-- The lexeme of a token that is no mark of the end is not empty. -/
theorem Divides.lexeme_ne_nil (h : Divides source tokens) {token : Token} (hmem : token ∈ tokens)
    (hkind : token.kind ≠ .eof) : token.lexeme.toList ≠ [] := by
  intro hnil
  obtain ⟨before, after, -, hspan⟩ := h.placed token hmem
  have hlt := h.nonempty token hmem hkind
  rw [hspan, hnil] at hlt
  simp at hlt

end Lexical

open Lexical

namespace Suspect

/-- Where the suspect stands. -/
def span : Suspect → Span
  | name span _ | call span _ | other span => span

/-- What is known of the text that the suspect stands for. -/
def Reads : Suspect → List Char → Prop
  | name _ identifier, text => text = identifier.toList
  | call _ callee, text => callee.toList <+: text
  | other _, _ => True

/-- A suspect that stands for some of the tokens of a text stands for a stretch of the text. -/
theorem Covers.exists_text {suspect : Suspect} {row body : List Token} {mark : Token}
    {source : List Char} (h : suspect.Covers row) (hrow : row <:+: body)
    (hdivides : Divides source (body ++ [mark])) (hbody : ∀ token ∈ body, token.kind ≠ .eof) :
    ∃ text, text ≠ [] ∧ suspect.span.Selects source text ∧ suspect.Reads text := by
  obtain ⟨token, others, rfl⟩ : ∃ token others, row = token :: others := by
    cases h with
    | name token => exact ⟨token, [], rfl⟩
    | call token others => exact ⟨token, others, rfl⟩
    | other h => exact List.exists_cons_of_ne_nil h
  have hrow' : token :: others <:+: body ++ [mark] := hrow.trans ⟨[], [mark], rfl⟩
  have hmem : token ∈ body := hrow.subset List.mem_cons_self
  have hne := hdivides.lexeme_ne_nil (List.mem_append_left [mark] hmem) (hbody token hmem)
  obtain ⟨rest, hselects, hrest⟩ := hdivides.exists_text hrow'
  refine ⟨token.lexeme.toList ++ rest, by simp [hne], ?_⟩
  cases h with
  | name =>
    obtain rfl := hrest rfl
    exact ⟨hselects, List.append_nil _⟩
  | call => exact ⟨hselects, List.prefix_append _ _⟩
  | other => exact ⟨hselects, trivial⟩

end Suspect

end ScopeScript
