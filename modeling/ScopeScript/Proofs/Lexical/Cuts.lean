import ScopeScript.Proofs.Lexical.Tokens

/-!
# The parts of a cut

A text is cut into lexemes with what is skipped before each of them. Behind the last lexeme something is
skipped again, and then the text ends or something is rejected, which begins neither with a blank nor with
a comment. This is said here once, part by part, for cuts that reach the end and for those that do not; the
parts together are the text.
-/

namespace ScopeScript

open Lexical

/-! ## Gaps -/

theorem skipped_splitGap (cs : List Char) : Skipped (splitGap false cs).1 := by
  induction hlength : cs.length using Nat.strongRecOn generalizing cs with
  | ind length ih =>
    subst hlength
    cases cs with
    | nil => exact .nil
    | cons c cs =>
      by_cases hblank : isBlank c
      · rw [splitGap_of_blank hblank]
        have hc : Matches none [c] := .blanks (by simpa using isBlank_iff.1 hblank)
        exact .more hc (ih _ (Nat.lt_succ_self _) cs rfl)
      by_cases hcomment : c = '-' ∧ cs.head? = some '-'
      · obtain ⟨rfl, hhead⟩ := hcomment
        obtain ⟨cs, rfl⟩ := List.head?_eq_some_iff.1 hhead
        have hline := notMem_takeWhile_ne '\n' cs
        have hgap := splitGap_comment hline (head?_dropWhile_ne '\n' cs)
        rw [List.cons_append, List.cons_append, List.takeWhile_append_dropWhile] at hgap
        rw [hgap]
        refine .more (.comment hline) (ih _ ?_ _ rfl)
        exact Nat.lt_succ_of_le (Nat.le_succ_of_le (Lexeme.length_dropWhile_le _ _))
      · rw [splitGap_of_ne hblank hcomment]
        exact .nil

/-- Behind a gap stands neither a blank nor a comment. -/
theorem splitGap_stops {comment : Bool} {cs rest : List Char} {c : Char}
    (h : (splitGap comment cs).2 = c :: rest) :
    ¬isBlank c ∧ ¬(c = '-' ∧ rest.head? = some '-') := by
  fun_induction splitGap comment cs with
  | case1 => cases h
  | case2 c' cs' ih => exact ih h
  | case3 c' cs' hblank ih => exact ih h
  | case4 c' cs' hblank hcomment ih => exact ih h
  | case5 c' cs' hblank hcomment =>
    obtain ⟨rfl, rfl⟩ := List.cons.inj h
    exact ⟨hblank, hcomment⟩

/-- A gap without comments is a row of blanks; otherwise a comment comes behind some blanks. -/
theorem Lexical.Skipped.blanks_or_comment {gap : List Char} (h : Skipped gap) :
    (∀ c ∈ gap, Blank c) ∨
      ∃ blanks line, gap = blanks ++ '-' :: '-' :: line ∧ ∀ c ∈ blanks, Blank c := by
  induction h with
  | nil => exact .inl fun _ hmem ↦ nomatch hmem
  | more htext hrest ih =>
    cases htext with
    | @blanks c cs hblank =>
      rcases ih with hall | ⟨blanks, line, rfl, hblanks⟩
      · exact .inl (List.forall_mem_append.2 ⟨hblank, hall⟩)
      · exact .inr ⟨c :: cs ++ blanks, line, by simp, List.forall_mem_append.2 ⟨hblank, hblanks⟩⟩
    | @comment line hline => exact .inr ⟨[], line ++ _, rfl, fun _ hmem ↦ nomatch hmem⟩

/-! ## Cuts -/

/-- A text and its parts: before each lexeme, and behind the last one, something that is skipped, and at the
end what is rejected. -/
inductive Cuts : List Char → Cut → Prop
  | finish {gap : List Char} (hgap : Skipped gap) : Cuts gap ⟨[], gap, [], none⟩
  | rejected {gap rest extent : List Char} {c : Char} {error : Error} (hgap : Skipped gap)
      (hblank : ¬isBlank c) (hcomment : ¬(c = '-' ∧ rest.head? = some '-'))
      (hnext : Lexeme.next c rest = .rejected error extent) :
      Cuts (gap ++ c :: rest) ⟨[], gap, c :: rest, some ⟨error, extent⟩⟩
  | piece {gap text rest : List Char} {kind : Kind} {cut : Cut} (literal : Option Value)
      (hgap : Skipped gap) (htext : Matches (some kind) text) (hrest : Cuts rest cut) :
      Cuts (gap ++ (text ++ rest)) { cut with pieces := ⟨gap, kind, text, literal⟩ :: cut.pieces }

theorem cuts_ofChars (cs : List Char) : Cuts cs (Cut.ofChars cs) := by
  induction hlength : cs.length using Nat.strongRecOn generalizing cs with
  | ind length ih =>
    subst hlength
    have hgap := skipped_splitGap cs
    have htext := splitGap_append false cs
    cases hsplit : (splitGap false cs).2 with
    | nil =>
      rw [Cut.ofChars_of_nil hsplit]
      rw [hsplit, List.append_nil] at htext
      rw [htext] at hgap ⊢
      exact .finish hgap
    | cons c rest =>
      obtain ⟨hblank, hcomment⟩ := splitGap_stops hsplit
      rw [hsplit] at htext
      cases hnext : Lexeme.next c rest with
      | rejected error extent =>
        have hcuts := Cuts.rejected hgap hblank hcomment hnext
        rwa [htext, ← Cut.ofChars_of_rejected hsplit hnext] at hcuts
      | read kind text literal others =>
        obtain ⟨hlexeme, hlongest, -⟩ := Lexeme.longest_next hblank hcomment hnext
        have hrest := ih _ (Cut.length_lt_of_read hsplit hnext) others rfl
        have hcuts := Cuts.piece literal hgap hlongest.matches_ hrest
        rwa [← hlexeme, htext, ← Cut.ofChars_of_read hsplit hnext] at hcuts

namespace Cuts

variable {cs : List Char} {cut : Cut}

theorem skipped_gap (h : Cuts cs cut) : Skipped cut.gap := by
  induction h with
  | finish hgap => exact hgap
  | rejected hgap => exact hgap
  | piece _ _ _ _ ih => exact ih

/-- What is rejected is what remains. -/
theorem exists_remainder_iff (h : Cuts cs cut) :
    (∃ rejection, cut.rejection = some rejection) ↔ ∃ c rest, cut.remainder = c :: rest := by
  induction h with
  | finish => exact iff_of_false (by simp) (by simp)
  | rejected => exact iff_of_true ⟨_, rfl⟩ ⟨_, _, rfl⟩
  | piece _ _ _ _ ih => exact ih

/-- The parts of a cut are the text. -/
theorem append_eq (h : Cuts cs cut) :
    (cut.pieces.flatMap fun piece ↦ piece.gap ++ piece.text) ++ (cut.gap ++ cut.remainder) = cs := by
  induction h with
  | finish => simp
  | rejected => rfl
  | piece _ _ _ _ ih => simp [ih]

end Cuts

/-- Behind the pieces is the place behind their gaps and lexemes. -/
theorem placeBehind_eq (place : Place) (pieces : List Piece) :
    placeBehind place pieces = place.after (pieces.flatMap fun piece ↦ piece.gap ++ piece.text) := by
  induction pieces generalizing place with
  | nil => rfl
  | cons piece pieces ih => simp [placeBehind, ih, Place.after_append]

end ScopeScript
