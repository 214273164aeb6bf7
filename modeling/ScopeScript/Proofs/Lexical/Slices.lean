import ScopeScript.Proofs.Grammar.Moved
import ScopeScript.Proofs.Grammar.Stretches
import ScopeScript.Proofs.Lexical.Parentheses

/-!
# Stretches of a text that are scanned alone

A stretch that reaches from the beginning of one token to the end of another is scanned alone as it is
within the text: no lexeme gets longer when what stands behind it is taken away. The tokens stand as many
bytes further on in the text as there are before the stretch.
-/

namespace ScopeScript

namespace Lexical

variable {kind : Option Kind} {text front back : List Char} {tokens : List Token}

/-- A longest match stays one when the end of the text behind it is taken away. -/
theorem Longest.of_append (h : Longest kind text (front ++ back)) : Longest kind text front where
  matches_ := h.matches_
  longest hother hfront := h.longest hother (hfront.trans ⟨back, List.append_assoc _ _ _⟩)
  priority := h.priority

theorem Passes.alone {before : List Char} (h : Passes back before front tokens) :
    Passes [] before front tokens := by
  induction h with
  | here => exact .here
  | skip hlongest hend _ ih =>
    refine .skip ?_ hend ih
    rw [List.append_nil]
    exact hlongest.of_append
  | token hlongest hliteral _ ih =>
    refine .token ?_ hliteral ih
    rw [List.append_nil]
    exact hlongest.of_append

/-- With less of the text before them, tokens stand as much further to the front. -/
theorem Passes.slide {context before : List Char} (h : Passes back (context ++ before) front tokens) :
    ∃ tokens', Passes back before front tokens' ∧
      tokens'.map (Token.moved (fun _ ↦ .first) (byteLength context)) =
        tokens.map (Token.moved (fun _ ↦ .first) 0) := by
  generalize hbehind : context ++ before = behind at h
  induction h generalizing before with
  | here => exact ⟨[], .here, rfl⟩
  | @skip _ text _ _ hlongest hend _ ih =>
    subst hbehind
    obtain ⟨tokens', hpasses, htokens⟩ := ih (List.append_assoc _ _ _).symm
    exact ⟨tokens', .skip hlongest hend hpasses, htokens⟩
  | @token _ text _ kind literal _ hlongest hliteral _ ih =>
    subst hbehind
    obtain ⟨tokens', hpasses, htokens⟩ := ih (List.append_assoc _ _ _).symm
    refine ⟨tokenAt before kind text literal :: tokens', .token hlongest hliteral hpasses, ?_⟩
    have htoken : (tokenAt before kind text literal).moved (fun _ ↦ .first) (byteLength context) =
        (tokenAt (context ++ before) kind text literal).moved (fun _ ↦ .first) 0 := by
      simp [Token.moved, tokenAt, Span.shift, Nat.add_comm]
    rw [List.map_cons, List.map_cons, htokens, htoken]

end Lexical

open Lexical

/-- The stretch of some tokens of a text is scanned alone. -/
theorem scan_stretch {source : String} {front middle back : List Token}
    (h : scan source = .ok (front ++ (middle ++ back))) (hmiddle : middle ≠ [])
    (hkinds : ∀ token ∈ middle, token.kind ≠ .eof) :
    ∃ text tokens mark, (extent middle).Selects source.toList text ∧
      scan (.ofList text) = .ok (tokens ++ [mark]) ∧
      tokens.map (Token.moved (fun _ ↦ .first) (extent middle).start) =
        middle.map (Token.moved (fun _ ↦ .first) 0) := by
  obtain ⟨first, text, last, hsource, hextent, -, hpasses, -⟩ :=
    (scan_eq_iff.1 h).exists_stretch hmiddle hkinds
  have hbehind : Passes last (first ++ []) text middle := by rwa [List.append_nil]
  obtain ⟨tokens, halone, htokens⟩ := hbehind.alone.slide
  have hscans : Scans [] (text ++ []) (.ok (tokens ++ [_])) := halone.scans .finish
  have hscan : scan (.ofList text) = .ok (tokens ++ [tokenAt text .eof [] none]) := by
    rw [scan_eq_iff, String.toList_ofList]
    simpa using hscans
  refine ⟨text, tokens, _, ⟨first, last, hsource, hextent⟩, hscan, ?_⟩
  rwa [hextent]

end ScopeScript
