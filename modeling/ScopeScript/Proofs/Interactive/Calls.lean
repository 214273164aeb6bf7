import ScopeScript.Proofs.Grammar.Calls
import ScopeScript.Proofs.Grammar.Stretches
import ScopeScript.Proofs.Interactive.Highlight
import ScopeScript.Proofs.Lexical.Newline

/-!
# The colors of calls

Identifiers are colored by the token behind them, before anything is parsed. Where the text is a program,
this tells the callees and the names of functions from all other names.
-/

namespace ScopeScript

open Grammar Lexical

namespace Painted

/-! ## Entries at places -/

/-- The color of the entry that takes up the span, where the entries begin at the offset. -/
def colorAt (span : Span) : Nat → List Painted → Option Color
  | _, [] => none
  | offset, entry :: entries =>
    let stop := offset + byteLength entry.text
    if span = ⟨offset, stop⟩ then some entry.color else colorAt span stop entries

theorem colorAt_cons_self (offset : Nat) (entry : Painted) (entries : List Painted) :
    colorAt ⟨offset, offset + byteLength entry.text⟩ offset (entry :: entries) = some entry.color :=
  if_pos rfl

/-- An entry in front of the span is passed over. -/
theorem colorAt_cons_of_le {span : Span} {offset : Nat} {entry : Painted} (hne : entry.text ≠ [])
    (hle : offset + byteLength entry.text ≤ span.start) (entries : List Painted) :
    colorAt span offset (entry :: entries) =
      colorAt span (offset + byteLength entry.text) entries := by
  apply if_neg
  rintro rfl
  apply hne
  apply eq_nil_of_byteLength
  have hle : offset + byteLength entry.text ≤ offset := hle
  omega

theorem colorAt_stretch {span : Span} {offset : Nat} {color : Color} {text : List Char}
    (hle : offset + byteLength text ≤ span.start) (entries : List Painted) :
    colorAt span offset (stretch color text ++ entries) =
      colorAt span (offset + byteLength text) entries := by
  cases text with
  | nil => rfl
  | cons c text => exact colorAt_cons_of_le (List.cons_ne_nil c text) hle entries

/-! ## Tokens at places -/

namespace Paints

variable {before rest : List Char} {tokens : List Token} {entries : List Painted}

theorem le_start (h : Paints before rest tokens entries) :
    ∀ token ∈ tokens, byteLength before ≤ token.span.start := by
  induction h with
  | rest => exact fun _ hmem ↦ nomatch hmem
  | @token before gap text _ _ _ _ _ hspan _ ih =>
    intro other hmem
    rcases List.mem_cons.1 hmem with rfl | hmem
    · rw [hspan]
      simp
    · have hle := ih other hmem
      simp only [byteLength_append] at hle
      omega

/-- At the span of a token is the color of its kind, when those behind it follow. -/
theorem colorAt_span (h : Paints before rest tokens entries)
    (hne : ∀ token ∈ tokens, token.lexeme.toList ≠ []) {front others : List Token} {token : Token}
    (htokens : tokens = front ++ token :: others) :
    colorAt token.span (byteLength before) entries =
      some (token.kind.color (beginsCall others)) := by
  induction h generalizing front with
  | rest => simp at htokens
  | @token before gap text _ first tokens entries hlexeme hspan hrest ih =>
    subst hlexeme
    simp only [byteLength_append] at ih hspan
    rcases front with _ | ⟨other, front⟩
    · obtain ⟨rfl, rfl⟩ := List.cons.inj htokens
      rw [hspan, colorAt_stretch (Nat.le_refl _)]
      exact colorAt_cons_self _ (ofToken first tokens) entries
    · obtain ⟨rfl, htail⟩ := List.cons.inj htokens
      have hmem : token ∈ tokens := htail ▸ List.mem_append_right front List.mem_cons_self
      have hle := hrest.le_start token hmem
      rw [byteLength_append, byteLength_append] at hle
      rw [colorAt_stretch (Nat.le_trans (Nat.le_add_right _ _) hle),
        colorAt_cons_of_le (hne first List.mem_cons_self) hle]
      exact ih (fun token hmem ↦ hne token (List.mem_cons_of_mem first hmem)) htail

end Paints

theorem paints_of_scan {source : String} {body : List Token} {mark : Token}
    (h : scan source = .ok (body ++ [mark])) : Paints [] source.toList body (ofLine source) := by
  have hpaints := paints_ofCut (cuts_ofChars source.toList) []
  obtain ⟨-, hbody, -⟩ := Cut.placeBehind_of_scan h
  rw [List.dropLast_concat] at hbody
  rw [hbody]
  exact hpaints

theorem beginsCall_iff {tokens : List Token} :
    beginsCall tokens ↔ leading .eof tokens = .symbol .leftParen := by
  cases tokens with
  | nil => simp [beginsCall]
  | cons token tokens => simp [beginsCall]

/-- In a text that is a program, the light blue identifiers are the callees and the names of functions, and
all others are light red. -/
theorem colorAt_ofLine_iff_hasNamed {source : String} {program : Program}
    (h : Program.ofString source = .ok program) :
    ∃ tokens, scan source = .ok tokens ∧ ∀ token ∈ tokens, token.kind = .identifier →
      (colorAt token.span 0 (ofLine source) = some .lightBlue ↔ program.HasNamed tokens token) ∧
      (colorAt token.span 0 (ofLine source) = some .lightRed ↔ ¬program.HasNamed tokens token) := by
  obtain ⟨body, mark, hscan, hbody, hmark, hprogram⟩ := Program.ofString_eq_ok_iff.1 h
  have hdivides := ((scan_eq_iff.1 hscan).tiles rfl).divides
  have hapart := apart_of_divides hdivides hbody
  refine ⟨body ++ [mark], hscan, ?_⟩
  intro token hmem hkind
  have hbody' : token ∈ body := by
    rcases List.mem_append.1 hmem with hbody' | hmark'
    · exact hbody'
    · obtain rfl := List.mem_singleton.1 hmark'
      cases hkind.symm.trans hmark
  have hne : ∀ token ∈ body, token.lexeme.toList ≠ [] := fun token hmem ↦
    hdivides.lexeme_ne_nil (List.mem_append_left [mark] hmem) (hbody token hmem)
  rw [Program.hasNamed_iff hprogram hmark hapart hmem]
  obtain ⟨front, others, rfl⟩ := List.append_of_mem hbody'
  obtain ⟨hfront, hothers⟩ := hapart.left.notMem
  have hcolor : colorAt token.span 0 (ofLine source) = some (token.kind.color (beginsCall others)) :=
    (paints_of_scan hscan).colorAt_span hne rfl
  rw [hcolor, hkind, mem_called_iff hkind hfront hothers, ← beginsCall_iff]
  cases beginsCall others <;> simp [Kind.color]

/-- Behind `x = f`, a parenthesis on the next line makes `f` a callee. -/
theorem colorAt_ofLine_iff_hasNamed_lines :
    colorAt ⟨4, 5⟩ 0 (ofLine "x = f\n(1)") = some .lightBlue := by
  have h : Program.ofString "x = f\n(1)" = .ok [.assign ⟨0, 9⟩ false "x"
      (.call ⟨4, 9⟩ "f" [.literal ⟨7, 8⟩ (.number (.int 1))])] := by
    rw [Program.ofString, scan_eq_upTo]
    rfl
  have hscan : scan "x = f\n(1)" = .ok [⟨.identifier, "x", none, ⟨1, 1⟩, ⟨0, 1⟩⟩,
      ⟨.symbol .assign, "=", none, ⟨1, 3⟩, ⟨2, 3⟩⟩, ⟨.identifier, "f", none, ⟨1, 5⟩, ⟨4, 5⟩⟩,
      ⟨.symbol .leftParen, "(", none, ⟨2, 1⟩, ⟨6, 7⟩⟩,
      ⟨.number, "1", some (.number (.int 1)), ⟨2, 2⟩, ⟨7, 8⟩⟩,
      ⟨.symbol .rightParen, ")", none, ⟨2, 3⟩, ⟨8, 9⟩⟩, ⟨.eof, "", none, ⟨2, 4⟩, ⟨9, 9⟩⟩] :=
    (scan_eq_upTo _).trans rfl
  obtain ⟨tokens, htokens, hcolors⟩ := colorAt_ofLine_iff_hasNamed h
  obtain rfl := Except.ok.inj (htokens.symm.trans hscan)
  apply (hcolors ⟨.identifier, "f", none, ⟨1, 5⟩, ⟨4, 5⟩⟩ (by decide) rfl).1.2
  exact ⟨_, .under (.here List.mem_cons_self) List.mem_cons_self, .call rfl⟩

end Painted

end ScopeScript
