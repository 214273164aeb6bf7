import ScopeScript.Proofs.Lexical.Lexeme
import ScopeScript.Token.Scan

/-!
# Scanning takes longest matches

A text is scanned by always taking the longest match. The scanner cuts the text first and places the
pieces afterwards, and it skips blanks and comments one character at a time; so what is skipped is
moved from the beginning of a text into the gap before its first piece. On success the spans of the
tokens divide the text, the mark of the end included.
-/

namespace ScopeScript

open Lexical

/-! ## Gaps -/

theorem splitGap_of_blank {c : Char} (h : isBlank c) (cs : List Char) :
    splitGap false (c :: cs) = (c :: (splitGap false cs).1, (splitGap false cs).2) := by
  simp [splitGap, h, Prod.map]

theorem splitGap_blanks {blanks : List Char} (h : ∀ c ∈ blanks, isBlank c) (cs : List Char) :
    splitGap false (blanks ++ cs) = (blanks ++ (splitGap false cs).1, (splitGap false cs).2) := by
  induction blanks with
  | nil => rfl
  | cons c blanks ih =>
    have hblanks := ih fun d hd ↦ h d (List.mem_cons_of_mem c hd)
    rw [List.cons_append, splitGap_of_blank (h c List.mem_cons_self), hblanks]
    rfl

/-- Inside a line of a comment everything is skipped. -/
theorem splitGap_line {line : List Char} (h : '\n' ∉ line) {rest : List Char}
    (hrest : ∀ c ∈ rest.head?, c = '\n') :
    splitGap true (line ++ rest) = (line ++ (splitGap false rest).1, (splitGap false rest).2) := by
  induction line with
  | nil =>
    cases rest with
    | nil => rfl
    | cons c cs =>
      obtain rfl := hrest c rfl
      rw [List.nil_append, splitGap_of_blank (by decide)]
      simp [splitGap, Prod.map]
  | cons c line ih =>
    have hne : c ≠ '\n' := fun hc ↦ h (hc ▸ List.mem_cons_self)
    have hline := ih fun hmem ↦ h (List.mem_cons_of_mem c hmem)
    simp [splitGap, hne, hline]

theorem splitGap_comment {line : List Char} (h : '\n' ∉ line) {rest : List Char}
    (hrest : ∀ c ∈ rest.head?, c = '\n') :
    splitGap false ('-' :: '-' :: line ++ rest) =
      ('-' :: '-' :: line ++ (splitGap false rest).1, (splitGap false rest).2) := by
  simp [splitGap, splitGap_line h hrest, show isBlank '-' = false by decide]

theorem splitGap_of_ne {c : Char} {cs : List Char} (hblank : ¬isBlank c)
    (hcomment : ¬(c = '-' ∧ cs.head? = some '-')) : splitGap false (c :: cs) = ([], c :: cs) := by
  simp [splitGap, hblank, hcomment]

/-! ## Cuts -/

namespace Cut

variable {cs rest text extent : List Char} {c : Char}

theorem ofChars_of_nil (h : (splitGap false cs).2 = []) :
    ofChars cs = ⟨[], (splitGap false cs).1, [], none⟩ := by
  rw [ofChars]
  split
  next => rfl
  next hcons => cases h.symm.trans hcons

theorem ofChars_of_read {kind : Kind} {literal : Option Value}
    (h : (splitGap false cs).2 = c :: extent) (hnext : Lexeme.next c extent = .read kind text literal rest) :
    ofChars cs = { ofChars rest with
      pieces := ⟨(splitGap false cs).1, kind, text, literal⟩ :: (ofChars rest).pieces } := by
  rw [ofChars]
  split
  next hnil => cases hnil.symm.trans h
  next hcons =>
    cases hcons.symm.trans h
    split
    next hread =>
      cases hread.symm.trans hnext
      rfl
    next hrejected => cases hrejected.symm.trans hnext

/-- The text behind the first lexeme is shorter than the text. -/
theorem length_lt_of_read {kind : Kind} {literal : Option Value}
    (h : (splitGap false cs).2 = c :: extent) (hnext : Lexeme.next c extent = .read kind text literal rest) :
    rest.length < cs.length := by
  calc
    rest.length < (c :: extent).length := Lexeme.length_rest_next hnext
    _ ≤ cs.length := h ▸ length_splitGap_le false cs

theorem ofChars_of_rejected {error : Error} (h : (splitGap false cs).2 = c :: rest)
    (hnext : Lexeme.next c rest = .rejected error extent) :
    ofChars cs = ⟨[], (splitGap false cs).1, c :: rest, some ⟨error, extent⟩⟩ := by
  rw [ofChars]
  split
  next hnil => cases hnil.symm.trans h
  next hcons =>
    cases hcons.symm.trans h
    split
    next hread => cases hread.symm.trans hnext
    next hrejected =>
      cases hrejected.symm.trans hnext
      rfl

/-- The cut of a text with more characters in the gap before it. -/
def delay (text : List Char) (cut : Cut) : Cut :=
  match cut.pieces with
  | [] => { cut with gap := text ++ cut.gap }
  | piece :: pieces => { cut with pieces := { piece with gap := text ++ piece.gap } :: pieces }

/-- What is skipped at the beginning of a text only makes the first gap longer. -/
theorem ofChars_append
    (h : splitGap false (text ++ rest) = (text ++ (splitGap false rest).1, (splitGap false rest).2)) :
    ofChars (text ++ rest) = (ofChars rest).delay text := by
  obtain ⟨hgap, hrest⟩ := Prod.mk.inj h
  cases hsplit : (splitGap false rest).2 with
  | nil => rw [ofChars_of_nil (hrest.trans hsplit), ofChars_of_nil hsplit, hgap]; rfl
  | cons c cs =>
    cases hnext : Lexeme.next c cs with
    | read kind lexeme literal others =>
      rw [ofChars_of_read (hrest.trans hsplit) hnext, ofChars_of_read hsplit hnext, hgap]
      rfl
    | rejected error extent =>
      rw [ofChars_of_rejected (hrest.trans hsplit) hnext, ofChars_of_rejected hsplit hnext, hgap]
      rfl

/-- The tokens of a cut that begins at a place, or its fault. -/
def result (place : Place) (cut : Cut) : Except Fault (List Token) :=
  let place' := (placeBehind place cut.pieces).after cut.gap
  match cut.rejection with
  | none => .ok (placePieces place cut.pieces ++ [.endMark place'])
  | some rejection =>
    .error ⟨rejection.error, place'.offset, place'.offset + byteLength rejection.extent⟩

theorem result_delay (place : Place) (text : List Char) (cut : Cut) :
    (cut.delay text).result place = cut.result (place.after text) := by
  obtain ⟨pieces, gap, remainder, rejection⟩ := cut
  cases pieces <;> simp [delay, result, placePieces, placeBehind, Place.after_append]

theorem result_cons (place : Place) (kind : Kind) (text : List Char) (literal : Option Value)
    (cut : Cut) :
    ({ cut with pieces := ⟨[], kind, text, literal⟩ :: cut.pieces } : Cut).result place =
      (cut.result (place.after text)).map
        (⟨kind, .ofList text, literal, place.position, ⟨place.offset, (place.after text).offset⟩⟩
          :: ·) := by
  obtain ⟨pieces, gap, remainder, rejection⟩ := cut
  cases rejection <;> rfl

end Cut

theorem scan_eq_result (source : String) : scan source = (Cut.ofChars source.toList).result .origin := by
  rw [scan, Scan.ofString, Scan.ofCut, Cut.result]
  cases (Cut.ofChars source.toList).rejection <;> rfl

/-! ## Skipping -/

theorem longest_blanks {c : Char} (hc : isBlank c) (cs : List Char) :
    Longest none ((c :: cs).takeWhile isBlank) ((c :: cs).dropWhile isBlank) := by
  have htake : (c :: cs).takeWhile isBlank = c :: cs.takeWhile isBlank :=
    List.takeWhile_cons_of_pos hc
  constructor
  · have hall : ∀ d ∈ (c :: cs).takeWhile isBlank, isBlank d :=
      fun d hd ↦ List.mem_takeWhile_imp hd
    rw [htake] at hall ⊢
    exact .blanks fun d hd ↦ isBlank_iff.1 (hall d hd)
  · intro other text' hother hfirst
    rw [List.takeWhile_append_dropWhile] at hfirst
    refine length_le_takeWhile hfirst fun d hd ↦ isBlank_iff.2 ?_
    obtain ⟨e, es, rfl⟩ := List.exists_cons_of_ne_nil hother.ne_nil
    obtain ⟨rfl, -⟩ := List.cons_prefix_cons.1 hfirst
    rcases List.mem_cons.1 hd with rfl | hd
    · exact isBlank_iff.1 hc
    · exact (hother.of_blank (isBlank_iff.1 hc)).2 d hd
  · simp

theorem longest_comment (cs : List Char) :
    Longest none ('-' :: '-' :: cs.takeWhile (· ≠ '\n')) (cs.dropWhile (· ≠ '\n')) := by
  constructor
  · exact .comment (notMem_takeWhile_ne '\n' cs)
  · intro other text' hother hfirst
    rw [List.cons_append, List.cons_append, List.takeWhile_append_dropWhile] at hfirst
    obtain ⟨e, es, rfl⟩ := List.exists_cons_of_ne_nil hother.ne_nil
    obtain ⟨rfl, -⟩ := List.cons_prefix_cons.1 hfirst
    have hpunctuation : Punctuation '-' := ⟨by decide, by decide, by decide, by decide⟩
    rcases hother.of_punctuation hpunctuation with ⟨-, line, htext, hline⟩ | ⟨symbol, -, htext⟩
    · rw [htext] at hfirst ⊢
      have hle := length_le_takeWhile (p := (· ≠ '\n'))
        (List.cons_prefix_cons.1 (List.cons_prefix_cons.1 hfirst).2).2
        fun d hd ↦ decide_eq_true fun heq ↦ hline (heq ▸ hd)
      exact Nat.succ_le_succ (Nat.succ_le_succ hle)
    · have hshort : symbol.text.toList.length ≤ 2 := by cases symbol <;> decide
      rw [htext]
      exact Nat.le_trans hshort (by simp)
  · simp

/-! ## The scan of any text -/

@[simp]
theorem offset_origin : Place.origin.offset = 0 := rfl

theorem endMark_eq_tokenAt (before : List Char) :
    Token.endMark (Place.origin.after before) = tokenAt before .eof [] none := by
  simp [Token.endMark, tokenAt, Span.point]

/-- Behind `before` the text is scanned by the rules as the scanner cuts it. -/
def IsCut (before cs : List Char) : Prop :=
  Scans before cs ((Cut.ofChars cs).result (Place.origin.after before))

/-- Skipping the longest match that is skipped does not change the tokens behind it. -/
theorem isCut_of_skip {before text rest : List Char} (hlongest : Longest none text rest)
    (hgap : splitGap false (text ++ rest) =
      (text ++ (splitGap false rest).1, (splitGap false rest).2))
    (hrest : IsCut (before ++ text) rest) : IsCut before (text ++ rest) := by
  rw [IsCut, Cut.ofChars_append hgap, Cut.result_delay, ← Place.after_append]
  exact .skip hlongest hrest

theorem isCut_blanks {c : Char} {cs : List Char} (hblank : isBlank c)
    (hrest : ∀ before, IsCut before ((c :: cs).dropWhile isBlank)) (before : List Char) :
    IsCut before (c :: cs) := by
  have hgap := splitGap_blanks (fun d (hd : d ∈ (c :: cs).takeWhile isBlank) ↦
    List.mem_takeWhile_imp hd) ((c :: cs).dropWhile isBlank)
  have hcut := isCut_of_skip (longest_blanks hblank cs) hgap (hrest (before ++ _))
  rwa [List.takeWhile_append_dropWhile] at hcut

theorem isCut_comment {cs : List Char} (hrest : ∀ before, IsCut before (cs.dropWhile (· ≠ '\n')))
    (before : List Char) : IsCut before ('-' :: '-' :: cs) := by
  have hgap := splitGap_comment (notMem_takeWhile_ne '\n' cs) (head?_dropWhile_ne '\n' cs)
  have hcut := isCut_of_skip (longest_comment cs) hgap (hrest (before ++ _))
  rwa [List.cons_append, List.cons_append, List.takeWhile_append_dropWhile] at hcut

/-- What cannot be read stops the scan as the rules say. -/
theorem scans_of_rejected {cs extent : List Char} {c : Char} {error : Error} (before : List Char)
    (hblank : ¬isBlank c) (hcomment : ¬(c = '-' ∧ cs.head? = some '-'))
    (hnext : Lexeme.next c cs = .rejected error extent) :
    Scans before (c :: cs) (.error (faultAt before error extent)) := by
  rcases Lexeme.rejected_next hblank hcomment hnext with
    ⟨rest, hsplit, hlongest, hdigits, hrange, rfl⟩ | ⟨rfl, hnone, rfl, rfl⟩ | ⟨hne, hnone, rfl, rfl⟩
  · rw [hsplit]
    exact .outOfRange hlongest hdigits hrange
  · exact .unterminated hnone
  · exact .unexpected hne hnone

theorem isCut_lexeme {c : Char} {cs : List Char} (hblank : ¬isBlank c)
    (hcomment : ¬(c = '-' ∧ cs.head? = some '-'))
    (hrest : ∀ rest, rest.length < (c :: cs).length → ∀ before, IsCut before rest)
    (before : List Char) : IsCut before (c :: cs) := by
  have hgap := splitGap_of_ne hblank hcomment
  have hfirst : (splitGap false (c :: cs)).2 = c :: cs := by rw [hgap]
  rw [IsCut]
  cases hnext : Lexeme.next c cs with
  | read kind text literal rest =>
    obtain ⟨hsplit, hlongest, hliteral⟩ := Lexeme.longest_next hblank hcomment hnext
    have hcut := hrest rest (Lexeme.length_rest_next hnext) (before ++ text)
    rw [Cut.ofChars_of_read hfirst hnext, hgap, Cut.result_cons, ← Place.after_append, hsplit]
    simpa [tokenAt] using Scans.token hlongest hliteral hcut
  | rejected error extent =>
    rw [Cut.ofChars_of_rejected hfirst hnext, hgap]
    have hfault := scans_of_rejected before hblank hcomment hnext
    simpa [Cut.result, placeBehind, faultAt] using hfault

/-- Wherever a text is cut, the tokens are those of the longest matches. -/
theorem isCut (before cs : List Char) : IsCut before cs := by
  induction hlength : cs.length using Nat.strongRecOn generalizing before cs with
  | ind length ih =>
    subst hlength
    cases cs with
    | nil =>
      rw [IsCut, Cut.ofChars_of_nil rfl, Cut.result]
      exact endMark_eq_tokenAt before ▸ .finish
    | cons c cs =>
      by_cases hblank : isBlank c
      · refine isCut_blanks hblank (fun before ↦ ih _ ?_ before _ rfl) before
        rw [List.dropWhile_cons_of_pos hblank]
        exact Nat.lt_succ_of_le (Lexeme.length_dropWhile_le _ _)
      by_cases hcomment : c = '-' ∧ cs.head? = some '-'
      · obtain ⟨rfl, hhead⟩ := hcomment
        obtain ⟨cs, rfl⟩ := List.head?_eq_some_iff.1 hhead
        refine isCut_comment (fun before ↦ ih _ ?_ before _ rfl) before
        exact Nat.lt_succ_of_le (Nat.le_succ_of_le (Lexeme.length_dropWhile_le _ _))
      · exact isCut_lexeme hblank hcomment (fun rest hlt before ↦ ih _ hlt before rest rfl) before

/-- The scan of a text is the one by longest matches. -/
theorem scan_eq_iff {source : String} {result : Except Fault (List Token)} :
    scan source = result ↔ Scans [] source.toList result := by
  have hscans : Scans [] source.toList (scan source) :=
    scan_eq_result source ▸ isCut [] source.toList
  exact ⟨fun h ↦ h ▸ hscans, fun h ↦ hscans.unique h⟩

/-! ## Given texts -/

/-- The cut of a text into so many pieces at most, which can be computed for a given text. -/
def Cut.upTo : Nat → List Char → Cut
  | 0, cs => ⟨[], [], cs, none⟩
  | count + 1, cs =>
    match (splitGap false cs).2 with
    | [] => ⟨[], (splitGap false cs).1, [], none⟩
    | c :: rest =>
      match Lexeme.next c rest with
      | .read kind text literal others =>
        { upTo count others with
          pieces := ⟨(splitGap false cs).1, kind, text, literal⟩ :: (upTo count others).pieces }
      | .rejected error extent => ⟨[], (splitGap false cs).1, c :: rest, some ⟨error, extent⟩⟩

theorem Cut.ofChars_eq_upTo {count : Nat} {cs : List Char} (h : cs.length < count) :
    ofChars cs = upTo count cs := by
  induction count generalizing cs with
  | zero => exact absurd h (Nat.not_lt_zero _)
  | succ count ih =>
    rw [upTo]
    cases hsplit : (splitGap false cs).2 with
    | nil => exact ofChars_of_nil hsplit
    | cons c rest =>
      cases hnext : Lexeme.next c rest with
      | read kind text literal others =>
        have hlt := length_lt_of_read hsplit hnext
        rw [ofChars_of_read hsplit hnext, ih (by omega)]
        simp only [hnext]
      | rejected error extent =>
        rw [ofChars_of_rejected hsplit hnext]
        simp only [hnext]

theorem scan_eq_upTo (source : String) :
    scan source =
      (Cut.upTo (source.toList.length + 1) source.toList).result .origin := by
  rw [scan_eq_result, Cut.ofChars_eq_upTo (Nat.lt_succ_self _)]

end ScopeScript
