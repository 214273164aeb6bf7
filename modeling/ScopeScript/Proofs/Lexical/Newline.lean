import ScopeScript.Proofs.Lexical.Tokens
import ScopeScript.Proofs.Tree.Map

/-!
# A newline separates scans

No lexeme but a string contains a newline, and a string is read only when its end is seen. So a text
that is scanned to its end is scanned in the same way before a newline, whatever follows, and what
follows is scanned as if it stood alone, only further down. A text that is not scanned to its end is
wrong in the same way before a newline, unless it ends in an open string, which may be closed behind it.
-/

namespace ScopeScript

theorem takeWhile_append_of_neg {α : Type} {p : α → Bool} {x : α} (h : ¬p x) (xs ys : List α) :
    (xs ++ x :: ys).takeWhile p = xs.takeWhile p := by
  induction xs with
  | nil => rw [List.nil_append, List.takeWhile_cons_of_neg h, List.takeWhile_nil]
  | cons y xs ih => by_cases hy : p y <;> simp [hy, ih]

theorem dropWhile_append_of_neg {α : Type} {p : α → Bool} {x : α} (h : ¬p x) (xs ys : List α) :
    (xs ++ x :: ys).dropWhile p = xs.dropWhile p ++ x :: ys := by
  induction xs with
  | nil => rw [List.nil_append, List.dropWhile_cons_of_neg h, List.dropWhile_nil, List.nil_append]
  | cons y xs ih => by_cases hy : p y <;> simp [hy, ih]

/-! ## Lexemes before a newline -/

namespace Lexeme

variable {c : Char} {cs rest text extent : List Char} {kind : Kind} {literal : Option Value}
  {error : Error}

theorem ofWord_newline {word : List Char} (h : ofWord word cs = read kind text literal rest)
    (more : List Char) :
    ofWord word (cs ++ more) = read kind text literal (rest ++ more) := by
  unfold ofWord at h ⊢
  split at h <;> cases h <;> rfl

theorem fraction?_newline (cs more : List Char) :
    fraction? (cs ++ '\n' :: more) = fraction? cs := by
  cases cs with
  | nil => rfl
  | cons c cs =>
    by_cases hc : c = '.'
    · subst hc
      simp only [List.cons_append, fraction?,
        takeWhile_append_of_neg (show ¬('\n' : Char).isDigit by decide)]
    · simp [fraction?, hc]

theorem ofNumber_newline {digits : List Char} (h : ofNumber digits cs = read kind text literal rest)
    (more : List Char) :
    ofNumber digits (cs ++ '\n' :: more) = read kind text literal (rest ++ '\n' :: more) := by
  unfold ofNumber at h ⊢
  rw [fraction?_newline]
  split at h
  next decimals hsome =>
    cases h
    have hle : decimals.length + 1 ≤ cs.length := by
      obtain ⟨ds, rfl, hds, -⟩ := fraction?_eq_some_iff.1 hsome
      have hsub : (ds.takeWhile Char.isDigit).Sublist ds := List.takeWhile_sublist _
      exact Nat.succ_le_succ (hds ▸ hsub.length_le)
    rw [List.drop_append_of_le_length hle]
  next =>
    split at h
    next hrange =>
      cases h
      rw [if_pos hrange]
    next => cases h

theorem ofNumber_newline_of_rejected {digits : List Char}
    (h : ofNumber digits cs = rejected error extent) (more : List Char) :
    ofNumber digits (cs ++ '\n' :: more) = rejected error extent := by
  unfold ofNumber at h ⊢
  rw [fraction?_newline]
  split at h
  next => cases h
  next =>
    split at h
    next => cases h
    next hrange =>
      rw [if_neg hrange]
      exact h

theorem ofString_of_quote {body : List Char} (h : '"' ∉ body) (rest : List Char) :
    ofString (body ++ '"' :: rest) =
      read .string ('"' :: (body ++ ['"'])) (some (.string (.ofList body))) rest := by
  have hall : ∀ d ∈ body, decide (d ≠ '"') := fun d hd ↦ decide_eq_true fun heq ↦ h (heq ▸ hd)
  have htake : (body ++ '"' :: rest).takeWhile (· ≠ '"') = body := by
    rw [List.takeWhile_append_of_pos hall, List.takeWhile_cons_of_neg (by decide), List.append_nil]
  have hdrop : (body ++ '"' :: rest).dropWhile (· ≠ '"') = '"' :: rest := by
    rw [List.dropWhile_append_of_pos hall, List.dropWhile_cons_of_neg (by decide)]
  rw [ofString, hdrop, htake]
  rfl

theorem ofString_newline (h : ofString cs = read kind text literal rest) (more : List Char) :
    ofString (cs ++ more) = read kind text literal (rest ++ more) := by
  obtain ⟨hsplit, hlongest, -⟩ := longest_string h
  obtain ⟨c, text, rfl⟩ := List.exists_cons_of_ne_nil hlongest.matches_.ne_nil
  obtain ⟨rfl, rfl⟩ := List.cons.inj hsplit
  obtain ⟨-, body, rfl, hbody⟩ := hlongest.matches_.of_quote
  have hread := ofString_of_quote hbody rest
  have hmore := ofString_of_quote hbody (rest ++ more)
  change ofString (body ++ ['"'] ++ rest) = _ at h
  change ofString (body ++ ['"'] ++ rest ++ more) = _
  rw [List.append_assoc, List.singleton_append] at h
  rw [List.append_assoc, List.append_assoc, List.singleton_append, hmore]
  cases hread.symm.trans h
  rfl

theorem isPrefixOf_append_cons {α : Type} [BEq α] [LawfulBEq α] {x : α} {xs : List α} (h : x ∉ xs)
    (ys zs : List α) : xs.isPrefixOf (ys ++ x :: zs) = xs.isPrefixOf ys := by
  induction xs generalizing ys with
  | nil => cases ys <;> rfl
  | cons a xs ih =>
    obtain ⟨hne, hxs⟩ := List.ne_and_not_mem_of_not_mem_cons h
    cases ys with
    | nil => simp [List.isPrefixOf, Ne.symm hne]
    | cons y ys => simp only [List.cons_append, List.isPrefixOf, ih hxs]

theorem symbol?_newline (cs more : List Char) : symbol? (cs ++ '\n' :: more) = symbol? cs := by
  have hline (symbol : Symbol) : '\n' ∉ symbol.text.toList := by cases symbol <;> decide
  simp only [symbol?, isPrefixOf_append_cons (hline _)]

theorem ofSymbol_newline (h : ofSymbol c cs = read kind text literal rest) (more : List Char) :
    ofSymbol c (cs ++ '\n' :: more) = read kind text literal (rest ++ '\n' :: more) := by
  have hsymbol : symbol? (c :: (cs ++ '\n' :: more)) = symbol? (c :: cs) :=
    symbol?_newline (c :: cs) more
  unfold ofSymbol at h ⊢
  rw [hsymbol]
  split at h
  next symbol hfound =>
    cases h
    have hle : symbol.text.toList.length ≤ (c :: cs).length :=
      (List.isPrefixOf_iff_prefix.1 (symbol?_eq_some hfound)).length_le
    rw [← List.cons_append, List.drop_append_of_le_length hle]
  next => cases h

theorem ofSymbol_newline_of_rejected (h : ofSymbol c cs = rejected error extent) (more : List Char) :
    ofSymbol c (cs ++ '\n' :: more) = rejected error extent := by
  have hsymbol : symbol? (c :: (cs ++ '\n' :: more)) = symbol? (c :: cs) :=
    symbol?_newline (c :: cs) more
  unfold ofSymbol at h ⊢
  rw [hsymbol]
  split at h
  next => cases h
  next => exact h

/-- What is read from a text is read from it before a newline. -/
theorem next_newline (h : next c cs = read kind text literal rest) (more : List Char) :
    next c (cs ++ '\n' :: more) = read kind text literal (rest ++ '\n' :: more) := by
  unfold next at h ⊢
  split at h
  next hword =>
    have hline : ¬isWordChar '\n' := by decide
    rw [if_pos hword, takeWhile_append_of_neg hline, dropWhile_append_of_neg hline]
    exact ofWord_newline h _
  next hword =>
    rw [if_neg hword]
    split at h
    next hdigit =>
      have hline : ¬('\n' : Char).isDigit := by decide
      rw [if_pos hdigit, takeWhile_append_of_neg hline, dropWhile_append_of_neg hline]
      exact ofNumber_newline h more
    next hdigit =>
      rw [if_neg hdigit]
      split at h
      next hquote =>
        rw [if_pos hquote]
        exact ofString_newline h _
      next hquote =>
        rw [if_neg hquote]
        exact ofSymbol_newline h more

/-- What is rejected is rejected before a newline, unless it is a string that is not closed. -/
theorem next_newline_of_rejected (h : next c cs = rejected error extent)
    (herror : error ≠ .unterminatedString) (more : List Char) :
    next c (cs ++ '\n' :: more) = rejected error extent := by
  unfold next at h ⊢
  split at h
  next =>
    unfold ofWord at h
    split at h <;> cases h
  next hword =>
    rw [if_neg hword]
    split at h
    next hdigit =>
      have hline : ¬('\n' : Char).isDigit := by decide
      rw [if_pos hdigit, takeWhile_append_of_neg hline, dropWhile_append_of_neg hline]
      exact ofNumber_newline_of_rejected h more
    next hdigit =>
      rw [if_neg hdigit]
      split at h
      next => exact absurd (rejected_string h).2.1 herror
      next hquote =>
        rw [if_neg hquote]
        exact ofSymbol_newline_of_rejected h more

end Lexeme

/-! ## Gaps before a newline -/

/-- The gap of a text before a newline reaches over the newline if nothing else was left. -/
def overNewline (more : List Char) (split : List Char × List Char) : List Char × List Char :=
  match split.2 with
  | [] => (split.1 ++ '\n' :: (splitGap false more).1, (splitGap false more).2)
  | c :: cs => (split.1, c :: cs ++ '\n' :: more)

theorem overNewline_map (more : List Char) (c : Char) (split : List Char × List Char) :
    overNewline more (split.map (c :: ·) id) = (overNewline more split).map (c :: ·) id := by
  obtain ⟨gap, rest⟩ := split
  cases rest <;> rfl

theorem splitGap_newline (comment : Bool) (cs more : List Char) :
    splitGap comment (cs ++ '\n' :: more) = overNewline more (splitGap comment cs) := by
  fun_induction splitGap comment cs with
  | case1 comment =>
    cases comment with
    | true => rfl
    | false => exact splitGap_of_blank (by decide) more
  | case2 c cs ih => rw [overNewline_map, ← ih, List.cons_append, splitGap]
  | case3 c cs hblank ih => rw [overNewline_map, ← ih, List.cons_append, splitGap, if_pos hblank]
  | case4 c cs hblank hcomment ih =>
    have hhead : (cs ++ '\n' :: more).head? = some '-' := by simp [hcomment.2]
    rw [overNewline_map, ← ih, List.cons_append, splitGap, if_neg hblank,
      if_pos ⟨hcomment.1, hhead⟩]
  | case5 c cs hblank hcomment =>
    have hcomment' : ¬(c = '-' ∧ (cs ++ '\n' :: more).head? = some '-') := by
      cases cs with
      | nil => simp
      | cons d ds => simpa using hcomment
    exact splitGap_of_ne hblank hcomment'

/-! ## Cuts before a newline -/

namespace Cut

/-- The pieces of one text, and behind them those of another. -/
def follow (pieces : List Piece) (cut : Cut) : Cut := { cut with pieces := pieces ++ cut.pieces }

/-- A text that is cut to its end is cut in the same way before a newline; the gap at its end and the
newline come before the first piece of what follows. -/
theorem ofChars_newline {cs : List Char} (h : (ofChars cs).rejection = none) (more : List Char) :
    ofChars (cs ++ '\n' :: more) =
      ((ofChars more).delay ((ofChars cs).gap ++ ['\n'])).follow (ofChars cs).pieces := by
  induction hlength : cs.length using Nat.strongRecOn generalizing cs with
  | ind length ih =>
    have hgap := splitGap_newline false cs more
    cases hsplit : (splitGap false cs).2 with
    | nil =>
      have hall : (splitGap false cs).1 = cs := by
        have hsame := splitGap_append false cs
        rwa [hsplit, List.append_nil] at hsame
      have htext : cs ++ '\n' :: more = (cs ++ ['\n']) ++ more := by simp
      rw [overNewline, hsplit, hall] at hgap
      rw [ofChars_of_nil hsplit, htext, ofChars_append (by rw [← htext, hgap]; simp), hall]
      rfl
    | cons c rest =>
      cases hnext : Lexeme.next c rest with
      | read kind text literal others =>
        have hlt := length_lt_of_read hsplit hnext
        rw [overNewline, hsplit] at hgap
        rw [ofChars_of_read hsplit hnext] at h
        rw [ofChars_of_read hsplit hnext,
          ofChars_of_read (congrArg Prod.snd hgap) (Lexeme.next_newline hnext more), hgap,
          ih _ (hlength ▸ hlt) h rfl]
        rfl
      | rejected error extent =>
        rw [ofChars_of_rejected hsplit hnext] at h
        cases h

/-- What is rejected in a text is rejected before a newline, behind the same pieces, unless it is a
string that is not closed. -/
theorem ofChars_newline_of_rejected {cs : List Char} {rejection : Rejection}
    (h : (ofChars cs).rejection = some rejection) (herror : rejection.error ≠ .unterminatedString)
    (more : List Char) :
    ofChars (cs ++ '\n' :: more) =
      { ofChars cs with remainder := (ofChars cs).remainder ++ '\n' :: more } := by
  induction hlength : cs.length using Nat.strongRecOn generalizing cs with
  | ind length ih =>
    have hgap := splitGap_newline false cs more
    cases hsplit : (splitGap false cs).2 with
    | nil =>
      rw [ofChars_of_nil hsplit] at h
      cases h
    | cons c rest =>
      rw [overNewline, hsplit] at hgap
      have hrest : (splitGap false (cs ++ '\n' :: more)).2 = c :: (rest ++ '\n' :: more) :=
        congrArg Prod.snd hgap
      cases hnext : Lexeme.next c rest with
      | read kind text literal others =>
        have hlt := length_lt_of_read hsplit hnext
        rw [ofChars_of_read hsplit hnext] at h
        rw [ofChars_of_read hsplit hnext, ofChars_of_read hrest (Lexeme.next_newline hnext more),
          hgap, ih _ (hlength ▸ hlt) h rfl]
      | rejected error extent =>
        rw [ofChars_of_rejected hsplit hnext] at h
        obtain rfl := Option.some.inj h
        rw [ofChars_of_rejected hsplit hnext,
          ofChars_of_rejected hrest (Lexeme.next_newline_of_rejected hnext herror more), hgap]
        rfl

end Cut

/-! ## Places further down -/

/-- The place so many lines and bytes further down, in the same column. -/
def Place.below (lines bytes : Nat) (place : Place) : Place :=
  ⟨place.offset + bytes, ⟨place.position.line + lines, place.position.column⟩⟩

/-- The token so many lines and bytes further down, in the same column. -/
def Token.below (lines bytes : Nat) (token : Token) : Token :=
  { token with
    position := ⟨token.position.line + lines, token.position.column⟩
    span := token.span.shift bytes }

namespace Place

variable (lines bytes : Nat) (place : Place)

theorem below_advance (c : Char) :
    (place.below lines bytes).advance c = (place.advance c).below lines bytes := by
  simp only [advance, below, Position.advance]
  split <;> simp [Nat.add_right_comm]

theorem below_after (cs : List Char) :
    (place.below lines bytes).after cs = (place.after cs).below lines bytes := by
  induction cs generalizing place with
  | nil => rfl
  | cons c cs ih => rw [after_cons, after_cons, below_advance, ih]

theorem line_after (cs : List Char) :
    (place.after cs).position.line = place.position.line + cs.count '\n' := by
  induction cs generalizing place with
  | nil => rfl
  | cons c cs ih =>
    rw [after_cons, ih, List.count_cons]
    by_cases hc : c = '\n'
    · simp [advance, Position.advance, hc, Nat.add_comm, Nat.add_left_comm]
    · simp [advance, Position.advance, hc]

/-- Behind a newline a text begins anew, further down. -/
theorem after_newline (cs : List Char) :
    (origin.after cs).after ['\n'] = origin.below (cs.count '\n' + 1) (byteLength cs + 1) := by
  have hline := line_after origin cs
  have hoffset := offset_after origin cs
  rw [after_cons, after_nil, advance, hoffset, Position.advance, if_pos rfl, hline]
  simp [below, origin, Position.first, Nat.add_comm, Nat.add_left_comm]
  decide

end Place

theorem placePieces_below (lines bytes : Nat) (place : Place) (pieces : List Piece) :
    placePieces (place.below lines bytes) pieces =
      (placePieces place pieces).map (Token.below lines bytes) := by
  induction pieces generalizing place with
  | nil => rfl
  | cons piece pieces ih => simp only [placePieces, Place.below_after, ih]; rfl

theorem placeBehind_below (lines bytes : Nat) (place : Place) (pieces : List Piece) :
    placeBehind (place.below lines bytes) pieces = (placeBehind place pieces).below lines bytes := by
  induction pieces generalizing place with
  | nil => rfl
  | cons piece pieces ih => simp only [placeBehind, Place.below_after, ih]

theorem placePieces_append (place : Place) (pieces others : List Piece) :
    placePieces place (pieces ++ others) =
      placePieces place pieces ++ placePieces (placeBehind place pieces) others := by
  induction pieces generalizing place with
  | nil => rfl
  | cons piece pieces ih => simp [placePieces, placeBehind, ih]

theorem placeBehind_append (place : Place) (pieces others : List Piece) :
    placeBehind place (pieces ++ others) = placeBehind (placeBehind place pieces) others := by
  induction pieces generalizing place with
  | nil => rfl
  | cons piece pieces ih => simp [placeBehind, ih]

/-- The result of a scan so many lines and bytes further down. -/
def shiftScan (lines bytes : Nat) : Except Fault (List Token) → Except Fault (List Token)
  | .ok tokens => .ok (tokens.map (Token.below lines bytes))
  | .error fault => .error (fault.map (Span.shift bytes))

namespace Cut

theorem result_below (lines bytes : Nat) (place : Place) (cut : Cut) :
    cut.result (place.below lines bytes) = shiftScan lines bytes (cut.result place) := by
  obtain ⟨pieces, gap, remainder, rejection⟩ := cut
  cases rejection with
  | none =>
    simp only [result, shiftScan, placePieces_below, placeBehind_below, Place.below_after,
      List.map_append]
    rfl
  | some rejection =>
    simp only [result, shiftScan, placeBehind_below, Place.below_after]
    simp [Place.below, Fault.map, Span.shift, Nat.add_right_comm]

theorem result_follow (place : Place) (pieces : List Piece) (cut : Cut) :
    (cut.follow pieces).result place =
      (cut.result (placeBehind place pieces)).map (placePieces place pieces ++ ·) := by
  obtain ⟨others, gap, remainder, rejection⟩ := cut
  cases rejection with
  | none => simp [follow, result, placePieces_append, placeBehind_append, Except.map]
  | some rejection => simp [follow, result, placeBehind_append, Except.map]

end Cut

theorem Token.endMark_injective {place other : Place} (h : endMark place = endMark other) :
    place = other := by
  obtain ⟨offset, position⟩ := place
  obtain ⟨offset', position'⟩ := other
  simp only [endMark, Span.point, Token.mk.injEq, Span.mk.injEq] at h
  rw [h.2.2.2.1, h.2.2.2.2.1]

/-- The cut of a text that is scanned to its end stops at the end of the text. -/
theorem Cut.placeBehind_of_scan {source : String} {tokens : List Token}
    (h : scan source = .ok tokens) :
    (ofChars source.toList).rejection = none ∧
      tokens.dropLast = placePieces .origin (ofChars source.toList).pieces ∧
      (placeBehind .origin (ofChars source.toList).pieces).after (ofChars source.toList).gap =
        Place.origin.after source.toList := by
  obtain ⟨body, htokens, -⟩ := ((scan_eq_iff.1 h).tiles rfl).marked
  rw [List.nil_append, ← endMark_eq_tokenAt] at htokens
  rw [scan_eq_result, result] at h
  cases hrejection : (ofChars source.toList).rejection with
  | some rejection =>
    rw [hrejection] at h
    cases h
  | none =>
    rw [hrejection, Except.ok.injEq, htokens] at h
    obtain ⟨hpieces, hmark⟩ := List.append_inj' h rfl
    refine ⟨rfl, by rw [htokens, List.dropLast_concat, hpieces], ?_⟩
    exact Token.endMark_injective (List.cons.inj hmark).1

/-- A text that is scanned to its end, without the mark of the end, and what follows a newline behind
it are scanned one after the other. -/
theorem scan_newline {first : String} {tokens : List Token} (h : scan first = .ok tokens)
    (second : String) :
    scan (first ++ "\n" ++ second) =
      (shiftScan (first.toList.count '\n' + 1) (byteLength first.toList + 1) (scan second)).map
        (tokens.dropLast ++ ·) := by
  obtain ⟨hnone, hpieces, hplace⟩ := Cut.placeBehind_of_scan h
  have htext : (first ++ "\n" ++ second).toList = first.toList ++ '\n' :: second.toList := by simp
  let cut := Cut.ofChars first.toList
  let lines := first.toList.count '\n' + 1
  let bytes := byteLength first.toList + 1
  calc
    scan (first ++ "\n" ++ second)
        = (Cut.ofChars (first.toList ++ '\n' :: second.toList)).result .origin := by
      rw [scan_eq_result, htext]
    _ = (((Cut.ofChars second.toList).delay (cut.gap ++ ['\n'])).result
          (placeBehind .origin cut.pieces)).map (placePieces .origin cut.pieces ++ ·) := by
      rw [Cut.ofChars_newline hnone, Cut.result_follow]
    _ = ((Cut.ofChars second.toList).result
          ((Place.origin.after first.toList).after ['\n'])).map (tokens.dropLast ++ ·) := by
      rw [Cut.result_delay, Place.after_append, hplace, hpieces]
    _ = (shiftScan lines bytes (scan second)).map (tokens.dropLast ++ ·) := by
      rw [Place.after_newline, Cut.result_below, ← scan_eq_result]

/-- A text that cannot be scanned is wrong in the same way before a newline, unless it ends in an open
string. -/
theorem scan_newline_of_error {source : String} {fault : Fault} (h : scan source = .error fault)
    (herror : fault.error ≠ .unterminatedString) (more : String) :
    scan (source ++ "\n" ++ more) = .error fault := by
  have htext : (source ++ "\n" ++ more).toList = source.toList ++ '\n' :: more.toList := by simp
  rw [scan_eq_result, Cut.result] at h
  cases hrejection : (Cut.ofChars source.toList).rejection with
  | none =>
    rw [hrejection] at h
    cases h
  | some rejection =>
    rw [hrejection] at h
    obtain rfl := Except.error.inj h
    rw [scan_eq_result, htext, Cut.ofChars_newline_of_rejected hrejection herror, Cut.result]
    simp only [hrejection]

end ScopeScript
