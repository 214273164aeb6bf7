import ScopeScript.Text.LineTable

/-!
# Stretches of a text

A stretch of a text begins and ends between two characters, and its span counts the bytes before its
beginning and before its end. A text is split at a byte offset exactly where a stretch may begin or end.
-/

namespace ScopeScript

theorem eq_nil_of_byteLength {cs : List Char} (h : byteLength cs = 0) : cs = [] := by
  cases cs with
  | nil => rfl
  | cons c cs =>
    have hpos := c.utf8Size_pos
    rw [byteLength_cons] at h
    omega

/-- Of two beginnings of a text, the one with fewer bytes begins the other. -/
theorem prefix_of_byteLength_le {cs ds text : List Char} (hcs : cs <+: text) (hds : ds <+: text)
    (hle : byteLength cs ≤ byteLength ds) : cs <+: ds := by
  rcases List.prefix_or_prefix_of_prefix hcs hds with h | ⟨rest, rfl⟩
  · exact h
  · rw [byteLength_append] at hle
    have hrest : rest = [] := eq_nil_of_byteLength (by omega)
    simp [hrest]

/-- No beginning of a text ends inside a character. -/
theorem le_byteLength_of_prefix {part front rest : List Char} {c : Char}
    (h : part <+: front ++ c :: rest) (hlt : byteLength front < byteLength part) :
    byteLength front + c.utf8Size ≤ byteLength part := by
  obtain ⟨more, rfl⟩ := prefix_of_byteLength_le (List.prefix_append _ _) h (Nat.le_of_lt hlt)
  have hmore : more <+: c :: rest := (List.prefix_append_right_inj front).1 h
  cases more with
  | nil => simp at hlt
  | cons d more =>
    obtain ⟨rfl, -⟩ := List.cons_prefix_cons.1 hmore
    rw [byteLength_append, byteLength_cons]
    omega

/-- Up to its last byte, a text is divided between two characters or inside one. -/
theorem exists_division {cs : List Char} {offset : Nat} (h : offset ≤ byteLength cs) :
    ∃ front back, cs = front ++ back ∧ (offset = byteLength front ∨
      ∃ c rest, back = c :: rest ∧ byteLength front < offset ∧
        offset < byteLength front + c.utf8Size) := by
  induction cs generalizing offset with
  | nil => exact ⟨[], [], rfl, .inl (Nat.le_zero.1 h)⟩
  | cons c cs ih =>
    rw [byteLength_cons] at h
    rcases Nat.lt_or_ge offset c.utf8Size with hlt | hle
    · rcases Nat.eq_zero_or_pos offset with hzero | hpos
      · exact ⟨[], c :: cs, rfl, .inl hzero⟩
      · exact ⟨[], c :: cs, rfl, .inr ⟨c, cs, rfl, hpos, by simpa using hlt⟩⟩
    · have hrest : offset - c.utf8Size ≤ byteLength cs := by omega
      obtain ⟨front, back, rfl, hdivision⟩ := ih hrest
      refine ⟨c :: front, back, rfl, ?_⟩
      rw [byteLength_cons]
      rcases hdivision with heq | ⟨d, rest, hback, hlt, hlt'⟩
      · exact .inl (by omega)
      · exact .inr ⟨d, rest, hback, by omega, by omega⟩

/-! ## Splitting at an offset -/

theorem splitBytes?_eq_some_iff {cs front back : List Char} {offset : Nat} :
    splitBytes? cs offset = some (front, back) ↔ cs = front ++ back ∧ offset = byteLength front := by
  fun_induction splitBytes? cs offset generalizing front with
  | case1 cs =>
    constructor
    · rintro ⟨⟩
      exact ⟨rfl, rfl⟩
    · rintro ⟨rfl, hoffset⟩
      rw [eq_nil_of_byteLength hoffset.symm, List.nil_append]
  | case2 offset =>
    simp only [reduceCtorEq, false_iff, not_and]
    intro hnil
    simp [(List.append_eq_nil_iff.1 hnil.symm).1]
  | case3 c cs offset hle ih =>
    cases front with
    | nil => simp
    | cons d front =>
      simp only [Option.map_eq_some_iff, Prod.exists, Prod.map_apply, id_eq, Prod.mk.injEq,
        List.cons_append, List.cons.injEq, byteLength_cons]
      constructor
      · rintro ⟨front', back', hsplit, ⟨rfl, rfl⟩, rfl⟩
        obtain ⟨hcs, hoffset⟩ := ih.1 hsplit
        exact ⟨⟨rfl, hcs⟩, by omega⟩
      · rintro ⟨⟨rfl, hcs⟩, hoffset⟩
        exact ⟨front, back, ih.2 ⟨hcs, by omega⟩, ⟨rfl, rfl⟩, rfl⟩
  | case4 c cs offset hlt =>
    simp only [reduceCtorEq, false_iff, not_and]
    intro hcs
    cases front with
    | nil => simp
    | cons d front =>
      obtain ⟨rfl, -⟩ := List.cons.inj hcs
      rw [byteLength_cons]
      omega

theorem splitBytes?_append (front back : List Char) :
    splitBytes? (front ++ back) (byteLength front) = some (front, back) :=
  splitBytes?_eq_some_iff.2 ⟨rfl, rfl⟩

/-! ## Spans of stretches -/

/-- The text at the span, which begins and ends between two characters. -/
def Span.Selects (span : Span) (source text : List Char) : Prop :=
  ∃ before after, source = before ++ (text ++ after) ∧
    span = ⟨byteLength before, byteLength (before ++ text)⟩

namespace Span.Selects

variable {span : Span} {source text : List Char}

theorem start_le_stop (h : span.Selects source text) : span.start ≤ span.stop := by
  obtain ⟨before, after, -, rfl⟩ := h
  simp

theorem stop_le (h : span.Selects source text) : span.stop ≤ byteLength source := by
  obtain ⟨before, after, rfl, rfl⟩ := h
  simp

theorem start_eq_stop_iff (h : span.Selects source text) : span.start = span.stop ↔ text = [] := by
  obtain ⟨before, after, -, rfl⟩ := h
  constructor
  · intro heq
    have hlength : byteLength before = byteLength before + byteLength text := by simpa using heq
    exact eq_nil_of_byteLength (by omega)
  · rintro rfl
    simp

end Span.Selects

/-- A stretch is taken from a text exactly where it is. -/
theorem Span.slice?_eq_some_iff {span : Span} {source text : List Char} :
    span.slice? source = some text ↔ span.Selects source text := by
  obtain ⟨start, stop⟩ := span
  rw [slice?]
  constructor
  · intro h
    split at h
    next hle =>
      have hle : start ≤ stop := hle
      simp only [Option.bind_eq_bind, Option.bind_eq_some_iff, Option.pure_def, Option.some.injEq,
        Prod.exists] at h
      obtain ⟨before, rest, hsplit, inside, after, hsplit', rfl⟩ := h
      obtain ⟨rfl, rfl⟩ := splitBytes?_eq_some_iff.1 hsplit
      obtain ⟨rfl, hlength⟩ := splitBytes?_eq_some_iff.1 hsplit'
      have hstop : stop = byteLength (before ++ inside) := by
        rw [byteLength_append]
        omega
      exact ⟨before, after, rfl, by rw [hstop]⟩
    next => cases h
  · rintro ⟨before, after, rfl, hspan⟩
    obtain ⟨rfl, rfl⟩ := Span.mk.inj hspan
    rw [if_pos (by simp), splitBytes?_append, byteLength_append, Nat.add_sub_cancel_left]
    simp [splitBytes?_append]

end ScopeScript
