import Mathlib.Data.List.DropRight
import ScopeScript.Proofs.Text.Stretches

/-!
# Positions from line tables

Bisection of an ascending row finds the last entry that is not above the key, so a line table finds the
line in which an offset lies. What it answers is the position that is counted from the beginning of the
text, at every offset. Positions between two characters are in the order of their offsets.
-/

namespace ScopeScript

/-! ## Counted positions -/

namespace Position

theorem lt_trans {first second third : Position} (h : first < second) (h' : second < third) :
    first < third := by
  change _ ∨ _ at h h' ⊢
  omega

theorem lt_advance (position : Position) (c : Char) : position < position.advance c := by
  change _ ∨ _
  unfold advance
  split
  · exact .inl (Nat.lt_succ_self _)
  · exact .inr ⟨rfl, Nat.lt_succ_self _⟩

/-- Behind any characters the position is a later one. -/
theorem lt_foldl_advance {cs : List Char} (hne : cs ≠ []) (position : Position) :
    position < cs.foldl advance position := by
  induction cs generalizing position with
  | nil => exact absurd rfl hne
  | cons c cs ih =>
    rw [List.foldl_cons]
    rcases eq_or_ne cs [] with rfl | hcs
    · exact position.lt_advance c
    · exact lt_trans (position.lt_advance c) (ih hcs _)

/-- The line counts the newlines, and the column the characters behind the last of them. -/
theorem foldl_advance_first (cs : List Char) :
    cs.foldl advance first = ⟨cs.count '\n' + 1, (cs.rtakeWhile (· ≠ '\n')).length + 1⟩ := by
  induction cs using List.reverseRecOn with
  | nil => rfl
  | append_singleton cs c ih =>
    rw [List.foldl_append, ih, List.foldl_cons, List.foldl_nil, advance, List.count_append,
      List.rtakeWhile_concat]
    by_cases hc : c = '\n'
    · simp [hc]
    · simp [hc]

/-- Behind a part of a text, places are counted on from where this part ends. -/
theorem locate_append (position : Position) (front back : List Char) (offset : Nat) :
    position.locate (front ++ back) (byteLength front + offset) =
      (front.foldl advance position).locate back offset := by
  induction front generalizing position with
  | nil => rw [List.nil_append, byteLength_nil, Nat.zero_add, List.foldl_nil]
  | cons c front ih =>
    obtain ⟨size, hsize⟩ := Nat.exists_eq_add_one.2 c.utf8Size_pos
    have hlength : byteLength (c :: front) + offset = size + byteLength front + offset + 1 := by
      rw [byteLength_cons, hsize]
      omega
    have hle : c.utf8Size ≤ size + byteLength front + offset + 1 := by omega
    have hrest : size + byteLength front + offset + 1 - c.utf8Size = byteLength front + offset := by
      omega
    rw [hlength, List.cons_append, locate, if_pos hle, hrest, ih, List.foldl_cons]

/-- The position at the byte where a part of a text ends is found by counting this part. -/
theorem locate_byteLength (position : Position) (front back : List Char) :
    position.locate (front ++ back) (byteLength front) = front.foldl advance position := by
  have h := position.locate_append front back 0
  rw [Nat.add_zero] at h
  rw [h]
  cases back <;> rfl

/-- Past the end of a text every offset counts as its end. -/
theorem locate_min (position : Position) (cs : List Char) (offset : Nat) :
    position.locate cs (min offset (byteLength cs)) = position.locate cs offset := by
  rcases Nat.le_total offset (byteLength cs) with hle | hle
  · rw [Nat.min_eq_left hle]
  · have hpast := position.locate_append cs [] (offset - byteLength cs)
    have hend := position.locate_append cs [] 0
    rw [List.append_nil, Nat.add_sub_cancel' hle] at hpast
    rw [List.append_nil, Nat.add_zero] at hend
    rw [Nat.min_eq_right hle, hpast, hend]
    rfl

/-- Inside a character the position is the beginning of its line. -/
theorem locate_inside (position : Position) (front : List Char) {c : Char} (back : List Char)
    {offset : Nat} (hlt : byteLength front < offset) (hlt' : offset < byteLength front + c.utf8Size) :
    position.locate (front ++ c :: back) offset = ⟨(front.foldl advance position).line, 1⟩ := by
  obtain ⟨count, rfl⟩ : ∃ count, offset = byteLength front + (count + 1) :=
    ⟨offset - byteLength front - 1, by omega⟩
  have hsize : ¬c.utf8Size ≤ count + 1 := by omega
  rw [locate_append, locate, if_neg hsize]

end Position

/-! ## Bisection -/

/-- The index is that of the last entry of the row that is not above the key. -/
structure IsFloor (row : Array Nat) (key index : Nat) : Prop where
  le : ∃ value, row[index]? = some value ∧ value ≤ key
  lt : ∀ later value, index < later → row[later]? = some value → key < value

/-- A row has at most one last entry that is not above a key. -/
theorem IsFloor.unique {row : Array Nat} {key index other : Nat} (h : IsFloor row key index)
    (h' : IsFloor row key other) : index = other := by
  obtain ⟨value, hvalue, hle⟩ := h.le
  obtain ⟨value', hvalue', hle'⟩ := h'.le
  rcases Nat.lt_trichotomy index other with hlt | heq | hlt
  · exact absurd (h.lt other value' hlt hvalue') (Nat.not_lt.2 hle')
  · exact heq
  · exact absurd (h'.lt index value hlt hvalue) (Nat.not_lt.2 hle)

/-- The entries of the row ascend. -/
def Ascends (row : Array Nat) : Prop :=
  ∀ (index later : Nat) (value value' : Nat), index ≤ later → row[index]? = some value →
    row[later]? = some value' → value ≤ value'

/-- A range that begins with an entry not above the key, and behind which all are above it, is narrowed to
the last entry that is not. -/
theorem isFloor_of_narrow? {row : Array Nat} {key base size : Nat} (hrow : Ascends row)
    (hbase : ∃ value, row[base]? = some value ∧ value ≤ key) (hpos : 0 < size)
    (hfit : base + size ≤ row.size)
    (habove : ∀ later value, base + size ≤ later → row[later]? = some value → key < value) :
    ∃ index, narrow? row key base size = some index ∧ IsFloor row key index := by
  induction hsize : size using Nat.strongRecOn generalizing base size with
  | ind _ ih =>
    subst hsize
    rw [narrow?]
    by_cases hone : size ≤ 1
    · rw [if_pos hone]
      refine ⟨base, rfl, hbase, fun later value hlater ↦ habove later value ?_⟩
      omega
    · have hmiddle : base + size / 2 < row.size := by omega
      have hvalue := Array.getElem?_eq_getElem hmiddle
      rw [if_neg hone]
      simp only [hvalue, Option.bind_eq_bind, Option.bind_some]
      by_cases hkey : key < row[base + size / 2]
      · -- the entries from the middle on are above the key
        rw [if_pos hkey]
        refine ih _ (by omega) hbase (by omega) (by omega) (fun later value hlater hread ↦ ?_) rfl
        have hle := hrow _ later _ value (by omega : base + size / 2 ≤ later) hvalue hread
        omega
      · rw [if_neg hkey]
        refine ih _ (by omega) ⟨_, hvalue, Nat.not_lt.1 hkey⟩ (by omega) (by omega)
          (fun later value hlater hread ↦ ?_) rfl
        exact habove later value (by omega) hread

/-- An ascending row that does not begin above the key is searched within its bounds, and the slot that is
found lies behind the last entry that is not above the key, or is this entry. -/
theorem isFloor_of_search? {row : Array Nat} {key : Nat} (hrow : Ascends row)
    (hfirst : ∃ value, row[0]? = some value ∧ value ≤ key) :
    ∃ slot index, search? row key = some slot ∧ slot.floor? = some index ∧
      IsFloor row key index := by
  have hpos : 0 < row.size := by
    obtain ⟨value, hvalue, -⟩ := hfirst
    exact (Array.getElem?_eq_some_iff.1 hvalue).1
  have hbehind : ∀ later value, 0 + row.size ≤ later → row[later]? = some value → key < value := by
    intro later value hlater hvalue
    have hlt := (Array.getElem?_eq_some_iff.1 hvalue).1
    omega
  obtain ⟨index, hnarrow, hfloor⟩ := isFloor_of_narrow? hrow hfirst hpos (by omega) hbehind
  obtain ⟨value, hvalue, hle⟩ := hfloor.le
  rw [search?, if_neg (by omega), hnarrow]
  simp only [hvalue, Option.bind_eq_bind, Option.bind_some, Option.pure_def]
  by_cases heq : value = key
  · exact ⟨.found index, index, by rw [if_pos heq], rfl, hfloor⟩
  · have hlt : value < key := by omega
    exact ⟨.missing (index + 1), index, by rw [if_neg heq, if_pos hlt], rfl, hfloor⟩

/-! ## Starts of lines -/

namespace LineTable

theorem startsBehind_append (offset : Nat) (cs ds : List Char) :
    startsBehind offset (cs ++ ds) =
      startsBehind offset cs ++ startsBehind (offset + byteLength cs) ds := by
  induction cs generalizing offset with
  | nil => rfl
  | cons c cs ih =>
    simp only [List.cons_append, startsBehind, ih, byteLength_cons, Nat.add_assoc]
    split <;> rfl

theorem length_startsBehind (offset : Nat) (cs : List Char) :
    (startsBehind offset cs).length = cs.count '\n' := by
  induction cs generalizing offset with
  | nil => rfl
  | cons c cs ih =>
    rw [startsBehind, List.count_cons]
    by_cases hc : c = '\n'
    · simp [hc, ih]
    · simp [hc, ih]

/-- No line begins before the first character has ended. -/
theorem le_of_mem_startsBehind {offset start : Nat} {c : Char} {cs : List Char}
    (h : start ∈ startsBehind offset (c :: cs)) : offset + c.utf8Size ≤ start := by
  induction cs generalizing offset c with
  | nil =>
    unfold startsBehind at h
    split at h
    · exact Nat.le_of_eq (List.mem_singleton.1 h).symm
    · cases h
  | cons d cs ih =>
    have hrest : start ∈ startsBehind (offset + c.utf8Size) (d :: cs) → offset + c.utf8Size ≤ start :=
      fun hmem ↦ Nat.le_trans (Nat.le_add_right _ _) (ih hmem)
    rw [startsBehind] at h
    split at h
    · rcases List.mem_cons.1 h with heq | hmem
      · exact Nat.le_of_eq heq.symm
      · exact hrest hmem
    · exact hrest h

theorem pairwise_startsBehind (offset : Nat) (cs : List Char) :
    (offset :: startsBehind offset cs).Pairwise (· < ·) := by
  induction cs generalizing offset with
  | nil => exact List.pairwise_singleton _ _
  | cons c cs ih =>
    have hpos := c.utf8Size_pos
    have hrest := ih (offset + c.utf8Size)
    refine List.pairwise_cons.2 ⟨fun start hmem ↦ ?_, ?_⟩
    · have hle := le_of_mem_startsBehind hmem
      omega
    · rw [startsBehind]
      split
      · exact hrest
      · exact (List.pairwise_cons.1 hrest).2

theorem ascends_starts (source : String) : Ascends (ofString source).starts := by
  intro index later value value' hle hvalue hvalue'
  simp only [ofString, List.getElem?_toArray] at hvalue hvalue'
  rcases Nat.eq_or_lt_of_le hle with rfl | hlt
  · exact Nat.le_of_eq (Option.some.inj (hvalue.symm.trans hvalue'))
  · obtain ⟨hindex, rfl⟩ := List.getElem?_eq_some_iff.1 hvalue
    obtain ⟨hlater, rfl⟩ := List.getElem?_eq_some_iff.1 hvalue'
    exact Nat.le_of_lt
      (List.pairwise_iff_getElem.1 (pairwise_startsBehind 0 _) index later hindex hlater hlt)

/-- Behind so many newlines a line begins, and it begins behind the last of them. -/
theorem getElem?_starts (front back : List Char) :
    (0 :: startsBehind 0 (front ++ back))[front.count '\n']? =
      some (byteLength (front.rdropWhile (· ≠ '\n'))) := by
  induction front using List.reverseRecOn generalizing back with
  | nil => rfl
  | append_singleton front c ih =>
    rw [List.rdropWhile_concat, List.count_append, List.append_assoc, List.singleton_append]
    by_cases hc : c = '\n'
    · subst hc
      have hcount : front.count '\n' + List.count '\n' ['\n'] = front.count '\n' + 1 := rfl
      rw [hcount, List.getElem?_cons_succ, startsBehind_append,
        List.getElem?_append_right (by rw [length_startsBehind]), length_startsBehind, Nat.sub_self]
      simp [startsBehind]
    · have hcount : front.count '\n' + List.count '\n' [c] = front.count '\n' := by simp [hc]
      rw [hcount, ih (c :: back)]
      simp [hc]

/-- The line of an offset is the one with the number of newlines before it: the offset is behind `front`
and before the end of the character that follows. -/
theorem isFloor_starts {source : String} {front back : List Char} {offset : Nat}
    (hsource : source.toList = front ++ back) (hle : byteLength front ≤ offset)
    (hlt : ∀ c rest, back = c :: rest → offset < byteLength front + c.utf8Size) :
    IsFloor (ofString source).starts offset (front.count '\n') where
  le := by
    refine ⟨byteLength (front.rdropWhile (· ≠ '\n')), ?_, ?_⟩
    · rw [ofString, hsource, List.getElem?_toArray, getElem?_starts]
    · obtain ⟨line, hline⟩ := List.rdropWhile_prefix (· ≠ '\n') front
      have hlength := congrArg byteLength hline
      rw [byteLength_append] at hlength
      omega
  lt := by
    intro later value hlater hvalue
    rw [ofString, hsource, List.getElem?_toArray] at hvalue
    obtain ⟨later, rfl⟩ := Nat.exists_eq_add_of_lt hlater
    rw [List.getElem?_cons_succ, startsBehind_append, Nat.zero_add,
      List.getElem?_append_right (by rw [length_startsBehind]; omega)] at hvalue
    have hmem := List.mem_of_getElem? hvalue
    cases back with
    | nil => cases hmem
    | cons c rest => exact Nat.lt_of_lt_of_le (hlt c rest rfl) (le_of_mem_startsBehind hmem)

/-! ## Positions -/

/-- What is looked up in the line that was found. -/
theorem position?_of_isFloor {source : String} {offset index : Nat}
    (hfloor : IsFloor (ofString source).starts (min offset (byteLength source.toList)) index) :
    ∃ start, (ofString source).starts[index]? = some start ∧
      (ofString source).position? offset =
        some ⟨index + 1, ((Span.slice? ⟨start, min offset (byteLength source.toList)⟩
          source.toList).map List.length).getD 0 + 1⟩ := by
  have hfirst : ∃ value, (ofString source).starts[0]? = some value ∧
      value ≤ min offset (byteLength source.toList) := ⟨0, rfl, Nat.zero_le _⟩
  obtain ⟨slot, other, hsearch, hslot, hother⟩ := isFloor_of_search? (ascends_starts source) hfirst
  obtain rfl := hother.unique hfloor
  obtain ⟨start, hstart, -⟩ := hfloor.le
  refine ⟨start, hstart, ?_⟩
  have htext : (ofString source).text = source.toList := rfl
  rw [position?, htext]
  simp only [hsearch, hslot, hstart, Option.bind_eq_bind, Option.bind_some, Option.pure_def]

/-- From the beginning of a line to a place between characters stands what there is of the line. -/
theorem slice?_of_start {source : String} {front back : List Char} {start : Nat}
    (hsource : source.toList = front ++ back)
    (hstart : (ofString source).starts[front.count '\n']? = some start) :
    Span.slice? ⟨start, byteLength front⟩ source.toList = some (front.rtakeWhile (· ≠ '\n')) := by
  rw [ofString, hsource, List.getElem?_toArray, getElem?_starts, Option.some.injEq] at hstart
  refine Span.slice?_eq_some_iff.2 ⟨front.rdropWhile (· ≠ '\n'), back, ?_, ?_⟩
  · rw [← List.append_assoc, List.rdropWhile_append_rtakeWhile, hsource]
  · rw [List.rdropWhile_append_rtakeWhile, hstart]

/-- No text ends inside a character. -/
theorem slice?_inside {text front rest : List Char} {c : Char} {start stop : Nat}
    (htext : text = front ++ c :: rest) (hlt : byteLength front < stop)
    (hlt' : stop < byteLength front + c.utf8Size) : Span.slice? ⟨start, stop⟩ text = none := by
  rw [Option.eq_none_iff_forall_ne_some]
  intro part hpart
  obtain ⟨before, after, hparts, hspan⟩ := Span.slice?_eq_some_iff.1 hpart
  have hstop : stop = byteLength (before ++ part) := congrArg Span.stop hspan
  have hprefix : before ++ part <+: front ++ c :: rest :=
    ⟨after, by rw [List.append_assoc, ← hparts, htext]⟩
  have hle := le_byteLength_of_prefix hprefix (hstop ▸ hlt)
  omega

/-- At every offset a line table finds the position that is counted from the beginning of the text. -/
theorem position?_eq_ofOffset (source : String) (offset : Nat) :
    (ofString source).position? offset = some (.ofOffset source offset) := by
  rw [Position.ofOffset, ← Position.locate_min]
  obtain ⟨front, back, hsource, hdivision⟩ :=
    exists_division (Nat.min_le_right offset (byteLength source.toList))
  rcases hdivision with heq | ⟨c, rest, rfl, hlt, hlt'⟩
  · have hnext : ∀ c rest, back = c :: rest →
        min offset (byteLength source.toList) < byteLength front + c.utf8Size := by
      intro c rest _
      have hpos := c.utf8Size_pos
      omega
    obtain ⟨start, hstart, hposition⟩ :=
      position?_of_isFloor (isFloor_starts hsource (Nat.le_of_eq heq.symm) hnext)
    rw [hposition, heq, slice?_of_start hsource hstart, hsource, Position.locate_byteLength,
      Position.foldl_advance_first]
    rfl
  · have hnext : ∀ d others, c :: rest = d :: others →
        min offset (byteLength source.toList) < byteLength front + d.utf8Size := by
      rintro _ _ ⟨⟩
      exact hlt'
    obtain ⟨start, -, hposition⟩ :=
      position?_of_isFloor (isFloor_starts hsource (Nat.le_of_lt hlt) hnext)
    rw [hposition, slice?_inside hsource hlt hlt']
    rw [hsource] at hlt hlt' ⊢
    rw [Position.locate_inside _ front rest hlt hlt', Position.foldl_advance_first]
    rfl

theorem position?_byteLength {source : String} {front : List Char} (h : front <+: source.toList) :
    (ofString source).position? (byteLength front) = some (front.foldl Position.advance .first) := by
  obtain ⟨back, hsource⟩ := h
  rw [position?_eq_ofOffset, Position.ofOffset, ← hsource, Position.locate_byteLength]

/-- A line table answers at every offset, and past the end of its text as at the end. Where the text
before an offset ends with a character, the line is one more than the newlines in it, and the column one
more than the characters behind the last of them. Of two such offsets, the greater has the later
position. -/
theorem position?_exact (source : String) :
    let position? := (ofString source).position?
    (∀ offset, ∃ position, position? offset = some position) ∧
      (∀ offset front, front <+: source.toList →
        byteLength front = min offset (byteLength source.toList) →
        position? offset =
          some ⟨front.count '\n' + 1, (front.rtakeWhile (· ≠ '\n')).length + 1⟩) ∧
      ∀ front front', front <+: source.toList → front' <+: source.toList →
        byteLength front < byteLength front' →
        ∃ position position', position? (byteLength front) = some position ∧
          position? (byteLength front') = some position' ∧ position < position' := by
  refine ⟨fun offset ↦ ⟨_, position?_eq_ofOffset source offset⟩, ?_, ?_⟩
  · intro offset front hfront hlength
    calc
      (ofString source).position? offset = some (.ofOffset source offset) :=
        position?_eq_ofOffset source offset
      _ = some (.ofOffset source (byteLength front)) := by
        rw [hlength, Position.ofOffset, Position.ofOffset, Position.locate_min]
      _ = some (front.foldl Position.advance .first) := by
        rw [← position?_eq_ofOffset, position?_byteLength hfront]
      _ = some ⟨front.count '\n' + 1, (front.rtakeWhile (· ≠ '\n')).length + 1⟩ := by
        rw [Position.foldl_advance_first]
  · intro front front' hfront hfront' hlt
    obtain ⟨between, rfl⟩ := prefix_of_byteLength_le hfront hfront' (Nat.le_of_lt hlt)
    have hne : between ≠ [] := by
      rintro rfl
      simp at hlt
    refine ⟨_, _, position?_byteLength hfront, position?_byteLength hfront', ?_⟩
    rw [List.foldl_append]
    exact Position.lt_foldl_advance hne _

/-- Behind a letter of two bytes the first line ends in column two; the second line is empty, and the
last one, too, where the end of the text is. -/
theorem position?_exact_lines :
    (ofString "é\n\nbc\n").position? 2 = some ⟨1, 2⟩ ∧
      (ofString "é\n\nbc\n").position? 3 = some ⟨2, 1⟩ ∧
      (ofString "é\n\nbc\n").position? 100 = some ⟨4, 1⟩ ∧
      ∃ position position', (ofString "é\n\nbc\n").position? 3 = some position ∧
        (ofString "é\n\nbc\n").position? 4 = some position' ∧ position < position' := by
  obtain ⟨-, hexact, hlt⟩ := position?_exact "é\n\nbc\n"
  exact ⟨hexact 2 ['é'] (by decide) (by decide), hexact 3 ['é', '\n'] (by decide) (by decide),
    hexact 100 "é\n\nbc\n".toList (by decide) (by decide),
    hlt ['é', '\n'] ['é', '\n', '\n'] (by decide) (by decide) (by decide)⟩

end LineTable

end ScopeScript
