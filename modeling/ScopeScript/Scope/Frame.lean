import ScopeScript.Value

/-!
# Frames

A frame binds names to values. It keeps its bindings in the order in which their names were first
bound, and binds a name at most once: binding it again replaces the value where it stands.
-/

namespace ScopeScript

/-! ## Lists of bindings -/

/-- Replaces the value of a name, or puts a new binding at the end. -/
def rebind (name : String) (value : Value) : List (String × Value) → List (String × Value)
  | [] => [(name, value)]
  | binding :: rest =>
    if binding.1 = name then (name, value) :: rest else binding :: rebind name value rest

/-- The names are kept as they are, but for a new one, which is put at the end. -/
theorem map_fst_rebind (name : String) (value : Value) (entries : List (String × Value)) :
    (rebind name value entries).map Prod.fst =
      entries.map Prod.fst ++ if name ∈ entries.map Prod.fst then [] else [name] := by
  induction entries with
  | nil => simp [rebind]
  | cons binding rest ih =>
    by_cases h : binding.1 = name
    · simp [rebind, h]
    · have h' : name ≠ binding.1 := Ne.symm h
      simp only [rebind, h, if_false, List.map_cons, ih, List.mem_cons, h', false_or,
        List.cons_append]

/-- Distinct names stay distinct. -/
theorem nodup_map_fst_rebind (name : String) (value : Value) {entries : List (String × Value)}
    (h : (entries.map Prod.fst).Nodup) : ((rebind name value entries).map Prod.fst).Nodup := by
  rw [map_fst_rebind]
  split
  · simpa using h
  · next hn =>
    refine List.nodup_append.2 ⟨h, by simp, ?_⟩
    intro a ha b hb hab
    exact hn (by simp_all)

/-- The first binding answers for its name. -/
theorem lookup_cons_eq_ite (name : String) (binding : String × Value)
    (rest : List (String × Value)) :
    (binding :: rest).lookup name =
      if name = binding.1 then some binding.2 else rest.lookup name := by
  obtain ⟨key, value⟩ := binding
  rw [List.lookup_cons]
  by_cases h : name = key
  · simp [h]
  · simp [h, beq_false_of_ne h]

/-- A binding is found by its name, and no other look-up notices it. -/
theorem lookup_rebind (name other : String) (value : Value) (entries : List (String × Value)) :
    (rebind name value entries).lookup other =
      if other = name then some value else entries.lookup other := by
  induction entries with
  | nil => simp [rebind, lookup_cons_eq_ite]
  | cons binding rest ih =>
    by_cases h : binding.1 = name
    · by_cases h' : other = name <;> simp [rebind, lookup_cons_eq_ite, h, h']
    · by_cases h' : other = name
      · subst h'
        simp [rebind, lookup_cons_eq_ite, h, Ne.symm h, ih]
      · simp [rebind, lookup_cons_eq_ite, h, h', ih]

/-! ## Frames -/

/-- The bindings of one scope. No name is bound twice. -/
structure Frame where
  entries : List (String × Value)
  nodup_names : (entries.map Prod.fst).Nodup

namespace Frame

/-- The frame without bindings. -/
def empty : Frame := ⟨[], List.nodup_nil⟩

/-- The value of a name, if it is bound. -/
def get? (frame : Frame) (name : String) : Option Value := frame.entries.lookup name

/-- Whether a name is bound. -/
def contains (frame : Frame) (name : String) : Bool := (frame.get? name).isSome

/-- Binds a name, or gives a bound name a new value. -/
def insert (frame : Frame) (name : String) (value : Value) : Frame :=
  ⟨rebind name value frame.entries, nodup_map_fst_rebind name value frame.nodup_names⟩

/-- The frame of a list of bindings, of which a later one replaces an earlier one of its name. -/
def ofList (entries : List (String × Value)) : Frame :=
  entries.foldl (fun frame entry ↦ frame.insert entry.1 entry.2) empty

/-- The bindings in the order of their names. -/
def sorted (frame : Frame) : List (String × Value) :=
  frame.entries.mergeSort fun a b ↦ decide (a.1 ≤ b.1)

/-! ## Look-up -/

@[simp]
theorem get?_empty (name : String) : empty.get? name = none := rfl

theorem get?_insert (frame : Frame) (name other : String) (value : Value) :
    (frame.insert name value).get? other =
      if other = name then some value else frame.get? other :=
  lookup_rebind name other value frame.entries

@[simp]
theorem get?_insert_self (frame : Frame) (name : String) (value : Value) :
    (frame.insert name value).get? name = some value := by
  simp [get?_insert]

theorem contains_insert (frame : Frame) (name other : String) (value : Value) :
    (frame.insert name value).contains other = (other == name || frame.contains other) := by
  by_cases h : other = name <;> simp [contains, get?_insert, h]

theorem insert_ne_empty (frame : Frame) (name : String) (value : Value) :
    frame.insert name value ≠ empty := by
  intro h
  have hnone := congrArg (get? · name) h
  simp at hnone

/-- Only the empty frame binds no name. -/
theorem eq_empty_of_forall_contains {frame : Frame} (h : ∀ name, frame.contains name = false) :
    frame = empty := by
  obtain ⟨entries, hnames⟩ := frame
  cases entries with
  | nil => rfl
  | cons binding rest =>
    have hfound := h binding.1
    simp [contains, get?, lookup_cons_eq_ite] at hfound

end Frame

end ScopeScript
