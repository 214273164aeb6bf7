import ScopeScript.Eval.Statement
import ScopeScript.Proofs.Scope.Frames

/-!
# The discipline of scopes

What an execution may do to the frames that are there when it begins. It never takes one away, and
none of them loses a name. The globals gain at most the names that are assigned, and the innermost
frame those that are declared at the top; no other frame gains any. A name that is neither assigned
nor declared keeps its binding everywhere. A failure may leave scopes open, but below them the same
holds.
-/

namespace ScopeScript

/-! ## Assigned and declared names -/

mutual

/-- The names to which executing a statement may give values without declaring them. -/
def Stmt.assigned : Stmt → List String
  | .assign _ isLocal name _ => if isLocal then [] else [name]
  | .block _ body => Stmt.assignedAll body
  | .forLoop _ _ _ _ _ _ body => Stmt.assignedAll body
  | .ifElse _ _ thenBody elseBody => Stmt.assignedAll thenBody ++ Stmt.assignedAll elseBody
  | .whileLoop _ _ body => Stmt.assignedAll body
  | .expr _ _ | .return_ _ _ => []

/-- The names to which executing statements may give values without declaring them. -/
def Stmt.assignedAll : List Stmt → List String
  | [] => []
  | statement :: rest => statement.assigned ++ Stmt.assignedAll rest

end

/-- The name that a statement declares in the innermost frame, if it is a declaration. -/
def Stmt.declared : Stmt → List String
  | .assign _ isLocal name _ => if isLocal then [name] else []
  | _ => []

/-! ## Frames -/

/-- A frame before and after an execution that may rebind the names `changed` and may bind the names
`gained` anew. -/
structure Frame.Kept (gained changed : String → Prop) (before after : Frame) : Prop where
  /-- No name is lost. -/
  keeps : ∀ name, before.contains name → after.contains name
  /-- Other names than those are not gained. -/
  gains : ∀ name, after.contains name → before.contains name ∨ gained name
  /-- Other names than those have the same values, or none. -/
  fixes : ∀ name, ¬changed name → after.get? name = before.get? name

namespace Frame.Kept

variable {gained changed : String → Prop} {first second third : Frame}

theorem refl (frame : Frame) : Frame.Kept gained changed frame frame :=
  ⟨fun _ h ↦ h, fun _ h ↦ .inl h, fun _ _ ↦ rfl⟩

theorem trans (h : Frame.Kept gained changed first second)
    (h' : Frame.Kept gained changed second third) : Frame.Kept gained changed first third where
  keeps name hname := h'.keeps name (h.keeps name hname)
  gains name hname := (h'.gains name hname).elim (h.gains name) .inr
  fixes name hname := (h'.fixes name hname).trans (h.fixes name hname)

theorem mono {gained' changed' : String → Prop} (h : Frame.Kept gained changed first second)
    (hgained : ∀ name, gained name → gained' name)
    (hchanged : ∀ name, changed name → changed' name) :
    Frame.Kept gained' changed' first second where
  keeps := h.keeps
  gains name hname := (h.gains name hname).imp_right (hgained name)
  fixes name hname := h.fixes name (mt (hchanged name) hname)

theorem insert {frame : Frame} {name : String} (hchanged : changed name)
    (hgained : frame.contains name ∨ gained name) (value : Value) :
    Frame.Kept gained changed frame (frame.insert name value) where
  keeps other hother := by rw [contains_insert, hother, Bool.or_true]
  gains other hother := by
    rw [contains_insert, Bool.or_eq_true, beq_iff_eq] at hother
    rcases hother with rfl | hother
    · exact hgained
    · exact .inl hother
  fixes other hother := by
    rw [get?_insert, if_neg]
    rintro rfl
    exact hother hchanged

end Frame.Kept

/-! ## Environments -/

/-- Every frame of `env` is kept in `env'`, where it has the same index. Names that are assigned may
be gained by the globals, which have the index zero, and those that are declared by the innermost
frame of `env`. -/
def Env.Kept (assigned declared : List String) (env env' : Env) : Prop :=
  ∀ index frame, env.frames[index]? = some frame → ∃ frame', env'.frames[index]? = some frame' ∧
    Frame.Kept (fun name ↦ (index = 0 ∧ name ∈ assigned) ∨ (index = env.depth ∧ name ∈ declared))
      (fun name ↦ name ∈ assigned ∨ (index = env.depth ∧ name ∈ declared)) frame frame'

namespace Env.Kept

variable {assigned declared assigned' declared' : List String} {first second third : Env}

theorem refl (env : Env) : env.Kept assigned declared env :=
  fun _ frame hframe ↦ ⟨frame, hframe, .refl frame⟩

theorem trans (h : first.Kept assigned declared second) (hdepth : second.depth = first.depth)
    (h' : second.Kept assigned declared third) : first.Kept assigned declared third := by
  intro index frame hframe
  obtain ⟨frame', hframe', hkept⟩ := h index frame hframe
  obtain ⟨frame'', hframe'', hkept'⟩ := h' index frame' hframe'
  rw [hdepth] at hkept'
  exact ⟨frame'', hframe'', hkept.trans hkept'⟩

theorem mono (h : first.Kept assigned declared second) (hassigned : assigned ⊆ assigned')
    (hdeclared : declared ⊆ declared') : first.Kept assigned' declared' second := by
  intro index frame hframe
  obtain ⟨frame', hframe', hkept⟩ := h index frame hframe
  refine ⟨frame', hframe', hkept.mono ?_ ?_⟩
  · exact fun name ↦ Or.imp (And.imp_right fun hmem ↦ hassigned hmem)
      (And.imp_right fun hmem ↦ hdeclared hmem)
  · exact fun name ↦ Or.imp (fun hmem ↦ hassigned hmem) (And.imp_right fun hmem ↦ hdeclared hmem)

/-- Below a scope nothing is known of it. -/
theorem of_enter (h : first.enter.Kept assigned declared second) : first.Kept assigned [] second := by
  intro index frame hframe
  have hlt : index < first.frames.length := (List.getElem?_eq_some_iff.1 hframe).1
  have hentered : first.enter.frames[index]? = some frame := by
    rwa [frames_enter, List.getElem?_append_left hlt]
  obtain ⟨frame', hframe', hkept⟩ := h index frame hentered
  have hne : index ≠ first.enter.depth := by
    rw [length_frames] at hlt
    exact Nat.ne_of_lt hlt
  refine ⟨frame', hframe', hkept.mono (fun name ↦ ?_) (fun name ↦ ?_)⟩
  · exact Or.imp_right fun hdeclared ↦ absurd hdeclared.1 hne
  · exact Or.imp_right fun hdeclared ↦ absurd hdeclared.1 hne

theorem exit (h : first.Kept assigned [] second) (hdepth : second.depth = first.depth + 1) :
    first.Kept assigned [] second.exit := by
  intro index frame hframe
  obtain ⟨frame', hframe', hkept⟩ := h index frame hframe
  have hlt : index < first.frames.length := (List.getElem?_eq_some_iff.1 hframe).1
  have hlt' : index < second.frames.length - 1 := by
    rw [length_frames] at hlt ⊢
    omega
  refine ⟨frame', ?_, hkept⟩
  rw [frames_exit (by omega), List.getElem?_dropLast, if_pos hlt', hframe']

/-- A definition changes one binding: that of a local in the innermost frame, and otherwise one that
is there or a global. -/
theorem define (isLocal : Bool) {name : String} (hassigned : isLocal = false → name ∈ assigned)
    (hdeclared : isLocal = true → name ∈ declared) (value : Value) (env : Env) :
    env.Kept assigned declared (env.define isLocal name value) := by
  intro index frame hframe
  rw [frames_define, List.getElem?_modify, hframe]
  refine ⟨_, rfl, ?_⟩
  split
  next htarget =>
    subst htarget
    cases isLocal with
    | true =>
      have hlocal := hdeclared rfl
      exact .insert (.inr ⟨rfl, hlocal⟩) (.inr (.inr ⟨rfl, hlocal⟩)) value
    | false =>
      refine .insert (.inl (hassigned rfl)) ?_ value
      by_cases hglobal : env.home name = 0
      · exact .inr (.inl ⟨hglobal, hassigned rfl⟩)
      · exact .inl (contains_of_home hglobal hframe)
  next => exact .refl frame

end Env.Kept

/-! ## Outcomes -/

/-- What is done ends with as many frames as there were in `env`, a failure with at least as many, and
either keeps these. -/
def Outcome.Keeps {α : Type} (env : Env) (assigned declared : List String) : Outcome α → Prop
  | .done _ session =>
    session.env.frames.length = env.frames.length ∧ env.Kept assigned declared session.env
  | .failed _ session =>
    env.frames.length ≤ session.env.frames.length ∧ env.Kept assigned declared session.env
  | .unfinished => True

namespace Outcome

variable {α β : Type} {env : Env} {assigned declared : List String}

theorem Keeps.bind {outcome : Outcome α} {next : α → Session → Outcome β}
    (h : outcome.Keeps env assigned declared)
    (hnext : ∀ value session, (next value session).Keeps session.env assigned declared) :
    (outcome.bind next).Keeps env assigned declared := by
  cases outcome with
  | done value session =>
    obtain ⟨hlength, hkept⟩ := h
    have hdepth : session.env.depth = env.depth := by simpa using hlength
    have hrest := hnext value session
    rw [bind_done]
    cases houtcome : next value session with
    | done value' session' =>
      rw [houtcome] at hrest
      exact ⟨hrest.1.trans hlength, hkept.trans hdepth hrest.2⟩
    | failed fault session' =>
      rw [houtcome] at hrest
      exact ⟨hlength ▸ hrest.1, hkept.trans hdepth hrest.2⟩
    | unfinished => trivial
  | failed fault session => exact h
  | unfinished => trivial

theorem Keeps.depth_eq {value : α} {session : Session}
    (h : (done value session).Keeps env assigned declared) : session.env.depth = env.depth := by
  have hlength := h.1
  rw [Env.length_frames, Env.length_frames] at hlength
  exact Nat.succ.inj hlength

theorem Keeps.mono {outcome : Outcome α} {assigned' declared' : List String}
    (h : outcome.Keeps env assigned declared) (hassigned : assigned ⊆ assigned')
    (hdeclared : declared ⊆ declared') : outcome.Keeps env assigned' declared' := by
  cases outcome with
  | done | failed => exact ⟨h.1, h.2.mono hassigned hdeclared⟩
  | unfinished => trivial

end Outcome

/-- From every session the execution keeps the frames that are there. -/
def Exec.Keeps {α : Type} (assigned declared : List String) (exec : Exec α) : Prop :=
  ∀ session, (exec session).Keeps session.env assigned declared

namespace Exec

variable {α β : Type} {assigned declared : List String}

theorem keeps_pure (value : α) : Keeps assigned declared (pure value) :=
  fun session ↦ ⟨rfl, .refl session.env⟩

theorem keeps_read (view : Env → Except Fault α) : Keeps assigned declared (read view) := by
  intro session
  rw [read]
  cases view session.env with
  | ok value => exact ⟨rfl, .refl session.env⟩
  | error fault => exact ⟨Nat.le_refl _, .refl session.env⟩

theorem keeps_fail (fault : Fault) : Keeps assigned declared (fail fault : Exec α) :=
  fun session ↦ ⟨Nat.le_refl _, .refl session.env⟩

theorem Keeps.bind {exec : Exec α} {next : α → Exec β} (h : Keeps assigned declared exec)
    (hnext : ∀ value, Keeps assigned declared (next value)) :
    Keeps assigned declared (exec >>= next) :=
  fun session ↦ (h session).bind hnext

theorem Keeps.mono {exec : Exec α} {assigned' declared' : List String}
    (h : Keeps assigned declared exec) (hassigned : assigned ⊆ assigned')
    (hdeclared : declared ⊆ declared') : Keeps assigned' declared' exec :=
  fun session ↦ (h session).mono hassigned hdeclared

theorem keeps_ite {exec other : Exec α} (condition : Bool) (h : Keeps assigned declared exec)
    (hother : Keeps assigned declared other) :
    Keeps assigned declared (if condition then exec else other) := by
  cases condition
  · exact hother
  · exact h

theorem keeps_define (isLocal : Bool) {name : String} (hassigned : isLocal = false → name ∈ assigned)
    (hdeclared : isLocal = true → name ∈ declared) (value : Value) :
    Keeps assigned declared (change (.define isLocal name value)) := by
  intro session
  refine ⟨?_, .define isLocal hassigned hdeclared value session.env⟩
  simp

/-- What is declared in a scope is forgotten when it is closed. A failure leaves it open above the
frames that were there. -/
theorem Keeps.inScope {body : Exec Unit} (h : Keeps assigned declared body) :
    Keeps assigned [] (inScope body) := by
  intro session
  have hbody := h session.enter
  change ((body session.enter).bind fun _ final ↦ .done () final.exit).Keeps _ _ _
  cases houtcome : body session.enter with
  | done value final =>
    rw [houtcome] at hbody
    have hdepth : final.env.depth = session.env.depth + 1 := by simpa using hbody.1
    refine ⟨?_, ?_⟩
    · rw [Session.env_exit, Env.frames_exit (by omega), List.length_dropLast, hbody.1]
      simp
    · rw [Session.env_exit]
      exact hbody.2.of_enter.exit hdepth
  | failed fault final =>
    rw [houtcome] at hbody
    have hlength : session.env.frames.length ≤ session.enter.env.frames.length := by simp
    exact ⟨Nat.le_trans hlength hbody.1, hbody.2.of_enter⟩
  | unfinished => trivial

/-! ## Loops -/

theorem Keeps.repeatWhile {condition : Exec Bool} {body : Exec Unit}
    (hcondition : Keeps assigned declared condition) (hbody : Keeps assigned declared body)
    (budget : Nat) : Keeps assigned declared (repeatWhile condition body budget) := by
  induction budget with
  | zero => exact fun _ ↦ trivial
  | succ budget ih =>
    refine fun session ↦ (hcondition session).bind fun holds middle ↦ ?_
    cases holds with
    | false => exact keeps_pure () middle
    | true => exact (hbody middle).bind fun _ ↦ ih

theorem Keeps.forIntegers {body : Number → Exec Unit}
    (hbody : ∀ value, Keeps assigned declared (body value)) (step : Int) (rounds : Nat)
    (value : Int) : Keeps assigned declared (forIntegers body step rounds value) := by
  induction rounds generalizing value with
  | zero => exact keeps_pure ()
  | succ rounds ih => exact fun session ↦ (hbody _ session).bind fun _ ↦ ih (value + step)

theorem Keeps.forDoubles {body : Number → Exec Unit}
    (hbody : ∀ value, Keeps assigned declared (body value)) (isWithin : Float → Bool)
    (step : Float) (budget : Nat) (value : Float) :
    Keeps assigned declared (forDoubles body isWithin step budget value) := by
  induction budget generalizing value with
  | zero => exact fun _ ↦ trivial
  | succ budget ih =>
    intro session
    rw [Exec.forDoubles]
    split
    · exact (hbody _ session).bind fun _ ↦ ih (value + step)
    · exact keeps_pure () session

theorem Keeps.round {body : Exec Unit} (h : Keeps assigned declared body) (name : String)
    (value : Number) : Keeps assigned [] (round name body value) := by
  have hdefine : Keeps assigned [name] (change (.define true name (.number value))) :=
    keeps_define true (by simp) (by simp) _
  exact (hdefine.bind fun _ ↦ h.inScope.mono (List.Subset.refl _) (List.nil_subset _)).inScope

theorem Keeps.rounds {body : Number → Exec Unit}
    (hbody : ∀ value, Keeps assigned declared (body value)) (budget : Nat) (rounds : Rounds) :
    Keeps assigned declared (rounds.exec budget body) := by
  cases rounds with
  | integers start step rounds => exact .forIntegers hbody step rounds start
  | doubles start limit step => exact .forDoubles hbody _ step budget start

end Exec

/-! ## Statements -/

mutual

theorem Stmt.keeps_exec (budget : Nat) (tree : Stmt) :
    Exec.Keeps tree.assigned tree.declared (tree.exec budget) := by
  match tree with
  | .assign _ isLocal name value =>
    refine (Exec.keeps_read value.eval).bind fun result ↦ Exec.keeps_define isLocal ?_ ?_ result
    · rintro rfl
      exact List.mem_singleton_self name
    · rintro rfl
      exact List.mem_singleton_self name
  | .block _ body => exact (Stmt.keeps_execAll budget body).inScope
  | .expr _ value => exact (Exec.keeps_read value.eval).bind fun _ ↦ Exec.keeps_pure ()
  | .forLoop _ initSpan name init limit step body =>
    have hround := (Stmt.keeps_execAll budget body).round name
    exact (Exec.keeps_read _).bind fun rounds ↦ .rounds hround budget rounds
  | .ifElse _ condition thenBody elseBody =>
    have hthen := (Stmt.keeps_execAll budget thenBody).inScope
    have helse := (Stmt.keeps_execAll budget elseBody).inScope
    exact (Exec.keeps_read condition.eval).bind fun value ↦ Exec.keeps_ite value.isTrue
      (hthen.mono (List.subset_append_left _ _) (List.Subset.refl _))
      (helse.mono (List.subset_append_right _ _) (List.Subset.refl _))
  | .return_ _ value => exact (Exec.keeps_read value.eval).bind fun _ ↦ Exec.keeps_fail _
  | .whileLoop _ condition body =>
    have hcondition : Exec.Keeps (Stmt.assignedAll body) []
        (Value.isTrue <$> Exec.read condition.eval) :=
      (Exec.keeps_read condition.eval).bind fun value ↦ Exec.keeps_pure value.isTrue
    exact .repeatWhile hcondition (Stmt.keeps_execAll budget body).inScope budget

theorem Stmt.keeps_execAll (budget : Nat) (trees : List Stmt) :
    Exec.Keeps (Stmt.assignedAll trees) (trees.flatMap Stmt.declared)
      (Stmt.execAll budget trees) := by
  match trees with
  | [] => exact Exec.keeps_pure ()
  | tree :: rest =>
    have htree := Stmt.keeps_exec budget tree
    have hrest := Stmt.keeps_execAll budget rest
    exact (htree.mono (List.subset_append_left _ _) (List.subset_append_left _ _)).bind fun _ ↦
      hrest.mono (List.subset_append_right _ _) (List.subset_append_right _ _)

end

/-- A block keeps the frames that are there when it begins, and no name that is local to it is found
in them afterwards. So does any other statement, but that a declaration may bind its name in the
innermost frame. -/
theorem Stmt.exec_keeps_frames (budget : Nat) (session : Session) :
    (∀ body, (Exec.inScope (Stmt.execAll budget body) session).Keeps session.env
      (Stmt.assignedAll body) []) ∧
      ∀ tree : Stmt, (tree.exec budget session).Keeps session.env tree.assigned tree.declared :=
  ⟨fun body ↦ (Stmt.keeps_execAll budget body).inScope session,
    fun tree ↦ tree.keeps_exec budget session⟩

end ScopeScript
