import ScopeScript.Proofs.Eval.Counting

/-!
# Loops over integers run an arithmetic progression

A counting loop whose bounds are words makes one round for each member of the progression from its start
that has not passed its limit. The members are those of unbounded arithmetic, so the progression is known
before the first round, and whatever the rounds do, none of its members wraps. A counter of words that is
tested, used and increased in turn, until increasing it would overflow, takes the same values.
-/

namespace ScopeScript

/-! ## Words -/

theorem toInt_ofInt_of_isWord {value : Int} (h : IsWord value) : (Int64.ofInt value).toInt = value := by
  apply Int64.toInt_ofInt_of_le
  · simpa using h.1
  · exact Int.lt_of_le_sub_one h.2

theorem toInt_ne_zero {step : Int64} (hstep : step ≠ 0) : step.toInt ≠ 0 :=
  fun hzero ↦ hstep (Int64.toInt_inj.1 hzero)

/-- What a counter of words takes as values: it goes on as long as the test admits them, and until adding
the step would not give a word. -/
inductive Counted (test : Int64 → Bool) (step : Int64) : Int64 → List Int64 → Prop
  | stop {value : Int64} (htest : test value = false) : Counted test step value []
  | last {value : Int64} (htest : test value = true)
      (hnext : ¬IsWord (value.toInt + step.toInt)) : Counted test step value [value]
  | next {value : Int64} {values : List Int64} (htest : test value = true)
      (hnext : IsWord (value.toInt + step.toInt)) (hrest : Counted test step (value + step) values) :
      Counted test step value (value :: values)

/-- A counter takes its values in one way. -/
theorem Counted.unique {test : Int64 → Bool} {step value : Int64} {values others : List Int64}
    (h : Counted test step value values) (h' : Counted test step value others) : values = others := by
  induction h generalizing others with
  | stop htest =>
    cases h' with
    | stop => rfl
    | last htest' | next htest' => cases htest.symm.trans htest'
  | last htest hnext =>
    cases h' with
    | stop htest' => cases htest.symm.trans htest'
    | last => rfl
    | next _ hnext' => exact absurd hnext' hnext
  | next htest hnext _ ih =>
    cases h' with
    | stop htest' => cases htest.symm.trans htest'
    | last _ hnext' => exact absurd hnext hnext'
    | next _ _ hrest => rw [ih hrest]

/-! ## Progressions -/

/-- The first members of the progression from `value` on, as words. -/
def progression (value step : Int) (count : Nat) : List Int64 :=
  (List.range count).map fun k : Nat ↦ .ofInt (value + k * step)

@[simp]
theorem progression_zero (value step : Int) : progression value step 0 = [] := rfl

theorem progression_succ (value step : Int) (count : Nat) :
    progression value step (count + 1) = .ofInt value :: progression (value + step) step count := by
  rw [progression, progression, List.range_succ_eq_map, List.map_cons, List.map_map]
  congr 2
  · simp
  · funext k
    rw [Function.comp_apply, Nat.cast_succ, Int.add_mul, Int.one_mul]
    congr 1
    omega

section

variable {step value : Int} {last : Option Int}

/-- The members of a progression that have not passed a limit are its first ones. -/
theorem lt_roundCount_iff (hstep : step ≠ 0) (k : Nat) :
    k < roundCount value step last ↔ WithinLimit step (value + k * step) last := by
  cases last with
  | none => simp [roundCount, WithinLimit]
  | some limit =>
    have hdistance : (limit - (value + k * step)).fdiv step = (limit - value).fdiv step - k := by
      have hmul := Int.add_mul_fdiv_right (limit - value) (-k) hstep
      rwa [Int.neg_mul, ← Int.sub_eq_add_neg, ← Int.sub_eq_add_neg, Int.sub_sub] at hmul
    calc
      k < roundCount value step (some limit) ↔ 0 ≤ (limit - (value + k * step)).fdiv step := by
        rw [roundCount, hdistance]
        omega
      _ ↔ WithinLimit step (value + k * step) (some limit) := by
        rw [fdiv_nonneg_iff _ hstep, WithinLimit, Int.sub_nonneg, sub_nonpos]

theorem withinLimit_toInt_iff (step last : Int64) (value : Int) :
    WithinLimit step.toInt value (some last.toInt) ↔
      0 < step ∧ value ≤ last.toInt ∨ step < 0 ∧ last.toInt ≤ value := by
  rw [Int64.lt_iff_toInt_lt, Int64.lt_iff_toInt_lt, Int64.toInt_zero, WithinLimit]

/-- What has not passed a word on the way from a word is a word. -/
theorem isWord_of_within (hvalue : IsWord value) (hlast : ∀ limit ∈ last, IsWord limit) {k : Nat}
    (h : WithinLimit step (value + k * step) last) : IsWord (value + k * step) := by
  cases last with
  | none => exact h.elim
  | some limit =>
    obtain ⟨hmin, hmax⟩ := hlast limit rfl
    obtain ⟨hmin', hmax'⟩ := hvalue
    rcases h with ⟨hpos, hle⟩ | ⟨hneg, hle⟩
    · have hmove : 0 ≤ k * step := Int.mul_nonneg (Int.natCast_nonneg k) hpos.le
      exact ⟨by omega, by omega⟩
    · have hmove : k * step ≤ 0 := Int.mul_nonpos_of_nonneg_of_nonpos (Int.natCast_nonneg k) hneg.le
      exact ⟨by omega, by omega⟩

/-- A counter of words with a test that a limit passes takes the members that have not passed it. -/
theorem counted_progression {test : Int64 → Bool} {start step : Int64} (hstep : step ≠ 0)
    (hlast : ∀ limit ∈ last, IsWord limit)
    (htest : ∀ value, test value = true ↔ WithinLimit step.toInt value.toInt last) :
    Counted test step start
      (progression start.toInt step.toInt (roundCount start.toInt step.toInt last)) := by
  have hstep' := toInt_ne_zero hstep
  induction hcount : roundCount start.toInt step.toInt last generalizing start with
  | zero =>
    apply Counted.stop
    rw [← Bool.not_eq_true, htest]
    intro hwithin
    rw [roundCount_of_within hwithin] at hcount
    cases hcount
  | succ count ih =>
    have hwithin : WithinLimit step.toInt start.toInt last := by
      by_contra h
      rw [roundCount_of_not_within hstep' h] at hcount
      cases hcount
    have hcount' : roundCount (start.toInt + step.toInt) step.toInt last = count := by
      rw [roundCount_of_within hwithin] at hcount
      exact Nat.succ.inj hcount
    rw [progression_succ, Int64.ofInt_toInt]
    by_cases hnext : IsWord (start.toInt + step.toInt)
    · have hsum : (start + step).toInt = start.toInt + step.toInt := by
        rw [← toInt_ofInt_of_isWord hnext, Int64.ofInt_add, Int64.ofInt_toInt, Int64.ofInt_toInt]
      rw [← hsum] at hcount' ⊢
      exact .next ((htest start).2 hwithin) hnext (ih hcount')
    · have hnone : count = 0 := by
        rw [← hcount']
        exact roundCount_of_not_within hstep'
          (not_within_of_not_isWord hlast hwithin (isWord_toInt start) hnext)
      rw [hnone, progression_zero]
      exact .last ((htest start).2 hwithin) hnext

end

/-! ## Rounds -/

instance : LawfulMonad Exec :=
  .mk' Exec
    (fun exec ↦ funext fun session ↦ by
      change (exec session).bind Outcome.done = exec session
      cases exec session <;> rfl)
    (fun _ _ ↦ rfl)
    (fun exec _ _ ↦ funext fun session ↦ Outcome.bind_assoc (exec session) _ _)

namespace Exec

/-- The rounds that are known beforehand are those for the members of a progression. -/
theorem forIntegers_eq_forM (body : Number → Exec Unit) (step : Int) (count : Nat) (value : Int) :
    forIntegers body step count value =
      forM (progression value step count) fun value ↦ body (.int value) := by
  induction count generalizing value with
  | zero => rfl
  | succ count ih =>
    funext session
    rw [forIntegers, progression_succ, List.forM_cons, bind_apply, ← ih]

theorem bind_of_failed {α β : Type} {exec : Exec α} {session after : Session} {fault : Fault}
    (h : exec session = .failed fault after) (next : α → Exec β) :
    (exec >>= next) session = .failed fault after := by
  rw [bind_apply, h]
  rfl

/-- Of steps in a row none is executed behind the first that fails. -/
theorem forM_range_of_failed {steps : Nat → Exec Unit} {k count : Nat} {session before after : Session}
    {fault : Fault} (hk : k < count) (hbefore : forM (List.range k) steps session = .done () before)
    (hfailed : steps k before = .failed fault after) :
    forM (List.range count) steps session = .failed fault after := by
  obtain ⟨rest, rfl⟩ := Nat.exists_eq_add_of_lt hk
  have hfirst : forM (List.range (k + 1)) steps session = .failed fault after := by
    rw [List.range_succ, List.forM_append, bind_apply, hbefore]
    exact bind_of_failed hfailed _
  rw [Nat.add_right_comm, List.range_add, List.forM_append]
  exact bind_of_failed hfirst _

end Exec

/-- The session in which the body of a round of a counting loop is executed. -/
def Session.enterRound (name : String) (value : Number) (session : Session) : Session :=
  (session.enter.define true name (.number value)).enter

/-- A round has a scope with the variable alone, and in it an empty one for the body. -/
@[simp]
theorem Session.env_enterRound (name : String) (value : Number) (session : Session) :
    (session.enterRound name value).env =
      .scope .empty (.scope (Frame.empty.insert name (.number value)) session.env) := rfl

/-- The round for the member of a progression that has an index. -/
def Exec.roundAt (name : String) (body : Exec Unit) (start stride : Int) (k : Nat) : Exec Unit :=
  Exec.round name body (.int (.ofInt (start + k * stride)))

theorem Exec.round_apply (name : String) (body : Exec Unit) (value : Number) (session : Session) :
    Exec.round name body value session =
      (body (session.enterRound name value)).bind fun _ after ↦ .done () after.exit.exit := by
  change ((body (session.enterRound name value)).bind fun _ after ↦ .done () after.exit).bind
    (fun _ after ↦ .done () after.exit) = _
  rw [Outcome.bind_assoc]
  rfl

/-! ## Loops -/

/-- The bounds of a counting loop have these values. A step that is not written is one. -/
structure Expr.BoundsAre (env : Env) (init limit : Expr) (step : Option Expr)
    (first last stride : Number) : Prop where
  init_eq : init.eval env = .ok (.number first)
  limit_eq : limit.eval env = .ok (.number last)
  step_eq : (step.map (Expr.eval env)).getD (.ok (.number (.int 1))) = .ok (.number stride)

theorem Expr.evalBound_of_eval {env : Env} {bound : Expr} {value : Number}
    (h : bound.eval env = .ok (.number value)) (role : String) :
    bound.evalBound env role = .ok value := by
  rw [evalBound, h]
  rfl

/-- Once its bounds have values, a counting loop makes its rounds. -/
theorem Stmt.exec_forLoop {init limit : Expr} {step : Option Expr} {session : Session}
    {first last stride : Number} {rounds : Rounds}
    (hbounds : Expr.BoundsAre session.env init limit step first last stride)
    (hrounds : Rounds.ofBounds? first last stride = some rounds) (budget : Nat)
    (span initSpan : Span) (name : String) (body : List Stmt) :
    (Stmt.forLoop span initSpan name init limit step body).exec budget session =
      rounds.exec budget (Exec.round name (Stmt.execAll budget body)) session := by
  have hinit := Expr.evalBound_of_eval hbounds.init_eq "initial value"
  have hlimit := Expr.evalBound_of_eval hbounds.limit_eq "limit"
  have heval : Expr.evalRounds session.env initSpan init limit step = .ok rounds := by
    cases step with
    | none =>
      cases hbounds.step_eq
      simp only [Expr.evalRounds, hinit, hlimit, hrounds, bind, Except.bind]
    | some step =>
      have hstep := Expr.evalBound_of_eval hbounds.step_eq "step"
      simp only [Expr.evalRounds, hinit, hlimit, hstep, hrounds, bind, Except.bind]
  rw [Stmt.exec, Exec.bind_apply, Exec.read, heval]
  rfl

namespace Stmt

/-- A loop over integers makes its rounds for the members of a progression. -/
theorem exec_forLoop_integers {init limit : Expr} {step : Option Expr} {session : Session}
    {first last stride : Number} {start distance : Int} {count : Nat}
    (hbounds : Expr.BoundsAre session.env init limit step first last stride)
    (hrounds : Rounds.ofBounds? first last stride = some (.integers start distance count))
    (budget : Nat) (span initSpan : Span) (name : String) (body : List Stmt) :
    (forLoop span initSpan name init limit step body).exec budget session =
      forM (progression start distance count)
        (fun value ↦ Exec.round name (execAll budget body) (.int value)) session := by
  rw [exec_forLoop hbounds hrounds, Rounds.exec, Exec.forIntegers_eq_forM]

/-- A counting loop whose bounds are words makes its rounds, in order, for the members of the progression
from its start that have not passed its limit, none of which wraps. Each round executes the body in an empty
scope, inside one that holds the member alone, and the first round that fails is the last. A counter of words
takes the same values. -/
theorem exec_forLoop_progression {init limit : Expr} {step : Option Expr} {session : Session}
    {start last stride : Int64}
    (hbounds : Expr.BoundsAre session.env init limit step (.int start) (.int last) (.int stride))
    (hstride : stride ≠ 0) (budget : Nat) (span initSpan : Span) (name : String) (body : List Stmt) :
    let loop := (forLoop span initSpan name init limit step body).exec budget
    let round := Exec.roundAt name (execAll budget body) start.toInt stride.toInt
    let member (k : Nat) : Int64 := .ofInt (start.toInt + k * stride.toInt)
    ∃ count : Nat,
      (∀ k : Nat, k < count ↔
        0 < stride ∧ start.toInt + k * stride.toInt ≤ last.toInt ∨
          stride < 0 ∧ last.toInt ≤ start.toInt + k * stride.toInt) ∧
      (∀ k < count, (member k).toInt = start.toInt + k * stride.toInt) ∧
      (∀ k before, ∃ inner : Session,
        inner.env = .scope .empty
          (.scope (Frame.empty.insert name (.number (.int (member k)))) before.env) ∧
        round k before = (execAll budget body inner).bind fun _ after ↦ .done () after.exit.exit) ∧
      loop session = forM (List.range count) round session ∧
      (∀ k < count, ∀ before fault after, forM (List.range k) round session = .done () before →
        round k before = .failed fault after → loop session = .failed fault after) ∧
      Counted (fun value ↦ decide (0 < stride ∧ value ≤ last ∨ stride < 0 ∧ last ≤ value)) stride start
        ((List.range count).map member) := by
  intro loop round member
  have hlast : ∀ limit ∈ some last.toInt, IsWord limit := by
    rintro _ ⟨⟩
    exact isWord_toInt last
  have hwithin := withinLimit_toInt_iff stride last
  let count := roundCount start.toInt stride.toInt (some last.toInt)
  have hcount (k : Nat) : k < count ↔ WithinLimit stride.toInt (start.toInt + k * stride.toInt)
      (some last.toInt) := lt_roundCount_iff (toInt_ne_zero hstride) k
  have hrounds : Rounds.ofBounds? (.int start) (.int last) (.int stride) =
      some (.integers start.toInt stride.toInt count) := by
    rw [Rounds.ofBounds?, if_neg hstride]
    rfl
  have hloop : loop session = forM (List.range count) round session := by
    calc
      loop session = forM (progression start.toInt stride.toInt count)
          (fun value ↦ Exec.round name (execAll budget body) (.int value)) session :=
        exec_forLoop_integers hbounds hrounds budget span initSpan name body
      _ = forM (List.range count) round session := by
        rw [progression, List.forM_map]
        rfl
  refine ⟨count, fun k ↦ (hcount k).trans (hwithin _), ?_, ?_, hloop, ?_, ?_⟩
  · intro k hk
    exact toInt_ofInt_of_isWord (isWord_of_within (isWord_toInt start) hlast ((hcount k).1 hk))
  · intro k before
    exact ⟨before.enterRound name (.int (member k)), before.env_enterRound name _,
      Exec.round_apply name _ _ before⟩
  · intro k hk before fault after hbefore hfailed
    rw [hloop]
    exact Exec.forM_range_of_failed hk hbefore hfailed
  · refine counted_progression hstride hlast fun value ↦ ?_
    rw [decide_eq_true_iff, hwithin, Int64.le_iff_toInt_le, Int64.le_iff_toInt_le]

/-- A loop up to the largest word ends there: the next value would not be a word. -/
theorem exec_forLoop_progression_largest :
    (forLoop ⟨0, 60⟩ ⟨4, 27⟩ "i" (.literal ⟨8, 27⟩ (.number (.int 9223372036854775805)))
        (.literal ⟨29, 48⟩ (.number (.int 9223372036854775807)))
        (some (.literal ⟨50, 51⟩ (.number (.int 2)))) []).exec 0 (.ofGlobals .empty false) =
      forM (List.range 2) (Exec.roundAt "i" (execAll 0 []) 9223372036854775805 2)
        (.ofGlobals .empty false) := by
  have hbounds : Expr.BoundsAre (Session.ofGlobals .empty false).env
      (.literal ⟨8, 27⟩ (.number (.int 9223372036854775805)))
      (.literal ⟨29, 48⟩ (.number (.int 9223372036854775807)))
      (some (.literal ⟨50, 51⟩ (.number (.int 2)))) (.int 9223372036854775805)
      (.int 9223372036854775807) (.int 2) := ⟨rfl, rfl, rfl⟩
  have hstride : (2 : Int64) ≠ 0 := by decide
  obtain ⟨count, hcount, -, -, hloop, -⟩ :=
    exec_forLoop_progression hbounds hstride 0 ⟨0, 60⟩ ⟨4, 27⟩ "i" []
  have hmore : 1 < count := (hcount 1).2 (by decide)
  have hless : ¬2 < count := mt (hcount 2).1 (by decide)
  obtain rfl : count = 2 := by omega
  exact hloop

end Stmt

end ScopeScript
