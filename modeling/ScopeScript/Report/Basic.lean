import ScopeScript.Error
import ScopeScript.Report.Snippet

/-!
# Reports

A report tells a fault to the author of a program: the category and the message, where the fault is,
the lines of the text that it blames, and what was expected instead if something was.
-/

namespace ScopeScript

/-- What was expected instead, for the errors that know. -/
def Error.expected? : Error → Option (List String)
  | unexpectedEnd expected | unexpectedToken _ expected => some expected
  | _ => none

namespace Report

/-- The line with the category and the message. -/
def headline (error : Error) : List Markup :=
  [.set .headline, .text ("error[" ++ error.category.name ++ "]"), .set .message,
    .text (": " ++ error.message), .reset, .text "\n"]

/-- The line with the place. -/
def locus (width : Nat) (name : String) (line column : Nat) : List Markup :=
  Snippet.blankGutter width ++ Markup.styled .frame "┌─" ++
    [.text (" " ++ name ++ ":" ++ toString line ++ ":" ++ toString column ++ "\n")]

/-- A remark, whose first line has a bullet. -/
def note (width : Nat) (text : String) : List Markup :=
  let (first, rest) := Line.ofString text
  let lines := (first :: rest).filter fun line ↦ !line.chars.isEmpty
  (lines.map fun line ↦
    Snippet.blankGutter width ++
      (if line.number = 1 then Markup.styled .frame "=" else [.text " "]) ++
      [.text (" " ++ String.ofList line.content ++ "\n")]).flatten

/-- What was expected, set off by an empty row. -/
def expectation (width : Nat) (emptyRow : List Markup) (error : Error) : List Markup :=
  match error.expected? with
  | none => []
  | some expected => emptyRow ++ note width ("expected: " ++ Error.alternatives expected)

/-- The report of a fault in a text of some name. -/
def ofFault (name source : String) (fault : Fault) : List Markup :=
  let lines := Line.ofString source
  let first := Line.containing lines fault.span.start
  let last := Line.containing lines fault.span.stop
  let width := (toString (max first.number last.number)).length
  let emptyRow := Snippet.row (Snippet.blankGutter width)
    (if first.number = last.number then [] else Snippet.noRail)
  headline fault.error ++
    locus width name first.number (first.column fault.span.start) ++
    emptyRow ++
    Snippet.ofSpan width fault.span (lines.1 :: lines.2) first last ++
    expectation width emptyRow fault.error ++
    [.text "\n"]

end Report

end ScopeScript
