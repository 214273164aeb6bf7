/-!
# Marked-up text

A report is a sequence of texts and changes of style. It is rendered plainly, where changes of style
leave no trace, or for a terminal, where they are escape sequences. A style replaces the one before
it; it is not undone by the end of a line.
-/

namespace ScopeScript

/-- The styles of a report. -/
inductive Style where
  /-- The severity and the category. -/
  | headline
  /-- The message. -/
  | message
  /-- Line numbers, borders and bullets. -/
  | frame
  /-- The text that is blamed, and what points at it. -/
  | mark
deriving DecidableEq, Repr

/-- The escape sequence that ends all styles. -/
def Style.resetSequence : String := "\x1b[0m"

/-- The escape sequences that set a style: bold or not, and a color or none. -/
def Style.sequence (style : Style) : String :=
  resetSequence ++
    match style with
    | headline => "\x1b[1m\x1b[38;5;9m"
    | message => "\x1b[1m"
    | frame => "\x1b[34m"
    | mark => "\x1b[31m"

/-- A part of a report. -/
inductive Markup where
  | text (text : String)
  | set (style : Style)
  | reset
deriving DecidableEq, Repr

namespace Markup

/-- A text in a style of its own. -/
def styled (style : Style) (content : String) : List Markup := [set style, text content, reset]

/-- The text of a part, with escape sequences or without. -/
def renderPart (colored : Bool) : Markup → String
  | text content => content
  | set style => if colored then style.sequence else ""
  | reset => if colored then Style.resetSequence else ""

/-- The text of a report. -/
def render (colored : Bool) (parts : List Markup) : String :=
  String.join (parts.map (renderPart colored))

end Markup

end ScopeScript
