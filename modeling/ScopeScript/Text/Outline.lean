/-!
# Outlines

An outline shows structured data as text: named records with labelled fields, named groups of items,
and lists. It can be written on one line, or with every item on a line of its own, indented under
the line that opens its group.
-/

namespace ScopeScript

/-- The brackets around the items of a group. -/
inductive Bracket where
  | braces
  | parentheses
  | squares
deriving DecidableEq, Repr

namespace Bracket

/-- The opening bracket, with the space that sets braces off from a name. -/
def opening : Bracket → String
  | braces => " \x7b"
  | parentheses => "("
  | squares => "["

/-- The closing bracket. -/
def closing : Bracket → String
  | braces => "\x7d"
  | parentheses => ")"
  | squares => "]"

/-- What stands between a bracket and the items on the same line. -/
def padding : Bracket → String
  | braces => " "
  | _ => ""

end Bracket

/-- Structured data to be shown. -/
inductive Outline where
  | atom (text : String)
  | field (label : String) (value : Outline)
  | node (name : String) (bracket : Bracket) (items : List Outline)

namespace Outline

/-! ## On one line -/

mutual

/-- The outline on one line. -/
def line : Outline → String
  | atom text => text
  | field label value => label ++ ": " ++ value.line
  | node name bracket items =>
    name ++ bracket.opening ++ bracket.padding ++ String.intercalate ", " (lines items) ++
      bracket.padding ++ bracket.closing

/-- The items of a group, each on one line. -/
def lines : List Outline → List String
  | [] => []
  | item :: items => item.line :: lines items

end

/-! ## On many lines -/

mutual

/-- The outline on many lines; those behind the first are indented by `indent` and more. -/
def tall (indent : String) : Outline → String
  | atom text => text
  | field label value => label ++ ": " ++ value.tall indent
  | node name bracket items =>
    name ++ bracket.opening ++
      (if items.isEmpty then "" else "\n" ++ tallItems (indent ++ "    ") items ++ indent) ++
      bracket.closing

/-- The items of a group, each from a line of its own on. -/
def tallItems (indent : String) : List Outline → String
  | [] => ""
  | item :: items => indent ++ item.tall indent ++ ",\n" ++ tallItems indent items

end

/-! ## Shapes -/

/-- A named record. -/
def record (name : String) (fields : List (String × Outline)) : Outline :=
  node name .braces (fields.map fun entry ↦ field entry.1 entry.2)

/-- A named group of items. -/
def variant (name : String) (items : List Outline) : Outline := node name .parentheses items

/-- Items without a name. -/
def tuple (items : List Outline) : Outline := node "" .parentheses items

/-- A list. -/
def list (items : List Outline) : Outline := node "" .squares items

/-- A value that may be absent. -/
def option : Option Outline → Outline
  | none => atom "None"
  | some value => variant "Some" [value]

end Outline

end ScopeScript
