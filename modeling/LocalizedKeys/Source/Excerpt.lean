import LocalizedKeys.Source.Location
import LocalizedKeys.Text.Lines

/-!
# Excerpts

A message about a place of a text, with the lines around it: each line has its number in front,
and a caret stands under the column of the place.
-/

namespace LocalizedKeys

/-- A message about a place. -/
structure Remark where
  message : String
  text : List Char
  pos : Nat
  /-- What would have been right there. -/
  expected : List String := []
deriving Repr

namespace Remark

/-- The message with line and column on one line. -/
def heading (r : Remark) : String :=
  let (line, column) := lineColumn r.text r.pos
  let expected := ", ".intercalate (r.expected.map fun word => "'" ++ word ++ "'")
  s!"{line}:{column}: " ++ r.message
    ++ if r.expected.isEmpty then "" else s!" (expected: {expected})"

/-- A text with spaces in front up to a width. -/
def alignRight (width : Nat) (text : String) : String :=
  String.ofList (List.replicate (width - text.length) ' ') ++ text

/-- What stands before a line of the excerpt. -/
def margin (number : Nat) : String := alignRight 4 (toString number) ++ " | "

/-- The lines of the excerpt from among the given ones, the first of which has the given number:
those from `first` to `last`, with a caret under the column in the line of the place. -/
def excerptLines (line column : Nat) (first last : Int) (number : Nat) :
    List (List Char) → List String
  | [] => []
  | content :: rest =>
    let shown := margin number ++ String.ofList content
    let caret := String.ofList (List.replicate ((margin number).length + column - 1) ' ') ++ "^"
    (if first ≤ number ∧ (number : Int) ≤ last then
        if number = line then [shown, caret] else [shown]
      else [])
      ++ excerptLines line column first last (number + 1) rest

/-- The heading, and after a blank line the lines of the text around the place, `around` of them
on either side. -/
def excerpt (r : Remark) (around : Int) : String :=
  let (line, column) := lineColumn r.text r.pos
  let shown := excerptLines line column (line - around) (line + around) 1 (Text.lines r.text)
  "\n".intercalate (r.heading :: "" :: shown)

end Remark

end LocalizedKeys
