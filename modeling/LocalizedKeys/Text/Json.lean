import LocalizedKeys.Text.Quoted

/-!
# JSON documents

The part of JSON that is written here: texts, whole numbers, and objects whose fields keep
their order. There are two layouts. `Json.line` puts a value on one line, with a space after
each comma and colon; `Json.indented` gives each field a line of its own, two spaces deeper
than its object, with a space on both sides of the colon.
-/

namespace LocalizedKeys.Text

/-- A JSON value without lists, truth values and fractions. -/
inductive Json where
  | text (value : String)
  | number (value : Int)
  | object (fields : List (String × Json))

namespace Json

/-- How one character is written inside a JSON text. -/
def escapeChar (c : Char) : List Char :=
  if c = '"' then ['\\', '"']
  else if c = '\\' then ['\\', '\\']
  else if c = '\n' then ['\\', 'n']
  else if c = '\r' then ['\\', 'r']
  else if c = '\t' then ['\\', 't']
  else if c = '\x08' then ['\\', 'b']
  else if c = '\x0c' then ['\\', 'f']
  else if c.toNat < 0x20 then '\\' :: 'u' :: hexadecimal 4 c.toNat
  else [c]

/-- A JSON text with its quotes. -/
def writeText (value : String) : String :=
  String.ofList ('"' :: value.toList.flatMap escapeChar ++ ['"'])

mutual

/-- A value on one line. -/
def line : Json → String
  | .text value => writeText value
  | .number value => toString value
  | .object fields => "\x7b" ++ ", ".intercalate (lineFields fields) ++ "\x7d"

/-- The fields of an object on one line. -/
def lineFields : List (String × Json) → List String
  | [] => []
  | (name, value) :: rest => (writeText name ++ ": " ++ value.line) :: lineFields rest

end

/-- A line break and the spaces of a nesting level. -/
def lineBreak (level : Nat) : String := "\n" ++ String.ofList (List.replicate (2 * level) ' ')

mutual

/-- A value over several lines, in an object of the given nesting level. -/
def indented (level : Nat) : Json → String
  | .text value => writeText value
  | .number value => toString value
  | .object [] => "\x7b\x7d"
  | .object (field :: rest) =>
    "\x7b" ++ lineBreak (level + 1)
      ++ ("," ++ lineBreak (level + 1)).intercalate (indentedFields (level + 1) (field :: rest))
      ++ lineBreak level ++ "\x7d"

/-- The fields of an object, one on each line. -/
def indentedFields (level : Nat) : List (String × Json) → List String
  | [] => []
  | (name, value) :: rest =>
    (writeText name ++ " : " ++ indented level value) :: indentedFields level rest

end

end Json

end LocalizedKeys.Text
