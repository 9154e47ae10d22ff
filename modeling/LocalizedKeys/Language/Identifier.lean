import LocalizedKeys.Text.Case
import LocalizedKeys.Text.DecimalDigit
import LocalizedKeys.Text.Letter
import LocalizedKeys.Text.Quoted

/-!
# Locale identifiers

An identifier names a language and possibly a script, a territory and a variant, separated by
underscores, and a modifier after an at sign. What follows a dot is a character set and means
nothing here. Reading brings the parts into their usual case.
-/

namespace LocalizedKeys.Language

open Text

/-- The parts of a locale identifier. -/
structure LocaleId where
  language : String
  script : Option String := none
  territory : Option String := none
  variant : Option String := none
  modifier : Option String := none
deriving DecidableEq, Repr

/-- Why a text is no locale identifier. -/
inductive IdentifierError where
  | empty
  | notLetters (language : String)
  | malformed (text : String)
deriving DecidableEq, Repr

/-- What is reported about a text that is no locale identifier. -/
def IdentifierError.message : IdentifierError → String
  | empty =>
    "Empty locale identifier value: ''\n\nIf you didn't explicitly pass an empty value to a "
      ++ "Babel function, this could be caused by there being no suitable locale environment "
      ++ "variables for the API you tried to use."
  | notLetters language => "expected only letters, got " ++ quoted language
  | malformed text => quoted text ++ " is not a valid locale identifier"

namespace LocaleId

/-- The identifier as text. -/
def text (id : LocaleId) : String :=
  let parts := some id.language :: [id.script, id.territory, id.variant]
  "_".intercalate (parts.filterMap fun part => part)
    ++ match id.modifier with
      | some modifier => "@" ++ modifier
      | none => ""

/-- The identifier without its modifier. -/
def withoutModifier (id : LocaleId) : LocaleId := { id with modifier := none }

/-- The characters before and after the first occurrence of a mark; nothing comes after if it
does not occur. -/
def cut (mark : Char) (cs : List Char) : List Char × List Char :=
  let front := cs.takeWhile (· != mark)
  (front, cs.drop (front.length + 1))

/-- The pieces between marks, the first of which has begun with `current`, kept in reverse. -/
def pieces (mark : Char) (current : List Char) : List Char → List (List Char)
  | [] => [current.reverse]
  | c :: rest =>
    if c = mark then current.reverse :: pieces mark [] rest else pieces mark (c :: current) rest

/-- Whether a text is one or more letters. -/
def isLetters (cs : List Char) : Bool := !cs.isEmpty && cs.all isLetter

/-- The script at the front of the parts, and the parts after it. -/
def takeScript : List (List Char) → Option (List Char) × List (List Char)
  | part :: rest =>
    if part.length = 4 ∧ isLetters part then (some (titleText part), rest) else (none, part :: rest)
  | [] => (none, [])

/-- The territory at the front of the parts, and the parts after it. -/
def takeTerritory : List (List Char) → Option (List Char) × List (List Char)
  | part :: rest =>
    if part.length = 2 ∧ isLetters part then (some (upperText part), rest)
    else if part.length = 3 ∧ part.all isDigit then (some part, rest)
    else (none, part :: rest)
  | [] => (none, [])

/-- Whether a part opens a variant. -/
def opensVariant (part : List Char) : Bool :=
  match part with
  | c :: _ => (part.length = 4 && isDigit c) || (5 ≤ part.length && isLetter c)
  | [] => false

/-- The variant, which is the last of the parts that are left, and the parts before it. -/
def takeVariant (parts : List (List Char)) : Option (List Char) × List (List Char) :=
  match parts.head?, parts.getLast? with
  | some first, some last =>
    if opensVariant first then (some (upperText last), parts.dropLast) else (none, parts)
  | _, _ => (none, parts)

/-- The identifier that a text spells. -/
def ofText (text : String) : Except IdentifierError LocaleId :=
  let (front, modifier) := cut '@' text.toList
  let code := (cut '.' front).1
  match pieces '_' [] code with
  | [] => .error (.notLetters "")
  | first :: parts =>
    let language := lowerText first
    if !isLetters language then .error (.notLetters (String.ofList language))
    else
      let (script, parts) := takeScript parts
      let (territory, parts) := takeTerritory parts
      let (variant, parts) := takeVariant parts
      if parts.isEmpty then
        .ok
          { language := String.ofList language
            script := script.map String.ofList
            territory := territory.map String.ofList
            variant := variant.map String.ofList
            modifier := if modifier.isEmpty then none else some (String.ofList modifier) }
      else .error (.malformed (String.ofList code))

end LocaleId

end LocalizedKeys.Language
