import LocalizedKeys.Expansion.Options
import LocalizedKeys.Expansion.Request

/-!
# Generated members

A case becomes a constant that holds the result of a lookup, or, if its default value formats
arguments, a function that looks the text up and formats it. Everything in a lookup is the text
of an expression.
-/

namespace LocalizedKeys.Expansion

open Format

/-- The arguments of a lookup. -/
structure Lookup where
  /-- The key as a literal. -/
  key : String
  /-- The default value as written. -/
  defaultValue : String
  table : String := defaultTable
  bundle : String := defaultBundle
  /-- A note for translators, as a literal. -/
  comment : String := "\"\""
deriving DecidableEq, Repr

namespace Lookup

/-- Whether the table is left out. -/
def usesDefaultTable (l : Lookup) : Bool := l.table == defaultTable

/-- Whether the bundle is left out. -/
def usesDefaultBundle (l : Lookup) : Bool := l.bundle == ".main" || l.bundle == "Bundle.main"

/-- Whether the comment is left out. -/
def usesDefaultComment (l : Lookup) : Bool := l.comment == "\"\""

/-- The arguments of the call in their order, with labels. -/
def callArguments (l : Lookup) : Mode → List (Option String × String)
  | .legacy =>
    [(none, l.key), (some "tableName", l.table), (some "bundle", l.bundle),
      (some "value", l.defaultValue), (some "comment", l.comment)]
  | .current =>
    [(some "localized", l.key), (some "defaultValue", l.defaultValue)]
      ++ (if l.usesDefaultTable then [] else [(some "table", l.table)])
      ++ (if l.usesDefaultBundle then [] else [(some "bundle", l.bundle)])
      ++ (if l.usesDefaultComment then [] else [(some "comment", l.comment)])

/-- The name of what is called. -/
def callee : Mode → String
  | .legacy => "NSLocalizedString"
  | .current => "String"

/-- One argument of a call. -/
def argumentText : Option String × String → String
  | (some label, expression) => label ++ ": " ++ expression
  | (none, expression) => expression

/-- The call. -/
def render (l : Lookup) (mode : Mode) : String :=
  callee mode ++ "(" ++ ", ".intercalate ((l.callArguments mode).map argumentText) ++ ")"

end Lookup

/-- A generated member. -/
inductive Member where
  | constant (name : String) (lookup : Lookup)
  | function (name : String) (lookup : Lookup) (parameters : List ParamType)
deriving DecidableEq, Repr

namespace Member

/-- The name as written in the key enumeration. -/
def name : Member → String
  | constant name _ => name
  | function name _ _ => name

/-- The lookup of a member. -/
def lookup : Member → Lookup
  | constant _ lookup => lookup
  | function _ lookup _ => lookup

/-- The names of `count` parameters. -/
def parameterNames (count : Nat) : List String :=
  (List.range count).map fun i => s!"arg{i + 1}"

/-- The parameters of a function with their types. -/
def signature (parameters : List ParamType) : String :=
  ", ".intercalate (((parameterNames parameters.length).zip parameters).map fun (name, type) =>
    "_ " ++ name ++ ": " ++ type.name)

/-- The lines of a member, without indentation of its own. -/
def renderLines (mode : Mode) (indent : String) : Member → List String
  | constant name lookup => ["static let " ++ name ++ " = " ++ lookup.render mode]
  | function name lookup parameters =>
    let arguments := ", ".intercalate ("temp" :: parameterNames parameters.length)
    ["static func " ++ name ++ "(" ++ signature parameters ++ ") -> String \x7b",
      indent ++ "let temp = " ++ lookup.render mode,
      indent ++ "return String(format: " ++ arguments ++ ")",
      "\x7d"]

/-- The text of a member. -/
def render (m : Member) (mode : Mode) (indent : String) : String :=
  "\n".intercalate (m.renderLines mode indent)

end Member

end LocalizedKeys.Expansion
