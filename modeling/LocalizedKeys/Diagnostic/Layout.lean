import LocalizedKeys.Diagnostic.Basic
import LocalizedKeys.Text.Json

/-!
# Writing diagnostics

Three layouts: several lines in the manner of a compiler, one line for people, and one line of
JSON for tools. Fields that are missing or empty are left out. Several diagnostics are separated
by a blank line, in JSON by a line feed alone.
-/

namespace LocalizedKeys

/-- How diagnostics are written. -/
inductive Layout where
  | compiler
  | oneLine
  | json
deriving DecidableEq, Repr

namespace Layout

/-- All layouts. -/
def all : List Layout := [compiler, oneLine, json]

/-- The name by which a layout is chosen. -/
def name : Layout → String
  | compiler => "rust"
  | oneLine => "simple"
  | json => "json"

/-- The layout with a name. -/
def ofName? (name : String) : Option Layout := all.find? fun layout => layout.name == name

/-- What is reported about something that names no layout. -/
def invalidMessage (shown : String) : String := shown ++ " is not a valid OutputFormat"

end Layout

/-- The choices made for writing diagnostics. -/
structure DiagnosticStyle where
  layout : Layout := .compiler
  /-- Whether the severity is coloured for a terminal. -/
  color : Bool := false
  /-- The name of the source, shown with places. -/
  filename : Option String := none
deriving DecidableEq, Repr

namespace DiagnosticStyle

/-- A field that is not empty, with a label in front. -/
def labelled (label : String) (field : Option String) : List String :=
  match field with
  | some text => if text.isEmpty then [] else [label ++ text]
  | none => []

/-- The name of the source, unless it is empty. -/
def shownFilename? (style : DiagnosticStyle) : Option String :=
  style.filename.filter fun filename => !filename.isEmpty

/-- A place as it is shown: with the name of the source, if there is one. -/
def place (style : DiagnosticStyle) (location : Location) : String :=
  match style.shownFilename? with
  | some filename => s!"{filename}:{location.line}:{location.column}"
  | none => s!"line {location.line}, column {location.column}"

/-- The word for the severity, in bold red or yellow if colours are on. -/
def severityText (style : DiagnosticStyle) (severity : Severity) : String :=
  if style.color then
    let color := match severity with
      | .error => "1;31"
      | .warning => "1;33"
    "\x1b[" ++ color ++ "m" ++ severity.name ++ "\x1b[0m"
  else severity.name

/-- The lines of a diagnostic in the manner of a compiler. -/
def compilerLines (style : DiagnosticStyle) (d : Diagnostic) : List String :=
  let place := match d.location with
    | some location => some (style.place location)
    | none => style.filename
  (style.severityText d.severity ++ "[" ++ d.code.name ++ "]: " ++ d.message)
    :: labelled "  --> " place
    ++ labelled "  = declaration: " d.declaration
    ++ labelled "  = case: " d.caseName
    ++ labelled "  = specifier: " d.specifier
    ++ labelled "  = help: " d.hint

/-- A message with spaces for its line feeds. -/
def flatten (message : String) : String :=
  String.ofList (message.toList.map fun c => if c = '\n' then ' ' else c)

/-- A diagnostic on one line. -/
def oneLineText (style : DiagnosticStyle) (d : Diagnostic) : String :=
  let text := d.code.name ++ ": " ++ flatten d.message
  match d.location with
  | some location => style.place location ++ ": " ++ text
  | none => text

/-- A JSON field for a text that is not empty. -/
def jsonField (name : String) (field : Option String) : List (String × Text.Json) :=
  match field with
  | some text => if text.isEmpty then [] else [(name, .text text)]
  | none => []

/-- The JSON fields of a location. -/
def locationFields (location : Location) : List (String × Text.Json) :=
  [("line", .number location.line), ("column", .number location.column),
    ("start", .number location.start), ("end", .number location.stop)]

/-- The JSON fields of a diagnostic. -/
def jsonFields (style : DiagnosticStyle) (d : Diagnostic) : List (String × Text.Json) :=
  [("code", .text d.code.name), ("code_value", .number d.code.number),
    ("message", .text d.message), ("severity", .text d.severity.name)]
    ++ (d.location.map locationFields).getD []
    ++ jsonField "file" style.filename
    ++ jsonField "declaration" d.declaration
    ++ jsonField "case" d.caseName
    ++ jsonField "specifier" d.specifier
    ++ jsonField "hint" d.hint

/-- Writes a diagnostic. -/
def write (style : DiagnosticStyle) (d : Diagnostic) : String :=
  match style.layout with
  | .compiler => "\n".intercalate (style.compilerLines d)
  | .oneLine => style.oneLineText d
  | .json => (Text.Json.object (style.jsonFields d)).line

/-- Writes several diagnostics. -/
def writeAll (style : DiagnosticStyle) (ds : List Diagnostic) : String :=
  let separator := match style.layout with
    | .json => "\n"
    | _ => "\n\n"
  separator.intercalate (ds.map style.write)

end DiagnosticStyle

/-- Writes a diagnostic in the manner of a compiler, without colours. -/
def Diagnostic.text (d : Diagnostic) : String := ({} : DiagnosticStyle).write d

end LocalizedKeys
