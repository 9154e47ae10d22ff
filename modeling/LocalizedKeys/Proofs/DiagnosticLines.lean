import LocalizedKeys.Diagnostic.Layout
import LocalizedKeys.Proofs.JsonReader

/-!
# Diagnostics read from lines of JSON

A tool that is given diagnostics as JSON takes the text apart at its line feeds and reads each line
by itself. `Notice.ofJson?` is what it finds there, field by field, wherever the fields stand: the
code by its name and its number, the message, the severity, the four numbers of a location, and the
texts that may be missing.

Nothing is lost on the way but the difference between an empty text and none
(`lines_writeAll_json`): there is a line for each diagnostic, whatever line feeds are in its texts,
and the line tells what the diagnostic was.
-/

namespace LocalizedKeys

open Text Catalog

/-! ## Names that stand for what they name -/

theorem DiagnosticCode.ofName?_name (code : DiagnosticCode) :
    DiagnosticCode.ofName? code.name = some code := by
  cases code <;> decide

/-- The severity with a name. -/
def Severity.ofName? (name : String) : Option Severity :=
  [error, warning].find? fun severity => severity.name == name

theorem Severity.ofName?_name (severity : Severity) :
    Severity.ofName? severity.name = some severity := by
  cases severity <;> decide

/-! ## What a line says -/

/-- A text that is there and is not empty. -/
def nonEmpty? (field : Option String) : Option String := field.filter fun text => !text.isEmpty

/-- A diagnostic in which an empty text counts as none. -/
def Diagnostic.stated (d : Diagnostic) : Diagnostic :=
  { d with
    hint := nonEmpty? d.hint
    declaration := nonEmpty? d.declaration
    caseName := nonEmpty? d.caseName
    specifier := nonEmpty? d.specifier }

/-- What is told to a tool: a diagnostic, and the name of the source. -/
structure Notice where
  filename : Option String
  diagnostic : Diagnostic
deriving DecidableEq, Repr

namespace Notice

/-- The location in the fields of a JSON value. -/
def location? (json : Json) : Option Location := do
  let line ← json.naturalAt? "line"
  let column ← json.naturalAt? "column"
  let start ← json.naturalAt? "start"
  let stop ← json.naturalAt? "end"
  some ⟨start, stop, line, column⟩

/-- The notice in the fields of a JSON value. The number of the code has to be the right one. -/
def ofJson? (json : Json) : Option Notice := do
  let code ← (json.textAt? "code").bind DiagnosticCode.ofName?
  let message ← json.textAt? "message"
  let severity ← (json.textAt? "severity").bind Severity.ofName?
  if json.naturalAt? "code_value" = some code.number then
    some
      { filename := json.textAt? "file"
        diagnostic :=
          { code, message, severity
            location := location? json
            hint := json.textAt? "hint"
            declaration := json.textAt? "declaration"
            caseName := json.textAt? "case"
            specifier := json.textAt? "specifier" } }
  else none

/-- The notice on a line. -/
def ofLine? (line : List Char) : Option Notice := (Json.read? line).bind ofJson?

end Notice

namespace DiagnosticStyle

/-- What a style tells about a diagnostic. -/
def notice (style : DiagnosticStyle) (d : Diagnostic) : Notice :=
  ⟨nonEmpty? style.filename, d.stated⟩

/-! ## The fields are found -/

@[simp]
theorem get?_jsonField (key name : String) (field : Option String) :
    Sorted.get? key (jsonField name field)
      = if name = key then (nonEmpty? field).map Json.text else none := by
  cases field with
  | none => simp [jsonField, nonEmpty?, Sorted.get?]
  | some text =>
    by_cases hempty : text.isEmpty
    · simp [jsonField, nonEmpty?, Sorted.get?, Option.filter_some, hempty]
    · simp [jsonField, nonEmpty?, Sorted.get?, Option.filter_some, hempty]

variable (style : DiagnosticStyle) (d : Diagnostic)

theorem location?_jsonFields : Notice.location? (.object (style.jsonFields d)) = d.location := by
  cases hlocation : d.location with
  | none =>
    -- no other field is called a line
    simp [Notice.location?, Json.naturalAt?, Json.field?, jsonFields, hlocation,
      Sorted.get?_append, Sorted.get?]
  | some location =>
    simp [Notice.location?, Json.naturalAt?, Json.field?, jsonFields, hlocation, locationFields,
      Sorted.get?]

/-- A text that may be missing is found, unless it is empty: no other field has its name. -/
theorem textAt?_jsonFields :
    let json := Json.object (style.jsonFields d)
    json.textAt? "file" = nonEmpty? style.filename ∧
    json.textAt? "declaration" = nonEmpty? d.declaration ∧
    json.textAt? "case" = nonEmpty? d.caseName ∧
    json.textAt? "specifier" = nonEmpty? d.specifier ∧
    json.textAt? "hint" = nonEmpty? d.hint := by
  cases hlocation : d.location <;>
    simp [Json.textAt?, Json.field?, jsonFields, hlocation, locationFields, Sorted.get?_append,
      Sorted.get?]

theorem ofJson?_jsonFields :
    Notice.ofJson? (.object (style.jsonFields d)) = some (style.notice d) := by
  have hlocation := location?_jsonFields style d
  obtain ⟨hfile, hdeclaration, hcase, hspecifier, hhint⟩ := textAt?_jsonFields style d
  have hcode := DiagnosticCode.ofName?_name d.code
  have hseverity := Severity.ofName?_name d.severity
  rw [Notice.ofJson?, hfile, hdeclaration, hcase, hspecifier, hhint, hlocation]
  simp [Json.textAt?, Json.naturalAt?, Json.field?, jsonFields, Sorted.get?, Json.text?, hcode,
    hseverity, notice, Diagnostic.stated]

/-! ## The lines are found -/

theorem ofLine?_write (hlayout : style.layout = .json) :
    Notice.ofLine? (style.write d).toList = some (style.notice d) := by
  rw [write, hlayout, Notice.ofLine?, Json.read?_line, Option.bind_some, ofJson?_jsonFields]

/-- The lines of what is written are the diagnostics, each written by itself. -/
theorem lines_writeAll (hlayout : style.layout = .json) {ds : List Diagnostic} (hne : ds ≠ []) :
    lines (style.writeAll ds).toList = ds.map fun d => (style.write d).toList := by
  have hlines : ∀ text ∈ (ds.map style.write).map String.toList, '\n' ∉ text := by
    intro text htext
    obtain ⟨written, hwritten, rfl⟩ := List.mem_map.1 htext
    obtain ⟨d, -, rfl⟩ := List.mem_map.1 hwritten
    rw [write, hlayout]
    exact Json.lineFeed_notMem_line _
  have hjoined : (style.writeAll ds).toList
      = join ['\n'] ((ds.map style.write).map String.toList) := by
    rw [writeAll, hlayout, String.toList_intercalate, intercalate_eq_join]
    rfl
  rw [hjoined, lines_join (by simpa using hne) hlines, List.map_map]
  rfl

/-- **A line for each diagnostic, and nothing lost in it.** The text falls into as many lines as
there are diagnostics, and each line, read by itself as JSON, says what its diagnostic was. -/
theorem lines_writeAll_json (hlayout : style.layout = .json) {ds : List Diagnostic}
    (hne : ds ≠ []) :
    (lines (style.writeAll ds).toList).length = ds.length ∧
    (lines (style.writeAll ds).toList).map Notice.ofLine?
      = ds.map fun d => some (style.notice d) := by
  rw [lines_writeAll style hlayout hne]
  refine ⟨List.length_map .., ?_⟩
  rw [List.map_map]
  exact List.map_congr_left fun d _ => ofLine?_write style d hlayout

/-- Diagnostics whose texts hold what JSON and lines are made of, some of them empty. -/
def awkward : List Diagnostic :=
  [{ code := .separatorDefaultChanging, message := "first\nsecond\r\n", severity := .warning
     location := some ⟨3, 9, 2, 1⟩, hint := some "Add separator: \"_\"", declaration := some "" },
   { code := .unknownSpecifier, message := "\\u000a \x00\x1f\x7f é \u2028 😀"
     specifier := some "%\"\x7d\n\x7b\"", caseName := some "" }]

/-- The empty texts are gone, and nothing else is. -/
theorem lines_writeAll_json_awkward :
    let style : DiagnosticStyle := { layout := .json, filename := some "a \"b\".swift" }
    style.layout = .json ∧ awkward ≠ [] ∧
    (lines (style.writeAll awkward).toList).length = 2 ∧
    (lines (style.writeAll awkward).toList).map Notice.ofLine? =
      [some
        { filename := some "a \"b\".swift"
          diagnostic :=
            { code := .separatorDefaultChanging, message := "first\nsecond\r\n"
              severity := .warning, location := some ⟨3, 9, 2, 1⟩
              hint := some "Add separator: \"_\"" } },
       some
        { filename := some "a \"b\".swift"
          diagnostic :=
            { code := .unknownSpecifier, message := "\\u000a \x00\x1f\x7f é \u2028 😀"
              specifier := some "%\"\x7d\n\x7b\"" } }] := by
  intro style
  have hne : awkward ≠ [] := by simp [awkward]
  obtain ⟨hlength, hnotices⟩ := lines_writeAll_json style rfl hne
  refine ⟨rfl, hne, hlength, hnotices.trans ?_⟩
  simp [awkward, notice, Diagnostic.stated, nonEmpty?, style]

end DiagnosticStyle

end LocalizedKeys
