import LocalizedKeys.Catalog.Build
import LocalizedKeys.Expansion.Report

/-!
# The log

What is told about the work while it is done. The lines follow from the inputs and results of
each step, so the steps themselves do not know of the log. An expansion that is cut short by an
index with too many digits is told up to that point.
-/

namespace LocalizedKeys.Command

open Expansion Swift

/-- How important a line of the log is. -/
inductive LogLevel where
  | debug
  | info
  | warning
deriving DecidableEq, Repr

/-- The word for a level. -/
def LogLevel.name : LogLevel → String
  | .debug => "DEBUG"
  | .info => "INFO"
  | .warning => "WARNING"

/-- A line of the log. -/
structure LogLine where
  level : LogLevel
  /-- The part of the program that tells it. -/
  source : String
  message : String
deriving DecidableEq, Repr

namespace LogLine

/-- The line as it is written. -/
def text (l : LogLine) : String := l.level.name ++ " " ++ l.source ++ ": " ++ l.message

/-- Whether a line is written: all are if the log is verbose, else only warnings. -/
def isShown (verbose : Bool) (l : LogLine) : Bool := verbose || l.level == .warning

end LogLine

/-! ## Reading -/

/-- The line about a type that was read. -/
def typeRead (t : TypeDecl) : LogLine :=
  ⟨.debug, "localizing.syntax.parser.rules",
    s!"Read {t.kind.keyword} {t.name} with {t.members.length} member(s)"⟩

/-- The log of reading a source. -/
def readingLog (limits : Limits) (source : List Char) : List LogLine :=
  match readSource limits source with
  | .error f => f.closed.map typeRead
  | .ok declarations =>
    (closedTypes declarations).map typeRead
      ++ [⟨.debug, "localizing.syntax.parser.core",
        s!"Read {declarations.length} top-level declaration(s)"⟩]

/-! ## Expanding -/

/-- How a parameter type is shown in the log. -/
def parameterText (type : Format.ParamType) : String :=
  let label := match type with
    | .character => "CHARACTER"
    | .int16 => "INT16"
    | .uint16 => "UINT16"
    | .int => "INT"
    | .uint => "UINT"
    | .double => "DOUBLE"
    | .string => "STRING"
  "<ArgType." ++ label ++ ": '" ++ type.name ++ "'>"

/-- How the types of parameters are shown in the log; a single one has a comma after it. -/
def parametersText (types : List Format.ParamType) : String :=
  match types with
  | [type] => "(" ++ parameterText type ++ ",)"
  | _ => "(" ++ ", ".intercalate (types.map parameterText) ++ ")"

/-- The log of making members for cases: a line for each default value that takes arguments, up
to the first one that cannot be used. -/
def casesLog : List CaseElement → List LogLine
  | [] => []
  | element :: rest =>
    match Format.argumentTypes (defaultValue element) with
    | .error _ => []
    | .ok [] => casesLog rest
    | .ok types =>
      ⟨.debug, "localizing.format.specifiers",
        s!"Inferred {types.length} argument(s) from " ++ Text.quoted (defaultValue element)
          ++ ": " ++ parametersText types⟩ :: casesLog rest

/-- The log of making members for a type. -/
def synthesisLog (request : Request) (options : Options) (t : TypeDecl) : List LogLine :=
  let keys := (t.nestedEnum? request.resolvedStringsEnum).map TypeDecl.caseElements
  casesLog (keys.getD [])
    ++ match synthesize request options t with
      | .error _ => []
      | .ok members =>
        [⟨.debug, "localizing.expansion.synthesizer",
          s!"Synthesized {members.length} member(s) for {t.name} from "
            ++ request.resolvedStringsEnum⟩]

/-- The log of advice about a request; `separator` is how the default separator is shown. -/
def adviceLog (request : Request) (options : Options) (separator : String) (t : TypeDecl) :
    List LogLine :=
  if options.warnImplicitSeparator && request.lacksSeparator then
    [⟨.info, "localizing.expansion.macro",
      t.name ++ ": prefix without separator, using " ++ separator⟩]
  else []

/-- The log of expanding an annotated type. -/
def typeLog (options : Options) (separator : String) (t : TypeDecl) (a : Attribute) :
    List LogLine :=
  let work := match requestOf a t with
    | .error _ => []
    | .ok request => adviceLog request options separator t ++ synthesisLog request options t
  work
    ++ match expandType options none a t with
      | .error _ => []
      | .ok ⟨_, .ok members⟩ =>
        [⟨.debug, "localizing.expansion.macro",
          s!"Expanded {t.name} into {members.length} member(s)"⟩]
      | .ok ⟨_, .error e⟩ =>
        [⟨.debug, "localizing.expansion.macro",
          s!"Expansion of {t.name} failed: {e.diagnostic.message}"⟩]

/-- The log of expanding annotated types, up to one that cuts the expansion short. -/
def typesLog (options : Options) (separator : String) :
    List (TypeDecl × Attribute) → List LogLine
  | [] => []
  | (t, a) :: rest =>
    typeLog options separator t a
      ++ match expandType options none a t with
        | .error _ => []
        | .ok _ => typesLog options separator rest

/-- The log of expanding a source. -/
def expansionLog (options : Options) (separator : String) (limits : Limits)
    (source : List Char) : List LogLine :=
  readingLog limits source
    ++ match readSource limits source with
      | .error _ => []
      | .ok declarations => typesLog options separator (annotated declarations)

/-- The line that sums a report up. -/
def reportLine (filename : String) (report : Report) : LogLine :=
  ⟨.debug, "localizing",
    s!"{filename}: {report.results.length} declaration(s), {report.errors.length} error(s), "
      ++ s!"{report.warnings.length} warning(s)"⟩

/-! ## Catalogs -/

/-- The part of the program that tells about catalogs. -/
def catalogSource : String := "localizing.catalog.xcstrings"

/-- The log of building catalogs. -/
def catalogLog (built : Catalog.Built) : List LogLine :=
  (built.warnings.map fun w => ⟨.warning, catalogSource, w.message⟩)
    ++ [⟨.debug, catalogSource,
      s!"Built {built.catalogs.length} catalog(s) for {built.language}"⟩]

/-- The line about a file that was written. -/
def fileWritten (path : Files.Path) : LogLine := ⟨.debug, catalogSource, "Wrote " ++ path.text⟩

end LocalizedKeys.Command
