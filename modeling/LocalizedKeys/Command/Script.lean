import LocalizedKeys.Command.Invocation
import LocalizedKeys.Command.Log
import LocalizedKeys.Files.Tree
import LocalizedKeys.Language.System
import LocalizedKeys.Source.Excerpt

/-!
# What a command does

All that a command does follows from its options, its source and what the surroundings say about
languages. So it is a script: steps that print or write files, and an ending. A script does not
look at what its steps bring about; a step that fails breaks it off.
-/

namespace LocalizedKeys.Command

open Expansion

/-- A step of a script. -/
inductive Step where
  /-- Writes to the standard output. -/
  | print (text : String)
  /-- Writes to the standard error. -/
  | report (text : String)
  | makeDirectories (path : Files.Path)
  | writeFile (path : Files.Path) (text : String)
deriving DecidableEq, Repr

/-- Why a command breaks off without an exit code of its own. -/
inductive Abort where
  | indexTooLong (digits : Nat)
  | overlap (o : Overlap)
  | file (e : Files.FileError)
  /-- There are diagnostics, but nothing was given for how to write them. -/
  | layoutMissing
  /-- Nothing was given for a place that an operation needs. -/
  | placeMissing (operation : String)
deriving DecidableEq, Repr

/-- What is reported about a command that breaks off. -/
def Abort.message : Abort → String
  | indexTooLong digits => Format.indexTooLongMessage digits
  | overlap o => o.message
  | file e => e.message
  | layoutMissing => Layout.invalidMessage OptionValue.nothing.display
  | placeMissing operation => "'list' object has no attribute " ++ Text.quoted operation

/-- How a script ends. -/
inductive Ending where
  | exit (code : Nat)
  | abort (reason : Abort)
deriving DecidableEq, Repr

/-- Steps, and what comes after them. -/
structure Script where
  steps : List Step
  ending : Ending
deriving DecidableEq, Repr

/-- The exit code when everything was expanded. -/
def exitOk : Nat := 0

/-- The exit code when some type was not expanded. -/
def exitExpansionFailed : Nat := 1

/-- The exit code when the input cannot be used. -/
def exitInputError : Nat := 2

namespace Script

/-- Nothing but an ending. -/
def stop (ending : Ending) : Script := ⟨[], ending⟩

/-- A script with steps in front. -/
def after (s : Script) (steps : List Step) : Script := { s with steps := steps ++ s.steps }

/-- Reports that the input cannot be used. -/
def refuse (message : String) : Script :=
  ⟨[.report ("[ERROR] " ++ message ++ "\n")], .exit exitInputError⟩

end Script

/-- The surroundings of a command. -/
structure Setting where
  surroundings : Language.Surroundings
  /-- The registry of locales, if there is one. -/
  registry : Option Language.Registry

/-- Why a source cannot be read. -/
inductive ReadError where
  | file (e : Files.FileError)
  | notText (e : Text.Utf8Error)
deriving DecidableEq, Repr

/-- The text of bytes that were read, or could not be. -/
def sourceText (bytes : Except Files.FileError (List UInt8)) : Except ReadError (List Char) :=
  match bytes with
  | .error e => .error (.file e)
  | .ok bytes =>
    match Text.readText bytes with
    | .error e => .error (.notText e)
    | .ok text => .ok text

namespace Invocation

/-- The name of the source as it is shown. -/
def filename (i : Invocation) : String := if i.file = "-" then "<stdin>" else i.file

/-- The options of the expansion, or what is wrong with them. -/
def options (i : Invocation) : Except String Options :=
  match i.mode with
  | none => .error (Mode.invalidMessage OptionValue.nothing.display)
  | some mode =>
    let options : Options :=
      { mode
        defaultSeparator := i.separator.shown
        warnImplicitSeparator := i.warnImplicitSeparator }
    options.checked.mapError OptionsError.message

/-- The steps that write lines of the log. -/
def logSteps (i : Invocation) (log : List LogLine) : List Step :=
  (log.filter (LogLine.isShown i.verbose)).map fun line => .report (line.text ++ "\n")

/-- The steps that write the log of expanding a source. It holds no warnings, so only a verbose
command writes any of it. -/
def expansionLogSteps (i : Invocation) (options : Options) (source : List Char) : List Step :=
  if i.verbose then i.logSteps (expansionLog options i.separator.display {} source) else []

/-- Writes diagnostics before the rest of a script. -/
def withDiagnostics (i : Invocation) (diagnostics : List Diagnostic) (rest : Script) : Script :=
  if diagnostics.isEmpty then rest
  else
    match i.layout with
    | none => .stop (.abort .layoutMissing)
    | some layout =>
      let style : DiagnosticStyle := ⟨layout, false, some i.filename⟩
      rest.after [.report (style.writeAll diagnostics ++ "\n")]

/-- The exit code for a report. -/
def exitCode (report : Report) : Nat := if report.succeeded then exitOk else exitExpansionFailed

/-- Reports a source that cannot be read, with the lines around the place where reading failed. -/
def refuseSource (i : Invocation) (source : List Char) (e : Swift.SyntaxError) : Script :=
  let diagnostic := e.diagnostic source
  let pos := match diagnostic.location with
    | some location => min location.start source.length
    | none => source.length
  let remark : Remark := ⟨diagnostic.message, source, pos, []⟩
  ⟨[.report (i.filename ++ ": " ++ remark.excerpt 2 ++ "\n")], .exit exitInputError⟩

/-! ## The commands -/

/-- What is done with the report of an expansion. -/
def expandScript (output : Option OptionValue) (report : Report) : Script :=
  let text := String.ofList report.expanded
  match output with
  | none => ⟨[.print text], .exit (exitCode report)⟩
  | some (.text path) => ⟨[.writeFile (.ofText path) text], .exit (exitCode report)⟩
  | some .nothing => .stop (.abort (.placeMissing "write_text"))

/-- The steps that write catalogs to a directory and print where they are. -/
def catalogFileSteps (i : Invocation) (directory : Files.Path) (built : Catalog.Built) :
    List Step :=
  let files := Catalog.files directory built
  .makeDirectories directory
    :: files.flatMap (fun (path, text) => .writeFile path text :: i.logSteps [fileWritten path])
    ++ files.map fun (path, _) => .print (path.text ++ "\n")

/-- The steps that print catalogs. -/
def catalogPrintSteps (built : Catalog.Built) : List Step :=
  built.catalogs.flatMap fun (name, entries) =>
    [.print ("// " ++ Catalog.fileName name ++ "\n"),
      .print (Catalog.document built.language entries ++ "\n")]

/-- The language of catalogs: the one asked for, unless it is empty, or the system's. -/
def sourceLanguage (setting : Setting) (language : Option OptionValue) : String :=
  ((language.bind OptionValue.text?).filter fun language => !language.isEmpty).getD
    (Language.systemLanguage setting.surroundings)

/-- What is done with the members of a report. -/
def catalogScript (i : Invocation) (setting : Setting) (language output : Option OptionValue)
    (report : Report) : Script :=
  let language := sourceLanguage setting language
  match Catalog.build setting.registry language report.members with
  | .error e =>
    .refuse ("Invalid source language " ++ Text.quoted language ++ ": " ++ e.message)
  | .ok built =>
    let log := i.logSteps (catalogLog built)
    match output with
    | none => ⟨log ++ catalogPrintSteps built, .exit (exitCode report)⟩
    | some (.text directory) =>
      ⟨log ++ i.catalogFileSteps (.ofText directory) built, .exit (exitCode report)⟩
    | some .nothing => ⟨log, .abort (.placeMissing "mkdir")⟩

/-- What is done with a report. -/
def reportScript (i : Invocation) (setting : Setting) (report : Report) : Script :=
  match i.task with
  | .expand output => expandScript output report
  | .catalog language output => i.catalogScript setting language output report

/-- What is done with a source. -/
def sourceScript (i : Invocation) (setting : Setting) (source : List Char) : Script :=
  match i.options with
  | .error message => .refuse message
  | .ok options =>
    let script := match expandSource options {} source with
      | .error (.unreadable f) => i.refuseSource source f.cause
      | .error (.indexTooLong digits) => .stop (.abort (.indexTooLong digits))
      | .error (.overlap o) => .stop (.abort (.overlap o))
      | .ok report =>
        i.withDiagnostics report.diagnostics
          ((i.reportScript setting report).after (i.logSteps [reportLine i.filename report]))
    script.after (i.expansionLogSteps options source)

/-- Whether a command needs a registry of locales and there is none. -/
def lacksLanguages (i : Invocation) (setting : Setting) : Bool :=
  match i.task with
  | .expand _ => false
  | .catalog _ _ => setting.registry.isNone

/-- What a command does when reading its source gives the bytes, or fails. -/
def script (i : Invocation) (setting : Setting) (bytes : Except Files.FileError (List UInt8)) :
    Script :=
  if i.lacksLanguages setting then
    .refuse (Language.LanguageError.message (.registryMissing "localizing catalog"))
  else
    match sourceText bytes with
    | .ok source => i.sourceScript setting source
    | .error (.notText e) => .refuse (s!"Cannot read {i.filename}: {e.message}")
    | .error (.file e) =>
      if e.problem = .nullCharacter then .stop (.abort (.file e))
      else .refuse (s!"Cannot read {i.filename}: {e.message}")

end Invocation

end LocalizedKeys.Command
