import LocalizedKeys.Command.Usage
import LocalizedKeys.Diagnostic.Layout
import LocalizedKeys.Expansion.Options

/-!
# Command lines

The program has two commands, `expand` and `catalog`, which share most of their options. What
comes before the command is read with the options of the program, what comes after it with
those of the command. Words that mean nothing are reported last, by the program.
-/

namespace LocalizedKeys.Command

open Expansion

/-- The name of the program. -/
def programName : String := "localizing"

/-- What is done with an expansion. -/
inductive Task where
  /-- The expanded source is printed, or written to a file. -/
  | expand (output : Option OptionValue)
  /-- Catalogs are printed, or written to a directory. -/
  | catalog (language output : Option OptionValue)
deriving DecidableEq, Repr

/-- A command line that was understood. -/
structure Invocation where
  verbose : Bool
  task : Task
  /-- The name of the source; a hyphen stands for the standard input. -/
  file : String
  /-- The shape of lookups; `none` if nothing was given for it. -/
  mode : Option Mode
  separator : OptionValue
  /-- How diagnostics are written; `none` if nothing was given for it. -/
  layout : Option Layout
  warnImplicitSeparator : Bool
deriving DecidableEq, Repr

/-- What a command line asks for. -/
inductive Wish where
  | help
  | run (invocation : Invocation)
deriving DecidableEq, Repr

/-! ## The options -/

/-- Asks for help. -/
def helpOption : OptionSpec := ⟨["-h", "--help"], false, [], true⟩

/-- Asks for the log. -/
def verboseOption : OptionSpec := ⟨["--verbose", "-v"], false, [], false⟩

/-- Chooses the shape of lookups. -/
def modeOption : OptionSpec := ⟨["--mode"], true, Mode.all.map Mode.name, false⟩

/-- Chooses the separator for prefixes without one. -/
def separatorOption : OptionSpec := ⟨["--separator"], true, [], false⟩

/-- Chooses how diagnostics are written. -/
def formatOption : OptionSpec := ⟨["--format"], true, Layout.all.map Layout.name, false⟩

/-- Switches the warning about missing separators off. -/
def noWarningOption : OptionSpec := ⟨["--no-separator-warning"], false, [], false⟩

/-- Chooses where the result goes. -/
def outputOption : OptionSpec := ⟨["-o", "--output"], true, [], false⟩

/-- Chooses the language of catalogs. -/
def languageOption : OptionSpec := ⟨["--source-language"], true, [], false⟩

/-- The options of the program. -/
def programOptions : List OptionSpec := [helpOption, verboseOption]

/-- The options that both commands have. -/
def commonOptions : List OptionSpec :=
  [helpOption, modeOption, separatorOption, formatOption, noWarningOption]

/-- The names of the commands. -/
def commandNames : List String := ["expand", "catalog"]

/-- The options of a command. -/
def commandOptions (command : String) : List OptionSpec :=
  if command = "catalog" then commonOptions ++ [languageOption, outputOption]
  else commonOptions ++ [outputOption]

/-- What is printed when help is asked for. -/
def usage : String :=
  "usage: localizing [-h] [--verbose] \x7bexpand,catalog\x7d ...\n\n"
    ++ "  localizing expand [-h] [--mode \x7bcurrent,legacy\x7d] [--separator SEPARATOR]\n"
    ++ "      [--format \x7brust,simple,json\x7d] [--no-separator-warning] [-o OUTPUT] file\n"
    ++ "  localizing catalog [-h] [--mode \x7bcurrent,legacy\x7d] [--separator SEPARATOR]\n"
    ++ "      [--format \x7brust,simple,json\x7d] [--no-separator-warning]\n"
    ++ "      [--source-language SOURCE_LANGUAGE] [-o OUTPUT] file\n"

/-! ## Reading a command line -/

/-- The thing that a value chooses: a usual one if the option is not used, and none if nothing is
given for it. -/
def chosen {α : Type} (ofName? : String → Option α) (usual : α) (value : Option OptionValue) :
    Option α :=
  match value with
  | none => some usual
  | some value => value.text?.bind ofName?

/-- What a reading of the words after a command asks for. -/
def Invocation.ofReading (verbose : Bool) (command file : String) (r : Reading) : Invocation where
  verbose := verbose
  task :=
    if command = "catalog" then .catalog (r.value? languageOption) (r.value? outputOption)
    else .expand (r.value? outputOption)
  file := file
  mode := chosen Mode.ofName? .current (r.value? modeOption)
  separator := (r.value? separatorOption).getD (.text "_")
  layout := chosen Layout.ofName? .compiler (r.value? formatOption)
  warnImplicitSeparator := !r.uses noWarningOption

/-- Reads the words after a command; `extras` are the words before it that mean nothing. -/
def readCommand (verbose : Bool) (extras : List String) (command : String)
    (words : List String) : Except UsageError Wish :=
  let program := programName ++ " " ++ command
  let options := commandOptions command
  match classifyAll options words with
  | .error p => .error ⟨program, p⟩
  | .ok classified =>
    match readWords options {} classified with
    | .error p => .error ⟨program, p⟩
    | .ok r =>
      if r.uses helpOption then .ok .help
      else
        match r.argument with
        | none => .error ⟨program, .required ["file"]⟩
        | some file =>
          match extras ++ r.extras with
          | [] => .ok (.run (.ofReading verbose command file r))
          | words => .error ⟨programName, .unrecognized words⟩

/-- Reads a command line. -/
def readCommandLine (words : List String) : Except UsageError Wish :=
  match classifyAll programOptions words with
  | .error p => .error ⟨programName, p⟩
  | .ok classified =>
    let front := classified.takeWhile fun word => word.2.isOption
    match readWords programOptions {} front with
    | .error p => .error ⟨programName, p⟩
    | .ok r =>
      if r.uses helpOption then .ok .help
      else
        match words.drop front.length with
        | command :: rest =>
          if commandNames.contains command then
            readCommand (r.uses verboseOption) r.extras command rest
          else if command = "--" ∧ rest = [] then .error ⟨programName, .required ["command"]⟩
          else .error ⟨programName, .invalidChoice "command" command commandNames⟩
        | [] => .error ⟨programName, .required ["command"]⟩

end LocalizedKeys.Command
