import LocalizedKeys.Command.Script
import LocalizedKeys.Language.Locales

/-!
# The program

Reads the command line, the source and the surroundings, and carries a script out on the real
files and streams.
-/

namespace LocalizedKeys.Main

open Command Files

/-- The exit code of a program that breaks off. -/
def exitAborted : UInt32 := 1

/-- What a failure of the system says about a path; anything else counts as a missing file. -/
def problemOf : IO.Error → FileProblem
  | .alreadyExists _ _ _ => .exists
  | .inappropriateType _ 20 _ => .notDirectory
  | .inappropriateType _ _ _ => .isDirectory
  | .invalidArgument _ 36 _ => .nameTooLong
  | _ => .notFound

/-- Does something with the file at a path. -/
def attempt {α : Type} (path : Path) (action : IO α) : IO (Except FileError α) := do
  try
    return .ok (← action)
  catch e => return .error ⟨problemOf e, path⟩

/-- All bytes of a stream. -/
partial def readAll (stream : IO.FS.Stream) (done : ByteArray) : IO ByteArray := do
  let bytes ← stream.read 65536
  if bytes.isEmpty then return done else readAll stream (done ++ bytes)

/-- The bytes of the source. -/
def readSource (file : String) : IO (Except FileError (List UInt8)) := do
  if file = "-" then
    return .ok (← readAll (← IO.getStdin) .empty).toList
  else
    let path := Path.ofText file
    attempt path do return (← IO.FS.readBinFile path.text).toList

/-- What the environment says about languages, and the registry of common locales. -/
def setting : IO Setting := do
  let names := ["LC_ALL", "LC_MESSAGES", "LANG", "LC_CTYPE"]
  let environment ← names.filterMapM fun name => do
    return (← IO.getEnv name).map fun value => (name, value)
  let inUse := ["LC_ALL", "LC_CTYPE", "LANG"].filterMap fun name => environment.lookup name
  let systemLocale := inUse.find? fun value => !value.isEmpty
  return ⟨⟨systemLocale.map Language.withoutCharset, environment⟩, some Language.commonLocales⟩

/-- Carries a step out. -/
def perform (step : Step) : IO (Except FileError Unit) := do
  match step with
  | .print text =>
    IO.print text
    return .ok ()
  | .report text =>
    IO.eprint text
    return .ok ()
  | .makeDirectories path => attempt path (IO.FS.createDirAll path.text)
  | .writeFile path text => attempt path (IO.FS.writeFile path.text text)

/-- Carries steps out up to one that fails, and ends as they do. -/
def performAll (ending : Ending) : List Step → IO UInt32
  | [] =>
    match ending with
    | .exit code => return code.toUInt32
    | .abort reason => do
      IO.eprintln reason.message
      return exitAborted
  | step :: rest => do
    match ← perform step with
    | .ok () => performAll ending rest
    | .error e =>
      IO.eprintln e.message
      return exitAborted

end LocalizedKeys.Main

/-- Runs the program on the words of its command line. -/
def main (words : List String) : IO UInt32 := do
  match LocalizedKeys.Command.readCommandLine words with
  | .error e =>
    IO.eprintln e.message
    return LocalizedKeys.Command.exitInputError.toUInt32
  | .ok .help =>
    IO.print LocalizedKeys.Command.usage
    return LocalizedKeys.Command.exitOk.toUInt32
  | .ok (.run i) =>
    let setting ← LocalizedKeys.Main.setting
    let script := i.script setting (← LocalizedKeys.Main.readSource i.file)
    LocalizedKeys.Main.performAll script.ending script.steps
