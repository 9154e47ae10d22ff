import LocalizedKeys.Command.Script

/-!
# Running commands on file trees

`perform` runs a script on a tree and collects what it prints, reports and writes. A step that
fails ends the run; what was done before it remains.
-/

namespace LocalizedKeys.Command

open Files

/-- What a run has done. -/
structure Run where
  /-- What was written to the standard output. -/
  output : String
  /-- What was written to the standard error. -/
  reported : String
  tree : Tree
  ending : Ending
deriving Repr

/-- Runs steps on a tree after what was written already, up to one that fails. -/
def performSteps (output reported : String) (tree : Tree) (ending : Ending) : List Step → Run
  | [] => ⟨output, reported, tree, ending⟩
  | .print text :: rest => performSteps (output ++ text) reported tree ending rest
  | .report text :: rest => performSteps output (reported ++ text) tree ending rest
  | .makeDirectories path :: rest =>
    match tree.makeDirectories path with
    | .error e => ⟨output, reported, tree, .abort (.file e)⟩
    | .ok tree => performSteps output reported tree ending rest
  | .writeFile path text :: rest =>
    match tree.writeFile path (Text.encodeUtf8 text) with
    | .error e => ⟨output, reported, tree, .abort (.file e)⟩
    | .ok tree => performSteps output reported tree ending rest

/-- Runs a script on a tree. -/
def Script.perform (s : Script) (tree : Tree) : Run := performSteps "" "" tree s.ending s.steps

/-- Reads the source of a command, which may be the standard input. -/
def Invocation.readSource (i : Invocation) (tree : Tree) (input : List UInt8) :
    Except FileError (List UInt8) :=
  if i.file = "-" then .ok input else tree.readFile (.ofText i.file)

/-- Runs a command on a tree. -/
def Invocation.run (i : Invocation) (setting : Setting) (tree : Tree) (input : List UInt8) : Run :=
  (i.script setting (i.readSource tree input)).perform tree

end LocalizedKeys.Command
