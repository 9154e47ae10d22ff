import LocalizedKeys.Files.Path
import LocalizedKeys.Text.Quoted
import LocalizedKeys.Text.Utf8

/-!
# File trees

A tree has files and directories, and a working directory where relative paths begin. A path is
followed component by component, so it leads nowhere if a directory on the way is missing, even
when two dots would leave that directory again.

`readFile`, `writeFile` and `makeDirectories` are what the program does with files; each of them
says why it cannot.
-/

namespace LocalizedKeys.Files

/-! ## Errors -/

/-- What is wrong with a path. -/
inductive FileProblem where
  | notFound
  | exists
  | notDirectory
  | isDirectory
  | nameTooLong
  /-- The path holds the null character. -/
  | nullCharacter
deriving DecidableEq, Repr

/-- The number and wording of a problem that the system reports. -/
def FileProblem.report? : FileProblem → Option (Nat × String)
  | notFound => some (2, "No such file or directory")
  | .exists => some (17, "File exists")
  | notDirectory => some (20, "Not a directory")
  | isDirectory => some (21, "Is a directory")
  | nameTooLong => some (36, "File name too long")
  | nullCharacter => none

/-- A path with which something cannot be done. -/
structure FileError where
  problem : FileProblem
  path : Path
deriving DecidableEq, Repr

/-- What is reported about a path with which something cannot be done. -/
def FileError.message (e : FileError) : String :=
  match e.problem.report? with
  | some (number, wording) => s!"[Errno {number}] {wording}: " ++ Text.quoted e.path.text
  | none => "embedded null byte"

/-! ## Places -/

/-- A place in a tree: the names that lead to it from the top. -/
abbrev Place := List (List Char)

/-- A tree of files and directories. -/
structure Tree where
  files : List (Place × List UInt8)
  /-- The directories other than the top. -/
  directories : List Place
  /-- Where relative paths begin. -/
  working : Place
deriving Repr

namespace Tree

/-- A place and the directories that it is in, other than the top. -/
def upwards (place : Place) : List Place :=
  (List.range place.length).map fun n => place.take (n + 1)

/-- The tree that holds files, which are placed from its working directory. -/
def ofFiles (working : Place) (files : List (Place × List UInt8)) : Tree :=
  let files := files.map fun (place, bytes) => (working ++ place, bytes)
  { files
    directories := upwards working ++ files.flatMap fun (place, _) => upwards place.dropLast
    working }

/-- The contents of the file at a place. -/
def contents? (t : Tree) (place : Place) : Option (List UInt8) := t.files.lookup place

/-- Whether a directory is at a place. -/
def hasDirectory (t : Tree) (place : Place) : Bool :=
  place.isEmpty || t.directories.contains place

/-- Puts a file at a place. -/
def putFile (t : Tree) (place : Place) (bytes : List UInt8) : Tree :=
  { t with files := t.files.filter (fun file => file.1 != place) ++ [(place, bytes)] }

/-- Puts a directory at a place. -/
def putDirectory (t : Tree) (place : Place) : Tree :=
  { t with directories := t.directories ++ [place] }

/-! ## Following paths -/

/-- The number of bytes of a name. -/
def byteCount (name : List Char) : Nat := (String.ofList name).utf8ByteSize

/-- Where components lead from a place, which has to be a directory if there are any. The last
component may name nothing yet. -/
def follow (t : Tree) (place : Place) : List (List Char) → Except FileProblem Place
  | [] => .ok place
  | name :: rest =>
    if (t.contents? place).isSome then .error .notDirectory
    else if !t.hasDirectory place then .error .notFound
    -- the directory above the top is the top
    else if name = ['.', '.'] then t.follow place.dropLast rest
    else if 255 < byteCount name then .error .nameTooLong
    else t.follow (place ++ [name]) rest

/-- Where a path leads. -/
def locate (t : Tree) (path : Path) : Except FileProblem Place :=
  if path.components.any fun name => name.contains '\x00' then .error .nullCharacter
  else if 4096 ≤ path.text.utf8ByteSize then .error .nameTooLong
  else t.follow (if path.root.isEmpty then t.working else []) path.components

/-- Whether a path leads to a directory. -/
def isDirectory (t : Tree) (path : Path) : Bool :=
  match t.locate path with
  | .error _ => false
  | .ok place => t.hasDirectory place

/-! ## Reading and writing -/

/-- The contents of the file at a path. -/
def readFile (t : Tree) (path : Path) : Except FileError (List UInt8) :=
  match t.locate path with
  | .error p => .error ⟨p, path⟩
  | .ok place =>
    if t.hasDirectory place then .error ⟨.isDirectory, path⟩
    else
      match t.contents? place with
      | some bytes => .ok bytes
      | none => .error ⟨.notFound, path⟩

/-- Writes a file, in the place of one that may be there. -/
def writeFile (t : Tree) (path : Path) (bytes : List UInt8) : Except FileError Tree :=
  match t.locate path with
  | .error p => .error ⟨p, path⟩
  | .ok place =>
    if t.hasDirectory place then .error ⟨.isDirectory, path⟩
    else .ok (t.putFile place bytes)

/-- Makes a directory where nothing is yet. -/
def makeDirectory (t : Tree) (path : Path) : Except FileError Tree :=
  match t.locate path with
  | .error p => .error ⟨p, path⟩
  | .ok place =>
    if t.hasDirectory place || (t.contents? place).isSome then .error ⟨.exists, path⟩
    else .ok (t.putDirectory place)

/-- Makes a directory unless there is one already. -/
def ensureDirectory (t : Tree) (path : Path) : Except FileError Tree :=
  match t.makeDirectory path with
  | .ok t => .ok t
  | .error e =>
    if e.problem ≠ .notFound ∧ e.problem ≠ .nullCharacter ∧ t.isDirectory path then .ok t
    else .error e

/-- Makes the directory of a root and of components in reverse, and the directories that it is
in, unless they are there already. -/
def makeDirectoriesUpTo (t : Tree) (root : List Char) :
    List (List Char) → Except FileError Tree
  | [] => t.ensureDirectory ⟨root, []⟩
  | name :: above =>
    let path : Path := ⟨root, (name :: above).reverse⟩
    match t.ensureDirectory path with
    | .ok t => .ok t
    | .error e =>
      if e.problem = .notFound then
        match t.makeDirectoriesUpTo root above with
        | .ok t => t.ensureDirectory path
        | .error e => .error e
      else .error e

/-- Makes a directory and those that it is in, unless they are there already. -/
def makeDirectories (t : Tree) (path : Path) : Except FileError Tree :=
  t.makeDirectoriesUpTo path.root path.components.reverse

end Tree

end LocalizedKeys.Files
