/-!
# Paths

A path is a root, if it is absolute, and components. Empty components and single dots mean
nothing and are dropped when a path is read; two dots are a component like any other. Two
slashes at the start are a root of their own, three or more are one slash.
-/

namespace LocalizedKeys.Files

/-- A path. -/
structure Path where
  /-- The slashes at the start. -/
  root : List Char
  components : List (List Char)
deriving DecidableEq, Repr

namespace Path

/-- The pieces between slashes, the first of which has begun with `current`, kept in reverse. -/
def slashPieces (current : List Char) : List Char → List (List Char)
  | [] => [current.reverse]
  | c :: rest =>
    if c = '/' then current.reverse :: slashPieces [] rest else slashPieces (c :: current) rest

/-- The root of a path that is written in some way. -/
def rootOf (cs : List Char) : List Char :=
  match (cs.takeWhile (· == '/')).length with
  | 0 => []
  | 2 => ['/', '/']
  | _ => ['/']

/-- The path that is written in some way. -/
def ofChars (cs : List Char) : Path :=
  ⟨rootOf cs, (slashPieces [] cs).filter fun piece => !piece.isEmpty && piece != ['.']⟩

/-- The path that a text spells. -/
def ofText (text : String) : Path := ofChars text.toList

/-- A path as text; a single dot if nothing is in it. -/
def text (path : Path) : String :=
  if path.root.isEmpty && path.components.isEmpty then "."
  else String.ofList path.root ++ "/".intercalate (path.components.map String.ofList)

/-- The last component; empty if there is none. -/
def name (path : Path) : List Char := path.components.getLast?.getD []

/-- A file in the directory at a path. -/
def child (path : Path) (file : List Char) : Path :=
  { path with components := path.components ++ [file] }

/-- The directory that a path is in. -/
def parent (path : Path) : Path := { path with components := path.components.dropLast }

end Path

end LocalizedKeys.Files
