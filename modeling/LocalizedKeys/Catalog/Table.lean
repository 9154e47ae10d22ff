import LocalizedKeys.Expansion.Member
import LocalizedKeys.Files.Path

/-!
# Which catalog a table is

The table of a lookup names a catalog if it is the default one, or a simple literal whose value
can be the name of a file: one path component that is neither a single dot nor contains a
backslash or a null character.
-/

namespace LocalizedKeys.Catalog

open Swift

/-- The catalog of the default table. -/
def defaultCatalog : String := "Localizable"

/-- Whether a value can be the name of a file. -/
def isFileName (name : List Char) : Bool :=
  !name.isEmpty && (Files.Path.ofChars name).name == name
    && !name.contains '\\' && !name.contains '\x00'

/-- The name of the catalog for a table expression. -/
def tableName? (table : String) : Option String :=
  if table = Expansion.defaultTable then some defaultCatalog
  else if isSimpleLiteral table then
    let name := decodeLiteral table
    if isFileName name.toList then some name else none
  else none

end LocalizedKeys.Catalog
